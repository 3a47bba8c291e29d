import Tabular.Proofs.Schema.Single

/-!
# The attributes column

The attributes column of a batch has a map for each row, under the keys that its schema has met so
far, with null where the row has none.

* `Projection.Captures`: every column, or the attributes only;
* `RowSchema.Captures`, `RowSchema.knows`: schemas with such a projection, and the keys they met;
* `Value.Captured`, **`column_attributes`**: the column of the batch of some rows;
* `Batch.SameAttributes`, **`sameAttributes_iff`**: two batches show the same attributes just if
  their rows have the same.
-/

namespace Tabular

/-! ## Projections -/

/-- Every column, or the attributes only. -/
def Projection.Captures (p : Projection) : Prop :=
  p = .all ∨ p = .ofNames [attributesName]

namespace Projection.Captures

variable {p : Projection}

theorem wantsAttributes (h : p.Captures) : p.wantsAttributes = true := by
  rcases h with rfl | rfl
  · rfl
  · exact admits_ofNames.mpr (List.mem_singleton_self _)

theorem admitsAttribute (h : p.Captures) (key : String) : p.admitsAttribute key = true := by
  rcases h with rfl | rfl
  · rfl
  · exact admits_ofNames.mpr (List.mem_singleton_self _)

end Projection.Captures

/-! ## Schemas -/

/-- A row whose fields keep clear of its attributes, each of which has a text. -/
structure Row.IsPlain (row : Row) : Prop where
  unreserved : attributesName ∉ row.fields.map Field.name
  texts : ∀ key, Entries.get? key row.attributes ≠ some none

namespace RowSchema

variable {s : RowSchema} {row : Row} {rows : List Row} {key : String}

/-- The schema has met an attribute of that key. -/
def knows (s : RowSchema) (key : String) : Bool :=
  (Shape.kindAt [attributesName, key] s.shapes).isSome

/-- A schema for attributes that are texts. -/
structure Captures (s : RowSchema) : Prop where
  projection : s.projection.Captures
  hasAttributes : s.HasAttributes
  distinct : Shape.Distinct s.shapes
  texts : ∀ key, Shape.kindAt [attributesName, key] s.shapes ≠ some .map

theorem captures_start {p : Projection} (h : p.Captures) : (start p).Captures := by
  refine ⟨h, hasAttributes_start p, distinct_start p, fun key hkey => ?_⟩
  rw [start, if_pos (by exact h.wantsAttributes)] at hkey
  cases hkey

theorem knows_start {p : Projection} (h : p.Captures) (key : String) :
    (start p).knows key = false := by
  rw [knows, start, if_pos (by exact h.wantsAttributes)]
  rfl

/-- The kinds of the attributes after one more row. -/
theorem kindAt_fold (h : s.Captures) (hr : row.IsPlain) (key : String) :
    Shape.kindAt [attributesName, key] (s.fold row).schema.shapes =
      if key ∈ Entries.keys row.attributes then
        some ((Shape.kindAt [attributesName, key] s.shapes).getD .scalar)
      else Shape.kindAt [attributesName, key] s.shapes := by
  obtain ⟨seen, inner, hs, hattr⟩ := named?_attributed h.hasAttributes h.projection.wantsAttributes
    row
  have hne : [key] ≠ [] := List.cons_ne_nil key []
  rw [shapes_fold, Shape.kindAt_cons hne, Shape.named?_absorb_of_not_mem hr.unreserved, hattr,
    Shape.kindAt_cons hne, hs]
  exact Shape.kindAt_foldl_touch key _ inner

theorem Captures.fold (h : s.Captures) (hr : row.IsPlain) : (s.fold row).schema.Captures := by
  refine ⟨h.projection, h.hasAttributes.fold row, distinct_fold row h.distinct, fun key => ?_⟩
  rw [kindAt_fold h hr]
  have htext := h.texts key
  split
  · cases hk : Shape.kindAt [attributesName, key] s.shapes with
    | none => simp
    | some kind =>
      rw [hk] at htext
      exact htext
  · exact htext

theorem knows_fold (h : s.Captures) (hr : row.IsPlain) (key : String) :
    (s.fold row).schema.knows key = (Entries.has key row.attributes || s.knows key) := by
  rw [knows, kindAt_fold h hr]
  cases hk : Entries.has key row.attributes with
  | true => rw [if_pos (Entries.has_iff.mp hk), Option.isSome_some, Bool.true_or]
  | false =>
    rw [if_neg, Bool.false_or, knows]
    rw [← Entries.has_iff, hk]
    exact Bool.false_ne_true

theorem Captures.foldAll (h : s.Captures) (hr : ∀ row ∈ rows, row.IsPlain) :
    (s.foldAll rows).1.Captures := by
  induction rows generalizing s with
  | nil => exact h
  | cons row rest ih =>
    exact ih (h.fold (hr row List.mem_cons_self)) fun r hmem => hr r (List.mem_cons_of_mem row hmem)

theorem knows_foldAll (h : s.Captures) (hr : ∀ row ∈ rows, row.IsPlain) (key : String) :
    (s.foldAll rows).1.knows key =
      ((rows.any fun row => Entries.has key row.attributes) || s.knows key) := by
  induction rows generalizing s with
  | nil => rfl
  | cons row rest ih =>
    have hrow := hr row List.mem_cons_self
    rw [foldAll, ih (h.fold hrow) fun r hmem => hr r (List.mem_cons_of_mem row hmem),
      knows_fold h hrow, List.any_cons]
    cases Entries.has key row.attributes <;> simp

theorem get?_attributes_fold (h : s.Captures) (hr : row.IsPlain) :
    Entries.get? attributesName (s.fold row).record =
      some (.map (attributeEntries row.attributes)) := by
  rw [record_fold, Entries.get?_putAll_of_not_mem, opening, if_pos h.projection.wantsAttributes,
    Entries.get?, if_pos rfl]
  rw [Shape.keys_absorb]
  exact hr.unreserved

theorem attributes_foldAll (h : s.Captures) (hr : ∀ row ∈ rows, row.IsPlain) :
    (s.foldAll rows).2.map (Entries.get? attributesName) =
      rows.map fun row => some (.map (attributeEntries row.attributes)) := by
  induction rows generalizing s with
  | nil => rfl
  | cons row rest ih =>
    have hrow := hr row List.mem_cons_self
    rw [foldAll, List.map_cons, List.map_cons, get?_attributes_fold h hrow,
      ih (h.fold hrow) fun r hmem => hr r (List.mem_cons_of_mem row hmem)]

/-- Room for what is asked for leaves the attributes as they are. -/
theorem named?_held (h : s.Captures) :
    Shape.named? attributesName s.held = Shape.named? attributesName s.shapes := by
  obtain ⟨seen, inner, hs, _⟩ := named?_attributed h.hasAttributes h.projection.wantsAttributes
    (default : Row)
  rcases h.projection with hp | hp
  · rw [held, hp]
    rfl
  · rw [held, hp]
    refine (Shape.named?_foldl_hold attributesName [attributesName] s.shapes).trans ?_
    rw [if_pos (List.mem_singleton_self _), hs]
    rfl

end RowSchema

/-! ## Columns -/

/-- A map under just the known keys, with the texts of some attributes. -/
def Value.Captured (knows : String → Bool) (attributes : Entries (Option String)) (v : Value) :
    Prop :=
  ∃ es, v = .map es ∧ ∀ key, Entries.get? key es =
    if knows key then some (.ofText? ((Entries.get? key attributes).getD none)) else none

namespace RowSchema

variable {s : RowSchema} {rows : List Row}

/-- What the attributes of a record are padded to. -/
theorem follow_attributes (h : s.Captures) : ∃ shown : Entries (Option String) → Value,
    (∀ attributes, (shown attributes).Captured s.knows attributes) ∧
      ∀ record attributes,
        Entries.get? attributesName record = some (.map (attributeEntries attributes)) →
          (Value.map (Snapshot.padWith (Shape.branches s.rows [] s.held) record)).follow
            attributesPath = shown attributes := by
  obtain ⟨seen, inner, hs, _⟩ := named?_attributed h.hasAttributes h.projection.wantsAttributes
    (default : Row)
  refine ⟨fun attributes => .map (Snapshot.padWith (Shape.branches s.rows [attributesName] inner)
    (attributeEntries attributes)), fun attributes => ⟨_, rfl, fun key => ?_⟩,
    fun record attributes hrecord => ?_⟩
  · have hkind : Shape.kindAt [attributesName, key] s.shapes =
        (Shape.named? key inner).map Shape.kind := by
      rw [Shape.kindAt_cons (List.cons_ne_nil key []), hs]
      exact Shape.kindAt_singleton key inner
    have htext := h.texts key
    have hinner : Shape.Distinct inner := h.distinct.named? hs
    rw [Shape.get?_padWith hinner, knows, hkind]
    rw [hkind] at htext
    cases hn : Shape.named? key inner with
    | none => rfl
    | some t =>
      obtain rfl := Shape.name_of_named? hn
      rw [hn] at htext
      cases t with
      | map n k deeper => exact absurd rfl htext
      | scalar n k =>
        rw [Option.map_some, Shape.pad_scalar, Shape.name, attributeEntries, Entries.get?_map]
        cases Entries.get? n attributes with
        | none => rfl
        | some v => cases v <;> rfl
  · show (Entries.get? attributesName (Snapshot.padWith _ record)).getD Value.null = _
    rw [Shape.get?_padWith (distinct_held h.distinct), named?_held h, hs, Option.map_some,
      Shape.pad_map, hrecord]
    rfl

/-- **The attributes column** of the batch of some rows. -/
theorem column_attributes (h : s.Captures) (hr : ∀ row ∈ rows, row.IsPlain) (index : Nat) :
    ∃ shown : Entries (Option String) → Value,
      (∀ attributes, (shown attributes).Captured (s.foldAll rows).1.knows attributes) ∧
        (Batch.ofRecords (s.foldAll rows).1.snapshot (s.foldAll rows).2 index).column
          attributesPath = rows.map fun row => shown row.attributes := by
  have hfolded := h.foldAll hr
  obtain ⟨shown, hshown, hfollow⟩ := follow_attributes hfolded
  refine ⟨shown, hshown, ?_⟩
  rw [column_ofRecords hfolded.distinct]
  refine List.ext_getElem? fun i => ?_
  have hget := congrArg (fun l => l[i]?) (attributes_foldAll h hr)
  simp only [List.getElem?_map] at hget ⊢
  cases hrow : rows[i]? with
  | none =>
    rw [hrow, Option.map_none, Option.map_eq_none_iff] at hget
    rw [hget]
    rfl
  | some row =>
    rw [hrow, Option.map_some, Option.map_eq_some_iff] at hget
    obtain ⟨record, hrecord, hattr⟩ := hget
    rw [hrecord, Option.map_some, Option.map_some, hfollow record row.attributes hattr]

end RowSchema

/-! ## Pairs of batches -/

/-- Two maps with the same values under the same keys. -/
def Value.SameMap (v v' : Value) : Prop :=
  ∃ es es', v = .map es ∧ v' = .map es' ∧ ∀ key, Entries.get? key es = Entries.get? key es'

/-- The batches show the same attributes, row by row. -/
def Batch.SameAttributes (wide narrow : Batch) : Prop :=
  List.Forall₂ Value.SameMap (wide.column attributesPath) (narrow.column attributesPath)

/-- The rows have the same attributes. -/
def Row.SameAttributes (row row' : Row) : Prop :=
  ∀ key, Entries.get? key row.attributes = Entries.get? key row'.attributes

/-- Two captured maps are the same just if the attributes are, where all of them are known. -/
theorem Value.Captured.sameMap_iff {knows knows' : String → Bool}
    {attributes attributes' : Entries (Option String)} {v v' : Value}
    (h : v.Captured knows attributes) (h' : v'.Captured knows' attributes') :
    v.SameMap v' ↔ ∀ key,
      (if knows key then some (ofText? ((Entries.get? key attributes).getD none)) else none) =
        if knows' key then some (ofText? ((Entries.get? key attributes').getD none)) else none := by
  obtain ⟨es, rfl, hes⟩ := h
  obtain ⟨es', rfl, hes'⟩ := h'
  constructor
  · rintro ⟨_, _, he, he', hsame⟩ key
    cases he
    cases he'
    rw [← hes, ← hes', hsame]
  · intro hsame
    exact ⟨es, es', rfl, rfl, fun key => by rw [hes, hes', hsame]⟩

/-- A known attribute is shown as its text, and any other key is not shown. -/
theorem Value.shown_inj {known known' : Bool} {a a' : Option (Option String)} (ha : a ≠ some none)
    (ha' : a' ≠ some none) (hk : a.isSome = true → known = true)
    (hk' : a'.isSome = true → known' = true)
    (h : (if known then some (ofText? (a.getD none)) else none) =
      if known' then some (ofText? (a'.getD none)) else none) : a = a' := by
  have hvalue : ofText? (a.getD none) = ofText? (a'.getD none) → a = a' := by
    intro heq
    rcases a with _ | _ | t
    · rcases a' with _ | _ | t'
      · rfl
      · exact absurd rfl ha'
      · cases heq
    · exact absurd rfl ha
    · rcases a' with _ | _ | t'
      · cases heq
      · exact absurd rfl ha'
      · cases heq
        rfl
  have hnone : ∀ {b : Option (Option String)}, (b.isSome = true → false = true) → b = none := by
    intro b hb
    cases b with
    | none => rfl
    | some v => cases hb rfl
  cases known with
  | true =>
    cases known' with
    | true => exact hvalue (Option.some.inj h)
    | false => cases h
  | false =>
    cases known' with
    | true => cases h
    | false => rw [hnone hk, hnone hk']

namespace RowSchema

variable {w n : RowSchema} {rows rows' : List Row}

theorem knows_of_mem (h : w.Captures) (hr : ∀ row ∈ rows, row.IsPlain) {row : Row}
    (hmem : row ∈ rows) {key : String} (hk : (Entries.get? key row.attributes).isSome = true) :
    (w.foldAll rows).1.knows key = true := by
  rw [knows_foldAll h hr, Bool.or_eq_true, List.any_eq_true]
  exact Or.inl ⟨row, hmem, hk⟩

/-- Rows with the same attributes leave schemas that know the same keys. -/
theorem knows_foldAll_congr (hw : w.Captures) (hn : n.Captures) (hr : ∀ row ∈ rows, row.IsPlain)
    (hr' : ∀ row ∈ rows', row.IsPlain) (hknows : ∀ key, w.knows key = n.knows key)
    (h : List.Forall₂ Row.SameAttributes rows rows') (key : String) :
    (w.foldAll rows).1.knows key = (n.foldAll rows').1.knows key := by
  rw [knows_foldAll hw hr, knows_foldAll hn hr', hknows]
  refine congrArg (· || n.knows key) ?_
  clear hr hr'
  induction h with
  | nil => rfl
  | cons hrow _ ih => rw [List.any_cons, List.any_cons, ih, Entries.has, Entries.has, hrow key]

/-- **Two batches show the same attributes** just if their rows have the same. -/
theorem sameAttributes_iff (hw : w.Captures) (hn : n.Captures) (hr : ∀ row ∈ rows, row.IsPlain)
    (hr' : ∀ row ∈ rows', row.IsPlain) (hknows : ∀ key, w.knows key = n.knows key) (index : Nat) :
    Batch.SameAttributes (Batch.ofRecords (w.foldAll rows).1.snapshot (w.foldAll rows).2 index)
        (Batch.ofRecords (n.foldAll rows').1.snapshot (n.foldAll rows').2 index) ↔
      List.Forall₂ Row.SameAttributes rows rows' := by
  obtain ⟨shown, hshown, hcolumn⟩ := column_attributes hw hr index
  obtain ⟨shown', hshown', hcolumn'⟩ := column_attributes hn hr' index
  rw [Batch.SameAttributes, hcolumn, hcolumn', List.forall₂_map_left_iff,
    List.forall₂_map_right_iff]
  constructor
  · intro h
    rw [List.forall₂_iff_zip] at h ⊢
    refine ⟨h.1, fun {row row'} hmem key => ?_⟩
    obtain ⟨hrow, hrow'⟩ := List.of_mem_zip hmem
    have hsame := ((hshown _).sameMap_iff (hshown' _)).mp (h.2 hmem) key
    exact Value.shown_inj ((hr row hrow).texts key) ((hr' row' hrow').texts key)
      (knows_of_mem hw hr hrow) (knows_of_mem hn hr' hrow') hsame
  · intro h
    have hknow := knows_foldAll_congr hw hn hr hr' hknows h
    refine h.imp fun row row' hsame => ?_
    rw [(hshown _).sameMap_iff (hshown' _)]
    intro key
    rw [hknow, hsame key]

end RowSchema

end Tabular
