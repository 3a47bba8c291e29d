import Tabular.Proofs.Reader.Drained
import Tabular.Proofs.Schema.Presence

/-!
# Rows whose kinds agree

Where no path is a map in one row and a text in another, nothing is refused: every path of every row
is registered, no row has a conflict, and its record is the row itself.

* `KindsAgree`, `kindsAgree_of_walk`: the agreement, and where it need be looked for;
* **`registered_eq_some_iff_exists`**: the registered paths, told without the order of the rows;
* `agreesInAll_iff_forall`: the paths that every row counts for;
* **`conflictsAll_eq_nil`**: no row has a conflict;
* **`record_fold_of_kindsAgree`**: the record of a row.
-/

namespace Tabular

open Tabular.Field (Agrees Clashes)

namespace Field

variable {fs : List Field} {f : Field} {path q : Path}

/-! ## Fields at paths -/

/-- What leads to a field is a field. -/
theorem kindAt_ne_none_of_prefix (h : kindAt path fs ≠ none) (hq : q <+: path) (hne : q ≠ []) :
    kindAt q fs ≠ none := by
  induction q generalizing path fs with
  | nil => exact absurd rfl hne
  | cons n q ih =>
    obtain ⟨rest, rfl⟩ : ∃ rest, path = n :: rest := by
      obtain ⟨more, rfl⟩ := hq
      exact ⟨q ++ more, rfl⟩
    cases hn : named? n fs with
    | none => exact absurd (kindAt_cons_of_none hn rest) h
    | some f =>
      rw [kindAt_cons_of_some hn]
      by_cases hnil : q = []
      · rw [if_pos hnil]
        exact Option.some_ne_none _
      · have hrest : rest ≠ [] := by
          rintro rfl
          exact hnil (List.prefix_nil.mp (List.cons_prefix_cons.mp hq).2)
        rw [if_neg hnil]
        rw [kindAt_cons_of_some hn, if_neg hrest] at h
        exact ih h (List.cons_prefix_cons.mp hq).2 hnil

theorem mem_walkIn (above : Path) (f : Field) : (above ++ [f.name], f) ∈ walkIn above f := by
  cases f <;> simp [walkIn, name]

theorem mem_walk_of_mem {above : Path} {e : Path × Field} (hf : f ∈ fs) (he : e ∈ walkIn above f) :
    e ∈ walk above fs := by
  induction fs with
  | nil => cases hf
  | cons g rest ih =>
    rcases List.mem_cons.mp hf with rfl | hf
    · exact List.mem_append_left _ he
    · exact List.mem_append_right _ (ih hf)

theorem walkIn_of_below {above : Path} {e : Path × Field} (he : e ∈ walk (above ++ [f.name]) f.fields) :
    e ∈ walkIn above f := by
  cases f with
  | scalar n h v => cases he
  | map n h fs => exact List.mem_cons_of_mem _ he

/-- A field at a path is met by the walk. -/
theorem mem_walk_of_find? (h : find? path fs = some f) (above : Path) :
    (above ++ path, f) ∈ walk above fs := by
  induction path generalizing fs above with
  | nil => cases h
  | cons n rest ih =>
    rw [find?_cons, Option.bind_eq_some_iff] at h
    obtain ⟨g, hg, hrest⟩ := h
    refine mem_walk_of_mem (List.mem_of_find?_eq_some hg) ?_
    have hname := name_of_named? hg
    by_cases hr : rest = []
    · rw [if_pos hr] at hrest
      cases hrest
      rw [hr, ← hname]
      exact mem_walkIn above f
    · rw [if_neg hr] at hrest
      refine walkIn_of_below ?_
      rw [hname, List.append_cons above n rest]
      exact ih hrest (above ++ [n])

theorem entriesOf_eq_map (fs : List Field) :
    entriesOf fs = fs.map fun f => (f.name, f.toValue) := by
  induction fs with
  | nil => rfl
  | cons f rest ih => rw [entriesOf, ih, List.map_cons]

end Field

/-! ## Agreement of rows -/

section Rows

variable {rows before : List Row} {row : Row} {path : Path} {kind : Kind}

/-- No path is a map in one of the rows and a text in another. -/
def KindsAgree (rows : List Row) : Prop :=
  ∀ row ∈ rows, ∀ row' ∈ rows, ∀ path kind kind', Field.kindAt path row.fields = some kind →
    Field.kindAt path row'.fields = some kind' → kind = kind'

/-- Agreement need be looked for at the paths of the fields only. -/
theorem kindsAgree_of_walk (h : ∀ row ∈ rows, ∀ row' ∈ rows, ∀ e ∈ Field.walk [] row.fields,
    Field.kindAt e.1 row'.fields = none ∨ Field.kindAt e.1 row'.fields = some e.2.kind) :
    KindsAgree rows := by
  intro row hrow row' hrow' path kind kind' hk hk'
  rw [Field.kindAt, Option.map_eq_some_iff] at hk
  obtain ⟨f, hf, rfl⟩ := hk
  have hsame := h row hrow row' hrow' _ (Field.mem_walk_of_find? hf [])
  rw [List.nil_append, hk'] at hsame
  exact (Option.some.inj (hsame.resolve_left (Option.some_ne_none kind'))).symm

theorem exists_of_registered (h : registered rows path = some kind) :
    ∃ row ∈ rows, Field.kindAt path row.fields = some kind := by
  obtain ⟨i, row, hfirst, hkind⟩ := registered_eq_some_iff.mp h
  exact ⟨row, List.mem_of_getElem? hfirst.place, hkind⟩

/-- **Every path of a row agrees** with what other rows registered. -/
theorem KindsAgree.agrees (h : KindsAgree rows) (hs : before ⊆ rows) (hrow : row ∈ rows)
    (hk : Field.kindAt path row.fields ≠ none) : Agrees (registered before) row.fields path := by
  intro q hq hne
  have hsome := Field.kindAt_ne_none_of_prefix hk hq hne
  refine ⟨hsome, ?_⟩
  cases hreg : registered before q with
  | none => exact Or.inl rfl
  | some kind =>
    obtain ⟨row', hrow', hkind⟩ := exists_of_registered hreg
    cases hfield : Field.kindAt q row.fields with
    | none => exact absurd hfield hsome
    | some kind' =>
      exact Or.inr (congrArg some (h row' (hs hrow') row hrow q kind kind' hkind hfield))

/-- **The registered paths are those of the rows**, whatever their order. -/
theorem registered_eq_some_iff_exists (h : KindsAgree rows) :
    registered rows path = some kind ↔ ∃ row ∈ rows, Field.kindAt path row.fields = some kind := by
  refine ⟨exists_of_registered, ?_⟩
  rintro ⟨row, hrow, hkind⟩
  have hsome : Field.kindAt path row.fields ≠ none := by
    rw [hkind]
    exact Option.some_ne_none kind
  cases hreg : registered rows path with
  | none =>
    -- the row would have registered the path itself
    have hp : path ≠ [] := by
      rintro rfl
      cases hkind
    obtain ⟨i, hi⟩ := List.getElem?_of_mem hrow
    exact absurd (h.agrees (List.take_subset i rows) hrow hsome)
      (not_agrees_of_registered_eq_none hp hreg i row hi)
  | some kind' =>
    obtain ⟨row', hrow', hkind'⟩ := exists_of_registered hreg
    exact congrArg some (h row' hrow' row hrow path kind' kind hkind' hkind)

/-- A path agrees in all rows just if every row has it. -/
theorem agreesInAll_iff_forall (h : KindsAgree rows) (hp : path ≠ []) :
    AgreesInAll rows path ↔ ∀ row ∈ rows, Field.kindAt path row.fields ≠ none := by
  constructor
  · intro hall row hrow
    obtain ⟨i, hi⟩ := List.getElem?_of_mem hrow
    exact (hall i row hi).kindAt_ne_none hp
  · intro hall i row hi
    have hrow := List.mem_of_getElem? hi
    exact h.agrees (List.take_subset i rows) hrow (hall row hrow)

end Rows

/-! ## Records without a conflict -/

namespace Shape

variable {ss : List Shape} {fs : List Field} {row : Int} {above : Path}

/-- The record of some fields, field by field. -/
theorem entries_absorb (hn : (fs.map Field.name).Nodup) (row : Int) (path : Path)
    (ss : List Shape) :
    (absorb row path ss fs).entries =
      fs.map fun f => (f.name, (meet row path (named? f.name ss) f).value) := by
  induction fs generalizing ss with
  | nil => rfl
  | cons f rest ih =>
    rw [List.map_cons, List.nodup_cons] at hn
    show (absorbField row path ss f).entries ++ (absorb row path _ rest).entries = _
    rw [(absorbField_eq row path ss f).2.1, ih hn.2, List.map_cons, List.singleton_append]
    refine congrArg _ (List.map_congr_left fun g hg => ?_)
    rw [named?_absorbField_of_ne]
    intro he
    exact hn.1 (he ▸ List.mem_map_of_mem hg)

/-- **Fields of which each agrees are their own record.** -/
theorem entries_absorb_of_agrees (hd : Field.Distinct fs)
    (h : ∀ path, Field.kindAt path fs ≠ none → Agrees (kindAt · ss) fs path) :
    (absorb row above ss fs).entries = Field.entriesOf fs := by
  induction fs using Field.induction_below generalizing above ss with
  | below fs ih =>
    rw [entries_absorb hd.nodup, Field.entriesOf_eq_map]
    refine List.map_congr_left fun f hf => ?_
    have field := Field.named?_of_mem hd.nodup hf
    have hself : Field.kindAt [f.name] fs ≠ none := by
      rw [Field.kindAt_cons_of_some field]
      exact Option.some_ne_none _
    obtain ⟨g, hg, accepts, -⟩ := agrees_shapes_cons.mp (h [f.name] hself)
    cases field.symm.trans hg
    have hbelow : (absorb row (above ++ [f.name]) (inner (named? f.name ss)) f.fields).entries =
        Field.entriesOf f.fields := by
      refine ih f hf (hd.named? field) fun path hk => ?_
      cases path with
      | nil => exact Field.agrees_nil _ _
      | cons n rest =>
        refine (agrees_of_taken field accepts _).mp (h (f.name :: n :: rest) ?_)
        rwa [Field.kindAt_cons_of_some field, if_neg (List.cons_ne_nil n rest)]
    rw [(meet_of_accepts row above accepts).2.2.2.1, hbelow]
    cases f <;> rfl

end Shape

/-! ## Schemas -/

namespace RowSchema

variable {rows before : List Row} {row : Row}

theorem agrees_shapes_of_kindsAgree (hr : Row.AllRegular rows) (h : KindsAgree rows)
    (hs : before ⊆ rows) (hrow : row ∈ rows) {path : Path}
    (hk : Field.kindAt path row.fields ≠ none) :
    Agrees (Shape.kindAt · (Shape.ofRows before)) row.fields path := by
  have hagrees := h.agrees hs hrow hk
  rwa [registered_eq fun r hmem => hr r (hs hmem)] at hagrees

/-- **A row whose kinds agree has no conflict.** -/
theorem conflicts_fold_of_kindsAgree (hr : Row.AllRegular rows) (h : KindsAgree rows)
    (hs : before ⊆ rows) (hrow : row ∈ rows) (p : Projection) :
    (((start p).foldAll before).1.fold row).conflicts = [] := by
  rw [conflicts_fold_start (fun r hmem => hr r (hs hmem)) (hr row hrow), List.eq_nil_iff_forall_not_mem]
  intro c hc
  obtain ⟨path, -, -, hclash⟩ := (Shape.mem_conflicts_absorb (hr row hrow).distinct _ _ _ c).mp hc
  have hp : path ≠ [] := by
    rintro rfl
    cases hclash.finds
  obtain ⟨hno, -, hk⟩ := (Field.exists_clashes_iff hp).mp ⟨_, _, hclash⟩
  exact hno (agrees_shapes_of_kindsAgree hr h hs hrow hk)

/-- **No row has a conflict** where all kinds agree. -/
theorem conflictsAll_eq_nil (hr : Row.AllRegular rows) (h : KindsAgree rows) (p : Projection) :
    (start p).conflictsAll rows = [] := by
  suffices hall : ∀ before, before ⊆ rows → (start p).conflictsAll before = [] from
    hall rows fun _ hmem => hmem
  intro before hs
  induction before using List.reverseRecOn with
  | nil => rfl
  | append_singleton before row ih =>
    have hbefore : before ⊆ rows := fun r hmem => hs (List.mem_append_left _ hmem)
    have hrow : row ∈ rows := hs (List.mem_append_right _ (List.mem_singleton_self row))
    rw [conflictsAll_append, ih hbefore, List.nil_append, conflictsAll, conflictsAll,
      List.append_nil, conflicts_fold_of_kindsAgree hr h hbefore hrow]

/-- **The record of a row** is its attributes and its fields where all kinds agree. -/
theorem record_fold_of_kindsAgree (hr : Row.AllRegular rows) (h : KindsAgree rows)
    (hs : before ⊆ rows) (hrow : row ∈ rows) (p : Projection) :
    (((start p).foldAll before).1.fold row).record =
      (start p).opening row ++ Field.entriesOf row.fields := by
  rw [record_fold_start (fun r hmem => hr r (hs hmem)) (hr row hrow)]
  exact congrArg _ (Shape.entries_absorb_of_agrees (hr row hrow).distinct
    fun path hk => agrees_shapes_of_kindsAgree hr h hs hrow hk)

end RowSchema

end Tabular
