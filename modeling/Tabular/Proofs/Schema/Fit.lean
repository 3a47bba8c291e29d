import Tabular.Proofs.Reader.Windows
import Tabular.Proofs.Schema.Growth
import Tabular.Proofs.Schema.Pad

/-!
# Records and the shapes they come to

A record has nothing where the shapes it came to have nothing, and its values are texts, maps of
such values, and nulls.

* `Shape.Fits`: a record has nothing outside some shapes;
* `Value.IsCell`: a value as records hold them;
* **`fits_absorb`**, `isCell_absorb`: the record of some fields;
* `RowSchema.HasAttributes`, **`fits_foldAll`**, `isCell_foldAll`: the records of some rows.
-/

namespace Tabular

namespace Shape

variable {ss ss' : List Shape} {es later : Entries Value} {name : String} {v : Value}

/-- A record has nothing where the shapes have nothing. -/
def Fits (ss : List Shape) (es : Entries Value) : Prop :=
  ∀ path, path ≠ [] → kindAt path ss = none → (Value.map es).follow path = .null

theorem Fits.mono (h : Fits ss es) (hg : Grows ss ss') : Fits ss' es := by
  intro path hp hk
  refine h path hp ?_
  cases hs : kindAt path ss with
  | none => rfl
  | some kind =>
    rw [hg path kind hs] at hk
    cases hk

theorem fits_nil (ss : List Shape) : Fits ss [] := by
  intro path hp _
  obtain ⟨n, rest, rfl⟩ := List.exists_cons_of_ne_nil hp
  exact Value.follow_null rest

/-- A record that has at each name what one of two others has. -/
theorem Fits.of_or {both : Entries Value} (h : Fits ss es) (h' : Fits ss later)
    (hb : ∀ n, Entries.get? n both = Entries.get? n es ∨
      Entries.get? n both = Entries.get? n later) : Fits ss both := by
  intro path hp hk
  have hone := h path hp hk
  have htwo := h' path hp hk
  obtain ⟨n, rest, rfl⟩ := List.exists_cons_of_ne_nil hp
  rw [Value.follow, Value.entries] at hone htwo ⊢
  rcases hb n with hn | hn
  · rw [hn, hone]
  · rw [hn, htwo]

/-- A record fits if each of its entries does. -/
theorem Fits.of_forall (h : ∀ e ∈ es, Fits ss [e]) : Fits ss es := by
  induction es with
  | nil => exact fits_nil ss
  | cons e rest ih =>
    refine (h e List.mem_cons_self).of_or (ih fun e he => h e (List.mem_cons_of_mem _ he)) fun n => ?_
    rw [← List.singleton_append, Entries.get?_append]
    cases Entries.get? n [e] with
    | none => exact Or.inr rfl
    | some v => exact Or.inl rfl

theorem Fits.putAll (h : Fits ss es) (h' : ∀ e ∈ later, Fits ss [e]) :
    Fits ss (Entries.putAll es later) := by
  induction later generalizing es with
  | nil => exact h
  | cons e rest ih =>
    refine ih (h.of_or (h' e List.mem_cons_self) fun n => ?_) fun e he =>
      h' e (List.mem_cons_of_mem _ he)
    by_cases hn : n = e.1
    · subst hn
      rw [Entries.get?_put, Entries.get?, if_pos rfl]
      exact Or.inr rfl
    · exact Or.inl (Entries.get?_put_of_ne hn e.2 es)

/-- A value that is no map. -/
theorem fits_text (hn : (named? name ss).isSome = true) (hv : v.isMap = false) :
    Fits ss [(name, v)] := by
  intro path hp hk
  obtain ⟨n, rest, rfl⟩ := List.exists_cons_of_ne_nil hp
  rw [Value.follow, Value.entries, Entries.get?]
  split
  · next heq =>
    subst heq
    by_cases hr : rest = []
    · subst hr
      rw [kindAt_singleton, Option.map_eq_none_iff] at hk
      rw [hk] at hn
      cases hn
    · exact Value.follow_of_not_isMap hr hv
  · exact Value.follow_null rest

theorem fits_map {s : Shape} (hn : named? name ss = some s) (h : Fits s.shapes es) :
    Fits ss [(name, .map es)] := by
  intro path hp hk
  obtain ⟨n, rest, rfl⟩ := List.exists_cons_of_ne_nil hp
  rw [Value.follow, Value.entries, Entries.get?]
  split
  · next heq =>
    subst heq
    by_cases hr : rest = []
    · subst hr
      rw [kindAt_singleton, hn] at hk
      cases hk
    · rw [kindAt_cons hr, hn, Option.bind_some] at hk
      exact h rest hr hk
  · exact Value.follow_null rest

theorem fits_null (name : String) (ss : List Shape) : Fits ss [(name, .null)] := by
  intro path hp _
  obtain ⟨n, rest, rfl⟩ := List.exists_cons_of_ne_nil hp
  rw [Value.follow, Value.entries, Entries.get?]
  split
  · exact Value.follow_null rest
  · exact Value.follow_null rest

theorem isMap_ofText? (value : Option String) : (Value.ofText? value).isMap = false := by
  cases value <;> rfl

/-- **What some fields come to fits their shapes.** -/
theorem fits_absorb (row : Int) (path : Path) (ss : List Shape) (fs : List Field) :
    ∀ e ∈ (absorb row path ss fs).entries, Fits (absorb row path ss fs).shapes [e] := by
  induction fs using Field.induction generalizing path ss with
  | nil => exact fun e he => by cases he
  | scalar name handle value rest ih =>
    intro e he
    rcases List.mem_append.mp he with he | he
    · refine Fits.mono ?_ (grows_absorb row path _ rest)
      simp only [absorbField] at he ⊢
      split
      · next hn =>
        rw [hn] at he
        cases List.mem_singleton.mp he
        refine fits_text ?_ (isMap_ofText? value)
        rw [named?_append_of_none hn, named?_cons, if_pos (by rfl)]
        rfl
      · next hn =>
        rw [hn] at he
        cases List.mem_singleton.mp he
        refine fits_text ?_ (isMap_ofText? value)
        rw [named?_change_self again name_again, hn]
        rfl
      · next hn =>
        rw [hn] at he
        cases List.mem_singleton.mp he
        exact fits_null name ss
    · exact ih path _ e he
  | map name handle fields rest ihFields ihRest =>
    intro e he
    rcases List.mem_append.mp he with he | he
    · refine Fits.mono ?_ (grows_absorb row path _ rest)
      simp only [absorbField] at he ⊢
      split
      · next hn =>
        rw [hn] at he
        cases List.mem_singleton.mp he
        refine fits_map (s := .map name 1 _) ?_ (Fits.of_forall (ihFields (path ++ [name]) []))
        rw [named?_append_of_none hn, named?_cons, if_pos (by rfl)]
      · next hn =>
        rw [hn] at he
        cases List.mem_singleton.mp he
        exact fits_null name ss
      · next n k inner hn =>
        rw [hn] at he
        cases List.mem_singleton.mp he
        refine fits_map (s := .map n (k + 1) _) ?_ (Fits.of_forall (ihFields (path ++ [name]) inner))
        rw [named?_change_self _ (by simp), hn]
        rfl
    · exact ihRest path _ e he

end Shape

/-! ## Values of records -/

/-- A text, a map of such values, or null. -/
inductive Value.IsCell : Value → Prop where
  | null : IsCell .null
  | text (s : String) : IsCell (.text s)
  | map (es : List (String × Value)) : (∀ e ∈ es, IsCell e.2) → IsCell (.map es)

namespace Value.IsCell

theorem ofText? (value : Option String) : IsCell (.ofText? value) := by
  cases value with
  | none => exact .null
  | some s => exact .text s

theorem get? {es : Entries Value} (h : ∀ e ∈ es, IsCell e.2) (key : String) :
    IsCell ((Entries.get? key es).getD .null) := by
  induction es with
  | nil => exact .null
  | cons e rest ih =>
    rw [Entries.get?]
    split
    · exact h e List.mem_cons_self
    · exact ih fun e he => h e (List.mem_cons_of_mem _ he)

theorem follow {v : Value} (h : IsCell v) (path : Path) : IsCell (v.follow path) := by
  induction path generalizing v with
  | nil => exact h
  | cons n rest ih =>
    refine ih ?_
    cases h with
    | null => exact .null
    | text s => exact .null
    | map es h => exact get? h n

end Value.IsCell

open Shape in
/-- The record of some fields has texts, maps and nulls. -/
theorem isCell_absorb (row : Int) (path : Path) (ss : List Shape) (fs : List Field) :
    ∀ e ∈ (absorb row path ss fs).entries, e.2.IsCell := by
  induction fs using Field.induction generalizing path ss with
  | nil => exact fun e he => by cases he
  | scalar name handle value rest ih =>
    intro e he
    rcases List.mem_append.mp he with he | he
    · simp only [absorbField] at he
      split at he
      · cases List.mem_singleton.mp he
        exact .ofText? value
      · cases List.mem_singleton.mp he
        exact .ofText? value
      · cases List.mem_singleton.mp he
        exact .null
    · exact ih path _ e he
  | map name handle fields rest ihFields ihRest =>
    intro e he
    rcases List.mem_append.mp he with he | he
    · simp only [absorbField] at he
      split at he
      · cases List.mem_singleton.mp he
        exact .map _ (ihFields _ _)
      · cases List.mem_singleton.mp he
        exact .null
      · cases List.mem_singleton.mp he
        exact .map _ (ihFields _ _)
    · exact ihRest path _ e he

/-! ## Schemas -/

namespace Shape

variable {ss : List Shape} {key : String}

theorem isSome_named?_touch (ss : List Shape) (key : String) :
    (named? key (touch ss key)).isSome = true := by
  unfold touch
  split
  · next hn =>
    rw [named?_append_of_none hn, named?_cons, if_pos (by rfl)]
    rfl
  · next hn =>
    rw [named?_change_self again name_again, hn]
    rfl

theorem Grows.isSome_named? {ss' : List Shape} (hg : Grows ss ss')
    (h : (named? key ss).isSome = true) : (named? key ss').isSome = true := by
  obtain ⟨s, hs⟩ := Option.isSome_iff_exists.mp h
  have hk := hg [key] s.kind (by rw [kindAt_singleton, hs]; rfl)
  rw [kindAt_singleton, Option.map_eq_some_iff] at hk
  obtain ⟨t, ht, _⟩ := hk
  exact Option.isSome_iff_exists.mpr ⟨t, ht⟩

theorem isSome_named?_foldl_touch {keys : List String} (h : key ∈ keys) (ss : List Shape) :
    (named? key (keys.foldl touch ss)).isSome = true := by
  induction keys generalizing ss with
  | nil => cases h
  | cons k rest ih =>
    rcases List.mem_cons.mp h with rfl | h
    · exact (grows_foldl_touch rest _).isSome_named? (isSome_named?_touch ss key)
    · exact ih h _

end Shape

/-- **All rows of a window.** -/
theorem Shape.IsGrowth.foldAll {R : List Shape → List Shape → Prop} (h : Shape.IsGrowth R)
    (s : RowSchema) (rows : List Row) : R s.shapes (s.foldAll rows).1.shapes := by
  induction rows generalizing s with
  | nil => exact h.refl _
  | cons row rest ih => exact h.trans (h.fold s row) (ih _)

namespace RowSchema

variable {s : RowSchema}

/-- The shapes after the attributes of a row, which its fields come to. -/
def attributed (s : RowSchema) (row : Row) : List Shape :=
  if s.projection.wantsAttributes then withAttributes (Entries.keys row.attributes) s.shapes
  else s.shapes

/-- The record of a row before its fields. -/
def opening (s : RowSchema) (row : Row) : Entries Value :=
  if s.projection.wantsAttributes then [(attributesName, .map (attributeEntries row.attributes))]
  else []

theorem shapes_fold (s : RowSchema) (row : Row) :
    (s.fold row).schema.shapes =
      (Shape.absorb row.ordinal [] (s.attributed row) row.fields).shapes := rfl

theorem record_fold (s : RowSchema) (row : Row) :
    (s.fold row).record = Entries.putAll (s.opening row)
      (Shape.absorb row.ordinal [] (s.attributed row) row.fields).entries := rfl

/-- Attributes that are asked for have their map. -/
def HasAttributes (s : RowSchema) : Prop :=
  s.projection.wantsAttributes = true → Shape.kindAt attributesPath s.shapes = some .map

theorem hasAttributes_start (p : Projection) : (start p).HasAttributes := by
  intro hw
  rw [start, if_pos (by exact hw)]
  rfl

theorem HasAttributes.fold (h : s.HasAttributes) (row : Row) : (s.fold row).schema.HasAttributes :=
  fun hw => grows_fold s row _ _ (h hw)

/-- The map of the attributes after those of one more row. -/
theorem named?_attributed (h : s.HasAttributes) (hw : s.projection.wantsAttributes = true)
    (row : Row) :
    ∃ seen inner, Shape.named? attributesName s.shapes = some (.map attributesName seen inner) ∧
      Shape.named? attributesName (s.attributed row) = some (.map attributesName (seen + 1)
        ((Entries.keys row.attributes).foldl Shape.touch inner)) := by
  have hk := h hw
  rw [attributesPath, Shape.kindAt_singleton, Option.map_eq_some_iff] at hk
  obtain ⟨t, ht, hkind⟩ := hk
  cases t with
  | scalar n k => cases hkind
  | map n k inner =>
    obtain rfl : n = attributesName := Shape.name_of_named? ht
    refine ⟨k, inner, ht, ?_⟩
    rw [attributed, if_pos hw, withAttributes, Shape.named?_change_self _ (by simp), ht]
    rfl

theorem isMap_of_mem_attributeEntries {attributes : Entries (Option String)}
    {e : String × Value} (he : e ∈ attributeEntries attributes) :
    e.1 ∈ Entries.keys attributes ∧ e.2.IsCell ∧ e.2.isMap = false := by
  obtain ⟨a, ha, rfl⟩ := List.mem_map.mp he
  exact ⟨List.mem_map_of_mem ha, .ofText? a.2, Shape.isMap_ofText? a.2⟩

/-- **The record of one more row fits the schema after it.** -/
theorem fits_fold (h : s.HasAttributes) (row : Row) :
    Shape.Fits (s.fold row).schema.shapes (s.fold row).record := by
  rw [shapes_fold, record_fold]
  refine Shape.Fits.putAll (Shape.Fits.mono ?_ (Shape.grows_absorb row.ordinal [] _ row.fields))
    (Shape.fits_absorb row.ordinal [] _ row.fields)
  rw [opening]
  split
  · next hw =>
    obtain ⟨seen, inner, _, hn⟩ := named?_attributed h hw row
    refine Shape.fits_map hn (Shape.Fits.of_forall fun e he => ?_)
    obtain ⟨hkey, _, hmap⟩ := isMap_of_mem_attributeEntries he
    exact Shape.fits_text (Shape.isSome_named?_foldl_touch hkey inner) hmap
  · exact Shape.fits_nil _

theorem isCell_fold (s : RowSchema) (row : Row) : (Value.map (s.fold row).record).IsCell := by
  rw [record_fold]
  refine .map _ (Entries.forall_putAll ?_ (isCell_absorb row.ordinal [] _ row.fields))
  rw [opening]
  split
  · intro e he
    cases List.mem_singleton.mp he
    exact .map _ fun e he => (isMap_of_mem_attributeEntries he).2.1
  · exact fun e he => by cases he

theorem grows_foldAll (s : RowSchema) (rows : List Row) :
    Shape.Grows s.shapes (s.foldAll rows).1.shapes :=
  Shape.isGrowth_grows.foldAll s rows

theorem distinct_foldAll (rows : List Row) (h : Shape.Distinct s.shapes) :
    Shape.Distinct (s.foldAll rows).1.shapes := by
  induction rows generalizing s with
  | nil => exact h
  | cons row rest ih => exact ih (distinct_fold row h)

theorem HasAttributes.foldAll (h : s.HasAttributes) (rows : List Row) :
    (s.foldAll rows).1.HasAttributes := by
  induction rows generalizing s with
  | nil => exact h
  | cons row rest ih => exact ih (h.fold row)

/-- **The records of some rows fit the schema after all of them.** -/
theorem fits_foldAll (h : s.HasAttributes) (rows : List Row) :
    ∀ record ∈ (s.foldAll rows).2, Shape.Fits (s.foldAll rows).1.shapes record := by
  induction rows generalizing s with
  | nil => exact fun record hr => by cases hr
  | cons row rest ih =>
    intro record hr
    rcases List.mem_cons.mp hr with rfl | hr
    · exact (fits_fold h row).mono (grows_foldAll _ rest)
    · exact ih (h.fold row) record hr

theorem isCell_foldAll (s : RowSchema) (rows : List Row) :
    ∀ record ∈ (s.foldAll rows).2, (Value.map record).IsCell := by
  induction rows generalizing s with
  | nil => exact fun record hr => by cases hr
  | cons row rest ih =>
    intro record hr
    rcases List.mem_cons.mp hr with rfl | hr
    · exact isCell_fold s row
    · exact ih _ record hr

end RowSchema

end Tabular
