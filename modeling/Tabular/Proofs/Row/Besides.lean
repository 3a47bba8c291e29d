import Tabular.Proofs.Row.Field
import Tabular.Value.Entries

/-!
# Columns beside fields

The fields of a row under some names, and the columns beside them.

* `Field.besides`, `Field.texts`: the fields under other names, and their texts;
* `Laid`, `Laid.concat`, `Laid.column`: texts beside the given names, with one more of both;
* `Inside`, **`inside_changeAt`**: a change under the given names leaves what is beside them.
-/

namespace Tabular

namespace Field

variable {f : Field} {fs fs' : List Field} {names : List String} {name : String}
  {g : Field → Field} {path : Path}

/-- The fields under other names than the given ones. -/
def besides (names : List String) (fs : List Field) : List Field :=
  fs.filter fun f => f.name ∉ names

/-- The name and the text of each field. -/
def texts (fs : List Field) : Entries (Option String) :=
  fs.map fun f => (f.name, f.value?)

theorem keys_texts (fs : List Field) : Entries.keys (texts fs) = fs.map Field.name := by
  rw [texts, Entries.keys, List.map_map]
  rfl

theorem besides_cons (f : Field) (fs : List Field) : besides names (f :: fs) =
    if f.name ∈ names then besides names fs else f :: besides names fs := by
  rw [besides, List.filter_cons]
  by_cases h : f.name ∈ names <;> simp [h, besides]

/-- A change of a field under one of the names. -/
theorem besides_change (hg : ∀ f, (g f).name = f.name) (hn : name ∈ names) (fs : List Field) :
    besides names (change name g fs) = besides names fs := by
  induction fs with
  | nil => rfl
  | cons f rest ih =>
    rw [change]
    split
    · next hf => rw [besides_cons, besides_cons, hg, hf, if_pos hn, if_pos hn]
    · rw [besides_cons, besides_cons, ih]

/-- A change of another field. -/
theorem besides_change_of_not_mem (hg : ∀ f, (g f).name = f.name) (hn : name ∉ names)
    (fs : List Field) : besides names (change name g fs) = change name g (besides names fs) := by
  induction fs with
  | nil => rfl
  | cons f rest ih =>
    rw [change]
    split
    · next hf => rw [besides_cons, besides_cons, hg, hf, if_neg hn, if_neg hn, change, if_pos hf]
    · next hf =>
      rw [besides_cons, besides_cons, ih]
      split
      · rfl
      · rw [change, if_neg hf]

theorem besides_concat (f : Field) (fs : List Field) :
    besides names (fs ++ [f]) = besides names fs ++ if f.name ∈ names then [] else [f] := by
  rw [besides, List.filter_append]
  by_cases h : f.name ∈ names <;> simp [besides, h]

/-- One more name that no field has. -/
theorem besides_of_free (h : named? name fs = none) :
    besides (names ++ [name]) fs = besides names fs := by
  refine List.filter_congr fun f hf => ?_
  have hne : f.name ≠ name := by
    rintro rfl
    exact named?_eq_none.mp h (List.mem_map_of_mem hf)
  simp [hne]

theorem named?_besides (hn : name ∉ names) (fs : List Field) :
    named? name (besides names fs) = named? name fs := by
  induction fs with
  | nil => rfl
  | cons f rest ih =>
    rw [besides_cons, named?_cons]
    split
    · next hf =>
      have hne : f.name ≠ name := fun h => hn (h ▸ hf)
      rw [if_neg hne, ih]
    · rw [named?_cons, ih]

theorem texts_append (fs later : List Field) : texts (fs ++ later) = texts fs ++ texts later :=
  List.map_append

/-- Another text of a field that has one. -/
theorem texts_change_assigned {value : Option String} (hs : ∀ f ∈ fs, f.kind = .scalar)
    (hn : name ∈ fs.map Field.name) :
    texts (change name (assigned value) fs) = Entries.put name value (texts fs) := by
  induction fs with
  | nil => cases hn
  | cons f rest ih =>
    rw [change]
    split
    · next hf =>
      cases f with
      | map n h gs => cases hs _ List.mem_cons_self
      | scalar n h v =>
        have hn : n = name := hf
        simp [texts, assigned, Field.name, value?, Entries.put, hn]
    · next hf =>
      have hrest := ih (fun f h => hs f (List.mem_cons_of_mem _ h))
        ((List.mem_cons.mp hn).resolve_left (Ne.symm hf))
      have hcons : ∀ l, texts (f :: l) = (f.name, f.value?) :: texts l := fun _ => rfl
      rw [hcons, hcons, Entries.put, if_neg hf, hrest]

theorem scalar_change {value : Option String} (h : ∀ f ∈ fs, f.kind = .scalar) :
    ∀ f ∈ change name (assigned value) fs, f.kind = .scalar := by
  induction fs with
  | nil => exact h
  | cons g rest ih =>
    have hg := h g List.mem_cons_self
    have hrest := fun f hf => h f (List.mem_cons_of_mem g hf)
    intro f hf
    rw [change] at hf
    split at hf
    · rcases List.mem_cons.mp hf with rfl | hf
      · rw [kind_assigned, hg]
      · exact hrest f hf
    · rcases List.mem_cons.mp hf with rfl | hf
      · exact hg
      · exact ih hrest f hf

/-! ## Fields and columns side by side -/

/-- The fields that stand for elements under some names, with columns among them. -/
structure Laid (names : List String) (fs : List Field) : Prop where
  kept : ∀ name ∈ names, name ∈ fs.map Field.name
  scalar : ∀ f ∈ besides names fs, f.kind = .scalar
  nodup : (fs.map Field.name).Nodup

/-- Fields that differ under the given names only, and not in the names. -/
structure Inside (names : List String) (fs fs' : List Field) : Prop where
  names_eq : fs'.map Field.name = fs.map Field.name
  besides_eq : besides names fs' = besides names fs

theorem Laid.inside (h : Laid names fs) (hi : Inside names fs fs') : Laid names fs' :=
  ⟨hi.names_eq ▸ h.kept, hi.besides_eq ▸ h.scalar, hi.names_eq ▸ h.nodup⟩

theorem inside_change (hg : ∀ f, (g f).name = f.name) (hn : name ∈ names) (fs : List Field) :
    Inside names fs (change name g fs) :=
  ⟨names_change hg name fs, besides_change hg hn fs⟩

/-- A change by a path that starts with one of the names. -/
theorem inside_changeAt (hg : ∀ f, (g f).name = f.name)
    (hp : ∀ name, path.head? = some name → name ∈ names) (fs : List Field) :
    Inside names fs (changeAt path g fs) := by
  cases path with
  | nil => exact ⟨rfl, rfl⟩
  | cons n rest =>
    have hn := hp n rfl
    by_cases hr : rest = []
    · subst hr
      exact inside_change hg hn fs
    · rw [changeAt_cons_of_ne_nil hr]
      exact inside_change (fun f => name_mapFields _ f) hn fs

/-- A new field for an element that stands below the row itself. -/
theorem Laid.concat (h : Laid names fs) {f : Field} (hf : named? f.name fs = none) :
    Laid (names ++ [f.name]) (fs ++ [f]) ∧
      besides (names ++ [f.name]) (fs ++ [f]) = besides names fs := by
  have hbesides : besides (names ++ [f.name]) (fs ++ [f]) = besides names fs := by
    rw [besides_concat, besides_of_free hf]
    simp
  refine ⟨⟨fun name hn => ?_, hbesides ▸ h.scalar, nodup_concat h.nodup hf⟩, hbesides⟩
  rw [List.map_append, List.mem_append]
  exact (List.mem_append.mp hn).imp (h.kept name) id

/-- A new column. -/
theorem Laid.column (h : Laid names fs) {f : Field} (hf : named? f.name fs = none)
    (hs : f.kind = .scalar) :
    Laid names (fs ++ [f]) ∧ besides names (fs ++ [f]) = besides names fs ++ [f] := by
  have hn : f.name ∉ names := fun hn => named?_eq_none.mp hf (h.kept _ hn)
  have hbesides : besides names (fs ++ [f]) = besides names fs ++ [f] := by
    rw [besides_concat, if_neg hn]
  refine ⟨⟨fun name hn => ?_, fun g hg => ?_, nodup_concat h.nodup hf⟩, hbesides⟩
  · rw [List.map_append, List.mem_append]
    exact Or.inl (h.kept name hn)
  · rw [hbesides, List.mem_append, List.mem_singleton] at hg
    rcases hg with hg | rfl
    · exact h.scalar g hg
    · exact hs

/-- Another text of a column. -/
theorem Laid.change (h : Laid names fs) (hn : name ∉ names) (value : Option String) :
    Laid names (change name (assigned value) fs) ∧
      besides names (change name (assigned value) fs) =
        Field.change name (assigned value) (besides names fs) := by
  have hnames := names_change (g := assigned value) (name_assigned value) name fs
  have hbesides := besides_change_of_not_mem (g := assigned value) (name_assigned value) hn fs
  refine ⟨⟨hnames ▸ h.kept, ?_, hnames ▸ h.nodup⟩, hbesides⟩
  rw [hbesides]
  exact scalar_change h.scalar

theorem not_mem_besides (h : named? name fs = none) : name ∉ (besides names fs).map Field.name :=
  fun hmem => named?_eq_none.mp h
    (List.map_subset _ (List.filter_sublist (l := fs)).subset hmem)

end Field

end Tabular
