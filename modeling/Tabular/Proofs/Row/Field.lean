import Tabular.Row.Draft

/-!
# Fields by name and by path

* `named?_append`, `change_append`, `nodup_concat`: fields with one more at the end;
* `names_changeAt`, `names_addAt`: the names of the fields after a change by path;
* `Field.has`, `Growing`: a field that stands at a path, and changes that keep what is there;
* **`has_changeAt`**, **`has_addAt`**: no change by path takes a field away.
-/

namespace Tabular

namespace Field

variable {f new : Field} {fs rest : List Field} {name : String} {path : Path}

/-! ## Single fields -/

@[simp] theorem name_promoted (f : Field) : f.promoted.name = f.name := by
  cases f <;> rfl

@[simp] theorem fields_promoted (f : Field) : f.promoted.fields = f.fields := by
  cases f <;> rfl

@[simp] theorem name_mapFields (g : List Field → List Field) (f : Field) :
    (f.mapFields g).name = f.name := by
  cases f <;> rfl

@[simp] theorem kind_assigned (value : Option String) (f : Field) :
    (f.assigned value).kind = f.kind := by
  cases f <;> rfl

@[simp] theorem name_assigned (value : Option String) (f : Field) :
    (f.assigned value).name = f.name := by
  cases f <;> rfl

/-! ## Names -/

theorem named?_cons (name : String) (f : Field) (rest : List Field) :
    named? name (f :: rest) = if f.name = name then some f else named? name rest := by
  rw [named?, List.find?_cons]
  by_cases h : f.name = name
  · rw [if_pos h, h, beq_self_eq_true]
  · rw [if_neg h, beq_false_of_ne h]
    rfl

theorem name_of_named? (h : named? name fs = some f) : f.name = name := by
  have := List.find?_some h
  exact eq_of_beq this

theorem named?_eq_none {name : String} {fs : List Field} :
    named? name fs = none ↔ name ∉ fs.map Field.name := by
  rw [named?, List.find?_eq_none, List.mem_map]
  constructor
  · rintro h ⟨f, hf, rfl⟩
    exact h f hf (beq_self_eq_true _)
  · intro h f hf hn
    exact h ⟨f, hf, by simpa using hn⟩

theorem named?_of_mem (h : (fs.map Field.name).Nodup) (hf : f ∈ fs) :
    named? f.name fs = some f := by
  induction fs with
  | nil => cases hf
  | cons g rest ih =>
    rw [List.map_cons, List.nodup_cons] at h
    rw [named?_cons]
    rcases List.mem_cons.mp hf with rfl | hf
    · exact if_pos rfl
    · rw [if_neg, ih h.2 hf]
      intro hg
      exact h.1 (hg ▸ List.mem_map_of_mem hf)

theorem named?_append {name : String} {fs : List Field} (h : named? name fs = none) {f : Field}
    (hf : f.name = name) : named? name (fs ++ [f]) = some f := by
  rw [named?] at h ⊢
  rw [List.find?_append, h, List.find?_singleton, hf]
  simp

theorem change_append {name : String} {fs : List Field} (h : named? name fs = none) {f : Field}
    (hf : f.name = name) (g : Field → Field) : change name g (fs ++ [f]) = fs ++ [g f] := by
  induction fs with
  | nil => simp [change, hf]
  | cons e rest ih =>
    rw [named?, List.find?_cons] at h
    split at h
    · cases h
    · next hne =>
      rw [List.cons_append, change, if_neg (by simpa using hne), ih h]
      rfl

theorem changeAt_cons_of_ne_nil {name : String} {rest : Path} (h : rest ≠ []) (g : Field → Field)
    (fs : List Field) :
    changeAt (name :: rest) g fs = change name (fun f => f.mapFields (changeAt rest g)) fs := by
  cases rest with
  | nil => exact absurd rfl h
  | cons a rest => rfl

theorem named?_concat (key : String) (fs : List Field) (f : Field) :
    named? key (fs ++ [f]) = (named? key fs).or (if f.name = key then some f else none) := by
  rw [named?, named?, List.find?_append, List.find?_singleton]
  by_cases h : f.name = key <;> simp [h]

theorem nodup_concat {fs : List Field} {f : Field} (h : (fs.map Field.name).Nodup)
    (hf : named? f.name fs = none) : ((fs ++ [f]).map Field.name).Nodup := by
  rw [List.map_append, List.nodup_append]
  refine ⟨h, by simp, fun key hkey other hother => ?_⟩
  rw [List.map_singleton, List.mem_singleton] at hother
  rintro rfl
  exact named?_eq_none.mp hf (hother ▸ hkey)

theorem entriesOf_append (fs gs : List Field) :
    entriesOf (fs ++ gs) = entriesOf fs ++ entriesOf gs := by
  induction fs with
  | nil => rfl
  | cons f rest ih => exact congrArg ((f.name, f.toValue) :: ·) ih

theorem keys_entriesOf (fs : List Field) : Entries.keys (entriesOf fs) = fs.map Field.name := by
  induction fs with
  | nil => rfl
  | cons f rest ih => exact congrArg (f.name :: ·) ih

/-! ## Fields that are there -/

/-- A field stands at the path. -/
def has (path : Path) (fs : List Field) : Bool :=
  (find? path fs).isSome

theorem find?_cons_of_ne_nil {rest : Path} (h : rest ≠ []) (fs : List Field) :
    find? (name :: rest) fs = (named? name fs).bind fun f => find? rest f.fields := by
  cases rest with
  | nil => exact absurd rfl h
  | cons n rest => rfl

theorem named?_change_self (g : Field → Field) (hg : ∀ f, (g f).name = f.name) (fs : List Field) :
    named? name (change name g fs) = (named? name fs).map g := by
  induction fs with
  | nil => rfl
  | cons f rest ih =>
    by_cases hf : f.name = name
    · rw [change, if_pos hf, named?_cons, hg, if_pos hf, named?_cons, if_pos hf]
      rfl
    · rw [change, if_neg hf, named?_cons, if_neg hf, named?_cons, if_neg hf, ih]

theorem named?_change_of_ne {other : String} (h : name ≠ other) (g : Field → Field)
    (hg : ∀ f, (g f).name = f.name) (fs : List Field) :
    named? name (change other g fs) = named? name fs := by
  induction fs with
  | nil => rfl
  | cons f rest ih =>
    by_cases hf : f.name = other
    · rw [change, if_pos hf, named?_cons, hg, hf, if_neg (Ne.symm h), named?_cons, hf,
        if_neg (Ne.symm h)]
    · rw [change, if_neg hf, named?_cons, named?_cons, ih]

theorem names_change {g : Field → Field} (hg : ∀ f, (g f).name = f.name) (other : String)
    (fs : List Field) : (change other g fs).map Field.name = fs.map Field.name := by
  induction fs with
  | nil => rfl
  | cons f rest ih =>
    rw [change]
    split
    · rw [List.map_cons, List.map_cons, hg]
    · rw [List.map_cons, List.map_cons, ih]

theorem names_changeAt {g : Field → Field} (hg : ∀ f, (g f).name = f.name) (path : Path)
    (fs : List Field) : (changeAt path g fs).map Field.name = fs.map Field.name := by
  cases path with
  | nil => rfl
  | cons n rest =>
    by_cases hr : rest = []
    · subst hr
      exact names_change hg n fs
    · rw [changeAt_cons_of_ne_nil hr]
      exact names_change (fun f => name_mapFields _ f) n fs

/-- Only a field of the row itself adds to the names of its fields. -/
theorem names_addAt (path : Path) (new : Field) (fs : List Field) :
    (addAt path new fs).map Field.name =
      if path = [] then fs.map Field.name ++ [new.name] else fs.map Field.name := by
  cases path with
  | nil => rw [addAt, if_pos rfl, List.map_append, List.map_singleton]
  | cons n rest =>
    rw [addAt, if_neg (List.cons_ne_nil n rest)]
    exact names_change (fun f => by simp) n fs

/-- A change of fields that keeps what is there. -/
structure Growing (g : Field → Field) : Prop where
  name : ∀ f, (g f).name = f.name
  kind : ∀ f, f.kind = .map → (g f).kind = .map
  has : ∀ f path, has path f.fields = true → has path (g f).fields = true

theorem growing_promoted : Growing promoted :=
  ⟨name_promoted, fun f _ => by cases f <;> rfl, fun f path h => by rwa [fields_promoted]⟩

theorem growing_assigned (value : Option String) : Growing (assigned value) :=
  ⟨name_assigned value, fun f h => by rw [kind_assigned, h], fun f path h => by cases f <;> exact h⟩

theorem has_change {g : Field → Field} (hg : Growing g) {path : Path} {fs : List Field}
    (h : has path fs = true) (name : String) : has path (change name g fs) = true := by
  cases path with
  | nil => cases h
  | cons n rest =>
    by_cases hn : n = name
    · subst hn
      by_cases hr : rest = []
      · subst hr
        simp only [has, find?, named?_change_self g hg.name, Option.isSome_map] at h ⊢
        exact h
      · simp only [has, find?_cons_of_ne_nil hr, named?_change_self g hg.name] at h ⊢
        cases hf : named? n fs with
        | none =>
          rw [hf] at h
          cases h
        | some f =>
          rw [hf] at h
          exact hg.has f rest h
    · by_cases hr : rest = []
      · subst hr
        simp only [has, find?, named?_change_of_ne hn g hg.name] at h ⊢
        exact h
      · simp only [has, find?_cons_of_ne_nil hr, named?_change_of_ne hn g hg.name] at h ⊢
        exact h

theorem growing_mapFields {g : List Field → List Field}
    (h : ∀ path fs, has path fs = true → has path (g fs) = true) : Growing (mapFields g) := by
  refine ⟨name_mapFields g, fun f hf => ?_, fun f path hf => ?_⟩
  · cases f with
    | scalar n k v => cases hf
    | map n k fs => rfl
  · cases f with
    | scalar n k v => exact hf
    | map n k fs => exact h path fs hf

theorem has_append {path : Path} {fs : List Field} (h : has path fs = true) (new : Field) :
    has path (fs ++ [new]) = true := by
  cases path with
  | nil => cases h
  | cons n rest =>
    have hn : named? n fs ≠ none := by
      intro hn
      by_cases hr : rest = []
      · subst hr
        simp [has, find?, hn] at h
      · simp [has, find?_cons_of_ne_nil hr, hn] at h
    obtain ⟨f, hf⟩ := Option.ne_none_iff_exists'.mp hn
    have hf' : named? n (fs ++ [new]) = some f := by
      rw [named?] at hf ⊢
      rw [List.find?_append, hf]
      rfl
    by_cases hr : rest = []
    · subst hr
      simp [has, find?, hf']
    · simpa [has, find?_cons_of_ne_nil hr, hf', hf] using h

theorem has_changeAt {g : Field → Field} (hg : Growing g) (place : Path) {path : Path}
    {fs : List Field} (h : has path fs = true) : has path (changeAt place g fs) = true := by
  induction place generalizing path fs with
  | nil => exact h
  | cons n rest ih =>
    by_cases hr : rest = []
    · subst hr
      exact has_change hg h n
    · rw [changeAt_cons_of_ne_nil hr]
      exact has_change (growing_mapFields fun path fs => ih) h n

theorem has_addAt (place : Path) (new : Field) {path : Path} {fs : List Field}
    (h : has path fs = true) : has path (addAt place new fs) = true := by
  induction place generalizing path fs with
  | nil => exact has_append h new
  | cons n rest ih =>
    rw [addAt]
    refine has_change (g := fun g => g.promoted.mapFields (addAt rest new)) ?_ h n
    have hm := growing_mapFields (g := addAt rest new) fun path fs => ih
    exact ⟨fun f => (hm.name _).trans (name_promoted f),
      fun f hf => hm.kind _ (growing_promoted.kind f hf),
      fun f path hf => hm.has _ path (growing_promoted.has f path hf)⟩

theorem exists_named?_of_has {n : String} {rest : Path} (h : has (n :: rest) fs = true) :
    ∃ f, named? n fs = some f ∧ (rest = [] ∨ has rest f.fields = true) := by
  by_cases hr : rest = []
  · subst hr
    obtain ⟨f, hf⟩ := Option.isSome_iff_exists.mp h
    exact ⟨f, hf, Or.inl rfl⟩
  · rw [has, find?_cons_of_ne_nil hr] at h
    cases hf : named? n fs with
    | none => simp [hf] at h
    | some f => exact ⟨f, rfl, Or.inr (by simpa [hf, has] using h)⟩

/-- A new field stands where it was added. -/
theorem has_addAt_self (h : path = [] ∨ has path fs = true) (new : Field) :
    has (path ++ [new.name]) (addAt path new fs) = true := by
  induction path generalizing fs with
  | nil =>
    rw [List.nil_append, addAt, has, find?, named?, List.find?_isSome]
    exact ⟨new, by simp, beq_self_eq_true _⟩
  | cons n rest ih =>
    have h := h.resolve_left (List.cons_ne_nil n rest)
    obtain ⟨f, hf, hrest⟩ := exists_named?_of_has h
    rw [List.cons_append, addAt, has, find?_cons_of_ne_nil (by simp),
      named?_change_self _ (fun f => by simp), hf]
    cases f with
    | scalar m k v => exact ih hrest
    | map m k gs => exact ih hrest

end Field

end Tabular
