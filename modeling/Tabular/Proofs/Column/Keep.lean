import Tabular.Column.Projection

/-!
# Which paths a projection keeps

* `Keep`, `Keep.below`, `Keep.Closed`: sets of paths, seen from a name, and those that hold every
  path that leads to one they hold;
* **`closed_admits`**: what a projection admits is such a set;
* `ofNames`, `admits_ofNames`: the projection to some columns of the row element;
* `wantsAttributes_of_admitsAttribute`: a projection that keeps an attribute wants attributes.
-/

namespace Tabular

/-- A set of paths. -/
abbrev Keep := Path → Bool

namespace Keep

/-- The set as it looks from below a name. -/
def below (name : String) (keep : Keep) : Keep :=
  fun path => keep (name :: path)

/-- What leads to a path in the set is in the set. -/
def Closed (keep : Keep) : Prop :=
  ∀ path rest, path ≠ [] → keep (path ++ rest) = true → keep path = true

/-- All paths. -/
def all : Keep :=
  fun _ => true

theorem closed_all : all.Closed :=
  fun _ _ _ _ => rfl

variable {keep : Keep}

theorem Closed.below (h : keep.Closed) (name : String) : (keep.below name).Closed :=
  fun path rest _ hk => h (name :: path) rest (List.cons_ne_nil _ _) hk

theorem Closed.head (h : keep.Closed) {name : String} {path : Path}
    (hk : keep (name :: path) = true) : keep [name] = true :=
  h [name] path (List.cons_ne_nil _ _) hk

/-- Nothing below a path outside the set is in the set. -/
theorem Closed.not_append (h : keep.Closed) {path : Path} (hp : path ≠ [])
    (hk : keep path = false) (rest : Path) : keep (path ++ rest) = false := by
  cases hr : keep (path ++ rest) with
  | false => rfl
  | true =>
    rw [h path rest hp hr] at hk
    cases hk

end Keep

namespace Projection

theorem leadsTo_iff {path request : Path} :
    leadsTo path request = true ↔ path ≠ [] ∧ path <+: request := by
  rw [leadsTo, Bool.and_eq_true, List.isPrefixOf_iff_prefix]
  simp

theorem liesBelow_iff {path request : Path} :
    liesBelow path request = true ↔
      request ≠ [] ∧ request <+: path ∧ request.length < path.length := by
  rw [liesBelow, Bool.and_eq_true, Bool.and_eq_true, List.isPrefixOf_iff_prefix]
  simp [and_assoc]

theorem admits_columns_iff {requests : List Path} {path : Path} :
    (columns requests).admits path = true ↔
      ∃ r ∈ requests, leadsTo path r = true ∨ liesBelow path r = true := by
  simp only [admits, List.any_eq_true, Bool.or_eq_true]

theorem admits_of_all {p : Projection} (h : p = .all) (path : Path) : p.admits path = true := by
  rw [h]
  rfl

/-- **What leads to an admitted path is admitted.** -/
theorem closed_admits (p : Projection) : Keep.Closed p.admits := by
  intro path rest hp h
  cases p with
  | all => rfl
  | columns requests =>
    obtain ⟨r, hr, h⟩ := admits_columns_iff.mp h
    refine admits_columns_iff.mpr ⟨r, hr, ?_⟩
    rcases h with h | h
    · obtain ⟨_, hpre⟩ := leadsTo_iff.mp h
      exact Or.inl (leadsTo_iff.mpr ⟨hp, (List.prefix_append path rest).trans hpre⟩)
    · obtain ⟨hne, hpre, _⟩ := liesBelow_iff.mp h
      -- the request and the path both lead to the same path
      rcases Nat.lt_or_ge r.length path.length with hlen | hlen
      · exact Or.inr (liesBelow_iff.mpr ⟨hne,
          List.prefix_of_prefix_length_le hpre (List.prefix_append path rest) (by omega), hlen⟩)
      · exact Or.inl (leadsTo_iff.mpr ⟨hp,
          List.prefix_of_prefix_length_le (List.prefix_append path rest) hpre hlen⟩)

/-- The projection to some columns of the row element. -/
def ofNames (names : List String) : Projection :=
  .columns (names.map fun name => [name])

theorem admits_ofNames {names : List String} {name : String} {rest : Path} :
    (ofNames names).admits (name :: rest) = true ↔ name ∈ names := by
  rw [ofNames, admits_columns_iff]
  constructor
  · rintro ⟨r, hr, h⟩
    obtain ⟨m, hm, rfl⟩ := List.mem_map.mp hr
    rcases h with h | h
    · obtain ⟨rfl, _⟩ := List.cons_prefix_cons.mp (leadsTo_iff.mp h).2
      exact hm
    · obtain ⟨_, hpre, _⟩ := liesBelow_iff.mp h
      obtain ⟨rfl, _⟩ := List.cons_prefix_cons.mp hpre
      exact hm
  · intro hm
    refine ⟨[name], List.mem_map_of_mem hm, ?_⟩
    cases rest with
    | nil => exact Or.inl (leadsTo_iff.mpr ⟨by simp, List.prefix_refl _⟩)
    | cons a rest =>
      exact Or.inr (liesBelow_iff.mpr ⟨by simp, by simp, by simp⟩)

theorem wantsAttributes_of_admitsAttribute {p : Projection} {key : String}
    (h : p.admitsAttribute key = true) : p.wantsAttributes = true :=
  closed_admits p [attributesName] [key] (List.cons_ne_nil _ _) h

/-- A projection without attributes keeps none of them. -/
theorem filter_admitsAttribute {p : Projection} (h : p.wantsAttributes = false) {α : Type}
    (es : Entries α) : es.filter (fun a => p.admitsAttribute a.1) = [] := by
  rw [List.filter_eq_nil_iff]
  intro a _ hk
  rw [wantsAttributes_of_admitsAttribute hk] at h
  cases h

end Projection

end Tabular
