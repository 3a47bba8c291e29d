import Tabular.Proofs.Value.Firsts
import Tabular.Value.Basic

/-!
# Values at paths

What a path of keys leads to, where a missing key is told from a null, and values that differ by
nulls only.

* `Value.at?`, `follow_eq`: the value at a path, if there is one;
* `Value.Keeps`, `Value.Padded`: a value with further nulls at paths that led nowhere;
* **`Padded.entries`**, **`Padded.getD`**: the entries of such values.
-/

namespace Tabular

namespace Value

variable {v v' : Value} {es es' : Entries Value} {key : String} {path rest : List String}

theorem follow_null (path : List String) : follow path .null = .null := by
  induction path with
  | nil => rfl
  | cons n rest ih => exact ih

/-- A path leads nowhere from what is no map. -/
theorem follow_of_not_isMap (hp : path ≠ []) (h : v.isMap = false) : follow path v = .null := by
  obtain ⟨n, rest, rfl⟩ := List.exists_cons_of_ne_nil hp
  cases v with
  | map es => cases h
  | _ => exact follow_null rest

theorem follow_entries (hp : path ≠ []) (v : Value) :
    follow path (.map v.entries) = follow path v := by
  obtain ⟨n, rest, rfl⟩ := List.exists_cons_of_ne_nil hp
  rfl

/-! ## Keys that are there -/

/-- The value at a path of keys, if every step finds its key. -/
def at? : List String → Value → Option Value
  | [], v => some v
  | key :: rest, v => (Entries.get? key v.entries).bind (at? rest)

@[simp] theorem at?_nil (v : Value) : at? [] v = some v := rfl

theorem at?_cons (key : String) (rest : List String) (es : Entries Value) :
    at? (key :: rest) (.map es) = (Entries.get? key es).bind (at? rest) := rfl

theorem at?_of_not_isMap (hp : path ≠ []) (h : v.isMap = false) : at? path v = none := by
  obtain ⟨n, rest, rfl⟩ := List.exists_cons_of_ne_nil hp
  cases v with
  | map es => cases h
  | _ => rfl

theorem follow_eq (path : List String) (v : Value) : follow path v = (at? path v).getD .null := by
  induction path generalizing v with
  | nil => rfl
  | cons key rest ih =>
    rw [follow, ih, at?]
    cases Entries.get? key v.entries with
    | none =>
      rw [Option.getD_none, ← ih, follow_null]
      rfl
    | some u => rfl

/-! ## Padding -/

/-- The same value, except that a map may have other entries. -/
def Keeps (v v' : Value) : Prop :=
  v'.isMap = v.isMap ∧ (v.isMap = false → v' = v)

theorem Keeps.refl (v : Value) : Keeps v v :=
  ⟨rfl, fun _ => rfl⟩

/-- Every path keeps its value, and what is new is null. -/
structure Padded (v v' : Value) : Prop where
  kept : ∀ path u, v.at? path = some u → ∃ u', v'.at? path = some u' ∧ Keeps u u'
  added : ∀ path, v.at? path = none → v'.at? path = none ∨ v'.at? path = some .null

namespace Padded

theorem refl (v : Value) : Padded v v where
  kept _ u hu := ⟨u, hu, .refl u⟩
  added _ hu := Or.inl hu

theorem keeps (h : Padded v v') : Keeps v v' := by
  obtain ⟨u', hu', hk⟩ := h.kept [] v rfl
  cases hu'
  exact hk

/-- **The entries of a padded value.** -/
theorem entries (h : Padded v v') : Padded (.map v.entries) (.map v'.entries) where
  kept path u hu := by
    cases path with
    | nil =>
      cases hu
      exact ⟨.map v'.entries, rfl, rfl, fun hm => by cases hm⟩
    | cons n rest => exact h.kept (n :: rest) u hu
  added path hu := by
    cases path with
    | nil => cases hu
    | cons n rest => exact h.added (n :: rest) hu

/-- **The value under a key of a padded map.** -/
theorem getD (h : Padded (.map es) (.map es')) (key : String) :
    Padded ((Entries.get? key es).getD .null) ((Entries.get? key es').getD .null) := by
  cases hv : Entries.get? key es with
  | none =>
    have hnew := h.added [key] (by rw [at?_cons, hv]; rfl)
    have hnull : (Entries.get? key es').getD .null = .null := by
      cases hv' : Entries.get? key es' with
      | none => rfl
      | some v' =>
        rw [at?_cons, hv'] at hnew
        simpa using hnew
    rw [hnull]
    exact .refl .null
  | some v =>
    obtain ⟨v', hv', -⟩ := h.kept [key] v (by rw [at?_cons, hv]; rfl)
    have hget : Entries.get? key es' = some v' := by
      rw [at?_cons, Option.bind_eq_some_iff] at hv'
      obtain ⟨w, hw, hwv⟩ := hv'
      cases hwv
      exact hw
    have hpath : ∀ rest, at? (key :: rest) (.map es) = at? rest v ∧
        at? (key :: rest) (.map es') = at? rest v' := by
      intro rest
      rw [at?_cons, at?_cons, hv, hget]
      exact ⟨rfl, rfl⟩
    rw [hget]
    refine ⟨fun path u hu => ?_, fun path hu => ?_⟩
    · have := h.kept (key :: path) u ((hpath path).1.trans hu)
      rwa [(hpath path).2] at this
    · have := h.added (key :: path) ((hpath path).1.trans hu)
      rwa [(hpath path).2] at this

end Padded

end Value

end Tabular
