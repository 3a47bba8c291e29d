import Tabular.Proofs.Row.Thin
import Tabular.Row.Builder

/-!
# Numbered columns

* `numberedName_inj`, `numberedName_ne_attributes`: numbered names are told apart, and none of them
  is the name of the attributes;
* **`freeName_spec`**: the numbered name that is found is the first free one;
* `Projection.HoldsNumbers`: a projection that asks for a numbered column only together with the
  columns that are filled before it;
* `freeName_thin`: under such a projection the first free name among thinned fields is that among all
  of them, or neither of the two is asked for.
-/

namespace Tabular

/-! ## Names -/

theorem toList_numberedName (name : String) (n : Nat) :
    (numberedName name n).toList = name.toList ++ '_' :: Nat.toDigits 10 n := by
  rw [numberedName, String.toList_append, String.toList_append]
  simp [toString]

theorem numberedName_inj {name : String} {m n : Nat}
    (h : numberedName name m = numberedName name n) : m = n := by
  have hl := congrArg String.toList h
  rw [toList_numberedName, toList_numberedName] at hl
  have hd := List.cons.inj (List.append_cancel_left hl)
  rw [← Nat.ofDigitChars_toDigits (n := m) (b := 10) (by decide) (by decide), hd.2,
    Nat.ofDigitChars_toDigits (by decide) (by decide)]

theorem numberedName_ne_attributes (name : String) (n : Nat) :
    numberedName name n ≠ attributesName := by
  intro h
  have hmem : '_' ∈ attributesName.toList := by
    rw [← h, toList_numberedName]
    simp
  exact absurd hmem (by decide)

/-! ## The first free name -/

theorem freeName_spec_from (name : String) (fs : List Field) (first steps : Nat) :
    ∃ n, first ≤ n ∧ freeName name fs first steps = numberedName name n ∧
      (∀ j, first ≤ j → j < n → (Field.named? (numberedName name j) fs).isSome = true) ∧
      (Field.named? (numberedName name n) fs = none ∨ n = first + steps) := by
  induction steps generalizing first with
  | zero => exact ⟨first, Nat.le_refl _, rfl, fun j h₁ h₂ => absurd h₂ (by omega), Or.inr rfl⟩
  | succ steps ih =>
    rw [freeName]
    cases hf : (Field.named? (numberedName name first) fs).isSome with
    | false =>
      exact ⟨first, Nat.le_refl _, rfl, fun j h₁ h₂ => absurd h₂ (by omega),
        Or.inl (by simpa using hf)⟩
    | true =>
      obtain ⟨n, hn, he, hj, hlast⟩ := ih (first + 1)
      refine ⟨n, by omega, he, fun j h₁ h₂ => ?_, hlast.imp_right (by omega)⟩
      rcases Nat.eq_or_lt_of_le h₁ with rfl | hlt
      · exact hf
      · exact hj j hlt h₂

/-- **The numbered name that is found is the first free one.** -/
theorem freeName_spec (name : String) (fs : List Field) :
    ∃ n, 2 ≤ n ∧ freeName name fs 2 fs.length = numberedName name n ∧
      Field.named? (numberedName name n) fs = none ∧
      ∀ j, 2 ≤ j → j < n → (Field.named? (numberedName name j) fs).isSome = true := by
  obtain ⟨n, hn, he, hj, hlast⟩ := freeName_spec_from name fs 2 fs.length
  refine ⟨n, hn, he, hlast.elim id fun hend => ?_, hj⟩
  -- more numbered names than fields cannot all be taken
  cases hf : Field.named? (numberedName name n) fs with
  | none => rfl
  | some f =>
    have htaken : ∀ j ∈ List.range' 2 (fs.length + 1),
        numberedName name j ∈ fs.map Field.name := by
      intro j hmem
      rw [List.mem_range'_1] at hmem
      have hsome : Field.named? (numberedName name j) fs ≠ none := by
        by_cases hjn : j = n
        · rw [hjn, hf]
          simp
        · exact Option.isSome_iff_ne_none.mp (hj j hmem.1 (by omega))
      rw [Ne, Field.named?_eq_none, Decidable.not_not] at hsome
      exact hsome
    have hnodup : ((List.range' 2 (fs.length + 1)).map (numberedName name)).Nodup :=
      List.Pairwise.map _ (fun a b hab h => hab (numberedName_inj h)) List.nodup_range'
    have hsub : (List.range' 2 (fs.length + 1)).map (numberedName name) ⊆ fs.map Field.name := by
      intro key hkey
      obtain ⟨j, hjmem, rfl⟩ := List.mem_map.mp hkey
      exact htaken j hjmem
    have hlen := hnodup.length_le_of_subset hsub
    rw [List.length_map, List.length_range', List.length_map] at hlen
    omega

theorem freeName_congr {fs gs : List Field}
    (h : ∀ name, (Field.named? name fs).isSome = (Field.named? name gs).isSome) (name : String)
    (first steps : Nat) : freeName name fs first steps = freeName name gs first steps := by
  induction steps generalizing first with
  | zero => rfl
  | succ steps ih => rw [freeName, freeName, h, ih]

/-! ## Asked for among thinned fields -/

/-- Whoever asks for a numbered column asks for the columns that are filled before it. -/
def Projection.HoldsNumbers (p : Projection) : Prop :=
  ∀ name n, 2 ≤ n → name ≠ attributesName → p.admits [numberedName name n] = true →
    p.admits [name] = true ∧ ∀ j, 2 ≤ j → j < n → p.admits [numberedName name j] = true

/-- The first free name among thinned fields is that among all of them, or none of both is asked
for. -/
theorem freeName_thin {p : Projection} (hp : p.HoldsNumbers) {name : String}
    (hn : name ≠ attributesName) (fs : List Field) :
    freeName name (Field.thin p.admits fs) 2 (Field.thin p.admits fs).length =
        freeName name fs 2 fs.length ∨
      p.admits [freeName name fs 2 fs.length] = false ∧
        p.admits [freeName name (Field.thin p.admits fs) 2 (Field.thin p.admits fs).length] =
          false := by
  obtain ⟨n, hn2, he, hfree, hbelow⟩ := freeName_spec name fs
  obtain ⟨m, hm2, he', hfree', hbelow'⟩ := freeName_spec name (Field.thin p.admits fs)
  rw [he, he']
  -- a name that is asked for is free in both or in neither
  have hagree : ∀ j, p.admits [numberedName name j] = true →
      (Field.named? (numberedName name j) (Field.thin p.admits fs)).isSome =
        (Field.named? (numberedName name j) fs).isSome := by
    intro j hj
    rw [Field.named?_thin hj, Option.isSome_map]
  rcases Nat.lt_trichotomy m n with hlt | rfl | hgt
  · have hm : p.admits [numberedName name m] = false := by
      cases hj : p.admits [numberedName name m] with
      | false => rfl
      | true =>
        have := hagree m hj
        rw [hfree', hbelow m hm2 hlt] at this
        cases this
    refine Or.inr ⟨?_, hm⟩
    cases hj : p.admits [numberedName name n] with
    | false => rfl
    | true =>
      have := (hp name n hn2 hn hj).2 m hm2 hlt
      rw [hm] at this
      cases this
  · exact Or.inl rfl
  · have hsome := hbelow' n hn2 hgt
    have hj : p.admits [numberedName name n] = true := by
      cases hj : p.admits [numberedName name n] with
      | true => rfl
      | false =>
        rw [Field.named?_thin_of_not_keep hj] at hsome
        cases hsome
    rw [hagree n hj, hfree] at hsome
    cases hsome

end Tabular
