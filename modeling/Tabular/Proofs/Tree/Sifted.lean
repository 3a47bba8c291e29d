import Tabular.Proofs.Tree.Basic

/-!
# Streams without some elements

A stream from which the elements of one level are taken out, with all they hold, unless they have a
given name.

* `Event.sifted`, `Item.sifted`: the stream and the items that are left;
* **`spells_sifted`**: the one walks over the other;
* `Event.otherStarts`: the number of elements that are taken out.
-/

namespace Tabular

variable {tag : String} {level : Nat}

namespace Event

/-- The events but for the elements at a level that are not named `tag`, with all they hold. Behind
`kept` open elements, `inside` further ones are open in an element that is left out. -/
def sifted (tag : String) (level : Nat) : (kept inside : Nat) → List Event → List Event
  | _, _, [] => []
  | kept, 0, .start name attributes :: rest =>
    if kept + 1 = level ∧ name ≠ tag then sifted tag level kept 1 rest
    else .start name attributes :: sifted tag level (kept + 1) 0 rest
  | kept, 0, .text value :: rest => .text value :: sifted tag level kept 0 rest
  | kept, 0, .finish name :: rest => .finish name :: sifted tag level (kept - 1) 0 rest
  | kept, inside + 1, .start _ _ :: rest => sifted tag level kept (inside + 2) rest
  | kept, inside + 1, .text _ :: rest => sifted tag level kept (inside + 1) rest
  | kept, inside + 1, .finish _ :: rest => sifted tag level kept inside rest

/-- The number of elements at a level that are not named `tag`, where `depth` elements are open. -/
def otherStarts (tag : String) (level : Nat) : (depth : Nat) → List Event → Nat
  | _, [] => 0
  | depth, .start name _ :: rest =>
    (if depth + 1 = level ∧ name ≠ tag then 1 else 0) + otherStarts tag level (depth + 1) rest
  | depth, .text _ :: rest => otherStarts tag level depth rest
  | depth, .finish _ :: rest => otherStarts tag level (depth - 1) rest

end Event

namespace Item

/-- The items but for the elements `depth` levels below that are not named `tag`. -/
def sifted (tag : String) : (depth : Nat) → List Item → List Item
  | 0, items => items.filter fun
    | .text _ => true
    | .element name _ _ => name == tag
  | depth + 1, items => items.map fun
    | .text value => .text value
    | .element name attributes content => .element name attributes (sifted tag depth content)

end Item

namespace Event

/-- What an element holds is left out with it. -/
theorem sifted_inside (tag : String) {items : List Item} {events : List Event}
    (h : Spells items events) (level kept inside : Nat) (rest : List Event) :
    sifted tag level kept (inside + 1) (events ++ rest) =
      sifted tag level kept (inside + 1) rest := by
  induction h generalizing inside rest with
  | nil => rfl
  | text _ ih => exact ih inside rest
  | element hc _ _ ihInner ihRest =>
    simp only [List.cons_append, List.append_assoc, sifted, ihInner, ihRest]

/-- What a row holds is kept. -/
theorem sifted_below (tag : String) {items : List Item} {events : List Event}
    (h : Spells items events) {kept : Nat} (hk : level ≤ kept) (rest : List Event) :
    sifted tag level kept 0 (events ++ rest) = events ++ sifted tag level kept 0 rest := by
  induction h generalizing kept rest with
  | nil => rfl
  | text _ ih => exact congrArg (_ :: ·) (ih hk rest)
  | element hc _ _ ihInner ihRest =>
    have hne : ¬ kept + 1 = level := by omega
    simp [sifted, hne, ihInner (Nat.le_succ_of_le hk), ihRest hk]

/-- **The sifted stream walks over the sifted items.** -/
theorem spells_sifted (tag : String) {items : List Item} {events : List Event}
    (h : Spells items events) (kept depth : Nat) (rest : List Event) :
    ∃ left, Spells (Item.sifted tag depth items) left ∧
      sifted tag (kept + depth + 1) kept 0 (events ++ rest) =
        left ++ sifted tag (kept + depth + 1) kept 0 rest := by
  induction h generalizing kept depth rest with
  | nil => exact ⟨[], by cases depth <;> exact .nil, rfl⟩
  | @text value items events _ ih =>
    obtain ⟨left, hleft, heq⟩ := ih kept depth rest
    refine ⟨.text value :: left, ?_, congrArg (_ :: ·) heq⟩
    cases depth <;> exact .text hleft
  | @element name closing attributes content items inner events hc hinner _ ihInner ihRest =>
    obtain ⟨left, hleft, heq⟩ := ihRest kept depth rest
    cases depth with
    | zero =>
      by_cases hname : name = tag
      · have hbelow := sifted_below tag hinner (Nat.le_refl (kept + 1))
        refine ⟨.start name attributes :: (inner ++ .finish closing :: left), ?_, ?_⟩
        · simpa [Item.sifted, hname] using Spells.element hc hinner hleft
        · simp only [Nat.add_zero] at heq
          simp [sifted, hname, hbelow, heq]
      · have hinside := sifted_inside tag hinner (kept + 1) kept 0
        refine ⟨left, ?_, ?_⟩
        · simpa [Item.sifted, hname] using hleft
        · simp only [Nat.add_zero] at heq
          simp [sifted, hname, hinside, heq]
    | succ depth =>
      obtain ⟨left', hleft', heq'⟩ := ihInner (kept + 1) depth (.finish closing :: (events ++ rest))
      rw [Nat.add_right_comm kept 1 depth] at heq'
      have hne : ¬ kept = kept + depth + 1 := by omega
      refine ⟨.start name attributes :: (left' ++ .finish closing :: left), ?_, ?_⟩
      · exact .element hc hleft' hleft
      · simp only [← Nat.add_assoc] at heq ⊢
        simp [sifted, hne, heq', heq]

end Event

end Tabular
