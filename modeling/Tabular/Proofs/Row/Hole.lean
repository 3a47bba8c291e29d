import Tabular.Proofs.Row.Field

/-!
# Holes among fields

A field that is being filled stands last among its siblings, and so does each field around it. What
is done to the fields by a path that leads through it is done to that field alone.

* `Field.pushed`: a map with one more field;
* `Hole`: the fields around a field that is being filled, by the path to it;
* `Hole.root`, **`Hole.child`**: the row element, and a field added to one that is being filled;
* `Hole.isTaken`, `Hole.add`, `Hole.change_child`: what is asked of a field in a hole, and what is done
  to it.
-/

namespace Tabular

namespace Field

/-! ## Maps with one more field -/

/-- The field as a map with one more field at its end. -/
def pushed (f child : Field) : Field :=
  f.promoted.mapFields (· ++ [child])

@[simp] theorem name_pushed (f child : Field) : (f.pushed child).name = f.name := by
  cases f <;> rfl

@[simp] theorem fields_pushed (f child : Field) : (f.pushed child).fields = f.fields ++ [child] := by
  cases f <;> rfl

theorem kind_pushed (f child : Field) : (f.pushed child).kind = .map := by
  cases f <;> rfl

theorem promoted_pushed (f child : Field) : (f.pushed child).promoted = f.pushed child := by
  cases f <;> rfl

theorem mapFields_pushed (g : List Field → List Field) (f child : Field) {child' : Field}
    (h : g (f.fields ++ [child]) = f.fields ++ [child']) :
    (f.pushed child).mapFields g = f.pushed child' := by
  cases f with
  | scalar n k v => exact congrArg (Field.map n k) h
  | map n k fs => exact congrArg (Field.map n k) h

end Field

/-! ## Holes -/

open Tabular.Field in
/-- The fields around a field of some name: what a path through it leads to is what the rest of the
path leads to in that field. -/
structure Hole (path : Path) (name : String) (plug : Field → List Field) : Prop where
  under_plug : ∀ rest f, f.name = name → under (path ++ rest) (plug f) = under rest f.fields
  addAt_plug : ∀ rest new f, f.name = name →
    addAt (path ++ rest) new (plug f) = plug (f.promoted.mapFields (addAt rest new))
  changeAt_plug : ∀ rest g f, f.name = name → rest ≠ [] →
    changeAt (path ++ rest) g (plug f) = plug (f.mapFields (changeAt rest g))

namespace Hole

open Tabular.Field

/-- The row element. -/
theorem root (name : String) : Hole [] name Field.fields := by
  refine ⟨?_, ?_, ?_⟩
  · intro rest f _
    rfl
  · intro rest new f _
    cases f <;> rfl
  · intro rest g f _ hr
    cases f with
    | map n h fs => rfl
    | scalar n h v =>
      cases rest with
      | nil => exact absurd rfl hr
      | cons a rest => cases rest <;> rfl

variable {path : Path} {name : String} {plug : Field → List Field}

theorem isTaken (h : Hole path name plug) {f : Field} (hf : f.name = name) {d : Draft}
    (hd : d.fields = plug f) (child : String) :
    d.isTaken path child = (named? child f.fields).isSome := by
  have hu := h.under_plug [] f hf
  rw [List.append_nil] at hu
  rw [Draft.isTaken, hd, hu]
  rfl

/-- **A field added to one that is being filled is being filled itself.** -/
theorem child (h : Hole path name plug) {f : Field} (hf : f.name = name) {n : String}
    (hn : named? n f.fields = none) : Hole (path ++ [n]) n (fun c => plug (f.pushed c)) := by
  refine ⟨?_, ?_, ?_⟩
  · intro rest c hc
    rw [List.append_assoc, h.under_plug _ _ (by simpa using hf), fields_pushed, List.singleton_append,
      under, named?_append hn hc]
  · intro rest new c hc
    rw [List.append_assoc, h.addAt_plug _ _ _ (by simpa using hf), promoted_pushed]
    refine congrArg plug (mapFields_pushed _ _ _ ?_)
    rw [List.singleton_append, addAt, change_append hn hc]
  · intro rest g c hc hr
    rw [List.append_assoc, h.changeAt_plug _ _ _ (by simpa using hf) (by simp)]
    refine congrArg plug (mapFields_pushed _ _ _ ?_)
    rw [List.singleton_append, changeAt_cons_of_ne_nil hr, change_append hn hc]

theorem add (h : Hole path name plug) {f : Field} (hf : f.name = name) (new : Field) :
    addAt path new (plug f) = plug (f.pushed new) := by
  have ha := h.addAt_plug [] new f hf
  rw [List.append_nil] at ha
  exact ha

/-- The field in a hole below another is changed on its own. -/
theorem change_child (h : Hole path name plug) {f : Field} (hf : f.name = name) {n : String}
    (hn : named? n f.fields = none) {c : Field} (hc : c.name = n) (g : Field → Field) :
    changeAt (path ++ [n]) g (plug (f.pushed c)) = plug (f.pushed (g c)) := by
  rw [h.changeAt_plug _ _ _ (by simpa using hf) (by simp)]
  refine congrArg plug (mapFields_pushed _ _ _ ?_)
  rw [changeAt, change_append hn hc]

end Hole

end Tabular
