import Tabular.Proofs.Row.Stable

/-!
# The reserved name

No field of a row is named as its attributes, whatever the elements inside it are named.

* `Draft.Unreserved`, `stable_unreserved`: a draft without such a field, which no change breaks;
* `unreserved_startChild`, `unreserved_closeFrame`: the steps of a row;
* `Row.IsRegular`, **`stable_regular`**: the rows that the steps come to.
-/

namespace Tabular

/-- No field of the row is named as its attributes. -/
def Draft.Unreserved (d : Draft) : Prop :=
  attributesName ∉ d.fields.map Field.name

theorem Field.stable_unreserved :
    Field.Stable fun fs => attributesName ∉ fs.map Field.name where
  promote path fs h := by
    rw [promoteAt, names_changeAt name_promoted]
    exact h
  assign path value fs h := by
    rw [assignAt, names_changeAt (name_assigned value)]
    exact h
  add path name handle fs _ hp h := by
    rw [names_addAt]
    split
    · next hnil =>
      rw [Ne, OpenRow.append_eq_attributesPath] at hp
      rw [List.mem_append, List.mem_singleton]
      rintro (hmem | heq)
      · exact h hmem
      · exact hp ⟨hnil, heq.symm⟩
    · exact h

namespace OpenRow

variable {o : ReaderOptions} {r : OpenRow}

/-- An element that starts gives no field the reserved name. -/
theorem unreserved_startChild (h : r.draft.Unreserved) (flattened : Bool) (name : String)
    (attributes : Entries String) (t : Tally) :
    (r.startChild o flattened name attributes t).1.draft.Unreserved :=
  Field.stable_unreserved.startChild h flattened name attributes t

/-- An element that ends gives no field the reserved name. -/
theorem unreserved_closeFrame {d : Draft} (h : d.Unreserved) (frame : Frame) (t : Tally) :
    (closeFrame o frame d t).1.Unreserved :=
  Field.stable_unreserved.closeFrame h frame t

end OpenRow

/-- No map of the row has a name twice, and no field of it is named as its attributes. -/
structure Row.IsRegular (row : Row) : Prop where
  distinct : Field.Distinct row.fields
  unreserved : attributesName ∉ row.fields.map Field.name

/-- **The fields of a row are regular at every step.** -/
theorem stable_regular : Field.Stable fun fs =>
    Field.Distinct fs ∧ attributesName ∉ fs.map Field.name :=
  Field.stable_distinct.and Field.stable_unreserved

end Tabular
