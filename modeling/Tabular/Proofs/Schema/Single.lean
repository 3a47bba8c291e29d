import Tabular.Proofs.Reader.Together
import Tabular.Proofs.Schema.Meet

/-!
# Batches of one row

* `absorb_text`: a text under a new name;
* `RowSchema.single`: the batch of one row under a fresh schema;
* **`column_single_of_none`**, **`column_single_of_text`**: a column the row does not have, and one
  that holds a text.
-/

namespace Tabular

namespace Shape

variable {ss : List Shape} {key : String}

/-- A text under a new name. -/
theorem absorb_text (row : Int) (path : Path) {fs : List Field} {handle : Nat} {value : Option String}
    (hf : Field.named? key fs = some (.scalar key handle value)) (hs : named? key ss = none) :
    Entries.get? key (absorb row path ss fs).entries = some (.ofText? value) ∧
      kindAt [key] (absorb row path ss fs).shapes = some .scalar := by
  induction fs generalizing ss with
  | nil => cases hf
  | cons f rest ih =>
    rw [Field.named?_cons] at hf
    show Entries.get? key (_ ++ _) = _ ∧ kindAt [key] (absorb row path _ rest).shapes = _
    rw [Entries.get?_append]
    split at hf
    · cases hf
      simp only [absorbField, hs]
      refine ⟨?_, grows_absorb row path _ rest [key] .scalar ?_⟩
      · rw [Entries.get?, if_pos rfl]
        rfl
      · rw [kindAt_singleton, named?_append_of_none hs, named?_cons, if_pos (by rfl)]
        rfl
    · next hne =>
      have hmiss : Entries.get? key (absorbField row path ss f).entries = none := by
        rw [← Option.not_isSome_iff_eq_none]
        intro hsome
        have := Entries.has_iff.mp hsome
        rw [keys_absorbField, List.mem_singleton] at this
        exact hne this.symm
      rw [hmiss, Option.none_or]
      exact ih hf ((named?_absorbField_of_ne (Ne.symm hne)).trans hs)

end Shape

/-! ## One row -/

namespace RowSchema

/-- The batch of one row under a fresh schema. -/
def single (p : Projection) (row : Row) (index : Nat) : Batch :=
  Batch.ofRecords ((start p).foldAll [row]).1.snapshot ((start p).foldAll [row]).2 index

variable {p : Projection} {row : Row} {index : Nat} {name : String}

/-- What a column of the row element shows. -/
theorem shows_single (p : Projection) (row : Row) (index : Nat) (name : String) :
    ∃ shown, (single p row index).column [name] = [shown] ∧
      Shows (Shape.kindAt [name] ((start p).fold row).schema.held) [name]
        ((Entries.get? name ((start p).fold row).record).getD .null) shown := by
  refine ⟨_, column_ofRecords (distinct_foldAll [row] (distinct_start p)) _ index [name], ?_⟩
  exact follow_padWith (distinct_held (distinct_fold row (distinct_start p)))
    (List.cons_ne_nil name []) [] _

theorem get?_record (h : (row.fields.map Field.name).Nodup) (hn : name ≠ attributesName)
    (s : RowSchema) :
    Entries.get? name (s.fold row).record = Entries.get? name
      (Shape.absorb row.ordinal [] (s.attributed row) row.fields).entries := by
  have hopening : Entries.get? name (s.opening row) = none := by
    rw [opening]
    split
    · rw [Entries.get?, if_neg (Ne.symm hn)]
      rfl
    · rfl
  rw [record_fold, Entries.get?_putAll (by rw [Shape.keys_absorb]; exact h), hopening,
    Option.or_none]

/-- **A column that the row does not have.** -/
theorem column_single_of_none (h : (row.fields.map Field.name).Nodup) (hn : name ≠ attributesName)
    (hf : Field.named? name row.fields = none) : (single p row index).column [name] = [.null] := by
  obtain ⟨shown, hc, hs⟩ := shows_single p row index name
  have hmiss : Entries.get? name ((start p).fold row).record = none := by
    rw [get?_record h hn, ← Option.not_isSome_iff_eq_none]
    intro hsome
    have := Entries.has_iff.mp hsome
    rw [Shape.keys_absorb] at this
    exact Field.named?_eq_none.mp hf this
  rw [hmiss] at hs
  rw [hc, hs.null (by simpa [attributesPath] using hn)]

/-- **A column that holds a text.** -/
theorem column_single_of_text (h : (row.fields.map Field.name).Nodup) (hn : name ≠ attributesName)
    {handle : Nat} {text : String}
    (hf : Field.named? name row.fields = some (.scalar name handle (some text))) :
    (single p row index).column [name] = [.text text] := by
  obtain ⟨shown, hc, hs⟩ := shows_single p row index name
  have hfresh : Shape.named? name ((start p).attributed row) = none := by
    have hne : name ∉ [attributesName] := by simpa using hn
    rw [attributed, withAttributes, Shape.named?_eq_none]
    split
    · rw [Shape.names_change _ (by simp)]
      next hw =>
      rw [start, if_pos (by exact hw)]
      exact hne
    · next hw =>
      rw [start, if_neg (by exact hw)]
      exact List.not_mem_nil
  obtain ⟨hget, hkind⟩ := Shape.absorb_text row.ordinal [] hf hfresh
  have hheld := grows_held ((start p).fold row).schema [name] .scalar hkind
  rw [get?_record h hn, hget, hheld] at hs
  rw [hc]
  exact congrArg (fun v => [v]) hs

end RowSchema

end Tabular
