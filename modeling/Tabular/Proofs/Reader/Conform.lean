import Tabular.Proofs.Reader.Calls
import Tabular.Proofs.Schema.Conform

/-!
# Batches that conform to their schema

Every batch that a reader gives, in whatever order it is called and however its source ends, has
the shape that its own schema describes.

* **`windows_split`**: where the rows of a batch stand among all rows;
* `folded`: the rows that the schema of a batch has taken;
* `Batch.Conforming`, **`conforming_windowBatch`**: what a batch promises;
* **`batches_conform`**: every call keeps these promises.
-/

namespace Tabular

variable {o : ReaderOptions} {rows now before : List Row} {batch : Batch}

/-! ## Batches among all rows -/

/-- **A batch among the batches of some rows**: full batches before it, and its own rows. -/
theorem windows_split (hb : 0 < o.batchSize) (index : Nat) (before : List Row)
    (h : batch ∈ windows o index (windowAfter o before) rows) :
    ∃ earlier now later n, rows = earlier ++ now ++ later ∧ earlier.length = n * o.batchSize ∧
      now ≠ [] ∧ batch = windowBatch o (before ++ earlier) now (index + n) := by
  refine windows_induction (motive := fun rows _ => ∀ index before,
    batch ∈ windows o index (windowAfter o before) rows → ∃ earlier now later n,
      rows = earlier ++ now ++ later ∧ earlier.length = n * o.batchSize ∧ now ≠ [] ∧
        batch = windowBatch o (before ++ earlier) now (index + n)) hb ?_ ?_ rfl index before h
  · intro index before h
    rw [windows_nil] at h
    cases h
  · intro rows _ hne _ ih index before h
    rw [windows_of_ne_nil hne hb, ← windowAfter_append] at h
    rcases List.mem_cons.mp h with rfl | h
    · refine ⟨[], rows.take o.batchSize, rows.drop o.batchSize, 0, ?_, ?_, ?_, ?_⟩
      · exact (List.take_append_drop o.batchSize rows).symm
      · exact (Nat.zero_mul o.batchSize).symm
      · simpa using ⟨Nat.ne_of_gt hb, hne⟩
      · rw [List.append_nil]
        rfl
    · obtain ⟨earlier, now, later, n, hrows, hlength, hnow, rfl⟩ := ih _ _ h
      -- rows follow the first window, so it is full
      have hdrop : rows.drop o.batchSize ≠ [] := by
        rw [hrows]
        simp [hnow]
      have hfull : (rows.take o.batchSize).length = o.batchSize := by
        rw [List.length_take, Nat.min_eq_left]
        exact Nat.le_of_lt (by simpa using hdrop)
      refine ⟨rows.take o.batchSize ++ earlier, now, later, n + 1, ?_, ?_, hnow, ?_⟩
      · rw [List.append_assoc, List.append_assoc, ← List.append_assoc earlier, ← hrows,
          List.take_append_drop]
      · rw [List.length_append, hfull, hlength, Nat.succ_mul, Nat.add_comm]
      · rw [List.append_assoc, Nat.add_assoc, Nat.add_comm 1]

/-- The rows that the schema of a batch has taken: its own, and those before where all batches
share a schema. -/
def folded (o : ReaderOptions) (finished : List Row) (b : Batch) : List Row :=
  if o.pinSchema then finished.take (b.index * o.batchSize + b.size)
  else (finished.drop (b.index * o.batchSize)).take b.size

/-- What a batch of some finished rows promises: its rows conform to its schema and have all
attributes that the schema has taken, and a map column that may be null is null in one of them,
unless the schema has taken rows of other batches. -/
structure Batch.Conforming (o : ReaderOptions) (finished : List Row) (b : Batch) : Prop where
  rows : ∀ row ∈ b.rows, b.schema.Conforms row
  attributes : o.projection.wantsAttributes = true → ∀ row ∈ b.rows,
    ∃ es, (Value.map row).follow attributesPath = .map es ∧
      ∀ taken ∈ folded o finished b, ∀ key ∈ Entries.keys taken.attributes, key ∈ Entries.keys es
  nullable : o.pinSchema = false → ∀ c ∈ b.schema.columns, c.kind = .map → c.nullable = true →
    ∃ row ∈ b.rows, ((Value.map row).follow c.path).isMap = false

/-! ## One batch -/

theorem schema_windowBatch (o : ReaderOptions) (before now : List Row) (index : Nat) :
    (windowBatch o before now index).schema =
      (RowSchema.snapshotAfter o.projection (takenBefore o before ++ now)) := by
  rw [RowSchema.snapshotAfter, RowSchema.foldAll_append]
  rfl

/-- The rows of a batch are padded records. -/
theorem rows_windowBatch (o : ReaderOptions) (before now : List Row) (index : Nat) :
    (windowBatch o before now index).rows = ((windowAfter o before).foldAll now).2.map
      (RowSchema.snapshotAfter o.projection (takenBefore o before ++ now)).pad := by
  rw [← schema_windowBatch o before now index]
  rfl

theorem size_windowBatch (o : ReaderOptions) (before now : List Row) (index : Nat) :
    (windowBatch o before now index).size = now.length := by
  rw [windowBatch, RowSchema.size_ofRecords, RowSchema.length_foldAll]

/-- The records of a window are among those of all rows that its schema has taken. -/
theorem mem_foldAll_of_mem_window {record : Entries Value}
    (h : record ∈ ((windowAfter o before).foldAll now).2) :
    record ∈ ((RowSchema.start o.projection).foldAll (takenBefore o before ++ now)).2 := by
  rw [RowSchema.foldAll_append]
  exact List.mem_append_right _ h

theorem folded_windowBatch {earlier later : List Row} {n : Nat}
    (hlength : earlier.length = n * o.batchSize) :
    folded o (earlier ++ now ++ later) (windowBatch o earlier now n) =
      takenBefore o earlier ++ now := by
  have hindex : (windowBatch o earlier now n).index = n := rfl
  rw [folded, takenBefore, hindex, size_windowBatch, ← hlength]
  split
  · rw [← List.length_append, List.take_left]
  · rw [List.append_assoc, List.drop_left, List.take_left, List.nil_append]

theorem takenBefore_subset (o : ReaderOptions) (before : List Row) :
    takenBefore o before ⊆ before := by
  unfold takenBefore
  split
  · exact List.Subset.refl before
  · exact List.nil_subset before

/-- **A batch of regular rows keeps its promises.** -/
theorem conforming_windowBatch {earlier later : List Row} {n : Nat}
    (hr : Row.AllRegular (earlier ++ now ++ later)) (hlength : earlier.length = n * o.batchSize)
    (hnow : now ≠ []) :
    (windowBatch o earlier now n).Conforming o (earlier ++ now ++ later) := by
  have htaken : Row.AllRegular (takenBefore o earlier ++ now) := by
    intro row hrow
    refine hr row (List.mem_append_left later ?_)
    rcases List.mem_append.mp hrow with hrow | hrow
    · exact List.mem_append_left now (takenBefore_subset o earlier hrow)
    · exact List.mem_append_right earlier hrow
  refine ⟨fun row hrow => ?_, fun hw row hrow => ?_, fun hpin c hc hk hn => ?_⟩
  · rw [rows_windowBatch] at hrow
    obtain ⟨record, hrecord, rfl⟩ := List.mem_map.mp hrow
    obtain ⟨i, hi⟩ := List.mem_iff_getElem?.mp (mem_foldAll_of_mem_window hrecord)
    rw [schema_windowBatch]
    exact RowSchema.conforms_pad htaken hi
  · rw [rows_windowBatch] at hrow
    obtain ⟨record, -, rfl⟩ := List.mem_map.mp hrow
    rw [folded_windowBatch hlength]
    exact RowSchema.attributes_pad htaken hw record
  · have hfresh : takenBefore o earlier = [] := if_neg (by rw [hpin]; exact Bool.false_ne_true)
    have hrows := rows_windowBatch o earlier now n
    rw [schema_windowBatch, hfresh, List.nil_append] at hc
    rw [windowAfter, hfresh, List.nil_append] at hrows
    rw [hfresh, List.nil_append] at htaken
    obtain ⟨record, hrecord, hmap⟩ := RowSchema.exists_not_isMap_pad htaken hnow hc hk hn
    refine ⟨_, ?_, hmap⟩
    rw [hrows]
    exact List.mem_map_of_mem hrecord

/-! ## All batches -/

namespace Reader

/-- **Every batch conforms to its own schema**, for any options and any source, in whatever order a
reader is called. -/
theorem batches_conform (o : ReaderOptions) (hv : o.Valid) (source : EventSource)
    (calls : List Call) :
    ∀ batch ∈ ((start o source).after calls).2,
      batch.Conforming o (Scan.sealed o {} source.events) := by
  intro batch hbatch
  obtain ⟨handed, -, hgiven⟩ := batches_after o hv source calls
  rw [hgiven, ← windowAfter_nil] at hbatch
  obtain ⟨earlier, now, later, n, hrows, hlength, hnow, rfl⟩ :=
    windows_split hv.one_le_batchSize 0 [] hbatch
  have hall : Scan.sealed o {} source.events =
      earlier ++ now ++ (later ++ (Scan.sealed o {} source.events).drop handed) := by
    rw [← List.append_assoc, ← hrows, List.take_append_drop]
  have hregular : Row.AllRegular (Scan.sealed o {} source.events) :=
    Scan.isRegular_sealed o source.events
  rw [hall] at hregular ⊢
  rw [List.nil_append, Nat.zero_add]
  exact conforming_windowBatch hregular hlength hnow

/-- A map that the second row of a batch lacks, and that is a text in the next batch. -/
theorem batches_conform_lacking :
    let o : ReaderOptions := { batchSize := 2 }
    let source : EventSource :=
      ⟨[.start "t" [], .start "r" [("id", "1")], .start "a" [], .start "b" [], .text "x",
        .finish "b", .finish "a", .finish "r", .start "r" [], .finish "r", .start "r" [],
        .start "a" [], .text "y", .finish "a", .finish "r", .finish "t"], .complete⟩
    let batches := ((start o source).after [.nextBatch, .nextBatch]).2
    batches.map Batch.size = [2, 1] ∧
      ∀ batch ∈ batches, batch.Conforming o (Scan.sealed o {} source.events) := by
  intro o source batches
  have hv : o.Valid := ⟨⟨by decide, by simp [o, ReaderOptions.levels]⟩, by decide⟩
  exact ⟨by decide +kernel, batches_conform o hv source [.nextBatch, .nextBatch]⟩

end Reader

end Tabular
