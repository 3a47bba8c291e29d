import Tabular.Proofs.Reader.Cut
import Tabular.Proofs.Reader.Drained

/-!
# Batch sizes

Where all batches share one schema, the size of the batches decides just where they end: the
counters and the failure are those of the source, the last schema is that of all rows, and under it
the rows are the same.

* `ReaderOptions.sized`, `passage_sized`: passages do not depend on the batch size;
* `schema_getLast_windows`, **`pad_rows_windows`**: the windows under the schema of all rows;
* `diagnostics_pinned`: counters, but for the number of batches;
* `SameRows`, **`rest_sized`**: two batch sizes.
-/

namespace Tabular

variable {o : ReaderOptions} {source : EventSource} {rows before : List Row} {size size' : Nat}

/-! ## Options that differ in the batch size -/

/-- The options with another batch size. -/
def ReaderOptions.sized (size : Nat) (o : ReaderOptions) : ReaderOptions :=
  { o with batchSize := size }

/-- A passage does not depend on the batch size. -/
theorem passage_sized (o : ReaderOptions) (size : Nat) (ending : Ending) (events : List Event)
    (given : Nat) (s : Scan) :
    passage (o.sized size) ending events given s = passage o ending events given s :=
  passage_congr (fun _ _ => rfl) fun _ _ => rfl

/-! ## Windows under one schema -/

/-- **The last schema is that of all rows.** -/
theorem schema_getLast_windows (hb : 0 < o.batchSize) (hp : o.pinSchema = true) (hne : rows ≠ []) :
    (windows o 0 (RowSchema.start o.projection) rows).getLast?.map Batch.schema =
      some (RowSchema.snapshotAfter o.projection rows) := by
  have hpos : 0 < (windows o 0 (RowSchema.start o.projection) rows).length := by
    rw [lt_length_windows hb, Nat.zero_mul]
    exact List.length_pos_iff.mpr hne
  obtain ⟨n, hlen⟩ := Nat.exists_eq_succ_of_ne_zero (Nat.ne_of_gt hpos)
  have hlast : n * o.batchSize < rows.length := by
    rw [← lt_length_windows hb, hlen]
    exact Nat.lt_succ_self n
  have hend : rows.length ≤ n * o.batchSize + o.batchSize := by
    rw [← Nat.succ_mul, ← Nat.not_lt, ← lt_length_windows hb, hlen]
    exact Nat.lt_irrefl _
  rw [List.getLast?_eq_getElem?, hlen, Nat.succ_sub_one, ← windowAfter_nil, getElem?_windows hb,
    if_pos hlast, Option.map_some, schema_windowBatch, takenBefore, if_pos hp, List.nil_append,
    ← List.take_add, List.take_of_length_le hend]

/-- **Under any one schema the rows are their records**, wherever the windows end. -/
theorem pad_rows_windows (hb : 0 < o.batchSize) (hp : o.pinSchema = true) (rows' : List Row)
    (index : Nat) (hr : Row.AllRegular (before ++ rows)) :
    ((windows o index (windowAfter o before) rows).flatMap Batch.rows).map
        (RowSchema.snapshotAfter o.projection rows').pad =
      ((windowAfter o before).foldAll rows).2.map
        (RowSchema.snapshotAfter o.projection rows').pad := by
  refine windows_induction (motive := fun rows _ => ∀ index before,
    Row.AllRegular (before ++ rows) →
    ((windows o index (windowAfter o before) rows).flatMap Batch.rows).map
        (RowSchema.snapshotAfter o.projection rows').pad =
      ((windowAfter o before).foldAll rows).2.map
        (RowSchema.snapshotAfter o.projection rows').pad)
    hb ?_ ?_ (rfl : rows.length = _) index before hr
  · intro index before _
    rw [windows_nil]
    rfl
  · intro rows _ hne _ ih index before hr
    rw [← List.take_append_drop o.batchSize rows, ← List.append_assoc] at hr
    have hnow : (windowBatch o before (rows.take o.batchSize) index).rows.map
        (RowSchema.snapshotAfter o.projection rows').pad =
        ((windowAfter o before).foldAll (rows.take o.batchSize)).2.map
          (RowSchema.snapshotAfter o.projection rows').pad := by
      rw [rows_windowBatch, List.map_map]
      refine List.map_congr_left fun record hrecord => ?_
      have htaken : Row.AllRegular (takenBefore o before ++ rows.take o.batchSize) := by
        rw [takenBefore, if_pos hp]
        exact fun row hrow => hr row (List.mem_append_left _ hrow)
      exact RowSchema.pad_pad htaken (mem_foldAll_of_mem_window hrecord) rows'
    have hlater := ih (index + 1) (before ++ rows.take o.batchSize) hr
    have hfold := RowSchema.foldAll_append (windowAfter o before) (rows.take o.batchSize)
      (rows.drop o.batchSize)
    rw [List.take_append_drop] at hfold
    rw [windowAfter_append, if_pos hp] at hlater
    rw [windows_of_ne_nil hne hb, if_pos hp, List.flatMap_cons, List.map_append, hlater, hfold,
      List.map_append]
    exact congrArg (· ++ _) hnow

namespace Reader

/-- The counters of a drained reader whose batches share a schema, but for the number of batches. -/
theorem diagnostics_pinned (hb : 0 < o.batchSize) (hp : o.pinSchema = true) (hl : o.limit ≠ some 0)
    (source : EventSource) :
    { (start o source).rest.reader.diagnostics with batchesEmitted := 0 } =
      (Tabular.passage o source.ending source.events 0 {}).diagnostics
        ((RowSchema.start o.projection).conflictsAll
          (Tabular.passage o source.ending source.events 0 {}).rows) := by
  rw [diagnostics_rest hb hl, windowConflicts_of_pinned hb hp]
  rfl

/-- What two readers of one source have in common where just the batch size tells them apart: the
failure and all counters but that of the batches, and, unless a file breaks off, that their batches
have all counted rows, the last schema, and the rows in the shape of that. -/
structure SameRows (source : EventSource) (c c' : Called (List Batch × Option ReadFailure)) :
    Prop where
  failure : c.result.2 = c'.result.2
  diagnostics : { c.reader.diagnostics with batchesEmitted := 0 } =
    { c'.reader.diagnostics with batchesEmitted := 0 }
  size : source.Whole → (c.result.1.flatMap Batch.rows).length = c.reader.rowsEmitted ∧
    (c'.result.1.flatMap Batch.rows).length = c'.reader.rowsEmitted
  schema : source.Whole →
    c.result.1.getLast?.map Batch.schema = c'.result.1.getLast?.map Batch.schema
  padded : source.Whole → ∀ last, c.result.1.getLast? = some last →
    (c.result.1.flatMap Batch.rows).map last.schema.pad =
      (c'.result.1.flatMap Batch.rows).map last.schema.pad

/-- The batches of a source whose rows are all handed out, under one schema. -/
theorem rest_pinned (hb : 0 < o.batchSize) (hp : o.pinSchema = true) (hl : o.limit ≠ some 0)
    (hall : (Tabular.passage o source.ending source.events 0 {}).handedOut o.batchSize =
      (Tabular.passage o source.ending source.events 0 {}).rows)
    (hrows : (Tabular.passage o source.ending source.events 0 {}).rows = rows) :
    ((start o source).rest.result.1.flatMap Batch.rows).length =
        (start o source).rest.reader.rowsEmitted ∧
      (start o source).rest.result.1.getLast?.map Batch.schema =
        (if rows = [] then none else some (RowSchema.snapshotAfter o.projection rows)) ∧
      ∀ rows', ((start o source).rest.result.1.flatMap Batch.rows).map
          (RowSchema.snapshotAfter o.projection rows').pad =
        ((RowSchema.start o.projection).foldAll rows).2.map
          (RowSchema.snapshotAfter o.projection rows').pad := by
  have hregular : Row.AllRegular ([] ++ rows) := fun row hrow =>
    Scan.isRegular_sealed o source.events row
      ((isPrefix_rows_passage o source.ending source.events 0 {}).subset (hrows ▸ hrow))
  rw [result_rest hb hl, hall, hrows]
  refine ⟨?_, ?_, fun rows' => ?_⟩
  · rw [length_rows_windows hb, (finished_rest hb hl source).rowsEmitted, hrows]
    exact (Nat.zero_add _).symm
  · split
    · next hnil => rw [hnil, windows_nil, List.getLast?_nil, Option.map_none]
    · next hne => exact schema_getLast_windows hb hp hne
  · have hpadded := pad_rows_windows hb hp rows' 0 hregular
    rwa [windowAfter_nil] at hpadded

/-- **The batch size decides just where batches end**, where they all share a schema. -/
theorem rest_sized (hp : o.pinSchema = true) (hs : 0 < size) (hs' : 0 < size')
    (source : EventSource) :
    let c := (start (o.sized size) source).rest
    let c' := (start (o.sized size') source).rest
    SameRows source c c' ∧ EvenlyCut size c.result.1 ∧ EvenlyCut size' c'.result.1 := by
  intro c c'
  by_cases hl : o.limit = some 0
  · have hc : c = _ := rest_of_limit_zero (o := o.sized size) hl source
    have hc' : c' = _ := rest_of_limit_zero (o := o.sized size') hl source
    rw [hc, hc']
    exact ⟨⟨rfl, rfl, fun _ => ⟨rfl, rfl⟩, fun _ => rfl, fun _ _ _ => rfl⟩, nofun, nofun⟩
  · have hresult : c.result = _ := result_rest (o := o.sized size) hs hl source
    have hresult' : c'.result = _ := result_rest (o := o.sized size') hs' hl source
    have hdiagnostics := diagnostics_pinned (o := o.sized size) hs hp hl source
    have hdiagnostics' := diagnostics_pinned (o := o.sized size') hs' hp hl source
    have hrows := congrArg Passage.rows (passage_sized o size source.ending source.events 0 {})
    have hrows' := congrArg Passage.rows (passage_sized o size' source.ending source.events 0 {})
    have hpinned (hw : source.Whole) := rest_pinned (o := o.sized size) hs hp hl
      (handedOut_of_whole hw _ _) hrows
    have hpinned' (hw : source.Whole) := rest_pinned (o := o.sized size') hs' hp hl
      (handedOut_of_whole hw _ _) hrows'
    rw [passage_sized] at hresult hresult' hdiagnostics hdiagnostics'
    refine ⟨⟨?_, hdiagnostics.trans hdiagnostics'.symm, fun hw => ⟨(hpinned hw).1, (hpinned' hw).1⟩,
      fun hw => ?_, fun hw last hlast => ?_⟩, ?_, ?_⟩
    · rw [hresult, hresult']
    · exact (hpinned hw).2.1.trans (hpinned' hw).2.1.symm
    · obtain ⟨-, hschema, hpadded⟩ := hpinned hw
      have hlast' : c.result.1.getLast?.map Batch.schema = some last.schema := by rw [hlast]; rfl
      rw [hschema, Option.ite_none_left_eq_some, Option.some.injEq] at hlast'
      rw [← hlast'.2]
      exact (hpadded _).trans ((hpinned' hw).2.2 _).symm
    · rw [hresult]
      exact evenlyCut_windows (o := o.sized size) hs _
    · rw [hresult']
      exact evenlyCut_windows (o := o.sized size') hs' _

/-- Three rows before a fault, with a conflict in the second one, in batches of one row and of
two. -/
theorem rest_sized_conflict :
    let o : ReaderOptions := { pinSchema := true }
    let source : EventSource :=
      ⟨[.start "t" [], .start "r" [], .start "a" [], .finish "a", .finish "r", .start "r" [],
        .start "a" [], .start "b" [], .finish "b", .finish "a", .finish "r", .start "r" [],
        .start "c" [], .finish "c", .finish "r", .finish "s"], .complete⟩
    let c := (start (o.sized 1) source).rest
    let c' := (start (o.sized 2) source).rest
    (o.pinSchema = true ∧ 0 < 1 ∧ 0 < 2 ∧ source.Whole) ∧
      (c.result.1.map Batch.size = [1, 1, 1] ∧ c'.result.1.map Batch.size = [2, 1] ∧
        c.result.2 = some (.malformed (.mismatchedEnd "s" "t")) ∧
        c.reader.diagnostics.schemaConflicts = 1) ∧
      SameRows source c c' ∧ EvenlyCut 1 c.result.1 ∧ EvenlyCut 2 c'.result.1 := by
  refine ⟨⟨rfl, by decide, by decide, nofun⟩, ?_, rest_sized rfl (by decide) (by decide) _⟩
  decide +kernel

end Reader

end Tabular
