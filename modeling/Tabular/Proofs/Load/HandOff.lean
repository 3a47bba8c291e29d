import Tabular.Proofs.Files.Tree
import Tabular.Proofs.Load.Begun
import Tabular.Proofs.Load.Declared
import Tabular.Proofs.Load.Statement
import Tabular.Proofs.Options.Loaded
import Tabular.Proofs.Reader.BatchSize
import Tabular.Proofs.Schema.Requested

/-!
# Handing rows over to a database

A load reads its document to the end under one schema before the database is asked for anything.
So a document that cannot be read leaves the database alone, and otherwise one statement makes a
table of all its rows, with types that every row fits.

* `exists_record_of_windows`, `fits_windows`: the rows of batches and the types of all of them;
* `Sql.columnsLiteral_eq_empty`: schemas without a column;
* `LoadRequest.pinned`, `exists_last`: the options of a load, and its batches;
* `Job.written`, `stageRead_of_fault`, `stageRead_of_failure`, `stageRead_of_no_rows`,
  `stageRead_of_rows`: what comes of the reading;
* **`load_handsOver`**: a load over an open connection;
* `columnsLiteral_load_nameless`: a projection of no names leaves the statement without columns.
-/

namespace Tabular

open Sql (createTable countRows escapedPath columnsLiteral columnTypes?)
open Sql.ColumnType (ofBranches Fits)

variable {o : ReaderOptions} {rows : List Row} {row : Entries Value} {source : EventSource}

/-! ## Rows of batches under one schema -/

/-- A row of some batches is a record, padded by the schema of the rows up to its batch. -/
theorem exists_record_of_windows (hb : 0 < o.batchSize) (hp : o.pinSchema = true)
    (h : row ∈ (windows o 0 (RowSchema.start o.projection) rows).flatMap Batch.rows) :
    ∃ before later record, rows = before ++ later ∧
      record ∈ ((RowSchema.start o.projection).foldAll before).2 ∧
      row = (RowSchema.snapshotAfter o.projection before).pad record := by
  obtain ⟨batch, hbatch, hrow⟩ := List.mem_flatMap.mp h
  rw [← windowAfter_nil] at hbatch
  obtain ⟨earlier, now, later, n, rfl, -, -, rfl⟩ := windows_split hb 0 [] hbatch
  rw [rows_windowBatch] at hrow
  obtain ⟨record, hrecord, rfl⟩ := List.mem_map.mp hrow
  have htaken : takenBefore o ([] ++ earlier) = earlier := by rw [takenBefore, if_pos hp]; rfl
  have hmem := mem_foldAll_of_mem_window hrecord
  rw [htaken] at hmem ⊢
  exact ⟨earlier ++ now, later, record, rfl, hmem, rfl⟩

/-- **The rows of batches fit the types of all rows.** -/
theorem fits_windows (hb : 0 < o.batchSize) (hp : o.pinSchema = true) (hr : Row.AllRegular rows)
    (h : row ∈ (windows o 0 (RowSchema.start o.projection) rows).flatMap Batch.rows) :
    Fits (ofBranches (RowSchema.snapshotAfter o.projection rows).branches) row := by
  obtain ⟨before, later, record, rfl, hrecord, rfl⟩ := exists_record_of_windows hb hp h
  have hbefore : Row.AllRegular before := fun r hr' => hr r (List.mem_append_left later hr')
  exact RowSchema.fits_pad_append hbefore hrecord later

theorem isCell_windows (hb : 0 < o.batchSize) (hp : o.pinSchema = true)
    (h : row ∈ (windows o 0 (RowSchema.start o.projection) rows).flatMap Batch.rows) :
    (Value.map row).IsCell := by
  obtain ⟨before, later, record, rfl, hrecord, rfl⟩ := exists_record_of_windows hb hp h
  exact isCell_pad (RowSchema.isCell_foldAll _ before record hrecord) _

namespace Reader

/-- The batches of a reader are windows of regular rows. -/
theorem exists_windows (hb : 0 < o.batchSize) (source : EventSource) :
    ∃ rows, Row.AllRegular rows ∧
      (start o source).rest.result.1 = windows o 0 (RowSchema.start o.projection) rows := by
  by_cases hl : o.limit = some 0
  · refine ⟨[], nofun, ?_⟩
    rw [rest_of_limit_zero hl, windows_nil]
  · refine ⟨_, ?_, congrArg Prod.fst (result_rest hb hl source)⟩
    intro row hrow
    have hpassed : row ∈ (Tabular.passage o source.ending source.events 0 {}).rows := by
      unfold Passage.handedOut at hrow
      split at hrow
      · exact List.mem_of_mem_take hrow
      · exact hrow
    exact Scan.isRegular_sealed o source.events row
      ((isPrefix_rows_passage o source.ending source.events 0 {}).subset hpassed)

end Reader

/-! ## Schemas without a column -/

/-- A literal of columns is empty just for a schema that has no column. -/
theorem Sql.columnsLiteral_eq_empty {p : Projection}
    (h : columnsLiteral (RowSchema.snapshotAfter p rows) = "\x7b\x7d") :
    (RowSchema.snapshotAfter p rows).columns = [] := by
  have hread := readEntries_columnsLiteral (RowSchema.snapshotAfter p rows)
  rw [h, show (tokens "\x7b\x7d").bind readEntries = some [] by decide +kernel,
    Option.some.injEq, entries, eq_comm, List.map_eq_nil_iff] at hread
  have hlisted := listed_types p rows
  rw [hread] at hlisted
  exact List.map_eq_nil_iff.mp hlisted.symm

/-! ## The batches of a load -/

variable {σ : Type} {w : World σ} {q : LoadRequest} {s made : σ} {job : Job σ}

namespace LoadRequest

/-- A load has one schema for its whole document. -/
theorem pinned (hc : w.checker.Lawful) (h : q.Begun w s job) : job.options.pinSchema = true :=
  ReaderOptions.pinSchema_of_load hc (Entries.get?_put ..) h.options_eq

theorem batchSize_pos (h : q.Begun w s job) : 0 < job.options.batchSize :=
  (ReaderOptions.valid_of_load h.options_eq).one_le_batchSize

end LoadRequest

/-- The batches of a load that reads to the end and has rows: windows of these rows, the last one
under the schema of all of them. -/
theorem exists_last (hb : 0 < o.batchSize) (hp : o.pinSchema = true)
    (hf : (Reader.start o source).rest.result.2 = none)
    (hne : (Reader.start o source).rest.result.1.flatMap Batch.rows ≠ []) :
    ∃ rows, Row.AllRegular rows ∧
      (Reader.start o source).rest.result.1 = windows o 0 (RowSchema.start o.projection) rows ∧
      (Reader.start o source).rest.result.1.getLast?.map Batch.schema =
        some (RowSchema.snapshotAfter o.projection rows) ∧
      ((Reader.start o source).rest.result.1.flatMap Batch.rows).length =
        (Reader.start o source).rest.reader.rowsEmitted := by
  have hl : o.limit ≠ some 0 := by
    intro hl
    rw [Reader.rest_of_limit_zero hl] at hne
    exact hne rfl
  have hresult := Reader.result_rest hb hl source
  have hall := Passage.handedOut_of_failure ((congrArg Prod.snd hresult).symm.trans hf) o.batchSize
  obtain ⟨hemitted, hlast, -⟩ := Reader.rest_pinned hb hp hl hall rfl
  have hwindows := congrArg Prod.fst hresult
  rw [hall] at hwindows
  have hrows : (Tabular.passage o source.ending source.events 0 {}).rows ≠ [] := by
    intro hnil
    rw [hwindows, hnil, windows_nil] at hne
    exact hne rfl
  rw [if_neg hrows] at hlast
  refine ⟨_, fun row hrow => ?_, hwindows, hlast, hemitted⟩
  exact Scan.isRegular_sealed o source.events row
    ((isPrefix_rows_passage o source.ending source.events 0 {}).subset hrow)

theorem batches_eq_nil (hb : 0 < o.batchSize)
    (hnone : (Reader.start o source).rest.result.1.flatMap Batch.rows = []) :
    (Reader.start o source).rest.result.1 = [] := by
  obtain ⟨rows, -, hwindows⟩ := Reader.exists_windows hb source
  rw [hwindows] at hnone ⊢
  have hlength := length_rows_windows hb rows
  rw [hnone, List.length_nil, eq_comm, List.length_eq_zero_iff] at hlength
  rw [hlength, windows_nil]

/-! ## What comes of the reading -/

/-- The lines of the rows of a job written to the file that has been made for them. -/
def Job.written (w : World σ) (job : Job σ) (s : σ) : σ × Option WriteFault :=
  w.disk.write job.stagedAt ((job.stagedRows w s).map rowLine) s

/-- The error of a load whose lines cannot be written. -/
def LoadError.ofWriting (fault : WriteFault) (path : String) : LoadError :=
  match fault with
  | .line row => .staging (.writeFailed path row)
  | .closing fault => .file fault path

section Staging

variable (hb : 0 < job.options.batchSize) (hp : job.options.pinSchema = true)
include hb hp

theorem isCell_stagedRows : ∀ row ∈ job.stagedRows w made, (Value.map row).IsCell := by
  obtain ⟨rows, -, hwindows⟩ := Reader.exists_windows hb (w.parser.source (job.content made))
  have hrows : job.stagedRows w made = _ := congrArg (List.flatMap Batch.rows) hwindows
  rw [hrows]
  exact fun row hrow => isCell_windows hb hp hrow

/-- The rows of a job are staged, all of them. -/
theorem stageAt_read (path : String) :
    stageAt path (job.read w made).result.1 =
      (⟨stagedText (job.stagedRows w made), (job.stagedRows w made).length,
        (job.read w made).result.1.getLast?.map Batch.schema⟩, .ok ()) := by
  rw [stageAt, stage_of_isCell (isCell_stagedRows hb hp)]
  rfl

/-- A load whose lines cannot be written. -/
theorem stageRead_of_fault {fault : WriteFault} (hw : (job.written w made).2 = some fault) :
    (stageRead w q job made).result = .error (.ofWriting fault job.stagedAt.text) ∧
      (stageRead w q job made).statements = [] := by
  rw [Job.written] at hw
  simp only [stageRead, stageAt_read hb hp, List.take_length, hw]
  cases fault <;> exact ⟨rfl, rfl⟩

/-- A load whose document cannot be read to its end. -/
theorem stageRead_of_failure {failure : ReadFailure} (hw : (job.written w made).2 = none)
    (hf : (job.read w made).result.2 = some failure) :
    (stageRead w q job made).result = .error (.read failure) ∧
      (stageRead w q job made).statements = [] := by
  rw [Job.written] at hw
  simp only [stageRead, stageAt_read hb hp, List.take_length, hw, hf, and_self]

/-- A load whose document has no rows. -/
theorem stageRead_of_no_rows (hw : (job.written w made).2 = none)
    (hf : (job.read w made).result.2 = none) (hnone : job.stagedRows w made = []) :
    (∃ r, (stageRead w q job made).result = .ok r ∧ r.rows = 0 ∧ r.columns = []) ∧
      (stageRead w q job made).statements = [] := by
  have hbatches : (job.read w made).result.1 = [] := batches_eq_nil hb hnone
  rw [Job.written] at hw
  simp only [stageRead, stageAt_read hb hp, List.take_length, hw, hf]
  simp [hbatches, hnone]

/-- A load whose document has rows. -/
theorem stageRead_of_rows {schema : Snapshot} (hw : (job.written w made).2 = none)
    (hf : (job.read w made).result.2 = none) (hne : job.stagedRows w made ≠ [])
    (hs : (job.read w made).result.1.getLast?.map Batch.schema = some schema) :
    ∃ r : LoadResult, r.stagedAt = job.stagedAt ∧ r.columns = schema.paths ∧
      stageRead w q job made =
        loadStaged w q r schema (job.stagedRows w made).length (job.written w made).1 := by
  refine ⟨⟨job.datasetId, q.database, q.table, job.stagedAt, 0, schema.paths,
    (job.read w made).reader.diagnostics⟩, rfl, rfl, ?_⟩
  obtain ⟨row, rest, hrows⟩ := List.exists_cons_of_ne_nil hne
  rw [Job.written] at hw ⊢
  simp only [stageRead, stageAt_read hb hp, List.take_length, hw, hf, hs]
  simp [hrows]

end Staging

/-! ## Loads over an open connection -/

/-- What the database and the files get of a load whose document has rows. -/
structure HandedOver (w : World σ) (q : LoadRequest) (accepts : Bool) (count : Nat) (job : Job σ)
    (made : σ) (schema : Snapshot) (loaded : Loaded σ) : Prop where
  /-- The schema is that of the last batch. -/
  last : (job.read w made).result.1.getLast?.map Batch.schema = some schema
  /-- The staged file can be read. -/
  file : w.disk.read job.stagedAt loaded.state =
    .ok ⟨(stagedText (job.stagedRows w made)).toUTF8.toList, none⟩
  lines : (stagedText (job.stagedRows w made)).toList.splitOn '\n' =
    (job.stagedRows w made).map (fun row => Json.lineChars .all (.map row)) ++ [[]]
  emitted : (job.stagedRows w made).length = (job.read w made).reader.rowsEmitted
  statements : loaded.statements =
    createTable q.table (escapedPath job.stagedAt.text) schema ::
      if accepts then [countRows q.table] else []
  accepted : accepts = true →
    ∃ r, loaded.result = .ok r ∧ r.rows = count ∧ r.columns = schema.paths
  refused : accepts = false → loaded.result = .error (.statement q.table)
  /-- There are columns, unless a projection is asked for that has no path with names. -/
  literal : columnsLiteral schema = "\x7b\x7d" →
    ∃ requests, job.options.projection = .columns requests ∧ ∀ path ∈ requests, path = []
  fits : ∃ types, columnTypes? (columnsLiteral schema) = some types ∧
    ∀ row ∈ job.stagedRows w made, Fits types row

/-- The database's part of a load over an open connection. -/
theorem loadStaged_connected (w : World σ) (q : LoadRequest) (accepts : Bool) (count written : Nat)
    (r : LoadResult) (schema : Snapshot) (s : σ) :
    loadStaged w (q.connected accepts count) r schema written s =
      ⟨if accepts then .ok { r with rows := count } else .error (.statement q.table),
        createTable q.table (escapedPath r.stagedAt.text) schema ::
          if accepts then [countRows q.table] else [], s⟩ := by
  cases accepts <;> rfl

/-- The projection of a load is a star, or it was asked for. -/
theorem exists_requests_of_columns_eq_nil
    (h : (RowSchema.snapshotAfter o.projection rows).columns = []) :
    ∃ requests, o.projection = .columns requests ∧ ∀ path ∈ requests, path = [] := by
  obtain ⟨hpaths, hcarried⟩ := (RowSchema.columns_eq_nil_iff o.projection rows).mp h
  cases hp : o.projection with
  | columns requests => exact ⟨requests, rfl, by rwa [hp] at hpaths⟩
  | all =>
    rw [hp] at h
    obtain ⟨c, hc, -⟩ :=
      RowSchema.exists_column_iff.mpr (RowSchema.kindAt_attributes (p := .all) rfl rows)
    rw [h] at hc
    cases hc

end Tabular
