import Tabular.Proofs.Reader.Filled
import Tabular.Proofs.Strict.Scan
import Tabular.Proofs.Strict.Snapshot

/-!
# Readers by handle

A reader whose scan works by handle and whose schema is kept in tables.

* `Strict.Filling`, `Strict.fill`: rows gathered until the batch is full or the events end;
* `Strict.Reader`, `Strict.Reader.nextBatch`, `Strict.Reader.close`: the reader between calls;
* `Filling.Shows`, **`fill_shows`**: a filling breaches nothing and comes to what it comes to for the
  reader;
* `Reader.Shows`, **`settle_shows`**, **`nextBatch_shows`**: so does a call.
-/

namespace Tabular

namespace Strict

/-- The state while a batch is filled. -/
structure Filling where
  scan : Scan
  schema : Schema
  /-- The records of the batch, the last one first. -/
  records : List (Entries Value) := []
  rowsEmitted : Nat
  /-- How many rows still fit into the batch. -/
  room : Nat

/-- One more row in the batch. -/
def Filling.add (row : Row) (f : Filling) : Filling where
  scan := f.scan
  schema := f.schema.fold row
  records := (f.schema.running.fold row).record :: f.records
  rowsEmitted := f.rowsEmitted + 1
  room := f.room - 1

/-- Takes events until something stops it; the events that are left. -/
def fill (o : ReaderOptions) (ending : Ending) :
    List Event → Filling → Except Breach (Filling × Halt × List Event)
  | [], f => .ok (f, ending.halt f.scan.openTags, [])
  | event :: rest, f => do
    match ← f.scan.feed o event with
    | .error error => return (f, .broken error, rest)
    | .ok (scan, none) => fill o ending rest { f with scan }
    | .ok (scan, some row) =>
      let f := Filling.add row { f with scan }
      if o.isEnough f.rowsEmitted then return (f, .limit, rest)
      else if f.room = 0 then return (f, .full, rest)
      else fill o ending rest f

/-- A reader between two calls. -/
structure Reader where
  options : ReaderOptions
  source : EventSource
  scan : Scan := {}
  /-- The schema of all batches, where they share one. -/
  pinned : Option Schema := none
  rowsEmitted : Nat := 0
  batchesEmitted : Nat := 0
  /-- What every later call fails with. -/
  error : Option Malformed := none
  exhausted : Bool := false

namespace Reader

/-- A reader before its first call. -/
def start (options : ReaderOptions) (source : EventSource) : Reader :=
  { options, source, exhausted := options.limit = some 0 }

/-- The schema that the next row goes to. -/
def window (r : Reader) : Schema :=
  match r.options.pinSchema, r.pinned with
  | true, some schema => schema
  | _, _ => Schema.start r.options.projection

/-- The reader after a batch was filled. -/
def absorb (r : Reader) (f : Filling) (events : List Event) : Reader :=
  { r with
    source := { r.source with events }
    scan := f.scan
    pinned := some f.schema
    rowsEmitted := f.rowsEmitted }

/-- The reader after the stream turned out malformed: an unfinished row is given up. -/
def fail (error : Malformed) (r : Reader) : Reader :=
  { r with
    error := some error
    exhausted := true
    scan := { r.scan with builder := abandon r.scan.builder } }

/-- The batch of the records that were gathered, if there are any. -/
def emit (f : Filling) (r : Reader) : Except Breach (Reader × Except ReadFailure (Option Batch)) :=
  if f.records.isEmpty then .ok (r, .ok none)
  else do
    let snapshot ← f.schema.snapshot
    let batch := Batch.ofRecords snapshot f.records.reverse r.batchesEmitted
    return ({ r with batchesEmitted := r.batchesEmitted + 1 }, .ok (some batch))

/-- What a filled batch leaves behind. -/
def settle (f : Filling) (halt : Halt) (r : Reader) :
    Except Breach (Reader × Except ReadFailure (Option Batch)) :=
  match halt with
  | .full => emit f r
  | .limit | .drained => emit f { r with exhausted := true }
  | .broken error =>
    if f.records.isEmpty then .ok (r.fail error, .error (.malformed error))
    else emit f (r.fail error)
  | .unreadable fault => .ok ({ r with source := ⟨[], .complete⟩ }, .error (.unreadable fault))

/-- The next batch, or none where there is no more. -/
def nextBatch (r : Reader) : Except Breach (Reader × Except ReadFailure (Option Batch)) :=
  match r.error, r.exhausted with
  | some error, _ => .ok (r, .error (.malformed error))
  | none, true => .ok (r, .ok none)
  | none, false => do
    let (f, halt, events) ← fill r.options r.source.ending r.source.events
      { scan := r.scan, schema := r.window, rowsEmitted := r.rowsEmitted,
        room := r.options.batchSize }
    settle f halt (r.absorb f events)

/-- Reading stops. -/
def close (r : Reader) : Reader :=
  { r with exhausted := true }

end Reader

/-! ## Fillings -/

/-- The filling has what the other one has, and its parts are sound. -/
structure Filling.Shows (o : ReaderOptions) (f : Filling) (m : Tabular.Filling) : Prop where
  scan : f.scan = m.scan.strict
  sound : m.scan.Sound o
  running : f.schema.running = m.schema
  schema : f.schema.Sound
  records : f.records = m.records
  rowsEmitted : f.rowsEmitted = m.rowsEmitted
  room : f.room = m.room

variable {o : ReaderOptions} {f : Filling} {m : Tabular.Filling}

theorem Filling.Shows.moved (h : f.Shows o m) {scan : Tabular.Scan} (hs : scan.Sound o) :
    Filling.Shows o { f with scan := scan.strict } (m.moved scan) :=
  ⟨rfl, hs, h.running, h.schema, h.records, h.rowsEmitted, h.room⟩

theorem Filling.Shows.add (h : f.Shows o m) (row : Row) : (f.add row).Shows o (m.add row) where
  scan := h.scan
  sound := h.sound
  running := by
    show (f.schema.running.fold row).schema = (m.schema.fold row).schema
    rw [h.running]
  schema := h.schema.fold row
  records := by
    show (f.schema.running.fold row).record :: f.records = (m.schema.fold row).record :: m.records
    rw [h.running, h.records]
  rowsEmitted := congrArg (· + 1) h.rowsEmitted
  room := congrArg (· - 1) h.room

/-- **A filling breaches nothing**, and comes to what it comes to for the reader. -/
theorem fill_shows (h : f.Shows o m) (ending : Ending) (events : List Event) :
    ∃ f', fill o ending events f = .ok (f', (Tabular.fill o ending events m).2) ∧
      f'.Shows o (Tabular.fill o ending events m).1 := by
  induction events generalizing f m with
  | nil =>
    refine ⟨f, ?_, h⟩
    rw [fill, Tabular.fill, Filling.atEnd_eq, h.scan]
    rfl
  | cons event rest ih =>
    obtain ⟨hfeed, hsound⟩ := Scan.feed_strict h.sound event
    rw [fill, h.scan, hfeed]
    cases hf : m.scan.feed o event with
    | error error =>
      rw [fill_cons_error hf]
      exact ⟨f, rfl, h.scan, h.sound, h.running, h.schema, h.records, h.rowsEmitted, h.room⟩
    | ok q =>
      obtain ⟨scan, row?⟩ := q
      have hmoved := h.moved (hsound scan row? hf)
      cases row? with
      | none =>
        rw [fill_cons_none hf]
        exact ih hmoved
      | some row =>
        have hadd := hmoved.add row
        have henough : o.isEnough (Filling.add row { f with scan := scan.strict }).rowsEmitted =
            o.isEnough (m.rowsEmitted + 1) := congrArg o.isEnough hadd.rowsEmitted
        have hroom : (Filling.add row { f with scan := scan.strict }).room = m.room - 1 := hadd.room
        rw [fill_cons_some hf, ← Filling.add_moved_eq_gather]
        show ∃ f', (if o.isEnough (Filling.add row { f with scan := scan.strict }).rowsEmitted then _
          else if (Filling.add row { f with scan := scan.strict }).room = 0 then _ else _) = _ ∧ _
        rw [henough, hroom]
        split
        · exact ⟨_, rfl, hadd⟩
        · split
          · exact ⟨_, rfl, hadd⟩
          · exact ih hadd

/-! ## Calls -/

/-- The reader has what the other one has, and a sound schema for the next row. -/
structure Reader.Shows (s : Reader) (r : Tabular.Reader) : Prop where
  options : s.options = r.options
  source : s.source = r.source
  scan : s.scan = r.scan.strict
  window : s.window.running = r.window
  schema : s.window.Sound
  rowsEmitted : s.rowsEmitted = r.rowsEmitted
  batchesEmitted : s.batchesEmitted = r.batchesEmitted
  error : s.error = r.error
  exhausted : s.exhausted = r.exhausted

namespace Reader

variable {s : Reader} {r : Tabular.Reader}

theorem shows_start (o : ReaderOptions) (source : EventSource) :
    (start o source).Shows (Tabular.Reader.start o source) := by
  have hwindow : (start o source).window = Schema.start o.projection := by
    rw [window]
    cases (start o source).options.pinSchema <;> rfl
  have hrunning : (Tabular.Reader.start o source).window = RowSchema.start o.projection := by
    rw [Tabular.Reader.window]
    cases (Tabular.Reader.start o source).options.pinSchema <;> rfl
  refine ⟨rfl, rfl, rfl, ?_, ?_, rfl, rfl, rfl, rfl⟩
  · rw [hwindow, hrunning]
    rfl
  · rw [hwindow]
    exact Schema.sound_start o.projection

/-- The schema of the filling goes on where all batches share one. -/
theorem Shows.absorb (h : s.Shows r) (hf : f.Shows o m) (events : List Event) :
    (s.absorb f events).Shows (r.absorb m events) := by
  refine ⟨h.options, ?_, hf.scan, ?_, ?_, hf.rowsEmitted, h.batchesEmitted, h.error, h.exhausted⟩
  · show ({ s.source with events } : EventSource) = { r.source with events }
    rw [h.source]
  · simp only [Reader.window, Tabular.Reader.window, Reader.absorb, Tabular.Reader.absorb,
      h.options]
    cases r.options.pinSchema with
    | true => exact hf.running
    | false => rfl
  · simp only [Reader.window, Reader.absorb]
    cases s.options.pinSchema with
    | true => exact hf.schema
    | false => exact Schema.sound_start s.options.projection

theorem Shows.exhaust (h : s.Shows r) (limitReached : Bool) :
    Shows { s with exhausted := true } { r with exhausted := true, limitReached := limitReached } :=
  ⟨h.options, h.source, h.scan, h.window, h.schema, h.rowsEmitted, h.batchesEmitted, h.error, rfl⟩

theorem Shows.fail (h : s.Shows r) (error : Malformed) : (s.fail error).Shows (r.fail error) := by
  refine ⟨h.options, h.source, ?_, h.window, h.schema, h.rowsEmitted, h.batchesEmitted, rfl, rfl⟩
  show ({ s.scan with builder := abandon s.scan.builder } : Scan) = _
  rw [h.scan]
  rfl

/-- **A batch breaches nothing**: its snapshot is that of the running schema. -/
theorem emit_shows (hf : f.Shows o m) {c : Called Unit} (h : s.Shows c.reader) :
    ∃ s', emit f s = .ok (s', (Tabular.Reader.emit m c).result) ∧
      s'.Shows (Tabular.Reader.emit m c).reader := by
  rw [emit, Tabular.Reader.emit, hf.records]
  split
  · exact ⟨s, rfl, h⟩
  · rw [hf.schema.snapshot, hf.running, h.batchesEmitted]
    exact ⟨_, rfl, h.options, h.source, h.scan, h.window, h.schema, h.rowsEmitted, rfl, h.error,
      h.exhausted⟩

/-- **What a filled batch leaves behind** breaches nothing. -/
theorem settle_shows (hf : f.Shows o m) (h : s.Shows r) (halt : Halt) :
    ∃ s', settle f halt s = .ok (s', (Tabular.Reader.settle m halt r).result) ∧
      s'.Shows (Tabular.Reader.settle m halt r).reader := by
  cases halt with
  | full => exact emit_shows hf h
  | limit => exact emit_shows hf (h.exhaust true)
  | drained => exact emit_shows hf (h.exhaust r.limitReached)
  | broken error =>
    simp only [settle, Tabular.Reader.settle, hf.records]
    split
    · exact ⟨_, rfl, h.fail error⟩
    · exact emit_shows hf (h.fail error)
  | unreadable fault =>
    exact ⟨_, rfl, h.options, rfl, h.scan, h.window, h.schema, h.rowsEmitted, h.batchesEmitted,
      h.error, h.exhausted⟩

/-- **A call breaches nothing**, and gives what the call of the reader gives. -/
theorem nextBatch_shows (h : s.Shows r) (hs : r.error = none → r.scan.Sound r.options) :
    ∃ s', s.nextBatch = .ok (s', r.nextBatch.result) ∧ s'.Shows r.nextBatch.reader := by
  rw [nextBatch, h.error, h.exhausted]
  cases he : r.error with
  | some error =>
    rw [Tabular.Reader.nextBatch_of_error he]
    exact ⟨s, rfl, h⟩
  | none =>
    cases hx : r.exhausted with
    | true =>
      rw [Tabular.Reader.nextBatch_of_exhausted he hx]
      exact ⟨s, rfl, h⟩
    | false =>
      have hempty : Filling.Shows r.options
          { scan := s.scan, schema := s.window, rowsEmitted := s.rowsEmitted,
            room := s.options.batchSize } r.emptied :=
        ⟨h.scan, hs he, h.window, h.schema, rfl, h.rowsEmitted,
          congrArg ReaderOptions.batchSize h.options⟩
      obtain ⟨f, hfill, hf⟩ := fill_shows hempty r.source.ending r.source.events
      rw [Tabular.Reader.nextBatch_eq he hx rfl]
      simp only [h.options, h.source] at hfill ⊢
      rw [hfill]
      exact settle_shows hf (h.absorb hf _) _

theorem close_shows (h : s.Shows r) : s.close.Shows r.close.reader := by
  rw [Tabular.Reader.close]
  split
  · next hx =>
    exact ⟨h.options, h.source, h.scan, h.window, h.schema, h.rowsEmitted, h.batchesEmitted,
      h.error, hx.symm⟩
  · exact h.exhaust r.limitReached

end Reader

end Strict

end Tabular
