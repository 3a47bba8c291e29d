import Tabular.Files.Disk
import Tabular.Reader.Scan
import Tabular.Schema.RowSchema

/-!
# Readers

A reader turns a stream of events into batches of rows, one batch at a call. It takes no more
events than it needs, stops at the row limit, and hands out the finished rows before it reports
that the stream is malformed.

* `LogLine`, `Stage`: what is logged, and a piece of work whose start and end are;
* `Diagnostics`: what a reader has done so far, and what it left out instead of failing;
* `Batch`: some rows with the schema they all have the shape of;
* `EventSource`: events and how they end;
* `Filling`, `fill`: rows gathered until the batch is full or the events end;
* `Reader`, `Reader.nextBatch`, `Reader.close`: the reader between calls;
* `Reader.rest`: all batches that are left.
-/

namespace Tabular

/-! ## Log lines -/

/-- How serious a message is. -/
inductive LogLevel where
  | info
  | warning
  | error
  deriving Repr, DecidableEq, Inhabited

/-- The name of a log level. -/
def LogLevel.name : LogLevel → String
  | .info => "INFO"
  | .warning => "WARNING"
  | .error => "ERROR"

/-- A message in a log. -/
structure LogLine where
  level : LogLevel
  log : String
  message : String
  deriving Repr, DecidableEq, Inhabited

/-- A piece of work with its circumstances. -/
structure Stage where
  name : String
  log : String := "xmlrows.timing"
  context : Entries Value := []
  deriving Repr, Inhabited

namespace Stage

/-- Circumstances in a message. -/
def circumstances (entries : Entries Value) : String :=
  " ".intercalate (entries.map fun e => e.1 ++ "=" ++ e.2.plain)

/-- The line at the start. -/
def started (s : Stage) : LogLine :=
  ⟨.info, s.log, s.name ++ " start " ++ circumstances s.context⟩

/-- The line at a good end; `results` come after the circumstances, or replace them. -/
def succeeded (s : Stage) (time : String) (results : Entries Value) : LogLine :=
  ⟨.info, s.log, s.name ++ " ok in " ++ time ++ " ms " ++
    circumstances (Entries.putAll s.context results)⟩

/-- The line at a bad end. -/
def failed (s : Stage) (time : String) (results : Entries Value) : LogLine :=
  ⟨.error, s.log, s.name ++ " failed after " ++ time ++ " ms " ++
    circumstances (Entries.putAll s.context results)⟩

end Stage

/-! ## Diagnostics -/

/-- The counters of a reader. -/
structure Diagnostics where
  rowsEmitted : Nat := 0
  batchesEmitted : Nat := 0
  eventsConsumed : Nat := 0
  schemaConflicts : Nat := 0
  /-- The first conflicts. -/
  conflicts : List Conflict := []
  duplicateFields : Nat := 0
  duplicateAttributes : Nat := 0
  flattenCollisions : Nat := 0
  reservedCollisions : Nat := 0
  skippedElements : Nat := 0
  /-- Rows that began but were not finished when the input broke off. -/
  rowsDiscarded : Nat := 0
  limitReached : Bool := false
  deriving Repr, Inhabited, DecidableEq

namespace Diagnostics

/-- The counters by name. -/
def toValue (d : Diagnostics) : Value :=
  .map [("rows_emitted", .int d.rowsEmitted), ("batches_emitted", .int d.batchesEmitted),
    ("events_consumed", .int d.eventsConsumed), ("schema_conflicts", .int d.schemaConflicts),
    ("duplicate_fields", .int d.duplicateFields),
    ("duplicate_attributes", .int d.duplicateAttributes),
    ("flatten_collisions", .int d.flattenCollisions),
    ("reserved_collisions", .int d.reservedCollisions),
    ("skipped_elements", .int d.skippedElements), ("rows_discarded", .int d.rowsDiscarded),
    ("limit_reached", .bool d.limitReached)]

end Diagnostics

/-! ## Batches -/

/-- Rows in the shape of one schema. -/
structure Batch where
  schema : Snapshot
  rows : List (Entries Value)
  index : Nat
  deriving Repr, Inhabited

namespace Batch

/-- The number of rows. -/
def size (b : Batch) : Nat :=
  b.rows.length

/-- The value at a path in each row, null where the path leads nowhere. -/
def column (b : Batch) (path : Path) : List Value :=
  b.rows.map fun row => (Value.map row).follow path

/-- The batch of some records under a schema. -/
def ofRecords (schema : Snapshot) (records : List (Entries Value)) (index : Nat) : Batch :=
  let branches := schema.branches
  ⟨schema, records.map (Snapshot.padWith branches), index⟩

end Batch

/-! ## Sources -/

/-- How a stream of events ends. -/
inductive Ending where
  | complete
  /-- The document is not well-formed; the line of the fault. -/
  | malformed (line : Nat)
  /-- The file cannot be read. -/
  | unreadable (fault : FileFault)
  deriving Repr, DecidableEq, Inhabited

/-- Events and how they end. -/
structure EventSource where
  events : List Event
  ending : Ending := .complete
  deriving Repr, Inhabited

/-- Why a call gives no batch. -/
inductive ReadFailure where
  | malformed (error : Malformed)
  | unreadable (fault : FileFault)
  deriving Repr, DecidableEq, Inhabited

/-! ## Filling a batch -/

/-- What stopped the filling of a batch. -/
inductive Halt where
  /-- The batch is full. -/
  | full
  /-- The reader has given as many rows as it may. -/
  | limit
  /-- No events are left. -/
  | drained
  /-- The stream is malformed. -/
  | broken (error : Malformed)
  /-- The file cannot be read. -/
  | unreadable (fault : FileFault)
  deriving Repr, DecidableEq, Inhabited

/-- The state while a batch is filled. -/
structure Filling where
  scan : Scan
  schema : RowSchema
  /-- The records of the batch, the last one first. -/
  records : List (Entries Value) := []
  /-- The conflicts met, the last one first. -/
  conflicts : List Conflict := []
  /-- How many rows all batches hold so far. -/
  rowsEmitted : Nat
  eventsConsumed : Nat
  /-- How many rows still fit into the batch. -/
  room : Nat
  deriving Inhabited

namespace Filling

/-- One more row in the batch. -/
def add (row : Row) (f : Filling) : Filling :=
  let folded := f.schema.fold row
  { f with
    schema := folded.schema
    records := folded.record :: f.records
    conflicts := folded.conflicts.reverse ++ f.conflicts
    rowsEmitted := f.rowsEmitted + 1
    room := f.room - 1 }

/-- As many rows as the reader may give have been given. -/
def atLimit (o : ReaderOptions) (f : Filling) : Bool :=
  match o.limit with
  | none => false
  | some limit => limit ≤ f.rowsEmitted

/-- The stream has no more events. -/
def atEnd (ending : Ending) (f : Filling) : Halt :=
  match ending with
  | .malformed line => .broken (.document line)
  | .unreadable fault => .unreadable fault
  | .complete =>
    match f.scan.openTags with
    | [] => .drained
    | opened :: _ => .broken (.endedInside opened)

end Filling

/-- Takes events until something stops it; the events that are left. -/
def fill (o : ReaderOptions) (ending : Ending) : List Event → Filling → Filling × Halt × List Event
  | [], f => (f, f.atEnd ending, [])
  | event :: rest, f =>
    let f := { f with eventsConsumed := f.eventsConsumed + 1 }
    match f.scan.feed o event with
    | .error error => (f, .broken error, rest)
    | .ok (scan, none) => fill o ending rest { f with scan }
    | .ok (scan, some row) =>
      let f := { f with scan }.add row
      if f.atLimit o then (f, .limit, rest)
      else if f.room = 0 then (f, .full, rest)
      else fill o ending rest f

/-! ## Readers between calls -/

/-- How many conflicts are kept in full. -/
def keptConflicts : Nat := 100

/-- A reader between two calls. -/
structure Reader where
  options : ReaderOptions
  source : EventSource
  scan : Scan := {}
  /-- The schema of all batches, where they share one. -/
  pinned : Option RowSchema := none
  rowsEmitted : Nat := 0
  batchesEmitted : Nat := 0
  eventsConsumed : Nat := 0
  schemaConflicts : Nat := 0
  conflicts : List Conflict := []
  rowsDiscarded : Nat := 0
  limitReached : Bool := false
  /-- What every later call fails with. -/
  error : Option Malformed := none
  exhausted : Bool := false
  deriving Inhabited

/-- What a call leaves behind: the reader, and the lines it logs. -/
structure Called (α : Type) where
  reader : Reader
  result : α
  lines : List LogLine := []
  deriving Inhabited

namespace Reader

/-- A reader before its first call. It has nothing to do if no row may be given. -/
def start (options : ReaderOptions) (source : EventSource) : Reader :=
  let idle : Bool := options.limit = some 0
  { options, source, limitReached := idle, exhausted := idle }

/-- The counters at this moment. -/
def diagnostics (r : Reader) : Diagnostics where
  rowsEmitted := r.rowsEmitted
  batchesEmitted := r.batchesEmitted
  eventsConsumed := r.eventsConsumed
  schemaConflicts := r.schemaConflicts
  conflicts := r.conflicts
  duplicateFields := r.scan.builder.tally.duplicateFields
  duplicateAttributes := r.scan.builder.tally.duplicateAttributes
  flattenCollisions := r.scan.builder.tally.flattenCollisions
  reservedCollisions := r.scan.builder.tally.reservedCollisions
  skippedElements := r.scan.skippedElements
  rowsDiscarded := r.rowsDiscarded
  limitReached := r.limitReached

/-- The schema that the next row goes to. -/
def window (r : Reader) : RowSchema :=
  match r.options.pinSchema, r.pinned with
  | true, some schema => schema
  | _, _ => RowSchema.start r.options.projection

/-! ### Log lines -/

/-- A line of the reader's log. -/
def line (level : LogLevel) (message : String) : LogLine :=
  ⟨level, "xmlrows.reader", message⟩

/-- The line for a conflict. -/
def conflictLine (c : Conflict) : LogLine :=
  ⟨.warning, "xmlrows.schema", c.message ++ "; value set to null"⟩

/-- The line for a reached limit. -/
def limitLine (limit : Nat) : LogLine :=
  line .info ("row limit reached limit=" ++ toString limit ++ "; stopping early")

/-- The line for the end of reading. -/
def summaryLine (r : Reader) : LogLine :=
  line .info ("stream summary " ++ r.diagnostics.toValue.display)

/-- The line for rows handed out before an error. -/
def flushLine (rows : Nat) : LogLine :=
  line .warning ("flushing " ++ toString rows ++ " sealed rows before malformed input error")

/-! ### Calls -/

/-- The reader after a batch was filled. -/
def absorb (r : Reader) (f : Filling) (events : List Event) : Reader :=
  let conflicts := f.conflicts.reverse
  { r with
    source := { r.source with events }
    scan := f.scan
    pinned := some f.schema
    rowsEmitted := f.rowsEmitted
    eventsConsumed := f.eventsConsumed
    schemaConflicts := r.schemaConflicts + conflicts.length
    conflicts := (r.conflicts ++ conflicts).take keptConflicts }

/-- The reader after the stream turned out malformed: an unfinished row is given up. -/
def fail (error : Malformed) (r : Reader) : Reader :=
  { r with
    error := some error
    exhausted := true
    scan := { r.scan with builder := r.scan.builder.abandon }
    rowsDiscarded := if r.scan.builder.isActive then r.rowsDiscarded + 1 else r.rowsDiscarded }

/-- The batch of the records that were gathered, if there are any. -/
def emit (f : Filling) (c : Called Unit) : Called (Except ReadFailure (Option Batch)) :=
  if f.records.isEmpty then { c with result := .ok none }
  else
    let batch := Batch.ofRecords f.schema.snapshot f.records.reverse c.reader.batchesEmitted
    { c with
      reader := { c.reader with batchesEmitted := c.reader.batchesEmitted + 1 }
      result := .ok (some batch) }

/-- What a filled batch leaves behind. -/
def settle (f : Filling) (halt : Halt) (r : Reader) :
    Called (Except ReadFailure (Option Batch)) :=
  let warnings := f.conflicts.reverse.map conflictLine
  match halt with
  | .full => emit f ⟨r, (), warnings⟩
  | .limit =>
    let r := { r with limitReached := true, exhausted := true }
    emit f ⟨r, (), warnings ++ [limitLine (r.options.limit.getD 0), r.summaryLine]⟩
  | .drained =>
    let r := { r with exhausted := true }
    emit f ⟨r, (), warnings ++ [r.summaryLine]⟩
  | .broken error =>
    let r := r.fail error
    if f.records.isEmpty then
      ⟨r, .error (.malformed error), warnings ++ [r.summaryLine]⟩
    else emit f ⟨r, (), warnings ++ [r.summaryLine, flushLine f.records.length]⟩
  | .unreadable fault =>
    ⟨{ r with source := ⟨[], .complete⟩ }, .error (.unreadable fault), warnings⟩

/-- The next batch, or none where there is no more. -/
def nextBatch (r : Reader) : Called (Except ReadFailure (Option Batch)) :=
  match r.error, r.exhausted with
  | some error, _ => ⟨r, .error (.malformed error), []⟩
  | none, true => ⟨r, .ok none, []⟩
  | none, false =>
    let empty : Filling :=
      { scan := r.scan, schema := r.window, rowsEmitted := r.rowsEmitted,
        eventsConsumed := r.eventsConsumed, room := r.options.batchSize }
    let (f, halt, events) := fill r.options r.source.ending r.source.events empty
    settle f halt (r.absorb f events)

/-- Reading stops. -/
def close (r : Reader) : Called Unit :=
  if r.exhausted then ⟨r, (), []⟩
  else
    let r := { r with exhausted := true }
    ⟨r, (), [r.summaryLine]⟩

/-- The batches that up to `calls` calls give, and the failure that ended them. -/
def batches : Nat → Reader → Called (List Batch × Option ReadFailure)
  | 0, r => ⟨r, ([], none), []⟩
  | calls + 1, r =>
    let c := r.nextBatch
    match c.result with
    | .error failure => ⟨c.reader, ([], some failure), c.lines⟩
    | .ok none => ⟨c.reader, ([], none), c.lines⟩
    | .ok (some batch) =>
      let later := batches calls c.reader
      ⟨later.reader, (batch :: later.result.1, later.result.2), c.lines ++ later.lines⟩

/-- All batches that are left, and the failure that ended them. Each takes an event, so there are
no more calls to make than events and one. -/
def rest (r : Reader) : Called (List Batch × Option ReadFailure) :=
  batches (r.source.events.length + 2) r

end Reader

end Tabular
