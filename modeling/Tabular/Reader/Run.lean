import Tabular.Reader.Basic

/-!
# Whole runs

* `readAll`: every batch of a source at once;
* `Streaming`, `stream`: the batches one after another with the lines that are logged, where the
  consumer may stop after some of them.
-/

namespace Tabular

/-- A finished run. -/
structure Run where
  batches : List Batch
  diagnostics : Diagnostics
  deriving Inhabited

namespace Run

/-- The number of rows in all batches. -/
def size (r : Run) : Nat :=
  r.batches.foldl (fun n b => n + b.size) 0

end Run

/-- Every batch of a source. -/
def readAll (options : ReaderOptions) (source : EventSource) : Except ReadFailure Run :=
  let c := (Reader.start options source).rest
  match c.result with
  | (_, some failure) => .error failure
  | (batches, none) => .ok ⟨batches, c.reader.close.reader.diagnostics⟩

/-- Batches received by a consumer, the failure that ended them, and the logged lines. -/
structure Streaming where
  batches : List Batch
  failure : Option ReadFailure
  lines : List LogLine
  deriving Inhabited

/-- The batches of a source, under a label, until the consumer has received `take` of them. The
time taken is given as text. -/
def stream (options : ReaderOptions) (source : EventSource) (label time : String)
    (take : Option Nat) : Streaming :=
  let stage : Stage :=
    { name := "read-batches", log := "xmlrows.reader",
      context := [("source", .text label), ("data_level", .int options.dataLevel),
        ("limit", .ofNat? options.limit)] }
  let start := Reader.start options source
  let c :=
    match take with
    | none => start.rest
    | some n => Reader.batches (max n 1) start
  let (batches, failure) := c.result
  let closed := c.reader.close
  let results : Entries Value := [("rows", .int c.reader.rowsEmitted)]
  let stopped : Bool :=
    match take with
    | none => false
    | some n => max n 1 ≤ batches.length
  let last : List LogLine :=
    if failure.isSome then [stage.failed time results]
    else if stopped then []
    else [stage.succeeded time results]
  ⟨batches, failure, stage.started :: c.lines ++ closed.lines ++ last⟩

end Tabular
