import Tabular.CommandLine.Request
import Tabular.Load.Basic

/-!
# Running a command line

* `Exit`: how a run ends, with `Exit.code`, the number it ends with;
* `Outcome`: what a run prints, how it ends, what it asks the database, and the machine after it;
* `Request.run`, `run`: a request, and a whole command line.
-/

namespace Tabular.CommandLine

/-- How a run ends. -/
inductive Exit where
  | done
  /-- A failure that the user is told. -/
  | failed (message : String)
  /-- Nothing was run. -/
  | stopped (stop : Stop)
  /-- A file that cannot be read as it is. -/
  | unreadable (fault : FileFault)
  /-- A log level that is none. -/
  | unknownLevel
  deriving Repr, DecidableEq, Inhabited

/-- The number that a run ends with. -/
def Exit.code : Exit → Nat
  | .done => 0
  | .stopped .help => 0
  | .stopped .usage => 2
  | .failed _ => 2
  | .unreadable _ => 1
  | .unknownLevel => 1

/-- What a run does, on a machine with states of a type. -/
structure Outcome (σ : Type) where
  output : String
  exit : Exit
  statements : List String := []
  state : σ
  deriving Inhabited

/-! ## Failures -/

/-- The exit after a fault at a place. -/
def Exit.ofFault (fault : FileFault) (shown : String) : Exit :=
  match fault with
  | .notFound => .failed (fault.message shown)
  | _ => .unreadable fault

/-- The exit after a document that cannot be opened. -/
def Exit.ofOpenError : OpenError → Exit
  | .fault fault shown => .ofFault fault shown
  | error => .failed error.message

/-- The exit after a document that cannot be read. -/
def Exit.ofFailure : ReadFailure → Exit
  | .malformed error => .failed error.message
  | .unreadable fault => .unreadable fault

/-- The exit after a load that fails. -/
def Exit.ofLoadError : LoadError → Exit
  | .file fault shown => .ofFault fault shown
  | .openError error => .ofOpenError error
  | .read failure => .ofFailure failure
  | error => .failed error.message

/-! ## Log levels -/

/-- The names of the log levels. -/
def logLevels : List String :=
  ["CRITICAL", "DEBUG", "ERROR", "FATAL", "INFO", "NOTSET", "WARN", "WARNING"]

/-- The capital of a letter, as far as it is one of ASCII. -/
def capital (c : Char) : Char :=
  if c = 'ı' then 'I' else if c = 'ſ' then 'S' else c.toUpper

/-- A log level in letters of either case; none and an empty one stand for the usual level. -/
def isLogLevel : Option String → Bool
  | none => true
  | some s => s.isEmpty || logLevels.contains (String.ofList (s.toList.map capital))

/-! ## Commands -/

/-- The columns of a document and the counts of the run, as a value. -/
def schemaReport (batches : List Batch) (diagnostics : Diagnostics) : Value :=
  .map [("columns", (batches.getLast?.map fun b => b.schema.describe).getD (.list [])),
    ("diagnostics", diagnostics.toValue)]

/-- The rows of batches, one a line. -/
def rowLines (batches : List Batch) : String :=
  String.join (batches.flatMap fun b => b.rows.map rowLine)

/-- A value over several lines, with a line end. -/
def report (v : Value) : String :=
  Json.indented .ascii v ++ "\n"

namespace Request

variable {σ : Type} (w : World σ)

/-- The batches of the document under given settings, the failure that ends them, and the counts. -/
def batches (q : Request) (settings : Entries Setting) (s : σ) :
    Except Exit (List Batch × Option ReadFailure × Diagnostics) :=
  match ReaderOptions.load w.checker settings with
  | .error error => .error (.failed error.summary)
  | .ok o =>
    match openDocument w.disk w.codecs (.ofString q.document) s with
    | .error error => .error (.ofOpenError error)
    | .ok content =>
      let c := (Reader.start o (w.parser.source (content s))).rest
      .ok (c.result.1, c.result.2, c.reader.diagnostics)

/-- Prints the columns of the document. -/
def runSchema (q : Request) (s : σ) : Outcome σ :=
  match q.batches w (Entries.put "pin_schema" (.value (.bool true)) q.settings) s with
  | .error exit => { output := "", exit, state := s }
  | .ok (_, some failure, _) => { output := "", exit := .ofFailure failure, state := s }
  | .ok (batches, none, diagnostics) =>
    { output := report (schemaReport batches diagnostics), exit := .done, state := s }

/-- Prints the rows of the document, those before a failure included. -/
def runRows (q : Request) (s : σ) : Outcome σ :=
  match q.batches w q.settings s with
  | .error exit => { output := "", exit, state := s }
  | .ok (batches, failure, _) =>
    { output := rowLines batches, exit := (failure.map .ofFailure).getD .done, state := s }

/-- The load that is asked for. -/
def toLoad (q : Request) (database table : String) : LoadRequest :=
  { document := q.document, database, table, settings := q.settings }

/-- Loads the document and prints what was done. -/
def runLoad (q : Request) (database table : String) (s : σ) : Outcome σ :=
  let loaded := load w (q.toLoad database table) s
  match loaded.result with
  | .error error =>
    { output := "", exit := .ofLoadError error, statements := loaded.statements,
      state := loaded.state }
  | .ok result =>
    { output := report (result.toValue result.stagedAt.text), exit := .done,
      statements := loaded.statements, state := loaded.state }

/-- Runs a request. -/
def run (q : Request) (s : σ) : Outcome σ :=
  if !isLogLevel q.logLevel then { output := "", exit := .unknownLevel, state := s }
  else
    match q.command with
    | .schema => q.runSchema w s
    | .rows => q.runRows w s
    | .load database table => q.runLoad w database table s

end Request

/-- Runs a command line. -/
def run {σ : Type} (w : World σ) (texts : List String) (s : σ) : Outcome σ :=
  match Request.ofArguments texts with
  | .error stop => { output := "", exit := .stopped stop, state := s }
  | .ok q => q.run w s

end Tabular.CommandLine
