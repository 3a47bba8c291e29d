import Tabular.Reader.Basic
import Tabular.Value.Json

/-!
# Staged rows

Rows wait for the database in a file of JSON texts, one row a line.

* `Staged`: the text so far, how many rows it holds, and the schema of the last batch;
* `stage`: the rows of some batches, up to the first that has no JSON text;
* `StagingError`: why a file cannot be staged, with its wording.
-/

namespace Tabular

/-- Why rows cannot be staged. -/
inductive StagingError where
  | openFailed (path : String)
  | writeFailed (path : String) (row : Nat)
  deriving Repr, DecidableEq, Inhabited

/-- The wording of a staging error. -/
def StagingError.message : StagingError → String
  | .openFailed path => "open failed path='" ++ path ++ "'"
  | .writeFailed path row => "write failed path='" ++ path ++ "' row=" ++ toString row

/-- A file with staged rows. -/
structure Staged where
  text : String := ""
  written : Nat := 0
  schema : Option Snapshot := none
  deriving Repr, Inhabited

/-- The line of a row. -/
def rowLine (row : Entries Value) : String :=
  Json.line .all (.map row) ++ "\n"

/-- The rows of one batch behind the staged ones; false where one could not be written. -/
def stageRows (s : Staged) : List (Entries Value) → Staged × Bool
  | [] => (s, true)
  | row :: rest =>
    if Json.writableEntries row then
      stageRows { s with text := s.text ++ rowLine row, written := s.written + 1 } rest
    else (s, false)

/-- The rows of batches behind the staged ones; false where one could not be written. -/
def stageOnto (s : Staged) : List Batch → Staged × Bool
  | [] => (s, true)
  | batch :: rest =>
    let (s, fine) := stageRows { s with schema := some batch.schema } batch.rows
    if fine then stageOnto s rest else (s, false)

/-- The rows of batches as a staged file. -/
def stage (batches : List Batch) : Staged × Bool :=
  stageOnto {} batches

/-- The staged rows of batches, or why they cannot be staged at a path. -/
def stageAt (path : String) (batches : List Batch) : Staged × Except StagingError Unit :=
  let (s, fine) := stage batches
  (s, if fine then .ok () else .error (.writeFailed path s.written))

end Tabular
