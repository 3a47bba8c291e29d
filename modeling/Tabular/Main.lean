import Tabular.CommandLine.Run

/-!
# The program

Reads the files that a command line names, runs it, prints what it prints, and writes the staged
rows. What the database is to do stands beside the staged rows, in a file with the suffix `.sql`.
Documents are taken as they are stored: a packed one has to be unpacked before.
-/

namespace Tabular.CommandLine

/-- The text for those who ask for help. -/
def helpText : String :=
  "usage: tabular [--log-level LEVEL] (schema | rows | load) DOCUMENT [option ...]\n" ++
  "\n" ++
  "  schema   print the columns of the document\n" ++
  "  rows     print its rows, one a line\n" ++
  "  load     load its rows into a database (--db FILE [--table NAME])\n" ++
  "\n" ++
  "options: --data-level N, --flatten-level N, --row-tag NAME, --columns PATHS, --limit N,\n" ++
  "  --batch-size N, --attribute-scope (row | all), --flatten-collision (first | last | number),\n" ++
  "  --pin-schema\n"

/-- What is at a place. -/
def stored? (place : Location) : IO (Option Stored) :=
  try
    let bytes ← IO.FS.readBinFile place.text
    return some (.file bytes.toList)
  catch
    | .inappropriateType .. => return some .directory
    | _ => return none

/-- The files that a request names, as they are now. -/
def filesOf (current : Location) (q : Request) : IO FileTree := do
  let texts := match q.command with
    | .load database _ => [q.document, database]
    | _ => [q.document]
  let places := texts.map fun text => Location.resolve current (.ofString text)
  let found ← places.filterMapM fun place => return (← stored? place).map (place, ·)
  return ⟨current, found⟩

/-- Writes the staged rows of an outcome, and what the database is to do with them. -/
def writeStaged (before : FileTree) (outcome : Outcome FileTree) : IO Unit := do
  for (place, stored) in outcome.state.files do
    if !before.files.any fun f => f.1 == place then
      match stored with
      | .directory => IO.FS.createDirAll place.text
      | .file bytes =>
        IO.FS.writeBinFile place.text ⟨bytes.toArray⟩
        if !outcome.statements.isEmpty then
          IO.FS.writeFile (place.text ++ ".sql") ("\n".intercalate outcome.statements ++ "\n")

/-- Tells the user why a run has failed. -/
def tell : Exit → IO Unit
  | .done => pure ()
  | .failed message => IO.eprintln ("error: " ++ message)
  | .stopped .help => IO.print helpText
  | .stopped .usage => IO.eprint helpText
  | .unreadable _ => IO.eprintln "error: unreadable file"
  | .unknownLevel => IO.eprintln "error: unknown log level"

end Tabular.CommandLine

open Tabular Tabular.CommandLine in
/-- Runs the command line. -/
def main (arguments : List String) : IO UInt32 := do
  let current := Location.ofString (toString (← IO.currentDir))
  let files ← match Request.ofArguments arguments with
    | .ok q => filesOf current q
    | .error _ => pure ⟨current, []⟩
  let outcome := run .ofTrees arguments files
  IO.print outcome.output
  writeStaged files outcome
  tell outcome.exit
  return UInt32.ofNat outcome.exit.code
