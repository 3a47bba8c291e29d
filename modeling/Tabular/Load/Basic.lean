import Tabular.Files.Open
import Tabular.Files.Sha256
import Tabular.Files.Tree
import Tabular.Load.Sql
import Tabular.Load.Staging
import Tabular.Options.Lax
import Tabular.Reader.Run
import Tabular.Xml.Document

/-!
# Loading a document into a database

A document is read under one schema, its rows are staged in a file, and the database makes a table
of that file. Nothing is asked of the database before the whole document is staged.

* `World`: the machine that a load runs on; `World.ofTrees` is the one of the program;
* `datasetId`: the mark of a document's content in the name of the staged file;
* `Connection`: the database, which is open already or has to be opened;
* `LoadRequest`, `LoadError`, `LoadResult`, `Loaded`;
* `LoadRequest.begin`, `Job`: a load whose document is open;
* `Job.read`, `Job.stagedRows`: the reading of its document;
* `loadStaged`, `stageRead`, `load`: the whole way.
-/

namespace Tabular

/-- What a load finds around it, on a machine with states of a type. -/
structure World (σ : Type) where
  disk : Disk σ
  codecs : Codecs
  parser : Xml.Parser
  checker : Options.Checker
  /-- A database can be opened. -/
  opensDatabase : String → σ → Bool

/-- The machine whose states are file trees. A database is made where there is nothing. -/
def World.ofTrees : World FileTree where
  disk := FileTree.disk
  codecs := .empty
  parser := Xml.Document.parser
  checker := .lax
  opensDatabase database t := database == ":memory:" || (t.find? (.ofString database)).isNone

/-- The first eight digits of a digest. -/
def datasetId (bytes : List UInt8) : String :=
  String.ofList ((Sha256.digest ⟨bytes.toArray⟩).toList.take 8)

/-- How statements reach a database. -/
inductive Connection where
  /-- Over an open connection: whether the database takes the statement, and how many rows it
  counts then. -/
  | given (accepts : Bool) (count : Nat)
  /-- Over a connection that is opened for the load; the table gets every staged row. -/
  | opened
  deriving Repr, DecidableEq, Inhabited

/-- What to load, and where to. -/
structure LoadRequest where
  document : String
  database : String := ":memory:"
  table : String := "xml_rows"
  settings : Entries Setting := []
  staging : Option Location := none
  connection : Connection := .opened
  deriving Inhabited

/-- Why a load fails. -/
inductive LoadError where
  | options (error : OptionsError)
  /-- A file cannot be found, read, made or closed; the place as it is shown. -/
  | file (fault : FileFault) (shown : String)
  | openError (error : OpenError)
  | staging (error : StagingError)
  | read (failure : ReadFailure)
  | connect (database : String)
  | statement (table : String)
  deriving Repr, Inhabited

/-- The wording of a load error. -/
def LoadError.message : LoadError → String
  | .options error => error.summary
  | .file fault shown => fault.message shown
  | .openError error => error.message
  | .staging error => error.message
  | .read (.malformed error) => error.message
  | .read (.unreadable _) => "unreadable file"
  | .connect database => "duckdb connect failed db='" ++ database ++ "'"
  | .statement table => "load failed table='" ++ table ++ "'"

/-- What a load has done. -/
structure LoadResult where
  datasetId : String
  database : String
  table : String
  stagedAt : Location
  rows : Nat
  columns : List String
  diagnostics : Diagnostics
  deriving Inhabited

namespace LoadResult

/-- The result as a value. -/
def toValue (r : LoadResult) (stagedAt : String) : Value :=
  .map [("dataset_id", .text r.datasetId), ("duckdb_path", .text r.database),
    ("table", .text r.table), ("jsonl_path", .text stagedAt), ("rows", .int r.rows),
    ("columns", .texts r.columns), ("diagnostics", r.diagnostics.toValue)]

end LoadResult

/-- The result of a load, the statements the database was given, and the machine after it. -/
structure Loaded (σ : Type) where
  result : Except LoadError LoadResult
  statements : List String
  state : σ
  deriving Inhabited

/-! ## Before the reading -/

/-- A load whose document is open. -/
structure Job (σ : Type) where
  options : ReaderOptions
  datasetId : String
  stagedAt : Location
  /-- What the document gives to one who reads it later. -/
  content : σ → Content

namespace LoadRequest

variable {σ : Type}

/-- The database is kept in memory. -/
def isInMemory (q : LoadRequest) : Bool :=
  q.database == ":memory:"

/-- The options of a load: the schema serves the whole document. -/
def options (c : Options.Checker) (q : LoadRequest) : Except OptionsError ReaderOptions :=
  ReaderOptions.load c (Entries.put "pin_schema" (.value (.bool true)) q.settings)

/-- The directory of the staged file: the one asked for, or that of the database, or that of the
document. -/
def stagingDirectory (d : Disk σ) (q : LoadRequest) (place : Location) (s : σ) :
    Except FileFault Location :=
  match q.staging with
  | some l => .ok l
  | none =>
    if q.isInMemory then .ok place.parent
    else (d.resolve (.ofString q.database) s).map Location.parent

/-- The name of the staged file. -/
def stagedName (q : LoadRequest) (datasetId : String) : Location :=
  .ofString (q.table ++ "." ++ datasetId ++ ".jsonl")

/-- Finds and opens the document: its options come first, then the mark of its content as it is
stored, the directory of the staged file, and the document itself. -/
def begin (w : World σ) (q : LoadRequest) (s : σ) : Except LoadError (Job σ) :=
  match w.disk.resolve (.ofString q.document) s with
  | .error fault => .error (.file fault q.document)
  | .ok place =>
    match q.options w.checker with
    | .error error => .error (.options error)
    | .ok options =>
      match (w.disk.read place s).bind Content.whole with
      | .error fault => .error (.file fault place.text)
      | .ok stored =>
        match q.stagingDirectory w.disk place s with
        | .error fault => .error (.file fault q.database)
        | .ok directory =>
          match openDocument w.disk w.codecs place s with
          | .error error => .error (.openError error)
          | .ok content =>
            let id := datasetId stored
            .ok ⟨options, id, directory.join (q.stagedName id), content⟩

end LoadRequest

/-! ## Reading and staging -/

section Staging

variable {σ : Type} (w : World σ) (q : LoadRequest)

/-- The database's part of a load, once rows have been staged. -/
def loadStaged (r : LoadResult) (schema : Snapshot) (written : Nat) (s : σ) : Loaded σ :=
  let create := Sql.createTable q.table (Sql.escapedPath r.stagedAt.text) schema
  let count := Sql.countRows q.table
  match q.connection with
  | .given false _ => ⟨.error (.statement q.table), [create], s⟩
  | .given true n => ⟨.ok { r with rows := n }, [create, count], s⟩
  | .opened =>
    if w.opensDatabase q.database s then ⟨.ok { r with rows := written }, [create, count], s⟩
    else ⟨.error (.connect q.database), [], s⟩

/-- The fault of making the staged file; one of the file system is told as such. -/
def LoadError.ofCreation (fault : FileFault) (shown : String) : LoadError :=
  if fault.isSystem then .staging (.openFailed shown) else .file fault shown

/-- What reading the document of a job gives. -/
def Job.read (job : Job σ) (s : σ) : Called (List Batch × Option ReadFailure) :=
  (Reader.start job.options (w.parser.source (job.content s))).rest

/-- The rows of a job. -/
def Job.stagedRows (job : Job σ) (s : σ) : List (Entries Value) :=
  (job.read w s).result.1.flatMap Batch.rows

/-- The document read, its rows staged in a file that has been made, and handed to the database. The
file is closed before an error of reading is told, so a fault of closing comes first. -/
def stageRead (job : Job σ) (s : σ) : Loaded σ :=
  let path := job.stagedAt.text
  let c := job.read w s
  let (batches, failure) := c.result
  let (staged, outcome) := stageAt path batches
  let lines := ((job.stagedRows w s).take staged.written).map rowLine
  let (s, fault) := w.disk.write job.stagedAt lines s
  match fault, outcome, failure with
  | some (.closing fault), _, _ => ⟨.error (.file fault path), [], s⟩
  | some (.line row), _, _ => ⟨.error (.staging (.writeFailed path row)), [], s⟩
  | none, .error error, _ => ⟨.error (.staging error), [], s⟩
  | none, .ok _, some failure => ⟨.error (.read failure), [], s⟩
  | none, .ok _, none =>
    let columns := (staged.schema.map Snapshot.paths).getD []
    let r : LoadResult :=
      ⟨job.datasetId, q.database, q.table, job.stagedAt, 0, columns, c.reader.diagnostics⟩
    match staged.written, staged.schema with
    | 0, _ => ⟨.ok r, [], s⟩
    | _, none => ⟨.ok r, [], s⟩
    | written, some schema => loadStaged w q r schema written s

/-- The staged file made, with its directory, and the document read. -/
def loadFrom (job : Job σ) (s : σ) : Loaded σ :=
  match w.disk.makeDirectory job.stagedAt.parent s with
  | (s, some fault) => ⟨.error (.file fault job.stagedAt.parent.text), [], s⟩
  | (s, none) =>
    match w.disk.create job.stagedAt s with
    | .error fault => ⟨.error (.ofCreation fault job.stagedAt.text), [], s⟩
    | .ok s => stageRead w q job s

/-- Loads a document. -/
def load (s : σ) : Loaded σ :=
  match q.begin w s with
  | .error error => ⟨.error error, [], s⟩
  | .ok job => loadFrom w q job s

end Staging

end Tabular
