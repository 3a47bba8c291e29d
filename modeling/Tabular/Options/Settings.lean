import Tabular.Files.Location
import Tabular.Options.Field

/-!
# Process settings

* `Settings`: what holds for a whole process, with its defaults;
* `Settings.load`: settings out of a map of loose values.
-/

namespace Tabular

/-- What holds for a whole process. -/
structure Settings where
  logLevel : String := "INFO"
  muteAllLogs : Bool := false
  defaultDataLevel : Nat := 2
  batchSize : Nat := 4096
  /-- How many conflicts are kept in full. -/
  maxConflictRecords : Nat := 100
  databaseThreads : Nat := 4
  databaseMemory : String := "1GB"
  /-- Where staged files go; next to the database where none is given. -/
  stagingDir : Option Location := none
  deriving Repr, Inhabited

/-- Why settings cannot be loaded. -/
inductive SettingsError where
  /-- A staging directory that is no text. -/
  | notALocation (given : Value)
  | invalid (complaints : List Options.Complaint)
  deriving Repr, Inhabited

namespace Settings

open Options (Checker field complaints unknownKeys readNat)

/-- The keys of the fields. -/
def keys : List String :=
  ["LOG_LEVEL", "MUTE_ALL_LOGS", "DEFAULT_DATA_LEVEL", "BATCH_SIZE", "MAX_CONFLICT_RECORDS",
    "DUCKDB_THREADS", "DUCKDB_MEM", "STAGING_DIR"]

/-- The words for log levels. -/
def logLevels : List (String × String) :=
  ["DEBUG", "INFO", "WARNING", "ERROR", "CRITICAL"].map fun word => (word, word)

/-- A directory, or none. -/
def readLocation : Value → Except SettingsError (Option Location)
  | .null => .ok none
  | .text s => .ok (some (Location.ofString s))
  | v => .error (.notALocation v)

/-- The settings that a map of loose values gives, with a staging directory read before. -/
def loadWith (c : Checker) (stagingDir : Option Location) (given : Entries Value) :
    Except SettingsError Settings :=
  let logLevel := field c ["LOG_LEVEL"] "INFO" (c.word logLevels) given
  let mute := field c ["MUTE_ALL_LOGS"] false c.truth given
  let dataLevel := field c ["DEFAULT_DATA_LEVEL"] 2 (readNat c 1) given
  let batchSize := field c ["BATCH_SIZE"] 4096 (readNat c 1) given
  let records := field c ["MAX_CONFLICT_RECORDS"] 100 (readNat c 0) given
  let threads := field c ["DUCKDB_THREADS"] 4 (readNat c 1) given
  let memory := field c ["DUCKDB_MEM"] "1GB" c.text given
  let unknown := unknownKeys c (keys.map fun key => [key]) given
  match logLevel, mute, dataLevel, batchSize, records, threads, memory, unknown with
  | .ok l, .ok m, .ok d, .ok b, .ok r, .ok t, .ok mem, [] => .ok ⟨l, m, d, b, r, t, mem, stagingDir⟩
  | l, m, d, b, r, t, mem, _ =>
    .error (.invalid (complaints l ++ complaints m ++ complaints d ++ complaints b ++
      complaints r ++ complaints t ++ complaints mem ++ unknown))

/-- The settings that a map of loose values gives. -/
def load (c : Checker) (given : Entries Value) : Except SettingsError Settings :=
  match readLocation ((Entries.get? "STAGING_DIR" given).getD .null) with
  | .error error => .error error
  | .ok stagingDir => loadWith c stagingDir given

end Settings

end Tabular
