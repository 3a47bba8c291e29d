import Tabular.CommandLine.Argument
import Tabular.Options.Basic

/-!
# Requests

What a command line asks for: options for the whole program, a command, and the command's own
options around the document. An option that is given several times has its last value.

* `Command`, `Request`;
* `Stop`: why a command line asks for nothing that can be run;
* `Given`, `Given.read`: the arguments of a command, one after another;
* `Request.ofArguments`: the whole command line.
-/

namespace Tabular.CommandLine

/-- Why a command line asks for nothing that can be run. -/
inductive Stop where
  /-- It asks for help. -/
  | help
  /-- It is no proper command line. -/
  | usage
  deriving Repr, DecidableEq, Inhabited

/-- What to do with a document. -/
inductive Command where
  /-- The columns of the document. -/
  | schema
  /-- The rows, one a line. -/
  | rows
  /-- The rows as a table of a database. -/
  | load (database table : String)
  deriving Repr, DecidableEq, Inhabited

/-- A command for a document. -/
structure Request where
  command : Command
  document : String
  settings : Entries Setting
  logLevel : Option String
  deriving Inhabited

/-! ## Options of a command -/

/-- The long names before a command. -/
def programNames : Names :=
  [("--help", .help), ("--log-level", .logLevel)]

/-- The long names after every command. -/
def readerNames : Names :=
  [("--help", .help), ("--data-level", .dataLevel), ("--flatten-level", .flattenLevel),
    ("--row-tag", .rowTag), ("--columns", .columns), ("--limit", .limit),
    ("--batch-size", .batchSize), ("--attribute-scope", .attributeScope),
    ("--flatten-collision", .flattenCollision), ("--pin-schema", .pinSchema)]

/-- The long names after the command that loads. -/
def loadNames : Names :=
  readerNames ++ [("--db", .database), ("--table", .table)]

/-- The greatest number of characters of a number. -/
def maxDigits : Nat :=
  4300

/-- A whole number among arguments, in digits of any script. -/
def number? (s : String) : Option Int :=
  Text.signed? digits? (Text.trimChars s.toList)
where
  /-- Not too many digits. -/
  digits? (cs : List Char) : Option Nat :=
    if maxDigits < (cs.filter (· ≠ '_')).length then none else Text.spelled? Text.digit? 0 cs

/-- The arguments of a command as far as they are read. -/
structure Given where
  document : Option String := none
  settings : Entries Setting := [("projection", .value (.text "*"))]
  database : Option String := none
  table : String := "xml_rows"
  /-- An argument had no place. -/
  stray : Bool := false
  deriving Inhabited

namespace Given

/-- A setting with its value. -/
def set (key : String) (v : Value) (g : Given) : Given :=
  { g with settings := Entries.put key (.value v) g.settings }

/-- A setting with a number as its value. -/
def setNumber (key s : String) (g : Given) : Except Stop Given :=
  match number? s with
  | some n => .ok (g.set key (.int n))
  | none => .error .usage

/-- A setting with one of several words as its value. -/
def setWord (key : String) (words : List String) (s : String) (g : Given) : Except Stop Given :=
  if words.contains s then .ok (g.set key (.text s)) else .error .usage

/-- An option without a value. -/
def switch (g : Given) : Key → Except Stop Given
  | .pinSchema => .ok (g.set "pin_schema" (.bool true))
  | .help => .error .help
  | _ => .error .usage

/-- An option with its value. -/
def assign (g : Given) (s : String) : Key → Except Stop Given
  | .dataLevel => g.setNumber "data_level" s
  | .flattenLevel => g.setNumber "flatten_level" s
  | .limit => g.setNumber "limit" s
  | .batchSize => g.setNumber "batch_size" s
  | .attributeScope => g.setWord "attribute_scope" (AttributeScope.words.map Prod.fst) s
  | .flattenCollision => g.setWord "flatten_collision" (CollisionPolicy.words.map Prod.fst) s
  | .rowTag => .ok (g.set "row_tag" (.text s))
  | .columns => .ok (g.set "projection" (.text s))
  | .database => .ok { g with database := some s }
  | .table => .ok { g with table := s }
  | _ => .error .usage

/-- The options that take a value. -/
def takesValue : Key → Bool
  | .help => false
  | .pinSchema => false
  | _ => true

/-- The arguments of a command, one after another. The two dashes have a place only beside the
document. -/
def read (g : Given) : List Argument → Except Stop Given
  | [] => .ok g
  | .option key (some s) :: rest => g.assign s key >>= fun g => g.read rest
  | .option key none :: rest =>
    match takesValue key, rest with
    | true, .value s :: more => g.assign s key >>= fun g => g.read more
    | _, rest => g.switch key >>= fun g => g.read rest
  | .mark :: .value s :: rest =>
    if g.document.isNone then { g with document := some s }.read rest
    else { g with stray := true }.read rest
  | .value s :: .mark :: rest =>
    if g.document.isNone then { g with document := some s }.read rest
    else { g with stray := true }.read rest
  | .value s :: rest =>
    if g.document.isNone then { g with document := some s }.read rest
    else { g with stray := true }.read rest
  | _ :: rest => { g with stray := true }.read rest

end Given

/-- The arguments after a command's name. -/
def readCommand (names : Names) (texts : List String) : Except Stop Given :=
  let arguments := (Argument.classifyAll names texts).map Prod.fst
  if arguments.contains .ambiguous then .error .usage else Given.read {} arguments

namespace Request

/-- A request for a command, by its name. -/
def ofCommand (logLevel : Option String) (name : String) (texts : List String) :
    Except Stop (Request × Bool) :=
  match name with
  | "schema" => finish (fun _ => some .schema) (readCommand readerNames texts)
  | "rows" => finish (fun _ => some .rows) (readCommand readerNames texts)
  | "load" => finish (fun g => g.database.map (.load · g.table)) (readCommand loadNames texts)
  | _ => .error .usage
where
  /-- The request of a command's arguments, and whether one had no place. -/
  finish (command : Given → Option Command) (given : Except Stop Given) :
      Except Stop (Request × Bool) :=
    given >>= fun g =>
      match command g, g.document with
      | some c, some document => .ok (⟨c, document, g.settings, logLevel⟩, g.stray)
      | _, _ => .error .usage

/-- The arguments from the first one on. -/
def ofClassified (logLevel : Option String) (stray : Bool) :
    List (Argument × String) → Except Stop Request
  | (.option .logLevel (some s), _) :: rest => ofClassified (some s) stray rest
  | (.option .logLevel none, _) :: (.value s, _) :: rest => ofClassified (some s) stray rest
  | (.option .help none, _) :: _ => .error .help
  | (.unknown, _) :: rest => ofClassified logLevel true rest
  | (.value name, _) :: rest =>
    ofCommand logLevel name (rest.map Prod.snd) >>= fun (request, inner) =>
      if stray || inner then .error .usage else .ok request
  | _ => .error .usage

/-- What a command line asks for. -/
def ofArguments (texts : List String) : Except Stop Request :=
  let arguments := Argument.classifyAll programNames texts
  if arguments.any fun a => a.1 == .ambiguous then .error .usage
  else ofClassified none false arguments

end Request

end Tabular.CommandLine
