import Tabular.Text.Basic
import Tabular.Value.Basic

/-!
# Column paths

A column is addressed by the names that lead from the row element down to it. In text the names
are joined by dots; a name that holds a dot stands between back-quotes, and what stands between
them is taken as it is, blanks included.

* `Path.segments`: the scan of a text, name by name;
* `Path.parse`: a whole text, or the reason why it is no path;
* `Path.ofValue`: the same for a value that may not be a text at all;
* `Path.format`: the text of a path;
* `Path.from?`: a path seen from another.
-/

namespace Tabular

/-- The names from the row element down to a column. -/
abbrev Path := List String

/-- Why a text is not a path. -/
inductive PathError where
  /-- Nothing but blanks, or not a text. -/
  | empty (given : Value)
  /-- A name without a character. -/
  | emptySegment (text : String)
  /-- A back-quote that is never closed. -/
  | unbalanced (text : String)
  deriving Repr, Inhabited

/-- The wording of a path error. -/
def PathError.message : PathError → String
  | .empty given => "empty projection path: " ++ given.display
  | .emptySegment text => "empty segment in projection path: " ++ Text.quote text
  | .unbalanced text => "unbalanced back-quote in projection path: " ++ Text.quote text

namespace Path

/-- The back-quote. -/
def tick : Char := '\x60'

/-- What stops the scan of a text. -/
inductive Stop where
  | emptySegment
  | unbalanced
  deriving Repr, DecidableEq

/-- The name that letters spell: trimmed unless a back-quote stood among them. -/
def segment? (marked : Bool) (letters : List Char) : Option String :=
  let cs := if marked then letters else Text.trimChars letters
  if cs.isEmpty then none else some (String.ofList cs)

/-- The names in the rest of a text, where `letters` (last one first) were read of the current
name, `marked` tells whether it had a back-quote, and `quoted` whether one is open. -/
def segments (quoted marked : Bool) (letters : List Char) : List Char → Except Stop Path
  | [] =>
    if quoted then .error .unbalanced
    else
      match segment? marked letters.reverse with
      | some name => .ok [name]
      | none => .error .emptySegment
  | c :: rest =>
    if c = tick then segments (!quoted) true letters rest
    else if c = '.' && !quoted then
      match segment? marked letters.reverse with
      | some name => (segments false false [] rest).map (name :: ·)
      | none => .error .emptySegment
    else segments quoted marked (c :: letters) rest

/-- The path that a text spells. -/
def parse (text : String) : Except PathError Path :=
  if Text.isBlankText text then .error (.empty (.text text))
  else
    match segments false false [] text.toList with
    | .ok path => .ok path
    | .error .emptySegment => .error (.emptySegment text)
    | .error .unbalanced => .error (.unbalanced text)

/-- The path that a value spells, which only a text can. -/
def ofValue : Value → Except PathError Path
  | .text s => parse s
  | v => .error (.empty v)

/-- A name as it stands in the text of a path. -/
def formatSegment (name : String) : String :=
  if name.toList.contains '.' then String.ofList (tick :: name.toList ++ [tick]) else name

/-- The text of a path. -/
def format (path : Path) : String :=
  ".".intercalate (path.map formatSegment)

/-- The names that lead on from the first path to the second, if it lies on the way. -/
def from? : Path → Path → Option Path
  | [], path => some path
  | a :: base, b :: path => if a = b then from? base path else none
  | _ :: _, [] => none

/-- A path that holds a name at all and no empty one. -/
def isNamed (path : Path) : Bool :=
  !path.isEmpty && path.all (· ≠ "")

end Path

/-- The name of the column that holds the attributes of a row. -/
def attributesName : String := "attributes"

/-- The path of the column that holds the attributes of a row. -/
def attributesPath : Path := [attributesName]

end Tabular
