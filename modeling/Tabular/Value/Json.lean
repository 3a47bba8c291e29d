import Tabular.Value.Basic

/-!
# JSON text

* `Json.string`: a text between double quotes; the quote, the backslash and the control characters
  are escaped, and under `Letters.ascii` so is everything beyond ASCII, by its UTF-16 units;
* `Json.line`: a value on one line, with a space after each comma and colon;
* `Json.indented`: a value over several lines, two spaces deeper at each level;
* `Json.writable`: the values that have a JSON text.
-/

namespace Tabular.Json

/-- Which characters of a text are written as themselves. -/
inductive Letters where
  /-- Every character but the escaped ones. -/
  | all
  /-- Only those of ASCII. -/
  | ascii
  deriving Repr, DecidableEq

/-- A sixteen-bit unit as an escape. -/
def unitEscape (n : Nat) : List Char :=
  '\\' :: 'u' :: Text.hexDigits 4 n

/-- A character as one or two sixteen-bit escapes. -/
def escape (c : Char) : List Char :=
  let n := c.toNat
  if n < 0x10000 then unitEscape n
  else unitEscape (0xD800 + (n - 0x10000) / 0x400) ++ unitEscape (0xDC00 + (n - 0x10000) % 0x400)

/-- One character inside a quoted text. -/
def letter (letters : Letters) (c : Char) : List Char :=
  if c = '"' then ['\\', '"']
  else if c = '\\' then ['\\', '\\']
  else if c = '\n' then ['\\', 'n']
  else if c = '\r' then ['\\', 'r']
  else if c = '\t' then ['\\', 't']
  else if c = '\x08' then ['\\', 'b']
  else if c = '\x0c' then ['\\', 'f']
  else if c.toNat < 0x20 then unitEscape c.toNat
  else if letters = .ascii && c.toNat ≥ 0x7F then escape c
  else [c]

/-- A quoted text. -/
def string (letters : Letters) (s : String) : List Char :=
  '"' :: s.toList.flatMap (letter letters) ++ ['"']

/-- The parts with a separator between them. -/
def separated (separator : List Char) : List (List Char) → List Char
  | [] => []
  | [part] => part
  | part :: rest => part ++ separator ++ separated separator rest

mutual

/-- A value has a JSON text. -/
def writable : Value → Bool
  | .list items => writableItems items
  | .map es => writableEntries es
  | .unwritable => false
  | _ => true

/-- Every item of a list has a JSON text. -/
def writableItems : List Value → Bool
  | [] => true
  | v :: rest => writable v && writableItems rest

/-- Every value of a map has a JSON text. -/
def writableEntries : List (String × Value) → Bool
  | [] => true
  | (_, v) :: rest => writable v && writableEntries rest

end

/-! ## On one line -/

mutual

/-- The characters of a value on one line. -/
def lineChars (letters : Letters) : Value → List Char
  | .null => "null".toList
  | .bool b => if b then "true".toList else "false".toList
  | .int n => (toString n).toList
  | .decimal d => d.text.toList
  | .text s => string letters s
  | .list items => '[' :: separated [',', ' '] (lineItems letters items) ++ [']']
  | .map es => '\x7b' :: separated [',', ' '] (lineEntries letters es) ++ ['\x7d']
  | .unwritable => "null".toList

/-- The items of a list on one line. -/
def lineItems (letters : Letters) : List Value → List (List Char)
  | [] => []
  | v :: rest => lineChars letters v :: lineItems letters rest

/-- The entries of a map on one line. -/
def lineEntries (letters : Letters) : List (String × Value) → List (List Char)
  | [] => []
  | (k, v) :: rest =>
    (string letters k ++ ':' :: ' ' :: lineChars letters v) :: lineEntries letters rest

end

/-- A value on one line. -/
def line (letters : Letters) (v : Value) : String :=
  String.ofList (lineChars letters v)

/-! ## Over several lines -/

/-- A line break and the blanks of a level. -/
def lineBreak (level : Nat) : List Char :=
  '\n' :: List.replicate (2 * level) ' '

/-- The parts between brackets, each on a line of its own. -/
def block (opening closing : Char) (level : Nat) (parts : List (List Char)) : List Char :=
  if parts.isEmpty then [opening, closing]
  else opening :: lineBreak (level + 1) ++ separated (',' :: lineBreak (level + 1)) parts ++
    lineBreak level ++ [closing]

mutual

/-- The characters of a value whose first line stands at `level`. -/
def indentedChars (letters : Letters) (level : Nat) : Value → List Char
  | .list items => block '[' ']' level (indentedItems letters (level + 1) items)
  | .map es => block '\x7b' '\x7d' level (indentedEntries letters (level + 1) es)
  | .null => lineChars letters .null
  | .bool b => lineChars letters (.bool b)
  | .int n => lineChars letters (.int n)
  | .decimal d => lineChars letters (.decimal d)
  | .text s => lineChars letters (.text s)
  | .unwritable => lineChars letters .unwritable

/-- The items of a list at `level`. -/
def indentedItems (letters : Letters) (level : Nat) : List Value → List (List Char)
  | [] => []
  | v :: rest => indentedChars letters level v :: indentedItems letters level rest

/-- The entries of a map at `level`. -/
def indentedEntries (letters : Letters) (level : Nat) : List (String × Value) → List (List Char)
  | [] => []
  | (k, v) :: rest =>
    (string letters k ++ ':' :: ' ' :: indentedChars letters level v) ::
      indentedEntries letters level rest

end

/-- A value over several lines. -/
def indented (letters : Letters) (v : Value) : String :=
  String.ofList (indentedChars letters 0 v)

end Tabular.Json
