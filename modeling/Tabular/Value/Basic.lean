import Tabular.Text.Printable
import Tabular.Value.Decimal
import Tabular.Value.Entries

/-!
# Values

The dynamic values that options, records and staged lines are made of.

* `Value`: null, truth values, whole numbers, decimals, texts, lists, and maps that keep the order
  of their keys; `unwritable` stands for a value that no text format can hold;
* `Value.entries`: the entries of a map, none for anything else;
* `Value.display`: a value inside a message.
-/

namespace Tabular

/-- A dynamic value. -/
inductive Value where
  | null
  | bool (b : Bool)
  | int (n : Int)
  | decimal (d : Decimal)
  | text (s : String)
  | list (items : List Value)
  | map (entries : List (String × Value))
  | unwritable
  deriving Repr, Inhabited

namespace Value

/-- A value is a map. -/
def isMap : Value → Bool
  | .map _ => true
  | _ => false

/-- The entries of a map; any other value has none. -/
def entries : Value → Entries Value
  | .map es => es
  | _ => []

/-- A text, or null for none. -/
def ofText? : Option String → Value
  | some s => .text s
  | none => .null

/-- A whole number, or null for none. -/
def ofNat? : Option Nat → Value
  | some n => .int n
  | none => .null

/-- The strings of a list as a value. -/
def texts (items : List String) : Value :=
  .list (items.map .text)

/-- The value at a path of keys: null where a step finds no map or no such key. -/
def follow : List String → Value → Value
  | [], v => v
  | key :: rest, v => follow rest ((Entries.get? key v.entries).getD .null)

/-! ## Values in messages -/

/-- The items with a comma and a space between them. -/
def commaSeparated (items : List String) : String :=
  ", ".intercalate items

mutual

/-- A value as a message shows it. -/
def display : Value → String
  | .null => "None"
  | .bool b => if b then "True" else "False"
  | .int n => toString n
  | .decimal d => d.text
  | .text s => Text.quote s
  | .list items => "[" ++ commaSeparated (displayItems items) ++ "]"
  | .map es => "\x7b" ++ commaSeparated (displayEntries es) ++ "\x7d"
  | .unwritable => "<value>"

/-- The items of a list as a message shows them. -/
def displayItems : List Value → List String
  | [] => []
  | v :: rest => display v :: displayItems rest

/-- The entries of a map as a message shows them. -/
def displayEntries : List (String × Value) → List String
  | [] => []
  | (k, v) :: rest => (Text.quote k ++ ": " ++ display v) :: displayEntries rest

end

/-- A value as running text: a bare text, anything else as in a message. -/
def plain : Value → String
  | .text s => s
  | v => v.display

end Value

end Tabular
