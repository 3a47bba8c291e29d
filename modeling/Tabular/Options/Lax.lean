import Tabular.Options.Field
import Tabular.Text.Basic

/-!
# A lax checker

A checker that takes a field as a number, a truth value or a text that spells one, as far as nothing
is lost by it.

* `Fault.notInteger` and the others: what this checker finds wrong;
* `Lax.readInt`, `Lax.readBool`, `Lax.readText`, `Lax.readWord`: its readers;
* `Lax.firstKey?`, `Lax.unusedKeys`: a field under the first of its keys that is given; the others
  are not used;
* `Checker.lax`: the checker.
-/

namespace Tabular.Options

namespace Fault

/-- Neither a number nor a text that might spell one. -/
def notInteger : Fault := { code := "int_type" }

/-- A text that spells no whole number. -/
def unreadableInteger : Fault := { code := "int_parsing" }

/-- A number with too many digits, or beyond sixty-four bits where it was written with a point. -/
def hugeInteger : Fault := { code := "int_parsing_size" }

/-- A number between two whole ones. -/
def fraction : Fault := { code := "int_from_float" }

/-- A number beyond the range of binary fractions. -/
def infinite : Fault := { code := "finite_number" }

/-- Nothing that might stand for a truth value. -/
def notBoolean : Fault := { code := "bool_type" }

/-- A number or a text that stands for no truth value. -/
def unreadableBoolean : Fault := { code := "bool_parsing" }

/-- Something else than a text. -/
def notText : Fault := { code := "string_type" }

/-- None of the words. -/
def unknownWord : Fault := { code := "literal_error" }

end Fault

namespace Lax

/-! ## Whole numbers -/

/-- The characters before a point that only zeros follow. -/
def withoutZeroFraction (cs : List Char) : List Char :=
  match cs.dropWhile (· ≠ '.') with
  | '.' :: zeros => if zeros.all (· = '0') then cs.takeWhile (· ≠ '.') else cs
  | _ => cs

/-- The greatest number of bytes of a number that is spelled. -/
def maxBytes : Nat :=
  4300

/-- The whole number that a text spells, in digits of ASCII; a point with zeros may follow. -/
def readDigits (s : String) : Except Fault Int :=
  let cs := Text.trimBy Text.isWhiteSpace s.toList
  if maxBytes < (String.ofList cs).utf8ByteSize then .error .hugeInteger
  else
    match Text.signed? (fun cs => Text.spelled? Text.asciiDigit? 0 (withoutZeroFraction cs)) cs with
    | some n => .ok n
    | none => .error .unreadableInteger

/-- The whole number fits into sixty-four bits, with the least of them left out. -/
def isSmall (n : Int) : Bool :=
  -0x8000000000000000 < n && n < 0x8000000000000000

/-- The whole number that a decimal is, if it is one that fits. -/
def readDecimal (d : Decimal) : Except Fault Int :=
  match Binary.ofDecimal d with
  | .infinite _ => .error .infinite
  | b =>
    match b.toInt? with
    | some n => if isSmall n then .ok n else .error .hugeInteger
    | none => .error .fraction

/-- A whole number. -/
def readInt : Value → Except Fault Int
  | .int n => .ok n
  | .bool b => .ok (if b then 1 else 0)
  | .decimal d => readDecimal d
  | .text s => readDigits s
  | _ => .error .notInteger

/-! ## Truth values, texts and words -/

/-- The words for true. -/
def trueWords : List String := ["1", "true", "t", "yes", "y", "on"]

/-- The words for false. -/
def falseWords : List String := ["0", "false", "f", "no", "n", "off"]

/-- The truth value that a small number stands for. -/
def truthOf (n : Int) : Except Fault Bool :=
  if n = 0 then .ok false else if n = 1 then .ok true else .error .unreadableBoolean

/-- A truth value. -/
def readBool : Value → Except Fault Bool
  | .bool b => .ok b
  | .int n => if isSmall n then truthOf n else .error .notBoolean
  | .decimal d =>
    match readDecimal d with
    | .ok n => truthOf n
    | .error _ => .error .notBoolean
  | .text s =>
    let word := String.ofList (s.toList.map Char.toLower)
    if trueWords.contains word then .ok true
    else if falseWords.contains word then .ok false
    else .error .unreadableBoolean
  | _ => .error .notBoolean

/-- A text. -/
def readText : Value → Except Fault String
  | .text s => .ok s
  | _ => .error .notText

/-- One of the words of a list. -/
def readWord {α : Type} (words : List (String × α)) : Value → Except Fault α
  | .text s =>
    match words.lookup s with
    | some a => .ok a
    | none => .error .unknownWord
  | _ => .error .unknownWord

/-! ## Keys -/

/-- The first of the keys of a field that is given. -/
def firstKey? (names given : List String) : Option String :=
  names.find? given.contains

/-- The keys under which no field is read. -/
def unusedKeys (fields : List (List String)) (given : List String) : List String :=
  let used := fields.filterMap fun names => firstKey? names given
  given.filter fun key => !used.contains key

end Lax

/-- The lax checker. -/
def Checker.lax : Checker where
  integer := Lax.readInt
  truth := Lax.readBool
  text := Lax.readText
  word := Lax.readWord
  key? := Lax.firstKey?
  strays := Lax.unusedKeys

end Tabular.Options
