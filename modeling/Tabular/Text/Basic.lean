/-!
# Blank characters and digits

Where a text is trimmed, the characters below count as blank: the ASCII controls that separate
fields and lines, the spaces of every script, and the line and paragraph separators.

* `isBlank`, `isWhiteSpace`: the class, and the part of it that is white space by Unicode;
* `trimBy`, `trimChars`, `trim`: a text without such characters at its two ends;
* `isBlankText`: a text that trims to nothing;
* `asciiDigit?`, `digit?`: the value of a decimal digit, of ASCII alone or of any script;
* `spelled?`: the number that digits spell, where single low lines may stand between two digits;
* `signed?`: the same behind an optional sign.
-/

namespace Tabular.Text

/-! ## Blank characters -/

/-- A blank character. -/
def isBlank (c : Char) : Bool :=
  let n := c.toNat
  (0x09 ≤ n && n ≤ 0x0D) || (0x1C ≤ n && n ≤ 0x20) || n == 0x85 || n == 0xA0 || n == 0x1680 ||
    (0x2000 ≤ n && n ≤ 0x200A) || n == 0x2028 || n == 0x2029 || n == 0x202F || n == 0x205F ||
    n == 0x3000

/-- A blank character of the Unicode property White_Space, which leaves out the separators among
the controls. -/
def isWhiteSpace (c : Char) : Bool :=
  isBlank c && !(0x1C ≤ c.toNat && c.toNat ≤ 0x1F)

/-- The characters without those of a class at both ends. -/
def trimBy (p : Char → Bool) (cs : List Char) : List Char :=
  ((cs.dropWhile p).reverse.dropWhile p).reverse

/-- The characters without the blank ones at both ends. -/
def trimChars (cs : List Char) : List Char :=
  trimBy isBlank cs

/-- A text without the blank characters at both ends. -/
def trim (s : String) : String :=
  String.ofList (trimChars s.toList)

/-- The text holds blank characters only, or none at all. -/
def isBlankText (s : String) : Bool :=
  s.toList.all isBlank

/-! ## Digits -/

/-- The value of a decimal digit of ASCII. -/
def asciiDigit? (c : Char) : Option Nat :=
  if 0x30 ≤ c.toNat && c.toNat ≤ 0x39 then some (c.toNat - 0x30) else none

/-- The zeros of the scripts; the other nine digits of a script follow its zero. -/
def zeros : List Nat :=
  [0x0030, 0x0660, 0x06F0, 0x07C0, 0x0966, 0x09E6, 0x0A66, 0x0AE6, 0x0B66, 0x0BE6, 0x0C66, 0x0CE6,
    0x0D66, 0x0DE6, 0x0E50, 0x0ED0, 0x0F20, 0x1040, 0x1090, 0x17E0, 0x1810, 0x1946, 0x19D0, 0x1A80,
    0x1A90, 0x1B50, 0x1BB0, 0x1C40, 0x1C50, 0xA620, 0xA8D0, 0xA900, 0xA9D0, 0xA9F0, 0xAA50, 0xABF0,
    0xFF10, 0x104A0, 0x10D30, 0x11066, 0x110F0, 0x11136, 0x111D0, 0x112F0, 0x11450, 0x114D0,
    0x11650, 0x116C0, 0x11730, 0x118E0, 0x11950, 0x11C50, 0x11D50, 0x11DA0, 0x16A60, 0x16AC0,
    0x16B50, 0x1D7CE, 0x1D7D8, 0x1D7E2, 0x1D7EC, 0x1D7F6, 0x1E140, 0x1E2F0, 0x1E950, 0x1FBF0]

/-- The value of a decimal digit of any script. -/
def digit? (c : Char) : Option Nat :=
  (zeros.find? fun n => n ≤ c.toNat && c.toNat ≤ n + 9).map fun n => c.toNat - n

/-- The number that digits spell behind a value, where single low lines may stand between two
digits. -/
def spelled? (digit? : Char → Option Nat) (value : Nat) : List Char → Option Nat
  | [] => none
  | [c] => (digit? c).map fun d => 10 * value + d
  | c :: '_' :: rest =>
    match digit? c with
    | some d => spelled? digit? (10 * value + d) rest
    | none => none
  | c :: rest =>
    match digit? c with
    | some d => spelled? digit? (10 * value + d) rest
    | none => none

/-- The number that characters spell, behind an optional sign. -/
def signed? (read : List Char → Option Nat) : List Char → Option Int
  | '-' :: cs => (read cs).map fun n => -(n : Int)
  | '+' :: cs => (read cs).map Int.ofNat
  | cs => (read cs).map Int.ofNat

end Tabular.Text
