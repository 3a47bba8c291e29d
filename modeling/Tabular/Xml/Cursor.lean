/-!
# Cursors

The rest of a text and the number of the line it starts on. The readers below move a cursor on
over what they read; a reader that fails names the line where it stopped.

* `isAllowed`, `isSpace`, `isNameStart`, `isNameLetter`: the characters of XML 1.0, the white space
  of markup, and the letters of names;
* `Cursor.span`, `Cursor.skipSpace`, `Cursor.word?`, `Cursor.upTo`, `Cursor.name`,
  `Cursor.quoted`: the readers.
-/

namespace Tabular.Xml

/-! ## Characters -/

/-- A character that a document may hold. -/
def isAllowed (c : Char) : Bool :=
  let n := c.toNat
  n == 0x9 || n == 0xA || n == 0xD || (0x20 ≤ n && n ≤ 0xD7FF) || (0xE000 ≤ n && n ≤ 0xFFFD) ||
    0x10000 ≤ n

/-- White space in markup. -/
def isSpace (c : Char) : Bool :=
  c = ' ' || c = '\t' || c = '\n' || c = '\r'

/-- The ranges of letters that start a name, but for ASCII. -/
def nameStartRanges : List (Nat × Nat) :=
  [(0xC0, 0xD6), (0xD8, 0xF6), (0xF8, 0x2FF), (0x370, 0x37D), (0x37F, 0x1FFF), (0x200C, 0x200D),
    (0x2070, 0x218F), (0x2C00, 0x2FEF), (0x3001, 0xD7FF), (0xF900, 0xFDCF), (0xFDF0, 0xFFFD),
    (0x10000, 0xEFFFF)]

/-- The number lies in one of the ranges. -/
def inRanges (ranges : List (Nat × Nat)) (n : Nat) : Bool :=
  ranges.any fun r => r.1 ≤ n && n ≤ r.2

/-- A letter that starts a name. -/
def isNameStart (c : Char) : Bool :=
  let n := c.toNat
  (97 ≤ n && n ≤ 122) || (65 ≤ n && n ≤ 90) || c = '_' || c = ':' || inRanges nameStartRanges n

/-- A letter inside a name. -/
def isNameLetter (c : Char) : Bool :=
  let n := c.toNat
  isNameStart c || (48 ≤ n && n ≤ 57) || c = '-' || c = '.' || n == 0xB7 ||
    (0x300 ≤ n && n ≤ 0x36F) || n == 0x203F || n == 0x2040

/-! ## Readers -/

/-- The rest of a text, with the number of its first line. -/
structure Cursor where
  line : Nat
  rest : List Char
  deriving Inhabited

/-- The number of line ends in a text. -/
def lineEnds (cs : List Char) : Nat :=
  cs.countP (· = '\n')

/-- The text before the first occurrence of a word, and the text after it. -/
def splitAtWord? (word : List Char) : List Char → Option (List Char × List Char)
  | [] => none
  | c :: cs =>
    if word.isPrefixOf (c :: cs) then some ([], (c :: cs).drop word.length)
    else (splitAtWord? word cs).map fun r => (c :: r.1, r.2)

namespace Cursor

/-- The number of the last line. -/
def lastLine (c : Cursor) : Nat :=
  c.line + lineEnds c.rest

/-- The cursor after a text that it starts with. -/
def after (taken rest : List Char) (c : Cursor) : Cursor :=
  ⟨c.line + lineEnds taken, rest⟩

/-- The characters of a class. -/
def span (p : Char → Bool) (c : Cursor) : List Char × Cursor :=
  let taken := c.rest.takeWhile p
  (taken, c.after taken (c.rest.dropWhile p))

/-- Over white space. -/
def skipSpace (c : Cursor) : Cursor :=
  (c.span isSpace).2

/-- Over at least one white space. -/
def needSpace (c : Cursor) : Except Nat Cursor :=
  let (taken, next) := c.span isSpace
  if taken.isEmpty then .error c.line else .ok next

/-- Over a word; none where another text stands. -/
def word? (word : String) (c : Cursor) : Option Cursor :=
  let cs := word.toList
  if cs.isPrefixOf c.rest then some (c.after cs (c.rest.drop cs.length)) else none

/-- Over a word that has to stand here. -/
def needWord (word : String) (c : Cursor) : Except Nat Cursor :=
  match c.word? word with
  | some next => .ok next
  | none => .error c.line

/-- The text up to a word, and over the word. -/
def upTo (word : String) (c : Cursor) : Except Nat (List Char × Cursor) :=
  match splitAtWord? word.toList c.rest with
  | some (taken, rest) => .ok (taken, c.after (taken ++ word.toList) rest)
  | none => .error c.lastLine

/-- A name. -/
def name (c : Cursor) : Except Nat (String × Cursor) :=
  match c.rest with
  | first :: _ =>
    if isNameStart first then
      let (taken, next) := c.span isNameLetter
      .ok (String.ofList taken, next)
    else .error c.line
  | [] => .error c.line

/-- A text between quotes of either kind. -/
def quoted (c : Cursor) : Except Nat (List Char × Cursor) :=
  match c.rest with
  | '"' :: rest => (⟨c.line, rest⟩ : Cursor).upTo "\""
  | '\'' :: rest => (⟨c.line, rest⟩ : Cursor).upTo "'"
  | _ => .error c.line

end Cursor

end Tabular.Xml
