import Tabular.Xml.Cursor

/-!
# References

A reference stands for a character by number, for one of five characters by name, or for the
replacement text of an entity that the document declares.

* `Reference`, `Reference.read`: a reference after its ampersand;
* `Piece`, `Entity`, `Entity.ofLiteral?`: a replacement text, taken apart at its references;
* `Entities.expand`: a replacement text inside an attribute value. Each entity may be entered only
  below others, so the number of entities bounds the nesting.
-/

namespace Tabular.Xml

/-- A reference. -/
inductive Reference where
  | char (c : Char)
  | named (name : String)
  deriving Repr, Inhabited, DecidableEq

/-- The value of a digit in a base up to sixteen. -/
def digitValue? (base : Nat) (c : Char) : Option Nat :=
  let n := c.toNat
  let v? : Option Nat :=
    if 48 ≤ n && n ≤ 57 then some (n - 48)
    else if 97 ≤ n && n ≤ 102 then some (n - 87)
    else if 65 ≤ n && n ≤ 70 then some (n - 55)
    else none
  v?.filter (· < base)

/-- The number that digits spell in a base. -/
def numberOf? (base : Nat) (cs : List Char) : Option Nat :=
  if cs.isEmpty then none
  else cs.foldlM (fun n c => (digitValue? base c).map fun v => base * n + v) 0

/-- The character with a number, if a document may hold it. -/
def characterOf? (n : Nat) : Option Char :=
  if n < 0xD800 || (0xE000 ≤ n && n < 0x110000) then (some (Char.ofNat n)).filter isAllowed
  else none

namespace Reference

/-- A character by its number, after the number sign. -/
def readNumber (c : Cursor) : Except Nat (Reference × Cursor) :=
  let (base, c) :=
    match c.rest with
    | 'x' :: rest => (16, (⟨c.line, rest⟩ : Cursor))
    | _ => (10, c)
  let (digits, next) := c.span fun x => (digitValue? base x).isSome
  match next.rest, (numberOf? base digits).bind characterOf? with
  | ';' :: rest, some x => .ok (.char x, ⟨next.line, rest⟩)
  | _, _ => .error next.line

/-- The five names that stand for a character in every document. -/
def fixed : List (String × Char) :=
  [("lt", '<'), ("gt", '>'), ("amp", '&'), ("quot", '"'), ("apos", '\'')]

/-- A reference, after the ampersand. -/
def read (c : Cursor) : Except Nat (Reference × Cursor) :=
  match c.rest with
  | '#' :: rest => readNumber ⟨c.line, rest⟩
  | _ => do
    let (name, c) ← c.name
    let c ← c.needWord ";"
    match fixed.lookup name with
    | some x => pure (.char x, c)
    | none => pure (.named name, c)

end Reference

/-! ## Entities -/

/-- A piece of a replacement text. -/
inductive Piece where
  /-- A character as it stands. -/
  | plain (c : Char)
  | reference (r : Reference)
  /-- An ampersand that starts no reference. -/
  | fault
  deriving Repr, Inhabited, DecidableEq

/-- What a declared name stands for. -/
inductive Entity where
  | pieces (text : List Piece)
  /-- A text kept elsewhere. -/
  | external
  deriving Repr, Inhabited, DecidableEq

/-- The pieces of a replacement text, on a budget of steps. -/
def piecesOf : Nat → List Char → List Piece
  | 0, _ => []
  | _, [] => []
  | steps + 1, '&' :: rest =>
    match Reference.read ⟨0, rest⟩ with
    | .ok (r, c) => .reference r :: piecesOf steps c.rest
    | .error _ => .fault :: piecesOf steps rest
  | steps + 1, c :: rest => .plain c :: piecesOf steps rest

/-- The text of a literal with its character numbers resolved; a percent sign would refer to a
parameter, which has no place there. -/
def literalText : Nat → List Char → Option (List Char)
  | 0, _ => none
  | _, [] => some []
  | _, '%' :: _ => none
  | steps + 1, '&' :: '#' :: rest =>
    match Reference.readNumber ⟨0, rest⟩ with
    | .ok (.char x, c) => (literalText steps c.rest).map (x :: ·)
    | _ => none
  | steps + 1, c :: rest => (literalText steps rest).map (c :: ·)

/-- The entity of a literal. -/
def Entity.ofLiteral? (cs : List Char) : Option Entity :=
  (literalText (cs.length + 1) cs).map fun text => .pieces (piecesOf text.length text)

/-- The entities of a document, and whether others may be declared out of sight. -/
structure Entities where
  declared : List (String × Entity) := []
  hidden : Bool := false
  deriving Repr, Inhabited

namespace Entities

/-- A reference to that name has a meaning. -/
def knows (es : Entities) (name : String) : Bool :=
  es.hidden || (es.declared.lookup name).isSome

/-- White space inside an attribute value counts as a blank. -/
def blankFor (c : Char) : Char :=
  if isSpace c then ' ' else c

/-- A named entity inside an attribute value, entered through at most `depth` others. -/
def expand (es : Entities) : Nat → String → Option (List Char)
  | depth, name =>
    match es.declared.lookup name with
    | none => if es.hidden then some [] else none
    | some .external => none
    | some (.pieces text) =>
      match depth with
      | 0 => none
      | depth + 1 =>
        text.foldlM (fun acc piece =>
          match piece with
          | .plain c => if c = '<' then none else some (acc ++ [blankFor c])
          | .reference (.char c) => some (acc ++ [c])
          | .reference (.named inner) => (expand es depth inner).map (acc ++ ·)
          | .fault => none) []

/-- A named entity inside an attribute value. -/
def value? (es : Entities) (name : String) : Option (List Char) :=
  es.expand es.declared.length name

end Entities

end Tabular.Xml
