import Tabular.Xml.Prolog

/-!
# Tokens

The markup of a document, taken apart: tags, character data and references. Comments and
instructions leave no token.

* `StartTag`, `Token`: with the lines on which they begin and end;
* `startTag`, `endTag`, `markup`, `characters`: the readers;
* `tokens`: all tokens up to the end of the text or the first fault.
-/

namespace Tabular.Xml

/-- The name and the attributes of a start tag as they are written. -/
structure StartTag where
  name : String
  attributes : List (String × String)
  /-- The element ends with its tag. -/
  isClosed : Bool
  deriving Repr, Inhabited, DecidableEq

/-- A piece of markup or character data. -/
inductive Token where
  | start (tag : StartTag) (first last : Nat)
  | finish (name : String) (first last : Nat)
  /-- Character data; `isBlank` where it is white space written as such. -/
  | text (value : String) (isBlank : Bool) (first : Nat)
  /-- A reference to a declared text. -/
  | reference (first : Nat)
  /-- Something that is no markup. -/
  | fault (line : Nat)
  /-- The end of the text. -/
  | done (line : Nat)
  deriving Repr, Inhabited, DecidableEq

/-- Line ends as a single line feed each. -/
def singleLineEnds : List Char → List Char
  | [] => []
  | '\r' :: '\n' :: rest => '\n' :: singleLineEnds rest
  | '\r' :: rest => '\n' :: singleLineEnds rest
  | c :: rest => c :: singleLineEnds rest

/-! ## Tags -/

/-- The rest of an attribute value up to its quote, on a budget of steps. -/
def attributeValue (es : Entities) (mark : Char) : Nat → Cursor → Except Nat (List Char × Cursor)
  | 0, c => .error c.line
  | steps + 1, c =>
    match c.rest with
    | [] => .error c.line
    | '\r' :: '\n' :: rest =>
      (attributeValue es mark steps ⟨c.line + 1, rest⟩).map fun r => (' ' :: r.1, r.2)
    | '&' :: rest =>
      match Reference.read ⟨c.line, rest⟩ with
      | .error line => .error line
      | .ok (.char x, c) => (attributeValue es mark steps c).map fun r => (x :: r.1, r.2)
      | .ok (.named name, c) =>
        match es.value? name with
        | none => .error c.line
        | some value => (attributeValue es mark steps c).map fun r => (value ++ r.1, r.2)
    | x :: rest =>
      if x = mark then .ok ([], ⟨c.line, rest⟩)
      else if x = '<' then .error c.line
      else
        (attributeValue es mark steps (c.after [x] rest)).map fun r =>
          (Entities.blankFor x :: r.1, r.2)

/-- An attribute with its value, on a budget of steps. -/
def oneAttribute (es : Entities) (steps : Nat) (c : Cursor) :
    Except Nat ((String × String) × Cursor) := do
  let (name, c) ← c.name
  let c ← c.skipSpace.needWord "="
  let c := c.skipSpace
  match c.rest with
  | mark :: rest =>
    if mark = '"' || mark = '\'' then
      let (value, c) ← attributeValue es mark steps ⟨c.line, rest⟩
      pure ((name, String.ofList value), c)
    else .error c.line
  | [] => .error c.line

/-- The attributes up to the end of a tag, on a budget of steps; whether the tag closes its
element. -/
def attributesOf (es : Entities) : Nat → Cursor →
    Except Nat (List (String × String) × Bool × Cursor)
  | 0, c => .error c.line
  | steps + 1, c =>
    let (space, next) := c.span isSpace
    match next.word? ">", next.word? "/>" with
    | some after, _ => .ok ([], false, after)
    | _, some after => .ok ([], true, after)
    | none, none =>
      if space.isEmpty then .error next.line
      else do
        let (a, c) ← oneAttribute es (steps + 1) next
        let (more, isClosed, c) ← attributesOf es steps c
        pure (a :: more, isClosed, c)

/-- No name stands twice. -/
def areDistinct : List (String × String) → Bool
  | [] => true
  | a :: rest => !(rest.any fun b => b.1 == a.1) && areDistinct rest

/-- A start tag, after its bracket, on a budget of steps; no attribute may be written twice. -/
def startTag (es : Entities) (steps : Nat) (first : Nat) (c : Cursor) :
    Except Nat (Token × Cursor) := do
  let (name, c) ← c.name
  let (attributes, isClosed, c) ← attributesOf es steps c
  if areDistinct attributes then pure (.start ⟨name, attributes, isClosed⟩ first c.line, c)
  else .error c.line

/-- An end tag, after its opening. -/
def endTag (first : Nat) (c : Cursor) : Except Nat (Token × Cursor) := do
  let (name, c) ← c.name
  let c ← c.skipSpace.needWord ">"
  pure (.finish name first c.line, c)

/-! ## Content -/

/-- Markup that starts with an angle bracket, on a budget of steps. -/
def markup (es : Entities) (steps : Nat) (c : Cursor) : Except Nat (Option Token × Cursor) :=
  match c.word? "<!--", c.word? "<![CDATA[", c.word? "<!", c.word? "<?", c.word? "</" with
  | some next, _, _, _, _ => (comment next).map fun next => (none, next)
  | _, some next, _, _, _ =>
    (next.upTo "]]>").map fun r =>
      (some (.text (String.ofList (singleLineEnds r.1)) false c.line), r.2)
  | _, _, some _, _, _ => .error c.line
  | _, _, _, some next, _ => (instruction next).map fun next => (none, next)
  | _, _, _, _, some next => (endTag c.line next).map fun r => (some r.1, r.2)
  | none, none, none, none, none =>
    (startTag es steps c.line ⟨c.line, c.rest.drop 1⟩).map fun r => (some r.1, r.2)

/-- A reference between tags. -/
def contentReference (es : Entities) (c : Cursor) : Except Nat (Option Token × Cursor) :=
  match Reference.read ⟨c.line, c.rest.drop 1⟩ with
  | .error line => .error line
  | .ok (.char x, next) => .ok (some (.text (String.singleton x) false c.line), next)
  | .ok (.named name, next) =>
    if es.knows name then .ok (some (.reference c.line), next) else .error next.line

/-- Character data up to the next markup or reference. -/
def characters (c : Cursor) : Except Nat (Option Token × Cursor) :=
  let (raw, next) := c.span fun x => x ≠ '<' && x ≠ '&'
  match splitAtWord? "]]>".toList raw with
  | some (before, _) => .error (c.line + lineEnds before)
  | none =>
    let first := c.line + lineEnds (raw.takeWhile isSpace)
    .ok (some (.text (String.ofList (singleLineEnds raw)) (raw.all isSpace) first), next)

/-- The next token, if what comes next leaves one, on a budget of steps. -/
def nextToken (es : Entities) (steps : Nat) (c : Cursor) : Except Nat (Option Token × Cursor) :=
  match c.rest with
  | '<' :: _ => markup es steps c
  | '&' :: _ => contentReference es c
  | _ => characters c

/-- All tokens, on a budget of steps: each takes a character at least, and what is left is enough
for the next one. -/
def tokens (es : Entities) : Nat → Cursor → List Token
  | 0, c => [.fault c.line]
  | steps + 1, c =>
    if c.rest.isEmpty then [.done c.line]
    else
      match nextToken es (steps + 1) c with
      | .error line => [.fault line]
      | .ok (token, next) => token.toList ++ tokens es steps next

end Tabular.Xml
