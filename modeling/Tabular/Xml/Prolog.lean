import Tabular.Xml.Declaration
import Tabular.Xml.Entity

/-!
# What stands before the root element

* `comment`, `instruction`: what may stand anywhere between elements;
* `Doctype.read`: a document type with the entities that it declares;
* `prolog`: the whole prolog. What cannot belong to it is left to the reader of elements.
-/

namespace Tabular.Xml

/-! ## Comments and instructions -/

/-- Over a comment, after its opening; two hyphens may only stand at its end. -/
def comment (c : Cursor) : Except Nat Cursor := do
  let (_, c) ← c.upTo "--"
  c.needWord ">"

/-- Over an instruction, after its opening. Its name may not be that of a declaration. -/
def instruction (c : Cursor) : Except Nat Cursor := do
  let (name, next) ← c.name
  if String.ofList (name.toList.map Char.toLower) = "xml" then .error next.line
  else
    match next.word? "?>" with
    | some c => pure c
    | none => do
      let c ← next.needSpace
      let (_, c) ← c.upTo "?>"
      pure c

/-! ## Document types -/

/-- A place outside the document. -/
def externalId? (c : Cursor) : Except Nat (Bool × Cursor) :=
  match c.word? "SYSTEM" with
  | some c => do
    let c ← c.needSpace
    let (_, c) ← c.quoted
    pure (true, c)
  | none =>
    match c.word? "PUBLIC" with
    | some c => do
      let c ← c.needSpace
      let (_, c) ← c.quoted
      let c ← c.needSpace
      let (_, c) ← c.quoted
      pure (true, c)
    | none => .ok (false, c)

/-- The note that an outside text is no markup, if it follows. -/
def dataNote (c : Cursor) : Except Nat Cursor :=
  match c.skipSpace.word? "NDATA" with
  | some next => do
    let next ← next.needSpace
    let (_, next) ← next.name
    pure next
  | none => .ok c

/-- The meaning of an entity. -/
def entityValue (c : Cursor) : Except Nat (Entity × Cursor) := do
  let (isExternal, c) ← externalId? c
  if isExternal then
    let c ← dataNote c
    pure (.external, c)
  else
    let (literal, c) ← c.quoted
    match Entity.ofLiteral? literal with
    | some entity => pure (entity, c)
    | none => .error c.line

/-- An entity declaration, after its opening; a parameter gives no entity. -/
def entityDeclaration (c : Cursor) : Except Nat (Option (String × Entity) × Cursor) := do
  let c ← c.needSpace
  let (isParameter, c) ← (
    match c.word? "%" with
    | some c => c.needSpace.map fun c => (true, c)
    | none => .ok (false, c) : Except Nat (Bool × Cursor))
  let (name, c) ← c.name
  let c ← c.needSpace
  let (entity, c) ← entityValue c
  let c ← c.skipSpace.needWord ">"
  pure (if isParameter then none else some (name, entity), c)

/-- Over a declaration of another kind, after its opening; quoted texts are taken whole. -/
def otherDeclaration : Nat → Cursor → Except Nat Cursor
  | 0, c => .error c.line
  | steps + 1, c => do
    let (_, c) := c.span fun x => x ≠ '>' && x ≠ '"' && x ≠ '\'' && x ≠ '<'
    match c.word? ">" with
    | some next => pure next
    | none =>
      let (_, c) ← c.quoted
      otherDeclaration steps c

/-- The declarations of a document type up to its closing bracket. -/
def declarations (es : Entities) : Nat → Cursor → Except Nat (Entities × Cursor)
  | 0, c => .error c.line
  | steps + 1, c => do
    let c := c.skipSpace
    match c.word? "]", c.word? "%", c.word? "<!--", c.word? "<!ENTITY", c.word? "<?" with
    | some c, _, _, _, _ => pure (es, c)
    | _, some c, _, _, _ =>
      let (_, c) ← c.name
      let c ← c.needWord ";"
      declarations { es with hidden := true } steps c
    | _, _, some c, _, _ =>
      let c ← comment c
      declarations es steps c
    | _, _, _, some c, _ =>
      let (declared, c) ← entityDeclaration c
      declarations { es with declared := es.declared ++ declared.toList } steps c
    | _, _, _, _, some c =>
      let c ← instruction c
      declarations es steps c
    | none, none, none, none, none =>
      match ["<!ELEMENT", "<!ATTLIST", "<!NOTATION"].findSome? fun word => c.word? word with
      | some next =>
        let next ← otherDeclaration (next.rest.length + 1) next
        declarations es steps next
      | none => .error c.line

/-- The rest of a document type after its opening, with the entities it declares. -/
def doctype (c : Cursor) : Except Nat (Entities × Cursor) := do
  let c ← c.needSpace
  let (_, c) ← c.name
  let (isExternal, c) ← externalId? c.skipSpace
  let es : Entities := { hidden := isExternal }
  let c := c.skipSpace
  let (es, c) ← (
    match c.word? "[" with
    | some c => declarations es (c.rest.length + 1) c
    | none => .ok (es, c) : Except Nat (Entities × Cursor))
  let c ← c.skipSpace.needWord ">"
  pure (es, c)

/-! ## The prolog -/

/-- What stands before the root element, from the declaration on. -/
def prologParts (es : Option Entities) : Nat → Cursor → Except Nat (Entities × Cursor)
  | 0, c => .ok (es.getD {}, c)
  | steps + 1, c => do
    let next := c.skipSpace
    match next.word? "<!--", next.word? "<?", next.word? "<!DOCTYPE", es with
    | some c, _, _, _ =>
      let c ← comment c
      prologParts es steps c
    | _, some c, _, _ =>
      let c ← instruction c
      prologParts es steps c
    | _, _, some c, none =>
      let (es, c) ← doctype c
      prologParts (some es) steps c
    | _, _, _, _ => pure (es.getD {}, c)

/-- The entities that a document declares, and where its elements begin. A document that stands
alone has no entities out of sight. -/
def prolog (c : Cursor) : Except Nat (Entities × Cursor) := do
  let (declaration, c) ← Declaration.read c
  let (es, c) ← prologParts none (c.rest.length + 1) c
  pure ({ es with hidden := es.hidden && !declaration.standalone }, c)

end Tabular.Xml
