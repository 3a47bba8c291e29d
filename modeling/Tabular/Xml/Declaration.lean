import Tabular.Xml.Cursor

/-!
# The declaration of a document

* `Declaration`: the encoding and the standalone flag that a document declares;
* `Declaration.read`: the declaration at the start of a document, if there is one.
-/

namespace Tabular.Xml

/-- What a document declares about itself. -/
structure Declaration where
  encoding : Option String := none
  standalone : Bool := false
  deriving Repr, Inhabited, DecidableEq

namespace Declaration

/-- The value of a setting after its name. -/
def setting (c : Cursor) : Except Nat (List Char × Cursor) := do
  let c ← c.skipSpace.needWord "="
  c.skipSpace.quoted

/-- A setting that may follow after white space. -/
def setting? (word : String) (c : Cursor) : Except Nat (Option (List Char) × Cursor) :=
  let (taken, next) := c.span isSpace
  match next.word? word with
  | some after =>
    if taken.isEmpty then .error c.line
    else (setting after).map fun r => (some r.1, r.2)
  | none => .ok (none, c)

/-- The letters of a version number. -/
def isVersionLetter (c : Char) : Bool :=
  (48 ≤ c.toNat && c.toNat ≤ 57) || c = '.'

/-- The declaration after its opening. -/
def body (c : Cursor) : Except Nat (Declaration × Cursor) := do
  let (version, c) ← setting? "version" c
  match version with
  | none => .error c.line
  | some v =>
    if v.isEmpty || !v.all isVersionLetter then .error c.line
    else
      let (encoding, c) ← setting? "encoding" c
      let (standalone, c) ← setting? "standalone" c
      let standalone := (standalone.map String.ofList).getD "no"
      if standalone ≠ "yes" && standalone ≠ "no" then .error c.line
      else
        let c ← c.skipSpace.needWord "?>"
        pure (⟨encoding.map String.ofList, standalone = "yes"⟩, c)

/-- A declaration starts here. -/
def opens (c : Cursor) : Option Cursor :=
  match c.word? "<?xml" with
  | some next =>
    match next.rest with
    | x :: _ => if isSpace x then some next else none
    | [] => none
  | none => none

/-- The declaration at the start of a document, empty where there is none. -/
def read (c : Cursor) : Except Nat (Declaration × Cursor) :=
  match opens c with
  | some next => body next
  | none => .ok ({}, c)

end Declaration

end Tabular.Xml
