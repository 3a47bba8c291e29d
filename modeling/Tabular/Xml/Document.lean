import Tabular.Xml.Decode
import Tabular.Xml.Report
import Tabular.Xml.Token

/-!
# Parsing documents

Tokens become reports, or events at once: every end closes the innermost start of its name, and the
text before the first child of an element is given at its end.

* `Scope`: the prefixes that are declared; a prefix that is not declared is a fault that lets the
  reading go on to the end;
* `Assembly`, `Assembly.step`, `Assembly.report`: one token, its events and its reports;
* `assemble`, `reports`: all tokens of a document;
* `Document.source`, `Document.parse`: the events of a document given as bytes, and the reports;
* `Document.parser`: the parser that reports so.
-/

namespace Tabular.Xml

/-! ## Namespaces -/

/-- The prefixes declared around an element, with the namespaces they stand for. -/
abbrev Scope := List (String × String)

/-- The scope outside the root element. -/
def outermostScope : Scope :=
  [("xml", "http://www.w3.org/XML/1998/namespace")]

/-- The parts of a name with one colon inside. -/
def splitName? (name : String) : Option (String × String) :=
  let cs := name.toList
  let before := cs.takeWhile (· ≠ ':')
  match cs.dropWhile (· ≠ ':') with
  | _ :: after =>
    if before.isEmpty || after.isEmpty || after.contains ':' then none
    else some (String.ofList before, String.ofList after)
  | [] => none

/-- A name as it is reported. -/
structure Resolved where
  name : String
  /-- The namespace; empty for a name without one. -/
  uri : String
  /-- The name has a prefix that is not declared, or colons out of place. -/
  isFaulty : Bool
  deriving Repr, Inhabited, DecidableEq

/-- A name in a scope. -/
def resolve (scope : Scope) (name : String) : Resolved :=
  match splitName? name with
  | some (before, after) =>
    match scope.lookup before with
    | some ns => ⟨after, ns, false⟩
    | none => ⟨name, "", true⟩
  | none => ⟨name, "", name.toList.contains ':'⟩

/-- The attribute declares a namespace. -/
def isDeclaration (name : String) : Bool :=
  name == "xmlns" || (splitName? name).any fun parts => parts.1 == "xmlns"

/-- The prefix that an attribute declares, if it may be declared so. -/
def declaredPrefix? (given : String × String) : Option (String × String) :=
  match splitName? given.1 with
  | some ("xmlns", after) =>
    if given.2.isEmpty || after == "xmlns" then none else some (after, given.2)
  | _ => none

/-- The attribute declares a prefix in a way that is not allowed. -/
def isFaultyDeclaration (given : String × String) : Bool :=
  isDeclaration given.1 && given.1 ≠ "xmlns" && (declaredPrefix? given).isNone

/-- The scope inside an element. -/
def innerScope (scope : Scope) (attributes : List (String × String)) : Scope :=
  attributes.filterMap declaredPrefix? ++ scope

/-- Two attributes of different prefixes are the same name in the same namespace. -/
def haveClash : List Resolved → Bool
  | [] => false
  | a :: rest =>
    (a.uri ≠ "" && rest.any fun b => b.name == a.name && b.uri == a.uri) ||
      haveClash rest

/-! ## Assembling -/

/-- An element whose end is still to come. -/
structure OpenElement where
  /-- The name as it is written. -/
  written : String
  /-- The name as it is reported. -/
  name : String
  /-- The character data before the first child. -/
  text : Option String := none
  /-- A child or a reference has come. -/
  hasChild : Bool := false
  scope : Scope
  deriving Repr, Inhabited, DecidableEq

/-- The state between two tokens. -/
structure Assembly where
  /-- The open elements, innermost first. -/
  stack : List OpenElement := []
  hasRoot : Bool := false
  /-- The line of the first fault that lets the reading go on. -/
  fault : Option Nat := none
  deriving Repr, Inhabited, DecidableEq

namespace Assembly

/-- The scope of the innermost element. -/
def scope (a : Assembly) : Scope :=
  match a.stack with
  | [] => outermostScope
  | e :: _ => e.scope

/-- The innermost element has a child. -/
def withChild (a : Assembly) : Assembly :=
  match a.stack with
  | [] => a
  | e :: outer => { a with stack := { e with hasChild := true } :: outer }

/-- Character data in the innermost element. -/
def withText (value : String) (a : Assembly) : Assembly :=
  match a.stack with
  | [] => a
  | e :: outer =>
    if e.hasChild then a
    else { a with stack := { e with text := some (e.text.getD "" ++ value) } :: outer }

/-- The reading has passed over a fault. -/
def withFault (isFaulty : Bool) (line : Nat) (a : Assembly) : Assembly :=
  if isFaulty then { a with fault := some (a.fault.getD line) } else a

/-- The events at the end of an element. -/
def ending (e : OpenElement) : List Event :=
  (e.text.map Event.text).toList ++ [.finish e.name]

/-- An element starts. -/
def start (tag : StartTag) (line : Nat) (a : Assembly) : Assembly × List Event :=
  let scope := innerScope a.scope tag.attributes
  let name := resolve scope tag.name
  let plain := tag.attributes.filter fun x => !isDeclaration x.1
  let resolved := plain.map fun x => resolve scope x.1
  let attributes := Entries.ofPairs ((resolved.map Resolved.name).zip (plain.map Prod.snd))
  let isFaulty := name.isFaulty || resolved.any Resolved.isFaulty || haveClash resolved ||
    tag.attributes.any isFaultyDeclaration
  let a := a.withChild.withFault isFaulty line
  let e : OpenElement := { written := tag.name, name := name.name, scope }
  let started : Event := .start name.name attributes
  if tag.isClosed then ({ a with hasRoot := true }, started :: ending e)
  else ({ a with hasRoot := true, stack := e :: a.stack }, [started])

/-- One token: the state after it and its events, or the line of a fault. -/
def step (a : Assembly) : Token → Except Nat (Assembly × List Event)
  | .start tag first last =>
    if a.stack.isEmpty && a.hasRoot then .error first else .ok (a.start tag last)
  | .finish written first last =>
    match a.stack with
    | [] => .error first
    | e :: outer =>
      if e.written = written then .ok ({ a with stack := outer }, ending e) else .error last
  | .text value isBlank first =>
    if a.stack.isEmpty && !isBlank then .error first else .ok (a.withText value, [])
  | .reference first => if a.stack.isEmpty then .error first else .ok (a.withChild, [])
  | .fault line => .error line
  | .done line => if a.stack.isEmpty && a.hasRoot then .ok (a, []) else .error line

end Assembly

/-- The events of tokens, and how they end. A fault that let the reading go on comes first. -/
def assemble (a : Assembly) : List Token → List Event × Ending
  | [] =>
    match a.fault with
    | none => ([], .complete)
    | some line => ([], .malformed line)
  | token :: rest =>
    match a.step token with
    | .error line => ([], .malformed (a.fault.getD line))
    | .ok (a, events) =>
      let later := assemble a rest
      (events ++ later.1, later.2)

/-! ## Reports -/

/-- An element that has been reported to start. -/
structure Shown where
  tag : String
  /-- The namespace of the elements without a prefix inside it; empty for none. -/
  space : String
  deriving Repr, Inhabited, DecidableEq

/-- The namespace of an element without a prefix that has the attributes. -/
def innerSpace (shown : List Shown) (attributes : List (String × String)) : String :=
  (attributes.lookup "xmlns").getD ((shown.head?.map Shown.space).getD "")

/-- A name with its namespace in braces in front of it, where it has one. -/
def qualified (uri name : String) : String :=
  if uri = "" then name else "\x7b" ++ uri ++ "\x7d" ++ name

/-- The name of an element as it is reported. -/
def elementTag (scope : Scope) (space written : String) : String :=
  let found := resolve scope written
  qualified (if (splitName? written).isNone then space else found.uri) found.name

/-- The reports of a token, and the elements that are open after it. -/
def Assembly.report (a : Assembly) (shown : List Shown) : Token → List Report × List Shown
  | .start tag _ _ =>
    let scope := innerScope a.scope tag.attributes
    let space := innerSpace shown tag.attributes
    let name := elementTag scope space tag.name
    let attributes := (tag.attributes.filter fun x => !isDeclaration x.1).map fun x =>
      (qualified (resolve scope x.1).uri (resolve scope x.1).name, x.2)
    if tag.isClosed then ([.start name attributes, .finish name none], shown)
    else ([.start name attributes], ⟨name, space⟩ :: shown)
  | .finish _ _ _ =>
    match a.stack, shown with
    | e :: _, opened :: outer => ([.finish opened.tag e.text], outer)
    | _, _ => ([], shown)
  | .reference _ => ([.other], shown)
  | _ => ([], shown)

/-- The reports of tokens, up to the first fault that ends the reading, and the elements that are
open there. -/
def reports (a : Assembly) (shown : List Shown) : List Token → List Report × List Shown
  | [] => ([], shown)
  | token :: rest =>
    match a.step token with
    | .error _ => ([], shown)
    | .ok (a', _) =>
      let now := a.report shown token
      let later := reports a' now.2 rest
      (now.1 ++ later.1, later.2)

/-- The line of the fault that ends the events of a document. -/
def faultOf : Ending → Option Nat
  | .malformed line => some line
  | _ => none

/-! ## Documents -/

/-- The tokens of a text; behind a readable text that is broken off stands a fault. -/
def tokensOf (d : Decoded) : List Token :=
  match prolog ⟨1, d.chars⟩ with
  | .error line => [.fault line]
  | .ok (es, c) =>
    let all := tokens es (c.rest.length + 1) c
    if d.broken then
      all.map fun token =>
        match token with
        | .done line => .fault line
        | other => other
    else all

/-- The events of a document given as bytes. -/
def Document.source (bytes : List UInt8) : EventSource :=
  if bytes.isEmpty then ⟨[], .malformed 0⟩
  else
    let (events, ending) := assemble {} (tokensOf (decode bytes))
    ⟨events, ending⟩

/-- The reports on a document given as bytes. -/
def Document.parse (bytes : List UInt8) : Parse :=
  if bytes.isEmpty then ⟨[], some 0⟩
  else
    let tokens := tokensOf (decode bytes)
    ⟨(reports {} [] tokens).1, faultOf (assemble {} tokens).2⟩

/-- The parser of documents. Of a document that breaks off it reports what it would report of the
beginning as a whole document, but for the fault. -/
def Document.parser : Parser where
  whole := parse
  beginning bytes := { parse bytes with fault := none }

end Tabular.Xml
