import Tabular.Reader.Basic

/-!
# What a parser reports

A parser reports where elements start and end, under names with their namespaces, and stops at the
first fault of a document. Its reports become events one by one.

* `localName`: a name without the namespace in front of it;
* `Report`, `Report.events`: what is reported, and the events of a report;
* `Parse`, `Parse.source`: a parse, broken off or not, and its events;
* `Parser`, `Parser.source`: a parser, and the events of what a file gives.
-/

namespace Tabular.Xml

/-- A name without a namespace in braces in front of it. -/
def localName (tag : String) : String :=
  String.ofList (tag.toList.reverse.takeWhile (· ≠ '\x7d')).reverse

/-- What a parser reports. -/
inductive Report where
  /-- An element starts, with its attributes. -/
  | start (tag : String) (attributes : List (String × String))
  /-- An element ends; its text is the character data before its first child. -/
  | finish (tag : String) (text : Option String)
  /-- A node that is no element. -/
  | other
  deriving Repr, Inhabited, DecidableEq

/-- The events of a report: names lose their namespaces, and a text comes before the end of its
element. -/
def Report.events : Report → List Event
  | .start tag attributes =>
    [.start (localName tag) (Entries.ofPairs (attributes.map fun x => (localName x.1, x.2)))]
  | .finish tag text => (text.map Event.text).toList ++ [.finish (localName tag)]
  | .other => []

/-- The reports on a document, and the line of the fault that they stop at. -/
structure Parse where
  reports : List Report
  fault : Option Nat
  deriving Repr, Inhabited, DecidableEq

namespace Parse

/-- The events of a parse, and how they end. -/
def source (p : Parse) : EventSource :=
  ⟨p.reports.flatMap Report.events, p.fault.elim .complete .malformed⟩

/-- The events of a parse of a file that breaks off behind it. -/
def sourceUpTo (fault : FileFault) (p : Parse) : EventSource :=
  ⟨p.reports.flatMap Report.events, p.fault.elim (.unreadable fault) .malformed⟩

end Parse

/-- A parser of documents. -/
structure Parser where
  /-- The parse of a whole document. -/
  whole : List UInt8 → Parse
  /-- The parse of the beginning of a document, as far as it goes. -/
  beginning : List UInt8 → Parse

/-- The events of what a file gives: those of a whole document, or those of its beginning up to the
fault of reading it. -/
def Parser.source (p : Parser) (content : Content) : EventSource :=
  match content.fault with
  | none => (p.whole content.bytes).source
  | some fault => (p.beginning content.bytes).sourceUpTo fault

end Tabular.Xml
