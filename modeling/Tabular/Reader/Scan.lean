import Tabular.Row.Builder

/-!
# Scanning events

How one event moves the reader on: the open elements are tracked, rows are told from what lies
around them, and a row comes out when its element ends.

* `Event`: one step of an element tree in document order;
* `Event.Nested`: the streams in which every end closes the innermost open start, and nothing is
  left open; an end without a name closes whatever is open;
* `Malformed`: what is wrong with a stream, with its wording;
* `Scan`: the state between two events;
* `Scan.feed`: one event.
-/

namespace Tabular

/-! ## Events -/

/-- One step of an element tree in document order. -/
inductive Event where
  | start (name : String) (attributes : Entries String)
  | text (value : String)
  | finish (name : String)
  deriving Repr, Inhabited, DecidableEq

namespace Event

/-- An end under `name` closes a start under `opened`. -/
def closes (name opened : String) : Bool :=
  name == "" || name == opened

/-- The stream takes the open names, innermost first, to no open name at all. -/
inductive Nested : List String → List Event → Prop where
  | nil : Nested [] []
  | start {tags : List String} {name : String} {attributes : Entries String}
      {rest : List Event} :
      Nested (name :: tags) rest → Nested tags (.start name attributes :: rest)
  | text {tags : List String} {value : String} {rest : List Event} :
      Nested tags rest → Nested tags (.text value :: rest)
  | finish {tags : List String} {opened name : String} {rest : List Event} :
      closes name opened = true → Nested tags rest → Nested (opened :: tags) (.finish name :: rest)

end Event

/-! ## The state of a reader -/

/-- What is wrong with a stream of events. -/
inductive Malformed where
  /-- An end where nothing is open. -/
  | unexpectedEnd (name : String)
  /-- An end under another name than the innermost start. -/
  | mismatchedEnd (name opened : String)
  /-- No more events inside an element. -/
  | endedInside (opened : String)
  /-- A document that is not well-formed, with the line of the fault. -/
  | document (line : Nat)
  deriving Repr, DecidableEq, Inhabited

/-- The wording of what is wrong with a stream. -/
def Malformed.message : Malformed → String
  | .unexpectedEnd name => "unexpected end event </" ++ name ++ ">"
  | .mismatchedEnd name opened => "mismatched end event </" ++ name ++ "> for <" ++ opened ++ ">"
  | .endedInside opened => "event stream ended inside <" ++ opened ++ ">"
  | .document _ => "malformed XML"

/-- The state between two events. -/
structure Scan where
  /-- The names of the open elements, innermost first. -/
  openTags : List String := []
  /-- The depth of the skipped element that is open. -/
  skipDepth : Option Nat := none
  skippedElements : Nat := 0
  builder : Builder := {}
  deriving Repr, Inhabited

namespace Scan

/-- An element starts. -/
def start (o : ReaderOptions) (name : String) (attributes : Entries String) (s : Scan) : Scan :=
  let s := { s with openTags := name :: s.openTags }
  if s.skipDepth.isSome then s
  else
    let depth := s.openTags.length
    match o.levels.place depth name with
    | .outside => s
    | .skipped => { s with skipDepth := some depth, skippedElements := s.skippedElements + 1 }
    | .rowStart => { s with builder := s.builder.startRow o name attributes }
    | .structural => { s with builder := s.builder.startChild o false name attributes }
    | .flattened => { s with builder := s.builder.startChild o true name attributes }

/-- Text stands in the innermost element. -/
def text (value : String) (s : Scan) : Scan :=
  if s.skipDepth.isSome || value.isEmpty then s
  else { s with builder := s.builder.text value }

/-- The innermost element, at `depth`, has been closed. -/
def close (o : ReaderOptions) (depth : Nat) (s : Scan) : Scan × Option Row :=
  match s.skipDepth with
  | some d => (if depth = d then { s with skipDepth := none } else s, none)
  | none =>
    let (builder, row) := s.builder.finish o
    ({ s with builder }, row)

/-- One event: the state after it and the row it finishes, or what is wrong with it. -/
def feed (o : ReaderOptions) (s : Scan) : Event → Except Malformed (Scan × Option Row)
  | .start name attributes => .ok (s.start o name attributes, none)
  | .text value => .ok (s.text value, none)
  | .finish name =>
    match s.openTags with
    | [] => .error (.unexpectedEnd name)
    | opened :: rest =>
      if Event.closes name opened then
        .ok ({ s with openTags := rest }.close o s.openTags.length)
      else .error (.mismatchedEnd name opened)

end Scan

end Tabular
