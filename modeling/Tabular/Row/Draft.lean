import Tabular.Row.Field

/-!
# Rows and their drafts

A draft is a row under construction: fields are added, made maps and given texts until the row is
sealed.

* `Row`, `Row.walk`, `Row.record`: a finished row and its two readings;
* `Draft`, `Draft.insert`, `Draft.promote`, `Draft.assign`, `Draft.toRow`: addressed by path;
* `Draft.pathOf?`: from a handle to a path; the row element has handle zero;
* `Window`: what a look at a sealed row shows while its draft is still worked on.
-/

namespace Tabular

/-- A finished row. -/
structure Row where
  tag : String
  /-- The number of the row in its document. -/
  ordinal : Int
  attributes : Entries (Option String)
  fields : List Field
  deriving Repr, Inhabited

/-- A row under construction. -/
structure Draft where
  tag : String
  /-- One more than the greatest handle. -/
  size : Nat := 1
  attributes : Entries (Option String) := []
  fields : List Field := []
  deriving Repr, Inhabited

/-- Attributes as entries of a value. -/
def attributeEntries (attributes : Entries (Option String)) : List (String × Value) :=
  attributes.map fun a => (a.1, .ofText? a.2)

namespace Row

/-- Every field with its path, a map before what it holds. -/
def walk (row : Row) : List (Path × Field) :=
  Field.walk [] row.fields

/-- The row as a record: its attributes first, then its fields. -/
def record (row : Row) : Entries Value :=
  Entries.putAll [(attributesName, .map (attributeEntries row.attributes))]
    (Field.entriesOf row.fields)

end Row

namespace Draft

/-- A name is taken among the fields below a path. -/
def isTaken (path : Path) (name : String) (d : Draft) : Bool :=
  (Field.named? name (Field.under path d.fields)).isSome

/-- The draft with a new empty text field below a path; none where the name is taken. -/
def insert (path : Path) (name : String) (d : Draft) : Option Draft :=
  if d.isTaken path name then none
  else
    some { d with
      size := d.size + 1
      fields := Field.addAt path (.scalar name d.size none) d.fields }

/-- The draft with the field at a path made a map. -/
def promote (path : Path) (d : Draft) : Draft :=
  { d with fields := Field.promoteAt path d.fields }

/-- The draft with the text of the field at a path set. -/
def assign (path : Path) (value : Option String) (d : Draft) : Draft :=
  { d with fields := Field.assignAt path value d.fields }

/-- The row that the draft is now. -/
def toRow (ordinal : Int) (d : Draft) : Row :=
  ⟨d.tag, ordinal, d.attributes, d.fields⟩

/-- The path to a handle; the empty one to the row element. -/
def pathOf? (handle : Nat) (d : Draft) : Option Path :=
  if handle = 0 then some [] else Field.pathOf? handle [] d.fields

/-- The row element or the field at a path, as a field. -/
def node? (path : Path) (d : Draft) : Option Field :=
  if path.isEmpty then some (.map d.tag 0 d.fields) else Field.find? path d.fields

end Draft

/-- What sealing fixes: the tag, the number, the attributes, and how many handles were known. The
fields are shared with the draft. -/
structure Window where
  tag : String
  ordinal : Int
  attributes : Entries (Option String)
  size : Nat
  deriving Repr, Inhabited

namespace Window

/-- The window that sealing a draft opens. -/
def ofDraft (ordinal : Int) (d : Draft) : Window :=
  ⟨d.tag, ordinal, d.attributes, d.size⟩

/-- The row that the window shows of its draft; none once the draft has fields beyond the known
handles. -/
def look? (w : Window) (d : Draft) : Option Row :=
  if d.size = w.size then some ⟨w.tag, w.ordinal, w.attributes, d.fields⟩ else none

end Window

end Tabular
