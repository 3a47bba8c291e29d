import Tabular.Row.Attributes
import Tabular.Row.Draft

/-!
# The row builder

A row grows while the elements inside it start and end. The builder keeps one frame for each open
element of the row, the row element outermost.

* A child element makes the field around it a map; elements win over text.
* Under one parent the first field of a name stays; a repeat is counted and left out with all it
  holds, and so is an element named as the attributes column directly below the row.
* The text of a field without child elements is trimmed; nothing left is no text.
* A flattened element without child elements gives a column of the row under its own name.
* What the projection does not ask for is left out, but flattened elements inside it still count.

Main definitions: `Role`, `Frame`, `Tally`, `OpenRow`, `Builder`, and the steps
`Builder.startRow`, `Builder.startChild`, `Builder.text`, `Builder.finish`, `Builder.abandon`.
-/

namespace Tabular

/-- What becomes of an open element. -/
inductive Role where
  /-- A field at the path of the frame. -/
  | built
  /-- A column under the element's own name. -/
  | flattened
  /-- Outside the projection. -/
  | pruned
  /-- Left out with all it holds. -/
  | skipped
  deriving Repr, DecidableEq, Inhabited

/-- An open element of a row. -/
structure Frame where
  role : Role
  /-- The names from the row element down to this one. -/
  path : Path
  hasChildren : Bool := false
  text : String := ""
  deriving Repr, Inhabited

/-- What the builder leaves out, by reason. -/
structure Tally where
  duplicateFields : Nat := 0
  duplicateAttributes : Nat := 0
  flattenCollisions : Nat := 0
  reservedCollisions : Nat := 0
  deriving Repr, Inhabited, DecidableEq

/-- A row under construction with its open elements. -/
structure OpenRow where
  draft : Draft
  innermost : Frame
  /-- The other open elements, from the inside out. -/
  outer : List Frame := []
  deriving Repr, Inhabited

/-- The state between two events. -/
structure Builder where
  row : Option OpenRow := none
  /-- How many rows are finished. -/
  sealedRows : Nat := 0
  tally : Tally := {}
  deriving Repr, Inhabited

/-- A text without blanks at its ends, or none. -/
def cleaned (text : String) : Option String :=
  let t := Text.trim text
  if t.isEmpty then none else some t

/-! ## Columns of flattened elements -/

/-- The name with a number behind it. -/
def numberedName (name : String) (n : Nat) : String :=
  name ++ "_" ++ toString n

/-- The first free numbered name from `n` on, among `steps` of them. -/
def freeName (name : String) (fs : List Field) : Nat → Nat → String
  | n, 0 => numberedName name n
  | n, steps + 1 =>
    if (Field.named? (numberedName name n) fs).isSome then freeName name fs (n + 1) steps
    else numberedName name n

/-- The draft with one more text column directly below the row. -/
def Draft.addColumn (name : String) (value : Option String) (d : Draft) : Draft :=
  match d.insert [] name with
  | some d => d.assign [name] value
  | none => d

/-- The column of a flattened element whose name is taken. -/
def Draft.collide (o : ReaderOptions) (name : String) (value : Option String) (existing : Field)
    (d : Draft) : Draft :=
  match existing.kind, o.flattenCollision with
  | .map, _ => d
  | .scalar, .first => d
  | .scalar, .last => d.assign [name] value
  | .scalar, .number =>
    let free := freeName name d.fields 2 d.fields.length
    if o.projection.admits [free] then d.addColumn free value else d

namespace OpenRow

/-- The column of a flattened element. -/
def putFlattened (o : ReaderOptions) (name : String) (value : Option String) (d : Draft)
    (t : Tally) : Draft × Tally :=
  if name = attributesName then (d, { t with reservedCollisions := t.reservedCollisions + 1 })
  else if !o.projection.admits [name] then (d, t)
  else
    match Field.named? name d.fields with
    | none => (d.addColumn name value, t)
    | some existing =>
      (d.collide o name value existing, { t with flattenCollisions := t.flattenCollisions + 1 })

/-! ## Elements inside a row -/

/-- The names of a path behind one another, as a label for attributes. -/
def label (path : Path) : String :=
  "_".intercalate path

/-- The row with a further open element. -/
def push (frame : Frame) (r : OpenRow) : OpenRow :=
  { r with innermost := frame, outer := { r.innermost with hasChildren := true } :: r.outer }

/-- The row with the attributes of an element inside it. -/
def collect (o : ReaderOptions) (label : String) (attributes : Entries String) (r : OpenRow)
    (t : Tally) : OpenRow × Tally :=
  let c := Collected.ofNested o.attributeScope o.projection label attributes
    ⟨r.draft.attributes, t.duplicateAttributes⟩
  ({ r with draft := { r.draft with attributes := c.kept } },
    { t with duplicateAttributes := c.duplicates })

/-- The row with the innermost field made a map. -/
def promote (r : OpenRow) : OpenRow :=
  { r with draft := r.draft.promote r.innermost.path }

/-- A flattened element starts. -/
def startFlattened (o : ReaderOptions) (name : String) (attributes : Entries String)
    (r : OpenRow) (t : Tally) : OpenRow × Tally :=
  let r := if r.innermost.role = .built then r.promote else r
  let (r, t) := r.collect o name attributes t
  (r.push { role := .flattened, path := [name] }, t)

/-- A nested element starts inside a field. -/
def startField (o : ReaderOptions) (name : String) (attributes : Entries String) (r : OpenRow)
    (t : Tally) : OpenRow × Tally :=
  let path := r.innermost.path ++ [name]
  if path = attributesPath then
    (r.push { role := .skipped, path }, { t with reservedCollisions := t.reservedCollisions + 1 })
  else if !o.projection.admits path then
    let (r, t) := r.promote.collect o (label path) attributes t
    (r.push { role := .pruned, path }, t)
  else
    match r.draft.insert r.innermost.path name with
    | none =>
      (r.push { role := .skipped, path }, { t with duplicateFields := t.duplicateFields + 1 })
    | some draft =>
      let (r, t) := { r with draft }.collect o (label path) attributes t
      (r.push { role := .built, path }, t)

/-- An element starts inside the row. -/
def startChild (o : ReaderOptions) (flattened : Bool) (name : String)
    (attributes : Entries String) (r : OpenRow) (t : Tally) : OpenRow × Tally :=
  match r.innermost.role, flattened with
  | .skipped, _ => (r.push { role := .skipped, path := r.innermost.path ++ [name] }, t)
  | .pruned, false =>
    let path := r.innermost.path ++ [name]
    let (r, t) := r.collect o (label path) attributes t
    (r.push { role := .pruned, path }, t)
  | .built, false => r.startField o name attributes t
  | _, _ => r.startFlattened o name attributes t

/-- Text inside the innermost element. -/
def text (value : String) (r : OpenRow) : OpenRow :=
  match r.innermost.role with
  | .built | .flattened =>
    { r with innermost := { r.innermost with text := r.innermost.text ++ value } }
  | .pruned | .skipped => r

/-- What the end of an element does to the draft. -/
def closeFrame (o : ReaderOptions) (frame : Frame) (d : Draft) (t : Tally) : Draft × Tally :=
  match frame.role with
  | .built => (d.assign frame.path (cleaned frame.text), t)
  | .flattened =>
    if frame.hasChildren then (d, t)
    else putFlattened o (frame.path.headD "") (cleaned frame.text) d t
  | .pruned | .skipped => (d, t)

end OpenRow

/-! ## Steps of the builder -/

namespace Builder

/-- A row is under construction. -/
def isActive (b : Builder) : Bool :=
  b.row.isSome

/-- A row element starts. -/
def startRow (o : ReaderOptions) (name : String) (attributes : Entries String) (b : Builder) :
    Builder :=
  let c := Collected.ofRow o.projection attributes ⟨[], b.tally.duplicateAttributes⟩
  { b with
    row := some { draft := { tag := name, attributes := c.kept },
                  innermost := { role := .built, path := [] } }
    tally := { b.tally with duplicateAttributes := c.duplicates } }

/-- An element starts inside the row. -/
def startChild (o : ReaderOptions) (flattened : Bool) (name : String)
    (attributes : Entries String) (b : Builder) : Builder :=
  match b.row with
  | none => b
  | some r =>
    let (r, t) := r.startChild o flattened name attributes b.tally
    { b with row := some r, tally := t }

/-- Text inside the row. -/
def text (value : String) (b : Builder) : Builder :=
  { b with row := b.row.map (OpenRow.text value) }

/-- The innermost element ends; the row itself, if that was the row element. -/
def finish (o : ReaderOptions) (b : Builder) : Builder × Option Row :=
  match b.row with
  | none => (b, none)
  | some r =>
    match r.outer with
    | [] =>
      ({ b with row := none, sealedRows := b.sealedRows + 1 }, some (r.draft.toRow b.sealedRows))
    | frame :: outer =>
      let (draft, t) := OpenRow.closeFrame o r.innermost r.draft b.tally
      ({ b with row := some ⟨draft, frame, outer⟩, tally := t }, none)

/-- The row under construction is given up. -/
def abandon (b : Builder) : Builder :=
  { b with row := none }

end Builder

end Tabular
