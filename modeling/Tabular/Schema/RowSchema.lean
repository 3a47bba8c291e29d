import Tabular.Column.Projection
import Tabular.Row.Draft
import Tabular.Schema.Shape
import Tabular.Schema.Snapshot

/-!
# Running schemas

The schema of a window of rows, grown row by row.

* `RowSchema.start`: before the first row; attributes have their place if they are asked for;
* `RowSchema.fold`: one more row, with its record and its conflicts;
* `RowSchema.snapshot`: the schema at this moment, with room for every path that was asked for.
-/

namespace Tabular

/-- The running schema of a window of rows. -/
structure RowSchema where
  projection : Projection
  /-- The number of rows so far. -/
  rows : Nat
  shapes : List Shape
  deriving Repr, Inhabited

/-- What one row gives: the schema after it, its record, and its conflicts. -/
structure Folded where
  schema : RowSchema
  record : Entries Value
  conflicts : List Conflict
  deriving Inhabited

namespace RowSchema

/-- The schema before the first row. -/
def start (projection : Projection) : RowSchema :=
  ⟨projection, 0, if projection.wantsAttributes then [.map attributesName 0 []] else []⟩

/-- The number of registered paths. -/
def size (s : RowSchema) : Nat :=
  Shape.count s.shapes

/-- A path is registered. -/
def has (s : RowSchema) (path : Path) : Bool :=
  (Shape.find? path s.shapes).isSome

/-- The shapes after the attributes of one more row. -/
def withAttributes (keys : List String) (shapes : List Shape) : List Shape :=
  Shape.change attributesName (fun s => s.again.mapShapes fun ss => keys.foldl Shape.touch ss)
    shapes

/-- The schema after one more row, with its record and its conflicts. -/
def fold (s : RowSchema) (row : Row) : Folded :=
  let wanted := s.projection.wantsAttributes
  let shapes := if wanted then withAttributes (Entries.keys row.attributes) s.shapes else s.shapes
  let first : Entries Value :=
    if wanted then [(attributesName, .map (attributeEntries row.attributes))] else []
  let a := Shape.absorb row.ordinal [] shapes row.fields
  ⟨⟨s.projection, s.rows + 1, a.shapes⟩, Entries.putAll first a.entries, a.own ++ a.deeper⟩

/-- The shapes with room for every path that was asked for. -/
def held (s : RowSchema) : List Shape :=
  s.projection.paths.foldl (fun ss path => Shape.hold path ss) s.shapes

/-- The schema at this moment. -/
def snapshot (s : RowSchema) : Snapshot :=
  ⟨Shape.columns s.rows [] s.held⟩

end RowSchema

end Tabular
