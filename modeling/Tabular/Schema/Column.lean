import Tabular.Row.Field

/-!
# Columns and conflicts

* `Column`: a path with its kind, and whether rows may have nothing there;
* `Column.merge`: one more sighting of a column; the first one fixes the kind;
* `Conflict`: a row that has the other kind at a path, with its wording.
-/

namespace Tabular

/-- A column of a schema. -/
structure Column where
  path : Path
  kind : Kind
  nullable : Bool := true
  deriving Repr, DecidableEq, Inhabited

namespace Column

/-- The last name of the path. -/
def name (c : Column) : String :=
  c.path.getLast?.getD ""

/-- A sighting of `kind` at `path`: the column that stands, and whether the sighting disagrees. -/
def merge (existing : Option Column) (path : Path) (kind : Kind) : Column × Bool :=
  match existing with
  | none => (⟨path, kind, true⟩, false)
  | some c => (c, c.kind ≠ kind)

end Column

/-- A row that has another kind at a path than the rows before it. -/
structure Conflict where
  path : Path
  expected : Kind
  found : Kind
  /-- The number of the row. -/
  row : Int
  deriving Repr, DecidableEq, Inhabited

/-- The wording of a conflict. -/
def Conflict.message (c : Conflict) : String :=
  "schema conflict at '" ++ ".".intercalate c.path ++ "': expected " ++ c.expected.name ++
    ", found " ++ c.found.name ++ " (row " ++ toString c.row ++ ")"

end Tabular
