import Tabular.Schema.Column

/-!
# Snapshots

A schema as it stands at one moment: a list of columns. Records are brought into its shape by
padding.

* `Snapshot.has`, `Snapshot.column?`, `Snapshot.children`, `Snapshot.names`, `Snapshot.paths`;
* `Branch`, `Snapshot.branches`: the columns as trees, each column above those below it;
* `Snapshot.pad`: a record with exactly the columns of the snapshot; what is missing or of the
  other kind is null, except that attributes are always a map;
* `Snapshot.describe`: the trees as a value.
-/

namespace Tabular

/-- The columns of a schema at one moment. -/
structure Snapshot where
  columns : List Column
  deriving Repr, Inhabited, DecidableEq

/-- A column and the branches of the columns directly below it. -/
inductive Branch where
  | node (column : Column) (branches : List Branch)
  deriving Repr, Inhabited

namespace Branch

/-- The column at the root of a branch. -/
def column : Branch → Column
  | .node c _ => c

/-- The branches directly below the root. -/
def branches : Branch → List Branch
  | .node _ bs => bs

mutual

/-- The value that a branch takes out of a record. -/
def pad (source : Entries Value) : Branch → Value
  | .node c bs =>
    let v := (Entries.get? c.name source).getD .null
    match c.kind with
    | .scalar => if v.isMap then .null else v
    | .map =>
      if v.isMap || c.path == attributesPath then .map (Entries.ofPairs (padAll v.entries bs))
      else .null

/-- The entries that branches take out of a record. -/
def padAll (source : Entries Value) : List Branch → List (String × Value)
  | [] => []
  | b :: rest => (b.column.name, pad source b) :: padAll source rest

end

mutual

/-- A branch as a value: its name, kind and nullability, and the fields of a map. -/
def describe : Branch → Value
  | .node c bs =>
    let shown : List (String × Value) :=
      [("name", .text c.name), ("type", .text c.kind.name), ("nullable", .bool c.nullable)]
    match c.kind with
    | .scalar => .map shown
    | .map => .map (shown ++ [("fields", .list (describeAll bs))])

/-- Branches as values. -/
def describeAll : List Branch → List Value
  | [] => []
  | b :: rest => describe b :: describeAll rest

end

end Branch

namespace Snapshot

/-- There is a column at the path. -/
def has (s : Snapshot) (path : Path) : Bool :=
  s.columns.any fun c => c.path == path

/-- The column at the path; the last one, where there are several. -/
def column? (s : Snapshot) (path : Path) : Option Column :=
  s.columns.reverse.find? fun c => c.path == path

/-- The columns directly below the path. -/
def children (s : Snapshot) (path : Path) : List Column :=
  s.columns.filter fun c => c.path.dropLast == path

/-- The names of the columns of a row. -/
def names (s : Snapshot) : List String :=
  (s.children []).map Column.name

/-- The paths of all columns as texts. -/
def paths (s : Snapshot) : List String :=
  s.columns.map fun c => Path.format c.path

/-- The text of a snapshot. -/
def text (s : Snapshot) : String :=
  "SchemaSnapshot(" ++ Value.commaSeparated s.paths ++ ")"

/-! ### Columns as trees -/

/-- The columns at and below a path, each with the names that lead from there to it. -/
def seenFrom (s : Snapshot) (path : Path) : List (Path × Column) :=
  s.columns.filterMap fun c => (Path.from? path c.path).map (·, c)

/-- The columns below a name, seen from there. -/
def seenBelow (name : String) (seen : List (Path × Column)) : List (Path × Column) :=
  seen.filterMap fun (path, c) =>
    match path with
    | first :: second :: rest => if first = name then some (second :: rest, c) else none
    | _ => none

/-- The branches of columns that are one name away, down to a depth. -/
def grow : Nat → List (Path × Column) → List Branch
  | 0, _ => []
  | depth + 1, seen =>
    seen.filterMap fun (path, c) =>
      match path with
      | [name] => some (.node c (if c.kind = .map then grow depth (seenBelow name seen) else []))
      | _ => none

/-- The length of the longest path. -/
def depth (s : Snapshot) : Nat :=
  s.columns.foldl (fun n c => max n c.path.length) 0

/-- The columns as trees. -/
def branches (s : Snapshot) : List Branch :=
  grow s.depth (s.seenFrom [])

/-- The branch of a column. -/
def branchOf (s : Snapshot) (c : Column) : Branch :=
  .node c (if c.kind = .map then grow s.depth (s.seenFrom c.path) else [])

/-! ### Shaping records -/

/-- Records in the shape of given branches. -/
def padWith (bs : List Branch) (record : Entries Value) : Entries Value :=
  Entries.ofPairs (Branch.padAll record bs)

/-- A record in the shape of the snapshot. -/
def pad (s : Snapshot) (record : Entries Value) : Entries Value :=
  padWith s.branches record

/-- The snapshot as a value. -/
def describe (s : Snapshot) : Value :=
  .list (Branch.describeAll s.branches)

end Snapshot

end Tabular
