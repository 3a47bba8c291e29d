/-!
# Levels

Elements are told apart by how deep they stand; the root element has depth one. Elements at the
data level are the rows, what is deeper belongs to the row around it, and beyond the flatten level
an element gives a plain column of the row.

* `Levels`, `Levels.Valid`, `Levels.ofInts`: the two cutoffs and the optional row name;
* `Place`, `Levels.place`: what an element at some depth is.
-/

namespace Tabular

/-- What an element is to the reader. -/
inductive Place where
  /-- Above the rows. -/
  | outside
  /-- The first element of a row. -/
  | rowStart
  /-- At the depth of rows, but under another name. -/
  | skipped
  /-- A field of a row, nested as it stands. -/
  | structural
  /-- A field of a row, whatever its nesting. -/
  | flattened
  deriving Repr, DecidableEq, Inhabited

/-- The name of a place. -/
def Place.name : Place → String
  | .outside => "outside"
  | .rowStart => "row_start"
  | .skipped => "skipped"
  | .structural => "structural"
  | .flattened => "flattened"

/-- The depth of rows, the depth beyond which fields are flattened, and the name of rows. -/
structure Levels where
  dataLevel : Nat
  flattenLevel : Option Nat
  rowTag : Option String
  deriving Repr, DecidableEq, Inhabited

/-- Why two numbers are no pair of levels. -/
inductive LevelError where
  | tooLow (dataLevel : Int)
  | crossed (flattenLevel dataLevel : Int)
  deriving Repr, DecidableEq, Inhabited

/-- The wording of a level error. -/
def LevelError.message : LevelError → String
  | .tooLow d => "data_level must be >= 1, got " ++ toString d
  | .crossed f d =>
    "flatten_level (" ++ toString f ++ ") must be >= data_level (" ++ toString d ++ ")"

namespace Levels

/-- Rows stand at depth one or deeper, and flattening starts no higher than they do. -/
structure Valid (levels : Levels) : Prop where
  one_le : 1 ≤ levels.dataLevel
  le_flatten : ∀ f, levels.flattenLevel = some f → levels.dataLevel ≤ f

/-- The levels that two numbers give. -/
def ofInts (dataLevel : Int) (flattenLevel : Option Int) (rowTag : Option String) :
    Except LevelError Levels :=
  if dataLevel < 1 then .error (.tooLow dataLevel)
  else
    match flattenLevel with
    | none => .ok ⟨dataLevel.toNat, none, rowTag⟩
    | some f =>
      if f < dataLevel then .error (.crossed f dataLevel)
      else .ok ⟨dataLevel.toNat, some f.toNat, rowTag⟩

/-- The name may start a row. -/
def isRowName (levels : Levels) (name : String) : Bool :=
  match levels.rowTag with
  | none => true
  | some tag => name == tag

/-- What an element at `depth` under `name` is. -/
def place (levels : Levels) (depth : Nat) (name : String) : Place :=
  if depth < levels.dataLevel then .outside
  else if depth = levels.dataLevel then
    if levels.isRowName name then .rowStart else .skipped
  else
    match levels.flattenLevel with
    | none => .structural
    | some f => if f < depth then .flattened else .structural

/-- The levels in a message. -/
def describe (levels : Levels) (quote : String → String) : String :=
  "DepthClassifier(data_level=" ++ toString levels.dataLevel ++ ", flatten_level=" ++
    (match levels.flattenLevel with | none => "None" | some f => toString f) ++ ", row_tag=" ++
    (match levels.rowTag with | none => "None" | some tag => quote tag) ++ ")"

end Levels

end Tabular
