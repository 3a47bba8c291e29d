import Tabular.Column.Path

/-!
# Fields

What a row holds: fields with a name each, which are either a single text or a map of further
fields. Every field has a handle, its number in the order in which the fields of the row came.

* `Field`, `Kind`;
* `named?`, `under`: fields by name and by path;
* `change`, `addAt`, `promoteAt`, `assignAt`: one field added or changed, by its path;
* `pathOf?`: from a handle back to the path;
* `walk`: every field with its path, a map before what it holds;
* `entriesOf`: the fields as entries of a value.
-/

namespace Tabular

/-- A single text, or a map of columns. -/
inductive Kind where
  | scalar
  | map
  deriving Repr, DecidableEq, Inhabited

/-- The name of a kind. -/
def Kind.name : Kind → String
  | .scalar => "scalar"
  | .map => "map"

/-- A field of a row. -/
inductive Field where
  | scalar (name : String) (handle : Nat) (value : Option String)
  | map (name : String) (handle : Nat) (fields : List Field)
  deriving Repr, Inhabited

namespace Field

/-- The name of a field. -/
def name : Field → String
  | .scalar n _ _ => n
  | .map n _ _ => n

/-- The number of a field. -/
def handle : Field → Nat
  | .scalar _ h _ => h
  | .map _ h _ => h

/-- The kind of a field. -/
def kind : Field → Kind
  | .scalar .. => .scalar
  | .map .. => .map

/-- The text of a field; a map has none. -/
def value? : Field → Option String
  | .scalar _ _ v => v
  | .map .. => none

/-- The fields of a map; a text has none. -/
def fields : Field → List Field
  | .scalar .. => []
  | .map _ _ fs => fs

/-- The field as a map; a text it had is dropped. -/
def promoted : Field → Field
  | .scalar n h _ => .map n h []
  | .map n h fs => .map n h fs

/-- The field with another text; a map stays as it is. -/
def assigned (value : Option String) : Field → Field
  | .scalar n h _ => .scalar n h value
  | .map n h fs => .map n h fs

/-- A map with other fields; a text stays as it is. -/
def mapFields (f : List Field → List Field) : Field → Field
  | .scalar n h v => .scalar n h v
  | .map n h fs => .map n h (f fs)

/-! ## By name and by path -/

/-- The field of that name. -/
def named? (name : String) (fs : List Field) : Option Field :=
  fs.find? fun f => f.name == name

/-- The fields below a path. -/
def under : Path → List Field → List Field
  | [], fs => fs
  | n :: rest, fs =>
    match named? n fs with
    | some f => under rest f.fields
    | none => []

/-- The field at a path. -/
def find? : Path → List Field → Option Field
  | [], _ => none
  | [n], fs => named? n fs
  | n :: rest, fs => (named? n fs).bind fun f => find? rest f.fields

/-- The fields with the one of that name changed. -/
def change (name : String) (f : Field → Field) : List Field → List Field
  | [] => []
  | g :: rest => if g.name = name then f g :: rest else g :: change name f rest

/-- The fields with one more at the end of those below a path. -/
def addAt : Path → Field → List Field → List Field
  | [], new, fs => fs ++ [new]
  | n :: rest, new, fs => change n (fun g => g.promoted.mapFields (addAt rest new)) fs

/-- The fields with the one at a path changed. -/
def changeAt : Path → (Field → Field) → List Field → List Field
  | [], _, fs => fs
  | [n], f, fs => change n f fs
  | n :: rest, f, fs => change n (fun g => g.mapFields (changeAt rest f)) fs

/-- The fields with the one at a path made a map. -/
def promoteAt (path : Path) (fs : List Field) : List Field :=
  changeAt path promoted fs

/-- The fields with the text of the one at a path set. -/
def assignAt (path : Path) (value : Option String) (fs : List Field) : List Field :=
  changeAt path (assigned value) fs

/-! ## Traversals -/

mutual

/-- The path to a handle in a field under `above`. -/
def pathOfIn? (handle : Nat) (above : Path) : Field → Option Path
  | .scalar n h _ => if h = handle then some (above ++ [n]) else none
  | .map n h fs => if h = handle then some (above ++ [n]) else pathOf? handle (above ++ [n]) fs

/-- The path to a handle among fields under `above`. -/
def pathOf? (handle : Nat) (above : Path) : List Field → Option Path
  | [] => none
  | f :: rest => (pathOfIn? handle above f).orElse fun _ => pathOf? handle above rest

end

mutual

/-- A field under `above` and what it holds, with their paths. -/
def walkIn (above : Path) : Field → List (Path × Field)
  | .scalar n h v => [(above ++ [n], .scalar n h v)]
  | .map n h fs => (above ++ [n], .map n h fs) :: walk (above ++ [n]) fs

/-- The fields under `above` and what they hold, with their paths. -/
def walk (above : Path) : List Field → List (Path × Field)
  | [] => []
  | f :: rest => walkIn above f ++ walk above rest

end

mutual

/-- A field as a value. -/
def toValue : Field → Value
  | .scalar _ _ v => .ofText? v
  | .map _ _ fs => .map (entriesOf fs)

/-- Fields as entries of a value. -/
def entriesOf : List Field → List (String × Value)
  | [] => []
  | f :: rest => (f.name, f.toValue) :: entriesOf rest

end

end Field

end Tabular
