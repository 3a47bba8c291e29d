import Tabular.Schema.Column

/-!
# Shapes

What the rows of a window have in common so far: a tree of names, each a text or a map for good,
in the order of first sighting, with the number of rows that carried it.

* `Shape`, `named?`, `change`, `find?`, `count`;
* `Absorbed`, `absorb`: the fields of one more row; what disagrees with the tree is a conflict and
  is left out with all it holds;
* `touch`: one more sighting of an attribute;
* `hold`: room for a path that was asked for;
* `columns`: the tree as columns, a map before what it holds.
-/

namespace Tabular

/-- A name seen in rows, as a text or as a map. -/
inductive Shape where
  | scalar (name : String) (seen : Nat)
  | map (name : String) (seen : Nat) (shapes : List Shape)
  deriving Repr, Inhabited

namespace Shape

/-- The name of a shape. -/
def name : Shape → String
  | .scalar n _ => n
  | .map n _ _ => n

/-- The kind of a shape. -/
def kind : Shape → Kind
  | .scalar .. => .scalar
  | .map .. => .map

/-- The number of rows that carried a shape. -/
def seen : Shape → Nat
  | .scalar _ s => s
  | .map _ s _ => s

/-- The shapes of a map; a text has none. -/
def shapes : Shape → List Shape
  | .scalar .. => []
  | .map _ _ ss => ss

/-- The shape seen once more. -/
def again : Shape → Shape
  | .scalar n s => .scalar n (s + 1)
  | .map n s ss => .map n (s + 1) ss

/-- A map with other shapes; a text stays as it is. -/
def mapShapes (f : List Shape → List Shape) : Shape → Shape
  | .scalar n s => .scalar n s
  | .map n s ss => .map n s (f ss)

/-- The shape of that name. -/
def named? (name : String) (ss : List Shape) : Option Shape :=
  ss.find? fun s => s.name == name

/-- The shapes with the one of that name changed. -/
def change (name : String) (f : Shape → Shape) : List Shape → List Shape
  | [] => []
  | s :: rest => if s.name = name then f s :: rest else s :: change name f rest

/-- The shape at a path. -/
def find? : Path → List Shape → Option Shape
  | [], _ => none
  | [n], ss => named? n ss
  | n :: rest, ss => (named? n ss).bind fun s => find? rest s.shapes

mutual

/-- The number of shapes in a shape, itself included. -/
def countIn : Shape → Nat
  | .scalar .. => 1
  | .map _ _ ss => 1 + count ss

/-- The number of shapes in a list of shapes. -/
def count : List Shape → Nat
  | [] => 0
  | s :: rest => countIn s + count rest

end

/-! ## Absorbing rows -/

/-- What comes of fields under shapes: the new shapes, the record of the fields, and the conflicts
at this level and below it. -/
structure Absorbed where
  shapes : List Shape
  entries : List (String × Value)
  own : List Conflict
  deeper : List Conflict
  deriving Inhabited

mutual

/-- One field at `path` under shapes. -/
def absorbField (row : Int) (path : Path) (ss : List Shape) : Field → Absorbed
  | .scalar n _ v =>
    match named? n ss with
    | none => ⟨ss ++ [.scalar n 1], [(n, .ofText? v)], [], []⟩
    | some (.scalar ..) => ⟨change n again ss, [(n, .ofText? v)], [], []⟩
    | some (.map ..) => ⟨ss, [(n, .null)], [⟨path ++ [n], .map, .scalar, row⟩], []⟩
  | .map n _ fs =>
    match named? n ss with
    | none =>
      let a := absorb row (path ++ [n]) [] fs
      ⟨ss ++ [.map n 1 a.shapes], [(n, .map a.entries)], [], a.own ++ a.deeper⟩
    | some (.scalar ..) => ⟨ss, [(n, .null)], [⟨path ++ [n], .scalar, .map, row⟩], []⟩
    | some (.map _ _ inner) =>
      let a := absorb row (path ++ [n]) inner fs
      ⟨change n (fun s => s.again.mapShapes fun _ => a.shapes) ss, [(n, .map a.entries)], [],
        a.own ++ a.deeper⟩

/-- The fields at `path` under shapes. The conflicts below a field come after those of its own
level, and the later field's before the earlier one's. -/
def absorb (row : Int) (path : Path) (ss : List Shape) : List Field → Absorbed
  | [] => ⟨ss, [], [], []⟩
  | f :: rest =>
    let a := absorbField row path ss f
    let b := absorb row path a.shapes rest
    ⟨b.shapes, a.entries ++ b.entries, a.own ++ b.own, b.deeper ++ a.deeper⟩

end

/-- One more sighting of an attribute. -/
def touch (ss : List Shape) (key : String) : List Shape :=
  match named? key ss with
  | none => ss ++ [.scalar key 1]
  | some _ => change key again ss

/-- A map without a sighting for all names of a path but the last, which is a text. -/
def empty : Path → List Shape
  | [] => []
  | [n] => [.scalar n 0]
  | n :: rest => [.map n 0 (empty rest)]

/-- The shapes with room for a path, unless a text stands in its way. -/
def hold : Path → List Shape → List Shape
  | [], ss => ss
  | n :: rest, ss =>
    match named? n ss with
    | none => ss ++ empty (n :: rest)
    | some _ => change n (mapShapes (hold rest)) ss

/-! ## Columns -/

/-- A map that every one of `rows` rows carried, and the attributes, are never null. -/
def isRequired (rows : Nat) (path : Path) (kind : Kind) (seen : Nat) : Bool :=
  path == attributesPath || (kind = .map && 0 < rows && seen = rows)

mutual

/-- The columns of a shape under `above`. -/
def columnsIn (rows : Nat) (above : Path) : Shape → List Column
  | .scalar n s => [⟨above ++ [n], .scalar, !isRequired rows (above ++ [n]) .scalar s⟩]
  | .map n s ss =>
    ⟨above ++ [n], .map, !isRequired rows (above ++ [n]) .map s⟩ :: columns rows (above ++ [n]) ss

/-- The columns of shapes under `above`. -/
def columns (rows : Nat) (above : Path) : List Shape → List Column
  | [] => []
  | s :: rest => columnsIn rows above s ++ columns rows above rest

end

end Shape

end Tabular
