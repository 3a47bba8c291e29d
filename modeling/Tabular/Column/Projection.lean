import Tabular.Column.Path

/-!
# Projections

Which columns a reader is asked for: all of them, or a list of paths in the order of the request.

* `Projection.ofValue`: a projection from a comma-separated text, a list of paths, or null;
* `Projection.admits`: a path has to be read when it is asked for, leads to one that is, or lies
  below one that is;
* `Projection.wantsAttributes`, `Projection.admitsAttribute`: the same for the attributes column.
-/

namespace Tabular

/-- The requested columns. -/
inductive Projection where
  | all
  | columns (requests : List Path)
  deriving Repr, Inhabited, DecidableEq

/-- Why a value names no projection. -/
inductive ProjectionError where
  | path (error : PathError)
  /-- A list or map that is no list of non-empty names. -/
  | invalidPath (given : Value)
  /-- An empty request. -/
  | nothing
  /-- A value that is neither a text nor a collection. -/
  | noCollection (given : Value)
  deriving Repr, Inhabited

/-- The wording of a projection error. -/
def ProjectionError.message : ProjectionError → String
  | .path error => error.message
  | .invalidPath given => "invalid projection path: " ++ given.display
  | .nothing => "projection must name at least one path (or '*')"
  | .noCollection given => "not a projection: " ++ given.display

namespace Projection

/-- The parts of a text between commas. -/
def commaParts (letters : List Char) : List Char → List String
  | [] => [String.ofList letters.reverse]
  | c :: rest =>
    if c = ',' then String.ofList letters.reverse :: commaParts [] rest
    else commaParts (c :: letters) rest

/-- The text stands for every column. -/
def isStar (s : String) : Bool :=
  Text.trim s == "*"

/-- The names of a path given as a list. -/
def names? : List Value → Option Path
  | [] => some []
  | .text s :: rest => (names? rest).map (s :: ·)
  | _ :: _ => none

/-- The path of one list of names. -/
def pathOfItems (given : Value) (items : List Value) : Except ProjectionError Path :=
  match names? items with
  | some path => if Path.isNamed path then .ok path else .error (.invalidPath given)
  | none => .error (.invalidPath given)

/-- The path of one requested item. -/
def pathOfItem : Value → Except ProjectionError Path
  | .text s => (Path.parse s).mapError .path
  | .list items => pathOfItems (.list items) items
  | .map es => pathOfItems (.map es) (es.map fun e => .text e.1)
  | v => .error (.noCollection v)

/-- The item stands for every column. -/
def isStarItem : Value → Bool
  | .text s => isStar s
  | _ => false

/-- The projection to some paths; a path asked for twice counts once. -/
def ofPaths (paths : List Path) : Projection :=
  .columns paths.eraseDups

/-- The projection that a list of items asks for. -/
def ofItems (items : List Value) : Except ProjectionError Projection :=
  if items.isEmpty then .error .nothing
  else if items.any isStarItem then .ok .all
  else (items.mapM pathOfItem).map ofPaths

/-- The projection that a value asks for. -/
def ofValue : Value → Except ProjectionError Projection
  | .null => .ok .all
  | .text s =>
    if isStar s then .ok .all else ofItems ((commaParts [] s.toList).map .text)
  | .list items => ofItems items
  | .map es => ofItems (es.map fun e => .text e.1)
  | v => .error (.noCollection v)

/-- The projection to every column. -/
def isAll : Projection → Bool
  | .all => true
  | .columns _ => false

/-- The requested paths; the projection to every column lists none. -/
def paths : Projection → List Path
  | .all => []
  | .columns requests => requests

/-- `path` leads to `request`, or is it. -/
def leadsTo (path request : Path) : Bool :=
  !path.isEmpty && path.isPrefixOf request

/-- `path` lies strictly below `request`. -/
def liesBelow (path request : Path) : Bool :=
  !request.isEmpty && request.isPrefixOf path && request.length < path.length

/-- What stands at `path` has to be read. -/
def admits (p : Projection) (path : Path) : Bool :=
  match p with
  | .all => true
  | .columns requests => requests.any fun r => leadsTo path r || liesBelow path r

/-- The attributes column has to be filled. -/
def wantsAttributes (p : Projection) : Bool :=
  p.admits attributesPath

/-- The attribute with that key has to be kept. -/
def admitsAttribute (p : Projection) (key : String) : Bool :=
  p.admits [attributesName, key]

/-- The text of a projection. -/
def describe : Projection → String
  | .all => "ProjectionSet(*)"
  | .columns requests => "ProjectionSet(" ++ Value.commaSeparated (requests.map Path.format) ++ ")"

end Projection

end Tabular
