import Tabular.Column.Projection
import Tabular.Options.Field
import Tabular.Options.Level

/-!
# Reader options

* `ReaderOptions`: what a reader is told before it starts; `ReaderOptions.Valid` is what every
  loaded set of options satisfies;
* `ReaderOptions.load`: options out of a map of loose values;
* `ReaderOptions.entries`, `ReaderOptions.override`: a set of options as such a map, and loaded
  again with some of its entries replaced.
-/

namespace Tabular

/-- Which attributes a row keeps. -/
inductive AttributeScope where
  /-- Those of the row element. -/
  | row
  /-- Those of every element inside it, too. -/
  | all
  deriving Repr, DecidableEq, Inhabited

/-- What happens to a flattened field whose column is already filled. -/
inductive CollisionPolicy where
  /-- The first value stays. -/
  | first
  /-- The last value wins. -/
  | last
  /-- A numbered column takes the new value. -/
  | number
  deriving Repr, DecidableEq, Inhabited

/-- The words for attribute scopes. -/
def AttributeScope.words : List (String × AttributeScope) :=
  [("row", .row), ("all", .all)]

/-- The words for collision policies. -/
def CollisionPolicy.words : List (String × CollisionPolicy) :=
  [("first", .first), ("last", .last), ("number", .number)]

/-- The word for an attribute scope. -/
def AttributeScope.word : AttributeScope → String
  | .row => "row"
  | .all => "all"

/-- The word for a collision policy. -/
def CollisionPolicy.word : CollisionPolicy → String
  | .first => "first"
  | .last => "last"
  | .number => "number"

/-- The options of one reader. -/
structure ReaderOptions where
  /-- The depth of row elements. -/
  dataLevel : Nat := 2
  /-- The depth beyond which fields are flattened. -/
  flattenLevel : Option Nat := none
  /-- The only name that starts a row. -/
  rowTag : Option String := none
  /-- The requested columns. -/
  projection : Projection := .all
  /-- The greatest number of rows. -/
  limit : Option Nat := none
  /-- The number of rows of a full batch. -/
  batchSize : Nat := 4096
  /-- One schema serves all batches. -/
  pinSchema : Bool := false
  attributeScope : AttributeScope := .row
  flattenCollision : CollisionPolicy := .first
  deriving Repr, Inhabited, DecidableEq

/-- The value of one option: loose, or a projection that was read before. -/
inductive Setting where
  | value (v : Value)
  | projection (p : Projection)
  deriving Repr, Inhabited

/-- Why options cannot be loaded. -/
inductive OptionsError where
  | projection (error : ProjectionError)
  | invalid (complaints : List Options.Complaint)
  deriving Repr, Inhabited

namespace ReaderOptions

open Options (Checker Fault field complaints unknownKeys readNat readOptional)

/-- The levels of the options. -/
def levels (o : ReaderOptions) : Levels :=
  ⟨o.dataLevel, o.flattenLevel, o.rowTag⟩

/-- Rows stand at depth one or deeper, flattening starts no higher than they do, and a batch holds at
least one row. -/
structure Valid (o : ReaderOptions) : Prop where
  levels_valid : o.levels.Valid
  one_le_batchSize : 1 ≤ o.batchSize

/-! ## Loading -/

/-- The keys of the fields; an alias stands before the short name it replaces. -/
def keys : List (List String) :=
  [["dataLevel", "data_level"], ["flattenLevel", "flatten_level"], ["row_tag"], ["projection"],
    ["limit"], ["batch_size"], ["pin_schema"], ["attribute_scope"], ["flatten_collision"]]

/-- A reader of loose values, for a setting. -/
def loose {α : Type} (read : Value → Except Fault α) : Setting → Except Fault α
  | .value v => read v
  | .projection _ => read .unwritable

/-- A row name; a blank one stands for none. -/
def readRowTag (c : Checker) : Value → Except Fault (Option String)
  | .text s => if Text.isBlankText s then .ok none else readOptional c.text (.text s)
  | v => readOptional c.text v

/-- The requested columns of a setting. -/
def readProjection : Setting → Except ProjectionError Projection
  | .projection p => .ok p
  | .value v => Projection.ofValue v

/-- The requested columns of a map of settings. -/
def loadProjection (given : Entries Setting) : Except ProjectionError Projection :=
  match Entries.get? "projection" given with
  | none => .ok .all
  | some s => readProjection s

/-- The rule between the two levels. -/
def checkLevels (o : ReaderOptions) : Except OptionsError ReaderOptions :=
  match o.flattenLevel with
  | none => .ok o
  | some f =>
    if f < o.dataLevel then
      .error (.invalid [⟨none, .rule (LevelError.crossed f o.dataLevel).message⟩])
    else .ok o

/-- The options that a map of settings gives, with a projection that was read before. -/
def loadWith (c : Checker) (projection : Projection) (given : Entries Setting) :
    Except OptionsError ReaderOptions :=
  let dataLevel := field c ["dataLevel", "data_level"] 2 (loose (readNat c 1)) given
  let flattenLevel :=
    field c ["flattenLevel", "flatten_level"] none (loose (readOptional (readNat c 1))) given
  let rowTag := field c ["row_tag"] none (loose (readRowTag c)) given
  let limit := field c ["limit"] none (loose (readOptional (readNat c 0))) given
  let batchSize := field c ["batch_size"] 4096 (loose (readNat c 1)) given
  let pinSchema := field c ["pin_schema"] false (loose c.truth) given
  let scope := field c ["attribute_scope"] .row (loose (c.word AttributeScope.words)) given
  let collision :=
    field c ["flatten_collision"] .first (loose (c.word CollisionPolicy.words)) given
  let unknown := unknownKeys c keys given
  match dataLevel, flattenLevel, rowTag, limit, batchSize, pinSchema, scope, collision, unknown with
  | .ok d, .ok f, .ok t, .ok l, .ok b, .ok pin, .ok s, .ok p, [] =>
    checkLevels ⟨d, f, t, projection, l, b, pin, s, p⟩
  | d, f, t, l, b, pin, s, p, _ =>
    .error (.invalid (complaints d ++ complaints f ++ complaints t ++ complaints l ++
      complaints b ++ complaints pin ++ complaints s ++ complaints p ++ unknown))

/-- The options that a map of settings gives. A projection that cannot be read comes before every
other fault. -/
def load (c : Checker) (given : Entries Setting) : Except OptionsError ReaderOptions :=
  match loadProjection given with
  | .error error => .error (.projection error)
  | .ok projection => loadWith c projection given

/-- The options that a map of loose values gives. -/
def ofValues (c : Checker) (given : Entries Value) : Except OptionsError ReaderOptions :=
  load c (given.map fun e => (e.1, .value e.2))

/-! ## Loading again -/

/-- A set of options as a map of settings. -/
def entries (o : ReaderOptions) : Entries Setting :=
  [("data_level", .value (.int o.dataLevel)),
    ("flatten_level", .value (.ofNat? o.flattenLevel)),
    ("row_tag", .value (.ofText? o.rowTag)),
    ("projection", .projection o.projection),
    ("limit", .value (.ofNat? o.limit)),
    ("batch_size", .value (.int o.batchSize)),
    ("pin_schema", .value (.bool o.pinSchema)),
    ("attribute_scope", .value (.text o.attributeScope.word)),
    ("flatten_collision", .value (.text o.flattenCollision.word))]

/-- The options loaded again with some settings replaced; without any they stay as they are. -/
def override (c : Checker) (o : ReaderOptions) (settings : Entries Setting) :
    Except OptionsError ReaderOptions :=
  if settings.isEmpty then .ok o else load c (Entries.putAll o.entries settings)

end ReaderOptions

/-! ## Wording -/

/-- The first line of the wording of an options error. -/
def OptionsError.message : OptionsError → String
  | .projection error => error.message
  | .invalid _ => "invalid reader options"

/-- The number of faults in words. -/
def OptionsError.summary : OptionsError → String
  | .projection error => error.message
  | .invalid complaints =>
    "invalid reader options: " ++ toString complaints.length ++ " validation error" ++
      (if complaints.length = 1 then "" else "s") ++ " for ReaderOptions"

end Tabular
