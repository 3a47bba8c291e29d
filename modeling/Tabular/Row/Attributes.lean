import Tabular.Column.Projection
import Tabular.Options.Basic

/-!
# Collected attributes

The attributes of a row element keep their names; those of an element inside the row are kept only
when the scope asks for them, under the label of the element and a low line. The first value of a
name stays, later ones are counted.

* `Collected`, `Collected.offer`: one attribute at a time;
* `Collected.offerAll`: those of an element, where the projection wants attributes at all;
* `Collected.ofRow`, `Collected.ofNested`: the row element, and an element inside it.
-/

namespace Tabular

/-- The attributes kept so far, and how many came after the first of their name. -/
structure Collected where
  kept : Entries (Option String) := []
  duplicates : Nat := 0
  deriving Repr, Inhabited, DecidableEq

namespace Collected

/-- One more attribute. -/
def offer (projection : Projection) (c : Collected) (key value : String) : Collected :=
  if !projection.admitsAttribute key then c
  else if Entries.has key c.kept then { c with duplicates := c.duplicates + 1 }
  else { c with kept := c.kept ++ [(key, some value)] }

/-- The attributes of one element, their names behind a label. -/
def offerAll (projection : Projection) (label : String) (attributes : Entries String)
    (c : Collected) : Collected :=
  if projection.wantsAttributes then
    attributes.foldl (fun acc a => offer projection acc (label ++ a.1) a.2) c
  else c

/-- The attributes of the row element. -/
def ofRow (projection : Projection) (attributes : Entries String) (c : Collected) : Collected :=
  offerAll projection "" attributes c

/-- The attributes of an element inside the row. -/
def ofNested (scope : AttributeScope) (projection : Projection) (label : String)
    (attributes : Entries String) (c : Collected) : Collected :=
  match scope with
  | .row => c
  | .all => offerAll projection (label ++ "_") attributes c

end Collected

end Tabular
