/-!
# Locations

The place of a file in text form: names separated by slashes, from the root or from the current
directory.

* `Location.ofString`, `Location.text`: empty names and single dots drop out; two slashes at the
  front stay two, any other number counts as one;
* `Location.parent`, `Location.join`, `Location.name`, `Location.suffix`;
* `Location.resolve`: from the root, without double dots.
-/

namespace Tabular

/-- A place of a file: the slashes it starts with, and the names on the way. -/
structure Location where
  root : String
  parts : List String
  deriving Repr, DecidableEq, Inhabited

namespace Location

/-- The parts of a text between slashes. -/
def slashParts (letters : List Char) : List Char → List String
  | [] => [String.ofList letters.reverse]
  | c :: rest =>
    if c = '/' then String.ofList letters.reverse :: slashParts [] rest
    else slashParts (c :: letters) rest

/-- The slashes that a text starts with, as far as they count. -/
def rootOf : List Char → String
  | '/' :: '/' :: '/' :: _ => "/"
  | '/' :: '/' :: _ => "//"
  | '/' :: _ => "/"
  | _ => ""

/-- The place that a text names. -/
def ofString (s : String) : Location :=
  ⟨rootOf s.toList, (slashParts [] s.toList).filter fun part => part ≠ "" && part ≠ "."⟩

/-- The place starts at the root. -/
def isAbsolute (l : Location) : Bool :=
  l.root ≠ ""

/-- The text of a place. -/
def text (l : Location) : String :=
  if l.root = "" && l.parts.isEmpty then "." else l.root ++ "/".intercalate l.parts

/-- The place around a place. -/
def parent (l : Location) : Location :=
  ⟨l.root, l.parts.dropLast⟩

/-- A place seen from another. -/
def join (base l : Location) : Location :=
  if l.isAbsolute then l else ⟨base.root, base.parts ++ l.parts⟩

/-- The last name. -/
def name (l : Location) : String :=
  l.parts.getLast?.getD ""

/-- The last name from its last dot on, where something stands before and after that dot. -/
def suffix (l : Location) : String :=
  let reversed := l.name.toList.reverse
  let after := reversed.takeWhile (· ≠ '.')
  match reversed.dropWhile (· ≠ '.') with
  | '.' :: before =>
    if after.isEmpty || before.isEmpty then "" else String.ofList ('.' :: after.reverse)
  | _ => ""

/-- The names without double dots, where the names before (last one first) are known. -/
def climb (before : List String) : List String → List String
  | [] => before.reverse
  | part :: rest => if part = ".." then climb before.tail rest else climb (part :: before) rest

/-- The place from the root, seen from `base`. -/
def resolve (base l : Location) : Location :=
  let joined := base.join l
  ⟨joined.root, climb [] joined.parts⟩

end Location

end Tabular
