import Tabular.Files.Disk

/-!
# File trees

A disk whose files are known: each has a place from the root and its bytes. A directory is there
when it was made, or when something lies in it.

* `Stored`, `FileTree`;
* `FileTree.isDirectory`, `FileTree.locate?`, `FileTree.find?`: what is at a place;
* `FileTree.makeDirectory`, `FileTree.create`, `FileTree.write`: how files and directories are made;
* `FileTree.disk`: the disk.
-/

namespace Tabular

/-- What is at a place. -/
inductive Stored where
  | file (bytes : List UInt8)
  | directory
  deriving Repr, DecidableEq, Inhabited

/-- Files by their places, and the current directory. -/
structure FileTree where
  current : Location
  files : List (Location × Stored)
  deriving Repr, Inhabited

/-- The place has a zero character in its names. -/
def Location.isBad (l : Location) : Bool :=
  l.parts.any fun part => part.toList.contains '\x00'

namespace FileTree

/-! ## What is at a place -/

/-- There is a directory at a place from the root. -/
def isDirectory (t : FileTree) (l : Location) : Bool :=
  l.parts.isPrefixOf t.current.parts ||
    t.files.any fun f =>
      l.parts.isPrefixOf f.1.parts && (l.parts.length < f.1.parts.length || f.2 = .directory)

/-- The place that names lead to, step by step through directories. -/
def walk (t : FileTree) (l : Location) : List String → Option Location
  | [] => some l
  | part :: rest =>
    if t.isDirectory l then
      if part = ".." then t.walk l.parent rest else t.walk (l.join ⟨"", [part]⟩) rest
    else none

/-- The place from the root that a place leads to. -/
def locate? (t : FileTree) (l : Location) : Option Location :=
  let joined := t.current.join l
  t.walk ⟨joined.root, []⟩ joined.parts

/-- What is at a place from the root. -/
def at? (t : FileTree) (place : Location) : Option Stored :=
  match t.files.find? fun f => f.1 == place with
  | some f => some f.2
  | none => if t.isDirectory place then some .directory else none

/-- What is at a place. -/
def find? (t : FileTree) (l : Location) : Option Stored :=
  (t.locate? l).bind t.at?

/-- The bytes of the file at a place from the root; none where there is no file. -/
def bytesAt (t : FileTree) (place : Location) : List UInt8 :=
  match t.at? place with
  | some (.file bytes) => bytes
  | _ => []

/-- The file at a place, opened for reading. -/
def source (l : Location) (t : FileTree) : Except FileFault (FileTree → Content) :=
  if l.isBad then .error .badName
  else
    match t.locate? l with
    | none => .error .notFound
    | some place =>
      match t.at? place with
      | none => .error .notFound
      | some .directory => .error .isDirectory
      | some (.file _) => .ok fun later => ⟨later.bytesAt place, none⟩

/-! ## Making files and directories -/

/-- The places from the root of a directory and those around it. -/
def way (t : FileTree) (l : Location) : List Location :=
  (List.range (l.parts.length + 1)).map fun n =>
    Location.resolve t.current ⟨l.root, l.parts.take n⟩

/-- The fault that keeps a directory from being made. -/
def directoryFault? (t : FileTree) (l : Location) : Option FileFault :=
  let place := Location.resolve t.current l
  let onTheWay := t.files.filter fun f => f.2 != .directory && f.1.parts.isPrefixOf place.parts
  if l.isBad then some .badName
  else if onTheWay.isEmpty then none
  else if onTheWay.any fun f => f.1 == place then some .alreadyThere
  else some .notADirectory

/-- A directory made with those around it. -/
def makeDirectory (l : Location) (t : FileTree) : FileTree × Option FileFault :=
  match t.directoryFault? l with
  | some fault => (t, some fault)
  | none =>
    let new := (t.way l).filter fun place => !t.isDirectory place
    ({ t with files := t.files ++ new.map (·, .directory) }, none)

/-- The tree with a file put at a place from the root. -/
def put (t : FileTree) (place : Location) (bytes : List UInt8) : FileTree :=
  { t with files := (t.files.filter fun f => f.1 != place) ++ [(place, .file bytes)] }

/-- An empty file at a place. -/
def create (l : Location) (t : FileTree) : Except FileFault FileTree :=
  if l.isBad then .error .badName
  else
    match t.locate? l with
    | none => .error .notFound
    | some place => if t.isDirectory place then .error .isDirectory else .ok (t.put place [])

/-- The file at a place with some lines. -/
def write (l : Location) (lines : List String) (t : FileTree) : FileTree × Option WriteFault :=
  match t.locate? l with
  | none => (t, some (.closing .notFound))
  | some place => (t.put place (Disk.bytesOf lines), none)

/-- The disk whose states are file trees. -/
def disk : Disk FileTree where
  resolve l t := if l.isBad then .error .badName else .ok (Location.resolve t.current l)
  holds l t := .ok (!l.isBad && (t.find? l).isSome)
  source := source
  makeDirectory := makeDirectory
  create := create
  write := write

end FileTree

end Tabular
