import Tabular.Files.Location

/-!
# Disks

What a program asks of the files of its machine. What the machine answers is for the machine to
say, in states that the program does not look into.

* `FileFault`: what the file system or a decoder reports;
* `Content`: what reading a file gives, which may break off;
* `Disk`: the operations; `Disk.read` reads a file at once;
* `Disk.Lawful`: what is written without a fault is what is read.
-/

namespace Tabular

/-- A fault that the file system or a decoder reports. -/
inductive FileFault where
  | notFound
  | isDirectory
  | notADirectory
  | alreadyThere
  /-- A name that no file can have. -/
  | badName
  | badGzip
  | badBzip2
  | badArchive
  /-- A packed file that ends before its content does. -/
  | truncated
  /-- Any other fault, by its name; whether the file system reports it. -/
  | other (name : String) (isSystem : Bool)
  deriving Repr, DecidableEq, Inhabited

/-- The fault is one that the file system reports. -/
def FileFault.isSystem : FileFault → Bool
  | .badName | .badArchive | .truncated => false
  | .other _ isSystem => isSystem
  | _ => true

/-- What reading a file gives: its bytes, and the fault where it breaks off. -/
structure Content where
  bytes : List UInt8
  fault : Option FileFault := none
  deriving Repr, DecidableEq, Inhabited

/-- The bytes of a content that is whole. -/
def Content.whole (c : Content) : Except FileFault (List UInt8) :=
  match c.fault with
  | none => .ok c.bytes
  | some fault => .error fault

/-- What goes wrong while lines are written to a file. -/
inductive WriteFault where
  /-- The line at a place cannot be written. -/
  | line (index : Nat)
  /-- The file cannot be closed. -/
  | closing (fault : FileFault)
  deriving Repr, DecidableEq, Inhabited

/-- The operations on the files of a machine, which is in a state of a type. -/
structure Disk (σ : Type) where
  /-- A place seen from the root. -/
  resolve : Location → σ → Except FileFault Location
  /-- Whether something is at a place. -/
  holds : Location → σ → Except FileFault Bool
  /-- The file at a place, opened for reading: what it gives to one who reads it later. -/
  source : Location → σ → Except FileFault (σ → Content)
  /-- A directory made at a place with those around it, where none is. -/
  makeDirectory : Location → σ → σ × Option FileFault
  /-- An empty file at a place, in the stead of what was there. -/
  create : Location → σ → Except FileFault σ
  /-- The lines written to the file at a place, one after another, and the file closed. -/
  write : Location → List String → σ → σ × Option WriteFault

namespace Disk

variable {σ : Type}

/-- What reading the file at a place gives now. -/
def read (d : Disk σ) (l : Location) (s : σ) : Except FileFault Content :=
  (d.source l s).map fun content => content s

/-- The bytes of a file with some lines. -/
def bytesOf (lines : List String) : List UInt8 :=
  (String.join lines).toUTF8.toList

/-- What is known of a disk: where a file was made and lines were written to it without a fault,
reading it gives these lines. -/
structure Lawful (d : Disk σ) : Prop where
  read_write {l : Location} {lines : List String} {s made : σ} :
    d.create l s = .ok made → (d.write l lines made).2 = none →
      d.read l (d.write l lines made).1 = .ok ⟨bytesOf lines, none⟩

end Disk

end Tabular
