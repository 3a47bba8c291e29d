import Tabular.Files.Disk
import Tabular.Text.Printable

/-!
# Opening documents

The last suffix of a name tells how its content is packed.

* `OpenError`: why a document cannot be opened, with its wording;
* `Codecs`: how packed content is unpacked; `Codecs.empty` can unpack what is empty;
* `archiveMember`: the member of an archive that is the document: the first that is named so, else
  the first;
* `openDocument`: the content of a document on a disk.
-/

namespace Tabular

/-- Why a document cannot be opened. -/
inductive OpenError where
  /-- Nothing is at the place. -/
  | missing (shown : String)
  /-- The archive has no file in it. -/
  | emptyArchive (shown : Option String)
  | fault (fault : FileFault) (shown : String)
  deriving Repr, DecidableEq, Inhabited

/-- The wording of a fault at a place. -/
def FileFault.message (fault : FileFault) (shown : String) : String :=
  match fault with
  | .notFound => "[Errno 2] No such file or directory: " ++ Text.quote shown
  | _ => "unreadable file: " ++ shown

/-- The wording of an open error. -/
def OpenError.message : OpenError → String
  | .missing shown => "XML not found: " ++ shown
  | .emptyArchive shown => "zip archive has no members: " ++ shown.getD "None"
  | .fault found shown => found.message shown

/-! ## Packed content -/

/-- How packed content is unpacked. -/
structure Codecs where
  gunzip : Content → Content
  bunzip2 : Content → Content
  /-- The names in an archive. -/
  members : Content → Except FileFault (List String)
  /-- The file of a name in an archive, opened for reading: what it gives, told by what the archive
  gives then. -/
  member : String → Content → Except FileFault (Content → Content)

/-- Codecs that unpack nothing but what is empty. -/
def Codecs.empty : Codecs where
  gunzip content := if content.bytes.isEmpty then content else ⟨[], some .badGzip⟩
  bunzip2 content := ⟨[], some (if content.bytes.isEmpty then .truncated else .badBzip2)⟩
  members _ := .error .badArchive
  member _ _ := .error .badArchive

/-- The letters of a name without difference of case. -/
def lowerCase (s : String) : String :=
  String.ofList (s.toList.map Char.toLower)

/-- The name of a document. -/
def isDocumentName (name : String) : Bool :=
  ".xml".toList.isSuffixOf (lowerCase name).toList

/-- The name of a directory inside an archive. -/
def isDirectoryName (name : String) : Bool :=
  name.toList.getLast? == some '/'

/-- The member of an archive that is the document. -/
def archiveMember (shown : Option String) (names : List String) : Except OpenError String :=
  match names.filter fun name => !isDirectoryName name with
  | [] => .error (.emptyArchive shown)
  | first :: rest => .ok (((first :: rest).find? isDocumentName).getD first)

/-- The document in an archive, opened for reading. -/
def openArchive (c : Codecs) (shown : String) (archive : Content) :
    Except OpenError (Content → Content) :=
  match c.members archive with
  | .error fault => .error (.fault fault shown)
  | .ok names =>
    match archiveMember (some shown) names with
    | .error error => .error error
    | .ok name => (c.member name archive).mapError (.fault · shown)

/-! ## Documents -/

/-- The document at a place, opened for reading. -/
def openDocument {σ : Type} (d : Disk σ) (c : Codecs) (l : Location) (s : σ) :
    Except OpenError (σ → Content) :=
  match d.holds l s with
  | .error fault => .error (.fault fault l.text)
  | .ok false => .error (.missing l.text)
  | .ok true =>
    match d.source l s with
    | .error fault => .error (.fault fault l.text)
    | .ok content =>
      match lowerCase l.suffix with
      | ".gz" => .ok fun s => c.gunzip (content s)
      | ".bz2" => .ok fun s => c.bunzip2 (content s)
      | ".zip" => (openArchive c l.text (content s)).map fun unpack s => unpack (content s)
      | _ => .ok content

end Tabular
