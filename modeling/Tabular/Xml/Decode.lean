import Tabular.Xml.Declaration

/-!
# From bytes to characters

The encoding of a document is told by its first bytes or, failing that, by its declaration; without
either it is UTF-8.

* `Decoded`: the readable characters, and whether something unreadable follows them;
* `utf8`, `utf16`, `oneByte`: the encodings;
* `decode`: a whole document, up to the first character that no document may hold.
-/

namespace Tabular.Xml

/-- The readable characters at the start of a document. -/
structure Decoded where
  chars : List Char
  /-- What follows cannot be read. -/
  broken : Bool
  deriving Repr, Inhabited, DecidableEq

/-- One more character in front. -/
def Decoded.cons (c : Char) (d : Decoded) : Decoded :=
  ⟨c :: d.chars, d.broken⟩

/-- A byte that continues a character. -/
def isTail (b : UInt8) : Bool :=
  b.toNat / 64 = 2

/-- The low six bits of a byte. -/
def tail (b : UInt8) : Nat :=
  b.toNat % 64

/-- Bytes in UTF-8. -/
def utf8 : List UInt8 → Decoded
  | [] => ⟨[], false⟩
  | a :: rest =>
    let n := a.toNat
    if n < 0x80 then (utf8 rest).cons (Char.ofNat n)
    else if 0xC2 ≤ n && n < 0xE0 then
      match rest with
      | b :: rest =>
        if isTail b then (utf8 rest).cons (Char.ofNat ((n - 0xC0) * 64 + tail b)) else ⟨[], true⟩
      | _ => ⟨[], true⟩
    else if 0xE0 ≤ n && n < 0xF0 then
      match rest with
      | b :: c :: rest =>
        let m := ((n - 0xE0) * 64 + tail b) * 64 + tail c
        if isTail b && isTail c && 0x800 ≤ m && (m < 0xD800 || 0xE000 ≤ m) then
          (utf8 rest).cons (Char.ofNat m)
        else ⟨[], true⟩
      | _ => ⟨[], true⟩
    else if 0xF0 ≤ n && n < 0xF5 then
      match rest with
      | b :: c :: d :: rest =>
        let m := (((n - 0xF0) * 64 + tail b) * 64 + tail c) * 64 + tail d
        if isTail b && isTail c && isTail d && 0x10000 ≤ m && m < 0x110000 then
          (utf8 rest).cons (Char.ofNat m)
        else ⟨[], true⟩
      | _ => ⟨[], true⟩
    else ⟨[], true⟩

/-- Two bytes as a unit of UTF-16. -/
def unit (bigEndian : Bool) (a b : UInt8) : Nat :=
  if bigEndian then a.toNat * 256 + b.toNat else b.toNat * 256 + a.toNat

/-- Bytes in UTF-16. -/
def utf16 (bigEndian : Bool) : List UInt8 → Decoded
  | [] => ⟨[], false⟩
  | [_] => ⟨[], true⟩
  | a :: b :: rest =>
    let n := unit bigEndian a b
    if n < 0xD800 || 0xE000 ≤ n then (utf16 bigEndian rest).cons (Char.ofNat n)
    else
      match rest with
      | c :: d :: rest =>
        let m := unit bigEndian c d
        if n < 0xDC00 && 0xDC00 ≤ m && m < 0xE000 then
          (utf16 bigEndian rest).cons
            (Char.ofNat (0x10000 + (n - 0xD800) * 0x400 + (m - 0xDC00)))
        else ⟨[], true⟩
      | _ => ⟨[], true⟩

/-- Bytes that stand for one character each, as long as they are below `bound`. -/
def oneByte (bound : Nat) : List UInt8 → Decoded
  | [] => ⟨[], false⟩
  | a :: rest =>
    if a.toNat < bound then (oneByte bound rest).cons (Char.ofNat a.toNat) else ⟨[], true⟩

/-- The encodings that a declaration may name. -/
def namedEncoding? (name : String) : Option (List UInt8 → Decoded) :=
  let word := String.ofList (name.toList.map Char.toLower)
  if ["utf-8", "utf8"].contains word then some utf8
  else if ["iso-8859-1", "iso8859-1", "iso_8859-1", "iso-latin-1", "latin1", "latin-1"].contains word
  then some (oneByte 256)
  else if ["us-ascii", "ascii"].contains word then some (oneByte 128)
  else none

/-- A document without a mark of its encoding. -/
def byDeclaration (bytes : List UInt8) : Decoded :=
  match Declaration.read ⟨1, (oneByte 256 (bytes.take 1024)).chars⟩ with
  | .ok (⟨some name, _⟩, _) =>
    match namedEncoding? name with
    | some encoding => encoding bytes
    | none => ⟨[], true⟩
  | _ => utf8 bytes

/-- The characters of a document in its encoding. -/
def charactersOf : List UInt8 → Decoded
  | 0xEF :: 0xBB :: 0xBF :: rest => utf8 rest
  | 0xFF :: 0xFE :: rest => utf16 false rest
  | 0xFE :: 0xFF :: rest => utf16 true rest
  | 0x3C :: 0x00 :: 0x3F :: 0x00 :: rest => utf16 false (0x3C :: 0x00 :: 0x3F :: 0x00 :: rest)
  | 0x00 :: 0x3C :: 0x00 :: 0x3F :: rest => utf16 true (0x00 :: 0x3C :: 0x00 :: 0x3F :: rest)
  | bytes => byDeclaration bytes

/-- The readable characters of a document. -/
def decode (bytes : List UInt8) : Decoded :=
  let d := charactersOf bytes
  let chars := d.chars.takeWhile isAllowed
  ⟨chars, d.broken || chars.length < d.chars.length⟩

end Tabular.Xml
