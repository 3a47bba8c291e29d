/-!
# SHA-256

The digest of messages of whole bytes.

* `Sha256.pad`: the message with its length behind it, in whole blocks;
* `Sha256.schedule`, `Sha256.compress`: one block;
* `Sha256.digest`: the digest in hexadecimal digits;
* `Sha256.ofChunks`: the digest of a file that is read piece by piece.
-/

namespace Tabular.Sha256

/-- The eight words between two blocks. -/
structure Words where
  a : UInt32
  b : UInt32
  c : UInt32
  d : UInt32
  e : UInt32
  f : UInt32
  g : UInt32
  h : UInt32
  deriving Repr, DecidableEq, Inhabited

/-- The words before the first block. -/
def start : Words :=
  ⟨0x6a09e667, 0xbb67ae85, 0x3c6ef372, 0xa54ff53a, 0x510e527f, 0x9b05688c, 0x1f83d9ab, 0x5be0cd19⟩

/-- The constants of the sixty-four rounds. -/
def constants : Array UInt32 := #[
  0x428a2f98, 0x71374491, 0xb5c0fbcf, 0xe9b5dba5, 0x3956c25b, 0x59f111f1, 0x923f82a4, 0xab1c5ed5,
  0xd807aa98, 0x12835b01, 0x243185be, 0x550c7dc3, 0x72be5d74, 0x80deb1fe, 0x9bdc06a7, 0xc19bf174,
  0xe49b69c1, 0xefbe4786, 0x0fc19dc6, 0x240ca1cc, 0x2de92c6f, 0x4a7484aa, 0x5cb0a9dc, 0x76f988da,
  0x983e5152, 0xa831c66d, 0xb00327c8, 0xbf597fc7, 0xc6e00bf3, 0xd5a79147, 0x06ca6351, 0x14292967,
  0x27b70a85, 0x2e1b2138, 0x4d2c6dfc, 0x53380d13, 0x650a7354, 0x766a0abb, 0x81c2c92e, 0x92722c85,
  0xa2bfe8a1, 0xa81a664b, 0xc24b8b70, 0xc76c51a3, 0xd192e819, 0xd6990624, 0xf40e3585, 0x106aa070,
  0x19a4c116, 0x1e376c08, 0x2748774c, 0x34b0bcb5, 0x391c0cb3, 0x4ed8aa4a, 0x5b9cca4f, 0x682e6ff3,
  0x748f82ee, 0x78a5636f, 0x84c87814, 0x8cc70208, 0x90befffa, 0xa4506ceb, 0xbef9a3f7, 0xc67178f2]

/-- A word turned to the right. -/
def rotate (x : UInt32) (n : UInt32) : UInt32 :=
  (x >>> n) ||| (x <<< (32 - n))

/-- The mixing function of the schedule for words fifteen places back. -/
def sigma0 (x : UInt32) : UInt32 :=
  rotate x 7 ^^^ rotate x 18 ^^^ (x >>> 3)

/-- The mixing function of the schedule for words two places back. -/
def sigma1 (x : UInt32) : UInt32 :=
  rotate x 17 ^^^ rotate x 19 ^^^ (x >>> 10)

/-- The mixing function of the rounds for the first word. -/
def sum0 (x : UInt32) : UInt32 :=
  rotate x 2 ^^^ rotate x 13 ^^^ rotate x 22

/-- The mixing function of the rounds for the fifth word. -/
def sum1 (x : UInt32) : UInt32 :=
  rotate x 6 ^^^ rotate x 11 ^^^ rotate x 25

/-- The last eight bytes of a padded message of `n` bytes. -/
def lengthBytes (n : Nat) : List UInt8 :=
  [56, 48, 40, 32, 24, 16, 8, 0].map fun shift => UInt8.ofNat ((8 * n) >>> shift % 256)

/-- The message with a mark, zeros and its length behind it. -/
def pad (message : ByteArray) : ByteArray :=
  let n := message.size
  let zeros := (119 - n % 64) % 64
  message ++ ⟨(0x80 :: List.replicate zeros 0 ++ lengthBytes n).toArray⟩

/-- The word at a place, its highest byte first. -/
def wordAt (message : ByteArray) (i : Nat) : UInt32 :=
  let byte (k : Nat) : UInt32 := (message.get! (i + k)).toUInt32
  (byte 0 <<< 24) ||| (byte 1 <<< 16) ||| (byte 2 <<< 8) ||| byte 3

/-- The words of the sixty-four rounds of the block at a place. -/
def schedule (message : ByteArray) (i : Nat) : Array UInt32 :=
  let first := (Array.range 16).map fun k => wordAt message (i + 4 * k)
  (List.range 48).foldl
    (fun w k => w.push (w[k]! + sigma0 w[k + 1]! + w[k + 9]! + sigma1 w[k + 14]!)) first

/-- One round. -/
def round (w : Array UInt32) (s : Words) (k : Nat) : Words :=
  let choice := (s.e &&& s.f) ^^^ ((~~~ s.e) &&& s.g)
  let majority := (s.a &&& s.b) ^^^ (s.a &&& s.c) ^^^ (s.b &&& s.c)
  let t1 := s.h + sum1 s.e + choice + constants[k]! + w[k]!
  let t2 := sum0 s.a + majority
  ⟨t1 + t2, s.a, s.b, s.c, s.d + t1, s.e, s.f, s.g⟩

/-- The words after the block at a place. -/
def compress (message : ByteArray) (s : Words) (i : Nat) : Words :=
  let w := schedule message i
  let t := (List.range 64).foldl (round w) s
  ⟨s.a + t.a, s.b + t.b, s.c + t.c, s.d + t.d, s.e + t.e, s.f + t.f, s.g + t.g, s.h + t.h⟩

/-- A word in eight hexadecimal digits. -/
def hexWord (x : UInt32) : List Char :=
  [28, 24, 20, 16, 12, 8, 4, 0].map fun shift => Nat.digitChar (x.toNat >>> shift % 16)

/-- The digest of a message in hexadecimal digits. -/
def digest (message : ByteArray) : String :=
  let padded := pad message
  let s := (List.range (padded.size / 64)).foldl (fun s k => compress padded s (64 * k)) start
  String.ofList ([s.a, s.b, s.c, s.d, s.e, s.f, s.g, s.h].flatMap hexWord)

/-- The digest of a file that is read in pieces of a size: pieces of no size read nothing, minus
one reads everything at once, and no other negative size can be read. -/
def ofChunks (size : Int) (message : ByteArray) : Option String :=
  if size < -1 then none
  else if size = 0 then some (digest ByteArray.empty)
  else some (digest message)

end Tabular.Sha256
