import Tabular.Value.Basic

/-!
# Reading JSON text

A reader for JSON texts that keeps what a plain tree of strings would lose: the order of the keys,
and whether a number was written whole. A key written twice keeps its first place and takes its
last value.

* `Json.readString`: the rest of a quoted text, escapes resolved;
* `Json.readValue`: one value and what follows it, on a budget of steps;
* `Json.read?`: a text that holds exactly one value.
-/

namespace Tabular.Json

/-- A blank between tokens. -/
def isSpace (c : Char) : Bool :=
  c = ' ' || c = '\n' || c = '\r' || c = '\t'

/-- The characters after leading blanks. -/
def skipSpace (cs : List Char) : List Char :=
  cs.dropWhile isSpace

/-- The value of a hexadecimal digit. -/
def hexValue? (c : Char) : Option Nat :=
  let n := c.toNat
  if 48 ≤ n && n ≤ 57 then some (n - 48)
  else if 97 ≤ n && n ≤ 102 then some (n - 87)
  else if 65 ≤ n && n ≤ 70 then some (n - 55)
  else none

/-- The number that four hexadecimal digits spell. -/
def hexUnit? (a b c d : Char) : Option Nat := do
  let a ← hexValue? a
  let b ← hexValue? b
  let c ← hexValue? c
  let d ← hexValue? d
  pure (((a * 16 + b) * 16 + c) * 16 + d)

/-- The character of a one-letter escape. -/
def escaped? (c : Char) : Option Char :=
  if c = '"' || c = '\\' || c = '/' then some c
  else if c = 'n' then some '\n'
  else if c = 'r' then some '\r'
  else if c = 't' then some '\t'
  else if c = 'b' then some '\x08'
  else if c = 'f' then some '\x0c'
  else none

/-- The characters up to the closing quote, and what follows it. A high unit is held in `high`
until its low unit comes; a unit without its partner reads as the replacement character. -/
def readString (high : Option Nat) : List Char → Option (List Char × List Char)
  | '"' :: rest => some (if high.isSome then ['\ufffd'] else [], rest)
  | '\\' :: 'u' :: a :: b :: c :: d :: rest => do
    let n ← hexUnit? a b c d
    if 0xDC00 ≤ n && n < 0xE000 then
      match high with
      | some h =>
        let (more, after) ← readString none rest
        pure (Char.ofNat (0x10000 + (h - 0xD800) * 0x400 + (n - 0xDC00)) :: more, after)
      | none =>
        let (more, after) ← readString none rest
        pure ('\ufffd' :: more, after)
    else
      let lost := if high.isSome then ['\ufffd'] else []
      if 0xD800 ≤ n && n < 0xDC00 then
        let (more, after) ← readString (some n) rest
        pure (lost ++ more, after)
      else
        let (more, after) ← readString none rest
        pure (lost ++ Char.ofNat n :: more, after)
  | '\\' :: e :: rest => do
    let c ← escaped? e
    let (more, after) ← readString none rest
    pure ((if high.isSome then ['\ufffd'] else []) ++ c :: more, after)
  | c :: rest =>
    if c.toNat < 0x20 || c = '\\' then none
    else do
      let (more, after) ← readString none rest
      pure ((if high.isSome then ['\ufffd'] else []) ++ c :: more, after)
  | [] => none

/-- A decimal digit. -/
def isDigit (c : Char) : Bool :=
  48 ≤ c.toNat && c.toNat ≤ 57

/-- The number that decimal digits spell. -/
def digitsValue (cs : List Char) : Nat :=
  cs.foldl (fun n c => 10 * n + (c.toNat - 48)) 0

/-- The digits of an exponent with its sign, if one follows. -/
def readExponent (cs : List Char) : Option (Option Int × List Char) :=
  match cs with
  | c :: rest =>
    if c = 'e' || c = 'E' then
      let (negative, rest) :=
        match rest with
        | '-' :: more => (true, more)
        | '+' :: more => (false, more)
        | _ => (false, rest)
      let digits := rest.takeWhile isDigit
      if digits.isEmpty then none
      else
        let n : Int := digitsValue digits
        some (some (if negative then -n else n), rest.dropWhile isDigit)
    else some (none, cs)
  | [] => some (none, [])

/-- A number and what follows it. -/
def readNumber (cs : List Char) : Option (Value × List Char) := do
  let (negative, cs) :=
    match cs with
    | '-' :: rest => (true, rest)
    | _ => (false, cs)
  let whole := cs.takeWhile isDigit
  let rest := cs.dropWhile isDigit
  if whole.isEmpty then none
  else
    let (fraction, rest) :=
      match rest with
      | '.' :: more => (some (more.takeWhile isDigit), more.dropWhile isDigit)
      | _ => (none, rest)
    let (power, rest) ← readExponent rest
    match fraction, power with
    | none, none =>
      let n : Int := digitsValue whole
      pure (.int (if negative then -n else n), rest)
    | _, _ =>
      let places := fraction.getD []
      pure (.decimal ⟨negative, digitsValue (whole ++ places), power.getD 0 - places.length⟩, rest)

/-- What follows a fixed word. -/
def afterWord? (word cs : List Char) : Option (List Char) :=
  if word.isPrefixOf cs then some (cs.drop word.length) else none

mutual

/-- One value, and what follows it. -/
def readValue : Nat → List Char → Option (Value × List Char)
  | 0, _ => none
  | steps + 1, cs =>
    match skipSpace cs with
    | '"' :: rest => (readString none rest).map fun r => (.text (String.ofList r.1), r.2)
    | '[' :: rest =>
      match skipSpace rest with
      | ']' :: after => some (.list [], after)
      | _ => (readItems steps rest).map fun r => (.list r.1, r.2)
    | '\x7b' :: rest =>
      match skipSpace rest with
      | '\x7d' :: after => some (.map [], after)
      | _ => (readMembers steps rest).map fun r => (.map (Entries.ofPairs r.1), r.2)
    | 'n' :: rest => (afterWord? "ull".toList rest).map fun after => (.null, after)
    | 't' :: rest => (afterWord? "rue".toList rest).map fun after => (.bool true, after)
    | 'f' :: rest => (afterWord? "alse".toList rest).map fun after => (.bool false, after)
    | rest => readNumber rest

/-- The items of a list up to its closing bracket. -/
def readItems : Nat → List Char → Option (List Value × List Char)
  | 0, _ => none
  | steps + 1, cs => do
    let (v, rest) ← readValue steps cs
    match skipSpace rest with
    | ',' :: rest =>
      let (more, after) ← readItems steps rest
      pure (v :: more, after)
    | ']' :: after => pure ([v], after)
    | _ => none

/-- The members of a map up to its closing brace. -/
def readMembers : Nat → List Char → Option (List (String × Value) × List Char)
  | 0, _ => none
  | steps + 1, cs =>
    match skipSpace cs with
    | '"' :: rest => do
      let (key, rest) ← readString none rest
      match skipSpace rest with
      | ':' :: rest =>
        let (v, rest) ← readValue steps rest
        match skipSpace rest with
        | ',' :: rest =>
          let (more, after) ← readMembers steps rest
          pure ((String.ofList key, v) :: more, after)
        | '\x7d' :: after => pure ([(String.ofList key, v)], after)
        | _ => none
      | _ => none
    | _ => none

end

/-- The value of a text that holds exactly one. -/
def read? (s : String) : Option Value :=
  let cs := s.toList
  match readValue (cs.length + 1) cs with
  | some (v, rest) => if (skipSpace rest).isEmpty then some v else none
  | none => none

end Tabular.Json
