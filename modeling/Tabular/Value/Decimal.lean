/-!
# Decimal fractions

A number written with a point or an exponent stands for the nearest binary fraction of 53 digits,
and is shown by the shortest decimal that reads back as it.

* `Decimal`: the written number, sign, digits and exponent apart;
* `Binary`: the number it stands for, `mantissa * 2 ^ exponent` (`infinite` beyond the range);
* `Binary.ofDecimal`: rounding to the nearest, a half to the even neighbour;
* `Binary.shortest`: the fewest digits that read back, and of those the nearest;
* `Binary.toInt?`: the value, where it is whole;
* `Binary.text`: positional from `0.0001` up to sixteen digits, with an exponent elsewhere.
-/

namespace Tabular

/-- A written decimal: `digits * 10 ^ exponent`, with its sign. -/
structure Decimal where
  negative : Bool
  digits : Nat
  exponent : Int
  deriving Repr, Inhabited, DecidableEq

/-- A binary fraction `mantissa * 2 ^ exponent` with its sign, or an infinity. -/
inductive Binary where
  | finite (negative : Bool) (mantissa : Nat) (exponent : Int)
  | infinite (negative : Bool)
  deriving Repr, Inhabited, DecidableEq

/-- `a / b` to the nearest natural number, a half to the even one. -/
def roundedQuotient (a b : Nat) : Nat :=
  let q := a / b
  let twice := 2 * (a % b)
  if twice > b || (twice = b && q % 2 = 1) then q + 1 else q

/-- `base ^ power` as numerator and denominator. -/
def powerPair (base : Nat) (power : Int) : Nat × Nat :=
  if power < 0 then (1, Nat.pow base power.natAbs) else (Nat.pow base power.toNat, 1)

namespace Binary

/-- The least exponent of the format. -/
def leastExponent : Int := -1074

/-- The least mantissa that has all bits of the format. -/
def fullMantissa : Nat := 1 <<< 52

/-- The nearest binary fraction to `a / b`, both positive. -/
def ofQuotient (negative : Bool) (a b : Nat) : Binary :=
  let guess : Int := (a.log2 : Int) - (b.log2 : Int) - 52
  let scaled (e : Int) : Nat × Nat := let p := powerPair 2 e; (a * p.2, b * p.1)
  let e₀ := let s := scaled guess; if s.1 < fullMantissa * s.2 then guess - 1 else guess
  let e := max e₀ leastExponent
  let s := scaled e
  let m := roundedQuotient s.1 s.2
  let (m, e) := if m = 2 * fullMantissa then (fullMantissa, e + 1) else (m, e)
  if e > 971 then .infinite negative else .finite negative m e

/-- The binary fraction a written decimal stands for. -/
def ofDecimal (d : Decimal) : Binary :=
  let size : Int := d.exponent + (Nat.toDigits 10 d.digits).length
  if d.digits = 0 || size < -400 then .finite d.negative 0 leastExponent
  else if size > 400 then .infinite d.negative
  else
    let p := powerPair 10 d.exponent
    ofQuotient d.negative (d.digits * p.1) p.2

/-- The value of a whole number; none for a fraction or an infinity. -/
def toInt? : Binary → Option Int
  | .infinite _ => none
  | .finite negative m e =>
    let p := powerPair 2 e
    if (m * p.1) % p.2 = 0 then
      let n : Int := (m * p.1) / p.2
      some (if negative then -n else n)
    else none

/-- Twice the distance of `a / b` from `mantissa * 2 ^ exponent`, in units of the last binary
place, stays within the half unit that still rounds to it. -/
def readsBack (m : Nat) (e : Int) (a b : Nat) : Bool :=
  let p := powerPair 2 e
  let x := 4 * a * p.2
  let unit := b * p.1
  let below := if m = fullMantissa && e > leastExponent then 1 else 2
  if m % 2 = 0 then (4 * m - below) * unit ≤ x && x ≤ (4 * m + 2) * unit
  else (4 * m - below) * unit < x && x < (4 * m + 2) * unit

/-- The grid point with exponent `place` next to the number that reads back and is nearest. -/
def onGrid? (m : Nat) (e place : Int) : Option Nat :=
  let p := powerPair 2 e
  let g := powerPair 10 place
  let a := m * p.1 * g.2
  let b := p.2 * g.1
  let fits (n : Nat) : Bool := readsBack m e (n * g.1) g.2
  let low := a / b
  let near := roundedQuotient a b
  let far := if near = low then low + 1 else low
  if fits near then some near else if fits far then some far else none

/-- The shortest digits and the exponent of the last one, from the coarsest grid down. -/
def shortestFrom (m : Nat) (e : Int) (place : Int) : Nat → Nat × Int
  | 0 => (m, 0)
  | steps + 1 =>
    match onGrid? m e place with
    | some n => if n = 0 then shortestFrom m e (place - 1) steps else (n, place)
    | none => shortestFrom m e (place - 1) steps

/-- The digits of a positive number, and how many of them stand before the point. -/
def shortest (m : Nat) (e : Int) : List Char × Int :=
  let p := powerPair 2 e
  let whole := (m * p.1) / p.2
  let top : Int :=
    if whole > 0 then (Nat.toDigits 10 whole).length
    else -((Nat.toDigits 10 (p.2 / (m * p.1))).length : Int) + 1
  let (n, place) := shortestFrom m e top 20
  let digits := Nat.toDigits 10 n
  (((digits.reverse.dropWhile (· = '0')).reverse), place + digits.length)

/-- The text of a number. -/
def text : Binary → String
  | .infinite negative => if negative then "-inf" else "inf"
  | .finite negative m e =>
    let sign := if negative then ['-'] else []
    let body :=
      if m = 0 then ['0', '.', '0']
      else
        let (digits, point) := shortest m e
        let count : Int := digits.length
        if -4 < point && point ≤ 16 then
          if point ≤ 0 then '0' :: '.' :: List.replicate point.natAbs '0' ++ digits
          else if count ≤ point then digits ++ List.replicate (point - count).toNat '0' ++ ['.', '0']
          else digits.take point.toNat ++ '.' :: digits.drop point.toNat
        else
          let power := point - 1
          let powerDigits := Nat.toDigits 10 power.natAbs
          let padded := if powerDigits.length < 2 then '0' :: powerDigits else powerDigits
          let fraction := if digits.length > 1 then '.' :: digits.drop 1 else []
          digits.take 1 ++ fraction ++ 'e' :: (if power < 0 then '-' else '+') :: padded
    String.ofList (sign ++ body)

end Binary

/-- The text of a written decimal: that of the number it stands for. -/
def Decimal.text (d : Decimal) : String :=
  (Binary.ofDecimal d).text

/-- The value of a written decimal that stands for a whole number. -/
def Decimal.toInt? (d : Decimal) : Option Int :=
  (Binary.ofDecimal d).toInt?

end Tabular
