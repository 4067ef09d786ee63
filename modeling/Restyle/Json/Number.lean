import Restyle.Json

/-!
# Decimal Numbers

The number that a decimal literal stands for.

A literal without fraction and exponent is an integer as long as it fits. All others become doubles
by a fixed rule that is quick and not always the nearest double: the leading digits are gathered as
long as they fit an unsigned word, the digits after them only count towards the exponent, and the
word, converted to a double, is multiplied or divided once by a power of ten. Below the smallest power
the division is repeated. A result beyond the largest double is no number.

## Main definitions

* `Json.Literal`: The digits of a literal.
* `Json.Literal.number?`: The number a literal stands for.
-/

namespace Restyle.Json

/-- The parts of a decimal literal. The exponent has its own sign, true for minus. -/
structure Literal where
  negative : Bool
  whole : List Nat
  fraction : Option (List Nat) := none
  exponent : Option (Bool × List Nat) := none
  deriving DecidableEq, Repr

namespace Literal

/-- Append digits to a number as long as it stays below a bound; the digits left over follow. -/
def gather (bound : Nat) : Nat → List Nat → Nat × List Nat
  | n, [] => (n, [])
  | n, d :: ds => if n * 10 + d < bound then gather bound (n * 10 + d) ds else (n, d :: ds)

/-- A power of ten, as a double. -/
def powerOfTen (n : Nat) : Float :=
  Float.ofScientific 1 false n

/-- A double divided by a power of ten, in steps of the largest power that is a double. -/
def shrink (f : Float) (n : Nat) : Float :=
  if n ≤ 308 then f / powerOfTen n
  else if f == 0 then f
  else shrink (f / powerOfTen 308) (n - 308)
termination_by n

/-- A double times a power of ten, if that is finite. -/
def grow? (f : Float) (n : Nat) : Option Float :=
  if n ≤ 308 then
    let r := f * powerOfTen n
    if r.isInf then none else some r
  else if f == 0 then some f
  else none

/-- A significand scaled by a power of ten. -/
def scale? (significand : Nat) (exponent : Int) : Option Float :=
  let f := (UInt64.ofNat significand).toFloat
  if 0 ≤ exponent then grow? f exponent.toNat else some (shrink f exponent.natAbs)

/-- The double with a sign and an absolute value. -/
def signed (negative : Bool) (f : Float) : Number :=
  .double (if negative then -f else f).toBits

/-- The number of a literal with a fraction, an exponent or too many digits for a word. -/
def double? (l : Literal) (significand : Nat) (beyond : Nat) : Option Number :=
  let digits := l.fraction.getD []
  let (significand, rest) := gather UInt64.size significand digits
  let exponent : Int := beyond - (digits.length - rest.length : Nat)
  match l.exponent with
  | none => (scale? significand exponent).map (signed l.negative)
  | some (down, ds) =>
    match gather 0x80000000 0 ds with
    | (e, []) =>
      (scale? significand (if down then exponent - e else exponent + e)).map (signed l.negative)
    | _ => if significand ≠ 0 ∧ !down then none else some (signed l.negative 0)

/-- The number a literal stands for, if it is in range. -/
def number? (l : Literal) : Option Number :=
  let (significand, rest) := gather UInt64.size 0 l.whole
  if l.fraction = none ∧ l.exponent = none ∧ rest = [] then
    if !l.negative then some (.integer significand)
    else if significand = 0 ∨ 0x8000000000000000 < significand then
      some (signed true (UInt64.ofNat significand).toFloat)
    else some (.integer (-significand))
  else l.double? significand rest.length

end Literal

end Restyle.Json
