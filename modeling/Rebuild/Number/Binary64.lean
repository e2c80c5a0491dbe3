import Rebuild.Number.Decimal

/-!
Floating-point numbers of 64 bits, kept by their bits, and the shortest decimal
number that reads back as one of them.
-/

namespace Rebuild.Number

/-- A floating-point number of 64 bits: a sign, 11 bits of exponent and 52 of
fraction. -/
structure Binary64 where
  bits : UInt64
  deriving DecidableEq, Repr

namespace Binary64

def isNegative (x : Binary64) : Bool :=
  x.bits.toNat / Nat.pow 2 63 % 2 = 1

def exponentField (x : Binary64) : Nat :=
  x.bits.toNat / Nat.pow 2 52 % Nat.pow 2 11

def fractionField (x : Binary64) : Nat :=
  x.bits.toNat % Nat.pow 2 52

def isFinite (x : Binary64) : Bool :=
  x.exponentField < Nat.pow 2 11 - 1

def isNaN (x : Binary64) : Bool :=
  !x.isFinite && x.fractionField != 0

def mantissa (x : Binary64) : Nat :=
  if x.exponentField = 0 then x.fractionField else x.fractionField + Nat.pow 2 52

def exponent (x : Binary64) : Int :=
  max x.exponentField 1 - 1075

def isZero (x : Binary64) : Bool :=
  x.isFinite && x.mantissa == 0

def eqInt (x : Binary64) (n : Int) : Bool :=
  let signed : Int := if x.isNegative then -(x.mantissa : Int) else x.mantissa
  x.isFinite &&
    if 0 ≤ x.exponent then signed * Nat.pow 2 x.exponent.toNat == n
    else signed == n * Nat.pow 2 (-x.exponent).toNat

/-- Two numbers have one value: the zeros agree, and nothing agrees with a NaN. -/
def eqValue (x y : Binary64) : Bool :=
  !x.isNaN && (x.bits == y.bits || (x.isZero && y.isZero))

/-- The magnitudes that round to one number, in quarters of its last place, with
the last place as a quotient: `value`, `low` and `high` stand for themselves times
`unitNum / unitDen`, and the ends belong to the interval when `closed`. -/
structure Interval where
  value : Nat
  low : Nat
  high : Nat
  closed : Bool
  unitNum : Nat
  unitDen : Nat

/-- The interval of a finite number; below a power of two the numbers lie twice as
dense. -/
def interval (x : Binary64) : Interval where
  value := 4 * x.mantissa
  low := 4 * x.mantissa - (if x.fractionField = 0 ∧ 1 < x.exponentField then 1 else 2)
  high := 4 * x.mantissa + 2
  closed := x.mantissa % 2 = 0
  unitNum := Nat.pow 2 (x.exponent - 2).toNat
  unitDen := Nat.pow 2 (2 - x.exponent).toNat

def firstExponent (num den : Nat) : Int :=
  if den ≤ num then (Nat.toDigits 10 (num / den)).length - 1
  else -((Nat.toDigits 10 ((den + num - 1) / num - 1)).length : Int)

/-- The decimal number with the given last exponent nearest to the value, if one of
its two neighbours on that grid reads back. -/
def Interval.onGrid (i : Interval) (exponent : Int) : Option Decimal :=
  let num := i.unitNum * Nat.pow 10 (-exponent).toNat
  let den := i.unitDen * Nat.pow 10 exponent.toNat
  let holds (n : Nat) : Bool :=
    if i.closed then i.low * num ≤ n * den && n * den ≤ i.high * num
    else i.low * num < n * den && n * den < i.high * num
  let below := i.value * num / den
  let above := below + 1
  let gapBelow := i.value * num - below * den
  let gapAbove := above * den - i.value * num
  let aboveNearer := gapAbove < gapBelow || (gapAbove == gapBelow && below % 2 == 1)
  if holds above && (aboveNearer || !holds below) then some ⟨above, exponent⟩
  else if holds below then some ⟨below, exponent⟩
  else none

/-- The first grid, from coarse to fine, that has a decimal number reading back. -/
def Interval.shortestFrom (i : Interval) (first : Int) : (count digits : Nat) → Decimal
  | 0, digits => ⟨i.value * i.unitNum / i.unitDen, digits⟩
  | count + 1, digits =>
    match i.onGrid (first - digits) with
    | some d => d
    | none => i.shortestFrom first count (digits + 1)

/-- Moves the zeros at the end of the digits into the exponent. -/
def trim : (fuel : Nat) → Decimal → Decimal
  | 0, d => d
  | fuel + 1, d =>
    if d.digits % 10 = 0 ∧ d.digits ≠ 0 then trim fuel ⟨d.digits / 10, d.exponent + 1⟩ else d

/-- The shortest decimal number that reads back as the magnitude of a finite
number; of two that are equally short, the nearer. -/
def shortest (x : Binary64) : Decimal :=
  if x.mantissa = 0 then ⟨0, 0⟩
  else
    let i := x.interval
    let first := firstExponent (i.value * i.unitNum) i.unitDen
    trim 17 (i.shortestFrom first 17 0)

def write (form : DecimalForm) (x : Binary64) : String :=
  if x.isNaN then "nan"
  else
    (if x.isNegative then "-" else "") ++
      if x.isFinite then form.write x.shortest else "inf"

end Binary64

end Rebuild.Number
