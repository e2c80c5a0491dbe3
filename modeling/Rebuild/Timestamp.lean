import Rebuild.Number.Rounding

namespace Rebuild

/-- A modification time: seconds since 1970, and nanoseconds past that second. -/
structure MTime where
  seconds : Int
  nanos : Nat
  deriving DecidableEq, Repr

/-- A point in time, in microseconds since 1970. -/
structure Timestamp where
  micros : Int
  deriving DecidableEq, Repr

namespace Timestamp

instance : LT Timestamp := ⟨fun a b => a.micros < b.micros⟩
instance : LE Timestamp := ⟨fun a b => a.micros ≤ b.micros⟩
instance (a b : Timestamp) : Decidable (a < b) := inferInstanceAs (Decidable (a.micros < b.micros))
instance (a b : Timestamp) : Decidable (a ≤ b) := inferInstanceAs (Decidable (a.micros ≤ b.micros))
instance : Max Timestamp := ⟨fun a b => if a ≤ b then b else a⟩
instance : Min Timestamp := ⟨fun a b => if a ≤ b then a else b⟩

@[simp] theorem lt_iff {a b : Timestamp} : a < b ↔ a.micros < b.micros := Iff.rfl
@[simp] theorem le_iff {a b : Timestamp} : a ≤ b ↔ a.micros ≤ b.micros := Iff.rfl

def latest : List (Option Timestamp) → Option Timestamp
  | [] => none
  | none :: rest => latest rest
  | some t :: rest =>
    match latest rest with
    | none => some t
    | some u => some (max t u)

/-- The first of the timestamps, if all are there and there is one. -/
def earliestOfAll : List (Option Timestamp) → Option Timestamp
  | [] => none
  | none :: _ => none
  | [some t] => some t
  | some t :: rest => (earliestOfAll rest).map (min t)

end Timestamp

namespace MTime

/-- Floating-point seconds are integers in this unit, a part of a second: the
places of a billionth, rounded to 53 bits, end here. -/
def unitsPerSecond : Nat := Nat.pow 2 82

/-- The billionth part of a second as a number of 53 bits. -/
def billionth : Int := 4835703278458517

example : Number.roundBits 53 (Number.roundDiv (2 ^ 82) (10 ^ 9)) = billionth := by decide

/-- The seconds of a modification time as a number of 53 bits: both parts are rounded,
and so is their sum. -/
def units (t : MTime) : Int :=
  Number.roundBits 53
    (Number.roundBits 53 (t.seconds * unitsPerSecond) + Number.roundBits 53 (billionth * t.nanos))

/-- The timestamp of a modification time: whole seconds, and the rest to the nearest
microsecond. -/
def timestamp (t : MTime) : Timestamp :=
  let whole := t.units.tdiv unitsPerSecond
  let rest := t.units.tmod unitsPerSecond
  ⟨whole * 1000000 + Number.roundDiv (Number.roundBits 53 (rest * 1000000)) unitsPerSecond⟩

example : (⟨1000, 0⟩ : MTime).timestamp = ⟨1000000000⟩ := by decide
example : (⟨-1, 999999999⟩ : MTime).timestamp = ⟨0⟩ := by decide

end MTime

end Rebuild
