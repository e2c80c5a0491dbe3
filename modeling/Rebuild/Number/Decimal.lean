namespace Rebuild.Number

/-- The number `digits · 10 ^ exponent`. -/
structure Decimal where
  digits : Nat
  exponent : Int
  deriving DecidableEq, Repr

/-- How a decimal number is written: positionally when the exponent of its first
digit lies in the given range, else with an exponent of at least so many digits. -/
structure DecimalForm where
  positionalFrom : Int
  positionalBelow : Int
  exponentDigits : Nat

def padLeft (width : Nat) (cs : List Char) : List Char :=
  List.replicate (width - cs.length) '0' ++ cs

/-- Places a point behind the first digit, unless it is the only one. -/
def pointed : List Char → List Char
  | [] => []
  | [c] => [c]
  | c :: cs => c :: '.' :: cs

def DecimalForm.write (form : DecimalForm) (d : Decimal) : String :=
  let cs := Nat.toDigits 10 d.digits
  let first : Int := d.exponent + cs.length - 1
  if form.positionalFrom ≤ first ∧ first < form.positionalBelow then
    if 0 ≤ d.exponent then
      .ofList (cs ++ List.replicate d.exponent.toNat '0' ++ ['.', '0'])
    else if 0 ≤ first then
      .ofList (cs.take (first.toNat + 1) ++ '.' :: cs.drop (first.toNat + 1))
    else
      .ofList ('0' :: '.' :: List.replicate (-first - 1).toNat '0' ++ cs)
  else
    .ofList (pointed cs ++ 'e' :: (if first < 0 then '-' else '+') ::
      padLeft form.exponentDigits (Nat.toDigits 10 first.natAbs))

end Rebuild.Number
