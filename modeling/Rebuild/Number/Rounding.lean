namespace Rebuild.Number

/-- The integer nearest to a quotient; a half goes to the even neighbour. -/
def roundDiv (n : Int) (d : Nat) : Int :=
  let q := n / d
  let r := n % d
  if 2 * r < d then q
  else if d < 2 * r then q + 1
  else if q % 2 = 0 then q else q + 1

theorem roundDiv_near (n : Int) {d : Nat} (hd : 0 < d) :
    2 * (roundDiv n d * d - n) ≤ d ∧ 2 * (n - roundDiv n d * d) ≤ d := by
  have hdiv : (d : Int) * (n / d) + n % d = n := Int.mul_ediv_add_emod n d
  have hlow : 0 ≤ n % (d : Int) := Int.emod_nonneg n (by omega)
  have hhigh : n % (d : Int) < d := Int.emod_lt_of_pos n (by omega)
  have hcomm : (n / (d : Int)) * d = d * (n / d) := Int.mul_comm _ _
  have hsucc : (n / (d : Int) + 1) * d = d * (n / d) + d := by
    rw [Int.add_mul, hcomm, Int.one_mul]
  simp only [roundDiv]
  split
  · omega
  · split
    · omega
    · split <;> omega

theorem roundDiv_mul (q : Int) {d : Nat} (hd : 0 < d) : roundDiv (q * d) d = q := by
  have h : (d : Int) ≠ 0 := by omega
  simp [roundDiv, Int.mul_ediv_cancel _ h, Int.mul_emod_left]
  omega

/-- The nearest integer with at most `bits` significant binary digits. -/
def roundBits (bits : Nat) (n : Int) : Int :=
  let unit := Nat.pow 2 (Nat.log2 n.natAbs + 1 - bits)
  roundDiv n unit * unit

end Rebuild.Number
