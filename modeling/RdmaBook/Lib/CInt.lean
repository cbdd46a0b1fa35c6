import Mathlib.Algebra.Order.Ring.Int

/-!
# The 32-bit `int` of C

A counter of C is an integer read in two's complement at 32 bits: `cInt` brings
the result of an operation back into the range, and `cRem` is the remainder of
C99, which takes the sign of the dividend. That sign is the whole difference
between C and the integers of the mathematician here: a counter that has wrapped
is negative, so its remainder is never positive, while the residue class it
stands in is unchanged (`rem_eq_of_cRem_cInt`).
-/

/-- **Two's complement at 32 bits**: the representative of an integer modulo
`2 ^ 32` in the range of `int`. -/
def cInt (z : ℤ) : ℤ := (z + 2 ^ 31) % 2 ^ 32 - 2 ^ 31

/-- The remainder of C, which truncates the quotient towards zero. -/
def cRem (a b : ℤ) : ℤ := a.tmod b

theorem cInt_of_lt {z : ℤ} (h₀ : -2 ^ 31 ≤ z) (h : z < 2 ^ 31) : cInt z = z := by
  rw [cInt]
  omega

theorem cInt_natCast {n : ℕ} (h : n < 2 ^ 31) : cInt n = n :=
  cInt_of_lt (by omega) (by omega)

/-- Wrapping a count never makes it larger. -/
theorem cInt_natCast_le (n : ℕ) : cInt n ≤ n := by
  rw [cInt]
  omega

/-- Adding to a wrapped value wraps the sum. -/
@[simp] theorem cInt_cInt_add (a b : ℤ) : cInt (cInt a + b) = cInt (a + b) := by
  simp only [cInt]
  omega

/-- **A wrapped counter keeps its residue**, as long as the modulus divides
`2 ^ 32`: where C finds the remainder `31` modulo `32`, the count has it. -/
theorem rem_eq_of_cRem_cInt {n : ℕ} (h : cRem (cInt n) 32 = 31) : n % 32 = 31 := by
  rw [cRem, Int.tmod_eq_emod, cInt] at h
  split at h <;> omega

/-- Before the counter wraps the remainder of C is the ordinary one. -/
theorem cRem_cInt_of_lt {n : ℕ} (h : n < 2 ^ 31) : cRem (cInt n) 32 = (n % 32 : ℕ) := by
  rw [cInt_natCast h, cRem, Int.tmod_eq_emod_of_nonneg (by omega)]
  omega
