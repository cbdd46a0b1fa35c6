import Mathlib.Algebra.Order.Group.Nat
import Mathlib.Algebra.Group.Nat.Even

/-!
# Integers in memory

The bytes of an integer of a given width in memory, in either byte order, and the
integer read back from them (`ByteOrder.get_put`). Two machines that
store integers in the same order may so exchange the memory of a record.
-/

/-- The order of the bytes of an integer in memory. -/
inductive ByteOrder
  /-- The least significant byte comes first. -/
  | little
  /-- The most significant byte comes first. -/
  | big
  deriving DecidableEq, Repr

namespace ByteOrder

/-- The last `w` digits of `n` to the base 256, from the lowest on. -/
def digits : ℕ → ℕ → List UInt8
  | 0, _ => []
  | w + 1, n => UInt8.ofNat n :: digits w (n / 256)

/-- The number with these digits to the base 256, from the lowest on. -/
def undigits : List UInt8 → ℕ
  | [] => 0
  | b :: bs => b.toNat + 256 * undigits bs

@[simp] theorem length_digits : ∀ w n : ℕ, (digits w n).length = w
  | 0, _ => rfl
  | w + 1, n => by rw [digits, List.length_cons, length_digits w]

/-- The digits of a number that fits give it back. -/
theorem undigits_digits {w n : ℕ} (h : n < 256 ^ w) : undigits (digits w n) = n := by
  induction w generalizing n with
  | zero =>
    rw [pow_zero] at h
    exact (Nat.lt_one_iff.mp h).symm
  | succ w ih =>
    have hdiv : n / 256 < 256 ^ w := by
      rw [Nat.div_lt_iff_lt_mul (by decide), ← pow_succ]
      exact h
    rw [digits, undigits, ih hdiv, UInt8.toNat_ofNat']
    omega

/-- The `w` bytes of an integer in memory. -/
def put (order : ByteOrder) (w n : ℕ) : List UInt8 :=
  match order with
  | .little => digits w n
  | .big => (digits w n).reverse

/-- The integer in some bytes of memory. -/
def get (order : ByteOrder) (bs : List UInt8) : ℕ :=
  match order with
  | .little => undigits bs
  | .big => undigits bs.reverse

@[simp] theorem length_put (order : ByteOrder) (w n : ℕ) : (order.put w n).length = w := by
  cases order with
  | little => exact length_digits w n
  | big => rw [put, List.length_reverse, length_digits]

/-- **An integer written in one byte order is read back in the same order.** -/
theorem get_put (order : ByteOrder) {w n : ℕ} (h : n < 256 ^ w) :
    order.get (order.put w n) = n := by
  cases order with
  | little => exact undigits_digits h
  | big => rw [put, get, List.reverse_reverse, undigits_digits h]

end ByteOrder
