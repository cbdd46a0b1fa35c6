import Mathlib.Data.Int.GCD
import Mathlib.Tactic.Ring

/-!
# Residues met by an arithmetic progression

One counter numbers the turns of `n` players who take turns in a fixed order, so
player `q` gets the numbers `q, n + q, 2 * n + q, …`. Which of them meet a given
residue modulo `m` is a question about `gcd n m` alone: either none does
(`dvd_of_mod_eq`), or one does in every `m` consecutive turns of the player
(`exists_window_mod_eq`).
-/

namespace Residue

/-- **A player who meets the last residue once** has a place that the common
divisor allows. -/
theorem dvd_of_mod_eq {n m q j : ℕ} (hm : 0 < m) (h : (j * n + q) % m = m - 1) :
    Nat.gcd n m ∣ q + 1 := by
  have hmod : (j * n + q + 1) % m = 0 := by
    rw [Nat.add_mod, h]
    rcases Nat.lt_or_ge 1 m with hlt | hle
    · rw [Nat.mod_eq_of_lt hlt, Nat.sub_add_cancel hm, Nat.mod_self]
    · obtain rfl : m = 1 := by omega
      rfl
  have hdvd : Nat.gcd n m ∣ j * n + (q + 1) :=
    (Nat.gcd_dvd_right n m).trans (Nat.dvd_of_mod_eq_zero hmod)
  exact (Nat.dvd_add_right ((Nat.gcd_dvd_left n m).mul_left j)).mp hdvd

/-- **A player whose place the common divisor allows meets the last residue in
every `m` consecutive turns.** -/
theorem exists_window_mod_eq {n m q : ℕ} (hm : 0 < m) (h : Nat.gcd n m ∣ q + 1) (j₀ : ℕ) :
    ∃ j, j₀ ≤ j ∧ j < j₀ + m ∧ (j * n + q) % m = m - 1 := by
  obtain ⟨x, y, hxy⟩ := Int.gcd_dvd_iff (a := n) (b := m) (n := q + 1) |>.mp (by simpa using h)
  have hm' : (0 : ℤ) < m := by exact_mod_cast hm
  -- the turn of the window in the residue class of `-x`
  obtain ⟨t, ht⟩ : ∃ t : ℕ, (t : ℤ) = (-x - j₀) % m :=
    ⟨((-x - j₀) % m).toNat, Int.toNat_of_nonneg (Int.emod_nonneg _ hm'.ne')⟩
  have htm : t < m := by
    have := Int.emod_lt_of_pos (-x - j₀) hm'
    omega
  refine ⟨j₀ + t, by omega, by omega, ?_⟩
  have hdvd : (m : ℤ) ∣ (j₀ + t : ℕ) * n + q + 1 := by
    obtain ⟨z, hz⟩ : (m : ℤ) ∣ (-x - j₀) - t := by
      rw [ht]
      exact Int.dvd_self_sub_emod
    refine ⟨y - z * n, ?_⟩
    push_cast at hxy ⊢
    have hsum : (j₀ : ℤ) + t = -x - m * z := by omega
    rw [hsum, add_assoc, hxy]
    ring
  have hdvd' : m ∣ (j₀ + t) * n + q + 1 := by exact_mod_cast hdvd
  obtain ⟨c, hc⟩ := hdvd'
  have hcpos : 0 < c := Nat.pos_of_ne_zero fun h0 => by rw [h0, Nat.mul_zero] at hc; omega
  obtain ⟨c, rfl⟩ := Nat.exists_eq_succ_of_ne_zero hcpos.ne'
  have hval : (j₀ + t) * n + q = (m - 1) + m * c := by
    rw [Nat.mul_succ] at hc
    omega
  rw [hval, Nat.add_mul_mod_self_left, Nat.mod_eq_of_lt (by omega)]

end Residue
