import Mathlib.Data.List.GetD
import Mathlib.Data.List.TakeDrop
import Mathlib.Tactic.Ring

/-!
# Windows of a byte stream

A stream carries a list that is known in advance, the *script* of its writer. What
is in flight is a window of the script, from the place the reader has reached to
the place the writer has reached: writing moves its end, reading moves its start,
and neither depends on how the bytes are cut into pieces.

A message that is copied in pieces is *overlaid* on a buffer: each piece is a
window of the message, written at the place it stands at.
-/

namespace Stream

variable {α : Type*} {l : List α} {a b c n : ℕ}

/-- The part of a list from place `a` to before place `b`. -/
def window (l : List α) (a b : ℕ) : List α := (l.drop a).take (b - a)

@[simp] theorem window_self (l : List α) (a : ℕ) : window l a a = [] := by
  rw [window, Nat.sub_self, List.take_zero]

theorem length_window (hb : b ≤ l.length) : (window l a b).length = b - a := by
  rw [window, List.length_take, List.length_drop]
  omega

theorem length_window_le (l : List α) (a b : ℕ) : (window l a b).length ≤ b - a :=
  List.length_take_le _ _

/-- Adjacent windows. -/
theorem window_append (hab : a ≤ b) (hbc : b ≤ c) :
    window l a b ++ window l b c = window l a c := by
  have hlen : c - a = (b - a) + (c - b) := by omega
  have hdrop : l.drop b = (l.drop a).drop (b - a) := by
    rw [List.drop_drop]
    congr 1
    omega
  rw [window, window, window, hlen, List.take_add, hdrop]

/-- **Writing**: the next `n` elements of the script go to the end of the window. -/
theorem window_write (hab : a ≤ b) : window l a b ++ (l.drop b).take n = window l a (b + n) := by
  have hnext : (l.drop b).take n = window l b (b + n) := by
    rw [window, Nat.add_sub_cancel_left]
  rw [hnext, window_append hab (Nat.le_add_right b n)]

/-- **Reading**: what is taken off a window is the window before it. -/
theorem take_window (h : a + n ≤ b) : (window l a b).take n = window l a (a + n) := by
  rw [window, window, List.take_take, Nat.add_sub_cancel_left, Nat.min_eq_left (by omega)]

/-- What is left of a window is the window after it. -/
theorem drop_window : (window l a b).drop n = window l (a + n) b := by
  rw [window, window, List.drop_take, List.drop_drop]
  congr 1
  omega

/-- A window of a window. -/
theorem window_window {i : ℕ} (h : a + i + n ≤ b) :
    window (window l a b) i (i + n) = window l (a + i) (a + i + n) := by
  rw [window, Nat.add_sub_cancel_left, drop_window, take_window h]

/-- The window of a list that stands in the middle of another. -/
theorem window_middle (p m s : List α) :
    window (p ++ m ++ s) p.length (p.length + m.length) = m := by
  rw [window, Nat.add_sub_cancel_left, List.append_assoc, List.drop_left, List.take_left]

/-- A window of the part of a list behind `p`. -/
theorem window_append_right (p s : List α) (a b : ℕ) :
    window (p ++ s) (p.length + a) (p.length + b) = window s a b := by
  rw [window, window, List.drop_append, List.drop_eq_nil_of_le (Nat.le_add_right _ _),
    List.nil_append, Nat.add_sub_cancel_left, Nat.add_sub_add_left]

/-- A place in the middle of a list is a place of the part that stands there. -/
theorem drop_take_middle {p m s : List α} {k : ℕ} (h : k + n ≤ m.length) :
    ((p ++ m ++ s).drop (p.length + k)).take n = (m.drop k).take n := by
  rw [List.append_assoc, List.drop_append, List.drop_eq_nil_of_le (Nat.le_add_right _ k),
    Nat.add_sub_cancel_left, List.nil_append, List.drop_append_of_le_length (by omega),
    List.take_append_of_le_length (by rw [List.length_drop]; omega)]

/-! ### Overlays -/

/-- The list with `d` written over it at place `off`. -/
def overlay (m : List α) (off : ℕ) (d : List α) : List α :=
  m.take off ++ d ++ m.drop (off + d.length)

variable {m d : List α} {off : ℕ}

/-- Writing inside a buffer keeps its length. -/
theorem length_overlay (h : off + d.length ≤ m.length) : (overlay m off d).length = m.length := by
  rw [overlay, List.length_append, List.length_append, List.length_take, List.length_drop]
  omega

/-- What is written at the start of a buffer is its beginning. -/
theorem take_overlay_zero (m d : List α) : (overlay m 0 d).take d.length = d := by
  rw [overlay, List.take_zero, List.nil_append, List.take_left]

/-- The end of what is written is read back behind its beginning. -/
theorem window_overlay_append {x y : List α} (h : off ≤ m.length) :
    window (overlay m off (x ++ y)) (off + x.length) (off + x.length + y.length) = y := by
  have hlen : (m.take off ++ x).length = off + x.length := by
    rw [List.length_append, List.length_take_of_le h]
  rw [overlay, ← List.append_assoc, ← hlen, window_middle]

/-- **Elsewhere nothing changes.** -/
theorem window_overlay_disjoint (h : off + d.length ≤ m.length)
    (hab : b ≤ off ∨ off + d.length ≤ a) :
    window (overlay m off d) a b = window m a b := by
  have htake : (m.take off).length = off := List.length_take_of_le (by omega)
  rcases hab with hb | ha
  · -- in front of what is written
    refine List.ext_getElem? fun k => ?_
    rw [window, window, List.getElem?_take, List.getElem?_take]
    split
    · rw [List.getElem?_drop, List.getElem?_drop, overlay, List.append_assoc,
        List.getElem?_append_left (by omega), List.getElem?_take_of_lt (by omega)]
    · rfl
  · -- behind it
    have hlen : (m.take off ++ d).length = off + d.length := by rw [List.length_append, htake]
    have hdrop : (overlay m off d).drop a = m.drop a := by
      rw [overlay, List.drop_append, List.drop_eq_nil_of_le (hlen.trans_le ha), List.nil_append,
        hlen, List.drop_drop, Nat.add_sub_cancel' ha]
    rw [window, window, hdrop]

/-- Slots of one size do not overlap. -/
theorem slot_disjoint {i j w : ℕ} (h : i ≠ j) : i * w + w ≤ j * w ∨ j * w + w ≤ i * w := by
  rw [← Nat.succ_mul, ← Nat.succ_mul]
  rcases Nat.lt_or_gt_of_ne h with hlt | hgt
  · exact Or.inl (Nat.mul_le_mul_right _ hlt)
  · exact Or.inr (Nat.mul_le_mul_right _ hgt)

/-- A slot is inside an array of them. -/
theorem slot_le {i k w : ℕ} (h : i < k) : i * w + w ≤ k * w := by
  rw [← Nat.succ_mul]
  exact Nat.mul_le_mul_right _ h

/-- **A slot keeps its window** when another one is written. -/
theorem window_overlay_slot {i j w k c : ℕ} (hne : i ≠ j) (hj : j < k) (hm : m.length = k * w)
    (hd : d.length ≤ w) (hc : c ≤ w) :
    window (overlay m (j * w) d) (i * w + a) (i * w + c) = window m (i * w + a) (i * w + c) := by
  have hle := slot_le (w := w) hj
  refine window_overlay_disjoint (by omega) ?_
  rcases slot_disjoint (w := w) hne with hlt | hlt
  · exact Or.inl (by omega)
  · exact Or.inr (by omega)

/-- Writing a window of a list over itself changes nothing. -/
theorem overlay_window_self (hle : off ≤ b) (hb : b ≤ l.length) :
    overlay l off (window l off b) = l := by
  have hmid : l.drop off = window l off b ++ l.drop b := by
    have hsplit := List.take_append_drop (b - off) (l.drop off)
    rw [List.drop_drop, Nat.add_sub_cancel' hle] at hsplit
    exact hsplit.symm
  rw [overlay, length_window hb, Nat.add_sub_cancel' hle, List.append_assoc, ← hmid,
    List.take_append_drop]

/-- **Copying in pieces**: where a buffer holds a list up to the place a window of it
is written at, it holds the list up to the end of the window afterwards. -/
theorem take_overlay (hoff : off ≤ m.length) (hb : b ≤ l.length) (hle : off ≤ b)
    (hm : m.take off = l.take off) : (overlay m off (window l off b)).take b = l.take b := by
  have hlen : (m.take off ++ window l off b).length = b := by
    rw [List.length_append, List.length_take, length_window hb]
    omega
  have hsplit : l.take b = l.take off ++ window l off b := by
    rw [window, ← List.take_add, Nat.add_sub_cancel' hle]
  rw [overlay, List.take_left' hlen, hm, hsplit]

/-! ### A buffer that is filled from the front -/

/-- The first `n` elements of a list, and `z` in place of the others. -/
def filledTo (z : α) (l : List α) (n : ℕ) : List α := l.take n ++ List.replicate (l.length - n) z

variable {z : α}

theorem filledTo_zero : filledTo z l 0 = List.replicate l.length z := rfl

theorem filledTo_length : filledTo z l l.length = l := by
  rw [filledTo, List.take_length, Nat.sub_self, List.replicate_zero, List.append_nil]

/-- **Filling on**: the next window of the list is written behind what is there. -/
theorem overlay_filledTo (hab : a ≤ b) (hb : b ≤ l.length) :
    overlay (filledTo z l a) a (window l a b) = filledTo z l b := by
  have htake : (l.take a).length = a := List.length_take_of_le (hab.trans hb)
  have hdrop : (filledTo z l a).drop b = List.replicate (l.length - b) z := by
    rw [filledTo, List.drop_append, List.drop_eq_nil_of_le (htake.le.trans hab), List.nil_append,
      List.drop_replicate, htake]
    congr 1
    omega
  have hsplit : l.take a ++ window l a b = l.take b := by
    rw [window, ← List.take_add, Nat.add_sub_cancel' hab]
  rw [overlay, length_window hb, Nat.add_sub_cancel' hab, hdrop, filledTo, List.take_left' htake,
    hsplit]
  rfl

/-- **A window that is settled**: where only `z` is still to come, the window of the
buffer is that of the list. -/
theorem window_filledTo (h : ∀ i < b, a ≤ i → n ≤ i → l.getD i z = z) :
    window (filledTo z l n) a b = window l a b := by
  refine List.ext_getElem? fun k => ?_
  rw [window, window, List.getElem?_take, List.getElem?_take]
  split
  · rename_i hk
    rw [List.getElem?_drop, List.getElem?_drop, filledTo, List.getElem?_append, List.length_take,
      List.getElem?_take, List.getElem?_replicate]
    by_cases hn : a + k < n
    · by_cases hl : a + k < l.length
      · rw [if_pos (by omega), if_pos hn]
      · rw [if_neg (by omega), if_neg (by omega), List.getElem?_eq_none (Nat.not_lt.mp hl)]
    · have hz := h (a + k) (by omega) (Nat.le_add_right a k) (Nat.not_lt.mp hn)
      rw [if_neg (by omega)]
      by_cases hl : a + k < l.length
      · rw [if_pos (by omega), List.getElem?_eq_getElem hl, ← hz, List.getD_eq_getElem _ _ hl]
      · rw [if_neg (by omega), List.getElem?_eq_none (Nat.not_lt.mp hl)]
  · rfl

/-- Words that are read one by one make up the window they cover. -/
theorem flatten_windows {ws : List (List α)} {w : ℕ} : ∀ {x : ℕ},
    (∀ j v, ws[j]? = some v → v = window l (x + w * j) (x + w * j + w)) →
      ws.flatten = window l x (x + w * ws.length) := by
  induction ws with
  | nil =>
    intro x _
    rw [List.length_nil, Nat.mul_zero, Nat.add_zero, window_self, List.flatten_nil]
  | cons v ws ih =>
    intro x h
    have hv : v = window l x (x + w) := h 0 v rfl
    have hws : ws.flatten = window l (x + w) (x + w + w * ws.length) := by
      refine ih fun j u hu => ?_
      have hj := h (j + 1) u hu
      rwa [show x + w * (j + 1) = x + w + w * j by ring] at hj
    rw [List.flatten_cons, hv, hws, window_append (Nat.le_add_right _ _) (Nat.le_add_right _ _),
      List.length_cons]
    congr 1
    ring

end Stream
