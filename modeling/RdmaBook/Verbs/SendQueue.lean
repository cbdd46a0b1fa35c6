import Mathlib.Data.List.Range
import RdmaBook.Verbs.Basic

/-!
# A send queue with selective signaling

A send queue remembers the requests posted on it in order, how many of them the
NIC has completed – always a prefix, since the requests of one queue pair
complete in post order – and how many slots `ibv_poll_cq` has given back. A slot
is *held* from the post until the completion of that request, or of a later
request of the same queue pair, is polled: unsignaled requests produce no
completion of their own, so only a signaled one frees them.

Everything is read off the list `RdmaBook.SendQueue.signaledIn`, the signaled
requests between two places of the queue: those between the retired and the
completed place are due in the completion queue, and those between the retired
place and the end are not polled yet.
-/

namespace RdmaBook

/-- A send queue: the requests posted so far, the number the NIC has completed,
the number of slots given back, and whether a request has failed. -/
structure SendQueue where
  wrs : List SendWr
  done : ℕ
  retired : ℕ
  failed : Bool
  deriving DecidableEq

namespace SendQueue

/-- The queue of a queue pair nothing has been posted on. -/
def empty : SendQueue := ⟨[], 0, 0, false⟩

/-- The slots held: posted and not given back. -/
def held (sq : SendQueue) : ℕ := sq.wrs.length - sq.retired

/-- Whether the request at an index is signaled. -/
def signaledAt (sq : SendQueue) (i : ℕ) : Bool := (sq.wrs[i]?).any (·.signaled)

/-- The indices of the signaled requests from `a` to before `b`. -/
def signaledIn (sq : SendQueue) (a b : ℕ) : List ℕ :=
  (List.range' a (b - a)).filter sq.signaledAt

/-- The signaled requests completed and not polled: the content of the
completion queue for this queue pair. -/
def due (sq : SendQueue) : List ℕ := sq.signaledIn sq.retired sq.done

/-- The number of signaled requests posted and not polled. -/
def unpolled (sq : SendQueue) : ℕ := (sq.signaledIn sq.retired sq.wrs.length).length

/-- Post one request. -/
def post (sq : SendQueue) (wr : SendWr) : SendQueue := { sq with wrs := sq.wrs ++ [wr] }

/-- The completion of the request at index `i` has been polled. -/
def retire (sq : SendQueue) (i : ℕ) : SendQueue := { sq with retired := i + 1 }

theorem signaledAt_post_of_lt {sq : SendQueue} {wr : SendWr} {i : ℕ} (h : i < sq.wrs.length) :
    (sq.post wr).signaledAt i = sq.signaledAt i := by
  simp [signaledAt, post, List.getElem?_append_left h]

@[simp] theorem signaledAt_post_length (sq : SendQueue) (wr : SendWr) :
    (sq.post wr).signaledAt sq.wrs.length = wr.signaled := by
  simp [signaledAt, post]

theorem mem_signaledIn {sq : SendQueue} {a b i : ℕ} :
    i ∈ sq.signaledIn a b ↔ (a ≤ i ∧ i < b) ∧ sq.signaledAt i = true := by
  rw [signaledIn, List.mem_filter, List.mem_range'_1]
  constructor
  · rintro ⟨⟨h₁, h₂⟩, h₃⟩
    exact ⟨⟨h₁, by omega⟩, h₃⟩
  · rintro ⟨⟨h₁, h₂⟩, h₃⟩
    exact ⟨⟨h₁, by omega⟩, h₃⟩

/-- The indices of two adjacent ranges. -/
theorem signaledIn_append {sq : SendQueue} {a b c : ℕ} (hab : a ≤ b) (hbc : b ≤ c) :
    sq.signaledIn a b ++ sq.signaledIn b c = sq.signaledIn a c := by
  have h : c - a = (b - a) + (c - b) := by omega
  rw [signaledIn, signaledIn, signaledIn, ← List.filter_append, h, ← List.range'_append_1]
  rw [show a + (b - a) = b by omega]

theorem signaledIn_succ {sq : SendQueue} {a b : ℕ} (hab : a ≤ b) :
    sq.signaledIn a (b + 1) =
      sq.signaledIn a b ++ if sq.signaledAt b then [b] else [] := by
  rw [← signaledIn_append hab (Nat.le_succ b)]
  congr 1
  rw [signaledIn, show b + 1 - b = 1 by omega]
  cases h : sq.signaledAt b <;> simp [h]

theorem signaledIn_post {sq : SendQueue} {wr : SendWr} {a b : ℕ} (hb : b ≤ sq.wrs.length) :
    (sq.post wr).signaledIn a b = sq.signaledIn a b := by
  refine List.filter_congr fun i hi => ?_
  rw [List.mem_range'_1] at hi
  exact signaledAt_post_of_lt (by omega)

/-- **A range made of windows with a signaled request each** has a signaled
request for each of them. -/
theorem le_length_signaledIn {sq : SendQueue} {a c w : ℕ}
    (hw : ∀ b, a ≤ b → b + w ≤ c → ∃ i, b ≤ i ∧ i < b + w ∧ sq.signaledAt i = true) {m : ℕ}
    (hm : a + m * w ≤ c) : m ≤ (sq.signaledIn a (a + m * w)).length := by
  induction m with
  | zero => exact Nat.zero_le _
  | succ m ih =>
    have hend : a + (m + 1) * w = a + m * w + w := by rw [Nat.succ_mul, Nat.add_assoc]
    obtain ⟨i, hle, hlt, hsig⟩ := hw (a + m * w) (Nat.le_add_right _ _) (by omega)
    have hmem : i ∈ sq.signaledIn (a + m * w) (a + m * w + w) :=
      mem_signaledIn.mpr ⟨⟨hle, hlt⟩, hsig⟩
    have hpos := List.length_pos_of_mem hmem
    have hprev := ih (by omega)
    rw [hend, ← signaledIn_append (Nat.le_add_right a (m * w)) (Nat.le_add_right _ w),
      List.length_append]
    omega

/-- A request keeps its flag when requests are added. -/
theorem signaledAt_of_prefix {sq sq' : SendQueue} (h : sq.wrs <+: sq'.wrs) {i : ℕ}
    (hi : i < sq.wrs.length) : sq'.signaledAt i = sq.signaledAt i := by
  obtain ⟨t, ht⟩ := h
  rw [signaledAt, signaledAt, ← ht, List.getElem?_append_left hi]

/-- A smaller range has fewer signaled requests. -/
theorem length_signaledIn_le {sq : SendQueue} {a b a' b' : ℕ} (ha : a ≤ a') (hab : a' ≤ b')
    (hb : b' ≤ b) : (sq.signaledIn a' b').length ≤ (sq.signaledIn a b).length := by
  rw [← signaledIn_append (ha.trans hab) hb, ← signaledIn_append ha hab, List.length_append,
    List.length_append]
  omega

/-- **The first signaled index of a range**: where the list starts with `x`, the
indices after `x` are the rest of it. -/
theorem signaledIn_cons {sq : SendQueue} {a b x : ℕ} {xs : List ℕ}
    (h : sq.signaledIn a b = x :: xs) : sq.signaledIn (x + 1) b = xs := by
  have hx : x ∈ sq.signaledIn a b := by rw [h]; exact List.mem_cons_self
  obtain ⟨⟨hax, hxb⟩, hsig⟩ := mem_signaledIn.mp hx
  have hsplit : sq.signaledIn a x ++ (x :: sq.signaledIn (x + 1) b) = x :: xs := by
    rw [← h, ← signaledIn_append hax (Nat.le_of_lt hxb),
      ← signaledIn_append (Nat.le_succ x) (Nat.succ_le_of_lt hxb)]
    congr 1
    simp [signaledIn, hsig]
  -- nothing below `x` can be in the list, whose first element is `x`
  cases hpre : sq.signaledIn a x with
  | nil =>
    rw [hpre, List.nil_append] at hsplit
    exact (List.cons.inj hsplit).2
  | cons y ys =>
    rw [hpre, List.cons_append] at hsplit
    have hy : y ∈ sq.signaledIn a x := by rw [hpre]; exact List.mem_cons_self
    obtain ⟨⟨-, hlt⟩, -⟩ := mem_signaledIn.mp hy
    have := (List.cons.inj hsplit).1
    omega

/-- Posting adds the request to the unpolled ones when it is signaled. -/
theorem unpolled_post {sq : SendQueue} (hr : sq.retired ≤ sq.wrs.length) (wr : SendWr) :
    (sq.post wr).unpolled = sq.unpolled + if wr.signaled then 1 else 0 := by
  have hlen : (sq.post wr).wrs.length = sq.wrs.length + 1 := by simp [post]
  have hret : (sq.post wr).retired = sq.retired := rfl
  rw [unpolled, hlen, hret, signaledIn_succ hr, signaledIn_post le_rfl, signaledAt_post_length]
  cases wr.signaled <;> simp [unpolled]

/-- What holds of a send queue all of whose completed requests succeeded. -/
structure Wf (sq : SendQueue) : Prop where
  retired_le : sq.retired ≤ sq.done
  done_le : sq.done ≤ sq.wrs.length
  not_failed : sq.failed = false
  /-- Only a signaled request gives slots back. -/
  retired_signaled : sq.retired = 0 ∨ sq.signaledAt (sq.retired - 1) = true

theorem Wf.due_length_le {sq : SendQueue} (h : sq.Wf) : sq.due.length ≤ sq.unpolled := by
  rw [unpolled, ← signaledIn_append h.retired_le h.done_le, List.length_append]
  exact Nat.le_add_right _ _

/-- Once the NIC has caught up, what is unpolled is in the completion queue. -/
theorem due_length_of_done {sq : SendQueue} (h : sq.done = sq.wrs.length) :
    sq.due.length = sq.unpolled := by
  rw [due, unpolled, h]

theorem unpolled_congr {sq sq' : SendQueue} (hw : sq'.wrs = sq.wrs)
    (hr : sq'.retired = sq.retired) : sq'.unpolled = sq.unpolled := by
  have hsig : sq'.signaledAt = sq.signaledAt := funext fun i => by rw [signaledAt, signaledAt, hw]
  rw [unpolled, unpolled, signaledIn, signaledIn, hsig, hw, hr]

/-- Posting puts nothing into the completion queue. -/
theorem due_post {sq : SendQueue} (h : sq.Wf) (wr : SendWr) : (sq.post wr).due = sq.due :=
  signaledIn_post h.done_le

theorem Wf.post {sq : SendQueue} (h : sq.Wf) (wr : SendWr) : (sq.post wr).Wf where
  retired_le := h.retired_le
  done_le := by
    have := h.done_le
    simp only [SendQueue.post, List.length_append]
    omega
  not_failed := h.not_failed
  retired_signaled := by
    rcases h.retired_signaled with h₀ | hs
    · exact Or.inl h₀
    · by_cases h₀ : sq.retired = 0
      · exact Or.inl h₀
      · refine Or.inr ?_
        have := h.retired_le
        have := h.done_le
        rwa [show (sq.post wr).retired = sq.retired from rfl, signaledAt_post_of_lt (by omega)]

/-- Polling the first completion due leaves one unpolled request less. -/
theorem unpolled_retire {sq : SendQueue} (h : sq.Wf) {i : ℕ} {is : List ℕ}
    (hdue : sq.due = i :: is) : (sq.retire i).unpolled + 1 = sq.unpolled := by
  have hall : sq.signaledIn sq.retired sq.wrs.length =
      i :: (is ++ sq.signaledIn sq.done sq.wrs.length) := by
    rw [← signaledIn_append h.retired_le h.done_le, ← due, hdue, List.cons_append]
  have hrest := signaledIn_cons hall
  rw [unpolled, unpolled, hall, List.length_cons]
  exact congrArg (·.length + 1) hrest

end SendQueue

end RdmaBook
