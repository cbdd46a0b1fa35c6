import Mathlib.Algebra.BigOperators.Group.Finset.Basic
import Mathlib.Algebra.BigOperators.Group.Finset.Piecewise
import Mathlib.Algebra.Order.BigOperators.Group.Finset
import RdmaBook.Verbs.SendQueue

/-!
# Send queues that share a completion queue

The device side of a program that posts sends on several queue pairs and reaps
them from one completion queue.

* `RdmaBook.Device.post`, `RdmaBook.Device.complete`, `RdmaBook.Device.poll` – the
  three things that happen to a device;
* `RdmaBook.Device.unpolled` – the number of signaled requests posted whose
  completion no call of `ibv_poll_cq` has returned;
* `RdmaBook.Device.Wf` – what holds of a device whose requests have all succeeded:
  the completion queue holds, for each queue pair and in order, exactly the
  signaled requests between the retired and the completed ones.

The three operations keep `RdmaBook.Device.Wf`, and each moves the count of
unpolled requests by what it is about: a signaled post by one up
(`RdmaBook.Device.unpolled_post`), a poll by the number of completions returned
(`RdmaBook.Device.poll_spec`), a completion not at all
(`RdmaBook.Device.unpolled_complete`).
-/

namespace RdmaBook

open Finset

/-! ### The device -/

/-- A completion: the queue pair it belongs to, the place of the request in the
send queue, and how it ended. -/
structure Cqe where
  qp : ℕ
  index : ℕ
  status : WcStatus
  deriving DecidableEq, Repr

/-- The send queues of a process, by the index of the queue pair, and the
completion queue they share, oldest entry first. -/
structure Device where
  sq : ℕ → SendQueue
  cq : List Cqe

namespace Device

/-- A device nothing has been posted on. -/
def empty : Device := ⟨fun _ => .empty, []⟩

/-- Replace one send queue. -/
def setSq (d : Device) (k : ℕ) (sq : SendQueue) : Device :=
  { d with sq := Function.update d.sq k sq }

@[simp] theorem setSq_sq_self (d : Device) (k : ℕ) (sq : SendQueue) :
    (d.setSq k sq).sq k = sq := by
  simp [setSq]

theorem setSq_sq_of_ne (d : Device) {k j : ℕ} (sq : SendQueue) (h : j ≠ k) :
    (d.setSq k sq).sq j = d.sq j := by
  simp [setSq, h]

/-- `ibv_post_send` of one request, when the send queue has room. -/
def post (d : Device) (k : ℕ) (wr : SendWr) : Device := d.setSq k ((d.sq k).post wr)

/-- The NIC completes the oldest request of a queue pair that it has not. A
signaled request leaves a completion, and so does one that does not succeed;
once one has failed the queue pair is in the error state, and the others are
flushed. -/
def complete (d : Device) (k : ℕ) (status : WcStatus) : Option Device :=
  match (d.sq k).wrs[(d.sq k).done]? with
  | none => none
  | some wr =>
    if (d.sq k).failed = true ∧ status ≠ .wrFlushErr then none
    else
      let sq' := { d.sq k with
        done := (d.sq k).done + 1
        failed := (d.sq k).failed || status != .success }
      if wr.signaled = true ∨ status ≠ .success then
        some { d.setSq k sq' with cq := d.cq ++ [⟨k, (d.sq k).done, status⟩] }
      else some (d.setSq k sq')

/-- Take the oldest completion off the completion queue. -/
def pollOne (d : Device) : Option (Cqe × Device) :=
  match d.cq with
  | [] => none
  | e :: rest => some (e, { d.setSq e.qp ((d.sq e.qp).retire e.index) with cq := rest })

/-- `ibv_poll_cq` returning `n` completions. -/
def poll : ℕ → Device → Option (List Cqe × Device)
  | 0, d => some ([], d)
  | n + 1, d => d.pollOne.bind fun r => (poll n r.2).map fun r' => (r.1 :: r'.1, r'.2)

/-- **The unpolled requests** of the first `n` queue pairs: signaled, posted, and
their completion returned by no `ibv_poll_cq`. -/
def unpolled (n : ℕ) (d : Device) : ℕ := ∑ k ∈ range n, (d.sq k).unpolled

theorem sq_unpolled_le {n k : ℕ} (hk : k < n) (d : Device) : (d.sq k).unpolled ≤ d.unpolled n :=
  single_le_sum (f := fun j => (d.sq j).unpolled) (fun _ _ => Nat.zero_le _) (mem_range.mpr hk)

/-- The completions of one queue pair in the completion queue. -/
def cqOf (d : Device) (k : ℕ) : List ℕ := (d.cq.filter fun e => e.qp = k).map (·.index)

/-- **What holds of a device all of whose completed requests succeeded**, with
`n` queue pairs. -/
structure Wf (n : ℕ) (d : Device) : Prop where
  sq : ∀ k, (d.sq k).Wf
  cq : ∀ k, d.cqOf k = (d.sq k).due
  success : ∀ e ∈ d.cq, e.status = .success
  /-- Nothing is posted on a queue pair that does not exist. -/
  outside : ∀ k, n ≤ k → (d.sq k).wrs = []

theorem wf_empty (n : ℕ) : (empty).Wf n where
  sq _ := ⟨le_rfl, le_rfl, rfl, Or.inl rfl⟩
  cq _ := rfl
  success := by simp [empty]
  outside _ _ := rfl

@[simp] theorem unpolled_empty (n : ℕ) : (empty).unpolled n = 0 := by
  simp [unpolled, empty, SendQueue.unpolled, SendQueue.signaledIn, SendQueue.empty]

/-- Replacing the send queue of one queue pair changes its own share only. -/
theorem unpolled_setSq {n k : ℕ} (hk : k < n) (d : Device) (sq : SendQueue) :
    (d.setSq k sq).unpolled n + (d.sq k).unpolled = d.unpolled n + sq.unpolled := by
  have hmem : k ∈ range n := mem_range.mpr hk
  have hothers : ∑ j ∈ (range n).erase k, ((d.setSq k sq).sq j).unpolled =
      ∑ j ∈ (range n).erase k, (d.sq j).unpolled :=
    sum_congr rfl fun j hj => by rw [setSq_sq_of_ne _ _ (ne_of_mem_erase hj)]
  rw [unpolled, unpolled, ← add_sum_erase _ _ hmem, ← add_sum_erase (range n) _ hmem, hothers,
    setSq_sq_self]
  omega

/-! ### Posting -/

@[simp] theorem post_cq (d : Device) (k : ℕ) (wr : SendWr) : (d.post k wr).cq = d.cq := rfl

@[simp] theorem post_sq_self (d : Device) (k : ℕ) (wr : SendWr) :
    (d.post k wr).sq k = (d.sq k).post wr := setSq_sq_self _ _ _

theorem post_sq_of_ne (d : Device) {k j : ℕ} (wr : SendWr) (h : j ≠ k) :
    (d.post k wr).sq j = d.sq j := setSq_sq_of_ne _ _ h

theorem Wf.post {n k : ℕ} {d : Device} (h : d.Wf n) (hk : k < n) (wr : SendWr) :
    (d.post k wr).Wf n where
  sq j := by
    rcases eq_or_ne j k with rfl | hj
    · rw [post_sq_self]
      exact (h.sq j).post wr
    · rw [post_sq_of_ne _ _ hj]
      exact h.sq j
  cq j := by
    rw [cqOf, post_cq, ← cqOf, h.cq j]
    rcases eq_or_ne j k with rfl | hj
    · rw [post_sq_self, SendQueue.due_post (h.sq j)]
    · rw [post_sq_of_ne _ _ hj]
  success := h.success
  outside j hj := by
    rw [post_sq_of_ne _ _ (by omega)]
    exact h.outside j hj

theorem unpolled_post {n k : ℕ} {d : Device} (h : d.Wf n) (hk : k < n) (wr : SendWr) :
    (d.post k wr).unpolled n = d.unpolled n + if wr.signaled then 1 else 0 := by
  have hset := unpolled_setSq hk d ((d.sq k).post wr)
  rw [SendQueue.unpolled_post ((h.sq k).retired_le.trans (h.sq k).done_le)] at hset
  have hpost : d.post k wr = d.setSq k ((d.sq k).post wr) := rfl
  rw [hpost]
  omega

/-! ### Completing -/

/-- What a completion does, when it can happen. -/
theorem complete_eq_some {d d' : Device} {k : ℕ} {st : WcStatus}
    (h : d.complete k st = some d') :
    ∃ wr, (d.sq k).wrs[(d.sq k).done]? = some wr ∧
      d' = { d.setSq k { d.sq k with
                done := (d.sq k).done + 1
                failed := (d.sq k).failed || st != .success } with
              cq := d.cq ++
                if wr.signaled = true ∨ st ≠ .success then [⟨k, (d.sq k).done, st⟩] else [] } := by
  rw [complete] at h
  split at h
  · cases h
  · rename_i wr hwr
    split at h
    · cases h
    · dsimp only at h
      refine ⟨wr, hwr, ?_⟩
      split at h <;> rename_i hc <;> obtain rfl := Option.some.inj h
      · rw [if_pos hc]
      · rw [if_neg hc, List.append_nil]
        rfl

/-- A completion changes neither the requests nor the slots. -/
theorem complete_sq {d d' : Device} {k : ℕ} {st : WcStatus} (h : d.complete k st = some d')
    (j : ℕ) : (d'.sq j).wrs = (d.sq j).wrs ∧ (d'.sq j).retired = (d.sq j).retired := by
  obtain ⟨wr, -, rfl⟩ := complete_eq_some h
  rcases eq_or_ne j k with rfl | hj
  · simp [setSq]
  · simp [setSq, hj]

theorem unpolled_complete {n : ℕ} {d d' : Device} {k : ℕ} {st : WcStatus}
    (h : d.complete k st = some d') : d'.unpolled n = d.unpolled n := by
  refine sum_congr rfl fun j _ => ?_
  obtain ⟨hw, hr⟩ := complete_sq h j
  exact SendQueue.unpolled_congr hw hr

theorem Wf.complete {n : ℕ} {d d' : Device} {k : ℕ} (h : d.Wf n)
    (hc : d.complete k .success = some d') : d'.Wf n := by
  obtain ⟨wr, hwr, rfl⟩ := complete_eq_some hc
  have hsig : (d.sq k).signaledAt (d.sq k).done = wr.signaled := by
    rw [SendQueue.signaledAt, hwr]
    rfl
  refine ⟨fun j => ?_, fun j => ?_, ?_, fun j hj => ?_⟩
  · rcases eq_or_ne j k with rfl | hj
    · have hlt : (d.sq j).done < (d.sq j).wrs.length := (List.getElem?_eq_some_iff.mp hwr).1
      have := (h.sq j).retired_le
      refine ⟨?_, ?_, ?_, ?_⟩
      · simp only [setSq_sq_self]
        omega
      · simp only [setSq_sq_self]
        omega
      · simp [(h.sq j).not_failed]
      · simpa [SendQueue.signaledAt] using (h.sq j).retired_signaled
    · simpa [setSq, hj] using h.sq j
  · rw [cqOf, List.filter_append, List.map_append, ← cqOf, h.cq j]
    rcases eq_or_ne j k with rfl | hj
    · rw [setSq_sq_self]
      have hdue := @SendQueue.signaledIn_succ (d.sq j) _ _ (h.sq j).retired_le
      rw [hsig] at hdue
      refine Eq.trans ?_ hdue.symm
      cases wr.signaled <;> simp [SendQueue.due]
    · rw [setSq_sq_of_ne _ _ hj]
      cases wr.signaled <;> simp [hj.symm]
  · intro e he
    rcases List.mem_append.mp he with he | he
    · exact h.success e he
    · cases hs : wr.signaled <;> simp [hs] at he
      rw [he]
  · rcases eq_or_ne j k with rfl | hjk
    · have := h.outside j hj
      rw [this] at hwr
      simp at hwr
    · simpa [setSq, hjk] using h.outside j hj

/-! ### Polling -/

/-- Polling leaves the requests and their completion alone. -/
theorem poll_sq : ∀ {m : ℕ} {d d' : Device} {es : List Cqe}, d.poll m = some (es, d') →
    ∀ j, (d'.sq j).wrs = (d.sq j).wrs ∧ (d'.sq j).done = (d.sq j).done
  | 0, d, d', es, hp, j => by
    obtain ⟨-, rfl⟩ := Prod.mk.inj (Option.some.inj hp)
    exact ⟨rfl, rfl⟩
  | m + 1, d, d', es, hp, j => by
    obtain ⟨⟨e, d₁⟩, h₁, hrest⟩ := Option.bind_eq_some_iff.mp hp
    obtain ⟨⟨es', d₂⟩, h₂, heq⟩ := Option.map_eq_some_iff.mp hrest
    obtain ⟨-, rfl⟩ := Prod.mk.inj heq
    have hone : (d₁.sq j).wrs = (d.sq j).wrs ∧ (d₁.sq j).done = (d.sq j).done := by
      rw [pollOne] at h₁
      split at h₁
      · cases h₁
      · obtain ⟨-, rfl⟩ := Prod.mk.inj (Option.some.inj h₁)
        rename_i e' rest hcq
        rcases eq_or_ne j e'.qp with rfl | hj
        · simp [setSq, SendQueue.retire]
        · simp [setSq, hj]
    obtain ⟨hw, hdone⟩ := poll_sq h₂ j
    exact ⟨hw.trans hone.1, hdone.trans hone.2⟩

/-- **One completion off the queue**: it is a success, it is the first unpolled
request of its queue pair, and that queue pair has one unpolled request less. -/
theorem pollOne_spec {n : ℕ} {d d' : Device} {e : Cqe} (h : d.Wf n)
    (hp : d.pollOne = some (e, d')) :
    d'.Wf n ∧ e.status = .success ∧ d'.unpolled n + 1 = d.unpolled n ∧
      d.cq = e :: d'.cq ∧ ∀ j, (d'.sq j).wrs = (d.sq j).wrs ∧
        (d'.sq j).done = (d.sq j).done ∧ (d.sq j).retired ≤ (d'.sq j).retired := by
  rw [pollOne] at hp
  split at hp
  · cases hp
  · rename_i e' rest hcq
    obtain ⟨rfl, rfl⟩ := Prod.mk.inj (Option.some.inj hp)
    have hmem : e' ∈ d.cq := by rw [hcq]; exact List.mem_cons_self
    have hown : d.cqOf e'.qp = e'.index :: (rest.filter fun e => e.qp = e'.qp).map (·.index) := by
      simp [cqOf, hcq]
    have hdue := (h.cq e'.qp).symm.trans hown
    have hin : e'.index ∈ (d.sq e'.qp).due := by rw [hdue]; exact List.mem_cons_self
    obtain ⟨⟨hge, hlt⟩, hsig⟩ := SendQueue.mem_signaledIn.mp hin
    have hlen := (h.sq e'.qp).done_le
    have hqp : e'.qp < n := by
      by_contra hcon
      have := h.outside e'.qp (by omega)
      rw [this, List.length_nil] at hlen
      omega
    have hun : ((d.sq e'.qp).retire e'.index).unpolled + 1 = (d.sq e'.qp).unpolled :=
      SendQueue.unpolled_retire (h.sq e'.qp) hdue
    refine ⟨⟨fun j => ?_, fun j => ?_, fun e he => ?_, fun j hj => ?_⟩, h.success e' hmem, ?_,
      hcq, fun j => ?_⟩
    · rcases eq_or_ne j e'.qp with rfl | hj
      · exact ⟨by simp [SendQueue.retire]; omega, by simpa [SendQueue.retire] using hlen,
          by simpa [SendQueue.retire] using (h.sq e'.qp).not_failed,
          Or.inr (by simpa [SendQueue.retire, SendQueue.signaledAt] using hsig)⟩
      · simpa [setSq, hj] using h.sq j
    · rcases eq_or_ne j e'.qp with rfl | hj
      · rw [cqOf, setSq_sq_self]
        exact (SendQueue.signaledIn_cons hdue).symm
      · rw [setSq_sq_of_ne _ _ hj, ← h.cq j, cqOf, cqOf, hcq]
        simp [hj.symm]
    · exact h.success e (by rw [hcq]; exact List.mem_cons_of_mem _ he)
    · rcases eq_or_ne j e'.qp with rfl | hjk
      · omega
      · simpa [setSq, hjk] using h.outside j hj
    · have hset := unpolled_setSq hqp d ((d.sq e'.qp).retire e'.index)
      have heq : unpolled n { d.setSq e'.qp ((d.sq e'.qp).retire e'.index) with cq := rest } =
        unpolled n (d.setSq e'.qp ((d.sq e'.qp).retire e'.index)) := rfl
      rw [heq]
      omega
    · rcases eq_or_ne j e'.qp with rfl | hj
      · refine ⟨by simp [SendQueue.retire], by simp [SendQueue.retire], ?_⟩
        simp only [setSq_sq_self, SendQueue.retire]
        omega
      · simp [setSq, hj]

/-- **A poll of `m` completions** takes `m` off the unpolled requests, and they
are all successes. -/
theorem poll_spec {n : ℕ} : ∀ {m : ℕ} {d d' : Device} {es : List Cqe}, d.Wf n →
    d.poll m = some (es, d') →
    d'.Wf n ∧ (∀ e ∈ es, e.status = .success) ∧ d'.unpolled n + m = d.unpolled n ∧
      ∀ j, (d'.sq j).wrs = (d.sq j).wrs ∧ (d'.sq j).done = (d.sq j).done ∧
        (d.sq j).retired ≤ (d'.sq j).retired
  | 0, d, d', es, h, hp => by
    obtain ⟨rfl, rfl⟩ := Prod.mk.inj (Option.some.inj hp)
    exact ⟨h, by simp, rfl, fun j => ⟨rfl, rfl, le_rfl⟩⟩
  | m + 1, d, d', es, h, hp => by
    obtain ⟨⟨e, d₁⟩, h₁, hrest⟩ := Option.bind_eq_some_iff.mp hp
    obtain ⟨⟨es', d₂⟩, h₂, heq⟩ := Option.map_eq_some_iff.mp hrest
    obtain ⟨rfl, rfl⟩ := Prod.mk.inj heq
    obtain ⟨hwf₁, hst, hun₁, -, hsq₁⟩ := pollOne_spec h h₁
    obtain ⟨hwf₂, hall, hun₂, hsq₂⟩ := poll_spec hwf₁ h₂
    refine ⟨hwf₂, ?_, by dsimp only at hun₂ ⊢; omega, fun j => ?_⟩
    · intro e' he'
      rcases List.mem_cons.mp he' with rfl | he'
      · exact hst
      · exact hall e' he'
    · obtain ⟨hw₁, hd₁, hr₁⟩ := hsq₁ j
      obtain ⟨hw₂, hd₂, hr₂⟩ := hsq₂ j
      exact ⟨hw₂.trans hw₁, hd₂.trans hd₁, hr₁.trans hr₂⟩

/-- While nothing has failed, no poll hands out a failure. -/
theorem Wf.not_polls_failure {n m : ℕ} {d d' : Device} {es : List Cqe} (h : d.Wf n)
    (hp : d.poll m = some (es, d')) : ¬∃ e ∈ es, e.status ≠ .success := by
  rintro ⟨e, he, hne⟩
  obtain ⟨-, hall, -, -⟩ := poll_spec h hp
  exact hne (hall e he)

/-- Any number of completions up to the length of the queue can be polled. -/
theorem exists_poll : ∀ {m : ℕ} {d : Device}, m ≤ d.cq.length →
    ∃ es d', d.poll m = some (es, d') ∧ es = d.cq.take m ∧ d'.cq = d.cq.drop m
  | 0, d, _ => ⟨[], d, rfl, rfl, rfl⟩
  | m + 1, d, h => by
    cases hcq : d.cq with
    | nil => simp [hcq] at h
    | cons e rest =>
      rw [hcq, List.length_cons] at h
      obtain ⟨es, d', hp, rfl, hrest⟩ := exists_poll (m := m)
        (d := { d.setSq e.qp ((d.sq e.qp).retire e.index) with cq := rest }) (by simpa using h)
      refine ⟨_, d', ?_, rfl, hrest⟩
      simp [poll, pollOne, hcq, hp]

/-! ### The completion queue -/

/-- The length of the completion queue, queue pair by queue pair. -/
theorem cq_length {n : ℕ} {d : Device} (h : d.Wf n) :
    d.cq.length = ∑ k ∈ range n, (d.sq k).due.length := by
  have hqp : ∀ e ∈ d.cq, e.qp < n := by
    intro e he
    by_contra hcon
    have hin : e.index ∈ d.cqOf e.qp :=
      List.mem_map.mpr ⟨e, List.mem_filter.mpr ⟨he, by simp⟩, rfl⟩
    rw [h.cq e.qp] at hin
    obtain ⟨⟨-, hlt⟩, -⟩ := SendQueue.mem_signaledIn.mp hin
    have hlen := (h.sq e.qp).done_le
    rw [h.outside e.qp (by omega), List.length_nil] at hlen
    omega
  have hsum : ∀ l : List Cqe, (∀ e ∈ l, e.qp < n) →
      l.length = ∑ k ∈ range n, (l.filter fun e => e.qp = k).length := by
    intro l hl
    induction l with
    | nil => simp
    | cons e l ih =>
      have hstep : ∀ k, ((e :: l).filter fun e => e.qp = k).length =
          (if k = e.qp then 1 else 0) + (l.filter fun e => e.qp = k).length := by
        intro k
        rcases eq_or_ne k e.qp with rfl | hk
        · simp [Nat.add_comm]
        · simp [hk, hk.symm]
      rw [sum_congr rfl fun k _ => hstep k, sum_add_distrib, sum_ite_eq',
        if_pos (mem_range.mpr (hl e List.mem_cons_self)),
        ← ih fun e' he' => hl e' (List.mem_cons_of_mem _ he'), List.length_cons, Nat.add_comm]
  rw [hsum d.cq hqp]
  refine sum_congr rfl fun k _ => ?_
  rw [← h.cq k, cqOf, List.length_map]

theorem cq_length_le {n : ℕ} {d : Device} (h : d.Wf n) : d.cq.length ≤ d.unpolled n := by
  rw [cq_length h]
  exact sum_le_sum fun k _ => (h.sq k).due_length_le

/-- **Once the NIC has caught up, every unpolled request is in the completion
queue.** -/
theorem cq_length_of_done {n : ℕ} {d : Device} (h : d.Wf n)
    (hdone : ∀ k, (d.sq k).done = (d.sq k).wrs.length) : d.cq.length = d.unpolled n := by
  rw [cq_length h]
  exact sum_congr rfl fun k _ => SendQueue.due_length_of_done (hdone k)

end Device

end RdmaBook
