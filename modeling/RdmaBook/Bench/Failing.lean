import RdmaBook.Bench.Position

/-!
# rdma_bench: a run on failing completions

The run that shows what becomes of a failed completion, on a device that gives the queue pairs at
least the slots that are asked for. Its parts:

* the warm-up loop, in which the NIC completes nothing (`RdmaBook.exists_warmup_pending`);
* the drain of the warm-up, for which it completes one signaled write at a time, in the order of
  the posts, and the last one may fail (`RdmaBook.exists_drained`);
* the measurement, in which every write fails as soon as it is posted
  (`RdmaBook.exists_measure_backlog`). So every write leaves a completion, the throttle is given
  32 of them for every 32 writes, and the completion queue never holds more than
  `32 * outstanding_cqes` and those of the round that is under way (`RdmaBook.Backlog`).

No send queue is ever short of a slot on the way: it holds no more requests than there are
completions in the queue, besides what the warm-up has left.
-/

namespace RdmaBook

/-- The step is an `ibv_poll_cq` that returns a completion which is not a success. -/
def PollsFailure (s : BenchState) (l : BenchLabel) : Prop :=
  ∃ n es d, l = .pollCq n ∧ s.dev.poll n = some (es, d) ∧ ∃ e ∈ es, e.status ≠ .success

/-! ### Completions at will -/

namespace Device

@[simp] theorem setSq_setSq (d : Device) (k : ℕ) (sq sq' : SendQueue) :
    (d.setSq k sq).setSq k sq' = d.setSq k sq' := by
  simp [setSq]

@[simp] theorem setSq_self (d : Device) (k : ℕ) : d.setSq k (d.sq k) = d := by
  simp [setSq]

/-- A completion the queue pair can have. -/
theorem complete_of {d : Device} {k : ℕ} {wr : SendWr} {status : WcStatus}
    (hwr : (d.sq k).wrs[(d.sq k).done]? = some wr)
    (hflush : (d.sq k).failed = true → status = .wrFlushErr) :
    d.complete k status = some { d.setSq k { d.sq k with
        done := (d.sq k).done + 1
        failed := (d.sq k).failed || status != .success } with
      cq := d.cq ++ if wr.signaled = true ∨ status ≠ .success then
        [⟨k, (d.sq k).done, status⟩] else [] } := by
  rw [complete, hwr]
  dsimp only
  rw [if_neg fun hcon => hcon.2 (hflush hcon.1)]
  split
  · rfl
  · rw [List.append_nil]
    rfl

end Device

section Silent

variable {bctx : BenchCtx} {maxSendWr : Option ℕ} {s : BenchState}

/-- **Unsignaled requests succeed**, one after the other, and leave no completion. -/
theorem path_completeSilent {k j : ℕ}
    (hlen : (s.dev.sq k).done + j ≤ (s.dev.sq k).wrs.length)
    (hok : (s.dev.sq k).failed = false)
    (hun : ∀ i, (s.dev.sq k).done ≤ i → i < (s.dev.sq k).done + j →
      (s.dev.sq k).signaledAt i = false) :
    (benchLts bctx maxSendWr).Path Lts.any s { s with
      dev := s.dev.setSq k { s.dev.sq k with done := (s.dev.sq k).done + j } } := by
  induction j with
  | zero =>
    rw [show { s.dev.sq k with done := (s.dev.sq k).done + 0 } = s.dev.sq k from rfl,
      Device.setSq_self]
    exact Lts.Path.refl s
  | succ j ih =>
    have hpath := ih (by omega) fun i hge hlt => hun i hge (by omega)
    let d : Device := s.dev.setSq k { s.dev.sq k with done := (s.dev.sq k).done + j }
    have hd : d.sq k = { s.dev.sq k with done := (s.dev.sq k).done + j } :=
      Device.setSq_sq_self _ _ _
    have hlt : (s.dev.sq k).done + j < (s.dev.sq k).wrs.length := by omega
    have hwr : (d.sq k).wrs[(d.sq k).done]? = some ((s.dev.sq k).wrs.get ⟨_, hlt⟩) := by
      rw [hd]
      exact List.getElem?_eq_getElem hlt
    have hsig : ((s.dev.sq k).wrs.get ⟨_, hlt⟩).signaled = false := by
      have hflag := hun _ (Nat.le_add_right _ j) (by omega)
      rw [SendQueue.signaledAt, List.getElem?_eq_getElem hlt] at hflag
      exact hflag
    have hcomp : d.complete k .success =
        some (s.dev.setSq k { s.dev.sq k with done := (s.dev.sq k).done + (j + 1) }) := by
      rw [Device.complete_of hwr (by rw [hd, hok]; exact Bool.noConfusion),
        if_neg (by rw [hsig]; simp), List.append_nil, hd, Device.setSq_setSq]
      simp only [hok, bne_self_eq_false, Bool.or_false]
      rfl
    exact hpath.tail trivial (BenchStep.complete k .success _ hcomp).next

end Silent

/-- Polling the only completion of the queue. -/
theorem Device.poll_singleton {d : Device} {e : Cqe} (hcq : d.cq = [e]) :
    d.poll 1 = some ([e], { d.setSq e.qp ((d.sq e.qp).retire e.index) with cq := [] }) := by
  simp [poll, pollOne, hcq]

/-! ### Queue pairs on which everything fails -/

/-- **A queue pair on which everything fails**: its completions in the queue are those of its last
requests; what it holds besides is at most the leftover of the warm-up; and it has no request that
is still to complete, unless there are only unsignaled ones and none has failed yet. -/
structure Device.Failing (d : Device) (k : ℕ) : Prop where
  le : (d.cqOf k).length ≤ (d.sq k).wrs.length
  last : d.cqOf k =
    List.range' ((d.sq k).wrs.length - (d.cqOf k).length) (d.cqOf k).length
  held_le : (d.sq k).wrs.length ≤ (d.sq k).retired + (d.cqOf k).length + 31
  done_le : (d.sq k).done ≤ (d.sq k).wrs.length
  silent : (d.sq k).failed = false → ∀ i, (d.sq k).done ≤ i → i < (d.sq k).wrs.length →
    (d.sq k).signaledAt i = false
  done_eq : (d.sq k).failed = true → (d.sq k).done = (d.sq k).wrs.length

namespace Device

variable {d d' : Device} {k : ℕ}

/-- It depends on the queue pair and on its completions only. -/
theorem Failing.congr (h : d.Failing k) (hsq : d'.sq k = d.sq k) (hcq : d'.cqOf k = d.cqOf k) :
    d'.Failing k := by
  obtain ⟨hle, hlast, hheld, hdone, hsilent, heq⟩ := h
  rw [← hsq] at hle hlast hheld hdone hsilent heq
  rw [← hcq] at hle hlast hheld
  exact ⟨hle, hlast, hheld, hdone, hsilent, heq⟩

/-- **What it holds** is what is in the completion queue, and a leftover. -/
theorem Failing.held_lt (h : d.Failing k) : (d.sq k).held ≤ d.cq.length + 31 := by
  have hcq : (d.cqOf k).length ≤ d.cq.length := by
    rw [cqOf, List.length_map]
    exact List.length_filter_le _ _
  have := h.held_le
  rw [SendQueue.held]
  omega

/-- One more request has been posted, and all of them are completed; the last one has failed. -/
theorem Failing.write {wr : SendWr} {status : WcStatus} (h : d.Failing k)
    (hsq : d'.sq k = ⟨(d.sq k).wrs ++ [wr], (d.sq k).wrs.length + 1, (d.sq k).retired, true⟩)
    (hcq : d'.cq = d.cq ++ [⟨k, (d.sq k).wrs.length, status⟩]) : d'.Failing k := by
  have hlen : (d'.sq k).wrs.length = (d.sq k).wrs.length + 1 := by
    rw [hsq]
    exact List.length_append
  have hown : d'.cqOf k = d.cqOf k ++ [(d.sq k).wrs.length] := by
    rw [cqOf, hcq, List.filter_append, List.map_append, ← cqOf]
    simp
  have hle := h.le
  have hheld := h.held_le
  refine ⟨?_, ?_, ?_, ?_, fun hok => ?_, fun _ => ?_⟩
  · rw [hown, hlen, List.length_append, List.length_singleton]
    omega
  · have hend : (d.sq k).wrs.length =
        (d.sq k).wrs.length - (d.cqOf k).length + (d.cqOf k).length := by omega
    rw [hown, hlen, List.length_append, List.length_singleton, Nat.add_sub_add_right,
      List.range'_1_concat, ← h.last, ← hend]
  · rw [hown, hlen, List.length_append, List.length_singleton, hsq]
    dsimp only
    omega
  · rw [hlen, hsq]
  · rw [hsq] at hok
    cases hok
  · rw [hlen, hsq]

/-- What a completion does that is polled. -/
theorem pollOne_eq_some {e : Cqe} (hp : d.pollOne = some (e, d')) :
    d.cq = e :: d'.cq ∧ d'.sq e.qp = (d.sq e.qp).retire e.index ∧
      ∀ j, j ≠ e.qp → d'.sq j = d.sq j := by
  rw [Device.pollOne] at hp
  split at hp
  · cases hp
  · rename_i e' rest hcq
    obtain ⟨rfl, rfl⟩ := Prod.mk.inj (Option.some.inj hp)
    exact ⟨hcq, setSq_sq_self _ _ _, fun j hj => setSq_sq_of_ne _ _ hj⟩

/-- A completion of the queue is polled. -/
theorem Failing.pollOne {e : Cqe} (h : d.Failing k) (hp : d.pollOne = some (e, d')) :
    d'.Failing k := by
  obtain ⟨hcq, hsq, hothers⟩ := pollOne_eq_some hp
  rcases eq_or_ne k e.qp with rfl | hk
  · have hown : d.cqOf e.qp = e.index :: d'.cqOf e.qp := by simp [cqOf, hcq]
    obtain ⟨hle, hlast, hheld, hdone, hsilent, heq⟩ := h
    rw [hown, List.length_cons] at hle hlast hheld
    rw [List.range'_succ, List.cons.injEq] at hlast
    obtain ⟨hindex, htail⟩ := hlast
    rw [show (d.sq e.qp).wrs.length - ((d'.cqOf e.qp).length + 1) + 1 =
      (d.sq e.qp).wrs.length - (d'.cqOf e.qp).length by omega] at htail
    rw [SendQueue.retire] at hsq
    refine ⟨?_, ?_, ?_, ?_, ?_, ?_⟩ <;> rw [hsq]
    · exact (Nat.le_succ _).trans hle
    · exact htail
    · dsimp only
      omega
    · exact hdone
    · exact hsilent
    · exact heq
  · refine h.congr (hothers k hk) ?_
    simp [cqOf, hcq, hk.symm]

/-- So are several. -/
theorem Failing.poll : ∀ {m : ℕ} {d d' : Device} {es : List Cqe}, d.Failing k →
    d.poll m = some (es, d') → d'.Failing k
  | 0, d, d', es, h, hp => by
    obtain ⟨-, rfl⟩ := Prod.mk.inj (Option.some.inj hp)
    exact h
  | m + 1, d, d', es, h, hp => by
    obtain ⟨⟨e, d₁⟩, h₁, hrest⟩ := Option.bind_eq_some_iff.mp hp
    obtain ⟨⟨es', d₂⟩, h₂, heq⟩ := Option.map_eq_some_iff.mp hrest
    obtain ⟨-, rfl⟩ := Prod.mk.inj heq
    exact Failing.poll (h.pollOne h₁) h₂

end Device

/-! ### The measurement -/

/-- A position of the two nested loops is below their end. -/
theorem position_lt {i q m n : ℕ} (hi : i < m) (hq : q < n) : i * n + q < m * n := by
  have hmul := Nat.mul_le_mul_right n (Nat.succ_le_of_lt hi)
  rw [Nat.succ_mul] at hmul
  omega

section Measurement

variable {bctx : BenchCtx} {maxSendWr : Option ℕ} {s : BenchState}

/-- **A call of `poll_completions` that is given failures**: it returns `-1`, and the program
goes on. -/
theorem exists_failedPoll {site : PollSite} {count total : ℤ} {m : ℕ}
    (hfailed : ∀ e ∈ s.dev.cq, e.status ≠ .success) (hpc : s.pc = .poll site count total)
    (hlt : total < count) (hpos : 0 < m) (hle : m ≤ 32) (hlen : m ≤ s.dev.cq.length) :
    ∃ es d, s.dev.poll m = some (es, d) ∧ d.cq = s.dev.cq.drop m ∧ PollsFailure s (.pollCq m) ∧
      (benchLts bctx maxSendWr).step s (.pollCq m)
        (({ s with dev := d } : BenchState).afterPoll (-1) site) := by
  obtain ⟨es, d, hpoll, rfl, hrest⟩ := Device.exists_poll hlen
  obtain ⟨e, he⟩ : ∃ e, e ∈ s.dev.cq.take m := by
    refine List.exists_mem_of_length_pos ?_
    rw [List.length_take]
    omega
  have hbad : ∃ e ∈ s.dev.cq.take m, e.status ≠ .success :=
    ⟨e, he, hfailed e (List.mem_of_mem_take he)⟩
  exact ⟨_, d, hpoll, hrest, ⟨m, _, d, rfl, hpoll, hbad⟩,
    (BenchStep.pollFailed site count total m _ d hpc hlt hle hpoll hbad).next⟩

/-- **The write that has been posted fails**, behind the unsignaled ones that are in front of it. -/
theorem exists_failedWrite {k : ℕ} {wr : SendWr} (h : s.dev.Failing k) :
    ∃ status d, status ≠ .success ∧
      (benchLts bctx maxSendWr).Path Lts.any { s with dev := s.dev.post k wr } { s with dev := d } ∧
      d.sq k = ⟨(s.dev.sq k).wrs ++ [wr], (s.dev.sq k).wrs.length + 1, (s.dev.sq k).retired, true⟩ ∧
      d.cq = s.dev.cq ++ [⟨k, (s.dev.sq k).wrs.length, status⟩] ∧
      ∀ j, j ≠ k → d.sq j = s.dev.sq j := by
  -- the one in front of it have succeeded, or have been flushed
  let sq : SendQueue := ⟨(s.dev.sq k).wrs ++ [wr], (s.dev.sq k).wrs.length, (s.dev.sq k).retired,
    (s.dev.sq k).failed⟩
  have hfront : (benchLts bctx maxSendWr).Path Lts.any { s with dev := s.dev.post k wr }
      { s with dev := s.dev.setSq k sq } := by
    cases hfail : (s.dev.sq k).failed with
    | true =>
      have hpost : s.dev.post k wr = s.dev.setSq k sq := by
        rw [Device.post, SendQueue.post, h.done_eq hfail]
      rw [hpost]
      exact Lts.Path.refl _
    | false =>
      have hdone := h.done_le
      have hpath : (benchLts bctx maxSendWr).Path Lts.any { s with dev := s.dev.post k wr } _ :=
        path_completeSilent (k := k) (j := (s.dev.sq k).wrs.length - (s.dev.sq k).done) (by
          simp only [Device.post_sq_self, SendQueue.post, List.length_append,
            List.length_singleton]
          omega) (by simpa only [Device.post_sq_self, SendQueue.post] using hfail)
        (fun i hge hlt => by
          simp only [Device.post_sq_self, SendQueue.post] at hge hlt
          simp only [Device.post_sq_self]
          rw [SendQueue.signaledAt_post_of_lt (by omega)]
          exact h.silent hfail i hge (by omega))
      have hend : (s.dev.sq k).done + ((s.dev.sq k).wrs.length - (s.dev.sq k).done) =
          (s.dev.sq k).wrs.length := by omega
      simp only [Device.post_sq_self, SendQueue.post, hend] at hpath
      have hset : (s.dev.post k wr).setSq k sq = s.dev.setSq k sq := by
        rw [Device.post, Device.setSq_setSq]
      rw [← hset]
      exact hpath
  obtain ⟨status, hbad, hflush⟩ : ∃ status : WcStatus, status ≠ .success ∧
      ((s.dev.sq k).failed = true → status = .wrFlushErr) := by
    cases (s.dev.sq k).failed with
    | true => exact ⟨.wrFlushErr, by decide, fun _ => rfl⟩
    | false => exact ⟨.remAccessErr, by decide, fun hcon => by cases hcon⟩
  have hsq : (s.dev.setSq k sq).sq k = sq := Device.setSq_sq_self _ _ _
  have hcomp := @Device.complete_of (s.dev.setSq k sq) k wr status
    (by rw [hsq]; exact List.getElem?_concat_length) (by rw [hsq]; exact hflush)
  refine ⟨status, _, hbad, hfront.tail trivial (BenchStep.complete k status _ hcomp).next, ?_, ?_,
    fun j hj => ?_⟩
  · have hne : (status != .success) = true := bne_iff_ne.mpr hbad
    simp only [hsq, Device.setSq_sq_self, hne, Bool.or_true]
    rfl
  · simp only [hsq, if_pos (Or.inr hbad : wr.signaled = true ∨ status ≠ .success)]
    rfl
  · simp only [hsq]
    rw [Device.setSq_sq_of_ne _ _ hj, Device.setSq_sq_of_ne _ _ hj]

/-- **The state of a measurement in which every write fails**, `p` writes posted: for each signaled
write that is outstanding there are the completions of 32 writes in the queue, and those of the
writes behind the last signaled one. -/
structure Backlog (bctx : BenchCtx) (p : ℕ) (s : BenchState) : Prop where
  signalCnt : s.signalCnt = p
  nonneg : 0 ≤ s.outstandingCqes
  signaled : 32 ≤ p → 1 ≤ s.outstandingCqes
  length : (s.dev.cq.length : ℤ) = (p % 32 : ℕ) + 32 * s.outstandingCqes
  failed : ∀ e ∈ s.dev.cq, e.status ≠ .success
  queue : ∀ k < bctx.cfg.qpCount, s.dev.Failing k

/-- **A write is posted, and fails.** -/
theorem Backlog.exists_write (hcap : ∀ m ∈ maxSendWr, bctx.cfg.sqDepth ≤ m) {p : ℕ}
    (h : Backlog bctx p s) (hp : p + 1 < 2 ^ 31) (hpc : s.pc = .measure)
    (hi : s.i < bctx.cfg.iterations) (hq : s.q < bctx.cfg.qpCount) (hout : s.outstandingCqes < 8) :
    ∃ b, (benchLts bctx maxSendWr).Path Lts.any s b ∧ b.pc = .throttle ∧ b.i = s.i ∧ b.q = s.q ∧
      b.outstandingCqes ≤ 8 ∧ Backlog bctx (p + 1) b := by
  obtain ⟨hcnt, hnn, hsig, hlen, hfailed, hqueue⟩ := h
  have hfail := hqueue s.q hq
  have hdepth : bctx.cfg.sqDepth = 512 := rfl
  have hroom : (s.dev.sq s.q).hasRoom maxSendWr = true := by
    refine SendQueue.hasRoom_of_held hcap ?_
    have := hfail.held_lt
    omega
  let wr := postRdmaWrite bctx s.q (measureSignaled s.signalCnt)
  let out := if measureSignaled s.signalCnt then cInt (s.outstandingCqes + 1) else s.outstandingCqes
  -- the counter goes up where the number of the write has the residue of the signaled ones
  have hstep : out = s.outstandingCqes + if p % 32 = 31 then 1 else 0 := by
    have hiff := measureSignaled_iff (n := p) (by omega)
    rw [cInt_natCast (by omega), ← hcnt] at hiff
    simp only [out, hiff]
    split
    · rw [cInt_of_lt (by omega) (by omega)]
    · rw [Int.add_zero]
  have hpost := (BenchStep.measurePost hpc hi hq hroom).next
  let a : BenchState := { s with
    pc := .throttle
    signalCnt := cInt (s.signalCnt + 1)
    outstandingCqes := out }
  obtain ⟨status, d, hbad, hpath, hsq, hcq, hothers⟩ :=
    @exists_failedWrite bctx maxSendWr a s.q wr hfail
  refine ⟨{ a with dev := d }, (Lts.Path.single (l := .postSend true) trivial hpost).trans hpath,
    rfl, rfl, rfl, ?_, ⟨?_, ?_, fun _ => ?_, ?_, fun e he => ?_, fun k hk => ?_⟩⟩
  · change out ≤ 8
    split at hstep <;> omega
  · change cInt (s.signalCnt + 1) = (p + 1 : ℕ)
    rw [hcnt, cInt_of_lt (by omega) (by omega)]
    rfl
  · change 0 ≤ out
    split at hstep <;> omega
  · change 1 ≤ out
    split at hstep
    · omega
    · have := hsig (by omega)
      omega
  · change (d.cq.length : ℤ) = ((p + 1) % 32 : ℕ) + 32 * out
    rw [hcq, List.length_append, List.length_singleton]
    change ((s.dev.cq.length + 1 : ℕ) : ℤ) = _
    split at hstep <;> omega
  · change e ∈ d.cq at he
    rw [hcq] at he
    rcases List.mem_append.mp he with he | he
    · exact hfailed e he
    · rw [List.mem_singleton.mp he]
      exact hbad
  · change d.Failing k
    rcases eq_or_ne k s.q with rfl | hne
    · exact hfail.write hsq hcq
    · refine (hqueue k hk).congr (hothers k hne) ?_
      rw [Device.cqOf, hcq, List.filter_append, List.map_append, ← Device.cqOf]
      simp [hne.symm]
      rfl

/-- **The throttle**, when it calls, is given 32 failures. -/
theorem Backlog.exists_throttle {p : ℕ} (h : Backlog bctx p s) (hpc : s.pc = .throttle)
    (hout : s.outstandingCqes ≤ 8) :
    ∃ b, (benchLts bctx maxSendWr).Path Lts.any s b ∧ b.pc = .measure ∧ b.i = s.i ∧
      b.q = s.q + 1 ∧ b.outstandingCqes < 8 ∧ Backlog bctx p b := by
  have ht := throttleAt_eq bctx.cfg
  by_cases ho : s.outstandingCqes ≥ throttleAt bctx.cfg
  · obtain ⟨hcnt, hnn, hsig, hlen, hfailed, hqueue⟩ := h
    have height : s.outstandingCqes = 8 := by omega
    have hcall : (benchLts bctx maxSendWr).step s .cpu (s.callPoll .throttle 1) :=
      (BenchStep.throttleCall hpc ho).next
    obtain ⟨es, d, hpoll, hrest, -, hstep⟩ :=
      @exists_failedPoll bctx maxSendWr (s.callPoll .throttle 1) _ _ _ 32 hfailed rfl (by decide)
        (by decide) le_rfl (by
          change 32 ≤ s.dev.cq.length
          omega)
    have hseven : cInt (s.outstandingCqes - 1) = 7 := by rw [height]; rfl
    refine ⟨_, (Lts.Path.single (l := .cpu) trivial hcall).tail trivial hstep, rfl, rfl, rfl, ?_,
      ⟨hcnt, ?_, fun _ => ?_, ?_, fun e he => ?_, fun k hk => (hqueue k hk).poll hpoll⟩⟩
    · change cInt (s.outstandingCqes - 1) < 8
      omega
    · change 0 ≤ cInt (s.outstandingCqes - 1)
      omega
    · change 1 ≤ cInt (s.outstandingCqes - 1)
      omega
    · change (d.cq.length : ℤ) = (p % 32 : ℕ) + 32 * cInt (s.outstandingCqes - 1)
      rw [hrest, List.length_drop]
      change ((s.dev.cq.length - 32 : ℕ) : ℤ) = _
      omega
    · change e ∈ d.cq at he
      rw [hrest] at he
      exact hfailed e (List.mem_of_mem_drop he)
  · have hskip : BenchStep bctx maxSendWr s .cpu { s with pc := .measure, q := s.q + 1 } :=
      .throttleSkip hpc ho
    exact ⟨_, .single (l := .cpu) trivial hskip.next, rfl, rfl, rfl, (not_le.mp ho).trans_eq ht,
      ⟨h.signalCnt, h.nonneg, h.signaled, h.length, h.failed, h.queue⟩⟩

/-- **Such a measurement runs to the final drain.** -/
theorem exists_measure_backlog (hcap : ∀ m ∈ maxSendWr, bctx.cfg.sqDepth ≤ m)
    (hno : bctx.cfg.iterations * bctx.cfg.qpCount < 2 ^ 31) (hpc : s.pc = .measure) (hi : s.i = 0)
    (hq : s.q = 0) (hout : s.outstandingCqes = 0) (h : Backlog bctx 0 s) :
    ∃ b, (benchLts bctx maxSendWr).Path Lts.any s b ∧ b.pc = .drain ∧
      Backlog bctx (bctx.cfg.iterations * bctx.cfg.qpCount) b := by
  let R : ℕ → ℕ → BenchState → Prop := fun i q a => a.pc = .measure ∧ a.i = i ∧ a.q = q ∧
    a.outstandingCqes < 8 ∧ Backlog bctx (i * bctx.cfg.qpCount + q) a
  have hstart : R 0 0 s := by
    refine ⟨hpc, hi, hq, by omega, ?_⟩
    rwa [Nat.zero_mul]
  have hturn : ∀ i < bctx.cfg.iterations, ∀ q < bctx.cfg.qpCount, ∀ a, R i q a →
      ∃ b, (benchLts bctx maxSendWr).Path Lts.any a b ∧ R i (q + 1) b := by
    rintro i hi q hq a ⟨hpc, rfl, rfl, hout, ha⟩
    have hlt := Nat.succ_le_of_lt (position_lt hi hq)
    obtain ⟨b, hpath, hpcb, hib, hqb, houtb, hb⟩ :=
      ha.exists_write hcap (by omega) hpc hi hq hout
    obtain ⟨c, hpath', hpcc, hic, hqc, houtc, hc⟩ := hb.exists_throttle hpcb houtb
    exact ⟨c, hpath.trans hpath', hpcc, hic.trans hib, by rw [hqc, hqb], houtc, hc⟩
  have hnext : ∀ i < bctx.cfg.iterations, ∀ a, R i bctx.cfg.qpCount a →
      ∃ b, (benchLts bctx maxSendWr).Path Lts.any a b ∧ R (i + 1) 0 b := by
    rintro i hi a ⟨hpc, rfl, hq, hout, ha⟩
    have hstep : BenchStep bctx maxSendWr a .cpu { a with i := a.i + 1, q := 0 } :=
      .measureNext hpc hi (by omega)
    refine ⟨_, .single (l := .cpu) trivial hstep.next, hpc, rfl, rfl, hout, ?_⟩
    rw [Nat.succ_mul]
    exact ⟨ha.signalCnt, ha.nonneg, ha.signaled, ha.length, ha.failed, ha.queue⟩
  obtain ⟨a, hpath, hpca, hia, -, -, ha⟩ :=
    Lts.Path.exists_nested hstart hturn hnext (Or.inr ⟨rfl, rfl⟩)
  have hexit : BenchStep bctx maxSendWr a .cpu { a with pc := .drain } :=
    .measureExit hpca (by rw [hia]; exact Nat.lt_irrefl _)
  exact ⟨_, hpath.tail (l := .cpu) trivial hexit.next, rfl,
    ⟨ha.signalCnt, ha.nonneg, ha.signaled, ha.length, ha.failed, ha.queue⟩⟩

/-- **The final drain is given a failure**, and the end is reached. -/
theorem Backlog.exists_finished {p : ℕ} (h : Backlog bctx p s) (hpc : s.pc = .drain)
    (hp : 32 ≤ p) :
    ∃ a b, (benchLts bctx maxSendWr).Path Lts.any s a ∧ PollsFailure a (.pollCq 1) ∧
      (benchLts bctx maxSendWr).step a (.pollCq 1) b ∧ b.pc = .finished := by
  have hpos := h.signaled hp
  have hlen := h.length
  have hcall : (benchLts bctx maxSendWr).step s .cpu (s.callPoll .drain s.outstandingCqes) :=
    (BenchStep.drainCall hpc (by omega)).next
  obtain ⟨es, d, -, -, hfail, hstep⟩ :=
    @exists_failedPoll bctx maxSendWr (s.callPoll .drain s.outstandingCqes) _ _ _ 1 h.failed rfl
      (by omega) one_pos (by decide) (by
        change 1 ≤ s.dev.cq.length
        omega)
  exact ⟨_, _, .single (l := .cpu) trivial hcall, hfail, hstep, rfl⟩

/-- **A measurement that signals nothing**, in front of the post on queue pair `q` in turn `i`: what
a queue holds is at most what the warm-up has left on it and what has been posted on it since. -/
structure Silent (bctx : BenchCtx) (i q : ℕ) (s : BenchState) : Prop where
  pc : s.pc = .measure
  turn : s.i = i
  queue : s.q = q
  signalCnt : s.signalCnt = (i * bctx.cfg.qpCount + q : ℕ)
  outstanding : s.outstandingCqes = 0
  held : ∀ k < bctx.cfg.qpCount, (s.dev.sq k).held ≤ 31 + roundRobin i q k

/-- Its posts find a slot, are not signaled, and the throttle lets them by. -/
theorem Silent.exists_post (hcap : ∀ m ∈ maxSendWr, bctx.cfg.sqDepth ≤ m)
    (hfew : bctx.cfg.iterations * bctx.cfg.qpCount < 32) {i q : ℕ} (hi : i < bctx.cfg.iterations)
    (hq : q < bctx.cfg.qpCount) (h : Silent bctx i q s) :
    ∃ b, (benchLts bctx maxSendWr).Path Lts.any s b ∧ Silent bctx i (q + 1) b := by
  obtain ⟨hpc, rfl, rfl, hcnt, hout, hheld⟩ := h
  have hrounds : bctx.cfg.iterations < 32 :=
    (Nat.le_mul_of_pos_right _ bctx.cfg.qpCount_pos).trans_lt hfew
  have hlt := position_lt hi hq
  have hself := hheld s.q hq
  rw [roundRobin_self] at hself
  have hdepth : bctx.cfg.sqDepth = 512 := rfl
  have hsig : measureSignaled s.signalCnt = false := by
    rw [Bool.eq_false_iff, hcnt,
      ← cInt_natCast (by omega : s.i * bctx.cfg.qpCount + s.q < 2 ^ 31)]
    intro hsig
    have := mod_of_measureSignaled hsig
    omega
  have hroom : (s.dev.sq s.q).hasRoom maxSendWr = true :=
    SendQueue.hasRoom_of_held hcap (by omega)
  have hpost := BenchStep.measurePost hpc hi hq hroom
  rw [hsig] at hpost
  have hskip : BenchStep bctx maxSendWr { s with
      pc := .throttle
      signalCnt := cInt (s.signalCnt + 1)
      outstandingCqes := s.outstandingCqes
      dev := s.dev.post s.q (postRdmaWrite bctx s.q false) } .cpu _ :=
    .throttleSkip rfl (by
      rw [throttleAt_eq]
      dsimp only
      omega)
  refine ⟨_, (Lts.Path.single (l := .postSend true) trivial hpost.next).tail (l := .cpu) trivial
    hskip.next, rfl, rfl, rfl, ?_, hout, fun k hk => ?_⟩
  · dsimp only
    rw [hcnt, cInt_of_lt (by omega) (by omega)]
    rfl
  · dsimp only
    rcases eq_or_ne k s.q with rfl | hne
    · rw [Device.post_sq_self, roundRobin_succ_self]
      simp only [SendQueue.held, SendQueue.post, List.length_append, List.length_singleton]
        at hself ⊢
      omega
    · rw [Device.post_sq_of_ne _ _ hne, roundRobin_succ_of_ne hne]
      exact hheld k hk

/-- A turn over all queue pairs is followed by the next. -/
theorem Silent.exists_next {i : ℕ} (hi : i < bctx.cfg.iterations)
    (h : Silent bctx i bctx.cfg.qpCount s) :
    ∃ b, (benchLts bctx maxSendWr).Path Lts.any s b ∧ Silent bctx (i + 1) 0 b := by
  obtain ⟨hpc, rfl, hq, hcnt, hout, hheld⟩ := h
  have hstep : BenchStep bctx maxSendWr s .cpu { s with i := s.i + 1, q := 0 } :=
    .measureNext hpc hi (by omega)
  refine ⟨_, .single (l := .cpu) trivial hstep.next, hpc, rfl, rfl, ?_, hout, fun k hk => ?_⟩
  · rw [Nat.succ_mul]
    exact hcnt
  · rw [roundRobin_next hk]
    exact hheld k hk

/-- **A measurement of fewer than 32 writes** runs to its end without a poll. -/
theorem exists_finished_short (hcap : ∀ m ∈ maxSendWr, bctx.cfg.sqDepth ≤ m)
    (hfew : bctx.cfg.iterations * bctx.cfg.qpCount < 32) (hpc : s.pc = .measure) (hi : s.i = 0)
    (hq : s.q = 0) (hcnt : s.signalCnt = 0) (hout : s.outstandingCqes = 0)
    (hheld : ∀ k < bctx.cfg.qpCount, (s.dev.sq k).held ≤ 31) :
    ∃ b, (benchLts bctx maxSendWr).Path Lts.any s b ∧ b.pc = .finished := by
  have hstart : Silent bctx 0 0 s := by
    refine ⟨hpc, hi, hq, ?_, hout, fun k hk => (hheld k hk).trans (Nat.le_add_right _ _)⟩
    rw [hcnt, Nat.zero_mul]
    rfl
  obtain ⟨a, hpath, ha⟩ := Lts.Path.exists_nested hstart
    (fun i hi q hq _ ha => ha.exists_post hcap hfew hi hq) (fun i hi _ ha => ha.exists_next hi)
    (Or.inr ⟨rfl, rfl⟩)
  have hexit : BenchStep bctx maxSendWr a .cpu { a with pc := .drain } :=
    .measureExit ha.pc (by rw [ha.turn]; exact Nat.lt_irrefl _)
  have hskip : BenchStep bctx maxSendWr { a with pc := .drain } .cpu { a with pc := .finished } :=
    .drainSkip rfl (by dsimp only; have := ha.outstanding; omega)
  have hdrain : (benchLts bctx maxSendWr).Path Lts.any s _ :=
    hpath.tail (l := .cpu) trivial hexit.next
  exact ⟨_, hdrain.tail (l := .cpu) trivial hskip.next, rfl⟩

end Measurement

/-! ### The warm-up -/

section Warmup

variable {bctx : BenchCtx} {maxSendWr : Option ℕ} {s : BenchState}

/-- **A queue pair in the warm-up**: `n` writes have been posted on it, and `a` times 32 of them
have succeeded and given their slots back. -/
structure WarmupQueue (n a : ℕ) (sq : SendQueue) : Prop where
  length : sq.wrs.length = n
  done : sq.done = 32 * a
  retired : sq.retired = 32 * a
  not_failed : sq.failed = false
  flag : ∀ i < n, sq.signaledAt i = warmupSignaled i

/-- A write of the warm-up is posted on it. -/
theorem WarmupQueue.post {n : ℕ} {sq : SendQueue} (h : WarmupQueue n 0 sq) (q : ℕ) :
    WarmupQueue (n + 1) 0 (sq.post (postRdmaWrite bctx q (warmupSignaled n))) where
  length := by rw [SendQueue.post, List.length_append, h.length, List.length_singleton]
  done := h.done
  retired := h.retired
  not_failed := h.not_failed
  flag i hi := by
    rcases Nat.lt_succ_iff_lt_or_eq.mp hi with hlt | rfl
    · rw [SendQueue.signaledAt_post_of_lt (by rw [h.length]; exact hlt)]
      exact h.flag i hlt
    · have hlast := SendQueue.signaledAt_post_length sq (postRdmaWrite bctx q (warmupSignaled i))
      rw [h.length] at hlast
      rw [hlast, postRdmaWrite_signaled]

/-- What is left of the warm-up, its last incomplete round, holds at most 31 slots, and none of it
is signaled. -/
theorem WarmupQueue.failing {n : ℕ} {d : Device} {k : ℕ} (h : WarmupQueue n (n / 32) (d.sq k))
    (hcq : d.cq = []) : d.Failing k := by
  have hown : d.cqOf k = [] := by rw [Device.cqOf, hcq]; rfl
  refine ⟨?_, ?_, ?_, ?_, fun _ i hge hlt => ?_, fun hcon => ?_⟩
  · rw [hown]
    exact Nat.zero_le _
  · rw [hown]
    rfl
  · rw [hown, h.length, h.retired, List.length_nil]
    omega
  · rw [h.done, h.length]
    omega
  · rw [h.done] at hge
    rw [h.length] at hlt
    rw [h.flag i hlt, Bool.eq_false_iff]
    intro hsig
    have := warmupSignaled_iff.mp hsig
    omega
  · rw [h.not_failed] at hcon
    cases hcon

/-- **The next signaled write of a queue pair completes**, with the unsignaled ones in front of it,
and its completion is the only one in the queue. -/
theorem exists_round {k n a : ℕ} (status : WcStatus) (h : WarmupQueue n a (s.dev.sq k))
    (hle : 32 * (a + 1) ≤ n) (hcq : s.dev.cq = []) :
    ∃ d e d', (benchLts bctx maxSendWr).Path Lts.any s { s with dev := d } ∧ d.cq = [e] ∧
      e.status = status ∧ d.poll 1 = some ([e], d') ∧ d'.cq = [] ∧
      d'.sq k = ⟨(s.dev.sq k).wrs, 32 * (a + 1), 32 * (a + 1), status != .success⟩ ∧
      ∀ j, j ≠ k → d'.sq j = s.dev.sq j := by
  obtain ⟨hlen, hdone, hret, hok, hflag⟩ := h
  let sq : SendQueue := { s.dev.sq k with done := 32 * a + 31 }
  have hsilent : (benchLts bctx maxSendWr).Path Lts.any s { s with dev := s.dev.setSq k sq } := by
    have hpath : (benchLts bctx maxSendWr).Path Lts.any s _ :=
      path_completeSilent (k := k) (j := 31) (by omega) hok (fun i hge hlt => by
        rw [hflag i (by omega), Bool.eq_false_iff]
        intro hsig
        have := warmupSignaled_iff.mp hsig
        omega)
    rw [hdone] at hpath
    exact hpath
  have hsq : (s.dev.setSq k sq).sq k = sq := Device.setSq_sq_self _ _ _
  have hlt : 32 * a + 31 < (s.dev.sq k).wrs.length := by omega
  have hsig : ((s.dev.sq k).wrs.get ⟨_, hlt⟩).signaled = true := by
    have := hflag (32 * a + 31) (by omega)
    rw [SendQueue.signaledAt, List.getElem?_eq_getElem hlt] at this
    exact this.trans (warmupSignaled_iff.mpr (by omega))
  -- the completion of the signaled one
  let e : Cqe := ⟨k, 32 * a + 31, status⟩
  let d : Device := { s.dev.setSq k { sq with
      done := 32 * a + 31 + 1
      failed := status != .success } with
    cq := [e] }
  have hcomp : (s.dev.setSq k sq).complete k status = some d := by
    have hnil : (s.dev.setSq k sq).cq = [] := hcq
    rw [@Device.complete_of _ k ((s.dev.sq k).wrs.get ⟨_, hlt⟩) _
      (by rw [hsq]; exact List.getElem?_eq_getElem hlt) (by
        rw [hsq]
        intro hcon
        rw [show sq.failed = (s.dev.sq k).failed from rfl, hok] at hcon
        cases hcon), if_pos (Or.inl hsig), hsq, hnil, Device.setSq_setSq]
    simp only [sq, hok, Bool.false_or, List.nil_append]
    rfl
  have hd : d.sq k = { sq with done := 32 * a + 31 + 1, failed := status != .success } :=
    Device.setSq_sq_self _ _ _
  refine ⟨d, e, _, hsilent.tail trivial (BenchStep.complete k status _ hcomp).next, rfl, rfl,
    Device.poll_singleton rfl, rfl, ?_, fun j hj => ?_⟩
  · change (d.setSq k ((d.sq k).retire (32 * a + 31))).sq k = _
    rw [Device.setSq_sq_self, hd]
    rfl
  · change (d.setSq k ((d.sq k).retire (32 * a + 31))).sq j = _
    rw [Device.setSq_sq_of_ne _ _ hj]
    exact Device.setSq_sq_of_ne _ _ hj

/-- **A warm-up of which the NIC completes nothing**, in front of the post on queue pair `q` in turn
`i`. -/
structure Pending (bctx : BenchCtx) (i q : ℕ) (s : BenchState) : Prop where
  pc : s.pc = .warmup
  turn : s.i = i
  queuePair : s.q = q
  outstanding : s.outstandingCqes = cInt (warmupMarks bctx.cfg.qpCount i q)
  cq : s.dev.cq = []
  queue : ∀ k < bctx.cfg.qpCount, WarmupQueue (roundRobin i q k) 0 (s.dev.sq k)

theorem Pending.start : Pending bctx 0 0 benchStart := by
  refine ⟨rfl, rfl, rfl, ?_, rfl, fun k _ => ?_⟩
  · rw [warmupMarks_zero]
    simp [benchStart]
    rfl
  · exact ⟨rfl, rfl, rfl, rfl, fun i hi => absurd hi (Nat.not_lt_zero i)⟩

/-- Its posts find a slot where all of the warm-up fits. -/
theorem Pending.exists_post (hfit : ∀ m ∈ maxSendWr, bctx.cfg.warmup ≤ m) {i q : ℕ}
    (hi : i < bctx.cfg.warmup) (hq : q < bctx.cfg.qpCount) (h : Pending bctx i q s) :
    ∃ b, (benchLts bctx maxSendWr).Path Lts.any s b ∧ Pending bctx i (q + 1) b := by
  obtain ⟨hpc, rfl, rfl, hout, hcq, hqueue⟩ := h
  have hself := hqueue s.q hq
  rw [roundRobin_self] at hself
  have hroom : (s.dev.sq s.q).hasRoom maxSendWr = true := by
    refine SendQueue.hasRoom_of_held hfit ?_
    rw [SendQueue.held, hself.length, hself.retired]
    omega
  have hstep := (BenchStep.warmupPost hpc hi hq hroom).next
  refine ⟨_, .single (l := .postSend true) trivial hstep, hpc, rfl, rfl, ?_, hcq, fun k hk => ?_⟩
  · dsimp only
    rw [warmupMarks_succ, hout]
    split
    · rw [cInt_cInt_add]
      rfl
    · rfl
  · dsimp only
    rcases eq_or_ne k s.q with rfl | hne
    · rw [Device.post_sq_self, roundRobin_succ_self]
      exact hself.post s.q
    · rw [Device.post_sq_of_ne _ _ hne, roundRobin_succ_of_ne hne]
      exact hqueue k hk

/-- A turn over all queue pairs is followed by the next. -/
theorem Pending.exists_next {i : ℕ} (hi : i < bctx.cfg.warmup)
    (h : Pending bctx i bctx.cfg.qpCount s) :
    ∃ b, (benchLts bctx maxSendWr).Path Lts.any s b ∧ Pending bctx (i + 1) 0 b := by
  obtain ⟨hpc, rfl, hq, hout, hcq, hqueue⟩ := h
  have hstep : (benchLts bctx maxSendWr).step s .cpu _ :=
    (BenchStep.warmupNext hpc hi (by omega)).next
  refine ⟨_, .single (l := .cpu) trivial hstep, hpc, rfl, rfl, ?_, hcq, fun k hk => ?_⟩
  · rw [warmupMarks_next]
    exact hout
  · rw [roundRobin_next hk]
    exact hqueue k hk

/-- **Such a warm-up comes to its drain**, with everything still to complete. -/
theorem exists_warmup_pending (hfit : ∀ m ∈ maxSendWr, bctx.cfg.warmup ≤ m) :
    ∃ s, (benchLts bctx maxSendWr).Reach Lts.any s ∧ s.pc = .warmupDrain ∧
      s.outstandingCqes = cInt (warmupCqes bctx.cfg) ∧ s.dev.cq = [] ∧
      ∀ k < bctx.cfg.qpCount, WarmupQueue bctx.cfg.warmup 0 (s.dev.sq k) := by
  obtain ⟨s, hpath, hpc, hi, hq, hout, hcq, hqueue⟩ := Lts.Path.exists_nested Pending.start
    (fun i hi q hq _ ha => ha.exists_post hfit hi hq) (fun i hi _ ha => ha.exists_next hi)
    (Or.inr ⟨rfl, rfl⟩)
  have hr : (benchLts bctx maxSendWr).Reach Lts.any s := (Lts.Reach.of_init rfl).trans hpath
  have hexit : BenchStep bctx maxSendWr s .cpu { s with pc := .warmupDrain } :=
    .warmupExit hpc (by omega)
  refine ⟨_, hr.tail (l := .cpu) trivial hexit.next, rfl, ?_, hcq, hqueue⟩
  rw [warmupMarks_zero] at hout
  exact hout

/-- **The drain of the warm-up**, with its first completions reaped: those of the first `i` rounds
of signaled writes, and of `q` in the next. -/
structure Reaped (bctx : BenchCtx) (i q : ℕ) (s : BenchState) : Prop where
  pc : s.pc = .poll .warmupDrain (warmupCqes bctx.cfg) (i * bctx.cfg.qpCount + q : ℕ)
  cq : s.dev.cq = []
  queue : ∀ k < bctx.cfg.qpCount, WarmupQueue bctx.cfg.warmup (roundRobin i q k) (s.dev.sq k)

/-- One more completion is reaped. -/
theorem Reaped.exists_poll (hno : warmupCqes bctx.cfg < 2 ^ 31) {i q : ℕ}
    (hi : i < bctx.cfg.warmup / 32) (hq : q < bctx.cfg.qpCount) (h : Reaped bctx i q s) :
    ∃ b, (benchLts bctx maxSendWr).Path Lts.any s b ∧ Reaped bctx i (q + 1) b := by
  have hself := h.queue q hq
  rw [roundRobin_self] at hself
  obtain ⟨d, e, d', hpath, -, hsucc, hpoll, hcq', hsq, hothers⟩ :=
    @exists_round bctx maxSendWr s q _ _ .success hself (by omega) h.cq
  have hlt : i * bctx.cfg.qpCount + q < warmupCqes bctx.cfg := position_lt hi hq
  have hmore : BenchStep bctx maxSendWr { s with dev := d } (.pollCq 1) _ :=
    .pollMore .warmupDrain _ _ 1 [e] d' h.pc (by omega) (by decide) hpoll (by simpa using hsucc)
  refine ⟨_, hpath.tail trivial hmore.next, ?_, hcq', fun k hk => ?_⟩
  · dsimp only
    rw [cInt_of_lt (by omega) (by omega)]
    rfl
  · dsimp only
    rcases eq_or_ne k q with rfl | hne
    · rw [hsq, roundRobin_succ_self]
      exact ⟨hself.length, rfl, rfl, rfl, hself.flag⟩
    · rw [hothers k hne, roundRobin_succ_of_ne hne]
      exact h.queue k hk

/-- A round of all queue pairs is the start of the next. -/
theorem Reaped.next {i : ℕ} (h : Reaped bctx i bctx.cfg.qpCount s) : Reaped bctx (i + 1) 0 s := by
  refine ⟨?_, h.cq, fun k hk => ?_⟩
  · rw [Nat.succ_mul]
    exact h.pc
  · rw [roundRobin_next hk]
    exact h.queue k hk

/-- **The drain can be at every such place.** -/
theorem exists_drained (hfit : ∀ m ∈ maxSendWr, bctx.cfg.warmup ≤ m)
    (hno : warmupCqes bctx.cfg < 2 ^ 31) (hw : 32 ≤ bctx.cfg.warmup) {i q : ℕ}
    (hiq : i < bctx.cfg.warmup / 32 ∧ q ≤ bctx.cfg.qpCount ∨
      i = bctx.cfg.warmup / 32 ∧ q = 0) :
    ∃ s, (benchLts bctx maxSendWr).Reach Lts.any s ∧ Reaped bctx i q s := by
  obtain ⟨s, hr, hpc, hout, hcq, hqueue⟩ := exists_warmup_pending hfit
  rw [cInt_natCast hno] at hout
  have hsome : 0 < warmupCqes bctx.cfg := Nat.mul_pos (by omega) bctx.cfg.qpCount_pos
  have hcall : (benchLts bctx maxSendWr).step s .cpu (s.callPoll .warmupDrain s.outstandingCqes) :=
    (BenchStep.warmupDrainCall hpc (by omega)).next
  have hstart : Reaped bctx 0 0 (s.callPoll .warmupDrain s.outstandingCqes) := by
    refine ⟨?_, hcq, hqueue⟩
    rw [BenchState.callPoll, hout, Nat.zero_mul]
    rfl
  obtain ⟨b, hpath, hb⟩ := Lts.Path.exists_nested hstart
    (fun i hi q hq _ ha => ha.exists_poll hno hi hq)
    (fun i _ a ha => ⟨a, Lts.Path.refl a, ha.next⟩) hiq
  exact ⟨b, (hr.tail (l := .cpu) trivial hcall).trans hpath, hb⟩

/-- **The measurement can start with an empty completion queue** and nothing but the leftover of the
warm-up on the queue pairs. -/
theorem exists_startMeasure (hfit : ∀ m ∈ maxSendWr, bctx.cfg.warmup ≤ m)
    (hno : warmupCqes bctx.cfg < 2 ^ 31) :
    ∃ s : BenchState, (benchLts bctx maxSendWr).Reach Lts.any s.startMeasure ∧ s.dev.cq = [] ∧
      ∀ k < bctx.cfg.qpCount,
        WarmupQueue bctx.cfg.warmup (bctx.cfg.warmup / 32) (s.dev.sq k) := by
  rcases Nat.lt_or_ge bctx.cfg.warmup 32 with hfew | hw
  · -- nothing is signaled, and the drain is skipped
    have hzero : bctx.cfg.warmup / 32 = 0 := by omega
    obtain ⟨s, hr, hpc, hout, hcq, hqueue⟩ := exists_warmup_pending hfit
    rw [cInt_natCast hno, warmupCqes, hzero, Nat.zero_mul] at hout
    have hskip : (benchLts bctx maxSendWr).step s .cpu s.startMeasure :=
      (BenchStep.warmupDrainSkip hpc (by omega)).next
    rw [hzero]
    exact ⟨s, hr.tail (l := .cpu) trivial hskip, hcq, hqueue⟩
  · obtain ⟨s, hr, hpc, hcq, hqueue⟩ := exists_drained hfit hno hw (Or.inr ⟨rfl, rfl⟩)
    have hret : (benchLts bctx maxSendWr).step s .cpu s.startMeasure :=
      (BenchStep.pollReturn .warmupDrain _ _ hpc (lt_irrefl _)).next
    exact ⟨s, hr.tail (l := .cpu) trivial hret, hcq, hqueue⟩

/-- **The last completion of the warm-up may be a failure**: the drain returns, and the measurement
starts. -/
theorem exists_startMeasure_failed (hfit : ∀ m ∈ maxSendWr, bctx.cfg.warmup ≤ m)
    (hno : warmupCqes bctx.cfg < 2 ^ 31) (hw : 32 ≤ bctx.cfg.warmup) :
    ∃ a b : BenchState, (benchLts bctx maxSendWr).Reach Lts.any a ∧ PollsFailure a (.pollCq 1) ∧
      (benchLts bctx maxSendWr).step a (.pollCq 1) b.startMeasure ∧
      ∀ k < bctx.cfg.qpCount, (b.dev.sq k).held ≤ 31 := by
  have hpos := bctx.cfg.qpCount_pos
  have hq : bctx.cfg.qpCount - 1 < bctx.cfg.qpCount := by omega
  obtain ⟨s, hr, hpc, hcq, hqueue⟩ := exists_drained (i := bctx.cfg.warmup / 32 - 1)
    (q := bctx.cfg.qpCount - 1) hfit hno hw (Or.inl ⟨by omega, by omega⟩)
  have hself := hqueue _ hq
  rw [roundRobin_self] at hself
  obtain ⟨d, e, d', hpath, hcqd, hbad, hpoll, -, hsq, hothers⟩ :=
    @exists_round bctx maxSendWr s _ _ _ .remAccessErr hself (by omega) hcq
  have hlt : (bctx.cfg.warmup / 32 - 1) * bctx.cfg.qpCount + (bctx.cfg.qpCount - 1) <
      warmupCqes bctx.cfg := position_lt (by omega) hq
  have hne : ∃ e' ∈ [e], e'.status ≠ .success :=
    ⟨e, List.mem_singleton_self e, by rw [hbad]; decide⟩
  have hfail : BenchStep bctx maxSendWr { s with dev := d } (.pollCq 1) _ :=
    .pollFailed .warmupDrain _ _ 1 [e] d' hpc (by omega) (by decide) hpoll hne
  refine ⟨_, { s with dev := d' }, hr.trans hpath, ⟨1, [e], d', rfl, hpoll, hne⟩, hfail.next,
    fun k hk => ?_⟩
  dsimp only
  rcases eq_or_ne k (bctx.cfg.qpCount - 1) with rfl | hkq
  · rw [hsq, SendQueue.held]
    dsimp only
    rw [hself.length]
    omega
  · -- the queue pairs in front of the last one have had their last completion
    have hround := roundRobin_next (i := bctx.cfg.warmup / 32 - 1) (k := k)
      (q := bctx.cfg.qpCount - 1) (by omega)
    have hk' := hqueue k hk
    rw [← hround] at hk'
    simp only [roundRobin, Nat.not_lt_zero, if_false, Nat.add_zero] at hk'
    rw [hothers k hkq, SendQueue.held, hk'.length, hk'.retired]
    omega

end Warmup

/-- **A run that polls a failed completion and reaches the end**: on a device that gives what is
asked for, where the warm-up fits and no counter leaves `int`, and either phase posts a signaled
write. -/
theorem exists_finished_after_failure {bctx : BenchCtx} {maxSendWr : Option ℕ}
    (hcap : ∀ m ∈ maxSendWr, bctx.cfg.sqDepth ≤ m) (hfit : ∀ m ∈ maxSendWr, bctx.cfg.warmup ≤ m)
    (hwarmup : warmupCqes bctx.cfg < 2 ^ 31)
    (hmeasure : bctx.cfg.iterations * bctx.cfg.qpCount < 2 ^ 31)
    (h : 32 ≤ bctx.cfg.warmup ∨ 32 ≤ bctx.cfg.iterations * bctx.cfg.qpCount) :
    ∃ a l b s, (benchLts bctx maxSendWr).Reach Lts.any a ∧ (benchLts bctx maxSendWr).step a l b ∧
      PollsFailure a l ∧ (benchLts bctx maxSendWr).Path Lts.any b s ∧ s.pc = .finished := by
  rcases Nat.lt_or_ge (bctx.cfg.iterations * bctx.cfg.qpCount) 32 with hfew | hmany
  · -- the warm-up has the only failure
    obtain ⟨a, b, hr, hfail, hstep, hheld⟩ :=
      exists_startMeasure_failed hfit hwarmup (h.resolve_right (by omega))
    obtain ⟨c, hpath, hfin⟩ :=
      exists_finished_short (s := b.startMeasure) hcap hfew rfl rfl rfl rfl rfl hheld
    exact ⟨a, _, _, c, hr, hstep, hfail, hpath, hfin⟩
  · -- the final drain is given one
    obtain ⟨s, hr, hcq, hqueue⟩ := exists_startMeasure hfit hwarmup
    have hempty : Backlog bctx 0 s.startMeasure :=
      ⟨rfl, le_rfl, fun hcon => absurd hcon (by decide), by
        change (s.dev.cq.length : ℤ) = _
        rw [hcq]
        rfl, fun e he => by
          change e ∈ s.dev.cq at he
          rw [hcq] at he
          exact absurd he List.not_mem_nil, fun k hk => (hqueue k hk).failing hcq⟩
    obtain ⟨b, hpath, hpcb, hb⟩ := exists_measure_backlog hcap hmeasure rfl rfl rfl rfl hempty
    obtain ⟨c, e, hpath', hfail, hstep, hfin⟩ := hb.exists_finished hpcb hmany
    exact ⟨c, _, e, e, (hr.trans hpath).trans hpath', hstep, hfail, Lts.Path.refl e, hfin⟩

end RdmaBook
