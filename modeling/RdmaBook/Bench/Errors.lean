import RdmaBook.Bench.Failing

/-!
# rdma_bench: what becomes of a failed completion

`poll_completions` returns `-1` when a completion is not a success, and none of its three callers
looks at the value. So a run in which a failed completion is polled goes on to its end timestamp
like any other (`RdmaBook.exists_finished_after_failure`). The runs that cannot do this are those
that poll nothing (`RdmaBook.PollsNothing`): the warm-up does not fit into a send queue, so the
program dies in front of its first poll, or neither phase posts a signaled write.

That is enough on every device (`RdmaBook.FailureReported.of_pollsNothing`), and exact on the
devices that give the slots that are asked for, as long as the two counters are `int`s
(`RdmaBook.failure_reported_iff`). The invariants are about the program alone and allow every
failure (`RdmaBook.Quiet`, `RdmaBook.Crowded`). -/

namespace RdmaBook

/-! ### Runs without a signaled write -/

section Quiet

variable {bctx : BenchCtx} {maxSendWr : Option ℕ} {s s' : BenchState} {l : BenchLabel}

/-- **The invariant of a benchmark without signaled writes**: `outstanding_cqes`
never becomes positive where it is tested. -/
def Quiet (cfg : BenchConfig) (s : BenchState) : Prop :=
  match s.pc with
  | .warmup => s.i ≤ cfg.warmup ∧ s.q ≤ cfg.qpCount ∧ (s.i = cfg.warmup → s.q = 0) ∧
      s.outstandingCqes = cInt (warmupMarks cfg.qpCount s.i s.q)
  | .warmupDrain => s.outstandingCqes ≤ 0
  | .measure => s.i ≤ cfg.iterations ∧ s.q ≤ cfg.qpCount ∧ (s.i = cfg.iterations → s.q = 0) ∧
      s.signalCnt = cInt (s.i * cfg.qpCount + s.q : ℕ) ∧ s.outstandingCqes = 0
  | .throttle => s.i < cfg.iterations ∧ s.q < cfg.qpCount ∧
      s.signalCnt = cInt (s.i * cfg.qpCount + s.q + 1 : ℕ) ∧ s.outstandingCqes = 0
  | .drain => s.outstandingCqes = 0
  | .poll _ _ _ => False
  | .finished => True
  | .died _ => True

/-- A write of the warm-up keeps the counter at the number of the signaled ones. -/
theorem Quiet.warmupPost {dev : Device} (h : Quiet bctx.cfg s) (hpc : s.pc = .warmup)
    (hi : s.i < bctx.cfg.warmup) (hq : s.q < bctx.cfg.qpCount) :
    Quiet bctx.cfg { s with
      q := s.q + 1
      outstandingCqes :=
        if warmupSignaled s.i then cInt (s.outstandingCqes + 1) else s.outstandingCqes
      dev := dev } := by
  rw [Quiet, hpc] at h
  obtain ⟨hle, -, -, hout⟩ := h
  simp only [Quiet, hpc]
  refine ⟨hle, hq, fun hcon => by omega, ?_⟩
  rw [warmupMarks_succ, hout]
  split
  · rw [cInt_cInt_add]
    rfl
  · rfl

/-- With fewer than 32 writes, none of the measurement is signaled. -/
theorem Quiet.measurePost {dev : Device} (hm : bctx.cfg.iterations * bctx.cfg.qpCount < 32)
    (h : Quiet bctx.cfg s) (hpc : s.pc = .measure) (hi : s.i < bctx.cfg.iterations)
    (hq : s.q < bctx.cfg.qpCount) :
    Quiet bctx.cfg { s with
      pc := .throttle
      signalCnt := cInt (s.signalCnt + 1)
      outstandingCqes :=
        if measureSignaled s.signalCnt then cInt (s.outstandingCqes + 1) else s.outstandingCqes
      dev := dev } := by
  rw [Quiet, hpc] at h
  obtain ⟨-, -, -, hcnt, hout⟩ := h
  have hlt := position_lt hi hq
  have hsig : measureSignaled s.signalCnt = false := by
    rw [hcnt, Bool.eq_false_iff]
    intro hsig
    have := mod_of_measureSignaled hsig
    omega
  refine ⟨hi, hq, ?_, ?_⟩
  · dsimp only
    rw [hcnt, cInt_cInt_add]
    rfl
  · simp only [hsig]
    exact hout

theorem Quiet.step (hw : cInt (warmupCqes bctx.cfg) ≤ 0)
    (hm : bctx.cfg.iterations * bctx.cfg.qpCount < 32) (h : Quiet bctx.cfg s)
    (hs : BenchStep bctx maxSendWr s l s') : Quiet bctx.cfg s' := by
  have hold := h
  rw [Quiet] at h
  cases hs with
  | warmupPost hpc hi hq => exact hold.warmupPost hpc hi hq
  | measurePost hpc hi hq => exact hold.measurePost hm hpc hi hq
  | warmupNext hpc hi hq =>
    rw [hpc] at h
    obtain ⟨-, hle, -, hout⟩ := h
    simp only [Quiet, hpc]
    have hqe : s.q = bctx.cfg.qpCount := by omega
    rw [hqe] at hout
    rw [warmupMarks_next]
    exact ⟨hi, Nat.zero_le _, fun _ => trivial, hout⟩
  | warmupExit hpc hi =>
    rw [hpc] at h
    obtain ⟨hle, -, hlast, hout⟩ := h
    simp only [Quiet]
    have hie : s.i = bctx.cfg.warmup := by omega
    rw [hout, hlast hie, hie, warmupMarks_zero]
    exact hw
  | warmupDrainCall hpc ho =>
    rw [hpc] at h
    exact absurd ho (by omega)
  | warmupDrainSkip hpc ho =>
    refine ⟨Nat.zero_le _, Nat.zero_le _, fun _ => rfl, ?_, rfl⟩
    simp only [BenchState.startMeasure, Nat.zero_mul]
    rfl
  | measureNext hpc hi hq =>
    rw [hpc] at h
    obtain ⟨-, hle, -, hcnt, hout⟩ := h
    simp only [Quiet, hpc]
    have hqe : s.q = bctx.cfg.qpCount := by omega
    refine ⟨hi, Nat.zero_le _, fun _ => trivial, ?_, hout⟩
    rw [hcnt, hqe, Nat.succ_mul, Nat.add_zero]
  | measureExit hpc hi =>
    rw [hpc] at h
    exact h.2.2.2.2
  | throttleCall hpc ho =>
    rw [hpc] at h
    rw [throttleAt_eq] at ho
    have := h.2.2.2
    omega
  | throttleSkip hpc ho =>
    rw [hpc] at h
    obtain ⟨hi, hq, hcnt, hout⟩ := h
    exact ⟨hi.le, hq, fun hcon => by dsimp only at hcon; omega, hcnt, hout⟩
  | drainCall hpc ho =>
    rw [hpc] at h
    have : s.outstandingCqes = 0 := h
    omega
  | pollMore _ _ _ _ _ _ hpc | pollFailed _ _ _ _ _ _ hpc | pollReturn _ _ _ hpc
  | pollErr _ _ _ hpc =>
    rw [hpc] at h
    exact h.elim
  | complete => exact h
  | warmupPostFail | measurePostFail | drainSkip => exact trivial

theorem quiet_of_reach (hw : cInt (warmupCqes bctx.cfg) ≤ 0)
    (hm : bctx.cfg.iterations * bctx.cfg.qpCount < 32)
    (h : (benchLts bctx maxSendWr).Reach Lts.any s) : Quiet bctx.cfg s := by
  refine h.invariant ?_ fun a l b ha _ hs => ha.step hw hm (BenchStep.of_next hs)
  rintro a rfl
  refine ⟨Nat.zero_le _, Nat.zero_le _, fun _ => rfl, ?_⟩
  rw [show benchStart.q = 0 from rfl, warmupMarks_zero]
  simp [benchStart]
  rfl

/-- In such a run no poll is made. -/
theorem Quiet.not_pollsFailure (h : Quiet bctx.cfg s) (hs : BenchStep bctx maxSendWr s l s') :
    ¬PollsFailure s l := by
  rintro ⟨n, es, d, rfl, -⟩
  cases hs with
  | pollMore _ _ _ _ _ _ hpc | pollFailed _ _ _ _ _ _ hpc =>
    simp [Quiet, hpc] at h

end Quiet

/-! ### Runs that die in the warm-up -/

section Crowded

variable {bctx : BenchCtx} {m : ℕ} {s s' : BenchState} {l : BenchLabel}

/-- **The invariant of a warm-up that is too long**, over `n` queue pairs: every write of the first
one holds its slot, and there are no more than `m`. -/
def Crowded (n m : ℕ) (s : BenchState) : Prop :=
  match s.pc with
  | .warmup => s.q ≤ n ∧ (s.dev.sq 0).wrs.length = roundRobin s.i s.q 0 ∧
      (s.dev.sq 0).retired = 0 ∧ roundRobin s.i s.q 0 ≤ m
  | .died _ => True
  | _ => False

theorem Crowded.warmupPost {wr : SendWr} (h : Crowded bctx.cfg.qpCount m s) (hpc : s.pc = .warmup)
    (hq : s.q < bctx.cfg.qpCount) (hroom : (s.dev.sq s.q).hasRoom (some m) = true) {out : ℤ} :
    Crowded bctx.cfg.qpCount m { s with
      q := s.q + 1
      outstandingCqes := out
      dev := s.dev.post s.q wr } := by
  rw [Crowded, hpc] at h
  obtain ⟨-, hlen, hret, hle⟩ := h
  simp only [Crowded, hpc]
  refine ⟨hq, ?_⟩
  rcases eq_or_ne 0 s.q with hzero | hne
  · rw [← hzero] at hlen hle hroom ⊢
    have hheld : (s.dev.sq 0).held < m := by simpa [SendQueue.hasRoom] using hroom
    rw [SendQueue.held, hlen, hret, roundRobin_self] at hheld
    rw [roundRobin_self] at hlen
    rw [Device.post_sq_self, roundRobin_succ_self]
    refine ⟨?_, hret, hheld⟩
    rw [SendQueue.post, List.length_append, hlen, List.length_singleton]
  · rw [Device.post_sq_of_ne _ _ hne, roundRobin_succ_of_ne hne]
    exact ⟨hlen, hret, hle⟩

theorem Crowded.step (hm : m < bctx.cfg.warmup) (h : Crowded bctx.cfg.qpCount m s)
    (hs : BenchStep bctx (some m) s l s') : Crowded bctx.cfg.qpCount m s' := by
  have hold := h
  rw [Crowded] at h
  cases hs with
  | warmupPost hpc hi hq hroom => exact hold.warmupPost hpc hq hroom
  | warmupNext hpc hi hq =>
    rw [hpc] at h
    have hpos := bctx.cfg.qpCount_pos
    have hqe := Nat.le_antisymm h.1 (Nat.not_lt.mp hq)
    simp only [Crowded, hpc]
    rw [roundRobin_next hpos, ← hqe]
    exact ⟨Nat.zero_le _, h.2⟩
  | warmupExit hpc hi =>
    -- all the writes of a warm-up do not fit
    rw [hpc] at h
    have hle := h.2.2.2
    rw [roundRobin] at hle
    omega
  | warmupPostFail | measurePostFail | pollErr => exact trivial
  | complete k status dev hcomp =>
    rw [Crowded]
    cases hpc : s.pc with
    | warmup =>
      rw [hpc] at h
      obtain ⟨hwrs, hret⟩ := Device.complete_sq hcomp 0
      dsimp only
      rw [hwrs, hret]
      exact h
    | died msg => trivial
    | _ =>
      rw [hpc] at h
      exact h.elim
  | warmupDrainCall hpc | warmupDrainSkip hpc | measurePost hpc | measureNext hpc | measureExit hpc
  | throttleCall hpc | throttleSkip hpc | drainCall hpc | drainSkip hpc
  | pollMore _ _ _ _ _ _ hpc | pollFailed _ _ _ _ _ _ hpc | pollReturn _ _ _ hpc =>
    rw [hpc] at h
    exact h.elim

theorem crowded_of_reach (hm : m < bctx.cfg.warmup) (h : (benchLts bctx (some m)).Reach Lts.any s) :
    Crowded bctx.cfg.qpCount m s := by
  refine h.invariant ?_ fun a l b ha _ hs => ha.step hm (BenchStep.of_next hs)
  rintro a rfl
  exact ⟨Nat.zero_le _, rfl, rfl, Nat.zero_le m⟩

/-- In such a run no poll is made, either. -/
theorem Crowded.not_pollsFailure (h : Crowded bctx.cfg.qpCount m s)
    (hs : BenchStep bctx (some m) s l s') :
    ¬PollsFailure s l := by
  rintro ⟨n, es, d, rfl, -⟩
  cases hs with
  | pollMore _ _ _ _ _ _ hpc | pollFailed _ _ _ _ _ _ hpc =>
    simp [Crowded, hpc] at h

end Crowded

/-! ### When a failure is reported -/

/-- **No run in which a failed completion is polled comes to the statistics.** -/
def FailureReported (bctx : BenchCtx) (maxSendWr : Option ℕ) : Prop :=
  ∀ a l b s, (benchLts bctx maxSendWr).Reach Lts.any a → (benchLts bctx maxSendWr).step a l b →
    PollsFailure a l → (benchLts bctx maxSendWr).Path Lts.any b s → s.pc ≠ .finished

/-- **There is nothing to poll**: the warm-up does not fit into a send queue, or its counter is not
positive at its drain and the measurement has fewer writes than it takes for a signaled one. -/
def PollsNothing (cfg : BenchConfig) (maxSendWr : Option ℕ) : Prop :=
  (∃ m ∈ maxSendWr, m < cfg.warmup) ∨
    cInt (cfg.warmup / 32 * cfg.qpCount : ℕ) ≤ 0 ∧ cfg.iterations * cfg.qpCount < 32

/-- **Where there is nothing to poll, no failure goes unreported**, whatever the device gives, and
whether the counters wrap or not. -/
theorem FailureReported.of_pollsNothing {bctx : BenchCtx} {maxSendWr : Option ℕ}
    (h : PollsNothing bctx.cfg maxSendWr) : FailureReported bctx maxSendWr := by
  intro a l b s hr hstep hfail hpath
  rcases h with ⟨m, hm, hlt⟩ | ⟨hw, hm⟩
  · obtain rfl : maxSendWr = some m := hm
    exact absurd hfail ((crowded_of_reach hlt hr).not_pollsFailure (BenchStep.of_next hstep))
  · exact absurd hfail ((quiet_of_reach hw hm hr).not_pollsFailure (BenchStep.of_next hstep))

/-- **A polled failure is reported where there is nothing to poll**: that is enough on every device;
and on a device that gives the send queues at least the slots that are asked for, with the two
counters of the writes in `int`, it is so exactly there. -/
theorem failure_reported_iff (bctx : BenchCtx) (maxSendWr : Option ℕ) :
    (PollsNothing bctx.cfg maxSendWr → FailureReported bctx maxSendWr) ∧
    ((∀ m ∈ maxSendWr, bctx.cfg.sqDepth ≤ m) →
      bctx.cfg.warmup / 32 * bctx.cfg.qpCount < 2 ^ 31 →
      bctx.cfg.iterations * bctx.cfg.qpCount < 2 ^ 31 →
      (FailureReported bctx maxSendWr ↔ PollsNothing bctx.cfg maxSendWr)) := by
  refine ⟨.of_pollsNothing, fun hcap hwarmup hmeasure => ⟨fun h => ?_, .of_pollsNothing⟩⟩
  by_contra hcon
  obtain ⟨hfits, hpolls⟩ := not_or.mp hcon
  have hfit : ∀ m ∈ maxSendWr, bctx.cfg.warmup ≤ m := fun m hm => by
    by_contra hlt
    exact hfits ⟨m, hm, not_le.mp hlt⟩
  have hsome : 32 ≤ bctx.cfg.warmup ∨ 32 ≤ bctx.cfg.iterations * bctx.cfg.qpCount := by
    by_contra hfew
    obtain ⟨hw, hm⟩ := not_or.mp hfew
    refine hpolls ⟨?_, not_le.mp hm⟩
    rw [Nat.div_eq_of_lt (not_le.mp hw), Nat.zero_mul]
    decide
  obtain ⟨a, l, b, s, hr, hstep, hfail, hpath, hfin⟩ :=
    exists_finished_after_failure hcap hfit hwarmup hmeasure hsome
  exact h a l b s hr hstep hfail hpath hfin

/-- 32 writes on one queue pair: one signaled write. -/
def signaledCfg : BenchConfig :=
  .withCounts 0 32 1 (Eq.refl true)

/-- **On the 512 slots that are asked for**: with the defaults there is nothing to poll; with 32
writes and no warm-up there is. -/
theorem failure_reported_512 : FailureReported (countingCtx .defaults) (some 512) ∧
    ¬FailureReported (countingCtx signaledCfg) (some 512) := by
  refine ⟨(failure_reported_iff (countingCtx .defaults) (some 512)).1
    (Or.inl ⟨512, rfl, by decide⟩), ?_⟩
  rw [(failure_reported_iff (countingCtx signaledCfg) (some 512)).2 (by decide) (by decide)
    (by decide)]
  rintro (⟨m, hm, hlt⟩ | ⟨-, hfew⟩)
  · exact absurd hlt (Nat.not_lt_zero m)
  · exact absurd hfew (by decide)

/-- There a failed completion goes unreported. -/
theorem failure_unreported : ∃ a l b s,
    (benchLts (countingCtx signaledCfg) (some 512)).Reach Lts.any a ∧
      (benchLts (countingCtx signaledCfg) (some 512)).step a l b ∧ PollsFailure a l ∧
      (benchLts (countingCtx signaledCfg) (some 512)).Path Lts.any b s ∧ s.pc = .finished :=
  exists_finished_after_failure (by decide) (by decide) (by decide) (by decide) (Or.inr (by decide))

end RdmaBook
