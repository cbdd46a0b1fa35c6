import RdmaBook.Bench.Ledger

/-!
# rdma_bench: what has completed at the end timestamp

The final drain waits for signaled writes, and the end timestamp is taken when
none is unpolled any more. A write is known to have completed when its own
completion or that of a later write of the same queue pair has been polled, so
the last write of a queue pair is known to have completed only if it is signaled.
Of all queue pairs only the one that posts last can have its last write signaled
(`RdmaBook.covered_iff`): the benchmark counts finished writes only when it runs
one queue pair a multiple of 32 times.
-/

namespace RdmaBook

section Coverage

variable {bctx : BenchCtx} {maxSendWr : Option ℕ} {s : BenchState}

/-- Every write of the measurement is known to have completed: its slot has been
given back. -/
def Covered (bctx : BenchCtx) (s : BenchState) : Prop :=
  ∀ k < bctx.cfg.qpCount, ∀ j < bctx.cfg.iterations, bctx.cfg.warmup + j < (s.dev.sq k).retired

/-- At the end every queue pair has got all its writes. -/
theorem MeasurePos.written_of_finished {base : ℕ → ℕ} (h : MeasurePos bctx base s)
    (hfin : s.pc = .finished) (k : ℕ) : s.written k = bctx.cfg.iterations := by
  have hi := h.afterLoop (by rw [hfin]; trivial)
  have hlast := h.last hi
  rw [BenchState.written, hlast, hi]
  rfl

/-- **Where everything is covered, the last write of each queue pair is signaled.** -/
theorem signaled_of_covered (h : MeasurePos bctx (fun _ => bctx.cfg.warmup) s)
    (hfin : s.pc = .finished) (hi : 1 ≤ bctx.cfg.iterations) (hcov : Covered bctx s) {k : ℕ}
    (hk : k < bctx.cfg.qpCount) :
    ((bctx.cfg.iterations - 1) * bctx.cfg.qpCount + k) % 32 = 31 := by
  have hw := h.written_of_finished hfin k
  have hlen := h.length k hk
  have hsq := h.wf.sq k
  have hlast := hcov k hk (bctx.cfg.iterations - 1) (by omega)
  have hret := hsq.retired_le
  have hdone := hsq.done_le
  have hend : (s.dev.sq k).retired = bctx.cfg.warmup + (bctx.cfg.iterations - 1) + 1 := by
    omega
  have hsig : (s.dev.sq k).signaledAt (bctx.cfg.warmup + (bctx.cfg.iterations - 1)) = true := by
    rcases hsq.retired_signaled with hzero | hsig
    · omega
    · rwa [hend, Nat.add_sub_cancel] at hsig
  rw [h.flag k hk (bctx.cfg.iterations - 1) (by omega)] at hsig
  exact mod_of_measureSignaled hsig

/-- **With nothing unpolled, everything up to the last signaled write is covered.** -/
theorem retired_of_unpolled {sq : SendQueue} (h : sq.unpolled = 0) {i : ℕ}
    (hi : i < sq.wrs.length) (hsig : sq.signaledAt i = true) : i < sq.retired := by
  by_contra hcon
  have hmem : i ∈ sq.signaledIn sq.retired sq.wrs.length :=
    SendQueue.mem_signaledIn.mpr ⟨⟨by omega, hi⟩, hsig⟩
  have := List.length_pos_of_mem hmem
  rw [SendQueue.unpolled] at h
  omega

end Coverage

/-- **At the end timestamp every write of the measurement has completed exactly when
there is one queue pair and the number of its writes is a multiple of 32.** This
is so at the end of every run in which nothing fails. -/
theorem covered_iff (bctx : BenchCtx) (maxSendWr : Option ℕ) (s : BenchState)
    (hi : 1 ≤ bctx.cfg.iterations) (hr : (benchLts bctx maxSendWr).Reach NoFailure s)
    (hfin : s.pc = .finished) :
    Covered bctx s ↔ bctx.cfg.qpCount = 1 ∧ bctx.cfg.iterations % 32 = 0 := by
  have hm : s.pc.InMeasure := by rw [hfin]; trivial
  have hpos := (benchPos_of_reach (fun _ _ => id) hr).measurePos hm
  constructor
  · intro hcov
    have hfirst := signaled_of_covered hpos hfin hi hcov bctx.cfg.qpCount_pos
    have hone : bctx.cfg.qpCount = 1 := by
      by_contra hne
      -- the last writes of the first two queue pairs are neighbours
      have hpos' := bctx.cfg.qpCount_pos
      have hsecond := signaled_of_covered hpos hfin hi hcov (show 1 < bctx.cfg.qpCount by omega)
      omega
    rw [hone] at hfirst
    exact ⟨hone, by omega⟩
  · rintro ⟨hone, hmod⟩ k hk j hj
    obtain rfl : k = 0 := by omega
    have hno : warmupCqes bctx.cfg < 2 ^ 31 := by
      have := bctx.cfg.warmup_lt
      rw [warmupCqes, hone]
      omega
    have hun := (settled_of_reach hno hr hm).finished hfin
    have hle := Device.sq_unpolled_le (show 0 < bctx.cfg.qpCount by omega) s.dev
    have hw := hpos.written_of_finished hfin 0
    have hlen := hpos.length 0 hk
    have hlt := bctx.cfg.iterations_lt
    have hsig : (s.dev.sq 0).signaledAt (bctx.cfg.warmup + (bctx.cfg.iterations - 1)) = true := by
      rw [hpos.flag 0 hk (bctx.cfg.iterations - 1) (by omega), hone, Nat.mul_one, Nat.add_zero]
      exact (measureSignaled_iff (by omega)).mpr (by omega)
    have hret := retired_of_unpolled (by omega) (by omega) hsig
    omega

section Runs

variable {bctx : BenchCtx}

/-- **A short measurement on one queue pair reaches its end.** -/
theorem exists_finished (hw : bctx.cfg.warmup = 0) (hq : bctx.cfg.qpCount = 1)
    (hi : bctx.cfg.iterations ≤ 255) :
    ∃ s, (benchLts bctx none).Reach Careful s ∧ s.pc = .finished := by
  obtain ⟨a, hpa, hpca, hia, hqa, hout, hd⟩ :=
    @exists_fill bctx none (by simp) hw hq _ hi le_rfl
  have hra := reach_startMeasure hw hpa
  have hexit : BenchStep bctx none a .cpu { a with pc := .drain } :=
    .measureExit hpca (by omega)
  have hrb := hra.tail careful_cpu hexit.next
  by_cases ho : a.outstandingCqes > 0
  · -- every signaled write is in the completion queue, and one poll takes them all
    have hpos := (benchPos_of_reach (fun _ _ => Careful.ok) hra).measurePos (by rw [hpca]; trivial)
    have hle : bctx.cfg.iterations / 32 ≤ a.dev.unpolled bctx.cfg.qpCount := by
      have := outstanding_le_unpolled hra (by rw [hpca]; trivial)
      omega
    have hok : Careful (({ a with pc := .drain } : BenchState).callPoll .drain a.outstandingCqes)
        (.pollCq (bctx.cfg.iterations / 32)) := ⟨trivial, fun _ _ hcon => by cases hcon⟩
    have hcpu : ∀ t, Careful t .cpu := fun _ => careful_cpu
    obtain ⟨d, hpath, -⟩ := exists_call (s := { a with pc := .drain }) hpos.wf hd
      (.drainCall rfl ho) ho hout.le (by omega) hle hcpu hok
    exact ⟨_, hrb.trans hpath, rfl⟩
  · have hskip : BenchStep bctx none { a with pc := .drain } .cpu { a with pc := .finished } :=
      .drainSkip rfl ho
    exact ⟨_, hrb.tail careful_cpu hskip.next, rfl⟩

end Runs

/-- 32 writes on one queue pair. -/
def coveredCfg : BenchConfig :=
  .withCounts 0 32 1 (Eq.refl true)

/-- A run of 32 writes on one queue pair covers all of them. -/
theorem covered_coveredCfg : ∃ s, (benchLts (countingCtx coveredCfg) none).Reach NoFailure s ∧
    s.pc = .finished ∧ Covered (countingCtx coveredCfg) s := by
  obtain ⟨s, hr, hfin⟩ := @exists_finished (countingCtx coveredCfg) rfl rfl (by decide)
  have hr' := hr.mono fun _ _ => Careful.ok
  exact ⟨s, hr', hfin,
    (covered_iff (countingCtx coveredCfg) none s (by decide) hr' hfin).mpr ⟨rfl, rfl⟩⟩

/-- One write on one queue pair. -/
def oneWriteCfg : BenchConfig :=
  .withCounts 0 1 1 (Eq.refl true)

/-- A single write is unsignaled, and the end timestamp is taken with it in flight. -/
theorem not_covered_oneWrite : ∃ s, (benchLts (countingCtx oneWriteCfg) none).Reach NoFailure s ∧
    s.pc = .finished ∧ (s.dev.sq 0).wrs.length = 1 ∧ (s.dev.sq 0).done = 0 ∧
      ¬Covered (countingCtx oneWriteCfg) s := by
  have hrun : Lts.exec (benchNext (countingCtx oneWriteCfg) none) NoFailure benchStart
      [.cpu, .cpu, .postSend true, .cpu, .cpu, .cpu, .cpu] = some _ := rfl
  refine ⟨_, ⟨benchStart, rfl, Lts.path_of_exec hrun⟩, rfl, rfl, rfl, fun hcov => ?_⟩
  exact absurd (hcov 0 (by decide) 0 (by decide)) (by decide)

end RdmaBook
