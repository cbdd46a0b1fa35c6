import RdmaBook.Bench.Ledger
import RdmaBook.Lib.Residue

/-!
# rdma_bench: the capacity of the queues

A send queue has `sq_depth` slots and the completion queue `DEFAULT_CQ_DEPTH`
entries. The two phases of the benchmark keep within them for different reasons,
and each in a part of the parameters only.

The warm-up polls nothing at all, so it fits exactly when everything it posts fits
(`RdmaBook.warmup_fits_iff`). The measurement has the throttle, which bounds the
signaled writes that are not polled by eight; but the signaled writes are chosen
by one counter over all queue pairs, and a queue pair whose place in the round
robin never meets the residue `31` has no signaled write and is never given a slot
back. Which places those are is a matter of `gcd qp_count 32`
(`RdmaBook.Starved`), and the measurement fits exactly when all that is posted on
them fits (`RdmaBook.measure_fits_iff`).
-/

namespace RdmaBook

/-! ### The warm-up -/

section Warmup

variable {bctx : BenchCtx} {s : BenchState}

/-- The queues are within their capacity in the warm-up loop: no slot too many is
held, the next post finds a slot, and the completion queue has not overrun. -/
def WarmupFits (bctx : BenchCtx) (s : BenchState) : Prop :=
  (∀ k < bctx.cfg.qpCount, (s.dev.sq k).held ≤ bctx.cfg.sqDepth) ∧
    (s.i < bctx.cfg.warmup → s.q < bctx.cfg.qpCount →
      (s.dev.sq s.q).hasRoom (some bctx.cfg.sqDepth) = true) ∧
    s.dev.cq.length ≤ defaultCqDepth

theorem hasRoom_iff {n : ℕ} {sq : SendQueue} : sq.hasRoom (some n) = true ↔ sq.held < n := by
  simp [SendQueue.hasRoom]

/-- In the warm-up loop every write still holds its slot. -/
theorem WarmupPos.held (h : WarmupPos bctx s) {k : ℕ} (hk : k < bctx.cfg.qpCount) :
    (s.dev.sq k).held = roundRobin s.i s.q k := by
  rw [SendQueue.held, h.length k hk, h.retired k, Nat.sub_zero]

theorem WarmupPos.unpolled_le (h : WarmupPos bctx s) :
    s.dev.unpolled bctx.cfg.qpCount ≤ warmupCqes bctx.cfg := by
  rw [h.unpolled, warmupCqes]
  have hi := h.i_le
  rcases Nat.lt_or_ge s.i bctx.cfg.warmup with hlt | hge
  · -- a turn that is under way has no more signaled writes than when it is complete
    have hturn : warmupMarks bctx.cfg.qpCount s.i s.q ≤ (s.i + 1) / 32 * bctx.cfg.qpCount := by
      rw [← warmupMarks_zero, warmupMarks_next, warmupMarks, warmupMarks]
      have := h.q_le
      split <;> omega
    exact hturn.trans (Nat.mul_le_mul_right _ (Nat.div_le_div_right hlt))
  · rw [h.last (by omega), warmupMarks_zero]
    exact Nat.mul_le_mul_right _ (Nat.div_le_div_right hi)

/-- A warm-up that fits into the queues as a whole fits at every step. -/
theorem WarmupPos.fits (h : WarmupPos bctx s) (hsq : bctx.cfg.warmup ≤ 512)
    (hcq : warmupCqes bctx.cfg ≤ 1024) : WarmupFits bctx s := by
  have hi := h.i_le
  refine ⟨fun k hk => ?_, fun hlt hq => ?_, ?_⟩
  · rw [h.held hk, BenchConfig.sqDepth, defaultSqDepth, roundRobin]
    split
    · rcases Nat.lt_or_ge s.i bctx.cfg.warmup with hlt | hge
      · omega
      · have := h.last (by omega)
        omega
    · omega
  · rw [hasRoom_iff, h.held hq, roundRobin_self, BenchConfig.sqDepth, defaultSqDepth]
    omega
  · have hle := Device.cq_length_le h.wf
    have hun := h.unpolled_le
    rw [defaultCqDepth]
    omega

/-- **A warm-up that never finds a full queue** holds a slot for every turn it has
made, and all its completions are in the completion queue. -/
theorem exists_warmup_held {i : ℕ} (hi : i ≤ bctx.cfg.warmup)
    (hroom : ∀ a, (benchLts bctx (some bctx.cfg.sqDepth)).Reach NoFailure a → a.pc = .warmup →
      a.i < bctx.cfg.warmup → a.q < bctx.cfg.qpCount →
        (a.dev.sq a.q).hasRoom (some bctx.cfg.sqDepth) = true) :
    ∃ s, (benchLts bctx (some bctx.cfg.sqDepth)).Reach NoFailure s ∧ s.pc = .warmup ∧
      s.i = i ∧ s.q = 0 ∧ (s.dev.sq 0).held = i ∧
      s.dev.cq.length = i / 32 * bctx.cfg.qpCount := by
  obtain ⟨s, hr, hpc, hsi, hsq, hd⟩ := exists_warmup (i := i) (q := 0) (by omega)
    fun a ha => hroom a (ha.mono fun _ _ => Careful.ok)
  have hpos := (benchPos_of_reach (fun _ _ => Careful.ok) hr).warmupPos hpc
  refine ⟨s, hr.mono fun _ _ => Careful.ok, hpc, hsi, hsq, ?_, ?_⟩
  · rw [hpos.held bctx.cfg.qpCount_pos, roundRobin, hsi, hsq]
    rfl
  · rw [Device.cq_length_of_done hpos.wf hd, hpos.unpolled, hsi, hsq, warmupMarks_zero]

/-- **The warm-up fits into the queues exactly when all its writes fit into a send
queue, and all its completions into the completion queue.** -/
theorem warmup_fits_iff (bctx : BenchCtx) :
    (∀ s, (benchLts bctx (some bctx.cfg.sqDepth)).Reach NoFailure s → s.pc = .warmup →
      WarmupFits bctx s) ↔
    bctx.cfg.warmup ≤ 512 ∧ bctx.cfg.warmup / 32 * bctx.cfg.qpCount ≤ 1024 := by
  constructor
  · intro h
    obtain ⟨s, hr, hpc, -, -, hheld, hcq⟩ :=
      exists_warmup_held le_rfl fun a ha hpc => (h a ha hpc).2.1
    obtain ⟨hsq, -, hlen⟩ := h s hr hpc
    have hle := hsq 0 bctx.cfg.qpCount_pos
    rw [hheld, BenchConfig.sqDepth, defaultSqDepth] at hle
    rw [hcq, defaultCqDepth] at hlen
    exact ⟨hle, hlen⟩
  · rintro ⟨hsq, hcq⟩ s hr hpc
    exact ((benchPos_of_reach (fun _ _ => id) hr).warmupPos hpc).fits hsq hcq

/-- **A warm-up of more than 512 turns finds a full send queue.** -/
theorem exists_warmup_full (hw : 512 < bctx.cfg.warmup) :
    ∃ s, (benchLts bctx (some bctx.cfg.sqDepth)).Reach NoFailure s ∧ s.pc = .warmup ∧
      s.i < bctx.cfg.warmup ∧ s.q < bctx.cfg.qpCount ∧
      (s.dev.sq s.q).hasRoom (some bctx.cfg.sqDepth) = false := by
  by_contra hcon
  have hroom : ∀ a, (benchLts bctx (some bctx.cfg.sqDepth)).Reach NoFailure a → a.pc = .warmup →
      a.i < bctx.cfg.warmup → a.q < bctx.cfg.qpCount →
        (a.dev.sq a.q).hasRoom (some bctx.cfg.sqDepth) = true := by
    intro a ha hpc hi hq
    by_contra hfull
    exact hcon ⟨a, ha, hpc, hi, hq, Bool.eq_false_of_not_eq_true hfull⟩
  obtain ⟨s, hr, hpc, hi, hq, hheld, -⟩ := exists_warmup_held hw.le hroom
  have hpos := bctx.cfg.qpCount_pos
  have := hroom s hr hpc (by omega) (by omega)
  rw [hasRoom_iff, hq, hheld, BenchConfig.sqDepth, defaultSqDepth] at this
  omega

end Warmup

/-- The default warm-up of 5000 turns does. -/
theorem warmup_overflows : ∃ s,
    (benchLts (countingCtx .defaults) (some 512)).Reach NoFailure s ∧ s.pc = .warmup ∧
      s.i < 5000 ∧ s.q < 1 ∧ (s.dev.sq s.q).hasRoom (some 512) = false :=
  @exists_warmup_full (countingCtx .defaults) (by decide)

/-! ### The measurement -/

/-- **A starved queue pair**: its place in the round robin never meets the residue
of the signaled writes. -/
def Starved (cfg : BenchConfig) (k : ℕ) : Prop := ¬Nat.gcd cfg.qpCount 32 ∣ k + 1

section Measurement

variable {bctx : BenchCtx} {maxSendWr : Option ℕ} {left : ℕ → ℕ} {s : BenchState}

/-- None of the writes of a starved queue pair is signaled. -/
theorem Starved.measureSignaled {k : ℕ} (h : Starved bctx.cfg k) (j : ℕ) :
    measureSignaled (cInt (j * bctx.cfg.qpCount + k : ℕ)) = false := by
  by_contra hsig
  exact h (Residue.dvd_of_mod_eq (by decide) (mod_of_measureSignaled (by simpa using hsig)))

/-- The leftover of the warm-up stays unsignaled. -/
theorem leftover_unsignaled {ok : BenchState → BenchLabel → Prop}
    (h : (measureLts bctx maxSendWr left).Reach ok s) {k : ℕ} (hk : k < bctx.cfg.qpCount) {i : ℕ}
    (hi : i < left k) : (s.dev.sq k).signaledAt i = false := by
  obtain ⟨s₀, h₀, hpath⟩ := h
  have hstart : MeasureStart bctx left s₀ := h₀
  have hpre : (s₀.dev.sq k).wrs <+: (s.dev.sq k).wrs :=
    hpath.invariant (I := fun a => (s₀.dev.sq k).wrs <+: (a.dev.sq k).wrs) List.prefix_rfl
      fun _ _ _ ha _ hs => ha.trans (wrs_prefix_of_step (BenchStep.of_next hs) k)
  rw [SendQueue.signaledAt_of_prefix hpre (by rw [hstart.length k hk]; exact hi)]
  exact hstart.signaledAt k i

/-- **A starved queue pair is never given a slot back.** -/
theorem Starved.retired {ok : BenchState → BenchLabel → Prop}
    (hle : ∀ s l, ok s l → l.Ok) (h : (measureLts bctx maxSendWr left).Reach ok s) {k : ℕ}
    (hk : k < bctx.cfg.qpCount) (hst : Starved bctx.cfg k) : (s.dev.sq k).retired = 0 := by
  have hpos := measurePos_of_reach hle h
  have hsq := hpos.wf.sq k
  rcases hsq.retired_signaled with hret | hsig
  · exact hret
  · by_contra hne
    have hlen := hpos.length k hk
    have hlt : (s.dev.sq k).retired - 1 < left k + s.written k := by
      have := hsq.retired_le
      have := hsq.done_le
      omega
    rcases Nat.lt_or_ge ((s.dev.sq k).retired - 1) (left k) with hin | hout
    · rw [leftover_unsignaled h hk hin] at hsig
      cases hsig
    · have hflag := hpos.flag k hk ((s.dev.sq k).retired - 1 - left k) (by omega)
      rw [Nat.add_sub_cancel' hout, hsig, hst.measureSignaled] at hflag
      cases hflag

/-- **Every 32 writes in a row of a queue pair that is not starved contain a
signaled one**, as long as the counter has not wrapped. -/
theorem exists_signaled (h : MeasurePos bctx left s)
    (hno : bctx.cfg.iterations * bctx.cfg.qpCount < 2 ^ 31) {k : ℕ} (hk : k < bctx.cfg.qpCount)
    (hst : ¬Starved bctx.cfg k) {b : ℕ} (hb : left k ≤ b) (hend : b + 32 ≤ left k + s.written k) :
    ∃ i, b ≤ i ∧ i < b + 32 ∧ (s.dev.sq k).signaledAt i = true := by
  obtain ⟨j, hge, hlt, hmod⟩ :=
    Residue.exists_window_mod_eq (q := k) (n := bctx.cfg.qpCount) (m := 32) (by decide)
      (not_not.mp hst) (b - left k)
  refine ⟨left k + j, by omega, by omega, ?_⟩
  have hw : s.written k ≤ bctx.cfg.iterations := by
    have := h.i_le
    have := h.last
    rw [BenchState.written, roundRobin]
    split <;> omega
  have hnum : j * bctx.cfg.qpCount + k < 2 ^ 31 := by
    have hmul := Nat.mul_le_mul_right bctx.cfg.qpCount (show j + 1 ≤ bctx.cfg.iterations by omega)
    rw [Nat.succ_mul] at hmul
    omega
  rw [h.flag k hk j (by omega)]
  exact (measureSignaled_iff hnum).mpr hmod

/-- **The throttle bounds what a queue pair that is not starved holds**: of 256
writes in a row eight are signaled, and at most seven of them are not polled. -/
theorem held_le_of_not_starved (h : MeasurePos bctx left s) (hset : Settled bctx.cfg.qpCount s)
    (hpc : s.pc = .measure) (hno : bctx.cfg.iterations * bctx.cfg.qpCount < 2 ^ 31) {k : ℕ}
    (hk : k < bctx.cfg.qpCount) (hst : ¬Starved bctx.cfg k) :
    (s.dev.sq k).held ≤ left k + 255 := by
  have hun : (s.dev.sq k).unpolled ≤ 7 := by
    have hbal := hset.nonneg (by rw [hpc]; simp)
    have hc := h.counters
    rw [BenchState.CountersOk, hpc] at hc
    rw [BenchState.balance, show s.pc.reaped = 0 by rw [hpc]; rfl] at hbal
    have := Device.sq_unpolled_le hk s.dev
    omega
  have hlen := h.length k hk
  -- the writes of the measurement that have not been given back
  let a := max (s.dev.sq k).retired (left k)
  have ha : left k ≤ a := le_max_right _ _
  have har : (s.dev.sq k).retired ≤ a := le_max_left _ _
  have hfew : left k + s.written k < a + 256 := by
    by_contra hcon
    have height : 8 ≤ ((s.dev.sq k).signaledIn a (a + 8 * 32)).length :=
      SendQueue.le_length_signaledIn (c := left k + s.written k)
        (fun b hb hend => exists_signaled h hno hk hst (ha.trans hb) hend) (by omega)
    have hsub := @SendQueue.length_signaledIn_le (s.dev.sq k) _ (s.dev.sq k).wrs.length _ _ har
      (Nat.le_add_right a (8 * 32)) (by omega)
    rw [SendQueue.unpolled] at hun
    omega
  rw [SendQueue.held, hlen]
  rcases le_total (s.dev.sq k).retired (left k) with hle | hge
  · have : a = left k := max_eq_right hle
    omega
  · have : a = (s.dev.sq k).retired := max_eq_left hge
    omega

/-- A start of the measurement with the leftover completed. -/
def leftoverStart (bctx : BenchCtx) (left : ℕ → ℕ) : BenchState where
  pc := .measure
  i := 0
  q := 0
  signalCnt := 0
  outstandingCqes := 0
  dev :=
    { sq := fun k =>
        if k < bctx.cfg.qpCount then
          { wrs := List.replicate (left k) (postRdmaWrite bctx k false)
            done := left k
            retired := 0
            failed := false }
        else .empty
      cq := [] }

theorem leftoverStart_measureStart (bctx : BenchCtx) (left : ℕ → ℕ) :
    MeasureStart bctx left (leftoverStart bctx left) where
  pc := rfl
  i := rfl
  q := rfl
  signalCnt := rfl
  outstandingCqes := rfl
  cq := rfl
  length k hk := by simp [leftoverStart, hk]
  outside k hk := by simp [leftoverStart, Nat.not_lt.mpr hk, SendQueue.empty]
  unsignaled k wr hwr := by
    by_cases hk : k < bctx.cfg.qpCount
    · simp only [leftoverStart, hk, if_true] at hwr
      rw [List.eq_of_mem_replicate hwr, postRdmaWrite_signaled]
    · simp [leftoverStart, hk, SendQueue.empty] at hwr
  retired k := by
    simp only [leftoverStart]
    split <;> rfl
  done_le k := by
    simp only [leftoverStart]
    split
    · simp
    · exact le_rfl
  not_failed k := by
    simp only [leftoverStart]
    split <;> rfl

theorem leftoverStart_caughtUp (bctx : BenchCtx) (left : ℕ → ℕ) :
    (leftoverStart bctx left).dev.CaughtUp := by
  intro k
  simp only [leftoverStart]
  split
  · simp
  · rfl

/-- **A turn of the measurement**, with the write completed at once and the
throttle, when it calls, given one completion. -/
theorem exists_measureTurn (hr : (measureLts bctx maxSendWr left).Reach Careful s)
    (hpc : s.pc = .measure) (hi : s.i < bctx.cfg.iterations) (hq : s.q < bctx.cfg.qpCount)
    (hroom : (s.dev.sq s.q).hasRoom maxSendWr = true) (hd : s.dev.CaughtUp) :
    ∃ b, (measureLts bctx maxSendWr left).Path Careful s b ∧ b.pc = .measure ∧ b.i = s.i ∧
      b.q = s.q + 1 ∧ b.dev.CaughtUp := by
  have hpos := measurePos_of_reach (fun _ _ => Careful.ok) hr
  obtain ⟨b, hpath, hpcb, hib, hqb, -, -, hdb⟩ := exists_measurePost hpos.wf hpc hi hq hroom hd
  rw [← measureLts_path left] at hpath
  have hrb := hr.trans hpath
  have hposb := measurePos_of_reach (fun _ _ => Careful.ok) hrb
  by_cases ho : b.outstandingCqes ≥ throttleAt bctx.cfg
  · -- the counter is not ahead of the device, so there is a completion to be had
    have hbal := (MeasureStart.exact_of_reach hrb).nonpos (by rw [hpcb]; simp)
    rw [BenchState.balance, show b.pc.reaped = 0 by rw [hpcb]; rfl] at hbal
    have ho' := ho
    rw [throttleAt_eq] at ho'
    obtain ⟨d, hcall, hd', -⟩ :=
      exists_call (m := 1) hposb.wf hdb (.throttleCall hpcb ho) one_pos le_rfl (by decide)
        (by omega) (fun _ => careful_cpu) ⟨trivial, fun _ _ _ => le_rfl⟩
    exact ⟨_, hpath.trans hcall, rfl, hib, congrArg (· + 1) hqb, hd'⟩
  · have hskip : BenchStep bctx maxSendWr b .cpu { b with pc := .measure, q := b.q + 1 } :=
      .throttleSkip hpcb ho
    exact ⟨_, hpath.tail careful_cpu hskip.next, rfl, hib, by rw [hqb], hdb⟩

/-- **The measurement runs to any of its positions** on a device that always has
room for the next write. -/
theorem exists_measure {i q : ℕ}
    (hiq : i < bctx.cfg.iterations ∧ q ≤ bctx.cfg.qpCount ∨ i = bctx.cfg.iterations ∧ q = 0)
    (hroom : ∀ a, (measureLts bctx maxSendWr left).Reach Careful a → a.pc = .measure →
      a.i < bctx.cfg.iterations → a.q < bctx.cfg.qpCount →
        (a.dev.sq a.q).hasRoom maxSendWr = true) :
    ∃ s, (measureLts bctx maxSendWr left).Reach Careful s ∧ s.pc = .measure ∧ s.i = i ∧
      s.q = q := by
  let R : ℕ → ℕ → BenchState → Prop := fun i q a =>
    (measureLts bctx maxSendWr left).Reach Careful a ∧ a.pc = .measure ∧ a.i = i ∧ a.q = q ∧
      a.dev.CaughtUp
  have hstart : R 0 0 (leftoverStart bctx left) :=
    ⟨Lts.Reach.of_init (leftoverStart_measureStart bctx left), rfl, rfl, rfl,
      leftoverStart_caughtUp bctx left⟩
  have hturn : ∀ i < bctx.cfg.iterations, ∀ q < bctx.cfg.qpCount, ∀ a, R i q a →
      ∃ b, (measureLts bctx maxSendWr left).Path Careful a b ∧ R i (q + 1) b := by
    rintro i hi q hq a ⟨hr, hpc, rfl, rfl, hd⟩
    obtain ⟨b, hpath, hpcb, hib, hqb, hdb⟩ :=
      exists_measureTurn hr hpc hi hq (hroom a hr hpc hi hq) hd
    exact ⟨b, hpath, hr.trans hpath, hpcb, hib, hqb, hdb⟩
  have hnext : ∀ i < bctx.cfg.iterations, ∀ a, R i bctx.cfg.qpCount a →
      ∃ b, (measureLts bctx maxSendWr left).Path Careful a b ∧ R (i + 1) 0 b := by
    rintro i hi a ⟨hr, hpc, rfl, hq, hd⟩
    have hpath : (measureLts bctx maxSendWr left).Path Careful a _ :=
      path_cpu (BenchStep.measureNext hpc hi (by omega))
    exact ⟨_, hpath, hr.trans hpath, hpc, rfl, rfl, hd⟩
  obtain ⟨s, -, hr, hpc, hi, hq, -⟩ := Lts.Path.exists_nested hstart hturn hnext hiq
  exact ⟨s, hr, hpc, hi, hq⟩

/-- **The last post on a starved queue pair finds every slot taken that was ever
posted.** -/
theorem exists_starved_held {k : ℕ} (hk : k < bctx.cfg.qpCount) (hst : Starved bctx.cfg k)
    (hi : 0 < bctx.cfg.iterations)
    (hroom : ∀ a, (measureLts bctx maxSendWr left).Reach NoFailure a → a.pc = .measure →
      a.i < bctx.cfg.iterations → a.q < bctx.cfg.qpCount →
        (a.dev.sq a.q).hasRoom maxSendWr = true) :
    ∃ s, (measureLts bctx maxSendWr left).Reach NoFailure s ∧ s.pc = .measure ∧
      s.i < bctx.cfg.iterations ∧ s.q = k ∧
      (s.dev.sq k).held + 1 = left k + bctx.cfg.iterations := by
  obtain ⟨s, hr, hpc, hsi, hsq⟩ :=
    exists_measure (i := bctx.cfg.iterations - 1) (q := k) (by omega)
      fun a ha => hroom a (ha.mono fun _ _ => Careful.ok)
  have hpos := measurePos_of_reach (fun _ _ => Careful.ok) hr
  have hret := Starved.retired (fun _ _ => Careful.ok) hr hk hst
  have hw : s.written k = s.i := by
    rw [BenchState.written, hpc, hsq]
    exact roundRobin_self _ _
  refine ⟨s, hr.mono fun _ _ => Careful.ok, hpc, by omega, hsq, ?_⟩
  rw [SendQueue.held, hret, hpos.length k hk, hw, hsi]
  omega

/-- **The measurement never finds a full send queue exactly when all that is posted
on each starved queue pair fits into its queue.** The leftovers are those a
warm-up can leave. -/
theorem measure_fits_iff (bctx : BenchCtx) (left : ℕ → ℕ)
    (hleft : ∀ k < bctx.cfg.qpCount, left k ≤ signalInterval - 1)
    (hno : bctx.cfg.iterations * bctx.cfg.qpCount < 2 ^ 31) :
    (∀ s, (measureLts bctx (some bctx.cfg.sqDepth) left).Reach NoFailure s → s.pc = .measure →
      s.i < bctx.cfg.iterations → s.q < bctx.cfg.qpCount →
        (s.dev.sq s.q).held < bctx.cfg.sqDepth) ↔
    ∀ k < bctx.cfg.qpCount, Starved bctx.cfg k → left k + bctx.cfg.iterations ≤ 512 := by
  have hleft' : ∀ k < bctx.cfg.qpCount, left k ≤ 31 := hleft
  have hdepth : bctx.cfg.sqDepth = 512 := rfl
  rw [hdepth]
  constructor
  · intro h k hk hst
    rcases Nat.eq_zero_or_pos bctx.cfg.iterations with hzero | hi
    · have := hleft' k hk
      omega
    · obtain ⟨s, hr, hpc, hsi, rfl, hheld⟩ :=
        exists_starved_held hk hst hi fun a ha hpc hi hq => hasRoom_iff.mpr (h a ha hpc hi hq)
      have := h s hr hpc hsi hk
      omega
  · intro h s hr hpc hi hq
    have hpos := measurePos_of_reach (fun _ _ => id) hr
    by_cases hst : Starved bctx.cfg s.q
    · have hlen := hpos.length s.q hq
      have hw : s.written s.q = s.i := by
        rw [BenchState.written, hpc]
        exact roundRobin_self _ _
      have := h s.q hq hst
      rw [SendQueue.held]
      omega
    · have := held_le_of_not_starved hpos (MeasureStart.settled_of_reach hr) hpc hno hq hst
      have := hleft' s.q hq
      omega

/-- One queue pair is never starved, so the default measurement fits over the
leftover of its warm-up. -/
theorem measure_fits_defaults :
    (countingCtx .defaults).cfg.iterations * (countingCtx .defaults).cfg.qpCount < 2 ^ 31 ∧
      ∀ s, (measureLts (countingCtx .defaults) (some 512) fun _ => 8).Reach NoFailure s →
        s.pc = .measure → s.i < 100000 → s.q < 1 → (s.dev.sq s.q).held < 512 :=
  ⟨by decide, (measure_fits_iff (countingCtx .defaults) (fun _ => 8) (fun _ _ => by decide)
    (by decide)).mpr fun k hk hst => by
      obtain rfl : k = 0 := Nat.lt_one_iff.mp hk
      exact absurd (by decide) hst⟩

/-- **A starved queue pair with too many writes finds a full send queue.** -/
theorem exists_measure_full {k : ℕ} (hk : k < bctx.cfg.qpCount) (hst : Starved bctx.cfg k)
    (hi : 0 < bctx.cfg.iterations) (hmany : 512 < left k + bctx.cfg.iterations) :
    ∃ s, (measureLts bctx (some 512) left).Reach NoFailure s ∧ s.pc = .measure ∧
      s.i < bctx.cfg.iterations ∧ s.q < bctx.cfg.qpCount ∧ 512 ≤ (s.dev.sq s.q).held := by
  by_contra hcon
  have hroom : ∀ a, (measureLts bctx (some 512) left).Reach NoFailure a → a.pc = .measure →
      a.i < bctx.cfg.iterations → a.q < bctx.cfg.qpCount →
        (a.dev.sq a.q).hasRoom (some 512) = true := by
    intro a ha hpc hai haq
    by_contra hfull
    rw [hasRoom_iff, Nat.not_lt] at hfull
    exact hcon ⟨a, ha, hpc, hai, haq, hfull⟩
  obtain ⟨s, hr, hpc, hsi, rfl, hheld⟩ := exists_starved_held hk hst hi hroom
  have hlt := hasRoom_iff.mp (hroom s hr hpc hsi hk)
  omega

end Measurement

/-- 513 writes on each of two queue pairs: the first queue pair is starved. -/
def starvedCfg : BenchConfig :=
  .withCounts 0 513 2 (Eq.refl true)

/-- The 513th write on the first of two queue pairs finds a full send queue. -/
theorem measure_overflows : ∃ s,
    (measureLts (countingCtx starvedCfg) (some 512) fun _ => 0).Reach NoFailure s ∧
      s.pc = .measure ∧ s.i < 513 ∧ s.q < 2 ∧ 512 ≤ (s.dev.sq s.q).held :=
  @exists_measure_full (countingCtx starvedCfg) (fun _ => 0) 0 (by decide)
    (show ¬Nat.gcd 2 32 ∣ 0 + 1 by decide) (by decide) (by decide)

end RdmaBook
