import RdmaBook.Bench.Occupancy

/-!
# rdma_bench: when a run comes to its end

Three loops of `run_benchmark` wait for the device, those of `poll_completions`, and only the last
of them can wait for good: a throttle call is made with a completion to come, but the final drain
asks for what the counter says. So the one thing that decides whether a run comes to its end is
whether a throttle poll has taken a batch (`RdmaBook.Drifted`). Where none has, the program can be
brought to its end from wherever it stands: the device completes what has been posted, the program
makes its next step, and there is less to do (`RdmaBook.BenchState.remaining`).

`RdmaBook.benchmark_finishes_iff` has both directions, for every state of every run in which nothing
fails.
-/

namespace RdmaBook

/-! ### The device catches up -/

/-- **A request that is not completed can be.** -/
theorem Device.Wf.exists_complete {n k : ℕ} {d : Device} (h : d.Wf n)
    (hlt : (d.sq k).done < (d.sq k).wrs.length) : ∃ d', d.complete k .success = some d' := by
  have hwr : (d.sq k).wrs[(d.sq k).done]? = some (d.sq k).wrs[(d.sq k).done] :=
    List.getElem?_eq_getElem hlt
  have hgood : ¬((d.sq k).failed = true ∧ WcStatus.success ≠ .wrFlushErr) := fun hcon => by
    rw [(h.sq k).not_failed] at hcon
    exact absurd hcon.1 Bool.false_ne_true
  rw [Device.complete, hwr]
  simp only [if_neg hgood]
  split <;> exact ⟨_, rfl⟩

section CatchUp

variable {bctx : BenchCtx} {maxSendWr : Option ℕ} {n : ℕ}

/-- **The device completes all that has been posted**, and the program does nothing meanwhile. -/
theorem exists_caughtUp (bctx : BenchCtx) (maxSendWr : Option ℕ) (s : BenchState)
    (hwf : s.dev.Wf n) :
    ∃ d, (benchLts bctx maxSendWr).Path Careful s { s with dev := d } ∧ d.Wf n ∧
      d.unpolled n = s.dev.unpolled n ∧ ∀ k, (d.sq k).done = (d.sq k).wrs.length := by
  let Same : BenchState → Prop := fun a =>
    a = { s with dev := a.dev } ∧ a.dev.Wf n ∧ a.dev.unpolled n = s.dev.unpolled n
  have hstep : ∀ a, Same a → ¬(∀ k, (a.dev.sq k).done = (a.dev.sq k).wrs.length) →
      ∃ l b, Careful a l ∧ (benchLts bctx maxSendWr).step a l b ∧ Same b ∧
        b.dev.undone n < a.dev.undone n := by
    rintro a ⟨hsame, ha, hun⟩ hleft
    obtain ⟨k, hk⟩ := not_forall.mp hleft
    obtain ⟨d, hd⟩ := ha.exists_complete (lt_of_le_of_ne (ha.sq k).done_le hk)
    have hs : BenchStep bctx maxSendWr a (.complete k .success) { a with dev := d } :=
      .complete k .success d hd
    refine ⟨_, _, careful_complete, hs.next, ⟨?_, ha.complete hd, ?_⟩, Device.undone_complete ha hd⟩
    · rw [hsame]
    · exact (Device.unpolled_complete hd).trans hun
  obtain ⟨b, hp, ⟨hsame, hb, hun⟩, hdone⟩ :=
    Lts.Path.exists_goal (fun a => a.dev.undone n) hstep (s := s) ⟨rfl, hwf, rfl⟩
  exact ⟨b.dev, hsame ▸ hp, hb, hun, hdone⟩

end CatchUp

/-! ### What is left to do -/

/-- A counter that is wrapped goes up by one at most. -/
theorem toNat_cInt_succ_le (n : ℕ) : (cInt (cInt n + 1)).toNat ≤ (cInt n).toNat + 1 := by
  simp only [cInt]
  omega

/-- The steps that are left of two nested loops with `w` steps for each turn of the inner one, the
outer one at its turn `i` of `m`, the inner one at its turn `q` of `n`. -/
def stepsLeft (w m n i q : ℕ) : ℕ := w * ((m - i) * n - q) + (m - i)

section StepsLeft

variable {w m n i q : ℕ}

/-- A turn of the inner loop is made. -/
theorem stepsLeft_succ (hi : i < m) (hq : q < n) :
    stepsLeft w m n i (q + 1) + w = stepsLeft w m n i q := by
  have hturn : q < (m - i) * n := hq.trans_le (Nat.le_mul_of_pos_left n (Nat.sub_pos_of_lt hi))
  obtain ⟨r, hr⟩ := Nat.exists_eq_add_of_lt hturn
  have hr' : (m - i) * n - (q + 1) = r := by omega
  have hr'' : (m - i) * n - q = r + 1 := by omega
  rw [stepsLeft, stepsLeft, hr', hr'', Nat.mul_succ]
  omega

/-- A turn of the outer loop is made. -/
theorem stepsLeft_next (hi : i < m) : stepsLeft w m n (i + 1) 0 < stepsLeft w m n i n := by
  have hrest : (m - (i + 1)) * n = (m - i) * n - n := by
    rw [← Nat.sub_sub, Nat.sub_one_mul]
  rw [stepsLeft, stepsLeft, Nat.sub_zero, hrest]
  omega

end StepsLeft

/-- **The steps the program has still to make**, at most. A call of the final drain asks for less
than eight completions. -/
def BenchState.remaining (cfg : BenchConfig) (s : BenchState) : ℕ :=
  let measure := stepsLeft 4 cfg.iterations cfg.qpCount s.i s.q + 12
  let whole := stepsLeft 4 cfg.iterations cfg.qpCount 0 0 + 12
  match s.pc with
  | .warmup => whole + stepsLeft 2 cfg.warmup cfg.qpCount s.i s.q + s.outstandingCqes.toNat + 3
  | .warmupDrain => whole + s.outstandingCqes.toNat + 2
  | .poll .warmupDrain count total => whole + (count - total).toNat + 1
  | .measure => measure
  -- a turn is a post, the test, the poll of one completion and its return
  | .throttle => measure - 1
  | .poll .throttle count total => measure - 3 + (count - total).toNat
  | .drain => 11
  | .poll .drain count total => (count - total).toNat + 2
  | .finished => 0
  | .died _ => 0

/-- **A run that can still come to its end**: no throttle poll has taken a batch. -/
structure OnTrack (bctx : BenchCtx) (maxSendWr : Option ℕ) (s : BenchState) : Prop where
  reach : (benchLts bctx maxSendWr).Reach NoFailure s
  exact : s.pc.InMeasure → Exact bctx.cfg.qpCount s

section Track

variable {bctx : BenchCtx} {maxSendWr : Option ℕ} {s s' : BenchState} {l : BenchLabel}

theorem BenchPos.wf (h : BenchPos bctx s) : s.dev.Wf bctx.cfg.qpCount := by
  cases h with
  | warmup h => exact h.wf
  | warmupPoll count total h => exact h.wf
  | measure h => exact h.wf

/-- Within a turn of the measurement the loops are not at their end. -/
theorem BenchPos.turn (h : BenchPos bctx s) (hturn : s.pc.turn = 1) (hm : s.pc.InMeasure) :
    s.i < bctx.cfg.iterations ∧ s.q < bctx.cfg.qpCount := by
  have hpos := h.measurePos hm
  have hq := hpos.q_le
  have hi : s.i ≠ bctx.cfg.iterations := fun heq => by
    have hzero := hpos.last heq
    omega
  exact ⟨lt_of_le_of_ne hpos.i_le hi, by omega⟩

/-- A run in which nothing fails does not die. -/
theorem BenchPos.not_died (h : BenchPos bctx s) (msg : String) : s.pc ≠ .died msg := by
  intro hpc
  cases h with
  | warmup h => rcases h.inLoop with hcon | hcon <;> rw [hpc] at hcon <;> cases hcon
  | warmupPoll count total h =>
    have hcon := h.inPoll
    rw [hpc] at hcon
    cases hcon
  | measure h =>
    have hcon := h.inMeasure
    rw [hpc] at hcon
    exact hcon

/-- The warm-up keeps its account. -/
theorem BenchPos.measurePos_of_drifted (h : BenchPos bctx s) (hno : warmupCqes bctx.cfg < 2 ^ 31)
    (hdrift : Drifted bctx.cfg.qpCount s) : MeasurePos bctx (fun _ => bctx.cfg.warmup) s := by
  cases h with
  | measure h => exact h
  | warmup h =>
    have hle := cInt_natCast_le (s.dev.unpolled bctx.cfg.qpCount)
    rw [← h.outstanding] at hle
    rcases hdrift.ahead with hlt | ⟨-, count, total, hpc, -⟩
    · rcases h.inLoop with hpc | hpc <;>
        simp only [BenchState.balance, hpc, BenchPc.reaped] at hlt <;> omega
    · rcases h.inLoop with hcon | hcon <;> rw [hpc] at hcon <;> cases hcon
  | warmupPoll count total h =>
    obtain ⟨-, -, hledger⟩ := h.ledger hno
    rcases hdrift.ahead with hlt | ⟨-, c, t, hpc, -⟩
    · simp only [BenchState.balance, h.inPoll, BenchPc.reaped] at hlt
      have hcount := h.count_eq
      omega
    · cases h.inPoll.symm.trans hpc

namespace OnTrack

theorem pos (h : OnTrack bctx maxSendWr s) : BenchPos bctx s :=
  benchPos_of_reach (fun _ _ => id) h.reach

/-- **A run stays on its track** as long as the throttle takes one completion at a time. -/
theorem step (h : OnTrack bctx maxSendWr s) (hok : Careful s l)
    (hs : BenchStep bctx maxSendWr s l s') :
    OnTrack bctx maxSendWr s' := by
  refine ⟨h.reach.tail hok.ok hs.next, fun hm => ?_⟩
  by_cases hin : s.pc.InMeasure
  · exact (h.exact hin).step (h.pos.measurePos hin) hok hs
  · obtain ⟨rfl, -⟩ := startMeasure_of_step h.pos hin hok.ok hs hm
    exact exact_startMeasure _

theorem path (h : OnTrack bctx maxSendWr s) (hp : (benchLts bctx maxSendWr).Path Careful s s') :
    OnTrack bctx maxSendWr s' :=
  hp.invariant h fun _ _ _ ha hok hs => ha.step hok (BenchStep.of_next hs)

/-- Where nothing has drifted, a run is on its track. -/
theorem of_not_drifted (hno : warmupCqes bctx.cfg < 2 ^ 31)
    (h : (benchLts bctx maxSendWr).Reach NoFailure s) (hdrift : ¬Drifted bctx.cfg.qpCount s) :
    OnTrack bctx maxSendWr s := by
  refine ⟨h, fun hm => ?_⟩
  have hset := settled_of_reach hno h hm
  refine ⟨fun hne => ?_, fun count total hpc => ?_⟩
  · by_contra hlt
    exact hdrift ⟨hne, Or.inl (not_le.mp hlt)⟩
  · have hne : s.pc ≠ .finished := by rw [hpc]; exact BenchPc.noConfusion
    by_contra hlt
    exact hdrift ⟨hne, Or.inr ⟨hset.nonneg hne, count, total, hpc, by omega⟩⟩

/-- **A call that goes on has a completion to come.** -/
theorem due (hno : warmupCqes bctx.cfg < 2 ^ 31) (h : OnTrack bctx maxSendWr s) {site : PollSite}
    {count total : ℤ} (hpc : s.pc = .poll site count total) (hlt : total < count) :
    0 < s.dev.unpolled bctx.cfg.qpCount ∧ 0 ≤ total ∧ count < 2 ^ 31 := by
  cases site with
  | warmupDrain =>
    cases h.pos with
    | warmup hpos => rcases hpos.inLoop with hcon | hcon <;> rw [hpc] at hcon <;> cases hcon
    | warmupPoll c t hpos =>
      obtain ⟨-, rfl, rfl⟩ := BenchPc.poll.inj (hpc.symm.trans hpos.inPoll)
      obtain ⟨hnn, hbound, hledger⟩ := hpos.ledger hno
      exact ⟨by omega, hnn, hbound⟩
    | measure hpos =>
      have hm := hpos.inMeasure
      rw [hpc] at hm
      exact hm.elim
  | throttle =>
    have hm : s.pc.InMeasure := by rw [hpc]; trivial
    have hc := (h.pos.measurePos hm).counters
    rw [BenchState.CountersOk, hpc] at hc
    obtain ⟨rfl, -, hnn, -⟩ := hc
    exact ⟨(Occupancy.of_benchLts hno h.reach hm).due.call _ _ hpc hlt, hnn, by decide⟩
  | drain =>
    have hm : s.pc.InMeasure := by rw [hpc]; trivial
    have hne : s.pc ≠ .finished := by rw [hpc]; exact BenchPc.noConfusion
    have hc := (h.pos.measurePos hm).counters
    have hbal := (h.exact hm).nonpos hne
    rw [BenchState.CountersOk, hpc] at hc
    rw [BenchState.balance, hpc] at hbal
    obtain ⟨rfl, -, hbound, hnn, -⟩ := hc
    simp only [BenchPc.reaped] at hbal
    exact ⟨by omega, hnn, by omega⟩

/-- A step that leaves less to do. -/
theorem smaller (h : OnTrack bctx maxSendWr s) (hok : Careful s l)
    (hs : BenchStep bctx maxSendWr s l s') (hlt : s'.remaining bctx.cfg < s.remaining bctx.cfg) :
    ∃ b, (benchLts bctx maxSendWr).Path Careful s b ∧ OnTrack bctx maxSendWr b ∧
      b.remaining bctx.cfg < s.remaining bctx.cfg :=
  ⟨s', Lts.Path.single hok hs.next, h.step hok hs, hlt⟩

/-- **A call that goes on is handed a completion**, once the device has caught up. -/
theorem poll_smaller (hno : warmupCqes bctx.cfg < 2 ^ 31) (h : OnTrack bctx maxSendWr s)
    {site : PollSite}
    {count total : ℤ} (hpc : s.pc = .poll site count total) (hlt : total < count) :
    ∃ b, (benchLts bctx maxSendWr).Path Careful s b ∧ OnTrack bctx maxSendWr b ∧
      b.remaining bctx.cfg < s.remaining bctx.cfg := by
  obtain ⟨hdue, hnn, hbound⟩ := h.due hno hpc hlt
  obtain ⟨d, hp, hwf, hun, hdone⟩ := exists_caughtUp bctx maxSendWr s h.pos.wf
  have hlen : 1 ≤ d.cq.length := by
    rw [Device.cq_length_of_done hwf hdone, hun]
    exact hdue
  obtain ⟨es, d', hpoll, -, -⟩ := Device.exists_poll hlen
  obtain ⟨-, hsuccess, -, -⟩ := Device.poll_spec hwf hpoll
  have hok : Careful { s with dev := d } (.pollCq 1) := ⟨trivial, fun _ _ _ => le_rfl⟩
  have hs : BenchStep bctx maxSendWr { s with dev := d } (.pollCq 1)
      { s with pc := .poll site count (cInt (total + 1)), dev := d' } :=
    .pollMore site count total 1 es d' hpc hlt (by decide) hpoll hsuccess
  have hless :
      ({ s with pc := .poll site count (cInt (total + 1)), dev := d' } : BenchState).remaining
      bctx.cfg < s.remaining bctx.cfg := by
    rw [cInt_of_lt (by omega) (by omega)]
    cases site <;> simp only [BenchState.remaining, hpc] <;> omega
  exact ⟨_, hp.tail hok hs.next, (h.path hp).step hok hs, hless⟩

/-- **From every state that is not the end a stretch of the run leaves less to do.** -/
theorem exists_smaller (hno : warmupCqes bctx.cfg < 2 ^ 31)
    (hroom : ∀ m ∈ maxSendWr, bctx.cfg.warmup + bctx.cfg.iterations ≤ m)
    (h : OnTrack bctx maxSendWr s) (hfin : s.pc ≠ .finished) :
    ∃ b, (benchLts bctx maxSendWr).Path Careful s b ∧ OnTrack bctx maxSendWr b ∧
      b.remaining bctx.cfg < s.remaining bctx.cfg := by
  have hpos := h.pos
  have hhas : ∀ {sq : SendQueue}, sq.wrs.length < bctx.cfg.warmup + bctx.cfg.iterations →
      sq.hasRoom maxSendWr = true := by
    intro sq hlt
    cases hmax : maxSendWr with
    | none => rfl
    | some m =>
      have hm := hroom m hmax
      simp only [SendQueue.hasRoom, Option.all_some, SendQueue.held]
      exact decide_eq_true (by omega)
  cases hpc : s.pc with
  | warmup =>
    have hw := hpos.warmupPos hpc
    by_cases hi : s.i < bctx.cfg.warmup
    · by_cases hq : s.q < bctx.cfg.qpCount
      · have hlen := hw.length s.q hq
        rw [roundRobin_self] at hlen
        refine h.smaller careful_post (.warmupPost hpc hi hq (hhas (by omega))) ?_
        have hleft := stepsLeft_succ (w := 2) hi hq
        simp only [BenchState.remaining, hpc]
        have hout : (if warmupSignaled s.i = true then cInt (s.outstandingCqes + 1)
            else s.outstandingCqes).toNat ≤ s.outstandingCqes.toNat + 1 := by
          rw [hw.outstanding]
          split
          · exact toNat_cInt_succ_le _
          · omega
        omega
      · have hqe : s.q = bctx.cfg.qpCount := le_antisymm hw.q_le (not_lt.mp hq)
        refine h.smaller careful_cpu (.warmupNext hpc hi hq) ?_
        have hleft := stepsLeft_next (w := 2) (n := bctx.cfg.qpCount) hi
        simp only [BenchState.remaining, hpc, hqe]
        omega
    · refine h.smaller careful_cpu (.warmupExit hpc hi) ?_
      simp only [BenchState.remaining, hpc]
      omega
  | warmupDrain =>
    by_cases ho : s.outstandingCqes > 0
    · refine h.smaller careful_cpu (.warmupDrainCall hpc ho) ?_
      simp only [BenchState.remaining, BenchState.callPoll, hpc]
      omega
    · refine h.smaller careful_cpu (.warmupDrainSkip hpc ho) ?_
      simp only [BenchState.remaining, BenchState.startMeasure, hpc]
      omega
  | measure =>
    have hm := hpos.measurePos (by rw [hpc]; trivial)
    by_cases hi : s.i < bctx.cfg.iterations
    · by_cases hq : s.q < bctx.cfg.qpCount
      · have hlen := hm.length s.q hq
        rw [BenchState.written, hpc] at hlen
        simp only [BenchPc.turn, Nat.add_zero, roundRobin_self] at hlen
        refine h.smaller careful_post (.measurePost hpc hi hq (hhas (by omega))) ?_
        simp only [BenchState.remaining, hpc]
        omega
      · have hqe : s.q = bctx.cfg.qpCount := by
          have hle := hm.q_le
          rw [hpc] at hle
          exact le_antisymm hle (not_lt.mp hq)
        refine h.smaller careful_cpu (.measureNext hpc hi hq) ?_
        have hleft := stepsLeft_next (w := 4) (n := bctx.cfg.qpCount) hi
        simp only [BenchState.remaining, hpc, hqe]
        omega
    · refine h.smaller careful_cpu (.measureExit hpc hi) ?_
      simp only [BenchState.remaining, hpc]
      omega
  | throttle =>
    by_cases ho : s.outstandingCqes ≥ throttleAt bctx.cfg
    · refine h.smaller careful_cpu (.throttleCall hpc ho) ?_
      simp only [BenchState.remaining, BenchState.callPoll, hpc]
      omega
    · refine h.smaller careful_cpu (.throttleSkip hpc ho) ?_
      obtain ⟨hi, hq⟩ := hpos.turn (by rw [hpc]; rfl) (by rw [hpc]; trivial)
      have hleft := stepsLeft_succ (w := 4) hi hq
      simp only [BenchState.remaining, hpc]
      omega
  | drain =>
    have hc := (hpos.measurePos (by rw [hpc]; trivial)).counters
    rw [BenchState.CountersOk, hpc] at hc
    by_cases ho : s.outstandingCqes > 0
    · refine h.smaller careful_cpu (.drainCall hpc ho) ?_
      simp only [BenchState.remaining, BenchState.callPoll, hpc]
      omega
    · refine h.smaller careful_cpu (.drainSkip hpc ho) ?_
      simp only [BenchState.remaining, hpc]
      omega
  | poll site count total =>
    by_cases hlt : total < count
    · exact h.poll_smaller hno hpc hlt
    · refine h.smaller careful_cpu (.pollReturn site count total hpc hlt) ?_
      cases site <;> simp only [BenchState.remaining, BenchState.afterPoll, BenchState.startMeasure,
        hpc]
      · omega
      · obtain ⟨hi, hq⟩ := hpos.turn (by rw [hpc]; rfl) (by rw [hpc]; trivial)
        have hleft := stepsLeft_succ (w := 4) hi hq
        omega
      · omega
  | finished => exact absurd hpc hfin
  | died msg => exact absurd hpc (hpos.not_died msg)

end OnTrack

end Track

/-- **Which runs of the benchmark come to their end.** Let the counter of the warm-up not wrap, and
the send queues have room for all the writes. In any state of a run in which nothing has failed, the
run can go on to its end exactly when the counter is not ahead of the device: no throttle poll has
taken more completions than it takes off the counter. -/
theorem benchmark_finishes_iff (bctx : BenchCtx) (maxSendWr : Option ℕ)
    (hno : warmupCqes bctx.cfg < 2 ^ 31)
    (hroom : ∀ m ∈ maxSendWr, bctx.cfg.warmup + bctx.cfg.iterations ≤ m) (s : BenchState)
    (h : (benchLts bctx maxSendWr).Reach NoFailure s) :
    (∃ s', (benchLts bctx maxSendWr).Path NoFailure s s' ∧ s'.pc = .finished) ↔
      ¬Drifted bctx.cfg.qpCount s := by
  constructor
  · rintro ⟨s', hp, hfin⟩ hdrift
    have hpos := (benchPos_of_reach (fun _ _ => id) h).measurePos_of_drifted hno hdrift
    exact (drifted_of_path hp hpos hdrift).2.not_finished hfin
  · intro hdrift
    obtain ⟨s', hp, -, hfin⟩ := Lts.Path.exists_goal_of_path (M := benchLts bctx maxSendWr)
      (BenchState.remaining bctx.cfg) (fun _ ha hne => ha.exists_smaller hno hroom hne)
      (OnTrack.of_not_drifted hno h hdrift)
    exact ⟨s', hp.mono fun _ _ => Careful.ok, hfin⟩

/-- **On the 512 slots that are asked for**: 256 writes on one queue pair can run to their end, and
cannot any more behind a throttle poll that takes all eight completions. -/
theorem benchmark_finishes_512 :
    (∃ s, (benchLts (countingCtx driftCfg) (some 512)).Reach NoFailure s ∧ s.pc = .finished) ∧
    ∃ s, (benchLts (countingCtx driftCfg) (some 512)).Reach NoFailure s ∧
      ¬∃ s', (benchLts (countingCtx driftCfg) (some 512)).Path NoFailure s s' ∧
        s'.pc = .finished := by
  have hiff := benchmark_finishes_iff (countingCtx driftCfg) (some 512) (by decide) (by decide)
  constructor
  · have hstart : (benchLts (countingCtx driftCfg) (some 512)).Reach NoFailure benchStart :=
      Lts.Reach.of_init rfl
    have hdrift : ¬Drifted (countingCtx driftCfg).cfg.qpCount benchStart := by
      rintro ⟨-, hlt | ⟨-, count, total, hpc, -⟩⟩
      · simp [BenchState.balance, benchStart, BenchPc.reaped] at hlt
      · cases hpc
    obtain ⟨s, hp, hfin⟩ := (hiff benchStart hstart).mpr hdrift
    exact ⟨s, hstart.trans hp, hfin⟩
  · obtain ⟨s, hr, hpc, hout, hun⟩ :=
      @exists_drift (countingCtx driftCfg) (some 512) (by decide) rfl rfl rfl
    have hdrift : Drifted (countingCtx driftCfg).cfg.qpCount s := by
      refine ⟨by rw [hpc]; exact BenchPc.noConfusion, Or.inl ?_⟩
      rw [BenchState.balance, hout, hun, hpc]
      decide
    exact ⟨s, hr, fun hcon => (hiff s hr).mp hcon hdrift⟩

end RdmaBook
