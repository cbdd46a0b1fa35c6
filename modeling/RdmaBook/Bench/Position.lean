import RdmaBook.Bench.Run

/-!
# rdma_bench: where the posts stand

What is on the send queues at every point of a run in which nothing fails. The
benchmark posts round-robin, so the loop variables say how many writes each queue
pair has got (`RdmaBook.BenchState.written`), and the counter `signal_cnt` says
which of them are signaled: the `j`-th measured write of queue pair `k` is post
`j * qp_count + k` of the measurement, and it is signaled when that number, as an
`int`, leaves the remainder `31`.

* `RdmaBook.WarmupPos` – the invariant of the warm-up loop, where nothing is
  polled;
* `RdmaBook.MeasurePos` – the invariant of the measurement, over a base of
  requests each send queue held before it. The base is the warm-up in a whole run
  (`RdmaBook.benchPos_of_reach`), and any unsignaled leftover where the
  measurement is looked at alone (`RdmaBook.measureLts`).
-/

namespace RdmaBook

/-! ### Loop positions -/

/-- One write of the current turn has been posted already. -/
def BenchPc.turn : BenchPc → ℕ
  | .throttle => 1
  | .poll .throttle _ _ => 1
  | _ => 0

/-- Past the warm-up and its drain. -/
def BenchPc.InMeasure : BenchPc → Prop
  | .measure => True
  | .throttle => True
  | .drain => True
  | .poll .throttle _ _ => True
  | .poll .drain _ _ => True
  | .finished => True
  | _ => False

/-- Past the loops of the measurement. -/
def BenchPc.AfterLoop : BenchPc → Prop
  | .drain => True
  | .poll .drain _ _ => True
  | .finished => True
  | _ => False

/-- What queue pair `k` has got when `i` rounds over the queue pairs are complete
and the current one has reached `q`. -/
def roundRobin (i q k : ℕ) : ℕ := i + if k < q then 1 else 0

@[simp] theorem roundRobin_self (i q : ℕ) : roundRobin i q q = i := by
  simp [roundRobin]

@[simp] theorem roundRobin_succ_self (i q : ℕ) : roundRobin i (q + 1) q = i + 1 := by
  simp [roundRobin]

theorem roundRobin_succ_of_ne {i q k : ℕ} (h : k ≠ q) :
    roundRobin i (q + 1) k = roundRobin i q k := by
  have hiff : k < q + 1 ↔ k < q := by omega
  simp only [roundRobin, hiff]

/-- A round that has reached every queue pair is a complete one. -/
theorem roundRobin_next {i q k : ℕ} (h : k < q) : roundRobin (i + 1) 0 k = roundRobin i q k := by
  simp [roundRobin, h]

/-- The number of writes the current loop has posted on queue pair `k`. -/
def BenchState.written (s : BenchState) (k : ℕ) : ℕ := roundRobin s.i (s.q + s.pc.turn) k

/-- The number of writes the current loop has posted. -/
def BenchState.writes (s : BenchState) (n : ℕ) : ℕ := s.i * n + s.q + s.pc.turn

/-- `outstanding_cqes` and the arguments of `poll_completions` during the
measurement: the throttle keeps the counter below its threshold. -/
def BenchState.CountersOk (s : BenchState) : Prop :=
  match s.pc with
  | .measure => 0 ≤ s.outstandingCqes ∧ s.outstandingCqes < 8
  | .throttle => 0 ≤ s.outstandingCqes ∧ s.outstandingCqes ≤ 8
  | .drain => 0 ≤ s.outstandingCqes ∧ s.outstandingCqes < 8
  | .poll .throttle count total =>
    count = 1 ∧ s.outstandingCqes = 8 ∧ 0 ≤ total ∧ total ≤ 32
  | .poll .drain count total =>
    count = s.outstandingCqes ∧ 0 < count ∧ count < 8 ∧ 0 ≤ total ∧ total < 40
  | _ => True

theorem throttleAt_eq (cfg : BenchConfig) : throttleAt cfg = 8 := by
  rw [throttleAt, BenchConfig.sqDepth, defaultSqDepth, signalInterval]
  omega

/-- Before the counter wraps, every 32nd write of the measurement is signaled. -/
theorem measureSignaled_iff {n : ℕ} (h : n < 2 ^ 31) :
    measureSignaled (cInt n) = true ↔ n % 32 = 31 := by
  have hrem := cRem_cInt_of_lt h
  rw [measureSignaled, signalInterval, beq_iff_eq, show ((32 : ℕ) : ℤ) = 32 from rfl, hrem]
  omega

/-- A write that is signaled is a 32nd one, even after the counter has wrapped. -/
theorem mod_of_measureSignaled {n : ℕ} (h : measureSignaled (cInt n) = true) : n % 32 = 31 := by
  rw [measureSignaled, signalInterval, beq_iff_eq] at h
  exact rem_eq_of_cRem_cInt h

/-! ### The measurement -/

/-- **The invariant of the measurement**, over the requests `base k` that were on
the send queues before it. -/
structure MeasurePos (bctx : BenchCtx) (base : ℕ → ℕ) (s : BenchState) : Prop where
  inMeasure : s.pc.InMeasure
  wf : s.dev.Wf bctx.cfg.qpCount
  i_le : s.i ≤ bctx.cfg.iterations
  q_le : s.q + s.pc.turn ≤ bctx.cfg.qpCount
  last : s.i = bctx.cfg.iterations → s.q + s.pc.turn = 0
  afterLoop : s.pc.AfterLoop → s.i = bctx.cfg.iterations
  signalCnt : s.signalCnt = cInt (s.writes bctx.cfg.qpCount)
  counters : s.CountersOk
  length : ∀ k < bctx.cfg.qpCount, (s.dev.sq k).wrs.length = base k + s.written k
  flag : ∀ k < bctx.cfg.qpCount, ∀ j < s.written k, (s.dev.sq k).signaledAt (base k + j) =
    measureSignaled (cInt (j * bctx.cfg.qpCount + k : ℕ))

/-- A device with the same requests reads the same flags. -/
theorem signaledAt_congr {sq sq' : SendQueue} (h : sq'.wrs = sq.wrs) (i : ℕ) :
    sq'.signaledAt i = sq.signaledAt i := by
  rw [SendQueue.signaledAt, SendQueue.signaledAt, h]

namespace MeasurePos

variable {bctx : BenchCtx} {maxSendWr : Option ℕ} {base : ℕ → ℕ} {s s' : BenchState}
  {l : BenchLabel}

/-- The device may change as long as the requests stay. -/
theorem setDev (h : MeasurePos bctx base s) {dev : Device} (hwf : dev.Wf bctx.cfg.qpCount)
    (hw : ∀ k, (dev.sq k).wrs = (s.dev.sq k).wrs) : MeasurePos bctx base { s with dev := dev } where
  inMeasure := h.inMeasure
  wf := hwf
  i_le := h.i_le
  q_le := h.q_le
  last := h.last
  afterLoop := h.afterLoop
  signalCnt := h.signalCnt
  counters := h.counters
  length k hk := by
    have hlen := h.length k hk
    rwa [← hw k] at hlen
  flag k hk j hj := (signaledAt_congr (hw k) _).trans (h.flag k hk j hj)

/-- The program may move on without posting. -/
theorem move (h : MeasurePos bctx base s) {pc : BenchPc} {i q : ℕ} {outstanding : ℤ}
    (hm : pc.InMeasure) (hi : i ≤ bctx.cfg.iterations) (hq : q + pc.turn ≤ bctx.cfg.qpCount)
    (hlast : i = bctx.cfg.iterations → q + pc.turn = 0)
    (hafter : pc.AfterLoop → i = bctx.cfg.iterations)
    (hpos : i * bctx.cfg.qpCount + q + pc.turn = s.writes bctx.cfg.qpCount)
    (hwritten : ∀ k < bctx.cfg.qpCount, roundRobin i (q + pc.turn) k = s.written k)
    (hcounters : ({ s with pc, i, q, outstandingCqes := outstanding } : BenchState).CountersOk) :
    MeasurePos bctx base { s with pc, i, q, outstandingCqes := outstanding } where
  inMeasure := hm
  wf := h.wf
  i_le := hi
  q_le := hq
  last := hlast
  afterLoop := hafter
  signalCnt := by
    rw [BenchState.writes, hpos]
    exact h.signalCnt
  counters := hcounters
  length k hk := by
    rw [BenchState.written, hwritten k hk]
    exact h.length k hk
  flag k hk j hj := by
    rw [BenchState.written, hwritten k hk] at hj
    exact h.flag k hk j hj

/-- **A measured post**: queue pair `q` gets its `i`-th write, signaled by the
counter. -/
theorem measurePost (h : MeasurePos bctx base s) (hpc : s.pc = .measure)
    (hi : s.i < bctx.cfg.iterations) (hq : s.q < bctx.cfg.qpCount) :
    MeasurePos bctx base { s with
      pc := .throttle
      signalCnt := cInt (s.signalCnt + 1)
      outstandingCqes :=
        if measureSignaled s.signalCnt then cInt (s.outstandingCqes + 1) else s.outstandingCqes
      dev := s.dev.post s.q (postRdmaWrite bctx s.q (measureSignaled s.signalCnt)) } := by
  have hcnt := h.counters
  rw [BenchState.CountersOk, hpc] at hcnt
  have hsig : s.signalCnt = cInt (s.i * bctx.cfg.qpCount + s.q : ℕ) := by
    have := h.signalCnt
    rwa [BenchState.writes, hpc] at this
  have hold : ∀ k, s.written k = roundRobin s.i s.q k := fun k => by
    rw [BenchState.written, hpc]
    rfl
  refine ⟨trivial, h.wf.post hq _, by dsimp only; omega, by dsimp only [BenchPc.turn]; omega,
    fun hcon => ?_, fun hcon => hcon.elim, ?_, ?_, fun k hk => ?_, fun k hk j hj => ?_⟩
  · dsimp only at hcon
    omega
  · dsimp only [BenchState.writes, BenchPc.turn]
    rw [hsig, cInt_cInt_add]
    congr 1
  · dsimp only [BenchState.CountersOk]
    split
    · rw [cInt_of_lt (by omega) (by omega)]
      omega
    · omega
  · have hlen := h.length k hk
    rw [hold] at hlen
    change _ = base k + roundRobin s.i (s.q + 1) k
    rcases eq_or_ne k s.q with rfl | hne
    · rw [roundRobin_self] at hlen
      rw [Device.post_sq_self, SendQueue.post, List.length_append, hlen, roundRobin_succ_self]
      rfl
    · rw [Device.post_sq_of_ne _ _ hne, hlen, roundRobin_succ_of_ne hne]
  · have hlen := h.length k hk
    have hflag := h.flag k hk j
    rw [hold] at hlen hflag
    change j < roundRobin s.i (s.q + 1) k at hj
    change SendQueue.signaledAt ((s.dev.post s.q _).sq k) _ = _
    rcases eq_or_ne k s.q with rfl | hne
    · rw [roundRobin_self] at hlen hflag
      rw [roundRobin_succ_self] at hj
      rw [Device.post_sq_self]
      rcases Nat.lt_succ_iff_lt_or_eq.mp hj with hlt | rfl
      · rw [SendQueue.signaledAt_post_of_lt (by omega), hflag hlt]
      · -- the write just posted, whose flag the counter has chosen
        rw [← hlen, SendQueue.signaledAt_post_length, postRdmaWrite_signaled, hsig]
    · rw [Device.post_sq_of_ne _ _ hne]
      rw [roundRobin_succ_of_ne hne] at hj
      exact hflag hj

/-- The program may go on without touching the loop variables. -/
theorem goto (h : MeasurePos bctx base s) {pc : BenchPc} {outstanding : ℤ} (hm : pc.InMeasure)
    (hturn : pc.turn = s.pc.turn) (hafter : pc.AfterLoop → s.i = bctx.cfg.iterations)
    (hcounters : ({ s with pc, outstandingCqes := outstanding } : BenchState).CountersOk) :
    MeasurePos bctx base { s with pc, outstandingCqes := outstanding } := by
  refine h.move hm h.i_le ?_ ?_ hafter ?_ (fun k _ => ?_) hcounters
  · rw [hturn]
    exact h.q_le
  · rw [hturn]
    exact h.last
  · rw [hturn]
    rfl
  · rw [hturn]
    rfl

/-- The loop moves to the next round over the queue pairs. -/
theorem measureNext (h : MeasurePos bctx base s) (hpc : s.pc = .measure)
    (hi : s.i < bctx.cfg.iterations) (hq : ¬s.q < bctx.cfg.qpCount) :
    MeasurePos bctx base { s with i := s.i + 1, q := 0 } := by
  have hc := h.counters
  have hql := h.q_le
  rw [BenchState.CountersOk, hpc] at hc
  simp only [hpc, BenchPc.turn] at hql
  refine h.move (by rw [hpc]; trivial) hi (by rw [hpc]; exact Nat.zero_le _)
    (fun _ => by rw [hpc]; rfl) (by rw [hpc]; exact False.elim) ?_ (fun k hk => ?_)
    (by rw [BenchState.CountersOk]; simpa only [hpc] using hc)
  · simp only [BenchState.writes, hpc, BenchPc.turn]
    rw [Nat.succ_mul]
    omega
  · rw [BenchState.written, hpc]
    exact roundRobin_next (by dsimp only [BenchPc.turn]; omega)

/-- The write of the turn is done with: the loop moves to the next queue pair. -/
theorem endTurn (h : MeasurePos bctx base s) (hturn : s.pc.turn = 1) {outstanding : ℤ}
    (ho : 0 ≤ outstanding ∧ outstanding < 8) : MeasurePos bctx base
      { s with pc := .measure, q := s.q + 1, outstandingCqes := outstanding } := by
  have hql := h.q_le
  have hla := h.last
  rw [hturn] at hql hla
  refine h.move trivial h.i_le hql hla (fun hcon => hcon.elim) ?_ (fun k _ => ?_) ho
  · rw [BenchState.writes, hturn, ← Nat.add_assoc]
    rfl
  · rw [BenchState.written, hturn]
    rfl

/-- A call of `ibv_poll_cq` that reports nothing but successes. -/
theorem pollMore (h : MeasurePos bctx base s) {site : PollSite} {count total : ℤ} {n : ℕ}
    {es : List Cqe} {dev : Device} (hpc : s.pc = .poll site count total) (hlt : total < count)
    (hn : n ≤ 32) (hp : s.dev.poll n = some (es, dev)) :
    MeasurePos bctx base { s with pc := .poll site count (cInt (total + n)), dev := dev } := by
  obtain ⟨hwf, -, -, hsq⟩ := Device.poll_spec h.wf hp
  have hdev := h.setDev hwf fun k => (hsq k).1
  have hm := h.inMeasure
  have hc := h.counters
  have haf := h.afterLoop
  rw [BenchState.CountersOk] at hc
  rw [hpc] at hm hc haf
  refine hdev.goto (by cases site <;> exact hm) ?_ (by cases site <;> exact haf) ?_
  · rw [show ({ s with dev := dev } : BenchState).pc = .poll site count total from hpc]
    cases site <;> rfl
  · cases site with
    | warmupDrain => exact hm.elim
    | throttle | drain =>
      dsimp only [BenchState.CountersOk] at hc ⊢
      rw [cInt_of_lt (by omega) (by omega)]
      omega

/-- `poll_completions` returns to the loop, or to the end. -/
theorem pollReturn (h : MeasurePos bctx base s) {site : PollSite} {count total : ℤ}
    (hpc : s.pc = .poll site count total) : MeasurePos bctx base (s.afterPoll total site) := by
  have hm := h.inMeasure
  have hc := h.counters
  have haf := h.afterLoop
  rw [BenchState.CountersOk] at hc
  rw [hpc] at hm hc haf
  cases site with
  | warmupDrain => exact hm.elim
  | throttle =>
    dsimp only at hc
    refine h.endTurn (congrArg BenchPc.turn hpc) ?_
    rw [cInt_of_lt (by omega) (by omega)]
    omega
  | drain => exact h.goto trivial (congrArg BenchPc.turn hpc).symm (fun _ => haf trivial) trivial

/-- **Every step of the measurement keeps the invariant.** -/
theorem step (h : MeasurePos bctx base s) (hok : l.Ok) (hs : BenchStep bctx maxSendWr s l s') :
    MeasurePos bctx base s' := by
  have hm := h.inMeasure
  have hc := h.counters
  have haf := h.afterLoop
  rw [BenchState.CountersOk] at hc
  cases hs with
  | warmupPost hpc | warmupNext hpc | warmupExit hpc | warmupDrainCall hpc | warmupDrainSkip hpc =>
    rw [hpc] at hm
    exact hm.elim
  | warmupPostFail | measurePostFail => cases hok
  | pollErr => exact hok.elim
  | measurePost hpc hi hq => exact h.measurePost hpc hi hq
  | measureNext hpc hi hq => exact h.measureNext hpc hi hq
  | measureExit hpc hi =>
    rw [hpc] at hc
    have hie := Nat.le_antisymm h.i_le (Nat.not_lt.mp hi)
    exact h.goto trivial (congrArg BenchPc.turn hpc).symm (fun _ => hie) hc
  | throttleCall hpc ho =>
    rw [hpc] at hc
    rw [throttleAt_eq] at ho
    refine h.goto trivial (congrArg BenchPc.turn hpc).symm (fun hcon => hcon.elim) ?_
    exact ⟨rfl, le_antisymm hc.2 ho, le_rfl, by decide⟩
  | throttleSkip hpc ho =>
    rw [hpc] at hc
    rw [throttleAt_eq] at ho
    exact h.endTurn (congrArg BenchPc.turn hpc) ⟨hc.1, not_le.mp ho⟩
  | drainCall hpc ho =>
    rw [hpc] at hc haf
    refine h.goto trivial (congrArg BenchPc.turn hpc).symm (fun _ => haf trivial) ?_
    exact ⟨rfl, ho, hc.2, le_rfl, by decide⟩
  | drainSkip hpc ho =>
    rw [hpc] at haf
    exact h.goto trivial (congrArg BenchPc.turn hpc).symm (fun _ => haf trivial) trivial
  | pollMore site count total n es dev hpc hlt hn hp hes => exact h.pollMore hpc hlt hn hp
  | pollFailed site count total n es dev hpc hlt hn hp hes =>
    exact absurd hes (h.wf.not_polls_failure hp)
  | pollReturn site count total hpc hge => exact h.pollReturn hpc
  | complete k status dev hcomp =>
    obtain rfl : status = .success := hok
    exact h.setDev (h.wf.complete hcomp) fun k => (Device.complete_sq hcomp k).1

end MeasurePos

/-! ### The warm-up -/

/-- The signaled writes of the whole warm-up: every 32nd turn signals one write
on each queue pair. -/
def warmupCqes (cfg : BenchConfig) : ℕ := cfg.warmup / 32 * cfg.qpCount

theorem warmupSignaled_iff {i : ℕ} : warmupSignaled i = true ↔ i % 32 = 31 := by
  simp [warmupSignaled, signalInterval]

/-- The signaled writes posted when the warm-up has made `i` turns over `n` queue
pairs, and `q` writes of the next. -/
def warmupMarks (n i q : ℕ) : ℕ := i / 32 * n + if warmupSignaled i then q else 0

@[simp] theorem warmupMarks_zero (n i : ℕ) : warmupMarks n i 0 = i / 32 * n := by
  rw [warmupMarks, ite_self, Nat.add_zero]

theorem warmupMarks_succ (n i q : ℕ) :
    warmupMarks n i (q + 1) = warmupMarks n i q + if warmupSignaled i then 1 else 0 := by
  rw [warmupMarks, warmupMarks]
  split <;> omega

/-- A turn that has reached every queue pair is complete. -/
theorem warmupMarks_next (n i : ℕ) : warmupMarks n (i + 1) 0 = warmupMarks n i n := by
  rw [warmupMarks_zero, warmupMarks]
  by_cases hs : i % 32 = 31
  · have hdiv : (i + 1) / 32 = i / 32 + 1 := by omega
    rw [if_pos (warmupSignaled_iff.mpr hs), hdiv, Nat.succ_mul]
  · have hdiv : (i + 1) / 32 = i / 32 := by omega
    rw [if_neg (fun hw => hs (warmupSignaled_iff.mp hw)), hdiv, Nat.add_zero]

/-- **The invariant of the warm-up loop**: nothing has been polled, and
`outstanding_cqes` is the number of unpolled writes, as an `int`. -/
structure WarmupPos (bctx : BenchCtx) (s : BenchState) : Prop where
  inLoop : s.pc = .warmup ∨ s.pc = .warmupDrain
  wf : s.dev.Wf bctx.cfg.qpCount
  i_le : s.i ≤ bctx.cfg.warmup
  q_le : s.q ≤ bctx.cfg.qpCount
  last : s.i = bctx.cfg.warmup → s.q = 0
  exit : s.pc = .warmupDrain → s.i = bctx.cfg.warmup
  retired : ∀ k, (s.dev.sq k).retired = 0
  length : ∀ k < bctx.cfg.qpCount, (s.dev.sq k).wrs.length = roundRobin s.i s.q k
  unpolled : s.dev.unpolled bctx.cfg.qpCount = warmupMarks bctx.cfg.qpCount s.i s.q
  outstanding : s.outstandingCqes = cInt (s.dev.unpolled bctx.cfg.qpCount)

/-- **The invariant of the warm-up drain**: every queue pair has its `warmup`
writes, and as long as `outstanding_cqes` has not wrapped, what is left to reap is
what is unpolled. -/
structure WarmupPoll (bctx : BenchCtx) (s : BenchState) (count total : ℤ) : Prop where
  inPoll : s.pc = .poll .warmupDrain count total
  wf : s.dev.Wf bctx.cfg.qpCount
  length : ∀ k < bctx.cfg.qpCount, (s.dev.sq k).wrs.length = bctx.cfg.warmup
  count_eq : count = s.outstandingCqes
  ledger : warmupCqes bctx.cfg < 2 ^ 31 →
    0 ≤ total ∧ count < 2 ^ 31 ∧ total + s.dev.unpolled bctx.cfg.qpCount = count

namespace WarmupPos

variable {bctx : BenchCtx} {maxSendWr : Option ℕ} {s s' : BenchState} {l : BenchLabel}

/-- Out of the loop, the unpolled writes are those of the whole warm-up. -/
theorem unpolled_exit (h : WarmupPos bctx s) (hi : s.i = bctx.cfg.warmup) :
    s.dev.unpolled bctx.cfg.qpCount = warmupCqes bctx.cfg := by
  rw [h.unpolled, h.last hi, hi, warmupMarks_zero, warmupCqes]

theorem length_exit (h : WarmupPos bctx s) (hi : s.i = bctx.cfg.warmup) :
    ∀ k < bctx.cfg.qpCount, (s.dev.sq k).wrs.length = bctx.cfg.warmup := by
  intro k hk
  rw [h.length k hk, h.last hi, hi, roundRobin, if_neg (Nat.not_lt_zero k), Nat.add_zero]

/-- The device may change as long as the requests, the slots and the unpolled
writes stay. -/
theorem setDev (h : WarmupPos bctx s) {dev : Device} (hwf : dev.Wf bctx.cfg.qpCount)
    (hw : ∀ k, (dev.sq k).wrs = (s.dev.sq k).wrs ∧ (dev.sq k).retired = (s.dev.sq k).retired)
    (hu : dev.unpolled bctx.cfg.qpCount = s.dev.unpolled bctx.cfg.qpCount) :
    WarmupPos bctx { s with dev := dev } where
  inLoop := h.inLoop
  wf := hwf
  i_le := h.i_le
  q_le := h.q_le
  last := h.last
  exit := h.exit
  retired k := (hw k).2.trans (h.retired k)
  length k hk := by
    have hlen := h.length k hk
    rwa [← (hw k).1] at hlen
  unpolled := hu.trans h.unpolled
  outstanding := by
    dsimp only
    rw [hu]
    exact h.outstanding

/-- **A post of the warm-up**: queue pair `q` gets its `i`-th write. -/
theorem warmupPost (h : WarmupPos bctx s) (hpc : s.pc = .warmup) (hi : s.i < bctx.cfg.warmup)
    (hq : s.q < bctx.cfg.qpCount) :
    WarmupPos bctx { s with
      q := s.q + 1
      outstandingCqes :=
        if warmupSignaled s.i then cInt (s.outstandingCqes + 1) else s.outstandingCqes
      dev := s.dev.post s.q (postRdmaWrite bctx s.q (warmupSignaled s.i)) } := by
  have hun := Device.unpolled_post h.wf hq (postRdmaWrite bctx s.q (warmupSignaled s.i))
  rw [postRdmaWrite_signaled] at hun
  refine ⟨Or.inl hpc, h.wf.post hq _, h.i_le, hq, fun hcon => ?_, fun hcon => ?_, fun k => ?_,
    fun k hk => ?_, ?_, ?_⟩
  · dsimp only at hcon
    omega
  · rw [hpc] at hcon
    cases hcon
  · rcases eq_or_ne k s.q with rfl | hne
    · rw [Device.post_sq_self]
      exact h.retired s.q
    · rw [Device.post_sq_of_ne _ _ hne]
      exact h.retired k
  · have hlen := h.length k hk
    rcases eq_or_ne k s.q with rfl | hne
    · rw [roundRobin_self] at hlen
      rw [Device.post_sq_self, SendQueue.post, List.length_append, hlen, roundRobin_succ_self]
      rfl
    · rw [Device.post_sq_of_ne _ _ hne, hlen, roundRobin_succ_of_ne hne]
  · dsimp only
    rw [hun, h.unpolled, warmupMarks_succ]
  · dsimp only
    rw [hun, h.outstanding]
    split
    · rw [cInt_cInt_add]
      rfl
    · rfl

/-- The loop moves to the next turn. -/
theorem warmupNext (h : WarmupPos bctx s) (hpc : s.pc = .warmup) (hi : s.i < bctx.cfg.warmup)
    (hq : ¬s.q < bctx.cfg.qpCount) : WarmupPos bctx { s with i := s.i + 1, q := 0 } := by
  have hqe : s.q = bctx.cfg.qpCount := Nat.le_antisymm h.q_le (by omega)
  refine ⟨Or.inl hpc, h.wf, hi, Nat.zero_le _, fun _ => rfl, fun hcon => ?_, h.retired,
    fun k hk => ?_, ?_, h.outstanding⟩
  · rw [hpc] at hcon
    cases hcon
  · rw [h.length k hk]
    exact (roundRobin_next (by omega)).symm
  · dsimp only
    rw [h.unpolled, hqe, warmupMarks_next]

end WarmupPos

/-! ### A whole run -/

/-- The invariant of a whole run, phase by phase. -/
inductive BenchPos (bctx : BenchCtx) (s : BenchState) : Prop
  | warmup (h : WarmupPos bctx s)
  | warmupPoll (count total : ℤ) (h : WarmupPoll bctx s count total)
  | measure (h : MeasurePos bctx (fun _ => bctx.cfg.warmup) s)

section Run

variable {bctx : BenchCtx} {maxSendWr : Option ℕ} {s s' : BenchState} {l : BenchLabel}

/-- **A posted request stays what it is**: a step only adds to the send queues. -/
theorem wrs_prefix_of_step (hs : BenchStep bctx maxSendWr s l s') (k : ℕ) :
    (s.dev.sq k).wrs <+: (s'.dev.sq k).wrs := by
  have hpost : ∀ j wr, (s.dev.sq k).wrs <+: ((s.dev.post j wr).sq k).wrs := by
    intro j wr
    rcases eq_or_ne k j with rfl | hne
    · rw [Device.post_sq_self]
      exact List.prefix_append _ _
    · rw [Device.post_sq_of_ne _ _ hne]
  cases hs with
  | warmupPost => exact hpost _ _
  | measurePost => exact hpost _ _
  | pollMore site c t n es dev hpc hlt hn hp =>
    rw [show (dev.sq k).wrs = (s.dev.sq k).wrs from (Device.poll_sq hp k).1]
  | pollFailed site c t n es dev hpc hlt hn hp =>
    have hdev : ((({ s with dev := dev } : BenchState).afterPoll (-1) site).dev.sq k).wrs =
        (s.dev.sq k).wrs := by
      rw [BenchState.afterPoll_dev]
      exact (Device.poll_sq hp k).1
    rw [hdev]
  | pollReturn site => rw [BenchState.afterPoll_dev]
  | complete j status dev hc => rw [(Device.complete_sq hc k).1]
  | _ => exact List.prefix_rfl

theorem benchPos_start (bctx : BenchCtx) : BenchPos bctx benchStart := by
  refine .warmup ⟨Or.inl rfl, Device.wf_empty _, Nat.zero_le _, Nat.zero_le _, fun _ => rfl,
    fun hcon => ?_, fun _ => rfl, fun k _ => ?_, ?_, ?_⟩
  · cases hcon
  · simp [benchStart, Device.empty, SendQueue.empty, roundRobin]
  · simp [benchStart]
  · simp only [benchStart, Device.unpolled_empty]
    rfl

/-- The measurement starts over what the warm-up has posted. -/
theorem measurePos_startMeasure {base : ℕ → ℕ} (hwf : s.dev.Wf bctx.cfg.qpCount)
    (hlen : ∀ k < bctx.cfg.qpCount, (s.dev.sq k).wrs.length = base k) :
    MeasurePos bctx base s.startMeasure where
  inMeasure := trivial
  wf := hwf
  i_le := Nat.zero_le _
  q_le := Nat.zero_le _
  last _ := rfl
  afterLoop := False.elim
  signalCnt := by
    simp only [BenchState.writes, BenchState.startMeasure, BenchPc.turn, Nat.zero_mul]
    rfl
  counters := by
    simp only [BenchState.CountersOk, BenchState.startMeasure]
    omega
  length k hk := (hlen k hk).trans (by simp [BenchState.written, BenchState.startMeasure,
    BenchPc.turn, roundRobin])
  flag k _ j hj := by
    simp [BenchState.written, BenchState.startMeasure, BenchPc.turn, roundRobin] at hj

theorem WarmupPoll.step {count total : ℤ} (h : WarmupPoll bctx s count total) (hok : l.Ok)
    (hs : BenchStep bctx maxSendWr s l s') : BenchPos bctx s' := by
  have hpc' := h.inPoll
  cases hs with
  | warmupPost hpc | warmupNext hpc | warmupExit hpc | warmupDrainCall hpc | warmupDrainSkip hpc
  | measurePost hpc | measureNext hpc | measureExit hpc | throttleCall hpc | throttleSkip hpc
  | drainCall hpc | drainSkip hpc =>
    rw [hpc] at hpc'
    cases hpc'
  | warmupPostFail | measurePostFail => cases hok
  | pollErr => exact hok.elim
  | pollMore site c t n es dev hpc hlt hn hp hes =>
    rw [hpc] at hpc'
    cases hpc'
    obtain ⟨hwf, -, hun, hsq⟩ := Device.poll_spec h.wf hp
    refine .warmupPoll count (cInt (total + n)) ⟨rfl, hwf, fun k hk => ?_, h.count_eq,
      fun hno => ?_⟩
    · rw [(hsq k).1]
      exact h.length k hk
    · obtain ⟨h₀, hlt', heq⟩ := h.ledger hno
      dsimp only
      rw [cInt_of_lt (by omega) (by omega)]
      omega
  | pollFailed site c t n es dev hpc hlt hn hp hes =>
    exact absurd hes (h.wf.not_polls_failure hp)
  | pollReturn site c t hpc hge =>
    rw [hpc] at hpc'
    cases hpc'
    exact .measure (measurePos_startMeasure h.wf h.length)
  | complete k status dev hcomp =>
    obtain rfl : status = .success := hok
    refine .warmupPoll count total ⟨h.inPoll, h.wf.complete hcomp, fun k' hk' => ?_, h.count_eq,
      fun hno => ?_⟩
    · rw [(Device.complete_sq hcomp k').1]
      exact h.length k' hk'
    · dsimp only
      rw [Device.unpolled_complete hcomp]
      exact h.ledger hno

theorem WarmupPos.step (h : WarmupPos bctx s) (hok : l.Ok)
    (hs : BenchStep bctx maxSendWr s l s') : BenchPos bctx s' := by
  have hloop := h.inLoop
  cases hs with
  | measurePost hpc | measureNext hpc | measureExit hpc | throttleCall hpc | throttleSkip hpc
  | drainCall hpc | drainSkip hpc =>
    rw [hpc] at hloop
    rcases hloop with hcon | hcon <;> cases hcon
  | pollMore _ _ _ _ _ _ hpc | pollFailed _ _ _ _ _ _ hpc | pollReturn _ _ _ hpc =>
    rw [hpc] at hloop
    rcases hloop with hcon | hcon <;> cases hcon
  | warmupPostFail | measurePostFail => cases hok
  | pollErr => exact hok.elim
  | warmupPost hpc hi hq => exact .warmup (h.warmupPost hpc hi hq)
  | warmupNext hpc hi hq => exact .warmup (h.warmupNext hpc hi hq)
  | warmupExit hpc hi =>
    have hie : s.i = bctx.cfg.warmup := Nat.le_antisymm h.i_le (by omega)
    exact .warmup ⟨Or.inr rfl, h.wf, h.i_le, h.q_le, h.last, fun _ => hie, h.retired, h.length,
      h.unpolled, h.outstanding⟩
  | warmupDrainCall hpc ho =>
    have hie := h.exit hpc
    refine .warmupPoll s.outstandingCqes 0 ⟨rfl, h.wf, h.length_exit hie, rfl, fun hno => ?_⟩
    have hout := h.outstanding
    have hun := h.unpolled_exit hie
    rw [cInt_natCast (by omega)] at hout
    dsimp only [BenchState.callPoll]
    omega
  | warmupDrainSkip hpc ho =>
    exact .measure (measurePos_startMeasure h.wf (h.length_exit (h.exit hpc)))
  | complete k status dev hcomp =>
    obtain rfl : status = .success := hok
    exact .warmup (h.setDev (h.wf.complete hcomp) (fun k' => Device.complete_sq hcomp k')
      (Device.unpolled_complete hcomp))

theorem BenchPos.step (h : BenchPos bctx s) (hok : l.Ok) (hs : BenchStep bctx maxSendWr s l s') :
    BenchPos bctx s' := by
  cases h with
  | warmup h => exact h.step hok hs
  | warmupPoll count total h => exact h.step hok hs
  | measure h => exact .measure (h.step hok hs)

/-- **In a run in which nothing fails, the posts stand where the loop variables
say.** -/
theorem benchPos_of_reach {ok : BenchState → BenchLabel → Prop} (hle : ∀ s l, ok s l → l.Ok)
    (h : (benchLts bctx maxSendWr).Reach ok s) : BenchPos bctx s := by
  refine h.invariant ?_ fun a l b ha hok hs => ha.step (hle a l hok) (BenchStep.of_next hs)
  rintro a rfl
  exact benchPos_start bctx

/-- In the warm-up loop the run is in its first phase. -/
theorem BenchPos.warmupPos (h : BenchPos bctx s) (hpc : s.pc = .warmup) : WarmupPos bctx s := by
  cases h with
  | warmup h => exact h
  | warmupPoll count total h =>
    have := h.inPoll
    rw [hpc] at this
    cases this
  | measure h =>
    have := h.inMeasure
    rw [hpc] at this
    exact this.elim

/-- Past the warm-up the run is in its last phase. -/
theorem BenchPos.measurePos (h : BenchPos bctx s) (hm : s.pc.InMeasure) :
    MeasurePos bctx (fun _ => bctx.cfg.warmup) s := by
  cases h with
  | warmup h =>
    rcases h.inLoop with hpc | hpc <;> rw [hpc] at hm <;> exact hm.elim
  | warmupPoll count total h =>
    rw [h.inPoll] at hm
    exact hm.elim
  | measure h => exact h

end Run

/-! ### The measurement alone -/

/-- A state in which the measurement may start: both counters are zero, the
completion queue is empty, and each queue pair holds an unsignaled leftover
`left k` of the warm-up, in whatever state of completion. -/
structure MeasureStart (bctx : BenchCtx) (left : ℕ → ℕ) (s : BenchState) : Prop where
  pc : s.pc = .measure
  i : s.i = 0
  q : s.q = 0
  signalCnt : s.signalCnt = 0
  outstandingCqes : s.outstandingCqes = 0
  cq : s.dev.cq = []
  length : ∀ k < bctx.cfg.qpCount, (s.dev.sq k).wrs.length = left k
  outside : ∀ k, bctx.cfg.qpCount ≤ k → (s.dev.sq k).wrs = []
  unsignaled : ∀ k, ∀ wr ∈ (s.dev.sq k).wrs, wr.signaled = false
  retired : ∀ k, (s.dev.sq k).retired = 0
  done_le : ∀ k, (s.dev.sq k).done ≤ (s.dev.sq k).wrs.length
  not_failed : ∀ k, (s.dev.sq k).failed = false

/-- **The measurement of the benchmark on its own**, over a leftover of the
warm-up. -/
def measureLts (bctx : BenchCtx) (maxSendWr : Option ℕ) (left : ℕ → ℕ) :
    Lts BenchState BenchLabel :=
  Lts.ofFun (MeasureStart bctx left) (benchNext bctx maxSendWr)

namespace MeasureStart

variable {bctx : BenchCtx} {left : ℕ → ℕ} {s : BenchState}

theorem signaledAt (h : MeasureStart bctx left s) (k i : ℕ) :
    (s.dev.sq k).signaledAt i = false := by
  rw [SendQueue.signaledAt]
  cases hwr : (s.dev.sq k).wrs[i]? with
  | none => rfl
  | some wr => simpa using h.unsignaled k wr (List.mem_of_getElem? hwr)

theorem signaledIn (h : MeasureStart bctx left s) (k a b : ℕ) :
    (s.dev.sq k).signaledIn a b = [] := by
  rw [SendQueue.signaledIn, List.filter_eq_nil_iff]
  intro i _
  rw [h.signaledAt]
  exact Bool.false_ne_true

theorem wf (h : MeasureStart bctx left s) : s.dev.Wf bctx.cfg.qpCount where
  sq k := ⟨by rw [h.retired]; exact Nat.zero_le _, h.done_le k, h.not_failed k,
    Or.inl (h.retired k)⟩
  cq k := by
    rw [Device.cqOf, h.cq, SendQueue.due, h.signaledIn]
    rfl
  success := by simp [h.cq]
  outside := h.outside

theorem unpolled (h : MeasureStart bctx left s) (n : ℕ) : s.dev.unpolled n = 0 :=
  Finset.sum_eq_zero fun k _ => by rw [SendQueue.unpolled, h.signaledIn]; rfl

theorem eq_startMeasure (h : MeasureStart bctx left s) : s = s.startMeasure := by
  obtain ⟨pc, i, q, signalCnt, outstandingCqes, dev⟩ := s
  obtain ⟨rfl, rfl, rfl, rfl, rfl⟩ : _ ∧ _ ∧ _ ∧ _ ∧ _ :=
    ⟨h.pc, h.i, h.q, h.signalCnt, h.outstandingCqes⟩
  rfl

theorem measurePos (h : MeasureStart bctx left s) : MeasurePos bctx left s := by
  rw [h.eq_startMeasure]
  exact measurePos_startMeasure h.wf h.length

end MeasureStart

/-- In a measurement in which nothing fails, the posts stand where the loop
variables say. -/
theorem measurePos_of_reach {bctx : BenchCtx} {maxSendWr : Option ℕ} {left : ℕ → ℕ}
    {s : BenchState} {ok : BenchState → BenchLabel → Prop} (hle : ∀ s l, ok s l → l.Ok)
    (h : (measureLts bctx maxSendWr left).Reach ok s) : MeasurePos bctx left s :=
  h.invariant (fun _ ha => MeasureStart.measurePos ha) fun a l _ ha hok hs =>
    ha.step (hle a l hok) (BenchStep.of_next hs)

end RdmaBook
