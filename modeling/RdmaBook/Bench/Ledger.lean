import RdmaBook.Bench.Schedule

/-!
# rdma_bench: the completion ledger

`outstanding_cqes` goes up by one with every signaled write and down by one with
every throttle poll, while `poll_completions` takes whatever `ibv_poll_cq` hands
out, up to 32 completions at a time. The distance between the two accounts is
`RdmaBook.BenchState.balance`: the counter, less what the current call has reaped
already, less what is unpolled. No step moves it but the return of a call
(`RdmaBook.balance_step`), and a throttle call that has reaped `t` completions
moves it up by `t - 1`.

So in a run in which nothing fails the balance is never negative
(`RdmaBook.Settled`), and it stays zero as long as the throttle reaps one
completion at a time (`RdmaBook.Exact`); a single batch puts it above zero for
good (`RdmaBook.Drifted`), and then the final drain waits for a completion that
nothing will produce.
-/

namespace RdmaBook

/-! ### The balance -/

/-- What the current call of `poll_completions` has reaped. -/
def BenchPc.reaped : BenchPc → ℤ
  | .poll _ _ total => total
  | _ => 0

/-- **The balance** of the counter against the device. -/
def BenchState.balance (n : ℕ) (s : BenchState) : ℤ :=
  s.outstandingCqes - s.pc.reaped - s.dev.unpolled n

/-- What the return of a call adds to the balance: the throttle takes one off the
counter, the final drain nothing, whatever has been reaped. -/
def BenchState.gain (s : BenchState) : BenchLabel → ℤ
  | .cpu =>
    match s.pc with
    | .poll .throttle _ total => total - 1
    | .poll .drain _ total => total
    | _ => 0
  | _ => 0

section Balance

variable {bctx : BenchCtx} {maxSendWr : Option ℕ} {base : ℕ → ℕ} {s s' : BenchState}
  {l : BenchLabel}

/-- **What a step of the measurement does to the balance.** -/
theorem balance_step (h : MeasurePos bctx base s) (hok : l.Ok)
    (hs : BenchStep bctx maxSendWr s l s') :
    s'.balance bctx.cfg.qpCount = s.balance bctx.cfg.qpCount + s.gain l := by
  have hm := h.inMeasure
  have hc := h.counters
  cases hs with
  | warmupPost hpc | warmupNext hpc | warmupExit hpc | warmupDrainCall hpc | warmupDrainSkip hpc =>
    rw [hpc] at hm
    exact hm.elim
  | warmupPostFail | measurePostFail => cases hok
  | pollErr => exact hok.elim
  | measurePost hpc hi hq =>
    rw [BenchState.CountersOk, hpc] at hc
    have hun := Device.unpolled_post h.wf hq (postRdmaWrite bctx s.q (measureSignaled s.signalCnt))
    rw [postRdmaWrite_signaled] at hun
    simp only [BenchState.balance, BenchState.gain, hpc, BenchPc.reaped]
    rw [hun]
    split
    · rw [cInt_of_lt (by omega) (by omega)]
      omega
    · omega
  | measureNext hpc | measureExit hpc | throttleSkip hpc | drainSkip hpc =>
    simp only [BenchState.balance, BenchState.gain, hpc, BenchPc.reaped]
    omega
  | throttleCall hpc | drainCall hpc =>
    simp only [BenchState.balance, BenchState.gain, BenchState.callPoll, hpc, BenchPc.reaped]
    omega
  | pollMore site count total n es dev hpc hlt hn hp hes =>
    obtain ⟨-, -, hun, -⟩ := Device.poll_spec h.wf hp
    rw [BenchState.CountersOk, hpc] at hc
    simp only [BenchState.balance, BenchState.gain, hpc, BenchPc.reaped]
    rw [hpc] at hm
    cases site with
    | warmupDrain => exact hm.elim
    | throttle =>
      dsimp only at hc
      rw [cInt_of_lt (by omega) (by omega)]
      omega
    | drain =>
      dsimp only at hc
      rw [cInt_of_lt (by omega) (by omega)]
      omega
  | pollFailed site count total n es dev hpc hlt hn hp hes =>
    exact absurd hes (h.wf.not_polls_failure hp)
  | pollReturn site count total hpc hge =>
    rw [BenchState.CountersOk, hpc] at hc
    rw [hpc] at hm
    cases site with
    | warmupDrain => exact hm.elim
    | throttle =>
      dsimp only at hc
      simp only [BenchState.balance, BenchState.gain, BenchState.afterPoll, hpc, BenchPc.reaped]
      rw [cInt_of_lt (by omega) (by omega)]
      omega
    | drain =>
      simp only [BenchState.balance, BenchState.gain, BenchState.afterPoll, hpc, BenchPc.reaped]
      omega
  | complete k status dev hcomp =>
    simp only [BenchState.balance, BenchState.gain]
    rw [Device.unpolled_complete hcomp]
    omega

/-- **Where the balance moves**: a call of the throttle or of the final drain returns. -/
theorem gain_cases (hs : BenchStep bctx maxSendWr s l s') : s.gain l = 0 ∨
    (∃ count total, s.pc = .poll .throttle count total ∧ ¬total < count ∧ s.gain l = total - 1) ∨
    ∃ count total, s.pc = .poll .drain count total ∧ ¬total < count ∧ s.gain l = total ∧
      s'.pc = .finished := by
  cases hs with
  | pollReturn site count total hpc hge =>
    simp only [BenchState.gain, hpc]
    cases site with
    | warmupDrain => exact Or.inl rfl
    | throttle => exact Or.inr (Or.inl ⟨count, total, rfl, hge, rfl⟩)
    | drain => exact Or.inr (Or.inr ⟨count, total, rfl, hge, rfl, rfl⟩)
  | warmupNext hpc | warmupExit hpc | warmupDrainCall hpc | warmupDrainSkip hpc
  | measureNext hpc | measureExit hpc | throttleCall hpc | throttleSkip hpc | drainCall hpc
  | drainSkip hpc =>
    refine Or.inl ?_
    simp only [BenchState.gain, hpc]
  | _ => exact Or.inl rfl

/-- A call returns only with something reaped, so the balance never falls. -/
theorem gain_nonneg (h : MeasurePos bctx base s) (hs : BenchStep bctx maxSendWr s l s') :
    0 ≤ s.gain l := by
  have hc := h.counters
  rcases gain_cases hs with hzero | ⟨count, total, hpc, hge, heq⟩ | ⟨count, total, hpc, hge, heq, -⟩
  · exact hzero.ge
  · rw [BenchState.CountersOk, hpc] at hc
    dsimp only at hc
    omega
  · rw [BenchState.CountersOk, hpc] at hc
    dsimp only at hc
    omega

/-- After the end only the NIC moves. -/
theorem finished_step (hs : BenchStep bctx maxSendWr s l s') (hpc : s.pc = .finished) :
    ∃ k status dev, s.dev.complete k status = some dev ∧ s' = { s with dev := dev } := by
  cases hs with
  | complete k status dev hcomp => exact ⟨k, status, dev, hcomp, rfl⟩
  | warmupPost h | warmupPostFail h | warmupNext h | warmupExit h | warmupDrainCall h
  | warmupDrainSkip h | measurePost h | measurePostFail h | measureNext h | measureExit h
  | throttleCall h | throttleSkip h | drainCall h | drainSkip h =>
    rw [hpc] at h
    cases h
  | pollMore _ _ _ _ _ _ h | pollFailed _ _ _ _ _ _ h | pollReturn _ _ _ h | pollErr _ _ _ h =>
    rw [hpc] at h
    cases h

/-- **The end is reached only once the counter has been reaped**: the final drain
has nothing to ask for, or its call has got all of it. -/
theorem outstanding_le_of_finished (h : MeasurePos bctx base s) (hok : l.Ok)
    (hs : BenchStep bctx maxSendWr s l s') (hne : s.pc ≠ .finished) (hfin : s'.pc = .finished) :
    s.outstandingCqes ≤ s.pc.reaped ∧ s'.dev = s.dev := by
  have hm := h.inMeasure
  have hc := h.counters
  cases hs with
  | drainSkip hpc ho =>
    rw [hpc]
    exact ⟨by dsimp only [BenchPc.reaped]; omega, rfl⟩
  | pollReturn site count total hpc hge =>
    rw [BenchState.CountersOk, hpc] at hc
    rw [hpc] at hm ⊢
    cases site with
    | warmupDrain => exact hm.elim
    | throttle => cases hfin
    | drain =>
      dsimp only at hc
      exact ⟨by dsimp only [BenchPc.reaped]; omega, rfl⟩
  | pollFailed site count total n es dev hpc hlt hn hp hes =>
    exact absurd hes (h.wf.not_polls_failure hp)
  | pollErr => exact hok.elim
  | complete => exact absurd hfin hne
  | warmupPost hpc | warmupNext hpc | measureNext hpc =>
    rw [show s.pc = .finished from hfin] at hpc
    cases hpc
  | warmupPostFail | warmupExit | warmupDrainCall | warmupDrainSkip | measurePost
  | measurePostFail | measureExit | throttleCall | throttleSkip | drainCall | pollMore =>
    cases hfin

/-! ### The counter is never behind the device -/

/-- **No unpolled write is missing from the counter**, and none is left at the
end. -/
structure Settled (n : ℕ) (s : BenchState) : Prop where
  nonneg : s.pc ≠ .finished → 0 ≤ s.balance n
  finished : s.pc = .finished → s.dev.unpolled n = 0

theorem Settled.step (hb : Settled bctx.cfg.qpCount s) (h : MeasurePos bctx base s) (hok : l.Ok)
    (hs : BenchStep bctx maxSendWr s l s') : Settled bctx.cfg.qpCount s' := by
  by_cases hfin : s.pc = .finished
  · obtain ⟨k, status, dev, hcomp, rfl⟩ := finished_step hs hfin
    exact ⟨fun hne => absurd hfin hne, fun _ =>
      (Device.unpolled_complete hcomp).trans (hb.finished hfin)⟩
  · have hbal := balance_step h hok hs
    have hgain := gain_nonneg h hs
    have hnn := hb.nonneg hfin
    refine ⟨fun _ => by omega, fun hend => ?_⟩
    obtain ⟨hle, hdev⟩ := outstanding_le_of_finished h hok hs hfin hend
    rw [BenchState.balance] at hnn
    rw [hdev]
    omega

/-- Where the measurement starts with nothing unpolled, the account is settled. -/
theorem settled_startMeasure {n : ℕ} (hun : s.dev.unpolled n = 0) : Settled n s.startMeasure := by
  refine ⟨fun _ => ?_, fun hcon => ?_⟩
  · simp only [BenchState.balance, BenchState.startMeasure, BenchPc.reaped]
    omega
  · cases hcon

/-! ### One completion at a time -/

/-- **The counter is not ahead of the device**: a throttle call has reaped at most
the completion it takes off the counter. -/
structure Exact (n : ℕ) (s : BenchState) : Prop where
  nonpos : s.pc ≠ .finished → s.balance n ≤ 0
  batch : ∀ count total, s.pc = .poll .throttle count total → total ≤ 1

theorem Exact.step (hb : Exact bctx.cfg.qpCount s) (h : MeasurePos bctx base s)
    (hok : Careful s l) (hs : BenchStep bctx maxSendWr s l s') : Exact bctx.cfg.qpCount s' := by
  have hbal := balance_step h hok.ok hs
  have hc := h.counters
  constructor
  · intro hne
    have hstart : s.pc ≠ .finished := by
      intro hfin
      obtain ⟨k, status, dev, -, rfl⟩ := finished_step hs hfin
      exact hne hfin
    have hle := hb.nonpos hstart
    have hgain : s.gain l ≤ 0 := by
      rcases gain_cases hs with hzero | ⟨count, total, hpc, -, heq⟩ | ⟨-, -, -, -, -, hfin⟩
      · exact hzero.le
      · have hbatch := hb.batch count total hpc
        omega
      · exact absurd hfin hne
    omega
  · intro count total hpc'
    cases hs with
    | throttleCall hpc =>
      cases hpc'
      omega
    | pollMore site c t n es dev hpc hlt hn hp hes =>
      cases hpc'
      have hone : n ≤ 1 := hok.2 _ _ hpc
      rw [BenchState.CountersOk, hpc] at hc
      dsimp only at hc
      rw [cInt_of_lt (by omega) (by omega)]
      omega
    | pollReturn site => cases site <;> cases hpc'
    | pollFailed site => cases site <;> cases hpc'
    | complete => exact hb.batch count total hpc'
    | warmupPost hpc | warmupNext hpc | measureNext hpc =>
      rw [show s.pc = .poll .throttle count total from hpc'] at hpc
      cases hpc
    | _ => cases hpc'

/-- Whatever is unpolled, the counter starts not ahead of it. -/
theorem exact_startMeasure (n : ℕ) : Exact n s.startMeasure := by
  refine ⟨fun _ => ?_, fun count total hcon => ?_⟩
  · simp only [BenchState.balance, BenchState.startMeasure, BenchPc.reaped]
    omega
  · cases hcon

/-! ### A batch -/

/-- **The counter is ahead of the device for good**: it is already, or it will be
as soon as the current throttle call returns with its batch. -/
structure Drifted (n : ℕ) (s : BenchState) : Prop where
  not_finished : s.pc ≠ .finished
  ahead : 0 < s.balance n ∨
    0 ≤ s.balance n ∧ ∃ count total, s.pc = .poll .throttle count total ∧ 2 ≤ total

/-- A call that has reaped what it asked for returns. -/
theorem pollDone_step {site : PollSite} {count total : ℤ}
    (hs : BenchStep bctx maxSendWr s l s') (hpc : s.pc = .poll site count total)
    (hge : ¬total < count) :
    l = .cpu ∧ s' = s.afterPoll total site ∨
      ∃ k status dev, s.dev.complete k status = some dev ∧ l = .complete k status ∧
        s' = { s with dev := dev } := by
  cases hs with
  | pollReturn site' c t h =>
    rw [hpc] at h
    cases h
    exact Or.inl ⟨rfl, rfl⟩
  | complete k status dev hcomp => exact Or.inr ⟨k, status, dev, hcomp, rfl, rfl⟩
  | pollMore site' c t n es dev h hlt | pollFailed site' c t n es dev h hlt
  | pollErr site' c t h hlt =>
    rw [hpc] at h
    cases h
    exact absurd hlt hge
  | warmupPost h | warmupPostFail h | warmupNext h | warmupExit h | warmupDrainCall h
  | warmupDrainSkip h | measurePost h | measurePostFail h | measureNext h | measureExit h
  | throttleCall h | throttleSkip h | drainCall h | drainSkip h =>
    rw [hpc] at h
    cases h

theorem Drifted.step (hb : Drifted bctx.cfg.qpCount s) (h : MeasurePos bctx base s) (hok : l.Ok)
    (hs : BenchStep bctx maxSendWr s l s') : Drifted bctx.cfg.qpCount s' := by
  have hbal := balance_step h hok hs
  have hgain := gain_nonneg h hs
  rcases hb.ahead with hlt | ⟨hle, count, total, hpc, ht⟩
  · refine ⟨fun hfin => ?_, Or.inl (by omega)⟩
    obtain ⟨hreaped, -⟩ := outstanding_le_of_finished h hok hs hb.not_finished hfin
    rw [BenchState.balance] at hlt
    omega
  · have hc := h.counters
    rw [BenchState.CountersOk, hpc] at hc
    rcases pollDone_step hs hpc (by omega) with ⟨rfl, rfl⟩ | ⟨k, status, dev, -, rfl, rfl⟩
    · -- the call returns, and its batch goes into the balance
      simp only [BenchState.gain, hpc] at hbal
      exact ⟨(by simp [BenchState.afterPoll]), Or.inl (by omega)⟩
    · exact ⟨hb.not_finished, Or.inr ⟨by omega, count, total, hpc, ht⟩⟩

/-- **A batch makes the counter drift.** -/
theorem drifted_of_batch (hb : Settled bctx.cfg.qpCount s) (h : MeasurePos bctx base s)
    (hok : l.Ok) (hs : BenchStep bctx maxSendWr s l s') (hbatch : ¬OneAtATime s l) :
    Drifted bctx.cfg.qpCount s' := by
  have hbal := balance_step h hok hs
  cases hs with
  | pollMore site c t n es dev hpc hlt hn hp hes =>
    simp only [OneAtATime, not_forall] at hbatch
    obtain ⟨count, total, hpc', htwo⟩ := hbatch
    rw [hpc] at hpc'
    cases hpc'
    have hnn := hb.nonneg (by rw [hpc]; simp)
    have hc := h.counters
    rw [BenchState.CountersOk, hpc] at hc
    dsimp only at hc
    refine ⟨by simp, Or.inr ⟨?_, c, _, rfl, ?_⟩⟩
    · rw [hbal, show s.gain (.pollCq n) = 0 from rfl]
      omega
    · rw [cInt_of_lt (by omega) (by omega)]
      omega
  | pollFailed site c t n es dev hpc hlt hn hp hes =>
    exact absurd hes (h.wf.not_polls_failure hp)
  | _ => exact absurd trivial hbatch

/-! ### Whole runs -/

/-- **The measurement is entered through the drain of the warm-up**, which has
reaped every signaled write unless the counter has wrapped. -/
theorem startMeasure_of_step (h : BenchPos bctx s) (hnot : ¬s.pc.InMeasure) (hok : l.Ok)
    (hs : BenchStep bctx maxSendWr s l s') (hm : s'.pc.InMeasure) :
    s' = s.startMeasure ∧
      (warmupCqes bctx.cfg < 2 ^ 31 → s.dev.unpolled bctx.cfg.qpCount = 0) := by
  cases h with
  | measure h => exact absurd h.inMeasure hnot
  | warmup h =>
    cases hs with
    | warmupDrainSkip hpc ho =>
      refine ⟨rfl, fun hno => ?_⟩
      have hun := h.unpolled_exit (h.exit hpc)
      have hout := h.outstanding
      rw [cInt_natCast (by omega)] at hout
      omega
    | warmupPostFail | measurePostFail => cases hok
    | pollErr => exact hok.elim
    | warmupPost hpc | warmupNext hpc => exact absurd hm (by rw [hpc]; exact id)
    | warmupExit | warmupDrainCall => exact hm.elim
    | measurePost hpc | measureNext hpc | measureExit hpc | throttleCall hpc | throttleSkip hpc
    | drainCall hpc | drainSkip hpc => exact absurd (by rw [hpc]; trivial) hnot
    | pollMore _ _ _ _ _ _ hpc | pollFailed _ _ _ _ _ _ hpc | pollReturn _ _ _ hpc =>
      rcases h.inLoop with hcon | hcon <;> rw [hpc] at hcon <;> cases hcon
    | complete => exact absurd hm hnot
  | warmupPoll count total h =>
    by_cases hge : total < count
    · have hpc := h.inPoll
      cases hs with
      | pollMore site c t n es dev hpc' =>
        rw [hpc] at hpc'
        cases hpc'
        exact hm.elim
      | pollFailed site c t n es dev hpc' hlt hn hp hes =>
        exact absurd hes (h.wf.not_polls_failure hp)
      | pollErr => exact hok.elim
      | complete => exact absurd hm hnot
      | pollReturn site c t hpc' hge' =>
        rw [hpc] at hpc'
        cases hpc'
        exact absurd hge hge'
      | warmupPost hpc' | warmupPostFail hpc' | warmupNext hpc' | warmupExit hpc'
      | warmupDrainCall hpc' | warmupDrainSkip hpc' | measurePost hpc' | measurePostFail hpc'
      | measureNext hpc' | measureExit hpc' | throttleCall hpc' | throttleSkip hpc'
      | drainCall hpc' | drainSkip hpc' =>
        rw [hpc] at hpc'
        cases hpc'
    · rcases pollDone_step hs h.inPoll hge with ⟨-, rfl⟩ | ⟨k, status, dev, -, -, rfl⟩
      · refine ⟨rfl, fun hno => ?_⟩
        have hledger := h.ledger hno
        omega
      · exact absurd hm hnot

/-- Nothing unpolled is missing from the counter of the measurement, unless the
counter of the warm-up has wrapped. -/
theorem settled_of_reach (hno : warmupCqes bctx.cfg < 2 ^ 31)
    (h : (benchLts bctx maxSendWr).Reach NoFailure s) :
    s.pc.InMeasure → Settled bctx.cfg.qpCount s := by
  refine h.invariant_of (I := fun a => a.pc.InMeasure → Settled bctx.cfg.qpCount a)
    (fun a => benchPos_of_reach fun _ _ => id) ?_ ?_
  · rintro a rfl hm
    exact hm.elim
  · intro a l b hpos ha hok hs hm
    have hs' := BenchStep.of_next hs
    by_cases hin : a.pc.InMeasure
    · exact (ha hin).step (hpos.measurePos hin) hok hs'
    · obtain ⟨rfl, hun⟩ := startMeasure_of_step hpos hin hok hs' hm
      exact settled_startMeasure (hun hno)

/-- A measurement that reaps one completion at a time counts nothing twice. -/
theorem exact_of_reach (h : (benchLts bctx maxSendWr).Reach Careful s) :
    s.pc.InMeasure → Exact bctx.cfg.qpCount s := by
  refine h.invariant_of (I := fun a => a.pc.InMeasure → Exact bctx.cfg.qpCount a)
    (fun a => benchPos_of_reach fun _ _ => Careful.ok) ?_ ?_
  · rintro a rfl hm
    exact hm.elim
  · intro a l b hpos ha hok hs hm
    have hs' := BenchStep.of_next hs
    by_cases hin : a.pc.InMeasure
    · exact (ha hin).step (hpos.measurePos hin) hok hs'
    · obtain ⟨rfl, -⟩ := startMeasure_of_step hpos hin hok.ok hs' hm
      exact exact_startMeasure _

/-- The measurement alone starts with nothing unpolled, so it is settled
throughout. -/
theorem MeasureStart.settled_of_reach {left : ℕ → ℕ}
    (h : (measureLts bctx maxSendWr left).Reach NoFailure s) : Settled bctx.cfg.qpCount s :=
  h.invariant_of (fun _ => measurePos_of_reach fun _ _ => id)
    (fun _ ha => by
      have hset := settled_startMeasure (MeasureStart.unpolled ha bctx.cfg.qpCount)
      rwa [← MeasureStart.eq_startMeasure ha] at hset)
    fun _ _ _ hpos ha hok hs => ha.step hpos hok (BenchStep.of_next hs)

theorem MeasureStart.exact_of_reach {left : ℕ → ℕ}
    (h : (measureLts bctx maxSendWr left).Reach Careful s) : Exact bctx.cfg.qpCount s :=
  h.invariant_of (fun _ => measurePos_of_reach fun _ _ => Careful.ok)
    (fun a ha => by
      have hex := exact_startMeasure (s := a) bctx.cfg.qpCount
      rwa [← MeasureStart.eq_startMeasure ha] at hex)
    fun _ _ _ hpos ha hok hs => ha.step hpos hok (BenchStep.of_next hs)

/-- The counter stays ahead to the end of the run. -/
theorem drifted_of_path (h : (benchLts bctx maxSendWr).Path NoFailure s s')
    (hpos : MeasurePos bctx base s) (hb : Drifted bctx.cfg.qpCount s) :
    MeasurePos bctx base s' ∧ Drifted bctx.cfg.qpCount s' :=
  h.invariant (I := fun a => MeasurePos bctx base a ∧ Drifted bctx.cfg.qpCount a) ⟨hpos, hb⟩
    fun _ _ _ ha hok hs =>
      ⟨ha.1.step hok (BenchStep.of_next hs), ha.2.step ha.1 hok (BenchStep.of_next hs)⟩

/-! ### The calls of poll_completions -/

/-- In state `s` the program calls `poll_completions` with this count. -/
def BenchCalls (bctx : BenchCtx) (s : BenchState) (count : ℤ) : Prop :=
  ∃ site, benchCpu bctx s = some (s.callPoll site count)

/-- The three calls. -/
theorem BenchCalls.cases {count : ℤ} (h : BenchCalls bctx s count) :
    s.pc = .warmupDrain ∧ count = s.outstandingCqes ∨
      s.pc = .throttle ∧ count = 1 ∧ 8 ≤ s.outstandingCqes ∨
      s.pc = .drain ∧ count = s.outstandingCqes := by
  obtain ⟨site, h⟩ := h
  have hs : BenchStep bctx none s .cpu (s.callPoll site count) := BenchStep.of_next h
  generalize hs' : s.callPoll site count = s' at hs
  have hpc' : s'.pc = .poll site count 0 := by rw [← hs']; rfl
  cases hs with
  | warmupDrainCall hpc =>
    cases hpc'
    exact Or.inl ⟨hpc, rfl⟩
  | throttleCall hpc ho =>
    cases hpc'
    rw [throttleAt_eq] at ho
    exact Or.inr (Or.inl ⟨hpc, rfl, ho⟩)
  | drainCall hpc =>
    cases hpc'
    exact Or.inr (Or.inr ⟨hpc, rfl⟩)
  | warmupNext hpc | measureNext hpc =>
    rw [show s.pc = .poll site count 0 from hpc'] at hpc
    cases hpc
  | pollReturn site' => cases site' <;> cases hpc'
  | _ => cases hpc'

/-- At the final drain a positive counter is asked for. -/
theorem benchCalls_drain (hpc : s.pc = .drain) (ho : 0 < s.outstandingCqes) :
    BenchCalls bctx s s.outstandingCqes := by
  refine ⟨.drain, ?_⟩
  simp only [benchCpu, hpc]
  rw [if_pos ho]

/-- Outside a call, and before the end. -/
def BenchPc.Between : BenchPc → Prop
  | .warmup => True
  | .warmupDrain => True
  | .measure => True
  | .throttle => True
  | .drain => True
  | _ => False

/-- In a careful run the counter is never ahead of the device. -/
theorem outstanding_le_unpolled (h : (benchLts bctx maxSendWr).Reach Careful s)
    (hb : s.pc.Between) : s.outstandingCqes ≤ s.dev.unpolled bctx.cfg.qpCount := by
  cases benchPos_of_reach (fun _ _ => Careful.ok) h with
  | warmup hpos =>
    rw [hpos.outstanding]
    exact cInt_natCast_le _
  | warmupPoll count total hpos =>
    rw [hpos.inPoll] at hb
    exact hb.elim
  | measure hpos =>
    have hbal := (exact_of_reach h hpos.inMeasure).nonpos (fun hfin => by rw [hfin] at hb; exact hb)
    have hreaped : s.pc.reaped = 0 := by
      cases hpc : s.pc with
      | poll => rw [hpc] at hb; exact hb.elim
      | _ => rfl
    rw [BenchState.balance, hreaped] at hbal
    omega

end Balance

/-! ### A run that drifts -/

/-- 256 writes on one queue pair, without a warm-up: the eighth signaled write is
the last one. -/
def driftCfg : BenchConfig :=
  .withCounts 0 256 1 (Eq.refl true)

section Drift

variable {bctx : BenchCtx} {maxSendWr : Option ℕ} {s : BenchState}

/-- **A write of a single queue pair**, posted and completed, with the counter
below the threshold: the counter goes on counting the signaled writes. -/
theorem exists_fill_post (hroom : ∀ m ∈ maxSendWr, bctx.cfg.warmup + 256 ≤ m)
    (hq : bctx.cfg.qpCount = 1) {j : ℕ} (hj : j ≤ 255)
    (hr : (benchLts bctx maxSendWr).Reach Careful s) (hpc : s.pc = .measure) (hij : s.i = j)
    (hqs : s.q = 0) (hi : j < bctx.cfg.iterations) (hout : s.outstandingCqes = (j / 32 : ℕ))
    (hd : s.dev.CaughtUp) :
    ∃ b, (benchLts bctx maxSendWr).Path Careful s b ∧ b.pc = .throttle ∧ b.i = j ∧ b.q = 0 ∧
      b.outstandingCqes = ((j + 1) / 32 : ℕ) ∧ b.dev.CaughtUp := by
  have hpos := (benchPos_of_reach (fun _ _ => Careful.ok) hr).measurePos (by rw [hpc]; trivial)
  have hheld : (s.dev.sq s.q).held < bctx.cfg.warmup + 256 := by
    have hlen := hpos.length s.q (by omega)
    rw [BenchState.written, hpc] at hlen
    simp only [BenchPc.turn, Nat.add_zero, roundRobin_self] at hlen
    rw [SendQueue.held]
    omega
  obtain ⟨b, hpath, hpcb, hib, hqb, -, houtb, hdb⟩ :=
    exists_measurePost hpos.wf hpc (by omega) (by omega) (SendQueue.hasRoom_of_held hroom hheld) hd
  have hcnt : s.signalCnt = cInt j := by
    rw [hpos.signalCnt, BenchState.writes, hpc, hij, hqs, hq]
    simp only [BenchPc.turn, Nat.mul_one, Nat.add_zero]
  refine ⟨b, hpath, hpcb, by omega, by omega, ?_, hdb⟩
  rw [houtb, hout, hcnt]
  by_cases hsig : j % 32 = 31
  · rw [if_pos ((measureSignaled_iff (by omega)).mpr hsig), cInt_of_lt (by omega) (by omega)]
    omega
  · rw [if_neg (fun h => hsig (mod_of_measureSignaled h))]
    omega

/-- Without a warm-up, what can be run from the start of the measurement can be run. -/
theorem reach_startMeasure (hw : bctx.cfg.warmup = 0)
    (hp : (benchLts bctx maxSendWr).Path Careful benchStart.startMeasure s) :
    (benchLts bctx maxSendWr).Reach Careful s :=
  ((Lts.Reach.of_init rfl).trans (path_startMeasure hw)).trans hp

/-- **The first writes of one queue pair, completed but not polled**: the counter
stays below the threshold up to the 255th. -/
theorem exists_fill (hroom : ∀ m ∈ maxSendWr, 256 ≤ m) (hw : bctx.cfg.warmup = 0)
    (hq : bctx.cfg.qpCount = 1) {j : ℕ} (hj : j ≤ 255) (hi : j ≤ bctx.cfg.iterations) :
    ∃ s, (benchLts bctx maxSendWr).Path Careful benchStart.startMeasure s ∧ s.pc = .measure ∧
      s.i = j ∧ s.q = 0 ∧ s.outstandingCqes = (j / 32 : ℕ) ∧ s.dev.CaughtUp := by
  let R : ℕ → BenchState → Prop := fun j a =>
    (benchLts bctx maxSendWr).Reach Careful a ∧ a.pc = .measure ∧ a.i = j ∧ a.q = 0 ∧
      a.outstandingCqes = (j / 32 : ℕ) ∧ a.dev.CaughtUp
  have hstart : R 0 benchStart.startMeasure :=
    ⟨reach_startMeasure hw (Lts.Path.refl _), rfl, rfl, rfl, rfl, Device.caughtUp_empty⟩
  have hturn : ∀ k < j, ∀ a, R k a →
      ∃ b, (benchLts bctx maxSendWr).Path Careful a b ∧ R (k + 1) b := by
    rintro k hk a ⟨hr, hpc, hia, hqa, hout, hd⟩
    obtain ⟨b, hpath, hpcb, hib, hqb, hout', hdb⟩ :=
      exists_fill_post (by rwa [hw, Nat.zero_add]) hq (by omega) hr hpc hia hqa (by omega) hout hd
    have hskip : BenchStep bctx maxSendWr b .cpu { b with pc := .measure, q := b.q + 1 } :=
      .throttleSkip hpcb (by rw [throttleAt_eq]; omega)
    have hnext : BenchStep bctx maxSendWr { b with pc := .measure, q := b.q + 1 } .cpu
        { b with pc := .measure, i := b.i + 1, q := 0 } :=
      .measureNext rfl (by dsimp only; omega) (by dsimp only; omega)
    have hpath' := (hpath.trans (path_cpu hskip)).trans (path_cpu hnext)
    exact ⟨_, hpath', hr.trans hpath', rfl, by dsimp only; omega, rfl, hout', hdb⟩
  obtain ⟨s, hp, -, hs⟩ := Lts.Path.exists_loop hstart hturn j le_rfl
  exact ⟨s, hp, hs⟩

/-- **All writes are posted and completed**, and none is polled: the throttle is about to ask for
the first of eight completions. -/
theorem exists_full (hroom : ∀ m ∈ maxSendWr, 256 ≤ m) (hw : bctx.cfg.warmup = 0)
    (hq : bctx.cfg.qpCount = 1) (hi : bctx.cfg.iterations = 256) :
    ∃ s, (benchLts bctx maxSendWr).Path Careful benchStart.startMeasure s ∧ s.pc = .throttle ∧
      s.i = 255 ∧ s.q = 0 ∧ s.outstandingCqes = 8 ∧ s.dev.CaughtUp ∧
      s.dev.Wf bctx.cfg.qpCount ∧ s.dev.unpolled bctx.cfg.qpCount = 8 := by
  obtain ⟨a, hpa, hpca, hia, hqa, houta, hda⟩ :=
    exists_fill hroom hw hq (le_refl 255) (by omega)
  have hra := reach_startMeasure hw hpa
  obtain ⟨b, hpath, hpcb, hib, hqb, houtb, hdb⟩ :=
    exists_fill_post (by rwa [hw, Nat.zero_add]) hq le_rfl hra hpca hia hqa (by omega) houta hda
  have hrb := hra.trans hpath
  have hout : b.outstandingCqes = 8 := houtb
  have hm : b.pc.InMeasure := by rw [hpcb]; trivial
  have hpos := (benchPos_of_reach (fun _ _ => Careful.ok) hrb).measurePos hm
  -- all eight signaled writes are in the completion queue
  have hle := outstanding_le_unpolled hrb (by rw [hpcb]; trivial)
  have hno : warmupCqes bctx.cfg < 2 ^ 31 := by
    rw [warmupCqes, hw]
    omega
  have hge := (settled_of_reach hno (hrb.mono fun _ _ => Careful.ok) hm).nonneg (by rw [hpcb]; simp)
  rw [BenchState.balance, show b.pc.reaped = 0 by rw [hpcb]; rfl] at hge
  exact ⟨b, hpa.trans hpath, hpcb, hib, hqb, hout, hdb, hpos.wf, by omega⟩

/-- **The last throttle poll takes all eight completions**, and the final drain
asks for seven with none unpolled. -/
theorem exists_drift (hroom : ∀ m ∈ maxSendWr, 256 ≤ m) (hw : bctx.cfg.warmup = 0)
    (hq : bctx.cfg.qpCount = 1) (hi : bctx.cfg.iterations = 256) :
    ∃ s, (benchLts bctx maxSendWr).Reach NoFailure s ∧ s.pc = .drain ∧ s.outstandingCqes = 7 ∧
      s.dev.unpolled bctx.cfg.qpCount = 0 := by
  obtain ⟨b, hpb, hpcb, hib, hqb, hout, hdb, hwf, hunb⟩ := exists_full hroom hw hq hi
  have hrb := reach_startMeasure hw hpb
  obtain ⟨d, hbatch, -, hun⟩ := exists_call (m := 8) hwf hdb
    (.throttleCall hpcb (by rw [throttleAt_eq]; omega)) one_pos (by decide) (by decide) (by omega)
    (fun _ => trivial) (show NoFailure _ (.pollCq 8) from trivial)
  -- the return has taken one off the counter, and the loop is left for the drain
  rw [BenchState.afterPoll, show cInt (b.outstandingCqes - 1) = 7 by rw [hout]; rfl] at hbatch
  have hnext : BenchStep bctx maxSendWr
      { b with pc := .measure, q := b.q + 1, outstandingCqes := 7, dev := d } .cpu
      { b with pc := .measure, i := b.i + 1, q := 0, outstandingCqes := 7, dev := d } :=
    .measureNext rfl (by dsimp only; omega) (by dsimp only; omega)
  have hexit : BenchStep bctx maxSendWr
      { b with pc := .measure, i := b.i + 1, q := 0, outstandingCqes := 7, dev := d } .cpu
      { b with pc := .drain, i := b.i + 1, q := 0, outstandingCqes := 7, dev := d } :=
    .measureExit rfl (by dsimp only; omega)
  have hok : ∀ {t : BenchState}, NoFailure t .cpu := trivial
  have hend := (hbatch.tail hok hnext.next).tail hok hexit.next
  refine ⟨_, (hrb.mono fun _ _ => Careful.ok).trans hend, rfl, rfl, ?_⟩
  dsimp only
  omega

end Drift

/-- **The ledger is kept exactly by the runs that reap one completion per throttle
poll.** As long as they do, no call of `poll_completions` asks for more than is
unpolled. From the first throttle poll that takes a batch on, no run reaches the
end: the final drain asks for more than will ever come. -/
theorem ledger_of_oneAtATime (bctx : BenchCtx) (maxSendWr : Option ℕ) :
    (∀ s, (benchLts bctx maxSendWr).Reach Careful s →
      (s.pc.Between → s.outstandingCqes ≤ s.dev.unpolled bctx.cfg.qpCount) ∧
      ∀ count, BenchCalls bctx s count → count ≤ s.dev.unpolled bctx.cfg.qpCount) ∧
    (warmupCqes bctx.cfg < 2 ^ 31 → ∀ a l b s, (benchLts bctx maxSendWr).Reach NoFailure a →
      l.Ok → (benchLts bctx maxSendWr).step a l b → ¬OneAtATime a l →
      (benchLts bctx maxSendWr).Path NoFailure b s →
      s.pc ≠ .finished ∧ (s.pc = .drain → BenchCalls bctx s s.outstandingCqes ∧
        s.dev.unpolled bctx.cfg.qpCount < s.outstandingCqes)) := by
  constructor
  · intro s h
    refine ⟨outstanding_le_unpolled h, fun count hcall => ?_⟩
    rcases hcall.cases with ⟨hpc, rfl⟩ | ⟨hpc, rfl, ho⟩ | ⟨hpc, rfl⟩
    · exact outstanding_le_unpolled h (by rw [hpc]; trivial)
    · have := outstanding_le_unpolled h (by rw [hpc]; trivial)
      omega
    · exact outstanding_le_unpolled h (by rw [hpc]; trivial)
  · intro hno a l b s ha hl hs hbatch hpath
    have hin : a.pc.InMeasure := by
      cases l with
      | pollCq n =>
        simp only [OneAtATime, not_forall] at hbatch
        obtain ⟨count, total, hpc, -⟩ := hbatch
        rw [hpc]
        trivial
      | _ => exact absurd trivial hbatch
    have hpos := (benchPos_of_reach (fun _ _ => id) ha).measurePos hin
    have hstep := BenchStep.of_next hs
    have hdrift := drifted_of_batch (settled_of_reach hno ha hin) hpos hl hstep hbatch
    obtain ⟨hpos', hdrift'⟩ := drifted_of_path hpath (hpos.step hl hstep) hdrift
    refine ⟨hdrift'.not_finished, fun hpc => ?_⟩
    have hbal : 0 < s.balance bctx.cfg.qpCount := by
      rcases hdrift'.ahead with hlt | ⟨-, count, total, hpc', -⟩
      · exact hlt
      · rw [hpc] at hpc'
        cases hpc'
    have hreaped : s.pc.reaped = 0 := by rw [hpc]; rfl
    rw [BenchState.balance, hreaped] at hbal
    exact ⟨benchCalls_drain hpc (by omega), by omega⟩

/-- The call of the 256th write, in a careful run. -/
theorem ledger_of_oneAtATime_driftCfg :
    ∃ s, (benchLts (countingCtx driftCfg) none).Reach Careful s ∧
      BenchCalls (countingCtx driftCfg) s 1 ∧ (1 : ℤ) ≤ s.dev.unpolled 1 := by
  obtain ⟨b, hpath, hpcb, -, -, hout, -⟩ :=
    @exists_full (countingCtx driftCfg) none (by simp) rfl rfl rfl
  have hcall : BenchCalls (countingCtx driftCfg) b 1 := by
    refine ⟨.throttle, ?_⟩
    simp only [benchCpu, hpcb]
    rw [if_pos (by rw [throttleAt_eq]; omega)]
  have hr := reach_startMeasure rfl hpath
  exact ⟨b, hr, hcall,
    ((ledger_of_oneAtATime (countingCtx driftCfg) none).1 b hr).2 1 hcall⟩

/-- On one queue pair 256 writes are enough. -/
theorem ledger_drifts : ∃ s, (benchLts (countingCtx driftCfg) none).Reach NoFailure s ∧
    BenchCalls (countingCtx driftCfg) s 7 ∧
      s.dev.unpolled (countingCtx driftCfg).cfg.qpCount = 0 := by
  obtain ⟨s, hr, hpc, hout, hun⟩ :=
    @exists_drift (countingCtx driftCfg) none (by simp) rfl rfl rfl
  exact ⟨s, hr, hout ▸ benchCalls_drain hpc (by omega), hun⟩

end RdmaBook
