import RdmaBook.Bench.Ledger

/-!
# rdma_bench: how full the completion queue gets

All queue pairs share one completion queue of 1024 entries, and nothing in the program
compares that with their number. It is the throttle that keeps the queue from
overrunning: `outstanding_cqes` is at least the number of signaled writes that are not
polled (`RdmaBook.Settled`), and it stays at its threshold of eight or below.

The counter only reaches the threshold by a signaled post, so a throttle call is made
with a completion still to come (`RdmaBook.CompletionDue`), and it returns as soon as that
has been handed out (`RdmaBook.throttle_returns`).
-/

namespace RdmaBook

/-! ### A completion is due -/

/-- **Where the measurement may start**: the counters are zero, and on a device in good order
no completion is queued and no signaled write is on its way. -/
structure QuietStart (bctx : BenchCtx) (s : BenchState) : Prop where
  pc : s.pc = .measure
  i : s.i = 0
  q : s.q = 0
  signalCnt : s.signalCnt = 0
  outstandingCqes : s.outstandingCqes = 0
  wf : s.dev.Wf bctx.cfg.qpCount
  cq : s.dev.cq = []
  unpolled : s.dev.unpolled bctx.cfg.qpCount = 0

/-- The measurement from such a start. -/
def quietLts (bctx : BenchCtx) (maxSendWr : Option ℕ) : Lts BenchState BenchLabel :=
  Lts.ofFun (QuietStart bctx) (benchNext bctx maxSendWr)

/-- **A throttle call waits for something**: a signaled write that is not polled, from the test
that makes the call to the poll that answers it. -/
structure CompletionDue (n : ℕ) (s : BenchState) : Prop where
  test : s.pc = .throttle → s.outstandingCqes = 8 → 0 < s.dev.unpolled n
  call : ∀ count total, s.pc = .poll .throttle count total → total < count → 0 < s.dev.unpolled n

/-- What holds of the measurement in a run in which nothing fails. -/
structure Occupancy (bctx : BenchCtx) (s : BenchState) : Prop where
  pos : ∃ base, MeasurePos bctx base s
  settled : Settled bctx.cfg.qpCount s
  due : CompletionDue bctx.cfg.qpCount s

section Occupancy

variable {bctx : BenchCtx} {maxSendWr : Option ℕ} {base : ℕ → ℕ} {s s' : BenchState}
  {l : BenchLabel}

/-- Away from the throttle nothing is said. -/
theorem CompletionDue.of_pc {n : ℕ} (htest : s.pc ≠ .throttle)
    (hcall : ∀ count total, s.pc ≠ .poll .throttle count total) : CompletionDue n s :=
  ⟨fun h => absurd h htest, fun _ _ h => absurd h (hcall _ _)⟩

/-- **A completion stays due**: only a signaled post brings the counter to the threshold, and a
call goes on only where it has been handed nothing. -/
theorem CompletionDue.step (hd : CompletionDue bctx.cfg.qpCount s) (h : MeasurePos bctx base s)
    (hok : l.Ok) (hs : BenchStep bctx maxSendWr s l s') : CompletionDue bctx.cfg.qpCount s' := by
  have hm := h.inMeasure
  have hc := h.counters
  rw [BenchState.CountersOk] at hc
  cases hs with
  | warmupPost hpc | warmupNext hpc | warmupExit hpc | warmupDrainCall hpc | warmupDrainSkip hpc =>
    rw [hpc] at hm
    exact hm.elim
  | warmupPostFail | measurePostFail => cases hok
  | pollErr => exact hok.elim
  | measurePost hpc hi hq =>
    rw [hpc] at hc
    refine ⟨fun _ ho => ?_, fun _ _ hcon => by cases hcon⟩
    have hun := Device.unpolled_post h.wf hq (postRdmaWrite bctx s.q (measureSignaled s.signalCnt))
    rw [postRdmaWrite_signaled] at hun
    dsimp only at ho ⊢
    rw [hun]
    split at ho
    · -- the write is signaled, and nobody can have polled it
      rename_i hsig
      rw [if_pos hsig]
      exact Nat.succ_pos _
    · omega
  | measureNext hpc =>
    exact .of_pc (fun hcon => by rw [show s.pc = .throttle from hcon] at hpc; cases hpc)
      fun c t hcon => by rw [show s.pc = .poll .throttle c t from hcon] at hpc; cases hpc
  | measureExit | throttleSkip | drainCall | drainSkip =>
    exact .of_pc (fun hcon => by cases hcon) fun _ _ hcon => by cases hcon
  | throttleCall hpc ho =>
    rw [hpc] at hc
    rw [throttleAt_eq] at ho
    exact ⟨fun hcon => (by cases hcon), fun _ _ _ _ => hd.test hpc (le_antisymm hc.2 ho)⟩
  | pollMore site count total n es dev hpc hlt hn hp hes =>
    refine ⟨fun hcon => (by cases hcon), fun count' total' hpc' hlt' => ?_⟩
    obtain ⟨rfl, rfl, rfl⟩ := BenchPc.poll.inj hpc'
    rw [hpc] at hc
    dsimp only at hc
    rw [cInt_of_lt (by omega) (by omega)] at hlt'
    have hdue := hd.call count total hpc hlt
    obtain ⟨-, -, hun, -⟩ := Device.poll_spec h.wf hp
    dsimp only
    omega
  | pollFailed site count total n es dev hpc hlt hn hp hes =>
    exact absurd hes (h.wf.not_polls_failure hp)
  | pollReturn site =>
    cases site <;> exact .of_pc (fun hcon => by cases hcon) fun _ _ hcon => by cases hcon
  | complete k status dev hcomp =>
    refine ⟨fun hpc ho => ?_, fun count total hpc hlt => ?_⟩
    · rw [Device.unpolled_complete hcomp]
      exact hd.test hpc ho
    · rw [Device.unpolled_complete hcomp]
      exact hd.call count total hpc hlt

theorem QuietStart.occupancy (h : QuietStart bctx s) : Occupancy bctx s := by
  have hstart : s = s.startMeasure := by
    obtain ⟨pc, i, q, signalCnt, outstandingCqes, dev⟩ := s
    obtain ⟨rfl, rfl, rfl, rfl, rfl⟩ : _ ∧ _ ∧ _ ∧ _ ∧ _ :=
      ⟨h.pc, h.i, h.q, h.signalCnt, h.outstandingCqes⟩
    rfl
  refine ⟨⟨fun k => (s.dev.sq k).wrs.length, ?_⟩, ?_, .of_pc ?_ ?_⟩
  · rw [hstart]
    exact measurePos_startMeasure h.wf fun k _ => rfl
  · rw [hstart]
    exact settled_startMeasure h.unpolled
  · rw [h.pc]
    exact fun hcon => by cases hcon
  · rw [h.pc]
    exact fun _ _ hcon => by cases hcon

theorem Occupancy.step (h : Occupancy bctx s) (hok : l.Ok) (hs : BenchStep bctx maxSendWr s l s') :
    Occupancy bctx s' := by
  obtain ⟨base, hpos⟩ := h.pos
  exact ⟨⟨base, hpos.step hok hs⟩, h.settled.step hpos hok hs, h.due.step hpos hok hs⟩

theorem Occupancy.of_reach (h : (quietLts bctx maxSendWr).Reach NoFailure s) : Occupancy bctx s :=
  h.invariant (fun _ ha => QuietStart.occupancy ha) fun _ _ _ ha hok hs =>
    ha.step hok (BenchStep.of_next hs)

/-- The drain of the warm-up leaves such a start, where it has drained everything. -/
theorem quietStart_startMeasure (hwf : s.dev.Wf bctx.cfg.qpCount)
    (hun : s.dev.unpolled bctx.cfg.qpCount = 0) : QuietStart bctx s.startMeasure where
  pc := rfl
  i := rfl
  q := rfl
  signalCnt := rfl
  outstandingCqes := rfl
  wf := hwf
  cq := List.length_eq_zero_iff.mp (Nat.le_zero.mp (hun ▸ Device.cq_length_le hwf))
  unpolled := hun

/-- **In a whole run** the measurement is entered through such a start, unless the counter of
the warm-up has wrapped. -/
theorem Occupancy.of_benchLts (hno : warmupCqes bctx.cfg < 2 ^ 31)
    (h : (benchLts bctx maxSendWr).Reach NoFailure s) : s.pc.InMeasure → Occupancy bctx s := by
  refine h.invariant_of (I := fun a => a.pc.InMeasure → Occupancy bctx a)
    (fun a => benchPos_of_reach fun _ _ => id) ?_ ?_
  · rintro a rfl hm
    exact hm.elim
  · intro a l b hpos ha hok hs hm
    have hs' := BenchStep.of_next hs
    by_cases hin : a.pc.InMeasure
    · exact (ha hin).step hok hs'
    · obtain ⟨rfl, hun⟩ := startMeasure_of_step hpos hin hok hs' hm
      have hwf : a.startMeasure.dev.Wf bctx.cfg.qpCount := ((hpos.step hok hs').measurePos hm).wf
      exact (quietStart_startMeasure hwf (hun hno)).occupancy

/-! ### The bound -/

/-- **What is unpolled is on the counter**, less what the current call has reaped. -/
theorem Occupancy.unpolled_le (h : Occupancy bctx s) :
    (s.dev.unpolled bctx.cfg.qpCount : ℤ) ≤ 8 := by
  obtain ⟨base, hpos⟩ := h.pos
  have hm := hpos.inMeasure
  have hc := hpos.counters
  by_cases hfin : s.pc = .finished
  · have hun := h.settled.finished hfin
    omega
  · have hnn := h.settled.nonneg hfin
    rw [BenchState.balance] at hnn
    rw [BenchState.CountersOk] at hc
    cases hpc : s.pc with
    | measure | throttle | drain =>
      rw [hpc] at hc hnn
      dsimp only [BenchPc.reaped] at hc hnn
      omega
    | poll site count total =>
      rw [hpc] at hc hnn hm
      cases site with
      | warmupDrain => exact hm.elim
      | throttle | drain =>
        dsimp only [BenchPc.reaped] at hc hnn
        omega
    | finished => exact absurd hpc hfin
    | warmup | warmupDrain | died =>
      rw [hpc] at hm
      exact hm.elim

/-- At the loop tests and at the throttle test the counter is ahead of the device, and at its
threshold at most. -/
theorem Occupancy.counter (h : Occupancy bctx s) (hpc : s.pc = .measure ∨ s.pc = .throttle) :
    (s.dev.unpolled bctx.cfg.qpCount : ℤ) ≤ s.outstandingCqes ∧
      s.outstandingCqes ≤ throttleAt bctx.cfg := by
  obtain ⟨base, hpos⟩ := h.pos
  have hc := hpos.counters
  rw [BenchState.CountersOk] at hc
  rw [throttleAt_eq]
  have hnn := h.settled.nonneg (by rintro hfin; rw [hfin] at hpc; simp at hpc)
  rw [BenchState.balance] at hnn
  rcases hpc with hpc | hpc
  all_goals
    rw [hpc] at hc hnn
    dsimp only [BenchPc.reaped] at hc hnn
    omega

/-- **The completion queue does not overrun.** -/
theorem Occupancy.cq_length_le (h : Occupancy bctx s) : s.dev.cq.length ≤ 8 := by
  obtain ⟨base, hpos⟩ := h.pos
  have hle := Device.cq_length_le hpos.wf
  have hun := h.unpolled_le
  omega

end Occupancy

/-! ### The throttle returns -/

/-- The requests of the first `n` queue pairs that are not completed. -/
def Device.undone (n : ℕ) (d : Device) : ℕ :=
  ∑ k ∈ Finset.range n, ((d.sq k).wrs.length - (d.sq k).done)

/-- A completion leaves fewer of them. -/
theorem Device.undone_complete {n k : ℕ} {d d' : Device} (h : d.Wf n)
    (hc : d.complete k .success = some d') : d'.undone n < d.undone n := by
  obtain ⟨wr, hwr, rfl⟩ := complete_eq_some hc
  have hlt : (d.sq k).done < (d.sq k).wrs.length := (List.getElem?_eq_some_iff.mp hwr).1
  have hk : k < n := by
    by_contra hge
    rw [h.outside k (Nat.not_lt.mp hge)] at hlt
    exact absurd hlt (Nat.not_lt_zero _)
  refine Finset.sum_lt_sum (fun j _ => ?_) ⟨k, Finset.mem_range.mpr hk, ?_⟩
  · rcases eq_or_ne j k with rfl | hj
    · rw [setSq_sq_self]
      dsimp only
      omega
    · rw [setSq_sq_of_ne _ _ hj]
  · rw [setSq_sq_self]
    dsimp only
    omega

section Throttle

variable {bctx : BenchCtx} {maxSendWr : Option ℕ} {s s' : BenchState} {l : BenchLabel}
  {count total : ℤ}

/-- **What a throttle call can do**: return, be handed some completions, or wait while the NIC
completes a write. -/
theorem throttle_step (hs : BenchStep bctx maxSendWr s l s') (hok : l.Ok)
    (hwf : s.dev.Wf bctx.cfg.qpCount) (hpc : s.pc = .poll .throttle count total) :
    s'.pc = .measure ∨
      (∃ n : ℕ, l = .pollCq n ∧ n ≤ 32 ∧ total < count ∧
        s'.pc = .poll .throttle count (cInt (total + n))) ∨
      (∃ k, l = .complete k .success ∧ s'.pc = s.pc ∧
        s'.dev.undone bctx.cfg.qpCount < s.dev.undone bctx.cfg.qpCount) := by
  cases hs with
  | warmupPostFail | measurePostFail => cases hok
  | pollErr => exact hok.elim
  | pollMore site c t n es dev hpc' hlt hn hp hes =>
    rw [hpc] at hpc'
    obtain ⟨rfl, rfl, rfl⟩ := BenchPc.poll.inj hpc'
    exact Or.inr (Or.inl ⟨n, rfl, hn, hlt, rfl⟩)
  | pollFailed site c t n es dev hpc' hlt hn hp hes =>
    exact absurd hes (hwf.not_polls_failure hp)
  | pollReturn site c t hpc' =>
    rw [hpc] at hpc'
    obtain ⟨rfl, rfl, rfl⟩ := BenchPc.poll.inj hpc'
    exact Or.inl rfl
  | complete k status dev hcomp =>
    obtain rfl : status = .success := hok
    exact Or.inr (Or.inr ⟨k, rfl, rfl, Device.undone_complete hwf hcomp⟩)
  | warmupPost h | warmupNext h | warmupExit h | warmupDrainCall h | warmupDrainSkip h
  | measurePost h | measureNext h | measureExit h | throttleCall h | throttleSkip h
  | drainCall h | drainSkip h =>
    rw [hpc] at h
    cases h

/-- A throttle call can always go on. -/
theorem throttle_not_stuck (hpc : s.pc = .poll .throttle count total) :
    ∃ l s', NoFailure s l ∧ (quietLts bctx maxSendWr).step s l s' := by
  by_cases hlt : total < count
  · obtain ⟨es, dev, hp, rfl, -⟩ := Device.exists_poll (Nat.zero_le s.dev.cq.length)
    have hmore : BenchStep bctx maxSendWr s (.pollCq 0) _ :=
      .pollMore .throttle count total 0 _ dev hpc hlt (by decide) hp (by simp)
    exact ⟨.pollCq 0, _, trivial, hmore.next⟩
  · have hret : BenchStep bctx maxSendWr s .cpu _ := .pollReturn .throttle count total hpc hlt
    exact ⟨.cpu, _, trivial, hret.next⟩

/-- **What a poll hands out is what the call has asked for**: it asks for one completion. -/
theorem throttle_got (hocc : Occupancy bctx s) (hs : BenchStep bctx maxSendWr s l s') (hok : l.Ok)
    {n : ℕ} {total' : ℤ} (hlab : l = .pollCq n) (hn : 0 < n)
    (hpc : s.pc = .poll .throttle count total) (hpc' : s'.pc = .poll .throttle count total') :
    ¬total' < count := by
  obtain ⟨base, hpos⟩ := hocc.pos
  have hc := hpos.counters
  rw [BenchState.CountersOk, hpc] at hc
  dsimp only at hc
  rcases throttle_step hs hok hpos.wf hpc with hret | ⟨m, hm, hm32, hlt, hmore⟩ | ⟨k, hk, -⟩
  · rw [hret] at hpc'
    cases hpc'
  · obtain rfl := BenchLabel.pollCq.inj (hlab.symm.trans hm)
    obtain ⟨-, -, rfl⟩ := BenchPc.poll.inj (hpc'.symm.trans hmore)
    rw [cInt_of_lt (by omega) (by omega)]
    omega
  · rw [hlab] at hk
    cases hk

variable {r : (quietLts bctx maxSendWr).Run NoFailure} {i j : ℕ}

/-- Without a return the run stays in the call. -/
theorem throttle_stays (hocc : ∀ k, Occupancy bctx (r.st k))
    (hpc : (r.st i).pc = .poll .throttle count total)
    (hnot : ∀ k, i ≤ k → (r.st k).pc ≠ .measure) (hj : i ≤ j) :
    ∃ t, (r.st j).pc = .poll .throttle count t := by
  induction j, hj using Nat.le_induction with
  | base => exact ⟨total, hpc⟩
  | succ j hj ih =>
    obtain ⟨t, ht⟩ := ih
    obtain ⟨base, hpos⟩ := (hocc j).pos
    have hs := BenchStep.of_next (r.step j)
    rcases throttle_step hs (r.lab_ok j) hpos.wf ht with hret | ⟨n, -, -, -, hmore⟩ |
      ⟨_, -, hsame, -⟩
    · exact absurd hret (hnot _ (Nat.le_succ_of_le hj))
    · exact ⟨_, hmore⟩
    · exact ⟨t, hsame.trans ht⟩

/-- **A call that has what it has asked for returns**: only the NIC can keep it from that, and
it has finitely many writes to complete. -/
theorem throttle_returns_of_got (hocc : ∀ k, Occupancy bctx (r.st k))
    (hpc : (r.st i).pc = .poll .throttle count total) (hgot : ¬total < count) :
    ∃ j, i ≤ j ∧ (r.st j).pc = .measure := by
  by_contra hno
  have hnot : ∀ j, i ≤ j → (r.st j).pc ≠ .measure := fun j hj hcon => hno ⟨j, hj, hcon⟩
  have hstep : ∀ j, (r.st j).pc = .poll .throttle count total → i ≤ j →
      (r.st (j + 1)).pc = .poll .throttle count total ∧
        (r.st (j + 1)).dev.undone bctx.cfg.qpCount < (r.st j).dev.undone bctx.cfg.qpCount := by
    intro j hpcj hj
    obtain ⟨base, hpos⟩ := (hocc j).pos
    have hs := BenchStep.of_next (r.step j)
    rcases throttle_step hs (r.lab_ok j) hpos.wf hpcj with
      hret | ⟨_, -, -, hlt, -⟩ | ⟨_, -, hsame, hundone⟩
    · exact absurd hret (hnot _ (Nat.le_succ_of_le hj))
    · exact absurd hlt hgot
    · exact ⟨hsame.trans hpcj, hundone⟩
  have hkeep : ∀ j, i ≤ j → (r.st j).pc = .poll .throttle count total := by
    intro j hj
    induction j, hj using Nat.le_induction with
    | base => exact hpc
    | succ j hj ih => exact (hstep j ih hj).1
  exact hno (r.exists_goal (fun a => a.pc = .measure) (fun a => a.dev.undone bctx.cfg.qpCount)
    fun j hj _ => (hstep j (hkeep j hj) hj).2)

/-- **Every throttle call returns** where a completion that is due is handed out at some point:
in an infinite run it is, as it asks for one. -/
theorem throttle_returns (hr : (quietLts bctx maxSendWr).Reach NoFailure (r.st 0))
    (hfair : ∀ i, 0 < (r.st i).dev.unpolled bctx.cfg.qpCount →
      ∃ j, i ≤ j ∧ ∃ n, 0 < n ∧ r.lab j = .pollCq n)
    (hpc : (r.st i).pc = .poll .throttle count total) : ∃ j, i ≤ j ∧ (r.st j).pc = .measure := by
  have hocc : ∀ j, Occupancy bctx (r.st j) := fun j => .of_reach (hr.trans (r.path (Nat.zero_le j)))
  by_cases hlt : total < count
  · by_contra hno
    have hstay : ∀ j, i ≤ j → ∃ t, (r.st j).pc = .poll .throttle count t := fun j =>
      throttle_stays hocc hpc fun k hk hcon => hno ⟨k, hk, hcon⟩
    -- at some point the completion that is due is handed out
    obtain ⟨j, hj, n, hn, hlab⟩ := hfair i ((hocc i).due.call count total hpc hlt)
    obtain ⟨t, ht⟩ := hstay j hj
    obtain ⟨t', ht'⟩ := hstay (j + 1) (Nat.le_succ_of_le hj)
    have hgot := throttle_got (hocc j) (BenchStep.of_next (r.step j)) (r.lab_ok j) hlab hn ht ht'
    obtain ⟨k, hk, hend⟩ := throttle_returns_of_got hocc ht' hgot
    exact hno ⟨k, by omega, hend⟩
  · exact throttle_returns_of_got hocc hpc hlt

end Throttle

/-- **The completion queue of the measurement**, in every run in which nothing fails: at the
loop tests and the throttle tests at most `outstanding_cqes` signaled writes are not
polled, and that is eight at most; so never more than eight completions are queued. A
throttle call that has not got its completion has one to come, and it returns when that
is handed out. -/
theorem measurement_occupancy (bctx : BenchCtx) (maxSendWr : Option ℕ) :
    (∀ s, (quietLts bctx maxSendWr).Reach NoFailure s →
      ((s.pc = .measure ∨ s.pc = .throttle) →
        (s.dev.unpolled bctx.cfg.qpCount : ℤ) ≤ s.outstandingCqes ∧
          s.outstandingCqes ≤ throttleAt bctx.cfg) ∧
      (s.dev.cq.length : ℤ) ≤ throttleAt bctx.cfg ∧
      ∀ count total, s.pc = .poll .throttle count total →
        (total < count → 0 < s.dev.unpolled bctx.cfg.qpCount) ∧
        ∃ l s', NoFailure s l ∧ (quietLts bctx maxSendWr).step s l s') ∧
    (∀ r : (quietLts bctx maxSendWr).Run NoFailure,
      (quietLts bctx maxSendWr).Reach NoFailure (r.st 0) →
      (∀ i, 0 < (r.st i).dev.unpolled bctx.cfg.qpCount →
        ∃ j, i ≤ j ∧ ∃ n, 0 < n ∧ r.lab j = .pollCq n) →
      ∀ i count total, (r.st i).pc = .poll .throttle count total →
        ∃ j, i ≤ j ∧ (r.st j).pc = .measure) ∧
    throttleAt bctx.cfg = 8 ∧ 8 ≤ defaultCqDepth := by
  refine ⟨fun s hr => ?_, fun r hr hfair i count total => throttle_returns hr hfair,
    throttleAt_eq bctx.cfg, by decide⟩
  have hocc := Occupancy.of_reach hr
  refine ⟨hocc.counter, ?_, fun count total hpc =>
    ⟨hocc.due.call count total hpc, throttle_not_stuck hpc⟩⟩
  rw [throttleAt_eq]
  exact_mod_cast hocc.cq_length_le

/-- The end of a run: a throttle call is handed all eight completions, and the final drain waits
for seven more, from the fifth step on. -/
def driftTail (b : BenchState) (d : Device) : ℕ → BenchState
  | 0 => b.callPoll .throttle 1
  | 1 => { b with pc := .poll .throttle 1 8, dev := d }
  | 2 => { b with pc := .measure, q := b.q + 1, outstandingCqes := 7, dev := d }
  | 3 => { b with pc := .measure, i := b.i + 1, q := 0, outstandingCqes := 7, dev := d }
  | 4 => { b with pc := .drain, i := b.i + 1, q := 0, outstandingCqes := 7, dev := d }
  | _ + 5 =>
    { b with pc := .poll .drain 7 0, i := b.i + 1, q := 0, outstandingCqes := 7, dev := d }

/-- Its labels. -/
def driftTailLabel : ℕ → BenchLabel
  | 0 => .pollCq 8
  | 1 | 2 | 3 | 4 => .cpu
  | _ + 5 => .pollCq 0

theorem driftTail_step {b : BenchState} {d : Device} {es : List Cqe} (hi : b.i = 255)
    (hq : b.q = 0) (hout : b.outstandingCqes = 8) (hpoll : b.dev.poll 8 = some (es, d))
    (hes : ∀ e ∈ es, e.status = .success) (i : ℕ) :
    BenchStep (countingCtx driftCfg) (some 512) (driftTail b d i) (driftTailLabel i)
      (driftTail b d (i + 1)) := by
  rcases i with _ | _ | _ | _ | _ | i
  · exact .pollMore .throttle 1 0 8 es d rfl one_pos (by decide) hpoll hes
  · have hret : (driftTail b d 1).afterPoll 8 .throttle = driftTail b d 2 := by
      simp only [driftTail, BenchState.afterPoll, hout]
      rfl
    exact hret ▸ .pollReturn .throttle 1 8 rfl (by decide)
  · have hlt : b.i < 256 := by omega
    have hge : ¬b.q + 1 < 1 := by omega
    exact .measureNext rfl hlt hge
  · have hge : ¬b.i + 1 < 256 := by omega
    exact .measureExit rfl hge
  · exact .drainCall rfl (by decide : (7 : ℤ) > 0)
  · exact .pollMore .drain 7 0 0 [] d rfl (by decide) (by decide) rfl (by simp)

theorem driftTailLabel_ok (i : ℕ) : (driftTailLabel i).Ok := by
  rcases i with _ | _ | _ | _ | _ | i <;> trivial

/-- The throttle call of a run that drifts returns. -/
theorem measurement_occupancy_drift :
    ∃ r : (quietLts (countingCtx driftCfg) (some 512)).Run NoFailure,
      (r.st 0).pc = .poll .throttle 1 0 ∧ ∃ j, 0 ≤ j ∧ (r.st j).pc = .measure := by
  obtain ⟨b, hpath, hpcb, hib, hqb, hout, hdb, hwf, hun⟩ :=
    @exists_full (countingCtx driftCfg) (some 512) (by decide) rfl rfl rfl
  have hcq := Device.cq_length_of_done hwf hdb
  obtain ⟨es, d, hpoll, -, -⟩ := Device.exists_poll (d := b.dev) (m := 8) (by omega)
  obtain ⟨-, hsucc, hund, -⟩ := Device.poll_spec hwf hpoll
  let r : (quietLts (countingCtx driftCfg) (some 512)).Run NoFailure :=
    { st := driftTail b d
      lab := driftTailLabel
      lab_ok := driftTailLabel_ok
      step := fun i => (driftTail_step hib hqb hout hpoll hsucc i).next }
  have hquiet : QuietStart (countingCtx driftCfg) benchStart.startMeasure :=
    ⟨rfl, rfl, rfl, rfl, rfl, Device.wf_empty _, rfl, Device.unpolled_empty _⟩
  have hreach : (quietLts (countingCtx driftCfg) (some 512)).Reach NoFailure b :=
    hpath.invariant (Lts.Reach.of_init hquiet) fun _ _ _ ha hok hs => ha.tail hok.ok hs
  have hcall : BenchStep (countingCtx driftCfg) (some 512) b .cpu (r.st 0) :=
    .throttleCall hpcb (by rw [throttleAt_eq]; omega)
  -- nothing is left to be polled behind the first step
  have hfair : ∀ i, 0 < (r.st i).dev.unpolled 1 → ∃ j, i ≤ j ∧ ∃ n, 0 < n ∧
      r.lab j = .pollCq n := by
    intro i hi
    have hzero : d.unpolled 1 = 0 := by
      have hund : d.unpolled 1 + 8 = b.dev.unpolled 1 := hund
      have hun : b.dev.unpolled 1 = 8 := hun
      omega
    rcases i with _ | _ | _ | _ | _ | i
    · exact ⟨0, le_rfl, 8, by decide, rfl⟩
    all_goals exact absurd hzero (Nat.pos_iff_ne_zero.mp hi)
  have hstart : (quietLts (countingCtx driftCfg) (some 512)).Reach NoFailure (r.st 0) :=
    hreach.tail (l := .cpu) trivial hcall.next
  exact ⟨r, rfl, (measurement_occupancy (countingCtx driftCfg) (some 512)).2.1 r hstart hfair
    0 1 0 rfl⟩

end RdmaBook
