import RdmaBook.Bench.Position

/-!
# rdma_bench: the eager schedules

Runs that are shown to exist. The NIC here completes every write as soon as it is
posted (`RdmaBook.Device.CaughtUp`), so whatever is unpolled is also in the
completion queue and a poll never waits for the device. All steps are
`RdmaBook.Careful` ones.

* `RdmaBook.exists_measurePost` – one write of the measurement, posted and
  completed;
* `RdmaBook.exists_warmup` – the warm-up loop up to any position, on a device that
  always has room for the next write;
* `RdmaBook.exists_call` – a call of `poll_completions` that one poll answers.
-/

namespace RdmaBook

/-! ### A NIC without delay -/

/-- The NIC has completed every request posted. -/
def Device.CaughtUp (d : Device) : Prop := ∀ k, (d.sq k).done = (d.sq k).wrs.length

theorem Device.caughtUp_empty : (Device.empty).CaughtUp := fun _ => rfl

/-- A request posted to such a NIC can be completed at once. -/
theorem Device.CaughtUp.exists_complete {n k : ℕ} {d : Device} (hwf : d.Wf n) (hd : d.CaughtUp)
    (wr : SendWr) :
    ∃ d', (d.post k wr).complete k .success = some d' ∧ d'.CaughtUp := by
  have hwr : ((d.post k wr).sq k).wrs[((d.post k wr).sq k).done]? = some wr := by
    rw [post_sq_self]
    simp [SendQueue.post, hd k]
  have hfail : ((d.post k wr).sq k).failed = false := by
    rw [post_sq_self]
    exact (hwf.sq k).not_failed
  obtain ⟨d', hd'⟩ : ∃ d', (d.post k wr).complete k .success = some d' := by
    rw [complete, hwr]
    dsimp only
    rw [hfail, if_neg (by simp)]
    split
    · exact ⟨_, rfl⟩
    · exact ⟨_, rfl⟩
  refine ⟨d', hd', fun j => ?_⟩
  obtain ⟨wr', -, rfl⟩ := complete_eq_some hd'
  rcases eq_or_ne j k with rfl | hj
  · rw [setSq_sq_self, post_sq_self]
    simp [SendQueue.post, hd j]
  · rw [setSq_sq_of_ne _ _ hj, post_sq_of_ne _ _ hj]
    exact hd j

section Eager

variable {bctx : BenchCtx} {maxSendWr : Option ℕ} {base : ℕ → ℕ} {s : BenchState}

/-- The runs of the measurement alone are runs of the benchmark from a later
state. -/
theorem measureLts_path (left : ℕ → ℕ) (ok : BenchState → BenchLabel → Prop) :
    (measureLts bctx maxSendWr left).Path ok = (benchLts bctx maxSendWr).Path ok := rfl

/-- A step of the program, as a run. -/
theorem path_cpu {s' : BenchState} (hs : BenchStep bctx maxSendWr s .cpu s') :
    (benchLts bctx maxSendWr).Path Careful s s' :=
  .single careful_cpu hs.next

/-- Without a warm-up the measurement starts at once. -/
theorem path_startMeasure (hw : bctx.cfg.warmup = 0) :
    (benchLts bctx maxSendWr).Path Careful benchStart benchStart.startMeasure := by
  have hexit : BenchStep bctx maxSendWr benchStart .cpu { benchStart with pc := .warmupDrain } :=
    .warmupExit rfl (by rw [hw]; exact Nat.lt_irrefl 0)
  have hskip : BenchStep bctx maxSendWr { benchStart with pc := .warmupDrain } .cpu
      benchStart.startMeasure := .warmupDrainSkip rfl (by decide)
  exact (path_cpu hexit).tail careful_cpu hskip.next

/-- **A write of the measurement, posted and completed.** -/
theorem exists_measurePost (hwf : s.dev.Wf bctx.cfg.qpCount) (hpc : s.pc = .measure)
    (hi : s.i < bctx.cfg.iterations) (hq : s.q < bctx.cfg.qpCount)
    (hroom : (s.dev.sq s.q).hasRoom maxSendWr = true) (hd : s.dev.CaughtUp) :
    ∃ s', (benchLts bctx maxSendWr).Path Careful s s' ∧ s'.pc = .throttle ∧ s'.i = s.i ∧
      s'.q = s.q ∧ s'.signalCnt = cInt (s.signalCnt + 1) ∧
      s'.outstandingCqes = (if measureSignaled s.signalCnt then cInt (s.outstandingCqes + 1)
        else s.outstandingCqes) ∧ s'.dev.CaughtUp := by
  obtain ⟨d', hd', hcaught⟩ :=
    hd.exists_complete hwf (k := s.q) (postRdmaWrite bctx s.q (measureSignaled s.signalCnt))
  have hpost : (benchLts bctx maxSendWr).Path Careful s _ :=
    .single careful_post (BenchStep.measurePost hpc hi hq hroom).next
  exact ⟨_, hpost.tail careful_complete (BenchStep.complete s.q .success d' hd').next, rfl, rfl,
    rfl, rfl, rfl, hcaught⟩

/-- **A call of `poll_completions` that one poll answers**: the poll returns `m`
completions, no fewer than the call has asked for. -/
theorem exists_call {ok : BenchState → BenchLabel → Prop} (hwf : s.dev.Wf bctx.cfg.qpCount)
    (hd : s.dev.CaughtUp) {site : PollSite} {count : ℤ} {m : ℕ}
    (hcall : BenchStep bctx maxSendWr s .cpu (s.callPoll site count)) (hpos : 0 < count)
    (hle : count ≤ m) (hm : m ≤ 32) (hun : m ≤ s.dev.unpolled bctx.cfg.qpCount)
    (hcpu : ∀ t, ok t .cpu) (hok : ok (s.callPoll site count) (.pollCq m)) :
    ∃ d : Device, (benchLts bctx maxSendWr).Path ok s
        (({ s with dev := d } : BenchState).afterPoll m site) ∧
      d.CaughtUp ∧ d.unpolled bctx.cfg.qpCount + m = s.dev.unpolled bctx.cfg.qpCount := by
  have hcq := Device.cq_length_of_done hwf hd
  obtain ⟨es, d, hpoll, -, -⟩ := Device.exists_poll (d := s.dev) (m := m) (by omega)
  obtain ⟨-, hsucc, hunp, hsq⟩ := Device.poll_spec hwf hpoll
  have htotal : cInt (0 + (m : ℤ)) = m := by
    rw [Int.zero_add]
    exact cInt_natCast (by omega)
  have hmore : BenchStep bctx maxSendWr (s.callPoll site count) (.pollCq m)
      { s with pc := .poll site count (cInt (0 + (m : ℤ))), dev := d } :=
    .pollMore site count 0 m es d rfl hpos hm hpoll hsucc
  rw [htotal] at hmore
  have hret : BenchStep bctx maxSendWr { s with pc := .poll site count m, dev := d } .cpu
      (({ s with dev := d } : BenchState).afterPoll m site) := by
    have hstep : BenchStep bctx maxSendWr { s with pc := .poll site count m, dev := d } .cpu _ :=
      .pollReturn site count m rfl (not_lt.mpr hle)
    cases site <;> exact hstep
  refine ⟨d, ((Lts.Path.single (hcpu s) hcall.next).tail hok hmore.next).tail (hcpu _) hret.next,
    fun k => ?_, hunp⟩
  obtain ⟨hw, hdone, -⟩ := hsq k
  exact hdone.trans ((hd k).trans (congrArg List.length hw.symm))

/-- A write of the warm-up, posted and completed. -/
theorem exists_warmupPost (hwf : s.dev.Wf bctx.cfg.qpCount) (hpc : s.pc = .warmup)
    (hi : s.i < bctx.cfg.warmup) (hq : s.q < bctx.cfg.qpCount)
    (hroom : (s.dev.sq s.q).hasRoom maxSendWr = true) (hd : s.dev.CaughtUp) :
    ∃ s', (benchLts bctx maxSendWr).Path Careful s s' ∧ s'.pc = .warmup ∧ s'.i = s.i ∧
      s'.q = s.q + 1 ∧ s'.dev.CaughtUp := by
  obtain ⟨d', hd', hcaught⟩ :=
    hd.exists_complete hwf (k := s.q) (postRdmaWrite bctx s.q (warmupSignaled s.i))
  have hpost : (benchLts bctx maxSendWr).Path Careful s _ :=
    .single careful_post (BenchStep.warmupPost hpc hi hq hroom).next
  exact ⟨_, hpost.tail careful_complete (BenchStep.complete s.q .success d' hd').next, hpc, rfl,
    rfl, hcaught⟩

/-- **The warm-up loop runs to any of its positions** on a device that always has
room for the next write. -/
theorem exists_warmup {i q : ℕ}
    (hiq : i < bctx.cfg.warmup ∧ q ≤ bctx.cfg.qpCount ∨ i = bctx.cfg.warmup ∧ q = 0)
    (hroom : ∀ a, (benchLts bctx maxSendWr).Reach Careful a → a.pc = .warmup →
      a.i < bctx.cfg.warmup → a.q < bctx.cfg.qpCount →
        (a.dev.sq a.q).hasRoom maxSendWr = true) :
    ∃ s, (benchLts bctx maxSendWr).Reach Careful s ∧ s.pc = .warmup ∧ s.i = i ∧ s.q = q ∧
      s.dev.CaughtUp := by
  let R : ℕ → ℕ → BenchState → Prop := fun i q a =>
    (benchLts bctx maxSendWr).Reach Careful a ∧ a.pc = .warmup ∧ a.i = i ∧ a.q = q ∧
      a.dev.CaughtUp
  have hstart : R 0 0 benchStart :=
    ⟨Lts.Reach.of_init rfl, rfl, rfl, rfl, Device.caughtUp_empty⟩
  have hturn : ∀ i < bctx.cfg.warmup, ∀ q < bctx.cfg.qpCount, ∀ a, R i q a →
      ∃ b, (benchLts bctx maxSendWr).Path Careful a b ∧ R i (q + 1) b := by
    rintro i hi q hq a ⟨hr, hpc, rfl, rfl, hd⟩
    have hpos := (benchPos_of_reach (fun _ _ => Careful.ok) hr).warmupPos hpc
    obtain ⟨b, hpath, hpcb, hib, hqb, hdb⟩ :=
      exists_warmupPost hpos.wf hpc hi hq (hroom a hr hpc hi hq) hd
    exact ⟨b, hpath, hr.trans hpath, hpcb, hib, hqb, hdb⟩
  have hnext : ∀ i < bctx.cfg.warmup, ∀ a, R i bctx.cfg.qpCount a →
      ∃ b, (benchLts bctx maxSendWr).Path Careful a b ∧ R (i + 1) 0 b := by
    rintro i hi a ⟨hr, hpc, rfl, hq, hd⟩
    have hpath : (benchLts bctx maxSendWr).Path Careful a _ :=
      path_cpu (BenchStep.warmupNext hpc hi (by omega))
    exact ⟨_, hpath, hr.trans hpath, hpc, rfl, rfl, hd⟩
  obtain ⟨s, -, hs⟩ := Lts.Path.exists_nested hstart hturn hnext hiq
  exact ⟨s, hs⟩

end Eager

end RdmaBook
