import RdmaBook.Bench.Setup
import RdmaBook.Lib.Lts
import RdmaBook.Verbs.Device

/-!
# rdma_bench: the benchmark run

`run_benchmark` against a device, one step at a time. A state holds the program
counter, the loop variables and counters of the function, and the device; the
label of a step says what a verbs call returned, or what the NIC did meanwhile,
so that every schedule of completions is a run of `RdmaBook.benchLts`.

The program counter `RdmaBook.BenchPc.poll` is inside `poll_completions`: it
remembers the call it is in (`RdmaBook.PollSite`), the count asked for and the
total reaped. Where the call returns, `RdmaBook.BenchState.afterPoll` goes on;
none of the three calls looks at the value returned.

`RdmaBook.benchNext` computes a step; `RdmaBook.BenchStep` lists the steps one by
one, and the two agree (`RdmaBook.benchNext_eq_some_iff`). Every invariant of the
benchmark is proved on the list.
-/

namespace RdmaBook

/-! ### The work request of a write -/

/-- **`post_rdma_write`**, the request it builds. The offset of the slot is an
`int` product, added to a 64-bit address. -/
def postRdmaWrite (bctx : BenchCtx) (qpIdx : ℕ) (signaled : Bool) : SendWr where
  wrId := qpIdx
  sge :=
    { addr := (bctx.buf + cInt (qpIdx * bctx.cfg.msgSize)) % 2 ^ 64
      length := bctx.cfg.msgSize
      lkey := bctx.lkey }
  opcode := .rdmaWrite
  signaled := signaled
  inlined := bctx.cfg.msgSize ≤ 64
  remoteAddr := (bctx.remoteInfo.addr + cInt (qpIdx * bctx.cfg.msgSize)) % 2 ^ 64
  rkey := bctx.remoteInfo.rkey

@[simp] theorem postRdmaWrite_signaled (bctx : BenchCtx) (q : ℕ) (b : Bool) :
    (postRdmaWrite bctx q b).signaled = b := rfl

/-! ### States and labels -/

/-- The three calls of `poll_completions`. -/
inductive PollSite
  | warmupDrain
  | throttle
  | drain
  deriving DecidableEq, Repr

/-- Where `run_benchmark` stands. -/
inductive BenchPc
  /-- At the loop tests of the warm-up. -/
  | warmup
  /-- At the test before the drain of the warm-up. -/
  | warmupDrain
  /-- At the loop tests of the measurement. -/
  | measure
  /-- At the throttle test, the write of this turn posted. -/
  | throttle
  /-- At the test before the final drain. -/
  | drain
  /-- In `poll_completions`, at its loop test. -/
  | poll (site : PollSite) (count total : ℤ)
  /-- The end timestamp is taken; what is left is to return the statistics. -/
  | finished
  /-- `die` has ended the process. -/
  | died (msg : String)
  deriving DecidableEq, Repr

/-- The variables of `run_benchmark`, and the device. -/
structure BenchState where
  pc : BenchPc
  i : ℕ
  q : ℕ
  signalCnt : ℤ
  outstandingCqes : ℤ
  dev : Device

/-- What happens in a step. -/
inductive BenchLabel
  /-- The program moves on without a call. -/
  | cpu
  /-- `ibv_post_send` returns, `true` for success. -/
  | postSend (ok : Bool)
  /-- `ibv_poll_cq` returns this many completions. -/
  | pollCq (n : ℕ)
  /-- `ibv_poll_cq` returns a negative value. -/
  | pollCqErr
  /-- The NIC completes the oldest request of a queue pair. -/
  | complete (k : ℕ) (status : WcStatus)
  deriving DecidableEq, Repr

/-- Neither a post nor a poll nor a write fails in the step. -/
def BenchLabel.Ok : BenchLabel → Prop
  | .postSend ok => ok = true
  | .pollCqErr => False
  | .complete _ status => status = .success
  | _ => True

instance : DecidablePred BenchLabel.Ok
  | .cpu => inferInstanceAs (Decidable True)
  | .postSend ok => inferInstanceAs (Decidable (ok = true))
  | .pollCq _ => inferInstanceAs (Decidable True)
  | .pollCqErr => inferInstanceAs (Decidable False)
  | .complete _ status => inferInstanceAs (Decidable (status = .success))

/-- A throttle poll hands out at most one completion. -/
def OneAtATime (s : BenchState) : BenchLabel → Prop
  | .pollCq n => ∀ count total, s.pc = .poll .throttle count total → n ≤ 1
  | _ => True

/-- The runs in which nothing fails. -/
def NoFailure (_ : BenchState) (l : BenchLabel) : Prop := l.Ok

instance (s : BenchState) (l : BenchLabel) : Decidable (NoFailure s l) :=
  inferInstanceAs (Decidable l.Ok)

/-- The runs in which nothing fails and the throttle reaps one completion at a
time, which is what it accounts for. -/
def Careful (s : BenchState) (l : BenchLabel) : Prop := l.Ok ∧ OneAtATime s l

theorem Careful.ok {s : BenchState} {l : BenchLabel} (h : Careful s l) : l.Ok := h.1

theorem careful_cpu {s : BenchState} : Careful s .cpu := ⟨trivial, trivial⟩

theorem careful_post {s : BenchState} : Careful s (.postSend true) := ⟨rfl, trivial⟩

theorem careful_complete {s : BenchState} {k : ℕ} : Careful s (.complete k .success) :=
  ⟨rfl, trivial⟩

namespace BenchState

/-- Entering the measurement resets both counters. -/
def startMeasure (s : BenchState) : BenchState :=
  { s with pc := .measure, i := 0, q := 0, signalCnt := 0, outstandingCqes := 0 }

/-- Calling `poll_completions`. -/
def callPoll (s : BenchState) (site : PollSite) (count : ℤ) : BenchState :=
  { s with pc := .poll site count 0 }

/-- **What follows a call of `poll_completions`**: nothing depends on `_ret`. -/
def afterPoll (s : BenchState) (_ret : ℤ) : PollSite → BenchState
  | .warmupDrain => s.startMeasure
  | .throttle =>
    { s with pc := .measure, q := s.q + 1, outstandingCqes := cInt (s.outstandingCqes - 1) }
  | .drain => { s with pc := .finished }

@[simp] theorem afterPoll_dev (s : BenchState) (ret : ℤ) (site : PollSite) :
    (s.afterPoll ret site).dev = s.dev := by
  cases site <;> rfl

end BenchState

/-! ### The step function -/

/-- Whether a send queue can take a request, on a device with this limit. -/
def SendQueue.hasRoom (maxSendWr : Option ℕ) (sq : SendQueue) : Bool :=
  maxSendWr.all (sq.held < ·)

@[simp] theorem SendQueue.hasRoom_none (sq : SendQueue) : sq.hasRoom none = true := rfl

/-- A queue that holds less than is asked for has room on every device that gives that. -/
theorem SendQueue.hasRoom_of_held {maxSendWr : Option ℕ} {sq : SendQueue} {n : ℕ}
    (hcap : ∀ m ∈ maxSendWr, n ≤ m) (hheld : sq.held < n) : sq.hasRoom maxSendWr = true := by
  rw [hasRoom, Option.all_eq_true]
  exact fun m hm => decide_eq_true (hheld.trans_le (hcap m hm))

/-- Whether the write of the warm-up at turn `i` is signaled. -/
def warmupSignaled (i : ℕ) : Bool := i % signalInterval == signalInterval - 1

/-- Whether the write of the measurement is signaled. -/
def measureSignaled (signalCnt : ℤ) : Bool :=
  cRem signalCnt signalInterval == (signalInterval : ℤ) - 1

/-- The threshold of the throttle, `sq_depth / (2 * SIGNAL_INTERVAL)`. -/
def throttleAt (cfg : BenchConfig) : ℤ := cfg.sqDepth / (2 * signalInterval)

section Step

variable (bctx : BenchCtx) (maxSendWr : Option ℕ)

/-- A step of the program without a call. -/
def benchCpu (s : BenchState) : Option BenchState :=
  match s.pc with
  | .warmup =>
    -- the inner loop is over its queue pairs, or the next one posts
    if s.i < bctx.cfg.warmup then
      if s.q < bctx.cfg.qpCount then none else some { s with i := s.i + 1, q := 0 }
    else some { s with pc := .warmupDrain }
  | .warmupDrain =>
    -- `if (outstanding_cqes > 0)`; the start timestamp is taken behind it
    some (if s.outstandingCqes > 0 then s.callPoll .warmupDrain s.outstandingCqes
      else s.startMeasure)
  | .measure =>
    if s.i < bctx.cfg.iterations then
      if s.q < bctx.cfg.qpCount then none else some { s with i := s.i + 1, q := 0 }
    else some { s with pc := .drain }
  | .throttle =>
    -- it asks for one completion, whatever is in the queue
    some (if s.outstandingCqes ≥ throttleAt bctx.cfg then s.callPoll .throttle 1
      else { s with pc := .measure, q := s.q + 1 })
  | .drain =>
    some (if s.outstandingCqes > 0 then s.callPoll .drain s.outstandingCqes
      else { s with pc := .finished })
  | .poll site count total => if total < count then none else some (s.afterPoll total site)
  | _ => none

/-- The call of `post_rdma_write` in either loop. A full queue refuses the post;
a post may also fail for another reason, and any failure is fatal. -/
def benchPost (s : BenchState) (ok : Bool) : Option BenchState :=
  match s.pc with
  | .warmup =>
    if s.i < bctx.cfg.warmup ∧ s.q < bctx.cfg.qpCount then
      let signaled := warmupSignaled s.i
      match ok with
      | false => some { s with pc := .died "post_rdma_write (warmup)" }
      | true =>
        if (s.dev.sq s.q).hasRoom maxSendWr then
          some { s with
            q := s.q + 1
            outstandingCqes :=
              if signaled then cInt (s.outstandingCqes + 1) else s.outstandingCqes
            dev := s.dev.post s.q (postRdmaWrite bctx s.q signaled) }
        else none
    else none
  | .measure =>
    if s.i < bctx.cfg.iterations ∧ s.q < bctx.cfg.qpCount then
      let signaled := measureSignaled s.signalCnt
      match ok with
      -- `signal_cnt++` stands before the call
      | false =>
        some { s with pc := .died "post_rdma_write", signalCnt := cInt (s.signalCnt + 1) }
      | true =>
        if (s.dev.sq s.q).hasRoom maxSendWr then
          some { s with
            pc := .throttle
            signalCnt := cInt (s.signalCnt + 1)
            outstandingCqes :=
              if signaled then cInt (s.outstandingCqes + 1) else s.outstandingCqes
            dev := s.dev.post s.q (postRdmaWrite bctx s.q signaled) }
        else none
    else none
  | _ => none

/-- **The body of `poll_completions`**: one `ibv_poll_cq` for up to 32 entries. A
completion that is not a success ends the call with `-1`. -/
def benchPoll (s : BenchState) (n : ℕ) : Option BenchState :=
  match s.pc with
  | .poll site count total =>
    if total < count ∧ n ≤ 32 then
      (s.dev.poll n).map fun r =>
        -- all completions of the call are gone, those behind the failure, too
        if r.1.any fun wc => wc.status != .success then
          ({ s with dev := r.2 } : BenchState).afterPoll (-1) site
        else { s with pc := .poll site count (cInt (total + n)), dev := r.2 }
    else none
  | _ => none

/-- `ibv_poll_cq` failing is fatal. -/
def benchPollErr (s : BenchState) : Option BenchState :=
  match s.pc with
  | .poll _ count total =>
    if total < count then some { s with pc := .died "ibv_poll_cq" } else none
  | _ => none

/-- **One step** of the benchmark and its device. -/
def benchNext (s : BenchState) : BenchLabel → Option BenchState
  | .cpu => benchCpu bctx s
  | .postSend ok => benchPost bctx maxSendWr s ok
  | .pollCq n => benchPoll s n
  | .pollCqErr => benchPollErr s
  | .complete k status => (s.dev.complete k status).map fun d => { s with dev := d }

/-- Where `run_benchmark` starts: nothing posted, both counters zero. -/
def benchStart : BenchState :=
  { pc := .warmup, i := 0, q := 0, signalCnt := 0, outstandingCqes := 0, dev := .empty }

/-- **The benchmark against a device.** `maxSendWr` is the number of slots a send
queue of the device has, if it is limited. -/
def benchLts : Lts BenchState BenchLabel :=
  Lts.ofFun (· = benchStart) (benchNext bctx maxSendWr)

end Step

/-! ### The steps, one by one -/

/-- The steps of the benchmark, one constructor each. -/
inductive BenchStep (bctx : BenchCtx) (maxSendWr : Option ℕ) (s : BenchState) :
    BenchLabel → BenchState → Prop
  | warmupPost (hpc : s.pc = .warmup) (hi : s.i < bctx.cfg.warmup) (hq : s.q < bctx.cfg.qpCount)
      (hroom : (s.dev.sq s.q).hasRoom maxSendWr = true) :
      BenchStep bctx maxSendWr s (.postSend true) { s with
        q := s.q + 1
        outstandingCqes :=
          if warmupSignaled s.i then cInt (s.outstandingCqes + 1) else s.outstandingCqes
        dev := s.dev.post s.q (postRdmaWrite bctx s.q (warmupSignaled s.i)) }
  | warmupPostFail (hpc : s.pc = .warmup) (hi : s.i < bctx.cfg.warmup)
      (hq : s.q < bctx.cfg.qpCount) :
      BenchStep bctx maxSendWr s (.postSend false)
        { s with pc := .died "post_rdma_write (warmup)" }
  | warmupNext (hpc : s.pc = .warmup) (hi : s.i < bctx.cfg.warmup)
      (hq : ¬s.q < bctx.cfg.qpCount) :
      BenchStep bctx maxSendWr s .cpu { s with i := s.i + 1, q := 0 }
  | warmupExit (hpc : s.pc = .warmup) (hi : ¬s.i < bctx.cfg.warmup) :
      BenchStep bctx maxSendWr s .cpu { s with pc := .warmupDrain }
  | warmupDrainCall (hpc : s.pc = .warmupDrain) (h : s.outstandingCqes > 0) :
      BenchStep bctx maxSendWr s .cpu (s.callPoll .warmupDrain s.outstandingCqes)
  | warmupDrainSkip (hpc : s.pc = .warmupDrain) (h : ¬s.outstandingCqes > 0) :
      BenchStep bctx maxSendWr s .cpu s.startMeasure
  | measurePost (hpc : s.pc = .measure) (hi : s.i < bctx.cfg.iterations)
      (hq : s.q < bctx.cfg.qpCount) (hroom : (s.dev.sq s.q).hasRoom maxSendWr = true) :
      BenchStep bctx maxSendWr s (.postSend true) { s with
        pc := .throttle
        signalCnt := cInt (s.signalCnt + 1)
        outstandingCqes :=
          if measureSignaled s.signalCnt then cInt (s.outstandingCqes + 1)
          else s.outstandingCqes
        dev := s.dev.post s.q (postRdmaWrite bctx s.q (measureSignaled s.signalCnt)) }
  | measurePostFail (hpc : s.pc = .measure) (hi : s.i < bctx.cfg.iterations)
      (hq : s.q < bctx.cfg.qpCount) :
      BenchStep bctx maxSendWr s (.postSend false)
        { s with pc := .died "post_rdma_write", signalCnt := cInt (s.signalCnt + 1) }
  | measureNext (hpc : s.pc = .measure) (hi : s.i < bctx.cfg.iterations)
      (hq : ¬s.q < bctx.cfg.qpCount) :
      BenchStep bctx maxSendWr s .cpu { s with i := s.i + 1, q := 0 }
  | measureExit (hpc : s.pc = .measure) (hi : ¬s.i < bctx.cfg.iterations) :
      BenchStep bctx maxSendWr s .cpu { s with pc := .drain }
  | throttleCall (hpc : s.pc = .throttle) (h : s.outstandingCqes ≥ throttleAt bctx.cfg) :
      BenchStep bctx maxSendWr s .cpu (s.callPoll .throttle 1)
  | throttleSkip (hpc : s.pc = .throttle) (h : ¬s.outstandingCqes ≥ throttleAt bctx.cfg) :
      BenchStep bctx maxSendWr s .cpu { s with pc := .measure, q := s.q + 1 }
  | drainCall (hpc : s.pc = .drain) (h : s.outstandingCqes > 0) :
      BenchStep bctx maxSendWr s .cpu (s.callPoll .drain s.outstandingCqes)
  | drainSkip (hpc : s.pc = .drain) (h : ¬s.outstandingCqes > 0) :
      BenchStep bctx maxSendWr s .cpu { s with pc := .finished }
  | pollMore (site : PollSite) (count total : ℤ) (n : ℕ) (es : List Cqe) (dev : Device)
      (hpc : s.pc = .poll site count total) (hlt : total < count) (hn : n ≤ 32)
      (hp : s.dev.poll n = some (es, dev)) (hes : ∀ e ∈ es, e.status = .success) :
      BenchStep bctx maxSendWr s (.pollCq n)
        { s with pc := .poll site count (cInt (total + n)), dev := dev }
  | pollFailed (site : PollSite) (count total : ℤ) (n : ℕ) (es : List Cqe) (dev : Device)
      (hpc : s.pc = .poll site count total) (hlt : total < count) (hn : n ≤ 32)
      (hp : s.dev.poll n = some (es, dev)) (hes : ∃ e ∈ es, e.status ≠ .success) :
      BenchStep bctx maxSendWr s (.pollCq n)
        (({ s with dev := dev } : BenchState).afterPoll (-1) site)
  | pollReturn (site : PollSite) (count total : ℤ) (hpc : s.pc = .poll site count total)
      (hge : ¬total < count) :
      BenchStep bctx maxSendWr s .cpu (s.afterPoll total site)
  | pollErr (site : PollSite) (count total : ℤ) (hpc : s.pc = .poll site count total)
      (hlt : total < count) :
      BenchStep bctx maxSendWr s .pollCqErr { s with pc := .died "ibv_poll_cq" }
  | complete (k : ℕ) (status : WcStatus) (dev : Device)
      (hc : s.dev.complete k status = some dev) :
      BenchStep bctx maxSendWr s (.complete k status) { s with dev := dev }

section Agree

variable {bctx : BenchCtx} {maxSendWr : Option ℕ} {s s' : BenchState} {l : BenchLabel}

/-- A listed step is computed. -/
theorem BenchStep.next (h : BenchStep bctx maxSendWr s l s') :
    benchNext bctx maxSendWr s l = some s' := by
  cases h with
  | warmupPost hpc hi hq hroom => simp [benchNext, benchPost, hpc, hi, hq, hroom]
  | warmupPostFail hpc hi hq => simp [benchNext, benchPost, hpc, hi, hq]
  | warmupNext hpc hi hq => simp [benchNext, benchCpu, hpc, hi, hq]
  | warmupExit hpc hi => simp [benchNext, benchCpu, hpc, hi]
  | warmupDrainCall hpc h => simp [benchNext, benchCpu, hpc, h]
  | warmupDrainSkip hpc h => simp only [benchNext, benchCpu, hpc, if_neg h]
  | measurePost hpc hi hq hroom => simp [benchNext, benchPost, hpc, hi, hq, hroom]
  | measurePostFail hpc hi hq => simp [benchNext, benchPost, hpc, hi, hq]
  | measureNext hpc hi hq => simp [benchNext, benchCpu, hpc, hi, hq]
  | measureExit hpc hi => simp [benchNext, benchCpu, hpc, hi]
  | throttleCall hpc h => simp only [benchNext, benchCpu, hpc, if_pos h]
  | throttleSkip hpc h => simp only [benchNext, benchCpu, hpc, if_neg h]
  | drainCall hpc h => simp only [benchNext, benchCpu, hpc, if_pos h]
  | drainSkip hpc h => simp only [benchNext, benchCpu, hpc, if_neg h]
  | pollMore site count total n es dev hpc hlt hn hp hes =>
    have hany : (es.any fun wc => wc.status != .success) = false := by simpa using hes
    simp only [benchNext, benchPoll, hpc, hlt, hn, and_self, if_true, hp, Option.map_some, hany,
      Bool.false_eq_true, if_false]
  | pollFailed site count total n es dev hpc hlt hn hp hes =>
    have hany : (es.any fun wc => wc.status != .success) = true := by simpa using hes
    simp only [benchNext, benchPoll, hpc, hlt, hn, and_self, if_true, hp, Option.map_some, hany]
  | pollReturn site count total hpc hge => simp [benchNext, benchCpu, hpc, hge]
  | pollErr site count total hpc hlt => simp [benchNext, benchPollErr, hpc, hlt]
  | complete k status dev hc => simp [benchNext, hc]

theorem BenchStep.of_cpu (h : benchCpu bctx s = some s') : BenchStep bctx maxSendWr s .cpu s' := by
  unfold benchCpu at h
  split at h
  · rename_i hpc
    split at h
    · rename_i hi
      split at h
      · cases h
      · rename_i hq
        exact Option.some.inj h ▸ .warmupNext hpc hi hq
    · rename_i hi
      exact Option.some.inj h ▸ .warmupExit hpc hi
  · rename_i hpc
    obtain rfl := Option.some.inj h
    split
    · rename_i ho
      exact .warmupDrainCall hpc ho
    · rename_i ho
      exact .warmupDrainSkip hpc ho
  · rename_i hpc
    split at h
    · rename_i hi
      split at h
      · cases h
      · rename_i hq
        exact Option.some.inj h ▸ .measureNext hpc hi hq
    · rename_i hi
      exact Option.some.inj h ▸ .measureExit hpc hi
  · rename_i hpc
    obtain rfl := Option.some.inj h
    split
    · rename_i ho
      exact .throttleCall hpc ho
    · rename_i ho
      exact .throttleSkip hpc ho
  · rename_i hpc
    obtain rfl := Option.some.inj h
    split
    · rename_i ho
      exact .drainCall hpc ho
    · rename_i ho
      exact .drainSkip hpc ho
  · rename_i site count total hpc
    split at h
    · cases h
    · rename_i hge
      exact Option.some.inj h ▸ .pollReturn site count total hpc hge
  · cases h

theorem BenchStep.of_post {ok : Bool} (h : benchPost bctx maxSendWr s ok = some s') :
    BenchStep bctx maxSendWr s (.postSend ok) s' := by
  unfold benchPost at h
  split at h
  · rename_i hpc
    split at h
    · rename_i hiq
      cases ok
      · exact Option.some.inj h ▸ .warmupPostFail hpc hiq.1 hiq.2
      · dsimp only at h
        split at h
        · rename_i hroom
          exact Option.some.inj h ▸ .warmupPost hpc hiq.1 hiq.2 hroom
        · cases h
    · cases h
  · rename_i hpc
    split at h
    · rename_i hiq
      cases ok
      · exact Option.some.inj h ▸ .measurePostFail hpc hiq.1 hiq.2
      · dsimp only at h
        split at h
        · rename_i hroom
          exact Option.some.inj h ▸ .measurePost hpc hiq.1 hiq.2 hroom
        · cases h
    · cases h
  · cases h

theorem BenchStep.of_poll {n : ℕ} (h : benchPoll s n = some s') :
    BenchStep bctx maxSendWr s (.pollCq n) s' := by
  unfold benchPoll at h
  split at h
  · rename_i site count total hpc
    split at h
    · rename_i hc
      obtain ⟨⟨es, dev⟩, hp, rfl⟩ := Option.map_eq_some_iff.mp h
      dsimp only
      split
      · rename_i hany
        exact .pollFailed site count total n es dev hpc hc.1 hc.2 hp (by simpa using hany)
      · rename_i hany
        exact .pollMore site count total n es dev hpc hc.1 hc.2 hp (by simpa using hany)
    · cases h
  · cases h

theorem BenchStep.of_pollErr (h : benchPollErr s = some s') :
    BenchStep bctx maxSendWr s .pollCqErr s' := by
  unfold benchPollErr at h
  split at h
  · rename_i site count total hpc
    split at h
    · rename_i hlt
      exact Option.some.inj h ▸ .pollErr site count total hpc hlt
    · cases h
  · cases h

/-- A computed step is listed. -/
theorem BenchStep.of_next (h : benchNext bctx maxSendWr s l = some s') :
    BenchStep bctx maxSendWr s l s' := by
  cases l with
  | cpu => exact .of_cpu h
  | postSend ok => exact .of_post h
  | pollCq n => exact .of_poll h
  | pollCqErr => exact .of_pollErr h
  | complete k status =>
    obtain ⟨dev, hc, rfl⟩ := Option.map_eq_some_iff.mp h
    exact .complete k status dev hc

/-- **The list of steps is the step function.** -/
theorem benchNext_eq_some_iff :
    benchNext bctx maxSendWr s l = some s' ↔ BenchStep bctx maxSendWr s l s' :=
  ⟨BenchStep.of_next, BenchStep.next⟩

end Agree

end RdmaBook
