import RdmaBook.Lib.Lts
import RdmaBook.Srq.Teardown

/-!
# srq_example: the event thread and the end of main

Next to `main` runs a thread that takes the asynchronous events: it tests
`async_running`, waits in `ibv_get_async_event`, sets the limit of the shared queue again
when it has been reached, and acknowledges the event. `main` clears the flag when the
demonstration is over and tears everything down. It does not join the thread.

What the thread holds protects it: an object with an event that has not been acknowledged
is not destroyed, so the thread can still set the limit and acknowledge
(`RdmaBook.SrqShutdown.Held.of_reach`). Between the test and the wait it holds nothing, and
where `main` closes the device there, the thread goes on to wait on a context that is gone
(`RdmaBook.exists_late_get`). Nothing else goes wrong (`RdmaBook.srq_shutdown`).
-/

namespace RdmaBook

/-! ### Events and calls -/

/-- An asynchronous event, and what it is about. -/
inductive AsyncEvent
  /-- `IBV_EVENT_SRQ_LIMIT_REACHED`. -/
  | srqLimit
  | srqErr
  | cqErr
  /-- The events of the queue pairs. -/
  | sendQp (i : ℕ)
  | recvQp (i : ℕ)
  /-- An event of a port or of the device. -/
  | device
  deriving DecidableEq, Repr

/-- `event.element`: what the event has to be acknowledged for. -/
def AsyncEvent.element : AsyncEvent → Option SrqObj
  | .srqLimit => some .srq
  | .srqErr => some .srq
  | .cqErr => some .cq
  | .sendQp i => some (.sendQp i)
  | .recvQp i => some (.recvQp i)
  | .device => none

/-- The verbs calls of the event thread. -/
inductive AsyncCall
  | getAsyncEvent
  | modifySrq
  | ackAsyncEvent (ev : AsyncEvent)
  deriving DecidableEq, Repr

/-- What a call is made on. -/
def AsyncCall.on : AsyncCall → Option SrqObj
  | .getAsyncEvent => some .ctx
  | .modifySrq => some .srq
  | .ackAsyncEvent ev => ev.element

/-! ### The two threads -/

/-- The places of `main` behind `init_resources`. -/
inductive SrqMainPc
  | create
  | demo
  | stop
  /-- In `cleanup`, with what it has still to release. -/
  | cleanup (todo : List SrqObj)
  | exited
  deriving DecidableEq, Repr

/-- The flag has not been cleared yet. -/
def SrqMainPc.Running : SrqMainPc → Prop
  | .create => True
  | .demo => True
  | .stop => True
  | _ => False

/-- The places of `async_event_thread`. -/
inductive EventPc
  /-- There is no thread. -/
  | none
  /-- At the test of the loop. -/
  | test
  /-- Behind the test. -/
  | get
  /-- In `ibv_get_async_event`. -/
  | blocked
  | switch (ev : AsyncEvent)
  | ack (ev : AsyncEvent)
  | ended
  deriving DecidableEq, Repr

/-- The event the thread has taken and not acknowledged. -/
def EventPc.event : EventPc → Option AsyncEvent
  | .switch ev => some ev
  | .ack ev => some ev
  | _ => Option.none

/-- What the thread has not acknowledged an event of. -/
def EventPc.element (pc : EventPc) : Option SrqObj := pc.event.bind AsyncEvent.element

/-- What is recorded of a run. -/
inductive ShutdownAct
  /-- The event thread starts a call. -/
  | starts (c : AsyncCall)
  /-- `cleanup` has released it. -/
  | released (o : SrqObj)
  deriving DecidableEq, Repr

/-- The two threads, what they share, and, as a history, the calls of the one and the
releases of the other. -/
structure SrqShutdown where
  g : SrqObj → Bool
  asyncRunning : Bool
  main : SrqMainPc
  thread : EventPc
  history : List ShutdownAct

/-- What happens in a step. -/
inductive ShutdownLabel
  /-- `main` sets the flag, and `pthread_create` returns. -/
  | create (ok : Bool)
  /-- `run_demo` returns. -/
  | demo
  /-- `main` clears the flag. -/
  | stop
  /-- The next release of `cleanup` returns. -/
  | release
  /-- `main` returns. -/
  | exit
  /-- The thread tests the flag. -/
  | test
  | get
  /-- `ibv_get_async_event` returns, with an event or a failure. -/
  | getRet (ev : Option AsyncEvent)
  | switch
  | ack
  deriving DecidableEq, Repr

namespace SrqShutdown

/-- Before `main` starts the thread. -/
def start (g : SrqObj → Bool) : SrqShutdown := ⟨g, false, .create, .none, []⟩

/-- The thread starts a call, and goes on. -/
def call (s : SrqShutdown) (c : AsyncCall) (pc : EventPc) : SrqShutdown :=
  { s with thread := pc, history := s.history ++ [.starts c] }

/-- The device can deliver the event: it drops the events of what has been destroyed. -/
def CanDeliver (s : SrqShutdown) (ev : AsyncEvent) : Prop :=
  ∀ o ∈ ev.element, .released o ∉ s.history

instance (s : SrqShutdown) (ev : AsyncEvent) : Decidable (s.CanDeliver ev) :=
  inferInstanceAs (Decidable (∀ o ∈ ev.element, _))

/-- **A step of `main` or of the event thread.** -/
def next (numQps : ℕ) (s : SrqShutdown) : ShutdownLabel → Option SrqShutdown
  -- `main` does not look at the result of `pthread_create`
  | .create ok => if s.main = .create then
      some { s with main := .demo, asyncRunning := true, thread := if ok then .test else .none }
        else none
  | .demo => if s.main = .demo then some { s with main := .stop } else none
  | .stop => if s.main = .stop then
      some { s with main := .cleanup (srqCleanup numQps s.g), asyncRunning := false } else none
  -- an object is not destroyed before its events have been acknowledged
  | .release => match s.main with
    | .cleanup (o :: todo) => if s.thread.element = some o then none else
        some { s with main := .cleanup todo, history := s.history ++ [.released o] }
    | _ => none
  -- the end of the process is the end of the thread
  | .exit => if s.main = .cleanup [] then some { s with main := .exited, thread := .ended }
      else none
  | .test => if s.thread = .test then
      some { s with thread := if s.asyncRunning then .get else .ended } else none
  | .get => if s.thread = .get then some (s.call .getAsyncEvent .blocked) else none
  | .getRet (some ev) =>
    if s.thread = .blocked ∧ s.CanDeliver ev then some { s with thread := .switch ev } else none
  | .getRet none => if s.thread = .blocked then some { s with thread := .ended } else none
  | .switch => match s.thread with
    | .switch .srqLimit => some (s.call .modifySrq (.ack .srqLimit))
    | .switch ev => some { s with thread := .ack ev }
    | _ => none
  | .ack => match s.thread with
    | .ack ev => some (s.call (.ackAsyncEvent ev) .test)
    | _ => none

end SrqShutdown

/-- **The end of srq_example**: the two threads in any order, with any asynchronous events,
behind an `init_resources` that has not failed. -/
def srqShutdownLts (numQps numBufs : ℕ) : Lts SrqShutdown ShutdownLabel :=
  Lts.ofFun (fun s => ∃ ok, (srqInitResources numQps numBufs ok).failed = false ∧
    s = .start (srqInitResources numQps numBufs ok).g) (SrqShutdown.next numQps)

/-- **No late call**: the thread starts no call on the object when it has been released. -/
def NoLateCall (o : SrqObj) (history : List ShutdownAct) : Prop :=
  ∀ p c, p ++ [.starts c] <+: history → c.on = some o → .released o ∉ p

/-- The device is not closed while the thread is between the test and the wait. -/
def CloseClear (s : SrqShutdown) (l : ShutdownLabel) : Prop :=
  l = .release → ∀ todo, s.main = .cleanup (.ctx :: todo) → s.thread ≠ .get

section NoLateCall

variable {o : SrqObj} {history : List ShutdownAct}

theorem NoLateCall.nil : NoLateCall o [] := by
  intro p c hp
  have hlen := hp.length_le
  rw [List.length_append, List.length_singleton, List.length_nil] at hlen
  omega

/-- A release makes no call late that has been started before. -/
theorem NoLateCall.released (h : NoLateCall o history) (x : SrqObj) :
    NoLateCall o (history ++ [.released x]) := by
  intro p c hp hon
  rcases List.prefix_concat_iff.mp hp with heq | hp
  · cases (List.append_inj' heq rfl).2
  · exact h p c hp hon

/-- A call is not late on an object that has not been released. -/
theorem NoLateCall.starts (h : NoLateCall o history) {c : AsyncCall}
    (hc : c.on = some o → .released o ∉ history) : NoLateCall o (history ++ [.starts c]) := by
  intro p c' hp hon
  rcases List.prefix_concat_iff.mp hp with heq | hp
  · obtain ⟨rfl, hlast⟩ := List.append_inj' heq rfl
    obtain rfl : c' = c := ShutdownAct.starts.inj (List.cons.inj hlast).1
    exact hc hon
  · exact h p c' hp hon

theorem not_noLateCall {c : AsyncCall} (hon : c.on = some o) (h : .released o ∈ history) :
    ¬NoLateCall o (history ++ [.starts c]) :=
  fun hno => hno history c (List.prefix_refl _) hon h

end NoLateCall

/-! ### What a step does -/

/-- **The moves of the two threads.** -/
inductive ShutdownMove (s : SrqShutdown) : ShutdownLabel → SrqShutdown → Prop
  | create (ok : Bool) (hpc : s.main = .create) : ShutdownMove s (.create ok)
      { s with main := .demo, asyncRunning := true, thread := if ok then .test else .none }
  | demo (hpc : s.main = .demo) : ShutdownMove s .demo { s with main := .stop }
  | stop (todo : List SrqObj) (hpc : s.main = .stop) :
      ShutdownMove s .stop { s with main := .cleanup todo, asyncRunning := false }
  | release (o : SrqObj) (todo : List SrqObj) (hpc : s.main = .cleanup (o :: todo))
      (hfree : s.thread.element ≠ some o) :
      ShutdownMove s .release { s with
        main := .cleanup todo, history := s.history ++ [.released o] }
  | exit (hpc : s.main = .cleanup []) :
      ShutdownMove s .exit { s with main := .exited, thread := .ended }
  | goOn (hpc : s.thread = .test) (hrun : s.asyncRunning = true) :
      ShutdownMove s .test { s with thread := .get }
  | leave (l : ShutdownLabel) : ShutdownMove s l { s with thread := .ended }
  | get (hpc : s.thread = .get) : ShutdownMove s .get (s.call .getAsyncEvent .blocked)
  | take (ev : AsyncEvent) (hcan : s.CanDeliver ev) :
      ShutdownMove s (.getRet (some ev)) { s with thread := .switch ev }
  | rearm (hpc : s.thread = .switch .srqLimit) :
      ShutdownMove s .switch (s.call .modifySrq (.ack .srqLimit))
  | print (ev : AsyncEvent) (hpc : s.thread = .switch ev) :
      ShutdownMove s .switch { s with thread := .ack ev }
  | ack (ev : AsyncEvent) (hpc : s.thread = .ack ev) :
      ShutdownMove s .ack (s.call (.ackAsyncEvent ev) .test)

/-- **A step is a move.** -/
theorem SrqShutdown.next_move {numQps : ℕ} {s s' : SrqShutdown} {l : ShutdownLabel}
    (hs : s.next numQps l = some s') : ShutdownMove s l s' := by
  cases l with
  | create ok =>
    obtain ⟨hpc, ⟨⟩⟩ := Option.ite_none_right_eq_some.mp hs
    exact .create ok hpc
  | demo =>
    obtain ⟨hpc, ⟨⟩⟩ := Option.ite_none_right_eq_some.mp hs
    exact .demo hpc
  | stop =>
    obtain ⟨hpc, ⟨⟩⟩ := Option.ite_none_right_eq_some.mp hs
    exact .stop _ hpc
  | release =>
    rw [next] at hs
    split at hs
    · rename_i o todo hpc
      obtain ⟨hfree, ⟨⟩⟩ := Option.ite_none_left_eq_some.mp hs
      exact .release o todo hpc hfree
    · cases hs
  | exit =>
    obtain ⟨hpc, ⟨⟩⟩ := Option.ite_none_right_eq_some.mp hs
    exact .exit hpc
  | test =>
    obtain ⟨hpc, ⟨⟩⟩ := Option.ite_none_right_eq_some.mp hs
    by_cases hrun : s.asyncRunning = true
    · rw [if_pos hrun]
      exact .goOn hpc hrun
    · rw [if_neg hrun]
      exact .leave _
  | get =>
    obtain ⟨hpc, ⟨⟩⟩ := Option.ite_none_right_eq_some.mp hs
    exact .get hpc
  | getRet ev => cases ev with
    | none =>
      obtain ⟨hpc, ⟨⟩⟩ := Option.ite_none_right_eq_some.mp hs
      exact .leave _
    | some ev =>
      obtain ⟨⟨hpc, hcan⟩, ⟨⟩⟩ := Option.ite_none_right_eq_some.mp hs
      exact .take ev hcan
  | switch =>
    rw [next] at hs
    split at hs
    · rename_i hpc
      cases hs
      exact .rearm hpc
    · rename_i ev _ hpc
      cases hs
      exact .print ev hpc
    · cases hs
  | ack =>
    rw [next] at hs
    split at hs
    · rename_i ev hpc
      cases hs
      exact .ack ev hpc
    · cases hs

/-! ### What the thread holds -/

namespace SrqShutdown

/-- **The invariant of every run**: nothing is released before the flag has been cleared,
the thread holds no event of an object that has been released, and on no object but the
context has it made a call too late. -/
structure Held (s : SrqShutdown) : Prop where
  flag : s.asyncRunning = true → s.main.Running
  quiet : s.main.Running → ∀ o, .released o ∉ s.history
  held : ∀ o, s.thread.element = some o → .released o ∉ s.history
  kept : ∀ o ≠ .ctx, NoLateCall o s.history

theorem Held.start (g : SrqObj → Bool) : (SrqShutdown.start g).Held where
  flag := nofun
  quiet := fun _ _ => List.not_mem_nil
  held := nofun
  kept := fun _ _ => .nil

variable {s s' : SrqShutdown}

theorem mem_starts {c : AsyncCall} {o : SrqObj} :
    .released o ∈ s.history ++ [.starts c] ↔ .released o ∈ s.history := by
  simp

theorem Held.move {l : ShutdownLabel} (h : s.Held) (hm : ShutdownMove s l s') : s'.Held := by
  cases hm with
  | create ok hpc =>
    have hquiet := h.quiet (hpc ▸ trivial)
    exact ⟨fun _ => trivial, fun _ => hquiet, fun o _ => hquiet o, h.kept⟩
  | demo hpc => exact ⟨fun _ => trivial, fun _ => h.quiet (hpc ▸ trivial), h.held, h.kept⟩
  | stop todo hpc => exact ⟨nofun, nofun, h.held, h.kept⟩
  | release o todo hpc hfree =>
    refine ⟨fun hrun => ?_, nofun, fun x hx hmem => ?_, fun x hx => (h.kept x hx).released o⟩
    · have hrunning := h.flag hrun
      rw [hpc] at hrunning
      exact hrunning
    · rcases List.mem_append.mp hmem with hmem | hmem
      · exact h.held x hx hmem
      · obtain rfl : x = o := ShutdownAct.released.inj (List.mem_singleton.mp hmem)
        exact hfree hx
  | exit hpc =>
    refine ⟨fun hrun => ?_, nofun, nofun, h.kept⟩
    have hrunning := h.flag hrun
    rw [hpc] at hrunning
    exact hrunning
  | goOn hpc hrun => exact ⟨h.flag, h.quiet, nofun, h.kept⟩
  | leave => exact ⟨h.flag, h.quiet, nofun, h.kept⟩
  | take ev hcan => exact ⟨h.flag, h.quiet, fun o ho => hcan o ho, h.kept⟩
  | print ev hpc =>
    refine ⟨h.flag, h.quiet, fun o ho => h.held o ?_, h.kept⟩
    rw [hpc]
    exact ho
  | get hpc =>
    refine ⟨h.flag, fun hrun o => mem_starts.not.mpr (h.quiet hrun o), nofun, fun o ho => ?_⟩
    exact (h.kept o ho).starts fun hon => absurd (Option.some.inj hon).symm ho
  | rearm hpc =>
    have hsrq : .released .srq ∉ s.history := h.held .srq (by rw [hpc]; rfl)
    refine ⟨h.flag, fun hrun o => mem_starts.not.mpr (h.quiet hrun o), fun o ho => ?_,
      fun o ho => ?_⟩
    · obtain rfl : SrqObj.srq = o := Option.some.inj ho
      exact mem_starts.not.mpr hsrq
    · refine (h.kept o ho).starts fun hon => ?_
      obtain rfl : SrqObj.srq = o := Option.some.inj hon
      exact hsrq
  | ack ev hpc =>
    refine ⟨h.flag, fun hrun o => mem_starts.not.mpr (h.quiet hrun o), nofun, fun o ho => ?_⟩
    exact (h.kept o ho).starts fun hon => h.held o (by rw [hpc]; exact hon)

theorem Held.of_reach {numQps numBufs : ℕ} (h : (srqShutdownLts numQps numBufs).Reach Lts.any s) :
    s.Held := by
  refine h.invariant ?_ fun a l b ha _ hs => ha.move (next_move hs)
  rintro a ⟨ok, -, rfl⟩
  exact Held.start _

/-! ### The gap -/

/-- Where the thread is behind the test the device is open, and no wait has come too late. -/
structure Clear (s : SrqShutdown) : Prop where
  opened : s.thread = .get → .released .ctx ∉ s.history
  kept : NoLateCall .ctx s.history

theorem Clear.start (g : SrqObj → Bool) : (SrqShutdown.start g).Clear := ⟨nofun, .nil⟩

theorem Clear.move {l : ShutdownLabel} (h : s.Clear) (hheld : s.Held) (hok : CloseClear s l)
    (hm : ShutdownMove s l s') : s'.Clear := by
  cases hm with
  | create ok hpc => exact ⟨fun _ => hheld.quiet (hpc ▸ trivial) .ctx, h.kept⟩
  | demo hpc | stop todo hpc => exact ⟨h.opened, h.kept⟩
  | release o todo hpc hfree =>
    refine ⟨fun hget hmem => ?_, h.kept.released o⟩
    rcases List.mem_append.mp hmem with hmem | hmem
    · exact h.opened hget hmem
    · -- this is the step the condition is about
      obtain rfl : SrqObj.ctx = o := ShutdownAct.released.inj (List.mem_singleton.mp hmem)
      exact hok rfl todo hpc hget
  | exit hpc | leave | take ev hcan | print ev hpc => exact ⟨nofun, h.kept⟩
  | goOn hpc hrun => exact ⟨fun _ => hheld.quiet (hheld.flag hrun) .ctx, h.kept⟩
  | get hpc => exact ⟨nofun, h.kept.starts fun _ => h.opened hpc⟩
  | rearm hpc => exact ⟨nofun, h.kept.starts nofun⟩
  | ack ev hpc =>
    refine ⟨nofun, h.kept.starts fun hon => hheld.held .ctx ?_⟩
    rw [hpc]
    exact hon

theorem Clear.of_reach {numQps numBufs : ℕ}
    (h : (srqShutdownLts numQps numBufs).Reach CloseClear s) :
    s.Clear := by
  refine h.invariant_of (I := Clear) (fun _ ha => Held.of_reach (ha.mono fun _ _ _ => trivial)) ?_
    fun a l b hheld ha hok hs => ha.move hheld hok (next_move hs)
  rintro a ⟨ok, -, rfl⟩
  exact Clear.start _

end SrqShutdown

section Shutdown

variable {numQps numBufs : ℕ} {s s' : SrqShutdown}

/-- **The gap is open**: where the device is closed in it, the next step of the thread is a
call on a context that is gone. -/
theorem exists_late_get {l : ShutdownLabel} (hbad : ¬CloseClear s l)
    (hs : (srqShutdownLts numQps numBufs).step s l s') :
    ∃ t, (srqShutdownLts numQps numBufs).Path Lts.any s' t ∧ ¬NoLateCall .ctx t.history := by
  simp only [CloseClear, not_forall, ne_eq, not_not] at hbad
  obtain ⟨rfl, todo, hpc, hget⟩ := hbad
  have hs' : s' = { s with main := .cleanup todo, history := s.history ++ [.released .ctx] } := by
    have hnext : s.next numQps .release =
        some { s with main := .cleanup todo, history := s.history ++ [.released .ctx] } := by
      simp only [SrqShutdown.next, hpc, hget]
      rfl
    exact (Option.some.inj (hnext.symm.trans hs)).symm
  have hget' : s'.thread = .get := hs' ▸ hget
  have hclosed : .released .ctx ∈ s'.history := hs' ▸ List.mem_concat_self
  refine ⟨s'.call .getAsyncEvent .blocked, Lts.Path.single (l := .get) trivial ?_,
    not_noLateCall rfl hclosed⟩
  exact if_pos hget'

/-- **The shutdown order**: in every run in which the device is not closed while the event
thread is between the test of the flag and its wait, the thread starts no call on anything
`cleanup` has released. Whatever the run, it starts none on anything but the context; and
where the device is closed in the gap, the wait on the closed context can be next. -/
theorem srq_shutdown (numQps numBufs : ℕ) :
    (∀ s, (srqShutdownLts numQps numBufs).Reach CloseClear s → ∀ o, NoLateCall o s.history) ∧
    (∀ s, (srqShutdownLts numQps numBufs).Reach Lts.any s → ∀ o ≠ .ctx, NoLateCall o s.history) ∧
    ∀ s l s', ¬CloseClear s l → (srqShutdownLts numQps numBufs).step s l s' →
      ∃ t, (srqShutdownLts numQps numBufs).Path Lts.any s' t ∧ ¬NoLateCall .ctx t.history := by
  refine ⟨fun s hs o => ?_, fun s hs => (SrqShutdown.Held.of_reach hs).kept,
    fun s l s' hbad hs => exists_late_get hbad hs⟩
  rcases eq_or_ne o .ctx with rfl | ho
  · exact (SrqShutdown.Clear.of_reach hs).kept
  · exact (SrqShutdown.Held.of_reach (hs.mono fun _ _ _ => trivial)).kept o ho

/-- **A wait on a closed device**: the thread has tested the flag and is held up; `main` runs
to the end of its teardown; the thread goes on. -/
theorem srq_shutdown_late : ¬∀ s, (srqShutdownLts 4 32).Reach Lts.any s →
    NoLateCall .ctx s.history ∧ NoLateCall .srq s.history := by
  intro hall
  have hrun : (Lts.exec (SrqShutdown.next 4) Lts.any
      (.start (srqInitResources 4 32 fun _ => true).g)
      ([.create true, .test, .demo, .stop] ++ List.replicate 14 .release)).map
        (fun s => (s.thread, decide (.released .ctx ∈ s.history))) = some (.get, true) := by
    decide +kernel
  obtain ⟨s, hs, hview⟩ := Option.map_eq_some_iff.mp hrun
  obtain ⟨hget, hclosed⟩ := Prod.mk.inj hview
  have hinit : (srqShutdownLts 4 32).init (.start (srqInitResources 4 32 fun _ => true).g) :=
    ⟨fun _ => true, by decide +kernel, rfl⟩
  have hreach : (srqShutdownLts 4 32).Reach Lts.any s := ⟨_, hinit, Lts.path_of_exec hs⟩
  have hlate := hall (s.call .getAsyncEvent .blocked)
    (hreach.tail (l := .get) trivial (if_pos hget))
  exact not_noLateCall rfl (of_decide_eq_true hclosed) hlate.1

end Shutdown

end RdmaBook
