import RdmaBook.Cm.ClientLifecycle
import RdmaBook.Cm.Contexts

/-!
# The connection context of cm_client

The client has one identifier, and its context is used like those of the server
(`RdmaBook.Cm.Contexts`). What has to be known is how far it has come: as long as the loop
goes on, the events it has fetched are an initial part of their order, the route has been
asked for behind the first and the connection behind the second
(`RdmaBook.CmClient.Progress`). So ESTABLISHED and DISCONNECTED find the context of the
connection that has been asked for.
-/

namespace RdmaBook

/-! ### The client and its memory -/

/-- **The events librdmacm delivers** to the client: those of its identifier in their order,
an error in the place of any. -/
def CmClient.InOrder (s : CmClient) (ev : CmEventType) : Prop := InCmOrder clientOrder s.events ev

instance (s : CmClient) : DecidablePred s.InOrder :=
  fun ev => inferInstanceAs (Decidable (InCmOrder clientOrder s.events ev))

/-- A step of the client with the events in their order. -/
def CmClient.nextInOrder (s : CmClient) : ClientLabel → Option CmClient
  | .getEvent (some ev) =>
    if s.pc = .loop ∧ s.stop = false ∧ s.InOrder ev then some (s.dispatch ev) else none
  | l => s.next l

/-- The identifier whose context a place uses: those behind `calloc`, and up to the release
of the context. -/
def ClientPc.ctxOf : ClientPc → Option Unit
  | .route .calloc => none
  | .route _ => some ()
  | .established _ => some ()
  | .disconnected _ => some ()
  | _ => none

/-- Every call that reads the context is among them. -/
theorem ClientPc.ctxOf_of_reads {pc : ClientPc} (h : CmMemory.ctx ∈ pc.reads) :
    pc.ctxOf = some () := by
  cases pc with
  | route p => cases p with
    | calloc => cases h
    | _ => rfl
  | established p => rfl
  | disconnected p => rfl
  | resolveAddr | resolveRoute | destroyId => simp [ClientPc.reads] at h
  | _ => cases h

/-- **What a step of the client does to the memory**; `a` is what `calloc` returns. -/
def CmClient.memStep (s : CmClient) (m : BlockMem Unit ℕ) (l : ClientLabel) (a : ℕ) :
    Option (BlockMem Unit ℕ) :=
  match s.pc, l with
  | .route .calloc, .call true => m.alloc () a
  | .route .errFree, .cpu => some m.free
  | .disconnected .freeCtx, .cpu => some m.free
  | .loop, .getEvent (some .established) => some (m.load ())
  | .loop, .getEvent (some .disconnected) => some (m.load ())
  | _, _ => some m

/-- What a step of the client does to `g_ctx`, which no call reads. -/
def CmClient.gCtxStep (s : CmClient) (gCtx : Option ℕ) (l : ClientLabel) (a : ℕ) : Option ℕ :=
  match s.pc, l with
  | .route .calloc, .call true => some a
  | _, _ => gCtx

/-- The client and its memory. -/
structure CmClientCtx where
  client : CmClient
  mem : BlockMem Unit ℕ
  gCtx : Option ℕ

namespace CmClientCtx

/-- Before the first call of `main`. -/
def start : CmClientCtx := ⟨CmClient.start, .empty, none⟩

/-- **A step of the client with its memory.** -/
def next (st : CmClientCtx) (l : ClientLabel × ℕ) : Option CmClientCtx :=
  (st.client.nextInOrder l.1).bind fun client =>
    (st.client.memStep st.mem l.1 l.2).map fun mem =>
      ⟨client, mem, st.client.gCtxStep st.gCtx l.1 l.2⟩

/-- **What the client owes.** -/
structure Safe (st : CmClientCtx) : Prop where
  found : st.client.pc.ctxOf = some () → st.mem.Holds ()
  once : ∀ o, st.client.log.count (.release o) ≤ 1

end CmClientCtx

/-- **The client with its memory**, with any events in their order and any results of its
calls. -/
def cmClientCtxLts : Lts CmClientCtx (ClientLabel × ℕ) :=
  Lts.ofFun (· = CmClientCtx.start) CmClientCtx.next

/-! ### The runs of the client -/

/-- Where `main` gives up it obtains and releases nothing. -/
theorem ClientMove.log_of_returned {s s' : CmClient} (hm : ClientMove s s')
    (hret : s'.pc = .returned) :
    s'.log = s.log := by
  cases hm with
  | giveUp => rfl
  | unexpected ev hpc => cases hpc.symm.trans hret
  | _ => cases hret

namespace CmClient

variable {s s' : CmClient} {l : ClientLabel}

/-- An event that is none of the four stops the loop. -/
theorem dispatch_error {ev : CmEventType} (h : ev ∉ clientOrder) :
    s.dispatch ev = { s with events := s.events ++ [ev], stop := true } := by
  cases ev with
  | addrResolved | routeResolved | established | disconnected => exact absurd (by decide) h
  | _ => rfl

/-- Only the loop takes an event. -/
theorem next_events (hs : s.next l = some s') (hl : ∀ ev, l ≠ .getEvent (some ev)) :
    s'.events = s.events := by
  by_cases hpc : s.pc = .loop
  · simp only [next, hpc] at hs
    cases l with
    | cpu =>
      obtain ⟨-, ⟨⟩⟩ := Option.ite_none_right_eq_some.mp hs
      rfl
    | getEvent ev => cases ev with
      | none =>
        obtain ⟨-, ⟨⟩⟩ := Option.ite_none_left_eq_some.mp hs
        rfl
      | some ev => exact absurd rfl (hl ev)
    | _ => cases hs
  · cases next_move hs with
    | resolved hloop | routed hloop | greet hloop | drop hloop | unexpected _ hloop =>
      exact absurd hloop hpc
    | _ => rfl

/-- **How far the client has come**, at each place: the events that have been fetched, and
what has been asked for. -/
def Progress (s : CmClient) : ClientPc → Prop
  | .createChannel | .createId | .resolveAddr => s.events = []
  | .loop => s.stop = false → s.events <+: clientOrder ∧
      (s.events.length = 1 → s.routeAsked = true) ∧
      (2 ≤ s.events.length → s.connectAsked = true)
  | .resolveRoute => s.events = [.addrResolved]
  | .route _ => s.events = [.addrResolved, .routeResolved]
  | .established _ => s.events = [.addrResolved, .routeResolved, .established] ∧
      s.connectAsked = true
  | _ => True

/-- **What is due can be delivered.** -/
theorem canDeliver_of_inOrder {ev : CmEventType} (h : s.Progress .loop) (hstop : s.stop = false)
    (hin : s.InOrder ev) : s.CanDeliver ev := by
  obtain ⟨hpre, hroute, hconnect⟩ := h hstop
  by_cases hmem : ev ∈ clientOrder
  · have hnext := hin.concat hpre hmem
    have hnew : ev ∉ s.events := by
      have hnodup : (s.events ++ [ev]).Nodup := hnext.sublist.nodup (by decide)
      exact fun hold => (List.nodup_append.mp hnodup).2.2 _ hold _ List.mem_cons_self rfl
    have hlen := hin.length_eq (by decide) hmem
    simp only [clientOrder, List.mem_cons, List.not_mem_nil, or_false] at hmem
    rcases hmem with rfl | rfl | rfl | rfl
    · exact hnew
    · exact ⟨hroute hlen, hnew⟩
    · exact ⟨hconnect (by rw [hlen]; decide), hnew⟩
    · exact hconnect (by rw [hlen]; decide)
  · cases ev with
    | addrResolved | routeResolved | established | disconnected => exact absurd (by decide) hmem
    | _ => trivial

theorem progress_loop {es : List CmEventType} (hevents : s.events = es) (hpre : es <+: clientOrder)
    (hroute : es.length = 1 → s.routeAsked = true)
    (hconnect : 2 ≤ es.length → s.connectAsked = true) :
    s.Progress .loop := by
  intro _
  rw [hevents]
  exact ⟨hpre, hroute, hconnect⟩

theorem progress_stopped (hstop : s.stop = true) : s.Progress .loop :=
  fun hgo => absurd (hgo.symm.trans hstop) Bool.false_ne_true

/-- **The client gets on.** -/
theorem Progress.next (h : s.Progress s.pc) (hs : s.nextInOrder l = some s') :
    s'.Progress s'.pc := by
  have hcall : (∀ ev, l ≠ .getEvent (some ev)) → s.next l = some s' → s'.Progress s'.pc := by
    intro hl hs
    by_cases hroute : s.pc = .resolveRoute
    · rw [hroute] at h
      simp only [CmClient.next, hroute] at hs
      cases l with
      | call ok =>
        obtain rfl := Option.some.inj hs
        cases ok with
        | true =>
          exact progress_loop h (by decide) (fun _ => rfl) fun hlen => absurd hlen (by decide)
        | false => exact progress_stopped rfl
      | _ => cases hs
    have hevents := next_events hs hl
    have hnot : ∀ ev, s.events ++ [ev] ≠ s.events :=
      fun ev heq => by simpa using congrArg List.length heq
    cases next_move hs with
    | openChannel hpc | openId hpc =>
      rw [hpc] at h
      exact h
    | enter hpc =>
      rw [hpc] at h
      exact progress_loop h List.nil_prefix (fun hlen => absurd hlen (by decide))
        fun hlen => absurd hlen (by decide)
    | giveUp | leave | destroyId | destroyChannel | release => trivial
    | resolved | routed | greet | drop | unexpected => exact absurd hevents (hnot _)
    | askRoute ok asked hpc => exact absurd hpc hroute
    | gain p p' k hpc | turn p p' hpc | giveBack p p' k hpc =>
      rw [hpc] at h
      exact h
    | refused | noMemory | released => exact progress_stopped rfl
    | connecting hpc =>
      rw [hpc] at h
      exact progress_loop h (by decide) (fun hlen => absurd hlen (by decide)) fun _ => rfl
    | wait p p' hpc =>
      rw [hpc] at h
      exact h
    | greeted p ok hpc =>
      rw [hpc] at h
      exact progress_loop h.1 (by decide) (fun hlen => absurd hlen (by decide)) fun _ => h.2
  cases l with
  | getEvent ev => cases ev with
    | none => exact hcall (by rintro ev ⟨⟩) hs
    | some ev =>
      obtain ⟨⟨hpc, hstop, hin⟩, ⟨⟩⟩ := Option.ite_none_right_eq_some.mp hs
      rw [hpc] at h
      obtain ⟨hpre, hroute, hconnect⟩ := h hstop
      by_cases hmem : ev ∈ clientOrder
      · have hnext := hin.concat hpre hmem
        have hlen := hin.length_eq (by decide) hmem
        have htake := List.prefix_iff_eq_take.mp hnext
        rw [List.length_append, hlen, List.length_singleton] at htake
        simp only [clientOrder, List.mem_cons, List.not_mem_nil, or_false] at hmem
        rcases hmem with rfl | rfl | rfl | rfl
        · exact htake
        · exact htake
        · exact ⟨htake, hconnect (by rw [hlen]; decide)⟩
        · trivial
      · rw [dispatch_error hmem]
        simp only [hpc]
        exact progress_stopped rfl
  | cpu | call | poll => exact hcall (by rintro ev ⟨⟩) hs

/-- The context is alive. -/
def Owns (s : CmClient) : Unit → Prop := LogOwns (fun _ => ClientObj.conn .ctx) s.log

section Steps

variable {m m' : BlockMem Unit ℕ} {a : ℕ}

/-- What a step of the client does to the memory, as a step of a program with a log. -/
def CtxStep (s s' : CmClient) (m m' : BlockMem Unit ℕ) : Prop :=
  BlockStep m s.Owns s.pc.ctxOf m' s'.Owns s'.pc.ctxOf

theorem routeCall_ctxStep {ok : Bool} {p : RoutePc} (hpc : s.pc = .route p)
    (hs : s.routeCall ok p = some s') (hm : s.memStep m (.call ok) a = some m') :
    CtxStep s s' m m' := by
  cases p with
  | calloc =>
    obtain rfl := Option.some.inj hs
    simp only [memStep, hpc] at hm
    cases ok with
    | true => exact .of_acquire (fun _ _ _ => rfl) hm
    | false =>
      cases hm
      exact .of_quiet nofun
  | allocPd | createCq | regRecvMr | regSendMr | createQp =>
    simp only [memStep, hpc] at hm
    obtain rfl := Option.some.inj hs
    obtain rfl := Option.some.inj hm
    cases ok
    · exact .of_quiet fun j hj => hpc ▸ hj
    · exact .of_act nofun fun j hj => hpc ▸ hj
  | postReceive =>
    simp only [memStep, hpc] at hm
    obtain rfl := Option.some.inj hs
    obtain rfl := Option.some.inj hm
    refine .of_quiet fun j hj => ?_
    cases ok <;> exact hpc ▸ hj
  | connect =>
    simp only [memStep, hpc] at hm
    obtain rfl := Option.some.inj hs
    obtain rfl := Option.some.inj hm
    cases ok
    · exact .of_quiet fun j hj => hpc ▸ hj
    · exact .of_quiet nofun
  | errQp | errSendMr | errRecvMr | errCq | errPd | errFree => cases hs

theorem routeErr_ctxStep {p : RoutePc} (hpc : s.pc = .route p) (hs : s.routeErr p = some s')
    (hm : s.memStep m .cpu a = some m') : CtxStep s s' m m' := by
  cases p with
  | errFree =>
    simp only [memStep, hpc] at hm
    obtain rfl := Option.some.inj hs
    obtain rfl := Option.some.inj hm
    exact .of_release (congrArg ClientPc.ctxOf hpc)
  | errQp | errSendMr | errRecvMr | errCq | errPd =>
    simp only [memStep, hpc] at hm
    obtain rfl := Option.some.inj hs
    obtain rfl := Option.some.inj hm
    exact .of_act nofun fun j hj => hpc ▸ hj
  | calloc | allocPd | createCq | regRecvMr | regSendMr | createQp | postReceive | connect =>
      cases hs

theorem disconnectedCall_ctxStep {p : ReleasePc} (hpc : s.pc = .disconnected p)
    (hm : s.memStep m .cpu a = some m') : CtxStep s (s.disconnectedCall p) m m' := by
  cases p with
  | freeCtx =>
    simp only [memStep, hpc] at hm
    obtain rfl := Option.some.inj hm
    exact .of_release (congrArg ClientPc.ctxOf hpc)
  | destroyQp | deregSend | deregRecv | destroyCq | deallocPd =>
    simp only [memStep, hpc] at hm
    obtain rfl := Option.some.inj hm
    exact .of_act nofun fun j hj => hpc ▸ hj

theorem dispatch_ctxStep {ev : CmEventType} (hctl : ClientControl s) (hr : ClientStacked s)
    (hpc : s.pc = .loop) (hstop : s.stop = false) (hcan : s.CanDeliver ev)
    (hm : s.memStep m (.getEvent (some ev)) a = some m') : CtxStep s (s.dispatch ev) m m' := by
  -- where the connection has been asked for, the context is there
  have howns : s.connectAsked = true → s.Owns () := by
    intro hasked
    have hlevel : s.level = 8 := by
      rw [level, hpc]
      exact held_open hasked (hctl.at_place hpc hstop)
    refine (hr.live _).mpr ?_
    rw [hlevel]
    decide
  simp only [memStep, hpc] at hm
  cases ev with
  | established =>
    obtain rfl := Option.some.inj hm
    exact .load () _ (howns hcan.1) fun j hj => hj
  | disconnected =>
    obtain rfl := Option.some.inj hm
    exact .load () _ (howns hcan) fun j hj => hj
  | addrResolved | routeResolved =>
    obtain rfl := Option.some.inj hm
    exact .of_quiet (by rintro j ⟨⟩)
  | _ =>
    obtain rfl := Option.some.inj hm
    exact .of_quiet fun j hj => hj

/-- Outside of the handlers of the connection nothing is done to the memory. -/
theorem memStep_of_main (hroute : ∀ p, s.pc ≠ .route p) (hdisc : ∀ p, s.pc ≠ .disconnected p)
    (hl : ∀ ev, l ≠ .getEvent (some ev)) : s.memStep m l a = some m := by
  cases hp : s.pc with
  | route p => exact absurd hp (hroute p)
  | disconnected p => exact absurd hp (hdisc p)
  | loop => cases l with
    | getEvent ev => cases ev with
      | none => simp only [memStep, hp]
      | some ev => exact absurd rfl (hl ev)
    | _ => simp only [memStep, hp]
  | _ => simp only [memStep, hp]

/-- No context is obtained or released there. -/
theorem main_ctxStep (hroute : ∀ p, s.pc ≠ .route p) (hdisc : ∀ p, s.pc ≠ .disconnected p)
    (hl : ∀ ev, l ≠ .getEvent (some ev)) (hs : s.next l = some s')
    (hm : s.memStep m l a = some m') :
    CtxStep s s' m m' := by
  obtain rfl := Option.some.inj ((memStep_of_main hroute hdisc hl).symm.trans hm)
  have hevents := next_events hs hl
  have hnone : ∀ ev, s.events ++ [ev] ≠ s.events :=
    fun ev heq => by simpa using congrArg List.length heq
  cases next_move hs with
  | openChannel | openId | destroyId | destroyChannel =>
    exact .of_act (by rintro j ⟨⟩) (by rintro j ⟨⟩)
  | enter | giveUp | leave | askRoute | greeted => exact .of_quiet (by rintro j ⟨⟩)
  | resolved | routed | greet | drop | unexpected => exact absurd hevents (hnone _)
  | wait p p' hpc => exact .of_quiet fun j hj => hpc ▸ hj
  | gain p _ _ hpc | turn p _ hpc | giveBack p _ _ hpc => exact absurd hpc (hroute p)
  | refused hpc | noMemory hpc | connecting hpc => exact absurd hpc (hroute _)
  | release p _ _ hpc => exact absurd hpc (hdisc p)
  | released hpc => exact absurd hpc (hdisc _)

/-- **Every call of the client is one of the four steps.** -/
theorem next_ctxStep (hl : ∀ ev, l ≠ .getEvent (some ev)) (hs : s.next l = some s')
    (hm : s.memStep m l a = some m') : CtxStep s s' m m' := by
  by_cases hroute : ∃ p, s.pc = .route p
  · obtain ⟨p, hpc⟩ := hroute
    cases l with
    | call ok => exact routeCall_ctxStep hpc (by simpa only [next, hpc] using hs) hm
    | cpu => exact routeErr_ctxStep hpc (by simpa only [next, hpc] using hs) hm
    | _ => simp only [next, hpc, reduceCtorEq] at hs
  · by_cases hdisc : ∃ p, s.pc = .disconnected p
    · obtain ⟨p, hpc⟩ := hdisc
      cases l with
      | cpu =>
        simp only [next, hpc] at hs
        exact Option.some.inj hs ▸ disconnectedCall_ctxStep hpc hm
      | _ => simp only [next, hpc, reduceCtorEq] at hs
    · exact main_ctxStep (not_exists.mp hroute) (not_exists.mp hdisc) hl hs hm

end Steps

/-- Where the loop has ended, the identifier and the channel are still there. -/
theorem live_of_destroyId {o : ClientObj} (hr : ClientStacked s) (hpc : s.pc = .destroyId)
    (ho : o.rank < 2) : ResLog.Live s.log o := by
  refine (hr.live o).mpr (ho.trans_le ?_)
  rw [level, hpc]
  change 2 ≤ s.held
  unfold held
  split <;> decide

/-- **Nothing is obtained or released twice**, up to the end of any run. -/
theorem log_nodup (h : cmClientLts.Reach Lts.any s) : s.log.Nodup := by
  have hlast : ∀ (log : List (ResAct ClientObj)) (o : ClientObj), log.Nodup →
      ResAct.release o ∉ log → (log ++ [ResAct.release o]).Nodup := fun log o hlog ho =>
    List.nodup_append_comm.mp (List.nodup_cons.mpr ⟨ho, hlog⟩)
  refine h.invariant_of (I := fun a => a.log.Nodup) (fun _ => CmClient.Sound.of_reach) ?_ ?_
  · rintro a rfl
    exact List.nodup_nil
  · intro a l b hsound hnodup _ hs
    have hnext : a.next l = some b := hs
    have hm := next_move hnext
    have hret : a.pc ≠ .returned := by
      intro hpc
      simp only [CmClient.next, hpc, reduceCtorEq] at hnext
    have hdone : a.pc ≠ .done := by
      intro hpc
      simp only [CmClient.next, hpc, reduceCtorEq] at hnext
    by_cases hret' : b.pc = .returned
    · rw [hm.log_of_returned hret']
      exact hnodup
    by_cases hdone' : b.pc = .done
    · obtain ⟨hpc, rfl⟩ := hm.eq_of_done hdone'
      obtain ⟨t, -, hr, hpc', rfl⟩ := hsound.closing hpc
      have hchannel := (live_of_destroyId (o := .channel) hr hpc' (by decide)).2
      refine hlast _ _ hnodup fun hmem => ?_
      rcases List.mem_append.mp hmem with hmem | hmem
      · exact hchannel hmem
      · cases List.mem_singleton.mp hmem
    by_cases hid' : b.pc = .destroyChannel
    · obtain ⟨hpc, rfl⟩ := hm.eq_of_destroyChannel hid'
      obtain ⟨-, hr⟩ := hsound.running hret (by rw [hpc]; decide) hdone
      exact hlast _ _ hnodup (live_of_destroyId (o := .conn .id) hr hpc (by decide)).2
    · have hid : a.pc ≠ .destroyChannel := by
        intro hpc
        cases l with
        | cpu =>
          simp only [CmClient.next, hpc] at hnext
          exact hdone' (Option.some.inj hnext ▸ rfl)
        | _ => simp only [CmClient.next, hpc, reduceCtorEq] at hnext
      obtain ⟨hc, hr⟩ := hsound.running hret hid hdone
      exact (hr.move hc hm hret' hid' hdone').orderly.nodup

end CmClient

namespace CmClientCtx

variable {st st' : CmClientCtx}

/-- **The invariant of the client with its memory.** -/
structure Kept (st : CmClientCtx) : Prop where
  reach : cmClientLts.Reach Lts.any st.client
  progress : st.client.Progress st.client.pc
  block : BlockInv st.mem st.client.Owns st.client.pc.ctxOf

theorem Kept.start : Kept .start where
  reach := Lts.Reach.of_init rfl
  progress := rfl
  block := .start

theorem Kept.next {l : ClientLabel × ℕ} (h : st.Kept) (hs : st.next l = some st') : st'.Kept := by
  obtain ⟨client, hclient, hrest⟩ := Option.bind_eq_some_iff.mp hs
  obtain ⟨mem, hmem, rfl⟩ := Option.map_eq_some_iff.mp hrest
  obtain ⟨l, a⟩ := l
  have hprogress := CmClient.Progress.next h.progress hclient
  have hcall : (∀ ev, l ≠ .getEvent (some ev)) → st.client.next l = some client →
      Kept ⟨client, mem, st.client.gCtxStep st.gCtx l a⟩ := fun hl hs =>
    ⟨h.reach.tail (l := l) trivial hs, hprogress, h.block.step (CmClient.next_ctxStep hl hs hmem)⟩
  cases l with
  | getEvent ev => cases ev with
    | none => exact hcall (by rintro ev ⟨⟩) hclient
    | some ev =>
      obtain ⟨⟨hpc, hstop, hin⟩, ⟨⟩⟩ := Option.ite_none_right_eq_some.mp hclient
      have hcan := CmClient.canDeliver_of_inOrder (hpc ▸ h.progress) hstop hin
      obtain ⟨hc, hr⟩ := (CmClient.Sound.of_reach h.reach).running (by rw [hpc]; nofun)
        (by rw [hpc]; nofun) (by rw [hpc]; nofun)
      refine ⟨h.reach.tail (l := .getEvent (some ev)) trivial ?_, hprogress,
        h.block.step (CmClient.dispatch_ctxStep hc hr hpc hstop hcan hmem)⟩
      exact CmClient.next_getEvent_iff.mpr ⟨hpc, hstop, hcan, rfl⟩
  | cpu | call | poll => exact hcall (by rintro ev ⟨⟩) hclient

theorem Kept.of_reach (h : cmClientCtxLts.Reach Lts.any st) : st.Kept := by
  refine h.invariant ?_ fun a l b ha _ hs => ha.next hs
  rintro a rfl
  exact Kept.start

theorem Kept.safe (h : st.Kept) : st.Safe where
  found := h.block.holds ()
  once := fun _ => List.nodup_iff_count_le_one.mp (CmClient.log_nodup h.reach) _

end CmClientCtx

/-- **Contexts are alive when they are used**, in both programs, with the events of every
identifier in their order and any results of the calls: what a handler finds in its variable
and in `id->context` is the context that has been allocated for its identifier, and it has
not been freed; and nothing is destroyed twice. -/
theorem cm_contexts_live :
    (∀ st, cmServerCtxLts.Reach Lts.any st → st.Safe) ∧
      ∀ st, cmClientCtxLts.Reach Lts.any st → st.Safe :=
  ⟨fun _ h => (CmServerCtx.Kept.of_reach h).safe, fun _ h => (CmClientCtx.Kept.of_reach h).safe⟩

/-- Two connections are accepted, their contexts at two addresses, and the second is
established. -/
def secondEstablished : List (CmLabel × ℕ) :=
  (List.replicate 4 (CmLabel.call true) ++ cmRequest 0).map (·, 64) ++
    (cmRequest 1 ++ [CmLabel.getEvent (some ⟨.established, .conn 1⟩)]).map (·, 128)

/-- The handler finds the context of its connection. -/
theorem cm_contexts_live_second : ∃ st, cmServerCtxLts.Reach Lts.any st ∧
    (st.server.conns = 2 ∧ st.server.pc = .established .pollRecv 1) ∧ st.mem.Holds 1 := by
  have hrun : (Lts.exec CmServerCtx.next Lts.any CmServerCtx.start secondEstablished).map
      (fun st => (st.server.conns, st.server.pc)) = some (2, .established .pollRecv 1) := by
    decide +kernel
  obtain ⟨st, hexec, hview⟩ := Option.map_eq_some_iff.mp hrun
  obtain ⟨hconns, hpc⟩ := Prod.mk.inj hview
  have hreach : cmServerCtxLts.Reach Lts.any st := ⟨_, rfl, Lts.path_of_exec hexec⟩
  exact ⟨st, hreach, ⟨hconns, hpc⟩, (cm_contexts_live.1 st hreach).found 1 (by rw [hpc]; rfl)⟩

end RdmaBook
