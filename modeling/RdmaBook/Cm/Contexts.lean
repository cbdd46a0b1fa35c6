import RdmaBook.Cm.Events
import RdmaBook.Cm.Lifecycle
import RdmaBook.Lib.Ownership

/-!
# The connection contexts of cm_server

The programs of the connection manager chapter allocate a context when a connection begins and keep
a pointer to it in `id->context`, from where every later handler takes it. A handler that fails
frees the context and leaves the pointer as it is, so from then on the identifier leads to memory
that may be anything, also the context of another connection. No handler ever looks: a handler that
fails makes the loop stop, and so does the one that frees the context in the end.

Here the memory is added to `RdmaBook.CmServer`: `calloc` returns any address at which there
is no context, one that has been freed as well as a new one. The events of an identifier come
in the order of the connection manager, an error in the place of any of them, and those of
different identifiers in any order (`RdmaBook.CmServer.InOrder`). The log of the program tells
which contexts are alive, and `RdmaBook.CmServerCtx.Kept` that the pointers agree with it. The
client is treated in `RdmaBook.Cm.ClientContexts`.
-/

namespace RdmaBook

/-! ### The order of the events -/

/-- The order of the events of a connection, on the side of the server. -/
def serverOrder : List CmEventType := [.connectRequest, .established, .disconnected]

/-- The order of the events of the identifier of the client. -/
def clientOrder : List CmEventType := [.addrResolved, .routeResolved, .established, .disconnected]

/-- The event can be the next of its identifier: it is the one that is due, or it stands in
its place. -/
def InCmOrder (order before : List CmEventType) (type : CmEventType) : Prop :=
  order[before.length]? = some type ∨ type ∉ order

instance (order before : List CmEventType) : DecidablePred (InCmOrder order before) :=
  fun type => inferInstanceAs (Decidable (order[before.length]? = some type ∨ type ∉ order))

/-- Where the events have come in the order, an event that is due carries it on. -/
theorem InCmOrder.concat {order before : List CmEventType} {type : CmEventType}
    (h : InCmOrder order before type) (hbefore : before <+: order) (hmem : type ∈ order) :
    before ++ [type] <+: order := by
  have hdue : order[before.length]? = some type := h.resolve_right fun hnot => hnot hmem
  obtain ⟨rest, rfl⟩ := hbefore
  rw [List.getElem?_append_right le_rfl, Nat.sub_self] at hdue
  obtain ⟨rest', rfl⟩ : ∃ rest', rest = type :: rest' := by
    cases rest with
    | nil => cases hdue
    | cons x rest' => exact ⟨rest', congrArg (· :: rest') (Option.some.inj hdue)⟩
  exact ⟨rest', by simp⟩

/-- The place of an event that is due is the number of those before it. -/
theorem InCmOrder.length_eq {order before : List CmEventType} {type : CmEventType}
    (h : InCmOrder order before type) (hnodup : order.Nodup) (hmem : type ∈ order) :
    before.length = order.idxOf type := by
  have hdue : order[before.length]? = some type := h.resolve_right fun hnot => hnot hmem
  obtain ⟨hlt, rfl⟩ := List.getElem?_eq_some_iff.mp hdue
  exact (hnodup.idxOf_getElem _ hlt).symm

/-! ### The server -/

/-- The events that have been fetched of an identifier. -/
def CmServer.seen (s : CmServer) (id : CmId) : List CmEventType :=
  (s.events.filter (fun ev => ev.id = id)).map CmEvent.type

/-- **The events librdmacm delivers**: those of a connection in their order, an error in the
place of any; for the listener, errors only. Connections are numbered in the order of their
requests. -/
def CmServer.InOrder (s : CmServer) (ev : CmEvent) : Prop :=
  match ev.id with
  | .listener => ev.type ∉ serverOrder
  | .conn c => InCmOrder serverOrder (s.seen (.conn c)) ev.type ∧
      (ev.type = .connectRequest → c = s.conns)

instance (s : CmServer) : DecidablePred s.InOrder
  | ⟨type, .listener⟩ => inferInstanceAs (Decidable (type ∉ serverOrder))
  | ⟨type, .conn c⟩ => inferInstanceAs (Decidable (InCmOrder serverOrder (s.seen (.conn c)) type ∧
      (type = .connectRequest → c = s.conns)))

/-- A step of the server with the events in their order. -/
def CmServer.nextInOrder (s : CmServer) : CmLabel → Option CmServer
  | .getEvent (some ev) =>
    if s.pc = .loop ∧ s.stop = false ∧ s.InOrder ev then some (s.dispatch ev) else none
  | l => s.next l

/-- The connection whose context a place uses, by the variable `ctx` or by `id->context`:
those behind `calloc`, and up to the release of the context. -/
def CmServerPc.ctxOf : CmServerPc → Option ℕ
  | .connect .calloc _ => none
  | .connect _ c => some c
  | .established _ c => some c
  | .disconnect .destroyId _ => none
  | .disconnect _ c => some c
  | _ => none

/-- Every call that reads the context is among them. -/
theorem CmServerPc.ctxOf_of_reads {pc : CmServerPc} (h : CmMemory.ctx ∈ pc.reads) :
    ∃ c, pc.ctxOf = some c := by
  cases pc with
  | connect p c => cases p with
    | calloc => cases h
    | _ => exact ⟨c, rfl⟩
  | established p c => exact ⟨c, rfl⟩
  | disconnect p c => cases p with
    | destroyId => simp [CmServerPc.reads, DisconnectPc.reads] at h
    | _ => exact ⟨c, rfl⟩
  | bindAddr | listen | destroyListener => simp [CmServerPc.reads] at h
  | _ => cases h

/-- **What a step of the server does to the memory**; `a` is what `calloc` returns. -/
def CmServer.memStep (s : CmServer) (m : BlockMem ℕ ℕ) (l : CmLabel) (a : ℕ) :
    Option (BlockMem ℕ ℕ) :=
  match s.pc, l with
  -- `ctx = calloc(1, sizeof(*ctx)); id->context = ctx;`
  | .connect .calloc c, .call true => m.alloc c a
  | .connect .errFreeCtx _, .cpu => some m.free
  | .disconnect .freeCtx _, .cpu => some m.free
  -- `ctx = id->context` at the head of the handlers
  | .loop, .getEvent (some ⟨.established, .conn c⟩) => some (m.load c)
  | .loop, .getEvent (some ⟨.disconnected, .conn c⟩) => some (m.load c)
  | _, _ => some m

/-- The server and its memory. -/
structure CmServerCtx where
  server : CmServer
  mem : BlockMem ℕ ℕ

namespace CmServerCtx

/-- Before the first call of `main`. -/
def start : CmServerCtx := ⟨CmServer.start, .empty⟩

/-- **A step of the server with its memory.** -/
def next (st : CmServerCtx) (l : CmLabel × ℕ) : Option CmServerCtx :=
  (st.server.nextInOrder l.1).bind fun server =>
    (st.server.memStep st.mem l.1 l.2).map fun mem => ⟨server, mem⟩

/-- **What the server owes**: a place that uses a context finds it, the one that has been
allocated for its identifier and is not freed; and nothing has been destroyed twice. -/
structure Safe (st : CmServerCtx) : Prop where
  found : ∀ c, st.server.pc.ctxOf = some c → st.mem.Holds c
  once : ∀ o, st.server.log.count (.release o) ≤ 1

end CmServerCtx

/-- **The server with its memory**, with any events in their order and any results of its
calls. -/
def cmServerCtxLts : Lts CmServerCtx (CmLabel × ℕ) :=
  Lts.ofFun (· = CmServerCtx.start) CmServerCtx.next

/-! ### The runs of the server -/

/-- Where `main` gives up it obtains and releases nothing. -/
theorem CmMove.log_of_returned {s s' : CmServer} (hm : CmMove s s') (hret : s'.pc = .returned) :
    s'.log = s.log := by
  cases hm with
  | giveUp => rfl
  | unexpected ev hpc => cases hpc.symm.trans hret
  | _ => cases hret

namespace CmServer

variable {s s' s₀ : CmServer} {l : CmLabel}

/-- An event that is none of the three stops the loop, whatever its identifier. -/
theorem dispatch_error {type : CmEventType} (h : type ∉ serverOrder) (id : CmId) :
    s.dispatch ⟨type, id⟩ = { s with events := s.events ++ [⟨type, id⟩], stop := true } := by
  cases type with
  | connectRequest | established | disconnected => exact absurd (by decide) h
  | _ => cases id <;> rfl

/-- Where no handler runs and the loop has been stopped, the events do not matter any more. -/
theorem next_halted (hs : s.next l = some s') (hpc : s.pc.event = none) (hstop : s.stop = true) :
    (s'.pc.event = none ∧ s'.stop = true) ∧
      ∀ es, { s with events := es }.next l = some { s' with events := es } := by
  obtain ⟨pc, stop, conns, events, log⟩ := s
  obtain rfl : stop = true := hstop
  cases pc with
  | connect | established | disconnect => cases hpc
  | createChannel | createId | bindAddr | listen => cases l with
    | call ok =>
      obtain rfl := Option.some.inj hs
      cases ok <;> exact ⟨⟨rfl, rfl⟩, fun _ => rfl⟩
    | _ => cases hs
  | loop => cases l with
    | cpu =>
      obtain rfl := Option.some.inj hs
      exact ⟨⟨rfl, rfl⟩, fun _ => rfl⟩
    | getEvent ev => cases ev with
      | none => cases hs
      | some ev =>
        obtain ⟨-, hstop, -⟩ := next_getEvent_iff.mp hs
        cases hstop
    | _ => cases hs
  | destroyListener | destroyChannel => cases l with
    | cpu =>
      obtain rfl := Option.some.inj hs
      exact ⟨⟨rfl, rfl⟩, fun _ => rfl⟩
    | _ => cases hs
  | done | returned => cases hs

/-- Only the loop takes an event. -/
theorem next_events (hs : s.next l = some s') (hl : ∀ ev, l ≠ .getEvent (some ev)) :
    s'.events = s.events := by
  by_cases hpc : s.pc = .loop
  · simp only [next, hpc] at hs
    cases l with
    | cpu =>
      obtain ⟨-, ⟨⟩⟩ := Option.ite_none_right_eq_some.mp hs
      rfl
    | getEvent ev => cases ev with
      | none =>
        obtain ⟨-, ⟨⟩⟩ := Option.ite_none_left_eq_some.mp hs
        rfl
      | some ev => exact absurd rfl (hl ev)
    | _ => cases hs
  · cases next_move hs with
    | request hloop | serve _ hloop | drop _ hloop | unexpected _ hloop => exact absurd hloop hpc
    | _ => rfl

/-- **A run of `RdmaBook.cmServerLts` that goes along**: it is in the same state, and the
events have come in their order, up to an error in the place of a request, which it takes for
one of the listener. -/
structure Shadow (s s₀ : CmServer) : Prop where
  same : s = { s₀ with events := s.events }
  order : s.events = s₀.events ∧ (∀ c, s.seen (.conn c) <+: serverOrder) ∨
    s.pc.event = none ∧ s.stop = true

theorem Shadow.start : Shadow CmServer.start CmServer.start :=
  ⟨rfl, Or.inl ⟨rfl, fun _ => List.nil_prefix⟩⟩

theorem Shadow.eq (h : Shadow s s₀) (hstop : s.stop = false) :
    s = s₀ ∧ ∀ c, s.seen (.conn c) <+: serverOrder := by
  rcases h.order with ⟨hevents, horder⟩ | ⟨-, hstop'⟩
  · refine ⟨?_, horder⟩
    rw [h.same, hevents]
  · exact absurd (hstop.symm.trans hstop') Bool.false_ne_true

theorem seen_concat (ev : CmEvent) (id : CmId) (h : s'.events = s.events ++ [ev]) :
    s'.seen id = if ev.id = id then s.seen id ++ [ev.type] else s.seen id := by
  rw [seen, h, List.filter_append, List.map_append]
  split_ifs with hid
  · rw [List.filter_cons_of_pos (by simpa using hid)]
    rfl
  · rw [List.filter_cons_of_neg (by simpa using hid)]
    exact List.append_nil _

/-- An identifier of which an event has been fetched is one of a connection. -/
theorem lt_of_seen (hc : CmControl s) {c : ℕ} (h : s.seen (.conn c) ≠ []) : c < s.conns := by
  obtain ⟨type, hmem⟩ := List.exists_mem_of_ne_nil _ h
  obtain ⟨ev, hev, -⟩ := List.mem_map.mp hmem
  obtain ⟨hev, hid⟩ := List.mem_filter.mp hev
  exact hc.ids ev hev c (of_decide_eq_true hid)

/-- **What is due can be delivered.** -/
theorem canDeliver_of_due (hc : CmControl s) {c : ℕ} {type : CmEventType}
    (horder : s.seen (.conn c) <+: serverOrder)
    (hdue : InCmOrder serverOrder (s.seen (.conn c)) type) (hmem : type ∈ serverOrder)
    (hreq : type = .connectRequest → c = s.conns) : s.CanDeliver ⟨type, .conn c⟩ := by
  have hpre := hdue.concat horder hmem
  have hseen : type ≠ .connectRequest → s.seen (.conn c) ≠ [] := by
    intro hne hnil
    rw [hnil] at hpre
    exact hne (List.cons_prefix_cons.mp hpre).1
  simp only [serverOrder, List.mem_cons, List.not_mem_nil, or_false] at hmem
  rcases hmem with rfl | rfl | rfl
  · exact hreq rfl
  · refine ⟨lt_of_seen hc (hseen nofun), fun hin => ?_⟩
    -- the order has no place for a second ESTABLISHED
    have htwice : CmEventType.established ∈ s.seen (.conn c) :=
      List.mem_map.mpr ⟨_, List.mem_filter.mpr ⟨hin, by simp⟩, rfl⟩
    have hnodup : (s.seen (.conn c) ++ [CmEventType.established]).Nodup :=
      hpre.sublist.nodup (by decide)
    exact (List.nodup_append.mp hnodup).2.2 _ htwice _ List.mem_cons_self rfl
  · exact lt_of_seen hc (hseen nofun)

/-- **Every step can be gone along with.** -/
theorem Shadow.next (h : Shadow s s₀) (hr : cmServerLts.Reach Lts.any s₀)
    (hs : s.nextInOrder l = some s') : ∃ s₁, cmServerLts.Reach Lts.any s₁ ∧ Shadow s' s₁ := by
  have hcpu : (∀ ev, l ≠ .getEvent (some ev)) → s.next l = some s' →
      ∃ s₁, cmServerLts.Reach Lts.any s₁ ∧ Shadow s' s₁ := by
    intro hl hs
    rcases h.order with ⟨hevents, horder⟩ | ⟨hpc, hstop⟩
    · obtain rfl : s = s₀ := by rw [h.same, hevents]
      refine ⟨s', hr.tail (l := l) trivial hs, rfl, Or.inl ⟨rfl, fun c => ?_⟩⟩
      rw [seen, next_events hs hl]
      exact horder c
    · obtain ⟨hhalt, hany⟩ := next_halted hs hpc hstop
      have hs₀ : s₀.next l = some { s' with events := s₀.events } := by
        rw [← hany, h.same]
      exact ⟨_, hr.tail (l := l) trivial hs₀, rfl, Or.inr hhalt⟩
  cases l with
  | getEvent ev => cases ev with
    | none => exact hcpu (by rintro ev ⟨⟩) hs
    | some ev =>
      obtain ⟨⟨hpc, hstop, hin⟩, ⟨⟩⟩ := Option.ite_none_right_eq_some.mp hs
      obtain ⟨rfl, horder⟩ := h.eq hstop
      obtain ⟨hc, -⟩ := (CmServer.Sound.of_reach hr).running (by rw [hpc]; nofun)
        (by rw [hpc]; nofun)
      have hdeliver : ∀ ev', s.CanDeliver ev' → cmServerLts.Reach Lts.any (s.dispatch ev') :=
        fun ev' hev' => hr.tail (l := .getEvent (some ev')) trivial
          (next_getEvent_iff.mpr ⟨hpc, hstop, hev', rfl⟩)
      obtain ⟨type, id⟩ := ev
      by_cases hmem : type ∈ serverOrder
      · cases id with
        | listener => exact absurd hmem hin
        | conn c =>
          refine ⟨_, hdeliver _ (canDeliver_of_due hc (horder c) hin.1 hmem hin.2), rfl,
            Or.inl ⟨rfl, fun c' => ?_⟩⟩
          have hevents : (s.dispatch ⟨type, .conn c⟩).events = s.events ++ [⟨type, .conn c⟩] := by
            cases type <;> rfl
          rw [seen_concat _ _ hevents]
          split_ifs with hid
          · obtain rfl : c = c' := CmId.conn.inj hid
            exact hin.1.concat (horder c) hmem
          · exact horder c'
      · -- an error; where its identifier is new, the run that goes along takes it for one of
        -- the listener
        have hlistener : s.CanDeliver ⟨type, .listener⟩ := by
          cases type with
          | connectRequest | established | disconnected => exact absurd (by decide) hmem
          | _ => trivial
        refine ⟨_, hdeliver _ hlistener, ?_, Or.inr ?_⟩
        · rw [dispatch_error hmem, dispatch_error hmem]
        · rw [dispatch_error hmem]
          exact ⟨congrArg CmServerPc.event hpc, rfl⟩
  | cpu | call | poll => exact hcpu (by rintro ev ⟨⟩) hs

/-- The context of the connection is alive. -/
def Owns (s : CmServer) : ℕ → Prop := LogOwns (fun c => CmObj.conn c .ctx) s.log

section Steps

variable {m m' : BlockMem ℕ ℕ} {a c : ℕ}

/-- What a step of the server does to the memory, as a step of a program with a log. -/
def CtxStep (s s' : CmServer) (m m' : BlockMem ℕ ℕ) : Prop :=
  BlockStep m s.Owns s.pc.ctxOf m' s'.Owns s'.pc.ctxOf

theorem connectCall_ctxStep {ok : Bool} {p : ConnectPc} (hpc : s.pc = .connect p c)
    (hs : s.connectCall c ok p = some s') (hm : s.memStep m (.call ok) a = some m') :
    CtxStep s s' m m' := by
  cases p with
  | calloc =>
    obtain rfl := Option.some.inj hs
    simp only [memStep, hpc] at hm
    cases ok with
    | true =>
      exact .of_acquire (fun _ _ heq => (CmObj.conn.inj heq).1) hm
    | false =>
      cases hm
      exact .of_quiet nofun
  | allocPd | createCq | regRecvMr | regSendMr | createQp =>
    simp only [memStep, hpc] at hm
    obtain rfl := Option.some.inj hs
    obtain rfl := Option.some.inj hm
    cases ok
    · exact .of_quiet fun j hj => hpc ▸ hj
    · exact .of_act nofun fun j hj => hpc ▸ hj
  | postReceive =>
    simp only [memStep, hpc] at hm
    obtain rfl := Option.some.inj hs
    obtain rfl := Option.some.inj hm
    refine .of_quiet fun j hj => ?_
    cases ok <;> exact hpc ▸ hj
  | accept =>
    simp only [memStep, hpc] at hm
    obtain rfl := Option.some.inj hs
    obtain rfl := Option.some.inj hm
    cases ok
    · exact .of_quiet fun j hj => hpc ▸ hj
    · exact .of_quiet nofun
  | errDestroyQp | errDeregSend | errDeregRecv | errDestroyCq | errDeallocPd | errFreeCtx =>
      cases hs

theorem connectErr_ctxStep {p : ConnectPc} (hpc : s.pc = .connect p c)
    (hs : s.connectErr c p = some s') (hm : s.memStep m .cpu a = some m') : CtxStep s s' m m' := by
  cases p with
  | errFreeCtx =>
    simp only [memStep, hpc] at hm
    obtain rfl := Option.some.inj hs
    obtain rfl := Option.some.inj hm
    exact .of_release (congrArg CmServerPc.ctxOf hpc)
  | errDestroyQp | errDeregSend | errDeregRecv | errDestroyCq | errDeallocPd =>
    simp only [memStep, hpc] at hm
    obtain rfl := Option.some.inj hs
    obtain rfl := Option.some.inj hm
    exact .of_act nofun fun j hj => hpc ▸ hj
  | calloc | allocPd | createCq | regRecvMr | regSendMr | createQp | postReceive | accept =>
      cases hs

theorem establishedPoll_ctxStep {ret : PollRet} {status : WcStatus} {p : EstablishedPc}
    (hpc : s.pc = .established p c) (hs : s.establishedPoll c ret status p = some s') :
    CtxStep s s' m m := by
  have hkeep : ∀ q, CtxStep s { s with pc := .established q c } m m :=
    fun q => .of_quiet fun j hj => hpc ▸ hj
  have hidle : CtxStep s s m m := .of_quiet fun j hj => hj
  have hret : ∀ ok, CtxStep s (s.ret ok) m m := fun ok => .of_quiet nofun
  cases p with
  | postSend => cases hs
  | pollRecv =>
    cases ret with
    | failed => exact Option.some.inj hs ▸ hret false
    | empty => exact Option.some.inj hs ▸ hidle
    | one =>
      obtain rfl := Option.some.inj hs
      split
      · exact hkeep .postSend
      · exact hret false
  | pollSend =>
    cases ret with
    | failed => exact Option.some.inj hs ▸ hret false
    | empty => exact Option.some.inj hs ▸ hidle
    | one => exact Option.some.inj hs ▸ hret _

theorem disconnectCall_ctxStep {p : DisconnectPc} (hpc : s.pc = .disconnect p c)
    (hm : s.memStep m .cpu a = some m') : CtxStep s (s.disconnectCall c p) m m' := by
  cases p with
  | freeCtx =>
    simp only [memStep, hpc] at hm
    obtain rfl := Option.some.inj hm
    exact .of_release (congrArg CmServerPc.ctxOf hpc)
  | destroyId =>
    simp only [memStep, hpc] at hm
    obtain rfl := Option.some.inj hm
    exact .of_act nofun nofun
  | destroyQp | deregSend | deregRecv | destroyCq | deallocPd =>
    simp only [memStep, hpc] at hm
    obtain rfl := Option.some.inj hm
    exact .of_act nofun fun j hj => hpc ▸ hj

/-- At the loop, every connection owns its context. -/
theorem owns_of_loop (hr : CmResources s) (hpc : s.pc = .loop) (hstop : s.stop = false)
    (hc : c < s.conns) : s.Owns c := by
  refine (hr.live _).mpr ((alive_conn_full ?_).mpr hc)
  rw [curLevel, hpc, hstop]
  rfl

theorem dispatch_ctxStep {ev : CmEvent} (hr : CmResources s) (hctl : CmControl s)
    (hpc : s.pc = .loop)
    (hstop : s.stop = false) (horder : ∀ c, s.seen (.conn c) <+: serverOrder) (hin : s.InOrder ev)
    (hm : s.memStep m (.getEvent (some ev)) a = some m') : CtxStep s (s.dispatch ev) m m' := by
  obtain ⟨type, id⟩ := ev
  simp only [memStep, hpc] at hm
  by_cases hmem : type ∈ serverOrder
  · cases id with
    | listener => exact absurd hmem hin
    | conn c =>
      have hcan := canDeliver_of_due hctl (horder c) hin.1 hmem hin.2
      simp only [serverOrder, List.mem_cons, List.not_mem_nil, or_false] at hmem
      rcases hmem with rfl | rfl | rfl
      · obtain rfl := Option.some.inj hm
        exact .of_act nofun nofun
      · obtain rfl := Option.some.inj hm
        exact .load c _ (owns_of_loop hr hpc hstop hcan.1) fun j hj => hj
      · obtain rfl := Option.some.inj hm
        exact .load c _ (owns_of_loop hr hpc hstop hcan) fun j hj => hj
  · have hsame : m = m' := by
      cases type with
      | connectRequest | established | disconnected => exact absurd (by decide) hmem
      | _ => exact Option.some.inj hm
    subst hsame
    rw [dispatch_error hmem]
    exact .of_quiet fun j hj => hj

/-- `main` does nothing to the memory. -/
theorem memStep_of_main (hpc : s.pc.event = none) (hl : ∀ ev, l ≠ .getEvent (some ev)) :
    s.memStep m l a = some m := by
  cases hp : s.pc with
  | connect | established | disconnect =>
    rw [hp] at hpc
    cases hpc
  | loop => cases l with
    | getEvent ev => cases ev with
      | none => simp only [memStep, hp]
      | some ev => exact absurd rfl (hl ev)
    | _ => simp only [memStep, hp]
  | _ => simp only [memStep, hp]

/-- `main` obtains and releases no context. -/
theorem main_ctxStep (hpc : s.pc.event = none) (hl : ∀ ev, l ≠ .getEvent (some ev))
    (hs : s.next l = some s') (hm : s.memStep m l a = some m') : CtxStep s s' m m' := by
  obtain rfl := Option.some.inj ((memStep_of_main hpc hl).symm.trans hm)
  have hevents := next_events hs hl
  have hnone : ∀ ev, s.events ++ [ev] ≠ s.events :=
    fun ev heq => by simpa using congrArg List.length heq
  cases next_move hs with
  | openChannel | openListener | destroyListener | destroyChannel =>
    exact .of_act (by rintro j ⟨⟩) (by rintro j ⟨⟩)
  | bind | listen | giveUp | leave => exact .of_quiet (by rintro j ⟨⟩)
  | request | serve | drop | unexpected => exact absurd hevents (hnone _)
  | gain _ _ _ _ hpc' | turn _ _ _ hpc' | giveBack _ _ _ _ hpc' | refused _ hpc' | noMemory _ hpc'
  | accepted _ hpc' | wait _ _ _ hpc' | served _ _ _ hpc' | disconnect _ _ _ _ hpc'
  | destroyId _ hpc' =>
    rw [hpc'] at hpc
    cases hpc

/-- **Every call of the server is one of the four steps.** -/
theorem next_ctxStep (hl : ∀ ev, l ≠ .getEvent (some ev)) (hs : s.next l = some s')
    (hm : s.memStep m l a = some m') : CtxStep s s' m m' := by
  cases hpc : s.pc with
  | connect p c => cases l with
    | call ok => exact connectCall_ctxStep hpc (by simpa only [next, hpc] using hs) hm
    | cpu => exact connectErr_ctxStep hpc (by simpa only [next, hpc] using hs) hm
    | _ => simp only [next, hpc, reduceCtorEq] at hs
  | established p c =>
    simp only [memStep, hpc] at hm
    obtain rfl := Option.some.inj hm
    cases l with
    | call ok => cases p with
      | postSend =>
        simp only [next, hpc] at hs
        obtain rfl := Option.some.inj hs
        cases ok
        · exact .of_quiet (by rintro j ⟨⟩)
        · exact .of_quiet fun j hj => hpc ▸ hj
      | _ => simp only [next, hpc, reduceCtorEq] at hs
    | poll ret status => exact establishedPoll_ctxStep hpc (by simpa only [next, hpc] using hs)
    | _ => simp only [next, hpc, reduceCtorEq] at hs
  | disconnect p c => cases l with
    | cpu =>
      simp only [next, hpc] at hs
      exact Option.some.inj hs ▸ disconnectCall_ctxStep hpc hm
    | _ => simp only [next, hpc, reduceCtorEq] at hs
  | _ => exact main_ctxStep (congrArg CmServerPc.event hpc) hl hs hm

end Steps

/-- **Nothing is obtained or released twice**, up to the end of any run. -/
theorem log_nodup (h : cmServerLts.Reach Lts.any s) : s.log.Nodup := by
  refine h.invariant_of (I := fun a => a.log.Nodup) (fun _ => CmServer.Sound.of_reach) ?_ ?_
  · rintro a rfl
    exact List.nodup_nil
  · intro a l b hsound hnodup _ hs
    have hrun := running_of_next hs
    obtain ⟨hc, hr⟩ := hsound.running hrun.1 hrun.2
    have hm := next_move hs
    by_cases hret : b.pc = .returned
    · rw [hm.log_of_returned hret]
      exact hnodup
    · by_cases hdone : b.pc = .done
      · obtain ⟨hpc, rfl⟩ := hm.eq_of_done hdone
        have hlive : ResLog.Live a.log .channel := by
          refine (hr.live _).mpr ?_
          rw [Alive, hpc]
          rintro ⟨⟩
        exact List.nodup_append_comm.mp (List.nodup_cons.mpr ⟨hlive.2, hnodup⟩)
      · exact (hr.move hc hm hret hdone).orderly.nodup

end CmServer

namespace CmServerCtx

variable {st st' : CmServerCtx}

/-- **The invariant of the server with its memory.** -/
structure Kept (st : CmServerCtx) : Prop where
  shadow : ∃ s₀, cmServerLts.Reach Lts.any s₀ ∧ CmServer.Shadow st.server s₀
  block : BlockInv st.mem st.server.Owns st.server.pc.ctxOf

theorem Kept.start : Kept .start where
  shadow := ⟨_, Lts.Reach.of_init rfl, .start⟩
  block := .start

theorem Kept.next {l : CmLabel × ℕ} (h : st.Kept) (hs : st.next l = some st') : st'.Kept := by
  obtain ⟨server, hserver, hrest⟩ := Option.bind_eq_some_iff.mp hs
  obtain ⟨mem, hmem, rfl⟩ := Option.map_eq_some_iff.mp hrest
  obtain ⟨s₀, hr, hshadow⟩ := h.shadow
  refine ⟨hshadow.next hr hserver, h.block.step ?_⟩
  obtain ⟨l, a⟩ := l
  have hcall : (∀ ev, l ≠ .getEvent (some ev)) → st.server.next l = some server →
      CmServer.CtxStep st.server server st.mem mem := fun hl hs => CmServer.next_ctxStep hl hs hmem
  cases l with
  | getEvent ev => cases ev with
    | none => exact hcall (by rintro ev ⟨⟩) hserver
    | some ev =>
      obtain ⟨⟨hpc, hstop, hin⟩, ⟨⟩⟩ := Option.ite_none_right_eq_some.mp hserver
      obtain ⟨heq, horder⟩ := hshadow.eq hstop
      rw [← heq] at hr
      obtain ⟨hc, hres⟩ := (CmServer.Sound.of_reach hr).running (by rw [hpc]; nofun)
        (by rw [hpc]; nofun)
      exact CmServer.dispatch_ctxStep hres hc hpc hstop horder hin hmem
  | cpu | call | poll => exact hcall (by rintro ev ⟨⟩) hserver

theorem Kept.of_reach (h : cmServerCtxLts.Reach Lts.any st) : st.Kept := by
  refine h.invariant ?_ fun a l b ha _ hs => ha.next hs
  rintro a rfl
  exact Kept.start

theorem Kept.safe (h : st.Kept) : st.Safe where
  found := h.block.holds
  once := by
    intro o
    obtain ⟨s₀, hr, hshadow⟩ := h.shadow
    have hlog : st.server.log = s₀.log := by rw [hshadow.same]
    rw [hlog]
    exact List.nodup_iff_count_le_one.mp (CmServer.log_nodup hr) _

end CmServerCtx

/-- Two clients; the second request fails at its domain, and its context is freed. The
address goes nowhere, since the loop stops. -/
example : (Lts.exec CmServerCtx.next Lts.any .start
    ((List.replicate 4 (CmLabel.call true) ++ cmRequest 0).map (fun l => (l, 5)) ++
      [CmLabel.getEvent (some ⟨.connectRequest, .conn 1⟩), .call true, .call false, .cpu].map
        fun l => (l, 7))).map
        (fun st => (st.server.stop, st.mem.context 0, st.mem.context 1, st.mem.owner 5,
          st.mem.owner 7)) =
    some (true, some 5, some 7, some 0, none) := by
  decide +kernel

end RdmaBook
