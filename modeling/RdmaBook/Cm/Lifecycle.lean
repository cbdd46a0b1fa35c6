import RdmaBook.Cm.Server

/-!
# What cm_server releases

A connection holds its objects like a stack: whatever is obtained for it is obtained
in one order and released in the opposite order, so what it holds is told by one
number, its *level* (`RdmaBook.CmServer.level`). The handler that runs moves the level
of its connection; any other connection holds all seven objects. This is the
invariant `RdmaBook.CmResources`, and it shows that no release is ever wrong, up to
the one of the channel.

The event loop stops at the first DISCONNECTED, and at anything unexpected, and
`main` releases no connection that is open then. So the log of a run is complete
only where there is none (`RdmaBook.cm_lifecycle`).
-/

namespace RdmaBook

/-! ### Levels -/

/-- The place of an object in the order in which a connection obtains its objects. -/
def ConnObj.rank : ConnObj → ℕ
  | .id => 0
  | .ctx => 1
  | .pd => 2
  | .cq => 3
  | .recvMr => 4
  | .sendMr => 5
  | .qp => 6

theorem ConnObj.rank_lt (k : ConnObj) : k.rank < 7 := by
  cases k <;> decide

theorem ConnObj.rank_injective : Function.Injective ConnObj.rank := by
  intro k k' h
  cases k <;> cases k' <;> first | rfl | cases h

/-- What an object needs has been obtained before it. -/
theorem ConnObj.Needs.rank_lt {k k' : ConnObj} (h : k.Needs k') : k'.rank < k.rank := by
  cases k with
  | qp => rcases h with rfl | rfl | rfl | rfl | rfl <;> decide
  | recvMr | sendMr => rcases h with rfl | rfl <;> decide
  | id | ctx | pd | cq => exact h.elim

/-- The number of objects the connection holds at a place of `on_connect_request`. -/
def ConnectPc.level : ConnectPc → ℕ
  | .calloc => 1
  | .allocPd => 2
  | .createCq => 3
  | .regRecvMr => 4
  | .regSendMr => 5
  | .createQp => 6
  | .postReceive => 7
  | .accept => 7
  | .errDestroyQp => 7
  | .errDeregSend => 6
  | .errDeregRecv => 5
  | .errDestroyCq => 4
  | .errDeallocPd => 3
  | .errFreeCtx => 2

/-- A bound on the number of objects the connection has obtained: on the way up, the
level. -/
def ConnectPc.reached : ConnectPc → ℕ
  | .calloc => 1
  | .allocPd => 2
  | .createCq => 3
  | .regRecvMr => 4
  | .regSendMr => 5
  | .createQp => 6
  | _ => 7

/-- The number of objects the connection holds at a place of `on_disconnected`. -/
def DisconnectPc.level : DisconnectPc → ℕ
  | .destroyQp => 7
  | .deregSend => 6
  | .deregRecv => 5
  | .destroyCq => 4
  | .deallocPd => 3
  | .freeCtx => 2
  | .destroyId => 1

namespace CmServer

/-- The connection of the last event. -/
def cur (s : CmServer) : Option ℕ :=
  s.events.getLast?.bind fun ev => match ev.id with
    | .conn c => some c
    | .listener => none

/-- The number of objects the connection of the last event holds when no handler runs:
where the loop has been stopped, it tells how the handler has ended. -/
def restLevel (stop : Bool) (last : Option CmEvent) : ℕ :=
  match stop, last with
  | true, some ⟨.connectRequest, _⟩ => 1
  | true, some ⟨.disconnected, _⟩ => 0
  | _, _ => 7

/-- The number of objects the connection of the last event holds. -/
def curLevel (s : CmServer) : ℕ :=
  match s.pc with
  | .connect p _ => p.level
  | .disconnect p _ => p.level
  | .established _ _ => 7
  | _ => restLevel s.stop s.events.getLast?

/-- **The level of a connection.** -/
def level (s : CmServer) (c : ℕ) : ℕ := if s.cur = some c then s.curLevel else 7

/-- A bound on the number of objects the connection of the last event has obtained. -/
def reached (s : CmServer) : ℕ :=
  match s.pc with
  | .connect p _ => p.reached
  | _ => 7

/-- **The objects that are alive**, told by the place, the flag and the events. -/
def Alive (s : CmServer) : CmObj → Prop
  | .channel => s.pc ≠ .createChannel
  | .listener => s.pc ≠ .createChannel ∧ s.pc ≠ .createId ∧ s.pc ≠ .destroyChannel
  | .conn c k => c < s.conns ∧ k.rank < s.level c

/-- The objects that may have been obtained. -/
def Obtained (s : CmServer) : CmObj → Prop
  | .channel => s.pc ≠ .createChannel
  | .listener => s.pc ≠ .createChannel ∧ s.pc ≠ .createId
  | .conn c k => c < s.conns ∧ (s.cur = some c → k.rank < s.reached)

end CmServer

/-! ### What a step does -/

/-- The event the handler at a place has been called for. -/
def CmServerPc.event : CmServerPc → Option CmEvent
  | .connect _ c => some ⟨.connectRequest, .conn c⟩
  | .established _ c => some ⟨.established, .conn c⟩
  | .disconnect _ c => some ⟨.disconnected, .conn c⟩
  | _ => none

/-- **The moves of the server.** -/
inductive CmMove (s : CmServer) : CmServer → Prop
  | openChannel (hpc : s.pc = .createChannel) : CmMove s (s.act (.acquire .channel) .createId)
  | openListener (hpc : s.pc = .createId) : CmMove s (s.act (.acquire .listener) .bindAddr)
  | bind (hpc : s.pc = .bindAddr) : CmMove s { s with pc := .listen }
  | listen (hpc : s.pc = .listen) : CmMove s { s with pc := .loop }
  | giveUp (hpc : s.pc.event = none) : CmMove s { s with pc := .returned }
  | leave (hpc : s.pc = .loop) : CmMove s { s with pc := .destroyListener }
  | request (hpc : s.pc = .loop) (hstop : s.stop = false) :
      CmMove s { s with
        pc := .connect .calloc s.conns
        conns := s.conns + 1
        events := s.events ++ [⟨.connectRequest, .conn s.conns⟩]
        log := s.log ++ [.acquire (.conn s.conns .id)] }
  | serve (c : ℕ) (hpc : s.pc = .loop) (hstop : s.stop = false) (hc : c < s.conns) :
      CmMove s { s with
        pc := .established .pollRecv c
        events := s.events ++ [⟨.established, .conn c⟩] }
  | drop (c : ℕ) (hpc : s.pc = .loop) (hstop : s.stop = false) (hc : c < s.conns) :
      CmMove s { s with
        pc := .disconnect .destroyQp c
        events := s.events ++ [⟨.disconnected, .conn c⟩] }
  | unexpected (ev : CmEvent) (hpc : s.pc = .loop) (hstop : s.stop = false)
      (htype : ev.type ≠ .connectRequest ∧ ev.type ≠ .disconnected)
      (hid : ∀ c, ev.id = .conn c → c < s.conns) :
      CmMove s { s with events := s.events ++ [ev], stop := true }
  /-- A call of `on_connect_request` obtains an object. -/
  | gain (c : ℕ) (p p' : ConnectPc) (k : ConnObj) (hpc : s.pc = .connect p c)
      (hk : k.rank = p.level) (hr : p.reached = p.level) (hl : p'.level = p.level + 1)
      (hr' : p.level < p'.reached) :
      CmMove s (s.act (.acquire (.conn c k)) (.connect p' c))
  /-- A call of `on_connect_request` that obtains nothing, or fails. -/
  | turn (c : ℕ) (p p' : ConnectPc) (hpc : s.pc = .connect p c) (hl : p'.level = p.level)
      (hr : p.reached ≤ p'.reached) : CmMove s { s with pc := .connect p' c }
  /-- A label of `on_connect_request` releases an object. -/
  | giveBack (c : ℕ) (p p' : ConnectPc) (k : ConnObj) (hpc : s.pc = .connect p c)
      (hk : p'.level = k.rank) (hl : p.level = p'.level + 1) (hr : p'.reached = 7) :
      CmMove s (s.act (.release (.conn c k)) (.connect p' c))
  /-- The last label of `on_connect_request`. -/
  | refused (c : ℕ) (hpc : s.pc = .connect .errFreeCtx c) :
      CmMove s ((s.act (.release (.conn c .ctx)) .loop).ret false)
  | noMemory (c : ℕ) (hpc : s.pc = .connect .calloc c) : CmMove s (s.ret false)
  | accepted (c : ℕ) (hpc : s.pc = .connect .accept c) : CmMove s (s.ret true)
  | wait (c : ℕ) (p p' : EstablishedPc) (hpc : s.pc = .established p c) :
      CmMove s { s with pc := .established p' c }
  | served (c : ℕ) (p : EstablishedPc) (ok : Bool) (hpc : s.pc = .established p c) :
      CmMove s (s.ret ok)
  /-- A call of `on_disconnected` releases an object. -/
  | disconnect (c : ℕ) (p p' : DisconnectPc) (k : ConnObj) (hpc : s.pc = .disconnect p c)
      (hk : p'.level = k.rank) (hl : p.level = p'.level + 1) :
      CmMove s (s.act (.release (.conn c k)) (.disconnect p' c))
  /-- The last call of `on_disconnected`. -/
  | destroyId (c : ℕ) (hpc : s.pc = .disconnect .destroyId c) :
      CmMove s { s.act (.release (.conn c .id)) .loop with stop := true }
  | destroyListener (hpc : s.pc = .destroyListener) :
      CmMove s (s.act (.release .listener) .destroyChannel)
  | destroyChannel (hpc : s.pc = .destroyChannel) : CmMove s (s.act (.release .channel) .done)

section Moves

variable {s s' : CmServer}

theorem CmServer.tryAcquire_move {c : ℕ} {k : ConnObj} {ok : Bool} {p p' err : ConnectPc}
    (hpc : s.pc = .connect p c) (hk : k.rank = p.level) (hr : p.reached = p.level)
    (hl : p'.level = p.level + 1) (hr' : p.level < p'.reached) (herr : err.level = p.level)
    (herr' : err.reached = 7) : CmMove s (s.tryAcquire c k ok p' err) := by
  cases ok
  · refine .turn c p err hpc herr ?_
    rw [hr, herr', ← hk]
    exact k.rank_lt.le
  · exact .gain c p p' k hpc hk hr hl hr'

theorem CmServer.connectCall_move {c : ℕ} {ok : Bool} {p : ConnectPc} (hpc : s.pc = .connect p c)
    (hs : s.connectCall c ok p = some s') : CmMove s s' := by
  cases p with
  | calloc =>
    obtain rfl := Option.some.inj hs
    cases ok
    · exact .noMemory c hpc
    · exact .gain c .calloc .allocPd .ctx hpc rfl rfl rfl (by decide)
  | allocPd | createCq | regRecvMr | regSendMr | createQp =>
    exact Option.some.inj hs ▸ CmServer.tryAcquire_move hpc rfl rfl rfl (by decide) rfl rfl
  | postReceive =>
    obtain rfl := Option.some.inj hs
    cases ok
    · exact .turn c .postReceive .errDestroyQp hpc rfl (by decide)
    · exact .turn c .postReceive .accept hpc rfl (by decide)
  | accept =>
    obtain rfl := Option.some.inj hs
    cases ok
    · exact .turn c .accept .errDestroyQp hpc rfl (by decide)
    · exact .accepted c hpc
  | errDestroyQp | errDeregSend | errDeregRecv | errDestroyCq | errDeallocPd | errFreeCtx =>
      cases hs

theorem CmServer.connectErr_move {c : ℕ} {p : ConnectPc} (hpc : s.pc = .connect p c)
    (hs : s.connectErr c p = some s') : CmMove s s' := by
  cases p with
  | errDestroyQp =>
    exact Option.some.inj hs ▸ .giveBack c .errDestroyQp .errDeregSend .qp hpc rfl rfl rfl
  | errDeregSend =>
    exact Option.some.inj hs ▸ .giveBack c .errDeregSend .errDeregRecv .sendMr hpc rfl rfl rfl
  | errDeregRecv =>
    exact Option.some.inj hs ▸ .giveBack c .errDeregRecv .errDestroyCq .recvMr hpc rfl rfl rfl
  | errDestroyCq =>
    exact Option.some.inj hs ▸ .giveBack c .errDestroyCq .errDeallocPd .cq hpc rfl rfl rfl
  | errDeallocPd =>
    exact Option.some.inj hs ▸ .giveBack c .errDeallocPd .errFreeCtx .pd hpc rfl rfl rfl
  | errFreeCtx => exact Option.some.inj hs ▸ .refused c hpc
  | calloc | allocPd | createCq | regRecvMr | regSendMr | createQp | postReceive | accept =>
      cases hs

theorem CmServer.establishedPoll_move {c : ℕ} {ret : PollRet} {status : WcStatus}
    {p : EstablishedPc}
    (hpc : s.pc = .established p c) (hs : s.establishedPoll c ret status p = some s') :
    CmMove s s' := by
  have hidle : CmMove s s := by
    have hwait := CmMove.wait c p p hpc
    rwa [← hpc] at hwait
  cases p with
  | pollRecv =>
    cases ret with
    | failed => exact Option.some.inj hs ▸ .served c .pollRecv false hpc
    | empty => exact Option.some.inj hs ▸ hidle
    | one =>
      obtain rfl := Option.some.inj hs
      split
      · exact .wait c .pollRecv .postSend hpc
      · exact .served c .pollRecv false hpc
  | postSend => cases hs
  | pollSend =>
    cases ret with
    | failed => exact Option.some.inj hs ▸ .served c .pollSend false hpc
    | empty => exact Option.some.inj hs ▸ hidle
    | one => exact Option.some.inj hs ▸ .served c .pollSend _ hpc

theorem CmServer.disconnectCall_move {c : ℕ} {p : DisconnectPc} (hpc : s.pc = .disconnect p c) :
    CmMove s (s.disconnectCall c p) := by
  cases p with
  | destroyQp => exact .disconnect c .destroyQp .deregSend .qp hpc rfl rfl
  | deregSend => exact .disconnect c .deregSend .deregRecv .sendMr hpc rfl rfl
  | deregRecv => exact .disconnect c .deregRecv .destroyCq .recvMr hpc rfl rfl
  | destroyCq => exact .disconnect c .destroyCq .deallocPd .cq hpc rfl rfl
  | deallocPd => exact .disconnect c .deallocPd .freeCtx .pd hpc rfl rfl
  | freeCtx => exact .disconnect c .freeCtx .destroyId .ctx hpc rfl rfl
  | destroyId => exact .destroyId c hpc

theorem CmServer.dispatch_move {ev : CmEvent} (hpc : s.pc = .loop) (hstop : s.stop = false)
    (hev : s.CanDeliver ev) : CmMove s (s.dispatch ev) := by
  obtain ⟨type, id⟩ := ev
  cases type with
  | connectRequest =>
    cases id with
    | listener => exact hev.elim
    | conn c =>
      obtain rfl : c = s.conns := hev
      exact .request hpc hstop
  | established =>
    cases id with
    | listener => exact hev.elim
    | conn c => exact .serve c hpc hstop hev.1
  | disconnected =>
    cases id with
    | listener => exact hev.elim
    | conn c => exact .drop c hpc hstop hev
  | _ =>
    cases id with
    | listener => exact .unexpected ⟨_, .listener⟩ hpc hstop ⟨nofun, nofun⟩ nofun
    | conn c =>
      exact .unexpected ⟨_, .conn c⟩ hpc hstop ⟨nofun, nofun⟩ fun c' hc' => CmId.conn.inj hc' ▸ hev

/-- **Every step is one of the moves.** -/
theorem CmServer.next_move {l : CmLabel} (hs : s.next l = some s') : CmMove s s' := by
  unfold CmServer.next at hs
  split at hs
  · rename_i ok hpc
    cases ok
    · exact Option.some.inj hs ▸ .giveUp (congrArg CmServerPc.event hpc)
    · exact Option.some.inj hs ▸ .openChannel hpc
  · rename_i ok hpc
    cases ok
    · exact Option.some.inj hs ▸ .giveUp (congrArg CmServerPc.event hpc)
    · exact Option.some.inj hs ▸ .openListener hpc
  · rename_i ok hpc
    cases ok
    · exact Option.some.inj hs ▸ .giveUp (congrArg CmServerPc.event hpc)
    · exact Option.some.inj hs ▸ .bind hpc
  · rename_i ok hpc
    cases ok
    · exact Option.some.inj hs ▸ .giveUp (congrArg CmServerPc.event hpc)
    · exact Option.some.inj hs ▸ .listen hpc
  · rename_i hpc
    split at hs
    · exact Option.some.inj hs ▸ .leave hpc
    · cases hs
  · rename_i hpc
    split at hs
    · cases hs
    · exact Option.some.inj hs ▸ .leave hpc
  · rename_i ev hpc
    split at hs
    · rename_i hev
      exact Option.some.inj hs ▸ CmServer.dispatch_move hpc hev.1 hev.2
    · cases hs
  · rename_i p c ok hpc
    exact CmServer.connectCall_move hpc hs
  · rename_i p c hpc
    exact CmServer.connectErr_move hpc hs
  · rename_i c ok hpc
    cases ok
    · exact Option.some.inj hs ▸ .served c .postSend false hpc
    · exact Option.some.inj hs ▸ .wait c .postSend .pollSend hpc
  · rename_i p c ret status hpc
    exact CmServer.establishedPoll_move hpc hs
  · rename_i p c hpc
    exact Option.some.inj hs ▸ CmServer.disconnectCall_move hpc
  · rename_i hpc
    exact Option.some.inj hs ▸ .destroyListener hpc
  · rename_i hpc
    exact Option.some.inj hs ▸ .destroyChannel hpc
  · cases hs

end Moves

/-! ### The control of the loop -/

/-- **The invariant of the loop**: a handler runs for the last event, and only as long as
the loop has not been stopped; a DISCONNECTED stops the loop; the events name
connections that have been requested, each by one request. -/
structure CmControl (s : CmServer) : Prop where
  handler : ∀ ev, s.pc.event = some ev → s.events.getLast? = some ev ∧ s.stop = false
  stopped : s.pc.event = none → ∀ id, s.events.getLast? = some ⟨.disconnected, id⟩ → s.stop = true
  ids : ∀ ev ∈ s.events, ∀ c, ev.id = .conn c → c < s.conns
  requests : s.events.filter (fun ev => ev.type = .connectRequest) =
    (List.range s.conns).map fun c => ⟨.connectRequest, .conn c⟩

namespace CmControl

variable {s s' : CmServer}

theorem start : CmControl CmServer.start where
  handler := nofun
  stopped := nofun
  ids := fun _ hev => absurd hev List.not_mem_nil
  requests := rfl

/-- The connection of the handler that runs has been requested, and is the one of the
last event. -/
theorem cur_eq (h : CmControl s) {ev : CmEvent} {c : ℕ} (hev : s.pc.event = some ev)
    (hc : ev.id = .conn c) : s.cur = some c ∧ c < s.conns := by
  obtain ⟨hlast, -⟩ := h.handler ev hev
  refine ⟨?_, h.ids ev (List.mem_of_getLast? hlast) c hc⟩
  rw [CmServer.cur, hlast, Option.bind_some, hc]

/-- A step inside a handler, or outside of any. -/
theorem congr (h : CmControl s) (hevents : s'.events = s.events) (hconns : s'.conns = s.conns)
    (hstop : s'.stop = s.stop) (hpc : s'.pc.event = s.pc.event) : CmControl s' where
  handler := by
    rw [hpc, hevents, hstop]
    exact h.handler
  stopped := by
    rw [hpc, hevents, hstop]
    exact h.stopped
  ids := by
    rw [hevents, hconns]
    exact h.ids
  requests := by
    rw [hevents, hconns]
    exact h.requests

/-- A handler returns. -/
theorem leave (h : CmControl s) {ev : CmEvent} (hev : s.pc.event = some ev)
    (hevents : s'.events = s.events) (hconns : s'.conns = s.conns) (hpc : s'.pc.event = none)
    (hstop : ev.type = .disconnected → s'.stop = true) : CmControl s' where
  handler := by
    rw [hpc]
    exact nofun
  stopped := by
    intro _ id hlast
    rw [hevents, (h.handler ev hev).1] at hlast
    exact hstop (by rw [Option.some.inj hlast])
  ids := by
    rw [hevents, hconns]
    exact h.ids
  requests := by
    rw [hevents, hconns]
    exact h.requests

/-- An event is fetched that is no request of a new connection. -/
theorem fetch (h : CmControl s) {ev : CmEvent} (hevents : s'.events = s.events ++ [ev])
    (hconns : s'.conns = s.conns) (htype : ev.type ≠ .connectRequest)
    (hid : ∀ c, ev.id = .conn c → c < s.conns)
    (hpc : s'.pc.event = some ev ∧ s'.stop = false ∨
      s'.pc.event = none ∧ ev.type ≠ .disconnected) : CmControl s' where
  handler := by
    intro ev' hev'
    rw [hevents, List.getLast?_concat]
    rcases hpc with ⟨hpc, hstop⟩ | ⟨hpc, -⟩
    · exact ⟨hpc.symm.trans hev', hstop⟩
    · exact absurd (hpc.symm.trans hev') nofun
  stopped := by
    intro hpc' id hlast
    rw [hevents, List.getLast?_concat] at hlast
    rcases hpc with ⟨hpc, -⟩ | ⟨-, htype'⟩
    · exact absurd (hpc.symm.trans hpc') nofun
    · exact absurd (congrArg CmEvent.type (Option.some.inj hlast)) htype'
  ids := by
    rw [hevents, hconns]
    exact List.forall_mem_append.mpr ⟨h.ids, List.forall_mem_singleton.mpr hid⟩
  requests := by
    rw [hevents, hconns, List.filter_append, h.requests,
      List.filter_cons_of_neg (by simpa using htype), List.filter_nil, List.append_nil]

/-- **A new connection is requested.** -/
theorem request (h : CmControl s) (hstop : s.stop = false) : CmControl { s with
    pc := .connect .calloc s.conns
    conns := s.conns + 1
    events := s.events ++ [⟨.connectRequest, .conn s.conns⟩]
    log := s.log ++ [.acquire (.conn s.conns .id)] } where
  handler := by
    intro ev hev
    obtain rfl := Option.some.inj hev
    exact ⟨List.getLast?_concat, hstop⟩
  stopped := nofun
  ids := by
    refine List.forall_mem_append.mpr ⟨fun ev hev c hc => Nat.lt_succ_of_lt (h.ids ev hev c hc),
      List.forall_mem_singleton.mpr ?_⟩
    rintro c ⟨⟩
    exact Nat.lt_succ_self _
  requests := by
    rw [List.filter_append, h.requests, List.range_succ, List.map_append]
    rfl

theorem move (h : CmControl s) (hm : CmMove s s') : CmControl s' := by
  cases hm with
  | openChannel hpc | openListener hpc | bind hpc | listen hpc | leave hpc | destroyListener hpc
  | destroyChannel hpc =>
    exact h.congr rfl rfl rfl (congrArg CmServerPc.event hpc).symm
  | giveUp hpc => exact h.congr rfl rfl rfl hpc.symm
  | request hpc hstop => exact h.request hstop
  | serve c hpc hstop hc =>
    refine h.fetch rfl rfl nofun ?_ (Or.inl ⟨rfl, hstop⟩)
    rintro c' ⟨⟩
    exact hc
  | drop c hpc hstop hc =>
    refine h.fetch rfl rfl nofun ?_ (Or.inl ⟨rfl, hstop⟩)
    rintro c' ⟨⟩
    exact hc
  | unexpected ev hpc hstop htype hid =>
    exact h.fetch rfl rfl htype.1 hid (Or.inr ⟨congrArg CmServerPc.event hpc, htype.2⟩)
  | gain c p p' k hpc | turn c p p' hpc | giveBack c p p' k hpc | wait c p p' hpc
  | disconnect c p p' k hpc =>
    exact h.congr rfl rfl rfl (congrArg CmServerPc.event hpc).symm
  | refused c hpc => exact h.leave (congrArg CmServerPc.event hpc) rfl rfl rfl nofun
  | noMemory c hpc => exact h.leave (congrArg CmServerPc.event hpc) rfl rfl rfl nofun
  | accepted c hpc => exact h.leave (congrArg CmServerPc.event hpc) rfl rfl rfl nofun
  | served c p ok hpc => exact h.leave (congrArg CmServerPc.event hpc) rfl rfl rfl nofun
  | destroyId c hpc => exact h.leave (congrArg CmServerPc.event hpc) rfl rfl rfl fun _ => rfl

end CmControl

/-! ### What is alive -/

/-- `main` holds the channel and the listener. -/
def CmServerPc.Serving (pc : CmServerPc) : Prop :=
  pc ≠ .createChannel ∧ pc ≠ .createId ∧ pc ≠ .destroyChannel

/-- A handler runs while `main` holds both. -/
theorem CmServerPc.serving_of_event {pc : CmServerPc} {ev : CmEvent} (h : pc.event = some ev) :
    pc.Serving := by
  cases pc with
  | connect | established | disconnect => exact ⟨nofun, nofun, nofun⟩
  | _ => cases h

namespace CmServer

variable {s s' : CmServer} {c : ℕ} {k : ConnObj} {x : CmObj}

theorem alive_conn_congr (hconns : s'.conns = s.conns) (hevents : s'.events = s.events)
    (hlevel : s'.curLevel = s.curLevel) : s'.Alive (.conn c k) ↔ s.Alive (.conn c k) := by
  rw [Alive, Alive, level, level, cur, cur, hconns, hevents, hlevel]

/-- Where every connection holds all its objects, the events do not matter. -/
theorem alive_conn_full (hlevel : s.curLevel = 7) :
    s.Alive (.conn c k) ↔ c < s.conns := by
  rw [Alive, level, hlevel, ite_self]
  exact and_iff_left k.rank_lt

/-- What is alive depends on the level of the connection of the last event only. -/
theorem alive_congr (hpc : s.pc.Serving) (hpc' : s'.pc.Serving) (hconns : s'.conns = s.conns)
    (hevents : s'.events = s.events) (hlevel : s'.curLevel = s.curLevel) :
    s'.Alive x ↔ s.Alive x := by
  cases x with
  | channel => exact iff_of_true hpc'.1 hpc.1
  | listener => exact iff_of_true hpc' hpc
  | conn c k => exact alive_conn_congr hconns hevents hlevel

theorem alive_full (hpc : s.pc.Serving) (hpc' : s'.pc.Serving) (hconns : s'.conns = s.conns)
    (hlevel : s.curLevel = 7) (hlevel' : s'.curLevel = 7) : s'.Alive x ↔ s.Alive x := by
  cases x with
  | channel => exact iff_of_true hpc'.1 hpc.1
  | listener => exact iff_of_true hpc' hpc
  | conn c k => rw [alive_conn_full hlevel, alive_conn_full hlevel', hconns]

/-- What has been obtained stays so. -/
theorem Obtained.mono (h : s.Obtained x) (hpc : s'.pc ≠ .createChannel ∧ s'.pc ≠ .createId)
    (hconns : s'.conns = s.conns) (hevents : s'.events = s.events) (hr : s.reached ≤ s'.reached) :
    s'.Obtained x := by
  cases x with
  | channel => exact hpc.1
  | listener => exact hpc
  | conn c k =>
    rw [Obtained, cur, hconns, hevents]
    exact ⟨h.1, fun hcur => (h.2 hcur).trans_le hr⟩

/-- Outside of `on_connect_request`, anything may have been obtained. -/
theorem Obtained.full (h : s.Obtained x) (hpc : s'.pc ≠ .createChannel ∧ s'.pc ≠ .createId)
    (hconns : s'.conns = s.conns) (hr : s'.reached = 7) : s'.Obtained x := by
  cases x with
  | channel => exact hpc.1
  | listener => exact hpc
  | conn c k =>
    rw [Obtained, hconns, hr]
    exact ⟨h.1, fun _ => k.rank_lt⟩

/-- **One level more is one object more.** -/
theorem alive_raise (hpc : s.pc.Serving) (hpc' : s'.pc.Serving) (hconns : s'.conns = s.conns)
    (hevents : s'.events = s.events) (hcur : s.cur = some c) (hc : c < s.conns)
    (hlevel : s.curLevel = k.rank) (hlevel' : s'.curLevel = k.rank + 1) :
    s'.Alive x ↔ s.Alive x ∨ x = .conn c k := by
  have hcur' : s'.cur = some c := by
    rw [cur, hevents]
    exact hcur
  cases x with
  | channel => exact iff_of_true hpc'.1 (Or.inl hpc.1)
  | listener => exact iff_of_true hpc' (Or.inl hpc)
  | conn c' k' =>
    rw [Alive, Alive, level, level, hcur', hcur, hconns, hlevel, hlevel', CmObj.conn.injEq]
    by_cases hcc : c = c'
    · subst hcc
      rw [if_pos rfl, if_pos rfl, Nat.lt_succ_iff_lt_or_eq, ConnObj.rank_injective.eq_iff]
      constructor
      · rintro ⟨hlt, hk | hk⟩
        · exact Or.inl ⟨hlt, hk⟩
        · exact Or.inr ⟨rfl, hk⟩
      · rintro (⟨hlt, hk⟩ | ⟨-, hk⟩)
        · exact ⟨hlt, Or.inl hk⟩
        · exact ⟨hc, Or.inr hk⟩
    · have hne : ¬some c = some c' := fun h => hcc (Option.some.inj h)
      rw [if_neg hne, if_neg hne]
      exact ⟨Or.inl, fun h => h.resolve_right fun hk => hcc hk.1.symm⟩

/-- Nothing of a connection needs the object on its top. -/
theorem not_alive_of_needs (hcur : s.cur = some c) (hlevel : s.curLevel = k.rank + 1) {d : CmObj}
    (hd : d.Needs (.conn c k)) : ¬s.Alive d := by
  cases d with
  | channel => exact hd.elim
  | listener => cases hd
  | conn c' k' =>
    obtain ⟨rfl, hk⟩ := hd
    rintro ⟨-, hlt⟩
    rw [level, if_pos hcur, hlevel] at hlt
    have := hk.rank_lt
    omega

end CmServer

/-- **The invariant of the objects**: no mistake has been made, the objects that are
alive are told by the levels, and no object has been obtained ahead of its time. -/
structure CmResources (s : CmServer) : Prop where
  orderly : ResLog.Orderly CmObj.Needs s.log
  live : ∀ o, ResLog.Live s.log o ↔ s.Alive o
  obtained : ∀ o, ResAct.acquire o ∈ s.log → s.Obtained o

namespace CmResources

variable {s s' : CmServer} {o : CmObj}

/-- A step that obtains and releases nothing. -/
theorem quiet (h : CmResources s) (hlog : s'.log = s.log) (halive : ∀ x, s'.Alive x ↔ s.Alive x)
    (hobt : ∀ x, s.Obtained x → s'.Obtained x) : CmResources s' where
  orderly := hlog ▸ h.orderly
  live := fun x => by rw [hlog, h.live, halive]
  obtained := fun x hx => hobt x (h.obtained x (hlog ▸ hx))

/-- A step that obtains an object. -/
theorem acquire (h : CmResources s) (hlog : s'.log = s.log ++ [.acquire o]) (hnew : ¬s.Obtained o)
    (halive : ∀ x, s'.Alive x ↔ s.Alive x ∨ x = o)
    (hobt : ∀ x, s.Obtained x ∨ x = o → s'.Obtained x) : CmResources s' where
  orderly := hlog ▸ h.orderly.acquire fun hmem => hnew (h.obtained o hmem)
  live := fun x => by
    have hr : ResAct.release o ∉ s.log :=
      fun hmem => hnew (h.obtained o (h.orderly.acquire_mem hmem))
    rw [hlog, ResLog.live_concat_acquire hr, h.live, halive]
  obtained := by
    intro x hx
    rw [hlog, List.mem_append, List.mem_singleton, ResAct.acquire.injEq] at hx
    exact hobt x (hx.imp_left (h.obtained x))

/-- A step that releases an object. -/
theorem release (h : CmResources s) (hlog : s'.log = s.log ++ [.release o]) (ho : s.Alive o)
    (hdep : ∀ d : CmObj, d.Needs o → ¬s.Alive d) (halive : ∀ x, s'.Alive x ↔ s.Alive x ∧ x ≠ o)
    (hobt : ∀ x, s.Obtained x → s'.Obtained x) : CmResources s' where
  orderly := hlog ▸ h.orderly.release ((h.live o).mpr ho)
    fun d hd hlive => hdep d hd ((h.live d).mp hlive)
  live := fun x => by rw [hlog, ResLog.live_concat_release, h.live, halive]
  obtained := by
    intro x hx
    rw [hlog, List.mem_append, List.mem_singleton] at hx
    exact hobt x (h.obtained x (hx.resolve_right nofun))

/-- A step of a handler that obtains an object of its connection. -/
theorem raise {c : ℕ} {k : ConnObj} (h : CmResources s) (hc : CmControl s) {ev : CmEvent}
    (hev : s.pc.event = some ev) (hid : ev.id = .conn c)
    (hlog : s'.log = s.log ++ [.acquire (.conn c k)]) (hpc' : s'.pc.Serving)
    (hconns : s'.conns = s.conns) (hevents : s'.events = s.events) (hlevel : s.curLevel = k.rank)
    (hlevel' : s'.curLevel = k.rank + 1) (hr : s.reached = k.rank) (hr' : k.rank < s'.reached) :
    CmResources s' := by
  have hpc := CmServerPc.serving_of_event hev
  obtain ⟨hcur, hlt⟩ := hc.cur_eq hev hid
  refine h.acquire hlog ?_
    (fun x => CmServer.alive_raise hpc hpc' hconns hevents hcur hlt hlevel hlevel') ?_
  · rintro ⟨-, hobt⟩
    exact absurd (hobt hcur) (by rw [hr]; exact lt_irrefl _)
  · rintro x (hx | rfl)
    · exact hx.mono ⟨hpc'.1, hpc'.2.1⟩ hconns hevents (hr ▸ hr'.le)
    · exact ⟨hconns ▸ hlt, fun _ => hr'⟩

/-- A step of a handler that releases an object of its connection. -/
theorem lower {c : ℕ} {k : ConnObj} (h : CmResources s) (hc : CmControl s) {ev : CmEvent}
    (hev : s.pc.event = some ev) (hid : ev.id = .conn c)
    (hlog : s'.log = s.log ++ [.release (.conn c k)]) (hpc' : s'.pc.Serving)
    (hconns : s'.conns = s.conns) (hevents : s'.events = s.events)
    (hlevel : s.curLevel = k.rank + 1) (hlevel' : s'.curLevel = k.rank) (hr' : s'.reached = 7) :
    CmResources s' := by
  have hpc := CmServerPc.serving_of_event hev
  obtain ⟨hcur, hlt⟩ := hc.cur_eq hev hid
  have hcur' : s'.cur = some c := by
    rw [CmServer.cur, hevents]
    exact hcur
  -- read backwards, the step obtains the object
  have hraise : ∀ x, s.Alive x ↔ s'.Alive x ∨ x = .conn c k := fun x =>
    CmServer.alive_raise hpc' hpc hconns.symm hevents.symm hcur' (hconns ▸ hlt) hlevel' hlevel
  have hgone : ¬s'.Alive (.conn c k) := by
    rintro ⟨-, hlt⟩
    rw [CmServer.level, if_pos hcur', hlevel'] at hlt
    exact lt_irrefl _ hlt
  refine h.release hlog ((hraise _).mpr (Or.inr rfl))
    (fun d => CmServer.not_alive_of_needs hcur hlevel) (fun x => ?_)
    fun x hx => hx.full ⟨hpc'.1, hpc'.2.1⟩ hconns hr'
  rw [hraise]
  constructor
  · intro hx
    refine ⟨Or.inl hx, ?_⟩
    rintro rfl
    exact hgone hx
  · rintro ⟨hx | hx, hne⟩
    · exact hx
    · exact absurd hx hne

/-- **A new connection is requested**, and its identifier delivered. -/
theorem request (h : CmResources s) (hpc : s.pc = .loop) (hstop : s.stop = false) :
    CmResources { s with
      pc := .connect .calloc s.conns
      conns := s.conns + 1
      events := s.events ++ [⟨.connectRequest, .conn s.conns⟩]
      log := s.log ++ [.acquire (.conn s.conns .id)] } := by
  have hlevel : s.curLevel = 7 := by
    rw [CmServer.curLevel, hpc, hstop]
    rfl
  have hcur : (CmServer.mk (.connect .calloc s.conns) s.stop (s.conns + 1)
      (s.events ++ [⟨.connectRequest, .conn s.conns⟩])
      (s.log ++ [.acquire (.conn s.conns .id)])).cur = some s.conns := by
    rw [CmServer.cur, List.getLast?_concat]
    rfl
  refine h.acquire rfl (fun hobt => lt_irrefl _ hobt.1) (fun x => ?_) fun x hx => ?_
  · cases x with
    | channel => exact iff_of_true nofun (Or.inl (by rw [CmServer.Alive, hpc]; nofun))
    | listener =>
      refine iff_of_true ⟨nofun, nofun, nofun⟩ (Or.inl ?_)
      rw [CmServer.Alive, hpc]
      exact ⟨nofun, nofun, nofun⟩
    | conn c k =>
      rw [CmServer.alive_conn_full hlevel, CmServer.Alive, CmServer.level, hcur, CmObj.conn.injEq]
      change c < s.conns + 1 ∧ k.rank < (if some s.conns = some c then 1 else 7) ↔ _
      by_cases hcc : s.conns = c
      · subst hcc
        rw [if_pos rfl, Nat.lt_one_iff, ← ConnObj.rank_injective.eq_iff]
        exact ⟨fun hk => Or.inr ⟨rfl, hk.2⟩,
          fun hk => ⟨Nat.lt_succ_self _, (hk.resolve_left (lt_irrefl _)).2⟩⟩
      · have hne : ¬some s.conns = some c := fun heq => hcc (Option.some.inj heq)
        rw [if_neg hne]
        constructor
        · rintro ⟨hlt, -⟩
          exact Or.inl (lt_of_le_of_ne (Nat.le_of_lt_succ hlt) (Ne.symm hcc))
        · rintro (hlt | ⟨heq, -⟩)
          · exact ⟨Nat.lt_succ_of_lt hlt, k.rank_lt⟩
          · exact absurd heq.symm hcc
  · rcases hx with hx | rfl
    · cases x with
      | channel => exact nofun
      | listener => exact ⟨nofun, nofun⟩
      | conn c k =>
        refine ⟨Nat.lt_succ_of_lt hx.1, fun heq => ?_⟩
        -- the connections requested before are not the new one
        obtain rfl := Option.some.inj (hcur.symm.trans heq)
        exact absurd hx.1 (lt_irrefl _)
    · exact ⟨Nat.lt_succ_self _, fun _ => Nat.zero_lt_one⟩

/-- **A handler returns** without releasing anything. -/
theorem ret {ev : CmEvent} {ok : Bool} (h : CmResources s) (hc : CmControl s)
    (hev : s.pc.event = some ev) (hlevel : s.curLevel = CmServer.restLevel (!ok) (some ev)) :
    CmResources (s.ret ok) := by
  refine h.quiet rfl (fun x => ?_) fun x hx => hx.full ⟨nofun, nofun⟩ rfl rfl
  refine CmServer.alive_congr (CmServerPc.serving_of_event hev) ⟨nofun, nofun, nofun⟩ rfl rfl ?_
  rw [hlevel, ← (hc.handler ev hev).1]
  rfl

/-- `main` obtains the channel. -/
theorem openChannel (h : CmResources s) (hpc : s.pc = .createChannel) :
    CmResources (s.act (.acquire .channel) .createId) := by
  have hconn : ∀ c k, (s.act (.acquire .channel) .createId).Alive (.conn c k) ↔
      s.Alive (.conn c k) := by
    refine fun c k => CmServer.alive_conn_congr rfl rfl ?_
    rw [CmServer.curLevel, CmServer.curLevel, hpc]
    rfl
  refine h.acquire rfl (fun hobt => hobt hpc) (fun x => ?_) fun x hx => ?_
  · cases x with
    | channel => exact iff_of_true nofun (Or.inr rfl)
    | listener =>
      exact iff_of_false (fun ha => ha.2.1 rfl) fun ha => ha.elim (fun hl => hl.1 hpc) nofun
    | conn c k =>
      rw [hconn]
      exact (or_iff_left nofun).symm
  · rcases hx with hx | rfl
    · cases x with
      | channel => exact nofun
      | listener => exact absurd hpc hx.1
      | conn c k => exact ⟨hx.1, fun _ => k.rank_lt⟩
    · exact nofun

/-- `main` obtains the listener. -/
theorem openListener (h : CmResources s) (hpc : s.pc = .createId) :
    CmResources (s.act (.acquire .listener) .bindAddr) := by
  have hconn : ∀ c k, (s.act (.acquire .listener) .bindAddr).Alive (.conn c k) ↔
      s.Alive (.conn c k) := by
    refine fun c k => CmServer.alive_conn_congr rfl rfl ?_
    rw [CmServer.curLevel, CmServer.curLevel, hpc]
    rfl
  refine h.acquire rfl (fun hobt => hobt.2 hpc) (fun x => ?_) fun x hx => ?_
  · cases x with
    | channel => exact iff_of_true nofun (Or.inl (by rw [CmServer.Alive, hpc]; nofun))
    | listener => exact iff_of_true ⟨nofun, nofun, nofun⟩ (Or.inr rfl)
    | conn c k =>
      rw [hconn]
      exact (or_iff_left nofun).symm
  · rcases hx with hx | rfl
    · exact hx.full ⟨nofun, nofun⟩ rfl rfl
    · exact ⟨nofun, nofun⟩

/-- `main` destroys the listener, which nothing needs. -/
theorem closeListener (h : CmResources s) (hpc : s.pc = .destroyListener) :
    CmResources (s.act (.release .listener) .destroyChannel) := by
  have hserving : s.pc.Serving := hpc ▸ ⟨nofun, nofun, nofun⟩
  have hconn : ∀ c k, (s.act (.release .listener) .destroyChannel).Alive (.conn c k) ↔
      s.Alive (.conn c k) := by
    refine fun c k => CmServer.alive_conn_congr rfl rfl ?_
    rw [CmServer.curLevel, CmServer.curLevel, hpc]
    rfl
  refine h.release rfl hserving (fun d hd => ?_) (fun x => ?_) fun x hx =>
    hx.full ⟨nofun, nofun⟩ rfl rfl
  · cases d with
    | channel | conn => exact hd.elim
    | listener => cases hd
  · cases x with
    | channel => exact iff_of_true nofun ⟨hserving.1, nofun⟩
    | listener => exact iff_of_false (fun ha => ha.2.2 rfl) fun ha => ha.2 rfl
    | conn c k =>
      rw [hconn]
      exact (and_iff_left nofun).symm

/-- An unexpected event stops the loop, and nothing else. -/
theorem unexpected {ev : CmEvent} (h : CmResources s) (hpc : s.pc = .loop) (hstop : s.stop = false)
    (htype : ev.type ≠ .connectRequest ∧ ev.type ≠ .disconnected) :
    CmResources { s with events := s.events ++ [ev], stop := true } := by
  have hserving : s.pc.Serving := hpc ▸ ⟨nofun, nofun, nofun⟩
  refine h.quiet rfl (fun x => ?_) fun x hx => ?_
  · refine CmServer.alive_full hserving hserving rfl ?_ ?_
    · rw [CmServer.curLevel, hpc, hstop]
      rfl
    · rw [CmServer.curLevel]
      simp only [hpc, List.getLast?_concat]
      obtain ⟨type, id⟩ := ev
      cases type with
      | connectRequest => exact absurd rfl htype.1
      | disconnected => exact absurd rfl htype.2
      | _ => rfl
  · refine hx.full ⟨hserving.1, hserving.2.1⟩ rfl ?_
    simp only [CmServer.reached, hpc]

/-- **A handler is called** for a connection that holds all its objects, and `main`
holds the rest. -/
theorem call (h : CmResources s) (hpc : s.pc = .loop) (hstop : s.stop = false)
    (hlog : s'.log = s.log) (hconns : s'.conns = s.conns) (hpc' : s'.pc.Serving)
    (hlevel : s'.curLevel = 7) (hr : s'.reached = 7) : CmResources s' := by
  refine h.quiet hlog (fun x => ?_) fun x hx => hx.full ⟨hpc'.1, hpc'.2.1⟩ hconns hr
  refine CmServer.alive_full (hpc ▸ ⟨nofun, nofun, nofun⟩) hpc' hconns ?_ hlevel
  rw [CmServer.curLevel, hpc, hstop]
  rfl

/-- **The objects follow every move**, as long as `main` runs. -/
theorem move (h : CmResources s) (hc : CmControl s) (hm : CmMove s s') (hret : s'.pc ≠ .returned)
    (hdone : s'.pc ≠ .done) : CmResources s' := by
  cases hm with
  | giveUp => exact absurd rfl hret
  | destroyChannel => exact absurd rfl hdone
  | openChannel hpc => exact h.openChannel hpc
  | openListener hpc => exact h.openListener hpc
  | destroyListener hpc => exact h.closeListener hpc
  | request hpc hstop => exact h.request hpc hstop
  | unexpected ev hpc hstop htype => exact h.unexpected hpc hstop htype
  | bind hpc | listen hpc | leave hpc =>
    refine h.quiet rfl ?_ fun x hx => hx.full ⟨nofun, nofun⟩ rfl rfl
    intro x
    refine CmServer.alive_congr ?_ ⟨nofun, nofun, nofun⟩ rfl rfl ?_
    · rw [hpc]
      exact ⟨nofun, nofun, nofun⟩
    · simp only [CmServer.curLevel, hpc]
  | serve c hpc hstop | drop c hpc hstop =>
    exact h.call hpc hstop rfl rfl ⟨nofun, nofun, nofun⟩ rfl rfl
  | gain c p p' k hpc hk hr hl hr' =>
    have hev := congrArg CmServerPc.event hpc
    refine h.raise hc hev rfl rfl ⟨nofun, nofun, nofun⟩ rfl rfl ?_ ?_ ?_ ?_
    · rw [CmServer.curLevel, hpc]
      exact hk.symm
    · exact hl.trans (congrArg (· + 1) hk.symm)
    · rw [CmServer.reached, hpc]
      exact hr.trans hk.symm
    · exact hk.trans_lt hr'
  | turn c p p' hpc hl hr =>
    have hserving := CmServerPc.serving_of_event (congrArg CmServerPc.event hpc)
    refine h.quiet rfl (fun x => ?_) fun x hx => ?_
    · refine CmServer.alive_congr hserving ⟨nofun, nofun, nofun⟩ rfl rfl ?_
      rw [CmServer.curLevel, CmServer.curLevel, hpc]
      exact hl
    · refine hx.mono ⟨nofun, nofun⟩ rfl rfl ?_
      rw [CmServer.reached, CmServer.reached, hpc]
      exact hr
  | giveBack c p p' k hpc hk hl hr =>
    have hev := congrArg CmServerPc.event hpc
    refine h.lower hc hev rfl rfl ⟨nofun, nofun, nofun⟩ rfl rfl ?_ hk hr
    rw [CmServer.curLevel, hpc]
    exact hl.trans (congrArg (· + 1) hk)
  | refused c hpc =>
    -- the identifier is what the request leaves behind
    have hev := congrArg CmServerPc.event hpc
    refine h.lower hc hev rfl rfl ⟨nofun, nofun, nofun⟩ rfl rfl ?_ ?_ rfl
    · rw [CmServer.curLevel, hpc]
      rfl
    · change CmServer.restLevel true s.events.getLast? = 1
      rw [(hc.handler _ hev).1]
      rfl
  | noMemory c hpc | accepted c hpc =>
    refine h.ret hc (congrArg CmServerPc.event hpc) ?_
    rw [CmServer.curLevel, hpc]
    rfl
  | wait c p p' hpc =>
    have hserving := CmServerPc.serving_of_event (congrArg CmServerPc.event hpc)
    refine h.quiet rfl (fun x => ?_) fun x hx => hx.full ⟨nofun, nofun⟩ rfl rfl
    refine CmServer.alive_congr hserving ⟨nofun, nofun, nofun⟩ rfl rfl ?_
    rw [CmServer.curLevel, CmServer.curLevel, hpc]
  | served c p ok hpc =>
    refine h.ret hc (congrArg CmServerPc.event hpc) ?_
    rw [CmServer.curLevel, hpc]
    cases ok <;> rfl
  | disconnect c p p' k hpc hk hl =>
    have hev := congrArg CmServerPc.event hpc
    refine h.lower hc hev rfl rfl ⟨nofun, nofun, nofun⟩ rfl rfl ?_ hk rfl
    rw [CmServer.curLevel, hpc]
    exact hl.trans (congrArg (· + 1) hk)
  | destroyId c hpc =>
    have hev := congrArg CmServerPc.event hpc
    refine h.lower hc hev rfl rfl ⟨nofun, nofun, nofun⟩ rfl rfl ?_ ?_ rfl
    · rw [CmServer.curLevel, hpc]
      rfl
    · change CmServer.restLevel true s.events.getLast? = 0
      rw [(hc.handler _ hev).1]
      rfl

/-- Before the first call nothing is alive. -/
theorem start : CmResources CmServer.start where
  orderly := .nil
  live := by
    intro o
    refine iff_of_false (fun hlive => List.not_mem_nil hlive.1) fun ha => ?_
    cases o with
    | channel => exact ha rfl
    | listener => exact ha.1 rfl
    | conn c k => exact Nat.not_lt_zero c ha.1
  obtained := fun _ hmem => absurd hmem List.not_mem_nil

end CmResources

/-! ### Runs -/

/-- Only the last call of `main` ends the run. -/
theorem CmMove.eq_of_done {s s' : CmServer} (hm : CmMove s s') (hdone : s'.pc = .done) :
    s.pc = .destroyChannel ∧ s' = s.act (.release .channel) .done := by
  cases hm with
  | destroyChannel hpc => exact ⟨hpc, rfl⟩
  | unexpected ev hpc => exact absurd (hpc.symm.trans hdone) nofun
  | _ => cases hdone

namespace CmServer

variable {s s' : CmServer}

/-- **The end of a run**: the server has destroyed the channel in a state where the
invariants hold. -/
def Ended (s : CmServer) : Prop :=
  ∃ t, CmControl t ∧ CmResources t ∧ t.pc = .destroyChannel ∧ s = t.act (.release .channel) .done

/-- **What holds in every state reached.** -/
structure Sound (s : CmServer) : Prop where
  running : s.pc ≠ .returned → s.pc ≠ .done → CmControl s ∧ CmResources s
  ended : s.pc = .done → s.Ended

/-- The server stays where it has returned. -/
theorem running_of_next {l : CmLabel} (hs : s.next l = some s') :
    s.pc ≠ .returned ∧ s.pc ≠ .done := by
  constructor
  · intro hpc
    simp only [next, hpc, reduceCtorEq] at hs
  · intro hpc
    simp only [next, hpc, reduceCtorEq] at hs

theorem Sound.next {l : CmLabel} (h : s.Sound) (hs : s.next l = some s') : s'.Sound := by
  have hrun := running_of_next hs
  obtain ⟨hc, hr⟩ := h.running hrun.1 hrun.2
  have hm := next_move hs
  constructor
  · intro hret hdone
    exact ⟨hc.move hm, hr.move hc hm hret hdone⟩
  · intro hdone
    obtain ⟨hpc, heq⟩ := hm.eq_of_done hdone
    exact ⟨s, hc, hr, hpc, heq⟩

theorem Sound.of_reach (h : cmServerLts.Reach Lts.any s) : s.Sound := by
  refine h.invariant ?_ fun a l b ha _ hs => ha.next hs
  rintro a rfl
  exact ⟨fun _ _ => ⟨CmControl.start, CmResources.start⟩, nofun⟩

end CmServer

section Cleanup

variable {s : CmServer}

theorem CmServer.restLevel_eq_zero {stop : Bool} {last : Option CmEvent}
    (h : CmServer.restLevel stop last = 0) : ∃ id, last = some ⟨.disconnected, id⟩ := by
  unfold CmServer.restLevel at h
  split at h
  · cases h
  · exact ⟨_, rfl⟩
  · cases h

/-- Where `main` is about to destroy the channel, a connection holds nothing exactly
when the last event was its DISCONNECTED. -/
theorem CmControl.level_eq_zero (h : CmControl s) (hpc : s.pc = .destroyChannel) {c : ℕ} :
    s.level c = 0 ↔ s.events.getLast? = some ⟨.disconnected, .conn c⟩ := by
  have hcl : s.curLevel = CmServer.restLevel s.stop s.events.getLast? := by
    rw [CmServer.curLevel, hpc]
  constructor
  · intro h0
    have hcur : s.cur = some c := by
      by_contra hne
      rw [CmServer.level, if_neg hne] at h0
      cases h0
    rw [CmServer.level, if_pos hcur, hcl] at h0
    obtain ⟨id, hlast⟩ := CmServer.restLevel_eq_zero h0
    rw [CmServer.cur, hlast, Option.bind_some] at hcur
    cases id with
    | listener => cases hcur
    | conn c' => rw [hlast, Option.some.inj hcur]
  · intro hlast
    have hstop : s.stop = true := h.stopped (congrArg CmServerPc.event hpc) _ hlast
    have hcur : s.cur = some c := by
      rw [CmServer.cur, hlast]
      rfl
    rw [CmServer.level, if_pos hcur, hcl, hlast, hstop]
    rfl

/-- Only the channel is alive there exactly when no connection holds anything. -/
theorem CmResources.only_channel (h : CmResources s) (hpc : s.pc = .destroyChannel) :
    (∀ o, ResLog.Live s.log o → o = .channel) ↔ ∀ c < s.conns, s.level c = 0 := by
  constructor
  · intro honly c hc
    by_contra hne
    have halive : s.Alive (.conn c .id) := ⟨hc, Nat.pos_of_ne_zero hne⟩
    cases honly _ ((h.live _).mpr halive)
  · intro hzero o ho
    have halive := (h.live o).mp ho
    cases o with
    | channel => rfl
    | listener => exact absurd hpc halive.2.2
    | conn c k =>
      have hlt := halive.2
      rw [hzero c halive.1] at hlt
      exact absurd hlt (Nat.not_lt_zero _)

/-- **The connections of a run**: the last event is the DISCONNECTED of each of them
exactly when there is none, or only one and it has been disconnected. -/
theorem CmControl.all_disconnected (h : CmControl s) :
    (∀ c < s.conns, s.events.getLast? = some ⟨.disconnected, .conn c⟩) ↔
      (∀ ev ∈ s.events, ev.type ≠ .connectRequest) ∨
        ∃ id, s.events.filter (fun ev => ev.type = .connectRequest) = [⟨.connectRequest, id⟩] ∧
          s.events.getLast? = some ⟨.disconnected, id⟩ := by
  have hreq := h.requests
  constructor
  · intro hall
    cases hn : s.conns with
    | zero =>
      rw [hn, List.range_zero, List.map_nil, List.filter_eq_nil_iff] at hreq
      exact Or.inl fun ev hev heq => hreq ev hev (decide_eq_true heq)
    | succ n =>
      have hfirst := hall 0 (by omega)
      have hlast := hall n (by omega)
      -- one event is the DISCONNECTED of one connection
      obtain rfl : n = 0 := by
        rw [hfirst] at hlast
        exact (CmId.conn.inj (congrArg CmEvent.id (Option.some.inj hlast))).symm
      rw [hn] at hreq
      exact Or.inr ⟨.conn 0, hreq, hfirst⟩
  · rintro (hnone | ⟨id, hone, hlast⟩) c hc
    · have hnil : s.events.filter (fun ev => ev.type = .connectRequest) = [] :=
        List.filter_eq_nil_iff.mpr fun ev hev heq => hnone ev hev (of_decide_eq_true heq)
      rw [hreq, List.map_eq_nil_iff, List.range_eq_nil] at hnil
      omega
    · rw [hreq] at hone
      have hlen : s.conns = 1 := by simpa using congrArg List.length hone
      rw [hlen] at hone hc
      obtain rfl : c = 0 := by omega
      have hid : CmId.conn 0 = id := congrArg CmEvent.id (List.cons.inj hone).1
      rw [hlast, hid]

/-- **The lifecycle of the resources**: when the loop of the server has ended and its
cleanup has run, everything obtained has been released exactly once, after what
depends on it, exactly when no connection was requested, or a single one and its
DISCONNECTED was the last event. -/
theorem cm_lifecycle (s : CmServer) (h : cmServerLts.Reach Lts.any s) (hdone : s.pc = .done) :
    ResLog.Complete CmObj.Needs s.log ↔
      (∀ ev ∈ s.events, ev.type ≠ .connectRequest) ∨
        ∃ id, s.events.filter (fun ev => ev.type = .connectRequest) = [⟨.connectRequest, id⟩] ∧
          s.events.getLast? = some ⟨.disconnected, id⟩ := by
  obtain ⟨t, hc, hr, hpc, rfl⟩ := (CmServer.Sound.of_reach h).ended hdone
  have hchannel : ResLog.Live t.log .channel := by
    refine (hr.live _).mpr ?_
    rw [CmServer.Alive, hpc]
    exact nofun
  calc ResLog.Complete CmObj.Needs (t.log ++ [.release .channel])
    _ ↔ ∀ o, ResLog.Live t.log o → o = .channel :=
        hr.orderly.complete_concat_iff hchannel fun hself => hself.elim
    _ ↔ ∀ c < t.conns, t.level c = 0 := hr.only_channel hpc
    _ ↔ ∀ c < t.conns, t.events.getLast? = some ⟨.disconnected, .conn c⟩ :=
        forall₂_congr fun c _ => hc.level_eq_zero hpc
    _ ↔ _ := hc.all_disconnected

end Cleanup

/-! ### Two runs -/

/-- A client asks for the connection `c`, and every call for it succeeds. -/
def cmRequest (c : ℕ) : List CmLabel :=
  .getEvent (some ⟨.connectRequest, .conn c⟩) :: List.replicate 8 (.call true)

/-- The client sends its message and gets the reply. -/
def cmServe (c : ℕ) : List CmLabel :=
  [.getEvent (some ⟨.established, .conn c⟩), .poll .empty .success, .poll .one .success, .call true,
    .poll .one .success]

/-- The client disconnects; the server releases the connection and shuts down. -/
def cmLeave (c : ℕ) : List CmLabel :=
  .getEvent (some ⟨.disconnected, .conn c⟩) :: List.replicate 10 .cpu

/-- One client. -/
theorem cm_lifecycle_oneClient : ∃ s, cmServerLts.Reach Lts.any s ∧ s.pc = .done ∧ s.conns = 1 ∧
    ResLog.Complete CmObj.Needs s.log := by
  have hrun : (Lts.exec CmServer.next Lts.any CmServer.start
      (List.replicate 4 (.call true) ++ cmRequest 0 ++ cmServe 0 ++ cmLeave 0)).map
        (fun s => (s.pc, s.conns, s.events)) =
      some (.done, 1, [⟨.connectRequest, .conn 0⟩, ⟨.established, .conn 0⟩,
        ⟨.disconnected, .conn 0⟩]) := by
    decide +kernel
  obtain ⟨s, hs, hview⟩ := Option.map_eq_some_iff.mp hrun
  obtain ⟨hdone, hconns, hevents⟩ : _ ∧ _ ∧ _ := by simpa using hview
  have hr : cmServerLts.Reach Lts.any s := ⟨_, rfl, Lts.path_of_exec hs⟩
  refine ⟨s, hr, hdone, hconns, (cm_lifecycle s hr hdone).mpr (Or.inr ⟨.conn 0, ?_⟩)⟩
  rw [hevents]
  exact ⟨rfl, rfl⟩

/-- **The other client is forgotten**: where two clients are connected and one of them
leaves, the identifier of the other is never destroyed. -/
theorem cm_leaks_twoClients : ∃ s, cmServerLts.Reach Lts.any s ∧ s.pc = .done ∧
    ¬ResLog.Complete CmObj.Needs s.log := by
  have hrun : (Lts.exec CmServer.next Lts.any CmServer.start
      (List.replicate 4 (.call true) ++ cmRequest 0 ++ cmRequest 1 ++ cmServe 0 ++ cmLeave 0)).map
        (fun s => (s.pc, decide (.acquire (.conn 1 .id) ∈ s.log),
          s.log.count (.release (.conn 1 .id)))) =
      some (.done, true, 0) := by
    decide +kernel
  obtain ⟨s, hs, hview⟩ := Option.map_eq_some_iff.mp hrun
  obtain ⟨hdone, hrest⟩ := Prod.mk.inj hview
  obtain ⟨hmem, hcount⟩ := Prod.mk.inj hrest
  refine ⟨s, ⟨_, rfl, Lts.path_of_exec hs⟩, hdone, fun hcomplete => ?_⟩
  have hone := hcomplete.once _ (of_decide_eq_true hmem)
  exact Nat.zero_ne_one (hcount.symm.trans hone)

end RdmaBook
