import RdmaBook.Cm.Client
import RdmaBook.Cm.Lifecycle

/-!
# What cm_client releases

The client holds its objects like a stack, the channel at the bottom and the queue pair
on top, and one number tells what it holds (`RdmaBook.CmClient.level`). Every handler
that fails before the connection has been asked for takes the stack down to the
identifier, and so does `on_disconnected`; nothing else does. So where the connection
has been asked for, and the loop ends for another reason than DISCONNECTED, what
`on_route_resolved` has obtained stays behind (`RdmaBook.cm_client_lifecycle`).
-/

namespace RdmaBook

/-! ### Levels -/

/-- The place of an object in the order in which the client obtains its objects. -/
def ClientObj.rank : ClientObj → ℕ
  | .channel => 0
  | .conn k => k.rank + 1

theorem ClientObj.rank_injective : Function.Injective ClientObj.rank := by
  intro o o' h
  cases o with
  | channel => cases o' with
    | channel => rfl
    | conn k' => cases h
  | conn k => cases o' with
    | channel => cases h
    | conn k' => rw [ConnObj.rank_injective (Nat.succ.inj h)]

/-- What an object needs has been obtained before it. -/
theorem ClientObj.Needs.rank_lt (d o : ClientObj) (h : d.Needs o) : o.rank < d.rank := by
  cases d with
  | channel => exact h.elim
  | conn k => cases o with
    | channel => exact Nat.succ_pos _
    | conn k' => exact Nat.succ_lt_succ (ConnObj.Needs.rank_lt h)

/-- The number of objects the client holds at a place of `on_route_resolved`. -/
def RoutePc.level : RoutePc → ℕ
  | .calloc => 2
  | .allocPd => 3
  | .createCq => 4
  | .regRecvMr => 5
  | .regSendMr => 6
  | .createQp => 7
  | .postReceive => 8
  | .connect => 8
  | .errQp => 8
  | .errSendMr => 7
  | .errRecvMr => 6
  | .errCq => 5
  | .errPd => 4
  | .errFree => 3

/-- A bound on the number of objects it has obtained: on the way up, the level. -/
def RoutePc.reached : RoutePc → ℕ
  | .calloc => 2
  | .allocPd => 3
  | .createCq => 4
  | .regRecvMr => 5
  | .regSendMr => 6
  | .createQp => 7
  | _ => 8

theorem RoutePc.reached_le (p : RoutePc) : p.reached ≤ 8 := by
  cases p <;> decide

/-- The number of objects the client holds at a place of `on_disconnected`. -/
def ReleasePc.level : ReleasePc → ℕ
  | .destroyQp => 8
  | .deregSend => 7
  | .deregRecv => 6
  | .destroyCq => 5
  | .deallocPd => 4
  | .freeCtx => 3

namespace CmClient

/-- The number of objects the client holds outside of the two handlers that change it:
all of them from the request of the connection to its end. -/
def held (s : CmClient) : ℕ :=
  if s.connectAsked = true ∧ CmEventType.disconnected ∉ s.events then 8 else 2

/-- **The level of the client.** -/
def level (s : CmClient) : ℕ :=
  match s.pc with
  | .createChannel => 0
  | .createId => 1
  | .route p => p.level
  | .disconnected p => p.level
  | _ => s.held

/-- A bound on the number of objects the client has obtained. -/
def reached (s : CmClient) : ℕ :=
  match s.pc with
  | .createChannel => 0
  | .createId => 1
  | .route p => p.reached
  | _ => if CmEventType.routeResolved ∈ s.events then 8 else 2

section Held

variable {s s' : CmClient}

theorem held_open (hc : s.connectAsked = true) (hd : CmEventType.disconnected ∉ s.events) :
    s.held = 8 :=
  if_pos ⟨hc, hd⟩

theorem held_idle (hc : s.connectAsked = false) : s.held = 2 :=
  if_neg fun h => Bool.false_ne_true (hc.symm.trans h.1)

theorem held_closed (hd : CmEventType.disconnected ∈ s.events) : s.held = 2 :=
  if_neg fun h => h.2 hd

/-- An event other than DISCONNECTED does not change what the client holds. -/
theorem held_concat {ev : CmEventType} (hev : ev ≠ .disconnected)
    (hevents : s'.events = s.events ++ [ev]) (hc : s'.connectAsked = s.connectAsked) :
    s'.held = s.held := by
  have hmem : CmEventType.disconnected ∉ s'.events ↔ CmEventType.disconnected ∉ s.events := by
    rw [hevents, List.mem_append, List.mem_singleton, or_iff_left hev.symm]
  simp only [held, hc, hmem]

theorem reached_le (s : CmClient) : s.reached ≤ 8 := by
  unfold reached
  split
  · decide
  · decide
  · exact RoutePc.reached_le _
  · split <;> decide

end Held

end CmClient

/-! ### What a step does -/

/-- **The moves of the client.** -/
inductive ClientMove (s : CmClient) : CmClient → Prop
  | openChannel (hpc : s.pc = .createChannel) : ClientMove s (s.act (.acquire .channel) .createId)
  | openId (hpc : s.pc = .createId) : ClientMove s (s.act (.acquire (.conn .id)) .resolveAddr)
  | enter (hpc : s.pc = .resolveAddr) : ClientMove s { s with pc := .loop }
  | giveUp : ClientMove s { s with pc := .returned }
  | leave (hpc : s.pc = .loop) : ClientMove s { s with pc := .destroyId }
  | resolved (hpc : s.pc = .loop) (hstop : s.stop = false) :
      ClientMove s { s with events := s.events ++ [.addrResolved], pc := .resolveRoute }
  | routed (hpc : s.pc = .loop) (hstop : s.stop = false)
      (hnew : CmEventType.routeResolved ∉ s.events) :
      ClientMove s { s with events := s.events ++ [.routeResolved], pc := .route .calloc }
  | greet (hpc : s.pc = .loop) (hstop : s.stop = false) (hc : s.connectAsked = true) :
      ClientMove s { s with events := s.events ++ [.established], pc := .established .postSend }
  | drop (hpc : s.pc = .loop) (hstop : s.stop = false) (hc : s.connectAsked = true) :
      ClientMove s { s with events := s.events ++ [.disconnected], pc := .disconnected .destroyQp }
  | unexpected (ev : CmEventType) (hpc : s.pc = .loop) (hstop : s.stop = false)
      (htype : ev ≠ .routeResolved ∧ ev ≠ .disconnected) :
      ClientMove s { s with events := s.events ++ [ev], stop := true }
  /-- `on_addr_resolved` returns. -/
  | askRoute (ok asked : Bool) (hpc : s.pc = .resolveRoute) :
      ClientMove s { s.ret ok with routeAsked := asked }
  /-- A call of `on_route_resolved` obtains an object. -/
  | gain (p p' : RoutePc) (k : ConnObj) (hpc : s.pc = .route p) (hk : k.rank + 1 = p.level)
      (hr : p.reached = p.level) (hl : p'.level = p.level + 1) (hr' : p'.reached = p'.level) :
      ClientMove s (s.act (.acquire (.conn k)) (.route p'))
  /-- A call of `on_route_resolved` that obtains nothing, or fails. -/
  | turn (p p' : RoutePc) (hpc : s.pc = .route p) (hl : p'.level = p.level)
      (hr : p'.reached = 8) : ClientMove s { s with pc := .route p' }
  /-- A label of `on_route_resolved` releases an object. -/
  | giveBack (p p' : RoutePc) (k : ConnObj) (hpc : s.pc = .route p) (hk : k.rank + 1 = p'.level)
      (hl : p.level = p'.level + 1) (hr : p'.reached = 8) :
      ClientMove s (s.act (.release (.conn k)) (.route p'))
  /-- The last label of `on_route_resolved`. -/
  | refused (hpc : s.pc = .route .errFree) :
      ClientMove s ((s.act (.release (.conn .ctx)) .loop).ret false)
  | noMemory (hpc : s.pc = .route .calloc) : ClientMove s (s.ret false)
  | connecting (hpc : s.pc = .route .connect) :
      ClientMove s { s.ret true with connectAsked := true }
  | wait (p p' : GreetPc) (hpc : s.pc = .established p) :
      ClientMove s { s with pc := .established p' }
  | greeted (p : GreetPc) (ok : Bool) (hpc : s.pc = .established p) : ClientMove s (s.ret ok)
  /-- A call of `on_disconnected` releases an object. -/
  | release (p p' : ReleasePc) (k : ConnObj) (hpc : s.pc = .disconnected p)
      (hk : k.rank + 1 = p'.level) (hl : p.level = p'.level + 1) :
      ClientMove s (s.act (.release (.conn k)) (.disconnected p'))
  /-- The last call of `on_disconnected`. -/
  | released (hpc : s.pc = .disconnected .freeCtx) :
      ClientMove s { s.act (.release (.conn .ctx)) .loop with stop := true }
  | destroyId (hpc : s.pc = .destroyId) :
      ClientMove s (s.act (.release (.conn .id)) .destroyChannel)
  | destroyChannel (hpc : s.pc = .destroyChannel) : ClientMove s (s.act (.release .channel) .done)

section Moves

variable {s s' : CmClient}

theorem CmClient.tryAcquire_move {k : ConnObj} {ok : Bool} {p p' err : RoutePc}
    (hpc : s.pc = .route p)
    (hk : k.rank + 1 = p.level) (hr : p.reached = p.level) (hl : p'.level = p.level + 1)
    (hr' : p'.reached = p'.level) (herr : err.level = p.level) (herr' : err.reached = 8) :
    ClientMove s (s.tryAcquire k ok p' err) := by
  cases ok
  · exact .turn p err hpc herr herr'
  · exact .gain p p' k hpc hk hr hl hr'

theorem CmClient.routeCall_move {ok : Bool} {p : RoutePc} (hpc : s.pc = .route p)
    (hs : s.routeCall ok p = some s') : ClientMove s s' := by
  cases p with
  | calloc =>
    obtain rfl := Option.some.inj hs
    cases ok
    · exact .noMemory hpc
    · exact .gain .calloc .allocPd .ctx hpc rfl rfl rfl rfl
  | allocPd | createCq | regRecvMr | regSendMr | createQp =>
    exact Option.some.inj hs ▸ CmClient.tryAcquire_move hpc rfl rfl rfl rfl rfl rfl
  | postReceive =>
    obtain rfl := Option.some.inj hs
    cases ok
    · exact .turn .postReceive .errQp hpc rfl rfl
    · exact .turn .postReceive .connect hpc rfl rfl
  | connect =>
    obtain rfl := Option.some.inj hs
    cases ok
    · exact .turn .connect .errQp hpc rfl rfl
    · exact .connecting hpc
  | errQp | errSendMr | errRecvMr | errCq | errPd | errFree => cases hs

theorem CmClient.routeErr_move {p : RoutePc} (hpc : s.pc = .route p) (hs : s.routeErr p = some s') :
    ClientMove s s' := by
  cases p with
  | errQp => exact Option.some.inj hs ▸ .giveBack .errQp .errSendMr .qp hpc rfl rfl rfl
  | errSendMr => exact Option.some.inj hs ▸ .giveBack .errSendMr .errRecvMr .sendMr hpc rfl rfl rfl
  | errRecvMr => exact Option.some.inj hs ▸ .giveBack .errRecvMr .errCq .recvMr hpc rfl rfl rfl
  | errCq => exact Option.some.inj hs ▸ .giveBack .errCq .errPd .cq hpc rfl rfl rfl
  | errPd => exact Option.some.inj hs ▸ .giveBack .errPd .errFree .pd hpc rfl rfl rfl
  | errFree => exact Option.some.inj hs ▸ .refused hpc
  | calloc | allocPd | createCq | regRecvMr | regSendMr | createQp | postReceive | connect =>
      cases hs

theorem CmClient.establishedPoll_move {ret : PollRet} {status : WcStatus} {p : GreetPc}
    (hpc : s.pc = .established p) (hs : s.establishedPoll ret status p = some s') :
    ClientMove s s' := by
  have hidle : ClientMove s s := by
    have hwait := ClientMove.wait p p hpc
    rwa [← hpc] at hwait
  cases p with
  | pollSend =>
    cases ret with
    | failed => exact Option.some.inj hs ▸ .greeted .pollSend false hpc
    | empty => exact Option.some.inj hs ▸ hidle
    | one =>
      obtain rfl := Option.some.inj hs
      split
      · exact .wait .pollSend .pollRecv hpc
      · exact .greeted .pollSend false hpc
  | pollRecv =>
    cases ret with
    | failed => exact Option.some.inj hs ▸ .greeted .pollRecv false hpc
    | empty => exact Option.some.inj hs ▸ hidle
    | one =>
      obtain rfl := Option.some.inj hs
      split
      · exact .wait .pollRecv .disconnect hpc
      · exact .greeted .pollRecv false hpc
  | postSend | disconnect => cases hs

theorem CmClient.disconnectedCall_move {p : ReleasePc} (hpc : s.pc = .disconnected p) :
    ClientMove s (s.disconnectedCall p) := by
  cases p with
  | destroyQp => exact .release .destroyQp .deregSend .qp hpc rfl rfl
  | deregSend => exact .release .deregSend .deregRecv .sendMr hpc rfl rfl
  | deregRecv => exact .release .deregRecv .destroyCq .recvMr hpc rfl rfl
  | destroyCq => exact .release .destroyCq .deallocPd .cq hpc rfl rfl
  | deallocPd => exact .release .deallocPd .freeCtx .pd hpc rfl rfl
  | freeCtx => exact .released hpc

theorem CmClient.dispatch_move {ev : CmEventType} (hpc : s.pc = .loop) (hstop : s.stop = false)
    (hev : s.CanDeliver ev) : ClientMove s (s.dispatch ev) := by
  cases ev with
  | addrResolved => exact .resolved hpc hstop
  | routeResolved => exact .routed hpc hstop hev.2
  | established => exact .greet hpc hstop hev.1
  | disconnected => exact .drop hpc hstop hev
  | _ => exact .unexpected _ hpc hstop ⟨nofun, nofun⟩

/-- **Every step is one of the moves.** -/
theorem CmClient.next_move {l : ClientLabel} (hs : s.next l = some s') : ClientMove s s' := by
  unfold CmClient.next at hs
  split at hs
  · rename_i ok hpc
    cases ok
    · exact Option.some.inj hs ▸ .giveUp
    · exact Option.some.inj hs ▸ .openChannel hpc
  · rename_i ok hpc
    cases ok
    · exact Option.some.inj hs ▸ .giveUp
    · exact Option.some.inj hs ▸ .openId hpc
  · rename_i ok hpc
    cases ok
    · exact Option.some.inj hs ▸ .giveUp
    · exact Option.some.inj hs ▸ .enter hpc
  · rename_i hpc
    split at hs
    · exact Option.some.inj hs ▸ .leave hpc
    · cases hs
  · rename_i hpc
    split at hs
    · cases hs
    · exact Option.some.inj hs ▸ .leave hpc
  · rename_i ev hpc
    split at hs
    · rename_i hev
      exact Option.some.inj hs ▸ CmClient.dispatch_move hpc hev.1 hev.2
    · cases hs
  · rename_i ok hpc
    cases ok
    · exact Option.some.inj hs ▸ .askRoute false s.routeAsked hpc
    · exact Option.some.inj hs ▸ .askRoute true true hpc
  · rename_i p ok hpc
    exact CmClient.routeCall_move hpc hs
  · rename_i p hpc
    exact CmClient.routeErr_move hpc hs
  · rename_i ok hpc
    cases ok
    · exact Option.some.inj hs ▸ .greeted .postSend false hpc
    · exact Option.some.inj hs ▸ .wait .postSend .pollSend hpc
  · rename_i hpc
    exact Option.some.inj hs ▸ .greeted .disconnect true hpc
  · rename_i p ret status hpc
    exact CmClient.establishedPoll_move hpc hs
  · rename_i p hpc
    exact Option.some.inj hs ▸ CmClient.disconnectedCall_move hpc
  · rename_i hpc
    exact Option.some.inj hs ▸ .destroyId hpc
  · rename_i hpc
    exact Option.some.inj hs ▸ .destroyChannel hpc
  · cases hs

end Moves

/-! ### The control of the loop -/

/-- **Where DISCONNECTED has been fetched, and where the connection has been asked
for**: the handlers of the two events that change what the client holds run with nothing
asked for and with an open connection. -/
def CmClient.PlaceOk (s : CmClient) : ClientPc → Prop
  | .createChannel | .createId | .resolveAddr => s.connectAsked = false ∧ s.events = []
  | .loop => s.stop = false → CmEventType.disconnected ∉ s.events
  | .resolveRoute => CmEventType.disconnected ∉ s.events
  | .route _ => CmEventType.routeResolved ∈ s.events ∧ s.connectAsked = false ∧
      CmEventType.disconnected ∉ s.events
  | .established _ => s.connectAsked = true ∧ CmEventType.disconnected ∉ s.events
  | .disconnected _ => s.connectAsked = true ∧ CmEventType.disconnected ∈ s.events
  | _ => True

/-- **The invariant of the loop.** -/
structure ClientControl (s : CmClient) : Prop where
  place : s.PlaceOk s.pc
  asked : s.connectAsked = true → CmEventType.routeResolved ∈ s.events

namespace ClientControl

variable {s s' : CmClient}

theorem start : ClientControl CmClient.start := ⟨⟨rfl, rfl⟩, nofun⟩

/-- At a place of the client, the invariant says this. -/
theorem at_place {pc : ClientPc} (h : ClientControl s) (hpc : s.pc = pc) : s.PlaceOk pc :=
  hpc ▸ h.place

theorem mem_concat {ev x : CmEventType} {l : List CmEventType} (hne : x ≠ ev) :
    x ∈ l ++ [ev] ↔ x ∈ l := by
  rw [List.mem_append, List.mem_singleton]
  exact or_iff_left hne

theorem move (h : ClientControl s) (hm : ClientMove s s') : ClientControl s' := by
  cases hm with
  | openChannel hpc | openId hpc => exact ⟨h.at_place hpc, h.asked⟩
  | enter hpc =>
    obtain ⟨-, hev⟩ := h.at_place hpc
    refine ⟨fun _ => ?_, h.asked⟩
    rw [hev]
    exact List.not_mem_nil
  | giveUp | leave | destroyId | destroyChannel => exact ⟨trivial, h.asked⟩
  | resolved hpc hstop =>
    refine ⟨?_, fun hc => List.mem_append_left _ (h.asked hc)⟩
    change CmEventType.disconnected ∉ s.events ++ [.addrResolved]
    rw [mem_concat (by decide)]
    exact h.at_place hpc hstop
  | routed hpc hstop hnew =>
    refine ⟨⟨List.mem_concat_self, ?_, ?_⟩, fun _ => List.mem_concat_self⟩
    · by_contra hc
      exact hnew (h.asked (eq_true_of_ne_false hc))
    · rw [mem_concat (by decide)]
      exact h.at_place hpc hstop
  | greet hpc hstop hc =>
    refine ⟨⟨hc, ?_⟩, fun hc => List.mem_append_left _ (h.asked hc)⟩
    rw [mem_concat (by decide)]
    exact h.at_place hpc hstop
  | drop hpc hstop hc =>
    exact ⟨⟨hc, List.mem_concat_self⟩, fun hc => List.mem_append_left _ (h.asked hc)⟩
  | unexpected ev hpc hstop htype =>
    refine ⟨?_, fun hc => List.mem_append_left _ (h.asked hc)⟩
    simp only [hpc]
    exact nofun
  | askRoute ok asked hpc => exact ⟨fun _ => h.at_place hpc, h.asked⟩
  | gain p p' k hpc | turn p p' hpc | giveBack p p' k hpc => exact ⟨h.at_place hpc, h.asked⟩
  | refused hpc | noMemory hpc => exact ⟨fun _ => (h.at_place hpc).2.2, h.asked⟩
  | connecting hpc =>
    obtain ⟨hmem, -, hnot⟩ := h.at_place hpc
    exact ⟨fun _ => hnot, fun _ => hmem⟩
  | wait p p' hpc => exact ⟨h.at_place hpc, h.asked⟩
  | greeted p ok hpc => exact ⟨fun _ => (h.at_place hpc).2, h.asked⟩
  | release p p' k hpc => exact ⟨h.at_place hpc, h.asked⟩
  | released hpc => exact ⟨nofun, h.asked⟩

end ClientControl

/-! ### What is alive -/

/-- **The invariant of the objects**: the client holds the first `level` of them. -/
def ClientStacked (s : CmClient) : Prop :=
  ResLog.Stacked ClientObj.Needs ClientObj.rank s.level s.reached s.log

namespace ClientStacked

variable {s s' : CmClient}

theorem start : ClientStacked CmClient.start := ResLog.Stacked.nil

/-- A step that obtains and releases nothing. -/
theorem quiet (h : ClientStacked s) (hlog : s'.log = s.log) (hlevel : s'.level = s.level)
    (hr : s.reached ≤ s'.reached) : ClientStacked s' := by
  rw [ClientStacked, hlog, hlevel]
  exact ResLog.Stacked.mono h hr

/-- A step that obtains the next object. -/
theorem raise {o : ClientObj} (h : ClientStacked s) (hlog : s'.log = s.log ++ [.acquire o])
    (hrank : o.rank = s.level) (hr : s.reached = s.level) (hlevel : s'.level = s.level + 1)
    (hr' : s'.reached = s'.level) : ClientStacked s' := by
  rw [ClientStacked, hr] at h
  rw [ClientStacked, hlog, hr', hlevel]
  exact h.push ClientObj.rank_injective hrank

/-- A step that releases the object on the top. -/
theorem lower {o : ClientObj} (h : ClientStacked s) (hlog : s'.log = s.log ++ [.release o])
    (hrank : o.rank = s'.level) (hlevel : s.level = s'.level + 1) (hr : s.reached ≤ s'.reached) :
    ClientStacked s' := by
  rw [ClientStacked, hlevel] at h
  rw [ClientStacked, hlog]
  exact (h.pop ClientObj.rank_injective ClientObj.Needs.rank_lt hrank).mono hr

/-- **The objects follow every move**, up to the end of the loop. -/
theorem move (h : ClientStacked s) (hc : ClientControl s) (hm : ClientMove s s')
    (hret : s'.pc ≠ .returned) (hid : s'.pc ≠ .destroyChannel) (hdone : s'.pc ≠ .done) :
    ClientStacked s' := by
  cases hm with
  | giveUp => exact absurd rfl hret
  | destroyId => exact absurd rfl hid
  | destroyChannel => exact absurd rfl hdone
  | openChannel hpc =>
    refine h.raise rfl ?_ ?_ ?_ rfl
    · rw [CmClient.level, hpc, ClientObj.rank]
    · rw [CmClient.level, CmClient.reached, hpc]
    · rw [CmClient.level, CmClient.level, hpc]
      rfl
  | openId hpc =>
    obtain ⟨hasked, hev⟩ := hc.at_place hpc
    have hheld : (s.act (.acquire (.conn .id)) .resolveAddr).level = 2 := CmClient.held_idle hasked
    refine h.raise rfl ?_ ?_ ?_ ?_
    · rw [CmClient.level, hpc]
      rfl
    · rw [CmClient.level, CmClient.reached, hpc]
    · rw [hheld, CmClient.level, hpc]
    · rw [hheld, CmClient.reached, CmClient.act, hev]
      rfl
  | enter hpc | leave hpc =>
    refine h.quiet rfl ?_ ?_
    · rw [CmClient.level, CmClient.level, hpc]
      rfl
    · rw [CmClient.reached, CmClient.reached, hpc]
  | resolved hpc hstop =>
    refine h.quiet rfl ?_ ?_
    · rw [CmClient.level, CmClient.level, hpc]
      exact CmClient.held_concat (by decide) rfl rfl
    · rw [CmClient.reached, CmClient.reached, hpc]
      simp only [ClientControl.mem_concat
        (show CmEventType.routeResolved ≠ .addrResolved by decide)]
      exact le_rfl
  | routed hpc hstop hnew =>
    -- nothing has been asked for, since the route is asked for first
    have hasked : s.connectAsked = false := by
      by_contra hne
      exact hnew (hc.asked (eq_true_of_ne_false hne))
    refine h.quiet rfl ?_ ?_
    · rw [CmClient.level, CmClient.level, hpc]
      exact (CmClient.held_idle hasked).symm
    · rw [CmClient.reached, CmClient.reached, hpc]
      simp only [if_neg hnew]
      exact le_rfl
  | greet hpc hstop hasked =>
    refine h.quiet rfl ?_ ?_
    · rw [CmClient.level, CmClient.level, hpc]
      exact CmClient.held_concat (by decide) rfl rfl
    · rw [CmClient.reached, CmClient.reached, hpc]
      simp only [ClientControl.mem_concat (show CmEventType.routeResolved ≠ .established by decide)]
      exact le_rfl
  | drop hpc hstop hasked =>
    refine h.quiet rfl ?_ ?_
    · rw [CmClient.level, CmClient.level, hpc]
      exact (CmClient.held_open hasked (hc.at_place hpc hstop)).symm
    · rw [CmClient.reached, CmClient.reached, hpc]
      simp only [ClientControl.mem_concat
        (show CmEventType.routeResolved ≠ .disconnected by decide)]
      exact le_rfl
  | unexpected ev hpc hstop htype =>
    refine h.quiet rfl ?_ ?_
    · rw [CmClient.level, CmClient.level, hpc]
      exact CmClient.held_concat htype.2 rfl rfl
    · rw [CmClient.reached, CmClient.reached, hpc]
      simp only [ClientControl.mem_concat htype.1.symm]
      exact le_rfl
  | askRoute ok asked hpc =>
    refine h.quiet rfl ?_ ?_
    · rw [CmClient.level, CmClient.level, hpc]
      rfl
    · rw [CmClient.reached, CmClient.reached, hpc]
      exact le_rfl
  | gain p p' k hpc hk hr hl hr' =>
    refine h.raise rfl ?_ ?_ ?_ hr'
    · rw [CmClient.level, hpc]
      exact hk
    · rw [CmClient.level, CmClient.reached, hpc]
      exact hr
    · rw [CmClient.level, CmClient.level, hpc]
      exact hl
  | turn p p' hpc hl hr =>
    refine h.quiet rfl ?_ ?_
    · rw [CmClient.level, CmClient.level, hpc]
      exact hl
    · exact s.reached_le.trans_eq hr.symm
  | giveBack p p' k hpc hk hl hr =>
    refine h.lower rfl hk ?_ ?_
    · rw [CmClient.level, hpc]
      exact hl
    · exact s.reached_le.trans_eq hr.symm
  | refused hpc =>
    obtain ⟨hmem, hasked, -⟩ := hc.at_place hpc
    have hlevel : ((s.act (.release (.conn .ctx)) .loop).ret false).level = 2 :=
      CmClient.held_idle hasked
    refine h.lower rfl hlevel.symm ?_ ?_
    · rw [hlevel, CmClient.level, hpc]
      rfl
    · exact s.reached_le.trans_eq (if_pos hmem).symm
  | noMemory hpc =>
    obtain ⟨hmem, hasked, -⟩ := hc.at_place hpc
    refine h.quiet rfl ?_ ?_
    · rw [CmClient.level, CmClient.level, hpc]
      exact CmClient.held_idle hasked
    · exact s.reached_le.trans_eq (if_pos hmem).symm
  | connecting hpc =>
    obtain ⟨hmem, -, hnot⟩ := hc.at_place hpc
    refine h.quiet rfl ?_ ?_
    · rw [CmClient.level, CmClient.level, hpc]
      exact CmClient.held_open rfl hnot
    · exact s.reached_le.trans_eq (if_pos hmem).symm
  | wait p p' hpc | greeted p ok hpc =>
    refine h.quiet rfl ?_ (le_of_eq ?_)
    · rw [CmClient.level, CmClient.level, hpc]
      rfl
    · rw [CmClient.reached, hpc]
      rfl
  | release p p' k hpc hk hl =>
    refine h.lower rfl hk ?_ ?_
    · rw [CmClient.level, hpc]
      exact hl
    · rw [CmClient.reached, CmClient.reached, hpc]
      exact le_rfl
  | released hpc =>
    obtain ⟨-, hmem⟩ := hc.at_place hpc
    have hlevel : ({ s.act (.release (.conn .ctx)) .loop with stop := true }).level = 2 :=
      CmClient.held_closed hmem
    refine h.lower rfl hlevel.symm ?_ ?_
    · rw [hlevel, CmClient.level, hpc]
      rfl
    · rw [CmClient.reached, CmClient.reached, hpc]
      exact le_rfl

end ClientStacked

/-! ### Runs -/

/-- The last calls of `main` follow each other. -/
theorem ClientMove.eq_of_destroyChannel {s s' : CmClient} (hm : ClientMove s s')
    (hpc' : s'.pc = .destroyChannel) :
    s.pc = .destroyId ∧ s' = s.act (.release (.conn .id)) .destroyChannel := by
  cases hm with
  | destroyId hpc => exact ⟨hpc, rfl⟩
  | unexpected ev hpc => exact absurd (hpc.symm.trans hpc') nofun
  | _ => cases hpc'

theorem ClientMove.eq_of_done {s s' : CmClient} (hm : ClientMove s s') (hpc' : s'.pc = .done) :
    s.pc = .destroyChannel ∧ s' = s.act (.release .channel) .done := by
  cases hm with
  | destroyChannel hpc => exact ⟨hpc, rfl⟩
  | unexpected ev hpc => exact absurd (hpc.symm.trans hpc') nofun
  | _ => cases hpc'

namespace CmClient

variable {s s' : CmClient}

/-- The identifier has been destroyed, and before it the loop has ended in a state where
the invariants hold. -/
def Closing (s : CmClient) : Prop :=
  ∃ t, ClientControl t ∧ ClientStacked t ∧ t.pc = .destroyId ∧
    s = t.act (.release (.conn .id)) .destroyChannel

/-- **What holds in every state reached.** -/
structure Sound (s : CmClient) : Prop where
  running : s.pc ≠ .returned → s.pc ≠ .destroyChannel → s.pc ≠ .done → ClientControl s ∧
    ClientStacked s
  closing : s.pc = .destroyChannel → s.Closing
  ended : s.pc = .done → ∃ t : CmClient, t.Closing ∧ s = t.act (.release .channel) .done

theorem Sound.next {l : ClientLabel} (h : s.Sound) (hs : s.next l = some s') : s'.Sound := by
  have hm := next_move hs
  have hret : s.pc ≠ .returned := by
    intro hpc
    simp only [CmClient.next, hpc, reduceCtorEq] at hs
  have hdone : s.pc ≠ .done := by
    intro hpc
    simp only [CmClient.next, hpc, reduceCtorEq] at hs
  refine ⟨fun hret' hid' hdone' => ?_, fun hpc' => ?_, fun hpc' => ?_⟩
  · have hid : s.pc ≠ .destroyChannel := by
      intro hpc
      cases l <;> simp only [CmClient.next, hpc, reduceCtorEq] at hs
      exact hdone' (Option.some.inj hs ▸ rfl)
    obtain ⟨hc, hr⟩ := h.running hret hid hdone
    exact ⟨hc.move hm, hr.move hc hm hret' hid' hdone'⟩
  · obtain ⟨hpc, heq⟩ := hm.eq_of_destroyChannel hpc'
    obtain ⟨hc, hr⟩ := h.running hret (by rw [hpc]; decide) hdone
    exact ⟨s, hc, hr, hpc, heq⟩
  · obtain ⟨hpc, heq⟩ := hm.eq_of_done hpc'
    exact ⟨s, h.closing hpc, heq⟩

theorem Sound.of_reach (h : cmClientLts.Reach Lts.any s) : s.Sound := by
  refine h.invariant ?_ fun a l b ha _ hs => ha.next hs
  rintro a rfl
  exact ⟨fun _ _ _ => ⟨ClientControl.start, ClientStacked.start⟩, nofun, nofun⟩

end CmClient

/-- **What the lifecycle asks for**: everything `on_route_resolved` has obtained has been
released exactly once, and the queue pair was gone whenever something it depends on was
released. -/
structure ClientReleased (log : List (ResAct ClientObj)) : Prop where
  once : ∀ o : ClientObj, o.OfRoute → ResAct.acquire o ∈ log → log.count (.release o) = 1
  qpFirst : ∀ p o, ClientObj.Needs (.conn .qp) o → p ++ [.release o] <+: log →
    ¬ResLog.Live p (.conn .qp)

theorem ClientReleased.of_complete {log : List (ResAct ClientObj)}
    (h : ResLog.Complete ClientObj.Needs log) : ClientReleased log where
  once := fun o _ ho => h.once o ho
  qpFirst := fun p o ho hp => (h.order p o hp).2 _ ho

/-- What is left alive where the identifier is destroyed has not been released. -/
theorem ClientReleased.not_live {log : List (ResAct ClientObj)} {k : ConnObj} (hk : k ≠ .id)
    (h : ClientReleased (log ++ [.release (.conn .id)] ++ [.release .channel])) :
    ¬ResLog.Live log (.conn k) := by
  rintro ⟨hmem, hnot⟩
  have hone := h.once (.conn k) hk (List.mem_append_left _ (List.mem_append_left _ hmem))
  have hin := List.count_pos_iff.mp (hone ▸ Nat.one_pos)
  rcases List.mem_append.mp hin with hin | hin
  · rcases List.mem_append.mp hin with hin | hin
    · exact hnot hin
    · exact hk (ClientObj.conn.inj (ResAct.release.inj (List.mem_singleton.mp hin)))
  · cases List.mem_singleton.mp hin

/-- **The lifecycle of the resources**: when the loop of the client has ended and its
cleanup has run, what `on_route_resolved` has obtained has been released, in order,
exactly when the connection has not been asked for or DISCONNECTED has been fetched. -/
theorem cm_client_lifecycle (s : CmClient) (h : cmClientLts.Reach Lts.any s)
    (hdone : s.pc = .done) :
    ClientReleased s.log ↔ s.connectAsked = false ∨ CmEventType.disconnected ∈ s.events := by
  obtain ⟨_, ⟨t, hc, hr, hpc, rfl⟩, rfl⟩ := (CmClient.Sound.of_reach h).ended hdone
  have hlevel : t.level = t.held := by
    rw [CmClient.level, hpc]
  rw [ClientStacked, hlevel] at hr
  constructor
  · intro hrel
    by_contra hcond
    obtain ⟨hasked, hnot⟩ := not_or.mp hcond
    have hheld : t.held = 8 := CmClient.held_open (eq_true_of_ne_false hasked) hnot
    rw [hheld] at hr
    exact hrel.not_live (k := .pd) nofun ((hr.live _).mpr (by decide))
  · intro hcond
    have hheld : t.held = 2 := hcond.elim CmClient.held_idle CmClient.held_closed
    rw [hheld] at hr
    have hid := hr.pop ClientObj.rank_injective ClientObj.Needs.rank_lt (o := .conn .id) rfl
    have hchannel := hid.pop ClientObj.rank_injective ClientObj.Needs.rank_lt (o := .channel) rfl
    exact .of_complete (hchannel.orderly.complete fun x hx =>
      Nat.not_lt_zero _ ((hchannel.live x).mp hx))

/-! ### Two runs -/

/-- Up to the connection request: every call succeeds and the address and the route are
resolved. -/
def clientConnect : List ClientLabel :=
  List.replicate 3 (.call true) ++ [.getEvent (some .addrResolved), .call true,
    .getEvent (some .routeResolved)] ++ List.replicate 8 (.call true)

/-- The messages are exchanged, and the client disconnects. -/
theorem cm_client_lifecycle_served : ∃ s, cmClientLts.Reach Lts.any s ∧ s.pc = .done ∧
    ClientReleased s.log := by
  have hrun : (Lts.exec CmClient.next Lts.any CmClient.start
      (clientConnect ++ [.getEvent (some .established), .call true, .poll .one .success,
        .poll .one .success, .cpu, .getEvent (some .disconnected)] ++ List.replicate 9 .cpu)).map
        (fun s => (s.pc, decide (CmEventType.disconnected ∈ s.events))) = some (.done, true) := by
    decide +kernel
  obtain ⟨s, hs, hview⟩ := Option.map_eq_some_iff.mp hrun
  obtain ⟨hdone, hmem⟩ := Prod.mk.inj hview
  have hr : cmClientLts.Reach Lts.any s := ⟨_, rfl, Lts.path_of_exec hs⟩
  exact ⟨s, hr, hdone, (cm_client_lifecycle s hr hdone).mpr (Or.inr (of_decide_eq_true hmem))⟩

/-- **A refused connection**: where the server rejects the connection, the queue pair is
never destroyed. -/
theorem cm_client_leaks_rejected : ∃ s, cmClientLts.Reach Lts.any s ∧ s.pc = .done ∧
    ¬ClientReleased s.log := by
  have hrun : (Lts.exec CmClient.next Lts.any CmClient.start
      (clientConnect ++ [.getEvent (some .rejected), .cpu, .cpu, .cpu])).map
        (fun s => (s.pc, decide (.acquire (.conn .qp) ∈ s.log),
          s.log.count (.release (.conn .qp)))) =
      some (.done, true, 0) := by
    decide +kernel
  obtain ⟨s, hs, hview⟩ := Option.map_eq_some_iff.mp hrun
  obtain ⟨hdone, hrest⟩ := Prod.mk.inj hview
  obtain ⟨hmem, hcount⟩ := Prod.mk.inj hrest
  refine ⟨s, ⟨_, rfl, Lts.path_of_exec hs⟩, hdone, fun hrel => ?_⟩
  have hone := hrel.once (.conn .qp) nofun (of_decide_eq_true hmem)
  exact Nat.zero_ne_one (hcount.symm.trans hone)

end RdmaBook
