import RdmaBook.Cm.Session

/-!
# The messages of cm_server and cm_client

In a run in which nothing fails, what either program does with a connection is what the
automata of `RdmaBook.CmSession` do: the phase of a side is told by its place and the
events it has fetched (`RdmaBook.CmServer.phase`, `RdmaBook.CmClient.phase`), and so
every connection of every run is in a state of a session
(`RdmaBook.CmNet.session_reach`). The three properties of the exchange are then read off
the invariant of one session (`RdmaBook.cm_exchange`).
-/

namespace RdmaBook

/-! ### The steps of the server -/

/-- One of the labels of `on_connect_request`. -/
def ConnectPc.IsLabel : ConnectPc → Prop
  | .errDestroyQp => True
  | .errDeregSend => True
  | .errDeregRecv => True
  | .errDestroyCq => True
  | .errDeallocPd => True
  | .errFreeCtx => True
  | _ => False

/-- The event that a connection is established. -/
def CmEvent.established (c : ℕ) : CmEvent := ⟨.established, .conn c⟩

/-- No handler that works with a connection runs. -/
def CmServerPc.Quiet : CmServerPc → Prop
  | .connect _ _ => False
  | .established _ _ => False
  | _ => True

/-- **The steps of the server when nothing fails**, with what they do with a connection. -/
inductive CmServerStep (s s' : CmServer) (l : CmLabel) : Option (ℕ × CmAct) → Prop
  | quiet (hpc : s.pc.Quiet) (hpc' : s'.pc.Quiet) (hconns : s'.conns = s.conns)
      (hevents : s'.events = s.events) : CmServerStep s s' l none
  /-- CONNECT_REQUEST. -/
  | request (hl : l.IsRequest) (hpc : s.pc.Quiet) (hpc' : s'.pc = .connect .calloc s.conns)
      (hconns : s'.conns = s.conns + 1)
      (hevents : s'.events = s.events ++ [⟨.connectRequest, .conn s.conns⟩]) :
        CmServerStep s s' l none
  /-- An event other than CONNECT_REQUEST and ESTABLISHED. -/
  | event (ev : CmEvent) (hpc : s.pc.Quiet) (hpc' : s'.pc.Quiet) (hconns : s'.conns = s.conns)
      (hev : ev.type ≠ .established) (hevents : s'.events = s.events ++ [ev]) :
        CmServerStep s s' l none
  /-- A call of `on_connect_request` before `post_receive`. -/
  | climb (c : ℕ) (p p' : ConnectPc) (hpc : s.pc = .connect p c) (hpc' : s'.pc = .connect p' c)
      (hp : p ≠ .accept) (hp' : p' ≠ .accept ∧ ¬p'.IsLabel) (hconns : s'.conns = s.conns)
      (hevents : s'.events = s.events) : CmServerStep s s' l none
  /-- A label of `on_connect_request`: only a call that fails leads there. -/
  | release (c : ℕ) (p : ConnectPc) (hpc : s.pc = .connect p c) (hp : p.IsLabel) :
      CmServerStep s s' l none
  | receive (c : ℕ) (hpc : s.pc = .connect .postReceive c) (hpc' : s'.pc = .connect .accept c)
      (hconns : s'.conns = s.conns) (hevents : s'.events = s.events) :
      CmServerStep s s' l (some (c, .receive))
  | accept (c : ℕ) (hpc : s.pc = .connect .accept c) (hpc' : s'.pc.Quiet)
      (hconns : s'.conns = s.conns) (hevents : s'.events = s.events) :
      CmServerStep s s' l (some (c, .accept))
  | establish (c : ℕ) (hpc : s.pc.Quiet) (hpc' : s'.pc = .established .pollRecv c)
      (hc : c < s.conns) (hnew : CmEvent.established c ∉ s.events) (hconns : s'.conns = s.conns)
      (hevents : s'.events = s.events ++ [.established c]) :
      CmServerStep s s' l (some (c, .established))
  | wait (hs : s' = s) : CmServerStep s s' l none
  | hear (c : ℕ) (hpc : s.pc = .established .pollRecv c) (hpc' : s'.pc = .established .postSend c)
      (hconns : s'.conns = s.conns) (hevents : s'.events = s.events) :
      CmServerStep s s' l (some (c, .poll .success))
  | reply (c : ℕ) (hpc : s.pc = .established .postSend c) (hpc' : s'.pc = .established .pollSend c)
      (hconns : s'.conns = s.conns) (hevents : s'.events = s.events) :
      CmServerStep s s' l (some (c, .send true))
  | finish (c : ℕ) (hpc : s.pc = .established .pollSend c) (hpc' : s'.pc.Quiet)
      (hconns : s'.conns = s.conns) (hevents : s'.events = s.events) :
      CmServerStep s s' l (some (c, .poll .success))

section ServerSteps

variable {s s' : CmServer} {l : CmLabel}

theorem CmServer.connectCall_step {c : ℕ} {p : ConnectPc} (hpc : s.pc = .connect p c)
    (hs : s.connectCall c true p = some s') :
    CmServerStep s s' (.call true) (s.io (.call true)) := by
  cases p with
  | calloc | allocPd | createCq | regRecvMr | regSendMr | createQp =>
    obtain rfl := Option.some.inj hs
    simp only [CmServer.io, hpc]
    exact .climb c _ _ hpc rfl nofun ⟨nofun, id⟩ rfl rfl
  | postReceive =>
    obtain rfl := Option.some.inj hs
    simp only [CmServer.io, hpc]
    exact .receive c hpc rfl rfl rfl
  | accept =>
    obtain rfl := Option.some.inj hs
    simp only [CmServer.io, hpc]
    exact .accept c hpc trivial rfl rfl
  | errDestroyQp | errDeregSend | errDeregRecv | errDestroyCq | errDeallocPd | errFreeCtx =>
      cases hs

theorem CmServer.establishedPoll_step {c : ℕ} {ret : PollRet} {p : EstablishedPc}
    (hret : ret ≠ .failed)
    (hpc : s.pc = .established p c) (hs : s.establishedPoll c ret .success p = some s') :
    CmServerStep s s' (.poll ret .success) (s.io (.poll ret .success)) := by
  cases p with
  | pollRecv =>
    cases ret with
    | failed => exact absurd rfl hret
    | empty =>
      simp only [CmServer.io, hpc]
      exact .wait (Option.some.inj hs).symm
    | one =>
      obtain rfl := Option.some.inj hs
      simp only [CmServer.io, hpc]
      exact .hear c hpc rfl rfl rfl
  | postSend => cases hs
  | pollSend =>
    cases ret with
    | failed => exact absurd rfl hret
    | empty =>
      simp only [CmServer.io, hpc]
      exact .wait (Option.some.inj hs).symm
    | one =>
      obtain rfl := Option.some.inj hs
      simp only [CmServer.io, hpc]
      exact .finish c hpc trivial rfl rfl

theorem CmServer.dispatch_step {ev : CmEvent} (hpc : s.pc = .loop) (hev : s.CanDeliver ev) :
    CmServerStep s (s.dispatch ev) (.getEvent (some ev)) (s.io (.getEvent (some ev))) := by
  have hquiet : s.pc.Quiet := by
    rw [hpc]
    trivial
  obtain ⟨type, id⟩ := ev
  cases type with
  | connectRequest =>
    cases id with
    | listener => exact hev.elim
    | conn c =>
      obtain rfl : c = s.conns := hev
      simp only [CmServer.io, hpc]
      exact .request rfl hquiet rfl rfl rfl
  | established =>
    cases id with
    | listener => exact hev.elim
    | conn c =>
      simp only [CmServer.io, hpc]
      exact .establish c hquiet rfl hev.1 hev.2 rfl rfl
  | disconnected =>
    cases id with
    | listener => exact hev.elim
    | conn c =>
      simp only [CmServer.io, hpc]
      exact .event ⟨.disconnected, .conn c⟩ hquiet trivial rfl nofun rfl
  | _ =>
    simp only [CmServer.io, hpc]
    refine CmServerStep.event ⟨_, id⟩ hquiet hquiet rfl ?_ rfl
    exact nofun

/-- **Every step of the server that fails nothing is one of these.** -/
theorem CmServer.next_step (hok : l.Ok) (hs : s.next l = some s') :
    CmServerStep s s' l (s.io l) := by
  unfold CmServer.next at hs
  split at hs
  · rename_i ok hpc
    obtain rfl : ok = true := hok
    obtain rfl := Option.some.inj hs
    simp only [CmServer.io, hpc]
    exact .quiet (hpc ▸ trivial) trivial rfl rfl
  · rename_i ok hpc
    obtain rfl : ok = true := hok
    obtain rfl := Option.some.inj hs
    simp only [CmServer.io, hpc]
    exact .quiet (hpc ▸ trivial) trivial rfl rfl
  · rename_i ok hpc
    obtain rfl : ok = true := hok
    obtain rfl := Option.some.inj hs
    simp only [CmServer.io, hpc]
    exact .quiet (hpc ▸ trivial) trivial rfl rfl
  · rename_i ok hpc
    obtain rfl : ok = true := hok
    obtain rfl := Option.some.inj hs
    simp only [CmServer.io, hpc]
    exact .quiet (hpc ▸ trivial) trivial rfl rfl
  · rename_i hpc
    split at hs
    · obtain rfl := Option.some.inj hs
      simp only [CmServer.io, hpc]
      exact .quiet (hpc ▸ trivial) trivial rfl rfl
    · cases hs
  · cases hok
  · rename_i ev hpc
    split at hs
    · rename_i hev
      exact Option.some.inj hs ▸ CmServer.dispatch_step hpc hev.2
    · cases hs
  · rename_i p c ok hpc
    obtain rfl : ok = true := hok
    exact CmServer.connectCall_step hpc hs
  · rename_i p c hpc
    have hp : p.IsLabel := by
      cases p <;> trivial
    simp only [CmServer.io, hpc]
    exact .release c p hpc hp
  · rename_i c ok hpc
    obtain rfl : ok = true := hok
    obtain rfl := Option.some.inj hs
    simp only [CmServer.io, hpc]
    exact .reply c hpc rfl rfl rfl
  · rename_i p c ret status hpc
    obtain ⟨hret, rfl⟩ := hok
    exact CmServer.establishedPoll_step hret hpc hs
  · rename_i p c hpc
    obtain rfl := Option.some.inj hs
    simp only [CmServer.io, hpc]
    have hquiet : s.pc.Quiet := by
      rw [hpc]
      trivial
    cases p <;> exact .quiet hquiet trivial rfl rfl
  · rename_i hpc
    obtain rfl := Option.some.inj hs
    simp only [CmServer.io, hpc]
    exact .quiet (hpc ▸ trivial) trivial rfl rfl
  · rename_i hpc
    obtain rfl := Option.some.inj hs
    simp only [CmServer.io, hpc]
    exact .quiet (hpc ▸ trivial) trivial rfl rfl
  · cases hs

end ServerSteps

/-! ### The phase of a connection at the server -/

namespace CmServer

/-- The phase of a connection none of whose handlers runs. -/
def restPhase (s : CmServer) (c : ℕ) : ServerPhase :=
  if c < s.conns then if CmEvent.established c ∈ s.events then .finished else .accepted else .fresh

/-- **The phase of a connection**: that of the handler which runs for it, and otherwise
told by the events. -/
def phase (s : CmServer) (c : ℕ) : ServerPhase :=
  match s.pc with
  | .connect p c' =>
    if c' = c then if p = .accept then .ready else .fresh else s.restPhase c
  | .established .pollRecv c' => if c' = c then .established else s.restPhase c
  | .established .postSend c' => if c' = c then .heard else s.restPhase c
  | .established .pollSend c' => if c' = c then .replied else s.restPhase c
  | _ => s.restPhase c

/-- **What the server keeps when nothing fails**: a handler runs for a connection that has
been requested, and connections are established after they have been accepted. -/
structure Course (s : CmServer) : Prop where
  connect : ∀ p c, s.pc = .connect p c →
    c < s.conns ∧ CmEvent.established c ∉ s.events ∧ ¬p.IsLabel
  established : ∀ p c, s.pc = .established p c → c < s.conns ∧ CmEvent.established c ∈ s.events
  ids : ∀ c, CmEvent.established c ∈ s.events → c < s.conns

section Phases

variable {s s' : CmServer} {c : ℕ}

theorem phase_quiet (h : s.pc.Quiet) : s.phase c = s.restPhase c := by
  cases hpc : s.pc with
  | connect | established =>
    rw [hpc] at h
    exact h.elim
  | _ => simp only [phase, hpc]

theorem restPhase_congr (hconns : s'.conns = s.conns) (hevents : s'.events = s.events) :
    s'.restPhase c = s.restPhase c := by
  rw [restPhase, restPhase, hconns, hevents]

theorem phase_connect {p : ConnectPc} (hpc : s.pc = .connect p c) :
    s.phase c = if p = .accept then .ready else .fresh := by
  simp only [phase, hpc, if_true]

theorem phase_connect_ne {p : ConnectPc} {c' : ℕ} (hpc : s.pc = .connect p c') (hne : c' ≠ c) :
    s.phase c = s.restPhase c := by
  simp only [phase, hpc, if_neg hne]

theorem phase_established_ne {p : EstablishedPc} {c' : ℕ} (hpc : s.pc = .established p c')
    (hne : c' ≠ c) : s.phase c = s.restPhase c := by
  cases p <;> simp only [phase, hpc, if_neg hne]

/-- A connection that has not been requested. -/
theorem Course.phase_fresh (h : s.Course) (hc : s.conns ≤ c) : s.phase c = .fresh := by
  have hrest : s.restPhase c = .fresh := if_neg (Nat.not_lt.mpr hc)
  unfold phase
  split
  · rename_i p c' hpc
    rw [if_neg (by have := (h.connect p c' hpc).1; omega), hrest]
  · rename_i c' hpc
    rw [if_neg (by have := (h.established _ c' hpc).1; omega), hrest]
  · rename_i c' hpc
    rw [if_neg (by have := (h.established _ c' hpc).1; omega), hrest]
  · rename_i c' hpc
    rw [if_neg (by have := (h.established _ c' hpc).1; omega), hrest]
  · exact hrest

theorem restPhase_accepted (hc : c < s.conns) (hev : CmEvent.established c ∉ s.events) :
    s.restPhase c = .accepted := by
  rw [restPhase, if_pos hc, if_neg hev]

theorem restPhase_finished (hc : c < s.conns) (hev : CmEvent.established c ∈ s.events) :
    s.restPhase c = .finished := by
  rw [restPhase, if_pos hc, if_pos hev]

/-- An event that is not the ESTABLISHED of the connection does not change its rest
phase. -/
theorem restPhase_concat {ev : CmEvent} (hev : ev ≠ .established c) (hconns : s'.conns = s.conns)
    (hevents : s'.events = s.events ++ [ev]) : s'.restPhase c = s.restPhase c := by
  have hmem : CmEvent.established c ∈ s'.events ↔ CmEvent.established c ∈ s.events := by
    rw [hevents, List.mem_append, List.mem_singleton, or_iff_left hev.symm]
  simp only [restPhase, hconns, hmem]

/-- What the course depends on where no handler runs. -/
theorem Course.of_quiet (hpc : s'.pc.Quiet)
    (hids : ∀ c, CmEvent.established c ∈ s'.events → c < s'.conns) :
    s'.Course where
  connect := by
    intro p c hp
    rw [hp] at hpc
    exact hpc.elim
  established := by
    intro p c hp
    rw [hp] at hpc
    exact hpc.elim
  ids := hids

/-- What it depends on in `on_connect_request`. -/
theorem Course.of_connect {p : ConnectPc} (hpc : s'.pc = .connect p c) (hc : c < s'.conns)
    (hnew : CmEvent.established c ∉ s'.events) (hp : ¬p.IsLabel)
    (hids : ∀ c, CmEvent.established c ∈ s'.events → c < s'.conns) : s'.Course where
  connect := by
    intro q d hq
    obtain ⟨rfl, rfl⟩ := CmServerPc.connect.inj (hpc.symm.trans hq)
    exact ⟨hc, hnew, hp⟩
  established := by
    intro q d hq
    cases hpc.symm.trans hq
  ids := hids

/-- What it depends on in `on_established`. -/
theorem Course.of_established {p : EstablishedPc} (hpc : s'.pc = .established p c)
    (hc : c < s'.conns) (hold : CmEvent.established c ∈ s'.events)
    (hids : ∀ c, CmEvent.established c ∈ s'.events → c < s'.conns) : s'.Course where
  connect := by
    intro q d hq
    cases hpc.symm.trans hq
  established := by
    intro q d hq
    obtain ⟨rfl, rfl⟩ := CmServerPc.established.inj (hpc.symm.trans hq)
    exact ⟨hc, hold⟩
  ids := hids

end Phases

section Steps

variable {s s' : CmServer} {l : CmLabel} {io : Option (ℕ × CmAct)}

theorem Course.step (h : s.Course) (hs : CmServerStep s s' l io) : s'.Course := by
  have hsame : s'.conns = s.conns → s'.events = s.events →
      ∀ c, CmEvent.established c ∈ s'.events → c < s'.conns := by
    intro hconns hevents c hc
    rw [hconns]
    exact h.ids c (hevents ▸ hc)
  cases hs with
  | quiet hpc hpc' hconns hevents => exact Course.of_quiet hpc' (hsame hconns hevents)
  | request hl hpc hpc' hconns hevents =>
    have hids : ∀ c, CmEvent.established c ∈ s'.events → c < s.conns := by
      intro c hc
      rw [hevents, List.mem_append, List.mem_singleton] at hc
      rcases hc with hc | hc
      · exact h.ids c hc
      · cases hc
    exact Course.of_connect hpc' (hconns ▸ Nat.lt_succ_self _) (fun hc => (hids _ hc).false) id
      fun c hc => hconns ▸ (hids c hc).trans (Nat.lt_succ_self _)
  | event ev hpc hpc' hconns hev hevents =>
    refine Course.of_quiet hpc' fun c hc => ?_
    rw [hevents, List.mem_append, List.mem_singleton] at hc
    rcases hc with hc | hc
    · exact hconns ▸ h.ids c hc
    · exact absurd (congrArg CmEvent.type hc.symm) hev
  | climb c p p' hpc hpc' hp hp' hconns hevents =>
    obtain ⟨hlt, hnew, -⟩ := h.connect p c hpc
    exact Course.of_connect hpc' (hconns ▸ hlt) (hevents ▸ hnew) hp'.2 (hsame hconns hevents)
  | release c p hpc hp => exact absurd hp (h.connect p c hpc).2.2
  | receive c hpc hpc' hconns hevents =>
    obtain ⟨hlt, hnew, -⟩ := h.connect _ c hpc
    exact Course.of_connect hpc' (hconns ▸ hlt) (hevents ▸ hnew) id (hsame hconns hevents)
  | accept c hpc hpc' hconns hevents => exact Course.of_quiet hpc' (hsame hconns hevents)
  | establish c hpc hpc' hc hnew hconns hevents =>
    refine Course.of_established hpc' (hconns ▸ hc)
      (hevents ▸ List.mem_append_right _ List.mem_cons_self)
      fun d hd => ?_
    rw [hevents, List.mem_append, List.mem_singleton] at hd
    rcases hd with hd | hd
    · exact hconns ▸ h.ids d hd
    · exact hconns ▸ (CmId.conn.inj (congrArg CmEvent.id hd) ▸ hc)
  | wait hs => exact hs ▸ h
  | hear c hpc hpc' hconns hevents | reply c hpc hpc' hconns hevents =>
    obtain ⟨hlt, hold⟩ := h.established _ c hpc
    exact Course.of_established hpc' (hconns ▸ hlt) (hevents ▸ hold) (hsame hconns hevents)
  | finish c hpc hpc' hconns hevents => exact Course.of_quiet hpc' (hsame hconns hevents)

/-- **What a step does to the phase** of the connection it works on. -/
theorem Course.phase_step (h : s.Course) {c : ℕ} {a : CmAct}
    (hs : CmServerStep s s' l (some (c, a))) :
    (s.phase c).next a = some (s'.phase c) := by
  cases hs with
  | receive _ hpc hpc' hconns hevents =>
    rw [phase_connect hpc, phase_connect hpc']
    rfl
  | accept _ hpc hpc' hconns hevents =>
    obtain ⟨hlt, hnew, -⟩ := h.connect _ c hpc
    rw [phase_connect hpc, phase_quiet hpc', restPhase_accepted (hconns ▸ hlt) (hevents ▸ hnew)]
    rfl
  | establish _ hpc hpc' hc hnew hconns hevents =>
    rw [phase_quiet hpc, restPhase_accepted hc hnew]
    simp only [phase, hpc', if_true]
    rfl
  | hear _ hpc hpc' hconns hevents =>
    simp only [phase, hpc, hpc', if_true]
    rfl
  | reply _ hpc hpc' hconns hevents =>
    simp only [phase, hpc, hpc', if_true]
    rfl
  | finish _ hpc hpc' hconns hevents =>
    obtain ⟨hlt, hold⟩ := h.established _ c hpc
    rw [phase_quiet hpc', restPhase_finished (hconns ▸ hlt) (hevents ▸ hold)]
    simp only [phase, hpc, if_true]
    rfl

/-- **The other connections** keep their phase. -/
theorem Course.phase_other (h : s.Course) (hs : CmServerStep s s' l io) {c : ℕ}
    (hc : ∀ a, io ≠ some (c, a)) : s'.phase c = s.phase c := by
  have hcourse := h.step hs
  have hother : ∀ c' a, io = some (c', a) → c' ≠ c := fun c' a hio heq => hc a (heq ▸ hio)
  cases hs with
  | quiet hpc hpc' hconns hevents =>
    rw [phase_quiet hpc, phase_quiet hpc', restPhase_congr hconns hevents]
  | request hl hpc hpc' hconns hevents =>
    rcases Nat.lt_trichotomy c s.conns with hlt | rfl | hgt
    · have hev : CmEvent.established c ∈ s'.events ↔ CmEvent.established c ∈ s.events := by
        rw [hevents, List.mem_append, List.mem_singleton, or_iff_left nofun]
      have hlt' : c < s'.conns := hconns ▸ hlt.trans (Nat.lt_succ_self _)
      rw [phase_quiet hpc, phase_connect_ne hpc' hlt.ne', restPhase, restPhase, if_pos hlt,
        if_pos hlt']
      exact if_congr hev rfl rfl
    · rw [h.phase_fresh le_rfl, phase_connect hpc']
      rfl
    · rw [h.phase_fresh hgt.le, hcourse.phase_fresh (hconns ▸ hgt)]
  | event ev hpc hpc' hconns hev hevents =>
    have hne : ev ≠ .established c := fun heq => hev (congrArg CmEvent.type heq)
    rw [phase_quiet hpc, phase_quiet hpc', restPhase_concat hne hconns hevents]
  | climb c' p p' hpc hpc' hp hp' hconns hevents =>
    by_cases heq : c' = c
    · subst heq
      rw [phase_connect hpc, phase_connect hpc', if_neg hp, if_neg hp'.1]
    · rw [phase_connect_ne hpc heq, phase_connect_ne hpc' heq, restPhase_congr hconns hevents]
  | release c' p hpc hp => exact absurd hp (h.connect p c' hpc).2.2
  | receive c' hpc hpc' hconns hevents =>
    have hne : c' ≠ c := hother c' _ rfl
    rw [phase_connect_ne hpc hne, phase_connect_ne hpc' hne, restPhase_congr hconns hevents]
  | accept c' hpc hpc' hconns hevents =>
    have hne : c' ≠ c := hother c' _ rfl
    rw [phase_connect_ne hpc hne, phase_quiet hpc', restPhase_congr hconns hevents]
  | establish c' hpc hpc' hc' hnew hconns hevents =>
    have hne : c' ≠ c := hother c' _ rfl
    have hev : CmEvent.established c' ≠ .established c :=
      fun heq => hne (CmId.conn.inj (congrArg CmEvent.id heq))
    rw [phase_quiet hpc, phase_established_ne hpc' hne, restPhase_concat hev hconns hevents]
  | wait hs => rw [hs]
  | hear c' hpc hpc' hconns hevents | reply c' hpc hpc' hconns hevents =>
    have hne : c' ≠ c := hother c' _ rfl
    rw [phase_established_ne hpc hne, phase_established_ne hpc' hne, restPhase_congr hconns hevents]
  | finish c' hpc hpc' hconns hevents =>
    have hne : c' ≠ c := hother c' _ rfl
    rw [phase_established_ne hpc hne, phase_quiet hpc', restPhase_congr hconns hevents]

end Steps

end CmServer

/-! ### The steps of a client -/

/-- The client is not about to ask for the connection, and not using it. -/
def ClientPc.Quiet : ClientPc → Prop
  | .route .connect => False
  | .established _ => False
  | _ => True

/-- **The steps of a client when nothing fails**, with what they do with its connection. -/
inductive ClientStep (s s' : CmClient) : Option CmAct → Prop
  | quiet (hpc : s.pc.Quiet) (hpc' : s'.pc.Quiet)
      (hroute : ∀ p', s'.pc = .route p' → ∃ p, s.pc = .route p)
      (hasked : s'.connectAsked = s.connectAsked) (hevents : s'.events = s.events) :
        ClientStep s s' none
  /-- An event other than ESTABLISHED. -/
  | event (ev : CmEventType) (hpc : s.pc.Quiet) (hpc' : s'.pc.Quiet) (hev : ev ≠ .established)
      (hroute : ∀ p, s'.pc = .route p → ev = .routeResolved ∧ CmEventType.routeResolved ∉ s.events)
      (hasked : s'.connectAsked = s.connectAsked) (hevents : s'.events = s.events ++ [ev]) :
      ClientStep s s' none
  | receive (hpc : s.pc = .route .postReceive) (hpc' : s'.pc = .route .connect)
      (hasked : s'.connectAsked = s.connectAsked) (hevents : s'.events = s.events) :
      ClientStep s s' (some .receive)
  | connect (hpc : s.pc = .route .connect) (hpc' : s'.pc = .loop) (hasked : s'.connectAsked = true)
      (hevents : s'.events = s.events) : ClientStep s s' (some .connect)
  | establish (hpc : s.pc.Quiet) (hpc' : s'.pc = .established .postSend)
      (hc : s.connectAsked = true) (hnew : CmEventType.established ∉ s.events)
      (hasked : s'.connectAsked = s.connectAsked)
        (hevents : s'.events = s.events ++ [.established]) :
      ClientStep s s' (some .established)
  | wait (hs : s' = s) : ClientStep s s' none
  | send (hpc : s.pc = .established .postSend) (hpc' : s'.pc = .established .pollSend)
      (hasked : s'.connectAsked = s.connectAsked) (hevents : s'.events = s.events) :
      ClientStep s s' (some (.send true))
  /-- The first completion. -/
  | half (hpc : s.pc = .established .pollSend) (hpc' : s'.pc = .established .pollRecv)
      (hasked : s'.connectAsked = s.connectAsked) (hevents : s'.events = s.events) :
      ClientStep s s' (some (.poll .success))
  /-- The second completion. -/
  | finish (hpc : s.pc = .established .pollRecv) (hpc' : s'.pc = .established .disconnect)
      (hasked : s'.connectAsked = s.connectAsked) (hevents : s'.events = s.events) :
      ClientStep s s' (some (.poll .success))
  | leave (hpc : s.pc = .established .disconnect) (hpc' : s'.pc = .loop)
      (hasked : s'.connectAsked = s.connectAsked) (hevents : s'.events = s.events) :
        ClientStep s s' none

section ClientSteps

variable {s s' : CmClient} {l : ClientLabel}

theorem CmClient.routeCall_step {p : RoutePc} (hpc : s.pc = .route p)
    (hs : s.routeCall true p = some s') :
    ClientStep s s' (s.io (.call true)) := by
  cases p with
  | calloc | allocPd | createCq | regRecvMr | regSendMr | createQp =>
    obtain rfl := Option.some.inj hs
    have hquiet : s.pc.Quiet := by
      rw [hpc]
      trivial
    simp only [CmClient.io, hpc]
    exact .quiet hquiet trivial (fun _ _ => ⟨_, hpc⟩) rfl rfl
  | postReceive =>
    obtain rfl := Option.some.inj hs
    simp only [CmClient.io, hpc]
    exact .receive hpc rfl rfl rfl
  | connect =>
    obtain rfl := Option.some.inj hs
    simp only [CmClient.io, hpc]
    exact .connect hpc rfl rfl rfl
  | errQp | errSendMr | errRecvMr | errCq | errPd | errFree => cases hs

theorem CmClient.establishedPoll_step {ret : PollRet} {p : GreetPc} (hret : ret ≠ .failed)
    (hpc : s.pc = .established p) (hs : s.establishedPoll ret .success p = some s') :
    ClientStep s s' (s.io (.poll ret .success)) := by
  cases p with
  | pollSend =>
    cases ret with
    | failed => exact absurd rfl hret
    | empty =>
      simp only [CmClient.io, hpc]
      exact .wait (Option.some.inj hs).symm
    | one =>
      obtain rfl := Option.some.inj hs
      simp only [CmClient.io, hpc]
      exact .half hpc rfl rfl rfl
  | pollRecv =>
    cases ret with
    | failed => exact absurd rfl hret
    | empty =>
      simp only [CmClient.io, hpc]
      exact .wait (Option.some.inj hs).symm
    | one =>
      obtain rfl := Option.some.inj hs
      simp only [CmClient.io, hpc]
      exact .finish hpc rfl rfl rfl
  | postSend | disconnect => cases hs

theorem CmClient.dispatch_step {ev : CmEventType} (hpc : s.pc = .loop) (hev : s.CanDeliver ev) :
    ClientStep s (s.dispatch ev) (s.io (.getEvent (some ev))) := by
  have hquiet : s.pc.Quiet := by
    rw [hpc]
    trivial
  cases ev with
  | established =>
    simp only [CmClient.io, hpc]
    exact .establish hquiet rfl hev.1 hev.2 rfl rfl
  | routeResolved =>
    simp only [CmClient.io, hpc]
    exact .event .routeResolved hquiet trivial nofun (fun _ _ => ⟨rfl, hev.2⟩) rfl rfl
  | addrResolved =>
    simp only [CmClient.io, hpc]
    exact .event .addrResolved hquiet trivial nofun nofun rfl rfl
  | disconnected =>
    simp only [CmClient.io, hpc]
    exact .event .disconnected hquiet trivial nofun nofun rfl rfl
  | _ =>
    simp only [CmClient.io, hpc]
    refine ClientStep.event _ hquiet hquiet ?_ ?_ rfl rfl
    · exact nofun
    · intro p hp
      cases hpc.symm.trans hp

/-- **Every step of a client that fails nothing is one of these.** -/
theorem CmClient.next_step (hok : l.Ok) (hs : s.next l = some s') : ClientStep s s' (s.io l) := by
  unfold CmClient.next at hs
  split at hs
  · rename_i ok hpc
    obtain rfl : ok = true := hok
    obtain rfl := Option.some.inj hs
    simp only [CmClient.io, hpc]
    exact .quiet (hpc ▸ trivial) trivial nofun rfl rfl
  · rename_i ok hpc
    obtain rfl : ok = true := hok
    obtain rfl := Option.some.inj hs
    simp only [CmClient.io, hpc]
    exact .quiet (hpc ▸ trivial) trivial nofun rfl rfl
  · rename_i ok hpc
    obtain rfl : ok = true := hok
    obtain rfl := Option.some.inj hs
    simp only [CmClient.io, hpc]
    exact .quiet (hpc ▸ trivial) trivial nofun rfl rfl
  · rename_i hpc
    split at hs
    · obtain rfl := Option.some.inj hs
      simp only [CmClient.io, hpc]
      exact .quiet (hpc ▸ trivial) trivial nofun rfl rfl
    · cases hs
  · cases hok
  · rename_i ev hpc
    split at hs
    · rename_i hev
      exact Option.some.inj hs ▸ CmClient.dispatch_step hpc hev.2
    · cases hs
  · rename_i ok hpc
    obtain rfl : ok = true := hok
    obtain rfl := Option.some.inj hs
    simp only [CmClient.io, hpc]
    exact .quiet (hpc ▸ trivial) trivial nofun rfl rfl
  · rename_i p ok hpc
    obtain rfl : ok = true := hok
    exact CmClient.routeCall_step hpc hs
  · rename_i p hpc
    simp only [CmClient.io, hpc]
    cases p with
    | calloc | allocPd | createCq | regRecvMr | regSendMr | createQp | postReceive | connect =>
        cases hs
    | errQp | errSendMr | errRecvMr | errCq | errPd | errFree =>
      obtain rfl := Option.some.inj hs
      exact .quiet (hpc ▸ trivial) trivial (fun _ _ => ⟨_, hpc⟩) rfl rfl
  · rename_i ok hpc
    obtain rfl : ok = true := hok
    obtain rfl := Option.some.inj hs
    simp only [CmClient.io, hpc]
    exact .send hpc rfl rfl rfl
  · rename_i hpc
    obtain rfl := Option.some.inj hs
    simp only [CmClient.io, hpc]
    exact .leave hpc rfl rfl rfl
  · rename_i p ret status hpc
    obtain ⟨hret, rfl⟩ := hok
    exact CmClient.establishedPoll_step hret hpc hs
  · rename_i p hpc
    obtain rfl := Option.some.inj hs
    simp only [CmClient.io, hpc]
    have hquiet : s.pc.Quiet := by
      rw [hpc]
      trivial
    cases p <;> exact .quiet hquiet trivial nofun rfl rfl
  · rename_i hpc
    obtain rfl := Option.some.inj hs
    simp only [CmClient.io, hpc]
    exact .quiet (hpc ▸ trivial) trivial nofun rfl rfl
  · rename_i hpc
    obtain rfl := Option.some.inj hs
    simp only [CmClient.io, hpc]
    exact .quiet (hpc ▸ trivial) trivial nofun rfl rfl
  · cases hs

end ClientSteps

/-! ### The phase of a client -/

namespace CmClient

/-- The phase of a client that is not about to ask for its connection, and not using
it. -/
def restPhase (s : CmClient) : ClientPhase :=
  if s.connectAsked = true then
    if CmEventType.established ∈ s.events then .finished else .asked
  else .fresh

/-- **The phase of a client**: that of the handler which runs, and otherwise told by the
events. -/
def phase (s : CmClient) : ClientPhase :=
  match s.pc with
  | .route .connect => .ready
  | .established .postSend => .established
  | .established .pollSend => .sent
  | .established .pollRecv => .half
  | .established .disconnect => .finished
  | _ => s.restPhase

/-- **What a client keeps when nothing fails**: it asks for its connection once, and uses
it after that. -/
structure Course (s : CmClient) : Prop where
  route : ∀ p, s.pc = .route p → s.connectAsked = false ∧ CmEventType.routeResolved ∈ s.events
  established : ∀ p, s.pc = .established p →
    s.connectAsked = true ∧ CmEventType.established ∈ s.events
  asked : CmEventType.established ∈ s.events → s.connectAsked = true
  routed : s.connectAsked = true → CmEventType.routeResolved ∈ s.events

section Phases

variable {s s' : CmClient} {io : Option CmAct}

theorem phase_quiet (h : s.pc.Quiet) : s.phase = s.restPhase := by
  cases hpc : s.pc with
  | route p => cases p with
    | connect =>
      rw [hpc] at h
      exact h.elim
    | _ => simp only [phase, hpc]
  | established p =>
    rw [hpc] at h
    exact h.elim
  | _ => simp only [phase, hpc]

theorem restPhase_congr (hasked : s'.connectAsked = s.connectAsked)
    (hevents : s'.events = s.events) :
    s'.restPhase = s.restPhase := by
  rw [restPhase, restPhase, hasked, hevents]

theorem restPhase_fresh (hasked : s.connectAsked = false) : s.restPhase = .fresh :=
  if_neg fun h => Bool.false_ne_true (hasked.symm.trans h)

theorem restPhase_asked (hasked : s.connectAsked = true)
    (hev : CmEventType.established ∉ s.events) :
    s.restPhase = .asked := by
  rw [restPhase, if_pos hasked, if_neg hev]

theorem restPhase_finished (hasked : s.connectAsked = true)
    (hev : CmEventType.established ∈ s.events) :
    s.restPhase = .finished := by
  rw [restPhase, if_pos hasked, if_pos hev]

/-- An event other than ESTABLISHED does not change the rest phase. -/
theorem restPhase_concat {ev : CmEventType} (hev : ev ≠ .established)
    (hasked : s'.connectAsked = s.connectAsked) (hevents : s'.events = s.events ++ [ev]) :
    s'.restPhase = s.restPhase := by
  have hmem : CmEventType.established ∈ s'.events ↔ CmEventType.established ∈ s.events := by
    rw [hevents, List.mem_append, List.mem_singleton, or_iff_left hev.symm]
  simp only [restPhase, hasked, hmem]

/-- A client that has asked for its connection is in a phase behind that. -/
theorem Course.phase_asked (h : s.Course) (hasked : s.connectAsked = true) : s.phase.Asked := by
  have hrest : s.restPhase.Asked := by
    rw [restPhase, if_pos hasked]
    split <;> decide
  unfold phase
  split
  · rename_i hpc
    have hno := (h.route _ hpc).1
    rw [hasked] at hno
    cases hno
  · decide
  · decide
  · decide
  · decide
  · exact hrest

theorem Course.start : CmClient.start.Course where
  route := nofun
  established := nofun
  asked := nofun
  routed := nofun

/-- What the course depends on where ESTABLISHED is not being handled. -/
theorem Course.of_events (h : s.Course) (hpc' : s'.pc.Quiet ∨ s'.pc = .route .connect)
    (hroute : ∀ p, s'.pc = .route p → s'.connectAsked = false ∧
      CmEventType.routeResolved ∈ s'.events)
    (hasked : s'.connectAsked = s.connectAsked ∨ s'.connectAsked = true)
    (hevents : CmEventType.established ∈ s'.events → CmEventType.established ∈ s.events)
    (hrouted : s'.connectAsked = true → CmEventType.routeResolved ∈ s'.events) : s'.Course where
  route := hroute
  established := by
    intro p hp
    rw [hp] at hpc'
    rcases hpc' with hquiet | hpc'
    · exact hquiet.elim
    · cases hpc'
  asked := by
    intro hev
    rcases hasked with hasked | hasked
    · exact hasked.trans (h.asked (hevents hev))
    · exact hasked
  routed := hrouted

theorem Course.step (h : s.Course) (hs : ClientStep s s' io) : s'.Course := by
  have hstay : s'.connectAsked = s.connectAsked → s'.events = s.events →
      ∀ p, s'.pc = .established p → s.connectAsked = true ∧ CmEventType.established ∈ s.events →
        s'.Course := by
    intro hasked hevents p hpc' hold
    refine ⟨fun q hq => ?_, fun _ _ => ?_, fun _ => hasked.trans hold.1, fun hc => ?_⟩
    · cases hpc'.symm.trans hq
    · rw [hasked, hevents]
      exact hold
    · rw [hevents]
      exact h.routed (hasked ▸ hc)
  cases hs with
  | quiet hpc hpc' hroute hasked hevents =>
    refine h.of_events (Or.inl hpc') ?_ (Or.inl hasked) (fun hev => hevents ▸ hev) ?_
    · intro p' hp'
      obtain ⟨p, hp⟩ := hroute p' hp'
      rw [hasked, hevents]
      exact h.route p hp
    · rw [hasked, hevents]
      exact h.routed
  | event ev hpc hpc' hev hroute hasked hevents =>
    refine h.of_events (Or.inl hpc') ?_ (Or.inl hasked) ?_ ?_
    · intro p hp
      obtain ⟨rfl, hnew⟩ := hroute p hp
      rw [hasked, hevents]
      refine ⟨Bool.eq_false_iff.mpr fun hc => hnew (h.routed hc), ?_⟩
      exact List.mem_append_right _ List.mem_cons_self
    · rw [hevents, List.mem_append, List.mem_singleton, or_iff_left hev.symm]
      exact id
    · rw [hasked, hevents]
      exact fun hc => List.mem_append_left _ (h.routed hc)
  | receive hpc hpc' hasked hevents =>
    refine h.of_events (Or.inr hpc') ?_ (Or.inl hasked) (fun hev => hevents ▸ hev) ?_
    · intro p hp
      rw [hasked, hevents]
      exact h.route _ hpc
    · rw [hasked, hevents]
      exact h.routed
  | connect hpc hpc' hasked hevents =>
    refine h.of_events (Or.inl (hpc' ▸ trivial)) ?_ (Or.inr hasked) (fun hev => hevents ▸ hev) ?_
    · intro p hp
      cases hpc'.symm.trans hp
    · rw [hevents]
      exact fun _ => (h.route _ hpc).2
  | establish hpc hpc' hc hnew hasked hevents =>
    refine ⟨?_, fun _ _ => ?_, fun _ => hasked.trans hc, fun _ => ?_⟩
    · intro p hp
      cases hpc'.symm.trans hp
    · rw [hasked, hevents]
      exact ⟨hc, List.mem_append_right _ List.mem_cons_self⟩
    · rw [hevents]
      exact List.mem_append_left _ (h.routed hc)
  | wait hs => exact hs ▸ h
  | send hpc hpc' hasked hevents | half hpc hpc' hasked hevents | finish hpc hpc' hasked hevents =>
    exact hstay hasked hevents _ hpc' (h.established _ hpc)
  | leave hpc hpc' hasked hevents =>
    refine h.of_events (Or.inl (hpc' ▸ trivial)) ?_ (Or.inl hasked) (fun hev => hevents ▸ hev) ?_
    · intro p hp
      cases hpc'.symm.trans hp
    · rw [hasked, hevents]
      exact h.routed

/-- **What a step does to the phase**: the action it makes, if it makes one. -/
theorem Course.phase_step (h : s.Course) {a : CmAct} (hs : ClientStep s s' (some a)) :
    s.phase.next a = some s'.phase := by
  cases hs with
  | receive hpc hpc' hasked hevents =>
    have hfresh := restPhase_fresh (h.route _ hpc).1
    simp only [phase, hpc, hpc', hfresh]
    rfl
  | connect hpc hpc' hasked hevents =>
    have hnew : CmEventType.established ∉ s'.events := by
      intro hev
      have hno := (h.route _ hpc).1
      rw [h.asked (hevents ▸ hev)] at hno
      cases hno
    have hrest := restPhase_asked hasked hnew
    simp only [phase, hpc, hpc', hrest]
    rfl
  | establish hpc hpc' hc hnew hasked hevents =>
    rw [phase_quiet hpc, restPhase_asked hc hnew]
    simp only [phase, hpc']
    rfl
  | send hpc hpc' hasked hevents | half hpc hpc' hasked hevents | finish hpc hpc' hasked hevents =>
    simp only [phase, hpc, hpc']
    rfl

/-- Every other step keeps the phase. -/
theorem Course.phase_same (h : s.Course) (hs : ClientStep s s' none) : s'.phase = s.phase := by
  cases hs with
  | quiet hpc hpc' hroute hasked hevents =>
    rw [phase_quiet hpc, phase_quiet hpc', restPhase_congr hasked hevents]
  | event ev hpc hpc' hev hroute hasked hevents =>
    rw [phase_quiet hpc, phase_quiet hpc', restPhase_concat hev hasked hevents]
  | wait hs => rw [hs]
  | leave hpc hpc' hasked hevents =>
    obtain ⟨hc, hold⟩ := h.established _ hpc
    have hrest : s'.restPhase = .finished := restPhase_finished (hasked.trans hc) (hevents ▸ hold)
    simp only [phase, hpc, hpc', hrest]

end Phases

end CmClient

/-! ### The connections of the system -/

/-- Only a CONNECT_REQUEST is a new connection. -/
theorem CmServerStep.conns_eq {s s' : CmServer} {l : CmLabel} {io : Option (ℕ × CmAct)}
    (hs : CmServerStep s s' l io) (h : s.Course) (hl : ¬l.IsRequest) : s'.conns = s.conns := by
  cases hs with
  | request hl' => exact absurd hl' hl
  | wait hs => rw [hs]
  | release c p hpc hp => exact absurd hp (h.connect p c hpc).2.2
  | quiet _ _ hconns | event _ _ _ hconns | climb _ _ _ _ _ _ _ hconns | receive _ _ _ hconns
    | accept _ _ _ hconns | establish _ _ _ _ _ hconns | hear _ _ _ hconns | reply _ _ _ hconns
    | finish _ _ _ hconns => exact hconns

/-- A connection that has been asked for stays so. -/
theorem ClientStep.asked {s s' : CmClient} {io : Option CmAct} (hs : ClientStep s s' io)
    (h : s.connectAsked = true) : s'.connectAsked = true := by
  cases hs with
  | connect _ _ hasked => exact hasked
  | wait hs => exact hs ▸ h
  | quiet _ _ _ hasked | event _ _ _ _ _ hasked | receive _ _ hasked | establish _ _ _ _ hasked
    | send _ _ hasked | half _ _ hasked | finish _ _ hasked | leave _ _ hasked =>
        exact hasked.trans h

namespace CmNet

/-- **The session of a client**; a client whose request the server has not fetched has
the number of no connection. -/
def session (st : CmNet) (i : ℕ) : CmSession :=
  ⟨(st.clients i).phase, st.server.phase (st.peers.idxOf i), st.conns i⟩

/-- **What the system keeps when nothing fails.** -/
structure Course (st : CmNet) : Prop where
  server : st.server.Course
  clients : ∀ i, (st.clients i).Course
  length : st.peers.length = st.server.conns
  nodup : st.peers.Nodup
  asked : ∀ i ∈ st.peers, (st.clients i).connectAsked = true

/-- What a step may do to a session. -/
def SessionStep (x x' : CmSession) : Prop := x' = x ∨ ∃ l, x.next l = some x'

section Steps

variable {st st' : CmNet}

theorem Course.start : CmNet.start.Course where
  server := ⟨nofun, nofun, nofun⟩
  clients := fun _ => CmClient.Course.start
  length := rfl
  nodup := List.nodup_nil
  asked := nofun

/-- A session in which nothing happens. -/
theorem SessionStep.same {x x' : CmSession} (hclient : x'.client = x.client)
    (hserver : x'.server = x.server) (hconn : x'.conn = x.conn) : SessionStep x x' := by
  left
  obtain ⟨c, sv, k⟩ := x
  obtain ⟨c', sv', k'⟩ := x'
  obtain rfl : c' = c := hclient
  obtain rfl : sv' = sv := hserver
  obtain rfl : k' = k := hconn
  rfl

/-- A step of a client. -/
theorem Course.client (h : st.Course) {i : ℕ} {l : ClientLabel} (hok : l.Ok)
    (hs : st.next (.client i l) = some st') :
    st'.Course ∧ ∀ j, SessionStep (st.session j) (st'.session j) := by
  obtain ⟨c', hc', hs⟩ := Option.bind_eq_some_iff.mp hs
  have hstep := CmClient.next_step hok hc'
  have hcourse : ∀ conns, Course { st with
      clients := Function.update st.clients i c', conns := conns } := by
    intro conns
    refine ⟨h.server, ?_, h.length, h.nodup, ?_⟩
    · exact (Function.forall_update_iff st.clients fun _ c => c.Course).mpr
        ⟨(h.clients i).step hstep, fun j _ => h.clients j⟩
    · exact (Function.forall_update_iff st.clients fun j c => j ∈ st.peers →
        c.connectAsked = true).mpr
        ⟨fun hmem => hstep.asked (h.asked i hmem), fun j _ => h.asked j⟩
  have hother : ∀ conns j, j ≠ i → conns j = st.conns j →
      SessionStep (st.session j)
        (session { st with clients := Function.update st.clients i c', conns := conns } j) := by
    intro conns j hj hconns
    refine SessionStep.same ?_ rfl hconns
    change (Function.update st.clients i c' j).phase = _
    rw [Function.update_of_ne hj]
    rfl
  cases hio : (st.clients i).io l with
  | none =>
    rw [hio] at hs hstep
    obtain rfl := Option.some.inj hs
    refine ⟨hcourse st.conns, fun j => ?_⟩
    by_cases hj : j = i
    · subst hj
      refine SessionStep.same ?_ rfl rfl
      change (Function.update st.clients j c' j).phase = _
      rw [Function.update_self]
      exact (h.clients j).phase_same hstep
    · exact hother st.conns j hj rfl
  | some a =>
    rw [hio] at hs hstep
    obtain ⟨k, hk, rfl⟩ := Option.map_eq_some_iff.mp hs
    refine ⟨hcourse _, fun j => ?_⟩
    by_cases hj : j = i
    · subst hj
      refine Or.inr ⟨.client a, ?_⟩
      have hphase := (h.clients j).phase_step hstep
      change ((st.clients j).phase.next a).bind _ = _
      rw [hphase, Option.bind_some]
      change ((st.conns j).act .client a).map _ = _
      rw [hk, Option.map_some]
      change some _ = some (CmSession.mk (Function.update st.clients j c' j).phase _
        (Function.update st.conns j k j))
      rw [Function.update_self, Function.update_self]
      rfl
    · exact hother _ j hj (Function.update_of_ne hj ..)

/-- The connection of a client, and the clients of the other connections. -/
theorem Course.idxOf_eq (h : st.Course) {i c : ℕ} (hi : st.peers[c]? = some i) (j : ℕ) :
    st.peers.idxOf j = c ↔ j = i := by
  obtain ⟨hlt, hget⟩ := List.getElem?_eq_some_iff.mp hi
  constructor
  · rintro rfl
    rw [← hget, List.getElem_idxOf hlt]
  · rintro rfl
    rw [← hget, h.nodup.idxOf_getElem]

/-- A step of the server. -/
theorem Course.server_step (h : st.Course) {l : CmLabel} (hok : l.Ok)
    (hs : st.next (.server l) = some st') :
    st'.Course ∧ ∀ j, SessionStep (st.session j) (st'.session j) := by
  rw [CmNet.next] at hs
  split at hs
  · cases hs
  · rename_i hl
    obtain ⟨s', hs', hs⟩ := Option.bind_eq_some_iff.mp hs
    have hstep := CmServer.next_step hok hs'
    have hcourse : ∀ conns, Course { st with server := s', conns := conns } := fun conns =>
      ⟨h.server.step hstep, h.clients, h.length.trans (hstep.conns_eq h.server hl).symm, h.nodup,
        h.asked⟩
    cases hio : st.server.io l with
    | none =>
      rw [hio] at hs hstep
      obtain rfl := Option.some.inj hs
      refine ⟨hcourse st.conns, fun j => SessionStep.same rfl ?_ rfl⟩
      exact h.server.phase_other hstep nofun
    | some ca =>
      obtain ⟨c, a⟩ := ca
      rw [hio] at hs hstep
      obtain ⟨i, hi, hs⟩ := Option.bind_eq_some_iff.mp hs
      obtain ⟨k, hk, rfl⟩ := Option.map_eq_some_iff.mp hs
      refine ⟨hcourse _, fun j => ?_⟩
      by_cases hj : j = i
      · subst hj
        have hidx := (h.idxOf_eq hi j).mpr rfl
        have hasked := (h.clients j).phase_asked (h.asked j (List.mem_of_getElem? hi))
        have hphase := h.server.phase_step hstep
        refine Or.inr ⟨.server a, ?_⟩
        change (if (st.clients j).phase.Asked then
          ((st.server.phase (st.peers.idxOf j)).next a).bind _ else none) = _
        rw [if_pos hasked, hidx, hphase, Option.bind_some]
        change ((st.conns j).act .server a).map _ = _
        rw [hk, Option.map_some]
        change some _ = some (CmSession.mk _ (s'.phase (st.peers.idxOf j))
          (Function.update st.conns j k j))
        rw [Function.update_self, hidx]
        rfl
      · refine SessionStep.same rfl ?_ (Function.update_of_ne hj ..)
        refine h.server.phase_other hstep fun b hb => ?_
        have hidx : c = st.peers.idxOf j := congrArg Prod.fst (Option.some.inj hb)
        exact hj ((h.idxOf_eq hi j).mp hidx.symm)

/-- The server fetches the CONNECT_REQUEST of a client. -/
theorem Course.request (h : st.Course) {i : ℕ} (hs : st.next (.request i) = some st') :
    st'.Course ∧ ∀ j, SessionStep (st.session j) (st'.session j) := by
  rw [CmNet.next] at hs
  split at hs
  · rename_i hi
    obtain ⟨s', hs', rfl⟩ := Option.map_eq_some_iff.mp hs
    obtain ⟨hpc, -, -, rfl⟩ := CmServer.next_getEvent_iff.mp hs'
    have hquiet : st.server.pc.Quiet := by
      rw [hpc]
      trivial
    have hstep : CmServerStep st.server
        (st.server.dispatch ⟨.connectRequest, .conn st.server.conns⟩)
        (.getEvent (some ⟨.connectRequest, .conn st.server.conns⟩)) none :=
      .request rfl hquiet rfl rfl rfl
    have hphase : ∀ c, (st.server.dispatch ⟨.connectRequest, .conn st.server.conns⟩).phase c =
        st.server.phase c := fun c => h.server.phase_other hstep nofun
    refine ⟨⟨h.server.step hstep, h.clients, ?_, ?_, ?_⟩, fun j => SessionStep.same rfl ?_ rfl⟩
    · rw [List.length_append, List.length_singleton, h.length]
      rfl
    · rw [List.nodup_append]
      refine ⟨h.nodup, List.nodup_singleton i, ?_⟩
      rintro a ha b hb rfl
      exact hi.2 (List.mem_singleton.mp hb ▸ ha)
    · intro j hj
      rcases List.mem_append.mp hj with hj | hj
      · exact h.asked j hj
      · rw [List.mem_singleton.mp hj]
        exact hi.1
    · refine (hphase _).trans ?_
      change st.server.phase ((st.peers ++ [i]).idxOf j) = st.server.phase (st.peers.idxOf j)
      by_cases hj : j ∈ st.peers
      · rw [List.idxOf_append_of_mem hj]
      · -- the request of any client gets a number that was free
        rw [List.idxOf_append_of_notMem hj, List.idxOf_of_notMem hj, h.length,
          h.server.phase_fresh le_rfl, h.server.phase_fresh (Nat.le_add_right _ _)]
  · cases hs

/-- A step of a device. -/
theorem Course.device (h : st.Course) {i : ℕ} {s : Side} {ev : MsgEvent} (hok : ev.Ok)
    (hs : st.next (.device i s ev) = some st') :
    st'.Course ∧ ∀ j, SessionStep (st.session j) (st'.session j) := by
  obtain ⟨msg, hmsg, rfl⟩ := Option.map_eq_some_iff.mp hs
  refine ⟨⟨h.server, h.clients, h.length, h.nodup, h.asked⟩, fun j => ?_⟩
  by_cases hj : j = i
  · subst hj
    refine Or.inr ⟨.device s ev, ?_⟩
    change (if ev.Ok then ((st.conns j).msg.next s ev).map _ else none) = _
    rw [if_pos hok, hmsg, Option.map_some]
    change some _ = some (CmSession.mk _ _ (Function.update st.conns j _ j))
    rw [Function.update_self]
    rfl
  · exact SessionStep.same rfl rfl (Function.update_of_ne hj ..)

/-- **What a step does to the sessions.** -/
theorem Course.next (h : st.Course) {l : CmNetLabel} (hok : CmNetNoFailure st l)
    (hs : st.next l = some st') : st'.Course ∧ ∀ j, SessionStep (st.session j) (st'.session j) := by
  cases l with
  | server l => exact h.server_step hok hs
  | request i => exact h.request hs
  | client i l => exact h.client hok hs
  | device i s ev => exact h.device hok hs

end Steps

/-- **Every connection of every run is in a state of a session.** -/
theorem session_reach {st : CmNet} (h : cmNetLts.Reach CmNetNoFailure st) :
    st.Course ∧ ∀ i, cmSessionLts.Reach Lts.any (st.session i) := by
  refine h.invariant (I := fun st => st.Course ∧ ∀ i, cmSessionLts.Reach Lts.any (st.session i))
    ?_ ?_
  · rintro _ rfl
    exact ⟨Course.start, fun i => Lts.Reach.of_init rfl⟩
  · rintro st l st' ⟨hcourse, hreach⟩ hok hs
    obtain ⟨hcourse', hsession⟩ := hcourse.next hok hs
    refine ⟨hcourse', fun i => ?_⟩
    rcases hsession i with heq | ⟨l', hl'⟩
    · rw [heq]
      exact hreach i
    · exact (hreach i).tail trivial hl'

end CmNet

/-! ### The exchange -/

theorem ClientPhase.counts_le (p : ClientPhase) : p.counts.receives ≤ 1 ∧ p.counts.sends ≤ 1 := by
  cases p <;> decide

theorem ServerPhase.counts_le (p : ServerPhase) : p.counts.receives ≤ 1 ∧ p.counts.sends ≤ 1 := by
  cases p <;> decide

/-- A side posts one receive and one message at most. -/
theorem CmSession.counts_le (x : CmSession) (s : Side) :
    (x.counts s).receives ≤ 1 ∧ (x.counts s).sends ≤ 1 := by
  cases s
  · exact x.client.counts_le
  · exact x.server.counts_le

namespace CmSession.Exchanged

variable {x : CmSession}

/-- **Who sends knows that the other side has posted its receive.** -/
theorem receives_of_sends (h : x.Exchanged) {s : Side} (hs : (x.counts s).sends ≠ 0) :
    (x.counts s.other).receives = 1 := by
  cases s with
  | client =>
    have hphase : x.client.Asked ∧ x.client ≠ .asked := by
      change x.client.counts.sends ≠ 0 at hs
      revert hs
      cases x.client <;> decide
    have hserver := (h.accepted.mp (h.opened hphase.1 hphase.2)).1
    change x.server.counts.receives = 1
    revert hserver
    cases x.server <;> decide
  | server =>
    have hserver : x.server ≠ .fresh := by
      change x.server.counts.sends ≠ 0 at hs
      revert hs
      cases x.server <;> decide
    have hclient := h.asked hserver
    change x.client.counts.receives = 1
    revert hclient
    cases x.client <;> decide

/-- **The receiver is always ready.** -/
theorem ready (h : x.Exchanged) (s : Side) : ¬x.conn.msg.ReceiverNotReady s := by
  rintro ⟨⟨data, rest, hwire⟩, hrq⟩
  have hlt := (h.traffic.counted s).executed_lt (by rw [hwire]; nofun)
  have hlen := (h.traffic.ends s.other).rq_length
  rw [(h.traffic.ends s).posted, List.length_replicate] at hlt
  rw [hrq, List.length_nil, Nat.zero_add, h.receives_of_sends
    (Nat.ne_of_gt (Nat.zero_lt_of_lt hlt))] at hlen
  have hle := (x.counts_le s).2
  omega

/-- What a side has said is its message. -/
theorem eq_of_mem_said (h : x.Exchanged) {s : Side} {m : List UInt8} (hm : m ∈ x.conn.said s) :
    (x.counts s).sends ≠ 0 ∧ m = cmMessage s := by
  rw [h.traffic.said s] at hm
  exact List.mem_replicate.mp hm

/-- A message that has arrived has been said, and stands in the buffer of the receive. -/
theorem arrived (h : x.Exchanged) {s : Side} (hexec : (x.conn.msg.ends s.other).executed ≠ 0) :
    cmMessage s ∈ x.conn.said s ∧
      Stream.window ((x.conn.msg.ends s.other).mem .recvBuf) 0 (cmMessage s).length =
        cmMessage s := by
  constructor
  · rw [h.traffic.said s, List.mem_replicate]
    have hle := (h.traffic.counted s).executed_le
    rw [(h.traffic.ends s).posted, List.length_replicate] at hle
    exact ⟨by omega, rfl⟩
  · have hbuf := (h.traffic.ends s.other).recvBuf hexec
    rwa [Side.other_other] at hbuf

/-- **A reply answers the message of the client**, which is in the buffer of the
server. -/
theorem reply (h : x.Exchanged) {r : List UInt8} (hr : r ∈ x.conn.said .server) :
    ∃ m ∈ x.conn.said .client,
      Stream.window ((x.conn.msg.ends .server).mem .recvBuf) 0 m.length = m ∧
        r = replyText m.length ++ [0] := by
  obtain ⟨hsends, rfl⟩ := h.eq_of_mem_said hr
  have hpolls : x.server.counts.polls ≠ 0 := by
    change x.server.counts.sends ≠ 0 at hsends
    revert hsends
    cases x.server <;> decide
  obtain ⟨hsaid, hbuf⟩ := h.arrived (s := .client) (h.received hpolls)
  exact ⟨cmMessage .client, hsaid, hbuf, rfl⟩

/-- **A client that has polled twice** has nothing left to wait for, and has its reply. -/
theorem settled (h : x.Exchanged) (hx : x.client = .finished) :
    (x.conn.msg.ends .client).Settled ∧ (x.conn.msg.ends .client).posted.length = 1 ∧
      (x.conn.msg.ends .client).executed = 1 := by
  have hend := h.traffic.ends .client
  have hcounts : x.counts .client = ⟨1, 1, 2⟩ := by
    change x.client.counts = _
    rw [hx]
    rfl
  rw [hcounts] at hend
  have hposted : (x.conn.msg.ends .client).posted.length = 1 := by
    rw [hend.posted, List.length_replicate]
  have hacked := (h.traffic.counted .client).acked_le hend.error
  have hexec := (h.traffic.counted .client).executed_le
  have hrq := hend.rq_length
  have hcq := hend.cq_length
  change _ + _ = 1 at hrq
  change _ + 2 = _ at hcq
  refine ⟨⟨?_, ?_, ?_⟩, hposted, ?_⟩
  · omega
  · exact List.length_eq_zero_iff.mp (by omega)
  · exact List.length_eq_zero_iff.mp (by omega)
  · omega

end CmSession.Exchanged

/-- **The message exchange**: no Send finds the receiver not ready; a reply answers the
message that has been received on its connection, with the number of its bytes; and
where a client prints `recv_buf`, its send and its receive have completed, both
completions have been polled, and the buffer holds the whole reply of its connection. -/
structure CmExchanged (st : CmNet) : Prop where
  ready : ∀ i s, ¬(st.conns i).msg.ReceiverNotReady s
  replies : ∀ i, ∀ r ∈ (st.conns i).said .server, ∃ m ∈ (st.conns i).said .client,
    Stream.window (((st.conns i).msg.ends .server).mem .recvBuf) 0 m.length = m ∧
      r = replyText m.length ++ [0]
  printed : ∀ i, (st.clients i).pc = .established .disconnect →
    ((st.conns i).msg.ends .client).Settled ∧ ((st.conns i).msg.ends .client).posted.length = 1 ∧
      ((st.conns i).msg.ends .client).executed = 1 ∧
      ∃ r ∈ (st.conns i).said .server,
        Stream.window (((st.conns i).msg.ends .client).mem .recvBuf) 0 r.length = r

/-- **In every run in which nothing fails**, of the server and any number of clients, the
messages are exchanged as they should be. -/
theorem cm_exchange {st : CmNet} (h : cmNetLts.Reach CmNetNoFailure st) : CmExchanged st := by
  obtain ⟨hcourse, hreach⟩ := CmNet.session_reach h
  have hex : ∀ i, (st.session i).Exchanged := fun i => CmSession.exchanged_of_reach (hreach i)
  refine ⟨fun i s => (hex i).ready s, fun i r hr => (hex i).reply hr, fun i hpc => ?_⟩
  have hphase : (st.session i).client = .finished := by
    change (st.clients i).phase = _
    simp only [CmClient.phase, hpc]
  obtain ⟨hsettled, hposted, hexec⟩ := (hex i).settled hphase
  have hexec' : ((st.session i).conn.msg.ends Side.server.other).executed ≠ 0 :=
    fun h0 => absurd (hexec.symm.trans h0) Nat.one_ne_zero
  obtain ⟨hsaid, hbuf⟩ := (hex i).arrived hexec'
  exact ⟨hsettled, hposted, hexec, cmMessage .server, hsaid, hbuf⟩

/-- The setup of a client, up to its `rdma_connect`. -/
def CmNet.askSteps (i : ℕ) : List CmNetLabel :=
  [.client i (.call true), .client i (.call true), .client i (.call true),
    .client i (.getEvent (some .addrResolved)), .client i (.call true),
    .client i (.getEvent (some .routeResolved))] ++ List.replicate 8 (.client i (.call true))

/-- The server takes up the request of a client. -/
def CmNet.acceptSteps (i : ℕ) : List CmNetLabel :=
  .request i :: List.replicate 8 (.server (.call true))

/-- Two clients ask for their connections, and one of them gets its reply; its receive
completes before its send. -/
def CmNet.twoClients : List CmNetLabel :=
  List.replicate 4 (.server (.call true)) ++ askSteps 0 ++ askSteps 1 ++ acceptSteps 1 ++
    acceptSteps 0 ++
    [.client 0 (.getEvent (some .established)), .client 0 (.call true), .device 0 .client .send,
      .device 0 .client .execute, .server (.getEvent (some (.established 1))),
      .server (.poll .one .success), .server (.call true), .device 0 .server .send,
      .device 0 .server .execute, .device 0 .client .complete, .client 0 (.poll .one .success),
      .client 0 (.poll .one .success)]

theorem cm_exchange_two : ∃ st, cmNetLts.Reach CmNetNoFailure st ∧
    ((st.clients 0).pc = .established .disconnect ∧ st.server.conns = 2) ∧ CmExchanged st := by
  have hrun : (Lts.exec CmNet.next CmNetNoFailure CmNet.start CmNet.twoClients).map
      (fun st => ((st.clients 0).pc, st.server.conns)) = some (.established .disconnect, 2) := by
    decide +kernel
  obtain ⟨st, hexec, hview⟩ := Option.map_eq_some_iff.mp hrun
  have hreach : cmNetLts.Reach CmNetNoFailure st := ⟨CmNet.start, rfl, Lts.path_of_exec hexec⟩
  exact ⟨st, hreach, Prod.mk.inj hview, cm_exchange hreach⟩

end RdmaBook
