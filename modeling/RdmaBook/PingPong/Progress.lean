import RdmaBook.PingPong.Echo

/-!
# Two command lines of rc_pingpong

Each process of rc_pingpong takes the number of its iterations and the size of its messages from
its own command line; what the two exchange over TCP says neither. The system of
`RdmaBook.pingLts` is the case where the command lines agree. Here they need not.

With one message size, the connection never wedges before it has to: whatever has been lost or
sent twice, both processes can be brought to the end of the smaller number of turns, and a
process that was told more waits there for good (`RdmaBook.pingPong_progress`).
-/

namespace RdmaBook

/-! ### The system -/

section System

variable (numIters msgSize : Side → ℕ)

/-- A step of the system, each process with its own numbers. -/
def pingSysNextOf (st : PingState) : PingStep → Option PingState
  | .proc s l => (pingNext (numIters s) (msgSize s) s (st.host s) l).map fun h =>
      { st with host := Function.update st.host s h }
  | .net s ev => (rcNext (st.host s).rc (st.host s.other).rc (st.wire s) ev).map (st.setNet s)

/-- **Ping-pong** between two processes that were given their own numbers, from the moment both
have passed the sync. -/
def pingLtsOf : Lts PingState PingStep :=
  Lts.ofFun (· = { host := fun s => pingStart (msgSize s), wire := fun _ => [] })
    (pingSysNextOf numIters msgSize)

end System

/-- With the same numbers it is the system both processes share their numbers in. -/
theorem pingLtsOf_const (numIters msgSize : ℕ) :
    pingLtsOf (fun _ => numIters) (fun _ => msgSize) = pingLts numIters msgSize := by
  have hstep : pingSysNextOf (fun _ => numIters) (fun _ => msgSize) =
      pingSysNext numIters msgSize := by
    funext st l
    cases l <;> rfl
  rw [pingLtsOf, hstep, pingLts]

/-! ### The connection inside the system -/

/-- One direction of the connection. -/
def PingState.conn (st : PingState) (s : Side) : RcEnd PingBuf × RcEnd PingBuf × List RcPacket :=
  ((st.host s).rc, (st.host s.other).rc, st.wire s)

section Conn

variable {numIters msgSize : Side → ℕ} {st : PingState} {s : Side}

theorem PingState.setNet_conn (st : PingState) (s : Side) : st.setNet s (st.conn s) = st := by
  cases s <;> simp [PingState.setNet, PingState.conn]

theorem PingState.conn_setNet (st : PingState) (s : Side)
    (r : RcEnd PingBuf × RcEnd PingBuf × List RcPacket) : (st.setNet s r).conn s = r := by
  cases s <;> rfl

theorem PingState.setNet_setNet (st : PingState) (s : Side)
    (r r' : RcEnd PingBuf × RcEnd PingBuf × List RcPacket) :
    (st.setNet s r).setNet s r' = st.setNet s r' := by
  have hhost : ((st.setNet s r).setNet s r').host = (st.setNet s r').host := by
    funext t
    cases s <;> cases t <;> rfl
  have hwire : ((st.setNet s r).setNet s r').wire = (st.setNet s r').wire :=
    Function.update_idem ..
  exact congrArg₂ PingState.mk hhost hwire

/-- **A run of one direction is a run of the system.** -/
theorem path_of_rcLts {r : RcEnd PingBuf × RcEnd PingBuf × List RcPacket}
    (h : rcLts.Path (fun _ ev => ev.Ok) (st.conn s) r) :
    (pingLtsOf numIters msgSize).Path PingNoFailure st (st.setNet s r) := by
  induction h with
  | refl =>
    rw [st.setNet_conn]
    exact Lts.Path.refl st
  | @tail r₁ r₂ _ hlast ih =>
    obtain ⟨ev, hok, hs⟩ := hlast
    refine ih.tail (l := .net s ev) hok ?_
    have hconn : rcNext ((st.setNet s r₁).conn s).1 ((st.setNet s r₁).conn s).2.1
        ((st.setNet s r₁).conn s).2.2 ev = some r₂ := by
      rw [st.conn_setNet]
      exact hs
    change (rcNext _ _ _ ev).map _ = _
    rw [PingState.conn] at hconn
    rw [hconn, Option.map_some, st.setNet_setNet]

end Conn

/-! ### The end of the loop -/

section Bound

variable {numIters : Side → ℕ} {n msgSize : ℕ} {s : Side} {h h' : PingHost} {st : PingState}

theorem PingInv.of_reachOf (h : (pingLtsOf numIters fun _ => msgSize).Reach PingNoFailure st) :
    PingInv msgSize st := by
  refine h.invariant ?_ fun a l b ha hok hs => ?_
  · rintro a rfl
    exact PingInv.start msgSize
  · cases l with
    | proc s l =>
      obtain ⟨h', hnext, rfl⟩ := Option.map_eq_some_iff.mp hs
      exact ha.move (pingNext_move hok (ha.host s).success hnext)
    | net s ev =>
      obtain ⟨r, hr, rfl⟩ := Option.map_eq_some_iff.mp hs
      exact ha.net hok hr

/-- **Where the loop of a process ends**: it is in a turn below its own number, or past the last
one. -/
structure PingBound (n msgSize : ℕ) (h : PingHost) : Prop where
  le : h.i ≤ n
  lt : h.pc ≠ .loop → h.pc ≠ .finished → h.i < n
  last : h.pc = .finished → h.i = n
  filled : h.rc.filled ≤ msgSize

theorem PingBound.start (n msgSize : ℕ) : PingBound n msgSize (pingStart msgSize) where
  le := Nat.zero_le n
  lt := fun hloop => absurd rfl hloop
  last := by rintro ⟨⟩
  filled := Nat.zero_le msgSize

/-- A call that succeeds stays in the turn, or ends it. -/
theorem PingBound.advance {rc : RcEnd PingBuf} {polled : ℕ} (hb : PingBound n msgSize h)
    (hpc : h.pc = .postReceive ∨ h.pc = .postSend ∨ h.pc = .pollSend ∨ h.pc = .pollRecv)
    (hrc : rc.filled = h.rc.filled) :
    PingBound n msgSize ({ h with rc := rc, polled := polled }.advance s) := by
  have hlt : h.i < n := by
    apply hb.lt <;> rcases hpc with hpc | hpc | hpc | hpc <;> rw [hpc] <;> decide
  have hfilled : rc.filled ≤ msgSize := hrc.trans_le hb.filled
  rcases hpc with hpc | hpc | hpc | hpc <;> cases s <;>
    constructor <;> simp [PingHost.advance, hpc, PingPc.next] <;> omega

theorem PingBound.move (hb : PingBound n msgSize h) (hm : PingMove n msgSize s h h') :
    PingBound n msgSize h' := by
  cases hm with
  | enter hpc hi => cases s <;> exact ⟨hb.le, fun _ _ => hi, (by rintro ⟨⟩), hb.filled⟩
  | leave hpc hi =>
    exact ⟨hb.le, fun _ hne => absurd rfl hne, fun _ => le_antisymm hb.le hi, hb.filled⟩
  | fill hpc bytes hbytes =>
    have hlt : h.i < n := by
      apply hb.lt <;> rw [hpc] <;> decide
    exact ⟨hb.le, fun _ _ => hlt, (by rintro ⟨⟩), hb.filled⟩
  | postReceive hpc => exact hb.advance (Or.inl hpc) rfl
  | postSend hpc => exact hb.advance (Or.inr (Or.inl hpc)) rfl
  | poll hpc wc rest hcq => exact hb.advance (Or.inr (Or.inr hpc)) rfl
  | idle => exact hb

/-- **The bounds of both processes are kept by every event of the connection.** -/
theorem PingBound.net {ev : RcEvent} {r : RcEnd PingBuf × RcEnd PingBuf × List RcPacket}
    (hinv : PingInv msgSize st) (hb : ∀ t, PingBound (numIters t) msgSize (st.host t)) (hok : ev.Ok)
    (hs : rcNext (st.host s).rc (st.host s.other).rc (st.wire s) ev = some r) :
    ∀ t, PingBound (numIters t) msgSize ((st.setNet s r).host t) := by
  -- only a packet that is taken changes what is filled
  have hfilled : r.1.filled ≤ msgSize ∧ r.2.1.filled ≤ msgSize := by
    cases ev with
    | transmit j off n =>
      obtain ⟨p, -, rfl⟩ := Option.map_eq_some_iff.mp hs
      exact ⟨(hb s).filled, (hb s.other).filled⟩
    | lose =>
      cases hwire : st.wire s with
      | nil =>
        rw [hwire] at hs
        cases hs
      | cons p rest =>
        rw [hwire] at hs
        obtain rfl := Option.some.inj hs
        exact ⟨(hb s).filled, (hb s.other).filled⟩
    | deliver =>
      cases hwire : st.wire s with
      | nil =>
        rw [hwire] at hs
        cases hs
      | cons p rest =>
        rw [hwire] at hs
        obtain rfl := Option.some.inj hs
        refine ⟨(hb s).filled, ?_⟩
        obtain ⟨c, hc, hof⟩ := hinv.packets s p (hwire ▸ List.mem_cons_self)
        have hsize : c.length = msgSize := hinv.pings_size c (List.mem_of_getElem? hc)
        have hfits : ∀ wr ∈ (st.host s.other).rc.rq, wr.length = c.length :=
          fun wr hwr => ((hinv.host s.other).rq_size wr hwr).trans hsize.symm
        change ((st.host s.other).rc.deliver p).filled ≤ msgSize
        rcases RcEnd.deliver_cases hfits hof with heq | ⟨-, hoff, wr, rest', -, ⟨-, heq⟩ | heq⟩
        · rw [heq]
          exact (hb s.other).filled
        · rw [heq]
          exact Nat.zero_le msgSize
        · have hle := hof.le
          rw [heq]
          change (st.host s.other).rc.filled + p.data.length ≤ msgSize
          omega
    | ack =>
      rw [rcNext] at hs
      split at hs
      · obtain ⟨a, ha, rfl⟩ := Option.map_eq_some_iff.mp hs
        obtain ⟨wr, rest, -, rfl⟩ := RcEnd.ack_eq_some ha
        exact ⟨(hb s).filled, (hb s.other).filled⟩
      · cases hs
    | fail opcode status => exact hok.elim
  intro t
  cases s <;> cases t <;>
    first
    | exact { hb _ with filled := hfilled.1 }
    | exact { hb _ with filled := hfilled.2 }

theorem PingBound.of_reach (h : (pingLtsOf numIters fun _ => msgSize).Reach PingNoFailure st) :
    ∀ s, PingBound (numIters s) msgSize (st.host s) := by
  refine h.invariant_of (I := fun a => ∀ s, PingBound (numIters s) msgSize (a.host s))
    (fun _ ha => PingInv.of_reachOf ha) ?_ fun a l b hinv hb hok hs => ?_
  · rintro a rfl s
    exact PingBound.start (numIters s) msgSize
  · cases l with
    | proc s l =>
      obtain ⟨h', hnext, rfl⟩ := Option.map_eq_some_iff.mp hs
      have hmove := (hb s).move (pingNext_move hok (hinv.host s).success hnext)
      intro t
      rcases eq_or_ne t s with rfl | hne
      · simpa using hmove
      · simpa [hne] using hb t
    | net s ev =>
      obtain ⟨r, hr, rfl⟩ := Option.map_eq_some_iff.mp hs
      exact PingBound.net hinv hb hok hr

/-- A process posts a send in each of its turns at most. -/
theorem PingBound.posted_le (hb : PingBound n msgSize h) (hinv : PingHostInv msgSize s h) :
    h.rc.posted ≤ n := by
  have hle := hb.le
  have hposted := hinv.posted
  have hsends : (h.pc.count s).sends = 0 ∨ h.i < n := by
    by_cases hloop : h.pc = .loop
    · rw [hloop]
      cases s <;> exact Or.inl rfl
    · by_cases hfin : h.pc = .finished
      · rw [hfin]
        cases s <;> exact Or.inl rfl
      · exact Or.inr (hb.lt hloop hfin)
  have hone := (h.pc.count_le s).1
  omega

end Bound

/-! ### What is left to do -/

/-- The place in the turn. -/
def PingPc.rank : Side → PingPc → ℕ
  | _, .loop => 0
  | _, .snprintf => 1
  | _, .postReceive => 2
  | .client, .postSend => 3
  | .client, .pollSend => 4
  | .client, .pollRecv => 5
  | .server, .pollRecv => 3
  | .server, .postSend => 4
  | .server, .pollSend => 5
  | _, .finished => 6
  | _, .exited => 0

theorem PingPc.rank_le (s : Side) (pc : PingPc) : pc.rank s ≤ 6 := by
  cases pc <;> cases s <;> decide

/-- What a process has done, and what the connection has done for it. -/
def PingHost.work (s : Side) (h : PingHost) : ℕ := 7 * h.i + h.pc.rank s + h.rc.acked + h.rc.rcvd

/-- What has been done in all. -/
def PingState.work (st : PingState) : ℕ :=
  (st.host .client).work .client + (st.host .server).work .server

/-- The process can only wait: it is past its loop, or has nothing to poll. -/
def PingHost.Blocked (h : PingHost) : Prop :=
  h.pc = .finished ∨ (h.pc = .pollSend ∨ h.pc = .pollRecv) ∧ h.rc.cq = []

section Work

variable {numIters : Side → ℕ} {n msgSize : ℕ} {s : Side} {h : PingHost} {st : PingState}

theorem PingState.work_eq (st : PingState) (s : Side) :
    st.work = (st.host s).work s + (st.host s.other).work s.other := by
  cases s
  · rfl
  · exact Nat.add_comm _ _

/-- A call that succeeds is work done. -/
theorem PingHost.work_advance {rc : RcEnd PingBuf} {polled : ℕ}
    (hpc : h.pc = .postReceive ∨ h.pc = .postSend ∨ h.pc = .pollSend ∨ h.pc = .pollRecv)
    (hacked : rc.acked = h.rc.acked) (hrcvd : rc.rcvd = h.rc.rcvd) :
    h.work s < ({ h with rc := rc, polled := polled }.advance s).work s := by
  rcases hpc with hpc | hpc | hpc | hpc <;> cases s <;>
    simp [PingHost.work, PingHost.advance, hpc, PingPc.next, PingPc.rank, hacked, hrcvd] <;> omega

/-- **A process that need not wait has a step**, and the step is work done. -/
theorem PingHostInv.exists_step (hinv : PingHostInv msgSize s h) (hgo : ¬h.Blocked)
    (st : PingState) : ∃ l h', PingNoFailure st (.proc s l) ∧
      pingNext n msgSize s h l = some h' ∧ h.work s < h'.work s := by
  have hpoll : (h.pc = .pollSend ∨ h.pc = .pollRecv) → ∃ l h', PingNoFailure st (.proc s l) ∧
      pingNext n msgSize s h l = some h' ∧ h.work s < h'.work s := by
    intro hpc
    obtain ⟨wc, rest, hcq⟩ : ∃ wc rest, h.rc.cq = wc :: rest :=
      List.exists_cons_of_ne_nil fun hnil => hgo (Or.inr ⟨hpc, hnil⟩)
    have hwc : wc.status = .success := hinv.success wc (hcq ▸ List.mem_cons_self)
    have hret : pingPoll s h .one =
        some ({ h with rc := { h.rc with cq := rest }, polled := h.polled + 1 }.advance s) := by
      simp only [pingPoll, hcq, if_pos hwc]
    have hwork : h.work s <
        ({ h with rc := { h.rc with cq := rest }, polled := h.polled + 1 }.advance s).work s :=
      PingHost.work_advance (Or.inr (Or.inr hpc)) rfl rfl
    have hnext : pingNext n msgSize s h (.poll .one) = pingPoll s h .one := by
      rcases hpc with hpc | hpc <;> simp only [pingNext, hpc]
    exact ⟨.poll .one, _, (by rintro ⟨⟩), hnext.trans hret, hwork⟩
  cases hpc : h.pc with
  | loop =>
    rcases Nat.lt_or_ge h.i n with hi | hi
    · cases s with
      | client =>
        refine ⟨.cpu, { h with pc := .snprintf }, trivial, ?_, ?_⟩
        · simp only [pingNext, pingCpu, hpc, if_pos hi]
        · simp [PingHost.work, hpc, PingPc.rank]
      | server =>
        refine ⟨.cpu, { h with pc := .postReceive }, trivial, ?_, ?_⟩
        · simp only [pingNext, pingCpu, hpc, if_pos hi]
        · simp [PingHost.work, hpc, PingPc.rank]
    · refine ⟨.cpu, { h with pc := .finished }, trivial, ?_, ?_⟩
      · simp only [pingNext, pingCpu, hpc, if_neg (Nat.not_lt.mpr hi)]
      · cases s <;> simp [PingHost.work, hpc, PingPc.rank]
  | snprintf =>
    let bytes := CString.snprintf h.buf msgSize (pingText h.i)
    refine ⟨.cpu, { h with
      pc := .postReceive, rc := h.rc.store .buf bytes, pings := h.pings ++ [bytes] },
      trivial, ?_, ?_⟩
    · simp only [pingNext, pingCpu, hpc]
      rfl
    · cases s <;> simp [PingHost.work, hpc, PingPc.rank, RcEnd.store]
  | postReceive =>
    have hwork : h.work s < ({ h with rc := h.rc.postRecv (h.wr msgSize) }.advance s).work s :=
      PingHost.work_advance (Or.inl hpc) rfl rfl
    exact ⟨.postReceive true, _, rfl, by simp only [pingNext, pingPost, hpc, if_true], hwork⟩
  | postSend =>
    have hwork : h.work s < ({ h with rc := h.rc.postSend (h.wr msgSize) }.advance s).work s :=
      PingHost.work_advance (Or.inr (Or.inl hpc)) rfl rfl
    exact ⟨.postSend true, _, rfl, by simp only [pingNext, pingPost, hpc, if_true], hwork⟩
  | pollSend => exact hpoll (Or.inl hpc)
  | pollRecv => exact hpoll (Or.inr hpc)
  | finished => exact absurd (Or.inl hpc) hgo
  | exited => exact absurd hpc hinv.alive

/-- What is done is bounded by the numbers of the command lines. -/
theorem PingInv.work_le (hinv : PingInv msgSize st)
    (hb : ∀ s, PingBound (numIters s) msgSize (st.host s)) :
    st.work ≤ 9 * (numIters .client + numIters .server) + 12 := by
  have hhost : ∀ s, (st.host s).work s ≤ 8 * numIters s + 6 + numIters s.other := by
    intro s
    have hle := (hb s).le
    have hrank := (st.host s).pc.rank_le s
    have hposted := (hb s).posted_le (hinv.host s)
    have hposted' := (hb s.other).posted_le (hinv.host s.other)
    have hacked : (st.host s).rc.acked ≤ (st.host s).rc.posted := Nat.le_add_right _ _
    have hrcvd := (hinv.link s.other).rcvd_le
    rw [s.other_other] at hrcvd
    rw [PingHost.work]
    omega
  have hclient := hhost .client
  have hserver := hhost .server
  change _ ≤ 8 * numIters .client + 6 + numIters .server at hclient
  change _ ≤ 8 * numIters .server + 6 + numIters .client at hserver
  rw [PingState.work]
  omega

/-! ### The stretches of a run -/

/-- A process that need not wait. -/
theorem PingInv.exists_proc (hinv : PingInv msgSize st) (hgo : ¬(st.host s).Blocked) :
    ∃ st', (pingLtsOf numIters fun _ => msgSize).Path PingNoFailure st st' ∧
    st.work < st'.work := by
  obtain ⟨l, h', hok, hnext, hwork⟩ := (hinv.host s).exists_step (n := numIters s) hgo st
  have hs : pingSysNextOf numIters (fun _ => msgSize) st (.proc s l) =
      some { st with host := Function.update st.host s h' } := by
    rw [pingSysNextOf, hnext]
    rfl
  refine ⟨_, Lts.Path.single (l := .proc s l) hok hs, ?_⟩
  rw [st.work_eq s, PingState.work_eq _ s]
  change _ < ((Function.update st.host s h') s).work s +
    ((Function.update st.host s h') s.other).work s.other
  rw [Function.update_self, Function.update_of_ne s.other_ne]
  omega

/-- What a stretch of one direction of the connection has done. -/
theorem PingState.work_setNet {r : RcEnd PingBuf × RcEnd PingBuf × List RcPacket} :
    (st.setNet s r).work = ({ st.host s with rc := r.1 } : PingHost).work s +
      ({ st.host s.other with rc := r.2.1 } : PingHost).work s.other := by
  rw [PingState.work_eq _ s]
  cases s <;> rfl

/-- A message that has been received can be acknowledged. -/
theorem PingInv.exists_ack (hinv : PingInv msgSize st)
    (hlt : (st.host s).rc.acked < (st.host s.other).rc.rcvd) :
    ∃ st', (pingLtsOf numIters fun _ => msgSize).Path PingNoFailure st st' ∧
    st.work < st'.work := by
  have hrcvd := (hinv.link s).rcvd_le
  have hsq : (st.host s).rc.sq ≠ [] := by
    intro hnil
    rw [RcEnd.posted, hnil, List.length_nil] at hrcvd
    omega
  obtain ⟨wr, rest, hcons⟩ := List.exists_cons_of_ne_nil hsq
  obtain ⟨a, ha⟩ : ∃ a, (st.host s).rc.ack = some a := by
    rw [RcEnd.ack, hcons]
    exact ⟨_, rfl⟩
  have hstep : rcNext (st.host s).rc (st.host s.other).rc (st.wire s) .ack =
      some (a, (st.host s.other).rc, st.wire s) := by
    rw [rcNext, if_pos hlt, ha]
    rfl
  have hpath : rcLts.Path (fun _ ev => ev.Ok) (st.conn s) (a, (st.host s.other).rc, st.wire s) :=
    Lts.Path.single (l := .ack) trivial hstep
  refine ⟨_, path_of_rcLts hpath, ?_⟩
  obtain ⟨-, -, -, rfl⟩ := RcEnd.ack_eq_some ha
  rw [PingState.work_setNet, st.work_eq s]
  simp only [PingHost.work]
  omega

/-- A message whose receive is posted can be received. -/
theorem PingInv.exists_deliver (hinv : PingInv msgSize st)
    (hb : ∀ s, PingBound (numIters s) msgSize (st.host s))
    (hlt : (st.host s.other).rc.rcvd < (st.host s).rc.posted) (hrq : (st.host s.other).rc.rq ≠ []) :
    ∃ st', (pingLtsOf numIters fun _ => msgSize).Path PingNoFailure st st' ∧
    st.work < st'.work := by
  obtain ⟨b, hpath, hrcvd, hacked⟩ := rcLts_message (st.wire s) (hinv.link s).acked_le hlt hrq
    (fun wr hwr => ⟨((hb s.other).filled).trans_eq ((hinv.host s).sq_size wr hwr).symm,
      ((hinv.host s).sq_size wr hwr).trans (hinv.host s).size.symm⟩)
    (fun wr hwr wr' hwr' =>
      (((hinv.host s).sq_size wr hwr).trans ((hinv.host s.other).rq_size wr' hwr').symm).le)
  refine ⟨_, path_of_rcLts hpath, ?_⟩
  rw [PingState.work_setNet, st.work_eq s]
  simp only [PingHost.work, hrcvd, hacked]
  omega

/-! ### Where the runs end -/

/-- **The end of ping-pong**: both processes have ended the turns of the smaller number. A
process that was told no more is past its loop; the other one waits, the client for its ping
to be taken and the server for a ping to come. -/
structure PingState.AtEnd (numIters : Side → ℕ) (st : PingState) : Prop where
  turns : ∀ s, (st.host s).i = min (numIters .client) (numIters .server)
  finished : ∀ s, numIters s ≤ numIters s.other → (st.host s).pc = .finished
  waits : ∀ s, numIters s.other < numIters s → (st.host s).pc =
    match s with
    | .client => .pollSend
    | .server => .pollRecv

/-- The numbers of a process that can only wait. -/
theorem PingHostInv.of_blocked (hinv : PingHostInv msgSize s h) (hb : PingBound n msgSize h)
    (hblocked : h.Blocked) :
    (h.pc = .finished ∧ h.i = n ∨ (h.pc = .pollSend ∨ h.pc = .pollRecv) ∧ h.i < n) ∧
      h.rc.posted = h.i + (h.pc.count s).sends ∧
      h.rc.acked + h.rc.rcvd = 2 * h.i + (h.pc.count s).polls ∧
      (h.rc.rq = [] → h.rc.rcvd = h.i + (h.pc.count s).recvs) := by
  have hcq : h.rc.cq = [] := by
    rcases hblocked with hfin | ⟨-, hcq⟩
    · have hcount : h.pc.count s = ⟨0, 0, 0, 0⟩ := by
        rw [hfin]
        cases s <;> rfl
      exact (hinv.between hcount).2.2.1
    · exact hcq
  have haccount := hinv.account
  have hpolled := hinv.polled
  have hwanted := hinv.wanted
  rw [hcq, List.length_nil] at haccount
  refine ⟨?_, hinv.posted, by omega, fun hrq => ?_⟩
  · rcases hblocked with hfin | ⟨hpc, -⟩
    · exact Or.inl ⟨hfin, hb.last hfin⟩
    · refine Or.inr ⟨hpc, ?_⟩
      apply hb.lt <;> rcases hpc with hpc | hpc <;> rw [hpc] <;> decide
  · rw [hrq, List.length_nil] at hwanted
    exact hwanted

/-- **Where nothing can be done** the two processes are at the end: neither can go on, no message
that has been received waits for its acknowledgement, and none that has been sent for a receive
that is posted. -/
theorem PingInv.atEnd (hinv : PingInv msgSize st)
    (hb : ∀ s, PingBound (numIters s) msgSize (st.host s)) (hblocked : ∀ s, (st.host s).Blocked)
    (hack : ∀ s : Side, (st.host s.other).rc.rcvd ≤ (st.host s).rc.acked)
    (hrecv : ∀ s : Side, (st.host s.other).rc.rcvd < (st.host s).rc.posted →
      (st.host s.other).rc.rq = []) : st.AtEnd numIters := by
  obtain ⟨hpc, hposted, hdone, hrcvd⟩ :=
    (hinv.host .client).of_blocked (hb .client) (hblocked .client)
  obtain ⟨hpc', hposted', hdone', hrcvd'⟩ :=
    (hinv.host .server).of_blocked (hb .server) (hblocked .server)
  have hacked_ge := (hinv.host .client).acked_ge
  have hacked_ge' := (hinv.host .server).acked_ge
  have hrcvd_ge := (hinv.host .client).rcvd_ge
  have hrcvd_ge' := (hinv.host .server).rcvd_ge
  have hlink := (hinv.link .client).acked_le
  have hlink' := (hinv.link .server).acked_le
  have hsent := (hinv.link .client).rcvd_le
  have hsent' := (hinv.link .server).rcvd_le
  have hack₁ := hack .client
  have hack₂ := hack .server
  have hwait : (st.host .server).rc.rcvd < (st.host .client).rc.posted →
      (st.host .server).rc.rcvd = (st.host .server).i +
        ((st.host .server).pc.count .server).recvs :=
    fun hlt => hrcvd' (hrecv .client hlt)
  have hwait' : (st.host .client).rc.rcvd < (st.host .server).rc.posted →
      (st.host .client).rc.rcvd = (st.host .client).i +
        ((st.host .client).pc.count .client).recvs :=
    fun hlt => hrcvd (hrecv .server hlt)
  simp only [Side.other] at hlink hlink' hsent hsent' hack₁ hack₂
  -- of the nine pairs of places, the numbers leave three
  have hends : (st.host .client).i = (st.host .server).i ∧
      ((st.host .client).pc = .finished ∧ (st.host .server).pc = .finished ∨
        (st.host .client).pc = .pollSend ∧ (st.host .server).pc = .finished ∨
        (st.host .client).pc = .finished ∧ (st.host .server).pc = .pollRecv) := by
    rcases hpc with ⟨hc, -⟩ | ⟨hc | hc, -⟩ <;> rcases hpc' with ⟨hs, -⟩ | ⟨hs | hs, -⟩ <;>
      simp only [hc, hs, PingPc.count] at hposted hposted' hdone hdone' hwait hwait' hrcvd_ge' ⊢ <;>
      simp <;> omega
  obtain ⟨hi, hplaces⟩ := hends
  have hmin : (st.host .client).i = min (numIters .client) (numIters .server) ∧
      (numIters .client ≤ numIters .server ↔ (st.host .client).pc = .finished) ∧
      (numIters .server ≤ numIters .client ↔ (st.host .server).pc = .finished) := by
    rcases hplaces with ⟨hc, hs⟩ | ⟨hc, hs⟩ | ⟨hc, hs⟩ <;> simp [hc] at hpc <;>
      simp [hs] at hpc' <;>
      simp [hc, hs] <;> omega
  obtain ⟨hturns, hclient, hserver⟩ := hmin
  refine ⟨fun s => ?_, fun s hle => ?_, fun s hlt => ?_⟩
  · cases s
    · exact hturns
    · exact hi.symm.trans hturns
  · cases s
    · exact hclient.mp hle
    · exact hserver.mp hle
  · cases s
    · have hne : (st.host .client).pc ≠ .finished := fun hfin =>
        absurd (hclient.mpr hfin) (Nat.not_le.mpr hlt)
      rcases hplaces with ⟨hc, -⟩ | ⟨hc, -⟩ | ⟨hc, -⟩
      · exact absurd hc hne
      · exact hc
      · exact absurd hc hne
    · have hne : (st.host .server).pc ≠ .finished := fun hfin =>
        absurd (hserver.mpr hfin) (Nat.not_le.mpr hlt)
      rcases hplaces with ⟨-, hs⟩ | ⟨-, hs⟩ | ⟨-, hs⟩
      · exact absurd hs hne
      · exact absurd hs hne
      · exact hs

/-- **A state that is not the end leads on**: a stretch of some run does more work. -/
theorem PingInv.exists_stretch (hinv : PingInv msgSize st)
    (hb : ∀ s, PingBound (numIters s) msgSize (st.host s)) (hgo : ¬st.AtEnd numIters) :
    ∃ st', (pingLtsOf numIters fun _ => msgSize).Path PingNoFailure st st' ∧
    st.work < st'.work := by
  by_contra hstuck
  refine hgo (hinv.atEnd hb (fun s => ?_) (fun s => ?_) fun s hlt => ?_)
  · by_contra hfree
    exact hstuck (hinv.exists_proc hfree)
  · by_contra hlt
    exact hstuck (hinv.exists_ack (Nat.not_le.mp hlt))
  · by_contra hrq
    exact hstuck (hinv.exists_deliver hb hlt hrq)

/-- No process ends more turns than the smaller number. -/
theorem PingInv.turns_le (hinv : PingInv msgSize st)
    (hb : ∀ s, PingBound (numIters s) msgSize (st.host s)) (s : Side) :
    (st.host s).i ≤ min (numIters .client) (numIters .server) := by
  have hle := (hb s).le
  have hposted := (hb s.other).posted_le (hinv.host s.other)
  have hrcvd := (hinv.link s.other).rcvd_le
  have hturn : (st.host s).i ≤ (st.host s).rc.rcvd :=
    (Nat.le_add_right _ _).trans (hinv.host s).rcvd_ge
  rw [s.other_other] at hrcvd
  cases s <;> simp only [Side.other] at hposted hrcvd <;> omega

/-- **The end can be reached** from every state: the work done is bounded, and every stretch adds
to it. -/
theorem pingPong_exists_atEnd (h : (pingLtsOf numIters fun _ => msgSize).Reach PingNoFailure st) :
    ∃ st', (pingLtsOf numIters fun _ => msgSize).Path PingNoFailure st st' ∧
    st'.AtEnd numIters := by
  have hstretch : ∀ a, (pingLtsOf numIters fun _ => msgSize).Reach PingNoFailure a →
      ¬a.AtEnd numIters → ∃ b, (pingLtsOf numIters fun _ => msgSize).Path PingNoFailure a b ∧
        (pingLtsOf numIters fun _ => msgSize).Reach PingNoFailure b ∧
        9 * (numIters .client + numIters .server) + 12 - b.work <
          9 * (numIters .client + numIters .server) + 12 - a.work := by
    intro a hr hgo
    obtain ⟨b, hpath, hwork⟩ := (PingInv.of_reachOf hr).exists_stretch (PingBound.of_reach hr) hgo
    have hrb := hr.trans hpath
    have hle := (PingInv.of_reachOf hrb).work_le (PingBound.of_reach hrb)
    exact ⟨b, hpath, hrb, by omega⟩
  obtain ⟨st', hp, -, hend⟩ := Lts.Path.exists_goal_of_path
    (fun a => 9 * (numIters .client + numIters .server) + 12 - a.work) hstretch h
  exact ⟨st', hp, hend⟩

end Work

/-- **Ping-pong comes to the end of the smaller number of iterations.** Let each process have its
own number of iterations, and let no call fail. In every state reached no process has ended more
turns than the smaller number, a process that was told more is not past its loop, and however many
packets have been lost, sent twice or refused, a run leads to the end: both processes have ended
exactly the turns of the smaller number, a process that was told no more is past its loop, and the
other waits in a poll. -/
theorem pingPong_progress (numIters : Side → ℕ) (msgSize : ℕ) (st : PingState)
    (h : (pingLtsOf numIters fun _ => msgSize).Reach PingNoFailure st) :
    (∀ s, (st.host s).i ≤ min (numIters .client) (numIters .server)) ∧
    (∀ s, numIters s.other < numIters s → (st.host s).pc ≠ .finished) ∧
    ∃ st', (pingLtsOf numIters fun _ => msgSize).Path PingNoFailure st st' ∧
    st'.AtEnd numIters := by
  have hb := PingBound.of_reach h
  have hturns := (PingInv.of_reachOf h).turns_le hb
  refine ⟨hturns, fun s hlt hfin => ?_, pingPong_exists_atEnd h⟩
  have hlast := (hb s).last hfin
  have hle := hturns s
  cases s <;> simp only [Side.other] at hlt <;> omega

/-- A client with two iterations and a server with one. -/
def unevenIters : Side → ℕ
  | .client => 2
  | .server => 1

/-- The first packet of the client finds no receive, and the second is lost. -/
def lostPings : List PingStep :=
  [.proc .client .cpu, .proc .client .cpu, .proc .client (.postReceive true),
    .proc .client (.postSend true), .net .client (.transmit 0 0 8), .net .client .deliver,
    .proc .server .cpu, .proc .server (.postReceive true), .net .client (.transmit 0 0 8),
    .net .client .lose]

/-- From there it comes to the end of the first turn. -/
theorem pingPong_progress_uneven : ∃ st st',
    ((pingLtsOf unevenIters fun _ => 8).Reach PingNoFailure st ∧
      (st.host .client).pc = .pollSend ∧ (st.host .server).pc = .pollRecv) ∧
    (pingLtsOf unevenIters fun _ => 8).Path PingNoFailure st st' ∧
      (∀ s, (st'.host s).i = 1) ∧ (st'.host .client).pc = .pollSend ∧
      (st'.host .server).pc = .finished := by
  have hrun : (Lts.exec (pingSysNextOf unevenIters fun _ => 8) PingNoFailure
      { host := fun _ => pingStart 8, wire := fun _ => [] } lostPings).map
        (fun st => ((st.host .client).pc, (st.host .server).pc)) = some (.pollSend, .pollRecv) := by
    decide +kernel
  obtain ⟨st, hexec, hview⟩ := Option.map_eq_some_iff.mp hrun
  have hreach : (pingLtsOf unevenIters fun _ => 8).Reach PingNoFailure st :=
    ⟨_, rfl, Lts.path_of_exec hexec⟩
  obtain ⟨-, -, st', hp, hend⟩ := pingPong_progress unevenIters 8 st hreach
  exact ⟨st, st', ⟨hreach, Prod.mk.inj hview⟩, hp, hend.turns, hend.waits .client (by decide),
    hend.finished .server (by decide)⟩

end RdmaBook
