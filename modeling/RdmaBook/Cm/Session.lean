import RdmaBook.Cm.Net

/-!
# The exchange on one connection

What a connection of cm_server is for: each side posts one receive before it lets the
other side know of it, the client sends one message, and the server answers with one.
Here a side is an automaton of the few things it does with the connection
(`RdmaBook.ClientPhase`, `RdmaBook.ServerPhase`), so that the state of an exchange is
told by two phases and what the device has done. The invariant
(`RdmaBook.CmSession.Exchanged`) counts, for either direction, what has been posted, what
has been executed and what has been polled: both completion queues are shared by sends
and receives, and the numbers alone say what a poll can have taken.
-/

namespace RdmaBook

open CString

/-! ### Phases -/

/-- How far a client has come with its connection. -/
inductive ClientPhase
  | fresh
  /-- The receive is posted. -/
  | ready
  /-- The connection is asked for. -/
  | asked
  | established
  /-- The message is posted. -/
  | sent
  /-- One completion is polled. -/
  | half
  /-- Two completions are polled. -/
  | finished
  deriving DecidableEq, Repr

/-- How far the server has come with a connection. -/
inductive ServerPhase
  | fresh
  | ready
  | accepted
  | established
  /-- One completion is polled. -/
  | heard
  /-- The reply is posted. -/
  | replied
  /-- Two completions are polled. -/
  | finished
  deriving DecidableEq, Repr

/-- The one action of each phase. -/
def ClientPhase.next : ClientPhase → CmAct → Option ClientPhase
  | .fresh, .receive => some .ready
  | .ready, .connect => some .asked
  | .asked, .established => some .established
  | .established, .send true => some .sent
  | .sent, .poll .success => some .half
  | .half, .poll .success => some .finished
  | _, _ => none

/-- The one action of each phase. -/
def ServerPhase.next : ServerPhase → CmAct → Option ServerPhase
  | .fresh, .receive => some .ready
  | .ready, .accept => some .accepted
  | .accepted, .established => some .established
  | .established, .poll .success => some .heard
  | .heard, .send true => some .replied
  | .replied, .poll .success => some .finished
  | _, _ => none

/-- The connection has been asked for. -/
def ClientPhase.Asked (p : ClientPhase) : Prop := p ≠ .fresh ∧ p ≠ .ready

instance : DecidablePred ClientPhase.Asked := fun p =>
  inferInstanceAs (Decidable (p ≠ .fresh ∧ p ≠ .ready))

/-! ### Sessions -/

/-- **A session**: the phases of the two sides of a connection, and the connection. -/
structure CmSession where
  client : ClientPhase
  server : ServerPhase
  conn : CmConn

/-- What happens in a step of a session. -/
inductive CmSessionLabel
  | client (a : CmAct)
  | server (a : CmAct)
  | device (s : Side) (ev : MsgEvent)
  deriving DecidableEq, Repr

namespace CmSession

/-- Before anything has been posted. -/
def start : CmSession := ⟨.fresh, .fresh, CmConn.start⟩

/-- **A step of a session.** The server takes up a connection that has been asked for,
and the client takes one for established that the server has accepted. -/
def next (x : CmSession) : CmSessionLabel → Option CmSession
  | .client a => (x.client.next a).bind fun p => (x.conn.act .client a).map fun k =>
      { x with client := p, conn := k }
  | .server a =>
    if x.client.Asked then
      (x.server.next a).bind fun p => (x.conn.act .server a).map fun k =>
        { x with server := p, conn := k }
    else none
  | .device s ev =>
    if ev.Ok then
      (x.conn.msg.next s ev).map fun msg => { x with conn := { x.conn with msg := msg } }
    else none

end CmSession

/-- **The exchange on one connection.** -/
def cmSessionLts : Lts CmSession CmSessionLabel := Lts.ofFun (· = CmSession.start) CmSession.next

/-! ### What a side has done -/

/-- The receives and the messages a side has posted, and the completions it has
polled. -/
structure CmCounts where
  receives : ℕ
  sends : ℕ
  polls : ℕ
  deriving DecidableEq, Repr

/-- What a client has done. -/
def ClientPhase.counts : ClientPhase → CmCounts
  | .fresh => ⟨0, 0, 0⟩
  | .ready => ⟨1, 0, 0⟩
  | .asked => ⟨1, 0, 0⟩
  | .established => ⟨1, 0, 0⟩
  | .sent => ⟨1, 1, 0⟩
  | .half => ⟨1, 1, 1⟩
  | .finished => ⟨1, 1, 2⟩

/-- What the server has done with a connection. -/
def ServerPhase.counts : ServerPhase → CmCounts
  | .fresh => ⟨0, 0, 0⟩
  | .ready => ⟨1, 0, 0⟩
  | .accepted => ⟨1, 0, 0⟩
  | .established => ⟨1, 0, 0⟩
  | .heard => ⟨1, 0, 1⟩
  | .replied => ⟨1, 1, 1⟩
  | .finished => ⟨1, 1, 2⟩

/-- What a side has done. -/
def CmSession.counts (x : CmSession) : Side → CmCounts
  | .client => x.client.counts
  | .server => x.server.counts

/-- **The message of a side**, with its null byte: that of the server says how long that
of the client is. -/
def cmMessage : Side → List UInt8
  | .client => greeting ++ [0]
  | .server => replyText (greeting ++ [0]).length ++ [0]

/-- The request a side posts to send its message. -/
def cmSendWr (s : Side) : MsgWr CmBuf := ⟨⟨1, .sendBuf, (cmMessage s).length⟩, .send⟩

/-- The receive a side posts. -/
def cmRecvWr : RcWr CmBuf := ⟨0, .recvBuf, bufferSize⟩

theorem length_cmMessage_le (s : Side) : (cmMessage s).length ≤ bufferSize := by
  cases s <;> decide +kernel

theorem zero_notMem_greeting : (0 : UInt8) ∉ greeting := by decide +kernel

theorem zero_notMem_replyText (n : ℕ) : (0 : UInt8) ∉ replyText n := by
  rw [replyText, List.append_assoc, List.mem_append, List.mem_append]
  rintro (h | h | h)
  · exact absurd h (by decide +kernel)
  · exact zero_notMem_decimal h
  · exact absurd h (by decide +kernel)

/-! ### One end -/

/-- **What the end of a side keeps** that has done `c`. -/
structure CmEndOk (s : Side) (c : CmCounts) (e : MsgEnd CmBuf) : Prop where
  error : e.error = false
  posted : e.posted = List.replicate c.sends (cmSendWr s)
  rq_length : e.rq.length + e.executed = c.receives
  rq_wr : ∀ wr ∈ e.rq, wr = cmRecvWr
  cq_length : e.cq.length + c.polls = e.acked + e.executed
  kinds : e.acked = 0 → ∀ wc ∈ e.cq, wc.opcode = none
  byteLen : ∀ wc ∈ e.cq, wc.opcode = none → wc.byteLen = (cmMessage s.other).length
  size : ∀ b, (e.mem b).length = bufferSize
  sendBuf : c.sends ≠ 0 → Stream.window (e.mem .sendBuf) 0 (cmMessage s).length = cmMessage s
  recvBuf : e.executed ≠ 0 →
    Stream.window (e.mem .recvBuf) 0 (cmMessage s.other).length = cmMessage s.other

namespace CmEndOk

variable {s : Side} {c : CmCounts} {e : MsgEnd CmBuf}

theorem start : CmEndOk s ⟨0, 0, 0⟩ (MsgEnd.start fun _ => List.replicate bufferSize 0) where
  error := rfl
  posted := rfl
  rq_length := rfl
  rq_wr := nofun
  cq_length := rfl
  kinds := nofun
  byteLen := nofun
  size := fun _ => List.length_replicate
  sendBuf := fun h => absurd rfl h
  recvBuf := fun h => absurd rfl h

theorem postRecv (h : CmEndOk s c e) :
    CmEndOk s { c with receives := c.receives + 1 } (e.postRecv cmRecvWr) :=
  { h with
    rq_length := by
      have hlen := h.rq_length
      rw [MsgEnd.postRecv, List.length_append, List.length_singleton]
      change e.rq.length + 1 + e.executed = c.receives + 1
      omega
    rq_wr := by
      intro wr hwr
      rcases List.mem_append.mp hwr with hwr | hwr
      · exact h.rq_wr wr hwr
      · exact List.mem_singleton.mp hwr }

/-- A completion is taken. -/
theorem poll (h : CmEndOk s c e) {wc : MsgWc} {rest : List MsgWc} (hcq : e.cq = wc :: rest) :
    CmEndOk s { c with polls := c.polls + 1 } { e with cq := rest } :=
  { h with
    cq_length := by
      have hlen := h.cq_length
      rw [hcq, List.length_cons] at hlen
      change rest.length + (c.polls + 1) = e.acked + e.executed
      omega
    kinds := fun h0 wc' hwc' => h.kinds h0 wc' (hcq ▸ List.mem_cons_of_mem _ hwc')
    byteLen := fun wc' hwc' => h.byteLen wc' (hcq ▸ List.mem_cons_of_mem _ hwc') }

/-- The message is put into `send_buf` and posted. -/
theorem postSend (h : CmEndOk s c e) (hc : c.sends = 0) {bytes : List UInt8}
    (hlen : bytes.length = bufferSize)
    (hbytes : Stream.window bytes 0 (cmMessage s).length = cmMessage s) :
    CmEndOk s { c with sends := 1 } ((e.store .sendBuf bytes).postSend (cmSendWr s)) :=
  { h with
    posted := by
      change e.posted ++ [cmSendWr s] = _
      rw [h.posted, hc]
      rfl
    size := by
      intro b
      cases b
      · exact h.size .recvBuf
      · exact hlen
    sendBuf := fun _ => hbytes
    recvBuf := h.recvBuf }

/-- The device sends the message. -/
theorem sent (h : CmEndOk s c e) (i : ℕ) : CmEndOk s c { e with sent := i } :=
  { h with }

/-- The message is completed. -/
theorem complete (h : CmEndOk s c e) {wr : MsgWr CmBuf} :
    CmEndOk s c (e.complete wr .success) :=
  { h with
    cq_length := by
      have hlen := h.cq_length
      rw [MsgEnd.complete, List.length_append, List.length_singleton]
      change e.cq.length + 1 + c.polls = e.acked + 1 + e.executed
      omega
    kinds := fun h0 => absurd h0 (Nat.succ_ne_zero _)
    byteLen := by
      intro wc hwc hnone
      rcases List.mem_append.mp hwc with hwc | hwc
      · exact h.byteLen wc hwc hnone
      · rw [List.mem_singleton.mp hwc] at hnone
        cases hnone }

/-- The message of the other side fills the receive. -/
theorem receive (h : CmEndOk s c e) {wr : RcWr CmBuf} {rest : List (RcWr CmBuf)}
    (hrq : e.rq = wr :: rest) : CmEndOk s c (e.receive wr rest (cmMessage s.other)) := by
  obtain rfl : wr = cmRecvWr := h.rq_wr wr (hrq ▸ List.mem_cons_self)
  have hfits : 0 + (cmMessage s.other).length ≤ (e.mem .recvBuf).length := by
    rw [h.size, Nat.zero_add]
    exact length_cmMessage_le _
  exact
    { h with
      rq_length := by
        have hlen := h.rq_length
        rw [hrq, List.length_cons] at hlen
        change rest.length + (e.executed + 1) = c.receives
        omega
      rq_wr := fun wr' hwr' => h.rq_wr wr' (hrq ▸ List.mem_cons_of_mem _ hwr')
      cq_length := by
        have hlen := h.cq_length
        rw [MsgEnd.receive, List.length_append, List.length_singleton]
        change e.cq.length + 1 + c.polls = e.acked + (e.executed + 1)
        omega
      kinds := by
        intro h0 wc hwc
        rcases List.mem_append.mp hwc with hwc | hwc
        · exact h.kinds h0 wc hwc
        · rw [List.mem_singleton.mp hwc]
      byteLen := by
        intro wc hwc hnone
        rcases List.mem_append.mp hwc with hwc | hwc
        · exact h.byteLen wc hwc hnone
        · rw [List.mem_singleton.mp hwc]
      size := by
        intro b
        cases b
        · exact (Stream.length_overlay hfits).trans (h.size .recvBuf)
        · exact h.size .sendBuf
      sendBuf := h.sendBuf
      recvBuf := fun _ => Stream.take_overlay_zero (e.mem .recvBuf) (cmMessage s.other) }

end CmEndOk

/-! ### Both directions -/

/-- **What a connection keeps** where each side `s` has done `c s`. -/
structure CmTraffic (c : Side → CmCounts) (k : CmConn) : Prop where
  ends : ∀ s, CmEndOk s (c s) (k.msg.ends s)
  counted : ∀ s, k.msg.Counted s
  wire : ∀ s, ∀ m ∈ k.msg.wire s, m = .send (cmMessage s)
  said : ∀ s, k.said s = List.replicate (c s).sends (cmMessage s)

namespace CmTraffic

variable {c : Side → CmCounts} {k k' : CmConn} {s : Side}

theorem start : CmTraffic (fun _ => ⟨0, 0, 0⟩) CmConn.start where
  ends := fun _ => CmEndOk.start
  counted := fun _ => MsgConn.Counted.start _
  wire := nofun
  said := fun _ => rfl

/-- **A move of the device.** -/
theorem device (h : CmTraffic c k) {msg : MsgConn CmBuf} (hm : MsgMove k.msg s msg) :
    CmTraffic c { k with msg := msg } := by
  have hcounted := MsgConn.Counted.moves h.counted hm
  cases hm with
  | send wr hwr herr =>
    have hmem := List.mem_of_getElem? hwr
    rw [(h.ends s).posted] at hmem
    obtain ⟨hn, rfl⟩ := List.mem_replicate.mp hmem
    refine ⟨MsgConn.forall_ends_set ((h.ends s).sent _) (h.ends s.other), hcounted, ?_, h.said⟩
    refine MsgConn.forall_wire_setWire (P := fun t w => ∀ m ∈ w, m = .send (cmMessage t)) ?_
      (h.wire s.other)
    intro m hmem
    rcases List.mem_append.mp hmem with hmem | hmem
    · exact h.wire s m hmem
    · rw [List.mem_singleton.mp hmem]
      exact congrArg Msg.send ((h.ends s).sendBuf hn)
  | receive data rest wr rq hwire hrq hfits =>
    obtain rfl : data = cmMessage s := Msg.send.inj (h.wire s _ (hwire ▸ List.mem_cons_self))
    have hend := (h.ends s.other).receive hrq
    rw [Side.other_other] at hend
    refine ⟨MsgConn.forall_ends_set hend (h.ends s.other.other), hcounted, ?_, h.said⟩
    refine MsgConn.forall_wire_setWire (P := fun t w => ∀ m ∈ w, m = .send (cmMessage t)) ?_
      (h.wire s.other)
    exact fun m hmem => h.wire s m (hwire ▸ List.mem_cons_of_mem _ hmem)
  | tooLong data rest wr rq hwire hrq hlong =>
    -- every receive has room for every message
    obtain rfl : data = cmMessage s := Msg.send.inj (h.wire s _ (hwire ▸ List.mem_cons_self))
    rw [(h.ends s.other).rq_wr wr (hrq ▸ List.mem_cons_self)] at hlong
    exact absurd (length_cmMessage_le s) (Nat.not_le.mpr hlong)
  | write raddr off data rest hwire hfits => cases h.wire s _ (hwire ▸ List.mem_cons_self)
  | read addr length raddr off data rest hwire hfits hdata =>
    cases h.wire s _ (hwire ▸ List.mem_cons_self)
  | complete wr hwr herr hlt =>
    exact ⟨MsgConn.forall_ends_set (h.ends s).complete (h.ends s.other), hcounted, h.wire, h.said⟩

/-- **A process does something at its end.** -/
theorem setEnd (h : CmTraffic c k) {d : CmCounts} {e : MsgEnd CmBuf} (he : CmEndOk s d e)
    (hsent : e.sent = (k.msg.ends s).sent) (hacked : e.acked = (k.msg.ends s).acked)
    (hexec : e.executed = (k.msg.ends s).executed)
    (hposted : (k.msg.ends s).posted.length ≤ e.posted.length) (hmsg : k'.msg = k.msg.set s e)
    (hsaid : k'.said = Function.update k.said s (List.replicate d.sends (cmMessage s))) :
    CmTraffic (Function.update c s d) k' where
  ends := by
    rw [hmsg]
    intro t
    rcases Side.eq_or_eq_other s t with rfl | rfl
    · rw [MsgConn.ends_set_self, Function.update_self]
      exact he
    · rw [MsgConn.ends_set_other, Function.update_of_ne s.other_ne]
      exact h.ends s.other
  counted := by
    rw [hmsg]
    exact MsgConn.Counted.set h.counted hsent hacked hexec (he.error.trans (h.ends s).error.symm)
      hposted
  wire := by
    rw [hmsg]
    exact h.wire
  said := by
    rw [hsaid]
    intro t
    rcases Side.eq_or_eq_other s t with rfl | rfl
    · rw [Function.update_self, Function.update_self]
    · rw [Function.update_of_ne s.other_ne, Function.update_of_ne s.other_ne]
      exact h.said s.other

theorem said_eq (h : CmTraffic c k) :
    k.said = Function.update k.said s (List.replicate (c s).sends (cmMessage s)) := by
  rw [← h.said s, Function.update_eq_self]

/-- **`post_receive`.** -/
theorem receive (h : CmTraffic c k) :
    CmTraffic (Function.update c s { c s with receives := (c s).receives + 1 }) (k.postReceive s) :=
  h.setEnd (h.ends s).postRecv rfl rfl rfl le_rfl rfl h.said_eq

/-- **A completion is polled.** -/
theorem poll (h : CmTraffic c k) {status : WcStatus} (hk : k.poll s status = some k') :
    CmTraffic (Function.update c s { c s with polls := (c s).polls + 1 }) k' := by
  rw [CmConn.poll] at hk
  split at hk
  · cases hk
  · rename_i wc rest hcq
    split at hk
    · exact h.setEnd ((h.ends s).poll hcq) rfl rfl rfl le_rfl (Option.some.inj hk ▸ rfl)
        (Option.some.inj hk ▸ h.said_eq)
    · cases hk

/-- **`post_send`**, of the text that makes up the message. -/
theorem send (h : CmTraffic c k) (hc : (c s).sends = 0) (htext : k.text s ++ [0] = cmMessage s)
    (h0 : (0 : UInt8) ∉ k.text s) :
    CmTraffic (Function.update c s { c s with sends := 1 }) (k.postSend s true) := by
  have hsize := (h.ends s).size .sendBuf
  have hlt : (k.text s).length < bufferSize := by
    have hle := length_cmMessage_le s
    rwa [← htext, List.length_append] at hle
  have hfill : (k.filled s).mem .sendBuf =
      Stream.overlay ((k.msg.ends s).mem .sendBuf) 0 (cmMessage s) := by
    rw [← htext, ← snprintf_of_lt hlt]
    exact MsgEnd.mem_store ..
  have hbytes : Stream.window ((k.filled s).mem .sendBuf) 0 (cmMessage s).length = cmMessage s := by
    rw [hfill]
    exact Stream.take_overlay_zero _ _
  have hlen : strlen ((k.filled s).mem .sendBuf) 0 + 1 = (cmMessage s).length := by
    rw [strlen, str_of_window h0 (hbytes.trans htext.symm), ← htext, List.length_append,
      List.length_singleton]
  have hpost : k.postSend s true = { k with
      msg := k.msg.set s ((k.filled s).postSend (cmSendWr s))
      said := Function.update k.said s (k.said s ++ [cmMessage s]) } := by
    rw [CmConn.postSend, if_pos rfl, hlen, hbytes]
    rfl
  have hsize' : ((k.filled s).mem .sendBuf).length = bufferSize := by
    rw [hfill, Stream.length_overlay, hsize]
    rw [hsize, Nat.zero_add]
    exact length_cmMessage_le s
  refine h.setEnd ((h.ends s).postSend hc hsize' hbytes) rfl rfl rfl ?_ ?_ ?_
  · simp [MsgEnd.postSend, MsgEnd.store]
  · rw [hpost]
    rfl
  · rw [hpost, h.said s, hc]
    rfl

end CmTraffic

/-! ### The exchange -/

/-- **The invariant of a session**: what the connection keeps, and what a phase of one
side says about the other side. -/
structure CmSession.Exchanged (x : CmSession) : Prop where
  traffic : CmTraffic x.counts x.conn
  heard : x.server = .heard → x.conn.byteLen = (cmMessage .client).length
  received : x.server.counts.polls ≠ 0 → (x.conn.msg.ends .server).executed ≠ 0
  accepted : x.conn.accepted = true ↔ x.server ≠ .fresh ∧ x.server ≠ .ready
  asked : x.server ≠ .fresh → x.client.Asked
  opened : x.client.Asked → x.client ≠ .asked → x.conn.accepted = true

namespace CmSession.Exchanged

variable {x x' : CmSession}

theorem start : CmSession.start.Exchanged where
  traffic := by
    have hcounts : CmSession.start.counts = fun _ => ⟨0, 0, 0⟩ := by
      funext s
      cases s <;> rfl
    rw [hcounts]
    exact CmTraffic.start
  heard := nofun
  received := fun h => absurd rfl h
  accepted := by decide
  asked := fun h => absurd rfl h
  opened := fun h => absurd rfl h.1

theorem of_client (h : x.Exchanged) {p : ClientPhase} {k : CmConn}
    (ht : CmTraffic (Function.update x.counts .client p.counts) k)
    (hlen : k.byteLen = x.conn.byteLen)
    (hend : k.msg.ends .server = x.conn.msg.ends .server) (hacc : k.accepted = x.conn.accepted)
    (hasked : x.client.Asked → p.Asked)
    (hopened : p.Asked → p ≠ .asked → x.conn.accepted = true) :
    Exchanged { x with client := p, conn := k } where
  traffic := by
    have hcounts : counts { x with client := p, conn := k } =
        Function.update x.counts .client p.counts := by
      funext s
      cases s <;> rfl
    rwa [hcounts]
  heard := fun hs => hlen.trans (h.heard hs)
  received := fun hs => hend ▸ h.received hs
  accepted := hacc ▸ h.accepted
  asked := fun hs => hasked (h.asked hs)
  opened := fun ha hne => hacc.trans (hopened ha hne)

theorem of_server (h : x.Exchanged) {p : ServerPhase} {k : CmConn} (hx : x.client.Asked)
    (ht : CmTraffic (Function.update x.counts .server p.counts) k)
    (hheard : p = .heard → k.byteLen = (cmMessage .client).length)
    (hexec : p.counts.polls ≠ 0 → (k.msg.ends .server).executed ≠ 0)
    (hacc : k.accepted = true ↔ p ≠ .fresh ∧ p ≠ .ready)
    (hopened : x.conn.accepted = true → k.accepted = true) :
    Exchanged { x with server := p, conn := k } where
  traffic := by
    have hcounts : counts { x with server := p, conn := k } =
        Function.update x.counts .server p.counts := by
      funext s
      cases s <;> rfl
    rwa [hcounts]
  heard := hheard
  received := hexec
  accepted := hacc
  asked := fun _ => hx
  opened := fun ha hne => hopened (h.opened ha hne)

/-- What a poll of the client leaves alone. -/
theorem poll_client {k k' : CmConn} {status : WcStatus} (hk : k.poll .client status = some k') :
    k'.byteLen = k.byteLen ∧ k'.msg.ends .server = k.msg.ends .server ∧
    k'.accepted = k.accepted := by
  rw [CmConn.poll] at hk
  split at hk
  · cases hk
  · split at hk
    · exact Option.some.inj hk ▸ ⟨rfl, rfl, rfl⟩
    · cases hk

/-- What a poll of the server leaves alone. -/
theorem poll_server {k k' : CmConn} {status : WcStatus} (hk : k.poll .server status = some k') :
    (k'.msg.ends .server).executed = (k.msg.ends .server).executed ∧ k'.accepted = k.accepted := by
  rw [CmConn.poll] at hk
  split at hk
  · cases hk
  · split at hk
    · exact Option.some.inj hk ▸ ⟨rfl, rfl⟩
    · cases hk

/-- A step of the client. -/
theorem client (h : x.Exchanged) {a : CmAct} {p : ClientPhase} {k : CmConn}
    (hp : x.client.next a = some p) (hk : x.conn.act .client a = some k) :
    Exchanged { x with client := p, conn := k } := by
  obtain ⟨c, sv, k₀⟩ := x
  have ht := h.traffic
  have hopened : c.Asked → c ≠ .asked → k₀.accepted = true := h.opened
  change c.next a = some p at hp
  unfold ClientPhase.next at hp
  split at hp
  · -- the receive is posted
    obtain rfl := Option.some.inj hp
    obtain rfl := Option.some.inj hk
    exact h.of_client ht.receive rfl rfl rfl (fun ha => absurd rfl ha.1) (fun ha => absurd rfl ha.2)
  · -- the connection is asked for
    obtain rfl := Option.some.inj hp
    obtain rfl := Option.some.inj hk
    refine h.of_client ?_ rfl rfl rfl (fun ha => absurd rfl ha.2) (fun _ hne => absurd rfl hne)
    exact (Function.update_eq_self Side.client (counts ⟨.ready, sv, k₀⟩)).symm ▸ ht
  · -- the connection is established
    obtain rfl := Option.some.inj hp
    rw [CmConn.act] at hk
    split at hk
    · rename_i hacc
      obtain rfl := Option.some.inj hk
      refine h.of_client ?_ rfl rfl rfl (fun _ => by decide) (fun _ _ => hacc)
      exact (Function.update_eq_self Side.client (counts ⟨.asked, sv, k₀⟩)).symm ▸ ht
    · cases hk
  · -- the message is posted
    obtain rfl := Option.some.inj hp
    obtain rfl := Option.some.inj hk
    have hacc := hopened (by decide) (by decide)
    exact h.of_client (ht.send rfl rfl zero_notMem_greeting) rfl rfl rfl (fun _ => by decide)
      (fun _ _ => hacc)
  · -- the first completion is polled
    obtain rfl := Option.some.inj hp
    obtain ⟨hlen, hend, hacc⟩ := poll_client hk
    exact h.of_client (ht.poll hk) hlen hend hacc (fun _ => by decide)
      (fun _ _ => hopened (by decide) (by decide))
  · -- the second completion is polled
    obtain rfl := Option.some.inj hp
    obtain ⟨hlen, hend, hacc⟩ := poll_client hk
    exact h.of_client (ht.poll hk) hlen hend hacc (fun _ => by decide)
      (fun _ _ => hopened (by decide) (by decide))
  · cases hp

/-- **The first completion the server polls** is that of its receive: it has posted
nothing else. -/
theorem heard_of_poll (h : x.Exchanged) (hs : x.server = .established) {status : WcStatus}
    {k : CmConn} (hk : x.conn.poll .server status = some k) :
    k.byteLen = (cmMessage .client).length ∧ (k.msg.ends .server).executed ≠ 0 := by
  have hend := h.traffic.ends .server
  have hcounts : x.counts .server = ⟨1, 0, 0⟩ := by
    change x.server.counts = _
    rw [hs]
    rfl
  have hacked : (x.conn.msg.ends .server).acked = 0 := by
    have hle := (h.traffic.counted .server).acked_le hend.error
    have hexec := (h.traffic.counted .server).executed_le
    rw [hend.posted, hcounts, List.length_replicate] at hexec
    exact Nat.le_zero.mp (hle.trans hexec)
  rw [(poll_server hk).1]
  rw [CmConn.poll] at hk
  split at hk
  · cases hk
  · rename_i wc rest hcq
    have hwc : wc ∈ (x.conn.msg.ends .server).cq := hcq ▸ List.mem_cons_self
    have hlen := hend.cq_length
    rw [hacked, hcounts, hcq, List.length_cons] at hlen
    split at hk
    · obtain rfl := Option.some.inj hk
      exact ⟨hend.byteLen wc hwc (hend.kinds hacked wc hwc), by omega⟩
    · cases hk

/-- A step of the server. -/
theorem server (h : x.Exchanged) {a : CmAct} {p : ServerPhase} {k : CmConn} (hx : x.client.Asked)
    (hp : x.server.next a = some p) (hk : x.conn.act .server a = some k) :
    Exchanged { x with server := p, conn := k } := by
  obtain ⟨c, sv, k₀⟩ := x
  have ht := h.traffic
  have hacc : k₀.accepted = true ↔ sv ≠ .fresh ∧ sv ≠ .ready := h.accepted
  have hreceived : sv.counts.polls ≠ 0 → (k₀.msg.ends .server).executed ≠ 0 := h.received
  change sv.next a = some p at hp
  unfold ServerPhase.next at hp
  split at hp
  · -- the receive is posted
    obtain rfl := Option.some.inj hp
    obtain rfl := Option.some.inj hk
    refine h.of_server hx ht.receive nofun (fun hne => absurd rfl hne) ?_ id
    exact ⟨fun hk => absurd rfl (hacc.mp hk).1, fun hne => absurd rfl hne.2⟩
  · -- the connection is accepted
    obtain rfl := Option.some.inj hp
    obtain rfl := Option.some.inj hk
    refine h.of_server hx ?_ nofun (fun hne => absurd rfl hne) ⟨fun _ => by decide, fun _ => rfl⟩
      (fun _ => rfl)
    have hsame := (Function.update_eq_self Side.server (counts ⟨c, .ready, k₀⟩)).symm ▸ ht
    exact { hsame with }
  · -- the connection is established
    obtain rfl := Option.some.inj hp
    rw [CmConn.act] at hk
    split at hk
    · obtain rfl := Option.some.inj hk
      refine h.of_server hx ?_ nofun (fun hne => absurd rfl hne)
        ⟨fun _ => by decide, fun _ => hacc.mpr (by decide)⟩ id
      exact (Function.update_eq_self Side.server (counts ⟨c, .accepted, k₀⟩)).symm ▸ ht
    · cases hk
  · -- the message of the client is polled
    obtain rfl := Option.some.inj hp
    obtain ⟨hlen, hexec⟩ := h.heard_of_poll rfl hk
    obtain ⟨-, hsame⟩ := poll_server hk
    refine h.of_server hx (ht.poll hk) (fun _ => hlen) (fun _ => hexec) ?_ hsame.trans
    exact ⟨fun _ => by decide, fun _ => hsame.trans (hacc.mpr (by decide))⟩
  · -- the reply is posted
    obtain rfl := Option.some.inj hp
    obtain rfl := Option.some.inj hk
    have htext : k₀.text .server ++ [0] = cmMessage .server := by
      change replyText k₀.byteLen ++ [0] = replyText (cmMessage .client).length ++ [0]
      rw [h.heard rfl]
    have hexec : (k₀.msg.ends .server).executed ≠ 0 := hreceived (by decide)
    refine h.of_server hx (ht.send rfl htext (zero_notMem_replyText _)) nofun (fun _ => hexec) ?_ id
    exact ⟨fun _ => by decide, fun _ => hacc.mpr (by decide)⟩
  · -- the completion of the reply is polled
    obtain rfl := Option.some.inj hp
    obtain ⟨hexec, hsame⟩ := poll_server hk
    have hexec' : (k.msg.ends .server).executed ≠ 0 := hexec ▸ hreceived (by decide)
    refine h.of_server hx (ht.poll hk) nofun (fun _ => hexec') ?_ hsame.trans
    exact ⟨fun _ => by decide, fun _ => hsame.trans (hacc.mpr (by decide))⟩
  · cases hp

/-- **Every step keeps the invariant.** -/
theorem next (h : x.Exchanged) {l : CmSessionLabel} (hs : x.next l = some x') : x'.Exchanged := by
  cases l with
  | client a =>
    obtain ⟨p, hp, hs⟩ := Option.bind_eq_some_iff.mp hs
    obtain ⟨k, hk, rfl⟩ := Option.map_eq_some_iff.mp hs
    exact h.client hp hk
  | server a =>
    rw [CmSession.next] at hs
    split at hs
    · rename_i hx
      obtain ⟨p, hp, hs⟩ := Option.bind_eq_some_iff.mp hs
      obtain ⟨k, hk, rfl⟩ := Option.map_eq_some_iff.mp hs
      exact h.server hx hp hk
    · cases hs
  | device s ev =>
    rw [CmSession.next] at hs
    split at hs
    · rename_i hok
      obtain ⟨msg, hmsg, rfl⟩ := Option.map_eq_some_iff.mp hs
      have hm := MsgConn.next_move hok hmsg
      exact
        { h with
          traffic := h.traffic.device hm
          received := fun hp h0 => h.received hp (Nat.le_zero.mp (h0 ▸ hm.executed_le .server)) }
    · cases hs

end CmSession.Exchanged

/-- **The invariant of a session** holds in every run. -/
theorem CmSession.exchanged_of_reach {ok : CmSession → CmSessionLabel → Prop} {x : CmSession}
    (h : cmSessionLts.Reach ok x) : x.Exchanged := by
  refine h.invariant ?_ ?_
  · rintro _ rfl
    exact CmSession.Exchanged.start
  · intro x l x' hx _ hs
    exact hx.next hs

end RdmaBook
