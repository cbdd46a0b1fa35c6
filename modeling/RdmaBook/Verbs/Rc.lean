import Mathlib.Logic.Function.Basic
import RdmaBook.Lib.Lts
import RdmaBook.Lib.Stream
import RdmaBook.Verbs.Basic

/-!
# A reliable connection

Two endpoints of a reliable connection and the packets between them, as far as
Send and Receive go. A message is cut into packets; a packet carries the number of
its message and its place in it, and the receiving end takes it only when it is
the next one it expects, so a packet may be lost, sent again, and sent again after
it has arrived. What a packet carries is *read from the buffer when it is sent*: a
retransmission reads the buffer again.

A packet that opens a message and finds no posted receive is refused – the
receiver is not ready – and has to be sent again. A receive completes when the
last packet of its message is in place, and a send when the acknowledgement of
its message arrives, which may be any time later.

The buffers of an endpoint are named by the type `ρ`.
-/

namespace RdmaBook

variable {ρ : Type*}

/-! ### An endpoint -/

/-- A work request of a Send or a Receive: the local range is the first `length`
bytes of the buffer at `addr`. -/
structure RcWr (ρ : Type*) where
  wrId : ℕ
  addr : ρ
  length : ℕ
  deriving DecidableEq

/-- `struct ibv_wc`. -/
structure Wc where
  wrId : ℕ
  status : WcStatus
  opcode : WcOpcode
  deriving DecidableEq, Repr

/-- A packet: the number of its message, its place in it, what it carries, and
whether it is the last of the message. -/
structure RcPacket where
  msn : ℕ
  off : ℕ
  data : List UInt8
  last : Bool
  deriving DecidableEq

/-- **An endpoint**: its buffers, the sends posted and not completed, the number of
sends completed, the receives posted and not completed, the number of messages
received, the number of bytes of the next one that are in place, and the
completion queue of both queues. -/
structure RcEnd (ρ : Type*) where
  mem : ρ → List UInt8
  sq : List (RcWr ρ)
  acked : ℕ
  rq : List (RcWr ρ)
  rcvd : ℕ
  filled : ℕ
  cq : List Wc

namespace RcEnd

/-- A fresh endpoint on the given buffers. -/
def start (mem : ρ → List UInt8) : RcEnd ρ := ⟨mem, [], 0, [], 0, 0, []⟩

/-- The number of sends posted: the number the next one gets. -/
def posted (e : RcEnd ρ) : ℕ := e.acked + e.sq.length

/-- `ibv_post_send`. -/
def postSend (e : RcEnd ρ) (wr : RcWr ρ) : RcEnd ρ := { e with sq := e.sq ++ [wr] }

/-- `ibv_post_recv`. -/
def postRecv (e : RcEnd ρ) (wr : RcWr ρ) : RcEnd ρ := { e with rq := e.rq ++ [wr] }

/-- The process writes a buffer. -/
def store [DecidableEq ρ] (e : RcEnd ρ) (addr : ρ) (bytes : List UInt8) : RcEnd ρ :=
  { e with mem := Function.update e.mem addr bytes }

/-- `n` bytes of the `j`-th outstanding send are read from the place `off` of its
buffer and sent. -/
def transmit (e : RcEnd ρ) (j off n : ℕ) : Option RcPacket :=
  (e.sq[j]?).bind fun wr =>
    if off + n ≤ wr.length then
      some { msn := e.acked + j
             off := off
             data := Stream.window (e.mem wr.addr) off (off + n)
             last := decide (off + n = wr.length) }
    else none

/-- A packet arrives. It is taken if it is the next one and a receive is posted that
it fits; one that does not fit fails the receive; any other is dropped. -/
def deliver [DecidableEq ρ] (e : RcEnd ρ) (p : RcPacket) : RcEnd ρ :=
  if p.msn = e.rcvd ∧ p.off = e.filled then
    match e.rq with
    | [] => e
    | wr :: rest =>
      let placed := e.store wr.addr (Stream.overlay (e.mem wr.addr) p.off p.data)
      if wr.length < p.off + p.data.length then
        { e with rq := rest, cq := e.cq ++ [⟨wr.wrId, .locLenErr, .recv⟩] }
      else if p.last then
        { placed with
          rq := rest
          rcvd := e.rcvd + 1
          filled := 0
          cq := e.cq ++ [⟨wr.wrId, .success, .recv⟩] }
      else { placed with filled := e.filled + p.data.length }
  else e

/-- The acknowledgement of the oldest outstanding send arrives. -/
def ack (e : RcEnd ρ) : Option (RcEnd ρ) :=
  match e.sq with
  | [] => none
  | wr :: rest =>
    some { e with
      sq := rest, acked := e.acked + 1, cq := e.cq ++ [⟨wr.wrId, .success, .send⟩] }

/-- The oldest outstanding send, or receive, fails. -/
def fail (e : RcEnd ρ) (opcode : WcOpcode) (status : WcStatus) : Option (RcEnd ρ) :=
  match opcode, e.sq, e.rq with
  | .send, wr :: rest, _ => some { e with sq := rest, cq := e.cq ++ [⟨wr.wrId, status, .send⟩] }
  | .recv, _, wr :: rest => some { e with rq := rest, cq := e.cq ++ [⟨wr.wrId, status, .recv⟩] }
  | _, _, _ => none

end RcEnd

/-! ### A connection -/

/-- What the device of one side, or the network behind it, does. -/
inductive RcEvent
  | transmit (j off n : ℕ)
  /-- The oldest packet on its way is lost. -/
  | lose
  /-- The oldest packet on its way arrives at the peer. -/
  | deliver
  | ack
  | fail (opcode : WcOpcode) (status : WcStatus)
  deriving DecidableEq, Repr

/-- **A step of one direction** of a connection: the endpoint that sends, its peer,
and the packets on their way between them. A message is acknowledged only when the
peer has received it. -/
def rcNext [DecidableEq ρ] (a b : RcEnd ρ) (wire : List RcPacket) :
    RcEvent → Option (RcEnd ρ × RcEnd ρ × List RcPacket)
  | .transmit j off n => (a.transmit j off n).map fun p => (a, b, wire ++ [p])
  | .lose => match wire with
    | [] => none
    | _ :: rest => some (a, b, rest)
  | .deliver => match wire with
    | [] => none
    | p :: rest => some (a, b.deliver p, rest)
  | .ack => if a.acked < b.rcvd then a.ack.map fun a' => (a', b, wire) else none
  | .fail opcode status => (a.fail opcode status).map fun a' => (a', b, wire)

/-- The event does not fail a request. -/
def RcEvent.Ok : RcEvent → Prop
  | .fail _ _ => False
  | _ => True

instance : DecidablePred RcEvent.Ok
  | .transmit _ _ _ => inferInstanceAs (Decidable True)
  | .lose => inferInstanceAs (Decidable True)
  | .deliver => inferInstanceAs (Decidable True)
  | .ack => inferInstanceAs (Decidable True)
  | .fail _ _ => inferInstanceAs (Decidable False)

/-! ### Frame lemmas -/

namespace RcEnd

variable {e : RcEnd ρ} {wr : RcWr ρ} {p : RcPacket}

@[simp] theorem posted_postSend : (e.postSend wr).posted = e.posted + 1 := by
  rw [posted, postSend, List.length_append, List.length_singleton]
  rfl

@[simp] theorem mem_store [DecidableEq ρ] (addr : ρ) (bytes : List UInt8) :
    (e.store addr bytes).mem addr = bytes :=
  Function.update_self ..

/-! ### What an event does to an endpoint -/

/-- **What an acknowledgement does.** -/
theorem ack_eq_some {e' : RcEnd ρ} (h : e.ack = some e') : ∃ wr rest, e.sq = wr :: rest ∧
    e' = { e with
      sq := rest, acked := e.acked + 1, cq := e.cq ++ [⟨wr.wrId, .success, .send⟩] } := by
  rw [ack] at h
  split at h
  · cases h
  · rename_i wr rest hsq
    exact ⟨wr, rest, hsq, (Option.some.inj h).symm⟩

/-- **What a failure does.** -/
theorem fail_eq_some {e' : RcEnd ρ} {opcode : WcOpcode} {status : WcStatus}
    (h : e.fail opcode status = some e') :
    (∃ wr rest, e.sq = wr :: rest ∧
      e' = { e with sq := rest, cq := e.cq ++ [⟨wr.wrId, status, .send⟩] }) ∨
    ∃ wr rest, e.rq = wr :: rest ∧
      e' = { e with rq := rest, cq := e.cq ++ [⟨wr.wrId, status, .recv⟩] } := by
  cases opcode with
  | send =>
    cases hsq : e.sq with
    | nil => simp [fail, hsq] at h
    | cons wr rest =>
      simp only [fail, hsq] at h
      exact Or.inl ⟨wr, rest, rfl, (Option.some.inj h).symm⟩
  | recv =>
    cases hrq : e.rq with
    | nil => simp [fail, hrq] at h
    | cons wr rest =>
      simp only [fail, hrq] at h
      exact Or.inr ⟨wr, rest, rfl, (Option.some.inj h).symm⟩

theorem posted_ack {e' : RcEnd ρ} (h : e.ack = some e') : e'.posted = e.posted := by
  obtain ⟨wr, rest, hsq, rfl⟩ := ack_eq_some h
  rw [posted, posted, hsq, List.length_cons]
  change e.acked + 1 + rest.length = _
  omega

end RcEnd

/-- The packet carries its part of the message `c`. -/
structure RcPacket.Of (p : RcPacket) (c : List UInt8) : Prop where
  le : p.off + p.data.length ≤ c.length
  data : p.data = Stream.window c p.off (p.off + p.data.length)
  last : p.last = true ↔ p.off + p.data.length = c.length

namespace RcEnd

variable {e : RcEnd ρ} {p : RcPacket} {c : List UInt8}

/-- **What is sent** is a part of the buffer as it stands. -/
theorem transmit_eq_some {j off n : ℕ} (h : e.transmit j off n = some p) :
    ∃ wr, e.sq[j]? = some wr ∧
    p.msn = e.acked + j ∧ (wr.length = (e.mem wr.addr).length → p.Of (e.mem wr.addr)) := by
  obtain ⟨wr, hwr, h⟩ := Option.bind_eq_some_iff.mp h
  refine ⟨wr, hwr, ?_⟩
  split at h
  · rename_i hle
    obtain rfl := Option.some.inj h
    refine ⟨rfl, fun hlen => ?_⟩
    have hdata : (Stream.window (e.mem wr.addr) off (off + n)).length = n := by
      rw [Stream.length_window (hlen ▸ hle), Nat.add_sub_cancel_left]
    constructor
    · rw [hdata]
      exact hlen ▸ hle
    · rw [hdata]
    · rw [hdata, decide_eq_true_iff, hlen]
  · cases h

theorem posted_of_transmit {j off n : ℕ} (h : e.transmit j off n = some p) :
    p.msn < e.posted := by
  obtain ⟨wr, hwr, hmsn, -⟩ := transmit_eq_some h
  obtain ⟨hj, -⟩ := List.getElem?_eq_some_iff.mp hwr
  rw [hmsn, posted]
  omega

variable [DecidableEq ρ]

/-- The buffer with the packet written at its place. -/
def place (e : RcEnd ρ) (wr : RcWr ρ) (p : RcPacket) : RcEnd ρ :=
  e.store wr.addr (Stream.overlay (e.mem wr.addr) p.off p.data)

theorem mem_place {wr : RcWr ρ} :
    (e.place wr p).mem wr.addr = Stream.overlay (e.mem wr.addr) p.off p.data :=
  mem_store ..

/-- **What a packet does** when it carries a part of a message the posted receives
have room for: nothing, or it is the next one and is put in its place, and the last
one of the message completes the receive. -/
theorem deliver_cases (hrq : ∀ wr ∈ e.rq, wr.length = c.length) (hp : p.Of c) :
    e.deliver p = e ∨ p.msn = e.rcvd ∧ p.off = e.filled ∧ ∃ wr rest, e.rq = wr :: rest ∧
      ((p.off + p.data.length = c.length ∧ e.deliver p = { e.place wr p with
          rq := rest
          rcvd := e.rcvd + 1
          filled := 0
          cq := e.cq ++ [⟨wr.wrId, .success, .recv⟩] }) ∨
        e.deliver p = { e.place wr p with filled := e.filled + p.data.length }) := by
  rw [deliver]
  split
  · rename_i hnext
    split
    · exact Or.inl rfl
    · rename_i wr rest heq
      have hfits : ¬wr.length < p.off + p.data.length := by
        rw [hrq wr (heq ▸ List.mem_cons_self)]
        exact Nat.not_lt.mpr hp.le
      rw [if_neg hfits]
      refine Or.inr ⟨hnext.1, hnext.2, wr, rest, heq, ?_⟩
      split
      · rename_i hlast
        exact Or.inl ⟨hp.last.mp hlast, rfl⟩
      · exact Or.inr rfl
  · exact Or.inl rfl

/-- **Receiving in pieces**: as long as the buffer holds the beginning of the message
that is in place, a packet of it extends that beginning. -/
theorem take_place (wr : RcWr ρ) (hp : p.Of c) (hlen : (e.mem wr.addr).length = c.length)
    (hbuf : (e.mem wr.addr).take p.off = c.take p.off) :
    ((e.place wr p).mem wr.addr).take (p.off + p.data.length) =
      c.take (p.off + p.data.length) := by
  have hle := hp.le
  rw [mem_place, hp.data, Stream.length_window hle, Nat.add_sub_cancel_left]
  exact Stream.take_overlay (by omega) hle (Nat.le_add_right _ _) hbuf

/-- A packet of a message the buffer holds already changes nothing. -/
theorem place_self (wr : RcWr ρ) (hp : p.Of (e.mem wr.addr)) : e.place wr p = e := by
  have hsame : Stream.overlay (e.mem wr.addr) p.off p.data = e.mem wr.addr := by
    rw [hp.data]
    exact Stream.overlay_window_self (Nat.le_add_right _ _) hp.le
  rw [place, hsame, store, Function.update_eq_self]

theorem length_place (wr : RcWr ρ) (hp : p.Of c) (hlen : (e.mem wr.addr).length = c.length) :
    ((e.place wr p).mem wr.addr).length = c.length := by
  rw [mem_place, Stream.length_overlay (hlen ▸ hp.le), hlen]

end RcEnd

/-! ### A message goes through -/

namespace RcEnd

variable {e : RcEnd ρ}

/-- **The rest of a message**, from the place `off` on, is one packet, and the last one. -/
theorem transmit_rest {j off : ℕ} {wr : RcWr ρ} (hwr : e.sq[j]? = some wr) (hoff : off ≤ wr.length)
    (hlen : wr.length = (e.mem wr.addr).length) : ∃ p, e.transmit j off (wr.length - off) = some p ∧
      p.msn = e.acked + j ∧ p.off = off ∧ p.last = true ∧ p.off + p.data.length = wr.length := by
  have hend : off + (wr.length - off) = wr.length := by omega
  let p : RcPacket :=
    { msn := e.acked + j
      off := off
      data := Stream.window (e.mem wr.addr) off (off + (wr.length - off))
      last := decide (off + (wr.length - off) = wr.length) }
  have hp : e.transmit j off (wr.length - off) = some p := by
    rw [transmit, hwr, Option.bind_some, if_pos hend.le]
  have hdata : p.data.length = wr.length - off := by
    rw [Stream.length_window (by omega)]
    omega
  exact ⟨p, hp, rfl, rfl, decide_eq_true hend, by rw [hdata]; exact hend⟩

/-- **The last packet of the next message** completes the oldest posted receive. -/
theorem deliver_last [DecidableEq ρ] {p : RcPacket} {wr : RcWr ρ} {rest : List (RcWr ρ)}
    (hmsn : p.msn = e.rcvd) (hoff : p.off = e.filled) (hlast : p.last = true)
    (hrq : e.rq = wr :: rest) (hfits : p.off + p.data.length ≤ wr.length) :
    e.deliver p = { e.place wr p with
      rq := rest
      rcvd := e.rcvd + 1
      filled := 0
      cq := e.cq ++ [⟨wr.wrId, .success, .recv⟩] } := by
  rw [deliver, if_pos ⟨hmsn, hoff⟩, hrq]
  simp only [if_neg (Nat.not_lt.mpr hfits), if_pos hlast]
  rfl

end RcEnd

/-- One direction of a connection, for its own: the end that sends, its peer, and the packets
between them. -/
def rcLts [DecidableEq ρ] : Lts (RcEnd ρ × RcEnd ρ × List RcPacket) RcEvent :=
  Lts.ofFun (fun _ => True) fun c ev => rcNext c.1 c.2.1 c.2.2 ev

section Through

variable [DecidableEq ρ] {a b : RcEnd ρ}

/-- Every packet on its way can be lost. -/
theorem rcLts_drain (a b : RcEnd ρ) (wire : List RcPacket) :
    rcLts.Path (fun _ ev => ev.Ok) (a, b, wire) (a, b, []) := by
  induction wire with
  | nil => exact Lts.Path.refl _
  | cons p rest ih =>
    exact (Lts.Path.single (M := rcLts) (l := .lose) (s := (a, b, p :: rest)) trivial rfl).trans ih

/-- **The next message goes through**, whatever is on its way already: all of it is lost, what
the peer has not got is sent as one packet, and the packet arrives. -/
theorem rcLts_message (wire : List RcPacket) (hacked : a.acked ≤ b.rcvd)
    (hposted : b.rcvd < a.posted) (hrq : b.rq ≠ [])
    (hsize : ∀ wr ∈ a.sq, b.filled ≤ wr.length ∧ wr.length = (a.mem wr.addr).length)
    (hroom : ∀ wr ∈ a.sq, ∀ wr' ∈ b.rq, wr.length ≤ wr'.length) :
    ∃ b' : RcEnd ρ, rcLts.Path (fun _ ev => ev.Ok) (a, b, wire) (a, b', []) ∧
      b'.rcvd = b.rcvd + 1 ∧ b'.acked = b.acked := by
  obtain ⟨wr', rest, hcons⟩ := List.exists_cons_of_ne_nil hrq
  have hj : b.rcvd - a.acked < a.sq.length := by
    rw [RcEnd.posted] at hposted
    omega
  obtain ⟨wr, hwr⟩ : ∃ wr, a.sq[b.rcvd - a.acked]? = some wr := ⟨_, List.getElem?_eq_getElem hj⟩
  have hmem : wr ∈ a.sq := List.mem_of_getElem? hwr
  obtain ⟨hfilled, hlen⟩ := hsize wr hmem
  obtain ⟨p, hp, hmsn, hoff, hlast, hend⟩ := RcEnd.transmit_rest hwr hfilled hlen
  have hfits : p.off + p.data.length ≤ wr'.length :=
    hend.trans_le (hroom wr hmem wr' (hcons ▸ List.mem_cons_self))
  have hnext : p.msn = b.rcvd := by omega
  have hdeliver := RcEnd.deliver_last hnext hoff hlast hcons hfits
  have hsend : rcNext a b [] (.transmit (b.rcvd - a.acked) b.filled (wr.length - b.filled)) =
      some (a, b, [p]) := by
    rw [rcNext, hp]
    rfl
  have harrive : rcNext a b [p] .deliver = some (a, b.deliver p, []) := rfl
  refine ⟨b.deliver p, ?_, by rw [hdeliver], by rw [hdeliver]; rfl⟩
  have hsent : rcLts.Path (fun _ ev => ev.Ok) (a, b, wire) (a, b, [p]) :=
    (rcLts_drain a b wire).tail (l := .transmit (b.rcvd - a.acked) b.filled (wr.length - b.filled))
      trivial hsend
  exact hsent.tail (l := .deliver) trivial harrive

end Through

/-! ### The numbers of a connection -/

/-- **What links the two ends of one direction**: what has been acknowledged has been
received, what has been received or is on its way has been posted. -/
structure RcLinked (a b : RcEnd ρ) (wire : List RcPacket) : Prop where
  acked_le : a.acked ≤ b.rcvd
  rcvd_le : b.rcvd ≤ a.posted
  filled_lt : 0 < b.filled → b.rcvd < a.posted
  wire_lt : ∀ p ∈ wire, p.msn < a.posted

namespace RcLinked

variable {a b a' b' : RcEnd ρ} {wire wire' : List RcPacket}

theorem start (mem mem' : ρ → List UInt8) : RcLinked (RcEnd.start mem) (RcEnd.start mem') [] where
  acked_le := Nat.le_refl _
  rcvd_le := Nat.le_refl _
  filled_lt := fun h => absurd h (Nat.lt_irrefl _)
  wire_lt := fun _ h => absurd h List.not_mem_nil

/-- The link reads these numbers, and the packets. -/
theorem congr (h : RcLinked a b wire) (hacked : a'.acked = a.acked) (hposted : a.posted ≤ a'.posted)
    (hrcvd : b'.rcvd = b.rcvd) (hfilled : b'.filled = b.filled) : RcLinked a' b' wire where
  acked_le := by rw [hacked, hrcvd]; exact h.acked_le
  rcvd_le := by rw [hrcvd]; exact Nat.le_trans h.rcvd_le hposted
  filled_lt := by
    rw [hfilled, hrcvd]
    exact fun hf => Nat.lt_of_lt_of_le (h.filled_lt hf) hposted
  wire_lt := fun p hp => Nat.lt_of_lt_of_le (h.wire_lt p hp) hposted

theorem deliver [DecidableEq ρ] {p : RcPacket} (h : RcLinked a b (p :: wire)) :
    RcLinked a (b.deliver p) wire := by
  have hrest : RcLinked a b wire :=
    { h with wire_lt := fun q hq => h.wire_lt q (List.mem_cons_of_mem p hq) }
  have hp := h.wire_lt p List.mem_cons_self
  have hacked := h.acked_le
  rw [RcEnd.deliver]
  split
  · rename_i hnext
    rw [hnext.1] at hp
    split
    · exact hrest
    · simp only
      split
      · exact hrest.congr rfl (Nat.le_refl _) rfl rfl
      · split
        · -- the last packet of the message
          exact { hrest with
            acked_le := Nat.le_succ_of_le hacked
            rcvd_le := hp
            filled_lt := fun hf => absurd hf (Nat.lt_irrefl _) }
        · exact { hrest with filled_lt := fun _ => hp }
  · exact hrest

/-- **The link is kept** by every event of its direction that fails no request. -/
theorem next [DecidableEq ρ] {ev : RcEvent} (h : RcLinked a b wire) (hok : ev.Ok)
    (hs : rcNext a b wire ev = some (a', b', wire')) : RcLinked a' b' wire' := by
  cases ev with
  | transmit j off n =>
    obtain ⟨p, hp, heq⟩ := Option.map_eq_some_iff.mp hs
    cases heq
    refine { h with wire_lt := fun q hq => ?_ }
    rcases List.mem_append.mp hq with hq | hq
    · exact h.wire_lt q hq
    · rw [List.mem_singleton.mp hq]
      exact RcEnd.posted_of_transmit hp
  | lose =>
    cases wire with
    | nil => cases hs
    | cons p rest =>
      cases hs
      exact { h with wire_lt := fun q hq => h.wire_lt q (List.mem_cons_of_mem _ hq) }
  | deliver =>
    cases wire with
    | nil => cases hs
    | cons p rest =>
      cases hs
      exact h.deliver
  | ack =>
    rw [rcNext] at hs
    split at hs
    · rename_i hlt
      obtain ⟨a₁, ha, heq⟩ := Option.map_eq_some_iff.mp hs
      cases heq
      have hposted := RcEnd.posted_ack ha
      obtain ⟨wr, rest, -, rfl⟩ := RcEnd.ack_eq_some ha
      exact ⟨hlt, hposted ▸ h.rcvd_le, hposted ▸ h.filled_lt, hposted ▸ h.wire_lt⟩
    · cases hs
  | fail opcode status => exact hok.elim

end RcLinked

end RdmaBook
