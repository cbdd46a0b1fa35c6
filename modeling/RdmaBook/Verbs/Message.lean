import RdmaBook.Verbs.Rc

/-!
# A reliable connection, message by message

A reliable connection as its two users see it, with the one-sided operations. The
requests of a send queue are carried out in their order. A request is *sent*, which
reads its buffer; it is *executed* at the peer: the data of a Send goes to the oldest
posted receive, that of an RDMA Write to the buffer the request names, and an RDMA Read
brings data the other way; and it *completes* at any time after that. Only a Send tells
the peer anything: its receive completes.

A Send that finds no posted receive waits, and so does everything behind it. An
endpoint where a request or a receive has failed takes part in nothing more.
-/

namespace RdmaBook

variable {ρ : Type*}

/-! ### Requests and completions -/

/-- What a request asks for; a one-sided one names a buffer of the peer and a place in
it. -/
inductive RcOp (ρ : Type*)
  | send
  | rdmaWrite (raddr : ρ) (off : ℕ)
  | rdmaRead (raddr : ρ) (off : ℕ)
  deriving DecidableEq

/-- `wr.opcode`. -/
def RcOp.opcode : RcOp ρ → WrOpcode
  | .send => .send
  | .rdmaWrite _ _ => .rdmaWrite
  | .rdmaRead _ _ => .rdmaRead

/-- A request of a send queue: an operation and its local range. -/
structure MsgWr (ρ : Type*) extends RcWr ρ where
  op : RcOp ρ
  deriving DecidableEq

/-- `struct ibv_wc`; it has no opcode of a request for a receive. -/
structure MsgWc where
  wrId : ℕ
  status : WcStatus
  opcode : Option WrOpcode
  byteLen : ℕ
  deriving DecidableEq, Repr

/-- A request on its way, with the data it carries. -/
inductive Msg (ρ : Type*)
  | send (data : List UInt8)
  | write (raddr : ρ) (off : ℕ) (data : List UInt8)
  | read (addr : ρ) (length : ℕ) (raddr : ρ) (off : ℕ)
  deriving DecidableEq

/-! ### An endpoint -/

/-- **An endpoint**: its buffers; all requests posted to the send queue, how many of them
have been sent and how many have completed; the receives posted and not used; how many
requests of the peer have been executed here; the completion queue of both queues; and
whether the endpoint has failed. -/
structure MsgEnd (ρ : Type*) where
  mem : ρ → List UInt8
  posted : List (MsgWr ρ)
  sent : ℕ
  acked : ℕ
  rq : List (RcWr ρ)
  executed : ℕ
  cq : List MsgWc
  error : Bool

namespace MsgEnd

/-- A fresh endpoint on the given buffers. -/
def start (mem : ρ → List UInt8) : MsgEnd ρ := ⟨mem, [], 0, 0, [], 0, [], false⟩

/-- `ibv_post_send`. -/
def postSend (e : MsgEnd ρ) (wr : MsgWr ρ) : MsgEnd ρ := { e with posted := e.posted ++ [wr] }

/-- `ibv_post_recv`. -/
def postRecv (e : MsgEnd ρ) (wr : RcWr ρ) : MsgEnd ρ := { e with rq := e.rq ++ [wr] }

/-- The process writes a buffer. -/
def store [DecidableEq ρ] (e : MsgEnd ρ) (addr : ρ) (bytes : List UInt8) : MsgEnd ρ :=
  { e with mem := Function.update e.mem addr bytes }

/-- The request as it is sent: the local range is read where data is to be carried. -/
def message (e : MsgEnd ρ) (wr : MsgWr ρ) : Msg ρ :=
  match wr.op with
  | .send => .send (Stream.window (e.mem wr.addr) 0 wr.length)
  | .rdmaWrite raddr off => .write raddr off (Stream.window (e.mem wr.addr) 0 wr.length)
  | .rdmaRead raddr off => .read wr.addr wr.length raddr off

/-- The oldest request that has not completed is completed with a status. -/
def complete (e : MsgEnd ρ) (wr : MsgWr ρ) (status : WcStatus) : MsgEnd ρ :=
  { e with
    acked := e.acked + 1
    cq := e.cq ++ [⟨wr.wrId, status, some wr.op.opcode, wr.length⟩] }

/-- A Send fills the receive `wr`, the oldest one. -/
def receive [DecidableEq ρ] (e : MsgEnd ρ) (wr : RcWr ρ) (rest : List (RcWr ρ))
    (data : List UInt8) :
    MsgEnd ρ :=
  { e.store wr.addr (Stream.overlay (e.mem wr.addr) 0 data) with
    rq := rest
    executed := e.executed + 1
    cq := e.cq ++ [⟨wr.wrId, .success, none, data.length⟩] }

/-- The receive `wr`, the oldest one, fails. -/
def failRecv (e : MsgEnd ρ) (wr : RcWr ρ) (rest : List (RcWr ρ)) (status : WcStatus) : MsgEnd ρ :=
  { e with rq := rest, cq := e.cq ++ [⟨wr.wrId, status, none, 0⟩], error := true }

end MsgEnd

@[simp] theorem MsgEnd.mem_store [DecidableEq ρ] (e : MsgEnd ρ) (addr : ρ) (bytes : List UInt8) :
    (e.store addr bytes).mem addr = bytes :=
  Function.update_self ..

/-! ### A connection -/

/-- **Everything that has been posted has completed**, and every completion has been
polled. -/
def MsgEnd.Settled (e : MsgEnd ρ) : Prop := e.acked = e.posted.length ∧ e.rq = [] ∧ e.cq = []

/-- **The connection**: its ends, and what each side has sent that has not been executed
at the other. -/
structure MsgConn (ρ : Type*) where
  ends : Side → MsgEnd ρ
  wire : Side → List (Msg ρ)

/-- What the device of one side, or the network behind it, does. -/
inductive MsgEvent
  /-- The next request is sent. -/
  | send
  /-- The oldest request on its way is executed at the peer. -/
  | execute
  /-- The oldest request that has not completed completes. -/
  | complete
  /-- It fails. -/
  | fail (status : WcStatus)
  /-- The oldest receive fails. -/
  | flush (status : WcStatus)
  deriving DecidableEq, Repr

/-- The event does not fail a request or a receive. -/
def MsgEvent.Ok : MsgEvent → Prop
  | .fail _ => False
  | .flush _ => False
  | _ => True

instance : DecidablePred MsgEvent.Ok
  | .send => inferInstanceAs (Decidable True)
  | .execute => inferInstanceAs (Decidable True)
  | .complete => inferInstanceAs (Decidable True)
  | .fail _ => inferInstanceAs (Decidable False)
  | .flush _ => inferInstanceAs (Decidable False)

namespace MsgConn

/-- A connection before anything has been posted. -/
def start (mem : Side → ρ → List UInt8) : MsgConn ρ := ⟨fun s => MsgEnd.start (mem s), fun _ => []⟩

/-- One end replaced. -/
def set (k : MsgConn ρ) (s : Side) (e : MsgEnd ρ) : MsgConn ρ :=
  { k with ends := Function.update k.ends s e }

/-- What a side has on its way replaced. -/
def setWire (k : MsgConn ρ) (s : Side) (w : List (Msg ρ)) : MsgConn ρ :=
  { k with wire := Function.update k.wire s w }

/-- **A Send finds the receiver not ready**: it has reached a queue pair without a posted
receive. -/
def ReceiverNotReady (k : MsgConn ρ) (s : Side) : Prop :=
  (∃ data rest, k.wire s = .send data :: rest) ∧ (k.ends s.other).rq = []

variable [DecidableEq ρ]

/-- The oldest request of `s` on its way is executed at the peer. A Send longer than
its receive fails the receive; a one-sided operation is executed inside the buffer it
names only. -/
def execute (k : MsgConn ρ) (s : Side) : Msg ρ → List (Msg ρ) → Option (MsgConn ρ)
  | .send data, rest => match (k.ends s.other).rq with
    | [] => none
    | wr :: rq =>
      if wr.length < data.length then
        some (k.set s.other ((k.ends s.other).failRecv wr rq .locLenErr))
      else some ((k.set s.other ((k.ends s.other).receive wr rq data)).setWire s rest)
  | .write raddr off data, rest =>
    let b := k.ends s.other
    if off + data.length ≤ (b.mem raddr).length then
      let b' := b.store raddr (Stream.overlay (b.mem raddr) off data)
      some ((k.set s.other { b' with executed := b.executed + 1 }).setWire s rest)
    else none
  | .read addr length raddr off, rest =>
    let a := k.ends s
    let b := k.ends s.other
    if off + length ≤ (b.mem raddr).length then
      let data := Stream.window (b.mem raddr) off (off + length)
      let a' := a.store addr (Stream.overlay (a.mem addr) 0 data)
      some (((k.set s a').set s.other { b with executed := b.executed + 1 }).setWire s rest)
    else none

/-- **A step of the device of one side.** -/
def next (k : MsgConn ρ) (s : Side) (ev : MsgEvent) : Option (MsgConn ρ) :=
  match ev with
  | .send =>
    if (k.ends s).error then none
    else (k.ends s).posted[(k.ends s).sent]?.map fun wr =>
      (k.set s { k.ends s with sent := (k.ends s).sent + 1 }).setWire s
        (k.wire s ++ [(k.ends s).message wr])
  | .execute =>
    if (k.ends s.other).error then none
    else match k.wire s with
      | [] => none
      | m :: rest => k.execute s m rest
  | .complete =>
    if (k.ends s).error = false ∧ (k.ends s).acked < (k.ends s.other).executed then
      (k.ends s).posted[(k.ends s).acked]?.map fun wr => k.set s ((k.ends s).complete wr .success)
    else none
  | .fail status =>
    if status = .success then none
    else (k.ends s).posted[(k.ends s).acked]?.map fun wr =>
      k.set s { (k.ends s).complete wr status with error := true }
  | .flush status =>
    if status = .success then none
    else match (k.ends s).rq with
      | [] => none
      | wr :: rest => some (k.set s ((k.ends s).failRecv wr rest status))

/-! ### Frame lemmas -/

section Frame

omit [DecidableEq ρ]

variable {k : MsgConn ρ} {s : Side} {e : MsgEnd ρ} {w : List (Msg ρ)}

@[simp] theorem ends_set_self : (k.set s e).ends s = e := Function.update_self ..

@[simp] theorem ends_set_other : (k.set s e).ends s.other = k.ends s.other :=
  Function.update_of_ne s.other_ne ..

@[simp] theorem ends_set_of_other : (k.set s.other e).ends s = k.ends s :=
  Function.update_of_ne s.other_ne.symm ..

/-- What holds of either end holds after one of them is replaced. -/
theorem forall_ends_set {P : Side → MsgEnd ρ → Prop} (he : P s e) (h : P s.other (k.ends s.other))
    (t : Side) : P t ((k.set s e).ends t) := by
  rcases Side.eq_or_eq_other s t with rfl | rfl
  · rwa [ends_set_self]
  · rwa [ends_set_other]

@[simp] theorem ends_setWire : (k.setWire s w).ends = k.ends := rfl

@[simp] theorem wire_set : (k.set s e).wire = k.wire := rfl

@[simp] theorem wire_setWire_self : (k.setWire s w).wire s = w := Function.update_self ..

@[simp] theorem wire_setWire_other : (k.setWire s w).wire s.other = k.wire s.other :=
  Function.update_of_ne s.other_ne ..

/-- What holds of everything on its way holds after one side's is replaced. -/
theorem forall_wire_setWire {P : Side → List (Msg ρ) → Prop} (hw : P s w)
    (h : P s.other (k.wire s.other)) (t : Side) : P t ((k.setWire s w).wire t) := by
  rcases Side.eq_or_eq_other s t with rfl | rfl
  · rwa [wire_setWire_self]
  · rwa [wire_setWire_other]

end Frame

end MsgConn

/-! ### What a step does -/

/-- **The moves of the device of one side.** -/
inductive MsgMove [DecidableEq ρ] (k : MsgConn ρ) (s : Side) : MsgConn ρ → Prop
  | send (wr : MsgWr ρ) (hwr : (k.ends s).posted[(k.ends s).sent]? = some wr)
      (herr : (k.ends s).error = false) :
      MsgMove k s ((k.set s { k.ends s with sent := (k.ends s).sent + 1 }).setWire s
        (k.wire s ++ [(k.ends s).message wr]))
  /-- A Send fills a receive of the peer. -/
  | receive (data : List UInt8) (rest : List (Msg ρ)) (wr : RcWr ρ) (rq : List (RcWr ρ))
      (hwire : k.wire s = .send data :: rest) (hrq : (k.ends s.other).rq = wr :: rq)
      (hfits : data.length ≤ wr.length) :
      MsgMove k s ((k.set s.other ((k.ends s.other).receive wr rq data)).setWire s rest)
  /-- A Send is longer than the receive of the peer. -/
  | tooLong (data : List UInt8) (rest : List (Msg ρ)) (wr : RcWr ρ) (rq : List (RcWr ρ))
      (hwire : k.wire s = .send data :: rest) (hrq : (k.ends s.other).rq = wr :: rq)
      (hlong : wr.length < data.length) :
      MsgMove k s (k.set s.other ((k.ends s.other).failRecv wr rq .locLenErr))
  | write (raddr : ρ) (off : ℕ) (data : List UInt8) (rest : List (Msg ρ))
      (hwire : k.wire s = .write raddr off data :: rest)
      (hfits : off + data.length ≤ ((k.ends s.other).mem raddr).length) :
      MsgMove k s ((k.set s.other
        { (k.ends s.other).store raddr (Stream.overlay ((k.ends s.other).mem raddr) off data) with
          executed := (k.ends s.other).executed + 1 }).setWire s rest)
  | read (addr : ρ) (length : ℕ) (raddr : ρ) (off : ℕ) (data : List UInt8) (rest : List (Msg ρ))
      (hwire : k.wire s = .read addr length raddr off :: rest)
      (hfits : off + length ≤ ((k.ends s.other).mem raddr).length)
      (hdata : data = Stream.window ((k.ends s.other).mem raddr) off (off + length)) :
      MsgMove k s (((k.set s
        ((k.ends s).store addr (Stream.overlay ((k.ends s).mem addr) 0 data))).set s.other
        { k.ends s.other with executed := (k.ends s.other).executed + 1 }).setWire s rest)
  | complete (wr : MsgWr ρ) (hwr : (k.ends s).posted[(k.ends s).acked]? = some wr)
      (herr : (k.ends s).error = false) (hlt : (k.ends s).acked < (k.ends s.other).executed) :
      MsgMove k s (k.set s ((k.ends s).complete wr .success))

/-- A request or a receive of the side fails. -/
inductive MsgFail (k : MsgConn ρ) (s : Side) : MsgConn ρ → Prop
  | fail (wr : MsgWr ρ) (status : WcStatus) (hwr : (k.ends s).posted[(k.ends s).acked]? = some wr)
      (hstatus : status ≠ .success) :
      MsgFail k s (k.set s { (k.ends s).complete wr status with error := true })
  | flush (wr : RcWr ρ) (rest : List (RcWr ρ)) (status : WcStatus)
      (hrq : (k.ends s).rq = wr :: rest)
      (hstatus : status ≠ .success) : MsgFail k s (k.set s ((k.ends s).failRecv wr rest status))

section Moves

variable [DecidableEq ρ] {k k' : MsgConn ρ} {s : Side}

theorem MsgConn.execute_move {m : Msg ρ} {rest : List (Msg ρ)} (hwire : k.wire s = m :: rest)
    (hk : k.execute s m rest = some k') : MsgMove k s k' := by
  cases m with
  | send data =>
    simp only [MsgConn.execute] at hk
    split at hk
    · cases hk
    · rename_i wr rq hrq
      split at hk
      · rename_i hlong
        exact Option.some.inj hk ▸ .tooLong data rest wr rq hwire hrq hlong
      · rename_i hfits
        exact Option.some.inj hk ▸ .receive data rest wr rq hwire hrq (Nat.not_lt.mp hfits)
  | write raddr off data =>
    simp only [MsgConn.execute] at hk
    split at hk
    · rename_i hfits
      exact Option.some.inj hk ▸ .write raddr off data rest hwire hfits
    · cases hk
  | read addr length raddr off =>
    simp only [MsgConn.execute] at hk
    split at hk
    · rename_i hfits
      exact Option.some.inj hk ▸ .read addr length raddr off _ rest hwire hfits rfl
    · cases hk

/-- **What an event does that fails nothing.** -/
theorem MsgConn.next_move {ev : MsgEvent} (hok : ev.Ok) (hk : k.next s ev = some k') :
    MsgMove k s k' := by
  cases ev with
  | send =>
    simp only [MsgConn.next] at hk
    split at hk
    · cases hk
    · rename_i herr
      obtain ⟨wr, hwr, rfl⟩ := Option.map_eq_some_iff.mp hk
      exact .send wr hwr (Bool.eq_false_iff.mpr herr)
  | execute =>
    simp only [MsgConn.next] at hk
    split at hk
    · cases hk
    · split at hk
      · cases hk
      · rename_i m rest hwire
        exact MsgConn.execute_move hwire hk
  | complete =>
    simp only [MsgConn.next] at hk
    split at hk
    · rename_i hlt
      obtain ⟨wr, hwr, rfl⟩ := Option.map_eq_some_iff.mp hk
      exact .complete wr hwr hlt.1 hlt.2
    · cases hk
  | fail status => exact hok.elim
  | flush status => exact hok.elim

/-- **What any other event does.** -/
theorem MsgConn.next_fail {ev : MsgEvent} (hok : ¬ev.Ok) (hk : k.next s ev = some k') :
    MsgFail k s k' := by
  cases ev with
  | send | execute | complete => exact (hok trivial).elim
  | fail status =>
    simp only [MsgConn.next] at hk
    split at hk
    · cases hk
    · rename_i hstatus
      obtain ⟨wr, hwr, rfl⟩ := Option.map_eq_some_iff.mp hk
      exact .fail wr status hwr hstatus
  | flush status =>
    simp only [MsgConn.next] at hk
    split at hk
    · cases hk
    · rename_i hstatus
      split at hk
      · cases hk
      · rename_i wr rest hrq
        exact Option.some.inj hk ▸ .flush wr rest status hrq hstatus

end Moves

/-- What has been executed stays so. -/
theorem MsgMove.executed_le [DecidableEq ρ] {k k' : MsgConn ρ} {s : Side} (hm : MsgMove k s k')
    (t : Side) :
    (k.ends t).executed ≤ (k'.ends t).executed := by
  rcases Side.eq_or_eq_other s t with rfl | rfl
  · cases hm <;> simp [MsgEnd.complete, MsgEnd.store]
  · cases hm <;> simp [MsgEnd.receive, MsgEnd.failRecv]

/-- What has been posted is not changed by a device. -/
theorem MsgMove.posted_eq [DecidableEq ρ] {k k' : MsgConn ρ} {s : Side} (hm : MsgMove k s k')
    (t : Side) :
    (k'.ends t).posted = (k.ends t).posted := by
  rcases Side.eq_or_eq_other s t with rfl | rfl
  · cases hm <;> simp [MsgEnd.complete, MsgEnd.store]
  · cases hm <;> simp [MsgEnd.receive, MsgEnd.failRecv, MsgEnd.store]

theorem MsgFail.posted_eq {k k' : MsgConn ρ} {s : Side} (hm : MsgFail k s k') (t : Side) :
    (k'.ends t).posted = (k.ends t).posted := by
  rcases Side.eq_or_eq_other s t with rfl | rfl
  · cases hm <;> simp [MsgEnd.complete, MsgEnd.failRecv]
  · cases hm <;> simp

/-! ### Counting requests -/

/-- **The requests of a side, counted**: those sent have been posted, those sent are
executed or on their way, and as long as nothing has failed only executed ones have
completed. -/
structure MsgConn.Counted (k : MsgConn ρ) (s : Side) : Prop where
  sent_le : (k.ends s).sent ≤ (k.ends s).posted.length
  wire_eq : (k.ends s.other).executed + (k.wire s).length = (k.ends s).sent
  acked_le : (k.ends s).error = false → (k.ends s).acked ≤ (k.ends s.other).executed

namespace MsgConn.Counted

variable {k k' : MsgConn ρ} {s : Side}

theorem start (mem : Side → ρ → List UInt8) : (MsgConn.start mem).Counted s where
  sent_le := le_rfl
  wire_eq := rfl
  acked_le := fun _ => le_rfl

/-- Only what has been posted is executed. -/
theorem executed_le (h : k.Counted s) : (k.ends s.other).executed ≤ (k.ends s).posted.length := by
  have hwire := h.wire_eq
  have hsent := h.sent_le
  omega

/-- What is on its way has been posted and not been executed. -/
theorem executed_lt (h : k.Counted s) (hwire : k.wire s ≠ []) :
    (k.ends s.other).executed < (k.ends s).posted.length := by
  have hlen := List.length_pos_iff.mpr hwire
  have hwire := h.wire_eq
  have hsent := h.sent_le
  omega

/-- What the counts depend on. -/
theorem congr (h : k.Counted s) (hsent : (k'.ends s).sent = (k.ends s).sent)
    (hposted : (k.ends s).posted.length ≤ (k'.ends s).posted.length)
    (hexec : (k'.ends s.other).executed = (k.ends s.other).executed) (hwire : k'.wire s = k.wire s)
    (hacked : (k'.ends s).error = false →
      (k.ends s).error = false ∧ (k'.ends s).acked ≤ (k.ends s).acked) : k'.Counted s where
  sent_le := hsent ▸ h.sent_le.trans hposted
  wire_eq := by
    rw [hexec, hwire, hsent]
    exact h.wire_eq
  acked_le := by
    intro herr
    rw [hexec]
    exact (hacked herr).2.trans (h.acked_le (hacked herr).1)

/-- A request of the side is executed. -/
theorem executed (h : k.Counted s) {m : Msg ρ} {rest : List (Msg ρ)} (hm : k.wire s = m :: rest)
    (hsent : (k'.ends s).sent = (k.ends s).sent) (hposted : (k'.ends s).posted = (k.ends s).posted)
    (hexec : (k'.ends s.other).executed = (k.ends s.other).executed + 1) (hwire : k'.wire s = rest)
    (herr : (k'.ends s).error = (k.ends s).error) (hacked : (k'.ends s).acked = (k.ends s).acked) :
    k'.Counted s where
  sent_le := hsent ▸ hposted ▸ h.sent_le
  wire_eq := by
    have hlen := h.wire_eq
    rw [hm, List.length_cons] at hlen
    rw [hexec, hwire, hsent]
    omega
  acked_le := by
    rw [herr, hacked, hexec]
    exact fun he => (h.acked_le he).trans (Nat.le_succ _)

theorem fail (h : k.Counted s) (hm : MsgFail k s k') : k'.Counted s := by
  cases hm with
  | fail wr status hwr hstatus =>
    exact h.congr (by simp [MsgEnd.complete]) (by simp [MsgEnd.complete]) (by simp) (by simp)
      (by simp)
  | flush wr rest status hrq hstatus =>
    exact h.congr (by simp [MsgEnd.failRecv]) (by simp [MsgEnd.failRecv]) (by simp) (by simp)
      (by simp [MsgEnd.failRecv])

theorem fail_other (h : k.Counted s.other) (hm : MsgFail k s k') : k'.Counted s.other := by
  cases hm with
  | fail wr status hwr hstatus =>
    exact h.congr (by simp) (by simp) (by simp [MsgEnd.complete]) (by simp) (by simp)
  | flush wr rest status hrq hstatus =>
    exact h.congr (by simp) (by simp) (by simp [MsgEnd.failRecv]) (by simp) (by simp)

/-- A process posts, polls, or writes its buffers: nothing is sent, executed or
completed by that. -/
theorem set (h : ∀ t, k.Counted t) {e : MsgEnd ρ} (hsent : e.sent = (k.ends s).sent)
    (hacked : e.acked = (k.ends s).acked) (hexec : e.executed = (k.ends s).executed)
    (herr : e.error = (k.ends s).error) (hposted : (k.ends s).posted.length ≤ e.posted.length)
    (t : Side) : (k.set s e).Counted t := by
  rcases Side.eq_or_eq_other s t with rfl | rfl
  · refine (h t).congr ?_ ?_ ?_ rfl ?_
    · rw [ends_set_self, hsent]
    · rwa [ends_set_self]
    · rw [ends_set_other]
    · rw [ends_set_self, herr, hacked]
      exact fun he => ⟨he, le_rfl⟩
  · refine (h s.other).congr ?_ ?_ ?_ rfl ?_
    · rw [ends_set_other]
    · rw [ends_set_other]
    · rw [Side.other_other, ends_set_self, hexec]
    · rw [ends_set_other]
      exact fun he => ⟨he, le_rfl⟩

/-- A failure keeps the counts of both sides. -/
theorem fails (h : ∀ s, k.Counted s) (hm : MsgFail k s k') (t : Side) : k'.Counted t := by
  rcases Side.eq_or_eq_other s t with rfl | rfl
  · exact (h t).fail hm
  · exact (h s.other).fail_other hm

variable [DecidableEq ρ]

/-- The counts of the side whose device moves. -/
theorem move (h : k.Counted s) (hm : MsgMove k s k') : k'.Counted s := by
  cases hm with
  | send wr hwr herr =>
    obtain ⟨hlt, -⟩ := List.getElem?_eq_some_iff.mp hwr
    constructor
    · rw [ends_setWire, ends_set_self]
      exact hlt
    · rw [ends_setWire, ends_set_other, ends_set_self, wire_setWire_self, List.length_append,
        List.length_singleton, ← Nat.add_assoc, h.wire_eq]
    · rw [ends_setWire, ends_set_self, ends_set_other]
      exact h.acked_le
  | receive data rest wr rq hwire hrq hfits =>
    exact h.executed hwire (by simp) (by simp) (by simp [MsgEnd.receive]) (by simp) (by simp)
      (by simp)
  | tooLong data rest wr rq hwire hrq hlong =>
    exact h.congr (by simp) (by simp) (by simp [MsgEnd.failRecv]) (by simp) (by simp)
  | write raddr off data rest hwire hfits =>
    exact h.executed hwire (by simp) (by simp) (by simp) (by simp) (by simp) (by simp)
  | read addr length raddr off data rest hwire hfits hdata =>
    exact h.executed hwire (by simp [MsgEnd.store]) (by simp [MsgEnd.store]) (by simp) (by simp)
      (by simp [MsgEnd.store]) (by simp [MsgEnd.store])
  | complete wr hwr herr hlt =>
    constructor
    · rw [ends_set_self]
      exact h.sent_le
    · rw [ends_set_other, ends_set_self]
      exact h.wire_eq
    · rw [ends_set_other, ends_set_self]
      exact fun _ => hlt

/-- The counts of the other side. -/
theorem move_other (h : k.Counted s.other) (hm : MsgMove k s k') : k'.Counted s.other := by
  cases hm with
  | send wr hwr herr => exact h.congr (by simp) (by simp) (by simp) (by simp) (by simp)
  | receive data rest wr rq hwire hrq hfits =>
    exact h.congr (by simp [MsgEnd.receive, MsgEnd.store]) (by simp [MsgEnd.receive, MsgEnd.store])
      (by simp) (by simp) (by simp [MsgEnd.receive, MsgEnd.store])
  | tooLong data rest wr rq hwire hrq hlong =>
    exact h.congr (by simp [MsgEnd.failRecv]) (by simp [MsgEnd.failRecv]) (by simp) (by simp)
      (by simp [MsgEnd.failRecv])
  | write raddr off data rest hwire hfits =>
    exact h.congr (by simp [MsgEnd.store]) (by simp [MsgEnd.store]) (by simp) (by simp)
      (by simp [MsgEnd.store])
  | read addr length raddr off data rest hwire hfits hdata =>
    exact h.congr (by simp) (by simp) (by simp [MsgEnd.store]) (by simp) (by simp)
  | complete wr hwr herr hlt =>
    exact h.congr (by simp) (by simp) (by simp [MsgEnd.complete]) (by simp) (by simp)

/-- **A move of the device keeps the counts** of both sides. -/
theorem moves (h : ∀ s, k.Counted s) (hm : MsgMove k s k') (t : Side) : k'.Counted t := by
  rcases Side.eq_or_eq_other s t with rfl | rfl
  · exact (h t).move hm
  · exact (h s.other).move_other hm

end MsgConn.Counted

/-! ### What is left to the devices -/

section Progress

variable {k k' : MsgConn ρ} {s : Side}

/-- **What the devices have still to do** with the requests a side has posted: to send, to execute
and to complete them. -/
def MsgConn.left (k : MsgConn ρ) (s : Side) : ℕ :=
  ((k.ends s).posted.length - (k.ends s).sent) +
    ((k.ends s).posted.length - (k.ends s.other).executed) +
    ((k.ends s).posted.length - (k.ends s).acked)

theorem MsgConn.left_congr (hposted : (k'.ends s).posted.length = (k.ends s).posted.length)
    (hsent : (k'.ends s).sent = (k.ends s).sent) (hacked : (k'.ends s).acked = (k.ends s).acked)
    (hexec : (k'.ends s.other).executed = (k.ends s.other).executed) : k'.left s = k.left s := by
  rw [left, left, hposted, hsent, hacked, hexec]

/-- The request on its way finds what it needs at the peer: a receive that is large enough, or a
place inside the buffer it names. -/
def MsgConn.Fits (k : MsgConn ρ) (s : Side) : Msg ρ → Prop
  | .send data => ∃ wr rq, (k.ends s.other).rq = wr :: rq ∧ data.length ≤ wr.length
  | .write raddr off data => off + data.length ≤ ((k.ends s.other).mem raddr).length
  | .read _ length raddr off => off + length ≤ ((k.ends s.other).mem raddr).length

variable [DecidableEq ρ]

/-- A request that finds what it needs is executed, and nothing else changes that is counted. -/
theorem MsgConn.Fits.exists_execute {m : Msg ρ} (h : k.Fits s m) (rest : List (Msg ρ)) :
    ∃ k', k.execute s m rest = some k' ∧
      (k'.ends s.other).executed = (k.ends s.other).executed + 1 ∧
      (∀ t, (k'.ends t).posted = (k.ends t).posted ∧ (k'.ends t).sent = (k.ends t).sent ∧
        (k'.ends t).acked = (k.ends t).acked) ∧ (k'.ends s).executed = (k.ends s).executed := by
  have hboth : ∀ {P : Side → Prop}, P s → P s.other → ∀ t, P t := fun hs ho t => by
    rcases Side.eq_or_eq_other s t with rfl | rfl
    · exact hs
    · exact ho
  cases m with
  | send data =>
    obtain ⟨wr, rq, hrq, hlen⟩ := h
    refine ⟨_, by simp only [execute, hrq, if_neg (Nat.not_lt.mpr hlen)]; rfl, ?_, hboth ?_ ?_,
      ?_⟩ <;>
      simp [MsgEnd.receive, MsgEnd.store]
  | write raddr off data =>
    refine ⟨_, by simp only [execute]; exact if_pos h, ?_, hboth ?_ ?_, ?_⟩ <;> simp [MsgEnd.store]
  | read addr length raddr off =>
    refine ⟨_, by simp only [execute]; exact if_pos h, ?_, hboth ?_ ?_, ?_⟩ <;> simp [MsgEnd.store]

/-- **A side with a request that has not completed can go on**, where neither end has failed and the
requests on their way find what they need: there is less to do behind one of the events. -/
theorem MsgConn.exists_next (hc : k.Counted s) (herr : ∀ t, (k.ends t).error = false)
    (hleft : (k.ends s).acked < (k.ends s).posted.length) (hfits : ∀ m ∈ k.wire s, k.Fits s m) :
    ∃ ev k', ev.Ok ∧ k.next s ev = some k' ∧ k'.left s < k.left s ∧
    k'.left s.other = k.left s.other := by
  have hwire := hc.wire_eq
  have hsent := hc.sent_le
  have hexec := hc.executed_le
  by_cases hlt : (k.ends s).sent < (k.ends s).posted.length
  · refine ⟨.send, (k.set s { k.ends s with sent := (k.ends s).sent + 1 }).setWire s
      (k.wire s ++ [(k.ends s).message (k.ends s).posted[(k.ends s).sent]]), trivial, ?_, ?_, ?_⟩
    · simp only [next, herr s, Bool.false_eq_true, if_false, List.getElem?_eq_getElem hlt,
        Option.map_some]
    · simp only [left, ends_setWire, ends_set_self, ends_set_other]
      omega
    · exact left_congr (by simp) (by simp) (by simp) (by simp)
  · cases hw : k.wire s with
    | cons m rest =>
      obtain ⟨k', hk', hexec', hkeep, hown⟩ :=
        (hfits m (hw ▸ List.mem_cons_self)).exists_execute rest
      rw [hw, List.length_cons] at hwire
      refine ⟨.execute, k', trivial, ?_, ?_, ?_⟩
      · simp only [next, herr s.other, Bool.false_eq_true, if_false, hw]
        exact hk'
      · rw [left, left, (hkeep s).1, (hkeep s).2.1, (hkeep s).2.2, hexec']
        omega
      · refine left_congr (by rw [(hkeep _).1]) (hkeep _).2.1 (hkeep _).2.2 ?_
        rw [Side.other_other]
        exact hown
    | nil =>
      rw [hw, List.length_nil] at hwire
      refine ⟨.complete, k.set s ((k.ends s).complete (k.ends s).posted[(k.ends s).acked] .success),
        trivial, ?_, ?_, ?_⟩
      · have hacked : (k.ends s).acked < (k.ends s.other).executed := by omega
        simp only [next, herr s, hacked, and_self, if_true, List.getElem?_eq_getElem hleft,
          Option.map_some]
      · simp only [left, ends_set_self, ends_set_other, MsgEnd.complete]
        omega
      · exact left_congr (by simp) (by simp) (by simp) (by simp [MsgEnd.complete])

end Progress

/-- **No completion of the end tells of a failure**, unless it has failed. -/
def MsgEnd.Truthful (e : MsgEnd ρ) : Prop := e.error = false → ∀ wc ∈ e.cq, wc.status = .success

section Truthful

/-- A completion that is a success is added. -/
theorem MsgEnd.Truthful.concat {e e' : MsgEnd ρ} (h : e.Truthful) {wc : MsgWc}
    (herr : e'.error = e.error)
    (hcq : e'.cq = e.cq ++ [wc]) (hwc : wc.status = .success) : e'.Truthful := by
  intro herr' w hw
  rw [hcq] at hw
  rcases List.mem_append.mp hw with hw | hw
  · exact h (herr ▸ herr') w hw
  · rw [List.mem_singleton.mp hw]
    exact hwc

theorem MsgMove.truthful [DecidableEq ρ] {k k' : MsgConn ρ} {s : Side}
    (h : ∀ t, (k.ends t).Truthful) (hm : MsgMove k s k') : ∀ t, (k'.ends t).Truthful := by
  have hset : ∀ {k : MsgConn ρ} {s : Side} {e : MsgEnd ρ}, e.Truthful → (k.ends s.other).Truthful →
      ∀ t, ((k.set s e).ends t).Truthful := MsgConn.forall_ends_set (P := fun _ e => e.Truthful)
  cases hm with
  | send wr hwr herr => exact hset (h s) (h s.other)
  | receive data rest wr rq hwire hrq hfits =>
    exact hset ((h s.other).concat rfl rfl rfl) (h s.other.other)
  | tooLong data rest wr rq hwire hrq hlong =>
    exact hset (fun herr => absurd herr (by simp [MsgEnd.failRecv])) (h s.other.other)
  | write raddr off data rest hwire hfits => exact hset (h s.other) (h s.other.other)
  | read addr length raddr off data rest hwire hfits hdata =>
    refine hset (h s.other) ?_
    rw [s.other_other, MsgConn.ends_set_self]
    exact h s
  | complete wr hwr herr hlt => exact hset ((h s).concat rfl rfl rfl) (h s.other)

end Truthful

end RdmaBook
