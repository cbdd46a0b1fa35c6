import RdmaBook.PingPong.Loop

/-!
# What ping-pong preserves

The processes of rc_pingpong tell their two kinds of completion apart by counting
only. That this is enough is an invariant of the numbers of one process
(`RdmaBook.PingHostInv`): what it has posted and taken is fixed by its place in the
loop, every completion stands for a request that is done, and nothing is left at
the end of a turn. With the numbers of the connection (`RdmaBook.RcLinked`) it says
that at most one message is under way, so that the shared buffer holds the ping of
the turn wherever it is read, and receiving the reply writes what is there already.

The main result is `RdmaBook.pingPong_echo`.
-/

namespace RdmaBook

/-! ### What a process does -/

/-- **The moves of a process** none of whose calls fails. -/
inductive PingMove (numIters msgSize : ℕ) (s : Side) (h : PingHost) : PingHost → Prop
  | enter (hpc : h.pc = .loop) (hi : h.i < numIters) :
      PingMove numIters msgSize s h
        { h with pc := match s with
          | .client => .snprintf
          | .server => .postReceive }
  | leave (hpc : h.pc = .loop) (hi : numIters ≤ h.i) :
      PingMove numIters msgSize s h { h with pc := .finished }
  | fill (hpc : h.pc = .snprintf) (bytes : List UInt8)
      (hbytes : bytes = CString.snprintf h.buf msgSize (pingText h.i)) :
      PingMove numIters msgSize s h
        { h with pc := .postReceive, rc := h.rc.store .buf bytes, pings := h.pings ++ [bytes] }
  | postReceive (hpc : h.pc = .postReceive) :
      PingMove numIters msgSize s h
        ({ h with rc := h.rc.postRecv (h.wr msgSize) }.advance s)
  | postSend (hpc : h.pc = .postSend) :
      PingMove numIters msgSize s h
        ({ h with rc := h.rc.postSend (h.wr msgSize) }.advance s)
  | poll (hpc : h.pc = .pollSend ∨ h.pc = .pollRecv) (wc : Wc) (rest : List Wc)
      (hcq : h.rc.cq = wc :: rest) :
      PingMove numIters msgSize s h
        ({ h with rc := { h.rc with cq := rest }, polled := h.polled + 1 }.advance s)
  | idle : PingMove numIters msgSize s h h

section Process

variable {numIters msgSize : ℕ} {s : Side} {h h' : PingHost} {st : PingState}

theorem pingPoll_move {ret : PollRet} (hret : ret ≠ .failed)
    (hpc : h.pc = .pollSend ∨ h.pc = .pollRecv)
    (hsucc : ∀ wc ∈ h.rc.cq, wc.status = .success) (hs : pingPoll s h ret = some h') :
    PingMove numIters msgSize s h h' := by
  cases ret with
  | failed => exact absurd rfl hret
  | empty =>
    obtain rfl := Option.some.inj hs
    exact .idle
  | one =>
    cases hcq : h.rc.cq with
    | nil =>
      simp only [pingPoll, hcq] at hs
      cases hs
    | cons wc rest =>
      have hwc : wc.status = .success := hsucc wc (hcq ▸ List.mem_cons_self)
      simp only [pingPoll, hcq, if_pos hwc] at hs
      obtain rfl := Option.some.inj hs
      exact .poll hpc wc rest hcq

/-- **Every step of a process is one of its moves**, as long as no call fails and no
completion in its queue is a failed one. -/
theorem pingNext_move {l : PingLabel} (hok : PingNoFailure st (.proc s l))
    (hsucc : ∀ wc ∈ h.rc.cq, wc.status = .success)
    (hs : pingNext numIters msgSize s h l = some h') : PingMove numIters msgSize s h h' := by
  unfold pingNext at hs
  split at hs
  · unfold pingCpu at hs
    split at hs
    · rename_i hpc
      split at hs
      · rename_i hi
        have henter : PingMove numIters msgSize s h _ := .enter hpc hi
        cases s <;> exact Option.some.inj hs ▸ henter
      · rename_i hi
        exact Option.some.inj hs ▸ .leave hpc (Nat.not_lt.mp hi)
    · rename_i hpc
      exact Option.some.inj hs ▸ .fill hpc _ rfl
    · cases hs
  · rename_i hpc
    obtain rfl : _ = true := hok
    exact Option.some.inj hs ▸ .postReceive hpc
  · rename_i hpc
    obtain rfl : _ = true := hok
    exact Option.some.inj hs ▸ .postSend hpc
  · rename_i hpc
    exact pingPoll_move hok (Or.inl hpc) hsucc hs
  · rename_i hpc
    exact pingPoll_move hok (Or.inr hpc) hsucc hs
  · cases hs

end Process

/-! ### The numbers of a process -/

/-- What a process has done in the turn it is in: the sends and the receives it has
posted, the completions it has taken, and the receives it knows to be done. -/
structure PingCount where
  sends : ℕ
  recvs : ℕ
  polls : ℕ
  got : ℕ
  deriving DecidableEq, Repr

/-- **The numbers a place of the loop stands for.** -/
def PingPc.count : Side → PingPc → PingCount
  | .client, .postSend => ⟨0, 1, 0, 0⟩
  | .client, .pollSend => ⟨1, 1, 0, 0⟩
  | .client, .pollRecv => ⟨1, 1, 1, 0⟩
  | .server, .pollRecv => ⟨0, 1, 0, 0⟩
  | .server, .postSend => ⟨0, 1, 1, 1⟩
  | .server, .pollSend => ⟨1, 1, 1, 1⟩
  | _, _ => ⟨0, 0, 0, 0⟩

/-- The number of pings of the turn the client has written. -/
def PingPc.filled : PingPc → ℕ
  | .postReceive => 1
  | .postSend => 1
  | .pollSend => 1
  | .pollRecv => 1
  | _ => 0

section Table

variable {s : Side} {h : PingHost}

/-- One turn posts one send and one receive at most. -/
theorem PingPc.count_le (s : Side) (pc : PingPc) :
    (pc.count s).sends ≤ 1 ∧ (pc.count s).recvs ≤ 1 := by
  cases pc <;> cases s <;> decide

/-- Posting a receive. -/
theorem PingHost.count_postReceive (hpc : h.pc = .postReceive) :
    (h.advance s).i = h.i ∧
      (h.advance s).pc.count s = { h.pc.count s with recvs := (h.pc.count s).recvs + 1 } := by
  cases s <;> simp [PingHost.advance, hpc, PingPc.next, PingPc.count]

/-- Posting a send. -/
theorem PingHost.count_postSend (hpc : h.pc = .postSend) :
    (h.advance s).i = h.i ∧
      (h.advance s).pc.count s = { h.pc.count s with sends := (h.pc.count s).sends + 1 } := by
  cases s <;> simp [PingHost.advance, hpc, PingPc.next, PingPc.count]

/-- **Taking a completion**, which may end the turn. Where it does not, every request
the process knows to be done has been taken for. -/
theorem PingHost.count_poll (hpc : h.pc = .pollSend ∨ h.pc = .pollRecv) :
    (h.advance s).i + ((h.advance s).pc.count s).sends = h.i + (h.pc.count s).sends ∧
      (h.advance s).i + ((h.advance s).pc.count s).recvs = h.i + (h.pc.count s).recvs ∧
      2 * (h.advance s).i + ((h.advance s).pc.count s).polls =
        2 * h.i + (h.pc.count s).polls + 1 ∧
      ((h.advance s).pc.count s).recvs ≤ ((h.advance s).pc.count s).polls ∧
      ((h.advance s).pc.count s).got + ((h.advance s).pc.count s).sends ≤
        ((h.advance s).pc.count s).polls := by
  rcases hpc with hpc | hpc <;> cases s <;>
    simp [PingHost.advance, hpc, PingPc.next, PingPc.count] <;> omega

/-- A call that succeeds neither ends the process nor leads to the `snprintf`. -/
theorem PingHost.advance_alive (halive : h.pc ≠ .exited) (hfills : h.pc ≠ .snprintf) :
    (h.advance s).pc ≠ .exited ∧ (h.advance s).pc ≠ .snprintf := by
  cases hpc : h.pc with
  | exited => exact absurd hpc halive
  | snprintf => exact absurd hpc hfills
  | _ => cases s <;> simp [PingHost.advance, hpc, PingPc.next]

end Table

/-- **The invariant of one process**: its place fixes the numbers posted and taken,
every completion stands for a request that is done, the turns before this one are
done, and nothing has failed. -/
structure PingHostInv (msgSize : ℕ) (s : Side) (h : PingHost) : Prop where
  alive : h.pc ≠ .exited
  fills : h.pc = .snprintf → s = .client
  posted : h.rc.posted = h.i + (h.pc.count s).sends
  wanted : h.rc.rcvd + h.rc.rq.length = h.i + (h.pc.count s).recvs
  polled : h.polled = 2 * h.i + (h.pc.count s).polls
  account : h.polled + h.rc.cq.length = h.rc.acked + h.rc.rcvd
  acked_ge : h.i ≤ h.rc.acked
  rcvd_ge : h.i + (h.pc.count s).got ≤ h.rc.rcvd
  success : ∀ wc ∈ h.rc.cq, wc.status = .success
  sq_size : ∀ wr ∈ h.rc.sq, wr.length = msgSize
  rq_size : ∀ wr ∈ h.rc.rq, wr.length = msgSize
  size : h.buf.length = msgSize

namespace PingHostInv

variable {numIters msgSize : ℕ} {s : Side} {h h' : PingHost}

theorem start (msgSize : ℕ) (s : Side) : PingHostInv msgSize s (pingStart msgSize) where
  alive := nofun
  fills := nofun
  posted := by cases s <;> rfl
  wanted := by cases s <;> rfl
  polled := by cases s <;> rfl
  account := rfl
  acked_ge := Nat.le_refl _
  rcvd_ge := by cases s <;> exact Nat.le_refl _
  success := fun _ hwc => absurd hwc List.not_mem_nil
  sq_size := fun _ hwr => absurd hwr List.not_mem_nil
  rq_size := fun _ hwr => absurd hwr List.not_mem_nil
  size := List.length_replicate

/-- **The numbers are kept by every move.** -/
theorem move (h₀ : PingHostInv msgSize s h) (hm : PingMove numIters msgSize s h h') :
    PingHostInv msgSize s h' := by
  obtain ⟨alive, fills, posted, wanted, polled, account, acked_ge, rcvd_ge, success, sq_size,
    rq_size, size⟩ := h₀
  cases hm with
  | enter hpc hi =>
    rw [hpc] at posted wanted polled rcvd_ge
    cases s <;> exact ⟨by simp, by simp, posted, wanted, polled, account, acked_ge, rcvd_ge,
      success, sq_size, rq_size, size⟩
  | leave hpc hi =>
    rw [hpc] at posted wanted polled rcvd_ge
    cases s <;> exact ⟨by simp, by simp, posted, wanted, polled, account, acked_ge, rcvd_ge,
      success, sq_size, rq_size, size⟩
  | fill hpc bytes hbytes =>
    have hs : s = .client := fills hpc
    rw [hpc] at posted wanted polled rcvd_ge
    subst hs
    refine ⟨by simp, by simp, posted, wanted, polled, account, acked_ge, rcvd_ge, success,
      sq_size, rq_size, ?_⟩
    change ((h.rc.store .buf bytes).mem .buf).length = msgSize
    rw [RcEnd.mem_store, hbytes, CString.length_snprintf size.ge, size]
  | postReceive hpc =>
    let k : PingHost := { h with rc := h.rc.postRecv (h.wr msgSize) }
    obtain ⟨hi, hcount⟩ := k.count_postReceive (s := s) hpc
    obtain ⟨halive, hfills⟩ := k.advance_alive (s := s) alive (by simp [k, hpc])
    refine ⟨halive, fun hc => absurd hc hfills, ?_, ?_, ?_, account, hi.le.trans acked_ge, ?_,
      success, sq_size, List.forall_mem_append.mpr ⟨rq_size, List.forall_mem_singleton.mpr rfl⟩,
      size⟩
    · rw [hcount, hi]
      exact posted
    · rw [hcount, hi]
      change h.rc.rcvd + (h.rc.rq ++ [h.wr msgSize]).length = h.i + ((h.pc.count s).recvs + 1)
      rw [List.length_append, List.length_singleton]
      omega
    · rw [hcount, hi]
      exact polled
    · rw [hcount, hi]
      exact rcvd_ge
  | postSend hpc =>
    let k : PingHost := { h with rc := h.rc.postSend (h.wr msgSize) }
    obtain ⟨hi, hcount⟩ := k.count_postSend (s := s) hpc
    obtain ⟨halive, hfills⟩ := k.advance_alive (s := s) alive (by simp [k, hpc])
    refine ⟨halive, fun hc => absurd hc hfills, ?_, ?_, ?_, account, hi.le.trans acked_ge, ?_,
      success, List.forall_mem_append.mpr ⟨sq_size, List.forall_mem_singleton.mpr rfl⟩, rq_size,
      size⟩
    · rw [hcount, hi]
      exact RcEnd.posted_postSend.trans (congrArg (· + 1) posted)
    · rw [hcount, hi]
      exact wanted
    · rw [hcount, hi]
      exact polled
    · rw [hcount, hi]
      exact rcvd_ge
  | poll hpc wc rest hcq =>
    let k : PingHost := { h with rc := { h.rc with cq := rest }, polled := h.polled + 1 }
    obtain ⟨hsends, hrecvs, hpolls, hle, hgot⟩ := k.count_poll (s := s) hpc
    obtain ⟨halive, hfills⟩ := k.advance_alive (s := s) alive
      (by rcases hpc with hpc | hpc <;> simp [k, hpc])
    rw [hcq, List.length_cons] at account
    -- the completion that is taken leaves as many behind as there are requests done
    have hacc : h.polled + 1 + rest.length = h.rc.acked + h.rc.rcvd := by omega
    have hposted : h.rc.posted = (k.advance s).i + ((k.advance s).pc.count s).sends :=
      posted.trans hsends.symm
    have hwanted : h.rc.rcvd + h.rc.rq.length = (k.advance s).i +
        ((k.advance s).pc.count s).recvs :=
      wanted.trans hrecvs.symm
    have hpolled : h.polled + 1 = 2 * (k.advance s).i + ((k.advance s).pc.count s).polls := by
      rw [hpolls]
      exact congrArg (· + 1) polled
    have hacked : h.rc.acked ≤ h.rc.posted := Nat.le_add_right _ _
    refine ⟨halive, fun hc => absurd hc hfills, hposted, hwanted, hpolled, hacc, ?_, ?_, ?_,
      sq_size, rq_size, size⟩
    · change (k.advance s).i ≤ h.rc.acked
      omega
    · change (k.advance s).i + ((k.advance s).pc.count s).got ≤ h.rc.rcvd
      omega
    · exact fun w hw => success w (hcq ▸ List.mem_cons_of_mem wc hw)
  | idle =>
    exact ⟨alive, fills, posted, wanted, polled, account, acked_ge, rcvd_ge, success, sq_size,
      rq_size, size⟩

/-- **The numbers are kept by an acknowledgement**, which turns a send into a
completion. -/
theorem ack {rc : RcEnd PingBuf} (h₀ : PingHostInv msgSize s h) (ha : h.rc.ack = some rc) :
    PingHostInv msgSize s { h with rc := rc } := by
  have hposted := RcEnd.posted_ack ha
  have hacked := h₀.acked_ge
  have haccount := h₀.account
  obtain ⟨wr, rest, hsq, rfl⟩ := RcEnd.ack_eq_some ha
  refine { h₀ with
    posted := hposted.trans h₀.posted
    account := ?_
    acked_ge := Nat.le_succ_of_le hacked
    success := List.forall_mem_append.mpr ⟨h₀.success, List.forall_mem_singleton.mpr rfl⟩
    sq_size := fun w hw => h₀.sq_size w (hsq ▸ List.mem_cons_of_mem wr hw) }
  rw [List.length_append, List.length_singleton]
  change h.polled + (h.rc.cq.length + 1) = h.rc.acked + 1 + h.rc.rcvd
  omega

/-- **The numbers are kept by a packet that arrives**, and turns a receive into a
completion if it is the last of its message. -/
theorem deliver {p : RcPacket} {c : List UInt8} (h₀ : PingHostInv msgSize s h) (hp : p.Of c)
    (hc : c.length = msgSize) : PingHostInv msgSize s { h with rc := h.rc.deliver p } := by
  have hrq : ∀ wr ∈ h.rc.rq, wr.length = c.length := fun wr hwr => (h₀.rq_size wr hwr).trans hc.symm
  rcases RcEnd.deliver_cases hrq hp with heq | ⟨-, -, wr, rest, hcons, hplace⟩
  · rw [heq]
    exact h₀
  have hsize : ((h.rc.place wr p).mem .buf).length = msgSize :=
    (RcEnd.length_place wr hp (h₀.size.trans hc.symm)).trans hc
  rcases hplace with ⟨-, heq⟩ | heq
  · have hwanted := h₀.wanted
    have haccount := h₀.account
    have hrcvd := h₀.rcvd_ge
    rw [hcons, List.length_cons] at hwanted
    rw [heq]
    refine { h₀ with
      wanted := ?_
      account := ?_
      rcvd_ge := Nat.le_succ_of_le hrcvd
      success := List.forall_mem_append.mpr ⟨h₀.success, List.forall_mem_singleton.mpr rfl⟩
      rq_size := fun w hw => h₀.rq_size w (hcons ▸ List.mem_cons_of_mem wr hw)
      size := hsize }
    · change h.rc.rcvd + 1 + rest.length = h.i + (h.pc.count s).recvs
      omega
    · rw [List.length_append, List.length_singleton]
      change h.polled + (h.rc.cq.length + 1) = h.rc.acked + (h.rc.rcvd + 1)
      omega
  · rw [heq]
    exact { h₀ with size := hsize }

/-! ### What the numbers say -/

/-- A process never has more than one send, one receive and two completions. -/
theorem outstanding (h₀ : PingHostInv msgSize s h) :
    h.rc.sq.length ≤ 1 ∧ h.rc.rq.length ≤ 1 ∧ h.rc.cq.length ≤ 2 := by
  obtain ⟨hsends, hrecvs⟩ := h.pc.count_le s
  obtain ⟨-, -, posted, wanted, polled, account, acked_ge, rcvd_ge, -, -, -, -⟩ := h₀
  rw [RcEnd.posted] at posted
  omega

/-- A send that is outstanding is the one of this turn. -/
theorem of_sq (h₀ : PingHostInv msgSize s h) (hsq : h.rc.sq ≠ []) :
    h.rc.acked = h.i ∧ (h.pc.count s).sends = 1 := by
  obtain ⟨hsends, -⟩ := h.pc.count_le s
  have hlen := List.length_pos_iff.mpr hsq
  have hposted := h₀.posted
  have hacked := h₀.acked_ge
  rw [RcEnd.posted] at hposted
  omega

/-- A receive that is outstanding is the one of this turn. -/
theorem of_rq (h₀ : PingHostInv msgSize s h) (hrq : h.rc.rq ≠ []) :
    h.rc.rcvd = h.i ∧ (h.pc.count s).recvs = 1 ∧ (h.pc.count s).got = 0 := by
  obtain ⟨-, hrecvs⟩ := h.pc.count_le s
  have hlen := List.length_pos_iff.mpr hrq
  have hwanted := h₀.wanted
  have hrcvd := h₀.rcvd_ge
  omega

/-- **Nothing is left between two turns.** -/
theorem between (h₀ : PingHostInv msgSize s h) (hcount : h.pc.count s = ⟨0, 0, 0, 0⟩) :
    h.rc.sq = [] ∧ h.rc.rq = [] ∧ h.rc.cq = [] ∧ h.rc.rcvd = h.i := by
  obtain ⟨-, -, posted, wanted, polled, account, acked_ge, rcvd_ge, -, -, -, -⟩ := h₀
  rw [hcount] at posted wanted polled rcvd_ge
  rw [RcEnd.posted] at posted
  simp only [Nat.add_zero] at posted wanted polled rcvd_ge
  refine ⟨List.eq_nil_of_length_eq_zero ?_, List.eq_nil_of_length_eq_zero ?_,
    List.eq_nil_of_length_eq_zero ?_, ?_⟩ <;> omega

/-- A receive the process knows to be done. -/
theorem of_got (h₀ : PingHostInv msgSize s h) (hgot : (h.pc.count s).got = 1) :
    h.rc.rq = [] ∧ h.rc.rcvd = h.i + 1 := by
  obtain ⟨-, hrecvs⟩ := h.pc.count_le s
  have hwanted := h₀.wanted
  have hrcvd := h₀.rcvd_ge
  exact ⟨List.eq_nil_of_length_eq_zero (by omega), by omega⟩

end PingHostInv

/-! ### What a move leaves alone -/

/-- **What every move but the `snprintf` leaves alone**: the buffer, the pings
written, and what the connection counts. -/
structure PingFrame (s : Side) (h h' : PingHost) : Prop where
  mem : h'.rc.mem = h.rc.mem
  pings : h'.pings = h.pings
  acked : h'.rc.acked = h.rc.acked
  posted : h.rc.posted ≤ h'.rc.posted
  rcvd : h'.rc.rcvd = h.rc.rcvd
  filled : h'.rc.filled = h.rc.filled
  rq : h'.rc.rq = [] → h.rc.rq = []
  place : s = .client → h'.i + h'.pc.filled = h.i + h.pc.filled

/-- A call that succeeds stays in the turn of its ping, or ends it. -/
theorem PingHost.filled_advance {h : PingHost} (hpc : h.pc = .postReceive ∨ h.pc = .postSend ∨
    h.pc = .pollSend ∨ h.pc = .pollRecv) :
    (h.advance .client).i + (h.advance .client).pc.filled = h.i + h.pc.filled := by
  rcases hpc with hpc | hpc | hpc | hpc <;>
    simp [PingHost.advance, hpc, PingPc.next, PingPc.filled]

theorem PingMove.frame {numIters msgSize : ℕ} {s : Side} {h h' : PingHost}
    (hm : PingMove numIters msgSize s h h') (hpc : h.pc ≠ .snprintf) : PingFrame s h h' := by
  cases hm with
  | enter hloop =>
    refine ⟨rfl, rfl, rfl, le_rfl, rfl, rfl, id, ?_⟩
    rintro rfl
    rw [hloop]
    rfl
  | leave hloop =>
    refine ⟨rfl, rfl, rfl, le_rfl, rfl, rfl, id, fun _ => ?_⟩
    rw [hloop]
    rfl
  | fill hfill => exact absurd hfill hpc
  | postReceive hpost =>
    refine ⟨rfl, rfl, rfl, le_rfl, rfl, rfl, fun hrq => ?_, ?_⟩
    · exact absurd hrq (List.append_ne_nil_of_right_ne_nil _ (List.cons_ne_nil _ _))
    · rintro rfl
      exact PingHost.filled_advance (Or.inl hpost)
  | postSend hpost =>
    refine ⟨rfl, rfl, rfl, ?_, rfl, rfl, id, ?_⟩
    · exact (Nat.le_succ _).trans RcEnd.posted_postSend.ge
    · rintro rfl
      exact PingHost.filled_advance (Or.inr (Or.inl hpost))
  | poll hpoll =>
    refine ⟨rfl, rfl, rfl, le_rfl, rfl, rfl, id, ?_⟩
    rintro rfl
    exact PingHost.filled_advance (Or.inr (Or.inr hpoll))
  | idle => exact ⟨rfl, rfl, rfl, le_rfl, rfl, rfl, id, fun _ => rfl⟩

/-! ### The invariant of the system -/

/-- **The invariant of ping-pong**: the two processes count right, the two directions
are linked, the buffer of the client holds its last ping, that of the server what it
has received of the one under way, or the last one it has received, and every packet
carries its part of a ping. -/
structure PingInv (msgSize : ℕ) (st : PingState) : Prop where
  host : ∀ s, PingHostInv msgSize s (st.host s)
  link : ∀ s : Side, RcLinked (st.host s).rc (st.host s.other).rc (st.wire s)
  pings_length : (st.host .client).pings.length =
    (st.host .client).i + (st.host .client).pc.filled
  pings_size : ∀ c ∈ (st.host .client).pings, c.length = msgSize
  client_buf : ∀ k, (st.host .client).pings.length = k + 1 →
    (st.host .client).pings[k]? = some (st.host .client).buf
  server_buf : (st.host .server).rc.rq = [] → ∀ k, (st.host .server).rc.rcvd = k + 1 →
    (st.host .client).pings[k]? = some (st.host .server).buf
  server_part : ∀ c, (st.host .client).pings[(st.host .server).rc.rcvd]? = some c →
    (st.host .server).buf.take (st.host .server).rc.filled =
      c.take (st.host .server).rc.filled
  packets : ∀ s, ∀ p ∈ st.wire s, ∃ c, (st.host .client).pings[p.msn]? = some c ∧ p.Of c

namespace PingInv

variable {numIters msgSize : ℕ} {s : Side} {st : PingState} {h' : PingHost}

theorem start (msgSize : ℕ) :
    PingInv msgSize { host := fun _ => pingStart msgSize, wire := fun _ => [] } where
  host := fun s => PingHostInv.start msgSize s
  link := fun _ => RcLinked.start _ _
  pings_length := rfl
  pings_size := fun _ hc => absurd hc List.not_mem_nil
  client_buf := nofun
  server_buf := nofun
  server_part := nofun
  packets := fun _ _ hp => absurd hp List.not_mem_nil

/-- **The invariant is kept by a move that does not write the buffer.** -/
theorem of_frame (hinv : PingInv msgSize st) (hhost : PingHostInv msgSize s h')
    (hf : PingFrame s (st.host s) h') :
    PingInv msgSize { st with host := Function.update st.host s h' } := by
  cases s with
  | client =>
    have hbuf : h'.buf = (st.host .client).buf := congrFun hf.mem .buf
    refine ⟨?_, ?_, ?_, ?_, ?_, ?_, ?_, ?_⟩
    · intro t
      cases t
      · exact hhost
      · exact hinv.host .server
    · intro t
      cases t
      · exact (hinv.link .client).congr hf.acked hf.posted rfl rfl
      · exact (hinv.link .server).congr rfl le_rfl hf.rcvd hf.filled
    · exact (congrArg List.length hf.pings).trans (hinv.pings_length.trans (hf.place rfl).symm)
    · change ∀ c ∈ h'.pings, c.length = msgSize
      rw [hf.pings]
      exact hinv.pings_size
    · change ∀ k, h'.pings.length = k + 1 → h'.pings[k]? = some h'.buf
      rw [hf.pings, hbuf]
      exact hinv.client_buf
    · change _ → ∀ k, _ → h'.pings[k]? = some (st.host .server).buf
      rw [hf.pings]
      exact hinv.server_buf
    · change ∀ c, h'.pings[(st.host .server).rc.rcvd]? = some c → _
      rw [hf.pings]
      exact hinv.server_part
    · change ∀ t, ∀ p ∈ st.wire t, ∃ c, h'.pings[p.msn]? = some c ∧ p.Of c
      rw [hf.pings]
      exact hinv.packets
  | server =>
    have hbuf : h'.buf = (st.host .server).buf := congrFun hf.mem .buf
    refine { hinv with host := ?_, link := ?_, server_buf := ?_, server_part := ?_ }
    · intro t
      cases t
      · exact hinv.host .client
      · exact hhost
    · intro t
      cases t
      · exact (hinv.link .client).congr rfl le_rfl hf.rcvd hf.filled
      · exact (hinv.link .server).congr hf.acked hf.posted rfl rfl
    · change h'.rc.rq = [] → ∀ k, h'.rc.rcvd = k + 1 →
        (st.host .client).pings[k]? = some h'.buf
      rw [hbuf, hf.rcvd]
      exact fun hrq => hinv.server_buf (hf.rq hrq)
    · change ∀ c, (st.host .client).pings[h'.rc.rcvd]? = some c →
        h'.buf.take h'.rc.filled = c.take h'.rc.filled
      rw [hbuf, hf.rcvd, hf.filled]
      exact hinv.server_part

/-- **The invariant is kept by the `snprintf`**: nothing of the client is under way
when the new ping is written. -/
theorem of_fill {bytes : List UInt8} (hinv : PingInv msgSize st)
    (hpc : (st.host .client).pc = .snprintf)
    (hh : h' = { st.host .client with
      pc := .postReceive
      rc := (st.host .client).rc.store .buf bytes
      pings := (st.host .client).pings ++ [bytes] })
    (hhost : PingHostInv msgSize .client h') :
    PingInv msgSize { st with host := Function.update st.host .client h' } := by
  have hlen := hinv.pings_length
  rw [hpc] at hlen
  have hbuf : h'.buf = bytes := by
    rw [hh]
    exact RcEnd.mem_store ..
  have hpings : h'.pings = (st.host .client).pings ++ [bytes] := by rw [hh]
  have hold : ∀ {k : ℕ} {c : List UInt8}, (st.host .client).pings[k]? = some c →
      h'.pings[k]? = some c := by
    intro k c hk
    obtain ⟨hlt, -⟩ := List.getElem?_eq_some_iff.mp hk
    rw [hpings, List.getElem?_append_left hlt]
    exact hk
  refine ⟨?_, ?_, ?_, ?_, ?_, ?_, ?_, ?_⟩
  · intro t
    cases t
    · exact hhost
    · exact hinv.host .server
  · intro t
    cases t
    · exact (hinv.link .client).congr (by rw [hh]; rfl) (by rw [hh]; rfl) rfl rfl
    · exact (hinv.link .server).congr rfl le_rfl (by rw [hh]; rfl) (by rw [hh]; rfl)
  · change h'.pings.length = h'.i + h'.pc.filled
    rw [hpings, List.length_append, hlen, hh]
    rfl
  · change ∀ c ∈ h'.pings, c.length = msgSize
    rw [hpings]
    exact List.forall_mem_append.mpr ⟨hinv.pings_size,
      List.forall_mem_singleton.mpr (hbuf ▸ hhost.size)⟩
  · change ∀ k, h'.pings.length = k + 1 → h'.pings[k]? = some h'.buf
    intro k hk
    rw [hpings, List.length_append, List.length_singleton] at hk
    rw [hpings, hbuf, ← Nat.succ.inj hk, List.getElem?_concat_length]
  · exact fun hrq k hk => hold (hinv.server_buf hrq k hk)
  · change ∀ c, h'.pings[(st.host .server).rc.rcvd]? = some c →
      (st.host .server).buf.take (st.host .server).rc.filled =
        c.take (st.host .server).rc.filled
    intro c hc
    rcases Nat.eq_zero_or_pos (st.host .server).rc.filled with hzero | hpos
    · rw [hzero, List.take_zero, List.take_zero]
    · -- a message that is being received has been posted, so it is an older ping
      have hlt := (hinv.link .client).filled_lt hpos
      have hposted := (hinv.host .client).posted
      rw [hpc] at hposted
      have hrcvd : (st.host .server).rc.rcvd < (st.host .client).pings.length := by
        rw [hlen]
        exact hlt.trans_eq hposted
      rw [hpings, List.getElem?_append_left hrcvd] at hc
      exact hinv.server_part c hc
  · intro t p hp
    obtain ⟨c, hc, hof⟩ := hinv.packets t p hp
    exact ⟨c, hold hc, hof⟩

/-- **The invariant is kept by every move of a process.** -/
theorem move (hinv : PingInv msgSize st) (hm : PingMove numIters msgSize s (st.host s) h') :
    PingInv msgSize { st with host := Function.update st.host s h' } := by
  have hhost := (hinv.host s).move hm
  by_cases hpc : (st.host s).pc = .snprintf
  · have hs := (hinv.host s).fills hpc
    subst hs
    cases hm with
    | fill _ bytes => exact hinv.of_fill hpc rfl hhost
    | enter hne | leave hne | postReceive hne | postSend hne =>
      rw [hpc] at hne
      cases hne
    | poll hne =>
      rw [hpc] at hne
      rcases hne with hne | hne <;> cases hne
    | idle => rwa [Function.update_eq_self]
  · exact hinv.of_frame hhost (hm.frame hpc)

/-- What is sent is a part of the ping of the turn. -/
theorem sending (hinv : PingInv msgSize st) (hsq : (st.host s).rc.sq ≠ []) :
    (st.host .client).pings[(st.host s).i]? = some (st.host s).buf := by
  obtain ⟨-, hsends⟩ := (hinv.host s).of_sq hsq
  cases s with
  | client =>
    have hfilled : (st.host .client).pc.filled = 1 := by
      cases hpc : (st.host .client).pc <;> rw [hpc] at hsends <;> first | rfl | cases hsends
    exact hinv.client_buf _ (hfilled ▸ hinv.pings_length)
  | server =>
    have hgot : ((st.host .server).pc.count .server).got = 1 := by
      cases hpc : (st.host .server).pc <;> rw [hpc] at hsends <;> first | rfl | cases hsends
    obtain ⟨hrq, hrcvd⟩ := (hinv.host .server).of_got hgot
    exact hinv.server_buf hrq _ hrcvd

/-- The client receives into a buffer that holds the ping of the turn. -/
theorem receiving (hinv : PingInv msgSize st) (hrq : (st.host .client).rc.rq ≠ []) :
    (st.host .client).pings[(st.host .client).rc.rcvd]? = some (st.host .client).buf := by
  obtain ⟨hrcvd, hrecvs, -⟩ := (hinv.host .client).of_rq hrq
  have hfilled : (st.host .client).pc.filled = 1 := by
    cases hpc : (st.host .client).pc <;> rw [hpc] at hrecvs <;> first | rfl | cases hrecvs
  rw [hrcvd]
  exact hinv.client_buf _ (hfilled ▸ hinv.pings_length)

/-- **The invariant is kept by a step of the connection** that keeps the numbers and
the link, the buffer of the client, and what the server has of its pings. -/
theorem of_net {a b : RcEnd PingBuf} {wire : List RcPacket} (hinv : PingInv msgSize st)
    (hhost : PingHostInv msgSize s { st.host s with rc := a })
    (hpeer : PingHostInv msgSize s.other { st.host s.other with rc := b })
    (hlink : RcLinked a b wire) (hmem : a.mem = (st.host s).rc.mem)
    (hrq : a.rq = (st.host s).rc.rq) (hrcvd : a.rcvd = (st.host s).rc.rcvd)
    (hfilled : a.filled = (st.host s).rc.filled) (hacked : b.acked = (st.host s.other).rc.acked)
    (hposted : b.posted = (st.host s.other).rc.posted)
    (hclient : s = .server → b.mem .buf = (st.host .client).buf)
    (hserver : s = .client →
      (b.rq = [] → ∀ k, b.rcvd = k + 1 → (st.host .client).pings[k]? = some (b.mem .buf)) ∧
        ∀ c, (st.host .client).pings[b.rcvd]? = some c →
          (b.mem .buf).take b.filled = c.take b.filled)
    (hpackets : ∀ p ∈ wire, ∃ c, (st.host .client).pings[p.msn]? = some c ∧ p.Of c) :
    PingInv msgSize (st.setNet s (a, b, wire)) := by
  have hback := (hinv.link s.other).congr hacked hposted.ge
    (hrcvd.trans (congrArg (fun t => (st.host t).rc.rcvd) s.other_other.symm))
    (hfilled.trans (congrArg (fun t => (st.host t).rc.filled) s.other_other.symm))
  cases s with
  | client =>
    have hbuf : a.mem .buf = (st.host .client).buf := congrFun hmem .buf
    obtain ⟨hsbuf, hspart⟩ := hserver rfl
    refine ⟨?_, ?_, hinv.pings_length, hinv.pings_size, ?_, hsbuf, hspart, ?_⟩
    · intro t
      cases t
      · exact hhost
      · exact hpeer
    · intro t
      cases t
      · exact hlink
      · exact hback
    · change ∀ k, _ → _ = some (a.mem .buf)
      rw [hbuf]
      exact hinv.client_buf
    · intro t
      cases t
      · exact hpackets
      · exact hinv.packets .server
  | server =>
    refine ⟨?_, ?_, hinv.pings_length, hinv.pings_size, ?_, ?_, ?_, ?_⟩
    · intro t
      cases t
      · exact hpeer
      · exact hhost
    · intro t
      cases t
      · exact hback
      · exact hlink
    · change ∀ k, _ → _ = some (b.mem .buf)
      rw [hclient rfl]
      exact hinv.client_buf
    · change a.rq = [] → ∀ k, a.rcvd = k + 1 → _ = some (a.mem .buf)
      rw [hrq, hrcvd, hmem]
      exact hinv.server_buf
    · change ∀ c, (st.host .client).pings[a.rcvd]? = some c →
        (a.mem .buf).take a.filled = c.take a.filled
      rw [hrcvd, hmem, hfilled]
      exact hinv.server_part
    · intro t
      cases t
      · exact hinv.packets .client
      · exact hpackets

/-- A step of the connection that touches no buffer. -/
theorem of_net_quiet {a : RcEnd PingBuf} {wire : List RcPacket} (hinv : PingInv msgSize st)
    (hhost : PingHostInv msgSize s { st.host s with rc := a })
    (hlink : RcLinked a (st.host s.other).rc wire) (hmem : a.mem = (st.host s).rc.mem)
    (hrq : a.rq = (st.host s).rc.rq) (hrcvd : a.rcvd = (st.host s).rc.rcvd)
    (hfilled : a.filled = (st.host s).rc.filled)
    (hpackets : ∀ p ∈ wire, ∃ c, (st.host .client).pings[p.msn]? = some c ∧ p.Of c) :
    PingInv msgSize (st.setNet s (a, (st.host s.other).rc, wire)) := by
  refine hinv.of_net hhost (hinv.host s.other) hlink hmem hrq hrcvd hfilled rfl rfl ?_ ?_ hpackets
  · rintro rfl
    rfl
  · rintro rfl
    exact ⟨hinv.server_buf, hinv.server_part⟩

/-- **A packet arrives.** At the client it writes what the buffer holds already; at the
server it extends what has been received of its ping, and the last one completes
it. -/
theorem of_deliver {p : RcPacket} {wire : List RcPacket} (hinv : PingInv msgSize st)
    (hwire : st.wire s = p :: wire) :
    PingInv msgSize (st.setNet s ((st.host s).rc, (st.host s.other).rc.deliver p, wire)) := by
  obtain ⟨c, hc, hof⟩ := hinv.packets s p (hwire ▸ List.mem_cons_self)
  have hsize : c.length = msgSize := hinv.pings_size c (List.mem_of_getElem? hc)
  have hfits : ∀ wr ∈ (st.host s.other).rc.rq, wr.length = c.length :=
    fun wr hwr => ((hinv.host s.other).rq_size wr hwr).trans hsize.symm
  have hlink : RcLinked (st.host s).rc ((st.host s.other).rc.deliver p) wire :=
    RcLinked.deliver (hwire ▸ hinv.link s)
  have hcases := RcEnd.deliver_cases hfits hof
  refine hinv.of_net (hinv.host s) ((hinv.host s.other).deliver hof hsize) hlink rfl rfl rfl rfl
    ?_ ?_ ?_ ?_ fun q hq => hinv.packets s q (hwire ▸ List.mem_cons_of_mem p hq)
  · rcases hcases with heq | ⟨-, -, wr, rest, -, ⟨-, heq⟩ | heq⟩ <;> rw [heq] <;> rfl
  · rcases hcases with heq | ⟨-, -, wr, rest, -, ⟨-, heq⟩ | heq⟩ <;> rw [heq] <;> rfl
  · rintro rfl
    rcases hcases with heq | ⟨hmsn, -, wr, rest, hcons, hplace⟩
    · rw [heq]
      rfl
    · -- the reply is the ping the buffer holds
      have hrq : (st.host .client).rc.rq ≠ [] := fun hnil => List.cons_ne_nil wr rest (hcons ▸ hnil)
      have hcur := hinv.receiving hrq
      rw [hmsn] at hc
      obtain rfl : (st.host .client).buf = c := Option.some.inj (hcur.symm.trans hc)
      have hself : ((st.host .client).rc.place wr p).mem .buf = (st.host .client).buf :=
        congrArg (fun e => e.mem .buf) (RcEnd.place_self wr hof)
      rcases hplace with ⟨-, heq⟩ | heq <;> rw [heq] <;> exact hself
  · rintro rfl
    rcases hcases with heq | ⟨hmsn, hoff, wr, rest, hcons, hplace⟩
    · rw [heq]
      exact ⟨hinv.server_buf, hinv.server_part⟩
    · have hlen : (st.host .server).buf.length = c.length :=
        (hinv.host .server).size.trans hsize.symm
      have hhave : (st.host .server).buf.take p.off = c.take p.off := by
        rw [hoff]
        exact hinv.server_part c (hmsn ▸ hc)
      have hnow := RcEnd.take_place wr hof hlen hhave
      rw [hmsn] at hc
      rcases hplace with ⟨hlast, heq⟩ | heq <;> rw [heq]
      · -- the ping is complete
        refine ⟨fun _ k hk => ?_, fun _ _ => rfl⟩
        obtain rfl : (st.host .server).rc.rcvd = k := Nat.succ.inj hk
        have hfull := RcEnd.length_place wr hof hlen
        rw [hlast, ← hfull, List.take_length, hfull, List.take_length] at hnow
        exact hc.trans (congrArg some hnow.symm)
      · refine ⟨fun hnil => absurd (hcons.symm.trans hnil) (List.cons_ne_nil _ _), ?_⟩
        intro c' hc'
        obtain rfl : c = c' := Option.some.inj (hc.symm.trans hc')
        rw [hoff] at hnow
        exact hnow

/-- **The invariant is kept by every event of the connection** that fails no
request. -/
theorem net {ev : RcEvent} {r : RcEnd PingBuf × RcEnd PingBuf × List RcPacket}
    (hinv : PingInv msgSize st) (hok : ev.Ok)
    (hs : rcNext (st.host s).rc (st.host s.other).rc (st.wire s) ev = some r) :
    PingInv msgSize (st.setNet s r) := by
  have hlink : RcLinked r.1 r.2.1 r.2.2 := (hinv.link s).next hok hs
  cases ev with
  | transmit j off n =>
    obtain ⟨p, hp, rfl⟩ := Option.map_eq_some_iff.mp hs
    obtain ⟨wr, hwr, hmsn, hof⟩ := RcEnd.transmit_eq_some hp
    refine hinv.of_net_quiet (hinv.host s) hlink rfl rfl rfl rfl
      (List.forall_mem_append.mpr ⟨hinv.packets s, List.forall_mem_singleton.mpr ?_⟩)
    -- one send is outstanding at most, so what is sent is the ping of the turn
    obtain ⟨hj, -⟩ := List.getElem?_eq_some_iff.mp hwr
    have hone := (hinv.host s).outstanding.1
    have hsq : (st.host s).rc.sq ≠ [] := List.length_pos_iff.mp (by omega)
    have hmsn' : p.msn = (st.host s).i := by
      rw [hmsn, ((hinv.host s).of_sq hsq).1]
      omega
    have hwrlen := (hinv.host s).sq_size wr (List.mem_of_getElem? hwr)
    exact ⟨_, hmsn' ▸ hinv.sending hsq, hof (hwrlen.trans (hinv.host s).size.symm)⟩
  | lose =>
    cases hwire : st.wire s with
    | nil =>
      rw [hwire] at hs
      cases hs
    | cons p rest =>
      rw [hwire] at hs
      obtain rfl := Option.some.inj hs
      exact hinv.of_net_quiet (hinv.host s) hlink rfl rfl rfl rfl
        fun q hq => hinv.packets s q (hwire ▸ List.mem_cons_of_mem p hq)
  | deliver =>
    cases hwire : st.wire s with
    | nil =>
      rw [hwire] at hs
      cases hs
    | cons p rest =>
      rw [hwire] at hs
      obtain rfl := Option.some.inj hs
      exact hinv.of_deliver hwire
  | ack =>
    rw [rcNext] at hs
    split at hs
    · obtain ⟨a, ha, rfl⟩ := Option.map_eq_some_iff.mp hs
      have hhost := (hinv.host s).ack ha
      obtain ⟨wr, rest, -, rfl⟩ := RcEnd.ack_eq_some ha
      exact hinv.of_net_quiet hhost hlink rfl rfl rfl rfl (hinv.packets s)
    · cases hs
  | fail opcode status => exact hok.elim

/-- **The invariant is kept by every step.** -/
theorem step {l : PingStep} {st' : PingState} (hinv : PingInv msgSize st)
    (hok : PingNoFailure st l) (hs : pingSysNext numIters msgSize st l = some st') :
    PingInv msgSize st' := by
  cases l with
  | proc s l =>
    obtain ⟨h', hnext, rfl⟩ := Option.map_eq_some_iff.mp hs
    exact hinv.move (pingNext_move hok (hinv.host s).success hnext)
  | net s ev =>
    obtain ⟨r, hr, rfl⟩ := Option.map_eq_some_iff.mp hs
    exact hinv.net hok hr

theorem of_reach (h : (pingLts numIters msgSize).Reach PingNoFailure st) : PingInv msgSize st := by
  refine h.invariant ?_ fun a l b ha hok hs => ha.step hok hs
  rintro a rfl
  exact start msgSize

end PingInv

/-! ### The echo -/

theorem buf_of_pingPoll {s : Side} {h h' : PingHost} {ret : PollRet}
    (hs : pingPoll s h ret = some h') : h'.buf = h.buf := by
  unfold pingPoll at hs
  split at hs
  · cases hs
    rfl
  · cases hs
    rfl
  · cases hs
  · simp only at hs
    split at hs <;> cases hs <;> rfl

/-- The `snprintf` is the only step of a process that writes its buffer. -/
theorem buf_of_pingNext {numIters msgSize : ℕ} {s : Side} {h h' : PingHost} {l : PingLabel}
    (hpc : h.pc ≠ .snprintf) (hs : pingNext numIters msgSize s h l = some h') : h'.buf = h.buf := by
  unfold pingNext at hs
  split at hs
  · unfold pingCpu at hs
    split at hs
    · split at hs
      · cases s <;> cases hs <;> rfl
      · cases hs
        rfl
    · exact absurd ‹h.pc = .snprintf› hpc
    · cases hs
  · cases hs
    cases ‹Bool› <;> rfl
  · cases hs
    cases ‹Bool› <;> rfl
  · exact buf_of_pingPoll hs
  · exact buf_of_pingPoll hs
  · cases hs

/-- **Ping-pong is an echo.** In every run in which no call fails:
1. once the server has polled the receive of its turn `i`, its buffer holds, in full,
   what the buffer of the client held after the `i`-th `snprintf`;
2. at the end of its turn `i` the client has that in its buffer again;
3. each side has taken two completions for each turn it has ended, and none is left;
4. a process writes its buffer in the `snprintf` only, and then no request of its own
   is uncompleted;
5. one send, one receive and two completions are outstanding on a side at most. -/
theorem pingPong_echo (numIters msgSize : ℕ) (st : PingState)
    (h : (pingLts numIters msgSize).Reach PingNoFailure st) :
    (((st.host .server).pc = .postSend ∨ (st.host .server).pc = .pollSend) →
      (st.host .client).pings[(st.host .server).i]? = some (st.host .server).buf ∧
        (st.host .server).buf.length = msgSize) ∧
    (((st.host .client).pc = .loop ∨ (st.host .client).pc = .finished) →
      (st.host .client).pings.length = (st.host .client).i ∧
        ∀ i, (st.host .client).i = i + 1 →
          (st.host .client).pings[i]? = some (st.host .client).buf) ∧
    (∀ s, ((st.host s).pc = .loop ∨ (st.host s).pc = .finished) →
      (st.host s).polled = 2 * (st.host s).i ∧ (st.host s).rc.cq = []) ∧
    (∀ s, ((st.host s).pc = .snprintf → (st.host s).rc.sq = [] ∧ (st.host s).rc.rq = []) ∧
      ∀ l h', (st.host s).pc ≠ .snprintf →
        pingNext numIters msgSize s (st.host s) l = some h' → h'.buf = (st.host s).buf) ∧
    ∀ s, (st.host s).rc.sq.length ≤ 1 ∧ (st.host s).rc.rq.length ≤ 1 ∧
      (st.host s).rc.cq.length ≤ 2 := by
  have hinv := PingInv.of_reach h
  refine ⟨fun hpc => ⟨?_, (hinv.host .server).size⟩, fun hpc => ?_, fun s hpc => ?_,
    fun s => ⟨fun hpc => ?_, fun l h' hpc hs => buf_of_pingNext hpc hs⟩,
    fun s => (hinv.host s).outstanding⟩
  · have hgot : ((st.host .server).pc.count .server).got = 1 := by
      rcases hpc with hpc | hpc <;> rw [hpc] <;> rfl
    obtain ⟨hrq, hrcvd⟩ := (hinv.host .server).of_got hgot
    exact hinv.server_buf hrq _ hrcvd
  · have hlen : (st.host .client).pings.length = (st.host .client).i := by
      rw [hinv.pings_length]
      rcases hpc with hpc | hpc <;> rw [hpc] <;> rfl
    exact ⟨hlen, fun i hi => hinv.client_buf i (hlen.trans hi)⟩
  · have hcount : (st.host s).pc.count s = ⟨0, 0, 0, 0⟩ := by
      rcases hpc with hpc | hpc <;> rw [hpc] <;> cases s <;> rfl
    have hpolled := (hinv.host s).polled
    rw [hcount] at hpolled
    exact ⟨hpolled, ((hinv.host s).between hcount).2.2.1⟩
  · have hcount : (st.host s).pc.count s = ⟨0, 0, 0, 0⟩ := by
      rw [hpc]
      cases s <;> rfl
    obtain ⟨hsq, hrq, -, -⟩ := (hinv.host s).between hcount
    exact ⟨hsq, hrq⟩

/-! ### A run -/

/-- A turn with a lost packet, a receiver that is not ready, and the completion of the
reply before the one of the send. -/
def sampleTurn : List PingStep :=
  [.proc .client .cpu, .proc .client .cpu, .proc .client (.postReceive true),
    .proc .client (.postSend true),
    -- the server has not posted its receive, and the next packet is lost
    .net .client (.transmit 0 0 8), .net .client .deliver,
    .proc .server .cpu, .proc .server (.postReceive true),
    .net .client (.transmit 0 0 8), .net .client .lose,
    -- the ping arrives in two packets
    .net .client (.transmit 0 0 5), .net .client (.transmit 0 5 3),
    .net .client .deliver, .net .client .deliver,
    .proc .server (.poll .one), .proc .server (.postSend true),
    .net .server (.transmit 0 0 8), .net .server .deliver,
    .net .client .ack, .net .server .ack,
    .proc .server (.poll .empty), .proc .server (.poll .one),
    .proc .client (.poll .one), .proc .client (.poll .one)]

/-- Two turns of eight bytes: the text is cut to fit. -/
theorem pingPong_echo_sample : ∃ st, (pingLts 2 8).Reach PingNoFailure st ∧
    (st.host .client).i = 2 ∧ (st.host .client).buf = CString.ascii "ping-00" ++ [0] ∧
    (st.host .client).pings[1]? = some (st.host .client).buf ∧
    (st.host .server).polled = 2 * (st.host .server).i ∧ (st.host .server).rc.cq = [] := by
  have hrun : (Lts.exec (pingSysNext 2 8) PingNoFailure
      { host := fun _ => pingStart 8, wire := fun _ => [] } (sampleTurn ++ sampleTurn)).map
        (fun st => ((st.host .client).pc, (st.host .client).i, (st.host .client).buf,
          (st.host .server).pc)) =
      some (.loop, 2, CString.ascii "ping-00" ++ [0], .loop) := by
    decide +kernel
  obtain ⟨st, hst, hview⟩ := Option.map_eq_some_iff.mp hrun
  obtain ⟨hpc, hi, hbuf, hpc'⟩ : _ ∧ _ ∧ _ ∧ _ := by simpa using hview
  have hr : (pingLts 2 8).Reach PingNoFailure st := ⟨_, rfl, Lts.path_of_exec hst⟩
  obtain ⟨-, hclient, hpolled, -, -⟩ := pingPong_echo 2 8 st hr
  exact ⟨st, hr, hi, hbuf, (hclient (Or.inl hpc)).2 1 hi, hpolled .server (Or.inl hpc')⟩

end RdmaBook
