import RdmaBook.Ud.Program

/-!
# What a step of ud_send does

The moves of the two processes and of the device, each with the condition under which
it is made, and what follows for the sender alone: it has at most one send outstanding,
never touches its buffer while one is, and so every datagram it sends is the text of
one message with its null byte (`RdmaBook.UdSenderInv`).
-/

namespace RdmaBook

open CString Stream

/-! ### The moves -/

namespace UdState

variable (st : UdState)

/-- The sender goes to another place. -/
def setSendPc (pc : UdSendPc) : UdState := { st with sender := { st.sender with pc := pc } }

/-- The receiver goes to another place. -/
def setRecvPc (pc : UdRecvPc) : UdState := { st with receiver := { st.receiver with pc := pc } }

/-- The receiver posts a buffer. -/
def postReceive (b : ℕ) (pc : UdRecvPc) : UdState :=
  { st with receiver := st.receiver.postReceive (recvBuf b) b pc }

theorem wrote_self (s : Side) : st.wrote s true s = true := Function.update_self ..

theorem wrote_of_ne {s t : Side} (h : t ≠ s) (ok : Bool) : st.wrote s ok t = st.synced t := by
  rw [wrote]
  split
  · exact Function.update_of_ne h ..
  · rfl

end UdState

/-- **The moves of the system.** -/
inductive UdMove (A : UdArgs) (st : UdState) : UdLabel → UdState → Prop
  -- the sender
  | writeSend (ok : Bool) (hpc : st.sender.pc = .syncWrite) :
      UdMove A st (.call .client ok) { st.setSendPc .syncRead with synced := st.wrote .client ok }
  | readSend (ok : Bool) (hpc : st.sender.pc = .syncRead)
      (hsync : ok = true → st.synced .server = true) :
      UdMove A st (.call .client ok) (st.setSendPc .createAh)
  | createAh (hpc : st.sender.pc = .createAh) :
      UdMove A st (.call .client true) (st.setSendPc (UdSender.loopTest (A.numMsgs .client) 0))
  | format (i : ℕ) (hpc : st.sender.pc = .format i) :
      UdMove A st (.cpu .client) { st with sender := { st.sender with
        sendBuf := snprintf st.sender.sendBuf maxMsgSize (udText i)
        pc := .post i (strlen (snprintf st.sender.sendBuf maxMsgSize (udText i)) 0 + 1) } }
  | postSend (i len : ℕ) (hpc : st.sender.pc = .post i len) :
      UdMove A st (.call .client true) { st with sender := { st.sender with
        sq := st.sender.sq ++ [⟨i, len⟩], pc := .poll i } }
  | pollSend (i : ℕ) (cq : List WcStatus) (hpc : st.sender.pc = .poll i)
      (hcq : st.sender.cq = .success :: cq) :
      UdMove A st (.poll .client .one) { st with sender := { st.sender with
        cq := cq, pc := UdSender.loopTest (A.numMsgs .client) (i + 1) } }
  /-- A call fails, or a send has failed. -/
  | exitSend (l : UdLabel) (cq : List WcStatus)
      (hl : l = .call .client false ∨ l = .poll .client .failed ∨
        ∃ status ∈ st.sender.cq, status ≠ .success) :
      UdMove A st l { st with sender := { st.sender with cq := cq, pc := .exited } }
  | transmit (wr : UdSendWr) (sq : List UdSendWr) (hsq : st.sender.sq = wr :: sq) :
      UdMove A st .transmit { st with
        sender := { st.sender with sq := sq, cq := st.sender.cq ++ [.success] }
        sent := st.sent ++ [st.sender.sendBuf.take wr.length] }
  | sendError (status : WcStatus) (wr : UdSendWr) (sq : List UdSendWr)
      (hsq : st.sender.sq = wr :: sq) (hstatus : status ≠ .success) :
      UdMove A st (.sendError status) { st with
        sender := { st.sender with sq := sq, cq := st.sender.cq ++ [status] } }
  -- the receiver
  | writeRecv (ok : Bool) (hpc : st.receiver.pc = .syncWrite) :
      UdMove A st (.call .server ok) { st.setRecvPc .syncRead with synced := st.wrote .server ok }
  | readRecv (ok : Bool) (hpc : st.receiver.pc = .syncRead)
      (hsync : ok = true → st.synced .client = true) :
      UdMove A st (.call .server ok) (st.setRecvPc (.prePost 0))
  | prePost (i : ℕ) (hpc : st.receiver.pc = .prePost i) :
      UdMove A st (.call .server true)
        (st.postReceive i (if i + 1 < numRecvBufs then .prePost (i + 1)
        else UdReceiver.loopTest (A.numMsgs .server) 0))
  | repost (i b : ℕ) (hpc : st.receiver.pc = .repost i b) :
      UdMove A st (.call .server true)
        (st.postReceive b (UdReceiver.loopTest (A.numMsgs .server) (i + 1)))
  | print (i : ℕ) (wc : UdWc) (hpc : st.receiver.pc = .print i wc) :
      UdMove A st (.cpu .server) { st with receiver := st.receiver.printLine i wc }
  | pollRecv (i : ℕ) (wc : UdWc) (cq : List UdWc) (hpc : st.receiver.pc = .poll i)
      (hcq : st.receiver.cq = wc :: cq) (hstatus : wc.status = .success) :
      UdMove A st (.poll .server .one) { st with receiver := { st.receiver with
        cq := cq, pc := .print i wc } }
  /-- A call fails, or a receive has failed. -/
  | exitRecv (l : UdLabel) (cq : List UdWc)
      (hl : l = .call .server false ∨ l = .poll .server .failed ∨
        ∃ wc ∈ st.receiver.cq, wc.status ≠ .success) :
      UdMove A st l { st with receiver := { st.receiver with cq := cq, pc := .exited } }
  | recvError (j : ℕ) (status : WcStatus) (wr : RecvWr) (hwr : st.receiver.rq[j]? = some wr)
      (hstatus : status ≠ .success) :
      UdMove A st (.recvError j status) { st with receiver := { st.receiver with
        rq := st.receiver.rq.eraseIdx j
        cq := st.receiver.cq ++ [⟨wr.wrId, status, 0, []⟩] } }
  -- the fabric
  | drop (n j : ℕ) (grh : Grh) (payload : List UInt8) (hn : st.sent[n]? = some payload)
      (hrq : st.receiver.rq = []) :
      UdMove A st (.deliver n j grh) { st with
        arrived := st.arrived + 1, dropped := st.dropped + 1 }
  | receive (n j : ℕ) (grh : Grh) (payload : List UInt8) (wr : RecvWr)
      (hn : st.sent[n]? = some payload) (hwr : st.receiver.rq[j]? = some wr) :
      UdMove A st (.deliver n j grh) { st with
        receiver := st.receiver.receive wr (st.receiver.rq.eraseIdx j) grh payload
        arrived := st.arrived + 1 }
  /-- A call of `ibv_poll_cq` finds nothing. -/
  | idle (s : Side) : UdMove A st (.poll s .empty) st

section Moves

variable {A : UdArgs} {st st' : UdState}

theorem UdState.callSender_move {ok : Bool} (hs : st.callSender A ok = some st') :
    UdMove A st (.call .client ok) st' := by
  unfold UdState.callSender at hs
  split at hs
  · rename_i hpc
    exact Option.some.inj hs ▸ .writeSend ok hpc
  · rename_i hpc
    split at hs
    · rename_i hsync
      exact Option.some.inj hs ▸ .readSend ok hpc hsync
    · cases hs
  · obtain ⟨s, hcall, rfl⟩ := Option.map_eq_some_iff.mp hs
    unfold UdSender.call at hcall
    split at hcall
    · rename_i hpc
      obtain rfl := Option.some.inj hcall
      cases ok
      · exact .exitSend _ st.sender.cq (Or.inl rfl)
      · exact .createAh hpc
    · rename_i i len hpc
      obtain rfl := Option.some.inj hcall
      cases ok
      · exact .exitSend _ st.sender.cq (Or.inl rfl)
      · exact .postSend i len hpc
    · cases hcall

theorem UdState.pollSender_move {ret : PollRet} {s : UdSender}
    (hs : st.sender.poll (A.numMsgs .client) ret = some s) :
    UdMove A st (.poll .client ret) { st with sender := s } := by
  unfold UdSender.poll at hs
  split at hs
  · rename_i i hpc
    split at hs
    · exact Option.some.inj hs ▸ .exitSend _ st.sender.cq (Or.inr (Or.inl rfl))
    · split at hs
      · exact Option.some.inj hs ▸ .idle .client
      · cases hs
    · split at hs
      · cases hs
      · rename_i status cq hcq
        obtain rfl := Option.some.inj hs
        by_cases hstatus : status = .success
        · subst hstatus
          exact .pollSend i cq hpc hcq
        · rw [if_neg hstatus]
          exact .exitSend _ cq (Or.inr (Or.inr ⟨status, hcq ▸ List.mem_cons_self, hstatus⟩))
  · cases hs

theorem UdState.callReceiver_move {ok : Bool} (hs : st.callReceiver A ok = some st') :
    UdMove A st (.call .server ok) st' := by
  unfold UdState.callReceiver at hs
  split at hs
  · rename_i hpc
    exact Option.some.inj hs ▸ .writeRecv ok hpc
  · rename_i hpc
    split at hs
    · rename_i hsync
      exact Option.some.inj hs ▸ .readRecv ok hpc hsync
    · cases hs
  · obtain ⟨r, hcall, rfl⟩ := Option.map_eq_some_iff.mp hs
    unfold UdReceiver.call at hcall
    split at hcall
    · rename_i i hpc
      obtain rfl := Option.some.inj hcall
      cases ok
      · exact .exitRecv _ st.receiver.cq (Or.inl rfl)
      · exact .prePost i hpc
    · rename_i i b hpc
      obtain rfl := Option.some.inj hcall
      cases ok
      · exact .exitRecv _ st.receiver.cq (Or.inl rfl)
      · exact .repost i b hpc
    · cases hcall

theorem UdState.pollReceiver_move {ret : PollRet} {r : UdReceiver}
    (hs : st.receiver.poll ret = some r) :
    UdMove A st (.poll .server ret) { st with receiver := r } := by
  unfold UdReceiver.poll at hs
  split at hs
  · rename_i i hpc
    split at hs
    · exact Option.some.inj hs ▸ .exitRecv _ st.receiver.cq (Or.inr (Or.inl rfl))
    · split at hs
      · exact Option.some.inj hs ▸ .idle .server
      · cases hs
    · split at hs
      · cases hs
      · rename_i wc cq hcq
        obtain rfl := Option.some.inj hs
        by_cases hstatus : wc.status = .success
        · rw [if_pos hstatus]
          exact .pollRecv i wc cq hpc hcq hstatus
        · rw [if_neg hstatus]
          exact .exitRecv _ cq (Or.inr (Or.inr ⟨wc, hcq ▸ List.mem_cons_self, hstatus⟩))
  · cases hs

/-- **Every step is one of the moves.** -/
theorem UdState.next_move {l : UdLabel} (hs : st.next A l = some st') : UdMove A st l st' := by
  unfold UdState.next at hs
  split at hs
  · obtain ⟨s, hcpu, rfl⟩ := Option.map_eq_some_iff.mp hs
    unfold UdSender.cpu at hcpu
    split at hcpu
    · rename_i i hpc
      exact Option.some.inj hcpu ▸ .format i hpc
    · cases hcpu
  · unfold UdState.cpuReceiver at hs
    split at hs
    · rename_i i wc hpc
      exact Option.some.inj hs ▸ .print i wc hpc
    · cases hs
  · exact UdState.callSender_move hs
  · exact UdState.callReceiver_move hs
  · obtain ⟨s, hpoll, rfl⟩ := Option.map_eq_some_iff.mp hs
    exact UdState.pollSender_move hpoll
  · obtain ⟨r, hpoll, rfl⟩ := Option.map_eq_some_iff.mp hs
    exact UdState.pollReceiver_move hpoll
  · unfold UdState.transmit at hs
    split at hs
    · cases hs
    · rename_i wr sq hsq
      exact Option.some.inj hs ▸ .transmit wr sq hsq
  · unfold UdState.sendError at hs
    split at hs
    · cases hs
    · rename_i wr sq hsq
      split at hs
      · cases hs
      · rename_i hstatus
        exact Option.some.inj hs ▸ .sendError _ wr sq hsq hstatus
  · obtain ⟨payload, hn, hs⟩ := Option.bind_eq_some_iff.mp hs
    split at hs
    · rename_i hrq
      exact Option.some.inj hs ▸ .drop _ _ _ payload hn hrq
    · obtain ⟨wr, hwr, rfl⟩ := Option.map_eq_some_iff.mp hs
      exact .receive _ _ _ payload wr hn hwr
  · unfold UdState.recvError at hs
    split at hs
    · cases hs
    · rename_i hstatus
      obtain ⟨wr, hwr, rfl⟩ := Option.map_eq_some_iff.mp hs
      exact .recvError _ _ wr hwr hstatus

end Moves

/-! ### The text of a datagram -/

/-- A datagram of the sender: the text of one of its messages with the null byte. -/
def UdDatagram (d : List UInt8) : Prop := ∃ i < 2 ^ 31, d = udText i ++ [0]

theorem zero_notMem_udText (i : ℕ) : (0 : UInt8) ∉ udText i := by
  rw [udText, List.mem_append, List.mem_append]
  rintro ((h | h) | h)
  · exact absurd h (by decide)
  · exact zero_notMem_decimal h
  · exact absurd h (by decide)

/-- The text of a message is far shorter than the buffer. -/
theorem length_udText_le {i : ℕ} (h : i < 2 ^ 31) : (udText i).length ≤ 35 := by
  have hprefix : (ascii "UD datagram #").length = 13 := by decide
  have hsuffix : (ascii " from sender").length = 12 := by decide
  have hdigits : (decimal 0 i).length ≤ 10 := length_decimal_le (by decide) (by omega)
  rw [udText, List.length_append, List.length_append]
  omega

/-- A datagram fits into the buffers on both sides. -/
theorem UdDatagram.length_le {d : List UInt8} (h : UdDatagram d) : d.length ≤ maxMsgSize := by
  obtain ⟨i, hi, rfl⟩ := h
  have hle := length_udText_le hi
  have hmax : maxMsgSize = 256 := rfl
  rw [List.length_append, List.length_singleton]
  omega

/-- **What the sender formats is a datagram**, and `strlen` finds its end. -/
theorem udDatagram_format {buf : List UInt8} {i : ℕ} (hi : i < 2 ^ 31) :
    UdDatagram ((snprintf buf maxMsgSize (udText i)).take
      (strlen (snprintf buf maxMsgSize (udText i)) 0 + 1)) := by
  have hlt : (udText i).length < maxMsgSize := (length_udText_le hi).trans_lt (by decide)
  have htake : (snprintf buf maxMsgSize (udText i)).take (udText i ++ [0]).length =
      udText i ++ [0] := by
    rw [snprintf_of_lt hlt, take_overlay_zero]
  have hstr : strlen (snprintf buf maxMsgSize (udText i)) 0 = (udText i).length := by
    rw [strlen, str_of_prefix (zero_notMem_udText i) (htake ▸ List.take_prefix _ _)]
  rw [List.length_append, List.length_singleton] at htake
  exact ⟨i, hi, by rw [hstr, htake]⟩

/-! ### The sender -/

/-- **What the sender has outstanding**, by its place: nothing while it touches its
buffer, and one request or one completion while it waits. -/
def UdSender.PlaceOk (n : ℤ) (sent : ℕ) (s : UdSender) : UdSendPc → Prop
  | .syncWrite | .syncRead | .createAh => s.sq = [] ∧ s.cq = [] ∧ sent = 0
  | .format i => s.sq = [] ∧ s.cq = [] ∧ sent = i ∧ (i : ℤ) < n
  | .post i len => s.sq = [] ∧ s.cq = [] ∧ sent = i ∧ (i : ℤ) < n ∧ UdDatagram (s.sendBuf.take len)
  | .poll i => (i : ℤ) < n ∧ (s.sq.length = 1 ∧ s.cq = [] ∧ sent = i ∨
      s.sq = [] ∧ s.cq = [.success] ∧ sent = i + 1 ∨
      s.sq = [] ∧ ∃ status, status ≠ .success ∧ s.cq = [status])
  | .done => s.sq = [] ∧ s.cq = [] ∧ sent = n.toNat
  | .exited => True

/-- **The invariant of the sender.** -/
structure UdSenderInv (A : UdArgs) (st : UdState) : Prop where
  place : st.sender.PlaceOk (A.numMsgs .client) st.sent.length st.sender.pc
  outstanding : ∀ wr ∈ st.sender.sq, UdDatagram (st.sender.sendBuf.take wr.length)
  sent : ∀ d ∈ st.sent, UdDatagram d

namespace UdSenderInv

variable {A : UdArgs} {st st' : UdState}

theorem start : UdSenderInv A udStart where
  place := ⟨rfl, rfl, rfl⟩
  outstanding := fun _ h => absurd h List.not_mem_nil
  sent := fun _ h => absurd h List.not_mem_nil

theorem at_place {pc : UdSendPc} (h : UdSenderInv A st) (hpc : st.sender.pc = pc) :
    st.sender.PlaceOk (A.numMsgs .client) st.sent.length pc :=
  hpc ▸ h.place

/-- Behind the test of the loop. -/
theorem placeOk_loopTest {n : ℤ} {s : UdSender} {i : ℕ} (hsq : s.sq = []) (hcq : s.cq = [])
    (hi : i = 0 ∨ (i : ℤ) ≤ n) : s.PlaceOk n i (UdSender.loopTest n i) := by
  rw [UdSender.loopTest]
  split
  · rename_i hlt
    exact ⟨hsq, hcq, rfl, hlt⟩
  · exact ⟨hsq, hcq, by omega⟩

/-- The receiver and the fabric leave the sender alone. -/
theorem congr (h : UdSenderInv A st) (hs : st'.sender = st.sender) (hsent : st'.sent = st.sent) :
    UdSenderInv A st' where
  place := by
    rw [hs, hsent]
    exact h.place
  outstanding := by
    rw [hs]
    exact h.outstanding
  sent := by
    rw [hsent]
    exact h.sent

/-- A step of the program: nothing is sent. -/
theorem program (h : UdSenderInv A st) (hsent : st'.sent = st.sent)
    (hplace : st'.sender.PlaceOk (A.numMsgs .client) st.sent.length st'.sender.pc)
    (hout : ∀ wr ∈ st'.sender.sq, UdDatagram (st'.sender.sendBuf.take wr.length)) :
    UdSenderInv A st' where
  place := by
    rw [hsent]
    exact hplace
  outstanding := hout
  sent := by
    rw [hsent]
    exact h.sent

/-- Where a request is outstanding, the sender waits for it, or has given up. -/
theorem waiting (h : UdSenderInv A st) {wr : UdSendWr} {sq : List UdSendWr}
    (hsq : st.sender.sq = wr :: sq) :
    st.sender.pc = .exited ∨ ∃ i : ℕ, st.sender.pc = .poll i ∧ (i : ℤ) < A.numMsgs .client ∧
    sq = [] ∧
      st.sender.cq = [] ∧ st.sent.length = i := by
  have hne : st.sender.sq ≠ [] := hsq ▸ List.cons_ne_nil _ _
  cases hpc : st.sender.pc with
  | syncWrite | syncRead | createAh | format i | post i len | done =>
    exact absurd (h.at_place hpc).1 hne
  | poll i =>
    obtain ⟨hi, ⟨hlen, hcq, hsent⟩ | ⟨hnil, -⟩ | ⟨hnil, -⟩⟩ := h.at_place hpc
    · rw [hsq, List.length_cons, Nat.succ_inj, List.length_eq_zero_iff] at hlen
      exact Or.inr ⟨i, rfl, hi, hlen, hcq, hsent⟩
    · exact absurd hnil hne
    · exact absurd hnil hne
  | exited => exact Or.inl rfl

theorem move {l : UdLabel} (h : UdSenderInv A st) (hm : UdMove A st l st') : UdSenderInv A st' := by
  cases hm with
  | writeSend ok hpc | readSend ok hpc => exact h.program rfl (h.at_place hpc) h.outstanding
  | createAh hpc =>
    obtain ⟨hsq, hcq, hsent⟩ := h.at_place hpc
    refine h.program rfl ?_ h.outstanding
    rw [hsent]
    exact placeOk_loopTest hsq hcq (Or.inl rfl)
  | format i hpc =>
    obtain ⟨hsq, hcq, hsent, hi⟩ := h.at_place hpc
    have hlt := A.numMsgs_lt .client
    refine h.program rfl ⟨hsq, hcq, hsent, hi, udDatagram_format (by omega)⟩ ?_
    rw [hsq]
    exact fun _ hwr => absurd hwr List.not_mem_nil
  | postSend i len hpc =>
    obtain ⟨hsq, hcq, hsent, hi, hdata⟩ := h.at_place hpc
    refine h.program rfl ⟨hi, Or.inl ⟨?_, hcq, hsent⟩⟩ fun wr hwr => ?_
    · rw [hsq]
      rfl
    · rw [hsq, List.nil_append, List.mem_singleton] at hwr
      subst hwr
      exact hdata
  | pollSend i cq hpc hcq =>
    obtain ⟨hi, ⟨-, hnil, -⟩ | ⟨hsq, hone, hsent⟩ | ⟨-, status, hstatus, hone⟩⟩ := h.at_place hpc
    · exact absurd (hcq.symm.trans hnil) (List.cons_ne_nil _ _)
    · obtain ⟨-, rfl⟩ := List.cons.inj (hcq.symm.trans hone)
      refine h.program rfl ?_ h.outstanding
      rw [hsent]
      exact placeOk_loopTest hsq rfl (Or.inr (by omega))
    · exact absurd (List.cons.inj (hcq.symm.trans hone)).1.symm hstatus
  | exitSend l cq hl => exact h.program rfl trivial h.outstanding
  | transmit wr sq hsq =>
    have hdata := h.outstanding wr (hsq ▸ List.mem_cons_self)
    refine ⟨?_, fun x hx => h.outstanding x (hsq ▸ List.mem_cons_of_mem _ hx), ?_⟩
    · rcases h.waiting hsq with hpc | ⟨i, hpc, hi, hnil, hcq, hsent⟩
      · simp only [hpc, UdSender.PlaceOk]
      · simp only [hpc, UdSender.PlaceOk, hnil, hcq, List.length_append, hsent]
        exact ⟨hi, Or.inr (Or.inl ⟨trivial, rfl, rfl⟩)⟩
    · exact List.forall_mem_append.mpr ⟨h.sent, List.forall_mem_singleton.mpr hdata⟩
  | sendError status wr sq hsq hstatus =>
    refine h.program rfl ?_ fun x hx => h.outstanding x (hsq ▸ List.mem_cons_of_mem _ hx)
    rcases h.waiting hsq with hpc | ⟨i, hpc, hi, hnil, hcq, -⟩
    · simp only [hpc, UdSender.PlaceOk]
    · simp only [hpc, UdSender.PlaceOk, hnil, hcq, List.nil_append]
      exact ⟨hi, Or.inr (Or.inr ⟨trivial, status, hstatus, rfl⟩)⟩
  | writeRecv | readRecv | prePost | repost | print | pollRecv | exitRecv | recvError | drop
  | receive | idle =>
    exact h.congr rfl rfl

theorem of_reach {ok : UdState → UdLabel → Prop} (h : (udLts A).Reach ok st) :
    UdSenderInv A st := by
  refine h.invariant ?_ fun a l b ha _ hs => ha.move (UdState.next_move hs)
  rintro a rfl
  exact start

end UdSenderInv

end RdmaBook
