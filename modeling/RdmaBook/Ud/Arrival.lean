import RdmaBook.Ud.Moves

/-!
# Does every datagram find a posted receive

The receiver posts its buffers behind the synchronization, and the sender does not wait
for anything but its own completions. So whether a datagram finds a buffer depends on
the order of the two. Where every datagram reaches the queue pair after the receiver has
posted for it, that is, once more receives have been posted than datagrams have come
before (`RdmaBook.UdInTime`), none is dropped, and the receiver gets to its end
(`RdmaBook.ud_delivers`). Nothing in the program brings this about: the sender can be
ahead of the very first receive (`RdmaBook.ud_drops`).
-/

namespace RdmaBook

/-! ### The conditions -/

/-- **No call fails, and the fabric is faithful**: the datagrams reach the receiver once
each, in the order in which they have been sent. -/
def UdFaithful (st : UdState) : UdLabel → Prop
  | .call _ ok => ok = true
  | .poll _ ret => ret ≠ .failed
  | .sendError _ => False
  | .recvError _ _ => False
  | .deliver n _ _ => n = st.arrived
  | _ => True

instance (st : UdState) : DecidablePred (UdFaithful st) := fun l => by
  cases l <;> unfold UdFaithful <;> infer_instance

/-- What the receiver has done at a place: the receives it has posted, the completions it
has polled, and the lines it has printed. -/
structure UdCount where
  posted : ℕ
  polled : ℕ
  printed : ℕ

/-- The count of a place; the messages are `n`. -/
def UdRecvPc.count (n : ℤ) : UdRecvPc → UdCount
  | .syncWrite => ⟨0, 0, 0⟩
  | .syncRead => ⟨0, 0, 0⟩
  | .prePost i => ⟨i, 0, 0⟩
  | .poll i => ⟨numRecvBufs + i, i, i⟩
  | .print i _ => ⟨numRecvBufs + i, i + 1, i⟩
  | .repost i _ => ⟨numRecvBufs + i, i + 1, i + 1⟩
  | .done => ⟨numRecvBufs + n.toNat, n.toNat, n.toNat⟩
  | .exited => ⟨0, 0, 0⟩

/-- **In time**: a datagram reaches the receiver when the place of the receiver is behind
more posts than datagrams have come before. -/
def UdInTime (A : UdArgs) (st : UdState) : UdLabel → Prop
  | .deliver _ _ _ => st.arrived < (st.receiver.pc.count (A.numMsgs .server)).posted
  | _ => True

instance (A : UdArgs) (st : UdState) : DecidablePred (UdInTime A st) := fun l => by
  cases l <;> unfold UdInTime <;> infer_instance

/-- Both conditions. -/
def UdTimely (A : UdArgs) (st : UdState) (l : UdLabel) : Prop := UdFaithful st l ∧ UdInTime A st l

instance (A : UdArgs) (st : UdState) : DecidablePred (UdTimely A st) := fun l => by
  unfold UdTimely
  infer_instance

/-! ### The account -/

/-- The counter of a loop is below its end. -/
def UdRecvPc.Bounded (n : ℤ) : UdRecvPc → Prop
  | .prePost i => i < numRecvBufs
  | .poll i => (i : ℤ) < n
  | .print i _ => (i : ℤ) < n
  | .repost i _ => (i : ℤ) < n
  | _ => True

theorem UdReceiver.count_loopTest {n : ℤ} {i : ℕ} (hi : i = 0 ∨ (i : ℤ) ≤ n) :
    (UdReceiver.loopTest n i).count n = ⟨numRecvBufs + i, i, i⟩ := by
  rw [UdReceiver.loopTest]
  split
  · rfl
  · rename_i hlt
    have heq : n.toNat = i := by omega
    rw [UdRecvPc.count, heq]

theorem UdReceiver.bounded_loopTest (n : ℤ) (i : ℕ) : (UdReceiver.loopTest n i).Bounded n := by
  rw [UdReceiver.loopTest]
  split
  · assumption
  · trivial

theorem UdReceiver.loopTest_ne (n : ℤ) (i : ℕ) :
    UdReceiver.loopTest n i ≠ .exited ∧ UdReceiver.loopTest n i ≠ .syncWrite := by
  rw [UdReceiver.loopTest]
  split <;> exact ⟨nofun, nofun⟩

/-- **Where the receiver stands behind one of its first posts**, which is the last or not. -/
theorem UdReceiver.prePost_next {n : ℤ} {i : ℕ} (hi : i < numRecvBufs) {pc : UdRecvPc}
    (hpc : pc = if i + 1 < numRecvBufs then .prePost (i + 1) else UdReceiver.loopTest n 0) :
    (pc ≠ .exited ∧ pc ≠ .syncWrite) ∧ pc.Bounded n ∧ pc.count n = ⟨i + 1, 0, 0⟩ := by
  subst hpc
  split
  · rename_i hlt
    exact ⟨⟨nofun, nofun⟩, hlt, rfl⟩
  · rename_i hge
    have hlast : i + 1 = numRecvBufs := Nat.le_antisymm hi (Nat.not_lt.mp hge)
    refine ⟨UdReceiver.loopTest_ne n 0, UdReceiver.bounded_loopTest n 0, ?_⟩
    rw [UdReceiver.count_loopTest (Or.inl rfl), hlast]
    rfl

/-- **The account of the receiver**: what has been posted has been taken by a datagram or
is there, and every datagram that has come has been polled or is to be polled. -/
structure UdFlow (A : UdArgs) (st : UdState) : Prop where
  alive : st.sender.pc ≠ .exited ∧ st.receiver.pc ≠ .exited
  statuses : (∀ status ∈ st.sender.cq, status = .success) ∧ ∀ wc ∈ st.receiver.cq,
    wc.status = .success
  fits : ∀ wr ∈ st.receiver.rq, wr.length = udBufSize
  bounded : st.receiver.pc.Bounded (A.numMsgs .server)
  dropped : st.dropped = 0
  posted : (st.receiver.pc.count (A.numMsgs .server)).posted = st.arrived + st.receiver.rq.length
  polled : (st.receiver.pc.count (A.numMsgs .server)).polled + st.receiver.cq.length = st.arrived
  printed : (st.receiver.pc.count (A.numMsgs .server)).printed = st.receiver.lines.length
  arrived : st.arrived ≤ st.sent.length
  synced : (st.sender.pc ≠ .syncWrite → st.synced .client = true) ∧
    (st.receiver.pc ≠ .syncWrite → st.synced .server = true)

namespace UdFlow

variable {A : UdArgs} {st st' : UdState}

theorem start : UdFlow A udStart where
  alive := ⟨nofun, nofun⟩
  statuses := ⟨fun _ h => absurd h List.not_mem_nil, fun _ h => absurd h List.not_mem_nil⟩
  fits := fun _ h => absurd h List.not_mem_nil
  bounded := trivial
  dropped := rfl
  posted := rfl
  polled := rfl
  printed := rfl
  arrived := le_rfl
  synced := ⟨fun h => absurd rfl h, fun h => absurd rfl h⟩

/-- A step of the sender. -/
theorem sending (h : UdFlow A st) (hr : st'.receiver = st.receiver) (ha : st'.arrived = st.arrived)
    (hd : st'.dropped = st.dropped) (hpc : st'.sender.pc ≠ .exited)
    (hcq : ∀ status ∈ st'.sender.cq, status = .success) (hsent : st.sent.length ≤ st'.sent.length)
    (hsync : (st'.sender.pc ≠ .syncWrite → st'.synced .client = true) ∧
      st'.synced .server = st.synced .server) : UdFlow A st' where
  alive := ⟨hpc, hr ▸ h.alive.2⟩
  statuses := ⟨hcq, hr ▸ h.statuses.2⟩
  fits := hr ▸ h.fits
  bounded := hr ▸ h.bounded
  dropped := hd.trans h.dropped
  posted := by
    rw [hr, ha]
    exact h.posted
  polled := by
    rw [hr, ha]
    exact h.polled
  printed := hr ▸ h.printed
  arrived := ha ▸ h.arrived.trans hsent
  synced := by
    rw [hr, hsync.2]
    exact ⟨hsync.1, h.synced.2⟩

/-- A step of the receiver's program, which posts or polls `(m, k)` of its queues. -/
theorem receiving (h : UdFlow A st) {r : UdReceiver} (hst : st' = { st with receiver := r })
    (hpc : r.pc ≠ .exited) (hsync : r.pc ≠ .syncWrite ∧ st.receiver.pc ≠ .syncWrite)
    (hcq : ∀ wc ∈ r.cq, wc ∈ st.receiver.cq) (hfits : ∀ wr ∈ r.rq, wr.length = udBufSize)
    (hb : r.pc.Bounded (A.numMsgs .server))
    (hposted : (r.pc.count (A.numMsgs .server)).posted = st.arrived + r.rq.length)
    (hpolled : (r.pc.count (A.numMsgs .server)).polled + r.cq.length = st.arrived)
    (hprinted : (r.pc.count (A.numMsgs .server)).printed = r.lines.length) : UdFlow A st' := by
  subst hst
  exact {
    alive := ⟨h.alive.1, hpc⟩
    statuses := ⟨h.statuses.1, fun wc hwc => h.statuses.2 wc (hcq wc hwc)⟩
    fits := hfits
    bounded := hb
    dropped := h.dropped
    posted := hposted
    polled := hpolled
    printed := hprinted
    arrived := h.arrived
    synced := ⟨h.synced.1, fun _ => h.synced.2 hsync.2⟩ }

/-- **A datagram in time is received.** -/
theorem receive (h : UdFlow A st) (hs : UdSenderInv A st) {n j : ℕ} {grh : Grh}
    {payload : List UInt8}
    {wr : RecvWr} (hn : st.sent[n]? = some payload) (hwr : st.receiver.rq[j]? = some wr)
    (hok : n = st.arrived) : UdFlow A { st with
      receiver := st.receiver.receive wr (st.receiver.rq.eraseIdx j) grh payload
      arrived := st.arrived + 1 } := by
  obtain ⟨hjlt, hj⟩ := List.getElem?_eq_some_iff.mp hwr
  have hnlt := (List.getElem?_eq_some_iff.mp hn).1
  have hfit : grhSize + payload.length ≤ wr.length := by
    rw [h.fits wr (List.mem_of_getElem? hwr)]
    exact Nat.add_le_add_left (hs.sent payload (List.mem_of_getElem? hn)).length_le _
  have hposted := h.posted
  have hpolled := h.polled
  rw [UdReceiver.receive, if_pos hfit]
  exact {
    alive := h.alive
    statuses := ⟨h.statuses.1, List.forall_mem_append.mpr
      ⟨h.statuses.2, List.forall_mem_singleton.mpr rfl⟩⟩
    fits := fun x hx => h.fits x (List.mem_of_mem_eraseIdx hx)
    bounded := h.bounded
    dropped := h.dropped
    posted := by
      change (st.receiver.pc.count _).posted = st.arrived + 1 + (st.receiver.rq.eraseIdx j).length
      rw [hposted, List.length_eraseIdx_of_lt hjlt]
      omega
    polled := by
      change (st.receiver.pc.count _).polled + (st.receiver.cq ++ [_]).length = st.arrived + 1
      rw [List.length_append, List.length_singleton, ← hpolled, Nat.add_assoc]
    printed := h.printed
    arrived := hok ▸ hnlt
    synced := h.synced }

theorem move {l : UdLabel} (h : UdFlow A st) (hs : UdSenderInv A st) (hok : UdTimely A st l)
    (hm : UdMove A st l st') : UdFlow A st' := by
  have hposted := h.posted
  have hpolled := h.polled
  have hprinted := h.printed
  have hfits : ∀ b, ∀ wr ∈ st.receiver.rq ++ [(⟨b, recvBuf b, udBufSize⟩ : RecvWr)],
      wr.length = udBufSize :=
    fun b => List.forall_mem_append.mpr ⟨h.fits, List.forall_mem_singleton.mpr rfl⟩
  cases hm with
  | writeSend ok hpc =>
    obtain rfl : ok = true := hok.1
    exact h.sending rfl rfl rfl (by rintro ⟨⟩) h.statuses.1 le_rfl
      ⟨fun _ => st.wrote_self .client, st.wrote_of_ne (show Side.server ≠ .client by decide) true⟩
  | readSend ok hpc =>
    exact h.sending rfl rfl rfl (by rintro ⟨⟩) h.statuses.1 le_rfl
      ⟨fun _ => h.synced.1 (by rw [hpc]; rintro ⟨⟩), rfl⟩
  | createAh hpc =>
    refine h.sending rfl rfl rfl ?_ h.statuses.1 le_rfl
      ⟨fun _ => h.synced.1 (by rw [hpc]; rintro ⟨⟩), rfl⟩
    simp only [UdState.setSendPc, UdSender.loopTest]
    split <;> rintro ⟨⟩
  | format i hpc | postSend i len hpc =>
    exact h.sending rfl rfl rfl (by rintro ⟨⟩) h.statuses.1 le_rfl
      ⟨fun _ => h.synced.1 (by rw [hpc]; rintro ⟨⟩), rfl⟩
  | pollSend i cq hpc hcq =>
    refine h.sending rfl rfl rfl ?_ (fun x hx => h.statuses.1 x (hcq ▸ List.mem_cons_of_mem _ hx))
      le_rfl
      ⟨fun _ => h.synced.1 (by rw [hpc]; rintro ⟨⟩), rfl⟩
    simp only [UdSender.loopTest]
    split <;> rintro ⟨⟩
  | exitSend l cq hl =>
    rcases hl with rfl | rfl | ⟨status, hmem, hne⟩
    · exact absurd hok.1 Bool.false_ne_true
    · exact absurd rfl hok.1
    · exact absurd (h.statuses.1 status hmem) hne
  | transmit wr sq hsq =>
    refine h.sending rfl rfl rfl h.alive.1 ?_ ?_ ⟨h.synced.1, rfl⟩
    · exact List.forall_mem_append.mpr ⟨h.statuses.1, List.forall_mem_singleton.mpr rfl⟩
    · rw [List.length_append]
      exact Nat.le_add_right _ _
  | sendError => exact hok.1.elim
  | writeRecv ok hpc =>
    obtain rfl : ok = true := hok.1
    rw [hpc] at hposted hpolled hprinted
    exact {
      alive := ⟨h.alive.1, (by rintro ⟨⟩)⟩
      statuses := h.statuses
      fits := h.fits
      bounded := trivial
      dropped := h.dropped
      posted := hposted
      polled := hpolled
      printed := hprinted
      arrived := h.arrived
      synced := by
        refine ⟨fun hne => ?_, fun _ => st.wrote_self .server⟩
        exact (st.wrote_of_ne (show Side.client ≠ .server by decide) true).trans (h.synced.1 hne) }
  | readRecv ok hpc =>
    rw [hpc] at hposted hpolled hprinted
    exact h.receiving rfl (by rintro ⟨⟩) ⟨by rintro ⟨⟩, by rw [hpc]; rintro ⟨⟩⟩ (fun _ hx => hx)
      h.fits
      (show 0 < numRecvBufs by decide) hposted hpolled hprinted
  | prePost i hpc =>
    have hi := h.bounded
    rw [hpc] at hposted hpolled hprinted hi
    obtain ⟨⟨hexit, hsync⟩, hb, hcount⟩ := UdReceiver.prePost_next (n := A.numMsgs .server) hi rfl
    refine h.receiving rfl hexit ⟨hsync, by rw [hpc]; rintro ⟨⟩⟩ (fun _ hx => hx) (hfits i) hb
      ?_ ?_ ?_
    · change (UdRecvPc.count _ (if _ then _ else _)).posted =
        st.arrived + (st.receiver.rq ++ [_]).length
      rw [hcount, List.length_append, ← Nat.add_assoc, ← hposted]
      rfl
    · change (UdRecvPc.count _ (if _ then _ else _)).polled + _ = _
      rw [hcount]
      exact hpolled
    · change (UdRecvPc.count _ (if _ then _ else _)).printed = _
      rw [hcount]
      exact hprinted
  | repost i b hpc =>
    have hi := h.bounded
    rw [hpc] at hposted hpolled hprinted hi
    have hcount : (UdReceiver.loopTest (A.numMsgs .server) (i + 1)).count (A.numMsgs .server) =
        ⟨numRecvBufs + (i + 1), i + 1, i + 1⟩ :=
      UdReceiver.count_loopTest (Or.inr (by exact_mod_cast hi))
    refine h.receiving rfl (UdReceiver.loopTest_ne _ _).1
      ⟨(UdReceiver.loopTest_ne _ _).2, by rw [hpc]; rintro ⟨⟩⟩ (fun _ hx => hx) (hfits b)
      (UdReceiver.bounded_loopTest _ _) ?_ ?_ ?_
    · change (UdRecvPc.count _ (UdReceiver.loopTest _ _)).posted =
        st.arrived + (st.receiver.rq ++ [_]).length
      rw [hcount, List.length_append, ← Nat.add_assoc (st.arrived), ← hposted]
      rfl
    · change (UdRecvPc.count _ (UdReceiver.loopTest _ _)).polled + _ = _
      rw [hcount]
      exact hpolled
    · change (UdRecvPc.count _ (UdReceiver.loopTest _ _)).printed = _
      rw [hcount]
      exact hprinted
  | print i wc hpc =>
    have hi := h.bounded
    rw [hpc] at hposted hpolled hprinted hi
    refine h.receiving rfl (by rintro ⟨⟩) ⟨by rintro ⟨⟩, by rw [hpc]; rintro ⟨⟩⟩ (fun _ hx => hx)
      h.fits hi hposted hpolled ?_
    change i + 1 = (_ ++ [_]).length
    rw [List.length_append, ← hprinted]
    rfl
  | pollRecv i wc cq hpc hcq hstatus =>
    have hi := h.bounded
    rw [hpc] at hposted hpolled hprinted hi
    refine h.receiving rfl (by rintro ⟨⟩) ⟨by rintro ⟨⟩, by rw [hpc]; rintro ⟨⟩⟩
      (fun x hx => hcq ▸ List.mem_cons_of_mem _ hx) h.fits hi hposted ?_ hprinted
    rw [hcq, List.length_cons] at hpolled
    change i + 1 + cq.length = _
    rw [← hpolled]
    change i + 1 + cq.length = i + (cq.length + 1)
    omega
  | exitRecv l cq hl =>
    rcases hl with rfl | rfl | ⟨wc, hmem, hne⟩
    · exact absurd hok.1 Bool.false_ne_true
    · exact absurd rfl hok.1
    · exact absurd (h.statuses.2 wc hmem) hne
  | recvError => exact hok.1.elim
  | drop n j grh payload hn hrq =>
    -- in time, there is a receive
    have hlt : st.arrived < (st.receiver.pc.count (A.numMsgs .server)).posted := hok.2
    rw [hposted, hrq, List.length_nil] at hlt
    exact absurd hlt (lt_irrefl _)
  | receive n j grh payload wr hn hwr => exact h.receive hs hn hwr hok.1
  | idle => exact h

theorem of_reach (h : (udLts A).Reach (UdTimely A) st) : UdFlow A st := by
  refine h.invariant_of (J := UdSenderInv A) (fun a ha => UdSenderInv.of_reach ha) ?_
    fun a l b hs ha hok hstep => ha.move hs hok (UdState.next_move hstep)
  rintro a rfl
  exact start

end UdFlow

/-! ### The way to the end -/

/-- What is left of the sender's program, for `n` messages. -/
def UdSendPc.left (n : ℕ) : UdSendPc → ℕ
  | .syncWrite => 4 * n + 7
  | .syncRead => 4 * n + 6
  | .createAh => 4 * n + 5
  | .format i => 4 * (n - i) + 3
  | .post i _ => 4 * (n - i) + 2
  | .poll i => 4 * (n - i)
  | .done => 0
  | .exited => 0

/-- What is left of the receiver's program. -/
def UdRecvPc.left (n : ℕ) : UdRecvPc → ℕ
  | .syncWrite => 4 * n + numRecvBufs + 6
  | .syncRead => 4 * n + numRecvBufs + 5
  | .prePost i => 4 * n + (numRecvBufs - i) + 4
  | .poll i => 4 * (n - i) + 3
  | .print i _ => 4 * (n - i) + 2
  | .repost i _ => 4 * (n - i) + 1
  | .done => 0
  | .exited => 0

/-- What is left to do: by the two programs, by the device of the sender, and by the
fabric. -/
def UdState.left (n : ℕ) (st : UdState) : ℕ :=
  st.sender.pc.left n + st.sender.sq.length + (n - st.arrived) + st.receiver.pc.left n

theorem UdSender.left_loopTest {n i : ℕ} : (UdSender.loopTest n i).left n < 4 * (n - i) + 4 := by
  rw [UdSender.loopTest]
  split
  · rw [UdSendPc.left]
    omega
  · exact Nat.zero_lt_succ _

theorem UdReceiver.left_loopTest {n i : ℕ} :
    (UdReceiver.loopTest n i).left n < 4 * (n - i) + 4 := by
  rw [UdReceiver.loopTest]
  split
  · rw [UdRecvPc.left]
    omega
  · exact Nat.zero_lt_succ _

theorem UdState.left_lt_of_sender {n : ℕ} {st st' : UdState} (hr : st'.receiver = st.receiver)
    (ha : st'.arrived = st.arrived)
    (hlt : st'.sender.pc.left n + st'.sender.sq.length < st.sender.pc.left n +
      st.sender.sq.length) :
    st'.left n < st.left n := by
  rw [left, left, hr, ha]
  omega

theorem UdState.left_lt_of_receiver {n : ℕ} {st st' : UdState} (hs : st'.sender = st.sender)
    (ha : st'.arrived = st.arrived) (hlt : st'.receiver.pc.left n < st.receiver.pc.left n) :
    st'.left n < st.left n := by
  rw [left, left, hs, ha]
  omega

namespace UdFlow

variable {A : UdArgs} {st : UdState} {n : ℕ}

/-- **There is always something to do for the sender**, until it is done: the receiver
has written its byte, and a request that is outstanding can be sent. -/
theorem exists_sender (h : UdFlow A st) (hs : UdSenderInv A st) (hn : A.numMsgs .client = n)
    (hsync : st.receiver.pc ≠ .syncWrite) (hpc : st.sender.pc ≠ .done) :
    ∃ l st', UdTimely A st l ∧ st.next A l = some st' ∧ st'.left n < st.left n := by
  cases hp : st.sender.pc with
  | syncWrite =>
    refine ⟨.call .client true, { st.setSendPc .syncRead with synced := st.wrote .client true },
      ⟨rfl, trivial⟩, ?_, UdState.left_lt_of_sender rfl rfl ?_⟩
    · simp only [UdState.next, UdState.callSender, hp]
      rfl
    · rw [hp]
      exact Nat.add_lt_add_right (Nat.lt_succ_self _) _
  | syncRead =>
    refine ⟨.call .client true, st.setSendPc .createAh, ⟨rfl, trivial⟩, ?_,
      UdState.left_lt_of_sender rfl rfl ?_⟩
    · simp only [UdState.next, UdState.callSender, hp]
      exact if_pos fun _ => h.synced.2 hsync
    · rw [hp]
      exact Nat.add_lt_add_right (Nat.lt_succ_self _) _
  | createAh =>
    have hlt := UdSender.left_loopTest (n := n) (i := 0)
    refine ⟨.call .client true, st.setSendPc (UdSender.loopTest (A.numMsgs .client) 0),
      ⟨rfl, trivial⟩, ?_, UdState.left_lt_of_sender rfl rfl ?_⟩
    · simp only [UdState.next, UdState.callSender, UdSender.call, hp]
      rfl
    · rw [hp]
      change (UdSender.loopTest _ 0).left n + _ < 4 * n + 5 + _
      rw [hn]
      exact Nat.add_lt_add_right (hlt.trans (Nat.lt_succ_self _)) _
  | format i =>
    let buf := CString.snprintf st.sender.sendBuf maxMsgSize (udText i)
    refine ⟨.cpu .client, { st with sender := { st.sender with
      sendBuf := buf, pc := .post i (CString.strlen buf 0 + 1) } }, ⟨trivial, trivial⟩, ?_,
      UdState.left_lt_of_sender rfl rfl ?_⟩
    · simp only [UdState.next, UdSender.cpu, hp]
      rfl
    · rw [hp]
      exact Nat.add_lt_add_right (Nat.lt_succ_self _) _
  | post i len =>
    refine ⟨.call .client true, { st with sender := { st.sender with
      sq := st.sender.sq ++ [⟨i, len⟩], pc := .poll i } }, ⟨rfl, trivial⟩, ?_,
      UdState.left_lt_of_sender rfl rfl ?_⟩
    · simp only [UdState.next, UdState.callSender, UdSender.call, hp]
      rfl
    · rw [hp]
      change 4 * (n - i) + (st.sender.sq ++ [_]).length < 4 * (n - i) + 2 + st.sender.sq.length
      rw [List.length_append, List.length_singleton]
      omega
  | poll i =>
    obtain ⟨hi, ⟨hlen, -, -⟩ | ⟨hsq, hcq, -⟩ | ⟨-, status, hstatus, hcq⟩⟩ := hs.at_place hp
    · -- the request is still to be sent
      obtain ⟨wr, hsq⟩ := List.length_eq_one_iff.mp hlen
      refine ⟨.transmit, { st with
        sender := { st.sender with sq := [], cq := st.sender.cq ++ [.success] }
        sent := st.sent ++ [st.sender.sendBuf.take wr.length] }, ⟨trivial, trivial⟩, ?_,
        UdState.left_lt_of_sender rfl rfl ?_⟩
      · simp only [UdState.next, UdState.transmit, hsq]
      · rw [hsq]
        exact Nat.lt_succ_self _
    · have hlt := UdSender.left_loopTest (n := n) (i := i + 1)
      refine ⟨.poll .client .one, { st with sender := { st.sender with
        cq := [], pc := UdSender.loopTest (A.numMsgs .client) (i + 1) } }, ⟨nofun, trivial⟩, ?_,
        UdState.left_lt_of_sender rfl rfl ?_⟩
      · simp only [UdState.next, UdSender.poll, hp, hcq]
        rfl
      · rw [hp]
        change (UdSender.loopTest _ (i + 1)).left n + st.sender.sq.length <
          4 * (n - i) + st.sender.sq.length
        rw [hn]
        omega
    · exact absurd (h.statuses.1 status (hcq ▸ List.mem_cons_self)) hstatus
  | done => exact absurd hp hpc
  | exited => exact absurd hp h.alive.1

/-- **A datagram that has not arrived can arrive in time** while the receiver polls an
empty queue: all its receives are there. -/
theorem exists_arrival (h : UdFlow A st) {i : ℕ} (hp : st.receiver.pc = .poll i)
    (hcq : st.receiver.cq = []) (hsent : st.arrived < st.sent.length) (hn : st.sent.length ≤ n) :
    ∃ l st', UdTimely A st l ∧ st.next A l = some st' ∧ st'.left n < st.left n := by
  have hposted := h.posted
  have hpolled := h.polled
  rw [hp] at hposted hpolled
  rw [hcq] at hpolled
  have harr : i = st.arrived := hpolled
  have hrq : st.receiver.rq.length = numRecvBufs := by
    change numRecvBufs + i = _ at hposted
    omega
  have hpos : 0 < st.receiver.rq.length := hrq ▸ by decide
  have hne : st.receiver.rq ≠ [] := List.ne_nil_of_length_pos hpos
  let grh : Grh := ⟨List.replicate grhSize 0, List.length_replicate⟩
  have hpc : (st.receiver.receive st.receiver.rq[0] (st.receiver.rq.eraseIdx 0) grh
      st.sent[st.arrived]).pc = st.receiver.pc := by
    rw [UdReceiver.receive]
    split <;> rfl
  refine ⟨.deliver st.arrived 0 grh, { st with
    receiver := st.receiver.receive st.receiver.rq[0] (st.receiver.rq.eraseIdx 0) grh
      st.sent[st.arrived]
    arrived := st.arrived + 1 }, ⟨rfl, ?_⟩, ?_, ?_⟩
  · change st.arrived < (st.receiver.pc.count _).posted
    rw [hp]
    change st.arrived < numRecvBufs + i
    rw [harr]
    exact Nat.lt_add_of_pos_left (by decide)
  · rw [UdState.next, UdState.deliver, List.getElem?_eq_getElem hsent, Option.bind_some, if_neg hne,
      List.getElem?_eq_getElem hpos, Option.map_some]
  · rw [UdState.left, UdState.left]
    simp only [hpc]
    omega

/-- **There is always something to do for the receiver**, once the sender is done: what
has not been polled is there to be polled, or still to come. -/
theorem exists_receiver (h : UdFlow A st) (hs : UdSenderInv A st) (hn : A.numMsgs .client = n)
    (hn' : A.numMsgs .server = n) (hsend : st.sender.pc = .done) (hpc : st.receiver.pc ≠ .done) :
    ∃ l st', UdTimely A st l ∧ st.next A l = some st' ∧ st'.left n < st.left n := by
  have hb := h.bounded
  cases hp : st.receiver.pc with
  | syncWrite =>
    refine ⟨.call .server true, { st.setRecvPc .syncRead with synced := st.wrote .server true },
      ⟨rfl, trivial⟩, ?_, UdState.left_lt_of_receiver rfl rfl ?_⟩
    · simp only [UdState.next, UdState.callReceiver, hp]
      rfl
    · rw [hp]
      exact Nat.lt_succ_self _
  | syncRead =>
    have hread : st.synced .client = true := h.synced.1 (by rw [hsend]; exact nofun)
    refine ⟨.call .server true, st.setRecvPc (.prePost 0), ⟨rfl, trivial⟩, ?_,
      UdState.left_lt_of_receiver rfl rfl ?_⟩
    · simp only [UdState.next, UdState.callReceiver, hp]
      exact if_pos fun _ => hread
    · rw [hp]
      exact Nat.lt_succ_self _
  | prePost i =>
    rw [hp] at hb
    have hlt : i < numRecvBufs := hb
    refine ⟨.call .server true, st.postReceive i (if i + 1 < numRecvBufs then .prePost (i + 1)
      else UdReceiver.loopTest (A.numMsgs .server) 0), ⟨rfl, trivial⟩, ?_,
      UdState.left_lt_of_receiver rfl rfl ?_⟩
    · simp only [UdState.next, UdState.callReceiver, UdReceiver.call, hp]
      rfl
    · rw [hp]
      change (if _ then _ else _ : UdRecvPc).left n < 4 * n + (numRecvBufs - i) + 4
      split
      · change 4 * n + (numRecvBufs - (i + 1)) + 4 < _
        omega
      · have hleft := UdReceiver.left_loopTest (n := n) (i := 0)
        rw [hn']
        omega
  | poll i =>
    rw [hp] at hb
    cases hcq : st.receiver.cq with
    | nil =>
      have hsent : st.sent.length = n := by
        have hplace := (hs.at_place hsend).2.2
        rwa [hn, Int.toNat_natCast] at hplace
      have hpolled := h.polled
      rw [hp, hcq] at hpolled
      have harr : i = st.arrived := hpolled
      have hi : (i : ℤ) < A.numMsgs .server := hb
      exact h.exists_arrival hp hcq (by omega) hsent.le
    | cons wc cq =>
      have hstatus := h.statuses.2 wc (hcq ▸ List.mem_cons_self)
      refine ⟨.poll .server .one, { st with
        receiver := { st.receiver with cq := cq, pc := .print i wc } },
        ⟨nofun, trivial⟩, ?_, UdState.left_lt_of_receiver rfl rfl ?_⟩
      · simp only [UdState.next, UdReceiver.poll, hp, hcq, if_pos hstatus]
        rfl
      · rw [hp]
        exact Nat.lt_succ_self _
  | print i wc =>
    refine ⟨.cpu .server, { st with receiver := st.receiver.printLine i wc }, ⟨trivial, trivial⟩,
      ?_, UdState.left_lt_of_receiver rfl rfl ?_⟩
    · simp only [UdState.next, UdState.cpuReceiver, hp]
    · rw [hp]
      exact Nat.lt_succ_self _
  | repost i b =>
    rw [hp] at hb
    have hi : (i : ℤ) < A.numMsgs .server := hb
    have hleft := UdReceiver.left_loopTest (n := n) (i := i + 1)
    refine ⟨.call .server true, st.postReceive b (UdReceiver.loopTest (A.numMsgs .server) (i + 1)),
      ⟨rfl, trivial⟩, ?_, UdState.left_lt_of_receiver rfl rfl ?_⟩
    · simp only [UdState.next, UdState.callReceiver, UdReceiver.call, hp]
      rfl
    · rw [hp]
      change (UdReceiver.loopTest _ (i + 1)).left n < 4 * (n - i) + 1
      rw [hn']
      omega
  | done => exact absurd hp hpc
  | exited => exact absurd hp h.alive.2

/-- A step that makes less what is left to do. -/
theorem exists_step (h : UdFlow A st) (hs : UdSenderInv A st) (hn : ∀ s, A.numMsgs s = n)
    (hpc : st.receiver.pc ≠ .done) :
    ∃ l st', UdTimely A st l ∧ st.next A l = some st' ∧ st'.left n < st.left n := by
  by_cases hsend : st.sender.pc = .done
  · exact h.exists_receiver hs (hn _) (hn _) hsend hpc
  · by_cases hsync : st.receiver.pc = .syncWrite
    · -- the receiver has to write its byte first
      refine ⟨.call .server true, { st.setRecvPc .syncRead with synced := st.wrote .server true },
        ⟨rfl, trivial⟩, ?_, UdState.left_lt_of_receiver rfl rfl ?_⟩
      · simp only [UdState.next, UdState.callReceiver, hsync]
        rfl
      · rw [hsync]
        exact Nat.lt_succ_self _
    · exact h.exists_sender hs (hn _) hsync hsend

end UdFlow

section Delivery

variable {A : UdArgs} {st : UdState} {n : ℕ}

/-- **A run in time can be brought to its end.** -/
theorem UdState.exists_done (hn : ∀ s, A.numMsgs s = n) (h : (udLts A).Reach (UdTimely A) st) :
    ∃ st', (udLts A).Path (UdTimely A) st st' ∧ st'.receiver.pc = .done := by
  have hstep : ∀ a, (udLts A).Reach (UdTimely A) a → ¬a.receiver.pc = .done → ∃ l b,
      UdTimely A a l ∧ (udLts A).step a l b ∧ (udLts A).Reach (UdTimely A) b ∧
      b.left n < a.left n := by
    intro a ha hpc
    obtain ⟨l, b, hok, hs, hlt⟩ := (UdFlow.of_reach ha).exists_step (UdSenderInv.of_reach ha) hn hpc
    exact ⟨l, b, hok, hs, ha.tail hok hs, hlt⟩
  obtain ⟨st', hp, -, hdone⟩ := Lts.Path.exists_goal (UdState.left n) hstep h
  exact ⟨st', hp, hdone⟩

/-- **Every datagram finds a posted receive**: in a run whose datagrams reach the
receiver in time, none is dropped, the receiver is never without a way to its end, and
where it is there it has obtained the completions of all messages. -/
theorem ud_delivers (A : UdArgs) (n : ℕ) (hn : ∀ s, A.numMsgs s = n) (st : UdState)
    (h : (udLts A).Reach (UdTimely A) st) :
    st.dropped = 0 ∧ (∃ st', (udLts A).Path (UdTimely A) st st' ∧ st'.receiver.pc = .done) ∧
      (st.receiver.pc = .done → st.receiver.lines.length = n) := by
  have hflow := UdFlow.of_reach h
  refine ⟨hflow.dropped, UdState.exists_done hn h, fun hdone => ?_⟩
  have hprinted := hflow.printed
  rw [hdone, hn] at hprinted
  exact hprinted.symm

end Delivery

/-! ### Two runs -/

/-- The receiver posts its buffers before the datagram comes. -/
theorem ud_delivers_one : ∃ st, (udLts udOne).Reach (UdTimely udOne) st ∧ st.receiver.pc = .done ∧
    st.dropped = 0 ∧ st.receiver.lines.length = 1 := by
  have hrun : (Lts.exec (UdState.next udOne) (UdTimely udOne) udStart
      (udSend ++ List.replicate 17 (.call .server true) ++ [.deliver 0 3 zeroGrh,
        .poll .server .one, .cpu .server, .call .server true])).map (fun st => st.receiver.pc) =
      some .done := by
    decide +kernel
  obtain ⟨st, hs, hdone⟩ := Option.map_eq_some_iff.mp hrun
  have hr : (udLts udOne).Reach (UdTimely udOne) st := ⟨_, rfl, Lts.path_of_exec hs⟩
  obtain ⟨hdropped, -, hlines⟩ := ud_delivers udOne 1 (fun _ => rfl) st hr
  exact ⟨st, hr, hdone, hdropped, hlines hdone⟩

/-- **The sender is first**: no call fails and the fabric is faithful, and the datagram
is dropped, since the receiver has not posted a buffer yet. -/
theorem ud_drops : ∃ st, (udLts udOne).Reach UdFaithful st ∧ st.dropped = 1 := by
  have hrun : (Lts.exec (UdState.next udOne) UdFaithful udStart
      (udSend ++ [.deliver 0 0 zeroGrh])).map UdState.dropped = some 1 := by
    decide +kernel
  obtain ⟨st, hs, hdropped⟩ := Option.map_eq_some_iff.mp hrun
  exact ⟨st, ⟨_, rfl, Lts.path_of_exec hs⟩, hdropped⟩

end RdmaBook
