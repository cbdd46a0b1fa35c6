import RdmaBook.PingPong.Progress

/-!
# Command lines that do not agree

A receive of rc_pingpong is posted for the message size of its own process. Where the sizes
differ, the process with the smaller one never gets a message: the last packet of a message that
is too long fails the receive. So nothing that process sends is a reply, and nothing of the other
process beyond its first message is acknowledged – one of the two completions a turn takes is
missing on both sides, in every run, whatever fails in it (`RdmaBook.UnevenInv`).

With the end that equal sizes lead to, this decides which pairs of command lines let both
processes through: `RdmaBook.pingPong_finish_iff`.
-/

namespace RdmaBook

/-- **The device reports nothing as done that is not**: a request it fails does not complete with
success. Every call may fail. -/
def PingHonest (_ : PingState) : PingStep → Prop
  | .net _ (.fail _ status) => status ≠ .success
  | _ => True

/-- The completions of a queue that report success. -/
def successes (cq : List Wc) : ℕ := cq.countP fun wc => wc.status = .success

theorem successes_cons (wc : Wc) (cq : List Wc) :
    successes (wc :: cq) = successes cq + if wc.status = .success then 1 else 0 := by
  simp only [successes, List.countP_cons, decide_eq_true_eq]

theorem successes_concat (wc : Wc) (cq : List Wc) :
    successes (cq ++ [wc]) = successes cq + if wc.status = .success then 1 else 0 := by
  simp only [successes, List.countP_append, List.countP_singleton, decide_eq_true_eq]

/-! ### The first turn of a process -/

/-- **A process in its first turn**: each success it has taken or can take stands for a request
that is done, and it posts one send. -/
structure FirstTurn (n msgSize : ℕ) (s : Side) (h : PingHost) : Prop where
  turn : h.i = 0
  last : h.pc = .finished → n = 0
  unsent : h.pc ≠ .exited → (h.pc.count s).sends = 0 → h.rc.posted = 0
  posted_le : h.rc.posted ≤ 1
  account : h.pc ≠ .exited → (h.pc.count s).polls + successes h.rc.cq = h.rc.acked + h.rc.rcvd
  sq_size : ∀ wr ∈ h.rc.sq, wr.length = msgSize
  rq_size : ∀ wr ∈ h.rc.rq, wr.length = msgSize
  size : h.buf.length = msgSize

namespace FirstTurn

variable {n msgSize : ℕ} {s : Side} {h h' : PingHost}

theorem start (n msgSize : ℕ) (s : Side) : FirstTurn n msgSize s (pingStart msgSize) where
  turn := rfl
  last := by rintro ⟨⟩
  unsent := fun _ _ => rfl
  posted_le := Nat.zero_le 1
  account := fun _ => by cases s <;> rfl
  sq_size := fun _ hwr => absurd hwr List.not_mem_nil
  rq_size := fun _ hwr => absurd hwr List.not_mem_nil
  size := List.length_replicate

/-- A check ends the process. -/
theorem exit (hf : FirstTurn n msgSize s h) (cq : List Wc) (polled : ℕ) :
    FirstTurn n msgSize s
      { h with pc := .exited, rc := { h.rc with cq := cq }, polled := polled } where
  turn := hf.turn
  last := by rintro ⟨⟩
  unsent := fun hne => absurd rfl hne
  posted_le := hf.posted_le
  account := fun hne => absurd rfl hne
  sq_size := hf.sq_size
  rq_size := hf.rq_size
  size := hf.size

/-- A place of the loop that has a place behind it. -/
theorem advance_ne_finished {h : PingHost} (hpc : h.pc ≠ .finished) :
    (h.advance s).pc ≠ .finished := by
  cases hplace : h.pc with
  | finished => exact absurd hplace hpc
  | _ => cases s <;> simp [PingHost.advance, hplace, PingPc.next]

theorem postReceive (hf : FirstTurn n msgSize s h) (hpc : h.pc = .postReceive) :
    FirstTurn n msgSize s ({ h with rc := h.rc.postRecv (h.wr msgSize) }.advance s) := by
  let k : PingHost := { h with rc := h.rc.postRecv (h.wr msgSize) }
  have halive : h.pc ≠ .exited := by rw [hpc]; decide
  obtain ⟨hi, hcount⟩ := k.count_postReceive (s := s) hpc
  have hne : (k.advance s).pc ≠ .finished := advance_ne_finished (hpc.trans_ne (by decide))
  refine ⟨hi.trans hf.turn, fun hfin => absurd hfin hne, fun _ hsends => ?_, hf.posted_le,
    fun _ => ?_,
    hf.sq_size, List.forall_mem_append.mpr ⟨hf.rq_size, List.forall_mem_singleton.mpr rfl⟩, hf.size⟩
  · rw [hcount] at hsends
    exact hf.unsent halive hsends
  · rw [hcount]
    exact hf.account halive

theorem postSend (hf : FirstTurn n msgSize s h) (hpc : h.pc = .postSend) :
    FirstTurn n msgSize s ({ h with rc := h.rc.postSend (h.wr msgSize) }.advance s) := by
  let k : PingHost := { h with rc := h.rc.postSend (h.wr msgSize) }
  have halive : h.pc ≠ .exited := by rw [hpc]; decide
  obtain ⟨hi, hcount⟩ := k.count_postSend (s := s) hpc
  have hne : (k.advance s).pc ≠ .finished := advance_ne_finished (hpc.trans_ne (by decide))
  have hnone : h.rc.posted = 0 := hf.unsent halive (by rw [hpc]; cases s <;> rfl)
  refine ⟨hi.trans hf.turn, fun hfin => absurd hfin hne, fun _ hsends => ?_, ?_, fun _ => ?_,
    List.forall_mem_append.mpr ⟨hf.sq_size, List.forall_mem_singleton.mpr rfl⟩, hf.rq_size, hf.size⟩
  · rw [hcount] at hsends
    exact absurd hsends (Nat.succ_ne_zero _)
  · change (h.rc.postSend (h.wr msgSize)).posted ≤ 1
    rw [RcEnd.posted_postSend, hnone]
  · rw [hcount]
    exact hf.account halive

/-- **Taking a success** does not end the turn, as long as no two requests are done. -/
theorem poll (hf : FirstTurn n msgSize s h) (hone : h.rc.acked + h.rc.rcvd ≤ 1)
    (hpc : h.pc = .pollSend ∨ h.pc = .pollRecv) {wc : Wc} {rest : List Wc}
    (hcq : h.rc.cq = wc :: rest) (hwc : wc.status = .success) : FirstTurn n msgSize s
      ({ h with rc := { h.rc with cq := rest }, polled := h.polled + 1 }.advance s) := by
  let k : PingHost := { h with rc := { h.rc with cq := rest }, polled := h.polled + 1 }
  have halive : h.pc ≠ .exited := by rcases hpc with hpc | hpc <;> rw [hpc] <;> decide
  have hne : (k.advance s).pc ≠ .finished :=
    advance_ne_finished (by rcases hpc with hpc | hpc <;> simp [k, hpc])
  obtain ⟨hsends, -, hpolls, -, -⟩ := k.count_poll (s := s) hpc
  have haccount := hf.account halive
  have hturn : k.i = 0 := hf.turn
  have hcount : k.pc.count s = h.pc.count s := rfl
  rw [hcq, successes_cons, if_pos hwc] at haccount
  rw [hcount, hturn] at hsends hpolls
  have hstill : (k.advance s).i = 0 := by omega
  have hsame : ((k.advance s).pc.count s).sends = (h.pc.count s).sends := by omega
  refine ⟨hstill, fun hfin => absurd hfin hne, fun _ hnone => ?_, hf.posted_le, fun _ => ?_,
    hf.sq_size, hf.rq_size, hf.size⟩
  · exact hf.unsent halive (hsame.symm.trans hnone)
  · change ((k.advance s).pc.count s).polls + successes rest = h.rc.acked + h.rc.rcvd
    omega

/-- **The first turn is kept by every step of the process**, also by one whose call fails, and
such a step counts nothing as done. -/
theorem proc {l : PingLabel} (hf : FirstTurn n msgSize s h) (hone : h.rc.acked + h.rc.rcvd ≤ 1)
    (hs : pingNext n msgSize s h l = some h') :
    FirstTurn n msgSize s h' ∧ h'.rc.acked = h.rc.acked ∧ h'.rc.rcvd = h.rc.rcvd := by
  have hpoll : ∀ ret, (h.pc = .pollSend ∨ h.pc = .pollRecv) → pingPoll s h ret = some h' →
      FirstTurn n msgSize s h' ∧ h'.rc.acked = h.rc.acked ∧ h'.rc.rcvd = h.rc.rcvd := by
    intro ret hpc hs
    cases ret with
    | failed =>
      obtain rfl := Option.some.inj hs
      exact ⟨hf.exit h.rc.cq h.polled, rfl, rfl⟩
    | empty =>
      obtain rfl := Option.some.inj hs
      exact ⟨hf, rfl, rfl⟩
    | one =>
      cases hcq : h.rc.cq with
      | nil =>
        simp only [pingPoll, hcq] at hs
        cases hs
      | cons wc rest =>
        by_cases hwc : wc.status = .success
        · simp only [pingPoll, hcq, if_pos hwc] at hs
          obtain rfl := Option.some.inj hs
          exact ⟨hf.poll hone hpc hcq hwc, rfl, rfl⟩
        · simp only [pingPoll, hcq, if_neg hwc] at hs
          obtain rfl := Option.some.inj hs
          exact ⟨hf.exit rest (h.polled + 1), rfl, rfl⟩
  unfold pingNext at hs
  split at hs
  · unfold pingCpu at hs
    split at hs
    · rename_i hpc
      have hcount : ∀ pc : PingPc, pc.count s = ⟨0, 0, 0, 0⟩ → (pc = .finished → n = 0) →
          FirstTurn n msgSize s { h with pc := pc } := by
        intro pc hpc' hlast
        have halive : h.pc ≠ .exited := by rw [hpc]; decide
        have hzero : h.pc.count s = ⟨0, 0, 0, 0⟩ := by rw [hpc]; cases s <;> rfl
        have hunsent := hf.unsent halive (by rw [hzero])
        have haccount := hf.account halive
        rw [hzero] at haccount
        exact { hf with
          last := hlast
          unsent := fun _ _ => hunsent
          account := fun _ => by rw [hpc']; exact haccount }
      split at hs
      · cases s <;> obtain rfl := Option.some.inj hs <;>
          exact ⟨hcount _ rfl (by rintro ⟨⟩), rfl, rfl⟩
      · rename_i hi
        obtain rfl := Option.some.inj hs
        have hzero : n = 0 := by
          have hturn := hf.turn
          omega
        exact ⟨hcount .finished (by cases s <;> rfl) fun _ => hzero, rfl, rfl⟩
    · rename_i hpc
      obtain rfl := Option.some.inj hs
      have halive : h.pc ≠ .exited := by rw [hpc]; decide
      have hunsent := hf.unsent halive (by rw [hpc]; cases s <;> rfl)
      have haccount := hf.account halive
      rw [hpc] at haccount
      refine ⟨⟨hf.turn, (by rintro ⟨⟩), fun _ _ => hunsent, hf.posted_le, fun _ => ?_, hf.sq_size,
        hf.rq_size, ?_⟩, rfl, rfl⟩
      · cases s <;> exact haccount
      · change ((h.rc.store .buf _).mem .buf).length = msgSize
        rw [RcEnd.mem_store, CString.length_snprintf hf.size.ge, hf.size]
    · cases hs
  · rename_i ok hpc
    obtain rfl := Option.some.inj hs
    cases ok with
    | true => exact ⟨hf.postReceive hpc, rfl, rfl⟩
    | false => exact ⟨hf.exit h.rc.cq h.polled, rfl, rfl⟩
  · rename_i ok hpc
    obtain rfl := Option.some.inj hs
    cases ok with
    | true => exact ⟨hf.postSend hpc, rfl, rfl⟩
    | false => exact ⟨hf.exit h.rc.cq h.polled, rfl, rfl⟩
  · rename_i ret hpc
    exact hpoll ret (Or.inl hpc) hs
  · rename_i ret hpc
    exact hpoll ret (Or.inr hpc) hs
  · cases hs

/-- **A packet that arrives** completes a receive with success only where the receive is long
enough for its message. -/
theorem deliver {p : RcPacket} {size' : ℕ} (hf : FirstTurn n msgSize s h)
    (hmsn : p.msn = 0) (hlast : p.last = true → p.off + p.data.length = size') :
    FirstTurn n msgSize s { h with rc := h.rc.deliver p } ∧ (h.rc.deliver p).acked = h.rc.acked ∧
      ((h.rc.deliver p).rcvd = h.rc.rcvd ∨
        h.rc.rcvd = 0 ∧ (h.rc.deliver p).rcvd = 1 ∧ size' ≤ msgSize) := by
  rw [RcEnd.deliver]
  split
  · rename_i hnext
    split
    · exact ⟨hf, rfl, Or.inl rfl⟩
    · rename_i wr rest hrq
      have hwr : wr.length = msgSize := hf.rq_size wr (hrq ▸ List.mem_cons_self)
      have hrest : ∀ wr' ∈ rest, wr'.length = msgSize :=
        fun wr' hwr' => hf.rq_size wr' (hrq ▸ List.mem_cons_of_mem wr hwr')
      simp only
      split
      · -- too long for the receive
        refine ⟨{ hf with account := fun halive => ?_, rq_size := hrest }, rfl, Or.inl rfl⟩
        rw [successes_concat]
        exact hf.account halive
      · rename_i hfits
        have hsize : (Stream.overlay (h.rc.mem wr.addr) p.off p.data).length = msgSize := by
          refine (Stream.length_overlay ?_).trans hf.size
          exact (Nat.not_lt.mp hfits).trans (hwr.trans hf.size.symm).le
        split
        · rename_i hl
          have hzero : h.rc.rcvd = 0 := hnext.1.symm.trans hmsn
          refine ⟨{ hf with account := fun halive => ?_, rq_size := hrest, size := hsize }, rfl,
            Or.inr ⟨hzero, by rw [hzero], ?_⟩⟩
          · rw [successes_concat, if_pos rfl, ← Nat.add_assoc, hf.account halive]
            rfl
          · rw [hlast hl, hwr] at hfits
            exact Nat.not_lt.mp hfits
        · exact ⟨{ hf with size := hsize }, rfl, Or.inl rfl⟩
  · exact ⟨hf, rfl, Or.inl rfl⟩

/-- A request the device fails is none that is done. -/
theorem fail {a : RcEnd PingBuf} {opcode : WcOpcode} {status : WcStatus}
    (hf : FirstTurn n msgSize s h) (hstatus : status ≠ .success)
    (ha : h.rc.fail opcode status = some a) :
    FirstTurn n msgSize s { h with rc := a } ∧ a.acked = h.rc.acked ∧ a.rcvd = h.rc.rcvd := by
  have hposted := hf.posted_le
  rcases RcEnd.fail_eq_some ha with ⟨wr, rest, hsq, rfl⟩ | ⟨wr, rest, hrq, rfl⟩
  · rw [RcEnd.posted, hsq, List.length_cons] at hposted
    refine ⟨{ hf with
      unsent := fun halive hnone => ?_
      posted_le := ?_
      account := fun halive => ?_
      sq_size := fun w hw => hf.sq_size w (hsq ▸ List.mem_cons_of_mem wr hw) }, rfl, rfl⟩
    · have hunsent := hf.unsent halive hnone
      rw [RcEnd.posted, hsq, List.length_cons] at hunsent
      exact absurd hunsent (Nat.succ_ne_zero _)
    · change h.rc.acked + rest.length ≤ 1
      omega
    · rw [successes_concat, if_neg hstatus]
      exact hf.account halive
  · refine ⟨{ hf with
      account := fun halive => ?_
      rq_size := fun w hw => hf.rq_size w (hrq ▸ List.mem_cons_of_mem wr hw) }, rfl, rfl⟩
    rw [successes_concat, if_neg hstatus]
    exact hf.account halive

/-- An acknowledgement is a success the process has not taken yet. -/
theorem ack {a : RcEnd PingBuf} (hf : FirstTurn n msgSize s h) (ha : h.rc.ack = some a) :
    FirstTurn n msgSize s { h with rc := a } ∧ a.acked = h.rc.acked + 1 ∧ a.rcvd = h.rc.rcvd := by
  have hposted := RcEnd.posted_ack ha
  obtain ⟨wr, rest, hsq, rfl⟩ := RcEnd.ack_eq_some ha
  refine ⟨{ hf with
    unsent := fun halive hnone => hposted.trans (hf.unsent halive hnone)
    posted_le := hposted.trans_le hf.posted_le
    account := fun halive => ?_
    sq_size := fun w hw => hf.sq_size w (hsq ▸ List.mem_cons_of_mem wr hw) }, rfl, rfl⟩
  have haccount := hf.account halive
  rw [successes_concat, if_pos rfl]
  change (h.pc.count s).polls + (successes h.rc.cq + 1) = h.rc.acked + 1 + h.rc.rcvd
  omega

end FirstTurn

/-! ### Two sizes -/

/-- **The invariant of two sizes that differ**: both processes are in their first turn, a message
is acknowledged only when it has been received, the process with the smaller size has received
none and the other one has received one at most. -/
structure UnevenInv (numIters msgSize : Side → ℕ) (st : PingState) : Prop where
  host : ∀ s, FirstTurn (numIters s) (msgSize s) s (st.host s)
  acked_le : ∀ s : Side, (st.host s).rc.acked ≤ (st.host s.other).rc.rcvd
  rcvd_le : ∀ s, (st.host s).rc.rcvd ≤ 1
  short : ∀ s : Side, msgSize s < msgSize s.other → (st.host s).rc.rcvd = 0
  packets : ∀ s, ∀ p ∈ st.wire s, p.msn = 0 ∧ (p.last = true → p.off + p.data.length = msgSize s)

namespace UnevenInv

variable {numIters msgSize : Side → ℕ} {s : Side} {st : PingState}

theorem start (numIters msgSize : Side → ℕ) :
    UnevenInv numIters msgSize { host := fun s => pingStart (msgSize s), wire := fun _ => [] } where
  host := fun s => FirstTurn.start (numIters s) (msgSize s) s
  acked_le := fun _ => le_rfl
  rcvd_le := fun _ => Nat.zero_le 1
  short := fun _ _ => rfl
  packets := fun _ _ hp => absurd hp List.not_mem_nil

/-- No process has two of its requests done. -/
theorem done_le (hinv : UnevenInv numIters msgSize st) (hne : msgSize .client ≠ msgSize .server)
    (s : Side) : (st.host s).rc.acked + (st.host s).rc.rcvd ≤ 1 := by
  have hacked := hinv.acked_le s
  have hrcvd := hinv.rcvd_le s
  have hrcvd' := hinv.rcvd_le s.other
  rcases Nat.lt_or_gt_of_ne hne with hlt | hlt
  · have hnone := hinv.short .client hlt
    cases s <;> simp only [Side.other] at hacked hrcvd' <;> omega
  · have hnone := hinv.short .server hlt
    cases s <;> simp only [Side.other] at hacked hrcvd' <;> omega

/-- **The invariant is kept by a step of one direction** that keeps what the two ends count. -/
theorem of_net {a b : RcEnd PingBuf} {wire : List RcPacket} (hinv : UnevenInv numIters msgSize st)
    (hhost : FirstTurn (numIters s) (msgSize s) s { st.host s with rc := a })
    (hpeer : FirstTurn (numIters s.other) (msgSize s.other) s.other
      { st.host s.other with rc := b })
    (hacked : a.acked ≤ b.rcvd) (hrcvd : a.rcvd = (st.host s).rc.rcvd)
    (hback : b.acked = (st.host s.other).rc.acked) (hgot : b.rcvd ≤ 1)
    (hshort : msgSize s.other < msgSize s → b.rcvd = 0)
    (hwire : ∀ p ∈ wire, p.msn = 0 ∧ (p.last = true → p.off + p.data.length = msgSize s)) :
    UnevenInv numIters msgSize (st.setNet s (a, b, wire)) := by
  have hacked' := hinv.acked_le s.other
  have hrcvd_le := hinv.rcvd_le s
  have hshort' := hinv.short s
  have hhost' := hinv.host s.other
  have hwire' := hinv.packets s.other
  rw [s.other_other, ← hrcvd, ← hback] at hacked'
  rw [← hrcvd] at hrcvd_le hshort'
  cases s with
  | client =>
    refine ⟨fun t => ?_, fun t => ?_, fun t => ?_, fun t => ?_, fun t => ?_⟩ <;> cases t
    · exact hhost
    · exact hpeer
    · exact hacked
    · exact hacked'
    · exact hrcvd_le
    · exact hgot
    · exact hshort'
    · exact hshort
    · exact hwire
    · exact hwire'
  | server =>
    refine ⟨fun t => ?_, fun t => ?_, fun t => ?_, fun t => ?_, fun t => ?_⟩ <;> cases t
    · exact hpeer
    · exact hhost
    · exact hacked'
    · exact hacked
    · exact hgot
    · exact hrcvd_le
    · exact hshort
    · exact hshort'
    · exact hwire'
    · exact hwire

/-- A step of one direction that the peer has no part in. -/
theorem of_net_quiet {a : RcEnd PingBuf} {wire : List RcPacket}
    (hinv : UnevenInv numIters msgSize st)
    (hhost : FirstTurn (numIters s) (msgSize s) s { st.host s with rc := a })
    (hacked : a.acked ≤ (st.host s.other).rc.rcvd) (hrcvd : a.rcvd = (st.host s).rc.rcvd)
    (hwire : ∀ p ∈ wire, p.msn = 0 ∧ (p.last = true → p.off + p.data.length = msgSize s)) :
    UnevenInv numIters msgSize (st.setNet s (a, (st.host s.other).rc, wire)) := by
  have hshort := hinv.short s.other
  rw [s.other_other] at hshort
  exact hinv.of_net hhost (hinv.host s.other) hacked hrcvd rfl (hinv.rcvd_le s.other) hshort hwire

/-- **The invariant is kept by every event of the connection**. -/
theorem net {ev : RcEvent} {r : RcEnd PingBuf × RcEnd PingBuf × List RcPacket}
    (hinv : UnevenInv numIters msgSize st) (hok : PingHonest st (.net s ev))
    (hs : rcNext (st.host s).rc (st.host s.other).rc (st.wire s) ev = some r) :
    UnevenInv numIters msgSize (st.setNet s r) := by
  cases ev with
  | transmit j off n =>
    obtain ⟨p, hp, rfl⟩ := Option.map_eq_some_iff.mp hs
    have hmsn := RcEnd.posted_of_transmit hp
    have hposted := (hinv.host s).posted_le
    obtain ⟨wr, hwr, -, hof⟩ := RcEnd.transmit_eq_some hp
    have hsize : wr.length = ((st.host s).rc.mem wr.addr).length :=
      ((hinv.host s).sq_size wr (List.mem_of_getElem? hwr)).trans (hinv.host s).size.symm
    refine hinv.of_net_quiet (hinv.host s) (hinv.acked_le s) rfl
      (List.forall_mem_append.mpr ⟨hinv.packets s, List.forall_mem_singleton.mpr ⟨by omega, ?_⟩⟩)
    exact fun hlast => ((hof hsize).last.mp hlast).trans (hinv.host s).size
  | lose =>
    cases hwire : st.wire s with
    | nil =>
      rw [hwire] at hs
      cases hs
    | cons p rest =>
      rw [hwire] at hs
      obtain rfl := Option.some.inj hs
      exact hinv.of_net_quiet (hinv.host s) (hinv.acked_le s) rfl
        fun q hq => hinv.packets s q (hwire ▸ List.mem_cons_of_mem p hq)
  | deliver =>
    cases hwire : st.wire s with
    | nil =>
      rw [hwire] at hs
      cases hs
    | cons p rest =>
      rw [hwire] at hs
      obtain rfl := Option.some.inj hs
      obtain ⟨hmsn, hlast⟩ := hinv.packets s p (hwire ▸ List.mem_cons_self)
      obtain ⟨hpeer, hacked, hrcvd⟩ := (hinv.host s.other).deliver hmsn hlast
      have hle := hinv.acked_le s
      have hone := hinv.rcvd_le s.other
      have hshort := hinv.short s.other
      rw [s.other_other] at hshort
      refine hinv.of_net (hinv.host s) hpeer ?_ rfl hacked ?_ (fun hlt => ?_)
        fun q hq => hinv.packets s q (hwire ▸ List.mem_cons_of_mem p hq)
      · omega
      · omega
      · have hnone := hshort hlt
        omega
  | ack =>
    rw [rcNext] at hs
    split at hs
    · rename_i hlt
      obtain ⟨a, ha, rfl⟩ := Option.map_eq_some_iff.mp hs
      obtain ⟨hhost, hacked, hrcvd⟩ := (hinv.host s).ack ha
      exact hinv.of_net_quiet hhost (hacked.trans_le hlt) hrcvd (hinv.packets s)
    · cases hs
  | fail opcode status =>
    obtain ⟨a, ha, rfl⟩ := Option.map_eq_some_iff.mp hs
    obtain ⟨hhost, hacked, hrcvd⟩ := (hinv.host s).fail hok ha
    exact hinv.of_net_quiet hhost (hacked.trans_le (hinv.acked_le s)) hrcvd (hinv.packets s)

/-- **The invariant is kept by a step of a process.** -/
theorem proc {h' : PingHost} (hinv : UnevenInv numIters msgSize st)
    (hhost : FirstTurn (numIters s) (msgSize s) s h') (hacked : h'.rc.acked = (st.host s).rc.acked)
    (hrcvd : h'.rc.rcvd = (st.host s).rc.rcvd) :
    UnevenInv numIters msgSize { st with host := Function.update st.host s h' } := by
  have hnums : ∀ t, (Function.update st.host s h' t).rc.acked = (st.host t).rc.acked ∧
      (Function.update st.host s h' t).rc.rcvd = (st.host t).rc.rcvd := by
    intro t
    rcases eq_or_ne t s with rfl | hne
    · simpa using ⟨hacked, hrcvd⟩
    · simp [hne]
  refine ⟨fun t => ?_, fun t => ?_, fun t => ?_, fun t hlt => ?_, hinv.packets⟩
  · rcases eq_or_ne t s with rfl | hne
    · simpa using hhost
    · simpa [hne] using hinv.host t
  · exact ((hnums t).1.trans_le (hinv.acked_le t)).trans_eq (hnums t.other).2.symm
  · exact (hnums t).2.trans_le (hinv.rcvd_le t)
  · exact (hnums t).2.trans (hinv.short t hlt)

theorem of_reach (hne : msgSize .client ≠ msgSize .server)
    (h : (pingLtsOf numIters msgSize).Reach PingHonest st) : UnevenInv numIters msgSize st := by
  refine h.invariant ?_ fun a l b ha hok hs => ?_
  · rintro a rfl
    exact start numIters msgSize
  · cases l with
    | proc s l =>
      obtain ⟨h', hnext, rfl⟩ := Option.map_eq_some_iff.mp hs
      obtain ⟨hhost, hacked, hrcvd⟩ := (ha.host s).proc (ha.done_le hne s) hnext
      exact ha.proc hhost hacked hrcvd
    | net s ev =>
      obtain ⟨r, hr, rfl⟩ := Option.map_eq_some_iff.mp hs
      exact ha.net hok hr

end UnevenInv

/-! ### Which command lines agree -/

theorem PingNoFailure.honest (st : PingState) (l : PingStep) (h : PingNoFailure st l) :
    PingHonest st l := by
  cases l with
  | proc s l => trivial
  | net s ev =>
    cases ev with
    | fail opcode status => exact h.elim
    | _ => trivial

/-- With no turn to make, both processes are past their loops at once. -/
theorem pingPong_no_turns {numIters : Side → ℕ} (msgSize : Side → ℕ) (hnone : ∀ s, numIters s = 0) :
    ∃ st, (pingLtsOf numIters msgSize).Reach PingNoFailure st ∧
    ∀ s, (st.host s).pc = .finished := by
  let start : PingState := { host := fun s => pingStart (msgSize s), wire := fun _ => [] }
  let leave (st : PingState) (s : Side) : PingState :=
    { st with host := Function.update st.host s { st.host s with pc := .finished } }
  have hleave : ∀ st s, (st.host s).pc = .loop →
      pingSysNextOf numIters msgSize st (.proc s .cpu) = some (leave st s) := by
    intro st s hpc
    have hi : ¬(st.host s).i < numIters s := by
      rw [hnone s]
      exact Nat.not_lt_zero _
    simp only [pingSysNextOf, pingNext, pingCpu, hpc, if_neg hi, Option.map_some, leave]
  have hclient : (pingLtsOf numIters msgSize).Reach PingNoFailure (leave start .client) :=
    (Lts.Reach.of_init rfl).tail (l := .proc .client .cpu) trivial (hleave start .client rfl)
  refine ⟨leave (leave start .client) .server,
    hclient.tail (l := .proc .server .cpu) trivial (hleave _ .server rfl), fun s => ?_⟩
  cases s <;> rfl

/-- **Which command lines let both processes through.** Two processes of rc_pingpong can both get
past their loops exactly when they were told the same number of iterations, and the same message
size unless that number is zero. Where the sizes differ no process ends a single turn, in any run,
whichever calls and requests fail in it. -/
theorem pingPong_finish_iff (numIters msgSize : Side → ℕ) :
    ((∃ st, (pingLtsOf numIters msgSize).Reach PingNoFailure st ∧ ∀ s, (st.host s).pc = .finished) ↔
      numIters .client = numIters .server ∧
        (numIters .client = 0 ∨ msgSize .client = msgSize .server)) ∧
    (msgSize .client ≠ msgSize .server → ∀ st, (pingLtsOf numIters msgSize).Reach PingHonest st →
      ∀ s, (st.host s).i = 0 ∧ ((st.host s).pc = .finished → numIters s = 0)) := by
  have huneven : msgSize .client ≠ msgSize .server →
      ∀ st, (pingLtsOf numIters msgSize).Reach PingHonest st →
        ∀ s, (st.host s).i = 0 ∧ ((st.host s).pc = .finished → numIters s = 0) := by
    intro hne st h s
    have hturn := (UnevenInv.of_reach hne h).host s
    exact ⟨hturn.turn, hturn.last⟩
  refine ⟨⟨?_, ?_⟩, huneven⟩
  · rintro ⟨st, h, hfin⟩
    by_cases hsize : msgSize .client = msgSize .server
    · -- one size: both have ended all their turns, and no more than the other was told
      obtain ⟨size, rfl⟩ : ∃ size, msgSize = fun _ => size :=
        ⟨msgSize .client, funext fun s => by cases s <;> [rfl; exact hsize.symm]⟩
      have hb := PingBound.of_reach h
      have hturns := (PingInv.of_reachOf h).turns_le hb
      have hc := (hb .client).last (hfin .client)
      have hs := (hb .server).last (hfin .server)
      have hle := hturns .client
      have hle' := hturns .server
      exact ⟨by omega, Or.inr rfl⟩
    · have hzero := fun s => (huneven hsize st (h.mono PingNoFailure.honest) s).2 (hfin s)
      exact ⟨(hzero .client).trans (hzero .server).symm, Or.inl (hzero .client)⟩
  · rintro ⟨hiters, hzero | hsize⟩
    · refine pingPong_no_turns msgSize fun s => ?_
      cases s
      · exact hzero
      · exact hiters.symm.trans hzero
    · obtain ⟨size, rfl⟩ : ∃ size, msgSize = fun _ => size :=
        ⟨msgSize .client, funext fun s => by cases s <;> [rfl; exact hsize.symm]⟩
      have hstart : (pingLtsOf numIters fun _ => size).Reach PingNoFailure
          { host := fun _ => pingStart size, wire := fun _ => [] } := Lts.Reach.of_init rfl
      obtain ⟨st, hp, hend⟩ := pingPong_exists_atEnd hstart
      refine ⟨st, hstart.trans hp, fun s => hend.finished s ?_⟩
      cases s
      · exact hiters.le
      · exact hiters.ge

end RdmaBook
