import RdmaBook.Lib.Pool
import RdmaBook.Ud.Moves

/-!
# The receive pool of ud_send

The buffers of the receiver circulate: they are posted one after the other, the device
completes any of them, and the receiver takes completions, prints what is there and
posts the buffer the completion names. From the post of its first receive on a buffer
is always in exactly one of three places (`RdmaBook.UdCirculation`), whatever the fabric
does with the datagrams; so nothing is written into a buffer between its completion and
its line, and the line is the datagram that was received (`RdmaBook.ud_pool`).
-/

namespace RdmaBook

open CString Stream

/-! ### Where the buffers are -/

/-- The number of buffers that have been posted for the first time. -/
def UdRecvPc.started : UdRecvPc → ℕ
  | .syncWrite => 0
  | .syncRead => 0
  | .prePost i => i
  | _ => numRecvBufs

/-- The buffer the receiver works on. -/
def UdRecvPc.held : UdRecvPc → List ℕ
  | .print _ wc => [wc.wrId]
  | .repost _ b => [b]
  | _ => []

/-- The completion the receiver is about to print. -/
def UdRecvPc.current : UdRecvPc → List UdWc
  | .print _ wc => [wc]
  | _ => []

/-- **The buffers of the receiver**, by where they are. -/
def UdReceiver.buffers (r : UdReceiver) : Pool ℕ :=
  ⟨r.rq.map RecvWr.wrId, r.cq.map UdWc.wrId, r.pc.held⟩

theorem UdReceiver.loopTest_places (n : ℤ) (i : ℕ) :
    (UdReceiver.loopTest n i).held = [] ∧ (UdReceiver.loopTest n i).current = [] ∧
      (UdReceiver.loopTest n i).started = numRecvBufs := by
  rw [UdReceiver.loopTest]
  split <;> exact ⟨rfl, rfl, rfl⟩

/-- **The buffer of a completion holds its datagram** behind the header, and `byte_len`
counts both. -/
def UdWc.Holds (pool : List UInt8) (wc : UdWc) : Prop :=
  wc.status = .success → UdDatagram wc.payload ∧ wc.byteLen = grhSize + wc.payload.length ∧
    window pool (recvBuf wc.wrId + grhSize) (recvBuf wc.wrId + grhSize + wc.payload.length) =
      wc.payload

/-- A completion keeps what it holds when another buffer is written. -/
theorem UdWc.Holds.overlay {pool d : List UInt8} {wc : UdWc} {b : ℕ} (h : wc.Holds pool)
    (hne : wc.wrId ≠ b) (hd : d.length ≤ udBufSize) (hb : b < numRecvBufs)
    (hpool : pool.length = numRecvBufs * udBufSize) : wc.Holds (overlay pool (recvBuf b) d) := by
  intro hstatus
  obtain ⟨hdata, hlen, hwin⟩ := h hstatus
  rw [Nat.add_assoc] at hwin ⊢
  exact ⟨hdata, hlen, (window_overlay_slot hne hb hpool hd
    (Nat.add_le_add_left hdata.length_le grhSize)).trans hwin⟩

/-- What the device has just written is held. -/
theorem UdWc.holds_receive {pool : List UInt8} {b : ℕ} {grh : Grh} {payload : List UInt8}
    (hdata : UdDatagram payload) (hb : recvBuf b ≤ pool.length) :
    UdWc.Holds (overlay pool (recvBuf b) (grh.raw ++ payload))
      ⟨b, .success, grhSize + payload.length, payload⟩ := by
  intro _
  refine ⟨hdata, rfl, ?_⟩
  have hwin := window_overlay_append (x := grh.raw) (y := payload) hb
  rwa [grh.length_raw] at hwin

/-- **What is printed for a completion** is its datagram. -/
theorem UdWc.Holds.printed {pool : List UInt8} {wc : UdWc} (h : wc.Holds pool)
    (hstatus : wc.status = .success) : ∃ i < 2 ^ 31, wc.payload = udText i ++ [0] ∧
      str pool (recvBuf wc.wrId + grhSize) = udText i ∧
      (wc.byteLen + 2 ^ 32 - grhSize) % 2 ^ 32 = (udText i).length + 1 := by
  obtain ⟨⟨i, hi, hpayload⟩, hlen, hwin⟩ := h hstatus
  refine ⟨i, hi, hpayload, ?_, ?_⟩
  · exact str_of_window (zero_notMem_udText i) (hwin.trans hpayload)
  · have hle := length_udText_le hi
    rw [hlen, hpayload, List.length_append, List.length_singleton]
    omega

/-! ### The invariant -/

/-- **The circulation of the buffers**, as long as the receiver runs. -/
structure UdCirculation (r : UdReceiver) : Prop where
  length : r.pool.length = numRecvBufs * udBufSize
  addrs : ∀ wr ∈ r.rq, wr.addr = recvBuf wr.wrId ∧ wr.length = udBufSize
  started : r.pc.started ≤ numRecvBufs ∧ ∀ i, r.pc = .prePost i → i < numRecvBufs
  circulates : r.buffers.all.Perm (List.range r.pc.started)
  data : ∀ wc ∈ r.pc.current ++ r.cq, wc.Holds r.pool
  current : ∀ wc ∈ r.pc.current, wc.status = .success

namespace UdCirculation

variable {r r' : UdReceiver}

theorem nodup (h : UdCirculation r) : r.buffers.all.Nodup :=
  h.circulates.nodup_iff.mpr List.nodup_range

theorem mem_all_iff (h : UdCirculation r) {k : ℕ} : k ∈ r.buffers.all ↔ k < r.pc.started :=
  h.circulates.mem_iff.trans List.mem_range

theorem lt_of_mem (h : UdCirculation r) {k : ℕ} {t : Pool.Stage} (hk : k ∈ r.buffers.place t) :
    k < numRecvBufs :=
  (h.mem_all_iff.mp (Pool.mem_all_iff.mpr ⟨t, hk⟩)).trans_le h.started.1

theorem posted_lt (h : UdCirculation r) {wr : RecvWr} (hwr : wr ∈ r.rq) : wr.wrId < numRecvBufs :=
  h.lt_of_mem (t := .posted) (List.mem_map_of_mem hwr)

/-- The buffers that are posted are no more than there are. -/
theorem length_rq_le (h : UdCirculation r) : r.rq.length ≤ numRecvBufs := by
  have hlen := h.circulates.length_eq
  rw [List.length_range, Pool.all, List.length_append] at hlen
  have hle : r.rq.length ≤ r.pc.started := by
    have hmap : r.buffers.posted.length = r.rq.length := List.length_map _
    omega
  exact hle.trans h.started.1

/-- **A step that moves a buffer**, or none, and does not write. -/
theorem of_move (h : UdCirculation r) (hm : r'.buffers = r.buffers ∨ Pool.Move r.buffers r'.buffers)
    (hpool : r'.pool = r.pool) (hstarted : r'.pc.started = numRecvBufs ∧ r.pc.started = numRecvBufs)
    (hrq : ∀ wr ∈ r'.rq, wr.addr = recvBuf wr.wrId ∧ wr.length = udBufSize)
    (hpc : ∀ i, r'.pc ≠ .prePost i) (hcq : ∀ wc ∈ r'.pc.current ++ r'.cq, wc ∈ r.cq)
    (hcurrent : ∀ wc ∈ r'.pc.current, wc.status = .success) : UdCirculation r' where
  length := hpool ▸ h.length
  addrs := hrq
  started := ⟨hstarted.1.le, fun i hi => absurd hi (hpc i)⟩
  circulates := by
    rw [hstarted.1, ← hstarted.2]
    rcases hm with heq | hm
    · rw [heq]
      exact h.circulates
    · exact hm.perm.trans h.circulates
  data := fun wc hwc => hpool ▸ h.data wc (List.mem_append_right _ (hcq wc hwc))
  current := hcurrent

/-- A buffer is posted for the first time. -/
theorem prePost (h : UdCirculation r) {i : ℕ} {pc : UdRecvPc} (hpc : r.pc = .prePost i)
    (hstarted : pc.started = i + 1) (hheld : pc.held = [] ∧ pc.current = [])
    (hlt : ∀ j, pc = .prePost j → j < numRecvBufs) :
    UdCirculation (r.postReceive (recvBuf i) i pc) where
  length := h.length
  addrs := List.forall_mem_append.mpr ⟨h.addrs, List.forall_mem_singleton.mpr ⟨rfl, rfl⟩⟩
  started := by
    refine ⟨?_, hlt⟩
    change pc.started ≤ _
    rw [hstarted]
    exact h.started.2 i hpc
  circulates := by
    have hsupply : (r.postReceive (recvBuf i) i pc).buffers.all.Perm (i :: r.buffers.all) := by
      refine Pool.perm_supply ?_ rfl ?_
      · change ((r.rq ++ [_]).map _).Perm _
        rw [List.map_append]
        exact List.perm_append_singleton _ _
      · change pc.held = r.pc.held
        rw [hheld.1, hpc]
        rfl
    have hbefore := h.circulates
    rw [hpc] at hbefore
    change (r.postReceive (recvBuf i) i pc).buffers.all.Perm (List.range pc.started)
    rw [hstarted, List.range_succ]
    exact hsupply.trans ((hbefore.cons i).trans (List.perm_append_singleton _ _).symm)
  data := by
    change ∀ wc ∈ pc.current ++ r.cq, _
    rw [hheld.2]
    exact fun wc hwc => h.data wc (List.mem_append_right _ hwc)
  current := by
    change ∀ wc ∈ pc.current, _
    rw [hheld.2]
    exact fun _ hwc => absurd hwc List.not_mem_nil

/-- A buffer is posted again. -/
theorem repost (h : UdCirculation r) {i b : ℕ} {n : ℤ} (hpc : r.pc = .repost i b) :
    UdCirculation (r.postReceive (recvBuf b) b (UdReceiver.loopTest n (i + 1))) := by
  obtain ⟨hheld, hcurrent, hstarted⟩ := UdReceiver.loopTest_places n (i + 1)
  refine h.of_move (Or.inr (.give b ?_ rfl ?_)) rfl ⟨hstarted, by rw [hpc]; rfl⟩ ?_ ?_ ?_ ?_
  · change ((r.rq ++ [_]).map _).Perm _
    rw [List.map_append]
    exact List.perm_append_singleton _ _
  · change r.pc.held = b :: (UdReceiver.loopTest n (i + 1)).held
    rw [hpc, hheld]
    rfl
  · exact List.forall_mem_append.mpr ⟨h.addrs, List.forall_mem_singleton.mpr ⟨rfl, rfl⟩⟩
  · change ∀ j, UdReceiver.loopTest n (i + 1) ≠ .prePost j
    rw [UdReceiver.loopTest]
    split <;> exact fun _ => nofun
  · change ∀ wc ∈ (UdReceiver.loopTest n (i + 1)).current ++ r.cq, wc ∈ r.cq
    rw [hcurrent]
    exact fun _ hwc => hwc
  · change ∀ wc ∈ (UdReceiver.loopTest n (i + 1)).current, _
    rw [hcurrent]
    exact fun _ hwc => absurd hwc List.not_mem_nil

/-- A completion is polled. -/
theorem poll (h : UdCirculation r) {i : ℕ} {wc : UdWc} {cq : List UdWc} (hpc : r.pc = .poll i)
    (hcq : r.cq = wc :: cq) (hstatus : wc.status = .success) :
    UdCirculation { r with cq := cq, pc := .print i wc } := by
  refine h.of_move (Or.inr (.take wc.wrId rfl ?_ ?_)) rfl ⟨rfl, by rw [hpc]; rfl⟩ h.addrs
    (fun _ => nofun)
    ?_ (List.forall_mem_singleton.mpr hstatus)
  · change (r.cq.map _).Perm _
    rw [hcq]
    exact .refl _
  · change [wc.wrId] = wc.wrId :: r.pc.held
    rw [hpc]
    rfl
  · rw [hcq]
    exact fun _ hx => hx

/-- The line of a completion is printed. -/
theorem print (h : UdCirculation r) {i : ℕ} {wc : UdWc} (hpc : r.pc = .print i wc) :
    UdCirculation (r.printLine i wc) := by
  refine h.of_move (Or.inl ?_) rfl ⟨rfl, by rw [hpc]; rfl⟩ h.addrs (fun _ => nofun)
    (fun _ hx => hx) (fun _ hx => absurd hx List.not_mem_nil)
  change (⟨_, _, [wc.wrId]⟩ : Pool ℕ) = ⟨_, _, r.pc.held⟩
  rw [hpc]
  rfl

/-- **The device completes a receive**: the other buffers keep what they hold, since none
of them is the one it writes. -/
theorem complete (h : UdCirculation r) {j : ℕ} {wr : RecvWr} {wc : UdWc} {pool : List UInt8}
    (hwr : r.rq[j]? = some wr) (hid : wc.wrId = wr.wrId) (hlen : pool.length = r.pool.length)
    (hold : ∀ x : UdWc, x.wrId ≠ wr.wrId → x.Holds r.pool → x.Holds pool) (hnew : wc.Holds pool) :
    UdCirculation { r with rq := r.rq.eraseIdx j, pool := pool, cq := r.cq ++ [wc] } := by
  have hmem : wr ∈ r.rq := List.mem_of_getElem? hwr
  have hmove : Pool.Move r.buffers
      { r with rq := r.rq.eraseIdx j, pool := pool, cq := r.cq ++ [wc] : UdReceiver }.buffers := by
    refine .complete wr.wrId ?_ ?_ rfl
    · obtain ⟨hj, rfl⟩ := List.getElem?_eq_some_iff.mp hwr
      exact (List.getElem_cons_eraseIdx_perm hj).symm.map _
    · change ((r.cq ++ [wc]).map _).Perm _
      rw [List.map_append, ← hid]
      exact List.perm_append_singleton _ _
  -- a completed buffer is not posted
  have hother : ∀ x ∈ r.pc.current ++ r.cq, x.wrId ≠ wr.wrId := by
    intro x hx heq
    have hposted : wr.wrId ∈ r.buffers.place .posted := List.mem_map_of_mem hmem
    rcases List.mem_append.mp hx with hx | hx
    · have hheld : wr.wrId ∈ r.buffers.place .held := by
        change wr.wrId ∈ r.pc.held
        cases hpc : r.pc with
        | print i y =>
          rw [hpc] at hx
          rw [← heq, List.mem_singleton.mp hx]
          exact List.mem_singleton_self _
        | _ =>
          rw [hpc] at hx
          exact absurd hx List.not_mem_nil
      exact absurd (Pool.stage_unique h.nodup hposted hheld) nofun
    · have hcompleted : wr.wrId ∈ r.buffers.place .completed := heq ▸ List.mem_map_of_mem hx
      exact absurd (Pool.stage_unique h.nodup hposted hcompleted) nofun
  exact {
    length := hlen.trans h.length
    addrs := fun x hx => h.addrs x (List.mem_of_mem_eraseIdx hx)
    started := h.started
    circulates := hmove.perm.trans h.circulates
    data := by
      rw [← List.append_assoc]
      exact List.forall_mem_append.mpr
        ⟨fun x hx => hold x (hother x hx) (h.data x hx), List.forall_mem_singleton.mpr hnew⟩
    current := h.current }

theorem receive (h : UdCirculation r) {j : ℕ} {wr : RecvWr} {grh : Grh} {payload : List UInt8}
    (hwr : r.rq[j]? = some wr) (hdata : UdDatagram payload) :
    UdCirculation (r.receive wr (r.rq.eraseIdx j) grh payload) := by
  have hmem : wr ∈ r.rq := List.mem_of_getElem? hwr
  obtain ⟨haddr, hlen⟩ := h.addrs wr hmem
  have hfit : grhSize + payload.length ≤ udBufSize := Nat.add_le_add_left hdata.length_le _
  have hle : recvBuf wr.wrId + udBufSize ≤ r.pool.length :=
    h.length ▸ slot_le (h.posted_lt hmem)
  have hbytes : (grh.raw ++ payload).length ≤ udBufSize := by
    rw [List.length_append, grh.length_raw]
    exact hfit
  rw [UdReceiver.receive, if_pos (hlen ▸ hfit), haddr]
  exact h.complete hwr rfl (length_overlay (by omega))
    (fun x hne hx => hx.overlay hne hbytes (h.posted_lt hmem) h.length)
    (UdWc.holds_receive hdata (by omega))

theorem recvError (h : UdCirculation r) {j : ℕ} {wr : RecvWr} {status : WcStatus}
    (hwr : r.rq[j]? = some wr) (hstatus : status ≠ .success) :
    UdCirculation { r with rq := r.rq.eraseIdx j, cq := r.cq ++ [⟨wr.wrId, status, 0, []⟩] } :=
  h.complete hwr rfl rfl (fun _ _ hx => hx) fun heq => absurd heq hstatus

end UdCirculation

/-! ### Runs -/

/-- **A line shows its datagram**: the text of a message, and its length with the null
byte. -/
def UdLine.Shown (line : UdLine) : Prop :=
  ∃ i < 2 ^ 31, line.payload = udText i ++ [0] ∧ line.text = udText i ∧
    line.length = (udText i).length + 1

/-- **What holds in every state reached.** -/
structure UdPoolInv (st : UdState) : Prop where
  running : st.receiver.pc ≠ .exited → UdCirculation st.receiver
  lines : ∀ line ∈ st.receiver.lines, line.Shown

namespace UdPoolInv

variable {A : UdArgs} {st st' : UdState}

theorem start : UdPoolInv udStart where
  running := fun _ => {
    length := List.length_replicate
    addrs := fun _ h => absurd h List.not_mem_nil
    started := ⟨Nat.zero_le _, fun _ => nofun⟩
    circulates := .refl _
    data := fun _ h => absurd h List.not_mem_nil
    current := fun _ h => absurd h List.not_mem_nil }
  lines := fun _ h => absurd h List.not_mem_nil

/-- At a place of the receiver, the buffers circulate. -/
theorem circulation (h : UdPoolInv st) {pc : UdRecvPc} (hpc : st.receiver.pc = pc)
    (hne : pc ≠ .exited) :
    UdCirculation st.receiver :=
  h.running (hpc ▸ hne)

/-- In front of its loops the receiver only goes on. -/
theorem goto (h : UdPoolInv st) {pc : UdRecvPc}
    (hpc : st.receiver.pc = .syncWrite ∨ st.receiver.pc = .syncRead)
    (hstarted : pc.started = 0) (hheld : pc.held = []) (hcurrent : pc.current = []) :
    UdCirculation { st.receiver with pc := pc } := by
  have hc : UdCirculation st.receiver :=
    h.running (by rcases hpc with hpc | hpc <;> rw [hpc] <;> exact nofun)
  have hzero : st.receiver.pc.started = 0 := by rcases hpc with hpc | hpc <;> rw [hpc] <;> rfl
  have hnone : st.receiver.pc.held = [] := by rcases hpc with hpc | hpc <;> rw [hpc] <;> rfl
  exact {
    length := hc.length
    addrs := hc.addrs
    started := by
      refine ⟨hstarted ▸ Nat.zero_le _, fun i hi => ?_⟩
      obtain rfl : i = 0 := by
        change pc = _ at hi
        rwa [hi] at hstarted
      decide
    circulates := by
      have hperm := hc.circulates
      rw [UdReceiver.buffers, hnone, hzero] at hperm
      rw [UdReceiver.buffers, hheld, hstarted]
      exact hperm
    data := by
      rw [hcurrent]
      exact fun wc hwc => hc.data wc (List.mem_append_right _ hwc)
    current := by
      rw [hcurrent]
      exact fun _ hwc => absurd hwc List.not_mem_nil }

theorem move {l : UdLabel} (h : UdPoolInv st) (hs : UdSenderInv A st) (hm : UdMove A st l st') :
    UdPoolInv st' := by
  cases hm with
  | writeSend | readSend | createAh | format | postSend | pollSend | exitSend | transmit | sendError
  | drop | idle =>
    exact ⟨h.running, h.lines⟩
  | writeRecv ok hpc => exact ⟨fun _ => h.goto (Or.inl hpc) rfl rfl rfl, h.lines⟩
  | readRecv ok hpc => exact ⟨fun _ => h.goto (Or.inr hpc) rfl rfl rfl, h.lines⟩
  | prePost i hpc =>
    have hc := h.circulation hpc nofun
    refine ⟨fun _ => hc.prePost hpc ?_ ?_ ?_, h.lines⟩
    · split
      · rfl
      · rename_i hlt
        rw [(UdReceiver.loopTest_places _ _).2.2]
        exact Nat.le_antisymm (Nat.not_lt.mp hlt) (hc.started.2 i hpc)
    · split
      · exact ⟨rfl, rfl⟩
      · exact ⟨(UdReceiver.loopTest_places _ _).1, (UdReceiver.loopTest_places _ _).2.1⟩
    · intro j hj
      split at hj
      · obtain rfl := UdRecvPc.prePost.inj hj
        assumption
      · rw [UdReceiver.loopTest] at hj
        split at hj <;> cases hj
  | repost i b hpc => exact ⟨fun _ => (h.circulation hpc nofun).repost hpc, h.lines⟩
  | print i wc hpc =>
    have hc := h.circulation hpc nofun
    have hmem : wc ∈ st.receiver.pc.current := hpc ▸ List.mem_singleton_self _
    refine ⟨fun _ => hc.print hpc, List.forall_mem_append.mpr
      ⟨h.lines, List.forall_mem_singleton.mpr ?_⟩⟩
    obtain ⟨k, hk, hpayload, htext, hlen⟩ :=
      (hc.data wc (List.mem_append_left _ hmem)).printed (hc.current wc hmem)
    exact ⟨k, hk, hpayload, htext, hlen⟩
  | pollRecv i wc cq hpc hcq hstatus =>
    exact ⟨fun _ => (h.circulation hpc nofun).poll hpc hcq hstatus, h.lines⟩
  | exitRecv l cq hl => exact ⟨fun hne => absurd rfl hne, h.lines⟩
  | recvError j status wr hwr hstatus =>
    exact ⟨fun hne => (h.running hne).recvError hwr hstatus, h.lines⟩
  | receive n j grh payload wr hn hwr =>
    have hdata := hs.sent payload (List.mem_of_getElem? hn)
    have hsame : (st.receiver.receive wr (st.receiver.rq.eraseIdx j) grh payload).pc =
          st.receiver.pc ∧
        (st.receiver.receive wr (st.receiver.rq.eraseIdx j) grh payload).lines =
          st.receiver.lines := by
      rw [UdReceiver.receive]
      split <;> exact ⟨rfl, rfl⟩
    refine ⟨fun hne => (h.running (hsame.1 ▸ hne)).receive hwr hdata, ?_⟩
    change ∀ line ∈ (st.receiver.receive wr _ grh payload).lines, _
    rw [hsame.2]
    exact h.lines

theorem of_reach (h : (udLts A).Reach Lts.any st) : UdPoolInv st := by
  refine h.invariant_of (J := UdSenderInv A) (fun a ha => UdSenderInv.of_reach ha) ?_
    fun a l b hs ha _ hstep => ha.move hs (UdState.next_move hstep)
  rintro a rfl
  exact start

end UdPoolInv

/-- **What the pool promises**, at every step of the receiver. -/
structure UdPoolOk (r : UdReceiver) : Prop where
  /-- A buffer that has been posted for the first time is in exactly one place, -/
  one : ∀ k < r.pc.started, ∃! t, k ∈ r.buffers.place t
  /-- one that has not is in none, -/
  none : ∀ k, r.pc.started ≤ k → ∀ t, k ∉ r.buffers.place t
  /-- and no buffer is in a place twice. -/
  once : ∀ t, (r.buffers.place t).Nodup
  /-- Behind the first loop all have been posted. -/
  all : r.pc ≠ .syncWrite → r.pc ≠ .syncRead → (∀ i, r.pc ≠ .prePost i) → r.pc.started = numRecvBufs
  /-- The index a completion names is in range. -/
  range : ∀ t, ∀ k ∈ r.buffers.place t, k < numRecvBufs
  /-- A receive that is posted names the buffer of its index. -/
  addrs : ∀ wr ∈ r.rq, wr.addr = recvBuf wr.wrId ∧ wr.length = udBufSize
  inside : ∀ k < numRecvBufs, recvBuf k + udBufSize ≤ r.pool.length
  disjoint : ∀ k k', k ≠ k' → recvBuf k + udBufSize ≤ recvBuf k' ∨
    recvBuf k' + udBufSize ≤ recvBuf k
  capacity : r.rq.length ≤ udMaxRecvWr

theorem UdCirculation.ok {r : UdReceiver} (h : UdCirculation r) : UdPoolOk r where
  one := fun k hk => Pool.existsUnique_stage h.nodup (h.mem_all_iff.mpr hk)
  none := fun k hk t hmem =>
    absurd (h.mem_all_iff.mp (Pool.mem_all_iff.mpr ⟨t, hmem⟩)) (Nat.not_lt.mpr hk)
  once := fun t => Pool.nodup_place h.nodup t
  all := by
    intro hw hr hp
    cases hpc : r.pc with
    | syncWrite => exact absurd hpc hw
    | syncRead => exact absurd hpc hr
    | prePost i => exact absurd hpc (hp i)
    | _ => rfl
  range := fun _ _ hmem => h.lt_of_mem hmem
  addrs := h.addrs
  inside := fun _ hk => h.length ▸ slot_le hk
  disjoint := fun _ _ hne => slot_disjoint hne
  capacity := h.length_rq_le.trans (Nat.le_add_right _ _)

/-- **The pool of the receiver**: for all messages and whatever the fabric does with the
datagrams, the promise of the pool is kept as long as the receiver runs, and every line
shows the datagram of the completion it was printed for. -/
theorem ud_pool (A : UdArgs) (st : UdState) (h : (udLts A).Reach Lts.any st) :
    (st.receiver.pc ≠ .exited → UdPoolOk st.receiver) ∧ ∀ line ∈ st.receiver.lines, line.Shown := by
  have hinv := UdPoolInv.of_reach h
  exact ⟨fun hne => (hinv.running hne).ok, hinv.lines⟩

/-- The line of one message. -/
theorem ud_pool_one : ∃ st, (udLts udOne).Reach Lts.any st ∧ UdPoolOk st.receiver ∧
    st.receiver.lines = [⟨0, ascii "UD datagram #0 from sender", 27,
      ascii "UD datagram #0 from sender" ++ [0]⟩] := by
  have hrun : (Lts.exec (UdState.next udOne) Lts.any udStart
      (udSend ++ List.replicate 17 (.call .server true) ++ [.deliver 0 3 zeroGrh,
        .poll .server .one, .cpu .server, .call .server true])).map
        (fun st => (st.receiver.pc, st.receiver.lines)) =
      some (.done, [⟨0, ascii "UD datagram #0 from sender", 27,
        ascii "UD datagram #0 from sender" ++ [0]⟩]) := by
    decide +kernel
  obtain ⟨st, hs, hview⟩ := Option.map_eq_some_iff.mp hrun
  obtain ⟨hdone, hlines⟩ := Prod.mk.inj hview
  have hr : (udLts udOne).Reach Lts.any st := ⟨_, rfl, Lts.path_of_exec hs⟩
  exact ⟨st, hr, (ud_pool udOne st hr).1 (by rw [hdone]; exact nofun), hlines⟩

/-- **Before its first post a buffer is nowhere**: behind the synchronization no buffer is
posted, completed or worked on. -/
theorem ud_pool_unstarted : ¬∀ st, (udLts udOne).Reach Lts.any st → st.receiver.pc ≠ .exited →
    ∀ k < numRecvBufs, ∃! t, k ∈ st.receiver.buffers.place t := by
  intro hall
  have hrun : (Lts.exec (UdState.next udOne) Lts.any udStart
      [.call .server true, .call .server false]).map
      (fun st => (st.receiver.pc, st.receiver.rq, st.receiver.cq)) = some (.prePost 0, [], []) := by
    decide +kernel
  obtain ⟨st, hs, hview⟩ := Option.map_eq_some_iff.mp hrun
  obtain ⟨hpc, hrest⟩ := Prod.mk.inj hview
  obtain ⟨hrq, hcq⟩ := Prod.mk.inj hrest
  obtain ⟨t, ht, -⟩ := hall st ⟨_, rfl, Lts.path_of_exec hs⟩ (by rw [hpc]; exact nofun) 0
    (by decide)
  rw [UdReceiver.buffers, hpc, hrq, hcq] at ht
  cases t <;> exact absurd ht List.not_mem_nil

end RdmaBook
