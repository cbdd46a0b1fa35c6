import RdmaBook.Lib.Pool
import RdmaBook.Srq.Program

/-!
# What the shared receive queue conserves

The buffers of the shared queue circulate like those of one receiver
(`RdmaBook.SrqCirculation`), whichever message takes which of them; and one counter that
counts both kinds of completion is enough, since every message has exactly one of each
kind (`RdmaBook.SrqCounts`). So the loop of `run_demo` has seen all receives when it has
counted twice the number of pairs, every string it prints is the one sent on the pair of
the completion, and the queue is full again at the end (`RdmaBook.srq_conserves`).
-/

namespace RdmaBook

open CString Stream

/-! ### The moves -/

/-- **The moves of a run without failures.** -/
inductive SrqMove (P : SrqParams) (st : SrqState) : SrqState → Prop
  | format (i : ℕ) (hpc : st.pc = .format i) :
      SrqMove P st { st with
        sendBufs := Function.update st.sendBufs i
          (snprintf (st.sendBufs i) srqBufferSize (srqText P i))
        pc := .postSend i (strlen (snprintf (st.sendBufs i) srqBufferSize (srqText P i)) 0 + 1) }
  | postSend (i len : ℕ) (hpc : st.pc = .postSend i len) :
      SrqMove P st { st with
        wire := st.wire ++ [⟨100 + i, i, len⟩]
        sends := st.sends ++ [⟨100 + i, i, len⟩]
        pc := if i + 1 < P.numQps then .format (i + 1) else SrqState.pollTest P st.completed }
  | pollRecv (wc : SrqWc) (cq : List SrqWc) (hpc : st.pc = .poll) (hcq : st.cq = wc :: cq)
      (hop : wc.opcode = .recv) :
      SrqMove P st { st with
        cq := cq, completed := st.completed + 1, recvCount := st.recvCount + 1, pc := .print wc }
  | pollSend (wc : SrqWc) (cq : List SrqWc) (hpc : st.pc = .poll) (hcq : st.cq = wc :: cq)
      (hop : wc.opcode ≠ .recv) :
      SrqMove P st { st with
        cq := cq, completed := st.completed + 1, pc := SrqState.pollTest P (st.completed + 1) }
  | print (wc : SrqWc) (hpc : st.pc = .print wc) :
      SrqMove P st { st with
        lines := st.lines ++ [⟨wc.wrId, wc.byteLen, wc.qpNum, str st.pool (getBuffer wc.wrId),
          wc.pair⟩]
        pc := .clear wc.wrId }
  | clear (b : ℕ) (hpc : st.pc = .clear b) :
      SrqMove P st { st with
        pool := overlay st.pool (getBuffer b) (List.replicate srqBufferSize 0), pc := .repost b }
  | repost (b : ℕ) (hpc : st.pc = .repost b) :
      SrqMove P st { st with
        srq := st.srq ++ [srqRecvWr b], pc := SrqState.pollTest P st.completed }
  | arrive (m j : ℕ) (wr : SrqSendWr) (rwr : RecvWr) (hm : st.wire[m]? = some wr)
      (hj : st.srq[j]? = some rwr) :
      SrqMove P st { st with
        wire := st.wire.eraseIdx m
        srq := st.srq.eraseIdx j
        pool := overlay st.pool rwr.addr ((st.sendBufs wr.pair).take wr.length)
        receives := st.receives ++ [⟨rwr.wrId, .success, .recv,
          ((st.sendBufs wr.pair).take wr.length).length, P.recvQpn wr.pair, wr.pair⟩] }
  | sendCqe (k : ℕ) (wr : SrqSendWr) (hk : st.sends[k]? = some wr) :
      SrqMove P st { st with
        sends := st.sends.eraseIdx k
        cq := st.cq ++ [⟨wr.wrId, .success, .send, 0, P.sendQpn wr.pair, wr.pair⟩] }
  | recvCqe (k : ℕ) (wc : SrqWc) (hk : st.receives[k]? = some wc) :
      SrqMove P st { st with
        receives := st.receives.eraseIdx k
        cq := st.cq ++ [{ wc with status := .success }] }
  | idle : SrqMove P st st
  /-- A completion with an error is polled. -/
  | fail (wc : SrqWc) (st' : SrqState) (hwc : wc ∈ st.cq) (hstatus : wc.status ≠ .success) :
      SrqMove P st st'

section Moves

variable {P : SrqParams} {st st' : SrqState}

theorem SrqState.poll_move {ret : PollRet} (hret : ret ≠ .failed) (hs : st.poll P ret = some st') :
    SrqMove P st st' := by
  unfold SrqState.poll at hs
  split at hs
  · rename_i hpc
    cases ret with
    | failed => exact absurd rfl hret
    | empty =>
      simp only at hs
      split at hs
      · exact Option.some.inj hs ▸ .idle
      · cases hs
    | one =>
      simp only at hs
      split at hs
      · cases hs
      · rename_i wc cq hcq
        obtain rfl := Option.some.inj hs
        split
        · rename_i hstatus
          exact .fail wc _ (hcq ▸ List.mem_cons_self) hstatus
        · split
          · rename_i hop
            exact .pollRecv wc cq hpc hcq hop
          · rename_i hop
            exact .pollSend wc cq hpc hcq hop
  · cases hs

/-- **Every step of a run without failures is one of the moves.** -/
theorem SrqState.next_move {l : SrqLabel} (hok : SrqNoFailure st l) (hs : st.next P l = some st') :
    SrqMove P st st' := by
  cases l with
  | cpu =>
    change st.cpu P = _ at hs
    unfold SrqState.cpu at hs
    split at hs
    · rename_i i hpc
      exact Option.some.inj hs ▸ .format i hpc
    · rename_i wc hpc
      exact Option.some.inj hs ▸ .print wc hpc
    · rename_i b hpc
      exact Option.some.inj hs ▸ .clear b hpc
    · cases hs
  | call ok =>
    obtain rfl : ok = true := hok
    change st.call P true = _ at hs
    unfold SrqState.call at hs
    split at hs
    · rename_i i len hpc
      exact Option.some.inj hs ▸ .postSend i len hpc
    · rename_i b hpc
      exact Option.some.inj hs ▸ .repost b hpc
    · cases hs
  | poll ret => exact SrqState.poll_move hok hs
  | arrive m j =>
    obtain ⟨wr, hm, hs⟩ := Option.bind_eq_some_iff.mp hs
    obtain ⟨rwr, hj, rfl⟩ := Option.map_eq_some_iff.mp hs
    exact .arrive m j wr rwr hm hj
  | sendCqe k status =>
    obtain rfl : status = .success := hok
    obtain ⟨wr, hk, rfl⟩ := Option.map_eq_some_iff.mp hs
    exact .sendCqe k wr hk
  | recvCqe k status =>
    obtain rfl : status = .success := hok
    obtain ⟨wc, hk, rfl⟩ := Option.map_eq_some_iff.mp hs
    exact .recvCqe k wc hk

end Moves

/-! ### The counters -/

/-- The number of sends that have been posted. -/
def SrqPc.sent (n : ℕ) : SrqPc → ℕ
  | .format i => i
  | .postSend i _ => i
  | _ => n

/-- The number of receives that have been polled and not printed. -/
def SrqPc.unprinted : SrqPc → ℕ
  | .print _ => 1
  | _ => 0

/-- What holds at a place of `run_demo`. -/
def SrqPc.CountOk (n completed : ℕ) : SrqPc → Prop
  | .format i => i < n ∧ completed = 0
  | .postSend i _ => i < n ∧ completed = 0
  | .poll => completed < n * 2
  | .print _ => completed ≤ n * 2
  | .clear _ => completed ≤ n * 2
  | .repost _ => completed ≤ n * 2
  | .done => completed = n * 2
  | .failed => False

/-- The number of completions of receives in a queue. -/
def countRecv (cq : List SrqWc) : ℕ := cq.countP fun wc => wc.opcode = .recv

/-- The number of the other completions. -/
def countSend (cq : List SrqWc) : ℕ := cq.countP fun wc => wc.opcode ≠ .recv

/-- **The two accounts**: every send that has been posted has not completed, has its
completion in the queue, or has been polled; and its message has not arrived, has not
completed, has its completion in the queue, or has been polled. -/
structure SrqCounts (P : SrqParams) (st : SrqState) : Prop where
  place : st.pc.CountOk P.numQps st.completed
  sends : st.pc.sent P.numQps + st.recvCount = st.sends.length + countSend st.cq + st.completed
  receives : st.pc.sent P.numQps =
    st.wire.length + st.receives.length + countRecv st.cq + st.recvCount
  printed : st.lines.length + st.pc.unprinted = st.recvCount
  statuses : ∀ wc ∈ st.cq, wc.status = .success
  opcodes : ∀ wc ∈ st.receives, wc.opcode = .recv

namespace SrqCounts

variable {P : SrqParams} {st st' : SrqState}

theorem pollTest_spec (completed : ℕ) (h : completed ≤ P.numQps * 2) :
    (SrqState.pollTest P completed).CountOk P.numQps completed ∧
      (SrqState.pollTest P completed).sent P.numQps = P.numQps ∧
      (SrqState.pollTest P completed).unprinted = 0 := by
  rw [SrqState.pollTest]
  split
  · rename_i hlt
    exact ⟨hlt, rfl, rfl⟩
  · rename_i hlt
    exact ⟨Nat.le_antisymm h (Nat.not_lt.mp hlt), rfl, rfl⟩

theorem start : SrqCounts P (srqStart P) where
  place := by
    simp only [srqStart]
    split
    · rename_i hlt
      exact ⟨hlt, rfl⟩
    · rename_i hlt
      change 0 = P.numQps * 2
      omega
  sends := by
    simp only [srqStart]
    split
    · rfl
    · change P.numQps + 0 = 0
      omega
  receives := by
    simp only [srqStart]
    split
    · rfl
    · change P.numQps = 0
      omega
  printed := by
    simp only [srqStart]
    split <;> rfl
  statuses := fun _ h => absurd h List.not_mem_nil
  opcodes := fun _ h => absurd h List.not_mem_nil

theorem countRecv_append (a b : List SrqWc) : countRecv (a ++ b) = countRecv a + countRecv b :=
  List.countP_append

theorem countSend_append (a b : List SrqWc) : countSend (a ++ b) = countSend a + countSend b :=
  List.countP_append

/-- What is in the queue is polled. -/
theorem countRecv_cons_of_recv {wc : SrqWc} (cq : List SrqWc) (h : wc.opcode = .recv) :
    countRecv (wc :: cq) = countRecv cq + 1 ∧ countSend (wc :: cq) = countSend cq := by
  constructor
  · exact List.countP_cons_of_pos (decide_eq_true h)
  · exact List.countP_cons_of_neg (by simpa using h)

theorem countSend_cons_of_send {wc : SrqWc} (cq : List SrqWc) (h : wc.opcode ≠ .recv) :
    countSend (wc :: cq) = countSend cq + 1 ∧ countRecv (wc :: cq) = countRecv cq := by
  constructor
  · exact List.countP_cons_of_pos (decide_eq_true h)
  · exact List.countP_cons_of_neg (by simpa using h)

/-- No more than two completions for each pair. -/
theorem completed_le (h : SrqCounts P st) : st.completed + countSend st.cq + countRecv st.cq +
    st.sends.length + st.receives.length + st.wire.length = 2 * st.pc.sent P.numQps := by
  have hsends := h.sends
  have hreceives := h.receives
  omega

theorem move (h : SrqCounts P st) (hm : SrqMove P st st') : SrqCounts P st' := by
  have hplace := h.place
  have hsends := h.sends
  have hreceives := h.receives
  have hprinted := h.printed
  cases hm with
  | format i hpc =>
    rw [hpc] at hplace hsends hreceives hprinted
    exact ⟨hplace, hsends, hreceives, hprinted, h.statuses, h.opcodes⟩
  | postSend i len hpc =>
    rw [hpc] at hplace hsends hreceives hprinted
    obtain ⟨hi, hzero⟩ := hplace
    have hpc' : ∀ pc, pc = (if i + 1 < P.numQps then SrqPc.format (i + 1)
        else SrqState.pollTest P st.completed) →
        pc.CountOk P.numQps st.completed ∧ pc.sent P.numQps = i + 1 ∧ pc.unprinted = 0 := by
      rintro pc rfl
      split
      · rename_i hlt
        exact ⟨⟨hlt, hzero⟩, rfl, rfl⟩
      · obtain ⟨hok, hsent, hun⟩ := pollTest_spec (P := P) st.completed (by omega)
        exact ⟨hok, by omega, hun⟩
    obtain ⟨hok, hsent, hun⟩ := hpc' _ rfl
    refine ⟨hok, ?_, ?_, ?_, h.statuses, h.opcodes⟩
    · change SrqPc.sent _ (if _ then _ else _) + st.recvCount =
        (st.sends ++ [_]).length + countSend st.cq + st.completed
      rw [hsent, List.length_append, List.length_singleton]
      change i + st.recvCount = _ at hsends
      omega
    · change SrqPc.sent _ (if _ then _ else _) =
        (st.wire ++ [_]).length + st.receives.length + countRecv st.cq + st.recvCount
      rw [hsent, List.length_append, List.length_singleton]
      change i = _ at hreceives
      omega
    · change st.lines.length + SrqPc.unprinted (if _ then _ else _) = st.recvCount
      rw [hun]
      exact hprinted
  | pollRecv wc cq hpc hcq hop =>
    rw [hpc] at hplace hsends hreceives hprinted
    obtain ⟨hrecv, hsend⟩ := countRecv_cons_of_recv cq hop
    rw [hcq, hsend] at hsends
    rw [hcq, hrecv] at hreceives
    refine ⟨hplace, ?_, ?_, congrArg (· + 1) hprinted,
      fun x hx => h.statuses x (hcq ▸ List.mem_cons_of_mem _ hx),
      h.opcodes⟩
    · change P.numQps + (st.recvCount + 1) = st.sends.length + countSend cq + (st.completed + 1)
      rw [← Nat.add_assoc, ← Nat.add_assoc, ← hsends]
      rfl
    · change P.numQps = st.wire.length + st.receives.length + countRecv cq + (st.recvCount + 1)
      change P.numQps = _ at hreceives
      omega
  | pollSend wc cq hpc hcq hop =>
    rw [hpc] at hplace hsends hreceives hprinted
    obtain ⟨hsend, hrecv⟩ := countSend_cons_of_send cq hop
    rw [hcq, hsend] at hsends
    rw [hcq, hrecv] at hreceives
    obtain ⟨hok, hsent, hun⟩ := pollTest_spec (P := P) (st.completed + 1) hplace
    refine ⟨hok, ?_, ?_, ?_, fun x hx => h.statuses x (hcq ▸ List.mem_cons_of_mem _ hx), h.opcodes⟩
    · change SrqPc.sent _ (SrqState.pollTest _ _) + st.recvCount =
        st.sends.length + countSend cq + (st.completed + 1)
      rw [hsent]
      change P.numQps + st.recvCount = _ at hsends
      omega
    · change SrqPc.sent _ (SrqState.pollTest _ _) = _
      rw [hsent]
      exact hreceives
    · change st.lines.length + SrqPc.unprinted (SrqState.pollTest _ _) = st.recvCount
      rw [hun]
      exact hprinted
  | print wc hpc =>
    rw [hpc] at hplace hsends hreceives hprinted
    refine ⟨hplace, hsends, hreceives, ?_, h.statuses, h.opcodes⟩
    change (st.lines ++ [_]).length + 0 = st.recvCount
    rw [List.length_append]
    exact hprinted
  | clear b hpc =>
    rw [hpc] at hplace hsends hreceives hprinted
    exact ⟨hplace, hsends, hreceives, hprinted, h.statuses, h.opcodes⟩
  | repost b hpc =>
    rw [hpc] at hplace hsends hreceives hprinted
    obtain ⟨hok, hsent, hun⟩ := pollTest_spec (P := P) _ hplace
    refine ⟨hok, ?_, ?_, ?_, h.statuses, h.opcodes⟩
    · change SrqPc.sent _ (SrqState.pollTest _ _) + st.recvCount = _
      rw [hsent]
      exact hsends
    · change SrqPc.sent _ (SrqState.pollTest _ _) = _
      rw [hsent]
      exact hreceives
    · change st.lines.length + SrqPc.unprinted (SrqState.pollTest _ _) = st.recvCount
      rw [hun]
      exact hprinted
  | arrive m j wr rwr hm hj =>
    have hlt := (List.getElem?_eq_some_iff.mp hm).1
    refine ⟨hplace, hsends, ?_, hprinted, h.statuses, ?_⟩
    · change st.pc.sent _ = (st.wire.eraseIdx m).length + (st.receives ++ [_]).length +
        countRecv st.cq + st.recvCount
      rw [List.length_eraseIdx_of_lt hlt, List.length_append, List.length_singleton]
      omega
    · exact List.forall_mem_append.mpr ⟨h.opcodes, List.forall_mem_singleton.mpr rfl⟩
  | sendCqe k wr hk =>
    have hlt := (List.getElem?_eq_some_iff.mp hk).1
    refine ⟨hplace, ?_, ?_, hprinted, ?_, h.opcodes⟩
    · change st.pc.sent _ + st.recvCount =
        (st.sends.eraseIdx k).length + countSend (st.cq ++ [_]) + st.completed
      rw [List.length_eraseIdx_of_lt hlt, countSend_append]
      change _ = _ + (_ + 1) + _
      omega
    · change st.pc.sent _ = st.wire.length + st.receives.length + countRecv (st.cq ++ [_]) +
        st.recvCount
      rw [countRecv_append]
      exact hreceives
    · exact List.forall_mem_append.mpr ⟨h.statuses, List.forall_mem_singleton.mpr rfl⟩
  | recvCqe k wc hk =>
    have hlt := (List.getElem?_eq_some_iff.mp hk).1
    have hop : wc.opcode = .recv := h.opcodes wc (List.mem_of_getElem? hk)
    obtain ⟨hrecv, hsend⟩ := @countRecv_cons_of_recv { wc with status := .success } [] hop
    refine ⟨hplace, ?_, ?_, hprinted, ?_, fun x hx => h.opcodes x (List.mem_of_mem_eraseIdx hx)⟩
    · change _ = st.sends.length + countSend (st.cq ++ [_]) + st.completed
      rw [countSend_append, hsend]
      exact hsends
    · change st.pc.sent _ =
        st.wire.length + (st.receives.eraseIdx k).length + countRecv (st.cq ++ [_]) + st.recvCount
      rw [List.length_eraseIdx_of_lt hlt, countRecv_append, hrecv]
      change _ = _ + _ + (_ + (0 + 1)) + _
      omega
    · exact List.forall_mem_append.mpr ⟨h.statuses, List.forall_mem_singleton.mpr rfl⟩
  | idle => exact h
  | fail wc _ hwc hstatus => exact absurd (h.statuses wc hwc) hstatus

theorem of_reach (h : (srqLts P).Reach SrqNoFailure st) : SrqCounts P st := by
  refine h.invariant ?_ fun a l b ha hok hs => ha.move (SrqState.next_move hok hs)
  rintro a rfl
  exact start

end SrqCounts

/-! ### The text of a message -/

theorem zero_notMem_srqText (P : SrqParams) (i : ℕ) : (0 : UInt8) ∉ srqText P i := by
  rw [srqText]
  simp only [List.mem_append]
  rintro ((((h | h) | h) | h) | h)
  · exact absurd h (by decide)
  · exact zero_notMem_decimal h
  · exact absurd h (by decide)
  · exact zero_notMem_decimal h
  · exact absurd h (by decide)

/-- The text of a message is shorter than its buffer. -/
theorem length_srqText_lt {P : SrqParams} {i : ℕ} (h : i < P.numQps) :
    (srqText P i).length < srqBufferSize := by
  have hi : i < 10 ^ 10 := by
    have hmax : P.numQps ≤ srqMaxWr := P.numQps_le.trans P.numBufs_le
    have h64 : srqMaxWr = 64 := rfl
    omega
  have hqpn : (P.sendQpn i).toNat < 10 ^ 10 := (UInt32.toNat_lt _).trans (by decide)
  have hdigits : (decimal 0 i).length ≤ 10 := length_decimal_le (by decide) hi
  have hdigits' : (decimal 0 (P.sendQpn i).toNat).length ≤ 10 := length_decimal_le (by decide) hqpn
  have h₁ : (ascii "Message from QP ").length = 16 := by decide
  have h₂ : (ascii " (qpn=").length = 6 := by decide
  have h₃ : (ascii ")").length = 1 := by decide
  have hsize : srqBufferSize = 256 := rfl
  rw [srqText]
  simp only [List.length_append]
  omega

/-- A buffer begins with the message of a pair. -/
def SrqMessage (P : SrqParams) (buf : List UInt8) (i len : ℕ) : Prop :=
  i < P.numQps ∧ buf.take len = srqText P i ++ [0]

/-- **What `run_demo` formats is the message**, and `strlen` finds its end. -/
theorem srqMessage_format {P : SrqParams} {buf : List UInt8} {i : ℕ} (hi : i < P.numQps) :
    SrqMessage P (snprintf buf srqBufferSize (srqText P i)) i
      (strlen (snprintf buf srqBufferSize (srqText P i)) 0 + 1) := by
  have htake : (snprintf buf srqBufferSize (srqText P i)).take (srqText P i ++ [0]).length =
      srqText P i ++ [0] := by
    rw [snprintf_of_lt (length_srqText_lt hi), take_overlay_zero]
  have hstr : strlen (snprintf buf srqBufferSize (srqText P i)) 0 = (srqText P i).length := by
    rw [strlen, str_of_prefix (zero_notMem_srqText P i) (htake ▸ List.take_prefix _ _)]
  rw [List.length_append, List.length_singleton] at htake
  exact ⟨hi, by rw [hstr, htake]⟩

/-! ### Where the buffers are -/

/-- The buffer `run_demo` works on. -/
def SrqPc.held : SrqPc → List ℕ
  | .print wc => [wc.wrId]
  | .clear b => [b]
  | .repost b => [b]
  | _ => []

/-- The completion `run_demo` is about to print. -/
def SrqPc.current : SrqPc → List SrqWc
  | .print wc => [wc]
  | _ => []

/-- The buffer of a completion, where it is that of a receive. -/
def SrqWc.buffer (wc : SrqWc) : Option ℕ := if wc.opcode = .recv then some wc.wrId else none

/-- **The buffers of the shared queue**, by where they are. -/
def SrqState.buffers (st : SrqState) : Pool ℕ :=
  ⟨st.srq.map RecvWr.wrId, (st.receives ++ st.cq).filterMap SrqWc.buffer, st.pc.held⟩

/-- **The buffer of a receive holds the message of its pair.** -/
def SrqWc.Holds (P : SrqParams) (pool : List UInt8) (wc : SrqWc) : Prop :=
  wc.opcode = .recv → wc.pair < P.numQps ∧ wc.qpNum = P.recvQpn wc.pair ∧
    wc.byteLen = (srqText P wc.pair).length + 1 ∧
    window pool (getBuffer wc.wrId) (getBuffer wc.wrId + wc.byteLen) = srqText P wc.pair ++ [0]

/-- A receive keeps its message when another buffer is written. -/
theorem SrqWc.Holds.overlay {P : SrqParams} {pool d : List UInt8} {wc : SrqWc} {b : ℕ}
    (h : wc.Holds P pool) (hne : wc.opcode = .recv → wc.wrId ≠ b) (hd : d.length ≤ srqBufferSize)
    (hb : b < P.numBufs) (hpool : pool.length = P.numBufs * srqBufferSize) :
    wc.Holds P (overlay pool (getBuffer b) d) := by
  intro hop
  obtain ⟨hpair, hqpn, hlen, hwin⟩ := h hop
  have hle : wc.byteLen ≤ srqBufferSize := hlen ▸ length_srqText_lt hpair
  have hkeep := window_overlay_slot (a := 0) (hne hop) hb hpool hd hle
  rw [Nat.add_zero] at hkeep
  exact ⟨hpair, hqpn, hlen, hkeep.trans hwin⟩

/-- The message of a pair arrives in a buffer. -/
theorem SrqMessage.holds {P : SrqParams} {buf pool : List UInt8} {i len b : ℕ}
    (h : SrqMessage P buf i len) (hb : getBuffer b ≤ pool.length) :
    SrqWc.Holds P (overlay pool (getBuffer b) (buf.take len))
      ⟨b, .success, .recv, (buf.take len).length, P.recvQpn i, i⟩ := by
  intro _
  have hlen : (buf.take len).length = (srqText P i).length + 1 := by
    rw [h.2, List.length_append, List.length_singleton]
  have hwin := window_overlay_append (x := []) (y := buf.take len) hb
  rw [List.length_nil, Nat.add_zero, List.nil_append] at hwin
  exact ⟨h.1, rfl, hlen, hwin.trans h.2⟩

/-- **A line shows the message of its pair.** -/
def SrqLine.Shown (P : SrqParams) (line : SrqLine) : Prop :=
  line.pair < P.numQps ∧ line.qpNum = P.recvQpn line.pair ∧ line.text = srqText P line.pair ∧
    line.byteLen = (srqText P line.pair).length + 1

/-- **What is printed for a receive** is the message of its pair. -/
theorem SrqWc.Holds.shown {P : SrqParams} {pool : List UInt8} {wc : SrqWc} (h : wc.Holds P pool)
    (hop : wc.opcode = .recv) :
    SrqLine.Shown P ⟨wc.wrId, wc.byteLen, wc.qpNum, str pool (getBuffer wc.wrId), wc.pair⟩ := by
  obtain ⟨hpair, hqpn, hlen, hwin⟩ := h hop
  exact ⟨hpair, hqpn, str_of_window (zero_notMem_srqText P _) hwin, hlen⟩

/-! ### The circulation -/

/-- **The circulation of the buffers**, and what is in them and on the way to them. -/
structure SrqCirculation (P : SrqParams) (st : SrqState) : Prop where
  length : st.pool.length = P.numBufs * srqBufferSize
  addrs : ∀ rwr ∈ st.srq, rwr = srqRecvWr rwr.wrId
  circulates : st.buffers.all.Perm (List.range P.numBufs)
  posting : ∀ i len, st.pc = .postSend i len → SrqMessage P (st.sendBufs i) i len
  wire : ∀ wr ∈ st.wire, wr.pair < st.pc.sent P.numQps ∧
    SrqMessage P (st.sendBufs wr.pair) wr.pair wr.length
  data : ∀ wc ∈ st.pc.current ++ (st.receives ++ st.cq), wc.Holds P st.pool
  current : ∀ wc ∈ st.pc.current, wc.opcode = .recv
  lines : ∀ line ∈ st.lines, line.Shown P

namespace SrqCirculation

variable {P : SrqParams} {st st' : SrqState}

theorem nodup (h : SrqCirculation P st) : st.buffers.all.Nodup :=
  h.circulates.nodup_iff.mpr List.nodup_range

theorem mem_all_iff (h : SrqCirculation P st) {k : ℕ} : k ∈ st.buffers.all ↔ k < P.numBufs :=
  h.circulates.mem_iff.trans List.mem_range

theorem lt_of_mem (h : SrqCirculation P st) {k : ℕ} {t : Pool.Stage} (hk : k ∈ st.buffers.place t) :
    k < P.numBufs :=
  h.mem_all_iff.mp (Pool.mem_all_iff.mpr ⟨t, hk⟩)

/-- The buffer of a receive that has not been polled is completed. -/
theorem mem_completed {wc : SrqWc} (hwc : wc ∈ st.receives ++ st.cq) (hop : wc.opcode = .recv) :
    wc.wrId ∈ st.buffers.place .completed :=
  List.mem_filterMap.mpr ⟨wc, hwc, if_pos hop⟩

/-- **A buffer that is posted or held is not written while a receive is in it**: the
receives that have not been polled are in other buffers. -/
theorem ne_of_stage (h : SrqCirculation P st) {b : ℕ} {t : Pool.Stage} (hb : b ∈ st.buffers.place t)
    (ht : t ≠ .completed) {wc : SrqWc} (hwc : wc ∈ st.receives ++ st.cq) (hop : wc.opcode = .recv) :
    wc.wrId ≠ b := by
  rintro rfl
  exact ht (Pool.stage_unique h.nodup hb (mem_completed hwc hop))

theorem start : SrqCirculation P (srqStart P) where
  length := List.length_replicate
  addrs := by
    intro rwr hmem
    obtain ⟨i, -, rfl⟩ := List.mem_map.mp hmem
    rfl
  circulates := by
    have hheld : (srqStart P).pc.held = [] := by
      rw [srqStart]
      split <;> rfl
    rw [Pool.all, SrqState.buffers, hheld]
    change (((List.range _).map srqRecvWr).map _ ++ []).Perm _
    rw [List.map_map, List.append_nil]
    exact .of_eq (List.map_id _)
  posting := by
    intro i len hpc
    rw [srqStart] at hpc
    split at hpc <;> cases hpc
  wire := fun _ h => absurd h List.not_mem_nil
  data := by
    have hcurrent : (srqStart P).pc.current = [] := by
      rw [srqStart]
      split <;> rfl
    rw [hcurrent]
    exact fun _ h => absurd h List.not_mem_nil
  current := by
    have hcurrent : (srqStart P).pc.current = [] := by
      rw [srqStart]
      split <;> rfl
    rw [hcurrent]
    exact fun _ h => absurd h List.not_mem_nil
  lines := fun _ h => absurd h List.not_mem_nil

theorem pollTest_places (completed : ℕ) : (SrqState.pollTest P completed).held = [] ∧
    (SrqState.pollTest P completed).current = [] ∧
    (SrqState.pollTest P completed).sent P.numQps = P.numQps ∧
    ∀ i len, SrqState.pollTest P completed ≠ .postSend i len := by
  rw [SrqState.pollTest]
  split <;> exact ⟨rfl, rfl, rfl, fun _ _ => nofun⟩

/-- Behind a post the program holds no buffer. -/
theorem next_places (i completed : ℕ) : ∀ pc, pc = (if i + 1 < P.numQps then SrqPc.format (i + 1)
      else SrqState.pollTest P completed) → pc.held = [] ∧ pc.current = [] ∧
    (i < P.numQps → i + 1 ≤ pc.sent P.numQps) ∧ ∀ j len, pc ≠ .postSend j len := by
  rintro pc rfl
  split
  · exact ⟨rfl, rfl, fun _ => le_rfl, fun _ _ => nofun⟩
  · obtain ⟨hheld, hcurrent, hsent, hne⟩ := pollTest_places (P := P) completed
    exact ⟨hheld, hcurrent, fun hi => (Nat.succ_le_of_lt hi).trans_eq hsent.symm, hne⟩

/-- A step of `run_demo` that leaves the pool of buffers, its bytes and the messages on
their way alone. -/
theorem quiet (h : SrqCirculation P st) (hbuf : st'.buffers = st.buffers)
    (hpool : st'.pool = st.pool)
    (hsrq : st'.srq = st.srq) (hposting : ∀ i len, st'.pc = .postSend i len →
      SrqMessage P (st'.sendBufs i) i len)
    (hwire : ∀ wr ∈ st'.wire, wr.pair < st'.pc.sent P.numQps ∧
      SrqMessage P (st'.sendBufs wr.pair) wr.pair wr.length)
    (hdata : ∀ wc ∈ st'.pc.current ++ (st'.receives ++ st'.cq),
      wc ∈ st.pc.current ++ (st.receives ++ st.cq))
    (hcurrent : ∀ wc ∈ st'.pc.current, wc.opcode = .recv)
    (hlines : ∀ line ∈ st'.lines, line.Shown P) :
    SrqCirculation P st' where
  length := hpool ▸ h.length
  addrs := hsrq ▸ h.addrs
  circulates := hbuf ▸ h.circulates
  posting := hposting
  wire := hwire
  data := fun wc hwc => hpool ▸ h.data wc (hdata wc hwc)
  current := hcurrent
  lines := hlines

theorem format (h : SrqCirculation P st) (hc : SrqCounts P st) {i : ℕ} (hpc : st.pc = .format i) :
    SrqCirculation P { st with
      sendBufs := Function.update st.sendBufs i
        (snprintf (st.sendBufs i) srqBufferSize (srqText P i))
      pc := .postSend i
        (strlen (snprintf (st.sendBufs i) srqBufferSize (srqText P i)) 0 + 1) } := by
  have hplace := hc.place
  rw [hpc] at hplace
  refine h.quiet ?_ rfl rfl ?_ ?_ ?_ (fun _ hx => absurd hx List.not_mem_nil) h.lines
  · rw [SrqState.buffers, SrqState.buffers, hpc]
    rfl
  · rintro j len ⟨⟩
    change SrqMessage P (Function.update st.sendBufs i _ i) i _
    rw [Function.update_self]
    exact srqMessage_format hplace.1
  · -- the messages on their way are those of earlier pairs
    intro wr hwr
    obtain ⟨hlt, hmsg⟩ := h.wire wr hwr
    rw [hpc] at hlt
    have hne : wr.pair ≠ i := Nat.ne_of_lt hlt
    refine ⟨hlt, ?_⟩
    change SrqMessage P (Function.update st.sendBufs i _ wr.pair) _ _
    rw [Function.update_of_ne hne]
    exact hmsg
  · rw [hpc]
    exact fun _ hx => hx

theorem postSend (h : SrqCirculation P st) (hc : SrqCounts P st) {i len : ℕ}
    (hpc : st.pc = .postSend i len) :
    SrqCirculation P { st with
      wire := st.wire ++ [⟨100 + i, i, len⟩]
      sends := st.sends ++ [⟨100 + i, i, len⟩]
      pc := if i + 1 < P.numQps then .format (i + 1) else SrqState.pollTest P st.completed } := by
  have hplace := hc.place
  rw [hpc] at hplace
  obtain ⟨hheld, hcurrent, hsent, hne⟩ := next_places (P := P) i st.completed _ rfl
  have hlt := hsent hplace.1
  refine h.quiet ?_ rfl rfl (fun j len hj => absurd hj (hne j len)) ?_ ?_ ?_ h.lines
  · rw [SrqState.buffers, SrqState.buffers, hpc, hheld]
    rfl
  · refine List.forall_mem_append.mpr ⟨fun wr hwr => ?_,
      List.forall_mem_singleton.mpr ⟨hlt, h.posting i len hpc⟩⟩
    obtain ⟨hpair, hmsg⟩ := h.wire wr hwr
    rw [hpc] at hpair
    exact ⟨(Nat.lt_succ_of_lt hpair).trans_le hlt, hmsg⟩
  · rw [hpc, hcurrent]
    exact fun _ hx => hx
  · rw [hcurrent]
    exact fun _ hx => absurd hx List.not_mem_nil

/-- **A buffer moves**, and nothing is written. -/
theorem of_move (h : SrqCirculation P st) (hm : Pool.Move st.buffers st'.buffers)
    (hpool : st'.pool = st.pool)
    (hsrq : ∀ rwr ∈ st'.srq, rwr = srqRecvWr rwr.wrId) (hbufs : st'.sendBufs = st.sendBufs)
    (hwire : st'.wire = st.wire) (hpc : st'.pc.sent P.numQps = st.pc.sent P.numQps)
    (hposting : ∀ i len, st'.pc ≠ .postSend i len)
    (hdata : ∀ wc ∈ st'.pc.current ++ (st'.receives ++ st'.cq), wc ∈ st.receives ++ st.cq)
    (hcurrent : ∀ wc ∈ st'.pc.current, wc.opcode = .recv) (hlines : st'.lines = st.lines) :
    SrqCirculation P st' where
  length := hpool ▸ h.length
  addrs := hsrq
  circulates := hm.perm.trans h.circulates
  posting := fun i len hi => absurd hi (hposting i len)
  wire := by
    rw [hwire, hpc, hbufs]
    exact h.wire
  data := fun wc hwc => hpool ▸ h.data wc (List.mem_append_right _ (hdata wc hwc))
  current := hcurrent
  lines := hlines ▸ h.lines

theorem pollRecv (h : SrqCirculation P st) {wc : SrqWc} {cq : List SrqWc} (hpc : st.pc = .poll)
    (hcq : st.cq = wc :: cq) (hop : wc.opcode = .recv) : SrqCirculation P { st with
      cq := cq, completed := st.completed + 1, recvCount := st.recvCount + 1,
      pc := .print wc } := by
  refine h.of_move (.take wc.wrId rfl ?_ ?_) rfl h.addrs rfl rfl (by rw [hpc]; rfl)
    (fun _ _ => nofun) ?_
    (List.forall_mem_singleton.mpr hop) rfl
  · change ((st.receives ++ st.cq).filterMap _).Perm (_ :: (st.receives ++ cq).filterMap _)
    rw [hcq, List.filterMap_append, List.filterMap_append, List.filterMap_cons, SrqWc.buffer,
      if_pos hop]
    exact List.perm_middle
  · change [wc.wrId] = wc.wrId :: st.pc.held
    rw [hpc]
    rfl
  · rw [hcq]
    exact fun _ hx => List.perm_middle.mem_iff.mpr hx

theorem pollSend (h : SrqCirculation P st) {wc : SrqWc} {cq : List SrqWc} (hpc : st.pc = .poll)
    (hcq : st.cq = wc :: cq) (hop : wc.opcode ≠ .recv) : SrqCirculation P { st with
      cq := cq, completed := st.completed + 1, pc := SrqState.pollTest P (st.completed + 1) } := by
  obtain ⟨hheld, hcurrent, hsent, hne⟩ := pollTest_places (P := P) (st.completed + 1)
  refine h.quiet ?_ rfl rfl (fun j len hj => absurd hj (hne j len)) ?_ ?_ ?_ h.lines
  · rw [SrqState.buffers, SrqState.buffers, hpc, hcq]
    simp only [hheld, List.filterMap_append, List.filterMap_cons, SrqWc.buffer, if_neg hop]
    rfl
  · rw [hsent]
    have hwire := h.wire
    rw [hpc] at hwire
    exact hwire
  · rw [hpc, hcurrent, hcq]
    exact fun _ hx => List.perm_middle.mem_iff.mpr (List.mem_cons_of_mem _ hx)
  · rw [hcurrent]
    exact fun _ hx => absurd hx List.not_mem_nil

theorem print (h : SrqCirculation P st) {wc : SrqWc} (hpc : st.pc = .print wc) :
    SrqCirculation P { st with
      lines := st.lines ++ [⟨wc.wrId, wc.byteLen, wc.qpNum, str st.pool (getBuffer wc.wrId),
        wc.pair⟩]
      pc := .clear wc.wrId } := by
  have hmem : wc ∈ st.pc.current := hpc ▸ List.mem_singleton_self _
  refine h.quiet ?_ rfl rfl (fun _ _ => nofun) ?_ (fun _ hx => List.mem_append_right _ hx)
    (fun _ hx => absurd hx List.not_mem_nil) ?_
  · rw [SrqState.buffers, SrqState.buffers, hpc]
    rfl
  · have hwire := h.wire
    rw [hpc] at hwire
    exact hwire
  · exact List.forall_mem_append.mpr ⟨h.lines, List.forall_mem_singleton.mpr
      ((h.data wc (List.mem_append_left _ hmem)).shown (h.current wc hmem))⟩

/-- **A buffer is cleared**: `run_demo` holds it, so no message that has not been printed
is in it. -/
theorem clear (h : SrqCirculation P st) {b : ℕ} (hpc : st.pc = .clear b) :
    SrqCirculation P { st with
      pool := overlay st.pool (getBuffer b) (List.replicate srqBufferSize 0),
      pc := .repost b } := by
  have hheld : b ∈ st.buffers.place .held := by
    change b ∈ st.pc.held
    rw [hpc]
    exact List.mem_singleton_self b
  have hb := h.lt_of_mem hheld
  have hlen : (List.replicate srqBufferSize (0 : UInt8)).length = srqBufferSize :=
    List.length_replicate
  have hwire := h.wire
  have hperm := h.circulates
  rw [SrqState.buffers, hpc] at hperm
  rw [hpc] at hwire
  exact {
    length := (length_overlay (by rw [hlen, h.length]; exact slot_le hb)).trans h.length
    addrs := h.addrs
    circulates := hperm
    posting := fun _ _ => nofun
    wire := hwire
    data := fun wc hwc => (h.data wc (List.mem_append_right _ hwc)).overlay
      (fun hop => h.ne_of_stage hheld nofun hwc hop) hlen.le hb h.length
    current := fun _ hx => absurd hx List.not_mem_nil
    lines := h.lines }

theorem repost (h : SrqCirculation P st) {b : ℕ} (hpc : st.pc = .repost b) :
    SrqCirculation P { st with
      srq := st.srq ++ [srqRecvWr b], pc := SrqState.pollTest P st.completed } := by
  obtain ⟨hheld, hcurrent, hsent, hne⟩ := pollTest_places (P := P) st.completed
  refine h.of_move (.give b ?_ rfl ?_) rfl ?_ rfl rfl ?_ hne ?_ ?_ rfl
  · change ((st.srq ++ [srqRecvWr b]).map _).Perm _
    rw [List.map_append]
    exact List.perm_append_singleton _ _
  · change st.pc.held = b :: (SrqState.pollTest P st.completed).held
    rw [hpc, hheld]
    rfl
  · exact List.forall_mem_append.mpr ⟨h.addrs, List.forall_mem_singleton.mpr rfl⟩
  · rw [hpc, hsent]
    rfl
  · rw [hcurrent]
    exact fun _ hx => hx
  · rw [hcurrent]
    exact fun _ hx => absurd hx List.not_mem_nil

/-- **A message arrives** in a posted buffer, whichever it takes. -/
theorem arrive (h : SrqCirculation P st) {m j : ℕ} {wr : SrqSendWr} {rwr : RecvWr}
    (hm : st.wire[m]? = some wr) (hj : st.srq[j]? = some rwr) : SrqCirculation P { st with
      wire := st.wire.eraseIdx m
      srq := st.srq.eraseIdx j
      pool := overlay st.pool rwr.addr ((st.sendBufs wr.pair).take wr.length)
      receives := st.receives ++ [⟨rwr.wrId, .success, .recv,
        ((st.sendBufs wr.pair).take wr.length).length, P.recvQpn wr.pair, wr.pair⟩] } := by
  obtain ⟨-, hmsg⟩ := h.wire wr (List.mem_of_getElem? hm)
  have hmem := List.mem_of_getElem? hj
  have hposted : rwr.wrId ∈ st.buffers.place .posted := List.mem_map_of_mem hmem
  have hb := h.lt_of_mem hposted
  have haddr : rwr.addr = getBuffer rwr.wrId := congrArg RecvWr.addr (h.addrs rwr hmem)
  have hlen : ((st.sendBufs wr.pair).take wr.length).length ≤ srqBufferSize := by
    rw [hmsg.2, List.length_append, List.length_singleton]
    exact length_srqText_lt hmsg.1
  have hle : getBuffer rwr.wrId + srqBufferSize ≤ st.pool.length := h.length ▸ slot_le hb
  have hmove : Pool.Move st.buffers { st with
      wire := st.wire.eraseIdx m
      srq := st.srq.eraseIdx j
      pool := overlay st.pool rwr.addr ((st.sendBufs wr.pair).take wr.length)
      receives := st.receives ++ [⟨rwr.wrId, .success, .recv,
        ((st.sendBufs wr.pair).take wr.length).length, P.recvQpn wr.pair, wr.pair⟩] :
        SrqState }.buffers := by
    refine .complete rwr.wrId ?_ ?_ rfl
    · obtain ⟨hlt, rfl⟩ := List.getElem?_eq_some_iff.mp hj
      exact (List.getElem_cons_eraseIdx_perm hlt).symm.map _
    · change ((st.receives ++ [_] ++ st.cq).filterMap _).Perm
        (_ :: (st.receives ++ st.cq).filterMap _)
      rw [List.append_assoc, List.filterMap_append, List.filterMap_append, List.filterMap_append]
      exact List.perm_middle
  -- no receive that has not been printed is in a posted buffer
  have hother : ∀ wc ∈ st.pc.current ++ (st.receives ++ st.cq), wc.opcode = .recv →
      wc.wrId ≠ rwr.wrId := by
    intro wc hwc hop
    rcases List.mem_append.mp hwc with hwc | hwc
    · rintro heq
      have hheld : rwr.wrId ∈ st.buffers.place .held := by
        change rwr.wrId ∈ st.pc.held
        cases hpc : st.pc with
        | print x =>
          rw [hpc] at hwc
          rw [← heq, List.mem_singleton.mp hwc]
          exact List.mem_singleton_self _
        | _ =>
          rw [hpc] at hwc
          exact absurd hwc List.not_mem_nil
      exact absurd (Pool.stage_unique h.nodup hposted hheld) nofun
    · exact h.ne_of_stage hposted nofun hwc hop
  have hkeep : ∀ wc ∈ st.pc.current ++ (st.receives ++ st.cq),
      wc.Holds P (overlay st.pool rwr.addr ((st.sendBufs wr.pair).take wr.length)) := by
    intro wc hwc
    rw [haddr]
    exact (h.data wc hwc).overlay (hother wc hwc) hlen hb h.length
  obtain ⟨hcurrent, hrest⟩ := List.forall_mem_append.mp hkeep
  obtain ⟨hreceives, hcq⟩ := List.forall_mem_append.mp hrest
  exact {
    length := (length_overlay (by rw [haddr]; omega)).trans h.length
    addrs := fun x hx => h.addrs x (List.mem_of_mem_eraseIdx hx)
    circulates := hmove.perm.trans h.circulates
    posting := h.posting
    wire := fun x hx => h.wire x (List.mem_of_mem_eraseIdx hx)
    data := by
      refine List.forall_mem_append.mpr ⟨hcurrent, List.forall_mem_append.mpr
        ⟨List.forall_mem_append.mpr ⟨hreceives, List.forall_mem_singleton.mpr ?_⟩, hcq⟩⟩
      rw [haddr]
      exact hmsg.holds (by omega)
    current := h.current
    lines := h.lines }

/-- The completion of a receive reaches the queue. -/
theorem recvCqe (h : SrqCirculation P st) {k : ℕ} {wc : SrqWc} (hk : st.receives[k]? = some wc) :
    SrqCirculation P { st with
      receives := st.receives.eraseIdx k
      cq := st.cq ++ [{ wc with status := .success }] } := by
  obtain ⟨hlt, hwc⟩ := List.getElem?_eq_some_iff.mp hk
  have hmem := List.mem_of_getElem? hk
  have hperm : (st.receives.eraseIdx k ++ (st.cq ++ [wc])).Perm (st.receives ++ st.cq) := by
    subst hwc
    rw [← List.append_assoc]
    refine (List.perm_append_singleton _ _).trans ?_
    rw [← List.cons_append]
    exact (List.getElem_cons_eraseIdx_perm hlt).append_right _
  have hcompleted : ((st.receives.eraseIdx k ++
      (st.cq ++ [{ wc with status := .success }])).filterMap
      SrqWc.buffer).Perm ((st.receives ++ st.cq).filterMap SrqWc.buffer) := by
    have hsame : (st.receives.eraseIdx k ++ (st.cq ++ [{ wc with status := .success }])).filterMap
        SrqWc.buffer =
        (st.receives.eraseIdx k ++ (st.cq ++ [wc])).filterMap SrqWc.buffer := by
      rw [List.filterMap_append, List.filterMap_append, List.filterMap_append,
        List.filterMap_append]
      rfl
    rw [hsame]
    exact hperm.filterMap _
  obtain ⟨hcurrent, hrest⟩ := List.forall_mem_append.mp h.data
  obtain ⟨hreceives, hcq⟩ := List.forall_mem_append.mp hrest
  exact {
    length := h.length
    addrs := h.addrs
    circulates := by
      refine List.Perm.trans (.append_left _ (.append_right _ hcompleted)) h.circulates
    posting := h.posting
    wire := h.wire
    data := List.forall_mem_append.mpr ⟨hcurrent, List.forall_mem_append.mpr
      ⟨fun x hx => hreceives x (List.mem_of_mem_eraseIdx hx),
        List.forall_mem_append.mpr ⟨hcq, List.forall_mem_singleton.mpr (hreceives wc hmem)⟩⟩⟩
    current := h.current
    lines := h.lines }

/-- The completion of a send reaches the queue. -/
theorem sendCqe (h : SrqCirculation P st) {k : ℕ} {wr : SrqSendWr} : SrqCirculation P { st with
      sends := st.sends.eraseIdx k
      cq := st.cq ++ [⟨wr.wrId, .success, .send, 0, P.sendQpn wr.pair, wr.pair⟩] } := by
  obtain ⟨hcurrent, hrest⟩ := List.forall_mem_append.mp h.data
  obtain ⟨hreceives, hcq⟩ := List.forall_mem_append.mp hrest
  have hsame : (st.receives ++ (st.cq ++
      [(⟨wr.wrId, .success, .send, 0, P.sendQpn wr.pair, wr.pair⟩ : SrqWc)])).filterMap
        SrqWc.buffer = (st.receives ++ st.cq).filterMap SrqWc.buffer := by
    rw [← List.append_assoc, List.filterMap_append]
    exact List.append_nil _
  exact {
    length := h.length
    addrs := h.addrs
    circulates := by
      change (st.srq.map _ ++ (List.filterMap _ _ ++ st.pc.held)).Perm _
      rw [hsame]
      exact h.circulates
    posting := h.posting
    wire := h.wire
    data := List.forall_mem_append.mpr ⟨hcurrent, List.forall_mem_append.mpr
      ⟨hreceives, List.forall_mem_append.mpr ⟨hcq,
        List.forall_mem_singleton.mpr (fun hop => nomatch hop)⟩⟩⟩
    current := h.current
    lines := h.lines }

theorem move (h : SrqCirculation P st) (hc : SrqCounts P st) (hm : SrqMove P st st') :
    SrqCirculation P st' := by
  cases hm with
  | format i hpc => exact h.format hc hpc
  | postSend i len hpc => exact h.postSend hc hpc
  | pollRecv wc cq hpc hcq hop => exact h.pollRecv hpc hcq hop
  | pollSend wc cq hpc hcq hop => exact h.pollSend hpc hcq hop
  | print wc hpc => exact h.print hpc
  | clear b hpc => exact h.clear hpc
  | repost b hpc => exact h.repost hpc
  | arrive m j wr rwr hm hj => exact h.arrive hm hj
  | sendCqe k wr hk => exact h.sendCqe
  | recvCqe k wc hk => exact h.recvCqe hk
  | idle => exact h
  | fail wc _ hwc hstatus => exact absurd (hc.statuses wc hwc) hstatus

theorem of_reach (h : (srqLts P).Reach SrqNoFailure st) : SrqCirculation P st := by
  refine h.invariant_of (J := SrqCounts P) (fun a ha => SrqCounts.of_reach ha) ?_
    fun a l b hc ha hok hs => ha.move hc (SrqState.next_move hok hs)
  rintro a rfl
  exact start

end SrqCirculation

/-! ### The way to the end -/

/-- What is left of the program between two completions, and of its sends. -/
def SrqPc.left (n : ℕ) : SrqPc → ℕ
  | .format i => 6 * (n - i) + 1
  | .postSend i _ => 6 * (n - i)
  | .print _ => 3
  | .clear _ => 2
  | .repost _ => 1
  | _ => 0

/-- What is left to do: by the program, by the fabric and by the device. -/
def SrqState.left (P : SrqParams) (st : SrqState) : ℕ :=
  st.pc.left P.numQps + 5 * (P.numQps * 2 - st.completed) + 2 * st.wire.length + st.sends.length +
    st.receives.length

section Progress

variable {P : SrqParams} {st : SrqState}

theorem SrqState.left_pollTest {completed : ℕ} :
    (SrqState.pollTest P completed).left P.numQps = 0 := by
  rw [SrqState.pollTest]
  split <;> rfl

theorem SrqState.left_lt_of_device {st' : SrqState} (hpc : st'.pc = st.pc)
    (hcompleted : st'.completed = st.completed)
    (hlt : 2 * st'.wire.length + st'.sends.length + st'.receives.length <
      2 * st.wire.length + st.sends.length + st.receives.length) : st'.left P < st.left P := by
  rw [left, left, hpc, hcompleted]
  omega

theorem SrqState.left_lt_of_program {st' : SrqState} (hwire : st'.wire = st.wire)
    (hsends : st'.sends = st.sends) (hreceives : st'.receives = st.receives)
    (hlt : st'.pc.left P.numQps + 5 * (P.numQps * 2 - st'.completed) <
      st.pc.left P.numQps + 5 * (P.numQps * 2 - st.completed)) : st'.left P < st.left P := by
  rw [left, left, hwire, hsends, hreceives]
  omega

/-- **There is always a buffer for a message**: fewer messages than buffers are on their
way. -/
theorem SrqCirculation.exists_posted (h : SrqCirculation P st) (hc : SrqCounts P st)
    (hpc : st.pc = .poll) (hcq : st.cq = []) (hwire : st.wire ≠ []) : 0 < st.srq.length := by
  have hlen := h.circulates.length_eq
  rw [List.length_range, Pool.all, SrqState.buffers, hpc, hcq, List.length_append,
    List.length_append, List.length_map, List.append_nil] at hlen
  have hle : (st.receives.filterMap SrqWc.buffer).length ≤ st.receives.length :=
    List.length_filterMap_le _ _
  have hreceives := hc.receives
  rw [hpc, hcq] at hreceives
  change P.numQps = _ at hreceives
  have hpos := List.length_pos_iff.mpr hwire
  have hK := P.numQps_le
  have hnone : countRecv [] = 0 := rfl
  change st.srq.length + ((st.receives.filterMap SrqWc.buffer).length + 0) = P.numBufs at hlen
  omega

/-- **An empty queue will not stay empty** before the last completion. -/
theorem SrqCounts.exists_device (hc : SrqCounts P st) (h : SrqCirculation P st)
    (hpc : st.pc = .poll) (hcq : st.cq = []) :
    ∃ l st', SrqNoFailure st l ∧ st.next P l = some st' ∧ st'.left P < st.left P := by
  by_cases hsends : st.sends = []
  · by_cases hreceives : st.receives = []
    · -- a message is still on its way
      have hwire : st.wire ≠ [] := by
        intro hwire
        have hplace := hc.place
        have htotal := hc.completed_le
        rw [hpc] at hplace htotal
        rw [hcq, hsends, hreceives, hwire] at htotal
        change st.completed < P.numQps * 2 at hplace
        change st.completed = 2 * P.numQps at htotal
        omega
      have hm := List.length_pos_iff.mpr hwire
      have hj := h.exists_posted hc hpc hcq hwire
      let wr := st.wire[0]
      let rwr := st.srq[0]
      let st' : SrqState := { st with
        wire := st.wire.eraseIdx 0
        srq := st.srq.eraseIdx 0
        pool := overlay st.pool rwr.addr ((st.sendBufs wr.pair).take wr.length)
        receives := st.receives ++ [⟨rwr.wrId, .success, .recv,
          ((st.sendBufs wr.pair).take wr.length).length, P.recvQpn wr.pair, wr.pair⟩] }
      refine ⟨.arrive 0 0, st', trivial, ?_, SrqState.left_lt_of_device rfl rfl ?_⟩
      · rw [SrqState.next, SrqState.arrive, List.getElem?_eq_getElem hm, Option.bind_some,
          List.getElem?_eq_getElem hj]
        rfl
      · simp only [st', List.length_append, List.length_singleton, List.length_eraseIdx_of_lt hm]
        omega
    · have hk := List.length_pos_iff.mpr hreceives
      refine ⟨.recvCqe 0 .success, { st with
        receives := st.receives.eraseIdx 0
        cq := st.cq ++ [{ st.receives[0] with status := .success }] }, rfl, ?_,
        SrqState.left_lt_of_device rfl rfl ?_⟩
      · rw [SrqState.next, SrqState.recvCqe, List.getElem?_eq_getElem hk, Option.map_some]
      · simp only [List.length_eraseIdx_of_lt hk]
        omega
  · have hk := List.length_pos_iff.mpr hsends
    refine ⟨.sendCqe 0 .success, { st with
      sends := st.sends.eraseIdx 0
      cq := st.cq ++ [⟨st.sends[0].wrId, .success, .send, 0, P.sendQpn st.sends[0].pair,
        st.sends[0].pair⟩] }, rfl, ?_, SrqState.left_lt_of_device rfl rfl ?_⟩
    · rw [SrqState.next, SrqState.sendCqe, List.getElem?_eq_getElem hk, Option.map_some]
    · simp only [List.length_eraseIdx_of_lt hk]
      omega

/-- **There is always something to do**, until `run_demo` is behind its loop. -/
theorem SrqCounts.exists_step (hc : SrqCounts P st) (h : SrqCirculation P st)
    (hpc : st.pc ≠ .done) :
    ∃ l st', SrqNoFailure st l ∧ st.next P l = some st' ∧ st'.left P < st.left P := by
  have hplace := hc.place
  cases hp : st.pc with
  | format i =>
    let buf := snprintf (st.sendBufs i) srqBufferSize (srqText P i)
    refine ⟨.cpu, { st with
      sendBufs := Function.update st.sendBufs i buf, pc := .postSend i (strlen buf 0 + 1) },
        trivial, ?_,
      SrqState.left_lt_of_program rfl rfl rfl ?_⟩
    · simp only [SrqState.next, SrqState.cpu, hp]
      rfl
    · rw [hp]
      exact Nat.add_lt_add_right (Nat.lt_succ_self _) _
  | postSend i len =>
    rw [hp] at hplace
    have hi : i < P.numQps := hplace.1
    refine ⟨.call true, { st with
      wire := st.wire ++ [⟨100 + i, i, len⟩]
      sends := st.sends ++ [⟨100 + i, i, len⟩]
      pc := if i + 1 < P.numQps then .format (i + 1) else SrqState.pollTest P st.completed },
      rfl, ?_, ?_⟩
    · simp only [SrqState.next, SrqState.call, hp]
      rfl
    · have hpc' : SrqPc.left P.numQps (if i + 1 < P.numQps then .format (i + 1)
          else SrqState.pollTest P st.completed) ≤ 6 * (P.numQps - (i + 1)) + 1 := by
        split
        · exact le_rfl
        · rw [SrqState.left_pollTest]
          exact Nat.zero_le _
      rw [SrqState.left, SrqState.left, hp]
      simp only [List.length_append, List.length_singleton]
      change _ < 6 * (P.numQps - i) + _ + _ + _ + _
      omega
  | poll =>
    cases hcq : st.cq with
    | nil => exact hc.exists_device h hp hcq
    | cons wc cq =>
      rw [hp] at hplace
      have hlt : st.completed < P.numQps * 2 := hplace
      have hstatus := hc.statuses wc (hcq ▸ List.mem_cons_self)
      by_cases hop : wc.opcode = .recv
      · refine ⟨.poll .one, { st with
          cq := cq, completed := st.completed + 1, recvCount := st.recvCount + 1, pc := .print wc },
          nofun, ?_, SrqState.left_lt_of_program rfl rfl rfl ?_⟩
        · simp only [SrqState.next, SrqState.poll, hp, hcq, hstatus, hop]
          rfl
        · rw [hp]
          change 3 + 5 * (P.numQps * 2 - (st.completed + 1)) < 0 + 5 * (P.numQps * 2 - st.completed)
          omega
      · refine ⟨.poll .one, { st with
          cq := cq, completed := st.completed + 1, pc := SrqState.pollTest P (st.completed + 1) },
          nofun, ?_, SrqState.left_lt_of_program rfl rfl rfl ?_⟩
        · simp only [SrqState.next, SrqState.poll, hp, hcq, hstatus, if_neg hop]
          rfl
        · rw [hp, SrqState.left_pollTest]
          change 0 + 5 * (P.numQps * 2 - (st.completed + 1)) < 0 + 5 * (P.numQps * 2 - st.completed)
          omega
  | print wc =>
    refine ⟨.cpu, { st with
      lines := st.lines ++ [⟨wc.wrId, wc.byteLen, wc.qpNum, str st.pool (getBuffer wc.wrId),
        wc.pair⟩]
      pc := .clear wc.wrId }, trivial, ?_, SrqState.left_lt_of_program rfl rfl rfl ?_⟩
    · simp only [SrqState.next, SrqState.cpu, hp]
    · rw [hp]
      exact Nat.add_lt_add_right (Nat.lt_succ_self 2) _
  | clear b =>
    refine ⟨.cpu, { st with
      pool := overlay st.pool (getBuffer b) (List.replicate srqBufferSize 0), pc := .repost b },
        trivial, ?_,
      SrqState.left_lt_of_program rfl rfl rfl ?_⟩
    · simp only [SrqState.next, SrqState.cpu, hp]
    · rw [hp]
      exact Nat.add_lt_add_right (Nat.lt_succ_self 1) _
  | repost b =>
    refine ⟨.call true, { st with
      srq := st.srq ++ [srqRecvWr b], pc := SrqState.pollTest P st.completed }, rfl, ?_,
      SrqState.left_lt_of_program rfl rfl rfl ?_⟩
    · simp only [SrqState.next, SrqState.call, hp]
      rfl
    · rw [hp, SrqState.left_pollTest]
      exact Nat.add_lt_add_right Nat.one_pos _
  | done => exact absurd hp hpc
  | failed =>
    rw [hp] at hplace
    exact hplace.elim

/-- **`run_demo` can always be brought to the end of its loop.** -/
theorem SrqState.exists_done (h : (srqLts P).Reach SrqNoFailure st) :
    ∃ st', (srqLts P).Path SrqNoFailure st st' ∧ st'.pc = .done := by
  have hstep : ∀ a, (srqLts P).Reach SrqNoFailure a → ¬a.pc = .done → ∃ l b,
      SrqNoFailure a l ∧ (srqLts P).step a l b ∧ (srqLts P).Reach SrqNoFailure b ∧
      b.left P < a.left P := by
    intro a ha hpc
    obtain ⟨l, b, hok, hs, hlt⟩ :=
      (SrqCounts.of_reach ha).exists_step (SrqCirculation.of_reach ha) hpc
    exact ⟨l, b, hok, hs, ha.tail hok hs, hlt⟩
  obtain ⟨st', hp, -, hdone⟩ := Lts.Path.exists_goal (SrqState.left P) hstep h
  exact ⟨st', hp, hdone⟩

/-! ### The end -/

/-- **What the shared queue promises**, at every step of `run_demo`. -/
structure SrqOk (P : SrqParams) (st : SrqState) : Prop where
  /-- Every buffer is in exactly one place, -/
  one : ∀ k < P.numBufs, ∃! t, k ∈ st.buffers.place t
  /-- and in no place twice. -/
  once : ∀ t, (st.buffers.place t).Nodup
  range : ∀ t, ∀ k ∈ st.buffers.place t, k < P.numBufs
  /-- A buffer is cleared only while it is not posted. -/
  clear : ∀ b, st.pc = .clear b → b ∉ st.buffers.place .posted
  /-- Every line shows the message of its pair. -/
  lines : ∀ line ∈ st.lines, line.Shown P

/-- What holds behind the loop. -/
structure SrqFinal (P : SrqParams) (st : SrqState) : Prop where
  completed : st.completed = 2 * P.numQps
  recvCount : st.recvCount = P.numQps
  lines : st.lines.length = P.numQps
  /-- The queue holds each buffer exactly once. -/
  full : st.srq.Perm ((List.range P.numBufs).map srqRecvWr)

theorem SrqCirculation.ok (h : SrqCirculation P st) : SrqOk P st where
  one := fun _ hk => Pool.existsUnique_stage h.nodup (h.mem_all_iff.mpr hk)
  once := fun t => Pool.nodup_place h.nodup t
  range := fun _ _ hk => h.lt_of_mem hk
  clear := by
    intro b hpc hposted
    have hheld : b ∈ st.buffers.place .held := by
      change b ∈ st.pc.held
      rw [hpc]
      exact List.mem_singleton_self b
    exact absurd (Pool.stage_unique h.nodup hposted hheld) nofun
  lines := h.lines

theorem SrqCounts.final (hc : SrqCounts P st) (h : SrqCirculation P st) (hpc : st.pc = .done) :
    SrqFinal P st := by
  have hplace := hc.place
  have hsends := hc.sends
  have hreceives := hc.receives
  have hprinted := hc.printed
  rw [hpc] at hplace hsends hreceives hprinted
  have hcompleted : st.completed = P.numQps * 2 := hplace
  change P.numQps + _ = _ at hsends
  change P.numQps = _ at hreceives
  have hcount : st.recvCount = P.numQps := by omega
  refine ⟨by omega, hcount, hprinted.trans hcount, ?_⟩
  -- all completions have been polled, so all buffers are posted
  have hcq : st.cq = [] := by
    cases hcq : st.cq with
    | nil => rfl
    | cons wc cq =>
      by_cases hop : wc.opcode = .recv
      · rw [hcq, (countRecv_cons_of_recv _ hop).1] at hreceives
        omega
      · rw [hcq, (countSend_cons_of_send _ hop).1] at hsends
        omega
  have hnone : st.receives = [] := List.length_eq_zero_iff.mp (by omega)
  have hperm := h.circulates
  rw [Pool.all, SrqState.buffers, hpc, hcq, hnone] at hperm
  have hids : (st.srq.map RecvWr.wrId).Perm (List.range P.numBufs) := by
    refine .trans (.of_eq ?_) hperm
    exact (List.append_nil _).symm
  have hsrq : (st.srq.map RecvWr.wrId).map srqRecvWr = st.srq := by
    rw [List.map_map]
    exact (List.map_congr_left fun rwr hmem => (h.addrs rwr hmem).symm).trans (List.map_id _)
  rw [← hsrq]
  exact hids.map srqRecvWr

/-- **The shared receive queue conserves its buffers and its messages**: in every run in
which no call and no completion fails, for every number of pairs and of buffers that is
no less, the loop of `run_demo` can always be brought to its end; what holds there; and
what holds at every step. -/
theorem srq_conserves (P : SrqParams) (st : SrqState) (h : (srqLts P).Reach SrqNoFailure st) :
    (∃ st', (srqLts P).Path SrqNoFailure st st' ∧ st'.pc = .done) ∧
      (st.pc = .done → SrqFinal P st) ∧ SrqOk P st := by
  have hcirc := SrqCirculation.of_reach h
  exact ⟨SrqState.exists_done h, fun hpc => (SrqCounts.of_reach h).final hcirc hpc, hcirc.ok⟩

/-- Two pairs and three buffers: the second message arrives first, in the last buffer. -/
def srqTwo : SrqParams := ⟨2, 3, by decide, by decide, fun i => .ofNat (17 + i),
      fun i => .ofNat (33 + i)⟩

theorem srq_conserves_two : ∃ st, (srqLts srqTwo).Reach SrqNoFailure st ∧ SrqFinal srqTwo st ∧
    SrqOk srqTwo st ∧ st.lines.map SrqLine.text =
      [ascii "Message from QP 1 (qpn=18)", ascii "Message from QP 0 (qpn=17)"] := by
  have hrun : (Lts.exec (SrqState.next srqTwo) SrqNoFailure (srqStart srqTwo)
      [.cpu, .call true, .cpu, .call true, .poll .empty, .arrive 1 2, .sendCqe 0 .success,
        .recvCqe 0 .success, .arrive 0 0, .poll .one, .poll .one, .cpu, .cpu, .call true,
        .recvCqe 0 .success, .sendCqe 0 .success, .poll .one, .cpu, .cpu, .call true,
        .poll .one]).map
        (fun st => (st.pc, st.lines.map SrqLine.text)) =
      some (.done, [ascii "Message from QP 1 (qpn=18)", ascii "Message from QP 0 (qpn=17)"]) := by
    decide +kernel
  obtain ⟨st, hs, hview⟩ := Option.map_eq_some_iff.mp hrun
  obtain ⟨hdone, hlines⟩ := Prod.mk.inj hview
  have hr : (srqLts srqTwo).Reach SrqNoFailure st := ⟨_, rfl, Lts.path_of_exec hs⟩
  obtain ⟨-, hfinal, hok⟩ := srq_conserves srqTwo st hr
  exact ⟨st, hr, hfinal hdone, hok, hlines⟩

end Progress

end RdmaBook
