import RdmaBook.Srq.Conservation

/-!
# The shared receive queue when calls fail

`run_demo` gives up at the first call or completion that fails, with one exception: the result of
the repost is ignored, and a buffer whose repost fails is lost. The device goes on in either case.

A run with failures is compared with one without: the same steps, where a failed repost puts its
buffer back and a failed completion is a success (`RdmaBook.SrqShadow`). What the program has of it
is what it would have without the failures, less some of the posted buffers, until it gives up. So
in any run whatever no buffer is in two places, no message is printed twice or wrong, and the queue
keeps all but as many buffers as there are pairs (`RdmaBook.srq_any_run`); and where nothing but
reposts fails, `run_demo` still gets to its end with every message printed once
(`RdmaBook.srq_lost_reposts`).
-/

namespace RdmaBook

open CString Stream

/-- `SRQ_LIMIT`. -/
def srqLimit : ℕ := 16

/-! ### Every message once -/

/-- The pair of a completion, where it is that of a receive. -/
def SrqWc.message (wc : SrqWc) : Option ℕ := if wc.opcode = .recv then some wc.pair else none

/-- **The messages**, by their pairs: those that have not arrived, those that have and whose receive
has not been polled, and those `run_demo` has, printed or not. -/
def SrqState.messages (st : SrqState) : Pool ℕ :=
  ⟨st.wire.map SrqSendWr.pair, (st.receives ++ st.cq).filterMap SrqWc.message,
    st.pc.current.map SrqWc.pair ++ st.lines.map SrqLine.pair⟩

section Messages

variable {P : SrqParams} {st st' : SrqState}

/-- **No message is lost and none is doubled**: one for each send that has been posted. -/
def SrqMessages (P : SrqParams) (st : SrqState) : Prop :=
  st.messages.all.Perm (List.range (st.pc.sent P.numQps))

theorem SrqMessages.start : SrqMessages P (srqStart P) := by
  rw [SrqMessages, srqStart]
  split
  · rfl
  · rename_i hzero
    have hnone : P.numQps = 0 := by omega
    change ([] : List ℕ).Perm (List.range P.numQps)
    rw [hnone]
    rfl

/-- A step of `run_demo` that moves no message. -/
theorem SrqMessages.quiet (h : SrqMessages P st) (hmsg : st'.messages.all.Perm st.messages.all)
    (hsent : st'.pc.sent P.numQps = st.pc.sent P.numQps) : SrqMessages P st' := by
  rw [SrqMessages, hsent]
  exact hmsg.trans h

/-- A message moves. -/
theorem SrqMessages.of_move (h : SrqMessages P st) (hm : Pool.Move st.messages st'.messages)
    (hsent : st'.pc.sent P.numQps = st.pc.sent P.numQps) : SrqMessages P st' :=
  h.quiet hm.perm hsent

/-- The message of the pair `i` is sent. -/
theorem SrqMessages.postSend (h : SrqMessages P st) (hc : SrqCounts P st) {i len : ℕ}
    (hpc : st.pc = .postSend i len) : SrqMessages P { st with
      wire := st.wire ++ [⟨100 + i, i, len⟩]
      sends := st.sends ++ [⟨100 + i, i, len⟩]
      pc := if i + 1 < P.numQps then .format (i + 1) else SrqState.pollTest P st.completed } := by
  have hplace := hc.place
  rw [hpc] at hplace
  have hi : i < P.numQps := hplace.1
  let st' : SrqState := { st with
    wire := st.wire ++ [⟨100 + i, i, len⟩]
    sends := st.sends ++ [⟨100 + i, i, len⟩]
    pc := if i + 1 < P.numQps then .format (i + 1) else SrqState.pollTest P st.completed }
  have hplaces : st'.pc.current = [] ∧ st'.pc.sent P.numQps = i + 1 := by
    simp only [st']
    split
    · exact ⟨rfl, rfl⟩
    · obtain ⟨-, hcurrent, hsent, -⟩ := SrqCirculation.pollTest_places (P := P) st.completed
      exact ⟨hcurrent, by omega⟩
  have hsupply : st'.messages.all.Perm (i :: st.messages.all) := by
    refine Pool.perm_supply ?_ rfl ?_
    · change ((st.wire ++ [_]).map SrqSendWr.pair).Perm _
      rw [List.map_append]
      exact List.perm_append_singleton _ _
    · change st'.pc.current.map _ ++ _ = st.pc.current.map _ ++ _
      rw [hplaces.1, hpc]
      rfl
  have hold : st.messages.all.Perm (List.range i) := by
    rw [SrqMessages, hpc] at h
    exact h
  change st'.messages.all.Perm (List.range (st'.pc.sent P.numQps))
  rw [hplaces.2, List.range_succ]
  exact hsupply.trans ((hold.cons i).trans (List.perm_append_singleton i _).symm)

/-- **The messages are kept by every move.** -/
theorem SrqMessages.move (h : SrqMessages P st) (hc : SrqCounts P st) (hm : SrqMove P st st') :
    SrqMessages P st' := by
  cases hm with
  | format i hpc =>
    refine h.quiet (.of_eq ?_) (by rw [hpc]; rfl)
    rw [SrqState.messages, SrqState.messages, hpc]
    rfl
  | postSend i len hpc => exact h.postSend hc hpc
  | pollRecv wc cq hpc hcq hop =>
    refine h.of_move (.take wc.pair rfl ?_ ?_) (by rw [hpc]; rfl)
    · change ((st.receives ++ st.cq).filterMap _).Perm (_ :: (st.receives ++ cq).filterMap _)
      rw [hcq, List.filterMap_append, List.filterMap_append, List.filterMap_cons, SrqWc.message,
        if_pos hop]
      exact List.perm_middle
    · change [wc.pair] ++ _ = wc.pair :: (st.pc.current.map _ ++ _)
      rw [hpc]
      rfl
  | pollSend wc cq hpc hcq hop =>
    obtain ⟨-, hcurrent, hsent, -⟩ := SrqCirculation.pollTest_places (P := P) (st.completed + 1)
    refine h.quiet (.of_eq ?_) (hsent.trans (by rw [hpc]; rfl))
    rw [SrqState.messages, SrqState.messages, hpc, hcq]
    simp only [hcurrent, List.filterMap_append, List.filterMap_cons, SrqWc.message, if_neg hop]
    rfl
  | print wc hpc =>
    refine h.quiet (.append_left _ (.append_left _ ?_)) (by rw [hpc]; rfl)
    change ((st.lines ++ [_]).map SrqLine.pair).Perm (st.pc.current.map _ ++ _)
    rw [hpc, List.map_append]
    exact List.perm_append_singleton _ _
  | clear b hpc =>
    refine h.quiet (.of_eq ?_) (by rw [hpc]; rfl)
    rw [SrqState.messages, SrqState.messages, hpc]
    rfl
  | repost b hpc =>
    obtain ⟨-, hcurrent, hsent, -⟩ := SrqCirculation.pollTest_places (P := P) st.completed
    refine h.quiet (.of_eq ?_) (hsent.trans (by rw [hpc]; rfl))
    rw [SrqState.messages, SrqState.messages, hpc, hcurrent]
    rfl
  | arrive m j wr rwr hm hj =>
    refine h.of_move (.complete wr.pair ?_ ?_ rfl) rfl
    · obtain ⟨hlt, rfl⟩ := List.getElem?_eq_some_iff.mp hm
      exact (List.getElem_cons_eraseIdx_perm hlt).symm.map _
    · change ((st.receives ++ [_] ++ st.cq).filterMap _).Perm
        (_ :: (st.receives ++ st.cq).filterMap _)
      rw [List.append_assoc, List.filterMap_append, List.filterMap_append, List.filterMap_append]
      exact List.perm_middle
  | sendCqe k wr hk =>
    refine h.quiet (.append_left _ (.append_right _ (.of_eq ?_))) rfl
    change (st.receives ++ (st.cq ++ [_])).filterMap SrqWc.message =
      (st.receives ++ st.cq).filterMap SrqWc.message
    rw [← List.append_assoc, List.filterMap_append]
    exact List.append_nil _
  | recvCqe k wc hk =>
    refine h.quiet (.append_left _ (.append_right _ ?_)) rfl
    obtain ⟨hlt, rfl⟩ := List.getElem?_eq_some_iff.mp hk
    change ((st.receives.eraseIdx k ++ (st.cq ++ [_])).filterMap _).Perm
      ((st.receives ++ st.cq).filterMap _)
    have hperm : (st.receives.eraseIdx k ++ (st.cq ++ [st.receives[k]])).Perm
        (st.receives ++ st.cq) := by
      rw [← List.append_assoc]
      refine (List.perm_append_singleton _ _).trans ?_
      rw [← List.cons_append]
      exact (List.getElem_cons_eraseIdx_perm hlt).append_right _
    refine .trans (.of_eq ?_) (hperm.filterMap SrqWc.message)
    simp only [List.filterMap_append]
    rfl
  | idle => exact h
  | fail wc _ hwc hstatus => exact absurd (hc.statuses wc hwc) hstatus

theorem SrqMessages.of_reach (h : (srqLts P).Reach SrqNoFailure st) : SrqMessages P st := by
  refine h.invariant_of (J := SrqCounts P) (fun a ha => SrqCounts.of_reach ha) ?_
    fun a l b hc ha hok hs => ha.move hc (SrqState.next_move hok hs)
  rintro a rfl
  exact SrqMessages.start

end Messages

/-! ### The run without the failures -/

/-- A completion as it would be without a failure. -/
def SrqWc.succeed (wc : SrqWc) : SrqWc := { wc with status := .success }

theorem SrqWc.succeed_of_success {wc : SrqWc} (h : wc.status = .success) : wc.succeed = wc := by
  rw [succeed, ← h]

/-- The state with other posted buffers, and no completion failed. -/
def SrqState.mend (st : SrqState) (srq : List RecvWr) : SrqState :=
  { st with srq := srq, cq := st.cq.map SrqWc.succeed }

/-- **A state and what it would be without the failures**: the posted buffers are part of those that
would be posted, and until `run_demo` gives up, it is at the same place with the same counters.
All else is the same, but for the statuses of the completions. -/
inductive SrqShadow (st : SrqState) : SrqState → Prop
  | mk {pc : SrqPc} {completed recvCount : ℕ} {srq : List RecvWr} (hsub : st.srq.Sublist srq)
      (hplace : st.pc = .failed ∨ pc = st.pc ∧ completed = st.completed ∧
        recvCount = st.recvCount) :
      SrqShadow st { st.mend srq with pc := pc, completed := completed, recvCount := recvCount }

namespace SrqShadow

variable {P : SrqParams} {st st' ideal : SrqState} {srq : List RecvWr}

/-- Where `run_demo` goes on. -/
theorem going (hsub : st.srq.Sublist srq) : SrqShadow st (st.mend srq) :=
  .mk hsub (Or.inr ⟨rfl, rfl, rfl⟩)

theorem start : SrqShadow (srqStart P) (srqStart P) :=
  going (List.Sublist.refl _)

/-- `run_demo` gives up. -/
theorem give_up (hsub : st.srq.Sublist srq) : SrqShadow { st with pc := .failed } (st.mend srq) :=
  .mk hsub (Or.inl rfl)

/-- **A step that is no call** reads neither the queue of buffers nor the completions. -/
theorem cpu_mend (hs : st.cpu P = some st') :
    st'.srq = st.srq ∧ (st.mend srq).cpu P = some (st'.mend srq) := by
  unfold SrqState.cpu at hs
  split at hs
  · rename_i hpc
    obtain rfl := Option.some.inj hs
    exact ⟨rfl, by simp only [SrqState.cpu, SrqState.mend, hpc]⟩
  · rename_i hpc
    obtain rfl := Option.some.inj hs
    exact ⟨rfl, by simp only [SrqState.cpu, SrqState.mend, hpc]⟩
  · rename_i hpc
    obtain rfl := Option.some.inj hs
    exact ⟨rfl, by simp only [SrqState.cpu, SrqState.mend, hpc]⟩
  · cases hs

/-- **A call** that fails ends `run_demo`, or loses a buffer. -/
theorem call {ok : Bool} (hsub : st.srq.Sublist srq) (hs : st.call P ok = some st') :
    ∃ ideal', (srqLts P).Path SrqNoFailure (st.mend srq) ideal' ∧ SrqShadow st' ideal' := by
  unfold SrqState.call at hs
  split at hs
  · rename_i i len hpc
    obtain rfl := Option.some.inj hs
    cases ok with
    | true =>
      refine ⟨_, Lts.Path.single (l := .call true) rfl ?_, going hsub⟩
      change (st.mend srq).call P true = _
      simp only [SrqState.call, SrqState.mend, hpc, if_true]
    | false => exact ⟨_, Lts.Path.refl _, give_up hsub⟩
  · rename_i b hpc
    obtain rfl := Option.some.inj hs
    have hstep : (st.mend srq).call P true = some { st.mend (srq ++ [srqRecvWr b]) with
        pc := SrqState.pollTest P st.completed } := by
      simp only [SrqState.call, SrqState.mend, hpc, if_true]
    refine ⟨_, Lts.Path.single (l := .call true) rfl hstep, going ?_⟩
    cases ok with
    | true => exact hsub.append_right _
    | false => exact hsub.trans (List.sublist_append_left _ _)
  · cases hs

/-- **A completion is polled**; where it has failed, `run_demo` gives up. -/
theorem poll {ret : PollRet} (hsub : st.srq.Sublist srq) (hs : st.poll P ret = some st') :
    ∃ ideal', (srqLts P).Path SrqNoFailure (st.mend srq) ideal' ∧ SrqShadow st' ideal' := by
  unfold SrqState.poll at hs
  split at hs
  · rename_i hpc
    cases ret with
    | failed =>
      obtain rfl := Option.some.inj hs
      exact ⟨_, Lts.Path.refl _, give_up hsub⟩
    | empty =>
      simp only at hs
      split at hs
      · obtain rfl := Option.some.inj hs
        exact ⟨_, Lts.Path.refl _, going hsub⟩
      · cases hs
    | one =>
      simp only at hs
      split at hs
      · cases hs
      · rename_i wc cq hcq
        obtain rfl := Option.some.inj hs
        have hsuccess : ¬wc.succeed.status ≠ .success := not_not.mpr rfl
        by_cases hop : wc.opcode = .recv
        · have hstep : (st.mend srq).poll P .one = some { st.mend srq with
              cq := cq.map SrqWc.succeed
              completed := st.completed + 1
              recvCount := st.recvCount + 1
              pc := .print wc.succeed } := by
            simp only [SrqState.poll, SrqState.mend, hpc, hcq, List.map_cons]
            rw [if_neg hsuccess, if_pos (show wc.succeed.opcode = .recv from hop)]
          refine ⟨_, Lts.Path.single (l := .poll .one) (by rintro ⟨⟩) hstep, ?_⟩
          by_cases hstatus : wc.status ≠ .success
          · rw [if_pos hstatus]
            exact .mk hsub (Or.inl rfl)
          · rw [if_neg hstatus, if_pos hop, SrqWc.succeed_of_success (not_not.mp hstatus)]
            exact going hsub
        · have hstep : (st.mend srq).poll P .one = some { st.mend srq with
              cq := cq.map SrqWc.succeed
              completed := st.completed + 1
              pc := SrqState.pollTest P (st.completed + 1) } := by
            simp only [SrqState.poll, SrqState.mend, hpc, hcq, List.map_cons]
            rw [if_neg hsuccess, if_neg (show ¬wc.succeed.opcode = .recv from hop)]
          refine ⟨_, Lts.Path.single (l := .poll .one) (by rintro ⟨⟩) hstep, ?_⟩
          by_cases hstatus : wc.status ≠ .success
          · rw [if_pos hstatus]
            exact .mk hsub (Or.inl rfl)
          · rw [if_neg hstatus, if_neg hop]
            exact going hsub
  · cases hs

/-- Where a step of `run_demo` is made, it has not given up. -/
theorem of_program {l : SrqLabel} (h : SrqShadow st ideal) (hs : st.next P l = some st')
    (hl : st.pc = .failed → st.next P l = none) :
    ∃ srq, st.srq.Sublist srq ∧ ideal = st.mend srq := by
  obtain ⟨hsub, hplace⟩ := h
  rcases hplace with hfailed | ⟨rfl, rfl, rfl⟩
  · rw [hl hfailed] at hs
    cases hs
  · exact ⟨_, hsub, rfl⟩

/-- **Every step has its answer** in the run without the failures. -/
theorem next {l : SrqLabel} (h : SrqShadow st ideal) (hs : st.next P l = some st') :
    ∃ ideal', (srqLts P).Path SrqNoFailure ideal ideal' ∧ SrqShadow st' ideal' := by
  cases l with
  | cpu =>
    obtain ⟨srq, hsub, rfl⟩ := h.of_program hs fun hfailed => by
      simp only [SrqState.next, SrqState.cpu, hfailed]
    obtain ⟨hsrq, hstep⟩ : st'.srq = st.srq ∧ (st.mend srq).cpu P = some (st'.mend srq) :=
      cpu_mend hs
    exact ⟨_, Lts.Path.single (l := .cpu) trivial hstep, going (hsrq ▸ hsub)⟩
  | call ok =>
    obtain ⟨srq, hsub, rfl⟩ := h.of_program hs fun hfailed => by
      simp only [SrqState.next, SrqState.call, hfailed]
    exact call hsub hs
  | poll ret =>
    obtain ⟨srq, hsub, rfl⟩ := h.of_program hs fun hfailed => by
      simp only [SrqState.next, SrqState.poll, hfailed]
    exact poll hsub hs
  | arrive m j =>
    obtain ⟨hsub, hplace⟩ := h
    obtain ⟨wr, hm, hs⟩ := Option.bind_eq_some_iff.mp hs
    obtain ⟨rwr, hj, rfl⟩ := Option.map_eq_some_iff.mp hs
    obtain ⟨k, hk, hsub'⟩ := Pool.exists_sublist_eraseIdx hsub hj
    refine ⟨_, Lts.Path.single (l := .arrive m k) trivial ?_, .mk hsub' hplace⟩
    simp only [srqLts, Lts.ofFun, SrqState.next, SrqState.arrive, SrqState.mend, hm, hk,
      Option.bind_some, Option.map_some]
  | sendCqe k status =>
    obtain ⟨hsub, hplace⟩ := h
    obtain ⟨wr, hk, rfl⟩ := Option.map_eq_some_iff.mp hs
    refine ⟨_, Lts.Path.single (l := .sendCqe k .success) rfl ?_, .mk hsub hplace⟩
    simp only [srqLts, Lts.ofFun, SrqState.next, SrqState.sendCqe, SrqState.mend, hk,
      Option.map_some, List.map_append, List.map_cons, List.map_nil, SrqWc.succeed]
  | recvCqe k status =>
    obtain ⟨hsub, hplace⟩ := h
    obtain ⟨wc, hk, rfl⟩ := Option.map_eq_some_iff.mp hs
    refine ⟨_, Lts.Path.single (l := .recvCqe k .success) rfl ?_, .mk hsub hplace⟩
    simp only [srqLts, Lts.ofFun, SrqState.next, SrqState.recvCqe, SrqState.mend, hk,
      Option.map_some, List.map_append, List.map_cons, List.map_nil, SrqWc.succeed]

/-- **Every run has its shadow.** -/
theorem of_reach {ok : SrqState → SrqLabel → Prop} (h : (srqLts P).Reach ok st) :
    ∃ ideal, (srqLts P).Reach SrqNoFailure ideal ∧ SrqShadow st ideal :=
  h.simulate (fun a ha => ⟨a, ha, by cases ha; exact start⟩) fun _ _ _ _ hshadow _ _ hs =>
    hshadow.next hs

end SrqShadow

/-! ### The level of the queue -/

/-- The pair `run_demo` works on is one of the pairs. -/
def SrqPc.Below (n : ℕ) : SrqPc → Prop
  | .format i => i < n
  | .postSend i _ => i < n
  | _ => True

/-- **The level of the queue**: it lacks no more buffers than messages have been taken off the
wire, and there is one message at most for each pair. -/
structure SrqLevel (P : SrqParams) (st : SrqState) : Prop where
  below : st.pc.Below P.numQps
  level : P.numBufs + st.wire.length ≤ st.srq.length + st.pc.sent P.numQps

namespace SrqLevel

variable {P : SrqParams} {st st' : SrqState}

theorem sent_le (h : SrqLevel P st) : st.pc.sent P.numQps ≤ P.numQps := by
  have hbelow := h.below
  cases hpc : st.pc with
  | format i =>
    rw [hpc] at hbelow
    exact Nat.le_of_lt hbelow
  | postSend i len =>
    rw [hpc] at hbelow
    exact Nat.le_of_lt hbelow
  | _ => exact le_rfl

theorem start : SrqLevel P (srqStart P) := by
  have hlen : (srqStart P).srq.length = P.numBufs := by
    simp only [srqStart, List.length_map, List.length_range]
  refine ⟨?_, ?_⟩
  · rw [srqStart]
    split
    · assumption
    · trivial
  · rw [hlen]
    exact Nat.le_add_right _ _

theorem pollTest_below (n completed : ℕ) : (SrqState.pollTest P completed).Below n := by
  rw [SrqState.pollTest]
  split <;> trivial

/-- A step behind the sends that takes no buffer. -/
theorem of_sent (h : SrqLevel P st) (hbelow : st'.pc.Below P.numQps) (hwire : st'.wire = st.wire)
    (hsrq : st.srq.length ≤ st'.srq.length) (hsent : st.pc.sent P.numQps ≤ st'.pc.sent P.numQps) :
    SrqLevel P st' := by
  have hlevel := h.level
  refine ⟨hbelow, ?_⟩
  rw [hwire]
  omega

/-- **The level is kept by every step**, whatever fails in it. -/
theorem next {l : SrqLabel} (h : SrqLevel P st) (hs : st.next P l = some st') : SrqLevel P st' := by
  have hbelow := h.below
  have hlevel := h.level
  have hsent := h.sent_le
  cases l with
  | cpu =>
    change st.cpu P = _ at hs
    unfold SrqState.cpu at hs
    split at hs
    · rename_i i hpc
      obtain rfl := Option.some.inj hs
      rw [hpc] at hbelow
      exact h.of_sent hbelow rfl le_rfl (by rw [hpc]; rfl)
    · obtain rfl := Option.some.inj hs
      exact h.of_sent trivial rfl le_rfl hsent
    · obtain rfl := Option.some.inj hs
      exact h.of_sent trivial rfl le_rfl hsent
    · cases hs
  | call ok =>
    change st.call P ok = _ at hs
    unfold SrqState.call at hs
    split at hs
    · rename_i i len hpc
      obtain rfl := Option.some.inj hs
      rw [hpc] at hbelow hlevel
      have hi : i < P.numQps := hbelow
      change _ ≤ _ + i at hlevel
      cases ok with
      | false =>
        rw [if_neg Bool.false_ne_true]
        exact h.of_sent trivial rfl le_rfl hsent
      | true =>
        rw [if_pos rfl]
        have hplaces : ∀ pc, pc = (if i + 1 < P.numQps then SrqPc.format (i + 1)
            else SrqState.pollTest P st.completed) →
            pc.Below P.numQps ∧ i + 1 ≤ pc.sent P.numQps := by
          rintro pc rfl
          split
          · exact ⟨‹_›, le_rfl⟩
          · obtain ⟨-, -, hsent, -⟩ := SrqCirculation.pollTest_places (P := P) st.completed
            exact ⟨pollTest_below _ _, by omega⟩
        obtain ⟨hnext, hmore⟩ := hplaces _ rfl
        refine ⟨hnext, ?_⟩
        change P.numBufs + (st.wire ++ [_]).length ≤ st.srq.length +
          SrqPc.sent P.numQps (if i + 1 < P.numQps then _ else _)
        rw [List.length_append, List.length_singleton]
        omega
    · rename_i b hpc
      obtain rfl := Option.some.inj hs
      obtain ⟨-, -, hall, -⟩ := SrqCirculation.pollTest_places (P := P) st.completed
      refine h.of_sent (pollTest_below _ _) rfl ?_ (hsent.trans_eq hall.symm)
      cases ok with
      | true => exact (List.sublist_append_left _ _).length_le
      | false => exact le_rfl
    · cases hs
  | poll ret =>
    change st.poll P ret = _ at hs
    unfold SrqState.poll at hs
    split at hs
    · cases ret with
      | failed =>
        obtain rfl := Option.some.inj hs
        exact h.of_sent trivial rfl le_rfl hsent
      | empty =>
        simp only at hs
        split at hs
        · obtain rfl := Option.some.inj hs
          exact h
        · cases hs
      | one =>
        simp only at hs
        split at hs
        · cases hs
        · rename_i wc cq hcq
          obtain rfl := Option.some.inj hs
          obtain ⟨-, -, hall, -⟩ := SrqCirculation.pollTest_places (P := P) (st.completed + 1)
          split
          · exact h.of_sent trivial rfl le_rfl hsent
          · split
            · exact h.of_sent trivial rfl le_rfl hsent
            · exact h.of_sent (pollTest_below _ _) rfl le_rfl (hsent.trans_eq hall.symm)
    · cases hs
  | arrive m j =>
    obtain ⟨wr, hm, hs⟩ := Option.bind_eq_some_iff.mp hs
    obtain ⟨rwr, hj, rfl⟩ := Option.map_eq_some_iff.mp hs
    obtain ⟨hmlt, -⟩ := List.getElem?_eq_some_iff.mp hm
    obtain ⟨hjlt, -⟩ := List.getElem?_eq_some_iff.mp hj
    refine ⟨hbelow, ?_⟩
    change P.numBufs + (st.wire.eraseIdx m).length ≤
      (st.srq.eraseIdx j).length + st.pc.sent P.numQps
    rw [List.length_eraseIdx_of_lt hmlt, List.length_eraseIdx_of_lt hjlt]
    omega
  | sendCqe k status =>
    obtain ⟨wr, -, rfl⟩ := Option.map_eq_some_iff.mp hs
    exact ⟨hbelow, hlevel⟩
  | recvCqe k status =>
    obtain ⟨wc, -, rfl⟩ := Option.map_eq_some_iff.mp hs
    exact ⟨hbelow, hlevel⟩

theorem of_reach {ok : SrqState → SrqLabel → Prop} (h : (srqLts P).Reach ok st) :
    SrqLevel P st := by
  refine h.invariant ?_ fun a l b ha _ hs => ha.next hs
  rintro a rfl
  exact start

end SrqLevel

/-! ### Any run -/

section AnyRun

variable {P : SrqParams} {st ideal : SrqState}

/-- **What a state has of its shadow**: a part of the buffers, and the same lines. -/
theorem SrqShadow.part (h : SrqShadow st ideal) :
    (∀ t, (st.buffers.place t).Sublist (ideal.buffers.place t)) ∧ st.lines = ideal.lines := by
  obtain ⟨hsub, hplace⟩ := h
  refine ⟨fun t => ?_, rfl⟩
  cases t with
  | posted => exact hsub.map _
  | completed =>
    change ((st.receives ++ st.cq).filterMap _).Sublist
      ((st.receives ++ st.cq.map SrqWc.succeed).filterMap SrqWc.buffer)
    rw [List.filterMap_append, List.filterMap_append, List.filterMap_map]
    exact List.Sublist.refl _
  | held =>
    rcases hplace with hfailed | ⟨rfl, -, -⟩
    · change st.pc.held.Sublist _
      rw [hfailed]
      exact List.nil_sublist _
    · exact List.Sublist.refl _

/-- A line for a message, and no message has two. -/
theorem SrqMessages.nodup_lines (h : SrqMessages P st) : (st.lines.map SrqLine.pair).Nodup := by
  have hall : st.messages.all.Nodup := h.nodup_iff.mpr List.nodup_range
  have hheld := Pool.nodup_place hall .held
  exact hheld.sublist (List.sublist_append_right _ _)

/-- **The shared queue in any run**, whichever calls and completions fail in it, and in whatever
order messages arrive: no buffer is twice in a place, or in two places; the queue never lacks more
buffers than there are pairs, so with the constants of the program it stays above the limit that is
armed; and what `run_demo` prints is right, with no message printed twice. -/
theorem srq_any_run (P : SrqParams) (st : SrqState) (h : (srqLts P).Reach Lts.any st) :
    (∀ t, (st.buffers.place t).Nodup ∧ ∀ k ∈ st.buffers.place t,
      k < P.numBufs ∧ ∀ t', k ∈ st.buffers.place t' → t' = t) ∧
    (P.numBufs ≤ st.srq.length + P.numQps ∧ st.srq.length ≤ P.numBufs) ∧
    (P.numQps = 4 → P.numBufs = 32 → srqLimit < st.srq.length) ∧
    (∀ line ∈ st.lines, line.Shown P) ∧ (st.lines.map SrqLine.pair).Nodup := by
  obtain ⟨ideal, hreach, hshadow⟩ := SrqShadow.of_reach h
  have hcirc := SrqCirculation.of_reach hreach
  obtain ⟨hpart, hlines⟩ := hshadow.part
  have hnodup : st.buffers.all.Nodup := Pool.nodup_of_part hcirc.nodup hpart
  have hlevel := (SrqLevel.of_reach h).level
  have hsent := (SrqLevel.of_reach h).sent_le
  have hlow : P.numBufs ≤ st.srq.length + P.numQps := by omega
  have hhigh : st.srq.length ≤ P.numBufs := by
    have hle := (hpart .posted).length_le
    have hideal : (ideal.buffers.place .posted).length ≤ ideal.buffers.all.length :=
      (List.sublist_append_left _ _).length_le
    rw [hcirc.circulates.length_eq, List.length_range] at hideal
    refine .trans ?_ (hle.trans hideal)
    exact (List.length_map _).ge
  refine ⟨fun t => ⟨Pool.nodup_place hnodup t, fun k hk => ⟨?_, fun t' hk' => ?_⟩⟩, ⟨hlow, hhigh⟩,
    fun hqps hbufs => ?_, ?_, ?_⟩
  · exact hcirc.lt_of_mem ((hpart t).subset hk)
  · exact Pool.stage_unique hnodup hk' hk
  · have hlimit : srqLimit = 16 := rfl
    omega
  · rw [hlines]
    exact hcirc.lines
  · rw [hlines]
    exact (SrqMessages.of_reach hreach).nodup_lines

end AnyRun

/-! ### Lost reposts -/

/-- **Nothing fails but reposts.** -/
def SrqLostReposts (st : SrqState) : SrqLabel → Prop
  | .call ok => ok = true ∨ ∃ b, st.pc = .repost b
  | l => SrqNoFailure st l

instance (st : SrqState) : DecidablePred (SrqLostReposts st)
  | .call ok => decidable_of_iff (ok = true ∨ st.pc.held ≠ [] ∧
      st.pc = .repost (st.pc.held.headD 0)) <| by
      refine or_congr_right ⟨fun ⟨_, h⟩ => ⟨_, h⟩, fun ⟨b, hb⟩ => ?_⟩
      rw [hb]
      exact ⟨(by rintro ⟨⟩), rfl⟩
  | .cpu => inferInstanceAs (Decidable True)
  | .poll ret => inferInstanceAs (Decidable (ret ≠ .failed))
  | .arrive _ _ => inferInstanceAs (Decidable True)
  | .sendCqe _ status => inferInstanceAs (Decidable (status = .success))
  | .recvCqe _ status => inferInstanceAs (Decidable (status = .success))

section LostReposts

variable {P : SrqParams} {st st' : SrqState}

/-- `run_demo` has not given up and will not: no completion in the queue has failed. -/
structure SrqGoing (st : SrqState) : Prop where
  pc : st.pc ≠ .failed
  statuses : ∀ wc ∈ st.cq, wc.status = .success

theorem pollTest_ne_failed (completed : ℕ) : SrqState.pollTest P completed ≠ .failed := by
  rw [SrqState.pollTest]
  split <;> rintro ⟨⟩

theorem SrqGoing.start : SrqGoing (srqStart P) where
  pc := by
    rw [srqStart]
    split <;> rintro ⟨⟩
  statuses := fun _ h => absurd h List.not_mem_nil

theorem SrqGoing.next {l : SrqLabel} (h : SrqGoing st) (hok : SrqLostReposts st l)
    (hs : st.next P l = some st') : SrqGoing st' := by
  cases l with
  | cpu =>
    change st.cpu P = _ at hs
    unfold SrqState.cpu at hs
    split at hs
    · exact Option.some.inj hs ▸ ⟨(by rintro ⟨⟩), h.statuses⟩
    · exact Option.some.inj hs ▸ ⟨(by rintro ⟨⟩), h.statuses⟩
    · exact Option.some.inj hs ▸ ⟨(by rintro ⟨⟩), h.statuses⟩
    · cases hs
  | call ok =>
    change st.call P ok = _ at hs
    unfold SrqState.call at hs
    split at hs
    · rename_i i len hpc
      obtain rfl : ok = true := by
        rcases hok with hok | ⟨b, hb⟩
        · exact hok
        · rw [hpc] at hb
          cases hb
      rw [if_pos rfl] at hs
      refine Option.some.inj hs ▸ ⟨?_, h.statuses⟩
      change (if i + 1 < P.numQps then _ else _) ≠ SrqPc.failed
      split
      · rintro ⟨⟩
      · exact pollTest_ne_failed _
    · exact Option.some.inj hs ▸ ⟨pollTest_ne_failed _, h.statuses⟩
    · cases hs
  | poll ret =>
    change st.poll P ret = _ at hs
    unfold SrqState.poll at hs
    split at hs
    · cases ret with
      | failed => exact absurd rfl hok
      | empty =>
        simp only at hs
        split at hs
        · exact Option.some.inj hs ▸ h
        · cases hs
      | one =>
        simp only at hs
        split at hs
        · cases hs
        · rename_i wc cq hcq
          have hstatus : ¬wc.status ≠ .success :=
            not_not.mpr (h.statuses wc (hcq ▸ List.mem_cons_self))
          have hrest : ∀ x ∈ cq, x.status = .success :=
            fun x hx => h.statuses x (hcq ▸ List.mem_cons_of_mem wc hx)
          rw [if_neg hstatus] at hs
          split at hs
          · exact Option.some.inj hs ▸ ⟨(by rintro ⟨⟩), hrest⟩
          · exact Option.some.inj hs ▸ ⟨pollTest_ne_failed _, hrest⟩
    · cases hs
  | arrive m j =>
    obtain ⟨wr, -, hs⟩ := Option.bind_eq_some_iff.mp hs
    obtain ⟨rwr, -, rfl⟩ := Option.map_eq_some_iff.mp hs
    exact ⟨h.pc, h.statuses⟩
  | sendCqe k status =>
    obtain ⟨wr, -, rfl⟩ := Option.map_eq_some_iff.mp hs
    exact ⟨h.pc, List.forall_mem_append.mpr ⟨h.statuses, List.forall_mem_singleton.mpr hok⟩⟩
  | recvCqe k status =>
    obtain ⟨wc, -, rfl⟩ := Option.map_eq_some_iff.mp hs
    exact ⟨h.pc, List.forall_mem_append.mpr ⟨h.statuses, List.forall_mem_singleton.mpr hok⟩⟩

theorem SrqGoing.of_reach (h : (srqLts P).Reach SrqLostReposts st) : SrqGoing st := by
  refine h.invariant ?_ fun a l b ha hok hs => ha.next hok hs
  rintro a rfl
  exact SrqGoing.start

/-- **Where only reposts have failed**, the state is one of a run without failures, but for the
buffers that are lost. -/
theorem SrqGoing.exists_ideal (h : (srqLts P).Reach SrqLostReposts st) : ∃ srq,
    (srqLts P).Reach SrqNoFailure { st with srq := srq } := by
  have hgoing := SrqGoing.of_reach h
  obtain ⟨ideal, hreach, ⟨-, hplace⟩⟩ := SrqShadow.of_reach h
  rcases hplace with hfailed | ⟨rfl, rfl, rfl⟩
  · exact absurd hfailed hgoing.pc
  · have hcq : st.cq.map SrqWc.succeed = st.cq := by
      refine (List.map_congr_left fun wc hwc => ?_).trans (List.map_id _)
      exact SrqWc.succeed_of_success (hgoing.statuses wc hwc)
    rw [SrqState.mend, hcq] at hreach
    exact ⟨_, hreach⟩

/-- **A step with other buffers posted**, where a message that is on its way finds one: the same
step, which leaves as much to do. -/
theorem SrqState.next_of_srq {srq : List RecvWr} {l : SrqLabel} {b : SrqState}
    (hposted : st.wire ≠ [] → 0 < st.srq.length) (hok : SrqNoFailure { st with srq := srq } l)
    (hs : ({ st with srq := srq } : SrqState).next P l = some b) :
    ∃ l' b', SrqLostReposts st l' ∧ st.next P l' = some b' ∧ b'.left P = b.left P := by
  cases l with
  | cpu =>
    -- the step of the state itself, with its own buffers
    refine ⟨.cpu, { b with srq := st.srq }, trivial, ?_, rfl⟩
    change ({ st with srq := srq } : SrqState).cpu P = _ at hs
    change st.cpu P = _
    unfold SrqState.cpu at hs ⊢
    simp only at hs
    split at hs <;> first
      | (obtain rfl := Option.some.inj hs; rfl)
      | cases hs
  | call ok =>
    obtain rfl : ok = true := hok
    change ({ st with srq := srq } : SrqState).call P true = _ at hs
    unfold SrqState.call at hs
    simp only at hs
    split at hs
    · rename_i i len hpc
      refine ⟨.call true, { b with srq := st.srq }, Or.inl rfl, ?_, rfl⟩
      change st.call P true = _
      obtain rfl := Option.some.inj hs
      simp only [SrqState.call, hpc, if_true]
    · rename_i i hpc
      refine ⟨.call true, { b with srq := st.srq ++ [srqRecvWr i] }, Or.inl rfl, ?_, rfl⟩
      change st.call P true = _
      obtain rfl := Option.some.inj hs
      simp only [SrqState.call, hpc, if_true]
    · cases hs
  | poll ret =>
    refine ⟨.poll ret, { b with srq := st.srq }, hok, ?_, rfl⟩
    change ({ st with srq := srq } : SrqState).poll P ret = _ at hs
    change st.poll P ret = _
    unfold SrqState.poll at hs ⊢
    simp only at hs ⊢
    split at hs
    · cases ret with
      | failed => exact absurd rfl hok
      | empty =>
        simp only at hs ⊢
        split at hs
        · obtain rfl := Option.some.inj hs
          rename_i hcq
          rw [if_pos hcq]
        · cases hs
      | one =>
        simp only at hs ⊢
        split at hs
        · cases hs
        · rename_i wc cq hcq
          obtain rfl := Option.some.inj hs
          split
          · rfl
          · split <;> rfl
    · cases hs
  | arrive m j =>
    obtain ⟨wr, hm, hs⟩ := Option.bind_eq_some_iff.mp hs
    obtain ⟨rwr, -, rfl⟩ := Option.map_eq_some_iff.mp hs
    change st.wire[m]? = some wr at hm
    have hj := hposted (List.ne_nil_of_mem (List.mem_of_getElem? hm))
    have hstep : st.arrive P m 0 = some { st with
        wire := st.wire.eraseIdx m
        srq := st.srq.eraseIdx 0
        pool := overlay st.pool st.srq[0].addr ((st.sendBufs wr.pair).take wr.length)
        receives := st.receives ++ [⟨st.srq[0].wrId, .success, .recv,
          ((st.sendBufs wr.pair).take wr.length).length, P.recvQpn wr.pair, wr.pair⟩] } := by
      rw [SrqState.arrive, hm, Option.bind_some, List.getElem?_eq_getElem hj]
      rfl
    refine ⟨.arrive m 0, _, trivial, hstep, ?_⟩
    simp only [SrqState.left, List.length_append, List.length_singleton]
  | sendCqe k status =>
    obtain ⟨wr, hk, rfl⟩ := Option.map_eq_some_iff.mp hs
    change st.sends[k]? = some wr at hk
    have hstep : st.sendCqe P k status = some { st with
        sends := st.sends.eraseIdx k
        cq := st.cq ++ [⟨wr.wrId, status, .send, 0, P.sendQpn wr.pair, wr.pair⟩] } := by
      rw [SrqState.sendCqe, hk, Option.map_some]
    exact ⟨.sendCqe k status, _, hok, hstep, rfl⟩
  | recvCqe k status =>
    obtain ⟨wc, hk, rfl⟩ := Option.map_eq_some_iff.mp hs
    change st.receives[k]? = some wc at hk
    have hstep : st.recvCqe k status = some { st with
        receives := st.receives.eraseIdx k
        cq := st.cq ++ [{ wc with status := status }] } := by
      rw [SrqState.recvCqe, hk, Option.map_some]
    exact ⟨.recvCqe k status, _, hok, hstep, rfl⟩

/-- **`run_demo` does without the buffers it loses**: where nothing fails but reposts, whichever of
them do, it can always be brought to the end of its loop. -/
theorem SrqState.exists_done_of_lost (h : (srqLts P).Reach SrqLostReposts st) :
    ∃ st', (srqLts P).Path SrqLostReposts st st' ∧ st'.pc = .done := by
  have hstep : ∀ a, (srqLts P).Reach SrqLostReposts a → ¬a.pc = .done → ∃ l b,
      SrqLostReposts a l ∧ (srqLts P).step a l b ∧ (srqLts P).Reach SrqLostReposts b ∧
        b.left P < a.left P := by
    intro a ha hpc
    obtain ⟨srq, hreach⟩ := SrqGoing.exists_ideal ha
    obtain ⟨l, b, hok, hs, hlt⟩ :=
      (SrqCounts.of_reach hreach).exists_step (SrqCirculation.of_reach hreach) hpc
    have hlevel := (SrqLevel.of_reach ha).level
    have hsent := (SrqLevel.of_reach ha).sent_le
    have hle := P.numQps_le
    have hposted : a.wire ≠ [] → 0 < a.srq.length := by
      intro hwire
      have hpos := List.length_pos_iff.mpr hwire
      omega
    obtain ⟨l', b', hok', hs', heq⟩ := SrqState.next_of_srq hposted hok hs
    exact ⟨l', b', hok', hs', ha.tail hok' hs', heq.trans_lt hlt⟩
  obtain ⟨st', hp, -, hdone⟩ := Lts.Path.exists_goal (SrqState.left P) hstep h
  exact ⟨st', hp, hdone⟩

end LostReposts

/-- **The result of the repost may be ignored**: in every run in which nothing fails but reposts,
`run_demo` can always be brought to the end of its loop, and there it has counted both completions
of every pair and printed the message of every pair exactly once, as it was sent. -/
theorem srq_lost_reposts (P : SrqParams) (st : SrqState) (h : (srqLts P).Reach SrqLostReposts st) :
    (∃ st', (srqLts P).Path SrqLostReposts st st' ∧ st'.pc = .done) ∧
    (st.pc = .done → st.completed = 2 * P.numQps ∧ st.recvCount = P.numQps ∧
      (st.lines.map SrqLine.pair).Perm (List.range P.numQps) ∧ ∀ line ∈ st.lines,
      line.Shown P) := by
  refine ⟨SrqState.exists_done_of_lost h, fun hpc => ?_⟩
  obtain ⟨srq, hreach⟩ := SrqGoing.exists_ideal h
  have hcirc := SrqCirculation.of_reach hreach
  have hfinal := (SrqCounts.of_reach hreach).final hcirc hpc
  have hmessages := SrqMessages.of_reach hreach
  have hlen : (st.lines.map SrqLine.pair).length = P.numQps :=
    (List.length_map _).trans hfinal.lines
  -- as many lines as messages, and each of them one of the messages
  have hpart : (st.lines.map SrqLine.pair).Sublist
      ({ st with srq := srq } : SrqState).messages.all :=
    (List.sublist_append_right _ _).trans
      ((List.sublist_append_right _ _).trans (List.sublist_append_right _ _))
  have hall : ({ st with srq := srq } : SrqState).messages.all.Perm (List.range P.numQps) := by
    have hsent : ({ st with srq := srq } : SrqState).pc.sent P.numQps = P.numQps := by
      change st.pc.sent P.numQps = P.numQps
      rw [hpc]
      rfl
    rw [SrqMessages, hsent] at hmessages
    exact hmessages
  have hsub : (st.lines.map SrqLine.pair).Subperm (List.range P.numQps) :=
    hpart.subperm.trans hall.subperm
  have hperm := hsub.perm_of_length_le (by rw [hlen, List.length_range])
  exact ⟨hfinal.completed, hfinal.recvCount, hperm, hcirc.lines⟩

/-- Two pairs, and the repost of the first buffer fails. -/
def srqLostRun : List SrqLabel :=
  [.cpu, .call true, .cpu, .call true, .arrive 1 2, .recvCqe 0 .success, .poll .one, .cpu, .cpu,
    .call false, .arrive 0 0, .recvCqe 0 .success, .sendCqe 1 .success, .sendCqe 0 .success,
    .poll .one, .cpu, .cpu, .call true, .poll .one, .poll .one]

theorem exists_srqLostRun : ∃ st, (srqLts srqTwo).Reach SrqLostReposts st ∧ st.pc = .done ∧
    st.srq.length = 2 := by
  have hrun : (Lts.exec (SrqState.next srqTwo) SrqLostReposts (srqStart srqTwo) srqLostRun).map
      (fun st => (st.pc, st.srq.length)) = some (.done, 2) := by
    decide +kernel
  obtain ⟨st, hs, hview⟩ := Option.map_eq_some_iff.mp hrun
  obtain ⟨hdone, hlen⟩ := Prod.mk.inj hview
  exact ⟨st, ⟨_, rfl, Lts.path_of_exec hs⟩, hdone, hlen⟩

theorem srq_lost_reposts_two : ∃ st, (srqLts srqTwo).Reach SrqLostReposts st ∧ st.srq.length = 2 ∧
    st.completed = 4 ∧ (st.lines.map SrqLine.pair).Perm [0, 1] := by
  obtain ⟨st, hr, hdone, hlen⟩ := exists_srqLostRun
  obtain ⟨hcompleted, -, hperm, -⟩ := (srq_lost_reposts srqTwo st hr).2 hdone
  exact ⟨st, hr, hlen, hcompleted, hperm⟩

theorem srq_any_run_two : ∃ st, (srqLts srqTwo).Reach Lts.any st ∧ st.srq.length = 2 ∧
    srqTwo.numBufs ≤ st.srq.length + srqTwo.numQps ∧ (st.lines.map SrqLine.pair).Nodup := by
  obtain ⟨st, hr, -, hlen⟩ := exists_srqLostRun
  have hany : (srqLts srqTwo).Reach Lts.any st := hr.mono fun _ _ _ => trivial
  obtain ⟨-, hlevel, -, -, hnodup⟩ := srq_any_run srqTwo st hany
  exact ⟨st, hany, hlen, hlevel.1, hnodup⟩

end RdmaBook
