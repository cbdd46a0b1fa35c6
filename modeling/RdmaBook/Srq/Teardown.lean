import RdmaBook.Lib.Resources

/-!
# srq_example: setting up and tearing down

`init_resources` makes one call after the other and stores what it gets in `g`; the first
call that fails ends it, wherever it is: in the line of single objects, at any buffer
that is posted, or between the two queue pairs of a pair. `cleanup` is the other end, a
fixed order of releases, each behind a test of the pointer.

`RdmaBook.SrqObj.needs` says what an object is created on. In the order of `cleanup`
nothing comes before what is created on it (`RdmaBook.pairwise_cleanupOrder`), and that is
all there is to it: `RdmaBook.srqTeardown_complete` holds wherever the setup has stopped.
-/

namespace RdmaBook

/-! ### Objects -/

/-- What `g` has room for. -/
inductive SrqObj
  | ctx
  | pd
  | cq
  | srq
  | recvPool
  | poolMr
  | sendMr
  | sendQp (i : ℕ)
  | recvQp (i : ℕ)
  deriving DecidableEq, Repr

/-- **What an object is created on.** -/
def SrqObj.needs : SrqObj → List SrqObj
  | .ctx => []
  | .pd => [.ctx]
  | .cq => [.ctx]
  | .srq => [.pd]
  | .recvPool => []
  | .poolMr => [.pd, .recvPool]
  | .sendMr => [.pd]
  | .sendQp _ => [.pd, .cq]
  | .recvQp _ => [.pd, .cq, .srq]

/-- `d` is created on `o`. -/
def SrqObj.On (d o : SrqObj) : Prop := o ∈ d.needs

instance : DecidableRel SrqObj.On := fun d o => inferInstanceAs (Decidable (o ∈ d.needs))

/-! ### The setup -/

/-- A call of `init_resources` that can fail. -/
inductive SrqInitCall
  /-- `ibv_get_device_list`. -/
  | getDeviceList
  /-- The search for the device that has been asked for. -/
  | findDevice
  /-- `ibv_query_port`. -/
  | queryPort
  /-- `ibv_modify_srq`, which sets the limit. -/
  | modifySrq
  /-- `post_srq_recv` of this buffer. -/
  | postSrqRecv (i : ℕ)
  /-- `modify_qp_to_init`, `modify_qp_to_rtr` and `modify_qp_to_rts`. -/
  | toInit (qp : SrqObj)
  | toRtr (qp : SrqObj)
  | toRts (qp : SrqObj)
  /-- A call whose result is stored in `g`. -/
  | create (o : SrqObj)
  deriving DecidableEq, Repr

/-- The transitions of a queue pair. -/
def srqConnect (qp : SrqObj) : List SrqInitCall := [.toInit qp, .toRtr qp, .toRts qp]

/-- **The calls of `init_resources`**, in their order. -/
def srqInitCalls (numQps numBufs : ℕ) : List SrqInitCall :=
  [.getDeviceList, .findDevice, .create .ctx, .queryPort, .create .pd, .create .cq, .create .srq,
    .modifySrq, .create .recvPool, .create .poolMr, .create .sendMr] ++
  (List.range numBufs).map .postSrqRecv ++
  (List.range numQps).flatMap (fun i => [.create (.sendQp i), .create (.recvQp i)]) ++
  (List.range numQps).flatMap fun i => srqConnect (.sendQp i) ++ srqConnect (.recvQp i)

/-- `g`, what has been obtained, and whether a check has failed. -/
structure SrqSetup where
  /-- The pointer is not null. -/
  g : SrqObj → Bool
  log : List (ResAct SrqObj)
  failed : Bool

/-- `memset(&g, 0, sizeof(g))`. -/
def SrqSetup.zero : SrqSetup := ⟨fun _ => false, [], false⟩

/-- A call has succeeded. -/
def SrqSetup.succeeded (st : SrqSetup) : SrqInitCall → SrqSetup
  | .create o => { st with g := Function.update st.g o true, log := st.log ++ [.acquire o] }
  | _ => st

/-- The calls up to the first that fails. -/
def srqInit (ok : SrqInitCall → Bool) : List SrqInitCall → SrqSetup → SrqSetup
  | [], st => st
  | c :: calls, st =>
    if ok c then srqInit ok calls (st.succeeded c) else { st with failed := true }

/-- **`init_resources`**, where `ok` says which calls succeed: no call is made twice. -/
def srqInitResources (numQps numBufs : ℕ) (ok : SrqInitCall → Bool) : SrqSetup :=
  srqInit ok (srqInitCalls numQps numBufs) .zero

/-! ### The teardown -/

/-- The releases of `cleanup`, in their order. -/
def cleanupOrder (numQps : ℕ) : List SrqObj :=
  (List.range numQps).flatMap (fun i => [.recvQp i, .sendQp i]) ++
  [.sendMr, .poolMr, .srq, .cq, .pd, .ctx, .recvPool]

/-- **`cleanup`**: what it releases, each behind a test of the pointer. -/
def srqCleanup (numQps : ℕ) (g : SrqObj → Bool) : List SrqObj := (cleanupOrder numQps).filter g

/-- The log of the whole: `main` calls `cleanup` behind a failed `init_resources`, and at its
end. -/
def srqTeardown (numQps numBufs : ℕ) (ok : SrqInitCall → Bool) : List (ResAct SrqObj) :=
  (srqInitResources numQps numBufs ok).log ++
    (srqCleanup numQps (srqInitResources numQps numBufs ok).g).map .release

/-! ### What has been stored -/

/-- The object a call stores. -/
def SrqInitCall.created : SrqInitCall → Option SrqObj
  | .create o => some o
  | _ => none

/-- **Wherever the setup stops**, it has obtained the objects of an initial part of its calls,
and `g` has them all. -/
theorem srqInit_spec (ok : SrqInitCall → Bool) (calls : List SrqInitCall) (st : SrqSetup) :
    ∃ os, os <+: calls.filterMap SrqInitCall.created ∧
      (srqInit ok calls st).log = st.log ++ os.map .acquire ∧
      ∀ o, (srqInit ok calls st).g o = true ↔ st.g o = true ∨ o ∈ os := by
  induction calls generalizing st with
  | nil => exact ⟨[], List.nil_prefix, by simp [srqInit], by simp [srqInit]⟩
  | cons c calls ih =>
    by_cases hc : ok c = true
    · obtain ⟨os, hpre, hlog, hg⟩ := ih (st.succeeded c)
      rw [srqInit, if_pos hc]
      cases hcreated : c.created with
      | none =>
        have hsame : st.succeeded c = st := by cases c <;> first | rfl | cases hcreated
        rw [hsame] at hlog hg
        exact ⟨os, by rwa [List.filterMap_cons_none hcreated], by rw [hsame]; exact hlog, by
          rw [hsame]; exact hg⟩
      | some o =>
        obtain rfl : c = .create o := by
          cases c with
          | create o' => rw [Option.some.inj hcreated]
          | _ => cases hcreated
        refine ⟨o :: os, ?_, ?_, fun x => ?_⟩
        · rw [List.filterMap_cons_some hcreated]
          exact List.cons_prefix_cons.mpr ⟨rfl, hpre⟩
        · rw [hlog, List.map_cons]
          exact List.append_assoc _ _ _
        · rw [hg, List.mem_cons, ← or_assoc]
          refine or_congr_left ?_
          rcases eq_or_ne x o with rfl | hne
          · simp [SrqSetup.succeeded]
          · simp [SrqSetup.succeeded, hne]
    · rw [srqInit, if_neg hc]
      exact ⟨[], List.nil_prefix, by simp, by simp⟩

/-- The objects of all calls, in the order they are created in. -/
theorem filterMap_srqInitCalls (numQps numBufs : ℕ) :
    (srqInitCalls numQps numBufs).filterMap SrqInitCall.created =
      [.ctx, .pd, .cq, .srq, .recvPool, .poolMr, .sendMr] ++
        (List.range numQps).flatMap fun i => [.sendQp i, .recvQp i] := by
  have hbufs : ((List.range numBufs).map SrqInitCall.postSrqRecv).filterMap SrqInitCall.created =
      [] :=
    List.filterMap_eq_nil_iff.mpr fun c hc => by
      obtain ⟨i, -, rfl⟩ := List.mem_map.mp hc
      rfl
  have hconnect : ((List.range numQps).flatMap fun i =>
      srqConnect (.sendQp i) ++ srqConnect (.recvQp i)).filterMap SrqInitCall.created = [] := by
    refine List.filterMap_eq_nil_iff.mpr fun c hc => ?_
    obtain ⟨i, -, hi⟩ := List.mem_flatMap.mp hc
    simp only [srqConnect, List.cons_append, List.nil_append, List.mem_cons, List.not_mem_nil,
      or_false] at hi
    rcases hi with rfl | rfl | rfl | rfl | rfl | rfl <;> rfl
  rw [srqInitCalls, List.filterMap_append, List.filterMap_append, List.filterMap_append, hbufs,
    hconnect, List.append_nil, List.append_nil, List.filterMap_flatMap]
  rfl

/-- The queue pairs of a loop over the pairs, each once. -/
theorem nodup_flatMap_qps {f : ℕ → List SrqObj} (hf : ∀ i, (f i).Nodup)
    (hmem : ∀ i, ∀ o ∈ f i, o = .sendQp i ∨ o = .recvQp i) (n : ℕ) :
    ((List.range n).flatMap f).Nodup := by
  refine List.nodup_flatMap.mpr ⟨fun i _ => hf i, ?_⟩
  refine List.nodup_range.imp fun {i j} hij => ?_
  refine List.disjoint_left.mpr fun o hi hj => ?_
  rcases hmem i o hi with rfl | rfl
  · rcases hmem j _ hj with heq | heq
    · exact hij (SrqObj.sendQp.inj heq)
    · cases heq
  · rcases hmem j _ hj with heq | heq
    · cases heq
    · exact hij (SrqObj.recvQp.inj heq)

/-- No object is created twice. -/
theorem nodup_created (numQps numBufs : ℕ) :
    ((srqInitCalls numQps numBufs).filterMap SrqInitCall.created).Nodup := by
  rw [filterMap_srqInitCalls]
  refine List.Nodup.append (by decide) (nodup_flatMap_qps (fun i => by simp) (by simp) numQps) ?_
  rw [List.disjoint_right]
  intro o ho
  obtain ⟨i, -, hi⟩ := List.mem_flatMap.mp ho
  simp only [List.mem_cons, List.not_mem_nil, or_false] at hi
  rcases hi with rfl | rfl <;> simp

/-! ### The order of the teardown -/

theorem mem_cleanupOrder {numQps : ℕ} {o : SrqObj} : o ∈ cleanupOrder numQps ↔
    (∃ i < numQps, o = .recvQp i ∨ o = .sendQp i) ∨
      o ∈ [SrqObj.sendMr, .poolMr, .srq, .cq, .pd, .ctx, .recvPool] := by
  simp only [cleanupOrder, List.mem_append, List.mem_flatMap, List.mem_range, List.mem_cons,
    List.not_mem_nil, or_false]

/-- `cleanup` knows every object that `init_resources` obtains. -/
theorem mem_cleanupOrder_of_created {numQps numBufs : ℕ} {o : SrqObj}
    (h : o ∈ (srqInitCalls numQps numBufs).filterMap SrqInitCall.created) :
    o ∈ cleanupOrder numQps := by
  rw [filterMap_srqInitCalls, List.mem_append] at h
  rw [mem_cleanupOrder]
  rcases h with hshared | hqp
  · have hsub : [SrqObj.ctx, .pd, .cq, .srq, .recvPool, .poolMr, .sendMr] ⊆
        [.sendMr, .poolMr, .srq, .cq, .pd, .ctx, .recvPool] := by decide
    exact Or.inr (hsub hshared)
  · obtain ⟨i, hi, ho⟩ := List.mem_flatMap.mp hqp
    simp only [List.mem_cons, List.not_mem_nil, or_false] at ho
    exact Or.inl ⟨i, List.mem_range.mp hi, ho.symm⟩

theorem nodup_cleanupOrder (numQps : ℕ) : (cleanupOrder numQps).Nodup := by
  refine List.Nodup.append (nodup_flatMap_qps (fun i => by simp) (fun i o ho => ?_) numQps)
    (by decide) ?_
  · simp only [List.mem_cons, List.not_mem_nil, or_false] at ho
    exact ho.symm
  · rw [List.disjoint_left]
    intro o ho
    obtain ⟨i, -, hi⟩ := List.mem_flatMap.mp ho
    simp only [List.mem_cons, List.not_mem_nil, or_false] at hi
    rcases hi with rfl | rfl <;> simp

/-- Nothing is created on a queue pair. -/
theorem not_on_qp (d : SrqObj) (i : ℕ) : ¬d.On (.recvQp i) ∧ ¬d.On (.sendQp i) := by
  cases d <;> simp [SrqObj.On, SrqObj.needs]

/-- **In the order of `cleanup` nothing comes before what is created on it.** -/
theorem pairwise_cleanupOrder (numQps : ℕ) : (cleanupOrder numQps).Pairwise fun x y => ¬y.On x := by
  have hqps : ∀ x ∈ (List.range numQps).flatMap (fun i => [SrqObj.recvQp i, .sendQp i]),
      ∀ y : SrqObj, ¬y.On x := by
    intro x hx y
    obtain ⟨i, -, hi⟩ := List.mem_flatMap.mp hx
    simp only [List.mem_cons, List.not_mem_nil, or_false] at hi
    rcases hi with rfl | rfl
    · exact (not_on_qp y i).1
    · exact (not_on_qp y i).2
  refine List.pairwise_append.mpr ⟨?_, by decide, fun x hx y _ => hqps x hx y⟩
  exact List.Pairwise.imp_of_mem (fun hx _ _ => hqps _ hx _)
    (nodup_cleanupOrder numQps).of_append_left

/-- **Teardown after any setup**: whichever call of `init_resources` is the first to fail, or
none, `cleanup` releases each object it has obtained exactly once, when nothing created on it
is alive any more; and what it releases is what is in `g`. -/
theorem srqTeardown_complete (numQps numBufs : ℕ) (ok : SrqInitCall → Bool) :
    ResLog.Complete SrqObj.On (srqTeardown numQps numBufs ok) ∧
    ∀ o, ((srqInitResources numQps numBufs ok).g o = true ↔
        ResAct.acquire o ∈ srqTeardown numQps numBufs ok) ∧
      (ResAct.release o ∈ srqTeardown numQps numBufs ok ↔
        (srqInitResources numQps numBufs ok).g o = true) := by
  obtain ⟨os, hpre, hlog, hg⟩ := srqInit_spec ok (srqInitCalls numQps numBufs) .zero
  have hstored : ∀ o, (srqInitResources numQps numBufs ok).g o = true ↔ o ∈ os := fun o =>
    (hg o).trans (by simp [SrqSetup.zero])
  have hlog' : (srqInitResources numQps numBufs ok).log = os.map .acquire := hlog
  have hnodup : os.Nodup := (nodup_created numQps numBufs).sublist hpre.sublist
  obtain ⟨hord, hlive⟩ := @ResLog.Orderly.acquires _ SrqObj.On os hnodup
  have hcleanup : ∀ o, o ∈ srqCleanup numQps (srqInitResources numQps numBufs ok).g ↔ o ∈ os := by
    intro o
    rw [srqCleanup, List.mem_filter, hstored]
    exact ⟨And.right, fun ho => ⟨mem_cleanupOrder_of_created (hpre.subset ho), ho⟩⟩
  have hself : ∀ o : SrqObj, ¬o.On o := fun o => by cases o <;> simp [SrqObj.On, SrqObj.needs]
  obtain ⟨hall, hnone⟩ := hord.releases (fun x => (hlive x).trans (hcleanup x).symm)
    ((nodup_cleanupOrder numQps).filter _) ((pairwise_cleanupOrder numQps).filter _) hself
  rw [srqTeardown, hlog']
  refine ⟨hall.complete hnone, fun o => ⟨?_, ?_⟩⟩
  · rw [hstored]
    simp
  · rw [hstored]
    simp [hcleanup]

/-- The setup stops between the queue pairs of the second pair. -/
theorem srqTeardown_complete_halfPair :
    let log := srqTeardown 4 32 fun c => c ≠ .create (.recvQp 1)
    (ResAct.acquire (.sendQp 1) ∈ log ∧ ResAct.acquire (.recvQp 1) ∉ log) ∧
      log.count (.release (.sendQp 1)) = 1 ∧ ResLog.Complete SrqObj.On log := by
  have hpair : ResAct.acquire (.sendQp 1) ∈ srqTeardown 4 32 (fun c => c ≠ .create (.recvQp 1)) ∧
      ResAct.acquire (.recvQp 1) ∉ srqTeardown 4 32 fun c => c ≠ .create (.recvQp 1) := by
    decide +kernel
  have hcomplete := (srqTeardown_complete 4 32 fun c => c ≠ .create (.recvQp 1)).1
  exact ⟨hpair, hcomplete.once _ hpair.1, hcomplete⟩

end RdmaBook
