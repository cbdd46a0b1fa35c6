import Mathlib.Data.Int.ConditionallyCompleteOrder
import Mathlib.Order.ConditionallyCompleteLattice.Basic
import RdmaBook.Bench.Capacity
import RdmaBook.Lib.Stream

/-!
# rdma_bench: where the writes go

The place of a write in the buffer of the server, and its length, come from the options of
the client alone: `struct conn_info` has no room for the size of the buffer, and nothing
else tells the client. Every queue pair gets a write of `msg_size` bytes in the first
turn, at its slot, whose place is an `int`. So the writes stay inside the buffer exactly
when the slots of the client fit into it, and the places into an `int`
(`RdmaBook.benchWritesInside_iff`).

With the same options on both sides the slots always fit, and only the `int` is left
(`RdmaBook.slotsExact_iff`).
-/

namespace RdmaBook

/-- The range of `length` bytes at `addr` lies in the buffer of `size` bytes at `base`. -/
def InBuffer (base size : ℕ) (addr length : ℤ) : Prop := base ≤ addr ∧ addr + length ≤ base + size

/-! ### The slots -/

section Slots

variable {base size m n : ℕ}

/-- **The slots fit**: so many slots of `m` bytes are in the buffer, and the place of the last
one is an `int`. -/
def SlotsFit (m n size : ℕ) : Prop := (n - 1) * m < 2 ^ 31 ∧ n * m ≤ size

/-- A slot of a buffer that all slots fit into. -/
theorem SlotsFit.inBuffer (h : SlotsFit m n size) (hbase : base < 2 ^ 64)
    (hend : base + size ≤ 2 ^ 64)
    {q : ℕ} (hq : q < n) : InBuffer base size ((base + cInt (q * m : ℕ)) % 2 ^ 64) m := by
  obtain ⟨hint, hsize⟩ := h
  have hplace : q * m ≤ (n - 1) * m := Nat.mul_le_mul_right m (Nat.le_sub_one_of_lt hq)
  have hslot : q * m + m ≤ n * m := by
    rw [← Nat.succ_mul]
    exact Nat.mul_le_mul_right m hq
  rw [cInt_natCast (hplace.trans_lt hint), InBuffer]
  rcases Nat.eq_zero_or_pos m with rfl | hpos
  · rw [Nat.mul_zero]
    omega
  · omega

/-- **A slot behind the buffer** is not in it. -/
theorem not_inBuffer_of_lt {x : ℕ} (hx : x < 2 ^ 31) (hsize : size < x + m)
    (hend : base + size ≤ 2 ^ 64) :
    ¬InBuffer base size ((base + cInt x) % 2 ^ 64) m := by
  rw [cInt_natCast hx]
  rintro ⟨hlow, hhigh⟩
  omega

/-- A place that is no `int` comes out in front of the buffer. -/
theorem not_inBuffer_of_wrap {x : ℕ} (hx : 2 ^ 31 ≤ x) (hwrap : x < 2 ^ 32) (hbase : base < 2 ^ 64)
    (hsize : size < 2 ^ 62) : ¬InBuffer base size ((base + cInt x) % 2 ^ 64) m := by
  have hneg : cInt x = (x : ℤ) - 2 ^ 32 := by
    rw [cInt]
    omega
  rw [hneg]
  rintro ⟨hlow, hhigh⟩
  omega

/-- The first slot whose place is no `int`. -/
theorem exists_wrapped (hm : m < 2 ^ 31) (hplace : 2 ^ 31 ≤ (n - 1) * m) :
    ∃ q < n, 2 ^ 31 ≤ q * m ∧ q * m < 2 ^ 32 := by
  have hex : ∃ q, 2 ^ 31 ≤ q * m := ⟨n - 1, hplace⟩
  have hfind := Nat.find_spec hex
  have hle : Nat.find hex ≤ n - 1 := Nat.find_min' hex hplace
  have hpos : 0 < Nat.find hex := by
    rw [Nat.find_pos, Nat.zero_mul]
    decide
  have hbelow := Nat.find_min hex (Nat.sub_one_lt hpos.ne')
  have hstep : Nat.find hex * m = (Nat.find hex - 1) * m + m := by
    rw [← Nat.succ_mul, Nat.succ_eq_add_one, Nat.sub_add_cancel hpos]
  exact ⟨Nat.find hex, by omega, hfind, by omega⟩

/-- **Slots that do not fit** leave one that is not in the buffer. -/
theorem exists_outside (hm : m < 2 ^ 31) (hn : 0 < n) (hbase : base < 2 ^ 64)
    (hsize : size < 2 ^ 62) (hend : base + size ≤ 2 ^ 64) (h : ¬SlotsFit m n size) :
    ∃ q < n, ¬InBuffer base size ((base + cInt (q * m : ℕ)) % 2 ^ 64) m := by
  rcases Nat.lt_or_ge ((n - 1) * m) (2 ^ 31) with hint | hint
  · have hlong : size < n * m := Nat.not_le.mp fun hle => h ⟨hint, hle⟩
    have hlast : (n - 1) * m + m = n * m := by
      rw [← Nat.succ_mul, Nat.succ_eq_add_one, Nat.sub_add_cancel hn]
    exact ⟨n - 1, Nat.sub_one_lt hn.ne', not_inBuffer_of_lt hint (hlast ▸ hlong) hend⟩
  · obtain ⟨q, hq, hge, hlt⟩ := exists_wrapped hm hint
    exact ⟨q, hq, not_inBuffer_of_wrap hge hlt hbase hsize⟩

end Slots

/-! ### The writes of a run -/

section Posted

variable {bctx : BenchCtx} {maxSendWr : Option ℕ} {s s' : BenchState} {l : BenchLabel}

/-- What a step does to a send queue. -/
theorem wrs_of_step (hs : BenchStep bctx maxSendWr s l s') (k : ℕ) :
    (s'.dev.sq k).wrs = (s.dev.sq k).wrs ∨
    ∃ signaled, (s'.dev.sq k).wrs = (s.dev.sq k).wrs ++ [postRdmaWrite bctx k signaled] ∧
      k < bctx.cfg.qpCount ∧ (0 < bctx.cfg.warmup ∨ 0 < bctx.cfg.iterations) := by
  have hpost : ∀ (signaled : Bool), s.q < bctx.cfg.qpCount →
      (0 < bctx.cfg.warmup ∨ 0 < bctx.cfg.iterations) →
      ((s.dev.post s.q (postRdmaWrite bctx s.q signaled)).sq k).wrs = (s.dev.sq k).wrs ∨
      ∃ signaled', ((s.dev.post s.q (postRdmaWrite bctx s.q signaled)).sq k).wrs =
        (s.dev.sq k).wrs ++ [postRdmaWrite bctx k signaled'] ∧
        k < bctx.cfg.qpCount ∧ (0 < bctx.cfg.warmup ∨ 0 < bctx.cfg.iterations) := by
    intro signaled hq hsome
    rcases eq_or_ne k s.q with rfl | hne
    · rw [Device.post_sq_self]
      exact Or.inr ⟨signaled, rfl, hq, hsome⟩
    · rw [Device.post_sq_of_ne _ _ hne]
      exact Or.inl rfl
  cases hs with
  | warmupPost hpc hi hq => exact hpost _ hq (Or.inl (Nat.zero_lt_of_lt hi))
  | measurePost hpc hi hq => exact hpost _ hq (Or.inr (Nat.zero_lt_of_lt hi))
  | pollMore site c t n es dev hpc hlt hn hp => exact Or.inl (Device.poll_sq hp k).1
  | pollFailed site c t n es dev hpc hlt hn hp =>
    rw [BenchState.afterPoll_dev]
    exact Or.inl (Device.poll_sq hp k).1
  | pollReturn site =>
    rw [BenchState.afterPoll_dev]
    exact Or.inl rfl
  | complete j status dev hc => exact Or.inl (Device.complete_sq hc k).1
  | _ => exact Or.inl rfl

/-- **Every request on a send queue** is the write of its slot, and one of the loops has a
turn. -/
theorem posted_of_reach {ok : BenchState → BenchLabel → Prop}
    (h : (benchLts bctx maxSendWr).Reach ok s)
    (k : ℕ) : ∀ wr ∈ (s.dev.sq k).wrs, (∃ signaled, wr = postRdmaWrite bctx k signaled) ∧
      k < bctx.cfg.qpCount ∧ (0 < bctx.cfg.warmup ∨ 0 < bctx.cfg.iterations) := by
  refine h.invariant (I := fun a => ∀ wr ∈ (a.dev.sq k).wrs,
    (∃ signaled, wr = postRdmaWrite bctx k signaled) ∧
    k < bctx.cfg.qpCount ∧ (0 < bctx.cfg.warmup ∨ 0 < bctx.cfg.iterations)) ?_ ?_
  · rintro _ rfl wr hwr
    exact absurd hwr List.not_mem_nil
  · intro a l b ha _ hs wr hwr
    rcases wrs_of_step (BenchStep.of_next hs) k with hsame | ⟨signaled, hnew, hk, hsome⟩
    · exact ha wr (hsame ▸ hwr)
    · rw [hnew] at hwr
      rcases List.mem_append.mp hwr with hwr | hwr
      · exact ha wr hwr
      · exact ⟨⟨signaled, List.mem_singleton.mp hwr⟩, hk, hsome⟩

/-- Without a leftover the measurement has one start. -/
theorem MeasureStart.eq_of_zero (h : MeasureStart bctx (fun _ => 0) s) :
    s = benchStart.startMeasure := by
  have hwrs : ∀ k, (s.dev.sq k).wrs = [] := by
    intro k
    rcases Nat.lt_or_ge k bctx.cfg.qpCount with hk | hk
    · exact List.length_eq_zero_iff.mp (h.length k hk)
    · exact h.outside k hk
  have hsq : s.dev.sq = fun _ => .empty := by
    funext k
    have hdone := h.done_le k
    rw [hwrs k] at hdone
    calc s.dev.sq k
      _ = ⟨(s.dev.sq k).wrs, (s.dev.sq k).done, (s.dev.sq k).retired, (s.dev.sq k).failed⟩ := rfl
      _ = .empty := by
        rw [hwrs k, Nat.le_zero.mp hdone, h.retired k, h.not_failed k, SendQueue.empty]
  have hdev : s.dev = .empty := by
    calc s.dev = ⟨s.dev.sq, s.dev.cq⟩ := rfl
      _ = .empty := by rw [hsq, h.cq, Device.empty]
  rw [h.eq_startMeasure, BenchState.startMeasure, hdev]
  rfl

/-- **The first turn posts a write on every queue pair.** -/
theorem exists_posted (h : 0 < bctx.cfg.warmup ∨ 0 < bctx.cfg.iterations) :
    ∃ s, (benchLts bctx none).Reach Lts.any s ∧
      ∀ k < bctx.cfg.qpCount, ∃ wr ∈ (s.dev.sq k).wrs, ∃ signaled,
      wr = postRdmaWrite bctx k signaled := by
  have hwrite : ∀ s, (benchLts bctx none).Reach Lts.any s → ∀ k, 0 < (s.dev.sq k).wrs.length →
      ∃ wr ∈ (s.dev.sq k).wrs, ∃ signaled, wr = postRdmaWrite bctx k signaled := by
    intro s hr k hlen
    obtain ⟨wr, hwr⟩ := List.exists_mem_of_length_pos hlen
    exact ⟨wr, hwr, (posted_of_reach hr k wr hwr).1⟩
  rcases Nat.eq_zero_or_pos bctx.cfg.warmup with hw | hw
  · have hi : 0 < bctx.cfg.iterations := h.resolve_left hw.not_gt
    obtain ⟨s, ⟨s₀, hstart, hpath⟩, hpc, hsi, hsq⟩ :=
      @exists_measure bctx none (fun _ => 0) 0 _ (Or.inl ⟨hi, le_rfl⟩)
        fun a _ _ _ _ => SendQueue.hasRoom_none _
    have hpos := measurePos_of_reach (fun _ _ => Careful.ok) ⟨s₀, hstart, hpath⟩
    rw [MeasureStart.eq_of_zero hstart] at hpath
    rw [measureLts_path] at hpath
    have hr : (benchLts bctx none).Reach Careful s :=
      ⟨benchStart, rfl, (path_startMeasure hw).trans hpath⟩
    have hr' := hr.mono fun _ _ _ => trivial
    refine ⟨s, hr', fun k hk => hwrite s hr' k ?_⟩
    have hone : s.written k = 1 := by
      simp [BenchState.written, hpc, hsi, hsq, roundRobin, BenchPc.turn, hk]
    rw [hpos.length k hk, hone]
    exact Nat.zero_lt_succ _
  · obtain ⟨s, hr, hpc, hsi, hsq, -⟩ :=
      @exists_warmup bctx none 0 _ (Or.inl ⟨hw, le_rfl⟩) fun a _ _ _ _ => SendQueue.hasRoom_none _
    have hpos := (benchPos_of_reach (fun _ _ => Careful.ok) hr).warmupPos hpc
    have hr' := hr.mono fun _ _ _ => trivial
    refine ⟨s, hr', fun k hk => hwrite s hr' k ?_⟩
    rw [hpos.length k hk, hsi, hsq, roundRobin, if_pos hk]
    exact Nat.zero_lt_succ _

end Posted

/-! ### The region of the server -/

/-- **Every write the client posts, in any run on any device, is inside the buffer of the
server.** -/
def BenchWritesInside (client server : BenchCtx) : Prop :=
  ∀ maxSendWr s, (benchLts client maxSendWr).Reach Lts.any s → ∀ k, ∀ wr ∈ (s.dev.sq k).wrs,
    InBuffer server.buf server.bufSize wr.remoteAddr wr.sge.length

/-- What the options must be for that: nothing is written, or the slots of the client fit
into the buffer of the server. -/
def BenchFits (client server : BenchConfig) : Prop :=
  (client.warmup = 0 ∧ client.iterations = 0) ∨
    SlotsFit client.msgSize client.qpCount (server.msgSize * server.qpCount)

section Region

variable {ccfg scfg : BenchConfig} {cenv : BenchEnv ccfg.qpCount} {senv : BenchEnv scfg.qpCount}
  {client : BenchCtx}

/-- The buffer is as large as the slots it is made of. -/
theorem bufSize_initCtx (cfg : BenchConfig) (env : BenchEnv cfg.qpCount) :
    (initCtx cfg env).bufSize = cfg.msgSize * cfg.qpCount ∧ cfg.msgSize * cfg.qpCount < 2 ^ 62 := by
  have hlt : cfg.msgSize * cfg.qpCount < 2 ^ 31 * 2 ^ 31 :=
    Nat.mul_lt_mul'' cfg.msgSize_lt cfg.qpCount_lt
  have hpow : (2 : ℕ) ^ 31 * 2 ^ 31 = 2 ^ 62 := by norm_num
  rw [hpow] at hlt
  exact ⟨Nat.mod_eq_of_lt (hlt.trans_le (Nat.pow_le_pow_right (by decide) (by decide))), hlt⟩

/-- **The writes of the client stay inside the buffer of the server** exactly when its slots
fit into it. Both processes have got through their setup. -/
theorem benchWritesInside_iff
    (hconn : connectQps (initCtx ccfg cenv) (initCtx scfg senv).localInfo = some client)
    (halloc : (initCtx scfg senv).buf + (initCtx scfg senv).bufSize ≤ 2 ^ 64) :
    BenchWritesInside client (initCtx scfg senv) ↔ BenchFits ccfg scfg := by
  obtain ⟨qps, -, rfl⟩ := Option.map_eq_some_iff.mp hconn
  obtain ⟨hsize, hlt⟩ := bufSize_initCtx scfg senv
  have hbase : (initCtx scfg senv).buf < 2 ^ 64 := senv.buf_lt
  have haddr : ∀ k signaled, (postRdmaWrite { initCtx ccfg cenv with
      remoteInfo := (initCtx scfg senv).localInfo, qps := qps } k signaled).remoteAddr =
        ((initCtx scfg senv).buf + cInt (k * ccfg.msgSize : ℕ)) % 2 ^ 64 := by
    intro k signaled
    rw [Nat.cast_mul]
    rfl
  rw [hsize] at halloc
  constructor
  · intro hinside
    by_contra hfit
    rw [BenchFits, not_or, not_and_or] at hfit
    obtain ⟨hsome, hslots⟩ := hfit
    obtain ⟨q, hq, hout⟩ := exists_outside ccfg.msgSize_lt ccfg.qpCount_pos hbase hlt halloc hslots
    have hturn : 0 < ccfg.warmup ∨ 0 < ccfg.iterations :=
      hsome.imp Nat.pos_of_ne_zero Nat.pos_of_ne_zero
    obtain ⟨s, hr, hposted⟩ := @exists_posted
      { initCtx ccfg cenv with remoteInfo := (initCtx scfg senv).localInfo, qps := qps } hturn
    obtain ⟨wr, hwr, signaled, rfl⟩ := hposted q hq
    have hin := hinside none s hr q _ hwr
    rw [haddr, hsize] at hin
    exact hout hin
  · intro hfit maxSendWr s hr k wr hwr
    obtain ⟨⟨signaled, rfl⟩, hk, hsome⟩ := posted_of_reach hr k wr hwr
    rw [haddr, hsize]
    rcases hfit with ⟨hw, hi⟩ | hslots
    · rcases hsome with hsome | hsome
      · exact absurd hw hsome.ne'
      · exact absurd hi hsome.ne'
    · exact hslots.inBuffer hbase halloc hk

end Region

/-! ### The ranges of the slots -/

/-- The bytes a write takes from the local buffer. -/
def SendWr.localRange (wr : SendWr) : Set ℤ := Set.Ico wr.sge.addr (wr.sge.addr + wr.sge.length)

/-- The bytes a write goes to. -/
def SendWr.remoteRange (wr : SendWr) : Set ℤ :=
  Set.Ico wr.remoteAddr (wr.remoteAddr + wr.sge.length)

/-- The slot of queue pair `q` in a buffer at `base`. -/
def slot (base q m : ℕ) : Set ℤ := Set.Ico ((base + q * m : ℕ) : ℤ) ((base + (q + 1) * m : ℕ) : ℤ)

/-- **The slot arithmetic is exact**: the ranges of each write are the slots of its queue pair,
in the buffers, and those of two queue pairs have no byte in common. -/
structure SlotsExact (client server : BenchCtx) : Prop where
  localRange : ∀ q < client.cfg.qpCount, ∀ signaled,
    (postRdmaWrite client q signaled).localRange = slot client.buf q client.cfg.msgSize
  remoteRange : ∀ q < client.cfg.qpCount, ∀ signaled,
    (postRdmaWrite client q signaled).remoteRange = slot server.buf q client.cfg.msgSize
  localInside : ∀ q < client.cfg.qpCount, ∀ signaled,
    InBuffer client.buf client.bufSize (postRdmaWrite client q signaled).sge.addr client.cfg.msgSize
  remoteInside : ∀ q < client.cfg.qpCount, ∀ signaled,
    InBuffer server.buf server.bufSize (postRdmaWrite client q signaled).remoteAddr
      client.cfg.msgSize
  disjoint : ∀ q < client.cfg.qpCount, ∀ q' < client.cfg.qpCount, q ≠ q' → ∀ signaled signaled',
    (postRdmaWrite client q signaled).localRange ∩
        (postRdmaWrite client q' signaled').localRange = ∅ ∧
      (postRdmaWrite client q signaled).remoteRange ∩
        (postRdmaWrite client q' signaled').remoteRange = ∅

theorem slot_disjoint {base m q q' : ℕ} (h : q ≠ q') : slot base q m ∩ slot base q' m = ∅ := by
  refine Set.eq_empty_iff_forall_notMem.mpr ?_
  rintro x ⟨hx, hx'⟩
  rw [slot, Set.mem_Ico, Nat.succ_mul] at hx hx'
  rcases Stream.slot_disjoint (w := m) h with hlt | hlt <;> omega

/-- A range that starts where the slot does. -/
theorem ico_eq_slot {base q m : ℕ} {x : ℤ} (h : x = ((base + q * m : ℕ) : ℤ)) :
    Set.Ico x (x + m) = slot base q m := by
  rw [slot, h, Nat.succ_mul, ← Nat.add_assoc, Nat.cast_add (base + q * m) m]

/-- A slot of a buffer that holds all of them is in it. -/
theorem inBuffer_of_slot {base size m n q : ℕ} {x : ℤ} (h : x = ((base + q * m : ℕ) : ℤ))
    (hq : q < n) (hsize : n * m ≤ size) : InBuffer base size x m := by
  have hslot : q * m + m ≤ n * m := Stream.slot_le hq
  rw [InBuffer, h]
  omega

/-- A slot whose place is an `int` is where it should be. -/
theorem slot_of_lt {base size m n q : ℕ} (hplace : q * m < 2 ^ 31) (hq : q < n)
    (hsize : n * m ≤ size) (hbase : base < 2 ^ 64) (hend : base + size ≤ 2 ^ 64) :
    ((base : ℤ) + cInt (q * m)) % 2 ^ 64 = ((base + q * m : ℕ) : ℤ) := by
  have hslot : q * m + m ≤ n * m := Stream.slot_le hq
  have hint : cInt ((q : ℤ) * m) = ((q * m : ℕ) : ℤ) := by
    rw [← Nat.cast_mul]
    exact cInt_natCast hplace
  rw [hint]
  rcases Nat.eq_zero_or_pos m with rfl | hpos
  · rw [Nat.mul_zero]
    omega
  · omega

section Exact

variable {cfg : BenchConfig} {cenv senv : BenchEnv cfg.qpCount} {client : BenchCtx}

/-- **Where the slot arithmetic is exact**, with the same options on both sides: the place of
the last slot is an `int`. -/
theorem slotsExact_iff
    (hconn : connectQps (initCtx cfg cenv) (initCtx cfg senv).localInfo = some client)
    (hclient : (initCtx cfg cenv).buf + (initCtx cfg cenv).bufSize ≤ 2 ^ 64)
    (hserver : (initCtx cfg senv).buf + (initCtx cfg senv).bufSize ≤ 2 ^ 64) :
    SlotsExact client (initCtx cfg senv) ↔ (cfg.qpCount - 1) * cfg.msgSize < 2 ^ 31 := by
  obtain ⟨qps, -, rfl⟩ := Option.map_eq_some_iff.mp hconn
  obtain ⟨hsize, hlt⟩ := bufSize_initCtx cfg senv
  obtain ⟨hsize', -⟩ := bufSize_initCtx cfg cenv
  have hbase : (initCtx cfg senv).buf < 2 ^ 64 := senv.buf_lt
  have hbase' : (initCtx cfg cenv).buf < 2 ^ 64 := cenv.buf_lt
  have hcomm : cfg.qpCount * cfg.msgSize = cfg.msgSize * cfg.qpCount := Nat.mul_comm _ _
  rw [hsize] at hserver
  rw [hsize'] at hclient
  constructor
  · intro h
    by_contra hwrap
    have hfit : ¬SlotsFit cfg.msgSize cfg.qpCount (cfg.msgSize * cfg.qpCount) :=
      fun hf => hwrap hf.1
    obtain ⟨q, hq, hout⟩ := exists_outside cfg.msgSize_lt cfg.qpCount_pos hbase hlt hserver hfit
    have hin := h.remoteInside q hq false
    rw [hsize] at hin
    refine hout ?_
    rw [Nat.cast_mul]
    exact hin
  · intro hint
    have hplace : ∀ q < cfg.qpCount, q * cfg.msgSize < 2 ^ 31 := fun q hq =>
      (Nat.mul_le_mul_right _ (Nat.le_sub_one_of_lt hq)).trans_lt hint
    have haddr : ∀ q < cfg.qpCount,
        (((initCtx cfg cenv).buf : ℤ) + cInt (q * cfg.msgSize)) % 2 ^ 64 =
        (((initCtx cfg cenv).buf + q * cfg.msgSize : ℕ) : ℤ) := fun q hq =>
      slot_of_lt (hplace q hq) hq hcomm.le hbase' hclient
    have hraddr : ∀ q < cfg.qpCount,
        (((initCtx cfg senv).buf : ℤ) + cInt (q * cfg.msgSize)) % 2 ^ 64 =
        (((initCtx cfg senv).buf + q * cfg.msgSize : ℕ) : ℤ) := fun q hq =>
      slot_of_lt (hplace q hq) hq hcomm.le hbase hserver
    have hlocal : ∀ q < cfg.qpCount, ∀ signaled,
        (postRdmaWrite { initCtx cfg cenv with
          remoteInfo := (initCtx cfg senv).localInfo, qps := qps } q signaled).localRange =
            slot (initCtx cfg cenv).buf q cfg.msgSize := fun q hq _ => ico_eq_slot (haddr q hq)
    have hremote : ∀ q < cfg.qpCount, ∀ signaled,
        (postRdmaWrite { initCtx cfg cenv with
          remoteInfo := (initCtx cfg senv).localInfo, qps := qps } q signaled).remoteRange =
            slot (initCtx cfg senv).buf q cfg.msgSize := fun q hq _ => ico_eq_slot (hraddr q hq)
    refine ⟨hlocal, hremote, fun q hq _ => ?_, fun q hq _ => ?_, fun q hq q' hq' hne _ _ =>
      ⟨?_, ?_⟩⟩
    · exact inBuffer_of_slot (haddr q hq) hq (hcomm.trans hsize'.symm).le
    · exact inBuffer_of_slot (hraddr q hq) hq (hcomm.trans hsize.symm).le
    · rw [hlocal q hq, hlocal q' hq']
      exact slot_disjoint hne
    · rw [hremote q hq, hremote q' hq']
      exact slot_disjoint hne

/-- With the default options the one slot is exact. -/
theorem slotsExact_defaults : ∃ client,
    connectQps (initCtx .defaults (.counting 1 (by decide)))
      (initCtx .defaults (.counting 1 (by decide))).localInfo = some client ∧
    SlotsExact client (initCtx .defaults (.counting 1 (by decide))) := by
  obtain ⟨client, hconn, -⟩ := connectQps_initCtx .defaults (.counting 1 (by decide))
    (initCtx .defaults (.counting 1 (by decide))).localInfo
  exact ⟨client, hconn, (slotsExact_iff hconn (by decide) (by decide)).mpr (by decide)⟩

/-- Three queue pairs with messages of a gibibyte. -/
def hugeMessages : BenchConfig :=
  { BenchConfig.defaults with
    msgSize := 2 ^ 30
    qpCount := 3
    msgSize_lt := by decide
    qpCount_lt := by decide
    qpCount_pos := by decide }

/-- The offset of the last of them is negative. -/
theorem not_slotsExact :
    ¬∀ (cfg : BenchConfig) (cenv senv : BenchEnv cfg.qpCount) (client : BenchCtx),
    connectQps (initCtx cfg cenv) (initCtx cfg senv).localInfo = some client →
    (initCtx cfg cenv).buf + (initCtx cfg cenv).bufSize ≤ 2 ^ 64 →
    (initCtx cfg senv).buf + (initCtx cfg senv).bufSize ≤ 2 ^ 64 →
    SlotsExact client (initCtx cfg senv) := by
  intro h
  obtain ⟨client, hconn, -⟩ := connectQps_initCtx hugeMessages (.counting 3 (by decide))
    (initCtx hugeMessages (.counting 3 (by decide))).localInfo
  have hexact := h hugeMessages _ _ client hconn (by decide) (by decide)
  obtain ⟨qps, -, rfl⟩ := Option.map_eq_some_iff.mp hconn
  have hin : InBuffer 4096 (3 * 2 ^ 30) ((4096 + cInt (2 * 2 ^ 30)) % 2 ^ 64) (2 ^ 30) :=
    hexact.localInside 2 (show 2 < hugeMessages.qpCount by decide) false
  exact absurd hin.2 (by decide)

end Exact

end RdmaBook
