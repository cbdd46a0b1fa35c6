import RdmaBook.Bench.Capacity

/-!
# rdma_bench: the counters of the posts

`total_ops` is the product of two options, `signal_cnt` counts the posts, and the test of
its remainder picks the signaled ones. All three are computed in `int`. They are right as
long as the product is one (`RdmaBook.benchCountersExact_iff`); behind that `total_ops` is
not the number of writes any more, the counter goes on from the other end of the range, and
the remainder of a negative number is never `31`.
-/

namespace RdmaBook

open Finset

/-- `total_ops`. -/
def totalOps (cfg : BenchConfig) : ℤ := cInt (cfg.iterations * cfg.qpCount)

/-- The number of writes the measurement has posted, over the requests `base k` that were on
the send queues before it. -/
def BenchState.posted (s : BenchState) (base : ℕ → ℕ) (n : ℕ) : ℕ :=
  ∑ k ∈ range n, ((s.dev.sq k).wrs.length - base k)

/-- **The counters are exact**: `total_ops`, computed at the entry, is the number of writes the loop
posts, and they have all been posted behind the loop; `signal_cnt` is the number of those that have
been posted, all along; and of all posts of the loop, counted over the queue pairs, every 32nd is
signaled. -/
structure CountersExact (bctx : BenchCtx) (base : ℕ → ℕ) (s : BenchState) : Prop where
  total : totalOps bctx.cfg = (bctx.cfg.iterations * bctx.cfg.qpCount : ℕ)
  posted : s.pc.AfterLoop →
    s.posted base bctx.cfg.qpCount = bctx.cfg.iterations * bctx.cfg.qpCount
  count : s.signalCnt = s.posted base bctx.cfg.qpCount
  signaled : ∀ k < bctx.cfg.qpCount, ∀ j, base k + j < (s.dev.sq k).wrs.length →
    ((s.dev.sq k).signaledAt (base k + j) = true ↔
      (j * bctx.cfg.qpCount + k) % signalInterval = signalInterval - 1)

/-- **The counters of the measurement are exact in every run in which nothing fails**, on a device
with this limit, over any leftover of the warm-up, and behind the warm-up itself. -/
def BenchCountersExact (bctx : BenchCtx) (maxSendWr : Option ℕ) : Prop :=
  (∀ left s, (measureLts bctx maxSendWr left).Reach NoFailure s → CountersExact bctx left s) ∧
  ∀ s, (benchLts bctx maxSendWr).Reach NoFailure s → s.pc.InMeasure →
    CountersExact bctx (fun _ => bctx.cfg.warmup) s

/-! ### The number of posts -/

theorem sum_ite_lt (q : ℕ) : ∀ n : ℕ, ∑ k ∈ range n, (if k < q then 1 else 0) = min n q := by
  intro n
  induction n with
  | zero => exact (Nat.zero_min q).symm
  | succ n ih =>
    rw [sum_range_succ, ih]
    split <;> omega

/-- A round that has reached `q` adds that many writes to those of the complete rounds. -/
theorem sum_roundRobin {i q n : ℕ} (hq : q ≤ n) : ∑ k ∈ range n, roundRobin i q k = i * n + q := by
  simp only [roundRobin]
  rw [sum_add_distrib, sum_const, card_range, sum_ite_lt, Nat.min_eq_right hq]
  exact congrArg (· + q) (Nat.mul_comm n i)

variable {bctx : BenchCtx} {base : ℕ → ℕ} {s : BenchState}

/-- The loop variables say how many writes have been posted. -/
theorem MeasurePos.posted_eq (h : MeasurePos bctx base s) :
    s.posted base bctx.cfg.qpCount = s.writes bctx.cfg.qpCount := by
  have hsum : s.posted base bctx.cfg.qpCount =
      ∑ k ∈ range bctx.cfg.qpCount, roundRobin s.i (s.q + s.pc.turn) k := by
    refine sum_congr rfl fun k hk => ?_
    rw [h.length k (mem_range.mp hk), Nat.add_sub_cancel_left, BenchState.written]
  rw [hsum, sum_roundRobin h.q_le, BenchState.writes, Nat.add_assoc]

/-- No more than all of them. -/
theorem MeasurePos.writes_le (h : MeasurePos bctx base s) :
    s.writes bctx.cfg.qpCount ≤ bctx.cfg.iterations * bctx.cfg.qpCount := by
  have hq := h.q_le
  rw [BenchState.writes, Nat.add_assoc]
  rcases Nat.lt_or_ge s.i bctx.cfg.iterations with hlt | hge
  · have hround : (s.i + 1) * bctx.cfg.qpCount ≤ bctx.cfg.iterations * bctx.cfg.qpCount :=
      Nat.mul_le_mul_right _ hlt
    rw [Nat.succ_mul] at hround
    omega
  · have hi := Nat.le_antisymm h.i_le hge
    rw [h.last hi, hi]
    exact le_rfl

/-- A write that has been posted has a number below that of the next. -/
theorem lt_writes {j k n : ℕ} (hk : k < n) (hj : j < s.written k) : j * n + k < s.writes n := by
  rw [BenchState.written, roundRobin] at hj
  rw [BenchState.writes, Nat.add_assoc]
  rcases Nat.lt_or_ge j s.i with hlt | hge
  · have hround : (j + 1) * n ≤ s.i * n := Nat.mul_le_mul_right n hlt
    rw [Nat.succ_mul] at hround
    omega
  · -- the write of the round that is under way
    split at hj
    · obtain rfl : j = s.i := by omega
      omega
    · omega

/-- Behind the loop all its writes have been posted. -/
theorem MeasurePos.posted_afterLoop (h : MeasurePos bctx base s) (hafter : s.pc.AfterLoop) :
    s.posted base bctx.cfg.qpCount = bctx.cfg.iterations * bctx.cfg.qpCount := by
  have hi := h.afterLoop hafter
  have hlast := h.last hi
  rw [h.posted_eq, BenchState.writes, Nat.add_assoc, hlast, hi, Nat.add_zero]

/-- **The counters are exact** where the product is an `int`. -/
theorem MeasurePos.countersExact (h : MeasurePos bctx base s)
    (hno : bctx.cfg.iterations * bctx.cfg.qpCount < 2 ^ 31) : CountersExact bctx base s where
  total := by
    rw [totalOps, ← Nat.cast_mul, cInt_natCast hno]
  posted := h.posted_afterLoop
  count := by
    rw [h.posted_eq, h.signalCnt, cInt_natCast (h.writes_le.trans_lt hno)]
  signaled k hk j hj := by
    have hjw : j < s.written k := by
      rw [h.length k hk] at hj
      omega
    have hlt := (lt_writes hk hjw).trans_le h.writes_le
    rw [h.flag k hk j hjw, measureSignaled_iff (hlt.trans hno)]
    rfl

/-- **The counters of the benchmark are exact**, on any device, exactly when the product of the two
options is an `int`: otherwise `total_ops` is wrong from the entry on. -/
theorem benchCountersExact_iff (bctx : BenchCtx) (maxSendWr : Option ℕ) :
    BenchCountersExact bctx maxSendWr ↔ bctx.cfg.iterations * bctx.cfg.qpCount < 2 ^ 31 := by
  constructor
  · rintro ⟨hmeasure, -⟩
    have hstart := leftoverStart_measureStart bctx fun _ => 0
    have htotal := (hmeasure _ _ (Lts.Reach.of_init hstart)).total
    rw [totalOps, cInt, Nat.cast_mul] at htotal
    omega
  · intro hno
    refine ⟨fun left s hr => ?_, fun s hr hm => ?_⟩
    · exact (measurePos_of_reach (fun _ _ => id) hr).countersExact hno
    · exact ((benchPos_of_reach (fun _ _ => id) hr).measurePos hm).countersExact hno

/-- 65536 iterations on 32768 queue pairs. -/
def wrappingCfg : BenchConfig :=
  .withCounts 0 65536 32768 (Eq.refl true)

/-- There `total_ops` is negative. -/
theorem not_benchCountersExact :
    ¬∀ (bctx : BenchCtx) (maxSendWr : Option ℕ), BenchCountersExact bctx maxSendWr := by
  intro h
  let bctx : BenchCtx := { initCtx .defaults (.counting 1 (by decide)) with cfg := wrappingCfg }
  have hstart := leftoverStart_measureStart bctx fun _ => 0
  have htotal := ((h bctx (some 512)).1 _ _ (Lts.Reach.of_init hstart)).total
  have hwrap : totalOps wrappingCfg = ((2 ^ 16 * 2 ^ 15 : ℕ) : ℤ) := htotal
  exact absurd hwrap (by decide)

end RdmaBook
