import RdmaBook.Bench.Region
import RdmaBook.OneSided.Delivery

/-!
# RDMA Writes and the region they go to

rdma_write and rdma_bench post RDMA Writes at a place and of a length that the options of
the client decide. What they know of the region of the server is its address and its key;
`struct mr_info` carries the length, too, but rdma_write compares it with nothing. So a
write stays inside the region exactly where the options of the two processes happen to
agree (`RdmaBook.writes_inside_iff`).
-/

namespace RdmaBook

open CString

section WriteRegion

variable {cfg : OsCfg}

/-- **Every RDMA Write the client of rdma_write posts**, in any run, is inside the region of
the server, which is its data buffer. -/
def WritesInside (cfg : OsCfg) : Prop :=
  ∀ st, (writeLts cfg).Reach Lts.any st → ∀ wr ∈ (st.conn.ends .client).posted, ∀ raddr off,
    wr.op = .rdmaWrite raddr off → raddr = .dataBuf ∧ off + wr.length ≤ cfg.size .server

/-- The Write is as long as what fits of the text, and its null byte. -/
theorem OsCfg.writeLen_eq (hsize : 1 ≤ cfg.size .client) :
    cfg.writeLen = min (cfg.size .client - 1) writeText.length + 1 := by
  rw [OsCfg.writeLen, strlen, OsCfg.str_stored hsize, List.length_take]

/-- The Write is posted in some run. -/
theorem exists_write (cfg : OsCfg) : ∃ st, (writeLts cfg).Reach Lts.any st ∧
    ∃ wr ∈ (st.conn.ends .client).posted, wr.op = .rdmaWrite .dataBuf 0 ∧
    wr.length = cfg.writeLen := by
  have hstore : (writeLts cfg).Reach Lts.any _ :=
    (Lts.Reach.of_init rfl).tail trivial (rfl : OsState.next _ (.store .client) = some _)
  have hpost : (writeLts cfg).Reach Lts.any _ :=
    hstore.tail trivial (rfl : OsState.next _ (.call .client true) = some _)
  exact ⟨_, hpost, _, List.mem_singleton_self _, rfl, rfl⟩

/-- **The Write stays inside the region** exactly when it is not longer than that. -/
theorem writesInside_iff (hsize : 1 ≤ cfg.size .client) :
    WritesInside cfg ↔ min (cfg.size .client - 1) writeText.length + 1 ≤ cfg.size .server := by
  rw [← OsCfg.writeLen_eq hsize]
  constructor
  · intro h
    obtain ⟨st, hr, wr, hwr, hop, hlen⟩ := exists_write cfg
    obtain ⟨-, hle⟩ := h st hr wr hwr _ _ hop
    rwa [Nat.zero_add, hlen] at hle
  · intro hle st hr wr hwr raddr off hop
    obtain ⟨k, j, hw⟩ := WriteInv.of_reach hr
    rw [hw.posted] at hwr
    have hmem := List.mem_of_mem_take hwr
    simp only [OsCfg.requests, List.mem_cons, List.not_mem_nil, or_false] at hmem
    rcases hmem with rfl | rfl
    · obtain ⟨rfl, rfl⟩ := RcOp.rdmaWrite.inj hop
      rw [Nat.zero_add]
      exact ⟨rfl, hle⟩
    · cases hop

end WriteRegion

/-! ### Both programs -/

/-- **The writes of rdma_bench and of rdma_write stay inside the region of the server**
exactly when, in the one, there are none or the slots of the client fit into the buffer of
the server, and in the other what fits of the text does. -/
theorem writes_inside_iff {ccfg scfg : BenchConfig} {cenv : BenchEnv ccfg.qpCount}
    {senv : BenchEnv scfg.qpCount} {client : BenchCtx} {cfg : OsCfg}
    (hconn : connectQps (initCtx ccfg cenv) (initCtx scfg senv).localInfo = some client)
    (halloc : (initCtx scfg senv).buf + (initCtx scfg senv).bufSize ≤ 2 ^ 64)
    (hsize : 1 ≤ cfg.size .client) :
    (BenchWritesInside client (initCtx scfg senv) ↔ BenchFits ccfg scfg) ∧
      (WritesInside cfg ↔ min (cfg.size .client - 1) writeText.length + 1 ≤ cfg.size .server) :=
  ⟨benchWritesInside_iff hconn halloc, writesInside_iff hsize⟩

/-- The default buffer of rdma_write, on both sides. -/
def writeDefaults : OsCfg := ⟨.little, fun _ => 1024⟩

/-- With the default options all writes stay inside. -/
theorem writes_inside_defaults : ∃ client,
    connectQps (initCtx .defaults (.counting 1 (by decide)))
      (initCtx .defaults (.counting 1 (by decide))).localInfo = some client ∧
    BenchWritesInside client (initCtx .defaults (.counting 1 (by decide))) ∧
    WritesInside writeDefaults := by
  obtain ⟨client, hconn, -⟩ := connectQps_initCtx .defaults (.counting 1 (by decide))
    (initCtx .defaults (.counting 1 (by decide))).localInfo
  have hboth : _ ∧ (WritesInside writeDefaults ↔ _) :=
    writes_inside_iff hconn (by decide) (by decide)
  exact ⟨client, hconn, hboth.1.mpr (Or.inr ⟨by decide, by decide⟩),
    hboth.2.mpr (by decide +kernel)⟩

/-- A client of rdma_bench with messages of twice the default size. -/
def largeMessages : BenchConfig :=
  { BenchConfig.defaults with
    msgSize := 8192
    msgSize_lt := by decide }

/-- A client of rdma_write with the default buffer, and a server with one of 16 bytes. -/
def smallServer : OsCfg := ⟨.little, fun | .client => 1024 | .server => 16⟩

/-- **The first write leaves the region** with these options, in both programs. -/
theorem writes_outside :
    (∃ client s, connectQps (initCtx largeMessages (.counting 1 (by decide)))
        (initCtx .defaults (.counting 1 (by decide))).localInfo = some client ∧
      (benchLts client none).Reach Lts.any s ∧ ∃ wr ∈ (s.dev.sq 0).wrs,
        ¬InBuffer 4096 4096 wr.remoteAddr wr.sge.length) ∧
    ∃ st, (writeLts smallServer).Reach Lts.any st ∧ ∃ wr ∈ (st.conn.ends .client).posted,
      wr.op = .rdmaWrite .dataBuf 0 ∧ smallServer.size .server < wr.length := by
  constructor
  · obtain ⟨client, hconn, -⟩ := connectQps_initCtx largeMessages (.counting 1 (by decide))
      (initCtx .defaults (.counting 1 (by decide))).localInfo
    obtain ⟨qps, -, rfl⟩ := Option.map_eq_some_iff.mp hconn
    obtain ⟨s, hr, hposted⟩ := @exists_posted
      { initCtx largeMessages (.counting 1 (by decide)) with
        remoteInfo := (initCtx .defaults (.counting 1 (by decide))).localInfo
        qps := qps }
      (Or.inl (show 0 < largeMessages.warmup by decide))
    obtain ⟨wr, hwr, signaled, rfl⟩ := hposted 0 (show 0 < largeMessages.qpCount by decide)
    have hout : ¬InBuffer 4096 4096 ((4096 + cInt (0 * 8192)) % 2 ^ 64) 8192 := by
      rintro ⟨-, hend⟩
      revert hend
      decide
    exact ⟨_, s, hconn, hr, _, hwr, hout⟩
  · obtain ⟨st, hr, wr, hwr, hop, hlen⟩ := exists_write smallServer
    refine ⟨st, hr, wr, hwr, hop, ?_⟩
    rw [hlen, OsCfg.writeLen_eq (by decide)]
    decide +kernel

end RdmaBook
