import Mathlib.Data.List.Nodup
import RdmaBook.Lib.CInt
import RdmaBook.Verbs.Basic

/-!
# rdma_bench: options, context and connection setup

What the two processes of the benchmark have built before the first write is
posted. `RdmaBook.initCtx` registers one buffer with a slot per queue pair and
creates `qpCount` queue pairs, `RdmaBook.connectQps` exchanges one
`RdmaBook.ConnInfo` with the peer and brings every queue pair up with it.

The exchanged record has room for one queue pair number, and `init_ctx` puts the
first one there; so every queue pair of a process gets the first queue pair of
the peer as its destination (`RdmaBook.connectQps_initCtx`), and the connections are
a pairing for a single queue pair only (`RdmaBook.paired_connectQps_iff`).
-/

namespace RdmaBook

/-! ### The constants -/

/-- `SIGNAL_INTERVAL`. -/
def signalInterval : ℕ := 32

/-- `DEFAULT_SQ_DEPTH`. -/
def defaultSqDepth : ℕ := 512

/-- `DEFAULT_CQ_DEPTH`. -/
def defaultCqDepth : ℕ := 1024

/-! ### Options and context -/

/-- `struct conn_info`, the record exchanged over TCP. -/
structure ConnInfo where
  addr : ℤ
  rkey : UInt32
  qpn : UInt32
  lid : UInt16
  gid : Gid
  deriving DecidableEq

/-- The record of a context that has been zeroed. -/
def ConnInfo.zero : ConnInfo :=
  { addr := 0, rkey := 0, qpn := 0, lid := 0, gid := ⟨List.replicate 16 0, rfl⟩ }

/-- `struct bench_config`, for the option values the benchmark is meant for: the
counts are `int`s that are not negative, and there is a queue pair. -/
structure BenchConfig where
  msgSize : ℕ
  iterations : ℕ
  warmup : ℕ
  qpCount : ℕ
  ibPort : ℕ
  gidIndex : ℕ
  msgSize_lt : msgSize < 2 ^ 31
  iterations_lt : iterations < 2 ^ 31
  warmup_lt : warmup < 2 ^ 31
  qpCount_lt : qpCount < 2 ^ 31
  qpCount_pos : 0 < qpCount

/-- The options `main` starts from. -/
def BenchConfig.defaults : BenchConfig where
  msgSize := 4096
  iterations := 100000
  warmup := 5000
  qpCount := 1
  ibPort := 1
  gidIndex := 0
  msgSize_lt := by decide
  iterations_lt := by decide
  warmup_lt := by decide
  qpCount_lt := by decide
  qpCount_pos := by decide

/-- The counts are `int`s, and there is a queue pair. -/
def countsOk (warmup iterations qpCount : ℕ) : Bool :=
  decide (warmup < 2 ^ 31 ∧ iterations < 2 ^ 31 ∧ qpCount < 2 ^ 31 ∧ 0 < qpCount)

/-- The default options with other counts. -/
def BenchConfig.withCounts (warmup iterations qpCount : ℕ)
    (h : countsOk warmup iterations qpCount = true) : BenchConfig :=
  { BenchConfig.defaults with
    warmup := warmup
    iterations := iterations
    qpCount := qpCount
    warmup_lt := (of_decide_eq_true h).1
    iterations_lt := (of_decide_eq_true h).2.1
    qpCount_lt := (of_decide_eq_true h).2.2.1
    qpCount_pos := (of_decide_eq_true h).2.2.2 }

/-- The send queue depth, which no option of `main` changes. -/
def BenchConfig.sqDepth (_ : BenchConfig) : ℕ := defaultSqDepth

/-- What the calls of `init_ctx` hand out when they succeed: the buffer, the
keys of its region, the numbers of the queue pairs, and the address of the
port. Queue pair numbers are distinct within a process. -/
structure BenchEnv (n : ℕ) where
  buf : ℕ
  lkey : UInt32
  rkey : UInt32
  qpNums : List UInt32
  lid : UInt16
  gid : Gid
  buf_lt : buf < 2 ^ 64
  length_qpNums : qpNums.length = n
  nodup_qpNums : qpNums.Nodup

/-- `struct bench_ctx`. -/
structure BenchCtx where
  cfg : BenchConfig
  buf : ℕ
  bufSize : ℕ
  lkey : UInt32
  rkey : UInt32
  qps : List Qp
  localInfo : ConnInfo
  remoteInfo : ConnInfo

/-- **`init_ctx`**: one buffer of `msg_size * qp_count` bytes, the product taken
in `size_t`, one queue pair after another in RESET, and the record for the peer,
which carries the number of the first queue pair. -/
def initCtx (cfg : BenchConfig) (env : BenchEnv cfg.qpCount) : BenchCtx where
  cfg := cfg
  buf := env.buf
  bufSize := cfg.msgSize * cfg.qpCount % 2 ^ 64
  lkey := env.lkey
  rkey := env.rkey
  qps := env.qpNums.map fun n => ⟨n, .reset⟩
  localInfo :=
    { addr := env.buf
      rkey := env.rkey
      qpn := env.qpNums.headD 0
      lid := env.lid
      gid := env.gid }
  remoteInfo := .zero

/-! ### Bringing the queue pairs up -/

/-- `modify_qp_to_init` of rdma_bench. -/
def benchModifyQpToInit (qp : Qp) (ibPort : ℕ) : Option Qp :=
  qp.modify (.init
    { pkeyIndex := 0
      portNum := ibPort
      accessFlags := { localWrite := true, remoteWrite := true, remoteRead := true } })

/-- `modify_qp_to_rtr` of rdma_bench. -/
def benchModifyQpToRtr (qp : Qp) (remote : ConnInfo) (ibPort gidIndex : ℕ) : Option Qp :=
  qp.modify (.rtr
    { pathMtu := 1024
      destQpNum := remote.qpn
      rqPsn := 0
      maxDestRdAtomic := 1
      minRnrTimer := 12
      ah :=
        { dlid := remote.lid
          dgid := remote.gid
          sgidIndex := gidIndex
          hopLimit := 1
          portNum := ibPort } })

/-- `modify_qp_to_rts` of rdma_bench. -/
def benchModifyQpToRts (qp : Qp) : Option Qp :=
  qp.modify (.rts { sqPsn := 0, timeout := 14, retryCnt := 7, rnrRetry := 7, maxRdAtomic := 1 })

/-- The body of the loop of `connect_qps`: a refused transition is fatal. -/
def bringUp (cfg : BenchConfig) (remote : ConnInfo) (qp : Qp) : Option Qp := do
  let qp ← benchModifyQpToInit qp cfg.ibPort
  let qp ← benchModifyQpToRtr qp remote cfg.ibPort cfg.gidIndex
  benchModifyQpToRts qp

/-- **`connect_qps`**, once `exchange_info` has received the record of the peer:
every queue pair is brought up with that one record. -/
def connectQps (bctx : BenchCtx) (remote : ConnInfo) : Option BenchCtx :=
  (bctx.qps.mapM (bringUp bctx.cfg remote)).map fun qps =>
    { bctx with remoteInfo := remote, qps := qps }

/-- The destination of the queue pair at an index. -/
def BenchCtx.dest (bctx : BenchCtx) (i : ℕ) : Option UInt32 := bctx.qps[i]?.bind Qp.destQpNum

/-- The number of the queue pair at an index. -/
def BenchCtx.number (bctx : BenchCtx) (i : ℕ) : Option UInt32 := bctx.qps[i]?.map (·.qpNum)

/-- **A one-to-one pairing** of the `n` queue pairs of two processes. -/
def Paired (n : ℕ) (client server : BenchCtx) : Prop :=
  (∀ i < n, ∃! j, j < n ∧ client.dest i = server.number j ∧ server.dest j = client.number i) ∧
    (∀ i < n, ∀ j < n, client.dest i = client.dest j → i = j) ∧
    ∀ i < n, ∀ j < n, server.dest i = server.dest j → i = j

/-! ### A device that numbers its queue pairs from one -/

/-- The answers of a device that numbers the queue pairs of a process `1, 2, …`. -/
def BenchEnv.counting (n : ℕ) (h : n < 2 ^ 31) : BenchEnv n where
  buf := 4096
  lkey := 1
  rkey := 2
  qpNums := (List.range n).map fun k => UInt32.ofNat (k + 1)
  lid := 1
  gid := ConnInfo.zero.gid
  buf_lt := by decide
  length_qpNums := by simp
  nodup_qpNums := by
    refine List.Nodup.map_on (fun a ha b hb hab => ?_) List.nodup_range
    rw [List.mem_range] at ha hb
    have hval : ∀ c < n, (UInt32.ofNat (c + 1)).toNat = c + 1 := fun c hc =>
      UInt32.toNat_ofNat_of_lt' (by rw [UInt32.size]; omega)
    have heq := congrArg UInt32.toNat hab
    rw [hval a ha, hval b hb] at heq
    omega

/-- The context of a process on such a device, connected with its like. -/
def countingCtx (cfg : BenchConfig) : BenchCtx :=
  let bctx := initCtx cfg (.counting cfg.qpCount cfg.qpCount_lt)
  (connectQps bctx bctx.localInfo).getD bctx

/-! ### What connecting leaves behind -/

section Connect

variable {cfg : BenchConfig} {env : BenchEnv cfg.qpCount}

theorem bringUp_reset (cfg : BenchConfig) (remote : ConnInfo) (n : UInt32) :
    ∃ q : Qp, bringUp cfg remote ⟨n, .reset⟩ = some q ∧ q.qpNum = n ∧
      q.destQpNum = some remote.qpn ∧ q.IsRts :=
  ⟨_, rfl, rfl, rfl, _, _, _, rfl⟩

/-- Bringing a list of fresh queue pairs up succeeds, keeps their numbers and
gives all of them the one destination. -/
theorem mapM_bringUp (cfg : BenchConfig) (remote : ConnInfo) : ∀ ns : List UInt32,
    ∃ qps, (ns.map fun n => (⟨n, .reset⟩ : Qp)).mapM (bringUp cfg remote) = some qps ∧
      qps.map (·.qpNum) = ns ∧ ∀ q ∈ qps, q.destQpNum = some remote.qpn ∧ q.IsRts
  | [] => ⟨[], rfl, rfl, by simp⟩
  | n :: ns => by
    obtain ⟨q, hq, hnum, hdest, hrts⟩ := bringUp_reset cfg remote n
    obtain ⟨qps, hqps, hnums, hall⟩ := mapM_bringUp cfg remote ns
    refine ⟨q :: qps, ?_, by rw [List.map_cons, hnum, hnums], ?_⟩
    · simp [List.mapM_cons, hq, hqps]
    · intro q' hq'
      rcases List.mem_cons.mp hq' with rfl | hq'
      · exact ⟨hdest, hrts⟩
      · exact hall q' hq'

/-- **Connecting succeeds, and gives every queue pair the same destination**: the
number in the record of the peer. The numbers stay those handed out. -/
theorem connectQps_initCtx (cfg : BenchConfig) (env : BenchEnv cfg.qpCount) (remote : ConnInfo) :
    ∃ b, connectQps (initCtx cfg env) remote = some b ∧
      (∀ i < cfg.qpCount, b.dest i = some remote.qpn) ∧
      (∀ i, b.number i = env.qpNums[i]?) ∧ ∀ q ∈ b.qps, q.IsRts := by
  obtain ⟨qps, hqps, hnums, hall⟩ := mapM_bringUp cfg remote env.qpNums
  have hlen : qps.length = cfg.qpCount := by
    rw [← env.length_qpNums, ← hnums, List.length_map]
  refine ⟨{ initCtx cfg env with remoteInfo := remote, qps := qps }, ?_, fun i hi => ?_,
    fun i => ?_, fun q hq => (hall q hq).2⟩
  · rw [connectQps]
    exact congrArg (Option.map _) hqps
  · have hi' : i < qps.length := by omega
    simp [BenchCtx.dest, hi', (hall _ (List.getElem_mem hi')).1]
  · rw [BenchCtx.number, ← hnums, List.getElem?_map]

/-- The record a process sends carries the number of its first queue pair. -/
theorem qpn_localInfo (cfg : BenchConfig) (env : BenchEnv cfg.qpCount) :
    env.qpNums[0]? = some (initCtx cfg env).localInfo.qpn := by
  have hpos : 0 < env.qpNums.length := by
    rw [env.length_qpNums]
    exact cfg.qpCount_pos
  cases h : env.qpNums with
  | nil => simp [h] at hpos
  | cons n ns => simp [initCtx, h]

end Connect

/-- **The queue pairs of the two processes are paired exactly when each process
has one.** Both run `init_ctx` and `connect_qps` with the same count and the
record the other sent. -/
theorem paired_connectQps_iff (cfg cfg' : BenchConfig) (hcount : cfg'.qpCount = cfg.qpCount)
    (env : BenchEnv cfg.qpCount) (env' : BenchEnv cfg'.qpCount) :
    ∃ client server, connectQps (initCtx cfg env) (initCtx cfg' env').localInfo = some client ∧
      connectQps (initCtx cfg' env') (initCtx cfg env).localInfo = some server ∧
      (Paired cfg.qpCount client server ↔ cfg.qpCount = 1) := by
  obtain ⟨client, hc, hcd, hcn, -⟩ :=
    connectQps_initCtx cfg env (initCtx cfg' env').localInfo
  obtain ⟨server, hs, hsd, hsn, -⟩ :=
    connectQps_initCtx cfg' env' (initCtx cfg env).localInfo
  have hpos := cfg.qpCount_pos
  refine ⟨client, server, hc, hs, fun ⟨_, hinj, _⟩ => ?_, fun hone => ⟨?_, ?_, ?_⟩⟩
  · -- two queue pairs of the client would share their destination
    by_contra hne
    have h₀₁ := hinj 0 hpos 1 (by omega) (by rw [hcd 0 hpos, hcd 1 (by omega)])
    omega
  · intro i hi
    refine ⟨0, ⟨by omega, ?_, ?_⟩, fun j hj => by omega⟩
    · rw [hcd i hi, hsn, qpn_localInfo]
    · rw [hsd 0 (by omega), show i = 0 by omega, hcn, qpn_localInfo]
  · intro i hi j hj _
    omega
  · intro i hi j hj _
    omega

/-- With the default options the pairing is one. -/
theorem paired_defaults :
    ∃ client server,
      connectQps (initCtx .defaults (.counting 1 (by decide)))
        (initCtx .defaults (.counting 1 (by decide))).localInfo = some client ∧
      connectQps (initCtx .defaults (.counting 1 (by decide)))
        (initCtx .defaults (.counting 1 (by decide))).localInfo = some server ∧
      Paired 1 client server := by
  obtain ⟨client, server, hc, hs, hiff⟩ := paired_connectQps_iff .defaults .defaults rfl
    (.counting 1 (by decide)) (.counting 1 (by decide))
  exact ⟨client, server, hc, hs, hiff.mpr rfl⟩

/-- The default options for two queue pairs. -/
def twoQps : BenchConfig :=
  .withCounts 5000 100000 2 (Eq.refl true)

/-- With two queue pairs, both queue pairs of the client have the first one of the
server as their destination, which answers to the first one of the client. -/
theorem not_paired_two :
    ∃ client server,
      connectQps (initCtx twoQps (.counting 2 (by decide)))
        (initCtx twoQps (.counting 2 (by decide))).localInfo = some client ∧
      connectQps (initCtx twoQps (.counting 2 (by decide)))
        (initCtx twoQps (.counting 2 (by decide))).localInfo = some server ∧
      client.dest 0 = some 1 ∧ client.dest 1 = some 1 ∧ ¬Paired 2 client server := by
  refine ⟨_, _, rfl, rfl, rfl, rfl, fun ⟨_, hinj, _⟩ => ?_⟩
  have h₀₁ := hinj 0 (by decide) 1 (by decide) rfl
  omega

end RdmaBook
