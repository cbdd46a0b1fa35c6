import RdmaBook.Bench.Run
import RdmaBook.Program.Mains

/-!
# The main of rdma_bench

`main` of rdma_bench with any positive number of queue pairs: they are created one after the other,
brought up one after the other, written through in turn, and destroyed in the order of their
creation, in front of all that they need. The program has its own `open_device` and its own
functions for the connection, in which every error ends the process.

As for the programs of chapter 9, every call of every run is right as long as no object has failed
to be released, and a process that then comes to its end has given everything back
(`RdmaBook.Host.rdmaBenchMain_complete`). Whether it comes to its end is another question, which the
queues decide (`RdmaBook.benchmark_finishes_iff`).
-/

namespace RdmaBook

namespace Host

open CallSpec CallSpec.Triple

/-! ### The device and the connection -/

/-- The loop of `open_device` at the device `i`, with so many left; whether it has brought a
context. -/
def benchFindDevice (devname : Option String) (i : ℕ) : ℕ → HostProg Bool
  | 0 => pure false
  | left + 1 =>
    match devname with
    | none => call (.openDevice i)
    | some name => do
      let dev ← call (.getDeviceName i)
      if dev = name then call (.openDevice i) else benchFindDevice devname (i + 1) left

/-- `open_device` of rdma_bench. -/
def benchOpenDevice (devname : Option String) : HostProg Unit := do
  match ← call .getDeviceList with
  | none => .exit
  | some 0 => .exit
  | some (n + 1) =>
    let ctx ← benchFindDevice devname 0 (n + 1)
    call .freeDeviceList
    check ctx

/-- `tcp_server_listen` of rdma_bench, which accepts the connection as well. -/
def benchListen : HostProg Unit := do
  check (← call (.socket .listenFd))
  call .setsockopt
  check (← call .bindFd)
  check (← call .listen)
  check (← call .accept)
  call (.close .listenFd)

/-- `tcp_client_connect` of rdma_bench: a name is looked up where it is no address. -/
def benchConnect : HostProg Unit := do
  if (← call .resolve) = false then
    check (← call .resolve)
  check (← call (.socket .sockfd))
  check (← call .connect)

/-! ### Setup -/

/-- The calls of `init_ctx` behind `open_device`, up to the loop: the buffer, the queue, the
array. -/
def benchObjects : HostProg Unit := do
  check (← call (.acquire .pd))
  registerBuf .buf
  check (← call (.acquire .cq))
  check (← call (.acquire (.mem .qps)))

/-- The loop of `init_ctx`. -/
def createQps (qpCount : ℕ) : HostProg Unit :=
  Prog.times (fun i => do check (← call (.createQp i))) qpCount

/-- `init_ctx` behind `open_device`. -/
def benchResources (qpCount : ℕ) : HostProg Unit := do
  benchObjects
  createQps qpCount
  check (← call .query)
  check (← call .query)

/-- `init_ctx`. -/
def benchInitCtx (cfg : BenchConfig) (devname : Option String) : HostProg Unit := do
  benchOpenDevice devname
  benchResources cfg.qpCount

/-- `sizeof(struct conn_info)`. -/
def connInfoSize : ℕ := 40

/-- `exchange_info`, in which the calls are checked. -/
def benchExchange : HostProg Unit := do
  check (← call (.writeRecord connInfoSize))
  check (← call (.readRecord connInfoSize))

/-- `connect_qps`. -/
def benchConnectQps (cfg : BenchConfig) : HostProg Unit := do
  benchExchange
  Prog.times bringUp cfg.qpCount

/-! ### The benchmark -/

/-- `ibv_poll_cq`, until there are completions: how many more than one, and whether all are good. -/
def pollSome : HostProg (ℕ × Bool) :=
  .loop do
    match ← call .pollCqs with
    | none => .exit
    | some [] => pure none
    | some (ok :: oks) => pure (some (oks.length, (ok :: oks).all id))

/-- `poll_completions`, with so many completions still to come. -/
def pollCompletions : ℕ → HostProg Bool
  | 0 => pure true
  | remaining + 1 => do
    let (more, ok) ← pollSome
    if ok = false then pure false else pollCompletions (remaining - more)
termination_by remaining => remaining

/-- A write of the warm-up; `outstanding_cqes` is handed on. -/
def warmupWrite (i q : ℕ) (outstandingCqes : ℤ) : HostProg ℤ := do
  check (← call (.postSend q .buf))
  pure (if warmupSignaled i = true then cInt (outstandingCqes + 1) else outstandingCqes)

/-- A write of the measurement; `signal_cnt` and `outstanding_cqes` are handed on. -/
def measureWrite (cfg : BenchConfig) (q : ℕ) (counters : ℤ × ℤ) : HostProg (ℤ × ℤ) := do
  let (signalCnt, outstandingCqes) := counters
  check (← call (.postSend q .buf))
  let outstandingCqes :=
    if measureSignaled signalCnt = true then cInt (outstandingCqes + 1) else outstandingCqes
  if throttleAt cfg ≤ outstandingCqes then
    let _ ← pollCompletions 1
    pure (cInt (signalCnt + 1), cInt (outstandingCqes - 1))
  else
    pure (cInt (signalCnt + 1), outstandingCqes)

/-- The completions that are left, if there are any. -/
def drain (outstandingCqes : ℤ) : HostProg Unit := do
  if 0 < outstandingCqes then
    let _ ← pollCompletions outstandingCqes.toNat

/-- `run_benchmark`. -/
def runBenchmark (cfg : BenchConfig) : HostProg Unit := do
  let outstandingCqes ← Prog.fold (fun i => Prog.fold (warmupWrite i) cfg.qpCount) cfg.warmup 0
  drain outstandingCqes
  let (_, outstandingCqes) ←
    Prog.fold (fun _ => Prog.fold (measureWrite cfg) cfg.qpCount) cfg.iterations (0, 0)
  drain outstandingCqes

/-! ### The end -/

/-- The loop of `cleanup`. -/
def destroyQps (qpCount : ℕ) : HostProg Unit := Prog.times (fun i => giveBack (.qp i)) qpCount

/-- `cleanup`, behind `close`. -/
def benchCleanup (cfg : BenchConfig) : HostProg Unit := do
  call (.close .sockfd)
  destroyQps cfg.qpCount
  releaseAll [.mem .qps, .cq, .mr .buf, .pd, .mem .buf, .ctx]

/-- The data phase: the client tells the server with a byte that it is done. -/
def benchData (cfg : BenchConfig) (isServer : Bool) : HostProg Unit := do
  if isServer = true then
    call .readByte
  else
    runBenchmark cfg
    call .writeByte

/-- The connection, of either side. -/
def benchConnection : Bool → HostProg Unit
  | true => benchListen
  | false => benchConnect

/-- `main` of rdma_bench. -/
def rdmaBenchMain (cfg : BenchConfig) (devname : Option String) (isServer : Bool) :
    HostProg Unit := do
  benchInitCtx cfg devname
  benchConnection isServer
  benchConnectQps cfg
  synchronize
  benchData cfg isServer
  benchCleanup cfg

/-! ### The device and the connection, in their runs -/

section Runs

variable {devs : List String} {w : HostState}

theorem benchFindDevice_spec {devname : Option String} (hlist : w.devList = true)
    (hctx : .ctx ∉ w.live) {i left : ℕ} (hlen : i + left = devs.length)
    (hbefore : ∀ j < i, ∃ name, devname = some name ∧ devs[j]? ≠ some name) :
    (HostState.spec devs).Triple (· = w) (benchFindDevice devname i left) fun ok h =>
      h = (if ok = true then { w with live := .ctx :: w.live } else w) ∧
        (ok = true → ∃ k, Chosen devs devname k) := by
  have hopen : ∀ k, k < devs.length → Chosen devs devname k →
      (HostState.spec devs).Triple (· = w) (call (.openDevice k)) fun ok h =>
        h = (if ok = true then { w with live := .ctx :: w.live } else w) ∧
          (ok = true → ∃ k, Chosen devs devname k) := by
    intro k hlt hchosen
    refine Triple.call (fun s hs => hs ▸ ⟨hlist, hlt, hctx⟩) ?_
    rintro s ok rfl -
    exact ⟨rfl, fun _ => ⟨k, hchosen⟩⟩
  induction left generalizing i with
  | zero => exact at_ret ⟨rfl, fun h => by cases h⟩
  | succ left ih =>
    have hlt : i < devs.length := by omega
    cases devname with
    | none =>
      have hi : i = 0 := Nat.eq_zero_of_not_pos fun h => by
        obtain ⟨name, hname, -⟩ := hbefore 0 h
        cases hname
      exact hopen i hlt ⟨hi, List.length_pos_iff.mp (Nat.zero_lt_of_lt hlt)⟩
    | some name =>
      have hbefore' : ∀ j < i, devs[j]? ≠ some name := fun j hj => by
        obtain ⟨_, heq, hne⟩ := hbefore j hj
        exact Option.some.inj heq ▸ hne
      refine at_call ⟨hlist, hlt⟩ fun dev hdev => ?_
      have hdev : devs[i]? = some dev := hdev.1
      change (HostState.spec devs).Triple (· = w)
        (if dev = name then call (.openDevice i) else benchFindDevice (some name) (i + 1) left) _
      by_cases heq : dev = name
      · rw [if_pos heq]
        exact hopen i hlt ⟨heq ▸ hdev, hbefore'⟩
      · rw [if_neg heq]
        refine ih (by omega) fun j hj => ⟨name, rfl, ?_⟩
        rcases Nat.lt_succ_iff_lt_or_eq.mp hj with hj | rfl
        · exact hbefore' j hj
        · rw [hdev]
          exact fun h => heq (Option.some.inj h)

/-- **`open_device`** opens the device that is chosen, or the process ends. -/
theorem benchOpenDevice_spec {devname : Option String} :
    (HostState.spec devs).Triple (· = .start) (benchOpenDevice devname)
      fun _ h => h = opened ∧ ∃ k, Chosen devs devname k := by
  refine at_call rfl fun r hr => ?_
  rcases hr.1 with rfl | rfl
  · exact Triple.exit
  cases hlen : devs.length with
  | zero => exact Triple.exit
  | succ n =>
    refine at_bind (benchFindDevice_spec (w := listed) rfl List.not_mem_nil (by omega)
      fun j hj => absurd hj (Nat.not_lt_zero j)) ?_
    rintro ok _ ⟨rfl, hchosen⟩
    cases ok with
    | true => exact at_call rfl fun _ _ => at_ret ⟨rfl, hchosen rfl⟩
    | false => exact at_call rfl fun _ _ => Triple.exit

/-- **The connection** leaves one socket, and it is connected. -/
theorem benchConnection_leads (isServer : Bool) (hlisten : w.listenFd = none)
    (hsock : w.sockfd = none) :
    (HostState.spec devs).Leads w (benchConnection isServer)
      { w with sockfd := some .connected } := by
  obtain ⟨devList, live, qps, addrs, listenFd, sockfd⟩ := w
  obtain rfl : listenFd = none := hlisten
  obtain rfl : sockfd = none := hsock
  cases isServer with
  | true =>
    refine at_call rfl fun ok _ => at_check fun hok => ?_
    subst hok
    refine at_call rfl fun _ _ => at_call rfl fun ok _ => at_check fun hok => ?_
    subst hok
    refine at_call rfl fun ok _ => at_check fun hok => ?_
    subst hok
    refine at_call ⟨rfl, rfl⟩ fun ok _ => at_check fun hok => ?_
    subst hok
    refine Triple.call (fun s hs => ?_) fun s r hs _ => ?_
    · subst hs
      exact Option.some_ne_none _
    · subst hs
      rfl
  | false =>
    have hrest : (HostState.spec devs).Leads ⟨devList, live, qps, addrs, none, none⟩ (do
        check (← call (.socket .sockfd))
        check (← call .connect)) ⟨devList, live, qps, addrs, none, some .connected⟩ := by
      refine at_call rfl fun ok _ => at_check fun hok => ?_
      subst hok
      refine at_call rfl fun ok _ => check_spec fun hok => ?_
      subst hok
      rfl
    refine at_call trivial fun ok _ => ?_
    cases ok with
    | true => exact hrest
    | false => exact at_call trivial fun _ _ => at_check fun _ => hrest

/-! ### The queue pairs -/

/-- What `cleanup` releases behind the queue pairs. -/
def benchBase : List HostObj := [.mem .qps, .cq, .mr .buf, .mem .buf, .pd, .ctx]

/-- The queue pairs from `i` on, of `n`. -/
def qpObjs (i n : ℕ) : List HostObj := ((List.range' i (n - i)).map HostObj.qp).reverse

/-- A process with its queue pairs from `i` on, of `n`. -/
def benchState (i n : ℕ) (qps : List QpStage) (sockfd : Option SockState) : HostState where
  devList := false
  live := qpObjs i n ++ benchBase
  qps := qps
  addrs := none
  listenFd := none
  sockfd := sockfd

theorem mem_qpObjs {i n q : ℕ} : HostObj.qp q ∈ qpObjs i n ↔ i ≤ q ∧ q < n := by
  rw [qpObjs, List.mem_reverse, List.mem_map]
  constructor
  · rintro ⟨k, hk, heq⟩
    cases heq
    obtain ⟨j, hj, rfl⟩ := List.mem_range'.mp hk
    omega
  · rintro ⟨hle, hlt⟩
    exact ⟨q, List.mem_range'.mpr ⟨q - i, by omega, by omega⟩, rfl⟩

theorem qpObjs_zero_succ (n : ℕ) : qpObjs 0 (n + 1) = .qp n :: qpObjs 0 n := by
  simp [qpObjs, List.range'_concat]

theorem qpObjs_next {i n : ℕ} (h : i < n) : qpObjs i n = qpObjs (i + 1) n ++ [.qp i] := by
  obtain ⟨k, rfl⟩ := Nat.exists_eq_add_of_lt h
  have h₁ : i + k + 1 - i = k + 1 := by omega
  have h₂ : i + k + 1 - (i + 1) = k := by omega
  rw [qpObjs, qpObjs, h₁, h₂, List.range'_succ, List.map_cons, List.reverse_cons]

theorem qpObjs_self (n : ℕ) : qpObjs n n = [] := by
  simp [qpObjs]

theorem mem_benchLive {i n : ℕ} {o : HostObj} (h : o ∈ benchBase) : o ∈ qpObjs i n ++ benchBase :=
  List.mem_append_right _ h

/-- **The loop of `init_ctx`** creates them all. -/
theorem createQps_leads (n : ℕ) :
    (HostState.spec devs).Leads (benchState 0 0 [] none) (createQps n)
      (benchState 0 n (List.replicate n .reset) none) := by
  refine Leads.times (s := fun i => benchState 0 i (List.replicate i .reset) none) fun i _ => ?_
  refine at_call ⟨List.length_replicate.symm, fun o ho => mem_benchLive ?_⟩
    fun ok _ => check_spec fun hok => ?_
  · exact (by decide : ∀ o ∈ (HostObj.qp 0).needs, o ∈ benchBase) o ho
  · subst hok
    change (⟨false, .qp i :: (qpObjs 0 i ++ benchBase), List.replicate i .reset ++ [.reset], none,
      none, none⟩ : HostState) = benchState 0 (i + 1) (List.replicate (i + 1) .reset) none
    rw [benchState, qpObjs_zero_succ, List.replicate_succ']
    rfl

/-- A process with the queue pairs `qps`, which is connected. -/
def connectedState (live : List HostObj) (qps : List QpStage) : HostState :=
  ⟨false, live, qps, none, none, some .connected⟩

/-- **A call of `ibv_modify_qp`** on the queue pair behind `A`. -/
theorem modifyQp_spec {live : List HostObj} {A B : List QpStage} {x y : QpStage}
    (hlive : .qp A.length ∈ live) (hsucc : x.succ = some y) :
    (HostState.spec devs).Triple (· = connectedState live (A ++ x :: B))
      (call (.modifyQp A.length y))
      fun ok h => ok = true → h = connectedState live (A ++ y :: B) := by
  refine Triple.call (fun s hs => ?_) fun s ok hs _ hok => ?_
  · subst hs
    refine ⟨hlive, ?_⟩
    change (A ++ x :: B)[A.length]?.bind QpStage.succ = some y
    rw [List.getElem?_append_right le_rfl, Nat.sub_self]
    exact hsucc
  · subst hs hok
    change connectedState live ((A ++ x :: B).set A.length y) = _
    rw [List.set_append_right _ _ le_rfl, Nat.sub_self]
    rfl

variable (devs) in
/-- **One queue pair is brought up**, the one behind `A`. -/
theorem bringUp_leads {live : List HostObj} {A B : List QpStage} (hlive : .qp A.length ∈ live) :
    (HostState.spec devs).Leads (connectedState live (A ++ .reset :: B)) (bringUp A.length)
      (connectedState live (A ++ .rts :: B)) := by
  refine leads_check_bind (modifyQp_spec (x := .reset) hlive rfl) ?_
  refine leads_check_bind (modifyQp_spec (x := .init) hlive rfl) ?_
  exact leads_check (modifyQp_spec (x := .rtr) hlive rfl)

/-- The queue pairs of which `i` have been brought up, of `n`. -/
def stages (i n : ℕ) : List QpStage := List.replicate i .rts ++ List.replicate (n - i) .reset

theorem bringUp_turn {i n : ℕ} (hi : i < n) :
    (HostState.spec devs).Leads (benchState 0 n (stages i n) (some .connected)) (bringUp i)
      (benchState 0 n (stages (i + 1) n) (some .connected)) := by
  have hlive : HostObj.qp (List.replicate i QpStage.rts).length ∈ qpObjs 0 n ++ benchBase := by
    rw [List.length_replicate]
    exact List.mem_append_left _ (mem_qpObjs.mpr ⟨Nat.zero_le i, hi⟩)
  have hbefore : stages i n =
      List.replicate i .rts ++ .reset :: List.replicate (n - (i + 1)) .reset := by
    have hleft : n - i = n - (i + 1) + 1 := by omega
    rw [stages, hleft, List.replicate_succ]
  have hafter : stages (i + 1) n =
      List.replicate i .rts ++ .rts :: List.replicate (n - (i + 1)) .reset := by
    rw [stages, List.replicate_succ', List.append_assoc]
    rfl
  have hup := bringUp_leads devs (B := List.replicate (n - (i + 1)) .reset) hlive
  rw [List.length_replicate, ← hbefore, ← hafter] at hup
  exact hup

/-- **The loop of `connect_qps`** brings them all up. -/
theorem bringUpAll_leads (n : ℕ) :
    (HostState.spec devs).Leads (benchState 0 n (List.replicate n .reset) (some .connected))
      (Prog.times bringUp n) (benchState 0 n (List.replicate n .rts) (some .connected)) := by
  have hloop : (HostState.spec devs).Leads (benchState 0 n (stages 0 n) (some .connected))
      (Prog.times bringUp n) (benchState 0 n (stages n n) (some .connected)) :=
    Leads.times (s := fun i => benchState 0 n (stages i n) (some .connected))
      fun i hi => bringUp_turn hi
  simpa [stages] using hloop

/-- Nothing needs a queue pair. -/
theorem HostObj.qp_notMem_needs (i : ℕ) (o : HostObj) : .qp i ∉ o.needs := by
  cases o with
  | mr b => cases b <;> simp [HostObj.needs]
  | _ => simp [HostObj.needs]

/-- **The loop of `cleanup`** destroys them all. -/
theorem destroyQps_leads (n : ℕ) (qps : List QpStage) :
    (HostState.spec devs).Leads (benchState 0 n qps none) (destroyQps n)
      (benchState n n qps none) := by
  refine Leads.times (s := fun i => benchState i n qps none) fun i hi => ?_
  refine at_call ⟨rfl, List.mem_append_left _ (mem_qpObjs.mpr ⟨le_rfl, hi⟩), fun d _ => ?_⟩
    fun ok hok => at_ret ?_
  · exact HostObj.qp_notMem_needs i d
  · obtain rfl : ok = true := hok.2
    have hnot : HostObj.qp i ∉ qpObjs (i + 1) n := fun h => absurd (mem_qpObjs.mp h).1 (by omega)
    change (⟨false, (qpObjs i n ++ benchBase).erase (.qp i), qps, none, none, none⟩ : HostState) = _
    rw [qpObjs_next hi, List.append_assoc, List.erase_append_right _ hnot, List.singleton_append,
      List.erase_cons_head]
    rfl

/-! ### The benchmark, in its runs -/

/-- What the benchmark relies on: the region, the completion queue, and `n` queue pairs that are
ready to send. -/
structure CanWrite (n : ℕ) (w : HostState) : Prop where
  cq : .cq ∈ w.live
  mr : .mr .buf ∈ w.live
  qp : ∀ q < n, .qp q ∈ w.live ∧ w.qps[q]? = some .rts

theorem pollSome_leads (hcq : .cq ∈ w.live) : (HostState.spec devs).Leads w pollSome w := by
  refine Triple.loop (at_call hcq fun r _ => ?_)
  cases r with
  | none => exact Triple.exit
  | some l =>
    cases l with
    | nil => exact at_ret ⟨fun _ => rfl, fun _ _ => rfl⟩
    | cons ok oks => exact at_ret ⟨fun _ => rfl, fun _ _ => rfl⟩

/-- **`poll_completions`** changes nothing, however many completions come at once. -/
theorem pollCompletions_leads (hcq : .cq ∈ w.live) (count : ℕ) :
    (HostState.spec devs).Leads w (pollCompletions count) w := by
  induction count using Nat.strong_induction_on with
  | _ count ih =>
    cases count with
    | zero =>
      rw [pollCompletions]
      exact at_ret rfl
    | succ remaining =>
      rw [pollCompletions]
      refine (pollSome_leads hcq).bind fun x => ?_
      obtain ⟨more, ok⟩ := x
      cases ok with
      | false => exact at_ret rfl
      | true => exact ih (remaining - more) (by omega)

/-- A write to a queue pair that is ready to send, and what comes behind it. -/
theorem CanWrite.post {n q : ℕ} (h : CanWrite n w) (hq : q < n) {α : Type} {p : HostProg α}
    (hp : (HostState.spec devs).Leads w p w) :
    (HostState.spec devs).Leads w (call (.postSend q .buf) >>= fun ok => check ok >>= fun _ => p)
      w :=
  at_call ⟨(h.qp q hq).1, h.mr, (h.qp q hq).2⟩ fun _ _ => at_check fun _ => hp

theorem warmupWrite_leads {n q : ℕ} (h : CanWrite n w) (hq : q < n) (i : ℕ) (c : ℤ) :
    (HostState.spec devs).Leads w (warmupWrite i q c) w :=
  h.post hq (at_ret rfl)

theorem measureWrite_leads {n q : ℕ} (h : CanWrite n w) (hq : q < n) (cfg : BenchConfig)
    (counters : ℤ × ℤ) : (HostState.spec devs).Leads w (measureWrite cfg q counters) w := by
  obtain ⟨signalCnt, outstandingCqes⟩ := counters
  -- the throttle behind the write
  have hthrottle : ∀ c : ℤ, (HostState.spec devs).Leads w (if throttleAt cfg ≤ c then do
      let _ ← pollCompletions 1
      pure (cInt (signalCnt + 1), cInt (c - 1))
    else pure (cInt (signalCnt + 1), c)) w := by
    intro c
    split
    · exact (pollCompletions_leads h.cq 1).bind fun _ => at_ret rfl
    · exact at_ret rfl
  exact h.post hq (by split <;> exact hthrottle _)

theorem drain_leads {n : ℕ} (h : CanWrite n w) (outstandingCqes : ℤ) :
    (HostState.spec devs).Leads w (drain outstandingCqes) w := by
  unfold drain
  split
  · exact (pollCompletions_leads h.cq _).bind fun _ => at_ret rfl
  · exact at_ret rfl

/-- **`run_benchmark`** writes to queue pairs that are ready to send, and changes nothing. -/
theorem runBenchmark_leads {cfg : BenchConfig} (h : CanWrite cfg.qpCount w) :
    (HostState.spec devs).Leads w (runBenchmark cfg) w := by
  have hwarmup : (HostState.spec devs).Leads w
      (Prog.fold (fun i => Prog.fold (warmupWrite i) cfg.qpCount) cfg.warmup 0) w :=
    Leads.fold (s := fun _ => w) fun i _ _ =>
      Leads.fold (s := fun _ => w) fun _ hq c => warmupWrite_leads h hq i c
  have hmeasure : (HostState.spec devs).Leads w
      (Prog.fold (fun _ => Prog.fold (measureWrite cfg) cfg.qpCount) cfg.iterations (0, 0)) w :=
    Leads.fold (s := fun _ => w) fun _ _ _ =>
      Leads.fold (s := fun _ => w) fun _ hq counters => measureWrite_leads h hq cfg counters
  refine hwarmup.bind fun c => (drain_leads h c).bind fun _ => hmeasure.bind fun counters => ?_
  exact drain_leads h counters.2

/-! ### The whole -/

/-- A call that changes nothing. -/
theorem same_call {e : HostCall} (hallows : (HostState.spec devs).Allows w e)
    (hsame : ∀ r, (HostState.spec devs).next w e r = w) :
    (HostState.spec devs).Leads w (call e) w := by
  refine Triple.call (fun s hs => hs ▸ hallows) fun s r hs _ => ?_
  subst hs
  exact hsame r

/-- Two calls that are checked and change nothing. -/
theorem leads_check_twice {p q : HostProg Bool} (hp : (HostState.spec devs).Leads w p w)
    (hq : (HostState.spec devs).Leads w q w) : (HostState.spec devs).Leads w (do
      check (← p)
      check (← q)) w :=
  leads_check_bind (hp.mono (fun _ => id) fun _ _ h _ => h)
    (leads_check (hq.mono (fun _ => id) fun _ _ h _ => h))

/-- **`init_ctx`** from an open device. -/
theorem benchResources_leads (n : ℕ) : (HostState.spec devs).Leads opened (benchResources n)
    (benchState 0 n (List.replicate n .reset) none) := by
  have hobjects : (HostState.spec devs).Leads opened benchObjects (benchState 0 0 [] none) :=
    HostState.leads_of_outcomes devs (by decide +kernel)
  have hctx : HostObj.ctx ∈ qpObjs 0 n ++ benchBase := mem_benchLive (by decide)
  have hquery : (HostState.spec devs).Leads (benchState 0 n (List.replicate n .reset) none)
      (call .query) (benchState 0 n (List.replicate n .reset) none) := same_call hctx fun _ => rfl
  exact hobjects.bind fun _ => (createQps_leads n).bind fun _ => leads_check_twice hquery hquery

/-- **`connect_qps`**: the exchange, and all the queue pairs. -/
theorem benchConnectQps_leads (cfg : BenchConfig) : (HostState.spec devs).Leads
    (benchState 0 cfg.qpCount (List.replicate cfg.qpCount .reset) (some .connected))
    (benchConnectQps cfg)
    (benchState 0 cfg.qpCount (List.replicate cfg.qpCount .rts) (some .connected)) := by
  refine Leads.bind (leads_check_twice (same_call rfl fun _ => rfl) (same_call rfl fun _ => rfl))
    fun _ => ?_
  exact bringUpAll_leads _

theorem synchronize_leads (hsock : w.sockfd = some .connected) :
    (HostState.spec devs).Leads w synchronize w :=
  at_call hsock fun _ _ => same_call hsock fun _ => rfl

theorem canWrite_benchState (n : ℕ) (sockfd : Option SockState) :
    CanWrite n (benchState 0 n (List.replicate n .rts) sockfd) where
  cq := mem_benchLive (by decide)
  mr := mem_benchLive (by decide)
  qp q hq := by
    refine ⟨List.mem_append_left _ (mem_qpObjs.mpr ⟨Nat.zero_le q, hq⟩), ?_⟩
    change (List.replicate n QpStage.rts)[q]? = some .rts
    rw [List.getElem?_replicate, if_pos hq]

/-- **The data phase** of either side. -/
theorem benchData_leads (cfg : BenchConfig) (isServer : Bool) : (HostState.spec devs).Leads
    (benchState 0 cfg.qpCount (List.replicate cfg.qpCount .rts) (some .connected))
    (benchData cfg isServer)
    (benchState 0 cfg.qpCount (List.replicate cfg.qpCount .rts) (some .connected)) := by
  cases isServer with
  | true => exact same_call rfl fun _ => rfl
  | false =>
    refine (runBenchmark_leads (canWrite_benchState _ _)).bind fun _ => ?_
    exact same_call rfl fun _ => rfl

/-- The objects can be given back in this order, and then there are none. -/
def releases : List HostObj → List HostObj → Bool
  | [], live => live.isEmpty
  | o :: os, live => decide (o ∈ live ∧ ∀ d ∈ live, o ∉ d.needs) && releases os (live.erase o)

/-- An object that nothing needs is given back. -/
theorem giveBack_leads {o : HostObj} (ho : o ∈ w.live) (hneeds : ∀ d ∈ w.live, o ∉ d.needs) :
    (HostState.spec devs).Leads w (giveBack o) { w with live := w.live.erase o } := by
  cases o with
  | mem b =>
    refine Triple.call (fun s hs => hs ▸ ⟨ho, hneeds⟩) fun s r hs _ => ?_
    subst hs
    rfl
  | _ =>
    refine at_call ⟨rfl, ho, hneeds⟩ fun ok hok => at_ret ?_
    obtain rfl : ok = true := hok.2
    rfl

theorem releaseAll_leads {os live : List HostObj} {qps : List QpStage}
    (h : releases os live = true) :
    (HostState.spec devs).Leads ⟨false, live, qps, none, none, none⟩ (releaseAll os)
      { HostState.start with qps := qps } := by
  induction os generalizing live with
  | nil =>
    obtain rfl := List.isEmpty_iff.mp h
    exact at_ret rfl
  | cons o os ih =>
    obtain ⟨hright, hrest⟩ := Bool.and_eq_true_iff.mp h
    obtain ⟨ho, hneeds⟩ : o ∈ live ∧ ∀ d ∈ live, o ∉ d.needs := of_decide_eq_true hright
    have hfirst : (HostState.spec devs).Leads ⟨false, live, qps, none, none, none⟩ (giveBack o)
        ⟨false, live.erase o, qps, none, none, none⟩ := giveBack_leads ho hneeds
    exact hfirst.bind fun _ => ih hrest

/-- **`cleanup`** gives everything back. -/
theorem benchCleanup_leads (cfg : BenchConfig) : (HostState.spec devs).Leads
    (benchState 0 cfg.qpCount (List.replicate cfg.qpCount .rts) (some .connected))
    (benchCleanup cfg) { HostState.start with qps := List.replicate cfg.qpCount .rts } := by
  generalize List.replicate cfg.qpCount QpStage.rts = qps
  refine at_call (Option.some_ne_none _) fun _ _ => (destroyQps_leads _ qps).bind fun _ => ?_
  rw [benchState, qpObjs_self, List.nil_append]
  exact releaseAll_leads (by decide)

/-- **rdma_bench**: behind the options, with any positive number of queue pairs, in every run, as
long as no object has failed to be released, every call is right; and a process that comes to its
end like that has given everything back, and had a device. -/
theorem rdmaBenchMain_complete (devs : List String) (devname : Option String) (cfg : BenchConfig)
    (isServer : Bool) :
    Complete devs (rdmaBenchMain cfg devname isServer) (∃ i, Chosen devs devname i) := by
  refine Complete.of_triple ?_
  have hinit : (HostState.spec devs).Triple (· = .start) (benchInitCtx cfg devname) fun _ h =>
      h = benchState 0 cfg.qpCount (List.replicate cfg.qpCount .reset) none ∧
        ∃ i, Chosen devs devname i := by
    refine at_bind benchOpenDevice_spec ?_
    rintro _ _ ⟨rfl, hchosen⟩
    exact (benchResources_leads _).mono (fun _ => id) fun _ _ hw => ⟨hw, hchosen⟩
  refine at_bind hinit ?_
  rintro _ _ ⟨rfl, hchosen⟩
  have hrest : (HostState.spec devs).Leads
      (benchState 0 cfg.qpCount (List.replicate cfg.qpCount .reset) none) (do
        benchConnection isServer
        benchConnectQps cfg
        synchronize
        benchData cfg isServer
        benchCleanup cfg) { HostState.start with qps := List.replicate cfg.qpCount .rts } :=
    (benchConnection_leads isServer rfl rfl).bind fun _ => (benchConnectQps_leads cfg).bind fun _ =>
      (synchronize_leads rfl).bind fun _ => (benchData_leads cfg isServer).bind fun _ =>
      benchCleanup_leads cfg
  refine hrest.mono (fun _ => id) ?_
  rintro _ _ rfl
  exact ⟨⟨rfl, rfl, rfl, rfl, rfl⟩, hchosen⟩

end Runs

end Host

end RdmaBook
