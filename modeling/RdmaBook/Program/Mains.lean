import RdmaBook.Program.Common
import RdmaBook.Ud.Program

/-!
# The mains of the programs of chapter 9

`main` of rc_pingpong, rdma_write, rdma_read and ud_send, behind the options, with all their calls
but the ones that print and that read a clock. A call that obtains something and fails ends the
process, and what it holds then goes away with it; the results of the calls that release an object
are not looked at. As long as none of these fails, every call is right, the ones of the loops
included, however often they go round; and a process that then comes to the end of its `main` has
given everything back (`RdmaBook.Host.mains_complete`).
-/

namespace RdmaBook

namespace Host

open CallSpec CallSpec.Triple

/-! ### What they share -/

/-- The protection domain, the completion queue and the queue pair. -/
def createPdCqQp : HostProg Unit := do
  check (← call (.acquire .pd))
  check (← call (.acquire .cq))
  check (← call (.createQp 0))

/-- A buffer from the heap, and its memory region. -/
def registerBuf (b : HostBuf) : HostProg Unit := do
  check (← call (.acquire (.mem b)))
  check (← call (.acquire (.mr b)))

/-- The TCP connection. -/
def connectTcp (isServer : Bool) : HostProg Unit := do
  if isServer = true then
    check (← tcpServerListen)
    check (← tcpServerAccept)
    call (.close .listenFd)
  else
    check (← tcpClientConnect)

/-- RESET, INIT, RTR, RTS. -/
def bringUp (qp : ℕ) : HostProg Unit := do
  check (← call (.modifyQp qp .init))
  check (← call (.modifyQp qp .rtr))
  check (← call (.modifyQp qp .rts))

/-- The barrier. -/
def synchronize : HostProg Unit := do
  call .writeByte
  call .readByte

/-- `post_receive`, and `post_ud_receive`. -/
def postReceive (b : HostBuf) : HostProg Unit := do
  check (← call (.postRecv 0 b))

/-- `post_send`, `post_rdma_write` and `post_rdma_read`. -/
def postSend (b : HostBuf) : HostProg Unit := do
  check (← call (.postSend 0 b))

/-- `poll_completion` with its check. -/
def awaitCompletion : HostProg Unit := do
  check (← pollCompletion)

/-- An object is released, or memory freed; no result is looked at. -/
def giveBack : HostObj → HostProg Unit
  | .mem b => call (.free b)
  | o => do
    let _ ← call (.release o)
    pure ()

/-- The objects are given back in this order. -/
def releaseAll : List HostObj → HostProg Unit
  | [] => pure ()
  | o :: os => do
    giveBack o
    releaseAll os

/-- **A `main` of chapter 9**: the device; the resources; the connection; what is exchanged over it;
the data phase; and the cleanup. -/
def tcpMain (devName : Option String) (isServer : Bool)
    (resources exchange data cleanup : HostProg Unit) : HostProg Unit := do
  check (← openDevice devName).isSome
  resources
  connectTcp isServer
  exchange
  data
  cleanup

/-! ### The four programs -/

/-- One round of rc_pingpong. -/
def pingpong : Bool → HostProg Unit
  | true => do
    postReceive .buf
    awaitCompletion
    postSend .buf
    awaitCompletion
  | false => do
    postReceive .buf
    postSend .buf
    awaitCompletion
    awaitCompletion

def pingpongResources : HostProg Unit := do
  createPdCqQp
  registerBuf .buf
  check (← getLocalInfo)

def pingpongExchange : HostProg Unit := do
  check (← exchangeInfo OobMsg.qp.size)
  bringUp 0
  synchronize

def pingpongCleanup : HostProg Unit := do
  call (.close .sockfd)
  releaseAll [.qp 0, .mr .buf, .cq, .pd, .ctx, .mem .buf]

/-- `main` of rc_pingpong. -/
def pingpongMain (devName : Option String) (isServer : Bool) (numIters : ℤ) : HostProg Unit :=
  tcpMain devName isServer pingpongResources pingpongExchange
    (Prog.times (fun _ => pingpong isServer) numIters.toNat) pingpongCleanup

/-- The resources of rdma_write and of rdma_read. -/
def oneSidedResources : HostProg Unit := do
  createPdCqQp
  registerBuf .dataBuf
  registerBuf .notifyBuf
  check (← getLocalInfo)

/-- Their exchange: of the queue pairs, and of the memory regions. -/
def oneSidedExchange : HostProg Unit := do
  check (← exchangeInfo OobMsg.qp.size)
  check (← exchangeInfo OobMsg.mr.size)
  bringUp 0
  synchronize

/-- Their cleanup. -/
def oneSidedCleanup : HostProg Unit := do
  call (.close .sockfd)
  releaseAll [.qp 0, .mr .dataBuf, .mr .notifyBuf, .cq, .pd, .ctx, .mem .dataBuf, .mem .notifyBuf]

def writeData : Bool → HostProg Unit
  | true => do
    postReceive .notifyBuf
    awaitCompletion
  | false => do
    postSend .dataBuf
    awaitCompletion
    postSend .notifyBuf
    awaitCompletion

/-- `main` of rdma_write. -/
def rdmaWriteMain (devName : Option String) (isServer : Bool) : HostProg Unit :=
  tcpMain devName isServer oneSidedResources oneSidedExchange (writeData isServer)
    oneSidedCleanup

/-- Whether the header that the client has read begins with `HEADER_MAGIC` is not up to its
calls. -/
def readData (magicOk : Bool) : Bool → HostProg Unit
  | true => do
    postReceive .notifyBuf
    awaitCompletion
  | false => do
    check (← call (.acquire (.mr .localHdr)))
    postSend .localHdr
    awaitCompletion
    check magicOk
    postSend .dataBuf
    awaitCompletion
    postSend .notifyBuf
    awaitCompletion
    giveBack (.mr .localHdr)

/-- `main` of rdma_read. -/
def rdmaReadMain (devName : Option String) (isServer magicOk : Bool) : HostProg Unit :=
  tcpMain devName isServer oneSidedResources oneSidedExchange (readData magicOk isServer)
    oneSidedCleanup

def udResources : HostProg Unit := do
  createPdCqQp
  registerBuf .sendBuf
  Prog.times (fun i => do check (← call (.acquire (.mem (.recvBufs i))))) numRecvBufs
  registerBuf .recvPool
  -- the elements of `recv_bufs` point into the pool from here on
  Prog.times (fun i => call (.free (.recvBufs i))) numRecvBufs
  bringUp 0
  check (← call .query)
  check (← call .query)

/-- `sizeof(struct ud_info)`. -/
def udInfoSize : ℕ := 24

def udExchange : HostProg Unit := do
  check (← exchangeInfo udInfoSize)
  synchronize

/-- The receiver posts a buffer again when its message has been printed. -/
def udReceive (numMsgs : ℕ) : HostProg Unit := do
  Prog.times (fun _ => postReceive .recvPool) numRecvBufs
  Prog.times (fun _ => do
    awaitCompletion
    postReceive .recvPool) numMsgs

def createAh : HostProg Unit := do
  check (← call (.acquire .ah))

def udSend (numMsgs : ℕ) : HostProg Unit := do
  createAh
  Prog.times (fun _ => do
    check (← call (.postUdSend 0 .sendBuf))
    awaitCompletion) numMsgs
  giveBack .ah

def udCleanup : HostProg Unit := do
  call (.close .sockfd)
  releaseAll [.qp 0, .mr .sendBuf, .mr .recvPool, .cq, .pd, .ctx, .mem .sendBuf, .mem .recvPool]

/-- `main` of ud_send. -/
def udSendMain (devName : Option String) (isReceiver : Bool) (numMsgs : ℤ) : HostProg Unit :=
  tcpMain devName isReceiver udResources udExchange
    (if isReceiver = true then udReceive numMsgs.toNat else udSend numMsgs.toNat) udCleanup

/-! ### What they share, in their runs -/

/-- **What is shown of a `main`** on a machine with the devices `devs`: in every run, as long as no
call has failed to release an object, every call is right; and where the process comes to its end
like that, everything has been given back, and what it needs to come so far was there. -/
structure Complete (devs : List String) (p : HostProg Unit) (needed : Prop) : Prop where
  right : ∀ t x u o, p.Runs (t ++ x :: u) o → (HostState.calls devs).Real .start (t ++ x :: u) →
    (∀ obj, ⟨.release obj, false⟩ ∉ t) →
    (HostState.calls devs).Allows ((HostState.calls devs).after .start t) x.1
  clean : ∀ t, p.Runs t (.returned ()) → (HostState.calls devs).Real .start t →
    (∀ obj, ⟨.release obj, false⟩ ∉ t) →
    ((HostState.calls devs).after .start t).Clean ∧ needed

section Shared

variable {devs : List String} {w : HostState}

/-- It is enough to know the state in which it ends. -/
theorem Complete.of_triple {p : HostProg Unit} {needed : Prop}
    (htriple : (HostState.spec devs).Triple (· = .start) p fun _ h => h.Clean ∧ needed) :
    Complete devs p needed where
  right t x u o hrun hreal hrel := by
    obtain ⟨hreal, hx, -⟩ := real_append.mp hreal
    exact htriple.allows hrun hreal (HostState.released_iff.mpr hrel)
      (HostState.exists_released devs hx)
  clean t hrun hreal hrel := by
    have hgiven := real_given.mpr ⟨hreal, HostState.released_iff.mpr hrel⟩
    rw [← after_given (H := HostState.Released)]
    exact (htriple _ t _ rfl hrun hgiven).2 () rfl

/-- Something that is checked, and what comes behind it. -/
theorem leads_check_bind {p : HostProg Bool} {f : Unit → HostProg Unit} {w' w'' : HostState}
    (htriple : (HostState.spec devs).Triple (· = w) p fun ok h => ok = true → h = w')
    (hf : (HostState.spec devs).Leads w' (f ()) w'') :
    (HostState.spec devs).Leads w (p >>= fun ok => check ok >>= f) w'' :=
  at_bind htriple fun _ _ hs => at_check fun hok => hs hok ▸ hf

/-- Something that is checked. -/
theorem leads_check {p : HostProg Bool} {w' : HostState}
    (htriple : (HostState.spec devs).Triple (· = w) p fun ok h => ok = true → h = w') :
    (HostState.spec devs).Leads w (p >>= check) w' :=
  at_bind htriple fun _ _ hs => check_spec hs

/-- **The TCP connection** leaves one socket, and it is connected. -/
theorem connectTcp_leads (isServer : Bool) (haddrs : w.addrs = none) (hlisten : w.listenFd = none)
    (hsock : w.sockfd = none) :
    (HostState.spec devs).Leads w (connectTcp isServer) { w with sockfd := some .connected } := by
  obtain ⟨devList, live, qps, addrs, listenFd, sockfd⟩ := w
  obtain rfl : addrs = none := haddrs
  obtain rfl : listenFd = none := hlisten
  obtain rfl : sockfd = none := hsock
  cases isServer with
  | true =>
    refine at_bind (tcpServerListen_spec rfl) ?_
    rintro ok w' rfl
    refine at_check fun hok => ?_
    subst hok
    refine at_call ⟨rfl, rfl⟩ fun ok _ => at_check fun hok => ?_
    subst hok
    refine Triple.call (fun s hs => ?_) fun s r hs _ => ?_
    · subst hs
      exact Option.some_ne_none _
    · subst hs
      rfl
  | false =>
    refine leads_check ((tcpClientConnect_spec rfl rfl).mono (fun _ => id) ?_)
    rintro ok w' rfl rfl
    rfl

/-- A process that holds the device list. -/
def listed : HostState := { HostState.start with devList := true }

/-- A process that has opened its device. -/
def opened : HostState := { HostState.start with live := [.ctx] }

/-- **A `main` of chapter 9 is complete**, if each of its parts does its work. -/
theorem tcpMain_complete (devName : Option String) (isServer : Bool)
    {resources exchange data cleanup : HostProg Unit} {w₁ w₂ w₃ : HostState} {needed : Prop}
    (hresources : (HostState.spec devs).Leads opened resources w₁) (haddrs : w₁.addrs = none)
    (hlisten : w₁.listenFd = none) (hsock : w₁.sockfd = none)
    (hexchange : (HostState.spec devs).Leads { w₁ with sockfd := some .connected } exchange w₂)
    (hdata : (HostState.spec devs).Triple (· = w₂) data fun _ h => h = w₂ ∧ needed)
    (hcleanup : (HostState.spec devs).Leads w₂ cleanup w₃) (hclean : w₃.Clean) :
    Complete devs (tcpMain devName isServer resources exchange data cleanup)
      ((∃ i, Chosen devs devName i) ∧ needed) := by
  have hconnect : (HostState.spec devs).Leads w₁ (connectTcp isServer)
      { w₁ with sockfd := some .connected } := connectTcp_leads isServer haddrs hlisten hsock
  refine Complete.of_triple ?_
  refine at_bind (openDevice_spec rfl List.not_mem_nil) fun r h hr => at_check fun hsome => ?_
  obtain ⟨i, rfl⟩ := Option.isSome_iff_exists.mp hsome
  obtain ⟨rfl, hchosen⟩ := hr.2 i rfl
  refine Triple.bind hresources fun _ => Triple.bind hconnect fun _ =>
    Triple.bind hexchange fun _ => at_bind hdata ?_
  rintro _ h ⟨rfl, hp⟩
  exact hcleanup.mono (fun _ => id) fun _ h hh => ⟨hh ▸ hclean, ⟨i, hchosen⟩, hp⟩

end Shared

/-! ### The four programs, in their runs -/

section Programs

variable (devs : List String) (devName : Option String)

/-- A process in its data phase, with its resources. -/
def ready (live : List HostObj) : HostState where
  devList := false
  live := live
  qps := [.rts]
  addrs := none
  listenFd := none
  sockfd := some .connected

/-- A process at its end. -/
def ended : HostState := { HostState.start with qps := [.rts] }

theorem ended_clean : ended.Clean := ⟨rfl, rfl, rfl, rfl, rfl⟩

theorem pingpongMain_complete (isServer : Bool) (numIters : ℤ) :
    Complete devs (pingpongMain devName isServer numIters) (∃ i, Chosen devs devName i) := by
  let live : List HostObj := [.mr .buf, .mem .buf, .qp 0, .cq, .pd, .ctx]
  have hresources : (HostState.spec devs).Leads opened pingpongResources
      ⟨false, live, [.reset], none, none, none⟩ :=
    HostState.leads_of_outcomes devs (by decide +kernel)
  have hexchange : (HostState.spec devs).Leads
      ⟨false, live, [.reset], none, none, some .connected⟩ pingpongExchange (ready live) :=
    HostState.leads_of_outcomes devs (by decide +kernel)
  have hround : (HostState.spec devs).Leads (ready live) (pingpong isServer) (ready live) := by
    cases isServer with
    | true => exact HostState.leads_of_outcomes devs (by decide +kernel)
    | false => exact HostState.leads_of_outcomes devs (by decide +kernel)
  have hdata := Leads.times_self (n := numIters.toNat) fun _ _ => hround
  have hcleanup : (HostState.spec devs).Leads (ready live) pingpongCleanup ended :=
    HostState.leads_of_outcomes devs (by decide +kernel)
  have h := tcpMain_complete devName isServer hresources rfl rfl rfl hexchange
    (hdata.mono (fun _ => id) fun _ _ h => ⟨h, trivial⟩) hcleanup ended_clean
  rwa [and_true] at h

/-- The resources of rdma_write and rdma_read. -/
def oneSidedLive : List HostObj :=
  [.mr .notifyBuf, .mem .notifyBuf, .mr .dataBuf, .mem .dataBuf, .qp 0, .cq, .pd, .ctx]

theorem oneSidedMain_complete (isServer : Bool) {data : HostProg Unit} {needed : Prop}
    (hdata : (HostState.spec devs).Triple (· = ready oneSidedLive) data
      fun _ h => h = ready oneSidedLive ∧ needed) :
    Complete devs (tcpMain devName isServer oneSidedResources oneSidedExchange data oneSidedCleanup)
      ((∃ i, Chosen devs devName i) ∧ needed) := by
  have hresources : (HostState.spec devs).Leads opened oneSidedResources
      ⟨false, oneSidedLive, [.reset], none, none, none⟩ :=
    HostState.leads_of_outcomes devs (by decide +kernel)
  have hexchange : (HostState.spec devs).Leads
      ⟨false, oneSidedLive, [.reset], none, none, some .connected⟩ oneSidedExchange
      (ready oneSidedLive) := HostState.leads_of_outcomes devs (by decide +kernel)
  have hcleanup : (HostState.spec devs).Leads (ready oneSidedLive) oneSidedCleanup ended :=
    HostState.leads_of_outcomes devs (by decide +kernel)
  exact tcpMain_complete devName isServer hresources rfl rfl rfl hexchange hdata hcleanup
    ended_clean

theorem rdmaWriteMain_complete (isServer : Bool) :
    Complete devs (rdmaWriteMain devName isServer) (∃ i, Chosen devs devName i) := by
  have hdata : (HostState.spec devs).Leads (ready oneSidedLive) (writeData isServer)
      (ready oneSidedLive) := by
    cases isServer with
    | true => exact HostState.leads_of_outcomes devs (by decide +kernel)
    | false => exact HostState.leads_of_outcomes devs (by decide +kernel)
  have h := oneSidedMain_complete devs devName isServer
    (hdata.mono (fun _ => id) fun _ _ h => ⟨h, trivial⟩)
  rwa [and_true] at h

/-- A client whose header does not begin as it is to does not come to its end. -/
theorem rdmaReadMain_complete (isServer magicOk : Bool) :
    Complete devs (rdmaReadMain devName isServer magicOk)
      ((∃ i, Chosen devs devName i) ∧ (isServer = true ∨ magicOk = true)) := by
  refine oneSidedMain_complete devs devName isServer ?_
  cases isServer with
  | true =>
    have hleads : (HostState.spec devs).Leads (ready oneSidedLive) (readData magicOk true)
        (ready oneSidedLive) :=
      HostState.leads_of_outcomes devs (by revert magicOk; decide +kernel)
    exact hleads.mono (fun _ => id) fun _ _ h => ⟨h, .inl rfl⟩
  | false =>
    cases magicOk with
    | true =>
      have hleads : (HostState.spec devs).Leads (ready oneSidedLive) (readData true false)
          (ready oneSidedLive) := HostState.leads_of_outcomes devs (by decide +kernel)
      exact hleads.mono (fun _ => id) fun _ _ h => ⟨h, .inr rfl⟩
    | false =>
      -- the client ends at the check
      have hexit : (readData false false).outcomes HostState.allows HostState.results
          HostState.next (ready oneSidedLive) = some [] := by decide +kernel
      exact (HostState.triple_of_outcomes devs hexit).mono (fun _ => id)
        fun _ _ h => absurd h List.not_mem_nil

theorem udSendMain_complete (isReceiver : Bool) (numMsgs : ℤ) :
    Complete devs (udSendMain devName isReceiver numMsgs) (∃ i, Chosen devs devName i) := by
  let live : List HostObj :=
    [.mr .recvPool, .mem .recvPool, .mr .sendBuf, .mem .sendBuf, .qp 0, .cq, .pd, .ctx]
  have hresources : (HostState.spec devs).Leads opened udResources
      ⟨false, live, [.rts], none, none, none⟩ :=
    HostState.leads_of_outcomes devs (by decide +kernel)
  have hexchange : (HostState.spec devs).Leads
      ⟨false, live, [.rts], none, none, some .connected⟩ udExchange (ready live) :=
    HostState.leads_of_outcomes devs (by decide +kernel)
  have hreceive : (HostState.spec devs).Leads (ready live) (udReceive numMsgs.toNat)
      (ready live) := by
    refine Leads.bind (Leads.times_self fun _ _ => ?_) fun _ => Leads.times_self fun _ _ => ?_
    · exact HostState.leads_of_outcomes devs (by decide +kernel)
    · exact HostState.leads_of_outcomes devs (by decide +kernel)
  have hsend : (HostState.spec devs).Leads (ready live) (udSend numMsgs.toNat) (ready live) := by
    have hah : (HostState.spec devs).Leads (ready live) createAh (ready (.ah :: live)) :=
      HostState.leads_of_outcomes devs (by decide +kernel)
    refine hah.bind fun _ => Leads.bind (Leads.times_self fun _ _ => ?_) fun _ => ?_
    · exact HostState.leads_of_outcomes devs (by decide +kernel)
    · exact HostState.leads_of_outcomes devs (by decide +kernel)
  have hdata : (HostState.spec devs).Leads (ready live)
      (if isReceiver = true then udReceive numMsgs.toNat else udSend numMsgs.toNat)
      (ready live) := by
    cases isReceiver with
    | true => exact hreceive
    | false => exact hsend
  have hcleanup : (HostState.spec devs).Leads (ready live) udCleanup ended :=
    HostState.leads_of_outcomes devs (by decide +kernel)
  have h := tcpMain_complete devName isReceiver hresources rfl rfl rfl hexchange
    (hdata.mono (fun _ => id) fun _ _ h => ⟨h, trivial⟩) hcleanup ended_clean
  rwa [and_true] at h

/-- **The four programs**: in every run, as long as no object has failed to be released, every call
is right; and a process that comes to its end like that has given everything back, and had a device,
and a header with the magic number where it is the client of rdma_read. -/
theorem mains_complete (isServer magicOk : Bool) (num : ℤ) :
    Complete devs (pingpongMain devName isServer num) (∃ i, Chosen devs devName i) ∧
      Complete devs (rdmaWriteMain devName isServer) (∃ i, Chosen devs devName i) ∧
      Complete devs (rdmaReadMain devName isServer magicOk)
        ((∃ i, Chosen devs devName i) ∧ (isServer = true ∨ magicOk = true)) ∧
      Complete devs (udSendMain devName isServer num) (∃ i, Chosen devs devName i) :=
  ⟨pingpongMain_complete devs devName isServer num, rdmaWriteMain_complete devs devName isServer,
    rdmaReadMain_complete devs devName isServer magicOk,
    udSendMain_complete devs devName isServer num⟩

end Programs

end Host

end RdmaBook
