import RdmaBook.Common.Barrier
import RdmaBook.Lib.Program
import Mathlib.Data.List.Dedup

/-!
# The calls of a process

What the processes of the programs ask of libibverbs and of the operating system, as calls in the
sense of `Prog`: objects by the names of the variables that hold them, each queue pair by its
number. `RdmaBook.HostState` is what a process holds at a moment, and `RdmaBook.HostState.Allows`
says which calls are right then: an object is obtained when what it needs is there, and released
when nothing that needs it is; a queue pair is brought up one state after the other, takes receives
from INIT on and sends in RTS; an element of a list is read while the list is there; a socket is
used in its state.

Every call that has a result may fail, those that release an object of libibverbs included: such an
object is then still there (`RdmaBook.HostState.calls`). Most of what is said of the mains is about
the runs in which none of these fails (`RdmaBook.HostState.spec`).
-/

namespace RdmaBook

/-! ### What a process holds -/

/-- The memory that is registered, by the names of the variables. -/
inductive HostBuf
  | buf
  | dataBuf
  | notifyBuf
  /-- A variable of a function. -/
  | localHdr
  | sendBuf
  | recvBufs (i : ℕ)
  | recvPool
  /-- The array of the queue pairs. -/
  | qps
  deriving DecidableEq, Repr

/-- The objects of libibverbs, and the memory from the heap. -/
inductive HostObj
  | ctx
  | pd
  | cq
  | qp (i : ℕ)
  | mem (b : HostBuf)
  | mr (b : HostBuf)
  | ah
  deriving DecidableEq, Repr

/-- It is memory from the heap, which `free` takes. -/
def HostObj.isMem : HostObj → Bool
  | .mem _ => true
  | _ => false

/-- What an object needs as long as it is there. -/
def HostObj.needs : HostObj → List HostObj
  | .ctx => []
  | .pd => [.ctx]
  | .cq => [.ctx]
  | .qp _ => [.pd, .cq]
  | .mem _ => []
  | .mr .localHdr => [.pd]
  | .mr b => [.pd, .mem b]
  | .ah => [.pd]

/-- The sockets, by the names of the variables. -/
inductive HostFd
  | listenFd
  | sockfd
  deriving DecidableEq, Repr

/-- The states of a socket. -/
inductive SockState
  | fresh
  | bound
  | listening
  | connected
  deriving DecidableEq, Repr

/-- **What a process holds**: whether the device list is there; the objects, and the states of the
queue pairs in the order they were created; the length of the address list; and the two
sockets. -/
structure HostState where
  devList : Bool
  live : List HostObj
  qps : List QpStage
  addrs : Option ℕ
  listenFd : Option SockState
  sockfd : Option SockState
  deriving DecidableEq, Repr

/-- A process that holds nothing. -/
def HostState.start : HostState := ⟨false, [], [], none, none, none⟩

/-- **Everything has been given back.** -/
structure HostState.Clean (h : HostState) : Prop where
  devList : h.devList = false
  live : h.live = []
  addrs : h.addrs = none
  listenFd : h.listenFd = none
  sockfd : h.sockfd = none

/-! ### The calls -/

/-- A call of a process. -/
inductive HostCall
  | getDeviceList
  /-- `ibv_get_device_name(dev_list[i])`; `ibv_get_device_guid` reads the same element. -/
  | getDeviceName (i : ℕ)
  | openDevice (i : ℕ)
  | freeDeviceList
  /-- `ibv_alloc_pd`, `ibv_create_cq`, `ibv_reg_mr`, `ibv_create_ah`, `calloc`, `malloc`. -/
  | acquire (o : HostObj)
  | createQp (i : ℕ)
  /-- `ibv_close_device`, `ibv_dealloc_pd`, `ibv_destroy_cq`, `ibv_destroy_qp`, `ibv_dereg_mr`,
  `ibv_destroy_ah`. -/
  | release (o : HostObj)
  | free (b : HostBuf)
  /-- `printf` and `fprintf`, by their formats, where they tell what has become of a call. -/
  | print (format : String)
  /-- `ibv_query_device`, `ibv_query_port`, `ibv_query_gid`, and the name of the device of a
  context. -/
  | query
  | modifyQp (i : ℕ) (stage : QpStage)
  | postRecv (i : ℕ) (b : HostBuf)
  | postSend (i : ℕ) (b : HostBuf)
  /-- `ibv_post_send` to the address of a handle. -/
  | postUdSend (i : ℕ) (b : HostBuf)
  | pollCq
  /-- `ibv_poll_cq` for up to 32 completions. -/
  | pollCqs
  | getaddrinfo
  /-- `connect` to the address `k` of the list. -/
  | connectTo (k : ℕ)
  | freeaddrinfo
  /-- `inet_pton`, `gethostbyname`. -/
  | resolve
  /-- `connect` to an address that has been resolved. -/
  | connect
  | socket (fd : HostFd)
  | setsockopt
  | bindFd
  | listen
  | accept
  | close (fd : HostFd)
  /-- `write_all`, or a `write` that is to take a whole record, of so many bytes. -/
  | writeRecord (size : ℕ)
  /-- `read_all`, or a `read` that is to bring a whole record, of so many bytes. -/
  | readRecord (size : ℕ)
  /-- `write` of a byte, whose result is not looked at. -/
  | writeByte
  /-- `read` of a byte, whose result is not looked at. -/
  | readByte
  deriving DecidableEq, Repr

/-- What a call brings back: a pointer that may be null, a result that may tell of a failure (those
of the calls that release an object among them), the string, or the length of the list. -/
@[reducible] def HostCall.Result : HostCall → Type
  -- `num_devices`
  | .getDeviceList => Option ℕ
  | .getDeviceName _ => String
  | .freeDeviceList => Unit
  | .free _ => Unit
  | .print _ => Unit
  -- whether `wc.status` is `IBV_WC_SUCCESS`
  | .pollCq => PollRet × Bool
  -- and here for each of them
  | .pollCqs => Option (List Bool)
  | .getaddrinfo => Option ℕ
  | .freeaddrinfo => Unit
  | .setsockopt => Unit
  | .close _ => Unit
  | .writeByte => Unit
  | .readByte => Unit
  | _ => Bool

/-- A program of a process. -/
abbrev HostProg := Prog HostCall.Result

/-! ### What the calls do -/

/-- The states a queue pair is brought up through, one after the other. -/
def QpStage.succ : QpStage → Option QpStage
  | .reset => some .init
  | .init => some .rtr
  | .rtr => some .rts
  | .rts => none

namespace HostState

variable (devs : List String)

/-- **The calls that are right**, where the machine has the devices `devs`. -/
def Allows (h : HostState) : HostCall → Prop
  | .getDeviceList => h.devList = false
  | .getDeviceName i => h.devList = true ∧ i < devs.length
  | .openDevice i => h.devList = true ∧ i < devs.length ∧ .ctx ∉ h.live
  | .freeDeviceList => h.devList = true
  | .acquire o => o ∉ h.live ∧ o ≠ .ctx ∧ ∀ n ∈ o.needs, n ∈ h.live
  | .createQp i => i = h.qps.length ∧ ∀ n ∈ (HostObj.qp i).needs, n ∈ h.live
  | .release o => o.isMem = false ∧ o ∈ h.live ∧ ∀ d ∈ h.live, o ∉ d.needs
  | .free b => .mem b ∈ h.live ∧ ∀ d ∈ h.live, .mem b ∉ d.needs
  | .print _ => True
  | .query => .ctx ∈ h.live
  | .modifyQp i stage => .qp i ∈ h.live ∧ h.qps[i]?.bind QpStage.succ = some stage
  | .postRecv i b => .qp i ∈ h.live ∧ .mr b ∈ h.live ∧ h.qps[i]?.getD .reset ≠ .reset
  | .postSend i b => .qp i ∈ h.live ∧ .mr b ∈ h.live ∧ h.qps[i]? = some .rts
  | .postUdSend i b => .qp i ∈ h.live ∧ .mr b ∈ h.live ∧ .ah ∈ h.live ∧ h.qps[i]? = some .rts
  | .pollCq => .cq ∈ h.live
  | .pollCqs => .cq ∈ h.live
  | .getaddrinfo => h.addrs = none
  | .connectTo k => h.sockfd = some .fresh ∧ k < h.addrs.getD 0
  | .freeaddrinfo => h.addrs ≠ none
  | .resolve => True
  | .connect => h.sockfd = some .fresh
  | .socket .listenFd => h.listenFd = none
  | .socket .sockfd => h.sockfd = none
  | .setsockopt => h.listenFd = some .fresh
  | .bindFd => h.listenFd = some .fresh
  | .listen => h.listenFd = some .bound
  | .accept => h.listenFd = some .listening ∧ h.sockfd = none
  | .close .listenFd => h.listenFd ≠ none
  | .close .sockfd => h.sockfd ≠ none
  | .writeRecord _ => h.sockfd = some .connected
  | .readRecord _ => h.sockfd = some .connected
  | .writeByte => h.sockfd = some .connected
  | .readByte => h.sockfd = some .connected

instance (h : HostState) (e : HostCall) : Decidable (h.Allows devs e) := by
  cases e with
  | socket fd | close fd => cases fd <;> unfold Allows <;> infer_instance
  | _ => unfold Allows; infer_instance

/-- What a call may bring back: a list has the devices of the machine, and the names are theirs; no
more completions than are asked for. Whether a queue has room for a work request and whether there
is something to complete is left open, so there are more runs than on a device; what is proved of
posting and polling is therefore about every run, and never that there is one. -/
def Gives (_ : HostState) : (e : HostCall) → e.Result → Prop
  | .getDeviceList, r => r = none ∨ r = some devs.length
  | .getDeviceName i, name => devs[i]? = some name
  | .pollCqs, r => ∀ l, r = some l → l.length ≤ 32
  | _, _ => True

/-- **What a call does.** An object that a call fails to release is still there. -/
def next (h : HostState) : (e : HostCall) → e.Result → HostState
  | .getDeviceList, r => { h with devList := r.isSome }
  | .openDevice _, ok => if ok = true then { h with live := .ctx :: h.live } else h
  | .freeDeviceList, _ => { h with devList := false }
  | .acquire o, ok => if ok = true then { h with live := o :: h.live } else h
  | .createQp i, ok =>
    if ok = true then { h with live := .qp i :: h.live, qps := h.qps ++ [.reset] } else h
  | .release o, ok => if ok = true then { h with live := h.live.erase o } else h
  | .free b, _ => { h with live := h.live.erase (.mem b) }
  | .modifyQp i stage, ok => if ok = true then { h with qps := h.qps.set i stage } else h
  | .getaddrinfo, r => { h with addrs := r }
  | .connectTo _, ok => if ok = true then { h with sockfd := some .connected } else h
  | .freeaddrinfo, _ => { h with addrs := none }
  | .connect, ok => if ok = true then { h with sockfd := some .connected } else h
  | .socket .listenFd, ok => if ok = true then { h with listenFd := some .fresh } else h
  | .socket .sockfd, ok => if ok = true then { h with sockfd := some .fresh } else h
  | .bindFd, ok => if ok = true then { h with listenFd := some .bound } else h
  | .listen, ok => if ok = true then { h with listenFd := some .listening } else h
  | .accept, ok => if ok = true then { h with sockfd := some .connected } else h
  | .close .listenFd, _ => { h with listenFd := none }
  | .close .sockfd, _ => { h with sockfd := none }
  | _, _ => h

/-- The calls of a process on a machine with the devices `devs`. -/
def calls : CallSpec HostCall.Result HostState := ⟨Allows devs, Gives devs, next⟩

/-- No object stays behind: a call that is to release one has released it. -/
def Released : (e : HostCall) → e.Result → Prop
  | .release _, ok => ok = true
  | _, _ => True

/-- The calls, where those that are to release an object release it. -/
def spec : CallSpec HostCall.Result HostState := (calls devs).given Released

/-- Whatever a call has brought back, it may have brought back something that is no failing
release. -/
theorem exists_released {h : HostState} {e : HostCall} {r : e.Result}
    (hr : (calls devs).Gives h e r) : ∃ r', (calls devs).Gives h e r' ∧ Released e r' := by
  cases e with
  | release o => exact ⟨true, trivial, rfl⟩
  | _ => exact ⟨r, hr, trivial⟩

/-- Of any results, these are the ones in which no release fails. -/
theorem released_iff {t : List (Prog.Event HostCall.Result)} :
    (∀ x ∈ t, Released x.1 x.2) ↔ ∀ o, ⟨.release o, false⟩ ∉ t := by
  constructor
  · intro h o hmem
    exact absurd (h _ hmem) Bool.false_ne_true
  · rintro h ⟨e, r⟩ hmem
    cases e with
    | release o => exact Bool.eq_true_of_not_eq_false fun hr => h o (hr ▸ hmem)
    | _ => trivial

/-! ### Calls with finitely many results -/

/-- The calls that are right on every machine, as a test; it leaves out those that bring back a
list, a name or a number. -/
def allows (h : HostState) : HostCall → Bool
  | .getDeviceList => false
  | .getDeviceName _ => false
  | .openDevice _ => false
  | .pollCqs => false
  | .getaddrinfo => false
  | e => decide (h.Allows [] e)

/-- All the results of such a call. -/
def results (_ : HostState) : (e : HostCall) → List e.Result
  | .getDeviceList => []
  | .getDeviceName _ => []
  | .pollCqs => []
  | .getaddrinfo => []
  | .freeDeviceList => [()]
  | .free _ => [()]
  | .print _ => [()]
  | .pollCq =>
    [.failed, .empty, .one].flatMap fun ne => [(ne, false), (ne, true)]
  | .freeaddrinfo => [()]
  | .setsockopt => [()]
  | .close _ => [()]
  | .writeByte => [()]
  | .readByte => [()]
  | .release _ => [true]
  | .openDevice _ | .acquire _ | .createQp _ | .query | .modifyQp _ _ | .postRecv _ _
    | .postSend _ _ | .postUdSend _ _ | .connectTo _ | .resolve | .connect | .socket _ | .bindFd
    | .listen | .accept | .writeRecord _ | .readRecord _ => [false, true]

theorem allows_sound (h : HostState) (e : HostCall) (hok : h.allows e = true) :
    (spec devs).Allows h e := by
  cases e with
  | getDeviceList | getDeviceName | openDevice | pollCqs | getaddrinfo => cases hok
  | socket fd | close fd =>
    have hright : h.Allows [] _ := of_decide_eq_true hok
    cases fd <;> exact hright
  | resolve | print => trivial
  | _ =>
    have hright : h.Allows [] _ := of_decide_eq_true hok
    exact hright

theorem results_complete (h : HostState) (e : HostCall) (hok : h.allows e = true) (r : e.Result)
    (hr : (spec devs).Gives h e r) : r ∈ h.results e := by
  have hbool : ∀ b : Bool, b ∈ [false, true] := by decide
  cases e with
  | getDeviceList | getDeviceName | openDevice | pollCqs | getaddrinfo => cases hok
  | pollCq =>
    obtain ⟨ne, ok⟩ := r
    cases ne <;> cases ok <;> simp [results]
  | release o => exact List.mem_singleton.mpr hr.2
  | freeDeviceList | free | print | freeaddrinfo | setsockopt | close | writeByte | readByte =>
    exact List.mem_singleton_self _
  | _ => exact hbool r

/-- **A piece of a program that is run through in every way.** -/
theorem triple_of_outcomes {α : Type} {p : HostProg α} {h : HostState} {l : List (α × HostState)}
    (hl : p.outcomes allows results next h = some l) :
    (spec devs).Triple (· = h) p fun a h' => (a, h') ∈ l :=
  CallSpec.Triple.of_outcomes (fun s e => allows_sound devs s e)
    (fun s e hok r hr => results_complete devs s e hok r hr) hl

/-- **A piece of a program that comes to one state**, whatever its calls bring back. -/
theorem leads_of_outcomes {p : HostProg Unit} {h h' : HostState}
    (hl : (p.outcomes allows results next h).map List.dedup = some [((), h')]) :
    (spec devs).Leads h p h' := by
  obtain ⟨l, hl, hdedup⟩ := Option.map_eq_some_iff.mp hl
  refine (triple_of_outcomes devs hl).mono (fun _ => id) fun _ _ hx => ?_
  rw [← List.mem_dedup, hdedup] at hx
  exact congrArg Prod.snd (List.mem_singleton.mp hx)

end HostState

end RdmaBook
