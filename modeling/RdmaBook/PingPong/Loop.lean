import RdmaBook.Lib.CString
import RdmaBook.Lib.Lts
import RdmaBook.Verbs.Rc

/-!
# The ping-pong loop of rc_pingpong

Both processes of rc_pingpong run one loop, with a branch for each role. They use
one buffer for what they send and what they receive, and one completion queue for
both kinds of completion; `poll_completion` takes the oldest completion and looks
at its status only.

| | client | server |
|---|---|---|
| 1 | `snprintf` into `buf` | |
| 2 | `post_receive` | `post_receive` |
| 3 | `post_send` | `poll_completion`, of the receive |
| 4 | `poll_completion`, of the send | `post_send` |
| 5 | `poll_completion`, of the reply | `poll_completion`, of the send |

The system below interleaves the two processes with the reliable connection of
`RdmaBook.rcNext` between their queue pairs.
-/

namespace RdmaBook

open CString

/-! ### A process -/

/-- The places of the loop. -/
inductive PingPc
  /-- At the test of the `for`. -/
  | loop
  | snprintf
  | postReceive
  | postSend
  /-- In the `poll_completion` that waits for the send. -/
  | pollSend
  /-- In the `poll_completion` that waits for the receive. -/
  | pollRecv
  /-- Past the loop. -/
  | finished
  /-- A check has ended the process. -/
  | exited
  deriving DecidableEq, Repr

/-- The registered memory of a process. -/
inductive PingBuf
  | buf
  deriving DecidableEq, Repr

/-- A process with its endpoint. Two fields are history and read by no step: the
number of completions the process has taken, and what its buffer held after each
`snprintf`. -/
structure PingHost where
  pc : PingPc
  i : ℕ
  rc : RcEnd PingBuf
  polled : ℕ
  pings : List (List UInt8)

/-- The bytes of the buffer. -/
def PingHost.buf (h : PingHost) : List UInt8 := h.rc.mem .buf

/-- What happens in a step of a process; a call that posts returns `true` for
success. -/
inductive PingLabel
  /-- The process moves on without a call of libibverbs. -/
  | cpu
  | postReceive (ok : Bool)
  | postSend (ok : Bool)
  | poll (ret : PollRet)
  deriving DecidableEq, Repr

/-- The place after a call that succeeded. -/
def PingPc.next : Side → PingPc → PingPc
  | .client, .postReceive => .postSend
  | .client, .postSend => .pollSend
  | .client, .pollSend => .pollRecv
  | .client, .pollRecv => .loop
  | .server, .postReceive => .pollRecv
  | .server, .pollRecv => .postSend
  | .server, .postSend => .pollSend
  | .server, .pollSend => .loop
  | _, pc => pc

/-- The text of a ping: `"ping-%06d"`. -/
def pingText (i : ℕ) : List UInt8 := ascii "ping-" ++ decimal 6 i

section Process

variable (numIters msgSize : ℕ)

/-- Go to the next place; the turn that ends counts `i` up. -/
def PingHost.advance (s : Side) (h : PingHost) : PingHost :=
  { h with
    pc := h.pc.next s
    i := if h.pc.next s = .loop then h.i + 1 else h.i }

/-- The request `post_receive` and `post_send` post: the whole buffer, under the
number of the turn. -/
def PingHost.wr (h : PingHost) : RcWr PingBuf := ⟨h.i, .buf, msgSize⟩

/-- A step without a call of libibverbs: the test of the loop, and the `snprintf` of
the client. -/
def pingCpu (s : Side) (h : PingHost) : Option PingHost :=
  match h.pc with
  | .loop =>
    if h.i < numIters then
      match s with
      | .client => some { h with pc := .snprintf }
      | .server => some { h with pc := .postReceive }
    else some { h with pc := .finished }
  -- the text goes to the front of the buffer that is sent as a whole
  | .snprintf =>
    let bytes := snprintf h.buf msgSize (pingText h.i)
    some { h with pc := .postReceive, rc := h.rc.store .buf bytes, pings := h.pings ++ [bytes] }
  | _ => none

/-- `CHECK_ERRNO` of a call that posts. -/
def pingPost (s : Side) (h : PingHost) (rc : RcEnd PingBuf) (ok : Bool) : PingHost :=
  if ok then { h with rc := rc }.advance s else { h with pc := .exited }

/-- One turn of the loop of `poll_completion`, and the check of what it returns. The
status is all the caller learns of the completion. -/
def pingPoll (s : Side) (h : PingHost) (ret : PollRet) : Option PingHost :=
  match ret, h.rc.cq with
  | .failed, _ => some { h with pc := .exited }
  | .empty, _ => some h
  | .one, [] => none
  | .one, wc :: rest =>
    let h' := { h with rc := { h.rc with cq := rest }, polled := h.polled + 1 }
    -- the completion is taken off the queue before its status is seen
    if wc.status = .success then some (h'.advance s) else some { h' with pc := .exited }

/-- **One step of a process.** -/
def pingNext (s : Side) (h : PingHost) (l : PingLabel) : Option PingHost :=
  match l, h.pc with
  | .cpu, _ => pingCpu numIters msgSize s h
  | .postReceive ok, .postReceive => some (pingPost s h (h.rc.postRecv (h.wr msgSize)) ok)
  | .postSend ok, .postSend => some (pingPost s h (h.rc.postSend (h.wr msgSize)) ok)
  | .poll ret, .pollSend => pingPoll s h ret
  | .poll ret, .pollRecv => pingPoll s h ret
  | _, _ => none

/-- A process before its loop; `calloc` clears the buffer. -/
def pingStart : PingHost where
  pc := .loop
  i := 0
  rc := RcEnd.start fun _ => List.replicate msgSize 0
  polled := 0
  pings := []

end Process

/-! ### Two processes -/

/-- The processes, and the packets each side has sent that have not arrived. -/
structure PingState where
  host : Side → PingHost
  wire : Side → List RcPacket

/-- A step of the system: of one process, or of one direction of the connection,
named by the side that sends. -/
inductive PingStep
  | proc (s : Side) (l : PingLabel)
  | net (s : Side) (ev : RcEvent)
  deriving DecidableEq, Repr

section System

variable (numIters msgSize : ℕ)

/-- The endpoints of a side and its peer, and the packets of the side, replaced. -/
def PingState.setNet (st : PingState) (s : Side)
    (r : RcEnd PingBuf × RcEnd PingBuf × List RcPacket) :
    PingState where
  host := Function.update (Function.update st.host s { st.host s with rc := r.1 }) s.other
    { st.host s.other with rc := r.2.1 }
  wire := Function.update st.wire s r.2.2

/-- A step of the system. -/
def pingSysNext (st : PingState) : PingStep → Option PingState
  | .proc s l => (pingNext numIters msgSize s (st.host s) l).map fun h =>
      { st with host := Function.update st.host s h }
  | .net s ev => (rcNext (st.host s).rc (st.host s.other).rc (st.wire s) ev).map (st.setNet s)

/-- **Ping-pong**: two processes that use the same number of iterations and the same
message size, from the moment both have passed the sync. -/
def pingLts : Lts PingState PingStep :=
  Lts.ofFun (· = { host := fun _ => pingStart msgSize, wire := fun _ => [] })
    (pingSysNext numIters msgSize)

end System

/-- **No call fails in the step**, and no request is failed by the device. -/
def PingNoFailure (_ : PingState) : PingStep → Prop
  | .proc _ (.postReceive ok) => ok = true
  | .proc _ (.postSend ok) => ok = true
  | .proc _ (.poll ret) => ret ≠ .failed
  | .proc _ .cpu => True
  | .net _ ev => ev.Ok

instance (st : PingState) : DecidablePred (PingNoFailure st)
  | .proc _ (.postReceive ok) => inferInstanceAs (Decidable (ok = true))
  | .proc _ (.postSend ok) => inferInstanceAs (Decidable (ok = true))
  | .proc _ (.poll ret) => inferInstanceAs (Decidable (ret ≠ .failed))
  | .proc _ .cpu => inferInstanceAs (Decidable True)
  | .net _ ev => inferInstanceAs (Decidable ev.Ok)

end RdmaBook
