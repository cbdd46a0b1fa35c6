import RdmaBook.Lib.CString
import RdmaBook.Lib.Lts
import RdmaBook.Verbs.Basic

/-!
# srq_example

The shared receive queue example, from `run_demo` on: `NUM_QPS` pairs of queue pairs,
connected on one device, whose receives all take their buffers from one shared queue,
and whose completions all go to one completion queue. `run_demo` sends one message on
each pair and then polls until it has seen two completions for each of them; where a
completion is that of a receive, it prints the string in the buffer, clears the buffer
and posts it again.

A message that has been sent takes any of the posted buffers when it arrives; the
completion of a receive comes some time after its message, and that of a send some time
after its request, in any order.
-/

namespace RdmaBook

open CString Stream

/-! ### Data -/

/-- `SRQ_MAX_WR`. -/
def srqMaxWr : ℕ := 64

/-- `BUFFER_SIZE`. -/
def srqBufferSize : ℕ := 256

/-- The constants of the program, and the numbers the device has given to its queue
pairs. -/
structure SrqParams where
  /-- `NUM_QPS`. -/
  numQps : ℕ
  /-- `NUM_SRQ_BUFFERS`. -/
  numBufs : ℕ
  numQps_le : numQps ≤ numBufs
  numBufs_le : numBufs ≤ srqMaxWr
  sendQpn : ℕ → UInt32
  recvQpn : ℕ → UInt32

/-- The text of the message on a pair. -/
def srqText (P : SrqParams) (i : ℕ) : List UInt8 :=
  ascii "Message from QP " ++ decimal 0 i ++ ascii " (qpn=" ++ decimal 0 (P.sendQpn i).toNat ++
    ascii ")"

/-- A send request: `wr_id`, the pair, and how much of its buffer is sent. -/
structure SrqSendWr where
  wrId : ℕ
  pair : ℕ
  length : ℕ
  deriving DecidableEq, Repr

/-- A completion; `pair` is, as a history, the pair it belongs to. -/
structure SrqWc where
  wrId : ℕ
  status : WcStatus
  opcode : WcOpcode
  byteLen : ℕ
  qpNum : UInt32
  pair : ℕ
  deriving DecidableEq

/-- A line `run_demo` has printed for a receive, and, as a history, its pair. -/
structure SrqLine where
  bufIdx : ℕ
  byteLen : ℕ
  qpNum : UInt32
  text : List UInt8
  pair : ℕ
  deriving DecidableEq

/-- The places of `run_demo`. -/
inductive SrqPc
  | format (i : ℕ)
  | postSend (i len : ℕ)
  | poll
  | print (wc : SrqWc)
  /-- The call of `memset`. -/
  | clear (bufIdx : ℕ)
  | repost (bufIdx : ℕ)
  /-- Behind its loop. -/
  | done
  /-- It has returned -1. -/
  | failed
  deriving DecidableEq

/-- **The program and the device**: the counters and the buffers of `run_demo`, the shared
queue, the messages that have been sent and not arrived, the sends without a completion,
the receives without one, and the completion queue. -/
structure SrqState where
  pc : SrqPc
  completed : ℕ
  recvCount : ℕ
  sendBufs : ℕ → List UInt8
  pool : List UInt8
  srq : List RecvWr
  wire : List SrqSendWr
  sends : List SrqSendWr
  receives : List SrqWc
  cq : List SrqWc
  lines : List SrqLine

/-- What happens in a step. -/
inductive SrqLabel
  | cpu
  /-- A call returns, `true` for success. -/
  | call (ok : Bool)
  | poll (ret : PollRet)
  /-- The message at place `m` arrives, and takes the buffer at place `j` of the queue. -/
  | arrive (m j : ℕ)
  /-- The send at place `k` completes. -/
  | sendCqe (k : ℕ) (status : WcStatus)
  /-- The receive at place `k` completes. -/
  | recvCqe (k : ℕ) (status : WcStatus)
  deriving DecidableEq, Repr

/-! ### The program -/

/-- `get_buffer`, as a place of the pool. -/
def getBuffer (idx : ℕ) : ℕ := idx * srqBufferSize

/-- The request `post_srq_recv` posts. -/
def srqRecvWr (bufIdx : ℕ) : RecvWr := ⟨bufIdx, getBuffer bufIdx, srqBufferSize⟩

/-- The end of `init_resources`: the shared queue has been filled, buffer by buffer. -/
def srqStart (P : SrqParams) : SrqState where
  pc := if 0 < P.numQps then .format 0 else .done
  completed := 0
  recvCount := 0
  sendBufs := fun _ => List.replicate srqBufferSize 0
  pool := List.replicate (P.numBufs * srqBufferSize) 0
  srq := (List.range P.numBufs).map srqRecvWr
  wire := []
  sends := []
  receives := []
  cq := []
  lines := []

namespace SrqState

variable (P : SrqParams) (st : SrqState)

/-- The test of the polling loop, behind `completed` completions. -/
def pollTest (completed : ℕ) : SrqPc := if completed < P.numQps * 2 then .poll else .done

/-- The step of `run_demo` that is no call. -/
def cpu : Option SrqState :=
  match st.pc with
  | .format i =>
    let buf := snprintf (st.sendBufs i) srqBufferSize (srqText P i)
    some { st with
      sendBufs := Function.update st.sendBufs i buf, pc := .postSend i (strlen buf 0 + 1) }
  | .print wc => some { st with
      lines := st.lines ++ [⟨wc.wrId, wc.byteLen, wc.qpNum, str st.pool (getBuffer wc.wrId),
        wc.pair⟩]
      pc := .clear wc.wrId }
  | .clear b => some { st with
      pool := overlay st.pool (getBuffer b) (List.replicate srqBufferSize 0), pc := .repost b }
  | _ => none

/-- A call of `run_demo`; the result of the repost is ignored. -/
def call (ok : Bool) : Option SrqState :=
  match st.pc with
  | .postSend i len => some (if ok then { st with
      wire := st.wire ++ [⟨100 + i, i, len⟩]
      sends := st.sends ++ [⟨100 + i, i, len⟩]
      -- the loop over the pairs ends at the test of the polling loop
      pc := if i + 1 < P.numQps then .format (i + 1) else pollTest P st.completed }
    else { st with pc := .failed })
  | .repost b => some { st with
      srq := if ok then st.srq ++ [srqRecvWr b] else st.srq
      pc := pollTest P st.completed }
  | _ => none

/-- A call of `ibv_poll_cq`, and what the loop does with a completion. -/
def poll (ret : PollRet) : Option SrqState :=
  match st.pc with
  | .poll => match ret with
    -- `if (ret < 0)`
    | .failed => some { st with pc := .failed }
    | .empty => if st.cq = [] then some st else none
    | .one => match st.cq with
      | [] => none
      -- a failed completion ends `run_demo`; any other is counted, whichever its kind
      | wc :: cq => some (
          if wc.status ≠ .success then { st with cq := cq, pc := .failed }
          else if wc.opcode = .recv then { st with
            cq := cq, completed := st.completed + 1, recvCount := st.recvCount + 1,
            pc := .print wc }
          else { st with
            cq := cq, completed := st.completed + 1, pc := pollTest P (st.completed + 1) })
  | _ => none

/-! ### The device -/

/-- **A message arrives**: it takes a posted buffer of the shared queue, and its bytes go
there. -/
def arrive (m j : ℕ) : Option SrqState :=
  st.wire[m]?.bind fun wr => st.srq[j]?.map fun rwr =>
    let data := (st.sendBufs wr.pair).take wr.length
    { st with
      wire := st.wire.eraseIdx m
      srq := st.srq.eraseIdx j
      pool := overlay st.pool rwr.addr data
      receives := st.receives ++
        [⟨rwr.wrId, .success, .recv, data.length, P.recvQpn wr.pair, wr.pair⟩] }

/-- A send completes. -/
def sendCqe (k : ℕ) (status : WcStatus) : Option SrqState :=
  st.sends[k]?.map fun wr => { st with
    sends := st.sends.eraseIdx k
    cq := st.cq ++ [⟨wr.wrId, status, .send, 0, P.sendQpn wr.pair, wr.pair⟩] }

/-- A receive completes. -/
def recvCqe (k : ℕ) (status : WcStatus) : Option SrqState :=
  st.receives[k]?.map fun wc => { st with
    receives := st.receives.eraseIdx k
    cq := st.cq ++ [{ wc with status := status }] }

/-- **A step of the system.** -/
def next : SrqLabel → Option SrqState
  | .cpu => st.cpu P
  | .call ok => st.call P ok
  | .poll ret => st.poll P ret
  | .arrive m j => st.arrive P m j
  | .sendCqe k status => st.sendCqe P k status
  | .recvCqe k status => st.recvCqe k status

end SrqState

/-- **The shared receive queue example**, with any results of its calls and any order of
arrivals and completions. -/
def srqLts (P : SrqParams) : Lts SrqState SrqLabel := Lts.ofFun (· = srqStart P) (SrqState.next P)

/-- No call and no completion fails. -/
def SrqNoFailure (_ : SrqState) : SrqLabel → Prop
  | .call ok => ok = true
  | .poll ret => ret ≠ .failed
  | .sendCqe _ status => status = .success
  | .recvCqe _ status => status = .success
  | _ => True

instance (st : SrqState) : DecidablePred (SrqNoFailure st) := fun l => by
  cases l <;> unfold SrqNoFailure <;> infer_instance

end RdmaBook
