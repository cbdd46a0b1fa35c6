import Mathlib.Data.Nat.Notation
import Mathlib.Data.Int.Notation

/-!
# The verbs vocabulary

The records the programs hand to libibverbs and get back from it: work requests,
completion statuses, and the attributes `ibv_modify_qp` programs into a queue
pair. The fields are those some program of the repository sets.

A queue pair goes `RESET → INIT → RTR → RTS`, and each step programs its own
attributes. `RdmaBook.QpState` carries the attributes of the steps made so far, so
a queue pair that is ready to send *has* a destination and two packet sequence
numbers: there is no state in which they are unset.
-/

namespace RdmaBook

/-! ### The two sides -/

/-- The two processes of a connection. -/
inductive Side
  | client
  | server
  deriving DecidableEq, Repr

/-- The peer. -/
def Side.other : Side → Side
  | .client => .server
  | .server => .client

@[simp] theorem Side.other_other (s : Side) : s.other.other = s := by
  cases s <;> rfl

theorem Side.other_ne (s : Side) : s.other ≠ s := by
  cases s <;> decide

theorem Side.eq_or_eq_other (s t : Side) : t = s ∨ t = s.other := by
  cases s <;> cases t <;> decide

/-! ### Work requests and completions -/

/-- `enum ibv_wc_status`, the values the error chapter of the book catalogues. -/
inductive WcStatus
  | success
  | locLenErr
  | locQpOpErr
  | locProtErr
  | mwBindErr
  | remAccessErr
  | remInvReqErr
  | remOpErr
  | retryExcErr
  | rnrRetryExcErr
  | wrFlushErr
  | generalErr
  deriving DecidableEq, Repr

/-- `enum ibv_wr_opcode`. -/
inductive WrOpcode
  | send
  | rdmaWrite
  | rdmaRead
  deriving DecidableEq, Repr

/-- `struct ibv_sge`: a local range; every request of the programs has one. -/
structure Sge where
  addr : ℤ
  length : ℤ
  lkey : UInt32
  deriving DecidableEq, Repr

/-- `struct ibv_send_wr`. The two flags are `IBV_SEND_SIGNALED` and
`IBV_SEND_INLINE`; the remote range is that of `wr.rdma`. -/
structure SendWr where
  wrId : ℤ
  sge : Sge
  opcode : WrOpcode
  signaled : Bool
  inlined : Bool
  remoteAddr : ℤ
  rkey : UInt32
  deriving DecidableEq, Repr

/-- `enum ibv_wc_opcode`. -/
inductive WcOpcode
  | send
  | recv
  deriving DecidableEq, Repr

/-- `struct ibv_recv_wr` with its one range, which starts at a place of the memory the
buffers of a program are in. -/
structure RecvWr where
  wrId : ℕ
  addr : ℕ
  length : ℕ
  deriving DecidableEq, Repr

/-- What a call of `ibv_poll_cq` for one entry returns. -/
inductive PollRet
  | failed
  | empty
  | one
  deriving DecidableEq, Repr

/-! ### Connection manager events -/

/-- `enum rdma_cm_event_type`. -/
inductive CmEventType
  | addrResolved
  | addrError
  | routeResolved
  | routeError
  | connectRequest
  | connectResponse
  | connectError
  | unreachable
  | rejected
  | established
  | disconnected
  | deviceRemoval
  | multicastJoin
  | multicastError
  | addrChange
  | timewaitExit
  deriving DecidableEq, Repr

/-! ### Queue pairs -/

/-- A global identifier: sixteen bytes. -/
structure Gid where
  raw : List UInt8
  length_raw : raw.length = 16
  deriving DecidableEq

/-- The access flags of a queue pair. -/
structure AccessFlags where
  localWrite : Bool
  remoteWrite : Bool
  remoteRead : Bool
  deriving DecidableEq, Repr

/-- What the step to INIT programs. -/
structure InitAttr where
  pkeyIndex : ℕ
  portNum : ℕ
  accessFlags : AccessFlags
  deriving DecidableEq, Repr

/-- `struct ibv_ah_attr`: the path to the peer. -/
structure AhAttr where
  dlid : UInt16
  dgid : Gid
  sgidIndex : ℕ
  hopLimit : ℕ
  portNum : ℕ
  deriving DecidableEq

/-- What the step to RTR programs. -/
structure RtrAttr where
  pathMtu : ℕ
  destQpNum : UInt32
  rqPsn : UInt32
  maxDestRdAtomic : ℕ
  minRnrTimer : ℕ
  ah : AhAttr
  deriving DecidableEq

/-- What the step to RTS programs. -/
structure RtsAttr where
  sqPsn : UInt32
  timeout : ℕ
  retryCnt : ℕ
  rnrRetry : ℕ
  maxRdAtomic : ℕ
  deriving DecidableEq, Repr

/-- **The state of a queue pair**, with the attributes of the steps behind it. -/
inductive QpState
  | reset
  | init (i : InitAttr)
  | rtr (i : InitAttr) (r : RtrAttr)
  | rts (i : InitAttr) (r : RtrAttr) (s : RtsAttr)
  deriving DecidableEq

/-- A queue pair, as much of it as the programs look at. -/
structure Qp where
  qpNum : UInt32
  state : QpState
  deriving DecidableEq

/-- One call of `ibv_modify_qp`, by the state it asks for. -/
inductive QpModify
  | init (i : InitAttr)
  | rtr (r : RtrAttr)
  | rts (s : RtsAttr)

/-- **`ibv_modify_qp`**: the transition is made from the state before it only,
and refused anywhere else. -/
def Qp.modify (qp : Qp) : QpModify → Option Qp
  | .init i => match qp.state with
      | .reset => some { qp with state := .init i }
      | _ => none
  | .rtr r => match qp.state with
      | .init i => some { qp with state := .rtr i r }
      | _ => none
  | .rts s => match qp.state with
      | .rtr i r => some { qp with state := .rts i r s }
      | _ => none

/-- The queue pair number another queue pair must use as its destination for
packets to reach this one, and the destination this one uses: set from RTR on. -/
def Qp.destQpNum (qp : Qp) : Option UInt32 :=
  match qp.state with
  | .rtr _ r => some r.destQpNum
  | .rts _ r _ => some r.destQpNum
  | _ => none

/-- A queue pair is ready to send. -/
def Qp.IsRts (qp : Qp) : Prop := ∃ i r s, qp.state = .rts i r s

end RdmaBook
