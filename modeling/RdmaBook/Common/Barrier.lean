import RdmaBook.Common.Handshake
import Mathlib.Data.Vector.Basic

/-!
# The barrier of the five programs

Between the connection and its data phase each of the programs makes a straight line of
calls: it exchanges its records, brings its queue pairs up, in an order of its own, and
ends with a barrier over TCP: it writes one byte, and reads one. All calls are checked
but these two. So where the peer has gone, or the call is interrupted, the read returns
no byte, and the process goes on all the same.

A process is here the list of the calls it has still to make. Of the records only the
bytes matter: `RdmaBook.oobLts` follows what is in them. A process may end at any point,
and its end of the connection is closed then; `read` tells so once all that has been
written is read.
-/

namespace RdmaBook

/-! ### Calls -/

/-- The states a queue pair is brought up through. -/
inductive QpStage
  | reset
  | init
  | rtr
  | rts
  deriving DecidableEq, Repr

/-- A call that is still to be made. -/
inductive SetupCall
  /-- `write_all`, and what is left to write. -/
  | writeAll (bytes : List UInt8)
  /-- `read_all`, and the number of bytes left to read. -/
  | readAll (remaining : ℕ)
  /-- `write` of a record, which is to take all of it. -/
  | write (record : List UInt8)
  /-- `read` of a record, which is to bring all of it. -/
  | read (size : ℕ)
  /-- `ibv_modify_qp` of the queue pair with this index. -/
  | modify (qp : ℕ) (stage : QpStage)
  /-- `write` of `sync`. -/
  | syncWrite
  /-- The `read` of the barrier. -/
  | syncRead
  /-- The data phase. -/
  | run
  /-- The `read` that waits for the end of the data phase of the peer. -/
  | doneRead
  deriving DecidableEq, Repr

/-- A process: its calls, the states of its queue pairs, the byte that the `read` of the
barrier has brought, whether that call has returned, and whether the process has
ended. -/
structure SyncProc where
  todo : List SetupCall
  stage : ℕ → QpStage
  sync : Option UInt8
  entered : Bool
  gone : Bool

/-- What happens in a step of a process. -/
inductive SyncLabel
  /-- The process moves on without a call of these. -/
  | cpu
  | write (ret : IoResult)
  | read (ret : IoResult)
  /-- `ibv_modify_qp` returns, `true` for success. -/
  | modify (ok : Bool)
  /-- The process ends. -/
  | exit
  deriving DecidableEq, Repr

/-- `write` of `size` bytes moves no more of them. -/
def IoResult.Writes (size : ℕ) : IoResult → Prop
  | .done n => n ≤ size
  | _ => True

/-- `read` of `size` bytes moves no more of them, and only bytes that are there; it says
that there are none when there will be none. -/
def IoResult.Reads (size : ℕ) (inp : List UInt8) (closed : Bool) : IoResult → Prop
  | .done n => n ≤ size ∧ n ≤ inp.length ∧ (n = 0 → inp = [] ∧ closed = true)
  | _ => True

instance (size : ℕ) : DecidablePred (IoResult.Writes size)
  | .done n => inferInstanceAs (Decidable (n ≤ size))
  | .eintr => inferInstanceAs (Decidable True)
  | .failed => inferInstanceAs (Decidable True)

instance (size : ℕ) (inp : List UInt8) (closed : Bool) :
    DecidablePred (IoResult.Reads size inp closed)
  | .done n =>
    inferInstanceAs (Decidable (n ≤ size ∧ n ≤ inp.length ∧ (n = 0 → inp = [] ∧ closed = true)))
  | .eintr => inferInstanceAs (Decidable True)
  | .failed => inferInstanceAs (Decidable True)

/-! ### A process -/

namespace SyncProc

/-- A call has returned. -/
def goTo (p : SyncProc) (todo : List SetupCall) : SyncProc := { p with todo := todo }

/-- A check has ended the process. -/
def exit (p : SyncProc) : SyncProc := { p with gone := true }

/-- The `read` of the barrier has returned. -/
def enter (p : SyncProc) (todo : List SetupCall) (sync : Option UInt8) : SyncProc :=
  { p with
    todo := todo
    sync := sync
    entered := true }

/-- The socket is closed: by the process at its end, or by its exit. -/
def closed (p : SyncProc) : Bool := p.gone || p.todo.isEmpty

/-- A step without a call: leaving one of the two loops, or the data phase. -/
def cpu (p : SyncProc) : Option SyncProc :=
  match p.todo with
  | .writeAll [] :: rest => some (p.goTo rest)
  | .readAll 0 :: rest => some (p.goTo rest)
  | .run :: rest => some (p.goTo rest)
  | _ => none

/-- A `write`, and what it adds to the stream. The loop of `write_all` makes an interrupted
call again and goes on after a short one; the `write` of a record does neither. The
result of the `write` of `sync` is not looked at. -/
def write (p : SyncProc) (ret : IoResult) : Option (SyncProc × List UInt8) :=
  match p.todo with
  | .writeAll (b :: bytes) :: rest =>
    if ret.Writes (b :: bytes).length then
      match ret with
      | .done n =>
        -- `write_all` takes a zero for an error
        if n = 0 then some (p.exit, [])
        else some (p.goTo (.writeAll ((b :: bytes).drop n) :: rest), (b :: bytes).take n)
      | .eintr => some (p, [])
      | .failed => some (p.exit, [])
    else none
  | .write record :: rest =>
    if ret.Writes record.length then
      match ret with
      -- `!= sizeof(...)`: a short write is an error here
      | .done n => some (if n = record.length then p.goTo rest else p.exit, record.take n)
      | _ => some (p.exit, [])
    else none
  | .syncWrite :: rest =>
    if ret.Writes 1 then
      match ret with
      -- the variable `sync` holds what was read last, if anything was
      | .done n => some (p.goTo rest, [p.sync.getD syncByte].take n)
      | _ => some (p.goTo rest, [])
    else none
  | _ => none

/-- A `read`, and the number of bytes it takes off the stream. In `read_all` the end of the
stream is an error, and for a record everything that is not all of it; the result of the
`read` of the barrier is not looked at. -/
def read (p : SyncProc) (inp : List UInt8) (eof : Bool) (ret : IoResult) : Option (SyncProc × ℕ) :=
  match p.todo with
  | .readAll (remaining + 1) :: rest =>
    if ret.Reads (remaining + 1) inp eof then
      match ret with
      | .done n =>
        -- "Peer closed connection"
        if n = 0 then some (p.exit, 0) else some (p.goTo (.readAll (remaining + 1 - n) :: rest), n)
      | .eintr => some (p, 0)
      | .failed => some (p.exit, 0)
    else none
  | .read size :: rest =>
    if ret.Reads size inp eof then
      match ret with
      | .done n => some (if n = size then p.goTo rest else p.exit, n)
      | _ => some (p.exit, 0)
    else none
  | .syncRead :: rest =>
    if ret.Reads 1 inp eof then
      match ret with
      -- no check: with no byte read, `sync` keeps its value
      | .done n => some (p.enter rest (inp.take n).head?, n)
      | _ => some (p.enter rest none, 0)
    else none
  | .doneRead :: rest =>
    if ret.Reads 1 inp eof then
      match ret with
      | .done n => some (p.goTo rest, n)
      | _ => some (p.goTo rest, 0)
    else none
  | _ => none

/-- A transition of a queue pair; a refused one is fatal. -/
def modify (p : SyncProc) (ok : Bool) : Option SyncProc :=
  match p.todo with
  | .modify qp stage :: rest =>
    some (if ok then { p.goTo rest with stage := Function.update p.stage qp stage } else p.exit)
  | _ => none

/-- **A step of a process** on the stream it reads, which may have ended: the process, the
number of bytes it has read, and the bytes it has written. -/
def next (p : SyncProc) (inp : List UInt8) (eof : Bool) (l : SyncLabel) :
    Option (SyncProc × ℕ × List UInt8) :=
  if p.gone then none
  else match l with
    | .cpu => p.cpu.map fun p' => (p', 0, [])
    | .write ret => (p.write ret).map fun r => (r.1, 0, r.2)
    | .read ret => (p.read inp eof ret).map fun r => (r.1, r.2, [])
    | .modify ok => (p.modify ok).map fun p' => (p', 0, [])
    | .exit => some (p.exit, 0, [])

end SyncProc

/-! ### Two processes -/

/-- The processes, and the bytes each has written that the other has not read. -/
structure SyncState where
  proc : Side → SyncProc
  wire : Side → List UInt8

/-- A step of one of the two processes. -/
def SyncState.next (st : SyncState) (l : Side × SyncLabel) : Option SyncState :=
  ((st.proc l.1).next (st.wire l.1.other) (st.proc l.1.other).closed l.2).map fun r =>
    { proc := Function.update st.proc l.1 r.1
      wire := Function.update (Function.update st.wire l.1.other ((st.wire l.1.other).drop r.2.1))
        l.1
        (st.wire l.1 ++ r.2.2) }

/-- The connection has just been made. -/
def syncStart (script : Side → List SetupCall) : SyncState where
  proc s :=
    { todo := script s
      stage := fun _ => .reset
      sync := none
      entered := false
      gone := false }
  wire _ := []

/-- **Two processes** with their calls. -/
def syncLts (script : Side → List SetupCall) : Lts SyncState (Side × SyncLabel) :=
  Lts.ofFun (· = syncStart script) SyncState.next

/-- **A process in its data phase has received the sync byte of its peer**, whose first `n`
queue pairs are ready to send. -/
def SyncState.Synchronized (n : Side → ℕ) (st : SyncState) (s : Side) : Prop :=
  (st.proc s).entered = true →
    (st.proc s).sync = some syncByte ∧ ∀ i < n s.other, (st.proc s.other).stage i = .rts

/-- **The `read` of a barrier returns a byte.** -/
def SyncByteRead (st : SyncState) (l : Side × SyncLabel) : Prop :=
  (st.proc l.1).todo.head? = some .syncRead → l.2 = .exit ∨ l.2 = .read (.done 1)

instance (st : SyncState) (l : Side × SyncLabel) : Decidable (SyncByteRead st l) :=
  inferInstanceAs (Decidable ((st.proc l.1).todo.head? = some .syncRead → _ ∨ _))

/-! ### The five programs -/

/-- The programs; in rdma_bench each side has its own number of queue pairs. -/
inductive SyncProgram
  /-- rc_pingpong, rdma_write or rdma_read. -/
  | oob (prog : OobProgram)
  | udSend
  | rdmaBench (qpCount : Side → ℕ)

/-- What a process has got from its device, and the memory of `struct ud_info` and of
`struct conn_info`. -/
structure SyncHost where
  host : Host
  udInfo : List.Vector UInt8 24
  connInfo : List.Vector UInt8 40

/-- One queue pair from RESET to RTS. -/
def bringUpCalls (qp : ℕ) : List SetupCall := [.modify qp .init, .modify qp .rtr, .modify qp .rts]

/-- The calls in front of the barrier. -/
def SyncProgram.setup (order : ByteOrder) (host : SyncHost) (s : Side) :
    SyncProgram → List SetupCall
  | .oob prog =>
    [.writeAll (host.host.msg order .qp), .readAll OobMsg.qp.size] ++
      (if prog.exchangesMr then [.writeAll (host.host.msg order .mr), .readAll OobMsg.mr.size]
        else []) ++
      bringUpCalls 0
  | .udSend => bringUpCalls 0 ++ [.write host.udInfo.toList, .read 24]
  | .rdmaBench qpCount =>
    [.write host.connInfo.toList, .read 40] ++ (List.range (qpCount s)).flatMap bringUpCalls

/-- The calls behind it: the client of rdma_bench tells the server when it is done. -/
def SyncProgram.dataPhase (s : Side) : SyncProgram → List SetupCall
  | .rdmaBench _ => match s with
    | .client => [.run, .syncWrite]
    | .server => [.run, .doneRead]
  | _ => [.run]

/-- **The calls of a process.** -/
def SyncProgram.script (order : ByteOrder) (host : Side → SyncHost) (prog : SyncProgram)
    (s : Side) :
    List SetupCall :=
  prog.setup order (host s) s ++ .syncWrite :: .syncRead :: prog.dataPhase s

/-- The number of queue pairs of a process. -/
def SyncProgram.qpCount : SyncProgram → Side → ℕ
  | .rdmaBench qpCount, s => qpCount s
  | _, _ => 1

end RdmaBook
