import RdmaBook.Read.Program
import RdmaBook.Verbs.Message

/-!
# The data phases of rdma_write and rdma_read

Behind the synchronization either process of the two programs is a straight line of
calls, each with its check, and its cleanup stands at the end: a *script*. The server
posts one receive, waits for one completion, and tears its region down. The client works
on that region with one-sided operations, of which the server hears nothing, waits for
each of them, and then sends a notification.

A check that fails ends the process, which never reaches its cleanup then. Its queue pair
goes away with it; here its device may go on, which only adds runs.
-/

namespace RdmaBook

open CString

/-! ### Scripts -/

section Script

variable (ρ : Type*)

/-- A call of a data phase, on the buffers named by `ρ`. What depends on what a buffer
holds is a function of all of them. -/
inductive OsCall
  /-- The process writes a buffer. -/
  | store (addr : ρ) (bytes : (ρ → List UInt8) → List UInt8)
  /-- A check that may end the process, and does nothing else here. -/
  | check
  /-- `ibv_post_send`. -/
  | postSend (wrId : ℕ) (op : RcOp ρ) (addr : ρ) (length : (ρ → List UInt8) → ℕ)
  /-- `ibv_post_recv`. -/
  | postRecv (wr : RcWr ρ)
  | pollCompletion

/-- A process: the calls it has not made, and whether a check has ended it. -/
structure OsProc where
  todo : List (OsCall ρ)
  exited : Bool

/-- The two processes, and the connection between them. -/
structure OsState where
  procs : Side → OsProc ρ
  conn : MsgConn ρ

end Script

/-- What happens in a step. -/
inductive OsLabel
  /-- A process writes a buffer. -/
  | store (s : Side)
  /-- A call returns, `true` for success. -/
  | call (s : Side) (ok : Bool)
  /-- `ibv_poll_cq` returns inside `poll_completion`; the status is that of the
  completion. -/
  | poll (s : Side) (ret : PollRet) (status : WcStatus)
  | device (s : Side) (ev : MsgEvent)
  deriving DecidableEq, Repr

section System

variable {ρ : Type*} [DecidableEq ρ]

/-- The process has reached its cleanup. -/
def OsProc.AtCleanup (p : OsProc ρ) : Prop := p.todo = [] ∧ p.exited = false

namespace OsState

/-- The next call of a process has succeeded. -/
def advance (st : OsState ρ) (s : Side) (rest : List (OsCall ρ)) (conn : MsgConn ρ) : OsState ρ :=
  ⟨Function.update st.procs s ⟨rest, false⟩, conn⟩

/-- `CHECK_ERRNO` of a call that fails. -/
def exit (st : OsState ρ) (s : Side) (conn : MsgConn ρ) : OsState ρ :=
  ⟨Function.update st.procs s { st.procs s with exited := true }, conn⟩

/-- One turn of the loop of `poll_completion`, and the check of what it returns. -/
def poll (st : OsState ρ) (s : Side) (rest : List (OsCall ρ)) (status : WcStatus) :
    PollRet → Option (OsState ρ)
  | .failed => some (st.exit s st.conn)
  -- the loop of `poll_completion` goes on
  | .empty => some st
  | .one => match (st.conn.ends s).cq with
    | [] => none
    | wc :: cq =>
      if wc.status = status then
        let conn := st.conn.set s { st.conn.ends s with cq := cq }
        some (if status = .success then st.advance s rest conn else st.exit s conn)
      else none

/-- **A step of a process.** -/
def procNext (st : OsState ρ) (s : Side) (l : OsLabel) : Option (OsState ρ) :=
  let e := st.conn.ends s
  -- a process that has ended makes no call
  if (st.procs s).exited then none
  else match (st.procs s).todo, l with
    | .store addr bytes :: rest, .store _ =>
      some (st.advance s rest (st.conn.set s (e.store addr (bytes e.mem))))
    | .check :: rest, .call _ ok =>
      some (if ok then st.advance s rest st.conn else st.exit s st.conn)
    -- the length of a request is taken from the buffers when it is posted
    | .postSend wrId op addr length :: rest, .call _ ok =>
      let wr : MsgWr ρ := ⟨⟨wrId, addr, length e.mem⟩, op⟩
      some (if ok then st.advance s rest (st.conn.set s (e.postSend wr)) else st.exit s st.conn)
    | .postRecv wr :: rest, .call _ ok =>
      some (if ok then st.advance s rest (st.conn.set s (e.postRecv wr)) else st.exit s st.conn)
    | .pollCompletion :: rest, .poll _ ret status => st.poll s rest status ret
    | _, _ => none

/-- **A step of the system.** -/
def next (st : OsState ρ) (l : OsLabel) : Option (OsState ρ) :=
  match l with
  | .store s => st.procNext s l
  | .call s _ => st.procNext s l
  | .poll s _ _ => st.procNext s l
  | .device s ev => (st.conn.next s ev).map fun conn => { st with conn := conn }

end OsState

/-- Both processes have passed the synchronization. -/
def osStart (script : Side → List (OsCall ρ)) (mem : Side → ρ → List UInt8) : OsState ρ :=
  ⟨fun s => ⟨script s, false⟩, MsgConn.start mem⟩

/-- **Two scripts on one connection.** -/
def osLts (script : Side → List (OsCall ρ)) (mem : Side → ρ → List UInt8) :
    Lts (OsState ρ) OsLabel :=
  Lts.ofFun (· = osStart script mem) OsState.next

end System

/-! ### rdma_write -/

/-- The buffers of the two programs; `local_hdr` is a variable of the client of
rdma_read. -/
inductive OsBuf
  | dataBuf
  | notifyBuf
  | localHdr
  deriving DecidableEq, Repr

/-- `NOTIFY_SIZE`. -/
def notifySize : ℕ := 16

/-- The byte order of the hosts, and the sizes of the two data buffers. -/
structure OsCfg where
  order : ByteOrder
  size : Side → ℕ

section Programs

variable (cfg : OsCfg)

/-- `calloc` has cleared the buffers. -/
def OsCfg.mem (s : Side) : OsBuf → List UInt8
  | .dataBuf => List.replicate (cfg.size s) 0
  | .notifyBuf => List.replicate notifySize 0
  | .localHdr => List.replicate headerSize 0

/-- The text the client of rdma_write writes. -/
def writeText : List UInt8 :=
  ascii ("Hello from RDMA Write! This data was written directly " ++
    "into the server's memory without any CPU involvement " ++ "on the server side.")

/-- `NOTIFY_MSG`. -/
def notifyMsg : List UInt8 := ascii "WRITE_DONE"

/-- `strncpy` of a text into `notify_buf`. -/
def storeNotify (text : List UInt8) : OsCall OsBuf :=
  .store .notifyBuf fun mem => Stream.overlay (mem .notifyBuf) 0 (strncpy text notifySize)

/-- **The data phase of rdma_write.** -/
def writeScript : Side → List (OsCall OsBuf)
  | .server => [.postRecv ⟨2, .notifyBuf, notifySize⟩, .pollCompletion]
  | .client =>
    [.store .dataBuf fun mem => snprintf (mem .dataBuf) (cfg.size .client) writeText,
      .postSend 0 (.rdmaWrite .dataBuf 0) .dataBuf fun mem => strlen (mem .dataBuf) 0 + 1,
      .pollCompletion,
      storeNotify notifyMsg,
      .postSend 1 .send .notifyBuf fun _ => notifySize,
      .pollCompletion]

/-- rdma_write. -/
def writeLts : Lts (OsState OsBuf) OsLabel := osLts (writeScript cfg) cfg.mem

/-! ### rdma_read -/

/-- A part of the record of the server is stored. -/
def storeRecord (off : ℕ) (bytes : List UInt8) : OsCall OsBuf :=
  .store .dataBuf fun mem => Stream.overlay (mem .dataBuf) off bytes

/-- `local_hdr.payload_len`. -/
def OsCfg.payloadLen (mem : OsBuf → List UInt8) : ℕ :=
  (DataHeader.ofBytes cfg.order (mem .localHdr)).payloadLen.toNat

/-- **The data phase of rdma_read.** The check of the magic number may go either way: the
words of a read may be from different moments. -/
def readScript : Side → List (OsCall OsBuf)
  | .server =>
    [storeRecord 0 (u32Bytes cfg.order dataHeader.magic),
      storeRecord 4 (u32Bytes cfg.order dataHeader.payloadLen),
      storeRecord 8 (u64Bytes cfg.order dataHeader.sequence),
      storeRecord headerSize (strncpy message (cfg.size .server - headerSize)),
      .postRecv ⟨0, .notifyBuf, notifySize⟩,
      .pollCompletion]
  | .client =>
    [.check,
      .postSend 10 (.rdmaRead .dataBuf 0) .localHdr fun _ => headerSize,
      .pollCompletion,
      .check,
      .store .dataBuf fun _ => List.replicate (cfg.size .client) 0,
      .postSend 11 (.rdmaRead .dataBuf headerSize) .dataBuf cfg.payloadLen,
      .pollCompletion,
      storeNotify (ascii "READ_DONE"),
      .postSend 0 .send .notifyBuf fun _ => notifySize,
      .pollCompletion]

/-- rdma_read. -/
def oneSidedReadLts : Lts (OsState OsBuf) OsLabel := osLts (readScript cfg) cfg.mem

end Programs

end RdmaBook
