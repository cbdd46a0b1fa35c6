import RdmaBook.Common.Info
import RdmaBook.Lib.Lts
import RdmaBook.Lib.Stream

/-!
# The out-of-band handshake

What rc_pingpong, rdma_write and rdma_read do over TCP before their first work
request: exchange the `qp_info`, in two of them the `mr_info` as well, bring the
queue pair up, and exchange one sync byte. The three messages follow each other on
one stream without any mark between them, and the kernel cuts the stream as it
likes: the label of a step says how many bytes a call of `write` or `read` has
moved, or that it was interrupted.

`RdmaBook.oobNext` is one step of one process on its two streams, and
`RdmaBook.oobLts` two processes that write to each other. The invariant
(`RdmaBook.OobInv`) says that a stream is a window of the script of its writer
(`RdmaBook.Host.script`) between the places that the two program counters stand
for, and that everything a process has stored is decided by its program counter.
-/

namespace RdmaBook

/-! ### The programs -/

/-- What the three programs differ in. -/
structure OobProgram where
  /-- `exchange_mr_info` is called. -/
  exchangesMr : Bool
  accessFlags : AccessFlags
  maxDestRdAtomic : ℕ
  maxRdAtomic : ℕ

/-- rc_pingpong: send and receive only. -/
def rcPingpong : OobProgram where
  exchangesMr := false
  accessFlags := { localWrite := false, remoteWrite := false, remoteRead := false }
  maxDestRdAtomic := 0
  maxRdAtomic := 0

/-- rdma_write: the peer may write. -/
def rdmaWrite : OobProgram where
  exchangesMr := true
  accessFlags := { localWrite := false, remoteWrite := true, remoteRead := false }
  maxDestRdAtomic := 0
  maxRdAtomic := 0

/-- rdma_read: the peer may read, four reads at a time. -/
def rdmaRead : OobProgram where
  exchangesMr := true
  accessFlags := { localWrite := false, remoteWrite := false, remoteRead := true }
  maxDestRdAtomic := 4
  maxRdAtomic := 4

/-- What a process has got from its device, the generator of its packet sequence
number and its options. -/
structure Host where
  qpNum : UInt32
  lid : UInt16
  gid : Gid
  lrand48 : ℕ
  mrAddr : UInt64
  mrRkey : UInt32
  bufSize : UInt32
  ibPort : ℕ
  gidIndex : ℕ

/-- **`get_local_info`**, whose sequence number has 24 bits. -/
def getLocalInfo (host : Host) : QpInfo where
  qpNum := host.qpNum
  lid := host.lid.toUInt32
  psn := UInt32.ofNat (host.lrand48 &&& 0xFFFFFF)
  padding := 0
  gid := host.gid

/-- `local_mr_info`, as `main` fills it. -/
def Host.localMrInfo (host : Host) : MrInfo where
  addr := host.mrAddr
  rkey := host.mrRkey
  length := host.bufSize

/-- `modify_qp_to_init` of the three programs. -/
def modifyQpToInit (prog : OobProgram) (qp : Qp) (ibPort : ℕ) : Option Qp :=
  qp.modify (.init { pkeyIndex := 0, portNum := ibPort, accessFlags := prog.accessFlags })

/-- `modify_qp_to_rtr` of the three programs. -/
def modifyQpToRtr (prog : OobProgram) (qp : Qp) (ibPort : ℕ) (remote : QpInfo) (gidIndex : ℕ) :
    Option Qp :=
  qp.modify (.rtr
    { pathMtu := 1024
      destQpNum := remote.qpNum
      rqPsn := remote.psn
      maxDestRdAtomic := prog.maxDestRdAtomic
      minRnrTimer := 12
      ah :=
        { dlid := remote.lid.toUInt16
          dgid := remote.gid
          sgidIndex := gidIndex
          hopLimit := 1
          portNum := ibPort } })

/-- `modify_qp_to_rts` of the three programs. -/
def modifyQpToRts (prog : OobProgram) (qp : Qp) (localPsn : UInt32) : Option Qp :=
  qp.modify (.rts
    { sqPsn := localPsn
      timeout := 14
      retryCnt := 7
      rnrRetry := 7
      maxRdAtomic := prog.maxRdAtomic })

/-! ### One process -/

/-- The two records that are exchanged. -/
inductive OobMsg
  | qp
  | mr
  deriving DecidableEq, Repr

/-- Where a process stands. -/
inductive OobPc
  /-- In `write_all`, at its loop test: the offset of `p`, and `remaining`. -/
  | writeAll (msg : OobMsg) (off remaining : ℕ)
  /-- In `read_all`, at its loop test: the bytes stored, and `remaining`. -/
  | readAll (msg : OobMsg) (got : List UInt8) (remaining : ℕ)
  /-- Before `modify_qp_to_init`. -/
  | toInit
  /-- Before `modify_qp_to_rtr`. -/
  | toRtr
  /-- Before `modify_qp_to_rts`. -/
  | toRts
  /-- Before the `write` of the sync byte. -/
  | syncWrite
  /-- Before the `read` of the sync byte. -/
  | syncRead
  /-- Past the sync. -/
  | synced
  /-- A check has ended the process. -/
  | exited
  deriving DecidableEq, Repr

/-- A process: what it has stored of the peer, its queue pair, and the byte its
sync has read. -/
structure OobProc where
  pc : OobPc
  remoteQpInfo : Option QpInfo
  remoteMrInfo : Option MrInfo
  qp : Qp
  sync : Option UInt8
  deriving DecidableEq

/-- What a call of `write` or `read` returns. -/
inductive IoResult
  /-- This many bytes have been moved; none at all is the end of the stream. -/
  | done (n : ℕ)
  /-- The call was interrupted by a signal. -/
  | eintr
  /-- Any other error. -/
  | failed
  deriving DecidableEq, Repr

/-- What happens in a step of a process. -/
inductive OobLabel
  /-- The process moves on without a call. -/
  | cpu
  | write (ret : IoResult)
  | read (ret : IoResult)
  /-- `ibv_modify_qp` returns, `true` for success. -/
  | modify (ok : Bool)
  deriving DecidableEq, Repr

/-- `'R'`. -/
def syncByte : UInt8 := 82

/-- `sizeof` of the record. -/
def OobMsg.size : OobMsg → ℕ
  | .qp => 32
  | .mr => 16

section Process

variable (prog : OobProgram) (order : ByteOrder) (host : Host)

/-- The memory `write_all` is given. -/
def Host.msg : OobMsg → List UInt8
  | .qp => (getLocalInfo host).toBytes order
  | .mr => host.localMrInfo.toBytes order

/-- What follows `read_all`: the record is in place, and the next exchange or the
first transition comes. -/
def OobProc.store (p : OobProc) (got : List UInt8) : OobMsg → OobProc
  | .qp =>
    { p with
      remoteQpInfo := some (QpInfo.ofBytes order got)
      pc := if prog.exchangesMr then .writeAll .mr 0 OobMsg.mr.size else .toInit }
  | .mr => { p with remoteMrInfo := some (MrInfo.ofBytes order got), pc := .toInit }

/-- A step without a call: leaving one of the two loops. -/
def oobCpu (p : OobProc) : Option OobProc :=
  match p.pc with
  | .writeAll msg _ remaining =>
    if 0 < remaining then none else some { p with pc := .readAll msg [] msg.size }
  | .readAll msg got remaining =>
    if 0 < remaining then none else some (p.store prog order got msg)
  | _ => none

/-- A `write` on the stream `out`. In `write_all` an interrupted call is made again
and a short one is continued; the result of the call for the sync byte is not
looked at. -/
def oobWrite (p : OobProc) (out : List UInt8) (ret : IoResult) : Option (OobProc × List UInt8) :=
  match p.pc with
  | .writeAll msg off remaining =>
    if 0 < remaining then
      match ret with
      | .done n =>
        if n = 0 then some ({ p with pc := .exited }, out)
        else if n ≤ remaining then
          some ({ p with pc := .writeAll msg (off + n) (remaining - n) },
            out ++ ((host.msg order msg).drop off).take n)
        else none
      | .eintr => some (p, out)
      | .failed => some ({ p with pc := .exited }, out)
    else none
  | .syncWrite =>
    match ret with
    | .done n => if n ≤ 1 then some ({ p with pc := .syncRead }, out ++ [syncByte].take n) else none
    | _ => some ({ p with pc := .syncRead }, out)
  | _ => none

/-- A `read` on the stream `inp`. In `read_all` the end of the stream is an error;
the result of the call for the sync byte is not looked at. -/
def oobRead (p : OobProc) (inp : List UInt8) (ret : IoResult) : Option (OobProc × List UInt8) :=
  match p.pc with
  | .readAll msg got remaining =>
    if 0 < remaining then
      match ret with
      | .done n =>
        if n = 0 then some ({ p with pc := .exited }, inp)
        else if n ≤ remaining ∧ n ≤ inp.length then
          some ({ p with pc := .readAll msg (got ++ inp.take n) (remaining - n) }, inp.drop n)
        else none
      | .eintr => some (p, inp)
      | .failed => some ({ p with pc := .exited }, inp)
    else none
  | .syncRead =>
    match ret with
    | .done n =>
      if n ≤ 1 ∧ n ≤ inp.length then
        some ({ p with pc := .synced, sync := (inp.take n).head? }, inp.drop n)
      else none
    | _ => some ({ p with pc := .synced }, inp)
  | _ => none

/-- A transition of the queue pair; a refused one is fatal. -/
def oobModify (p : OobProc) (ok : Bool) : Option OobProc :=
  let next (pc : OobPc) (qp : Option Qp) : OobProc :=
    match ok, qp with
    | true, some qp => { p with pc := pc, qp := qp }
    | _, _ => { p with pc := .exited }
  match p.pc, p.remoteQpInfo with
  | .toInit, _ => some (next .toRtr (modifyQpToInit prog p.qp host.ibPort))
  | .toRtr, some remote =>
    some (next .toRts (modifyQpToRtr prog p.qp host.ibPort remote host.gidIndex))
  | .toRts, _ => some (next .syncWrite (modifyQpToRts prog p.qp (getLocalInfo host).psn))
  | _, _ => none

/-- **One step of a process** on the stream it reads and the one it writes. -/
def oobNext (p : OobProc) (inp out : List UInt8) :
    OobLabel → Option (OobProc × List UInt8 × List UInt8)
  | .cpu => (oobCpu prog order p).map fun p' => (p', inp, out)
  | .write ret => (oobWrite order host p out ret).map fun r => (r.1, inp, r.2)
  | .read ret => (oobRead p inp ret).map fun r => (r.1, r.2, out)
  | .modify ok => (oobModify prog host p ok).map fun p' => (p', inp, out)

/-- A process before its first exchange. -/
def oobStart : OobProc where
  pc := .writeAll .qp 0 OobMsg.qp.size
  remoteQpInfo := none
  remoteMrInfo := none
  qp := ⟨host.qpNum, .reset⟩
  sync := none

end Process

/-! ### Two processes -/

/-- The processes, and the bytes each has written that the other has not read. -/
structure OobState where
  proc : Side → OobProc
  wire : Side → List UInt8

section System

variable (prog : OobProgram) (order : ByteOrder) (host : Side → Host)

/-- A step of one of the two processes. -/
def oobSysNext (st : OobState) (l : Side × OobLabel) : Option OobState :=
  (oobNext prog order (host l.1) (st.proc l.1) (st.wire l.1.other) (st.wire l.1) l.2).map fun r =>
    { proc := Function.update st.proc l.1 r.1
      wire := Function.update (Function.update st.wire l.1.other r.2.1) l.1 r.2.2 }

/-- **The handshake** of two processes of one program, on hosts of one byte order. -/
def oobLts : Lts OobState (Side × OobLabel) :=
  Lts.ofFun (· = { proc := fun s => oobStart (host s), wire := fun _ => [] })
    (oobSysNext prog order host)

end System

/-- **No call fails in the step.** A call inside `write_all` or `read_all` may be
interrupted, and may move any positive number of bytes. -/
def OobLabel.Ok (p : OobProc) : OobLabel → Prop
  | .cpu => True
  | .modify ok => ok = true
  | .write ret =>
    match ret with
    | .done n => 0 < n
    | .eintr => p.pc ≠ .syncWrite
    | .failed => False
  | .read ret =>
    match ret with
    | .done n => 0 < n
    | .eintr => p.pc ≠ .syncRead
    | .failed => False

instance (p : OobProc) : DecidablePred (OobLabel.Ok p)
  | .cpu => inferInstanceAs (Decidable True)
  | .modify ok => inferInstanceAs (Decidable (ok = true))
  | .write (.done n) => inferInstanceAs (Decidable (0 < n))
  | .write .eintr => inferInstanceAs (Decidable (p.pc ≠ .syncWrite))
  | .write .failed => inferInstanceAs (Decidable False)
  | .read (.done n) => inferInstanceAs (Decidable (0 < n))
  | .read .eintr => inferInstanceAs (Decidable (p.pc ≠ .syncRead))
  | .read .failed => inferInstanceAs (Decidable False)

/-- The runs of the handshake in which no call fails. -/
def OobNoFailure (st : OobState) (l : Side × OobLabel) : Prop := l.2.Ok (st.proc l.1)

instance (st : OobState) (l : Side × OobLabel) : Decidable (OobNoFailure st l) :=
  inferInstanceAs (Decidable (l.2.Ok (st.proc l.1)))

/-! ### The script of a process -/

/-- The place of a record in the stream. -/
def OobMsg.start : OobMsg → ℕ
  | .qp => 0
  | .mr => 32

/-- The record is exchanged by the program. -/
def OobMsg.Sent (prog : OobProgram) (msg : OobMsg) : Prop := msg = .mr → prog.exchangesMr = true

/-- The place of the sync byte. -/
def OobProgram.syncPlace (prog : OobProgram) : ℕ := if prog.exchangesMr then 48 else 32

/-- **What a process writes in all**: its records, and the sync byte. -/
def Host.script (prog : OobProgram) (order : ByteOrder) (host : Host) : List UInt8 :=
  host.msg order .qp ++ ((if prog.exchangesMr then host.msg order .mr else []) ++ [syncByte])

/-- The number of bytes a process has written where it stands. -/
def OobPc.sent (prog : OobProgram) : OobPc → ℕ
  | .writeAll msg off _ => msg.start + off
  | .readAll msg _ _ => msg.start + msg.size
  | .syncRead => prog.syncPlace + 1
  | .synced => prog.syncPlace + 1
  | _ => prog.syncPlace

/-- The number of bytes a process has read where it stands. -/
def OobPc.received (prog : OobProgram) : OobPc → ℕ
  | .writeAll msg _ _ => msg.start
  | .readAll msg got _ => msg.start + got.length
  | .synced => prog.syncPlace + 1
  | _ => prog.syncPlace

section Script

variable {prog : OobProgram} {order : ByteOrder} {host : Host} {msg : OobMsg}

variable (order host) in
theorem Host.length_msg (msg : OobMsg) : (host.msg order msg).length = msg.size := by
  cases msg with
  | qp => exact QpInfo.length_toBytes _
  | mr => exact MrInfo.length_toBytes _

variable (order host) in
/-- A record that is exchanged stands at its place of the script. -/
theorem Host.script_split (h : msg.Sent prog) : ∃ before after,
    host.script prog order = before ++ host.msg order msg ++ after ∧
      before.length = msg.start := by
  cases msg with
  | qp => exact ⟨[], _, by rw [List.nil_append]; rfl, rfl⟩
  | mr =>
    have hmr := h rfl
    refine ⟨host.msg order .qp, [syncByte], ?_, Host.length_msg order host .qp⟩
    rw [Host.script, if_pos hmr, List.append_assoc]

variable (order host) in
/-- The script at the place of a record. -/
theorem Host.script_at (h : msg.Sent prog) (off n : ℕ) (hn : off + n ≤ msg.size) :
    ((host.script prog order).drop (msg.start + off)).take n =
      ((host.msg order msg).drop off).take n := by
  obtain ⟨before, after, heq, hlen⟩ := Host.script_split order host h
  rw [heq, ← hlen, Stream.drop_take_middle (by rwa [Host.length_msg])]

/-- The window of a record is its memory. -/
theorem Host.window_script (h : msg.Sent prog) :
    Stream.window (host.script prog order) msg.start (msg.start + msg.size) =
      host.msg order msg := by
  obtain ⟨before, after, heq, hlen⟩ := Host.script_split order host h
  rw [heq, ← hlen, ← Host.length_msg order host msg, Stream.window_middle]

/-- The script ends with the sync byte. -/
theorem Host.script_sync :
    (host.script prog order).drop prog.syncPlace = [syncByte] := by
  rw [Host.script, OobProgram.syncPlace]
  split
  · rw [← List.append_assoc]
    exact List.drop_left' (by rw [List.length_append, Host.length_msg, Host.length_msg]; rfl)
  · rw [List.nil_append]
    exact List.drop_left' (Host.length_msg order host .qp)

/-- The places of a record are before the sync byte. -/
theorem OobMsg.end_le (h : msg.Sent prog) : msg.start + msg.size ≤ prog.syncPlace := by
  rw [OobProgram.syncPlace]
  cases msg with
  | qp =>
    rw [OobMsg.start, OobMsg.size]
    split <;> omega
  | mr => rw [if_pos (h rfl), OobMsg.start, OobMsg.size]

end Script

/-! ### The invariant of a process -/

/-- The queue pair of a process where it stands, if the peer's record is known. -/
def OobPc.expectedQp (prog : OobProgram) (mine peer : Host) : OobPc → Option Qp
  | .toRtr => modifyQpToInit prog ⟨mine.qpNum, .reset⟩ mine.ibPort
  | .toRts =>
    (modifyQpToInit prog ⟨mine.qpNum, .reset⟩ mine.ibPort).bind fun qp =>
      modifyQpToRtr prog qp mine.ibPort (getLocalInfo peer) mine.gidIndex
  | .syncWrite | .syncRead | .synced =>
    ((modifyQpToInit prog ⟨mine.qpNum, .reset⟩ mine.ibPort).bind fun qp =>
      modifyQpToRtr prog qp mine.ibPort (getLocalInfo peer) mine.gidIndex).bind fun qp =>
        modifyQpToRts prog qp (getLocalInfo mine).psn
  | _ => some ⟨mine.qpNum, .reset⟩

/-- The record of the peer is in place. -/
def OobPc.knows : OobPc → OobMsg → Bool
  | .writeAll .qp _ _, _ => false
  | .readAll .qp _ _, _ => false
  | .writeAll .mr _ _, msg => msg == .qp
  | .readAll .mr _ _, msg => msg == .qp
  | _, _ => true

/-- The counters of the two loops, and what `read_all` has stored. -/
def OobPc.Placed (prog : OobProgram) (order : ByteOrder) (peer : Host) : OobPc → Prop
  | .writeAll msg off remaining => msg.Sent prog ∧ off + remaining = msg.size
  | .readAll msg got remaining => msg.Sent prog ∧ got.length + remaining = msg.size ∧
      got = Stream.window (peer.script prog order) msg.start (msg.start + got.length)
  | .exited => False
  | _ => True

/-- **The invariant of a process**: everything it has stored is decided by where it
stands. -/
structure OobProcOk (prog : OobProgram) (order : ByteOrder) (mine peer : Host) (p : OobProc) :
    Prop where
  placed : p.pc.Placed prog order peer
  remoteQpInfo : p.remoteQpInfo = if p.pc.knows .qp then some (getLocalInfo peer) else none
  remoteMrInfo : p.remoteMrInfo =
    if prog.exchangesMr = true ∧ p.pc.knows .mr = true then some peer.localMrInfo else none
  qp : some p.qp = p.pc.expectedQp prog mine peer
  sync : p.sync = if p.pc = .synced then some syncByte else none

section Process

variable {prog : OobProgram} {order : ByteOrder} {mine peer : Host} {p p' : OobProc}
  {inp out inp' out' : List UInt8} {l : OobLabel}

theorem oobProcOk_start (prog : OobProgram) (order : ByteOrder) (mine peer : Host) :
    OobProcOk prog order mine peer (oobStart mine) where
  placed := ⟨nofun, rfl⟩
  remoteQpInfo := rfl
  remoteMrInfo := by simp [oobStart, OobPc.knows]
  qp := rfl
  sync := rfl

/-- **A process between its two streams**: `t` bytes of the script of the peer have
been written, and `r` bytes of its own have been read by the peer. -/
structure OobLinked (prog : OobProgram) (order : ByteOrder) (mine peer : Host) (r t : ℕ)
    (p : OobProc) (inp out : List UInt8) : Prop where
  proc : OobProcOk prog order mine peer p
  received_le : p.pc.received prog ≤ t
  inp_eq : inp = Stream.window (peer.script prog order) (p.pc.received prog) t
  le_sent : r ≤ p.pc.sent prog
  out_eq : out = Stream.window (mine.script prog order) r (p.pc.sent prog)

variable {r t : ℕ}

/-- **What a process stores of a record of its peer** is that record; it goes on behind the
record in both streams. -/
theorem OobProcOk.store {msg : OobMsg} {got : List UInt8} {remaining : ℕ}
    (h : OobProcOk prog order mine peer p) (hpc : p.pc = .readAll msg got remaining)
    (hin : msg = .mr → prog.exchangesMr = true) {q : OobProc}
    (hq : q = p.store prog order (peer.msg order msg) msg) :
    OobProcOk prog order mine peer q ∧ q.pc.received prog = msg.start + msg.size ∧
      q.pc.sent prog = msg.start + msg.size := by
  subst hq
  obtain ⟨-, hqp, hmr, hstate, hsync⟩ := h
  simp only [hpc] at hqp hmr hstate hsync
  cases msg with
  | mr =>
    have hex := hin rfl
    have hplace : prog.syncPlace = OobMsg.mr.start + OobMsg.mr.size := by
      rw [OobProgram.syncPlace, if_pos hex]
      rfl
    have hmr' : some (MrInfo.ofBytes order (peer.msg order .mr)) = some peer.localMrInfo :=
      congrArg some (MrInfo.ofBytes_toBytes peer.localMrInfo)
    have hstore : p.store prog order (peer.msg order .mr) .mr = { p with
        remoteMrInfo := some (MrInfo.ofBytes order (peer.msg order .mr))
        pc := .toInit } := rfl
    rw [hstore]
    exact ⟨⟨trivial, hqp, by simpa [OobPc.knows, hex] using hmr', hstate, by simpa using hsync⟩,
      hplace, hplace⟩
  | qp =>
    have hqp' : some (QpInfo.ofBytes order (peer.msg order .qp)) = some (getLocalInfo peer) :=
      congrArg some (QpInfo.ofBytes_toBytes (getLocalInfo peer))
    by_cases hex : prog.exchangesMr = true
    · -- the memory region comes next
      have hstore : p.store prog order (peer.msg order .qp) .qp = { p with
          remoteQpInfo := some (QpInfo.ofBytes order (peer.msg order .qp))
          pc := .writeAll .mr 0 OobMsg.mr.size } := by
        rw [OobProc.store, if_pos hex]
      rw [hstore]
      exact ⟨⟨⟨fun _ => hex, rfl⟩, hqp', by simpa [OobPc.knows] using hmr,
        hstate, by simpa using hsync⟩, rfl, rfl⟩
    · have hplace : prog.syncPlace = OobMsg.qp.start + OobMsg.qp.size := by
        rw [OobProgram.syncPlace, if_neg hex]
        rfl
      have hstore : p.store prog order (peer.msg order .qp) .qp = { p with
          remoteQpInfo := some (QpInfo.ofBytes order (peer.msg order .qp))
          pc := .toInit } := by
        rw [OobProc.store, if_neg hex]
      rw [hstore]
      exact ⟨⟨trivial, hqp', by simpa [OobPc.knows, hex] using hmr, hstate, by simpa using hsync⟩,
        hplace, hplace⟩

/-- Leaving a loop moves no byte. -/
theorem OobLinked.cpu (h : OobLinked prog order mine peer r t p inp out)
    (hs : oobCpu prog order p = some p') : OobLinked prog order mine peer r t p' inp out := by
  obtain ⟨hproc, hrec, hinp, hsent, hout⟩ := h
  have hplaced := hproc.placed
  unfold oobCpu at hs
  split at hs
  · -- `write_all` is done: the whole record has been written
    rename_i msg off remaining hpc
    split at hs
    · cases hs
    · rename_i hrem
      obtain rfl := Option.some.inj hs
      obtain ⟨-, hqp, hmr, hstate, hsync⟩ := hproc
      simp only [hpc] at hplaced hqp hmr hstate hsync hrec hinp hsent hout
      obtain ⟨hin, hsum⟩ := hplaced
      have hoff : off = msg.size := by omega
      subst hoff
      refine ⟨⟨⟨hin, Nat.zero_add _, (Stream.window_self _ _).symm⟩, ?_, ?_, hstate, ?_⟩, hrec,
        hinp, hsent, hout⟩
      · cases msg <;> exact hqp
      · cases msg <;> exact hmr
      · simpa using hsync
  · -- `read_all` is done: what it has stored is the memory of the record
    rename_i msg got remaining hpc
    split at hs
    · cases hs
    · rename_i hrem
      obtain rfl := Option.some.inj hs
      simp only [hpc] at hplaced hrec hinp hsent hout
      obtain ⟨hin, hsum, hgot⟩ := hplaced
      have hlen : got.length = msg.size := by omega
      rw [hlen, Host.window_script hin] at hgot
      subst hgot
      rw [OobPc.received, hlen] at hrec hinp
      obtain ⟨hstore, hreceived, hsent'⟩ := hproc.store hpc hin rfl
      exact ⟨hstore, hreceived ▸ hrec, hreceived ▸ hinp, hsent' ▸ hsent, hsent' ▸ hout⟩
  · cases hs

/-- **Writing**: the script of the process goes on where it stands. -/
theorem OobLinked.write (h : OobLinked prog order mine peer r t p inp out) {ret : IoResult}
    (hok : (OobLabel.write ret).Ok p) (hs : oobWrite order mine p out ret = some (p', out')) :
    OobLinked prog order mine peer r t p' inp out' := by
  have hwhole := h
  obtain ⟨⟨hplaced, hqp, hmr, hstate, hsync⟩, hrec, hinp, hsent, hout⟩ := h
  unfold oobWrite at hs
  split at hs
  · rename_i msg off remaining hpc
    split at hs
    · cases ret with
      | done n =>
        have hn : 0 < n := hok
        simp only [Nat.pos_iff_ne_zero.mp hn, if_false] at hs
        split at hs
        · rename_i hle
          obtain ⟨rfl, rfl⟩ := Prod.mk.inj (Option.some.inj hs)
          simp only [hpc] at hplaced hqp hmr hstate hsync hrec hinp hsent hout
          obtain ⟨hin, hsum⟩ := hplaced
          rw [OobPc.sent] at hsent hout
          refine ⟨⟨⟨hin, by omega⟩, ?_, ?_, hstate, by simpa using hsync⟩, hrec, hinp, ?_, ?_⟩
          · cases msg <;> exact hqp
          · cases msg <;> exact hmr
          · rw [OobPc.sent]
            omega
          · rw [OobPc.sent, ← Nat.add_assoc, ← Stream.window_write hsent, ← hout,
              Host.script_at _ _ hin _ _ (by omega)]
        · cases hs
      | eintr =>
        obtain ⟨rfl, rfl⟩ := Prod.mk.inj (Option.some.inj hs)
        exact hwhole
      | failed => exact absurd hok id
    · cases hs
  · rename_i hpc
    cases ret with
    | done n =>
      have hn : 0 < n := hok
      simp only at hs
      split at hs
      · obtain ⟨rfl, rfl⟩ := Prod.mk.inj (Option.some.inj hs)
        obtain rfl : n = 1 := by omega
        simp only [hpc] at hplaced hqp hmr hstate hsync hrec hinp hsent hout
        have hsent' : r ≤ prog.syncPlace := hsent
        have hout' : out = Stream.window (mine.script prog order) r prog.syncPlace := hout
        refine ⟨⟨trivial, hqp, hmr, hstate, by simpa using hsync⟩, hrec, hinp, ?_, ?_⟩
        · rw [OobPc.sent]
          omega
        · rw [OobPc.sent, ← Stream.window_write hsent', ← hout', Host.script_sync]
      · cases hs
    | eintr => exact absurd hpc hok
    | failed => exact absurd hok id
  · cases hs

/-- **Reading**: what comes is the script of the peer, from where the process
stands. -/
theorem OobLinked.read (h : OobLinked prog order mine peer r t p inp out) {ret : IoResult}
    (hok : (OobLabel.read ret).Ok p) (hs : oobRead p inp ret = some (p', inp')) :
    OobLinked prog order mine peer r t p' inp' out := by
  have hwhole := h
  obtain ⟨⟨hplaced, hqp, hmr, hstate, hsync⟩, hrec, hinp, hsent, hout⟩ := h
  have hlen : inp.length ≤ t - p.pc.received prog := by
    rw [hinp]
    exact Stream.length_window_le _ _ _
  unfold oobRead at hs
  split at hs
  · rename_i msg got remaining hpc
    split at hs
    · cases ret with
      | done n =>
        have hn : 0 < n := hok
        simp only [Nat.pos_iff_ne_zero.mp hn, if_false] at hs
        split at hs
        · rename_i hle
          obtain ⟨rfl, rfl⟩ := Prod.mk.inj (Option.some.inj hs)
          simp only [hpc] at hplaced hqp hmr hstate hsync hrec hinp hsent hout hlen
          obtain ⟨hin, hsum, hgot⟩ := hplaced
          rw [OobPc.received] at hrec hinp hlen
          have hroom : msg.start + got.length + n ≤ t := by omega
          have htake := Stream.take_window (l := peer.script prog order) hroom
          rw [← hinp] at htake
          have hglen : (got ++ inp.take n).length = got.length + n := by
            rw [List.length_append, List.length_take]
            omega
          refine ⟨⟨⟨hin, by omega, ?_⟩, ?_, ?_, hstate, by simpa using hsync⟩, ?_, ?_, hsent, hout⟩
          · rw [hglen, htake, ← Nat.add_assoc,
              ← Stream.window_append (Nat.le_add_right msg.start got.length) (Nat.le_add_right _ n),
              ← hgot]
          · cases msg <;> exact hqp
          · cases msg <;> exact hmr
          · rw [OobPc.received, hglen]
            omega
          · rw [OobPc.received, hglen, ← Nat.add_assoc, ← Stream.drop_window, ← hinp]
        · cases hs
      | eintr =>
        obtain ⟨rfl, rfl⟩ := Prod.mk.inj (Option.some.inj hs)
        exact hwhole
      | failed => exact absurd hok id
    · cases hs
  · rename_i hpc
    cases ret with
    | done n =>
      have hn : 0 < n := hok
      simp only at hs
      split at hs
      · rename_i hle
        obtain ⟨rfl, rfl⟩ := Prod.mk.inj (Option.some.inj hs)
        obtain rfl : n = 1 := by omega
        simp only [hpc] at hplaced hqp hmr hstate hsync hrec hinp hsent hout hlen
        have hlen' : inp.length ≤ t - prog.syncPlace := hlen
        have hinp' : inp = Stream.window (peer.script prog order) prog.syncPlace t := hinp
        have hroom : prog.syncPlace + 1 ≤ t := by omega
        -- the byte after the records is the sync byte of the peer
        have hbyte : inp.take 1 = [syncByte] := by
          rw [hinp', Stream.take_window hroom, Stream.window, Host.script_sync,
            Nat.add_sub_cancel_left]
          rfl
        refine ⟨⟨trivial, hqp, hmr, hstate, ?_⟩, hroom, ?_, hsent, hout⟩
        · rw [hbyte]
          rfl
        · rw [hinp', OobPc.received, Stream.drop_window]
      · cases hs
    | eintr => exact absurd hpc hok
    | failed => exact absurd hok id
  · cases hs

/-- Where a process stands, its queue pair exists. -/
theorem OobPc.exists_expectedQp (prog : OobProgram) (mine peer : Host) (pc : OobPc) :
    ∃ qp, pc.expectedQp prog mine peer = some qp := by
  cases pc <;> exact ⟨_, rfl⟩

/-- **A transition of the queue pair** is made from the state before it, with the
record of the peer. -/
theorem OobLinked.modify (h : OobLinked prog order mine peer r t p inp out)
    (hs : oobModify prog mine p true = some p') :
    OobLinked prog order mine peer r t p' inp out := by
  obtain ⟨⟨hplaced, hqp, hmr, hstate, hsync⟩, hrec, hinp, hsent, hout⟩ := h
  unfold oobModify at hs
  split at hs
  · rename_i hpc
    simp only [hpc] at hplaced hqp hmr hstate hsync hrec hinp hsent hout
    obtain ⟨qp, hqp'⟩ := OobPc.exists_expectedQp prog mine peer .toRtr
    have hinit : modifyQpToInit prog p.qp mine.ibPort = some qp := by
      rw [Option.some.inj hstate]
      exact hqp'
    simp only [hinit] at hs
    obtain rfl := Option.some.inj hs
    exact ⟨⟨trivial, hqp, hmr, hqp'.symm, by simpa using hsync⟩, hrec, hinp, hsent, hout⟩
  · rename_i remote hpc hremote
    simp only [hpc] at hplaced hqp hmr hstate hsync hrec hinp hsent hout
    obtain rfl : getLocalInfo peer = remote := Option.some.inj (hqp.symm.trans hremote)
    obtain ⟨qp, hqp'⟩ := OobPc.exists_expectedQp prog mine peer .toRts
    have hrtr : modifyQpToRtr prog p.qp mine.ibPort (getLocalInfo peer) mine.gidIndex =
        some qp := by
      have hbind : (some p.qp).bind (fun q =>
          modifyQpToRtr prog q mine.ibPort (getLocalInfo peer) mine.gidIndex) = some qp := by
        rw [hstate]
        exact hqp'
      exact hbind
    simp only [hrtr] at hs
    obtain rfl := Option.some.inj hs
    exact ⟨⟨trivial, hqp, hmr, hqp'.symm, by simpa using hsync⟩, hrec, hinp, hsent, hout⟩
  · rename_i hpc
    simp only [hpc] at hplaced hqp hmr hstate hsync hrec hinp hsent hout
    obtain ⟨qp, hqp'⟩ := OobPc.exists_expectedQp prog mine peer .syncWrite
    have hrts : modifyQpToRts prog p.qp (getLocalInfo mine).psn = some qp := by
      have hbind : (some p.qp).bind (fun q =>
          modifyQpToRts prog q (getLocalInfo mine).psn) = some qp := by
        rw [hstate]
        exact hqp'
      exact hbind
    simp only [hrts] at hs
    obtain rfl := Option.some.inj hs
    exact ⟨⟨trivial, hqp, hmr, hqp'.symm, by simpa using hsync⟩, hrec, hinp, hsent, hout⟩
  · cases hs

/-- **Every step of a process keeps its invariant.** -/
theorem OobLinked.step (h : OobLinked prog order mine peer r t p inp out) (hok : l.Ok p)
    (hs : oobNext prog order mine p inp out l = some (p', inp', out')) :
    OobLinked prog order mine peer r t p' inp' out' := by
  cases l with
  | cpu =>
    obtain ⟨p₁, h₁, heq⟩ := Option.map_eq_some_iff.mp hs
    obtain ⟨rfl, rfl, rfl⟩ : p₁ = p' ∧ inp = inp' ∧ out = out' := by simpa using heq
    exact h.cpu h₁
  | write ret =>
    obtain ⟨⟨p₁, out₁⟩, h₁, heq⟩ := Option.map_eq_some_iff.mp hs
    obtain ⟨rfl, rfl, rfl⟩ : p₁ = p' ∧ inp = inp' ∧ out₁ = out' := by simpa using heq
    exact h.write hok h₁
  | read ret =>
    obtain ⟨⟨p₁, inp₁⟩, h₁, heq⟩ := Option.map_eq_some_iff.mp hs
    obtain ⟨rfl, rfl, rfl⟩ : p₁ = p' ∧ inp₁ = inp' ∧ out = out' := by simpa using heq
    exact h.read hok h₁
  | modify ok =>
    obtain ⟨p₁, h₁, heq⟩ := Option.map_eq_some_iff.mp hs
    obtain ⟨rfl, rfl, rfl⟩ : p₁ = p' ∧ inp = inp' ∧ out = out' := by simpa using heq
    obtain rfl : ok = true := hok
    exact h.modify h₁

end Process

/-! ### The invariant of the two processes -/

section System

variable {prog : OobProgram} {order : ByteOrder} {host : Side → Host} {st st' : OobState}

/-- **The invariant**: each process stands between the two streams, and the streams
are the windows between the two program counters. -/
def OobInv (prog : OobProgram) (order : ByteOrder) (host : Side → Host) (st : OobState) : Prop :=
  ∀ s : Side, OobLinked prog order (host s) (host s.other) ((st.proc s.other).pc.received prog)
    ((st.proc s.other).pc.sent prog) (st.proc s) (st.wire s.other) (st.wire s)

/-- What links one process links its peer. -/
theorem OobLinked.swap {mine peer : Host} {p q : OobProc} {inp out : List UInt8}
    (hq : OobProcOk prog order peer mine q)
    (h : OobLinked prog order mine peer (q.pc.received prog) (q.pc.sent prog) p inp out) :
    OobLinked prog order peer mine (p.pc.received prog) (p.pc.sent prog) q out inp where
  proc := hq
  received_le := h.le_sent
  inp_eq := h.out_eq
  le_sent := h.received_le
  out_eq := h.inp_eq

theorem OobInv.step {l : Side × OobLabel} (h : OobInv prog order host st)
    (hok : OobNoFailure st l) (hs : oobSysNext prog order host st l = some st') :
    OobInv prog order host st' := by
  obtain ⟨s, l⟩ := l
  obtain ⟨⟨p', inp', out'⟩, hnext, rfl⟩ := Option.map_eq_some_iff.mp hs
  have hstep := (h s).step hok hnext
  have hpeer := (h s.other).proc
  rw [Side.other_other] at hpeer
  intro t
  have hne := s.other_ne
  rcases s.eq_or_eq_other t with rfl | rfl
  · simpa [Function.update_of_ne hne] using hstep
  · simpa [Function.update_of_ne hne, Function.update_of_ne hne.symm] using hstep.swap hpeer

theorem oobInv_of_reach (h : (oobLts prog order host).Reach OobNoFailure st) :
    OobInv prog order host st := by
  refine h.invariant ?_ fun a l b ha hok hs => ha.step hok hs
  rintro a rfl s
  have hstart := oobProcOk_start prog order
  exact ⟨hstart _ _, Nat.zero_le _, (Stream.window_self _ _).symm, Nat.zero_le _,
    (Stream.window_self _ _).symm⟩

end System

/-! ### What the handshake establishes -/

/-- The sequence number the queue pair expects of its peer: set from RTR on. -/
def Qp.rqPsn (qp : Qp) : Option UInt32 :=
  match qp.state with
  | .rtr _ r => some r.rqPsn
  | .rts _ r _ => some r.rqPsn
  | _ => none

/-- The sequence number the queue pair starts with: set from RTS on. -/
def Qp.sqPsn (qp : Qp) : Option UInt32 :=
  match qp.state with
  | .rts _ _ s => some s.sqPsn
  | _ => none

/-- The sequence numbers have 24 bits. -/
theorem getLocalInfo_psn_lt (host : Host) : (getLocalInfo host).psn.toNat < 2 ^ 24 := by
  have hand : host.lrand48 &&& 0xFFFFFF < 2 ^ 24 := Nat.and_lt_two_pow _ (by decide)
  rw [getLocalInfo, UInt32.toNat_ofNat_of_lt' (by rw [UInt32.size]; omega)]
  exact hand

section Process

variable {prog : OobProgram} {order : ByteOrder} {mine peer : Host} {p : OobProc}

/-- **A queue pair that is ready to send** stands past its last transition, and has
been programmed with the record of the peer. -/
theorem OobProcOk.of_isRts (h : OobProcOk prog order mine peer p) (hrts : p.qp.IsRts) :
    p.qp.destQpNum = some peer.qpNum ∧ p.qp.rqPsn = some (getLocalInfo peer).psn ∧
      p.qp.sqPsn = some (getLocalInfo mine).psn := by
  have hqp := h.qp
  obtain ⟨i, r, s, hst⟩ := hrts
  cases hpc : p.pc with
  | syncWrite | syncRead | synced =>
    rw [hpc] at hqp
    rw [Option.some.inj hqp]
    exact ⟨rfl, rfl, rfl⟩
  | _ =>
    rw [hpc] at hqp
    rw [Option.some.inj hqp] at hst
    cases hst

/-- Past the transitions the queue pair is ready to send. -/
theorem OobProcOk.isRts (h : OobProcOk prog order mine peer p)
    (hpc : p.pc = .syncWrite ∨ p.pc = .syncRead ∨ p.pc = .synced) : p.qp.IsRts := by
  have hqp := h.qp
  rcases hpc with hpc | hpc | hpc <;> rw [hpc] at hqp <;> rw [Option.some.inj hqp] <;>
    exact ⟨_, _, _, rfl⟩

/-- A process that has written its sync byte is past its transitions. -/
theorem OobProcOk.isRts_of_sent (h : OobProcOk prog order mine peer p)
    (hsent : prog.syncPlace + 1 ≤ p.pc.sent prog) : p.qp.IsRts := by
  have hplaced := h.placed
  refine h.isRts ?_
  cases hpc : p.pc with
  | syncWrite => exact Or.inl rfl
  | syncRead => exact Or.inr (Or.inl rfl)
  | synced => exact Or.inr (Or.inr rfl)
  | writeAll msg off remaining =>
    rw [hpc] at hplaced hsent
    have := OobMsg.end_le hplaced.1
    have := hplaced.2
    rw [OobPc.sent] at hsent
    omega
  | readAll msg got remaining =>
    rw [hpc] at hplaced hsent
    have := OobMsg.end_le hplaced.1
    rw [OobPc.sent] at hsent
    omega
  | toInit | toRtr | toRts | exited =>
    rw [hpc] at hsent
    exact absurd hsent (Nat.not_succ_le_self _)

end Process

/-- What `read_all` has stored so far is the beginning of the record. -/
theorem OobProcOk.got_prefix {prog : OobProgram} {order : ByteOrder} {mine peer : Host}
    {p : OobProc} (h : OobProcOk prog order mine peer p) {msg : OobMsg} {got : List UInt8}
    {remaining : ℕ} (hpc : p.pc = .readAll msg got remaining) : got <+: peer.msg order msg := by
  have hplaced := h.placed
  rw [hpc] at hplaced
  obtain ⟨hin, hsum, hgot⟩ := hplaced
  have hat := Host.script_at order peer hin 0 got.length (by omega)
  rw [Nat.add_zero, List.drop_zero] at hat
  rw [Stream.window, Nat.add_sub_cancel_left, hat] at hgot
  rw [hgot]
  exact List.take_prefix _ _

/-- **The handshake gives both sides the same view.** In every run in which no call fails, however
the streams are cut: what is being read for a record is the record of the peer as far as it goes, a
record that is in place is the record the peer has, and both are in place when the queue pair is
brought up; a queue pair that is ready to send has the number and the sequence number of the peer,
both ways; and the byte a sync has read is the sync byte, written by a peer whose queue pair is
ready to send. -/
theorem handshake_agrees (prog : OobProgram) (order : ByteOrder) (host : Side → Host)
    (st : OobState) (h : (oobLts prog order host).Reach OobNoFailure st) (s : Side) :
    (∀ msg got remaining, (st.proc s).pc = .readAll msg got remaining →
      got <+: (host s.other).msg order msg) ∧
    (∀ info, (st.proc s).remoteQpInfo = some info → info = getLocalInfo (host s.other)) ∧
    (∀ info, (st.proc s).remoteMrInfo = some info → info = (host s.other).localMrInfo) ∧
    ((st.proc s).qp.state ≠ .reset → (st.proc s).remoteQpInfo = some (getLocalInfo (host s.other)) ∧
      (prog.exchangesMr = true → (st.proc s).remoteMrInfo = some (host s.other).localMrInfo)) ∧
    ((st.proc s).qp.IsRts →
      (st.proc s).qp.destQpNum = some (host s.other).qpNum ∧
      (∃ psn, (st.proc s).qp.rqPsn = some psn ∧ psn.toNat < 2 ^ 24 ∧
        ((st.proc s.other).qp.IsRts → (st.proc s.other).qp.sqPsn = some psn)) ∧
      ∃ psn, (st.proc s).qp.sqPsn = some psn ∧ psn.toNat < 2 ^ 24 ∧
        ((st.proc s.other).qp.IsRts → (st.proc s.other).qp.rqPsn = some psn)) ∧
    ∀ b, (st.proc s).sync = some b → b = syncByte ∧ (st.proc s.other).qp.IsRts := by
  have hinv := oobInv_of_reach h
  have hme := (hinv s).proc
  have hpeer := (hinv s.other).proc
  rw [Side.other_other] at hpeer
  refine ⟨fun msg got remaining hpc => hme.got_prefix hpc, fun info hinfo => ?_,
    fun info hinfo => ?_, fun hstate => ?_, fun hrts => ?_, fun b hb => ?_⟩
  · rw [hme.remoteQpInfo] at hinfo
    split at hinfo
    · exact (Option.some.inj hinfo).symm
    · cases hinfo
  · rw [hme.remoteMrInfo] at hinfo
    split at hinfo
    · exact (Option.some.inj hinfo).symm
    · cases hinfo
  · -- the queue pair leaves RESET after the exchanges only
    have hknows : ∀ msg, (st.proc s).pc.knows msg = true := by
      intro msg
      have hqp := hme.qp
      have hplaced := hme.placed
      cases hpc : (st.proc s).pc with
      | writeAll | readAll | toInit =>
        rw [hpc] at hqp
        rw [Option.some.inj hqp] at hstate
        exact absurd rfl hstate
      | _ => rfl
    rw [hme.remoteQpInfo, hme.remoteMrInfo, if_pos (hknows .qp)]
    exact ⟨rfl, fun hex => by rw [if_pos ⟨hex, hknows .mr⟩]⟩
  · obtain ⟨hdest, hrq, hsq⟩ := hme.of_isRts hrts
    refine ⟨hdest, ⟨_, hrq, getLocalInfo_psn_lt _, fun hp => (hpeer.of_isRts hp).2.2⟩,
      _, hsq, getLocalInfo_psn_lt _, fun hp => (hpeer.of_isRts hp).2.1⟩
  · rw [hme.sync] at hb
    split at hb
    · rename_i hpc
      -- the sync byte has been read, so the peer has written it
      have hle := (hinv s).received_le
      rw [hpc, OobPc.received] at hle
      exact ⟨(Option.some.inj hb).symm, hpeer.isRts_of_sent hle⟩
    · cases hb

/-! ### A run -/

/-- Two hosts of one kind, with queue pairs 17 and 23. -/
def sampleHosts (s : Side) : Host where
  qpNum := match s with
    | .client => 17
    | .server => 23
  lid := 1
  gid := ⟨List.replicate 16 7, rfl⟩
  lrand48 := 0x12345678
  mrAddr := 4096
  mrRkey := 5
  bufSize := 4096
  ibPort := 1
  gidIndex := 1

/-- The same step of both processes. -/
def both (l : OobLabel) : List (Side × OobLabel) := [(.client, l), (.server, l)]

/-- A run of rdma_read with a short and an interrupted write, in which all records
have been written before the first is read. -/
def sampleHandshake : List (Side × OobLabel) :=
  [.write (.done 20), .write .eintr, .write (.done 12), .cpu, .read (.done 32), .cpu,
    .write (.done 16), .cpu, .read (.done 9), .read (.done 7), .cpu, .modify true, .modify true,
    .modify true, .write (.done 1), .read (.done 1)].flatMap both

/-- Both processes of this run get past the sync, and each is connected to the
other. -/
theorem handshake_agrees_sample : ∃ st,
    (oobLts rdmaRead .little sampleHosts).Reach OobNoFailure st ∧
      (st.proc .client).sync = some syncByte ∧ (st.proc .server).qp.IsRts ∧
      (st.proc .client).qp.destQpNum = some 23 := by
  have hrun : Lts.exec (oobSysNext rdmaRead .little sampleHosts) OobNoFailure
      { proc := fun s => oobStart (sampleHosts s), wire := fun _ => [] } sampleHandshake =
        some _ := rfl
  have hr : (oobLts rdmaRead .little sampleHosts).Reach OobNoFailure _ :=
    ⟨_, rfl, Lts.path_of_exec hrun⟩
  obtain ⟨-, -, -, -, hqp, hsync⟩ :=
    handshake_agrees rdmaRead .little sampleHosts _ hr .client
  exact ⟨_, hr, rfl, (hsync syncByte rfl).2, (hqp ⟨_, _, _, rfl⟩).1⟩

end RdmaBook
