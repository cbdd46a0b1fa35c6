import RdmaBook.Common.Info
import RdmaBook.Lib.CString
import RdmaBook.Lib.Lts
import RdmaBook.Lib.Stream

/-!
# The data phase of rdma_read

The server of rdma_read publishes a record in its registered buffer: a header with a
magic number, the length of the payload and a sequence number, and the payload
behind it. The client reads the header with one RDMA Read, checks the magic number,
and reads as many bytes of the payload as the header says with another.

Both start when they have passed the sync, and the server fills its buffer *after*
it: no step of the server comes before a step of the client. A read in progress
fetches the words it covers one by one, in any order, each as the memory of the
server holds it at that moment.
-/

namespace RdmaBook

open CString

/-! ### The record -/

/-- `struct data_header`. -/
structure DataHeader where
  magic : UInt32
  payloadLen : UInt32
  sequence : UInt64
  deriving DecidableEq

/-- `HEADER_MAGIC`. -/
def headerMagic : UInt32 := 0x52444D41

/-- The text the server publishes. -/
def message : List UInt8 :=
  ascii ("This data was read from the server's memory by the client using RDMA Read. " ++
    "The server's CPU did no work for this transfer.")

/-- The header the server publishes. -/
def dataHeader : DataHeader where
  magic := headerMagic
  payloadLen := UInt32.ofNat (message.length + 1)
  sequence := 42

/-- `sizeof(struct data_header)`. -/
def headerSize : ℕ := 16

/-- The header in some memory. -/
def DataHeader.ofBytes (order : ByteOrder) (bs : List UInt8) : DataHeader where
  magic := u32At order bs 0
  payloadLen := u32At order bs 4
  sequence := u64At order bs 8

/-- The two hosts: their byte order and the sizes of the two data buffers, which are
large enough for the message. -/
structure ReadCfg where
  order : ByteOrder
  serverSize : ℕ
  clientSize : ℕ
  server_fits : headerSize + dataHeader.payloadLen.toNat ≤ serverSize
  client_fits : dataHeader.payloadLen.toNat ≤ clientSize

section Program

variable (cfg : ReadCfg)

/-- The bytes `strncpy` stores behind the header. -/
def ReadCfg.payload : List UInt8 := strncpy message (cfg.serverSize - headerSize)

/-- **What the server finally publishes.** -/
def ReadCfg.published : List UInt8 :=
  u32Bytes cfg.order dataHeader.magic ++ (u32Bytes cfg.order dataHeader.payloadLen ++
    (u64Bytes cfg.order dataHeader.sequence ++ cfg.payload))

/-! ### The server -/

/-- The stores of the server, in their order. -/
inductive ReadServerPc
  | magic
  | payloadLen
  | sequence
  /-- In the `strncpy`, before its byte `k`. -/
  | payload (k : ℕ)
  /-- Everything is stored; the server waits for the notification. -/
  | published
  deriving DecidableEq, Repr

/-- The server, with its data buffer. -/
structure ReadServer where
  pc : ReadServerPc
  mem : List UInt8
  deriving DecidableEq

/-- The next store. -/
def ReadServer.store (s : ReadServer) : Option ReadServer :=
  match s.pc with
  | .magic =>
    some ⟨.payloadLen, Stream.overlay s.mem 0 (u32Bytes cfg.order dataHeader.magic)⟩
  | .payloadLen =>
    some ⟨.sequence, Stream.overlay s.mem 4 (u32Bytes cfg.order dataHeader.payloadLen)⟩
  | .sequence =>
    some ⟨.payload 0, Stream.overlay s.mem 8 (u64Bytes cfg.order dataHeader.sequence)⟩
  | .payload k =>
    if k < cfg.serverSize - headerSize then
      some ⟨.payload (k + 1),
        Stream.overlay s.mem (headerSize + k) (Stream.window cfg.payload k (k + 1))⟩
    else some ⟨.published, s.mem⟩
  | .published => none

/-- The number of bytes the server has stored. -/
def ReadServerPc.stored : ReadServerPc → ℕ
  | .magic => 0
  | .payloadLen => 4
  | .sequence => 8
  | .payload k => headerSize + k
  | .published => cfg.serverSize

/-! ### The client -/

/-- The places of the client. -/
inductive ReadClientPc
  /-- Before `ibv_reg_mr` for the header. -/
  | regHeader
  | postHeader
  /-- In the `poll_completion` for the header. -/
  | pollHeader
  | checkMagic
  | postPayload
  /-- In the `poll_completion` for the payload. -/
  | pollPayload
  /-- The payload has been read. -/
  | received
  /-- The client has ended with "Invalid magic!". -/
  | invalidMagic
  /-- Another check has ended the client. -/
  | exited
  deriving DecidableEq, Repr

/-- The local buffers of the two reads. -/
inductive ReadTarget
  | localHdr
  | dataBuf
  deriving DecidableEq, Repr

/-- An RDMA Read in progress: where it goes, the place in the region of the server,
the number of bytes, and the words it has fetched. -/
structure RdmaReadOp where
  target : ReadTarget
  addr : ℕ
  length : ℕ
  words : List (Option (List UInt8))
  deriving DecidableEq

/-- A read that has been posted: it covers all words with a byte of its range. -/
def RdmaReadOp.start (target : ReadTarget) (addr length : ℕ) : RdmaReadOp :=
  ⟨target, addr, length, List.replicate ((length + 7) / 8) none⟩

/-- The word `j` of the read is fetched. -/
def RdmaReadOp.fetch (op : RdmaReadOp) (j : ℕ) (mem : List UInt8) : Option RdmaReadOp :=
  if op.words[j]? = some none then
    let word := Stream.window mem (op.addr + 8 * j) (op.addr + 8 * j + 8)
    some { op with words := op.words.set j (some word) }
  else none

/-- What the read returns, once every word is fetched. -/
def RdmaReadOp.result (op : RdmaReadOp) : Option (List UInt8) :=
  if op.words.all Option.isSome then
    some ((op.words.map fun w => w.getD []).flatten.take op.length)
  else none

/-- The client: its two buffers, the length it has found in the header, the read it
has posted and the number of completions in its queue. -/
structure ReadClient where
  pc : ReadClientPc
  localHdr : List UInt8
  dataBuf : List UInt8
  payloadLen : UInt32
  op : Option RdmaReadOp
  cqes : ℕ
  deriving DecidableEq

/-- What happens in a step; a call that is checked returns `true` for success. -/
inductive ReadLabel
  /-- The next store of the server. -/
  | store
  /-- `ibv_reg_mr` of the client. -/
  | regMr (ok : Bool)
  /-- `post_rdma_read`. -/
  | post (ok : Bool)
  /-- `ibv_poll_cq`. -/
  | poll (ret : PollRet)
  /-- The client looks at the header. -/
  | cpu
  /-- The read in progress fetches its word `j`. -/
  | fetch (j : ℕ)
  /-- The read in progress completes. -/
  | complete
  deriving DecidableEq, Repr

/-- A call of the client. The check of the magic number, and what comes before the
second read: `payload_len` is taken from the header and the buffer is cleared. -/
def ReadClient.next (c : ReadClient) (l : ReadLabel) : Option ReadClient :=
  match l, c.pc with
  | .regMr ok, .regHeader => some { c with pc := if ok then .postHeader else .exited }
  | .post ok, .postHeader =>
    if ok then
      some { c with pc := .pollHeader, op := some (.start .localHdr 0 headerSize) }
    else some { c with pc := .exited }
  | .cpu, .checkMagic =>
    let hdr := DataHeader.ofBytes cfg.order c.localHdr
    -- the header is read where it has been read to, whatever is there
    if hdr.magic ≠ headerMagic then some { c with pc := .invalidMagic }
    else
      some { c with
        pc := .postPayload
        payloadLen := hdr.payloadLen
        dataBuf := List.replicate cfg.clientSize 0 }
  | .post ok, .postPayload =>
    if ok then
      -- the length of the second read is that of the header, which nothing bounds
      some { c with pc := .pollPayload, op := some (.start .dataBuf headerSize c.payloadLen.toNat) }
    else some { c with pc := .exited }
  | .poll .failed, .pollHeader => some { c with pc := .exited }
  | .poll .failed, .pollPayload => some { c with pc := .exited }
  | .poll .empty, .pollHeader => some c
  | .poll .empty, .pollPayload => some c
  | .poll .one, .pollHeader =>
    if c.cqes = 0 then none else some { c with pc := .checkMagic, cqes := c.cqes - 1 }
  | .poll .one, .pollPayload =>
    if c.cqes = 0 then none else some { c with pc := .received, cqes := c.cqes - 1 }
  | _, _ => none

/-- The data of a read is in place, and its completion in the queue. -/
def ReadClient.place (c : ReadClient) (target : ReadTarget) (data : List UInt8) : ReadClient :=
  let c' := { c with op := none, cqes := c.cqes + 1 }
  match target with
  | .localHdr => { c' with localHdr := Stream.overlay c.localHdr 0 data }
  | .dataBuf => { c' with dataBuf := Stream.overlay c.dataBuf 0 data }

/-! ### The system -/

/-- The two processes. -/
structure ReadState where
  server : ReadServer
  client : ReadClient
  deriving DecidableEq

/-- A step of the system. -/
def readNext (st : ReadState) (l : ReadLabel) : Option ReadState :=
  match l with
  | .store => (st.server.store cfg).map fun s => { st with server := s }
  | .fetch j => st.client.op.bind fun op => (op.fetch j st.server.mem).map fun op' =>
      { st with client := { st.client with op := some op' } }
  | .complete => st.client.op.bind fun op => op.result.map fun data =>
      { st with client := st.client.place op.target data }
  | l => (st.client.next cfg l).map fun c => { st with client := c }

/-- Both processes have passed the sync; `calloc` has cleared their buffers. -/
def readStart : ReadState where
  server := ⟨.magic, List.replicate cfg.serverSize 0⟩
  client :=
    { pc := .regHeader
      localHdr := List.replicate headerSize 0
      dataBuf := List.replicate cfg.clientSize 0
      payloadLen := 0
      op := none
      cqes := 0 }

/-- **The data phase of rdma_read.** -/
def readLts : Lts ReadState ReadLabel := Lts.ofFun (· = readStart cfg) (readNext cfg)

end Program

/-- **No call fails in the step.** -/
def ReadNoFailure (_ : ReadState) : ReadLabel → Prop
  | .regMr ok => ok = true
  | .post ok => ok = true
  | .poll ret => ret ≠ .failed
  | _ => True

instance (st : ReadState) : DecidablePred (ReadNoFailure st)
  | .regMr ok => inferInstanceAs (Decidable (ok = true))
  | .post ok => inferInstanceAs (Decidable (ok = true))
  | .poll ret => inferInstanceAs (Decidable (ret ≠ .failed))
  | .store => inferInstanceAs (Decidable True)
  | .cpu => inferInstanceAs (Decidable True)
  | .fetch _ => inferInstanceAs (Decidable True)
  | .complete => inferInstanceAs (Decidable True)

end RdmaBook
