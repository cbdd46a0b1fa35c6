import RdmaBook.Read.Publish

/-!
# The bounds rdma_read does not check

`RdmaBook.ReadCfg` has buffers that are large enough for the message. The program
takes their size from an option and compares it with nothing: here the buffers have
any size that `-m` can give, the client is told of any region, and the header it
reads may say anything.

What the server stores is given by stores of some size at some offset of its buffer,
as `strncpy` is told to store more bytes than there are when the buffer is smaller than
the header (`RdmaBook.strncpySize`). What the client asks for is the list of its work
requests.
-/

namespace RdmaBook

/-- The value of `buf_size`, where `-m` is positive: `calloc` and `ibv_reg_mr` have
succeeded with it. -/
abbrev BufSize : Type := {n : ℕ // 0 < n ∧ n < 2 ^ 31}

/-! ### The stores of the server -/

/-- A store into `data_buf`: its offset, its size, and the bytes that are stored. -/
structure Store where
  off : ℕ
  size : ℕ
  byte : ℕ → UInt8

/-- The store stays inside a buffer of `n` bytes. -/
def Store.Inside (n : ℕ) (s : Store) : Prop := s.off + s.size ≤ n

instance (n : ℕ) : DecidablePred (Store.Inside n) := fun s =>
  inferInstanceAs (Decidable (s.off + s.size ≤ n))

/-- The memory behind a store. -/
def Store.apply (mem : ℕ → UInt8) (s : Store) (i : ℕ) : UInt8 :=
  if s.off ≤ i ∧ i < s.off + s.size then s.byte (i - s.off) else mem i

/-- The store of some bytes. -/
def Store.ofBytes (off : ℕ) (bytes : List UInt8) : Store where
  off := off
  size := bytes.length
  byte := (bytes.getD · 0)

/-- `strncpy` to an offset: the text, and null bytes up to the size. -/
def Store.strncpy (off : ℕ) (text : List UInt8) (size : ℕ) : Store where
  off := off
  size := size
  byte := (text.getD · 0)

/-- `buf_size - sizeof(struct data_header)`, the size `strncpy` is given: the `int` is
converted to `size_t`, and the difference is taken there. -/
def strncpySize (bufSize : ℕ) : ℕ := (bufSize + 2 ^ 64 - headerSize) % 2 ^ 64

/-- **What the server stores**: the three fields of the header, and the message. -/
def serverFill (order : ByteOrder) (bufSize : ℕ) : List Store :=
  [ .ofBytes 0 (u32Bytes order dataHeader.magic),
    .ofBytes 4 (u32Bytes order dataHeader.payloadLen),
    .ofBytes 8 (u64Bytes order dataHeader.sequence),
    .strncpy headerSize message (strncpySize bufSize) ]

/-- `data_buf` behind these stores; `calloc` has cleared it. -/
def serverMem (order : ByteOrder) (bufSize : ℕ) : ℕ → UInt8 :=
  (serverFill order bufSize).foldl Store.apply fun _ => 0

/-- **The record is self-consistent**: every store is inside the buffer, so is the payload the
header speaks of, and that is the message with its null byte. -/
structure SelfConsistent (order : ByteOrder) (bufSize : ℕ) : Prop where
  inside : ∀ s ∈ serverFill order bufSize, s.Inside bufSize
  fits : headerSize + dataHeader.payloadLen.toNat ≤ bufSize
  payload : (List.range dataHeader.payloadLen.toNat).map
    (fun i => serverMem order bufSize (headerSize + i)) = message ++ [0]

/-! ### The requests of the client -/

/-- A work request for an RDMA Read. -/
structure ReadWr where
  localBuf : ReadTarget
  length : UInt32
  remoteAddr : UInt64
  rkey : UInt32
  wrId : UInt64
  deriving DecidableEq

/-- **`post_rdma_read`**: the request it hands to `ibv_post_send`. -/
def postRdmaRead (localBuf : ReadTarget) (len : UInt32) (remoteAddr : UInt64) (rkey : UInt32)
    (wrId : UInt64) : ReadWr where
  localBuf := localBuf
  length := len
  remoteAddr := remoteAddr
  rkey := rkey
  wrId := wrId

/-- Which of the calls of the client succeed. -/
structure ReadCalls where
  regMr : Bool
  postHeader : Bool
  pollHeader : Bool
  postPayload : Bool
  pollPayload : Bool
  deriving DecidableEq

/-- What the client has done: the requests it has handed over, and its data buffer where it
has printed it. -/
structure ReadOutcome where
  requests : List ReadWr
  printed : Option (ℕ → UInt8)

/-- **The two-phase read of the client**, with the `hdr` and the `payload` its reads bring. -/
def clientRead (calls : ReadCalls) (remote : MrInfo) (hdr : DataHeader) (payload : ℕ → UInt8) :
    ReadOutcome :=
  let header := postRdmaRead .localHdr (UInt32.ofNat headerSize) remote.addr remote.rkey 10
  let data := postRdmaRead .dataBuf hdr.payloadLen (remote.addr + UInt64.ofNat headerSize)
    remote.rkey 11
  if calls.regMr = false then ⟨[], none⟩
  else if calls.postHeader = false then ⟨[header], none⟩
  else if calls.pollHeader = false then ⟨[header], none⟩
  -- the only check of what has been read
  else if hdr.magic ≠ headerMagic then ⟨[header], none⟩
  else if calls.postPayload = false then ⟨[header, data], none⟩
  else if calls.pollPayload = false then ⟨[header, data], none⟩
  -- `data_buf` has been cleared before the read
  else ⟨[header, data], some fun i => if i < hdr.payloadLen.toNat then payload i else 0⟩

/-- **The client validates what it reads**: it asks for the header only where the region holds
one, for the payload only where the region and its own buffer hold that, and the string it
prints ends inside the buffer. -/
structure Validates (calls : ReadCalls) (remote : MrInfo) (bufSize : ℕ) (hdr : DataHeader)
    (payload : ℕ → UInt8) : Prop where
  header : ∀ wr ∈ (clientRead calls remote hdr payload).requests, wr.localBuf = .localHdr →
    headerSize ≤ remote.length.toNat
  data : ∀ wr ∈ (clientRead calls remote hdr payload).requests, wr.localBuf = .dataBuf →
    hdr.payloadLen.toNat ≤ bufSize ∧ headerSize + hdr.payloadLen.toNat ≤ remote.length.toNat
  printed : ∀ buf, (clientRead calls remote hdr payload).printed = some buf →
    ∃ i < bufSize, buf i = 0

/-! ### The server -/

theorem strncpySize_of_le {n : ℕ} (h : headerSize ≤ n) (hn : n < 2 ^ 31) :
    strncpySize n = n - headerSize := by
  rw [strncpySize]
  have hs : headerSize = 16 := rfl
  omega

/-- **The difference wraps** where the buffer is smaller than the header. -/
theorem strncpySize_of_lt {n : ℕ} (h : n < headerSize) :
    strncpySize n = 2 ^ 64 - (headerSize - n) := by
  rw [strncpySize]
  have hs : headerSize = 16 := rfl
  omega

/-- The stores are inside the buffer as soon as it holds a header. -/
theorem serverFill_inside_iff {order : ByteOrder} (bufSize : BufSize) :
    (∀ s ∈ serverFill order bufSize, s.Inside bufSize) ↔ headerSize ≤ bufSize.1 := by
  have hs : headerSize = 16 := rfl
  constructor
  · intro h
    have hcpy : headerSize + strncpySize bufSize ≤ bufSize := by
      refine h (.strncpy headerSize message (strncpySize bufSize)) ?_
      simp only [serverFill, List.mem_cons, true_or, or_true]
    by_contra hlt
    rw [strncpySize_of_lt (Nat.lt_of_not_le hlt)] at hcpy
    omega
  · intro h s hmem
    have hcpy := strncpySize_of_le h bufSize.2.2
    simp only [serverFill, List.mem_cons, List.not_mem_nil, or_false] at hmem
    rcases hmem with rfl | rfl | rfl | rfl
    · simp only [Store.Inside, Store.ofBytes, length_u32Bytes]
      omega
    · simp only [Store.Inside, Store.ofBytes, length_u32Bytes]
      omega
    · simp only [Store.Inside, Store.ofBytes, length_u64Bytes]
      omega
    · simp only [Store.Inside, Store.strncpy]
      omega

/-- Behind the header stands the message, as far as the `strncpy` goes. -/
theorem serverMem_payload {order : ByteOrder} {n i : ℕ} (hi : i < strncpySize n) :
    serverMem order n (headerSize + i) = message.getD i 0 := by
  have hlast : serverMem order n = Store.apply
      ((serverFill order n).dropLast.foldl Store.apply fun _ => 0)
      (.strncpy headerSize message (strncpySize n)) := rfl
  rw [hlast, Store.apply]
  have hin : headerSize ≤ headerSize + i ∧ headerSize + i < headerSize + strncpySize n := by omega
  simp only [Store.strncpy, if_pos hin, Nat.add_sub_cancel_left]

theorem payloadLen_toNat : dataHeader.payloadLen.toNat = message.length + 1 := by decide +kernel

/-- **Where the record of the server is self-consistent**: the buffer holds the header and
the whole message with its null byte. -/
theorem selfConsistent_iff (order : ByteOrder) (bufSize : BufSize) :
    SelfConsistent order bufSize ↔ headerSize + message.length + 1 ≤ bufSize.1 := by
  have hlen := payloadLen_toNat
  constructor
  · intro h
    have hfits := h.fits
    omega
  · intro h
    have hle : headerSize ≤ bufSize.1 := by omega
    refine ⟨(serverFill_inside_iff bufSize).mpr hle, by omega, ?_⟩
    have hcpy := strncpySize_of_le hle bufSize.2.2
    refine List.ext_getElem (by simp [hlen]) fun i hi hi' => ?_
    rw [List.length_map, List.length_range, hlen] at hi
    rw [List.getElem_map, List.getElem_range, serverMem_payload (by omega)]
    rcases Nat.lt_or_ge i message.length with hlt | hge
    · rw [List.getD_eq_getElem _ _ hlt, List.getElem_append_left hlt]
    · rw [List.getD_eq_default _ _ hge, List.getElem_append_right hge, List.getElem_singleton]

/-- With `-m 8` the record is not: its length field and its message are behind the end of the
buffer. -/
theorem not_selfConsistent_eight : ¬∀ (order : ByteOrder) (bufSize : BufSize),
    SelfConsistent order bufSize := by
  intro h
  have hfits := (h .little ⟨8, by decide⟩).fits
  revert hfits
  decide +kernel

/-- **In a buffer that is large enough** the stores leave what `RdmaBook.readLts` publishes. -/
theorem serverMem_eq_published (cfg : ReadCfg) (hsize : cfg.serverSize < 2 ^ 31) {i : ℕ}
    (hi : i < cfg.serverSize) : serverMem cfg.order cfg.serverSize i = cfg.published.getD i 0 := by
  have hs : headerSize = 16 := rfl
  have hcpy := strncpySize_of_le cfg.headerSize_le hsize
  rcases Nat.lt_or_ge i headerSize with hlt | hge
  · -- in the header, where the `strncpy` stores nothing
    have hpub : cfg.published.getD i 0 = cfg.header.getD i 0 := by
      rw [cfg.published_eq, List.getD_append _ _ _ _ (by rw [cfg.length_header]; exact hlt)]
    rw [hpub, ReadCfg.header]
    simp only [serverMem, serverFill, List.foldl_cons, List.foldl_nil, Store.apply, Store.ofBytes,
      Store.strncpy, length_u32Bytes, length_u64Bytes]
    rw [if_neg (by omega)]
    rcases Nat.lt_or_ge i 8 with h8 | h8
    · rw [if_neg (by omega)]
      rcases Nat.lt_or_ge i 4 with h4 | h4
      · rw [if_neg (by omega), if_pos (by omega),
          List.getD_append _ _ _ _ (by rw [length_u32Bytes]; exact h4)]
        rfl
      · rw [if_pos (by omega), List.getD_append_right _ _ _ _ (by rw [length_u32Bytes]; exact h4),
          length_u32Bytes, List.getD_append _ _ _ _ (by rw [length_u32Bytes]; omega)]
    · rw [if_pos (by omega), List.getD_append_right _ _ _ _ (by rw [length_u32Bytes]; omega),
        length_u32Bytes, List.getD_append_right _ _ _ _ (by rw [length_u32Bytes]; omega),
        length_u32Bytes, Nat.sub_sub]
  · obtain ⟨k, rfl⟩ := Nat.exists_eq_add_of_le hge
    rw [serverMem_payload (by omega), cfg.published_eq,
      List.getD_append_right _ _ _ _ (by rw [cfg.length_header]; omega), cfg.length_header,
      Nat.add_sub_cancel_left, ReadCfg.payload, CString.strncpy]
    rcases Nat.lt_or_ge k message.length with hk | hk
    · rw [List.getD_append _ _ _ _ (by rw [List.length_take]; omega), List.getD_eq_getElem _ _ hk,
        List.getD_eq_getElem _ _ (by rw [List.length_take]; omega), List.getElem_take]
    · rw [List.getD_eq_default _ _ hk,
        List.getD_append_right _ _ _ _ (by rw [List.length_take]; omega), List.getD_replicate]
      rw [List.length_take]
      omega

/-! ### The client -/

section Client

variable {calls : ReadCalls} {remote : MrInfo} {hdr : DataHeader} {payload : ℕ → UInt8}

/-- The client gets to the second read: the calls for the first succeed, and the magic is
valid. -/
def ReadCalls.AsksPayload (calls : ReadCalls) (hdr : DataHeader) : Prop :=
  calls.regMr = true ∧ calls.postHeader = true ∧ calls.pollHeader = true ∧ hdr.magic = headerMagic

/-- The client gets behind the second read. -/
def ReadCalls.HasPayload (calls : ReadCalls) (hdr : DataHeader) : Prop :=
  calls.AsksPayload hdr ∧ calls.postPayload = true ∧ calls.pollPayload = true

theorem mem_requests_iff {wr : ReadWr} : wr ∈ (clientRead calls remote hdr payload).requests ↔
    calls.regMr = true ∧
        wr = postRdmaRead .localHdr (UInt32.ofNat headerSize) remote.addr remote.rkey 10 ∨
      calls.AsksPayload hdr ∧ wr = postRdmaRead .dataBuf hdr.payloadLen
        (remote.addr + UInt64.ofNat headerSize) remote.rkey 11 := by
  rw [ReadCalls.AsksPayload, clientRead]
  split_ifs <;> simp_all

theorem printed_eq_some_iff {buf : ℕ → UInt8} :
    (clientRead calls remote hdr payload).printed = some buf ↔
      calls.HasPayload hdr ∧
        (fun i => if i < hdr.payloadLen.toNat then payload i else 0) = buf := by
  rw [ReadCalls.HasPayload, ReadCalls.AsksPayload, clientRead]
  split_ifs <;> simp_all

/-- The data buffer behind the second read holds a null byte where the payload leaves one, or
has one itself. -/
theorem exists_null_iff {n len : ℕ} {payload : ℕ → UInt8} (hlen : len ≤ n) :
    (∃ i < n, (if i < len then payload i else 0) = 0) ↔ len < n ∨ ∃ i < len, payload i = 0 := by
  constructor
  · rintro ⟨i, hi, h0⟩
    rcases Nat.lt_or_ge i len with hlt | hge
    · rw [if_pos hlt] at h0
      exact Or.inr ⟨i, hlt, h0⟩
    · exact Or.inl (hge.trans_lt hi)
  · rintro (hlt | ⟨i, hi, h0⟩)
    · exact ⟨len, hlt, if_neg (lt_irrefl _)⟩
    · exact ⟨i, hi.trans_le hlen, by rw [if_pos hi, h0]⟩

/-- **Where the client validates what it reads**: the header is read from a region that holds
one, a payload that is asked for is not longer than the buffer and than the rest of the
region, and one that is printed is shorter than the buffer or has a null byte. -/
theorem validates_iff (calls : ReadCalls) (remote : MrInfo) (bufSize : BufSize) (hdr : DataHeader)
    (payload : ℕ → UInt8) :
    Validates calls remote bufSize hdr payload ↔
      (calls.regMr = true → headerSize ≤ remote.length.toNat) ∧
      (calls.AsksPayload hdr → hdr.payloadLen.toNat ≤ bufSize ∧
        headerSize + hdr.payloadLen.toNat ≤ remote.length.toNat) ∧
      (calls.HasPayload hdr →
        hdr.payloadLen.toNat < bufSize ∨ ∃ i < hdr.payloadLen.toNat, payload i = 0) := by
  constructor
  · intro h
    have hdata : calls.AsksPayload hdr → hdr.payloadLen.toNat ≤ bufSize ∧
        headerSize + hdr.payloadLen.toNat ≤ remote.length.toNat := fun hasks =>
      h.data _ (mem_requests_iff.mpr (Or.inr ⟨hasks, rfl⟩)) rfl
    refine ⟨fun hreg => h.header _ (mem_requests_iff.mpr (Or.inl ⟨hreg, rfl⟩)) rfl, hdata, ?_⟩
    intro hhas
    exact (exists_null_iff (hdata hhas.1).1).mp (h.printed _ (printed_eq_some_iff.mpr ⟨hhas, rfl⟩))
  · rintro ⟨hheader, hdata, hprinted⟩
    refine ⟨fun wr hwr hbuf => ?_, fun wr hwr hbuf => ?_, fun buf hbuf => ?_⟩
    · rcases mem_requests_iff.mp hwr with ⟨hreg, -⟩ | ⟨-, rfl⟩
      · exact hheader hreg
      · cases hbuf
    · rcases mem_requests_iff.mp hwr with ⟨-, rfl⟩ | ⟨hasks, -⟩
      · cases hbuf
      · exact hdata hasks
    · obtain ⟨hhas, rfl⟩ := printed_eq_some_iff.mp hbuf
      exact (exists_null_iff (hdata hhas.1).1).mpr (hprinted hhas)

/-- A header that speaks of more than either side holds is followed all the same. -/
theorem not_validates :
    ¬∀ (calls : ReadCalls) (remote : MrInfo) (bufSize : BufSize) (hdr : DataHeader)
    (payload : ℕ → UInt8), hdr.magic = headerMagic →
    Validates calls remote bufSize hdr payload := by
  intro h
  have hv := h ⟨true, true, true, false, false⟩ ⟨4096, 7, 4096⟩ ⟨4096, by decide⟩
    ⟨headerMagic, 8192, 42⟩ (fun _ => 0) rfl
  have hdata := hv.data ⟨.dataBuf, 8192, 4112, 7, 11⟩ (by decide) rfl
  exact absurd hdata.1 (by decide)

end Client

end RdmaBook
