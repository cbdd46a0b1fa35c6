import RdmaBook.Read.Program

/-!
# When the client of rdma_read sees what the server publishes

The server stores its record from the front to the back, so what its buffer holds is
the record up to the number of bytes stored, and zeros behind
(`RdmaBook.ReadServerOk`). A word has its final value as soon as nothing but zeros is
still to be stored in it; a run that fetches every word then, other than the one of
the sequence number, gives the client the record that is finally published
(`RdmaBook.read_publication`).

The program does not see to it: the server fills the buffer after the sync, and a
client that is faster reads a header that is not there
(`RdmaBook.read_too_early`).
-/

namespace RdmaBook

variable {cfg : ReadCfg}

/-! ### The record -/

theorem ReadCfg.length_payload : cfg.payload.length = cfg.serverSize - headerSize :=
  CString.length_strncpy

/-- The header of the record. -/
def ReadCfg.header (cfg : ReadCfg) : List UInt8 :=
  u32Bytes cfg.order dataHeader.magic ++ (u32Bytes cfg.order dataHeader.payloadLen ++
    u64Bytes cfg.order dataHeader.sequence)

theorem ReadCfg.published_eq : cfg.published = cfg.header ++ cfg.payload := by
  rw [ReadCfg.published, ReadCfg.header, List.append_assoc, List.append_assoc]

theorem ReadCfg.length_header : cfg.header.length = headerSize := by
  rw [ReadCfg.header, List.length_append, List.length_append, u32Bytes, u32Bytes, u64Bytes,
    ByteOrder.length_put, ByteOrder.length_put, ByteOrder.length_put]
  rfl

theorem ReadCfg.headerSize_le : headerSize ≤ cfg.serverSize :=
  (Nat.le_add_right _ _).trans cfg.server_fits

/-- The record fills the buffer of the server. -/
theorem ReadCfg.length_published : cfg.published.length = cfg.serverSize := by
  rw [ReadCfg.published_eq, List.length_append, ReadCfg.length_header, ReadCfg.length_payload]
  exact Nat.add_sub_cancel' cfg.headerSize_le

theorem ReadCfg.window_magic :
    Stream.window cfg.published 0 4 = u32Bytes cfg.order dataHeader.magic := by
  have hlen : (u32Bytes cfg.order dataHeader.magic).length = 4 := ByteOrder.length_put ..
  have hmid := Stream.window_middle [] (u32Bytes cfg.order dataHeader.magic)
    (u32Bytes cfg.order dataHeader.payloadLen ++ (u64Bytes cfg.order dataHeader.sequence ++
      cfg.payload))
  rwa [hlen] at hmid

theorem ReadCfg.window_payloadLen :
    Stream.window cfg.published 4 8 = u32Bytes cfg.order dataHeader.payloadLen := by
  have hlen : (u32Bytes cfg.order dataHeader.magic).length = 4 := ByteOrder.length_put ..
  have hlen' : (u32Bytes cfg.order dataHeader.payloadLen).length = 4 := ByteOrder.length_put ..
  have hmid := Stream.window_middle (u32Bytes cfg.order dataHeader.magic)
    (u32Bytes cfg.order dataHeader.payloadLen) (u64Bytes cfg.order dataHeader.sequence ++
      cfg.payload)
  rwa [hlen, hlen', List.append_assoc] at hmid

theorem ReadCfg.window_sequence :
    Stream.window cfg.published 8 16 = u64Bytes cfg.order dataHeader.sequence := by
  have hlen : (u32Bytes cfg.order dataHeader.magic ++
      u32Bytes cfg.order dataHeader.payloadLen).length = 8 := by
    rw [List.length_append, u32Bytes, u32Bytes, ByteOrder.length_put, ByteOrder.length_put]
  have hlen' : (u64Bytes cfg.order dataHeader.sequence).length = 8 := ByteOrder.length_put ..
  have hmid := Stream.window_middle (u32Bytes cfg.order dataHeader.magic ++
    u32Bytes cfg.order dataHeader.payloadLen) (u64Bytes cfg.order dataHeader.sequence) cfg.payload
  rwa [hlen, hlen', List.append_assoc, List.append_assoc] at hmid

theorem ReadCfg.window_payload (a b : ℕ) :
    Stream.window cfg.published (headerSize + a) (headerSize + b) =
      Stream.window cfg.payload a b := by
  rw [ReadCfg.published_eq, ← ReadCfg.length_header, Stream.window_append_right]

/-- An integer is read off the window of its bytes. -/
theorem u32At_eq (order : ByteOrder) (bs : List UInt8) (off : ℕ) :
    u32At order bs off = UInt32.ofNat (order.get (Stream.window bs off (off + 4))) := by
  rw [u32At, Stream.window, Nat.add_sub_cancel_left]

theorem u32At_of_window {order : ByteOrder} {bs : List UInt8} {off : ℕ} {x : UInt32}
    (h : Stream.window bs off (off + 4) = u32Bytes order x) : u32At order bs off = x := by
  rw [u32At_eq, h, u32Bytes, ByteOrder.get_put order x.toNat_lt, UInt32.ofNat_toNat]

/-- The first word of the record tells the magic number and the length. -/
theorem ReadCfg.ofBytes_of_window {bs : List UInt8}
    (h : Stream.window bs 0 8 = Stream.window cfg.published 0 8) :
    (DataHeader.ofBytes cfg.order bs).magic = headerMagic ∧
      (DataHeader.ofBytes cfg.order bs).payloadLen = dataHeader.payloadLen := by
  have hpart : ∀ i, i + 4 ≤ 8 →
      Stream.window bs i (i + 4) = Stream.window cfg.published i (i + 4) := by
    intro i hi
    have hbs := Stream.window_window (l := bs) (a := 0) (b := 8) (i := i) (n := 4) (by omega)
    have hpub := Stream.window_window (l := cfg.published) (a := 0) (b := 8) (i := i) (n := 4)
      (by omega)
    rw [Nat.zero_add] at hbs hpub
    rw [← hbs, ← hpub, h]
  exact ⟨u32At_of_window ((hpart 0 (by decide)).trans cfg.window_magic),
    u32At_of_window ((hpart 4 (by decide)).trans cfg.window_payloadLen)⟩

/-! ### The server -/

/-- **The invariant of the server**: its buffer is the record, up to what is stored. -/
structure ReadServerOk (cfg : ReadCfg) (s : ReadServer) : Prop where
  mem : s.mem = Stream.filledTo 0 cfg.published (s.pc.stored cfg)
  stored_le : s.pc.stored cfg ≤ cfg.serverSize

namespace ReadServerOk

variable {s s' : ReadServer}

theorem start (cfg : ReadCfg) : ReadServerOk cfg (readStart cfg).server where
  mem := by
    change List.replicate cfg.serverSize 0 = Stream.filledTo 0 cfg.published 0
    rw [Stream.filledTo_zero, ReadCfg.length_published]
  stored_le := Nat.zero_le _

/-- Storing the next window of the record. -/
theorem fill {pc : ReadServerPc} {mem d : List UInt8} (h : ReadServerOk cfg ⟨pc, mem⟩)
    (pc' : ReadServerPc)
    (hd : d = Stream.window cfg.published (pc.stored cfg) (pc'.stored cfg))
    (hle : pc.stored cfg ≤ pc'.stored cfg) (hsize : pc'.stored cfg ≤ cfg.serverSize) :
    ReadServerOk cfg ⟨pc', Stream.overlay mem (pc.stored cfg) d⟩ := by
  refine ⟨?_, hsize⟩
  have hmem : mem = Stream.filledTo 0 cfg.published (pc.stored cfg) := h.mem
  rw [hd, hmem]
  exact Stream.overlay_filledTo hle (hsize.trans cfg.length_published.ge)

/-- **Every store keeps it.** -/
theorem store (h : ReadServerOk cfg s) (hs : s.store cfg = some s') : ReadServerOk cfg s' := by
  obtain ⟨pc, mem⟩ := s
  have hsize : 16 ≤ cfg.serverSize := cfg.headerSize_le
  cases pc with
  | magic =>
    obtain rfl := Option.some.inj hs
    exact h.fill .payloadLen cfg.window_magic.symm (Nat.zero_le _)
      ((by decide : 4 ≤ 16).trans hsize)
  | payloadLen =>
    obtain rfl := Option.some.inj hs
    exact h.fill .sequence cfg.window_payloadLen.symm
      (by decide : 4 ≤ 8) ((by decide : 8 ≤ 16).trans hsize)
  | sequence =>
    obtain rfl := Option.some.inj hs
    exact h.fill (.payload 0) cfg.window_sequence.symm
      (by decide : 8 ≤ 16) hsize
  | payload k =>
    change (if k < cfg.serverSize - 16 then some _ else some _) = some s' at hs
    split at hs
    · rename_i hk
      obtain rfl := Option.some.inj hs
      refine h.fill (.payload (k + 1)) (cfg.window_payload k (k + 1)).symm ?_ ?_
      · exact Nat.le_succ _
      · change 16 + (k + 1) ≤ cfg.serverSize
        omega
    · rename_i hk
      obtain rfl := Option.some.inj hs
      have hle : 16 + k ≤ cfg.serverSize := h.stored_le
      have hend : 16 + k = cfg.serverSize := by omega
      refine ⟨h.mem.trans ?_, le_rfl⟩
      change Stream.filledTo 0 cfg.published (16 + k) =
        Stream.filledTo 0 cfg.published cfg.serverSize
      rw [hend]
  | published => cases hs

/-- When the server has stored everything, its buffer is the record. -/
theorem mem_published (h : ReadServerOk cfg s) (hpc : s.pc = .published) :
    s.mem = cfg.published := by
  have hmem := h.mem
  rw [hpc, ReadServerPc.stored, ← cfg.length_published, Stream.filledTo_length] at hmem
  exact hmem

end ReadServerOk

/-! ### The reads -/

/-- **The word is settled**: every byte the server has not stored yet, of the word at
place `x` of its buffer, is a zero. -/
def ReadServer.Settled (cfg : ReadCfg) (s : ReadServer) (x : ℕ) : Prop :=
  ∀ i < x + 8, x ≤ i → s.pc.stored cfg ≤ i → cfg.published.getD i 0 = 0

instance (s : ReadServer) (x : ℕ) : Decidable (s.Settled cfg x) :=
  inferInstanceAs (Decidable (∀ i < x + 8, x ≤ i → s.pc.stored cfg ≤ i →
    cfg.published.getD i 0 = 0))

/-- The place of the word of the sequence number, which the client only prints. -/
def sequencePlace : ℕ := 8

/-- **Every word is fetched when it is settled**, other than the sequence number. -/
def ReadSettled (cfg : ReadCfg) (st : ReadState) : ReadLabel → Prop
  | .fetch j => ∀ op ∈ st.client.op,
      op.addr + 8 * j ≠ sequencePlace → st.server.Settled cfg (op.addr + 8 * j)
  | _ => True

instance (st : ReadState) : DecidablePred (ReadSettled cfg st)
  | .fetch j => inferInstanceAs (Decidable (∀ op ∈ st.client.op,
      op.addr + 8 * j ≠ sequencePlace → st.server.Settled cfg (op.addr + 8 * j)))
  | .store => inferInstanceAs (Decidable True)
  | .regMr _ => inferInstanceAs (Decidable True)
  | .post _ => inferInstanceAs (Decidable True)
  | .poll _ => inferInstanceAs (Decidable True)
  | .cpu => inferInstanceAs (Decidable True)
  | .complete => inferInstanceAs (Decidable True)

/-- A settled word has its final value. -/
theorem ReadServerOk.window_settled {s : ReadServer} {x : ℕ} (h : ReadServerOk cfg s)
    (hx : s.Settled cfg x) : Stream.window s.mem x (x + 8) =
      Stream.window cfg.published x (x + 8) := by
  rw [h.mem]
  exact Stream.window_filledTo hx

/-- A read in progress, of which every word fetched but the sequence number is the
published one. -/
structure ReadOpOk (cfg : ReadCfg) (target : ReadTarget) (addr length : ℕ) (op : RdmaReadOp) :
    Prop where
  target_eq : op.target = target
  addr_eq : op.addr = addr
  length_eq : op.length = length
  length_words : op.words.length = (length + 7) / 8
  words : ∀ j v, op.words[j]? = some (some v) → addr + 8 * j ≠ sequencePlace →
    v = Stream.window cfg.published (addr + 8 * j) (addr + 8 * j + 8)

namespace ReadOpOk

variable {target : ReadTarget} {addr length : ℕ} {op op' : RdmaReadOp}

theorem start (cfg : ReadCfg) (target : ReadTarget) (addr length : ℕ) :
    ReadOpOk cfg target addr length (.start target addr length) where
  target_eq := rfl
  addr_eq := rfl
  length_eq := rfl
  length_words := List.length_replicate
  words := by
    intro j v hj
    rw [RdmaReadOp.start, List.getElem?_replicate] at hj
    split at hj <;> cases hj

/-- **Fetching a settled word.** -/
theorem fetch {s : ReadServer} {j : ℕ} (h : ReadOpOk cfg target addr length op)
    (hs : ReadServerOk cfg s) (hset : addr + 8 * j ≠ sequencePlace → s.Settled cfg (addr + 8 * j))
    (hf : op.fetch j s.mem = some op') : ReadOpOk cfg target addr length op' := by
  rw [RdmaReadOp.fetch] at hf
  split at hf
  · obtain rfl := Option.some.inj hf
    refine { h with length_words := List.length_set.trans h.length_words, words := ?_ }
    intro i v hi hne
    rw [List.getElem?_set] at hi
    split at hi
    · rename_i hij
      subst hij
      split at hi
      · cases hi
        rw [h.addr_eq]
        exact hs.window_settled (hset hne)
      · cases hi
    · exact h.words i v hi hne
  · cases hf

/-- What the words of a read are once all of them are fetched. -/
theorem result_eq {data : List UInt8} (hr : op.result = some data) :
    (∀ j < op.words.length, ∃ v, op.words[j]? = some (some v) ∧
      (op.words.map fun w => w.getD [])[j]? = some v) ∧
    data = (op.words.map fun w => w.getD []).flatten.take op.length := by
  rw [RdmaReadOp.result] at hr
  split at hr
  · rename_i hall
    refine ⟨fun j hj => ?_, (Option.some.inj hr).symm⟩
    have hsome := List.all_eq_true.mp hall op.words[j] (List.getElem_mem hj)
    obtain ⟨v, hv⟩ := Option.isSome_iff_exists.mp hsome
    refine ⟨v, by rw [List.getElem?_eq_getElem hj, hv], ?_⟩
    rw [List.getElem?_map, List.getElem?_eq_getElem hj, hv]
    rfl
  · cases hr

/-- **The header read returns the first word of the record.** -/
theorem window_result {data : List UInt8} (h : ReadOpOk cfg target 0 headerSize op)
    (hr : op.result = some data) :
    8 ≤ data.length ∧ Stream.window data 0 8 = Stream.window cfg.published 0 8 := by
  obtain ⟨hwords, rfl⟩ := result_eq hr
  have hpos : 0 < op.words.length := by
    rw [h.length_words]
    decide
  obtain ⟨v, hv, hmap⟩ := hwords 0 hpos
  have hword : v = Stream.window cfg.published 0 8 := h.words 0 v hv (by decide)
  have hlen : v.length = 8 := by
    have hsize : 16 ≤ cfg.serverSize := cfg.headerSize_le
    rw [hword, Stream.length_window (by rw [cfg.length_published]; omega)]
  -- the first word is the beginning of what the read returns
  obtain ⟨rest, hrest⟩ : ∃ rest, (op.words.map fun w => w.getD []) = v :: rest := by
    cases hws : op.words.map fun w => w.getD [] with
    | nil =>
      rw [hws] at hmap
      cases hmap
    | cons u rest =>
      rw [hws] at hmap
      exact ⟨rest, by rw [Option.some.inj hmap]⟩
  rw [hrest, List.flatten_cons, h.length_eq]
  refine ⟨?_, ?_⟩
  · rw [List.length_take, List.length_append, hlen]
    exact le_min (by decide) (Nat.le_add_right _ _)
  · rw [Stream.window, List.drop_zero, List.take_take]
    exact (List.take_left' hlen).trans hword

/-- **The payload read returns the payload of the record.** -/
theorem result_payload {data : List UInt8} (h : ReadOpOk cfg target headerSize length op)
    (hr : op.result = some data) :
    data = Stream.window cfg.published headerSize (headerSize + length) := by
  obtain ⟨hwords, rfl⟩ := result_eq hr
  have hflat : (op.words.map fun w => w.getD []).flatten =
      Stream.window cfg.published headerSize (headerSize + 8 * op.words.length) := by
    rw [Stream.flatten_windows (l := cfg.published) (x := headerSize) (w := 8), List.length_map]
    intro j v hj
    have hlt : j < op.words.length := by
      obtain ⟨hlt, -⟩ := List.getElem?_eq_some_iff.mp hj
      rwa [List.length_map] at hlt
    obtain ⟨u, hu, hu'⟩ := hwords j hlt
    obtain rfl : u = v := Option.some.inj (hu'.symm.trans hj)
    refine h.words j u hu ?_
    change 16 + 8 * j ≠ 8
    omega
  rw [hflat, h.length_eq]
  refine Stream.take_window ?_
  rw [h.length_words]
  omega

end ReadOpOk

/-! ### The client -/

/-- What the client has of the header. -/
def ReadClient.HasHeader (cfg : ReadCfg) (c : ReadClient) : Prop :=
  Stream.window c.localHdr 0 8 = Stream.window cfg.published 0 8

/-- What the client has of the payload. -/
def ReadClient.HasPayload (cfg : ReadCfg) (c : ReadClient) : Prop :=
  c.dataBuf.take dataHeader.payloadLen.toNat =
    Stream.window cfg.published headerSize (headerSize + dataHeader.payloadLen.toNat)

/-- **The invariant of the client**, place by place. -/
def ReadClientOk (cfg : ReadCfg) (c : ReadClient) : Prop :=
  match c.pc with
  | .regHeader => c.op = none ∧ c.cqes = 0
  | .postHeader => c.op = none ∧ c.cqes = 0
  | .pollHeader =>
    (∃ op, c.op = some op ∧ ReadOpOk cfg .localHdr 0 headerSize op ∧ c.cqes = 0) ∨
      c.op = none ∧ c.cqes = 1 ∧ c.HasHeader cfg
  | .checkMagic => c.op = none ∧ c.cqes = 0 ∧ c.HasHeader cfg
  | .postPayload => c.op = none ∧ c.cqes = 0 ∧ c.payloadLen = dataHeader.payloadLen
  | .pollPayload => c.payloadLen = dataHeader.payloadLen ∧
    ((∃ op, c.op = some op ∧ ReadOpOk cfg .dataBuf headerSize dataHeader.payloadLen.toNat op ∧
        c.cqes = 0) ∨
      c.op = none ∧ c.cqes = 1 ∧ c.HasPayload cfg)
  | .received => c.payloadLen = dataHeader.payloadLen ∧ c.op = none ∧ c.HasPayload cfg
  | .invalidMagic => False
  | .exited => False

/-- **A call of the client keeps it.** -/
theorem ReadClientOk.next {st : ReadState} {c c' : ReadClient} {l : ReadLabel}
    (h : ReadClientOk cfg c) (hok : ReadNoFailure st l) (hs : c.next cfg l = some c') :
    ReadClientOk cfg c' := by
  unfold ReadClient.next at hs
  split at hs
  · rename_i hpc
    obtain rfl : _ = true := hok
    rw [ReadClientOk, hpc] at h
    exact Option.some.inj hs ▸ h
  · rename_i hpc
    obtain rfl : _ = true := hok
    rw [ReadClientOk, hpc] at h
    exact Option.some.inj hs ▸ Or.inl ⟨_, rfl, ReadOpOk.start .., h.2⟩
  · rename_i hpc
    rw [ReadClientOk, hpc] at h
    obtain ⟨hop, hcqes, hhdr⟩ := h
    obtain ⟨hmagic, hlen⟩ := cfg.ofBytes_of_window hhdr
    simp only [hmagic, ne_eq, not_true_eq_false, if_false] at hs
    exact Option.some.inj hs ▸ ⟨hop, hcqes, hlen⟩
  · rename_i hpc
    obtain rfl : _ = true := hok
    rw [ReadClientOk, hpc] at h
    obtain ⟨-, hcqes, hlen⟩ := h
    obtain rfl := Option.some.inj hs
    refine ⟨hlen, Or.inl ⟨_, rfl, ?_, hcqes⟩⟩
    rw [hlen]
    exact ReadOpOk.start ..
  · exact absurd rfl hok
  · exact absurd rfl hok
  · exact Option.some.inj hs ▸ h
  · exact Option.some.inj hs ▸ h
  · rename_i hpc
    rw [ReadClientOk, hpc] at h
    split at hs
    · cases hs
    · rename_i hcqes
      rcases h with ⟨-, -, -, hzero⟩ | ⟨hop, hone, hhdr⟩
      · exact absurd hzero hcqes
      · exact Option.some.inj hs ▸ ⟨hop, by rw [hone], hhdr⟩
  · rename_i hpc
    rw [ReadClientOk, hpc] at h
    split at hs
    · cases hs
    · rename_i hcqes
      rcases h with ⟨hlen, ⟨-, -, -, hzero⟩ | ⟨hop, hone, hpay⟩⟩
      · exact absurd hzero hcqes
      · exact Option.some.inj hs ▸ ⟨hlen, hop, hpay⟩
  · cases hs

/-- **Only one place waits for a read.** -/
theorem ReadClientOk.of_op {c : ReadClient} {op : RdmaReadOp} (h : ReadClientOk cfg c)
    (hop : c.op = some op) : c.cqes = 0 ∧
      (c.pc = .pollHeader ∧ ReadOpOk cfg .localHdr 0 headerSize op ∨
        c.pc = .pollPayload ∧ c.payloadLen = dataHeader.payloadLen ∧
          ReadOpOk cfg .dataBuf headerSize dataHeader.payloadLen.toNat op) := by
  cases hpc : c.pc with
  | pollHeader =>
    rw [ReadClientOk, hpc] at h
    rcases h with ⟨op', hop', hok, hcqes⟩ | ⟨hnone, -⟩
    · obtain rfl : op = op' := Option.some.inj (hop.symm.trans hop')
      exact ⟨hcqes, Or.inl ⟨rfl, hok⟩⟩
    · exact absurd (hop.symm.trans hnone) (Option.some_ne_none _)
  | pollPayload =>
    rw [ReadClientOk, hpc] at h
    rcases h with ⟨hlen, ⟨op', hop', hok, hcqes⟩ | ⟨hnone, -⟩⟩
    · obtain rfl : op = op' := Option.some.inj (hop.symm.trans hop')
      exact ⟨hcqes, Or.inr ⟨rfl, hlen, hok⟩⟩
    · exact absurd (hop.symm.trans hnone) (Option.some_ne_none _)
  | received =>
    rw [ReadClientOk, hpc] at h
    exact absurd (hop.symm.trans h.2.1) (Option.some_ne_none _)
  | regHeader | postHeader | checkMagic | postPayload =>
    rw [ReadClientOk, hpc] at h
    exact absurd (hop.symm.trans h.1) (Option.some_ne_none _)
  | invalidMagic | exited =>
    rw [ReadClientOk, hpc] at h
    exact h.elim

/-- **Fetching a settled word keeps it.** -/
theorem ReadClientOk.fetch {c : ReadClient} {s : ReadServer} {op op' : RdmaReadOp} {j : ℕ}
    (h : ReadClientOk cfg c) (hs : ReadServerOk cfg s) (hop : c.op = some op)
    (hset : op.addr + 8 * j ≠ sequencePlace → s.Settled cfg (op.addr + 8 * j))
    (hf : op.fetch j s.mem = some op') : ReadClientOk cfg { c with op := some op' } := by
  obtain ⟨hcqes, ⟨hpc, hok⟩ | ⟨hpc, hlen, hok⟩⟩ := h.of_op hop
  · rw [ReadClientOk, hpc]
    rw [hok.addr_eq] at hset
    exact Or.inl ⟨op', rfl, hok.fetch hs hset hf, hcqes⟩
  · rw [ReadClientOk, hpc]
    rw [hok.addr_eq] at hset
    exact ⟨hlen, Or.inl ⟨op', rfl, hok.fetch hs hset hf, hcqes⟩⟩

/-- **The completion of a read keeps it**: the data is that of the record. -/
theorem ReadClientOk.complete {c : ReadClient} {op : RdmaReadOp} {data : List UInt8}
    (h : ReadClientOk cfg c) (hop : c.op = some op) (hr : op.result = some data) :
    ReadClientOk cfg (c.place op.target data) := by
  obtain ⟨hcqes, ⟨hpc, hok⟩ | ⟨hpc, hlen, hok⟩⟩ := h.of_op hop
  · obtain ⟨hsize, hdata⟩ := hok.window_result hr
    rw [hok.target_eq, ReadClient.place, ReadClientOk, hpc]
    refine Or.inr ⟨rfl, congrArg (· + 1) hcqes, ?_⟩
    change Stream.window (Stream.overlay c.localHdr 0 data) 0 8 = _
    rw [← hdata, Stream.window, Stream.window, Stream.overlay, List.take_zero, List.nil_append]
    exact List.take_append_of_le_length hsize
  · have hdata := hok.result_payload hr
    rw [hok.target_eq, ReadClient.place, ReadClientOk, hpc]
    refine ⟨hlen, Or.inr ⟨rfl, congrArg (· + 1) hcqes, ?_⟩⟩
    have hsize : data.length = dataHeader.payloadLen.toNat := by
      rw [hdata, Stream.length_window (cfg.server_fits.trans cfg.length_published.ge),
        Nat.add_sub_cancel_left]
    change (Stream.overlay c.dataBuf 0 data).take _ = _
    rw [← hsize, Stream.take_overlay_zero, hsize, hdata]

/-! ### The invariant -/

/-- **The invariant of the data phase.** -/
structure ReadInv (cfg : ReadCfg) (st : ReadState) : Prop where
  server : ReadServerOk cfg st.server
  client : ReadClientOk cfg st.client

namespace ReadInv

variable {st st' : ReadState} {l : ReadLabel}

/-- **Every step that fetches no word too early keeps it.** -/
theorem step (h : ReadInv cfg st) (hok : ReadNoFailure st l) (hset : ReadSettled cfg st l)
    (hs : readNext cfg st l = some st') : ReadInv cfg st' := by
  cases l with
  | store =>
    obtain ⟨s, hstore, rfl⟩ := Option.map_eq_some_iff.mp hs
    exact ⟨h.server.store hstore, h.client⟩
  | fetch j =>
    obtain ⟨op, hop, hs⟩ := Option.bind_eq_some_iff.mp hs
    obtain ⟨op', hf, rfl⟩ := Option.map_eq_some_iff.mp hs
    exact ⟨h.server, h.client.fetch h.server hop (hset op hop) hf⟩
  | complete =>
    obtain ⟨op, hop, hs⟩ := Option.bind_eq_some_iff.mp hs
    obtain ⟨data, hr, rfl⟩ := Option.map_eq_some_iff.mp hs
    exact ⟨h.server, h.client.complete hop hr⟩
  | regMr | post | poll | cpu =>
    obtain ⟨c, hc, rfl⟩ := Option.map_eq_some_iff.mp hs
    exact ⟨h.server, h.client.next hok hc⟩

theorem of_reach
    (h : (readLts cfg).Reach (fun st l => ReadNoFailure st l ∧ ReadSettled cfg st l) st) :
    ReadInv cfg st := by
  refine h.invariant ?_ fun a l b ha hok hs => ha.step hok.1 hok.2 hs
  rintro a rfl
  exact ⟨ReadServerOk.start cfg, rfl, rfl⟩

end ReadInv

/-- **A client that fetches no word too early sees what is published**: it does not find
an invalid magic number, the length it has accepted is the one of the record, and the
payload it has read is the one of the record – the record the buffer of the server
holds in the end. -/
theorem read_publication (cfg : ReadCfg) (st : ReadState)
    (h : (readLts cfg).Reach (fun st l => ReadNoFailure st l ∧ ReadSettled cfg st l) st) :
    st.client.pc ≠ .invalidMagic ∧
    (st.client.pc = .postPayload ∨ st.client.pc = .pollPayload ∨ st.client.pc = .received →
      st.client.payloadLen = (DataHeader.ofBytes cfg.order cfg.published).payloadLen) ∧
    (st.client.pc = .received → st.client.dataBuf.take st.client.payloadLen.toNat =
      Stream.window cfg.published headerSize (headerSize + st.client.payloadLen.toNat)) ∧
    (st.server.pc = .published → st.server.mem = cfg.published) := by
  obtain ⟨hserver, hclient⟩ := ReadInv.of_reach h
  obtain ⟨-, hlen⟩ := cfg.ofBytes_of_window rfl
  rw [hlen]
  refine ⟨fun hpc => ?_, fun hpc => ?_, fun hpc => ?_, hserver.mem_published⟩
  · rw [ReadClientOk, hpc] at hclient
    exact hclient
  · rcases hpc with hpc | hpc | hpc <;> rw [ReadClientOk, hpc] at hclient
    · exact hclient.2.2
    · exact hclient.1
    · exact hclient.1
  · rw [ReadClientOk, hpc] at hclient
    obtain ⟨hlen', -, hpay⟩ := hclient
    rw [hlen']
    exact hpay

/-! ### Two runs -/

theorem dataHeader_payloadLen : dataHeader.payloadLen.toNat = 123 := by
  decide +kernel

/-- The smallest buffers the message fits in. -/
def smallBuffers : ReadCfg where
  order := .little
  serverSize := 139
  clientSize := 123
  server_fits := by rw [dataHeader_payloadLen]; decide
  client_fits := dataHeader_payloadLen.le

/-- The client reads the header as soon as its first word is stored, and the payload
when the last byte is. -/
def carefulRun : List ReadLabel :=
  [.store, .store, .regMr true, .post true, .fetch 1, .fetch 0, .complete, .poll .empty, .poll .one,
    .cpu, .post true] ++ List.replicate 124 .store ++ (List.range 16).map .fetch ++
    [.complete, .poll .one, .store]

theorem read_publication_careful : ∃ st,
    (readLts smallBuffers).Reach
      (fun st l => ReadNoFailure st l ∧ ReadSettled smallBuffers st l) st ∧
    st.server.mem = smallBuffers.published ∧ st.client.payloadLen = 123 ∧
    st.client.dataBuf.take 123 = Stream.window smallBuffers.published 16 139 := by
  have hrun : (Lts.exec (readNext smallBuffers)
      (fun st l => ReadNoFailure st l ∧ ReadSettled smallBuffers st l) (readStart smallBuffers)
        carefulRun).map (fun st => (st.server.pc, st.client.pc, st.client.payloadLen)) =
      some (.published, .received, 123) := by
    decide +kernel
  obtain ⟨st, hst, hview⟩ := Option.map_eq_some_iff.mp hrun
  obtain ⟨hserver, hclient, hlen⟩ : _ ∧ _ ∧ _ := by simpa using hview
  have hr : (readLts smallBuffers).Reach
      (fun st l => ReadNoFailure st l ∧ ReadSettled smallBuffers st l) st :=
    ⟨_, rfl, Lts.path_of_exec hst⟩
  obtain ⟨-, -, hpay, hmem⟩ := read_publication smallBuffers st hr
  have hdata := hpay hclient
  rw [hlen] at hdata
  exact ⟨st, hr, hmem hserver, hlen, hdata⟩

/-- Both programs with their default options. -/
def readDefaults : ReadCfg where
  order := .little
  serverSize := 4096
  clientSize := 4096
  server_fits := by rw [dataHeader_payloadLen]; decide
  client_fits := by rw [dataHeader_payloadLen]; decide

/-- The client reads the header, after `n` stores of the server, looks at it, and reads
the payload if it may. -/
def hastyRun (n : ℕ) (rest : List ReadLabel) : List ReadLabel :=
  List.replicate n .store ++
    [.regMr true, .post true, .fetch 0, .fetch 1, .complete, .poll .one, .cpu] ++ rest

/-- **The sync promises nothing**: with no failing call, a client that is faster than the
first store ends with an invalid magic number, and one that is faster than the second
accepts a record without a payload. -/
theorem read_too_early :
    (∃ st, (readLts readDefaults).Reach ReadNoFailure st ∧ st.client.pc = .invalidMagic) ∧
    ∃ st, (readLts readDefaults).Reach ReadNoFailure st ∧ st.client.pc = .received ∧
      st.client.payloadLen = 0 ∧
      st.client.payloadLen ≠ (DataHeader.ofBytes .little readDefaults.published).payloadLen := by
  have hmagic : (Lts.exec (readNext readDefaults) ReadNoFailure (readStart readDefaults)
      (hastyRun 0 [])).map (fun st => st.client.pc) = some .invalidMagic := by
    decide +kernel
  have hlen : (Lts.exec (readNext readDefaults) ReadNoFailure (readStart readDefaults)
      (hastyRun 1 [.post true, .complete, .poll .one])).map
        (fun st => (st.client.pc, st.client.payloadLen)) = some (.received, 0) := by
    decide +kernel
  have hpub := (readDefaults.ofBytes_of_window rfl).2
  obtain ⟨st, hst, hpc⟩ := Option.map_eq_some_iff.mp hmagic
  obtain ⟨st', hst', hview⟩ := Option.map_eq_some_iff.mp hlen
  obtain ⟨hpc', hlen'⟩ : _ ∧ _ := by simpa using hview
  refine ⟨⟨st, ⟨_, rfl, Lts.path_of_exec hst⟩, hpc⟩, st', ⟨_, rfl, Lts.path_of_exec hst'⟩, hpc',
    hlen', ?_⟩
  rw [hlen']
  change (0 : UInt32) ≠ (DataHeader.ofBytes readDefaults.order readDefaults.published).payloadLen
  rw [hpub]
  decide +kernel

end RdmaBook
