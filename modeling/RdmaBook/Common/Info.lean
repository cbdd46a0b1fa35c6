import RdmaBook.Lib.Bytes
import RdmaBook.Verbs.Basic

/-!
# rdma_common: the records exchanged over TCP

`struct qp_info` and `struct mr_info`, and what `write_all` and `read_all` see of
them: their memory. The integers stand in the byte order of the host, and no
record has a gap, so on hosts of one byte order the memory of a record read back
is the record (`RdmaBook.QpInfo.ofBytes_toBytes`, `RdmaBook.MrInfo.ofBytes_toBytes`).
-/

namespace RdmaBook

/-- `struct qp_info`. -/
structure QpInfo where
  qpNum : UInt32
  lid : UInt32
  psn : UInt32
  padding : UInt32
  gid : Gid
  deriving DecidableEq

/-- `struct mr_info`. -/
structure MrInfo where
  addr : UInt64
  rkey : UInt32
  length : UInt32
  deriving DecidableEq

/-! ### Memory -/

section Memory

variable (order : ByteOrder)

/-- The memory of a `uint32_t`. -/
def u32Bytes (x : UInt32) : List UInt8 := order.put 4 x.toNat

/-- The memory of a `uint64_t`. -/
def u64Bytes (x : UInt64) : List UInt8 := order.put 8 x.toNat

/-- The `uint32_t` at an offset of some memory. -/
def u32At (bs : List UInt8) (off : ℕ) : UInt32 := UInt32.ofNat (order.get ((bs.drop off).take 4))

/-- The `uint64_t` at an offset of some memory. -/
def u64At (bs : List UInt8) (off : ℕ) : UInt64 := UInt64.ofNat (order.get ((bs.drop off).take 8))

/-- The sixteen bytes of a GID at an offset of some memory. -/
def gidAt (bs : List UInt8) (off : ℕ) : Gid where
  raw := ((bs.drop off).take 16 ++ List.replicate 16 0).take 16
  length_raw := by
    rw [List.length_take, List.length_append, List.length_replicate]
    omega

theorem u32At_u32Bytes (p : List UInt8) (x : UInt32) (s : List UInt8) :
    u32At order (p ++ (u32Bytes order x ++ s)) p.length = x := by
  have hlen : (u32Bytes order x).length = 4 := ByteOrder.length_put order 4 _
  rw [u32At, List.drop_left, ← hlen, List.take_left, u32Bytes, ByteOrder.get_put order x.toNat_lt,
    UInt32.ofNat_toNat]

theorem u64At_u64Bytes (p : List UInt8) (x : UInt64) (s : List UInt8) :
    u64At order (p ++ (u64Bytes order x ++ s)) p.length = x := by
  have hlen : (u64Bytes order x).length = 8 := ByteOrder.length_put order 8 _
  rw [u64At, List.drop_left, ← hlen, List.take_left, u64Bytes, ByteOrder.get_put order x.toNat_lt,
    UInt64.ofNat_toNat]

theorem gidAt_raw (p : List UInt8) (gid : Gid) : gidAt (p ++ gid.raw) p.length = gid := by
  obtain ⟨raw, hraw⟩ := gid
  have htake : (raw ++ List.replicate 16 0).take 16 = raw := by
    rw [← hraw, List.take_left]
  simp only [gidAt, List.drop_left, Gid.mk.injEq]
  rw [← hraw, List.take_length, hraw, htake]

/-- The memory of a `struct qp_info`. -/
def QpInfo.toBytes (info : QpInfo) : List UInt8 :=
  u32Bytes order info.qpNum ++ (u32Bytes order info.lid ++ (u32Bytes order info.psn ++
    (u32Bytes order info.padding ++ info.gid.raw)))

/-- The `struct qp_info` in some memory. -/
def QpInfo.ofBytes (bs : List UInt8) : QpInfo where
  qpNum := u32At order bs 0
  lid := u32At order bs 4
  psn := u32At order bs 8
  padding := u32At order bs 12
  gid := gidAt bs 16

/-- The memory of a `struct mr_info`. -/
def MrInfo.toBytes (info : MrInfo) : List UInt8 :=
  u64Bytes order info.addr ++ (u32Bytes order info.rkey ++ u32Bytes order info.length)

/-- The `struct mr_info` in some memory. -/
def MrInfo.ofBytes (bs : List UInt8) : MrInfo where
  addr := u64At order bs 0
  rkey := u32At order bs 8
  length := u32At order bs 12

end Memory

section RoundTrip

variable {order : ByteOrder}

@[simp] theorem length_u32Bytes (x : UInt32) : (u32Bytes order x).length = 4 :=
  ByteOrder.length_put order 4 _

@[simp] theorem length_u64Bytes (x : UInt64) : (u64Bytes order x).length = 8 :=
  ByteOrder.length_put order 8 _

@[simp] theorem QpInfo.length_toBytes (info : QpInfo) : (info.toBytes order).length = 32 := by
  simp [QpInfo.toBytes, info.gid.length_raw]

@[simp] theorem MrInfo.length_toBytes (info : MrInfo) : (info.toBytes order).length = 16 := by
  simp [MrInfo.toBytes]

/-- **The memory of a `struct qp_info` is read back as the record.** -/
theorem QpInfo.ofBytes_toBytes (info : QpInfo) :
    QpInfo.ofBytes order (info.toBytes order) = info := by
  obtain ⟨qpNum, lid, psn, padding, gid⟩ := info
  have h₀ := u32At_u32Bytes order [] qpNum
    (u32Bytes order lid ++ (u32Bytes order psn ++ (u32Bytes order padding ++ gid.raw)))
  have h₁ := u32At_u32Bytes order (u32Bytes order qpNum) lid
    (u32Bytes order psn ++ (u32Bytes order padding ++ gid.raw))
  have h₂ := u32At_u32Bytes order (u32Bytes order qpNum ++ u32Bytes order lid) psn
    (u32Bytes order padding ++ gid.raw)
  have h₃ := u32At_u32Bytes order
    (u32Bytes order qpNum ++ (u32Bytes order lid ++ u32Bytes order psn)) padding gid.raw
  have h₄ := gidAt_raw (u32Bytes order qpNum ++ (u32Bytes order lid ++ (u32Bytes order psn ++
    u32Bytes order padding))) gid
  simp only [List.nil_append, List.length_nil, List.append_assoc, List.length_append,
    length_u32Bytes] at h₀ h₁ h₂ h₃ h₄
  simp only [QpInfo.ofBytes, QpInfo.toBytes, h₀, h₁, h₂, h₃, h₄]

/-- **The memory of a `struct mr_info` is read back as the record.** -/
theorem MrInfo.ofBytes_toBytes (info : MrInfo) :
    MrInfo.ofBytes order (info.toBytes order) = info := by
  obtain ⟨addr, rkey, length⟩ := info
  have h₀ := u64At_u64Bytes order [] addr (u32Bytes order rkey ++ u32Bytes order length)
  have h₁ := u32At_u32Bytes order (u64Bytes order addr) rkey (u32Bytes order length)
  have h₂ := u32At_u32Bytes order (u64Bytes order addr ++ u32Bytes order rkey) length []
  simp only [List.nil_append, List.append_nil, List.length_nil, List.append_assoc,
    List.length_append, length_u32Bytes, length_u64Bytes] at h₀ h₁ h₂
  simp only [MrInfo.ofBytes, MrInfo.toBytes, h₀, h₁, h₂]

end RoundTrip

end RdmaBook
