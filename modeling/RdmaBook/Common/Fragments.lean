import RdmaBook.Common.Transfer

/-!
# The three metadata exchanges

The programs exchange their records over TCP in three ways. `exchange_qp_info` goes
through `write_all` and `read_all`; `exchange_info` of rdma_bench and
`exchange_ud_info` of ud_send make one call each way, and take everything but the
whole record for an error.

They are run here on connections that work (`RdmaBook.Connection`): the peer accepts
all of the local record and sends all of its own, in pieces and with interruptions.
-/

namespace RdmaBook

/-! ### Connections -/

/-- What the calls of `write` and `read` return on a connection over which a whole record
of `size` bytes is accepted in the end, and a whole record of the peer arrives. -/
structure Connection (size : ℕ) where
  ws : ℕ → IoResult
  rs : ℕ → ReadResult
  peer : List.Vector UInt8 size
  /-- The calls that are needed each way. -/
  writes : ℕ
  reads : ℕ
  not_broken_ws : ∀ i < writes, ¬(ws i).Broken
  not_broken_rs : ∀ i < reads, ¬(rs i).result.Broken
  accepted : ((List.range writes).map fun i => (ws i).moved).sum = size
  arrived : ((List.range reads).map fun i => (rs i).bytes).flatten = peer.toList

/-! ### The exchanges -/

/-- `sizeof(struct qp_info)`. -/
def sizeofQpInfo : ℕ := 32

/-- `sizeof(struct conn_info)`: the GID ends at byte 34, and the address is aligned to
eight. -/
def sizeofConnInfo : ℕ := 40

/-- `sizeof(struct ud_info)`. -/
def sizeofUdInfo : ℕ := 24

/-- **`exchange_qp_info`** after `i` results of `write` and `j` of `read`: what it has
returned, and the memory of the remote record. -/
def exchangeQpInfo (mine remote : List.Vector UInt8 sizeofQpInfo) (ws : ℕ → IoResult)
    (rs : ℕ → ReadResult) (i j : ℕ) : Option (ℤ × List UInt8) := do
  let w ← (writeAll mine.toList (UInt64.ofNat sizeofQpInfo) ws i).returned
  if w < 0 then return (-1, remote.toList)
  let got := readAll remote.toList (UInt64.ofNat sizeofQpInfo) rs j
  let r ← got.returned
  if r < 0 then return (-1, got.medium)
  return (0, got.medium)

/-- One `write` and one `read` of a record, each with the test of its result; at a failure
there is no result. -/
def exchangeOnce {size : ℕ} (remote : List.Vector UInt8 size) (ws : ℕ → IoResult)
    (rs : ℕ → ReadResult) : Option (List UInt8) :=
  if (ws 0).n ≠ size then none
  else if (rs 0).result.n ≠ size then none
  else some (readCall.effect 0 (rs 0) remote.toList)

/-- **`exchange_info`** of rdma_bench, which dies at a failure. -/
def exchangeInfo (remote : List.Vector UInt8 sizeofConnInfo) (ws : ℕ → IoResult)
    (rs : ℕ → ReadResult) : Option (List UInt8) :=
  exchangeOnce remote ws rs

/-- **`exchange_ud_info`** of ud_send, which returns `-1` at a failure. -/
def exchangeUdInfo (remote : List.Vector UInt8 sizeofUdInfo) (ws : ℕ → IoResult)
    (rs : ℕ → ReadResult) : Option (List UInt8) :=
  exchangeOnce remote ws rs

/-! ### The loops on a connection that works -/

namespace Transfer

variable {ι σ : Type*} {call : IoCall ι σ} {rs : ℕ → ι} {m : ℕ}

/-- The bytes that the first results move. -/
def movedIn (call : IoCall ι σ) (rs : ℕ → ι) (i : ℕ) : ℕ :=
  ((List.range i).map fun j => (call.result (rs j)).moved).sum

theorem movedIn_succ (i : ℕ) :
    movedIn call rs (i + 1) = movedIn call rs i + (call.result (rs i)).moved := by
  rw [movedIn, List.range_succ, List.map_append, List.sum_append, List.map_singleton,
    List.sum_singleton, movedIn]

theorem movedIn_mono {i j : ℕ} (h : i ≤ j) : movedIn call rs i ≤ movedIn call rs j := by
  induction j, h using Nat.le_induction with
  | base => exact le_rfl
  | succ j _ ih =>
    rw [movedIn_succ]
    omega

/-- **The loop on results that move all it is asked for**: it takes one result after the
other, and none of them breaks it. -/
theorem follow {len : UInt64} (medium : σ) (hm : movedIn call rs m = len.toNat)
    (hb : ∀ i < m, ¬(call.result (rs i)).Broken) : ∀ i ≤ m,
      ((start len medium).after call rs i).Exact call len.toNat ∧
      ((start len medium).after call rs i).broken = false ∧
      ((start len medium).after call rs i).p = movedIn call rs i ∧
      ((call.result (rs i)).Writes ((start len medium).after call rs i).remaining.toNat ∨
        i = m) := by
  have hwrites : ∀ i ≤ m, ∀ t : Transfer ι σ, t.Exact call len.toNat → t.p = movedIn call rs i →
      (call.result (rs i)).Writes t.remaining.toNat ∨ i = m := by
    intro i hi t hex hp
    rcases Nat.lt_or_eq_of_le hi with hlt | heq
    · refine Or.inl ?_
      have hle : movedIn call rs (i + 1) ≤ movedIn call rs m := movedIn_mono hlt
      rw [movedIn_succ, hm] at hle
      have hrem := hex.remaining_eq
      cases hr : call.result (rs i) with
      | done k =>
        rw [hr] at hle
        change k ≤ t.remaining.toNat
        have hk : (IoResult.done k).moved = k := rfl
        omega
      | eintr => trivial
      | failed => trivial
    · exact Or.inr heq
  intro i
  induction i with
  | zero =>
    intro _
    exact ⟨Exact.start len medium, rfl, rfl, hwrites 0 (Nat.zero_le m) _ (Exact.start len medium)
      rfl⟩
  | succ i ih =>
    intro hi
    obtain ⟨hex, hbr, hp, hw⟩ := ih (Nat.le_of_succ_le hi)
    have hw' := hw.resolve_right (Nat.ne_of_lt hi)
    by_cases hn : ((start len medium).after call rs i).returned = none
    · have hnext : (start len medium).after call rs (i + 1) =
          ((start len medium).after call rs i).turn call (rs i) := by rw [after, if_pos hn]
      have hex' := hex.turn hn hw'
      have hp' : (((start len medium).after call rs i).turn call (rs i)).p =
          movedIn call rs (i + 1) := by rw [turn_p, hp, movedIn_succ]
      rw [hnext]
      refine ⟨hex', ?_, hp', hwrites (i + 1) hi _ hex' hp'⟩
      rw [← Bool.not_eq_true, turn_broken, hbr, Bool.false_eq_true, false_or]
      exact hb i (Nat.lt_of_succ_le hi)
    · -- all bytes are through, and what is left moves none
      have hnext : (start len medium).after call rs (i + 1) =
          (start len medium).after call rs i := by
        rw [after, if_neg hn]
      have hfull : ((start len medium).after call rs i).p = len.toNat := by
        refine hex.returned_zero.mp ?_
        rw [returned, hbr, if_neg Bool.false_ne_true]
        rw [returned_eq_none_iff, not_and] at hn
        rw [if_neg (hn hbr)]
      have hp' : ((start len medium).after call rs i).p = movedIn call rs (i + 1) := by
        have hle : movedIn call rs (i + 1) ≤ movedIn call rs m := movedIn_mono hi
        have hge : movedIn call rs i ≤ movedIn call rs (i + 1) := movedIn_mono (Nat.le_succ i)
        omega
      rw [hnext]
      exact ⟨hex, hbr, hp', hwrites (i + 1) hi _ hex hp'⟩

end Transfer

/-- Behind the results that move everything the function has returned `0`, and it has
followed the rules on the way. -/
theorem follow_returned {ι σ : Type*} {call : IoCall ι σ} {rs : ℕ → ι} {m : ℕ} {len : UInt64}
    (medium : σ) (hm : Transfer.movedIn call rs m = len.toNat)
    (hb : ∀ i < m, ¬(call.result (rs i)).Broken) :
    (Transfer.start len medium).Fits call rs ∧
      ((Transfer.start len medium).after call rs m).returned = some 0 := by
  have hfollow := Transfer.follow medium hm hb
  obtain ⟨hex, -, hp, -⟩ := hfollow m le_rfl
  have hret := hex.returned_zero.mpr (hp.trans hm)
  refine ⟨Transfer.fits_of_returned (m := m) ?_ fun i hi _ => ?_, hret⟩
  · rw [hret]
    exact Option.some_ne_none 0
  · exact (hfollow i hi.le).2.2.2.resolve_right hi.ne

section Connections

variable {size : ℕ} (c : Connection size)

theorem Connection.movedIn_ws (buf : List UInt8) :
    Transfer.movedIn (writeCall buf) c.ws c.writes = size :=
  c.accepted

theorem Connection.movedIn_rs : Transfer.movedIn readCall c.rs c.reads = size := by
  have hlen := congrArg List.length c.arrived
  rw [List.length_flatten, List.map_map, List.Vector.toList_length] at hlen
  refine Eq.trans ?_ hlen
  rw [Transfer.movedIn]
  congr 2
  funext j
  exact (length_bytes (c.rs j)).symm

/-- The bytes `read_all` is given on a connection are those that the first results bring. -/
theorem Connection.brought_eq {buf : List UInt8} {len : UInt64} (hlen : len.toNat = size) :
    ∀ i ≤ c.reads, brought (readAll buf len c.rs i).calls =
      ((List.range i).map fun j => (c.rs j).bytes).flatten := by
  have hm : Transfer.movedIn readCall c.rs c.reads = len.toNat := c.movedIn_rs.trans hlen.symm
  have hfollow := Transfer.follow buf hm c.not_broken_rs
  intro i
  induction i with
  | zero => exact fun _ => rfl
  | succ i ih =>
    intro hi
    have hprev := ih (Nat.le_of_succ_le hi)
    obtain ⟨-, -, hp, -⟩ := hfollow i (Nat.le_of_succ_le hi)
    obtain ⟨-, -, hp', -⟩ := hfollow (i + 1) hi
    rw [List.range_succ, List.map_append, List.flatten_append, List.map_singleton,
      List.flatten_singleton, ← hprev]
    rw [Transfer.after] at hp'
    rw [readAll, Transfer.after]
    split_ifs at hp' ⊢ with hn
    · rw [Transfer.turn_calls, brought, List.map_append, List.flatten_append, List.map_singleton,
        List.flatten_singleton]
      rfl
    · -- no call is made any more, and the result would bring nothing
      have hnil : (c.rs i).bytes = [] := by
        refine List.length_eq_zero_iff.mp ?_
        rw [Transfer.movedIn_succ] at hp'
        have hlen : (readCall.result (c.rs i)).moved = (c.rs i).bytes.length :=
          (length_bytes (c.rs i)).symm
        omega
      rw [hnil, List.append_nil]
      rfl

/-- **`exchange_qp_info` succeeds on a connection that works**, and has the record of the peer
then. -/
theorem exchangeQpInfo_eq (c : Connection sizeofQpInfo)
    (mine remote : List.Vector UInt8 sizeofQpInfo)
    {i j : ℕ} (hi : c.writes ≤ i) (hj : c.reads ≤ j) :
    exchangeQpInfo mine remote c.ws c.rs i j = some (0, c.peer.toList) := by
  have hlen : (UInt64.ofNat sizeofQpInfo).toNat = sizeofQpInfo := by decide
  obtain ⟨k, rfl⟩ := Nat.exists_eq_add_of_le hi
  obtain ⟨n, rfl⟩ := Nat.exists_eq_add_of_le hj
  obtain ⟨-, hw⟩ := follow_returned [] ((c.movedIn_ws mine.toList).trans hlen.symm)
    c.not_broken_ws
  obtain ⟨hf, hr⟩ := follow_returned remote.toList (c.movedIn_rs.trans hlen.symm) c.not_broken_rs
  have hstill : writeAll mine.toList (UInt64.ofNat sizeofQpInfo) c.ws (c.writes + k) =
      writeAll mine.toList (UInt64.ofNat sizeofQpInfo) c.ws c.writes :=
    Transfer.after_of_returned (by rw [hw]; exact Option.some_ne_none 0) k
  have hstill' : readAll remote.toList (UInt64.ofNat sizeofQpInfo) c.rs (c.reads + n) =
      readAll remote.toList (UInt64.ofNat sizeofQpInfo) c.rs c.reads :=
    Transfer.after_of_returned (by rw [hr]; exact Option.some_ne_none 0) n
  have hp : (readAll remote.toList (UInt64.ofNat sizeofQpInfo) c.rs c.reads).p = sizeofQpInfo := by
    have hex := ((Transfer.Exact.start (UInt64.ofNat sizeofQpInfo) remote.toList).after hf c.reads)
    exact (hex.returned_zero.mp hr).trans hlen
  have hmem : (readAll remote.toList (UInt64.ofNat sizeofQpInfo) c.rs c.reads).medium =
      c.peer.toList := by
    rw [readAll_medium hf, hp, List.drop_eq_nil_of_le (by rw [List.Vector.toList_length]),
      List.append_nil, c.brought_eq hlen c.reads le_rfl, c.arrived]
  rw [exchangeQpInfo, hstill, hstill', writeAll, hw]
  change (do
    let r ← (readAll remote.toList (UInt64.ofNat sizeofQpInfo) c.rs c.reads).returned
    if r < 0 then return ((-1 : ℤ),
      (readAll remote.toList (UInt64.ofNat sizeofQpInfo) c.rs c.reads).medium)
    return ((0 : ℤ), (readAll remote.toList (UInt64.ofNat sizeofQpInfo) c.rs c.reads).medium)) =
      some (0, c.peer.toList)
  rw [readAll, hr, ← readAll, hmem]
  rfl

theorem IoResult.n_eq_natCast_iff {r : IoResult} {k : ℕ} : r.n = k ↔ r = .done k := by
  cases r with
  | done m => simp [IoResult.n]
  | eintr => simp [IoResult.n]
  | failed => simp [IoResult.n]

/-- **One call each way is enough exactly when** the first `write` takes the whole record and
the first `read` brings the whole record. -/
theorem exchangeOnce_eq_iff (remote : List.Vector UInt8 size) :
    exchangeOnce remote c.ws c.rs = some c.peer.toList ↔
      c.ws 0 = .done size ∧ c.rs 0 = .done c.peer.toList := by
  have heffect : ∀ bytes : List UInt8, bytes.length = size →
      readCall.effect 0 (.done bytes) remote.toList = bytes := by
    intro bytes hb
    change Stream.overlay remote.toList 0 bytes = bytes
    rw [Stream.overlay, List.drop_eq_nil_of_le (by rw [List.Vector.toList_length]; omega),
      List.take_zero, List.append_nil, List.nil_append]
  rw [exchangeOnce]
  constructor
  · intro h
    split_ifs at h with hw hr
    have hw' := IoResult.n_eq_natCast_iff.mp (not_not.mp hw)
    have hr' := IoResult.n_eq_natCast_iff.mp (not_not.mp hr)
    refine ⟨hw', ?_⟩
    cases hrs : c.rs 0 with
    | done bytes =>
      rw [hrs] at h hr'
      rw [heffect bytes (IoResult.done.inj hr')] at h
      rw [Option.some.inj h]
    | eintr =>
      rw [hrs] at hr'
      cases hr'
    | failed =>
      rw [hrs] at hr'
      cases hr'
  · rintro ⟨hw, hr⟩
    have hlen := c.peer.toList_length
    have hr' : (c.rs 0).result.n = size := by
      rw [hr, ReadResult.result, hlen]
      rfl
    rw [if_neg (not_not.mpr (IoResult.n_eq_natCast_iff.mpr hw)), if_neg (not_not.mpr hr'), hr,
      heffect _ hlen]

/-- **Where the exchanges agree**: on a connection that works `exchange_qp_info` always
succeeds with the record of the peer; `exchange_info` and `exchange_ud_info` do exactly
when the first `write` takes the whole record and the first `read` brings all of it. -/
theorem exchanges_agree_iff (q : Connection sizeofQpInfo) (c : Connection sizeofConnInfo)
    (u : Connection sizeofUdInfo) (mine remote : List.Vector UInt8 sizeofQpInfo)
    (remoteInfo : List.Vector UInt8 sizeofConnInfo) (remoteUd : List.Vector UInt8 sizeofUdInfo) :
    (∀ i j, q.writes ≤ i → q.reads ≤ j →
      exchangeQpInfo mine remote q.ws q.rs i j = some (0, q.peer.toList)) ∧
    ((exchangeInfo remoteInfo c.ws c.rs = some c.peer.toList ∧
        exchangeUdInfo remoteUd u.ws u.rs = some u.peer.toList) ↔
      (c.ws 0 = .done sizeofConnInfo ∧ c.rs 0 = .done c.peer.toList) ∧
        u.ws 0 = .done sizeofUdInfo ∧ u.rs 0 = .done u.peer.toList) :=
  ⟨fun _ _ hi hj => exchangeQpInfo_eq q mine remote hi hj,
    and_congr (exchangeOnce_eq_iff c remoteInfo) (exchangeOnce_eq_iff u remoteUd)⟩

/-- A connection that brings the record of the peer in two pieces. -/
def Connection.twoPieces : Connection sizeofConnInfo where
  ws _ := .done sizeofConnInfo
  rs i := if i = 0 then .done (List.replicate 16 1) else .done (List.replicate 24 1)
  peer := List.Vector.replicate sizeofConnInfo 1
  writes := 1
  reads := 2
  not_broken_ws := by decide
  not_broken_rs := by decide
  accepted := by decide
  arrived := by decide

/-- `exchange_info` gives up on it. -/
theorem exchanges_disagree :
    ¬∀ (c : Connection sizeofConnInfo) (remote : List.Vector UInt8 sizeofConnInfo),
    exchangeInfo remote c.ws c.rs = some c.peer.toList := by
  intro h
  have hpieces := h Connection.twoPieces (List.Vector.replicate sizeofConnInfo 0)
  revert hpieces
  decide

end Connections

end RdmaBook
