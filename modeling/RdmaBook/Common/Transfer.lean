import RdmaBook.Common.Barrier
import Mathlib.Algebra.BigOperators.Group.List.Basic

/-!
# rdma_common: `write_all` and `read_all`

The two functions are one loop around two calls. What a call returns is up to the
system: it may move fewer bytes than it was asked for, be interrupted before it has
moved any, find the stream closed, or fail. The loop has a pointer into the buffer
and an unsigned count of what is left, and goes round until the count is zero.

`RdmaBook.Transfer.turn` is one turn of it. The calls it makes are kept beside its
variables, and `RdmaBook.Transfer.Exact` is what holds of them all: each starts where
the bytes moved before it end.
-/

namespace RdmaBook

/-! ### Calls -/

/-- `ssize_t n`, what the call has returned. -/
def IoResult.n : IoResult → ℤ
  | .done k => k
  | .eintr => -1
  | .failed => -1

/-- `errno == EINTR`, behind a call that has returned `-1`. -/
def IoResult.interrupted : IoResult → Bool
  | .eintr => true
  | _ => false

/-- The number of bytes a call has moved. -/
def IoResult.moved : IoResult → ℕ
  | .done k => k
  | _ => 0

/-- The results that are neither an interruption nor the transfer of some bytes: the loop
ends at them. -/
def IoResult.Broken (r : IoResult) : Prop := r = .done 0 ∨ r = .failed

instance : DecidablePred IoResult.Broken := fun r =>
  inferInstanceAs (Decidable (r = .done 0 ∨ r = .failed))

/-- What `read` returns, with the bytes it has stored. -/
inductive ReadResult
  | done (bytes : List UInt8)
  | eintr
  | failed
  deriving DecidableEq, Repr

/-- The bytes a call of `read` has brought. -/
def ReadResult.bytes : ReadResult → List UInt8
  | .done bytes => bytes
  | _ => []

/-- What `read` returns. -/
def ReadResult.result : ReadResult → IoResult
  | .done bytes => .done bytes.length
  | .eintr => .eintr
  | .failed => .failed

/-- A call that moves bytes between a buffer and a stream: what it returns, and what it
does to the side of the two that it changes. -/
structure IoCall (ι σ : Type*) where
  result : ι → IoResult
  /-- The call is given the address of this place of the buffer. -/
  effect : ℕ → ι → σ → σ

/-- `write` from `buf`: the bytes follow what is on the stream. -/
def writeCall (buf : List UInt8) : IoCall IoResult (List UInt8) where
  result := id
  effect p r out := out ++ Stream.window buf p (p + r.moved)

/-- `read` into a buffer. -/
def readCall : IoCall ReadResult (List UInt8) where
  result := ReadResult.result
  effect p r mem := Stream.overlay mem p r.bytes

/-! ### The loop -/

/-- A call that has been made: the place of the buffer and the number of bytes it was given,
and its outcome. -/
structure MadeCall (ι : Type*) where
  p : ℕ
  remaining : UInt64
  ret : ι
  deriving DecidableEq

/-- The variables of the loop, the stream or the buffer it changes, and the calls it has
made. -/
structure Transfer (ι σ : Type*) where
  /-- `p`, as its distance from `buf`. -/
  p : ℕ
  remaining : UInt64
  /-- `return -1` has been reached. -/
  broken : Bool
  medium : σ
  calls : List (MadeCall ι)
  deriving DecidableEq

namespace Transfer

variable {ι σ : Type*} (call : IoCall ι σ)

/-- The loop before its first test. -/
def start (len : UInt64) (medium : σ) : Transfer ι σ where
  p := 0
  remaining := len
  broken := false
  medium := medium
  calls := []

/-- What the function has returned: `-1` at a failure, `0` at the loop test. -/
def returned (t : Transfer ι σ) : Option ℤ :=
  if t.broken then some (-1) else if 0 < t.remaining then none else some 0

/-- The call of a turn is made. -/
def made (t : Transfer ι σ) (r : ι) : Transfer ι σ :=
  { t with
    medium := call.effect t.p r t.medium
    calls := t.calls ++ [⟨t.p, t.remaining, r⟩] }

/-- The body of the loop, where the call gives `r`. -/
def turn (t : Transfer ι σ) (r : ι) : Transfer ι σ :=
  let n := (call.result r).n
  let t' := t.made call r
  if n ≤ 0 then
    if n < 0 ∧ (call.result r).interrupted then t' else { t' with broken := true }
  else
    { t' with
      p := t'.p + n.toNat
      remaining := t'.remaining - UInt64.ofNat n.toNat }

/-- The loop, after at most `i` turns: once the function has returned no call is made. -/
def after (t : Transfer ι σ) (rs : ℕ → ι) : ℕ → Transfer ι σ
  | 0 => t
  | i + 1 =>
    if (after t rs i).returned = none then (after t rs i).turn call (rs i) else after t rs i

/-- A call moves no more bytes than it is asked for. -/
def Fits (t : Transfer ι σ) (rs : ℕ → ι) : Prop :=
  ∀ i, (after call t rs i).returned = none →
    (call.result (rs i)).Writes (after call t rs i).remaining.toNat

end Transfer

/-- **`write_all`**: the bytes it has put on the stream, and the state of its loop, after `i`
results of `write`. -/
def writeAll (buf : List UInt8) (len : UInt64) (rs : ℕ → IoResult) (i : ℕ) :
    Transfer IoResult (List UInt8) :=
  (Transfer.start len []).after (writeCall buf) rs i

/-- **`read_all`**: the buffer, and the state of its loop, after `i` results of `read`. -/
def readAll (buf : List UInt8) (len : UInt64) (rs : ℕ → ReadResult) (i : ℕ) :
    Transfer ReadResult (List UInt8) :=
  (Transfer.start len buf).after readCall rs i

/-! ### One turn -/

namespace Transfer

variable {ι σ : Type*} {call : IoCall ι σ} {t : Transfer ι σ} {r : ι}

/-- The bytes moved by some calls. -/
def movedBy (call : IoCall ι σ) (calls : List (MadeCall ι)) : ℕ :=
  (calls.map fun c => (call.result c.ret).moved).sum

@[simp] theorem movedBy_append (cs cs' : List (MadeCall ι)) :
    movedBy call (cs ++ cs') = movedBy call cs + movedBy call cs' := by
  rw [movedBy, List.map_append, List.sum_append, movedBy, movedBy]

@[simp] theorem movedBy_single (c : MadeCall ι) :
    movedBy call [c] = (call.result c.ret).moved := by
  rw [movedBy, List.map_singleton, List.sum_singleton]

/-- Some bytes have been moved. -/
theorem turn_of_pos {k : ℕ} (hr : call.result r = .done k) (hk : 0 < k) :
    t.turn call r =
      { t.made call r with p := t.p + k, remaining := t.remaining - UInt64.ofNat k } := by
  have hn : ¬(call.result r).n ≤ 0 := by
    rw [hr, IoResult.n]
    omega
  rw [turn, if_neg hn, hr]
  rfl

/-- `continue`. -/
theorem turn_of_eintr (hr : call.result r = .eintr) : t.turn call r = t.made call r := by
  have hn : (call.result r).n < 0 := by
    rw [hr]
    decide
  rw [turn, if_pos hn.le, if_pos ⟨hn, by rw [hr]; rfl⟩]

/-- `return -1`. -/
theorem turn_of_broken (hr : (call.result r).Broken) :
    t.turn call r = { t.made call r with broken := true } := by
  rw [turn]
  rcases hr with hr | hr
  · have hn : (call.result r).n = 0 := by
      rw [hr]
      rfl
    rw [if_pos hn.le, if_neg fun h => h.1.ne hn]
  · have hn : (call.result r).n = -1 := by
      rw [hr]
      rfl
    have hi : ¬(call.result r).interrupted = true := by
      rw [hr]
      decide
    rw [if_pos (by omega), if_neg fun h => hi h.2]

/-- The three ways of a turn. -/
theorem result_cases (r : IoResult) : r.Broken ∨ r = .eintr ∨ ∃ k, 0 < k ∧ r = .done k := by
  cases r with
  | done k =>
    rcases Nat.eq_zero_or_pos k with rfl | hk
    · exact Or.inl (Or.inl rfl)
    · exact Or.inr (Or.inr ⟨k, hk, rfl⟩)
  | eintr => exact Or.inr (Or.inl rfl)
  | failed => exact Or.inl (Or.inr rfl)

theorem moved_of_broken {r : IoResult} (h : r.Broken) : r.moved = 0 := by
  rcases h with rfl | rfl <;> rfl

/-- The pointer moves on by what the call has moved. -/
@[simp] theorem turn_p : (t.turn call r).p = t.p + (call.result r).moved := by
  rcases result_cases (call.result r) with hr | hr | ⟨k, hk, hr⟩
  · rw [turn_of_broken hr, moved_of_broken hr]
    rfl
  · rw [turn_of_eintr hr, hr]
    rfl
  · rw [turn_of_pos hr hk, hr]
    rfl

@[simp] theorem turn_medium : (t.turn call r).medium = call.effect t.p r t.medium := by
  rw [turn]
  split_ifs <;> rfl

@[simp] theorem turn_calls : (t.turn call r).calls = t.calls ++ [⟨t.p, t.remaining, r⟩] := by
  rw [turn]
  split_ifs <;> rfl

/-- The count does not underflow, as the call has moved no more than it. -/
theorem turn_remaining (h : (call.result r).Writes t.remaining.toNat) :
    (t.turn call r).remaining.toNat = t.remaining.toNat - (call.result r).moved := by
  rcases result_cases (call.result r) with hr | hr | ⟨k, hk, hr⟩
  · rw [turn_of_broken hr, moved_of_broken hr]
    rfl
  · rw [turn_of_eintr hr, hr]
    rfl
  · rw [hr] at h
    have hle : k ≤ t.remaining.toNat := h
    have hnat : (UInt64.ofNat k).toNat = k :=
      UInt64.toNat_ofNat_of_lt' (hle.trans_lt t.remaining.toNat_lt)
    have hle' : UInt64.ofNat k ≤ t.remaining := by rwa [UInt64.le_iff_toNat_le, hnat]
    rw [turn_of_pos hr hk, hr, UInt64.toNat_sub_of_le _ _ hle', hnat]
    rfl

/-- The loop is left at the results that say so. -/
theorem turn_broken :
    (t.turn call r).broken = true ↔ t.broken = true ∨ (call.result r).Broken := by
  rcases result_cases (call.result r) with hr | hr | ⟨k, hk, hr⟩
  · rw [turn_of_broken hr]
    exact ⟨fun _ => Or.inr hr, fun _ => rfl⟩
  · rw [turn_of_eintr hr, hr]
    simp [IoResult.Broken, made]
  · rw [turn_of_pos hr hk, hr]
    simp [IoResult.Broken, made, hk.ne']

theorem returned_eq_none_iff : t.returned = none ↔ t.broken = false ∧ 0 < t.remaining := by
  rw [returned]
  split_ifs with hb hr <;> simp_all

/-! ### The whole loop -/

/-- **An exact transfer** of `len` bytes, as far as it has come: what has been moved is a
prefix, the count is what is left, every call was given the place behind that prefix and
what was left there, which was something; and the function returns `0` exactly with all
bytes through, `-1` exactly behind a call that ends the loop. -/
structure Exact (call : IoCall ι σ) (len : ℕ) (t : Transfer ι σ) : Prop where
  p_eq : t.p = movedBy call t.calls
  p_le : t.p ≤ len
  remaining_eq : t.remaining.toNat = len - t.p
  made : ∀ k c, t.calls[k]? = some c →
    c.p = movedBy call (t.calls.take k) ∧ c.p < len ∧ c.remaining.toNat = len - c.p
  broken_iff : t.broken = true ↔ ∃ c ∈ t.calls, (call.result c.ret).Broken
  short : t.broken = true → t.p < len

theorem Exact.start (len : UInt64) (medium : σ) :
    (Transfer.start (ι := ι) len medium).Exact call len.toNat where
  p_eq := rfl
  p_le := Nat.zero_le _
  remaining_eq := rfl
  made k c h := by cases h
  broken_iff := by simp [Transfer.start]
  short h := by cases h

theorem Exact.turn {len : ℕ} (h : t.Exact call len) (hn : t.returned = none)
    (hw : (call.result r).Writes t.remaining.toNat) : (t.turn call r).Exact call len := by
  obtain ⟨hb, hpos⟩ := returned_eq_none_iff.mp hn
  have hlt : t.p < len := by
    have hr := h.remaining_eq
    have h₀ : 0 < t.remaining.toNat := UInt64.lt_iff_toNat_lt.mp hpos
    omega
  have hmoved : (call.result r).moved ≤ t.remaining.toNat := by
    cases hr : call.result r with
    | done k => rwa [hr] at hw
    | eintr => exact Nat.zero_le _
    | failed => exact Nat.zero_le _
  have hrem := h.remaining_eq
  refine ⟨?_, ?_, ?_, ?_, ?_, ?_⟩
  · rw [turn_p, turn_calls, movedBy_append, movedBy_single, ← h.p_eq]
  · rw [turn_p]
    omega
  · rw [turn_remaining hw, turn_p]
    omega
  · intro k c hc
    rw [turn_calls] at hc ⊢
    rcases Nat.lt_or_ge k t.calls.length with hk | hk
    · -- a call made before
      rw [List.getElem?_append_left hk] at hc
      rw [List.take_append_of_le_length hk.le]
      exact h.made k c hc
    · -- the call of this turn
      rw [List.getElem?_append_right hk, List.getElem?_singleton] at hc
      split at hc
      · obtain rfl := Option.some.inj hc
        rw [List.take_append_of_le_length (by omega), List.take_of_length_le hk]
        exact ⟨h.p_eq, hlt, hrem⟩
      · cases hc
  · rw [turn_broken, turn_calls, h.broken_iff]
    simp [or_and_right, exists_or]
  · intro hbroken
    have hr : (call.result r).moved = 0 := by
      rcases turn_broken.mp hbroken with hb' | hr
      · rw [hb] at hb'
        cases hb'
      · exact moved_of_broken hr
    rw [turn_p]
    omega

/-- The function returns `0` exactly when all bytes are through. -/
theorem Exact.returned_zero {len : ℕ} (h : t.Exact call len) : t.returned = some 0 ↔ t.p = len := by
  have hrem := h.remaining_eq
  have hle := h.p_le
  rw [returned]
  split_ifs with hb hr
  · have hlt := h.short hb
    simp only [Option.some.injEq]
    omega
  · have h₀ : 0 < t.remaining.toNat := UInt64.lt_iff_toNat_lt.mp hr
    simp only [false_iff]
    omega
  · have h₀ : t.remaining.toNat = 0 := by
      have hn : ¬0 < t.remaining.toNat := fun h₀ => hr (UInt64.lt_iff_toNat_lt.mpr h₀)
      omega
    simp only [true_iff]
    omega

/-- The function returns `-1` exactly behind a call that ends the loop. -/
theorem Exact.returned_minus_one {len : ℕ} (h : t.Exact call len) :
    t.returned = some (-1) ↔ ∃ c ∈ t.calls, (call.result c.ret).Broken := by
  rw [← h.broken_iff, returned]
  split_ifs with hb hr <;> simp [hb]

variable {rs : ℕ → ι}

/-- A property of the loop that its turns keep. -/
theorem after_induct {I : Transfer ι σ → Prop} (hf : t.Fits call rs) (h₀ : I t)
    (hturn : ∀ a r, I a → a.returned = none → (call.result r).Writes a.remaining.toNat →
      I (a.turn call r)) : ∀ i, I (t.after call rs i) := by
  intro i
  induction i with
  | zero => exact h₀
  | succ i ih =>
    rw [after]
    split_ifs with hn
    · exact hturn _ _ ih hn (hf i hn)
    · exact ih

/-- Once the function has returned nothing happens any more. -/
theorem after_of_returned {i : ℕ} (h : (t.after call rs i).returned ≠ none) :
    ∀ k, t.after call rs (i + k) = t.after call rs i := by
  intro k
  induction k with
  | zero => rfl
  | succ k ih => rw [← Nat.add_assoc, after, ih, if_neg h]

/-- What a call moves has to be looked at only until the function returns. -/
theorem fits_of_returned {m : ℕ} (h : (t.after call rs m).returned ≠ none)
    (hf : ∀ i < m, (t.after call rs i).returned = none →
      (call.result (rs i)).Writes (t.after call rs i).remaining.toNat) : t.Fits call rs := by
  intro i hn
  rcases Nat.lt_or_ge i m with hi | hi
  · exact hf i hi hn
  · obtain ⟨k, rfl⟩ := Nat.exists_eq_add_of_le hi
    rw [after_of_returned h k] at hn
    exact absurd hn h

theorem Exact.after {len : ℕ} (h : t.Exact call len) (hf : t.Fits call rs) (i : ℕ) :
    (t.after call rs i).Exact call len :=
  after_induct hf h (fun _ _ ha hn hw => ha.turn hn hw) i

/-- **The loop ends** unless it is interrupted again and again: every other call moves it on
by a byte at least, or ends it. -/
theorem Exact.ends {len : ℕ} (h : t.Exact call len) (hf : t.Fits call rs) {m : ℕ}
    (hm : ∀ i, m ≤ i → call.result (rs i) ≠ .eintr) : ∃ i, (t.after call rs i).returned ≠ none := by
  by_contra hno
  have hnone : ∀ i, (t.after call rs i).returned = none := fun i =>
    not_not.mp fun hi => hno ⟨i, hi⟩
  have hbytes : ∀ k, k ≤ (t.after call rs (m + k)).p := by
    intro k
    induction k with
    | zero => exact Nat.zero_le _
    | succ k ih =>
      have hsucc : t.after call rs (m + (k + 1)) =
          (t.after call rs (m + k)).turn call (rs (m + k)) := by
        rw [← Nat.add_assoc, Transfer.after, if_pos (hnone _)]
      have hstill := hnone (m + (k + 1))
      rw [hsucc] at hstill
      have hbroken := (returned_eq_none_iff.mp hstill).1
      have hmoved : 0 < (call.result (rs (m + k))).moved := by
        have hne := hm (m + k) (Nat.le_add_right m k)
        have hnb : ¬(call.result (rs (m + k))).Broken := fun hb => by
          rw [turn_broken.mpr (Or.inr hb)] at hbroken
          cases hbroken
        cases hr : call.result (rs (m + k)) with
        | done n =>
          refine Nat.pos_of_ne_zero fun hn => hnb (Or.inl ?_)
          rw [hr]
          exact congrArg IoResult.done hn
        | eintr => exact absurd hr hne
        | failed => exact absurd (Or.inr hr) hnb
      rw [hsucc, turn_p]
      omega
  have hex := h.after hf (m + (len + 1))
  exact absurd ((hbytes (len + 1)).trans hex.p_le) (by omega)

end Transfer

/-! ### The two functions -/

/-- **What `write_all` has put on the stream** is a prefix of its buffer. -/
theorem writeAll_medium {buf : List UInt8} {len : UInt64} {ws : ℕ → IoResult}
    (hf : (Transfer.start len []).Fits (writeCall buf) ws) (i : ℕ) :
    (writeAll buf len ws i).medium = buf.take (writeAll buf len ws i).p := by
  refine Transfer.after_induct (I := fun t => t.medium = buf.take t.p) hf rfl ?_ i
  intro t r ht hn hw
  rw [Transfer.turn_medium, Transfer.turn_p, ht]
  change buf.take t.p ++ Stream.window buf t.p (t.p + r.moved) = buf.take (t.p + r.moved)
  rw [Stream.window, Nat.add_sub_cancel_left, ← List.take_add]

/-- The bytes that some calls of `read` have brought. -/
def brought (calls : List (MadeCall ReadResult)) : List UInt8 :=
  (calls.map fun c => c.ret.bytes).flatten

theorem length_bytes (r : ReadResult) : r.bytes.length = r.result.moved := by
  cases r with
  | done bytes => rfl
  | eintr => rfl
  | failed => rfl

theorem length_brought (calls : List (MadeCall ReadResult)) :
    (brought calls).length = Transfer.movedBy readCall calls := by
  induction calls with
  | nil => rfl
  | cons c calls ih =>
    have hcons : Transfer.movedBy readCall (c :: calls) =
        c.ret.result.moved + Transfer.movedBy readCall calls := Transfer.movedBy_append [c] calls
    have hflat : brought (c :: calls) = c.ret.bytes ++ brought calls := rfl
    rw [hflat, List.length_append, ih, hcons, length_bytes]

/-- **What `read_all` has made of its buffer**: the bytes it was given, one behind the other
from the start, and behind them the buffer as it was. -/
theorem readAll_medium {buf : List UInt8} {len : UInt64} {rs : ℕ → ReadResult}
    (hf : (Transfer.start len buf).Fits readCall rs) (i : ℕ) :
    (readAll buf len rs i).medium =
      brought (readAll buf len rs i).calls ++ buf.drop (readAll buf len rs i).p := by
  have hboth : (readAll buf len rs i).Exact readCall len.toNat ∧
      (readAll buf len rs i).medium =
        brought (readAll buf len rs i).calls ++ buf.drop (readAll buf len rs i).p := by
    refine Transfer.after_induct (I := fun t => t.Exact readCall len.toNat ∧
      t.medium = brought t.calls ++ buf.drop t.p) hf ⟨Transfer.Exact.start len buf, rfl⟩ ?_ i
    rintro t r ⟨hex, ht⟩ hn hw
    refine ⟨hex.turn hn hw, ?_⟩
    have hp : (brought t.calls).length = t.p := by rw [length_brought, hex.p_eq]
    have hcalls : brought (t.calls ++ [⟨t.p, t.remaining, r⟩]) = brought t.calls ++ r.bytes := by
      rw [brought, List.map_append, List.flatten_append, brought, List.map_singleton,
        List.flatten_singleton]
    rw [Transfer.turn_medium, Transfer.turn_p, Transfer.turn_calls, hcalls, ht]
    change Stream.overlay _ t.p r.bytes = brought t.calls ++ r.bytes ++
      buf.drop (t.p + r.result.moved)
    rw [Stream.overlay, List.take_left' hp, List.drop_append, hp, Nat.add_sub_cancel_left,
      List.drop_eq_nil_of_le (by omega), List.nil_append, List.drop_drop, length_bytes]
  exact hboth.2

/-- **`write_all` and `read_all` transfer exactly what they are told to**, whatever the calls
return: in every state of the loop the transfer is exact, what has been moved is a prefix of
the buffer in order, the results of the function are those of an exact transfer, and the
loop ends when only finitely many calls are interrupted. -/
theorem writeAll_readAll_exact (buf : List UInt8) (len : UInt64) :
    (∀ ws, (Transfer.start len []).Fits (writeCall buf) ws →
      (∀ i, (writeAll buf len ws i).Exact (writeCall buf) len.toNat ∧
        (writeAll buf len ws i).medium = buf.take (writeAll buf len ws i).p ∧
        ((writeAll buf len ws i).returned = some 0 ↔ (writeAll buf len ws i).p = len.toNat) ∧
        ((writeAll buf len ws i).returned = some (-1) ↔
          ∃ c ∈ (writeAll buf len ws i).calls, c.ret.Broken)) ∧
      ((∃ m, ∀ i, m ≤ i → ws i ≠ .eintr) → ∃ i, (writeAll buf len ws i).returned ≠ none)) ∧
    ∀ rs, (Transfer.start len buf).Fits readCall rs →
      (∀ i, (readAll buf len rs i).Exact readCall len.toNat ∧
        (readAll buf len rs i).medium =
          brought (readAll buf len rs i).calls ++ buf.drop (readAll buf len rs i).p ∧
        ((readAll buf len rs i).returned = some 0 ↔ (readAll buf len rs i).p = len.toNat) ∧
        ((readAll buf len rs i).returned = some (-1) ↔
          ∃ c ∈ (readAll buf len rs i).calls, c.ret.result.Broken)) ∧
      ((∃ m, ∀ i, m ≤ i → rs i ≠ .eintr) → ∃ i, (readAll buf len rs i).returned ≠ none) := by
  constructor
  · intro ws hf
    have hex := fun i => (Transfer.Exact.start len []).after hf i
    refine ⟨fun i => ⟨hex i, writeAll_medium hf i, (hex i).returned_zero,
      (hex i).returned_minus_one⟩, ?_⟩
    rintro ⟨m, hm⟩
    exact (Transfer.Exact.start len []).ends hf hm
  · intro rs hf
    have hex := fun i => (Transfer.Exact.start len buf).after hf i
    refine ⟨fun i => ⟨hex i, readAll_medium hf i, (hex i).returned_zero,
      (hex i).returned_minus_one⟩, ?_⟩
    rintro ⟨m, hm⟩
    refine (Transfer.Exact.start len buf).ends hf (m := m) fun i hi => ?_
    have hne := hm i hi
    change (rs i).result ≠ .eintr
    cases hr : rs i with
    | done bytes => exact fun h => by cases h
    | eintr => exact absurd hr hne
    | failed => exact fun h => by cases h

/-- Three bytes in two pieces, behind an interruption, and a stream that closes behind the
first of two bytes. -/
theorem writeAll_readAll_exact_short :
    (writeAll [1, 2, 3] 3 ([.eintr, .done 2, .done 1].getD · .failed) 3).returned = some 0 ∧
      (readAll [0, 0] 2 ([.done [7], .done []].getD · .eintr) 2).returned = some (-1) := by
  have hws : (Transfer.start 3 []).Fits (writeCall [1, 2, 3])
      ([IoResult.eintr, .done 2, .done 1].getD · .failed) :=
    Transfer.fits_of_returned (m := 3) (by decide) (by decide)
  have hrs : (Transfer.start 2 [0, 0]).Fits readCall
      ([ReadResult.done [7], .done []].getD · .eintr) :=
    Transfer.fits_of_returned (m := 2) (by decide) (by decide)
  have hw := ((writeAll_readAll_exact [1, 2, 3] 3).1 _ hws).1 3
  have hr := ((writeAll_readAll_exact [0, 0] 2).2 _ hrs).1 2
  exact ⟨hw.2.2.1.mpr (by decide), hr.2.2.2.mpr ⟨⟨1, 1, .done []⟩, by decide, Or.inl rfl⟩⟩

/-! ### The loops of the handshake -/

section Handshake

variable {order : ByteOrder} {host : Host} {p : OobProc} {msg : OobMsg} {ret : IoResult}

/-- **A `write` of the handshake is a turn of the loop.** -/
theorem oobWrite_eq_turn {t t' : Transfer IoResult (List UInt8)}
    (ht' : t.turn (writeCall (host.msg order msg)) ret = t') (hn : t.returned = none)
    (hw : ret.Writes t.remaining.toNat) (hpc : p.pc = .writeAll msg t.p t.remaining.toNat) :
    oobWrite order host p t.medium ret =
      some (if t'.broken then { p with pc := .exited }
        else { p with pc := .writeAll msg t'.p t'.remaining.toNat }, t'.medium) := by
  obtain ⟨hb, hpos⟩ := Transfer.returned_eq_none_iff.mp hn
  have hpos' : 0 < t.remaining.toNat := UInt64.lt_iff_toNat_lt.mp hpos
  have hbroken : t'.broken = true ↔ ret.Broken := by
    rw [← ht', Transfer.turn_broken, hb, Bool.false_eq_true, false_or]
    rfl
  have hp : t'.p = t.p + ret.moved := by
    rw [← ht', Transfer.turn_p]
    rfl
  have hrem : t'.remaining.toNat = t.remaining.toNat - ret.moved := by
    rw [← ht', Transfer.turn_remaining hw]
    rfl
  have hmedium : t'.medium = t.medium ++ Stream.window (host.msg order msg) t.p
      (t.p + ret.moved) := by
    rw [← ht', Transfer.turn_medium]
    rfl
  rw [hp, hrem, hmedium]
  simp only [oobWrite, hpc, if_pos hpos']
  cases ret with
  | done n =>
    rcases Nat.eq_zero_or_pos n with rfl | hpos
    · -- a zero ends the process
      rw [if_pos (hbroken.mpr (Or.inl rfl))]
      simp [IoResult.moved]
    · have hnb : ¬(IoResult.done n).Broken := by simp [IoResult.Broken, hpos.ne']
      have hle : n ≤ t.remaining.toNat := hw
      rw [if_neg fun h => hnb (hbroken.mp h)]
      simp [IoResult.moved, Stream.window, hpos.ne', hle]
  | eintr =>
    have hnb : ¬IoResult.eintr.Broken := by simp [IoResult.Broken]
    rw [if_neg fun h => hnb (hbroken.mp h)]
    simp [IoResult.moved, ← hpc]
  | failed =>
    rw [if_pos (hbroken.mpr (Or.inr rfl))]
    simp [IoResult.moved]

end Handshake

end RdmaBook
