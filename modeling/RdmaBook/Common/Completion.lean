import RdmaBook.Common.Synchronized

/-!
# The setup comes to its end

A process of the setup waits in a `read`, and its peer may wait in one, too. What keeps them from
waiting for each other is a balance: whenever a process reads, it has written as many bytes as
it will have read then (`RdmaBook.Ahead`). So of two processes that wait, each would have written
more than the other. The `read` that waits for the end of the data phase is the one exception,
and only one process makes it.

Where no check fails, every call of both processes can be made, from every state, and nothing is
left unread (`RdmaBook.setup_completes`).
-/

namespace RdmaBook

/-! ### The bytes of a call -/

/-- The number of bytes a call writes. -/
def SetupCall.toWrite : SetupCall → ℕ
  | .writeAll bytes => bytes.length
  | .write record => record.length
  | .syncWrite => 1
  | _ => 0

/-- The number of bytes a call reads. -/
def SetupCall.toRead : SetupCall → ℕ
  | .readAll remaining => remaining
  | .read size => size
  | .syncRead => 1
  | .doneRead => 1
  | _ => 0

/-- What is still to be written. -/
def toWrite (todo : List SetupCall) : ℕ := (todo.map SetupCall.toWrite).sum

/-- What is still to be read. -/
def toRead (todo : List SetupCall) : ℕ := (todo.map SetupCall.toRead).sum

@[simp] theorem toWrite_cons (c : SetupCall) (rest : List SetupCall) :
    toWrite (c :: rest) = c.toWrite + toWrite rest :=
  List.sum_cons ..

@[simp] theorem toRead_cons (c : SetupCall) (rest : List SetupCall) :
    toRead (c :: rest) = c.toRead + toRead rest :=
  List.sum_cons ..

/-- A call that a process may come to when it has written `d` bytes more than it has read: it reads
no more than those, or waits for the end of the data phase of its peer. -/
def SetupCall.Covered (d : ℤ) (c : SetupCall) : Prop :=
  c ≠ .read 0 ∧ (c.toRead : ℤ) ≤ d + if c = .doneRead then 1 else 0

/-- **A process that is ahead**: it comes to no call before it has written what the call reads. -/
def Ahead : ℤ → List SetupCall → Prop
  | _, [] => True
  | d, c :: rest => c.Covered d ∧ Ahead (d + c.toWrite - c.toRead) rest

/-- **No check fails in the step**: the calls of the two loops may be short or interrupted, any
other call moves what it is to move, and the process does not end on its own. -/
def SyncProc.NoFailure (p : SyncProc) (l : SyncLabel) : Prop :=
  match l, p.todo with
  | .cpu, _ => True
  | .exit, _ => False
  | .modify ok, _ => ok = true
  | .write ret, .writeAll _ :: _ => ret ≠ .failed ∧ ret ≠ .done 0
  | .write ret, c :: _ => ret = .done c.toWrite
  | .read ret, .readAll _ :: _ => ret ≠ .failed ∧ ret ≠ .done 0
  | .read ret, c :: _ => ret = .done c.toRead
  | _, [] => False

instance SyncProc.decidableNoFailure (p : SyncProc) (l : SyncLabel) :
    Decidable (p.NoFailure l) := by
  unfold SyncProc.NoFailure
  split <;> infer_instance

/-- No check fails in the step of a process. -/
def SyncNoFailure (st : SyncState) (l : Side × SyncLabel) : Prop := (st.proc l.1).NoFailure l.2

instance (st : SyncState) (l : Side × SyncLabel) : Decidable (SyncNoFailure st l) :=
  inferInstanceAs (Decidable ((st.proc l.1).NoFailure l.2))

/-! ### A step -/

/-- **What a step without a failure does**: it moves bytes of the calls that are left, and keeps
the process ahead. -/
structure SyncClean (p p' : SyncProc) (inp : List UInt8) (k : ℕ) (out : List UInt8) : Prop where
  gone : p'.gone = false
  avail : k ≤ inp.length
  writes : out.length + toWrite p'.todo = toWrite p.todo
  reads : k + toRead p'.todo = toRead p.todo
  ahead : ∀ d, Ahead d p.todo → Ahead (d + out.length - k) p'.todo
  waits : .doneRead ∈ p'.todo → .doneRead ∈ p.todo
  barrier : p.entered = true ∨ .syncRead ∈ p.todo → p'.entered = true ∨ .syncRead ∈ p'.todo

section Step

variable {p p' : SyncProc} {inp out : List UInt8} {eof : Bool} {k : ℕ} {c c' : SetupCall}
  {rest : List SetupCall}

/-- A process that waits. -/
theorem SyncClean.wait (hlive : p.gone = false) (inp : List UInt8) : SyncClean p p inp 0 [] where
  gone := hlive
  avail := Nat.zero_le _
  writes := Nat.zero_add _
  reads := Nat.zero_add _
  ahead := fun d h => by simpa using h
  waits := id
  barrier := id

/-- A call is made: it moves all its bytes. -/
theorem SyncClean.of_call (hlive : p'.gone = false) (htodo : p.todo = c :: rest)
    (hrest : p'.todo = rest)
    (hk : k ≤ inp.length) (hwrite : out.length = c.toWrite) (hread : k = c.toRead)
    (hent : p.entered = true → p'.entered = true) (hsync : c = .syncRead → p'.entered = true) :
    SyncClean p p' inp k out where
  gone := hlive
  avail := hk
  writes := by rw [htodo, hrest, toWrite_cons, hwrite]
  reads := by rw [htodo, hrest, toRead_cons, hread]
  ahead := fun d h => by
    rw [htodo] at h
    rw [hrest, hwrite, hread]
    exact h.2
  waits := fun h => htodo ▸ List.mem_cons_of_mem c (hrest ▸ h)
  barrier := fun h => by
    rw [htodo] at h
    rw [hrest]
    rcases h with hp | hmem
    · exact Or.inl (hent hp)
    · rcases List.mem_cons.mp hmem with rfl | hmem
      · exact Or.inl (hsync rfl)
      · exact Or.inr hmem

/-- A part of a call is made: the bytes it has moved are off the call. -/
theorem SyncClean.of_part (hlive : p.gone = false) (htodo : p.todo = c :: rest)
    (hk : k ≤ inp.length) (hwrite : out.length + c'.toWrite = c.toWrite)
    (hread : k + c'.toRead = c.toRead)
    (hc : c' ≠ .read 0 ∧ c ≠ .doneRead ∧ c' ≠ .doneRead ∧ c ≠ .syncRead) :
    SyncClean p (p.goTo (c' :: rest)) inp k out where
  gone := hlive
  avail := hk
  writes := by
    change _ + toWrite (c' :: rest) = _
    rw [htodo, toWrite_cons, toWrite_cons]
    omega
  reads := by
    change _ + toRead (c' :: rest) = _
    rw [htodo, toRead_cons, toRead_cons]
    omega
  ahead := fun d h => by
    rw [htodo] at h
    obtain ⟨⟨-, hle⟩, hrest⟩ := h
    rw [if_neg hc.2.1] at hle
    refine ⟨⟨hc.1, ?_⟩, ?_⟩
    · rw [if_neg hc.2.2.1]
      omega
    · convert hrest using 1
      omega
  waits := fun h => by
    rcases List.mem_cons.mp h with heq | hmem
    · exact absurd heq.symm hc.2.2.1
    · exact htodo ▸ List.mem_cons_of_mem c hmem
  barrier := fun h => by
    rw [htodo] at h
    refine h.imp_right fun hmem => ?_
    rcases List.mem_cons.mp hmem with heq | hmem
    · exact absurd heq.symm hc.2.2.2
    · exact List.mem_cons_of_mem c' hmem

/-- **Every step without a failure** moves what it is to move. -/
theorem SyncProc.next_clean {l : SyncLabel} (hok : p.NoFailure l)
    (h : p.next inp eof l = some (p', k, out)) : SyncClean p p' inp k out := by
  simp only [SyncProc.next] at h
  split at h
  · cases h
  · rename_i hgone
    have hlive : p.gone = false := Bool.eq_false_iff.mpr hgone
    cases l with
    | cpu =>
      obtain ⟨q, hq, heq⟩ := Option.map_eq_some_iff.mp h
      cases heq
      rw [SyncProc.cpu] at hq
      split at hq
      all_goals first
        | (rename_i htodo
           obtain rfl := Option.some.inj hq
           exact .of_call hlive htodo rfl (Nat.zero_le _) rfl rfl id (by rintro ⟨⟩))
        | cases hq
    | write ret =>
      obtain ⟨⟨q, new⟩, hq, heq⟩ := Option.map_eq_some_iff.mp h
      cases heq
      rw [SyncProc.write] at hq
      split at hq
      · rename_i b bytes rest htodo
        simp only [SyncProc.NoFailure, htodo] at hok
        split at hq
        · rename_i hle
          cases ret with
          | done n =>
            have hn : n ≠ 0 := fun hn => hok.2 (congrArg IoResult.done hn)
            simp only [if_neg hn] at hq
            obtain ⟨rfl, rfl⟩ := Prod.mk.inj (Option.some.inj hq)
            refine .of_part hlive htodo (Nat.zero_le _) ?_ rfl (by simp)
            change ((b :: bytes).take n).length + ((b :: bytes).drop n).length = (b :: bytes).length
            rw [← List.length_append, List.take_append_drop]
          | eintr =>
            obtain ⟨rfl, rfl⟩ := Prod.mk.inj (Option.some.inj hq)
            exact .wait hlive inp
          | failed => exact absurd rfl hok.1
        · cases hq
      · rename_i record rest htodo
        simp only [SyncProc.NoFailure, htodo] at hok
        subst hok
        split at hq
        · simp only [SetupCall.toWrite, if_true] at hq
          obtain ⟨rfl, rfl⟩ := Prod.mk.inj (Option.some.inj hq)
          exact .of_call hlive htodo rfl (Nat.zero_le _) (congrArg _ List.take_length) rfl id
            (by rintro ⟨⟩)
        · cases hq
      · rename_i rest htodo
        simp only [SyncProc.NoFailure, htodo] at hok
        subst hok
        split at hq
        · obtain ⟨rfl, rfl⟩ := Prod.mk.inj (Option.some.inj hq)
          exact .of_call hlive htodo rfl (Nat.zero_le _) rfl rfl id (by rintro ⟨⟩)
        · cases hq
      · cases hq
    | read ret =>
      obtain ⟨⟨q, n⟩, hq, heq⟩ := Option.map_eq_some_iff.mp h
      cases heq
      rw [SyncProc.read] at hq
      split at hq
      · rename_i remaining rest htodo
        simp only [SyncProc.NoFailure, htodo] at hok
        split at hq
        · rename_i hreads
          cases ret with
          | done n =>
            have hn : n ≠ 0 := fun hn => hok.2 (congrArg IoResult.done hn)
            simp only [if_neg hn] at hq
            obtain ⟨rfl, rfl⟩ := Prod.mk.inj (Option.some.inj hq)
            refine .of_part hlive htodo hreads.2.1 rfl ?_ (by simp)
            exact Nat.add_sub_cancel' hreads.1
          | eintr =>
            obtain ⟨rfl, rfl⟩ := Prod.mk.inj (Option.some.inj hq)
            exact .wait hlive inp
          | failed => exact absurd rfl hok.1
        · cases hq
      · rename_i size rest htodo
        simp only [SyncProc.NoFailure, htodo] at hok
        subst hok
        split at hq
        · rename_i hreads
          simp only [SetupCall.toRead, if_true] at hq
          obtain ⟨rfl, rfl⟩ := Prod.mk.inj (Option.some.inj hq)
          exact .of_call hlive htodo rfl hreads.2.1 rfl rfl id (by rintro ⟨⟩)
        · cases hq
      · rename_i rest htodo
        simp only [SyncProc.NoFailure, htodo] at hok
        subst hok
        split at hq
        · rename_i hreads
          obtain ⟨rfl, rfl⟩ := Prod.mk.inj (Option.some.inj hq)
          exact .of_call hlive htodo rfl hreads.2.1 rfl rfl (fun _ => rfl) fun _ => rfl
        · cases hq
      · rename_i rest htodo
        simp only [SyncProc.NoFailure, htodo] at hok
        subst hok
        split at hq
        · rename_i hreads
          obtain ⟨rfl, rfl⟩ := Prod.mk.inj (Option.some.inj hq)
          exact .of_call hlive htodo rfl hreads.2.1 rfl rfl id (by rintro ⟨⟩)
        · cases hq
      · cases hq
    | modify ok =>
      obtain ⟨q, hq, heq⟩ := Option.map_eq_some_iff.mp h
      cases heq
      obtain rfl : ok = true := hok
      rw [SyncProc.modify] at hq
      split at hq
      · rename_i htodo
        obtain rfl := Option.some.inj hq
        exact .of_call hlive htodo rfl (Nat.zero_le _) rfl rfl id (by rintro ⟨⟩)
      · cases hq
    | exit => exact hok.elim

/-! ### A call that can be made -/

/-- What is left to do: a call, and the bytes of a loop. -/
def SetupCall.weight : SetupCall → ℕ
  | .writeAll bytes => bytes.length + 1
  | .readAll remaining => remaining + 1
  | _ => 1

/-- What is left to do. -/
def setupWeight (todo : List SetupCall) : ℕ := (todo.map SetupCall.weight).sum

theorem setupWeight_cons (c : SetupCall) (rest : List SetupCall) :
    setupWeight (c :: rest) = c.weight + setupWeight rest :=
  List.sum_cons ..

/-- **A call whose bytes are there can be made**, and leaves less to do. -/
theorem SyncProc.exists_next (hlive : p.gone = false) (htodo : p.todo = c :: rest)
    (hzero : c ≠ .read 0)
    (havail : c.toRead ≤ inp.length) (eof : Bool) :
    ∃ l r, p.NoFailure l ∧ p.next inp eof l = some r ∧
      setupWeight r.1.todo < setupWeight p.todo := by
  have hless : ∀ c' : SetupCall, c'.weight < c.weight →
      setupWeight (c' :: rest) < setupWeight p.todo := by
    intro c' hlt
    rw [htodo, setupWeight_cons, setupWeight_cons]
    omega
  have hmade : setupWeight rest < setupWeight p.todo := by
    rw [htodo, setupWeight_cons]
    cases c <;> simp [SetupCall.weight]
  have hgone : ¬p.gone = true := Bool.eq_false_iff.mp hlive
  cases c with
  | writeAll bytes =>
    cases bytes with
    | nil =>
      refine ⟨.cpu, (p.goTo rest, 0, []), trivial, ?_, hmade⟩
      simp only [SyncProc.next, if_neg hgone, SyncProc.cpu, htodo, Option.map_some]
    | cons b bytes =>
      refine ⟨.write (.done (bytes.length + 1)), (p.goTo (.writeAll [] :: rest), 0, b :: bytes), ?_,
        ?_, hless _ (by simp [SetupCall.weight])⟩
      · simp [SyncProc.NoFailure, htodo]
      · simp [SyncProc.next, hgone, SyncProc.write, htodo, IoResult.Writes]
  | readAll remaining =>
    cases remaining with
    | zero =>
      refine ⟨.cpu, (p.goTo rest, 0, []), trivial, ?_, hmade⟩
      simp only [SyncProc.next, if_neg hgone, SyncProc.cpu, htodo, Option.map_some]
    | succ n =>
      have hn : n + 1 ≤ inp.length := havail
      refine ⟨.read (.done (n + 1)), (p.goTo (.readAll 0 :: rest), n + 1, []), ?_, ?_,
        hless _ (by simp [SetupCall.weight])⟩
      · simp [SyncProc.NoFailure, htodo]
      · simp [SyncProc.next, hgone, SyncProc.read, htodo, IoResult.Reads, hn]
  | write record =>
    refine ⟨.write (.done record.length), (p.goTo rest, 0, record), ?_, ?_, hmade⟩
    · simp [SyncProc.NoFailure, htodo, SetupCall.toWrite]
    · simp [SyncProc.next, hgone, SyncProc.write, htodo, IoResult.Writes]
  | read size =>
    have hpos : size ≠ 0 := fun hsize => hzero (congrArg SetupCall.read hsize)
    have hle : size ≤ inp.length := havail
    refine ⟨.read (.done size), (p.goTo rest, size, []), ?_, ?_, hmade⟩
    · simp [SyncProc.NoFailure, htodo, SetupCall.toRead]
    · simp [SyncProc.next, hgone, SyncProc.read, htodo, IoResult.Reads, hle, hpos]
  | modify qp stage =>
    refine ⟨.modify true, ({ p.goTo rest with stage := Function.update p.stage qp stage }, 0, []),
      rfl, ?_, hmade⟩
    simp only [SyncProc.next, if_neg hgone, SyncProc.modify, htodo, if_true, Option.map_some]
  | syncWrite =>
    refine ⟨.write (.done 1), (p.goTo rest, 0, [p.sync.getD syncByte]), ?_, ?_, hmade⟩
    · simp [SyncProc.NoFailure, htodo, SetupCall.toWrite]
    · simp [SyncProc.next, hgone, SyncProc.write, htodo, IoResult.Writes]
  | syncRead =>
    have hle : 1 ≤ inp.length := havail
    refine ⟨.read (.done 1), (p.enter rest (inp.take 1).head?, 1, []), ?_, ?_, hmade⟩
    · simp [SyncProc.NoFailure, htodo, SetupCall.toRead]
    · simp [SyncProc.next, hgone, SyncProc.read, htodo, IoResult.Reads, hle]
  | run =>
    refine ⟨.cpu, (p.goTo rest, 0, []), trivial, ?_, hmade⟩
    simp only [SyncProc.next, if_neg hgone, SyncProc.cpu, htodo, Option.map_some]
  | doneRead =>
    have hle : 1 ≤ inp.length := havail
    refine ⟨.read (.done 1), (p.goTo rest, 1, []), ?_, ?_, hmade⟩
    · simp [SyncProc.NoFailure, htodo, SetupCall.toRead]
    · simp [SyncProc.next, hgone, SyncProc.read, htodo, IoResult.Reads, hle]

end Step

/-! ### Two processes -/

/-- **The balance of two processes**: `written` and `taken` are the numbers of bytes each has
written and read. -/
structure SyncBalance (st : SyncState) (written taken : Side → ℕ) : Prop where
  wire : ∀ s : Side, (st.wire s).length + taken s.other = written s
  left : ∀ s : Side, written s + toWrite (st.proc s).todo =
    taken s.other + toRead (st.proc s.other).todo
  ahead : ∀ s, Ahead (written s - taken s) (st.proc s).todo
  gone : ∀ s, (st.proc s).gone = false
  waits : ∀ s : Side, .doneRead ∈ (st.proc s).todo → .doneRead ∉ (st.proc s.other).todo
  barrier : ∀ s, (st.proc s).entered = true ∨ .syncRead ∈ (st.proc s).todo

/-- Scripts that can be run to their end: each process is ahead, each reads what the other
writes, and one at most waits for the end of the other's data phase. -/
structure Completes (script : Side → List SetupCall) : Prop where
  ahead : ∀ s, Ahead 0 (script s)
  reads : ∀ s : Side, toRead (script s) = toWrite (script s.other)
  waits : ∀ s : Side, .doneRead ∈ script s → .doneRead ∉ script s.other
  barrier : ∀ s, .syncRead ∈ script s

section System

variable {script : Side → List SetupCall} {st st' : SyncState} {written taken : Side → ℕ}

theorem Completes.balance (h : Completes script) : SyncBalance (syncStart script) 0 0 where
  wire := fun _ => rfl
  left := fun s => by
    have hreads := h.reads s.other
    rw [s.other_other] at hreads
    change 0 + toWrite (script s) = 0 + toRead (script s.other)
    rw [hreads]
  ahead := h.ahead
  gone := fun _ => rfl
  waits := h.waits
  barrier := fun s => Or.inr (h.barrier s)

/-- **The balance is kept by every step without a failure.** -/
theorem SyncBalance.next (h : SyncBalance st written taken) {l : Side × SyncLabel}
    (hok : SyncNoFailure st l) (hs : st.next l = some st') :
    ∃ written' taken', SyncBalance st' written' taken' := by
  obtain ⟨s, l⟩ := l
  obtain ⟨⟨p', k, out⟩, hnext, rfl⟩ := Option.map_eq_some_iff.mp hs
  have hc : SyncClean (st.proc s) p' (st.wire s.other) k out := SyncProc.next_clean hok hnext
  have hne := s.other_ne
  have havail := hc.avail
  have hwrites := hc.writes
  have hreads := hc.reads
  have hwire := h.wire s
  have hwire' := h.wire s.other
  have hleft := h.left s
  have hleft' := h.left s.other
  have hahead := hc.ahead _ (h.ahead s)
  rw [s.other_other] at hwire' hleft'
  have hbalance : ((written s + out.length : ℕ) : ℤ) - ((taken s + k : ℕ) : ℤ) =
      (written s - taken s : ℤ) + out.length - k := by omega
  refine ⟨Function.update written s (written s + out.length),
    Function.update taken s (taken s + k), ?_⟩
  change SyncBalance
    { proc := Function.update st.proc s p'
      wire := Function.update (Function.update st.wire s.other ((st.wire s.other).drop k)) s
        (st.wire s ++ out) } _ _
  refine ⟨fun t => ?_, fun t => ?_, fun t => ?_, fun t => ?_, fun t hmem => ?_, fun t => ?_⟩ <;>
    rcases s.eq_or_eq_other t with rfl | rfl
  · simp only [Function.update_self, Function.update_of_ne hne, List.length_append]
    omega
  · simp only [Function.update_self, Function.update_of_ne hne, s.other_other, List.length_drop]
    omega
  · simp only [Function.update_self, Function.update_of_ne hne]
    omega
  · simp only [Function.update_self, Function.update_of_ne hne, s.other_other]
    omega
  · simp only [Function.update_self]
    rw [hbalance]
    exact hahead
  · simp only [Function.update_of_ne hne]
    exact h.ahead _
  · simp only [Function.update_self]
    exact hc.gone
  · simp only [Function.update_of_ne hne]
    exact h.gone _
  · simp only [Function.update_self] at hmem
    simp only [Function.update_of_ne hne]
    exact h.waits _ (hc.waits hmem)
  · simp only [Function.update_of_ne hne] at hmem
    simp only [s.other_other, Function.update_self]
    have hno := h.waits _ hmem
    rw [s.other_other] at hno
    exact fun hmem' => hno (hc.waits hmem')
  · simp only [Function.update_self]
    exact hc.barrier (h.barrier _)
  · simp only [Function.update_of_ne hne]
    exact h.barrier _

theorem Completes.balance_of_reach (h : Completes script)
    (hr : (syncLts script).Reach SyncNoFailure st) :
    ∃ written taken, SyncBalance st written taken := by
  refine hr.invariant (I := fun a => ∃ written taken, SyncBalance a written taken) ?_ ?_
  · rintro a rfl
    exact ⟨0, 0, h.balance⟩
  · rintro a l b ⟨written, taken, hb⟩ hok hs
    exact hb.next hok hs

/-- A process whose next call waits for bytes. -/
theorem SyncBalance.lt_of_waits (h : SyncBalance st written taken) {s : Side} {c : SetupCall}
    {rest : List SetupCall} (htodo : (st.proc s).todo = c :: rest)
    (hwait : (st.wire s.other).length < c.toRead) :
    written s.other < written s + (if c = .doneRead then 1 else 0) ∧
      toWrite (st.proc s.other).todo ≠ 0 := by
  have hwire := h.wire s.other
  have hleft := h.left s.other
  have hahead := h.ahead s
  rw [s.other_other] at hwire hleft
  rw [htodo] at hleft hahead
  rw [toRead_cons] at hleft
  obtain ⟨⟨-, hcovered⟩, -⟩ := hahead
  split at hcovered <;> constructor <;> simp_all <;> omega

/-- **Some call can be made** as long as one is left: of two processes that wait, each would have
written more than the other. -/
theorem SyncBalance.exists_call (h : SyncBalance st written taken)
    (hleft : ∃ s, (st.proc s).todo ≠ []) : ∃ s c rest, (st.proc s).todo = c :: rest ∧
      c.toRead ≤ (st.wire s.other).length := by
  by_contra hstuck
  have hwait : ∀ s c rest, (st.proc s).todo = c :: rest → (st.wire s.other).length < c.toRead :=
    fun s c rest htodo => Nat.not_le.mp fun hle => hstuck ⟨s, c, rest, htodo, hle⟩
  obtain ⟨s, hs⟩ := hleft
  obtain ⟨c, rest, htodo⟩ := List.exists_cons_of_ne_nil hs
  obtain ⟨hlt, hmore⟩ := h.lt_of_waits htodo (hwait s c rest htodo)
  have hother : (st.proc s.other).todo ≠ [] := fun hnil => hmore (by rw [hnil]; rfl)
  obtain ⟨c', rest', htodo'⟩ := List.exists_cons_of_ne_nil hother
  obtain ⟨hlt', -⟩ := h.lt_of_waits htodo' (hwait s.other c' rest' htodo')
  rw [s.other_other] at hlt'
  -- one of the two at most is the `read` that is not covered
  have hone : ¬(c = .doneRead ∧ c' = .doneRead) := by
    rintro ⟨rfl, rfl⟩
    exact h.waits s (htodo ▸ List.mem_cons_self) (htodo' ▸ List.mem_cons_self)
  split at hlt <;> split at hlt' <;> first
    | exact hone ⟨‹_›, ‹_›⟩
    | omega

/-- What is left to do of both. -/
def SyncState.weight (st : SyncState) : ℕ :=
  setupWeight (st.proc .client).todo + setupWeight (st.proc .server).todo

/-- **Scripts that can be run to their end are**, from every state. -/
theorem Completes.exists_end (h : Completes script) (hr : (syncLts script).Reach SyncNoFailure st) :
    ∃ st', (syncLts script).Path SyncNoFailure st st' ∧ ∀ s, (st'.proc s).todo = [] := by
  have hstep : ∀ a, (syncLts script).Reach SyncNoFailure a → ¬(∀ s, (a.proc s).todo = []) →
      ∃ l b, SyncNoFailure a l ∧ (syncLts script).step a l b ∧
      (syncLts script).Reach SyncNoFailure b ∧
        b.weight < a.weight := by
    intro a ha hleft
    obtain ⟨written, taken, hb⟩ := h.balance_of_reach ha
    obtain ⟨s, c, rest, htodo, havail⟩ := hb.exists_call (not_forall.mp hleft)
    have hcovered := hb.ahead s
    rw [htodo] at hcovered
    obtain ⟨l, r, hok, hnext, hlt⟩ :=
      SyncProc.exists_next (hb.gone s) htodo hcovered.1.1 havail (a.proc s.other).closed
    have hs : a.next (s, l) = some
        { proc := Function.update a.proc s r.1
          wire := Function.update
            (Function.update a.wire s.other ((a.wire s.other).drop r.2.1)) s
              (a.wire s ++ r.2.2) } := by
      rw [SyncState.next, hnext]
      rfl
    refine ⟨(s, l), _, hok, hs, ha.tail (l := (s, l)) hok hs, ?_⟩
    cases s <;> simpa [SyncState.weight] using hlt
  obtain ⟨st', hp, -, hend⟩ := Lts.Path.exists_goal SyncState.weight hstep hr
  exact ⟨st', hp, hend⟩

/-- Where no check fails, the `read` of a barrier returns a byte. -/
theorem SyncNoFailure.byteRead {l : Side × SyncLabel} (h : SyncNoFailure st l)
    (hs : st.next l = some st') : SyncByteRead st l := by
  intro hhead
  obtain ⟨rest, htodo⟩ := List.head?_eq_some_iff.mp hhead
  obtain ⟨s, l⟩ := l
  obtain ⟨r, hnext, -⟩ := Option.map_eq_some_iff.mp hs
  change (st.proc s).NoFailure l at h
  simp only at htodo
  cases l with
  | read ret =>
    simp only [SyncProc.NoFailure, htodo] at h
    exact Or.inr (congrArg SyncLabel.read h)
  | exit => exact Or.inl rfl
  | _ =>
    simp only [SyncProc.next] at hnext
    split at hnext
    · cases hnext
    · simp [SyncProc.cpu, SyncProc.write, SyncProc.modify, htodo] at hnext

end System

/-! ### The five programs -/

section Programs

variable (order : ByteOrder) (host : Side → SyncHost) (prog : SyncProgram)

/-- A call that moves no bytes. -/
theorem Ahead.cons_quiet {c : SetupCall} {rest : List SetupCall} {d : ℤ} (hwrite : c.toWrite = 0)
    (hread : c.toRead = 0) (hd : 0 ≤ d) (hzero : c ≠ .read 0) (h : Ahead d rest) :
    Ahead d (c :: rest) := by
  refine ⟨⟨hzero, ?_⟩, ?_⟩
  · rw [hread]
    split <;> omega
  · rw [hwrite, hread]
    simpa using h

/-- A record is written, and that of the peer is read. -/
theorem Ahead.exchange {w r : SetupCall} {rest : List SetupCall} {d : ℤ} {n : ℕ}
    (hw : w.toWrite = n ∧ w.toRead = 0) (hr : r.toWrite = 0 ∧ r.toRead = n) (hd : 0 ≤ d)
    (hn : n ≠ 0) (h : Ahead d rest) : Ahead d (w :: r :: rest) := by
  refine ⟨⟨fun hzero => hn (hw.1 ▸ hzero ▸ rfl), ?_⟩, ⟨fun hzero => hn (hr.2 ▸ hzero ▸ rfl), ?_⟩,
    ?_⟩
  · rw [hw.2]
    split <;> omega
  · rw [hw.1, hw.2, hr.2]
    split <;> omega
  · rw [hw.1, hw.2, hr.1, hr.2]
    convert h using 1
    omega

/-- Queue pairs are brought up. -/
theorem Ahead.flatMap {rest : List SetupCall} {d : ℤ} (hd : 0 ≤ d) (h : Ahead d rest)
    (is : List ℕ) :
    Ahead d (is.flatMap bringUpCalls ++ rest) := by
  induction is with
  | nil => exact h
  | cons i is ih =>
    exact .cons_quiet rfl rfl hd (by simp)
      (.cons_quiet rfl rfl hd (by simp) (.cons_quiet rfl rfl hd (by simp) ih))

/-- Behind its setup a process is ahead. -/
theorem ahead_barrier (s : Side) : Ahead 0 (.syncWrite :: .syncRead :: prog.dataPhase s) := by
  refine .exchange ⟨rfl, rfl⟩ ⟨rfl, rfl⟩ le_rfl (by decide) ?_
  cases prog with
  | oob | udSend => exact .cons_quiet rfl rfl le_rfl (by simp) trivial
  | rdmaBench qpCount =>
    cases s with
    | client => exact .cons_quiet rfl rfl le_rfl (by simp) ⟨⟨by simp, by decide⟩, trivial⟩
    | server => exact .cons_quiet rfl rfl le_rfl (by simp) ⟨⟨by simp, by decide⟩, trivial⟩

theorem ahead_script (s : Side) : Ahead 0 (prog.script order host s) := by
  have hbarrier := ahead_barrier prog s
  rw [SyncProgram.script]
  cases prog with
  | oob prog =>
    have hqp := Host.length_msg order (host s).host .qp
    have hmr := Host.length_msg order (host s).host .mr
    simp only [SyncProgram.setup, List.append_assoc]
    refine .exchange ⟨hqp, rfl⟩ ⟨rfl, rfl⟩ le_rfl (by decide) ?_
    split
    · exact .exchange ⟨hmr, rfl⟩ ⟨rfl, rfl⟩ le_rfl (by decide) (.flatMap le_rfl hbarrier [0])
    · exact .flatMap le_rfl hbarrier [0]
  | udSend =>
    simp only [SyncProgram.setup, List.append_assoc]
    have hlen : ((host s).udInfo.toList).length = 24 := List.Vector.toList_length _
    have hexchange : Ahead 0 (.write (host s).udInfo.toList :: .read 24 :: .syncWrite ::
        .syncRead ::
        SyncProgram.udSend.dataPhase s) :=
      .exchange ⟨hlen, rfl⟩ ⟨rfl, rfl⟩ le_rfl (by decide) hbarrier
    exact .flatMap le_rfl hexchange [0]
  | rdmaBench qpCount =>
    simp only [SyncProgram.setup, List.append_assoc]
    have hlen : ((host s).connInfo.toList).length = 40 := List.Vector.toList_length _
    exact .exchange ⟨hlen, rfl⟩ ⟨rfl, rfl⟩ le_rfl (by decide) (.flatMap le_rfl hbarrier _)

theorem toWrite_append (a b : List SetupCall) : toWrite (a ++ b) = toWrite a + toWrite b := by
  rw [toWrite, List.map_append, List.sum_append]
  rfl

theorem toRead_append (a b : List SetupCall) : toRead (a ++ b) = toRead a + toRead b := by
  rw [toRead, List.map_append, List.sum_append]
  rfl

/-- Bringing queue pairs up moves no bytes. -/
theorem bytes_flatMap (is : List ℕ) :
    toWrite (is.flatMap bringUpCalls) = 0 ∧ toRead (is.flatMap bringUpCalls) = 0 := by
  induction is with
  | nil => exact ⟨rfl, rfl⟩
  | cons i is ih =>
    rw [List.flatMap_cons, toWrite_append, toRead_append, ih.1, ih.2]
    exact ⟨rfl, rfl⟩

/-- **What a process reads in all** is what its peer writes in all. -/
theorem toRead_script (s : Side) :
    toRead (prog.script order host s) = toWrite (prog.script order host s.other) := by
  rw [SyncProgram.script, SyncProgram.script, toRead_append, toWrite_append]
  cases prog with
  | oob prog =>
    have hqp := Host.length_msg order (host s.other).host .qp
    have hmr := Host.length_msg order (host s.other).host .mr
    simp only [SyncProgram.setup, SyncProgram.dataPhase]
    split <;> simp [SetupCall.toRead, SetupCall.toWrite, bringUpCalls, hqp,
      hmr, toRead, toWrite]
  | udSend =>
    have hlen : ((host s.other).udInfo.toList).length = 24 := List.Vector.toList_length _
    simp [SyncProgram.setup, SyncProgram.dataPhase, SetupCall.toRead, SetupCall.toWrite,
      bringUpCalls, toRead, toWrite]
  | rdmaBench qpCount =>
    have hlen : ((host s.other).connInfo.toList).length = 40 := List.Vector.toList_length _
    simp only [SyncProgram.setup, SyncProgram.dataPhase, toRead_append, toWrite_append, toRead_cons,
      toWrite_cons, (bytes_flatMap _).1, (bytes_flatMap _).2, SetupCall.toRead, SetupCall.toWrite,
      hlen]
    cases s <;> simp [toRead, toWrite, SetupCall.toRead, SetupCall.toWrite, Side.other]

theorem doneRead_script {s : Side} (h : .doneRead ∈ prog.script order host s) :
    s = .server ∧ ∃ qpCount, prog = .rdmaBench qpCount := by
  rw [SyncProgram.script] at h
  have hlate : .doneRead ∈ prog.dataPhase s := by
    rcases List.mem_append.mp h with hmem | hmem
    · exact (early_setup order host prog s _ hmem).elim
    · simpa using hmem
  cases prog with
  | oob | udSend => exact absurd hlate (by simp [SyncProgram.dataPhase])
  | rdmaBench qpCount =>
    cases s with
    | client => exact absurd hlate (by simp [SyncProgram.dataPhase])
    | server => exact ⟨rfl, qpCount, rfl⟩

/-- **The calls of the five programs can be made to their end.** -/
theorem completes_script : Completes (prog.script order host) where
  ahead := ahead_script order host prog
  reads := toRead_script order host prog
  waits := fun s h h' => by
    obtain ⟨rfl, -⟩ := doneRead_script order host prog h
    obtain ⟨hne, -⟩ := doneRead_script order host prog h'
    cases hne
  barrier := fun s => by
    rw [SyncProgram.script]
    simp

/-- **The setup of the five programs completes.** Let no check fail, and let the calls of
`write_all` and `read_all` be short or interrupted as often as they like. From every state the two
processes reach they can make all their calls: neither waits for the other for good. In the end
each has entered its data phase with the sync byte of the other, all queue pairs are ready to send,
and every byte that was written has been read. -/
theorem setup_completes (st : SyncState)
    (h : (syncLts (prog.script order host)).Reach SyncNoFailure st) :
    ∃ st', (syncLts (prog.script order host)).Path SyncNoFailure st st' ∧
      ∀ s, (st'.proc s).todo = [] ∧ (st'.proc s).gone = false ∧ (st'.proc s).entered = true ∧
        (st'.proc s).sync = some syncByte ∧ (∀ i < prog.qpCount s, (st'.proc s).stage i = .rts) ∧
        st'.wire s = [] := by
  have hcomplete := completes_script order host prog
  obtain ⟨st', hp, hend⟩ := hcomplete.exists_end h
  have hr := h.trans hp
  obtain ⟨written, taken, hb⟩ := hcomplete.balance_of_reach hr
  have hbyte : (syncLts (prog.script order host)).Reach SyncByteRead st' :=
    hr.invariant (fun _ ha => Lts.Reach.of_init ha) fun _ _ _ ha hok hs =>
      ha.tail (hok.byteRead hs) hs
  refine ⟨st', hp, fun s => ?_⟩
  have hent : ∀ s, (st'.proc s).entered = true := fun s =>
    (hb.barrier s).resolve_right fun hmem => by
      rw [hend s] at hmem
      exact absurd hmem List.not_mem_nil
  have hsync := (synchronizes_script order host prog).synchronized hbyte
  have hup := (hsync s.other (hent s.other)).2
  rw [s.other_other] at hup
  have hwire : st'.wire s = [] := by
    have hlen := hb.wire s
    have hleft := hb.left s
    rw [hend s, hend s.other] at hleft
    change written s + 0 = taken s.other + 0 at hleft
    exact List.eq_nil_of_length_eq_zero (by omega)
  exact ⟨hend s, hb.gone s, hent s, (hsync s (hent s)).1, hup, hwire⟩

end Programs

/-- The calls of two processes of rdma_read. -/
def readCalls : Side → List SetupCall := (SyncProgram.oob rdmaRead).script .little sampleSyncHosts

/-- Two processes of rdma_read in their exchange: the server has read a part of a record. -/
theorem setup_completes_rdmaRead : ∃ st st', ((syncLts readCalls).Reach SyncNoFailure st ∧
      (st.proc .server).todo.head? = some (.readAll 22) ∧ (st.wire .client).length = 2) ∧
    (syncLts readCalls).Path SyncNoFailure st st' ∧
      ∀ s, (st'.proc s).entered = true ∧ st'.wire s = [] := by
  have hrun : (Lts.exec SyncState.next SyncNoFailure (syncStart readCalls)
      [(.client, .write (.done 12)), (.server, .write (.done 32)), (.server, .cpu),
        (.server, .read (.done 10))]).map (fun st =>
          ((st.proc .server).todo.head?, (st.wire .client).length)) =
            some (some (.readAll 22), 2) := by
    decide +kernel
  obtain ⟨st, hexec, hview⟩ := Option.map_eq_some_iff.mp hrun
  have hreach : (syncLts readCalls).Reach SyncNoFailure st := ⟨_, rfl, Lts.path_of_exec hexec⟩
  obtain ⟨st', hp, hend⟩ := setup_completes .little sampleSyncHosts (.oob rdmaRead) st hreach
  exact ⟨st, st', ⟨hreach, Prod.mk.inj hview⟩, hp, fun s => ⟨(hend s).2.2.1, (hend s).2.2.2.2.2⟩⟩

end RdmaBook
