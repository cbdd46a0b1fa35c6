import RdmaBook.Common.Barrier

/-!
# What the barrier guarantees

What a process has still to write and to read in front of its barrier, and the states its
queue pairs will be in there, are told by the calls it has still to make
(`RdmaBook.writesLeft`, `RdmaBook.readsLeft`, `RdmaBook.stagesAfter`). Where each process
reads in front of its barrier what the other writes in front of its own, the next byte it
reads is one the other has written behind its last transition, a sync byte: where the
`read` of the barrier returns a byte, the peer is there (`RdmaBook.barrier_of_read`).
Where it does not, the process enters its data phase all the same.
-/

namespace RdmaBook

/-! ### What is left of a script -/

/-- The bytes to be written in front of the barrier. -/
def writesLeft : List SetupCall → List UInt8
  | [] => []
  | .writeAll bytes :: rest => bytes ++ writesLeft rest
  | .write record :: rest => record ++ writesLeft rest
  | .syncWrite :: _ => []
  | _ :: rest => writesLeft rest

/-- The number of bytes to be read in front of the barrier. -/
def readsLeft : List SetupCall → ℕ
  | [] => 0
  | .readAll remaining :: rest => remaining + readsLeft rest
  | .read size :: rest => size + readsLeft rest
  | .syncRead :: _ => 0
  | _ :: rest => readsLeft rest

/-- The states of the queue pairs when all calls have been made. -/
def stagesAfter : List SetupCall → (ℕ → QpStage) → ℕ → QpStage
  | [], stage => stage
  | .modify qp next :: rest, stage => stagesAfter rest (Function.update stage qp next)
  | _ :: rest, stage => stagesAfter rest stage

/-- A call in front of the barrier. -/
def SetupCall.Early : SetupCall → Prop
  | .writeAll _ => True
  | .readAll _ => True
  | .write _ => True
  | .read _ => True
  | .modify _ _ => True
  | _ => False

/-- A call behind the `read` of the barrier. -/
def SetupCall.Late : SetupCall → Prop
  | .run => True
  | .syncWrite => True
  | .doneRead => True
  | _ => False

/-- **The calls of a process that has not come to its barrier.** -/
def BeforeSync (todo : List SetupCall) : Prop :=
  ∃ early late, todo = early ++ .syncWrite :: .syncRead :: late ∧ (∀ c ∈ early, c.Early) ∧
    ∀ c ∈ late, c.Late

/-- The calls of a process that has written its sync byte and not read the other. -/
def InSync (todo : List SetupCall) : Prop := ∃ late, todo = .syncRead :: late ∧ ∀ c ∈ late, c.Late

section Calls

variable {todo early late rest : List SetupCall} {c : SetupCall} {stage : ℕ → QpStage}

/-- The first call in front of the barrier is made; it is not that of the barrier. -/
theorem BeforeSync.cases (h : BeforeSync (c :: rest)) :
    (c.Early ∧ BeforeSync rest) ∨ (c = .syncWrite ∧ InSync rest) := by
  obtain ⟨early, late, heq, hearly, hlate⟩ := h
  cases early with
  | nil =>
    obtain ⟨rfl, rfl⟩ := List.cons.inj heq
    exact Or.inr ⟨rfl, late, rfl, hlate⟩
  | cons d early =>
    obtain ⟨rfl, rfl⟩ := List.cons.inj heq
    exact Or.inl ⟨hearly c List.mem_cons_self, early, late, rfl,
      fun x hx => hearly x (List.mem_cons_of_mem _ hx), hlate⟩

/-- Every call in front of the barrier but its `write` is an early one. -/
theorem BeforeSync.early_of_ne (h : BeforeSync (c :: rest)) (hc : c ≠ .syncWrite) :
    c.Early ∧ BeforeSync rest := by
  rcases h.cases with hearly | ⟨hsync, -⟩
  · exact hearly
  · exact absurd hsync hc

/-- An early call may be put in front. -/
theorem BeforeSync.cons (hc : c.Early) (h : BeforeSync rest) : BeforeSync (c :: rest) := by
  obtain ⟨early, late, rfl, hearly, hlate⟩ := h
  refine ⟨c :: early, late, rfl, fun x hx => ?_, hlate⟩
  rcases List.mem_cons.mp hx with rfl | hx
  · exact hc
  · exact hearly x hx

/-- Without a transition the states stay. -/
theorem stagesAfter_of_noModify (h : ∀ qp next, .modify qp next ∉ todo) :
    stagesAfter todo stage = stage := by
  induction todo with
  | nil => rfl
  | cons c rest ih =>
    have hrest := ih fun qp next hmem => h qp next (List.mem_cons_of_mem _ hmem)
    cases c with
    | modify qp next => exact absurd List.mem_cons_self (h qp next)
    | _ => exact hrest

theorem stagesAfter_append : stagesAfter (early ++ rest) stage =
    stagesAfter rest (stagesAfter early stage) := by
  induction early generalizing stage with
  | nil => rfl
  | cons c early ih =>
    cases c with
    | modify qp next => exact ih
    | _ => exact ih

end Calls

/-! ### What a step does -/

/-- **The moves of a process**: the process behind the step, the number of bytes it has
read, and those it has written. -/
inductive SyncMove (p : SyncProc) (inp : List UInt8) : SyncProc → ℕ → List UInt8 → Prop
  /-- The process ends; what it has read or written last does not matter any more. -/
  | exit : SyncMove p inp p.exit 0 []
  | wait : SyncMove p inp p 0 []
  /-- One of the loops is left, or the data phase. -/
  | cpu (c : SetupCall) (rest : List SetupCall) (htodo : p.todo = c :: rest)
      (hc : c = .writeAll [] ∨ c = .readAll 0 ∨ c = .run) : SyncMove p inp (p.goTo rest) 0 []
  | writeAll (bytes : List UInt8) (n : ℕ) (rest : List SetupCall)
      (htodo : p.todo = .writeAll bytes :: rest) :
      SyncMove p inp (p.goTo (.writeAll (bytes.drop n) :: rest)) 0 (bytes.take n)
  | readAll (remaining n : ℕ) (rest : List SetupCall) (htodo : p.todo = .readAll remaining :: rest)
      (hn : n ≤ remaining) (hinp : n ≤ inp.length) :
      SyncMove p inp (p.goTo (.readAll (remaining - n) :: rest)) n []
  | write (record : List UInt8) (rest : List SetupCall) (htodo : p.todo = .write record :: rest) :
      SyncMove p inp (p.goTo rest) 0 record
  /-- A `write` has not taken all of a record. -/
  | writeShort (record : List UInt8) (n : ℕ) (rest : List SetupCall)
      (htodo : p.todo = .write record :: rest) :
      SyncMove p inp p.exit 0 (record.take n)
  | read (size : ℕ) (rest : List SetupCall) (htodo : p.todo = .read size :: rest)
      (hinp : size ≤ inp.length) :
      SyncMove p inp (p.goTo rest) size []
  /-- A `read` has not brought all of a record. -/
  | readShort (n : ℕ) (hinp : n ≤ inp.length) : SyncMove p inp p.exit n []
  | modify (qp : ℕ) (stage : QpStage) (rest : List SetupCall)
      (htodo : p.todo = .modify qp stage :: rest) :
      SyncMove p inp { p.goTo rest with stage := Function.update p.stage qp stage } 0 []
  | syncWrite (n : ℕ) (rest : List SetupCall) (htodo : p.todo = .syncWrite :: rest) :
      SyncMove p inp (p.goTo rest) 0 ([p.sync.getD syncByte].take n)
  | syncRead (b : UInt8) (tail : List UInt8) (rest : List SetupCall)
      (htodo : p.todo = .syncRead :: rest)
      (hinp : inp = b :: tail) : SyncMove p inp (p.enter rest (some b)) 1 []
  | doneRead (n : ℕ) (rest : List SetupCall) (htodo : p.todo = .doneRead :: rest)
      (hinp : n ≤ inp.length) :
      SyncMove p inp (p.goTo rest) n []

section Moves

variable {p p' : SyncProc} {inp out : List UInt8} {eof : Bool} {k : ℕ} {l : SyncLabel}

theorem SyncProc.cpu_move (h : p.cpu = some p') : SyncMove p inp p' 0 [] := by
  rw [SyncProc.cpu] at h
  split at h
  · rename_i htodo
    exact Option.some.inj h ▸ .cpu _ _ htodo (Or.inl rfl)
  · rename_i htodo
    exact Option.some.inj h ▸ .cpu _ _ htodo (Or.inr (Or.inl rfl))
  · rename_i htodo
    exact Option.some.inj h ▸ .cpu _ _ htodo (Or.inr (Or.inr rfl))
  · cases h

theorem SyncProc.write_move {ret : IoResult} (h : p.write ret = some (p', out)) :
    SyncMove p inp p' 0 out := by
  rw [SyncProc.write] at h
  split at h
  · rename_i b bytes rest htodo
    split at h
    · split at h
      · split at h
        · obtain ⟨rfl, rfl⟩ := Prod.mk.inj (Option.some.inj h)
          exact .exit
        · obtain ⟨rfl, rfl⟩ := Prod.mk.inj (Option.some.inj h)
          exact .writeAll _ _ _ htodo
      · obtain ⟨rfl, rfl⟩ := Prod.mk.inj (Option.some.inj h)
        exact .wait
      · obtain ⟨rfl, rfl⟩ := Prod.mk.inj (Option.some.inj h)
        exact .exit
    · cases h
  · rename_i record rest htodo
    split at h
    · split at h
      · rename_i n hn
        obtain ⟨rfl, rfl⟩ := Prod.mk.inj (Option.some.inj h)
        split
        · rename_i hall
          rw [hall, List.take_length]
          exact .write _ _ htodo
        · exact .writeShort _ _ _ htodo
      · obtain ⟨rfl, rfl⟩ := Prod.mk.inj (Option.some.inj h)
        exact .exit
    · cases h
  · rename_i rest htodo
    split at h
    · split at h
      · obtain ⟨rfl, rfl⟩ := Prod.mk.inj (Option.some.inj h)
        exact .syncWrite _ _ htodo
      · obtain ⟨rfl, rfl⟩ := Prod.mk.inj (Option.some.inj h)
        exact .syncWrite 0 _ htodo
    · cases h
  · cases h

/-- A `read`; that of the barrier brings a byte. -/
theorem SyncProc.read_move {ret : IoResult} (h : p.read inp eof ret = some (p', k))
    (hsync : p.todo.head? = some .syncRead → ret = .done 1) : SyncMove p inp p' k [] := by
  rw [SyncProc.read] at h
  split at h
  · rename_i remaining rest htodo
    split at h
    · rename_i hreads
      split at h
      · split at h
        · obtain ⟨rfl, rfl⟩ := Prod.mk.inj (Option.some.inj h)
          exact .exit
        · obtain ⟨rfl, rfl⟩ := Prod.mk.inj (Option.some.inj h)
          exact .readAll _ _ _ htodo hreads.1 hreads.2.1
      · obtain ⟨rfl, rfl⟩ := Prod.mk.inj (Option.some.inj h)
        exact .wait
      · obtain ⟨rfl, rfl⟩ := Prod.mk.inj (Option.some.inj h)
        exact .exit
    · cases h
  · rename_i size rest htodo
    split at h
    · rename_i hreads
      split at h
      · rename_i n
        obtain ⟨rfl, rfl⟩ := Prod.mk.inj (Option.some.inj h)
        split
        · rename_i hall
          exact hall ▸ .read _ _ htodo (hall ▸ hreads.2.1)
        · exact .readShort _ hreads.2.1
      · obtain ⟨rfl, rfl⟩ := Prod.mk.inj (Option.some.inj h)
        exact .exit
    · cases h
  · rename_i rest htodo
    obtain rfl := hsync (by rw [htodo]; rfl)
    split at h
    · rename_i hreads
      obtain ⟨rfl, rfl⟩ := Prod.mk.inj (Option.some.inj h)
      obtain ⟨-, hlen, -⟩ := hreads
      cases inp with
      | nil => exact absurd hlen (by decide)
      | cons b tail => exact .syncRead _ _ _ htodo rfl
    · cases h
  · rename_i rest htodo
    split at h
    · rename_i hreads
      split at h
      · obtain ⟨rfl, rfl⟩ := Prod.mk.inj (Option.some.inj h)
        exact .doneRead _ _ htodo hreads.2.1
      · obtain ⟨rfl, rfl⟩ := Prod.mk.inj (Option.some.inj h)
        exact .doneRead _ _ htodo (Nat.zero_le _)
    · cases h
  · cases h

theorem SyncProc.modify_move {ok : Bool} (h : p.modify ok = some p') : SyncMove p inp p' 0 [] := by
  rw [SyncProc.modify] at h
  split at h
  · rename_i htodo
    cases ok
    · exact Option.some.inj h ▸ .exit
    · exact Option.some.inj h ▸ .modify _ _ _ htodo
  · cases h

/-- **Every step is one of the moves**, where the `read` of a barrier returns a byte. -/
theorem SyncProc.next_move (h : p.next inp eof l = some (p', k, out))
    (hsync : p.todo.head? = some .syncRead → l = .exit ∨ l = .read (.done 1)) :
    p.gone = false ∧ SyncMove p inp p' k out := by
  simp only [SyncProc.next] at h
  split at h
  · cases h
  · rename_i hlive
    refine ⟨Bool.eq_false_iff.mpr hlive, ?_⟩
    cases l with
    | cpu =>
      obtain ⟨q, hq, heq⟩ := Option.map_eq_some_iff.mp h
      cases heq
      exact SyncProc.cpu_move hq
    | write ret =>
      obtain ⟨⟨q, new⟩, hq, heq⟩ := Option.map_eq_some_iff.mp h
      cases heq
      exact SyncProc.write_move hq
    | read ret =>
      obtain ⟨⟨q, n⟩, hq, heq⟩ := Option.map_eq_some_iff.mp h
      cases heq
      refine SyncProc.read_move hq fun hhead => ?_
      rcases hsync hhead with hl | hl
      · cases hl
      · exact SyncLabel.read.inj hl
    | modify ok =>
      obtain ⟨q, hq, heq⟩ := Option.map_eq_some_iff.mp h
      cases heq
      exact SyncProc.modify_move hq
    | exit =>
      cases h
      exact .exit

end Moves

/-- What becomes of a process whose barrier brings it no byte. -/
theorem SyncProc.enter_of_next {p p' : SyncProc} {inp out : List UInt8} {eof : Bool} {k : ℕ}
    {l : SyncLabel} {rest : List SetupCall} (htodo : p.todo = .syncRead :: rest)
    (h : p.next inp eof l = some (p', k, out)) (hexit : l ≠ .exit) (hbyte : l ≠ .read (.done 1)) :
    p' = p.enter rest none := by
  simp only [SyncProc.next] at h
  split at h
  · cases h
  · cases l with
    | cpu =>
      rw [SyncProc.cpu, htodo] at h
      cases h
    | write ret =>
      simp only [SyncProc.write, htodo] at h
      cases h
    | modify ok =>
      simp only [SyncProc.modify, htodo] at h
      cases h
    | exit => exact absurd rfl hexit
    | read ret =>
      simp only [SyncProc.read, htodo] at h
      split at h
      · rename_i hreads
        cases ret with
        | done i =>
          obtain ⟨hle, -⟩ := hreads
          have hi : i = 0 := by
            by_contra hne
            exact hbyte (congrArg (SyncLabel.read ∘ IoResult.done) (by omega : i = 1))
          subst hi
          cases h
          rfl
        | eintr | failed =>
          cases h
          rfl
      · cases h

/-! ### The writer -/

/-- **The first `n` queue pairs are ready to send** and stay so. -/
def SyncProc.Up (n : ℕ) (p : SyncProc) : Prop :=
  (∀ qp next, .modify qp next ∉ p.todo) ∧ ∀ i < n, p.stage i = .rts

/-- **What a process has written so far** are the bytes `w`: a part of those that are to
be written in front of its barrier, `before`, or all of them and sync bytes. -/
inductive Written (before : List UInt8) (n : ℕ) (p : SyncProc) (w : List UInt8) : Prop
  | early (left : List UInt8) (hw : w ++ left = before)
      (hlive : p.gone = false → p.entered = false ∧ BeforeSync p.todo ∧ writesLeft p.todo = left ∧
        ∀ i < n, stagesAfter p.todo p.stage i = .rts)
  | late (tail : List UInt8) (hw : w = before ++ tail) (htail : ∀ b ∈ tail, b = syncByte)
      (hup : p.Up n) (hlive : p.gone = false →
        (p.entered = false ∧ InSync p.todo) ∨ (p.entered = true ∧ ∀ c ∈ p.todo, c.Late))

section Writer

variable {before w inp out : List UInt8} {n k : ℕ} {p p' : SyncProc} {c : SetupCall}
  {rest : List SetupCall}

/-- A queue pair that is ready to send stays so when the process moves. -/
theorem SyncProc.Up.move (h : p.Up n) (hm : SyncMove p inp p' k out) : p'.Up n := by
  have htail : ∀ {c rest}, p.todo = c :: rest → ∀ qp next, .modify qp next ∉ rest :=
    fun htodo qp next hmem =>
    h.1 qp next (htodo ▸ List.mem_cons_of_mem _ hmem)
  cases hm with
  | exit | wait | writeShort | readShort => exact h
  | cpu c rest htodo => exact ⟨htail htodo, h.2⟩
  | writeAll bytes m rest htodo =>
    refine ⟨fun qp next hmem => ?_, h.2⟩
    rcases List.mem_cons.mp hmem with heq | hmem
    · cases heq
    · exact htail htodo qp next hmem
  | readAll remaining m rest htodo =>
    refine ⟨fun qp next hmem => ?_, h.2⟩
    rcases List.mem_cons.mp hmem with heq | hmem
    · cases heq
    · exact htail htodo qp next hmem
  | write record rest htodo => exact ⟨htail htodo, h.2⟩
  | read size rest htodo => exact ⟨htail htodo, h.2⟩
  | modify qp stage rest htodo => exact absurd (htodo ▸ List.mem_cons_self) (h.1 qp stage)
  | syncWrite m rest htodo => exact ⟨htail htodo, h.2⟩
  | syncRead b tail rest htodo => exact ⟨htail htodo, h.2⟩
  | doneRead m rest htodo => exact ⟨htail htodo, h.2⟩

/-- At its barrier or behind it a process makes the calls that stand there. -/
theorem late_cases (h : (p.entered = false ∧ InSync p.todo) ∨
      (p.entered = true ∧ ∀ c ∈ p.todo, c.Late))
    (htodo : p.todo = c :: rest) :
    (∀ c ∈ rest, c.Late) ∧ ((p.entered = false ∧ c = .syncRead) ∨ (p.entered = true ∧ c.Late)) := by
  rcases h with ⟨hent, late, heq, hlate⟩ | ⟨hent, hlate⟩
  · obtain ⟨rfl, rfl⟩ := List.cons.inj (htodo.symm.trans heq)
    exact ⟨hlate, Or.inl ⟨hent, rfl⟩⟩
  · rw [htodo] at hlate
    exact ⟨fun c hc => hlate c (List.mem_cons_of_mem _ hc),
      Or.inr ⟨hent, hlate _ List.mem_cons_self⟩⟩

/-- Behind its barrier a process makes the calls that stand there. -/
theorem late_of_ne (h : (p.entered = false ∧ InSync p.todo) ∨
      (p.entered = true ∧ ∀ c ∈ p.todo, c.Late))
    (htodo : p.todo = c :: rest) (hc : c ≠ .syncRead) :
    p.entered = true ∧ c.Late ∧ ∀ c ∈ rest, c.Late := by
  obtain ⟨hrest, ⟨-, hsync⟩ | ⟨hent, hlate⟩⟩ := late_cases h htodo
  · exact absurd hsync hc
  · exact ⟨hent, hlate, hrest⟩

namespace Written

/-- A process at the `read` of its barrier is at it for the first time. -/
theorem of_syncRead (h : Written before n p w) (hlive : p.gone = false)
    (htodo : p.todo = .syncRead :: rest) :
    p.entered = false := by
  cases h with
  | early left hw hearly => exact (hearly hlive).1
  | late tail hw htail hup hlate =>
    rcases (late_cases (hlate hlive) htodo).2 with ⟨hent, -⟩ | ⟨-, hc⟩
    · exact hent
    · exact hc.elim

/-- A process at another `read` of one byte is behind its barrier. -/
theorem of_doneRead (h : Written before n p w) (hlive : p.gone = false)
    (htodo : p.todo = .doneRead :: rest) :
    p.entered = true := by
  cases h with
  | early left hw hearly =>
    obtain ⟨-, hbefore, -⟩ := hearly hlive
    rw [htodo] at hbefore
    exact (hbefore.early_of_ne nofun).1.elim
  | late tail hw htail hup hlate => exact (late_of_ne (hlate hlive) htodo nofun).1

/-- A move in front of the barrier. -/
theorem move_early {left : List UInt8} (hw : w ++ left = before) (hent : p.entered = false)
    (hbefore : BeforeSync p.todo) (hleft : writesLeft p.todo = left)
    (hstages : ∀ i < n, stagesAfter p.todo p.stage i = .rts)
    (hsync : p.sync.getD syncByte = syncByte)
    (hm : SyncMove p inp p' k out) : Written before n p' (w ++ out) := by
  have hkeep : w ++ [] ++ left = before := by rwa [List.append_nil]
  cases hm with
  | exit => exact .early left hkeep nofun
  | wait => exact .early left hkeep fun _ => ⟨hent, hbefore, hleft, hstages⟩
  | cpu c rest htodo hc =>
    rw [htodo] at hbefore hleft hstages
    have hne : c ≠ .syncWrite := by
      rcases hc with rfl | rfl | rfl
      all_goals exact nofun
    obtain ⟨-, hrest⟩ := hbefore.early_of_ne hne
    refine .early left hkeep fun _ => ⟨hent, hrest, ?_, ?_⟩
    · rcases hc with rfl | rfl | rfl
      all_goals exact hleft
    · rcases hc with rfl | rfl | rfl
      all_goals exact hstages
  | writeAll bytes m rest htodo =>
    rw [htodo] at hbefore hleft hstages
    obtain ⟨-, hrest⟩ := hbefore.early_of_ne nofun
    refine .early (bytes.drop m ++ writesLeft rest) ?_ fun _ =>
      ⟨hent, hrest.cons trivial, rfl, hstages⟩
    rw [List.append_assoc, ← List.append_assoc (bytes.take m), List.take_append_drop, ← hw, ← hleft]
    rfl
  | readAll remaining m rest htodo =>
    rw [htodo] at hbefore hleft hstages
    obtain ⟨-, hrest⟩ := hbefore.early_of_ne nofun
    exact .early left hkeep fun _ => ⟨hent, hrest.cons trivial, hleft, hstages⟩
  | write record rest htodo =>
    rw [htodo] at hbefore hleft hstages
    obtain ⟨-, hrest⟩ := hbefore.early_of_ne nofun
    refine .early (writesLeft rest) ?_ fun _ => ⟨hent, hrest, rfl, hstages⟩
    rw [List.append_assoc, ← hw, ← hleft]
    rfl
  | writeShort record m rest htodo =>
    rw [htodo] at hleft
    refine .early (record.drop m ++ writesLeft rest) ?_ nofun
    rw [List.append_assoc, ← List.append_assoc (record.take m), List.take_append_drop, ← hw,
      ← hleft]
    rfl
  | read size rest htodo =>
    rw [htodo] at hbefore hleft hstages
    obtain ⟨-, hrest⟩ := hbefore.early_of_ne nofun
    exact .early left hkeep fun _ => ⟨hent, hrest, hleft, hstages⟩
  | readShort => exact .early left hkeep nofun
  | modify qp stage rest htodo =>
    rw [htodo] at hbefore hleft hstages
    obtain ⟨-, hrest⟩ := hbefore.early_of_ne nofun
    exact .early left hkeep fun _ => ⟨hent, hrest, hleft, hstages⟩
  | syncWrite m rest htodo =>
    -- everything in front of the barrier has been done
    rw [htodo] at hbefore hleft hstages
    obtain rfl : left = [] := hleft.symm
    obtain rfl : w = before := by rwa [List.append_nil] at hw
    rcases hbefore.cases with ⟨hc, -⟩ | ⟨-, hsyncs⟩
    · exact hc.elim
    · obtain ⟨late, rfl, hlate⟩ := hsyncs
      have hno : ∀ qp next, .modify qp next ∉ SetupCall.syncRead :: late := by
        intro qp next hmem
        rcases List.mem_cons.mp hmem with heq | hmem
        · cases heq
        · exact (hlate _ hmem).elim
      refine .late _ rfl (fun b hb => ?_) ⟨hno, fun i hi => ?_⟩
        fun _ => Or.inl ⟨hent, late, rfl, hlate⟩
      · rw [List.mem_singleton.mp (List.mem_of_mem_take hb), hsync]
      · rw [← hstages i hi]
        exact congrFun (stagesAfter_of_noModify hno).symm i
  | syncRead b tail rest htodo =>
    rw [htodo] at hbefore
    exact (hbefore.early_of_ne nofun).1.elim
  | doneRead m rest htodo =>
    rw [htodo] at hbefore
    exact (hbefore.early_of_ne nofun).1.elim

/-- A move at the barrier or behind it. -/
theorem move_late {tail : List UInt8} (hw : w = before ++ tail) (htail : ∀ b ∈ tail, b = syncByte)
    (hup : p.Up n)
    (hlate : (p.entered = false ∧ InSync p.todo) ∨ (p.entered = true ∧ ∀ c ∈ p.todo, c.Late))
    (hsync : p.sync.getD syncByte = syncByte) (hm : SyncMove p inp p' k out) :
    Written before n p' (w ++ out) := by
  have hup' := hup.move hm
  have hkeep : w ++ [] = before ++ tail := by rw [hw, List.append_nil]
  cases hm with
  | exit => exact .late tail hkeep htail hup' nofun
  | wait => exact .late tail hkeep htail hup' fun _ => hlate
  | cpu c rest htodo hc =>
    have hne : c ≠ .syncRead := by
      rcases hc with rfl | rfl | rfl
      all_goals exact nofun
    obtain ⟨hent, -, hrest⟩ := late_of_ne hlate htodo hne
    exact .late tail hkeep htail hup' fun _ => Or.inr ⟨hent, hrest⟩
  | writeAll bytes m rest htodo | readAll remaining m rest htodo | write record rest htodo
  | writeShort record m rest htodo | read size rest htodo =>
    exact (late_of_ne hlate htodo nofun).2.1.elim
  | readShort => exact .late tail hkeep htail hup' nofun
  | modify qp stage rest htodo =>
    exact (late_of_ne hlate htodo nofun).2.1.elim
  | syncWrite m rest htodo =>
    obtain ⟨hent, -, hrest⟩ := late_of_ne hlate htodo nofun
    refine .late (tail ++ [p.sync.getD syncByte].take m) ?_ (fun b hb => ?_) hup' fun _ =>
      Or.inr ⟨hent, hrest⟩
    · rw [hw, List.append_assoc]
    · rcases List.mem_append.mp hb with hb | hb
      · exact htail b hb
      · rw [List.mem_singleton.mp (List.mem_of_mem_take hb), hsync]
  | syncRead b tail' rest htodo =>
    obtain ⟨hrest, -⟩ := late_cases hlate htodo
    exact .late tail hkeep htail hup' fun _ => Or.inr ⟨rfl, hrest⟩
  | doneRead m rest htodo =>
    obtain ⟨hent, -, hrest⟩ := late_of_ne hlate htodo nofun
    exact .late tail hkeep htail hup' fun _ => Or.inr ⟨hent, hrest⟩

/-- **A move of the writer.** -/
theorem move (h : Written before n p w) (hlive : p.gone = false)
    (hsync : p.sync.getD syncByte = syncByte)
    (hm : SyncMove p inp p' k out) : Written before n p' (w ++ out) := by
  cases h with
  | early left hw hearly =>
    obtain ⟨hent, hbefore, hleft, hstages⟩ := hearly hlive
    exact move_early hw hent hbefore hleft hstages hsync hm
  | late tail hw htail hup hlate => exact move_late hw htail hup (hlate hlive) hsync hm

/-- **Behind what is written in front of the barrier** only sync bytes are written, and
only by a process whose queue pairs are ready to send. -/
theorem of_drop {b : UInt8} {tail : List UInt8} (h : Written before n p w)
    (hdrop : w.drop before.length = b :: tail) : b = syncByte ∧ p.Up n := by
  cases h with
  | early left hw hearly =>
    rw [← hw, List.drop_eq_nil_of_le (List.length_append ▸ Nat.le_add_right _ _)] at hdrop
    cases hdrop
  | late tail' hw htail hup hlate =>
    rw [hw, List.drop_left] at hdrop
    exact ⟨htail b (hdrop ▸ List.mem_cons_self), hup⟩

end Written

end Writer

/-! ### The reader -/

/-- **One direction of the connection**: `p` reads what `q` writes, of which `before` comes
in front of the barrier. -/
structure SyncLink (before : List UInt8) (n : ℕ) (p q : SyncProc) (inp : List UInt8) : Prop where
  flow : ∃ w r, inp = w.drop r ∧ r ≤ w.length ∧ Written before n q w ∧
    (p.gone = false → p.entered = false → r + readsLeft p.todo = before.length)
  sync : p.sync.getD syncByte = syncByte
  entered : p.entered = true → p.sync = some syncByte ∧ q.Up n

namespace SyncLink

variable {before inp inp' out : List UInt8} {n m k : ℕ} {p p' q q' : SyncProc}

/-- A move of the writer. -/
theorem write (h : SyncLink before n p q inp) (hlive : q.gone = false)
    (hsync : q.sync.getD syncByte = syncByte)
    (hm : SyncMove q inp' q' k out) : SyncLink before n p q' (inp ++ out) := by
  obtain ⟨w, r, hinp, hr, hw, hcount⟩ := h.flow
  refine ⟨⟨w ++ out, r, ?_, ?_, hw.move hlive hsync hm, hcount⟩, h.sync, fun hent => ?_⟩
  · rw [hinp, List.drop_append_of_le_length hr]
  · exact hr.trans (List.length_append ▸ Nat.le_add_right _ _)
  · obtain ⟨hbyte, hup⟩ := h.entered hent
    exact ⟨hbyte, hup.move hm⟩

/-- The reader has read `k` bytes, and all of them in front of the barrier. -/
theorem of_read (h : SyncLink before n p q inp) (hk : k ≤ inp.length) (hsync : p'.sync = p.sync)
    (hent : p'.entered = p.entered)
    (hcount : p'.gone = false → p.entered = false →
      p.gone = false ∧ k + readsLeft p'.todo = readsLeft p.todo) : SyncLink before n p' q
        (inp.drop k) := by
  obtain ⟨w, r, hinp, hr, hw, hleft⟩ := h.flow
  refine ⟨⟨w, r + k, ?_, ?_, hw, fun hg he => ?_⟩, ?_, ?_⟩
  · rw [hinp, List.drop_drop]
  · rw [hinp, List.length_drop] at hk
    omega
  · rw [hent] at he
    obtain ⟨hlive, hsum⟩ := hcount hg he
    rw [Nat.add_assoc, hsum]
    exact hleft hlive he
  · rw [hsync]
    exact h.sync
  · rw [hsync, hent]
    exact h.entered

/-- **A move of the reader**, which has written `w` itself. -/
theorem read {mine w : List UInt8} (h : SyncLink before n p q inp) (hp : Written mine m p w)
    (hlive : p.gone = false) (hm : SyncMove p inp p' k out) :
    SyncLink before n p' q (inp.drop k) := by
  cases hm with
  | exit => exact h.of_read (Nat.zero_le _) rfl rfl nofun
  | wait => exact h.of_read (Nat.zero_le _) rfl rfl fun _ _ => ⟨hlive, Nat.zero_add _⟩
  | cpu c rest htodo hc =>
    refine h.of_read (Nat.zero_le _) rfl rfl fun _ _ => ⟨hlive, ?_⟩
    rw [htodo, Nat.zero_add]
    rcases hc with rfl | rfl | rfl
    · rfl
    · exact (Nat.zero_add _).symm
    · rfl
  | writeAll bytes i rest htodo =>
    refine h.of_read (Nat.zero_le _) rfl rfl fun _ _ => ⟨hlive, ?_⟩
    rw [htodo, Nat.zero_add]
    rfl
  | readAll remaining i rest htodo hi hinp =>
    refine h.of_read hinp rfl rfl fun _ _ => ⟨hlive, ?_⟩
    rw [htodo]
    change k + (remaining - k + readsLeft rest) = remaining + readsLeft rest
    omega
  | write record rest htodo =>
    refine h.of_read (Nat.zero_le _) rfl rfl fun _ _ => ⟨hlive, ?_⟩
    rw [htodo, Nat.zero_add]
    rfl
  | writeShort => exact h.of_read (Nat.zero_le _) rfl rfl nofun
  | read size rest htodo hinp =>
    refine h.of_read hinp rfl rfl fun _ _ => ⟨hlive, ?_⟩
    rw [htodo]
    rfl
  | readShort i hinp => exact h.of_read hinp rfl rfl nofun
  | modify qp stage rest htodo =>
    refine h.of_read (Nat.zero_le _) rfl rfl fun _ _ => ⟨hlive, ?_⟩
    rw [htodo, Nat.zero_add]
    rfl
  | syncWrite i rest htodo =>
    refine h.of_read (Nat.zero_le _) rfl rfl fun _ _ => ⟨hlive, ?_⟩
    rw [htodo, Nat.zero_add]
    rfl
  | syncRead b tail rest htodo hinp =>
    obtain ⟨w', r, hdrop, hr, hw', hleft⟩ := h.flow
    have hread : r = before.length := by
      have hcount := hleft hlive (hp.of_syncRead hlive htodo)
      rwa [htodo] at hcount
    subst hread
    obtain ⟨rfl, hup⟩ := hw'.of_drop (hdrop.symm.trans hinp)
    refine ⟨⟨w', before.length + 1, ?_, ?_, hw', nofun⟩, rfl, fun _ => ⟨rfl, hup⟩⟩
    · rw [hdrop, List.drop_drop]
    · have hlen := congrArg List.length (hdrop.symm.trans hinp)
      rw [List.length_drop, List.length_cons] at hlen
      omega
  | doneRead i rest htodo hinp =>
    refine h.of_read hinp rfl rfl fun _ hent => ?_
    rw [hp.of_doneRead hlive htodo] at hent
    cases hent

end SyncLink

/-! ### Two processes -/

/-- **Two scripts that fit**: each comes to one barrier, reads in front of it what the other
writes there, and brings its `n` queue pairs up. -/
structure Synchronizes (script : Side → List SetupCall) (n : Side → ℕ) : Prop where
  calls : ∀ s, BeforeSync (script s)
  reads : ∀ s, readsLeft (script s) = (writesLeft (script s.other)).length
  stages : ∀ s, ∀ i < n s, stagesAfter (script s) (fun _ => .reset) i = .rts

section System

variable {script : Side → List SetupCall} {n : Side → ℕ} {st st' : SyncState}

/-- The invariant: both directions. -/
def SyncState.Linked (script : Side → List SetupCall) (n : Side → ℕ) (st : SyncState) : Prop :=
  ∀ s, SyncLink (writesLeft (script s.other)) (n s.other) (st.proc s) (st.proc s.other)
    (st.wire s.other)

theorem linked_start (h : Synchronizes script n) : (syncStart script).Linked script n := by
  intro s
  refine ⟨⟨[], 0, rfl, le_rfl, ?_, fun _ _ => ?_⟩, rfl, nofun⟩
  · exact .early _ rfl fun _ => ⟨rfl, h.calls s.other, rfl, h.stages s.other⟩
  · rw [Nat.zero_add]
    exact h.reads s

theorem SyncState.Linked.next (h : st.Linked script n) {l : Side × SyncLabel}
    (hok : SyncByteRead st l) (hs : st.next l = some st') : st'.Linked script n := by
  obtain ⟨s, l⟩ := l
  obtain ⟨⟨p', k, out⟩, hnext, rfl⟩ := Option.map_eq_some_iff.mp hs
  obtain ⟨hlive, hm⟩ := SyncProc.next_move hnext hok
  have hother := h s.other
  rw [Side.other_other] at hother
  obtain ⟨w, r, -, -, hw, -⟩ := hother.flow
  have hread := (h s).read hw hlive hm
  have hwrite := hother.write hlive (h s).sync hm
  have hne := s.other_ne
  intro t
  rcases s.eq_or_eq_other t with rfl | rfl
  · simpa [Function.update_of_ne hne] using hread
  · simpa [Function.update_of_ne hne, Function.update_of_ne hne.symm] using hwrite

/-- **Scripts that fit are synchronized** in every run in which the `read` of a barrier
returns a byte, whoever ends where. -/
theorem Synchronizes.synchronized (h : Synchronizes script n)
    (hr : (syncLts script).Reach SyncByteRead st) (s : Side) : st.Synchronized n s := by
  have hlinked : st.Linked script n := by
    refine hr.invariant ?_ fun a l b ha hok hs => ha.next hok hs
    rintro _ rfl
    exact linked_start h
  intro hent
  obtain ⟨hbyte, hup⟩ := (hlinked s).entered hent
  exact ⟨hbyte, hup.2⟩

/-- **A `read` of the barrier that returns no byte** is not noticed: the process enters its
data phase without the sync byte. -/
theorem not_synchronized_of_next {l : Side × SyncLabel} (hs : st.next l = some st')
    (hok : ¬SyncByteRead st l) : ¬st'.Synchronized n l.1 := by
  obtain ⟨s, l⟩ := l
  obtain ⟨⟨p', k, out⟩, hnext, rfl⟩ := Option.map_eq_some_iff.mp hs
  rw [SyncByteRead, Classical.not_imp, not_or] at hok
  obtain ⟨hhead, hexit, hbyte⟩ := hok
  obtain ⟨rest, htodo⟩ : ∃ rest, (st.proc s).todo = .syncRead :: rest := by
    obtain ⟨rest, hrest⟩ := List.head?_eq_some_iff.mp hhead
    exact ⟨rest, hrest⟩
  obtain rfl := SyncProc.enter_of_next htodo hnext hexit hbyte
  intro hsync
  obtain ⟨hsome, -⟩ := hsync (by simp [SyncProc.enter])
  simp [SyncProc.enter] at hsome

end System

/-! ### The five programs -/

section Programs

variable (order : ByteOrder) (host : Side → SyncHost) (prog : SyncProgram)

/-- What comes in front of a barrier. -/
theorem writesLeft_append {setup late : List SetupCall} (h : ∀ c ∈ setup, c.Early) :
    writesLeft (setup ++ .syncWrite :: late) = writesLeft setup := by
  induction setup with
  | nil => rfl
  | cons c setup ih =>
    have hrest := ih fun x hx => h x (List.mem_cons_of_mem _ hx)
    have hc := h c List.mem_cons_self
    cases c with
    | writeAll bytes => exact congrArg (bytes ++ ·) hrest
    | write record => exact congrArg (record ++ ·) hrest
    | readAll | read | modify => exact hrest
    | syncWrite | syncRead | run | doneRead => exact hc.elim

theorem readsLeft_append {setup late : List SetupCall} (h : ∀ c ∈ setup, c.Early) :
    readsLeft (setup ++ .syncWrite :: .syncRead :: late) = readsLeft setup := by
  induction setup with
  | nil => rfl
  | cons c setup ih =>
    have hrest := ih fun x hx => h x (List.mem_cons_of_mem _ hx)
    have hc := h c List.mem_cons_self
    cases c with
    | readAll remaining => exact congrArg (remaining + ·) hrest
    | read size => exact congrArg (size + ·) hrest
    | writeAll | write | modify => exact hrest
    | syncWrite | syncRead | run | doneRead => exact hc.elim

/-- The bring-up of one queue pair is in front of the barrier, -/
theorem early_bringUpCalls (i : ℕ) : ∀ c ∈ bringUpCalls i, c.Early := by
  simp [bringUpCalls, SetupCall.Early]

/-- and so are those of several. -/
theorem early_flatMap (is : List ℕ) : ∀ c ∈ is.flatMap bringUpCalls, c.Early := by
  intro c hc
  obtain ⟨i, -, hi⟩ := List.mem_flatMap.mp hc
  exact early_bringUpCalls i c hi

/-- The bring-up of one queue pair. -/
theorem stagesAfter_bringUpCalls (i : ℕ) (rest : List SetupCall) (stage : ℕ → QpStage) :
    stagesAfter (bringUpCalls i ++ rest) stage = stagesAfter rest
      (Function.update stage i .rts) := by
  simp [bringUpCalls, stagesAfter]

/-- **The bring-up of several queue pairs** brings up each of them. -/
theorem stagesAfter_flatMap (is : List ℕ) (stage : ℕ → QpStage) {i : ℕ}
    (hi : i ∈ is ∨ stage i = .rts) : stagesAfter (is.flatMap bringUpCalls) stage i = .rts := by
  induction is generalizing stage with
  | nil => exact hi.resolve_left List.not_mem_nil
  | cons j is ih =>
    rw [List.flatMap_cons, stagesAfter_bringUpCalls]
    refine ih _ ?_
    by_cases hij : i = j
    · rw [hij, Function.update_self]
      exact Or.inr rfl
    · rw [Function.update_of_ne hij]
      exact hi.imp_left fun hmem => (List.mem_cons.mp hmem).resolve_left hij

theorem early_setup (s : Side) : ∀ c ∈ prog.setup order (host s) s, c.Early := by
  cases prog with
  | oob prog =>
    simp only [SyncProgram.setup]
    intro c hc
    rcases List.mem_append.mp hc with hc | hc
    · rcases List.mem_append.mp hc with hc | hc
      · simp only [List.mem_cons, List.not_mem_nil, or_false] at hc
        rcases hc with rfl | rfl <;> trivial
      · split at hc
        · simp only [List.mem_cons, List.not_mem_nil, or_false] at hc
          rcases hc with rfl | rfl <;> trivial
        · cases hc
    · exact early_bringUpCalls 0 c hc
  | udSend =>
    intro c hc
    rcases List.mem_append.mp hc with hc | hc
    · exact early_bringUpCalls 0 c hc
    · simp only [List.mem_cons, List.not_mem_nil, or_false] at hc
      rcases hc with rfl | rfl <;> trivial
  | rdmaBench qpCount =>
    intro c hc
    rcases List.mem_append.mp hc with hc | hc
    · simp only [List.mem_cons, List.not_mem_nil, or_false] at hc
      rcases hc with rfl | rfl <;> trivial
    · exact early_flatMap _ c hc

/-- Bringing queue pairs up neither writes nor reads. -/
theorem left_flatMap (is : List ℕ) :
    writesLeft (is.flatMap bringUpCalls) = [] ∧ readsLeft (is.flatMap bringUpCalls) = 0 := by
  induction is with
  | nil => exact ⟨rfl, rfl⟩
  | cons i is ih =>
    rw [List.flatMap_cons]
    exact ih

/-- **What a process reads in front of its barrier** is as much as its peer writes there. -/
theorem readsLeft_setup (s : Side) : readsLeft (prog.setup order (host s) s) =
    (writesLeft (prog.setup order (host s.other) s.other)).length := by
  cases prog with
  | oob prog =>
    have hqp := Host.length_msg order (host s.other).host .qp
    have hmr := Host.length_msg order (host s.other).host .mr
    simp only [SyncProgram.setup]
    split
    · change OobMsg.qp.size + (OobMsg.mr.size + 0) =
        (Host.msg order (host s.other).host .qp ++
          (Host.msg order (host s.other).host .mr ++ [])).length
      rw [List.append_nil, List.length_append, hqp, hmr]
      rfl
    · change OobMsg.qp.size + 0 = (Host.msg order (host s.other).host .qp ++ []).length
      rw [List.append_nil, hqp]
      rfl
  | udSend =>
    change 24 + 0 = ((host s.other).udInfo.toList ++ []).length
    rw [List.append_nil, List.Vector.toList_length]
  | rdmaBench qpCount =>
    change 40 + readsLeft ((List.range (qpCount s)).flatMap bringUpCalls) =
      ((host s.other).connInfo.toList ++
        writesLeft ((List.range (qpCount s.other)).flatMap bringUpCalls)).length
    rw [(left_flatMap _).1, (left_flatMap _).2, List.append_nil, List.Vector.toList_length]

/-- **Every queue pair is brought up** in front of the barrier. -/
theorem stagesAfter_setup (s : Side) {i : ℕ} (hi : i < prog.qpCount s) :
    stagesAfter (prog.setup order (host s) s) (fun _ => .reset) i = .rts := by
  cases prog with
  | oob prog =>
    obtain rfl : i = 0 := Nat.lt_one_iff.mp hi
    simp only [SyncProgram.setup]
    split
    · rfl
    · rfl
  | udSend =>
    obtain rfl : i = 0 := Nat.lt_one_iff.mp hi
    rfl
  | rdmaBench qpCount => exact stagesAfter_flatMap _ _ (Or.inl (List.mem_range.mpr hi))

theorem late_dataPhase (s : Side) : ∀ c ∈ prog.dataPhase s, c.Late := by
  cases prog with
  | oob | udSend =>
    intro c hc
    rw [List.mem_singleton.mp hc]
    trivial
  | rdmaBench qpCount =>
    intro c hc
    cases s with
    | client | server =>
      simp only [SyncProgram.dataPhase, List.mem_cons, List.not_mem_nil, or_false] at hc
      rcases hc with rfl | rfl <;> trivial

/-- **Two processes of one of the programs** fit. -/
theorem synchronizes_script : Synchronizes (prog.script order host) prog.qpCount where
  calls s := ⟨_, _, rfl, early_setup order host prog s, late_dataPhase prog s⟩
  reads s := by
    rw [SyncProgram.script, SyncProgram.script, readsLeft_append (early_setup order host prog s),
      writesLeft_append (early_setup order host prog s.other)]
    exact readsLeft_setup order host prog s
  stages s i hi := by
    have hno : ∀ qp next, .modify qp next ∉ SetupCall.syncWrite :: .syncRead ::
        prog.dataPhase s := by
      intro qp next hmem
      rcases List.mem_cons.mp hmem with heq | hmem
      · cases heq
      · rcases List.mem_cons.mp hmem with heq | hmem
        · cases heq
        · exact late_dataPhase prog s _ hmem
    rw [SyncProgram.script, stagesAfter_append, stagesAfter_of_noModify hno]
    exact stagesAfter_setup order host prog s hi

/-- **The barrier holds where its `read` returns a byte**: in every run in which it always
does, a process in its data phase has received the sync byte of its peer, and all queue
pairs of the peer are ready to send. A `read` that returns none breaks this. -/
theorem barrier_of_read :
    (∀ st, (syncLts (prog.script order host)).Reach SyncByteRead st →
      ∀ s, st.Synchronized prog.qpCount s) ∧
    ∀ st l st', (syncLts (prog.script order host)).Reach Lts.any st → st.next l = some st' →
      ¬SyncByteRead st l → ¬st'.Synchronized prog.qpCount l.1 :=
  ⟨fun _ h s => (synchronizes_script order host prog).synchronized h s,
    fun _ _ _ _ hs hok => not_synchronized_of_next hs hok⟩

end Programs

/-! ### A peer that has gone -/

/-- Two processes on the hosts of the handshake. -/
def sampleSyncHosts (s : Side) : SyncHost :=
  ⟨sampleHosts s, List.Vector.replicate 24 0, List.Vector.replicate 40 0⟩

/-- The calls of two processes of rc_pingpong. -/
def pingCalls : Side → List SetupCall := (SyncProgram.oob rcPingpong).script .little sampleSyncHosts

/-- Both processes exchange their records. -/
def exchangeRun : List (Side × SyncLabel) :=
  [(.client, .write (.done 32)), (.server, .write (.done 32)), (.client, .cpu), (.server, .cpu),
    (.client, .read (.done 32)), (.server, .read (.done 32)), (.client, .cpu), (.server, .cpu)]

/-- A process brings its queue pair up and writes its sync byte. -/
def toBarrier (s : Side) : List (Side × SyncLabel) :=
  [.modify true, .modify true, .modify true, .write (.done 1)].map (s, ·)

/-- A run in which the queue pair of the server is refused, and its process ends. -/
def aloneRun : List (Side × SyncLabel) :=
  exchangeRun ++ (.server, .modify false) :: (toBarrier .client ++ [(.client, .read (.done 0))])

/-- **The client enters its data phase** although the server has gone. -/
theorem entered_alone : ∃ st, (syncLts pingCalls).Reach Lts.any st ∧ (st.proc .server).gone = true ∧
    (st.proc .client).entered = true ∧ ¬st.Synchronized (SyncProgram.oob rcPingpong).qpCount
      .client := by
  have hrun : (Lts.exec SyncState.next Lts.any (syncStart pingCalls) aloneRun).map (fun st =>
      ((st.proc .server).gone, (st.proc .client).entered, (st.proc .client).sync)) =
        some (true, true, none) := by
    decide +kernel
  obtain ⟨st, hexec, hview⟩ := Option.map_eq_some_iff.mp hrun
  obtain ⟨hgone, hview⟩ := Prod.mk.inj hview
  obtain ⟨hent, hnone⟩ := Prod.mk.inj hview
  refine ⟨st, ⟨_, rfl, Lts.path_of_exec hexec⟩, hgone, hent, fun hsync => ?_⟩
  obtain ⟨hbyte, -⟩ := hsync hent
  rw [hnone] at hbyte
  cases hbyte

/-- A run in which the server ends right behind its barrier, and the client reads its byte
later. -/
def lateExitRun : List (Side × SyncLabel) :=
  exchangeRun ++ (toBarrier .server ++ (toBarrier .client ++
    [(.server, .read (.done 1)), (.server, .exit), (.client, .read (.done 1))]))

/-- The client has the sync byte of the server then. -/
theorem barrier_of_read_lateExit : ∃ st, (syncLts pingCalls).Reach SyncByteRead st ∧
    (st.proc .client).entered = true ∧ (st.proc .client).sync = some syncByte ∧
      (st.proc .server).stage 0 = .rts := by
  have hrun : (Lts.exec SyncState.next SyncByteRead (syncStart pingCalls) lateExitRun).map
      (fun st =>
      (st.proc .client).entered) = some true := by
    decide +kernel
  obtain ⟨st, hexec, hent⟩ := Option.map_eq_some_iff.mp hrun
  have hreach : (syncLts pingCalls).Reach SyncByteRead st := ⟨_, rfl, Lts.path_of_exec hexec⟩
  obtain ⟨hbyte, hup⟩ :=
    (barrier_of_read .little sampleSyncHosts (.oob rcPingpong)).1 st hreach .client hent
  exact ⟨st, hreach, hent, hbyte, hup 0 (by decide)⟩

end RdmaBook
