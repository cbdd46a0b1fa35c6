import Mathlib.Data.List.Basic
import Mathlib.Data.List.Induction
import RdmaBook.Lib.Lts

/-!
# Event loops

A loop that takes its events off a channel, one after the other. The memory of an event
belongs to the channel and is gone once the event is acknowledged, so the loop copies an
event first, acknowledges it, and works on the copy. An identifier must not be destroyed
while an event is still to be acknowledged: the channel would wait for that for ever.

`EventLoop.Program` is a program around such a loop, whatever its handlers do.
`EventLoop.Disciplined` says what may happen to the events, as a property of everything
that has happened, and a program whose handlers leave the memory of the events alone
keeps it, and acknowledges every event it fetches (`EventLoop.kept_of_reach`). Looked at
from outside, fetching an event and entering its handler is one step
(`EventLoop.reach_inner`, `EventLoop.exists_reach_of_inner`).
-/

namespace EventLoop

/-! ### What happens to the events -/

section Acts

variable {κ : Type*}

/-- What happens to the events, which are numbered as they are fetched, and to the
identifiers. -/
inductive Act (κ : Type*)
  /-- An event is fetched. -/
  | get (n : ℕ)
  /-- Its memory is read, or what that points to. -/
  | read (n : ℕ)
  /-- It is acknowledged. -/
  | ack (n : ℕ)
  /-- Its handler starts. -/
  | handle (n : ℕ)
  | destroy (id : κ)
  deriving DecidableEq

/-- **What may happen** behind all that has happened: an event is fetched when all others
have been acknowledged, read and acknowledged while it has not been, and handled when it
has; an identifier is destroyed when all events have been acknowledged. -/
def Act.Allowed (before : List (Act κ)) : Act κ → Prop
  | .get n => .get n ∉ before ∧ ∀ m, .get m ∈ before → .ack m ∈ before
  | .read n => .get n ∈ before ∧ .ack n ∉ before
  | .ack n => .get n ∈ before ∧ .ack n ∉ before
  | .handle n => .ack n ∈ before ∧ .handle n ∉ before
  | .destroy _ => ∀ m, .get m ∈ before → .ack m ∈ before

/-- **Everything that has happened was allowed** where it happened. -/
def Disciplined (acts : List (Act κ)) : Prop :=
  ∀ before a, before ++ [a] <+: acts → a.Allowed before

theorem disciplined_nil : Disciplined ([] : List (Act κ)) := by
  intro before a h
  exact absurd (List.prefix_nil.mp h) (List.append_ne_nil_of_right_ne_nil _ (List.cons_ne_nil _ _))

variable {acts : List (Act κ)} {a : Act κ}

/-- One more thing happens that is allowed. -/
theorem Disciplined.snoc (h : Disciplined acts) (ha : a.Allowed acts) :
    Disciplined (acts ++ [a]) := by
  intro before b hpre
  rcases List.prefix_concat_iff.mp hpre with heq | hpre
  · obtain ⟨rfl, hb⟩ := List.append_inj' heq rfl
    exact List.singleton_inj.mp hb ▸ ha
  · exact h before b hpre

theorem Disciplined.of_snoc (h : Disciplined (acts ++ [a])) : Disciplined acts ∧ a.Allowed acts :=
  ⟨fun before b hpre => h before b (hpre.trans (List.prefix_append _ _)), h acts a List.prefix_rfl⟩

/-- **No event is acknowledged twice.** -/
theorem Disciplined.count_ack_le [DecidableEq κ] (h : Disciplined acts) (n : ℕ) :
    acts.count (.ack n) ≤ 1 := by
  induction acts using List.reverseRecOn with
  | nil => exact Nat.zero_le 1
  | append_singleton acts a ih =>
    obtain ⟨hacts, ha⟩ := h.of_snoc
    rw [List.count_append, List.count_singleton]
    split
    · rename_i heq
      rw [beq_iff_eq] at heq
      subst heq
      rw [List.count_eq_zero_of_not_mem ha.2]
    · exact ih hacts

end Acts

/-! ### The loop -/

section Loop

variable (σ ι ε κ : Type*)

/-- **A program around an event loop**: the states in which the loop asks for an event,
the events that may come then, what the loop does with the copy of an event, and all other
steps, of which some read the memory of the last event or destroy an identifier. -/
structure Program where
  init : σ → Prop
  fetches : σ → Bool
  accepts : σ → ε → Bool
  enter : σ → ε → σ
  next : σ → ι → Option σ
  touches : σ → ι → Bool
  destroys : σ → ι → Option κ

/-- Where the loop stands with an event. -/
inductive Phase
  /-- It has none, or its handler runs. -/
  | idle
  | fetched (ev : ε)
  | copied (copy : ε)
  | acked (copy : ε)

/-- The program, its loop, the number of events fetched, and, as a history, what has
happened to the events. -/
structure State where
  inner : σ
  phase : Phase ε
  fetched : ℕ
  acts : List (Act κ)

/-- What happens in a step. -/
inductive Label
  | get (ev : ε)
  | copy
  | ack
  /-- The loop looks at the copy and calls the handler. -/
  | handle
  /-- The program makes any other step. -/
  | inner (l : ι)

end Loop

section Run

variable {σ ι ε κ : Type*}

/-- What another step of the program does to the events and the identifiers. -/
def Program.acts (P : Program σ ι ε κ) (s : σ) (l : ι) (fetched : ℕ) : List (Act κ) :=
  (if P.touches s l then [.read (fetched - 1)] else []) ++ (P.destroys s l).toList.map .destroy

/-- **A step of a program with its loop.** -/
def Program.step (P : Program σ ι ε κ) (st : State σ ε κ) : Label ι ε → Option (State σ ε κ)
  | .get ev => match st.phase with
    | .idle =>
      if P.fetches st.inner && P.accepts st.inner ev then
        some { st with
          phase := .fetched ev
          fetched := st.fetched + 1
          acts := st.acts ++ [.get st.fetched] }
      else none
    | _ => none
  | .copy => match st.phase with
    | .fetched ev => some { st with
        phase := .copied ev, acts := st.acts ++ [.read (st.fetched - 1)] }
    | _ => none
  | .ack => match st.phase with
    | .copied copy => some { st with
        phase := .acked copy, acts := st.acts ++ [.ack (st.fetched - 1)] }
    | _ => none
  | .handle => match st.phase with
    | .acked copy =>
      some { st with
        inner := P.enter st.inner copy
        phase := .idle
        acts := st.acts ++ [.handle (st.fetched - 1)] }
    | _ => none
  | .inner l => match st.phase with
    | .idle => (P.next st.inner l).map fun s =>
      { st with inner := s, acts := st.acts ++ P.acts st.inner l st.fetched }
    | _ => none

/-- **A program with its loop.** -/
def Program.lts (P : Program σ ι ε κ) : Lts (State σ ε κ) (Label ι ε) :=
  Lts.ofFun (fun st => P.init st.inner ∧ st.phase = .idle ∧ st.fetched = 0 ∧ st.acts = []) P.step

/-- **What a step does**, with all that is known before it. -/
inductive Program.Moves (P : Program σ ι ε κ) (st : State σ ε κ) : Label ι ε → State σ ε κ → Prop
  | get (ev : ε) (hphase : st.phase = .idle) (hfetch : P.fetches st.inner = true)
      (haccept : P.accepts st.inner ev = true) :
      Moves P st (.get ev) { st with
        phase := .fetched ev
        fetched := st.fetched + 1
        acts := st.acts ++ [.get st.fetched] }
  | copy (ev : ε) (hphase : st.phase = .fetched ev) :
      Moves P st .copy { st with phase := .copied ev, acts := st.acts ++ [.read (st.fetched - 1)] }
  | ack (copy : ε) (hphase : st.phase = .copied copy) :
      Moves P st .ack { st with phase := .acked copy, acts := st.acts ++ [.ack (st.fetched - 1)] }
  | handle (copy : ε) (hphase : st.phase = .acked copy) :
      Moves P st .handle { st with
        inner := P.enter st.inner copy
        phase := .idle
        acts := st.acts ++ [.handle (st.fetched - 1)] }
  | inner (l : ι) (s : σ) (hphase : st.phase = .idle) (hnext : P.next st.inner l = some s) :
      Moves P st (.inner l) { st with inner := s, acts := st.acts ++ P.acts st.inner l st.fetched }

theorem Program.moves_of_step {P : Program σ ι ε κ} {st st' : State σ ε κ} {l : Label ι ε}
    (hs : P.lts.step st l st') : P.Moves st l st' := by
  replace hs : P.step st l = some st' := hs
  cases l with
  | get ev =>
    simp only [Program.step] at hs
    split at hs
    · rename_i hphase
      split at hs
      · rename_i hcond
        obtain ⟨hfetch, haccept⟩ := Bool.and_eq_true_iff.mp hcond
        obtain rfl := Option.some.inj hs
        exact .get ev hphase hfetch haccept
      · cases hs
    · cases hs
  | copy =>
    simp only [Program.step] at hs
    split at hs
    · rename_i ev hphase
      obtain rfl := Option.some.inj hs
      exact .copy ev hphase
    · cases hs
  | ack =>
    simp only [Program.step] at hs
    split at hs
    · rename_i copy hphase
      obtain rfl := Option.some.inj hs
      exact .ack copy hphase
    · cases hs
  | handle =>
    simp only [Program.step] at hs
    split at hs
    · rename_i copy hphase
      obtain rfl := Option.some.inj hs
      exact .handle copy hphase
    · cases hs
  | inner l =>
    simp only [Program.step] at hs
    split at hs
    · rename_i hphase
      obtain ⟨s, hnext, rfl⟩ := Option.map_eq_some_iff.mp hs
      exact .inner l s hphase hnext
    · cases hs

/-! ### What the loop keeps -/

/-- The number of events acknowledged. -/
def State.ackedCount (st : State σ ε κ) : ℕ :=
  match st.phase with
  | .fetched _ => st.fetched - 1
  | .copied _ => st.fetched - 1
  | _ => st.fetched

/-- The number of events whose handler has started. -/
def State.handledCount (st : State σ ε κ) : ℕ :=
  match st.phase with
  | .idle => st.fetched
  | _ => st.fetched - 1

/-- **The invariant of the loop**: what has happened is what the phase says, and an event
in the loop came when the program asked for one. -/
structure State.Ok (P : Program σ ι ε κ) (st : State σ ε κ) : Prop where
  disciplined : Disciplined st.acts
  get : ∀ n, .get n ∈ st.acts ↔ n < st.fetched
  ack : ∀ n, .ack n ∈ st.acts ↔ n < st.ackedCount
  handle : ∀ n, .handle n ∈ st.acts ↔ n < st.handledCount
  pos : st.phase = .idle ∨ 0 < st.fetched
  asked : st.phase = .idle ∨ P.fetches st.inner = true

/-- **What the loop keeps**: everything was allowed; outside of the loop every event
fetched has been acknowledged, once; and in the loop the program goes on to acknowledge
the event, whatever it does. -/
structure State.Kept [DecidableEq κ] (P : Program σ ι ε κ) (st : State σ ε κ) : Prop where
  disciplined : Disciplined st.acts
  once : st.phase = .idle ∨ P.fetches st.inner = false → ∀ n, .get n ∈ st.acts →
    st.acts.count (.ack n) = 1
  acked : ∀ n, .get n ∈ st.acts → P.lts.Eventually (fun st' => .ack n ∈ st'.acts) st

namespace State.Ok

variable {P : Program σ ι ε κ} {st st' : State σ ε κ}

theorem start (hphase : st.phase = .idle) (hfetched : st.fetched = 0) (hacts : st.acts = []) :
    st.Ok P := by
  refine ⟨hacts ▸ disciplined_nil, fun n => ?_, fun n => ?_, fun n => ?_, Or.inl hphase,
    Or.inl hphase⟩
  · simp [hacts, hfetched]
  · simp [hacts, ackedCount, hphase, hfetched]
  · simp [hacts, handledCount, hphase, hfetched]

/-- Outside of the loop every event has been acknowledged. -/
theorem ack_of_get (h : st.Ok P) (hphase : st.phase = .idle) {n : ℕ} (hn : .get n ∈ st.acts) :
    .ack n ∈ st.acts := by
  have hlt := (h.get n).mp hn
  rw [h.ack n, ackedCount, hphase]
  exact hlt

/-- The event in the loop is the last one fetched. -/
theorem get_last (h : st.Ok P) (hphase : st.phase ≠ .idle) : .get (st.fetched - 1) ∈ st.acts := by
  have hpos := h.pos.resolve_left hphase
  exact (h.get _).mpr (Nat.sub_one_lt hpos.ne')

/-- **A step keeps the invariant**, if the program leaves the memory of the events alone. -/
theorem move (h : st.Ok P) (htouch : ∀ s l, P.touches s l = false) {l : Label ι ε}
    (hs : P.Moves st l st') : st'.Ok P := by
  have hack := h.ack
  have hhandle := h.handle
  simp only [ackedCount, handledCount] at hack hhandle
  cases hs with
  | get ev hphase hfetch _ =>
    simp only [hphase] at hack hhandle
    refine ⟨h.disciplined.snoc ⟨?_, fun m hm => h.ack_of_get hphase hm⟩, fun n => ?_, fun n => ?_,
      fun n => ?_, Or.inr (Nat.succ_pos _), Or.inr hfetch⟩
    -- it is a new event, and no other is open
    · rw [h.get]
      exact Nat.lt_irrefl _
    · rw [List.mem_append, h.get, List.mem_singleton, Act.get.injEq]
      exact Nat.lt_succ_iff_lt_or_eq.symm
    · simp [ackedCount, hack]
    · simp [handledCount, hhandle]
  | copy ev hphase =>
    have hin : st.phase ≠ .idle := by
      rw [hphase]
      exact nofun
    simp only [hphase] at hack hhandle
    refine ⟨h.disciplined.snoc ⟨h.get_last hin, ?_⟩, fun n => ?_, fun n => ?_, fun n => ?_,
      Or.inr (h.pos.resolve_left hin), Or.inr (h.asked.resolve_left hin)⟩
    -- it has not been acknowledged yet
    · rw [hack]
      exact Nat.lt_irrefl _
    · simp [h.get]
    · simp [ackedCount, hack]
    · simp [handledCount, hhandle]
  | ack copy hphase =>
    have hin : st.phase ≠ .idle := by
      rw [hphase]
      exact nofun
    have hpos := h.pos.resolve_left hin
    simp only [hphase] at hack hhandle
    refine ⟨h.disciplined.snoc ⟨h.get_last hin, ?_⟩, fun n => ?_, fun n => ?_, fun n => ?_,
      Or.inr hpos, Or.inr (h.asked.resolve_left hin)⟩
    · rw [hack]
      exact Nat.lt_irrefl _
    · simp [h.get]
    · -- the last event is the one that had not been acknowledged
      rw [List.mem_append, hack, List.mem_singleton, Act.ack.injEq]
      change _ ↔ n < st.fetched
      omega
    · simp [handledCount, hhandle]
  | handle copy hphase =>
    have hin : st.phase ≠ .idle := by
      rw [hphase]
      exact nofun
    have hpos := h.pos.resolve_left hin
    simp only [hphase] at hack hhandle
    refine ⟨h.disciplined.snoc ⟨(hack _).mpr (Nat.sub_one_lt hpos.ne'), ?_⟩, fun n => ?_,
      fun n => ?_,
      fun n => ?_, Or.inl rfl, Or.inl rfl⟩
    · rw [hhandle]
      exact Nat.lt_irrefl _
    · simp [h.get]
    · simp [ackedCount, hack]
    · rw [List.mem_append, hhandle, List.mem_singleton, Act.handle.injEq]
      change _ ↔ n < st.fetched
      omega
  | inner l s hphase _ =>
    have hacts : P.acts st.inner l st.fetched = (P.destroys st.inner l).toList.map .destroy := by
      rw [Program.acts, htouch]
      rfl
    simp only [hphase] at hack hhandle
    -- the memory of the events is left alone, so only an identifier may be destroyed
    rw [hacts]
    cases P.destroys st.inner l with
    | none =>
      refine ⟨?_, fun n => ?_, fun n => ?_, fun n => ?_, Or.inl hphase, Or.inl hphase⟩
      · simpa using h.disciplined
      · simpa using h.get n
      · simpa [ackedCount, hphase] using hack n
      · simpa [handledCount, hphase] using hhandle n
    | some id =>
      refine ⟨h.disciplined.snoc fun m hm => h.ack_of_get hphase hm, fun n => ?_, fun n => ?_,
        fun n => ?_,
        Or.inl hphase, Or.inl hphase⟩
      · simpa using h.get n
      · simpa [ackedCount, hphase] using hack n
      · simpa [handledCount, hphase] using hhandle n

end State.Ok

/-! ### The event in the loop is acknowledged -/

section Eventually

variable {P : Program σ ι ε κ} {st : State σ ε κ}

theorem eventually_of_copied {copy : ε} (hphase : st.phase = .copied copy) {n : ℕ}
    (hn : n = st.fetched - 1) : P.lts.Eventually (fun st' => .ack n ∈ st'.acts) st := by
  subst hn
  refine .step ⟨.ack, ?_⟩ fun l st' hs => .now ?_
  · simp only [Program.lts, Lts.ofFun, Program.step, hphase]
    exact ⟨_, rfl⟩
  · cases Program.moves_of_step hs with
    | ack => exact List.mem_append_right _ (List.mem_singleton_self _)
    | get _ h _ _ => exact absurd (hphase.symm.trans h) nofun
    | copy _ h => exact absurd (hphase.symm.trans h) nofun
    | handle _ h => exact absurd (hphase.symm.trans h) nofun
    | inner _ _ h _ => exact absurd (hphase.symm.trans h) nofun

theorem eventually_of_fetched {ev : ε} (hphase : st.phase = .fetched ev) {n : ℕ}
    (hn : n = st.fetched - 1) : P.lts.Eventually (fun st' => .ack n ∈ st'.acts) st := by
  refine .step ⟨.copy, ?_⟩ fun l st' hs => ?_
  · simp only [Program.lts, Lts.ofFun, Program.step, hphase]
    exact ⟨_, rfl⟩
  · cases Program.moves_of_step hs with
    | copy _ h => exact eventually_of_copied rfl hn
    | get _ h _ _ => exact absurd (hphase.symm.trans h) nofun
    | ack _ h => exact absurd (hphase.symm.trans h) nofun
    | handle _ h => exact absurd (hphase.symm.trans h) nofun
    | inner _ _ h _ => exact absurd (hphase.symm.trans h) nofun

/-- **Every event fetched is acknowledged**, if it has not been yet. -/
theorem State.Ok.eventually_ack (h : st.Ok P) {n : ℕ} (hn : .get n ∈ st.acts) :
    P.lts.Eventually (fun st' => .ack n ∈ st'.acts) st := by
  by_cases hacked : .ack n ∈ st.acts
  · exact .now hacked
  · -- it is the one in the loop, which has not come to the call yet
    have hlt := (h.get n).mp hn
    rw [h.ack, State.ackedCount] at hacked
    cases hphase : st.phase with
    | fetched ev =>
      simp only [hphase] at hacked
      exact eventually_of_fetched hphase (by omega)
    | copied copy =>
      simp only [hphase] at hacked
      exact eventually_of_copied hphase (by omega)
    | idle => simp [hphase, hlt] at hacked
    | acked copy => simp [hphase, hlt] at hacked

end Eventually

variable {P : Program σ ι ε κ} {st : State σ ε κ}

/-- The invariant says what the loop keeps. -/
theorem State.Ok.kept [DecidableEq κ] (h : st.Ok P) : st.Kept P where
  disciplined := h.disciplined
  once hout n hn := by
    have hidle : st.phase = .idle := by
      rcases hout with hidle | hfetch
      · exact hidle
      · exact h.asked.resolve_right (by rw [hfetch]; exact Bool.false_ne_true)
    have hpos := List.count_pos_iff.mpr (h.ack_of_get hidle hn)
    exact Nat.le_antisymm (h.disciplined.count_ack_le n) hpos
  acked _ hn := h.eventually_ack hn

theorem ok_of_reach (htouch : ∀ s l, P.touches s l = false) {ok : State σ ε κ → Label ι ε → Prop}
    (h : P.lts.Reach ok st) : st.Ok P := by
  refine h.invariant ?_ ?_
  · rintro a ⟨-, hphase, hfetched, hacts⟩
    exact State.Ok.start hphase hfetched hacts
  · intro a l b ha _ hs
    exact ha.move htouch (Program.moves_of_step hs)

/-- **A program keeps the discipline of its events** if it leaves their memory alone but for
the copy, whatever its handlers do and whichever events come. -/
theorem kept_of_reach [DecidableEq κ] (htouch : ∀ s l, P.touches s l = false)
    {ok : State σ ε κ → Label ι ε → Prop} (h : P.lts.Reach ok st) : st.Kept P :=
  (ok_of_reach htouch h).kept

/-! ### The loop in one step -/

/-- The event in the loop came when the program asked for one. -/
def State.Asked (P : Program σ ι ε κ) (st : State σ ε κ) : Prop :=
  match st.phase with
  | .idle => True
  | .fetched ev => P.fetches st.inner = true ∧ P.accepts st.inner ev = true
  | .copied ev => P.fetches st.inner = true ∧ P.accepts st.inner ev = true
  | .acked ev => P.fetches st.inner = true ∧ P.accepts st.inner ev = true

/-- **From outside, an event is fetched and its handler entered in one step**: a run of the
program with its loop is one of a system that has this step and the others. -/
theorem reach_inner {μ : Type*} {M : Lts σ μ} (hinit : ∀ s, P.init s → M.init s)
    (henter : ∀ s ev, P.fetches s = true → P.accepts s ev = true → ∃ l, M.step s l (P.enter s ev))
    (hnext : ∀ s l s', P.next s l = some s' → ∃ l', M.step s l' s')
    {ok : State σ ε κ → Label ι ε → Prop} (h : P.lts.Reach ok st) : M.Reach Lts.any st.inner := by
  have hboth : M.Reach Lts.any st.inner ∧ st.Asked P := by
    refine h.invariant (I := fun a => M.Reach Lts.any a.inner ∧ a.Asked P) ?_ ?_
    · rintro a ⟨hstart, hphase, -, -⟩
      refine ⟨Lts.Reach.of_init (hinit _ hstart), ?_⟩
      rw [State.Asked, hphase]
      trivial
    · rintro a l b ⟨hr, hasked⟩ _ hs
      rw [State.Asked] at hasked
      cases Program.moves_of_step hs with
      | get ev _ hfetch haccept => exact ⟨hr, hfetch, haccept⟩
      | copy ev hphase =>
        rw [hphase] at hasked
        exact ⟨hr, hasked⟩
      | ack copy hphase =>
        rw [hphase] at hasked
        exact ⟨hr, hasked⟩
      | handle copy hphase =>
        rw [hphase] at hasked
        -- this is the one step seen from outside
        obtain ⟨l, hl⟩ := henter a.inner copy hasked.1 hasked.2
        exact ⟨hr.tail (l := l) trivial hl, trivial⟩
      | inner l s hphase hnext' =>
        obtain ⟨l', hl'⟩ := hnext a.inner l s hnext'
        refine ⟨hr.tail (l := l') trivial hl', ?_⟩
        rw [State.Asked, hphase]
        trivial
  exact hboth.1

/-- **The loop adds nothing that cannot be seen from outside**: a system whose steps are
those of the program, or an event with its handler entered, has no run that the program
with its loop has not. -/
theorem exists_reach_of_inner {μ : Type*} {M : Lts σ μ} (hinit : ∀ s, M.init s → P.init s)
    (hstep : ∀ s l s', M.step s l s' → (∃ l', P.next s l' = some s') ∨
      ∃ ev, P.fetches s = true ∧ P.accepts s ev = true ∧ P.enter s ev = s')
    {ok : σ → μ → Prop} {s : σ} (h : M.Reach ok s) :
    ∃ st, P.lts.Reach Lts.any st ∧ st.inner = s ∧ st.phase = .idle := by
  refine h.invariant (I := fun a => ∃ st, P.lts.Reach Lts.any st ∧ st.inner = a ∧ st.phase = .idle)
    ?_ ?_
  · intro a ha
    exact ⟨⟨a, .idle, 0, []⟩, Lts.Reach.of_init ⟨hinit a ha, rfl, rfl, rfl⟩, rfl, rfl⟩
  · rintro a l b ⟨st, hr, rfl, hphase⟩ _ hs
    rcases hstep st.inner l b hs with ⟨l', hnext⟩ | ⟨ev, hfetch, haccept, rfl⟩
    · have hinner : P.step st (.inner l') =
          some { st with inner := b, acts := st.acts ++ P.acts st.inner l' st.fetched } := by
        simp only [Program.step, hphase, hnext, Option.map_some]
      exact ⟨_, hr.tail (l := .inner l') trivial hinner, rfl, hphase⟩
    · have hrun : Lts.exec P.step Lts.any st [.get ev, .copy, .ack, .handle] = some
          { inner := P.enter st.inner ev
            phase := .idle
            fetched := st.fetched + 1
            acts := st.acts ++ [.get st.fetched, .read st.fetched, .ack st.fetched,
              .handle st.fetched] } := by
        simp [Lts.exec, Lts.any, Program.step, hphase, hfetch, haccept]
      exact ⟨_, hr.trans (Lts.path_of_exec hrun), rfl, rfl⟩

/-- **Taken apart or not, a program gets to the same states**: where a step function takes an
event exactly when the program fetches one it accepts, and enters its handler with it, and
agrees with the program otherwise. -/
theorem reach_iff {f : σ → ι → Option σ} (event : ι → Option ε)
    (htake : ∀ s l ev s', event l = some ev →
      (f s l = some s' ↔ P.fetches s = true ∧ P.accepts s ev = true ∧ P.enter s ev = s'))
    (hlabel : ∀ ev, ∃ l, event l = some ev)
    (hnext : ∀ s l, P.next s l = if (event l).isSome then none else f s l) {s : σ} :
    (Lts.ofFun P.init f).Reach Lts.any s ↔ ∃ st, P.lts.Reach Lts.any st ∧ st.inner = s := by
  constructor
  · intro h
    have hstep : ∀ a l b, (Lts.ofFun P.init f).step a l b → (∃ l', P.next a l' = some b) ∨
        ∃ ev, P.fetches a = true ∧ P.accepts a ev = true ∧ P.enter a ev = b := by
      intro a l b hs
      cases hev : event l with
      | none =>
        refine Or.inl ⟨l, ?_⟩
        rw [hnext, hev]
        exact hs
      | some ev => exact Or.inr ⟨ev, (htake a l ev b hev).mp hs⟩
    obtain ⟨st, hr, hinner, -⟩ := exists_reach_of_inner (fun _ ha => ha) hstep h
    exact ⟨st, hr, hinner⟩
  · rintro ⟨st, hr, rfl⟩
    refine reach_inner (fun _ ha => ha) ?_ ?_ hr
    · intro a ev hfetch haccept
      obtain ⟨l, hl⟩ := hlabel ev
      exact ⟨l, (htake a l ev _ hl).mpr ⟨hfetch, haccept, rfl⟩⟩
    · intro a l b hs
      rw [hnext] at hs
      split at hs
      · cases hs
      · exact ⟨l, hs⟩

end Run

end EventLoop
