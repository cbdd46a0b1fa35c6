import Mathlib.Data.Nat.Notation
import Mathlib.Logic.Basic

/-!
# Programs that make calls

Sequential programs over calls of any type, where the call `e` brings back a result of type
`ρ e`: a program returns a value, ends the process, makes a call, goes on with what an
other program has returned, or runs a body until it gives a value.

* `Prog.Runs` – the calls of a run with their results, in their order; a run may be seen at
  any moment (`Prog.Outcome.running`), so what holds of every run holds in the middle of
  one, and in one that never ends. It may be cut behind any call, and what that call brings
  back is up to the call (`Prog.Runs.replace`);
* `CallSpec` – what a state allows to call, what it may bring back, and the state behind it;
* `CallSpec.Triple` – where the calls bring back what they may, every call of every run is
  allowed when it is made, and a run that returns meets the postcondition; with the rules
  for each form of program. Of calls that bring back only some results, a triple tells which
  calls are allowed as long as they do (`CallSpec.Triple.allows`);
* `Prog.outcomes` – all the ways a program can return from one state, where its calls have
  finitely many results and a body that goes on leaves the state as it was: what is computed
  is a triple (`CallSpec.Triple.of_outcomes`).
-/

/-! ### Programs and their runs -/

/-- **A program**; the call `e` brings back a result of type `ρ e`. -/
inductive Prog {ε : Type} (ρ : ε → Type) : Type → Type 1
  | ret {α : Type} (a : α) : Prog ρ α
  /-- The process ends. -/
  | exit {α : Type} : Prog ρ α
  | call (e : ε) : Prog ρ (ρ e)
  | bind {α β : Type} (p : Prog ρ α) (f : α → Prog ρ β) : Prog ρ β
  /-- The body is run until it gives a value. -/
  | loop {α : Type} (body : Prog ρ (Option α)) : Prog ρ α

namespace Prog

variable {ε : Type} {ρ : ε → Type} {α β : Type}

instance : Monad (Prog ρ) where
  pure := .ret
  bind := .bind

/-- A call with its result. -/
abbrev Event (ρ : ε → Type) : Type := (e : ε) × ρ e

/-- How far a run has come. -/
inductive Outcome (α : Type)
  | running
  | exited
  | returned (a : α)

/-- The calls of a loop, where `R` are those of its body. -/
inductive LoopRuns {α : Type} (R : List (Event ρ) → Outcome (Option α) → Prop) :
    List (Event ρ) → Outcome α → Prop
  | running {t : List (Event ρ)} (h : R t .running) : LoopRuns R t .running
  | exited {t : List (Event ρ)} (h : R t .exited) : LoopRuns R t .exited
  | done {t : List (Event ρ)} {a : α} (h : R t (.returned (some a))) : LoopRuns R t (.returned a)
  | again {t u : List (Event ρ)} {o : Outcome α} (h : R t (.returned none)) (h' : LoopRuns R u o) :
      LoopRuns R (t ++ u) o

/-- **The calls of a run**, as far as it has come. -/
def Runs : {α : Type} → Prog ρ α → List (Event ρ) → Outcome α → Prop
  | _, .ret a, t, o => t = [] ∧ (o = .running ∨ o = .returned a)
  | _, .exit, t, o => t = [] ∧ (o = .running ∨ o = .exited)
  | _, .call e, t, o => t = [] ∧ o = .running ∨ ∃ r, t = [⟨e, r⟩] ∧ o = .returned r
  | _, .bind p f, t, o => Runs p t .running ∧ o = .running ∨ Runs p t .exited ∧ o = .exited ∨
      ∃ u v a, t = u ++ v ∧ Runs p u (.returned a) ∧ Runs (f a) v o
  | _, .loop body, t, o => LoopRuns (Runs body) t o

/-- Every call that the program can make is one of these. -/
def All (S : ε → Prop) : {α : Type} → Prog ρ α → Prop
  | _, .ret _ => True
  | _, .exit => True
  | _, .call e => S e
  | _, .bind p f => All S p ∧ ∀ a, All S (f a)
  | _, .loop body => All S body

/-- A body with a counter and a value, `n` times. -/
def fold {β : Type} (body : ℕ → β → Prog ρ β) : ℕ → β → Prog ρ β
  | 0, b => .ret b
  | n + 1, b => .bind (fold body n b) (body n)

/-- A body with a counter, `n` times. -/
def times (body : ℕ → Prog ρ Unit) (n : ℕ) : Prog ρ Unit := fold (fun i _ => body i) n ()

section All

variable {S S' : ε → Prop} {p : Prog ρ α}

theorem All.mono (hS : ∀ e, S e → S' e) (h : p.All S) : p.All S' := by
  induction p with
  | ret a => trivial
  | exit => trivial
  | call e => exact hS e h
  | bind p f ihp ihf => exact ⟨ihp h.1, fun a => ihf a (h.2 a)⟩
  | loop body ih => exact ih h

theorem All.ite {c : Prop} [Decidable c] {q : Prog ρ α} (hp : p.All S) (hq : q.All S) :
    (if c then p else q).All S := by
  split
  · exact hp
  · exact hq

theorem All.fold {β : Type} {body : ℕ → β → Prog ρ β} {n : ℕ} {b : β}
    (h : ∀ i b, (body i b).All S) : (fold body n b).All S := by
  induction n with
  | zero => trivial
  | succ n ih => exact ⟨ih, h n⟩

theorem All.times {body : ℕ → Prog ρ Unit} {n : ℕ} (h : ∀ i, (body i).All S) :
    (times body n).All S :=
  All.fold fun i _ => h i

/-- The calls of a run are ones that the program can make. -/
theorem All.of_runs {t : List (Event ρ)} {o : Outcome α} (h : p.All S) (hrun : p.Runs t o) :
    ∀ x ∈ t, S x.1 := by
  induction p generalizing t with
  | ret a =>
    obtain ⟨rfl, -⟩ := hrun
    exact fun x hx => absurd hx List.not_mem_nil
  | exit =>
    obtain ⟨rfl, -⟩ := hrun
    exact fun x hx => absurd hx List.not_mem_nil
  | call e =>
    rcases hrun with ⟨rfl, -⟩ | ⟨r, rfl, -⟩
    · exact fun x hx => absurd hx List.not_mem_nil
    · intro x hx
      obtain rfl := List.mem_singleton.mp hx
      exact h
  | bind p f ihp ihf =>
    rcases hrun with ⟨hrun, -⟩ | ⟨hrun, -⟩ | ⟨u, v, a, rfl, hrun, hrest⟩
    · exact ihp h.1 hrun
    · exact ihp h.1 hrun
    · exact List.forall_mem_append.mpr ⟨ihp h.1 hrun, ihf a (h.2 a) hrest⟩
  | loop body ih =>
    induction hrun with
    | running hbody => exact ih h hbody
    | exited hbody => exact ih h hbody
    | done hbody => exact ih h hbody
    | again hbody _ ihrest => exact List.forall_mem_append.mpr ⟨ih h hbody, ihrest⟩

end All

section Cut

variable {p : Prog ρ α}

/-- A program has yet to make its first call. -/
theorem Runs.nil (p : Prog ρ α) : p.Runs [] .running := by
  induction p with
  | ret a => exact ⟨rfl, .inl rfl⟩
  | exit => exact ⟨rfl, .inl rfl⟩
  | call e => exact .inl ⟨rfl, rfl⟩
  | bind p f ihp _ => exact .inl ⟨ihp, rfl⟩
  | loop body ih => exact .running ih

/-- **One program behind the other**, where both have returned. -/
theorem Runs.bind_returned {f : α → Prog ρ β} {t : List (Event ρ)} {b : β}
    (h : (Prog.bind p f).Runs t (.returned b)) :
    ∃ u v a, t = u ++ v ∧ p.Runs u (.returned a) ∧ (f a).Runs v (.returned b) := by
  rcases h with ⟨-, ho⟩ | ⟨-, ho⟩ | h
  · cases ho
  · cases ho
  · exact h

/-- A call in front of a program, where both have returned. -/
theorem Runs.call_returned {e : ε} {f : ρ e → Prog ρ β} {t : List (Event ρ)} {b : β}
    (h : (Prog.bind (.call e) f).Runs t (.returned b)) :
    ∃ r v, t = ⟨e, r⟩ :: v ∧ (f r).Runs v (.returned b) := by
  obtain ⟨u, v, a, rfl, hcall, hrest⟩ := h.bind_returned
  rcases hcall with ⟨-, ho⟩ | ⟨r, rfl, ho⟩
  · cases ho
  · cases ho
    exact ⟨_, v, rfl, hrest⟩

/-- What has been run of the first program has been run of both. -/
theorem Runs.bind_left {f : α → Prog ρ β} {t : List (Event ρ)} {o : Outcome α} (h : p.Runs t o) :
    ∃ o', (Prog.bind p f).Runs t o' := by
  cases o with
  | running => exact ⟨.running, .inl ⟨h, rfl⟩⟩
  | exited => exact ⟨.exited, .inr (.inl ⟨h, rfl⟩)⟩
  | returned a => exact ⟨.running, .inr (.inr ⟨t, [], a, (List.append_nil t).symm, h, Runs.nil _⟩)⟩

/-- What has been run of the body has been run of the loop. -/
theorem Runs.loop_left {body : Prog ρ (Option α)} {t : List (Event ρ)} {o : Outcome (Option α)}
    (h : body.Runs t o) : ∃ o', (Prog.loop body).Runs t o' := by
  cases o with
  | running => exact ⟨.running, .running h⟩
  | exited => exact ⟨.exited, .exited h⟩
  | returned a =>
    cases a with
    | some a => exact ⟨.returned a, .done h⟩
    | none => exact ⟨.running, List.append_nil t ▸ .again h (.running (Runs.nil body))⟩

/-- An element of two lists is one of the first or one of the second. -/
theorem append_cons_split {α : Type} {x : α} {t u v w : List α} (h : t ++ x :: u = v ++ w) :
    (∃ u', v = t ++ x :: u') ∨ ∃ t', t = v ++ t' ∧ w = t' ++ x :: u := by
  rcases List.append_eq_append_iff.mp h with ⟨v', rfl, hv⟩ | ⟨t', rfl, hw⟩
  · cases v' with
    | nil => exact .inr ⟨[], by simp, hv.symm⟩
    | cons y v' =>
      obtain ⟨rfl, -⟩ := List.cons_eq_cons.mp hv
      exact .inl ⟨v', rfl⟩
  · exact .inr ⟨t', rfl, hw⟩

/-- **A run may be cut behind a call**, and the call may have brought back something else. -/
theorem Runs.replace {t u : List (Event ρ)} {e : ε} {r : ρ e} {o : Outcome α}
    (h : p.Runs (t ++ ⟨e, r⟩ :: u) o) (r' : ρ e) : ∃ o', p.Runs (t ++ [⟨e, r'⟩]) o' := by
  induction p generalizing t u with
  | ret a => exact absurd h.1 (by simp)
  | exit => exact absurd h.1 (by simp)
  | call e₀ =>
    rcases h with ⟨h, -⟩ | ⟨r₀, h, -⟩
    · exact absurd h (by simp)
    · rcases List.append_eq_singleton_iff.mp h with ⟨rfl, hcall⟩ | ⟨-, hnone⟩
      · cases hcall
        exact ⟨.returned r', .inr ⟨r', rfl, rfl⟩⟩
      · cases hnone
  | bind p f ihp ihf =>
    rcases h with ⟨h, -⟩ | ⟨h, -⟩ | ⟨v, w, a, hsplit, hrun, hrest⟩
    · exact (ihp h).elim fun _ h => h.bind_left
    · exact (ihp h).elim fun _ h => h.bind_left
    · rcases append_cons_split hsplit with ⟨u', rfl⟩ | ⟨t', rfl, rfl⟩
      · exact (ihp hrun).elim fun _ h => h.bind_left
      · obtain ⟨o', h'⟩ := ihf a hrest
        exact ⟨o', .inr (.inr ⟨v, _, a, List.append_assoc _ _ _, hrun, h'⟩)⟩
  | loop body ih =>
    generalize hs : t ++ ⟨e, r⟩ :: u = s at h
    induction h generalizing t with
    | running hbody | exited hbody | done hbody =>
      subst hs
      exact (ih hbody).elim fun _ h => h.loop_left
    | again hbody _ ihrest =>
      rcases append_cons_split hs with ⟨u', rfl⟩ | ⟨t', rfl, hw⟩
      · exact (ih hbody).elim fun _ h => h.loop_left
      · obtain ⟨o', h'⟩ := ihrest hw.symm
        exact ⟨o', List.append_assoc _ _ _ ▸ .again hbody h'⟩

end Cut

end Prog

/-! ### What calls do -/

/-- **What is known about the calls**, in terms of a state: which are allowed, which results they
may bring back, and what they do. -/
structure CallSpec {ε : Type} (ρ : ε → Type) (σ : Type) where
  Allows : σ → ε → Prop
  Gives : σ → (e : ε) → ρ e → Prop
  next : σ → (e : ε) → ρ e → σ

namespace CallSpec

variable {ε : Type} {ρ : ε → Type} {σ : Type} {α β : Type} (M : CallSpec ρ σ)

open Prog (Event Outcome Runs)

/-- The state behind the calls. -/
def after (s : σ) : List (Event ρ) → σ
  | [] => s
  | ⟨e, r⟩ :: t => after (M.next s e r) t

/-- The calls bring back what they may. -/
def Real (s : σ) : List (Event ρ) → Prop
  | [] => True
  | ⟨e, r⟩ :: t => M.Gives s e r ∧ Real (M.next s e r) t

/-- **Every call is allowed** when it is made. -/
def Right (s : σ) : List (Event ρ) → Prop
  | [] => True
  | ⟨e, r⟩ :: t => M.Allows s e ∧ Right (M.next s e r) t

/-- The calls, where they bring back only some results. -/
def given (H : (e : ε) → ρ e → Prop) : CallSpec ρ σ where
  Allows := M.Allows
  Gives s e r := M.Gives s e r ∧ H e r
  next := M.next

section Traces

variable {M} {s : σ} {t u : List (Event ρ)} {H : (e : ε) → ρ e → Prop}

theorem after_append : M.after s (t ++ u) = M.after (M.after s t) u := by
  induction t generalizing s with
  | nil => rfl
  | cons x t ih => exact ih

theorem real_append : M.Real s (t ++ u) ↔ M.Real s t ∧ M.Real (M.after s t) u := by
  induction t generalizing s with
  | nil => exact ⟨fun h => ⟨trivial, h⟩, And.right⟩
  | cons x t ih => exact (and_congr_right' ih).trans and_assoc.symm

theorem right_append : M.Right s (t ++ u) ↔ M.Right s t ∧ M.Right (M.after s t) u := by
  induction t generalizing s with
  | nil => exact ⟨fun h => ⟨trivial, h⟩, And.right⟩
  | cons x t ih => exact (and_congr_right' ih).trans and_assoc.symm

theorem after_given : (M.given H).after s t = M.after s t := by
  induction t generalizing s with
  | nil => rfl
  | cons x t ih => exact ih

theorem right_given : (M.given H).Right s t ↔ M.Right s t := by
  induction t generalizing s with
  | nil => exact Iff.rfl
  | cons x t ih => exact and_congr_right' ih

theorem real_given : (M.given H).Real s t ↔ M.Real s t ∧ ∀ x ∈ t, H x.1 x.2 := by
  induction t generalizing s with
  | nil => exact ⟨fun _ => ⟨trivial, fun x hx => absurd hx List.not_mem_nil⟩, fun _ => trivial⟩
  | cons x t ih =>
    refine (and_congr_right' ih).trans ?_
    rw [List.forall_mem_cons]
    exact and_and_and_comm

end Traces

/-! ### Triples -/

/-- **From every state that meets `P`**, each call of a run of the program is allowed when it is
made, and where the run returns, the state meets `Q`. -/
def Triple (P : σ → Prop) (p : Prog ρ α) (Q : α → σ → Prop) : Prop :=
  ∀ s t o, P s → Runs p t o → M.Real s t →
    M.Right s t ∧ ∀ a, o = .returned a → Q a (M.after s t)

namespace Triple

variable {M} {P P' : σ → Prop} {Q Q' : α → σ → Prop} {R : β → σ → Prop} {p : Prog ρ α}

/-- A run that goes on has not returned. -/
theorem of_right {s : σ} {t : List (Event ρ)} {o : Outcome α} (hright : M.Right s t)
    (ho : ∀ a, o ≠ .returned a) : M.Right s t ∧ ∀ a, o = .returned a → Q a (M.after s t) :=
  ⟨hright, fun a h => absurd h (ho a)⟩

theorem ret {a : α} (h : ∀ s, P s → Q a s) : M.Triple P (.ret a) Q := by
  rintro s t o hs ⟨rfl, ho⟩ -
  refine ⟨trivial, ?_⟩
  rintro b rfl
  rcases ho with ho | ho
  · cases ho
  · cases ho
    exact h s hs

theorem exit : M.Triple P (.exit : Prog ρ α) Q := by
  rintro s t o - ⟨rfl, ho⟩ -
  refine of_right trivial ?_
  rintro b rfl
  rcases ho with ho | ho <;> cases ho

theorem call {e : ε} {Q : ρ e → σ → Prop} (hallows : ∀ s, P s → M.Allows s e)
    (h : ∀ s r, P s → M.Gives s e r → Q r (M.next s e r)) : M.Triple P (.call e) Q := by
  rintro s t o hs (⟨rfl, rfl⟩ | ⟨r, rfl, rfl⟩) hreal
  · exact of_right trivial fun a ho => by cases ho
  · refine ⟨⟨hallows s hs, trivial⟩, ?_⟩
    rintro a ho
    cases ho
    exact h s r hs hreal.1

/-- What is weaker on either side. -/
theorem mono (h : M.Triple P p Q) (hP : ∀ s, P' s → P s) (hQ : ∀ a s, Q a s → Q' a s) :
    M.Triple P' p Q' := by
  intro s t o hs hrun hreal
  obtain ⟨hright, hret⟩ := h s t o (hP s hs) hrun hreal
  exact ⟨hright, fun a ho => hQ a _ (hret a ho)⟩

/-- **One program behind the other.** -/
theorem bind {f : α → Prog ρ β} (hp : M.Triple P p Q) (hf : ∀ a, M.Triple (Q a) (f a) R) :
    M.Triple P (.bind p f) R := by
  rintro s t o hs (⟨hrun, rfl⟩ | ⟨hrun, rfl⟩ | ⟨u, v, a, rfl, hrun, hrest⟩) hreal
  · exact of_right (hp s t _ hs hrun hreal).1 fun a ho => by cases ho
  · exact of_right (hp s t _ hs hrun hreal).1 fun a ho => by cases ho
  · obtain ⟨hreal₁, hreal₂⟩ := real_append.mp hreal
    obtain ⟨hright₁, hQ⟩ := hp s _ _ hs hrun hreal₁
    obtain ⟨hright₂, hR⟩ := hf _ _ _ _ (hQ _ rfl) hrest hreal₂
    exact ⟨right_append.mpr ⟨hright₁, hright₂⟩, fun b ho => after_append ▸ hR b ho⟩

/-- **A loop**: the body keeps the invariant as long as it gives no value. -/
theorem loop {body : Prog ρ (Option α)}
    (h : M.Triple P body fun r s => (r = none → P s) ∧ ∀ a, r = some a → Q a s) :
    M.Triple P (.loop body) Q := by
  suffices hloop : ∀ t o, Prog.LoopRuns (Runs body) t o → ∀ s, P s → M.Real s t →
      M.Right s t ∧ ∀ a, o = .returned a → Q a (M.after s t) from
    fun s t o hs hrun => hloop t o hrun s hs
  intro t o hrun
  induction hrun with
  | running hbody =>
    exact fun s hs hreal => of_right (h s _ _ hs hbody hreal).1 fun a ho => by cases ho
  | exited hbody =>
    exact fun s hs hreal => of_right (h s _ _ hs hbody hreal).1 fun a ho => by cases ho
  | done hbody =>
    intro s hs hreal
    obtain ⟨hright, hQ⟩ := h s _ _ hs hbody hreal
    exact ⟨hright, fun a ho => (hQ _ rfl).2 a (congrArg some (Outcome.returned.inj ho))⟩
  | again hbody hrest ih =>
    intro s hs hreal
    obtain ⟨hreal₁, hreal₂⟩ := real_append.mp hreal
    obtain ⟨hright₁, hP⟩ := h s _ _ hs hbody hreal₁
    obtain ⟨hright₂, hQ⟩ := ih _ ((hP _ rfl).1 rfl) hreal₂
    exact ⟨right_append.mpr ⟨hright₁, hright₂⟩, fun a ho => after_append ▸ hQ a ho⟩

/-- **A program all of whose calls are right and change nothing.** -/
theorem of_all {s : σ} {p : Prog ρ α} (h : p.All fun e => M.Allows s e ∧ ∀ r, M.next s e r = s) :
    M.Triple (· = s) p fun _ s' => s' = s := by
  induction p with
  | ret a => exact ret fun _ => id
  | exit => exact exit
  | call e =>
    refine call (fun s' hs => hs ▸ h.1) fun s' r hs _ => ?_
    subst hs
    exact h.2 r
  | bind p f ihp ihf => exact bind (ihp h.1) fun a => ihf a (h.2 a)
  | loop body ih =>
    exact loop ((ih h).mono (fun _ => id) fun _ _ hs => ⟨fun _ => hs, fun _ _ => hs⟩)

/-- **A loop with a counter** and a value. -/
theorem fold {I : ℕ → β → σ → Prop} {body : ℕ → β → Prog ρ β} {n : ℕ} {b : β}
    (h : ∀ i < n, ∀ b, M.Triple (I i b) (body i b) (I (i + 1))) :
    M.Triple (I 0 b) (Prog.fold body n b) (I n) := by
  induction n with
  | zero => exact ret fun _ => id
  | succ n ih => exact bind (ih fun i hi => h i (Nat.lt_succ_of_lt hi)) (h n (Nat.lt_succ_self n))

/-- A loop with a counter. -/
theorem times {I : ℕ → σ → Prop} {body : ℕ → Prog ρ Unit} {n : ℕ}
    (h : ∀ i < n, M.Triple (I i) (body i) fun _ => I (i + 1)) :
    M.Triple (I 0) (Prog.times body n) fun _ => I n :=
  fold (I := fun i _ => I i) fun i hi _ => h i hi

/-- What is known of fewer results. -/
theorem given (h : M.Triple P p Q) (H : (e : ε) → ρ e → Prop) : (M.given H).Triple P p Q := by
  intro s t o hs hrun hreal
  obtain ⟨hright, hret⟩ := h s t o hs hrun (real_given.mp hreal).1
  exact ⟨right_given.mpr hright, fun a ho => after_given.symm ▸ hret a ho⟩

/-- **A call is allowed, as long as those in front of it bring back what they are known to**,
whatever it brings back itself. -/
theorem allows {H : (e : ε) → ρ e → Prop} {s : σ} (h : (M.given H).Triple (· = s) p Q)
    {t u : List (Event ρ)} {e : ε} {r : ρ e} {o : Outcome α} (hrun : Runs p (t ++ ⟨e, r⟩ :: u) o)
    (hreal : M.Real s t) (hH : ∀ x ∈ t, H x.1 x.2)
    (hr : ∃ r', M.Gives (M.after s t) e r' ∧ H e r') : M.Allows (M.after s t) e := by
  obtain ⟨r', hgives, hr'⟩ := hr
  obtain ⟨o', hrun'⟩ := hrun.replace r'
  have hreal' : M.Real s (t ++ [⟨e, r'⟩]) := real_append.mpr ⟨hreal, hgives, trivial⟩
  have hH' : ∀ x ∈ t ++ [⟨e, r'⟩], H x.1 x.2 :=
    List.forall_mem_append.mpr ⟨hH, List.forall_mem_singleton.mpr hr'⟩
  have hright := right_given.mp (h s _ o' rfl hrun' (real_given.mpr ⟨hreal', hH'⟩)).1
  exact (right_append.mp hright).2.1

/-- A triple for each state. -/
theorem of_states (h : ∀ s, P s → M.Triple (· = s) p Q) : M.Triple P p Q :=
  fun s t o hs => h s hs s t o rfl

section States

variable {s : σ}

/-- From one state: a value. -/
theorem at_ret {a : α} (h : Q a s) : M.Triple (· = s) (.ret a) Q :=
  ret fun _ hs => hs ▸ h

/-- **From one state: a call that is allowed**, and what comes behind it. -/
theorem at_call {e : ε} {f : ρ e → Prog ρ β} (hallows : M.Allows s e)
    (h : ∀ r, M.Gives s e r → M.Triple (· = M.next s e r) (f r) R) :
    M.Triple (· = s) (.bind (.call e) f) R := by
  have hcall : M.Triple (· = s) (.call e) fun r s' => M.Gives s e r ∧ s' = M.next s e r := by
    refine call (fun s' hs => hs ▸ hallows) ?_
    rintro s' r rfl hr
    exact ⟨hr, rfl⟩
  exact bind hcall fun r => of_states fun s' hs' => hs'.2 ▸ h r hs'.1

/-- **From one state: a program**, and what comes behind it. -/
theorem at_bind {f : α → Prog ρ β} (hp : M.Triple (· = s) p Q)
    (hf : ∀ a s', Q a s' → M.Triple (· = s') (f a) R) : M.Triple (· = s) (.bind p f) R :=
  bind hp fun a => of_states fun s' hs' => hf a s' hs'

end States

end Triple

/-! ### Runs there are -/

/-- **There is a run of the program** from the state `s` that returns `a` and leaves the state
`s'`. -/
def Returns (s : σ) (p : Prog ρ α) (a : α) (s' : σ) : Prop :=
  ∃ t, Runs p t (.returned a) ∧ M.Real s t ∧ M.after s t = s'

namespace Returns

variable {M} {s s' s'' : σ} {a : α} {b : β} {p : Prog ρ α}

theorem ret : M.Returns s (.ret a) a s := ⟨[], ⟨rfl, .inr rfl⟩, trivial, rfl⟩

theorem call {e : ε} {r : ρ e} (h : M.Gives s e r) : M.Returns s (.call e) r (M.next s e r) :=
  ⟨[⟨e, r⟩], .inr ⟨r, rfl, rfl⟩, ⟨h, trivial⟩, rfl⟩

theorem bind {f : α → Prog ρ β} (hp : M.Returns s p a s') (hf : M.Returns s' (f a) b s'') :
    M.Returns s (.bind p f) b s'' := by
  obtain ⟨t, hrun, hreal, rfl⟩ := hp
  obtain ⟨u, hrun', hreal', rfl⟩ := hf
  have hboth : M.Real s (t ++ u) := real_append.mpr ⟨hreal, hreal'⟩
  exact ⟨t ++ u, .inr (.inr ⟨t, u, a, rfl, hrun, hrun'⟩), hboth, after_append⟩

/-- One call that brings back `r`, and what comes behind it. -/
theorem at_call {e : ε} {f : ρ e → Prog ρ β} (r : ρ e) (hgives : M.Gives s e r)
    (hf : M.Returns (M.next s e r) (f r) b s'') : M.Returns s (.bind (.call e) f) b s'' :=
  (call hgives).bind hf

/-- A body with a counter that gives the state back. -/
theorem times {body : ℕ → Prog ρ Unit} {n : ℕ} (h : ∀ i < n, M.Returns s (body i) () s) :
    M.Returns s (Prog.times body n) () s := by
  induction n with
  | zero => exact ret
  | succ n ih => exact (ih fun i hi => h i (Nat.lt_succ_of_lt hi)).bind (h n (Nat.lt_succ_self n))

end Returns

/-! ### Programs that come to one state -/

/-- **The program leads from `s` to `s'`**: its calls are right, and it leaves no other state when
it returns. -/
def Leads (s : σ) (p : Prog ρ α) (s' : σ) : Prop := M.Triple (· = s) p fun _ h => h = s'

namespace Leads

variable {M} {s s' s'' : σ} {p : Prog ρ α}

theorem bind {f : α → Prog ρ β} (hp : M.Leads s p s') (hf : ∀ a, M.Leads s' (f a) s'') :
    M.Leads s (.bind p f) s'' :=
  Triple.bind hp hf

/-- **A loop with a counter** and a value, and the state at each turn. -/
theorem fold {s : ℕ → σ} {body : ℕ → β → Prog ρ β} {n : ℕ} {b : β}
    (h : ∀ i < n, ∀ b, M.Leads (s i) (body i b) (s (i + 1))) :
    M.Leads (s 0) (Prog.fold body n b) (s n) :=
  Triple.fold (I := fun i _ h => h = s i) h

/-- A loop with a counter. -/
theorem times {s : ℕ → σ} {body : ℕ → Prog ρ Unit} {n : ℕ}
    (h : ∀ i < n, M.Leads (s i) (body i) (s (i + 1))) :
    M.Leads (s 0) (Prog.times body n) (s n) :=
  fold fun i hi _ => h i hi

/-- A body that gives the state back. -/
theorem times_self {body : ℕ → Prog ρ Unit} {n : ℕ} (h : ∀ i < n, M.Leads s (body i) s) :
    M.Leads s (Prog.times body n) s :=
  times (s := fun _ => s) h

end Leads

end CallSpec

/-! ### All the ways to return -/

namespace Prog

variable {ε : Type} {ρ : ε → Type} {σ : Type} {α : Type}

/-- The results of a function on the elements of a list, where it has some for each. -/
def collect {α β : Type} (f : α → Option (List β)) : List α → Option (List β)
  | [] => some []
  | x :: xs => (f x).bind fun l => (collect f xs).map (l ++ ·)

theorem mem_collect {α β : Type} {f : α → Option (List β)} {xs : List α} {l : List β}
    (h : collect f xs = some l) {x : α} (hx : x ∈ xs) : ∃ l', f x = some l' ∧ ∀ y ∈ l', y ∈ l := by
  induction xs generalizing l with
  | nil => exact absurd hx List.not_mem_nil
  | cons z xs ih =>
    obtain ⟨l₁, hl₁, h⟩ := Option.bind_eq_some_iff.mp h
    obtain ⟨l₂, hl₂, rfl⟩ := Option.map_eq_some_iff.mp h
    rcases List.mem_cons.mp hx with rfl | hx
    · exact ⟨l₁, hl₁, fun y hy => List.mem_append_left _ hy⟩
    · obtain ⟨l', hl', hmem⟩ := ih hl₂ hx
      exact ⟨l', hl', fun y hy => List.mem_append_right _ (hmem y hy)⟩

variable [DecidableEq σ] (allows : σ → ε → Bool) (results : σ → (e : ε) → List (ρ e))
  (next : σ → (e : ε) → ρ e → σ)

/-- **The ways a program can return from a state**: none is left out, if there is an answer. There
is none where a call is not allowed, and where the body of a loop changes the state and goes on. -/
def outcomes : {α : Type} → Prog ρ α → σ → Option (List (α × σ))
  | _, .ret a, s => some [(a, s)]
  | _, .exit, _ => some []
  | _, .call e, s =>
    if allows s e = true then some ((results s e).map fun r => (r, next s e r)) else none
  | _, .bind p f, s => (outcomes p s).bind (collect fun x => outcomes (f x.1) x.2)
  | _, .loop body, s => (outcomes body s).bind (collect fun x => match x.1 with
      | some a => some [(a, x.2)]
      | none => if x.2 = s then some [] else none)

end Prog

namespace CallSpec

open Prog (outcomes mem_collect)

variable {ε : Type} {ρ : ε → Type} {σ : Type} {α : Type} [DecidableEq σ] {M : CallSpec ρ σ}
  {allows : σ → ε → Bool} {results : σ → (e : ε) → List (ρ e)}

/-- **What is computed is a triple.** -/
theorem Triple.of_outcomes (hallows : ∀ s e, allows s e = true → M.Allows s e)
    (hresults : ∀ s e, allows s e = true → ∀ r, M.Gives s e r → r ∈ results s e) {p : Prog ρ α}
    {s : σ} {l : List (α × σ)} (h : outcomes allows results M.next p s = some l) :
    M.Triple (· = s) p fun a s' => (a, s') ∈ l := by
  induction p generalizing s with
  | ret a =>
    obtain rfl := Option.some.inj h
    exact Triple.ret fun s' hs => hs ▸ List.mem_singleton_self _
  | exit => exact Triple.exit
  | call e =>
    obtain ⟨hok, h⟩ := Option.ite_none_right_eq_some.mp h
    obtain rfl := Option.some.inj h
    refine Triple.call (fun s' hs => hs ▸ hallows s e hok) fun s' r hs hr => ?_
    subst hs
    exact List.mem_map.mpr ⟨r, hresults _ e hok r hr, rfl⟩
  | bind p f ihp ihf =>
    obtain ⟨l₁, hl₁, h⟩ := Option.bind_eq_some_iff.mp h
    refine Triple.bind (ihp hl₁) fun a => Triple.of_states fun s' hmem => ?_
    obtain ⟨l₂, hl₂, hsub⟩ := mem_collect h hmem
    exact (ihf a hl₂).mono (fun _ => id) fun b s'' => hsub (b, s'')
  | loop body ih =>
    obtain ⟨l₁, hl₁, h⟩ := Option.bind_eq_some_iff.mp h
    refine Triple.loop ((ih hl₁).mono (fun _ => id) fun r s' hmem => ?_)
    obtain ⟨l₂, hl₂, hsub⟩ := mem_collect h hmem
    cases r with
    | some a =>
      obtain rfl := Option.some.inj hl₂
      refine ⟨fun hr => (by cases hr), ?_⟩
      rintro b ⟨⟩
      exact hsub _ (List.mem_singleton_self _)
    | none => exact ⟨fun _ => (Option.ite_none_right_eq_some.mp hl₂).1, fun b hb => by cases hb⟩

end CallSpec
