import Mathlib.Logic.Relation
import Mathlib.Order.Nat

/-!
# Labelled transition systems and their restricted runs

A program talking to a device is one system whose steps carry a *label*: what a
call returned, or what the device did on its own. Assumptions about the
environment – no call fails, at most one completion is handed out at a time –
are then conditions on the steps, so every statement below takes a predicate
`ok` on a state and the label of the step leaving it, and speaks of the runs all
of whose steps satisfy it. The unrestricted runs are those of `Lts.any`.

* `Lts.Path ok s s'` – a run from `s` to `s'` whose steps satisfy `ok`;
* `Lts.Reach ok s` – such a run from an initial state;
* `Lts.Eventually goal s` – from `s` every run that goes on for long enough gets to the
  goal, and none stops before;
* `Lts.Path.exists_goal` – a run that leads to a goal, from a measure of what is left to
  do;
* `Lts.Run` – an infinite run, and `Lts.Run.exists_goal`, which brings it to a goal by a
  measure that falls;
* `Lts.Reach.invariant` – the one induction every safety statement uses;
* `Lts.Reach.simulate` – a system whose steps another one can answer;
* `Lts.Path.invariant` – its form for a run from the middle, used to carry a
  violation to the end of the run.
-/

/-- A labelled transition system over the states `σ` and the labels `ι`. -/
structure Lts (σ ι : Type*) where
  /-- The states a run may start from. -/
  init : σ → Prop
  /-- `step s l s'`: in state `s` the system may do `l` and be in `s'`. -/
  step : σ → ι → σ → Prop

namespace Lts

variable {σ ι : Type*} {M : Lts σ ι} {ok ok' : σ → ι → Prop}

/-- The condition that excludes nothing. -/
def any (_ : σ) (_ : ι) : Prop := True

instance (s : σ) (l : ι) : Decidable (any s l) := .isTrue trivial

variable (M ok) in
/-- One step that satisfies the condition. -/
def StepOk (s s' : σ) : Prop := ∃ l, ok s l ∧ M.step s l s'

variable (M ok) in
/-- **A restricted run**: any number of steps, all satisfying the condition. -/
def Path : σ → σ → Prop := Relation.ReflTransGen (M.StepOk ok)

variable (M ok) in
/-- The states a restricted run reaches from an initial state. -/
def Reach (s : σ) : Prop := ∃ s₀, M.init s₀ ∧ M.Path ok s₀ s

variable (M) in
/-- **Whatever the system does, it gets to a goal**: it is there, or it can make a step, and
gets there behind every one it can make. -/
inductive Eventually (goal : σ → Prop) : σ → Prop
  | now {s : σ} (h : goal s) : Eventually goal s
  | step {s : σ} (hcan : ∃ l s', M.step s l s')
      (hall : ∀ l s', M.step s l s' → Eventually goal s') : Eventually goal s

/-! ### Building runs -/

theorem Path.refl (s : σ) : M.Path ok s s := Relation.ReflTransGen.refl

theorem Path.tail {s s' s'' : σ} {l : ι} (h : M.Path ok s s') (hok : ok s' l)
    (hs : M.step s' l s'') : M.Path ok s s'' :=
  Relation.ReflTransGen.tail h ⟨l, hok, hs⟩

theorem Path.trans {s s' s'' : σ} (h : M.Path ok s s') (h' : M.Path ok s' s'') :
    M.Path ok s s'' :=
  Relation.ReflTransGen.trans h h'

theorem Path.single {s s' : σ} {l : ι} (hok : ok s l) (hs : M.step s l s') : M.Path ok s s' :=
  Relation.ReflTransGen.single ⟨l, hok, hs⟩

theorem Path.mono (hle : ∀ s l, ok s l → ok' s l) {s s' : σ} (h : M.Path ok s s') :
    M.Path ok' s s' :=
  Relation.ReflTransGen.mono (fun _ _ ⟨l, hok, hs⟩ => ⟨l, hle _ l hok, hs⟩) _ _ h

theorem Reach.of_init {s : σ} (h : M.init s) : M.Reach ok s := ⟨s, h, Path.refl s⟩

theorem Reach.tail {s s' : σ} {l : ι} (h : M.Reach ok s) (hok : ok s l) (hs : M.step s l s') :
    M.Reach ok s' := by
  obtain ⟨s₀, h₀, hp⟩ := h
  exact ⟨s₀, h₀, hp.tail hok hs⟩

theorem Reach.trans {s s' : σ} (h : M.Reach ok s) (hp : M.Path ok s s') : M.Reach ok s' := by
  obtain ⟨s₀, h₀, hp₀⟩ := h
  exact ⟨s₀, h₀, hp₀.trans hp⟩

theorem Reach.mono (hle : ∀ s l, ok s l → ok' s l) {s : σ} (h : M.Reach ok s) :
    M.Reach ok' s := by
  obtain ⟨s₀, h₀, hp⟩ := h
  exact ⟨s₀, h₀, hp.mono hle⟩

/-- **A loop of a run**: where every turn below `m` can be run, the loop can be run
up to any turn. -/
theorem Path.exists_loop {R : ℕ → σ → Prop} {m : ℕ} {s : σ} (h₀ : R 0 s)
    (hturn : ∀ j < m, ∀ a, R j a → ∃ b, M.Path ok a b ∧ R (j + 1) b) :
    ∀ j ≤ m, ∃ b, M.Path ok s b ∧ R j b := by
  intro j
  induction j with
  | zero => exact fun _ => ⟨s, Path.refl s, h₀⟩
  | succ j ih =>
    intro hj
    obtain ⟨a, hpa, hra⟩ := ih (by omega)
    obtain ⟨b, hpb, hrb⟩ := hturn j hj a hra
    exact ⟨b, hpa.trans hpb, hrb⟩

/-- **Two nested loops of a run**: where every turn of the inner loop can be run,
and the inner loop can be left for the next turn of the outer one, the run can be
brought to any position of the two. -/
theorem Path.exists_nested {R : ℕ → ℕ → σ → Prop} {m n : ℕ} {s : σ} (h₀ : R 0 0 s)
    (hturn : ∀ i < m, ∀ j < n, ∀ a, R i j a → ∃ b, M.Path ok a b ∧ R i (j + 1) b)
    (hnext : ∀ i < m, ∀ a, R i n a → ∃ b, M.Path ok a b ∧ R (i + 1) 0 b) {i j : ℕ}
    (hij : i < m ∧ j ≤ n ∨ i = m ∧ j = 0) : ∃ b, M.Path ok s b ∧ R i j b := by
  have hround : ∀ i < m, ∀ a, R i 0 a → ∃ b, M.Path ok a b ∧ R (i + 1) 0 b := by
    intro i hi a ha
    obtain ⟨b, hpb, hrb⟩ := Path.exists_loop ha (hturn i hi) n le_rfl
    obtain ⟨c, hpc, hrc⟩ := hnext i hi b hrb
    exact ⟨c, hpb.trans hpc, hrc⟩
  obtain ⟨a, hpa, hra⟩ := Path.exists_loop (R := fun i => R i 0) h₀ hround i (by omega)
  rcases hij with ⟨hi, hj⟩ | ⟨-, rfl⟩
  · obtain ⟨b, hpb, hrb⟩ := Path.exists_loop hra (hturn i hi) j hj
    exact ⟨b, hpa.trans hpb, hrb⟩
  · exact ⟨a, hpa, hra⟩

/-- **Runs that come to an end**: where every state that keeps `I` is a goal or has a
step that keeps `I` and makes `μ` smaller, a run leads from it to a goal. -/
theorem Path.exists_goal {I goal : σ → Prop} (μ : σ → ℕ)
    (hstep : ∀ a, I a → ¬goal a → ∃ l b, ok a l ∧ M.step a l b ∧ I b ∧ μ b < μ a) {s : σ}
    (h : I s) :
    ∃ t, M.Path ok s t ∧ I t ∧ goal t := by
  induction hn : μ s using Nat.strong_induction_on generalizing s with
  | _ n ih =>
    by_cases hg : goal s
    · exact ⟨s, Path.refl s, h, hg⟩
    · obtain ⟨l, b, hok, hs, hb, hlt⟩ := hstep s h hg
      obtain ⟨t, hp, ht⟩ := ih (μ b) (hn ▸ hlt) hb rfl
      exact ⟨t, (Path.single hok hs).trans hp, ht⟩

/-- **Runs that come to an end, by stretches**: where every state that keeps `I` is a goal
or leads, in any number of steps, to a state that keeps `I` and has a smaller `μ`, a run leads
from it to a goal. -/
theorem Path.exists_goal_of_path {I goal : σ → Prop} (μ : σ → ℕ)
    (hstretch : ∀ a, I a → ¬goal a → ∃ b, M.Path ok a b ∧ I b ∧ μ b < μ a) {s : σ} (h : I s) :
    ∃ t, M.Path ok s t ∧ I t ∧ goal t := by
  induction hn : μ s using Nat.strong_induction_on generalizing s with
  | _ n ih =>
    by_cases hg : goal s
    · exact ⟨s, Path.refl s, h, hg⟩
    · obtain ⟨b, hp, hb, hlt⟩ := hstretch s h hg
      obtain ⟨t, hp', ht⟩ := ih (μ b) (hn ▸ hlt) hb rfl
      exact ⟨t, hp.trans hp', ht⟩

/-! ### The induction rules -/

/-- **The invariant rule for a run from the middle**: what holds where the run
starts, and is preserved by every step it may take, holds where it ends. -/
theorem Path.invariant {I : σ → Prop} {s s' : σ} (h : M.Path ok s s') (h₀ : I s)
    (hstep : ∀ a l b, I a → ok a l → M.step a l b → I b) : I s' := by
  induction h with
  | refl => exact h₀
  | tail _ hlast ih =>
    obtain ⟨l, hok, hs⟩ := hlast
    exact hstep _ l _ ih hok hs

/-- **The invariant rule**: what holds initially and is preserved by every step
holds in every state reached. -/
theorem Reach.invariant {I : σ → Prop} {s : σ} (h : M.Reach ok s) (h₀ : ∀ a, M.init a → I a)
    (hstep : ∀ a l b, I a → ok a l → M.step a l b → I b) : I s := by
  obtain ⟨s₀, hinit, hp⟩ := h
  exact hp.invariant (h₀ s₀ hinit) hstep

/-- The invariant rule when the steps may use an invariant known already. -/
theorem Reach.invariant_of {I J : σ → Prop} {s : σ} (h : M.Reach ok s)
    (hJ : ∀ a, M.Reach ok a → J a) (h₀ : ∀ a, M.init a → I a)
    (hstep : ∀ a l b, J a → I a → ok a l → M.step a l b → I b) : I s := by
  have hboth : M.Reach ok s ∧ I s :=
    h.invariant (I := fun a => M.Reach ok a ∧ I a) (fun a ha => ⟨Reach.of_init ha, h₀ a ha⟩)
      fun a l b ⟨hr, hi⟩ hok hs => ⟨hr.tail hok hs, hstep a l b (hJ a hr) hi hok hs⟩
  exact hboth.2

/-- **The simulation rule**: where every initial state has a partner, and every step can be answered
by a run that keeps a partner, every state reached is the partner of one the other system reaches
under its own condition. -/
theorem Reach.simulate {σ' ι' : Type*} {M' : Lts σ' ι'} {ok' : σ' → ι' → Prop} {R : σ → σ' → Prop}
    {s : σ} (h : M.Reach ok s) (h₀ : ∀ a, M.init a → ∃ a', M'.init a' ∧ R a a')
    (hstep : ∀ a a' l b, R a a' → M'.Reach ok' a' → ok a l → M.step a l b →
      ∃ b', M'.Path ok' a' b' ∧ R b b') : ∃ s', M'.Reach ok' s' ∧ R s s' := by
  refine h.invariant (I := fun a => ∃ a', M'.Reach ok' a' ∧ R a a') (fun a ha => ?_) ?_
  · obtain ⟨a', ha', hr⟩ := h₀ a ha
    exact ⟨a', Reach.of_init ha', hr⟩
  · rintro a l b ⟨a', hreach, hr⟩ hok hs
    obtain ⟨b', hp, hr'⟩ := hstep a a' l b hr hreach hok hs
    exact ⟨b', hreach.trans hp, hr'⟩

/-! ### Infinite runs -/

variable (M ok) in
/-- An infinite run whose steps satisfy the condition. -/
structure Run where
  st : ℕ → σ
  lab : ℕ → ι
  lab_ok : ∀ i, ok (st i) (lab i)
  step : ∀ i, M.step (st i) (lab i) (st (i + 1))

/-- A piece of an infinite run. -/
theorem Run.path (r : M.Run ok) {i j : ℕ} (h : i ≤ j) : M.Path ok (r.st i) (r.st j) := by
  induction j, h using Nat.le_induction with
  | base => exact Path.refl _
  | succ j _ ih => exact ih.tail (r.lab_ok j) (r.step j)

/-- **What gets smaller comes to an end**: where every step of a run from its place `i` on that
is not behind a goal makes `μ` smaller, the run gets to one. -/
theorem Run.exists_goal (r : M.Run ok) (goal : σ → Prop) (μ : σ → ℕ) {i : ℕ}
    (h : ∀ j, i ≤ j → ¬goal (r.st j) → μ (r.st (j + 1)) < μ (r.st j)) :
    ∃ j, i ≤ j ∧ goal (r.st j) := by
  by_contra hno
  have hnone : ∀ j, i ≤ j → ¬goal (r.st j) := fun j hj hg => hno ⟨j, hj, hg⟩
  have hfall : ∀ k, μ (r.st (i + k)) + k ≤ μ (r.st i) := by
    intro k
    induction k with
    | zero => exact le_rfl
    | succ k ih =>
      have hlt := h (i + k) (Nat.le_add_right i k) (hnone _ (Nat.le_add_right i k))
      change μ (r.st (i + k + 1)) + (k + 1) ≤ _
      omega
  have hend := hfall (μ (r.st i) + 1)
  omega

/-! ### Executable systems

Where the step of a system is a computed function of the state and the label, a
run is a list of labels and can be evaluated. -/

/-- The system of a step function. -/
def ofFun (init : σ → Prop) (f : σ → ι → Option σ) : Lts σ ι where
  init := init
  step s l s' := f s l = some s'

/-- Run a list of labels through a step function, as long as each step satisfies
the condition. -/
def exec (f : σ → ι → Option σ) (ok : σ → ι → Prop) [∀ s l, Decidable (ok s l)] :
    σ → List ι → Option σ
  | s, [] => some s
  | s, l :: ls => if ok s l then (f s l).bind fun s' => exec f ok s' ls else none

/-- An evaluated list of labels is a run. -/
theorem path_of_exec {init : σ → Prop} {f : σ → ι → Option σ} [∀ s l, Decidable (ok s l)]
    {ls : List ι} : ∀ {s s' : σ}, exec f ok s ls = some s' → (ofFun init f).Path ok s s' := by
  induction ls with
  | nil =>
    intro s s' h
    obtain rfl : s = s' := Option.some.inj h
    exact Path.refl s
  | cons l ls ih =>
    intro s s' h
    rw [exec] at h
    split at h
    · rename_i hok
      obtain ⟨s₁, h₁, h₂⟩ := Option.bind_eq_some_iff.mp h
      exact (Path.single (M := ofFun init f) hok h₁).trans (ih h₂)
    · cases h

end Lts
