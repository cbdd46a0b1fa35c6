import Mathlib.Data.List.Count
import Mathlib.Data.List.Induction
import Mathlib.Data.List.Infix
import Mathlib.Data.List.Nodup
import Mathlib.Logic.Function.Basic

/-!
# Objects that are obtained and released

The log of a program that obtains objects and releases them, for any type of objects
and any relation `dep d o`, which says that `d` must be gone when `o` is released.

* `ResLog.Live` – the object has been obtained and not released;
* `ResLog.Orderly` – every action of the log was right when it was made: no object is
  obtained twice, and one that is released is live and nothing that depends on it is;
* `ResLog.Complete` – the log is orderly to its end and everything obtained has been
  released, spelled out on the whole log;
* `ResLog.Orderly.complete_concat_iff` – the last release of a program completes its
  log exactly when it releases the only live object;
* `ResLog.Orderly.releases` – releases in a fixed order, in which nothing comes before what
  depends on it;
* `ResLog.Stacked` – a program that obtains its objects in one fixed order and gives
  them back in the opposite one holds an initial part of them.
-/

/-- An object is obtained, or released. -/
inductive ResAct (κ : Type*)
  | acquire (o : κ)
  | release (o : κ)
  deriving DecidableEq

namespace ResLog

variable {κ : Type*} {dep : κ → κ → Prop} {log p : List (ResAct κ)} {o x : κ}

/-- The object has been obtained, and not released. -/
def Live (log : List (ResAct κ)) (o : κ) : Prop :=
  ResAct.acquire o ∈ log ∧ ResAct.release o ∉ log

variable (dep) in
/-- **A log without a mistake so far.** -/
inductive Orderly : List (ResAct κ) → Prop
  | nil : Orderly []
  | acquire {log : List (ResAct κ)} {o : κ} (h : Orderly log) (hnew : ResAct.acquire o ∉ log) :
      Orderly (log ++ [.acquire o])
  | release {log : List (ResAct κ)} {o : κ} (h : Orderly log) (hlive : Live log o)
      (hdep : ∀ d, dep d o → ¬Live log d) : Orderly (log ++ [.release o])

variable (dep) in
/-- **A complete log**: everything obtained has been released exactly once, and each
object was live, and nothing that depends on it, when it was released. -/
structure Complete [DecidableEq κ] (log : List (ResAct κ)) : Prop where
  once : ∀ o, ResAct.acquire o ∈ log → log.count (.release o) = 1
  order : ∀ p o, p ++ [.release o] <+: log → Live p o ∧ ∀ d, dep d o → ¬Live p d

theorem live_concat_acquire (hnew : ResAct.release o ∉ log) :
    Live (log ++ [.acquire o]) x ↔ Live log x ∨ x = o := by
  simp only [Live, List.mem_append, List.mem_singleton, ResAct.acquire.injEq, reduceCtorEq,
    or_false]
  constructor
  · rintro ⟨hx | rfl, hr⟩
    · exact Or.inl ⟨hx, hr⟩
    · exact Or.inr rfl
  · rintro (⟨hx, hr⟩ | rfl)
    · exact ⟨Or.inl hx, hr⟩
    · exact ⟨Or.inr rfl, hnew⟩

/-- Only what is obtained becomes live. -/
theorem live_of_concat {a : ResAct κ} (h : Live (log ++ [a]) x) (ha : a ≠ .acquire x) :
    Live log x := by
  obtain ⟨hx, hr⟩ := h
  refine ⟨?_, fun hmem => hr (List.mem_append_left _ hmem)⟩
  rcases List.mem_append.mp hx with hx | hx
  · exact hx
  · exact absurd (List.mem_singleton.mp hx).symm ha

theorem live_concat_release : Live (log ++ [.release o]) x ↔ Live log x ∧ x ≠ o := by
  simp only [Live, List.mem_append, List.mem_singleton, ResAct.release.injEq, reduceCtorEq,
    or_false, not_or, and_assoc, ne_eq]

namespace Orderly

/-- What has been released has been obtained. -/
theorem acquire_mem (h : Orderly dep log) : ResAct.release o ∈ log → ResAct.acquire o ∈ log := by
  induction h with
  | nil => exact fun hr => absurd hr List.not_mem_nil
  | acquire _ _ ih =>
    intro hr
    rcases List.mem_append.mp hr with hr | hr
    · exact List.mem_append_left _ (ih hr)
    · cases List.mem_singleton.mp hr
  | release _ hlive _ ih =>
    intro hr
    rcases List.mem_append.mp hr with hr | hr
    · exact List.mem_append_left _ (ih hr)
    · cases List.mem_singleton.mp hr
      exact List.mem_append_left _ hlive.1

/-- No action is made twice. -/
theorem nodup (h : Orderly dep log) : log.Nodup := by
  induction h with
  | nil => exact List.nodup_nil
  | acquire _ hnew ih =>
    exact List.nodup_append_comm.mp (List.nodup_cons.mpr ⟨hnew, ih⟩)
  | release _ hlive _ ih =>
    exact List.nodup_append_comm.mp (List.nodup_cons.mpr ⟨hlive.2, ih⟩)

/-- Every release of the log was right when it was made. -/
theorem order (h : Orderly dep log) :
    p ++ [.release o] <+: log → Live p o ∧ ∀ d, dep d o → ¬Live p d := by
  induction h with
  | nil =>
    intro hp
    exact absurd (List.prefix_nil.mp hp)
      (List.append_ne_nil_of_right_ne_nil _ (List.cons_ne_nil _ _))
  | acquire _ _ ih =>
    intro hp
    rcases List.prefix_concat_iff.mp hp with heq | hp
    · cases (List.append_inj' heq rfl).2
    · exact ih hp
  | release _ hlive hdep ih =>
    intro hp
    rcases List.prefix_concat_iff.mp hp with heq | hp
    · obtain ⟨rfl, hlast⟩ := List.append_inj' heq rfl
      cases hlast
      exact ⟨hlive, hdep⟩
    · exact ih hp

variable [DecidableEq κ]

/-- An orderly log is complete when nothing is live. -/
theorem complete (h : Orderly dep log) (hnone : ∀ x, ¬Live log x) : Complete dep log where
  once := by
    intro o ho
    have hr : ResAct.release o ∈ log := by
      by_contra hr
      exact hnone o ⟨ho, hr⟩
    exact List.count_eq_one_of_mem h.nodup hr
  order := fun _ _ => h.order

/-- **The last release**: it completes the log exactly when what it releases is the
only live object. -/
theorem complete_concat_iff (h : Orderly dep log) (hlive : Live log o) (hself : ¬dep o o) :
    Complete dep (log ++ [.release o]) ↔ ∀ x, Live log x → x = o := by
  constructor
  · intro hc x hx
    have hone := hc.once x (List.mem_append_left _ hx.1)
    have hmem : ResAct.release x ∈ log ++ [.release o] :=
      List.count_pos_iff.mp (by rw [hone]; exact Nat.one_pos)
    rcases List.mem_append.mp hmem with hr | hr
    · exact absurd hr hx.2
    · cases List.mem_singleton.mp hr
      rfl
  · intro honly
    have hord : Orderly dep (log ++ [.release o]) := by
      refine h.release hlive fun d hd hdl => hself ?_
      have heq := honly d hdl
      rwa [heq] at hd
    refine hord.complete fun x hx => ?_
    obtain ⟨hx, hne⟩ := live_concat_release.mp hx
    exact hne (honly x hx)

end Orderly

/-! ### A fixed order -/

section FixedOrder

variable {os : List κ}

/-- Objects that are obtained one after the other. -/
theorem Orderly.acquires (hnodup : os.Nodup) :
    Orderly dep (os.map .acquire) ∧ ∀ x, Live (os.map .acquire) x ↔ x ∈ os := by
  induction os using List.reverseRecOn with
  | nil => exact ⟨.nil, fun x => iff_of_false (fun h => List.not_mem_nil h.1) List.not_mem_nil⟩
  | append_singleton os o ih =>
    obtain ⟨hos, hne⟩ := List.nodup_cons.mp (List.nodup_append_comm.mp hnodup)
    obtain ⟨hord, hlive⟩ := ih hne
    have hnew : ResAct.acquire o ∉ os.map .acquire := by
      intro h
      obtain ⟨x, hx, heq⟩ := List.mem_map.mp h
      exact hos (ResAct.acquire.inj heq ▸ hx)
    rw [List.map_append, List.map_singleton]
    refine ⟨hord.acquire hnew, fun x => ?_⟩
    rw [live_concat_acquire fun hr => hnew (hord.acquire_mem hr), hlive, List.mem_append,
      List.mem_singleton]

/-- **Releases in a fixed order**: where the list holds what is live, and nothing in it comes
before an object that depends on it, giving everything back in its order makes no mistake. -/
theorem Orderly.releases (h : Orderly dep log) (hlive : ∀ x, Live log x ↔ x ∈ os)
    (hnodup : os.Nodup) (hlast : os.Pairwise fun x y => ¬dep y x) (hself : ∀ x, ¬dep x x) :
    Orderly dep (log ++ os.map .release) ∧ ∀ x, ¬Live (log ++ os.map .release) x := by
  induction os generalizing log with
  | nil =>
    rw [List.map_nil, List.append_nil]
    exact ⟨h, fun x hx => List.not_mem_nil ((hlive x).mp hx)⟩
  | cons o os ih =>
    obtain ⟨ho, hnodup'⟩ := List.nodup_cons.mp hnodup
    obtain ⟨hbefore, hlast'⟩ := List.pairwise_cons.mp hlast
    have hord : Orderly dep (log ++ [.release o]) := by
      refine h.release ((hlive o).mpr List.mem_cons_self) fun d hd hdl => ?_
      rcases List.mem_cons.mp ((hlive d).mp hdl) with rfl | hmem
      · exact hself d hd
      · exact hbefore d hmem hd
    have hleft : ∀ x, Live (log ++ [.release o]) x ↔ x ∈ os := by
      intro x
      rw [live_concat_release, hlive, List.mem_cons]
      constructor
      · rintro ⟨rfl | hx, hne⟩
        · exact absurd rfl hne
        · exact hx
      · intro hx
        exact ⟨Or.inr hx, fun heq => ho (heq ▸ hx)⟩
    have hrest := ih hord hleft hnodup' hlast'
    rwa [List.append_assoc, List.singleton_append, ← List.map_cons] at hrest

end FixedOrder

/-! ### Objects held like a stack -/

variable {rank : κ → ℕ} {n r : ℕ}

variable (dep rank) in
/-- **A stack of objects**: the log is orderly, the objects of rank below `n` are live,
and none of rank `r` or above has ever been obtained. -/
structure Stacked (n r : ℕ) (log : List (ResAct κ)) : Prop where
  orderly : Orderly dep log
  live : ∀ o, Live log o ↔ rank o < n
  obtained : ∀ o, ResAct.acquire o ∈ log → rank o < r

namespace Stacked

theorem nil : Stacked dep rank 0 0 [] where
  orderly := .nil
  live := fun _ => iff_of_false (fun h => List.not_mem_nil h.1) (Nat.not_lt_zero _)
  obtained := fun _ h => absurd h List.not_mem_nil

theorem mono {r' : ℕ} (h : Stacked dep rank n r log) (hr : r ≤ r') : Stacked dep rank n r' log where
  orderly := h.orderly
  live := h.live
  obtained := fun _ ho => (h.obtained _ ho).trans_le hr

/-- The next object is obtained. -/
theorem push (h : Stacked dep rank n n log) (hinj : Function.Injective rank) (ho : rank o = n) :
    Stacked dep rank (n + 1) (n + 1) (log ++ [.acquire o]) := by
  have hnew : ResAct.acquire o ∉ log := by
    intro hmem
    have := h.obtained o hmem
    omega
  refine ⟨h.orderly.acquire hnew, fun x => ?_, fun x hx => ?_⟩
  · rw [live_concat_acquire fun hr => hnew (h.orderly.acquire_mem hr), h.live,
      Nat.lt_succ_iff_lt_or_eq, ← ho, hinj.eq_iff]
  · rcases List.mem_append.mp hx with hx | hx
    · exact (h.obtained x hx).trans (Nat.lt_succ_self n)
    · cases List.mem_singleton.mp hx
      exact ho ▸ Nat.lt_succ_self _

/-- The object on the top is released. -/
theorem pop (h : Stacked dep rank (n + 1) r log) (hinj : Function.Injective rank)
    (hdep : ∀ d x, dep d x → rank x < rank d) (ho : rank o = n) :
    Stacked dep rank n r (log ++ [.release o]) := by
  have hlive : Live log o := (h.live o).mpr (ho ▸ Nat.lt_succ_self _)
  refine ⟨h.orderly.release hlive fun d hd hdl => ?_, fun x => ?_, fun x hx => ?_⟩
  · have hlt := hdep d o hd
    have hle := (h.live d).mp hdl
    omega
  · rw [live_concat_release, h.live, Nat.lt_succ_iff_lt_or_eq, ← ho, ne_eq,
      ← hinj.eq_iff (f := rank)]
    constructor
    · rintro ⟨hlt | heq, hne⟩
      · exact hlt
      · exact absurd heq hne
    · intro hlt
      exact ⟨Or.inl hlt, hlt.ne⟩
  · rcases List.mem_append.mp hx with hx | hx
    · exact h.obtained x hx
    · cases List.mem_singleton.mp hx

end Stacked

end ResLog
