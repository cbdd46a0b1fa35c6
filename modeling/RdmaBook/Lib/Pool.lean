import Mathlib.Data.List.Perm.Basic
import Mathlib.Data.List.Nodup

/-!
# Buffers that circulate

A program gives its buffers to a device, gets them back one by one, and gives them
again. At any time a buffer is *posted*, or *completed* and not yet taken, or *held* by
the program. A pool is these three lists; its moves say what each of the two parties can
do, and none of them creates a buffer or loses one (`Pool.Move.perm`). So where every
buffer was in one place at the start, it is in one place ever after
(`Pool.existsUnique_stage`).
-/

/-- Where a buffer can be. -/
inductive Pool.Stage
  | posted
  | completed
  | held
  deriving DecidableEq, Repr

/-- The buffers of a program, by where they are. -/
structure Pool (κ : Type*) where
  posted : List κ
  completed : List κ
  held : List κ

namespace Pool

open scoped List

variable {κ : Type*} {p p' : Pool κ} {o : κ}

/-- All buffers. -/
def all (p : Pool κ) : List κ := p.posted ++ (p.completed ++ p.held)

/-- The buffers in one place. -/
def place (p : Pool κ) : Stage → List κ
  | .posted => p.posted
  | .completed => p.completed
  | .held => p.held

/-- **The moves of a buffer.** -/
inductive Move (p p' : Pool κ) : Prop
  /-- The device completes a posted buffer. -/
  | complete (o : κ) (hposted : p.posted.Perm (o :: p'.posted))
      (hcompleted : p'.completed.Perm (o :: p.completed)) (hheld : p'.held = p.held)
  /-- The program takes a completed buffer. -/
  | take (o : κ) (hposted : p'.posted = p.posted)
      (hcompleted : p.completed.Perm (o :: p'.completed)) (hheld : p'.held = o :: p.held)
  /-- The program posts a buffer it holds. -/
  | give (o : κ) (hposted : p'.posted.Perm (o :: p.posted))
      (hcompleted : p'.completed = p.completed) (hheld : p.held = o :: p'.held)

/-- **No move creates a buffer or loses one.** -/
theorem Move.perm (h : Move p p') : p'.all.Perm p.all := by
  cases h with
  | complete o hposted hcompleted hheld =>
    calc p'.posted ++ (p'.completed ++ p'.held)
      _ ~ p'.posted ++ (o :: p.completed ++ p.held) :=
          .append_left _ (hheld ▸ hcompleted.append_right _)
      _ ~ o :: p'.posted ++ (p.completed ++ p.held) := List.perm_middle
      _ ~ p.posted ++ (p.completed ++ p.held) := hposted.symm.append_right _
  | take o hposted hcompleted hheld =>
    rw [all, all, hposted, hheld]
    refine .append_left _ ?_
    calc p'.completed ++ o :: p.held
      _ ~ o :: p'.completed ++ p.held := List.perm_middle
      _ ~ p.completed ++ p.held := hcompleted.symm.append_right _
  | give o hposted hcompleted hheld =>
    rw [all, all, hcompleted, hheld]
    calc p'.posted ++ (p.completed ++ p'.held)
      _ ~ o :: p.posted ++ (p.completed ++ p'.held) := hposted.append_right _
      _ ~ p.posted ++ (p.completed ++ o :: p'.held) := by
          rw [← List.append_assoc, ← List.append_assoc]
          exact List.perm_middle.symm

/-- A buffer is posted that was nowhere before. -/
theorem perm_supply (hposted : p'.posted.Perm (o :: p.posted))
    (hcompleted : p'.completed = p.completed)
    (hheld : p'.held = p.held) : p'.all.Perm (o :: p.all) := by
  rw [all, all, hcompleted, hheld]
  exact hposted.append_right _

theorem mem_all_iff : o ∈ p.all ↔ ∃ t, o ∈ p.place t := by
  rw [all, List.mem_append, List.mem_append]
  constructor
  · rintro (h | h | h)
    exacts [⟨.posted, h⟩, ⟨.completed, h⟩, ⟨.held, h⟩]
  · rintro ⟨t, h⟩
    cases t with
    | posted => exact Or.inl h
    | completed => exact Or.inr (Or.inl h)
    | held => exact Or.inr (Or.inr h)

/-- A buffer that is nowhere twice is in one place only. -/
theorem stage_unique (hnodup : p.all.Nodup) {t t' : Stage} (h : o ∈ p.place t)
    (h' : o ∈ p.place t') :
    t = t' := by
  obtain ⟨-, hrest, hposted⟩ := List.nodup_append.mp hnodup
  obtain ⟨-, -, hcompleted⟩ := List.nodup_append.mp hrest
  cases t <;> cases t' <;> first
    | rfl
    | exact absurd rfl (hposted o h o (List.mem_append_left _ h'))
    | exact absurd rfl (hposted o h o (List.mem_append_right _ h'))
    | exact absurd rfl (hposted o h' o (List.mem_append_left _ h))
    | exact absurd rfl (hposted o h' o (List.mem_append_right _ h))
    | exact absurd rfl (hcompleted o h o h')
    | exact absurd rfl (hcompleted o h' o h)

theorem nodup_place (hnodup : p.all.Nodup) (t : Stage) : (p.place t).Nodup := by
  obtain ⟨hposted, hrest, -⟩ := List.nodup_append.mp hnodup
  obtain ⟨hcompleted, hheld, -⟩ := List.nodup_append.mp hrest
  cases t with
  | posted => exact hposted
  | completed => exact hcompleted
  | held => exact hheld

/-- **Where every buffer is there once, it is in exactly one place.** -/
theorem existsUnique_stage (hnodup : p.all.Nodup) (h : o ∈ p.all) : ∃! t, o ∈ p.place t := by
  obtain ⟨t, ht⟩ := mem_all_iff.mp h
  exact ⟨t, ht, fun t' ht' => stage_unique hnodup ht' ht⟩

/-! ### A part of the buffers -/

/-- **A part of a list loses an element** where the list loses the same one. -/
theorem exists_sublist_eraseIdx {α : Type*} {l m : List α} (h : l.Sublist m) {j : ℕ} {x : α}
    (hj : l[j]? = some x) : ∃ k, m[k]? = some x ∧ (l.eraseIdx j).Sublist (m.eraseIdx k) := by
  induction h generalizing j with
  | slnil => cases hj
  | cons a _ ih =>
    obtain ⟨k, hk, hsub⟩ := ih hj
    exact ⟨k + 1, hk, hsub.cons a⟩
  | cons_cons a hsub ih =>
    cases j with
    | zero => exact ⟨0, hj, hsub⟩
    | succ j =>
      obtain ⟨k, hk, hsub'⟩ := ih hj
      exact ⟨k + 1, hk, hsub'.cons_cons a⟩

/-- Where a pool is a part of one that has every buffer once, it has none of them twice. -/
theorem nodup_of_part (hnodup : p'.all.Nodup) (h : ∀ t, (p.place t).Sublist (p'.place t)) :
    p.all.Nodup :=
  hnodup.sublist ((h .posted).append ((h .completed).append (h .held)))

end Pool
