import RdmaBook.Lib.Resources

/-!
# Blocks of memory and the handles that point to them

A block is allocated for a handle, and the handle keeps a pointer to it. The pointer is
never taken back: where the block is freed it dangles, and the address may be given to the
block of another handle. What a function uses is the pointer in its variable, which is the
block it has allocated or the pointer it has found in its handle.

* `BlockMem.Owned` – the pointer of the handle leads to a block that has been allocated for
  this handle, and not freed;
* `BlockMem.Holds` – and so does the variable;
* `BlockStep` – what a step of a program does to the memory, to the handles that should own
  their blocks, and to the one whose block is in the variable;
* `BlockInv.step` – such a step keeps both promises;
* `LogOwns` – where the log of a program (`ResLog`) records the blocks, they are the ones
  that are live in it.
-/

/-- The blocks that are allocated, each with its handle; the pointers in the handles; and
the pointer in the variable of the function that runs. -/
structure BlockMem (ι α : Type*) where
  owner : α → Option ι
  context : ι → Option α
  var : Option α

namespace BlockMem

variable {ι α : Type*} [DecidableEq ι] [DecidableEq α] {m m' : BlockMem ι α} {i j : ι} {a : α}

/-- Nothing is allocated, and no pointer is set. -/
def empty : BlockMem ι α := ⟨fun _ => none, fun _ => none, none⟩

/-- A block is allocated for the handle, at an address at which there is none. -/
def alloc (m : BlockMem ι α) (i : ι) (a : α) : Option (BlockMem ι α) :=
  if m.owner a = none then
    some ⟨Function.update m.owner a (some i), Function.update m.context i (some a), some a⟩
  else none

/-- The function takes the pointer of the handle. -/
def load (m : BlockMem ι α) (i : ι) : BlockMem ι α := { m with var := m.context i }

/-- The block the variable leads to is freed; no pointer changes. -/
def free (m : BlockMem ι α) : BlockMem ι α :=
  match m.var with
  | some a => { m with owner := Function.update m.owner a none }
  | none => m

/-- The pointer of the handle leads to its own block. -/
def Owned (m : BlockMem ι α) (i : ι) : Prop := ∃ a, m.context i = some a ∧ m.owner a = some i

/-- The variable leads to the block of the handle, and so does its pointer. -/
def Holds (m : BlockMem ι α) (i : ι) : Prop :=
  ∃ a, m.var = some a ∧ m.context i = some a ∧ m.owner a = some i

omit [DecidableEq ι] [DecidableEq α] in
theorem Holds.owned (h : m.Holds i) : m.Owned i := by
  obtain ⟨a, -, hctx, how⟩ := h
  exact ⟨a, hctx, how⟩

/-- A block that has just been allocated. -/
theorem alloc_holds (h : m.alloc i a = some m') : m'.Holds i := by
  obtain ⟨-, ⟨⟩⟩ := Option.ite_none_right_eq_some.mp h
  exact ⟨a, rfl, Function.update_self i _ _, Function.update_self a _ _⟩

/-- Nothing is allocated over a block. -/
theorem Owned.alloc (hj : m.Owned j) (h : m.alloc i a = some m') : m'.Owned j := by
  rcases eq_or_ne j i with rfl | hne
  · exact (alloc_holds h).owned
  · obtain ⟨hfree, ⟨⟩⟩ := Option.ite_none_right_eq_some.mp h
    obtain ⟨b, hctx, how⟩ := hj
    have hab : b ≠ a := by
      rintro rfl
      exact Option.some_ne_none j (how.symm.trans hfree)
    refine ⟨b, ?_, ?_⟩
    · exact (Function.update_of_ne hne _ _).trans hctx
    · exact (Function.update_of_ne hab _ _).trans how

omit [DecidableEq ι] [DecidableEq α] in
theorem load_holds (h : m.Owned i) : (m.load i).Holds i := by
  obtain ⟨a, hctx, how⟩ := h
  exact ⟨a, hctx, hctx, how⟩

omit [DecidableEq ι] in
/-- Where a block is freed the others stay: no two handles have one block. -/
theorem Owned.free (hj : m.Owned j) (hi : m.Holds i) (hne : j ≠ i) : m.free.Owned j := by
  obtain ⟨a, hvar, -, hown⟩ := hi
  obtain ⟨b, hctx, how⟩ := hj
  have hab : b ≠ a := by
    rintro rfl
    exact hne (Option.some.inj (how.symm.trans hown))
  rw [BlockMem.free, hvar]
  exact ⟨b, hctx, (Function.update_of_ne hab _ _).trans how⟩

end BlockMem

/-! ### Programs that use the blocks -/

section Steps

variable {ι α : Type*} [DecidableEq ι] [DecidableEq α] {m m' : BlockMem ι α}
  {owns owns' : ι → Prop} {cur cur' : Option ι}

/-- **The promises**: each handle that should own its block does, and the variable leads to
the block of the handle the function has been called for. -/
structure BlockInv (m : BlockMem ι α) (owns : ι → Prop) (cur : Option ι) : Prop where
  owned : ∀ i, owns i → m.Owned i
  holds : ∀ i, cur = some i → m.Holds i

/-- **A step of a program**: it allocates the block of a handle, takes the pointer of one
that owns its block, frees the block in the variable, or leaves the memory alone. -/
inductive BlockStep (m : BlockMem ι α) (owns : ι → Prop) (cur : Option ι) :
    BlockMem ι α → (ι → Prop) → Option ι → Prop
  | alloc (i : ι) (a : α) (m' : BlockMem ι α) (owns' : ι → Prop) (h : m.alloc i a = some m')
      (howns : ∀ j, owns' j → owns j ∨ j = i) : BlockStep m owns cur m' owns' (some i)
  | load (i : ι) (owns' : ι → Prop) (hi : owns i) (howns : ∀ j, owns' j → owns j) :
      BlockStep m owns cur (m.load i) owns' (some i)
  | free (i : ι) (owns' : ι → Prop) (hcur : cur = some i) (howns : ∀ j, owns' j → owns j ∧ j ≠ i) :
      BlockStep m owns cur m.free owns' none
  | stay (owns' : ι → Prop) (cur' : Option ι) (howns : ∀ j, owns' j → owns j)
      (hcur : ∀ i, cur' = some i → cur = some i) : BlockStep m owns cur m owns' cur'

/-- **Every step keeps the promises.** -/
theorem BlockInv.step (h : BlockInv m owns cur) (hs : BlockStep m owns cur m' owns' cur') :
    BlockInv m' owns' cur' := by
  cases hs with
  | alloc i a _ _ halloc howns =>
    refine ⟨fun j hj => ?_, fun j hj => Option.some.inj hj ▸ BlockMem.alloc_holds halloc⟩
    rcases howns j hj with hj | rfl
    · exact (h.owned j hj).alloc halloc
    · exact (BlockMem.alloc_holds halloc).owned
  | load i _ hi howns =>
    exact ⟨fun j hj => h.owned j (howns j hj),
      fun j hj => Option.some.inj hj ▸ BlockMem.load_holds (h.owned i hi)⟩
  | free i _ hcur howns =>
    refine ⟨fun j hj => ?_, nofun⟩
    obtain ⟨hj, hne⟩ := howns j hj
    exact (h.owned j hj).free (h.holds i hcur) hne
  | stay _ _ howns hcur =>
    exact ⟨fun j hj => h.owned j (howns j hj), fun i hi => h.holds i (hcur i hi)⟩

end Steps

/-! ### Programs with a log -/

section Log

variable {ι α κ : Type*} [DecidableEq ι] [DecidableEq α] {m m' : BlockMem ι α} {obj : ι → κ}
  {log : List (ResAct κ)} {cur cur' : Option ι} {i : ι} {a : α} {x : ResAct κ}

/-- The block of the handle, which is the object `obj i` of the log, is live in it. -/
def LogOwns (obj : ι → κ) (log : List (ResAct κ)) (i : ι) : Prop := ResLog.Live log (obj i)

omit [DecidableEq ι] [DecidableEq α] in
/-- A program starts with nothing in its log, and nothing in its variable. -/
theorem BlockInv.start : BlockInv m (LogOwns obj []) none where
  owned := by
    intro j hj
    exact absurd hj.1 List.not_mem_nil
  holds := by
    intro j hj
    exact absurd hj.symm (Option.some_ne_none j)

namespace BlockStep

/-- The block is allocated, and the log says so. -/
theorem of_acquire (hobj : Function.Injective obj) (h : m.alloc i a = some m') :
    BlockStep m (LogOwns obj log) cur m' (LogOwns obj (log ++ [.acquire (obj i)])) (some i) := by
  refine .alloc i a m' _ h fun j hj => ?_
  by_cases heq : j = i
  · exact Or.inr heq
  · exact Or.inl (ResLog.live_of_concat hj fun hact => heq (hobj (ResAct.acquire.inj hact)).symm)

/-- The block in the variable is freed, and the log says so. -/
theorem of_release (hcur : cur = some i) :
    BlockStep m (LogOwns obj log) cur m.free (LogOwns obj (log ++ [.release (obj i)])) none := by
  refine .free i _ hcur fun j hj => ?_
  obtain ⟨hlive, hne⟩ := ResLog.live_concat_release.mp hj
  exact ⟨hlive, fun heq => hne (congrArg obj heq)⟩

/-- Something else is obtained or released. -/
theorem of_act (hx : ∀ j, x ≠ .acquire (obj j)) (hcur : ∀ j, cur' = some j → cur = some j) :
    BlockStep m (LogOwns obj log) cur m (LogOwns obj (log ++ [x])) cur' :=
  .stay _ _ (fun j hj => ResLog.live_of_concat hj (hx j)) hcur

theorem of_quiet (hcur : ∀ j, cur' = some j → cur = some j) :
    BlockStep m (LogOwns obj log) cur m (LogOwns obj log) cur' :=
  .stay _ _ (fun _ hj => hj) hcur

end BlockStep

end Log
