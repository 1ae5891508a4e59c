import MicroVllm.BlockAllocator

/-! # The block pool under any history of calls

The callers of `BlockAllocator` keep their books straight, but the pool does not rely on it: an id
that was never handed out, a block that is freed twice or a reference to a free block is ignored.
So the free list and the reference counts agree after every history of calls, whatever the
arguments.  Reference counts are unbounded here; the source's are 32 bits wide.
-/

namespace MicroVllm

namespace BlockAllocator

variable {a : BlockAllocator}

/-! ## The assertion

`allocate` as its loop runs: it takes the back of a vector that must not be empty, reads the
reference count under an index that must be in range, and asserts that the count is zero. -/

/-- The loop of `allocate`; `none` if it would read outside of a vector or fail its assertion. -/
def allocateLoop : Nat → BlockAllocator → Option (List Nat × BlockAllocator)
  | 0, a => some ([], a)
  | n + 1, a =>
    match a.freeList with
    | [] => none
    | id :: rest =>
      if a.refcounts[id]? = some 0 then
        (allocateLoop n { a with freeList := rest, refcounts := a.refcounts.set id 1 }).map fun taken =>
          (id :: taken.1, taken.2)
      else none

/-- With distinct blocks on the stack that nobody refers to, the loop goes through. -/
theorem allocateLoop_eq {n : Nat} (enough : n ≤ a.freeList.length) (nodup : a.freeList.Nodup)
    (unused : ∀ b ∈ a.freeList, a.refcounts[b]? = some 0) :
    allocateLoop n a = some (a.freeList.take n, { a with
      freeList := a.freeList.drop n
      refcounts := (a.freeList.take n).foldl (fun counts id => counts.set id 1) a.refcounts }) := by
  induction n generalizing a with
  | zero => rfl
  | succ n ih =>
    rw [allocateLoop]
    cases stack : a.freeList with
    | nil => simp [stack] at enough
    | cons id rest =>
      rw [stack, List.nodup_cons] at nodup
      rw [stack, List.length_cons] at enough
      -- the blocks below the top are others, so their counts stay
      have later : ∀ b ∈ rest, (a.refcounts.set id 1)[b]? = some 0 := by
        intro b member
        have other : id ≠ b := fun same => nodup.1 (same ▸ member)
        rw [List.getElem?_set_ne other]
        exact unused b (by rw [stack]; exact List.mem_cons_of_mem _ member)
      simp only
      rw [if_pos (unused id (by simp [stack])), ih (by simp only; omega) nodup.2 later]
      rfl

/-! ## The representation invariant -/

/-- The free list holds the blocks nobody refers to, each once. -/
structure Sound (a : BlockAllocator) : Prop where
  size : a.refcounts.length = a.total
  freeNodup : a.freeList.Nodup
  memFree : ∀ b, b ∈ a.freeList ↔ b < a.total ∧ a.refcount b = 0

theorem Accounts.sound {refs : List Nat} (accounts : Accounts a refs) : a.Sound :=
  ⟨accounts.size, accounts.freeNodup, accounts.memFree⟩

/-- Every block as often as it is referred to. -/
def references (a : BlockAllocator) : List Nat :=
  (List.range a.total).flatMap fun b => List.replicate (a.refcount b) b

theorem count_flatMap_replicate (times : Nat → Nat) (n b : Nat) :
    ((List.range n).flatMap fun c => List.replicate (times c) c).count b = if b < n then times b else 0 := by
  induction n with
  | zero => simp
  | succ n ih =>
    rw [List.range_succ, List.flatMap_append, List.count_append, ih]
    simp only [List.flatMap_cons, List.flatMap_nil, List.append_nil, List.count_replicate, beq_iff_eq]
    by_cases last : b = n
    · subst last
      simp
    · have fewer : b < n + 1 ↔ b < n := by omega
      simp [fewer, Ne.symm last]

theorem count_references (a : BlockAllocator) (b : Nat) : a.references.count b = a.refcount b := by
  rw [references, count_flatMap_replicate]
  by_cases inside : b < a.total
  · rw [if_pos inside]
  · rw [if_neg inside, refcount, if_neg inside]

namespace Sound

/-- Some list of references is out. -/
theorem accounts (sound : a.Sound) : a.Accounts a.references :=
  ⟨sound.size, sound.freeNodup, sound.memFree, fun b => (a.count_references b).symm⟩

theorem freeOne (sound : a.Sound) (id : Nat) : (a.freeOne id).Sound := by
  by_cases ignored : id ≥ a.total ∨ a.refcount id = 0
  · rw [BlockAllocator.freeOne, if_pos ignored]
    exact sound
  · have held : id ∈ a.references := by
      rw [← List.count_pos_iff, count_references]
      omega
    have one : a.Accounts (id :: a.references.erase id) :=
      sound.accounts.perm (List.perm_cons_erase held)
    exact one.freeOne.sound

theorem free (sound : a.Sound) (blocks : List Nat) : (a.free blocks).Sound := by
  unfold BlockAllocator.free
  induction blocks generalizing a with
  | nil => exact sound
  | cons id blocks ih => exact ih (sound.freeOne id)

theorem incref (sound : a.Sound) (id : Nat) : (a.incref id).Sound := by
  by_cases counted : id < a.total ∧ a.refcount id > 0
  · have held : id ∈ a.references := by
      rw [← List.count_pos_iff, count_references]
      exact counted.2
    exact (sound.accounts.incref held).sound
  · rw [BlockAllocator.incref, if_neg counted]
    exact sound

theorem allocate (sound : a.Sound) {n : Nat} {out : List Nat} {a' : BlockAllocator}
    (taken : a.allocate n = some (out, a')) : a'.Sound :=
  (sound.accounts.allocate taken).1.sound

/-- The blocks in use and the free ones are the pool. -/
theorem free_add_used (sound : a.Sound) :
    a.freeBlocks + (List.range a.total).countP (fun b => 0 < a.refcount b) = a.total := by
  have free : a.freeBlocks = (List.range a.total).countP fun b => ¬ 0 < a.refcount b := by
    have same : a.freeList.Perm ((List.range a.total).filter fun b => ¬ 0 < a.refcount b) := by
      rw [List.perm_ext_iff_of_nodup sound.freeNodup (List.nodup_range.filter _)]
      intro b
      rw [sound.memFree b]
      simp
    rw [freeBlocks, same.length_eq, ← List.countP_eq_length_filter]
  have whole : (List.range a.total).length = _ :=
    List.length_eq_countP_add_countP fun b => decide (0 < a.refcount b)
  simp only [List.length_range, decide_eq_true_eq] at whole
  omega

end Sound

theorem sound_make (totalBlocks blockSize : Nat) : (make totalBlocks blockSize).Sound :=
  (accounts_make totalBlocks blockSize).sound

/-- What a call that succeeds hands out, block by block. -/
theorem Accounts.handsOut {refs : List Nat} (accounts : Accounts a refs) {n : Nat} {out : List Nat}
    {a' : BlockAllocator} (taken : a.allocate n = some (out, a')) (b : Nat) :
    (b ∈ out → a.refcount b = 0 ∧ a'.refcount b = 1) ∧ (b ∉ out → a'.refcount b = a.refcount b) := by
  obtain ⟨after, nodup, _, fresh⟩ := accounts.allocate taken
  have count := after.counts b
  rw [List.count_append, ← accounts.counts b] at count
  constructor
  · intro member
    have unused : a.refcount b = 0 := by
      rw [accounts.counts b]
      exact List.count_eq_zero.mpr (fresh b member)
    rw [List.count_eq_one_of_mem nodup member, unused] at count
    exact ⟨unused, count⟩
  · intro absent
    rw [List.count_eq_zero.mpr absent, Nat.zero_add] at count
    exact count

/-- The loop of a call that succeeds reads inside of its vectors, and its assertion holds. -/
theorem Sound.allocateLoop (sound : a.Sound) {n : Nat} {out : List Nat} {a' : BlockAllocator}
    (taken : a.allocate n = some (out, a')) : allocateLoop n a = some (out, a') := by
  have unused : ∀ b ∈ a.freeList, a.refcounts[b]? = some 0 := by
    intro b member
    obtain ⟨inside, zero⟩ := (sound.memFree b).mp member
    rw [refcount, if_pos inside, List.getD_eq_getElem?_getD] at zero
    have there : b < a.refcounts.length := by rw [sound.size]; exact inside
    rw [List.getElem?_eq_getElem there] at zero ⊢
    exact congrArg some zero
  have enough : n ≤ a.freeList.length := by
    by_contra few
    rw [allocate_eq_none_iff.mpr (Nat.lt_of_not_le few)] at taken
    cases taken
  have fits : a.canAllocate n = true := decide_eq_true enough
  rw [allocateLoop_eq enough sound.freeNodup unused, ← taken, BlockAllocator.allocate, if_pos fits]

/-! ## Histories -/

/-- A call to the pool, with any arguments. -/
inductive Call where
  | allocate (n : Nat)
  | free (blocks : List Nat)
  | incref (block : Nat)
deriving DecidableEq, Repr

def call (a : BlockAllocator) : Call → BlockAllocator
  | .allocate n =>
    match a.allocate n with
    | none => a
    | some (_, a') => a'
  | .free blocks => a.free blocks
  | .incref block => a.incref block

/-- The pool after a history of calls. -/
def after (totalBlocks blockSize : Nat) (calls : List Call) : BlockAllocator :=
  calls.foldl call (make totalBlocks blockSize)

theorem Sound.call (sound : a.Sound) (c : Call) : (a.call c).Sound ∧ (a.call c).total = a.total := by
  cases c with
  | allocate n =>
    simp only [BlockAllocator.call]
    split
    · exact ⟨sound, rfl⟩
    · rename_i taken
      exact ⟨sound.allocate taken, (allocate_frame taken).1⟩
  | free blocks => exact ⟨sound.free blocks, (free_frame blocks).1⟩
  | incref block => exact ⟨sound.incref block, (incref_frame block).1⟩

theorem sound_after (totalBlocks blockSize : Nat) (calls : List Call) :
    (after totalBlocks blockSize calls).Sound ∧ (after totalBlocks blockSize calls).total = totalBlocks := by
  have kept : ∀ a : BlockAllocator, a.Sound →
      (calls.foldl BlockAllocator.call a).Sound ∧ (calls.foldl BlockAllocator.call a).total = a.total := by
    induction calls with
    | nil => exact fun a sound => ⟨sound, rfl⟩
    | cons c calls ih =>
      intro a sound
      obtain ⟨next, same⟩ := sound.call c
      obtain ⟨last, total⟩ := ih _ next
      exact ⟨last, total.trans same⟩
  exact kept _ (sound_make totalBlocks blockSize)

/-- After any history of calls the free list holds exactly the blocks without a reference, each once,
    so that free and used blocks add up to the pool.  A call to `allocate` then fails, and changes
    nothing, exactly if it asks for more than is free.  Otherwise its loop goes through with the
    assertion met, and it hands out that many distinct blocks, from no reference to one, and leaves
    the other counts as they were. -/
theorem pool_consistent (totalBlocks blockSize : Nat) (calls : List Call) :
    (after totalBlocks blockSize calls).freeList.Nodup ∧
    (∀ b, b ∈ (after totalBlocks blockSize calls).freeList ↔
      b < totalBlocks ∧ (after totalBlocks blockSize calls).refcount b = 0) ∧
    (after totalBlocks blockSize calls).freeBlocks + (List.range totalBlocks).countP
      (fun b => 0 < (after totalBlocks blockSize calls).refcount b) = totalBlocks ∧
    ∀ n, ((after totalBlocks blockSize calls).allocate n = none ↔
        n > (after totalBlocks blockSize calls).freeBlocks) ∧
      ((after totalBlocks blockSize calls).allocate n = none →
        after totalBlocks blockSize (calls ++ [.allocate n]) = after totalBlocks blockSize calls) ∧
      ∀ out a', (after totalBlocks blockSize calls).allocate n = some (out, a') →
        after totalBlocks blockSize (calls ++ [.allocate n]) = a' ∧
        allocateLoop n (after totalBlocks blockSize calls) = some (out, a') ∧
        out.length = n ∧ out.Nodup ∧
        (∀ b ∈ out, (after totalBlocks blockSize calls).refcount b = 0 ∧ a'.refcount b = 1) ∧
        ∀ b ∉ out, a'.refcount b = (after totalBlocks blockSize calls).refcount b := by
  obtain ⟨sound, total⟩ := sound_after totalBlocks blockSize calls
  have members := sound.memFree
  have whole := sound.free_add_used
  rw [total] at members whole
  refine ⟨sound.freeNodup, members, whole, ?_⟩
  intro n
  have next : after totalBlocks blockSize (calls ++ [.allocate n]) =
      (after totalBlocks blockSize calls).call (.allocate n) := by
    simp [after]
  refine ⟨allocate_eq_none_iff, ?_, ?_⟩
  · intro failed
    rw [next, call, failed]
  · intro out a' taken
    obtain ⟨_, nodup, length, _⟩ := sound.accounts.allocate taken
    have hands := sound.accounts.handsOut taken
    refine ⟨?_, sound.allocateLoop taken, length, nodup, fun b => (hands b).1, fun b => (hands b).2⟩
    rw [next, call, taken]

/-- A reference to a free block, a second `free` of one block and an id outside of the pool are
    ignored. -/
example : after 2 4 [.allocate 1, .incref 1, .free [0, 0, 7], .free [0]] = .make 2 4 := by
  decide

end BlockAllocator

end MicroVllm
