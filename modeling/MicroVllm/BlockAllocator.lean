import MicroVllm.Types
import Mathlib.Data.List.Count
import Mathlib.Data.List.Nodup
import Mathlib.Data.List.Perm.Subperm

/-! # The block pool and the page tables drawn from it

`BlockAllocator` hands out fixed-size blocks and counts the references to each.
`BlockTable` is one sequence's page table over such a pool.  The proof side is
`Accounts`: the pool agrees with a list of the references that are out, up to order,
and every operation says what it does to that list.
-/

namespace MicroVllm

/-- The free list is a stack; its top, the back of the source's vector, is the head
    of the list. -/
structure BlockAllocator where
  total : Nat
  blockSize : Nat
  freeList : List Nat
  refcounts : List Nat
deriving DecidableEq, Repr

namespace BlockAllocator

def make (totalBlocks blockSize : Nat) : BlockAllocator where
  total := totalBlocks
  blockSize := if blockSize = 0 then 1 else blockSize
  -- pushed from the highest id down, so that low ids are handed out first
  freeList := List.range totalBlocks
  refcounts := List.replicate totalBlocks 0

def freeBlocks (a : BlockAllocator) : Nat := a.freeList.length

def usedBlocks (a : BlockAllocator) : Nat := a.total - a.freeBlocks

/-- Blocks needed for `nTokens`; the sum is a 32-bit one. -/
def blocksFor (a : BlockAllocator) (nTokens : Nat) : Nat :=
  toUint32 (nTokens + a.blockSize - 1) / a.blockSize

def canAllocate (a : BlockAllocator) (n : Nat) : Bool := n ≤ a.freeBlocks

def refcount (a : BlockAllocator) (block : Nat) : Nat :=
  if block < a.total then a.refcounts.getD block 0 else 0

/-- All or nothing: the top `n` blocks of the stack, each at one reference. -/
def allocate (a : BlockAllocator) (n : Nat) : Option (List Nat × BlockAllocator) :=
  if a.canAllocate n then
    let out := a.freeList.take n
    some (out, { a with
      freeList := a.freeList.drop n
      refcounts := out.foldl (fun counts id => counts.set id 1) a.refcounts })
  else none

def freeOne (a : BlockAllocator) (id : Nat) : BlockAllocator :=
  if id ≥ a.total ∨ a.refcount id = 0 then a -- a double free or a foreign id is ignored
  else
    let left := a.refcount id - 1
    -- the last reference puts the block back on top of the stack
    { a with
      refcounts := a.refcounts.set id left
      freeList := if left = 0 then id :: a.freeList else a.freeList }

def free (a : BlockAllocator) (blocks : List Nat) : BlockAllocator :=
  blocks.foldl freeOne a

def incref (a : BlockAllocator) (block : Nat) : BlockAllocator :=
  -- a free block cannot be shared
  if block < a.total ∧ a.refcount block > 0 then
    { a with refcounts := a.refcounts.set block (a.refcount block + 1) }
  else a

/-! ## Accounting -/

/-- The references that are out, each counted as often as it is held, are `refs`. -/
structure Accounts (a : BlockAllocator) (refs : List Nat) : Prop where
  size : a.refcounts.length = a.total
  freeNodup : a.freeList.Nodup
  memFree : ∀ b, b ∈ a.freeList ↔ b < a.total ∧ a.refcount b = 0
  counts : ∀ b, a.refcount b = refs.count b

variable {a : BlockAllocator} {refs : List Nat}

theorem refcount_lt_total {b : Nat} (positive : 0 < a.refcount b) : b < a.total := by
  unfold refcount at positive
  by_contra outside
  simp [outside] at positive

theorem refcount_set {b c : Nat} {n : Nat} (size : a.refcounts.length = a.total)
    (inside : c < a.total) {stack : List Nat} :
    ({ a with refcounts := a.refcounts.set c n, freeList := stack } : BlockAllocator).refcount b =
      if b = c then n else a.refcount b := by
  by_cases same : b = c
  · subst same
    simp [refcount, inside, List.getD_eq_getElem?_getD, size]
  · simp [refcount, same, List.getD_eq_getElem?_getD, List.getElem?_set_ne (Ne.symm same)]

namespace Accounts

theorem congr {refs' : List Nat} (accounts : Accounts a refs)
    (same : ∀ b, refs.count b = refs'.count b) : Accounts a refs' :=
  { accounts with counts := fun b => (accounts.counts b).trans (same b) }

theorem perm {refs' : List Nat} (accounts : Accounts a refs) (same : refs.Perm refs') :
    Accounts a refs' :=
  accounts.congr fun b => same.count_eq b

theorem refcount_pos (accounts : Accounts a refs) {b : Nat} (member : b ∈ refs) :
    0 < a.refcount b := by
  rw [accounts.counts b]
  exact List.count_pos_iff.mpr member

theorem lt_total (accounts : Accounts a refs) {b : Nat} (member : b ∈ refs) : b < a.total :=
  refcount_lt_total (accounts.refcount_pos member)

theorem not_mem_of_free (accounts : Accounts a refs) {b : Nat} (free : b ∈ a.freeList) :
    b ∉ refs := by
  intro member
  have zero := ((accounts.memFree b).mp free).2
  have positive := accounts.refcount_pos member
  omega

/-- A duplicate-free part of the references and the free list share the pool. -/
theorem length_add_free_le (accounts : Accounts a refs) {table : List Nat}
    (nodup : table.Nodup) (held : table ⊆ refs) : table.length + a.freeBlocks ≤ a.total := by
  have disjoint : (table ++ a.freeList).Nodup := by
    refine nodup.append accounts.freeNodup ?_
    intro b inTable inFree
    exact accounts.not_mem_of_free inFree (held inTable)
  have bounded : table ++ a.freeList ⊆ List.range a.total := by
    intro b member
    rcases List.mem_append.mp member with inTable | inFree
    · exact List.mem_range.mpr (accounts.lt_total (held inTable))
    · exact List.mem_range.mpr ((accounts.memFree b).mp inFree).1
  have length := (List.subperm_of_subset disjoint bounded).length_le
  simpa [freeBlocks] using length

/-- With no reference out, the whole pool is free. -/
theorem freeBlocks_of_nil (accounts : Accounts a []) : a.freeBlocks = a.total := by
  have same : a.freeList.Perm (List.range a.total) := by
    rw [List.perm_ext_iff_of_nodup accounts.freeNodup List.nodup_range]
    intro b
    rw [accounts.memFree b, accounts.counts b]
    simp
  simpa [freeBlocks] using same.length_eq

end Accounts

theorem accounts_make (totalBlocks blockSize : Nat) :
    Accounts (make totalBlocks blockSize) [] where
  size := by simp [make]
  freeNodup := List.nodup_range
  memFree b := by
    simp only [make, List.mem_range, refcount]
    constructor
    · intro inside
      exact ⟨inside, by simp [inside]⟩
    · exact fun h => h.1
  counts b := by
    simp only [refcount, List.count_nil]
    by_cases inside : b < totalBlocks <;> simp [make, inside]

theorem length_foldl_set (out : List Nat) (counts : List Nat) :
    (out.foldl (fun counts id => counts.set id 1) counts).length = counts.length := by
  induction out generalizing counts with
  | nil => rfl
  | cons id out ih => simp [ih]

theorem getD_foldl_set (out : List Nat) (counts : List Nat) (b : Nat)
    (inside : b < counts.length) :
    (out.foldl (fun counts id => counts.set id 1) counts).getD b 0 =
      if b ∈ out then 1 else counts.getD b 0 := by
  induction out generalizing counts with
  | nil => simp
  | cons id out ih =>
    simp only [List.foldl_cons, List.mem_cons]
    rw [ih _ (by simpa using inside)]
    by_cases member : b ∈ out
    · simp [member]
    · by_cases same : b = id
      · subst same
        simp [List.getD_eq_getElem?_getD, inside]
      · simp [member, same, List.getD_eq_getElem?_getD, List.getElem?_set_ne (Ne.symm same)]

theorem allocate_eq_none_iff {n : Nat} : a.allocate n = none ↔ a.freeBlocks < n := by
  simp [allocate, canAllocate]

theorem allocate_frame {n : Nat} {out : List Nat} {a' : BlockAllocator}
    (taken : a.allocate n = some (out, a')) :
    a'.total = a.total ∧ a'.blockSize = a.blockSize := by
  simp only [allocate] at taken
  split at taken
  · simp only [Option.some.injEq, Prod.mk.injEq] at taken
    obtain ⟨_, rfl⟩ := taken
    exact ⟨rfl, rfl⟩
  · simp at taken

theorem allocate_length {n : Nat} {out : List Nat} {a' : BlockAllocator}
    (taken : a.allocate n = some (out, a')) : out.length = n := by
  simp only [allocate] at taken
  split at taken
  · rename_i enough
    simp only [canAllocate, decide_eq_true_eq] at enough
    simp only [Option.some.injEq, Prod.mk.injEq] at taken
    obtain ⟨rfl, _⟩ := taken
    exact List.length_take_of_le enough
  · simp at taken

theorem allocate_freeBlocks {n : Nat} {out : List Nat} {a' : BlockAllocator}
    (taken : a.allocate n = some (out, a')) : a'.freeBlocks + n = a.freeBlocks := by
  simp only [allocate] at taken
  split at taken
  · rename_i enough
    simp only [canAllocate, decide_eq_true_eq] at enough
    cases taken
    simp only [freeBlocks, List.length_drop] at enough ⊢
    omega
  · cases taken

/-- A successful `allocate` returns `n` distinct blocks nobody held, and adds them to
    the references that are out. -/
theorem Accounts.allocate (accounts : Accounts a refs) {n : Nat} {out : List Nat}
    {a' : BlockAllocator} (taken : a.allocate n = some (out, a')) :
    Accounts a' (out ++ refs) ∧ out.Nodup ∧ out.length = n ∧ ∀ b ∈ out, b ∉ refs := by
  simp only [BlockAllocator.allocate] at taken
  split at taken
  case isFalse => simp at taken
  rename_i enough
  simp only [canAllocate, decide_eq_true_eq] at enough
  simp only [Option.some.injEq, Prod.mk.injEq] at taken
  obtain ⟨rfl, rfl⟩ := taken
  -- the free list falls into the blocks that go out and those that stay
  have split : a.freeList.take n ++ a.freeList.drop n = a.freeList := List.take_append_drop n _
  have nodup := accounts.freeNodup
  rw [← split] at nodup
  obtain ⟨outNodup, restNodup, disjoint⟩ := List.nodup_append.mp nodup
  have fresh : ∀ b ∈ a.freeList.take n, b ∉ refs := fun b member =>
    accounts.not_mem_of_free (List.mem_of_mem_take member)
  have outInside : ∀ b ∈ a.freeList.take n, b < a.total := fun b member =>
    ((accounts.memFree b).mp (List.mem_of_mem_take member)).1
  have count : ∀ b, (BlockAllocator.refcount { a with
      freeList := a.freeList.drop n
      refcounts := (a.freeList.take n).foldl (fun counts id => counts.set id 1) a.refcounts } b) =
      if b ∈ a.freeList.take n then 1 else a.refcount b := by
    intro b
    simp only [refcount]
    by_cases inside : b < a.total
    · rw [if_pos inside, if_pos inside, getD_foldl_set _ _ _ (by rw [accounts.size]; exact inside)]
    · have absent : b ∉ a.freeList.take n := fun member => inside (outInside b member)
      rw [if_neg inside, if_neg inside, if_neg absent]
  refine ⟨⟨?_, restNodup, ?_, ?_⟩, outNodup, ?_, fresh⟩
  · simp [length_foldl_set, accounts.size]
  · intro b
    rw [count b]
    have whole := accounts.memFree b
    rw [← split, List.mem_append] at whole
    by_cases member : b ∈ a.freeList.take n
    · have absent : b ∉ a.freeList.drop n := fun later => disjoint b member b later rfl
      simp [member, absent]
    · simpa [member] using whole
  · intro b
    rw [count b, List.count_append, accounts.counts b]
    by_cases member : b ∈ a.freeList.take n
    · have once : (a.freeList.take n).count b = 1 := List.count_eq_one_of_mem outNodup member
      have none : refs.count b = 0 := List.count_eq_zero.mpr (fresh b member)
      simp [member, once, none]
    · simp [member, List.count_eq_zero.mpr member]
  · exact List.length_take_of_le enough

theorem freeOne_frame (id : Nat) :
    (a.freeOne id).total = a.total ∧ (a.freeOne id).blockSize = a.blockSize := by
  unfold freeOne
  split <;> exact ⟨rfl, rfl⟩

theorem free_frame (blocks : List Nat) :
    (a.free blocks).total = a.total ∧ (a.free blocks).blockSize = a.blockSize := by
  unfold free
  induction blocks generalizing a with
  | nil => exact ⟨rfl, rfl⟩
  | cons id blocks ih =>
    obtain ⟨total, size⟩ := ih (a := a.freeOne id)
    exact ⟨total.trans (freeOne_frame id).1, size.trans (freeOne_frame id).2⟩

/-- Giving back one held reference. -/
theorem Accounts.freeOne {id : Nat} (accounts : Accounts a (id :: refs)) :
    Accounts (a.freeOne id) refs := by
  have positive : 0 < a.refcount id := accounts.refcount_pos (by simp)
  have inside : id < a.total := refcount_lt_total positive
  have kept : ¬ (id ≥ a.total ∨ a.refcount id = 0) := by omega
  have size := accounts.size
  have idCount : a.refcount id = refs.count id + 1 := by
    rw [accounts.counts id]; simp
  have idBusy : id ∉ a.freeList := fun free => by
    have := ((accounts.memFree id).mp free).2; omega
  simp only [BlockAllocator.freeOne, kept, if_false]
  have others : ∀ b, b ≠ id → a.refcount b = refs.count b := fun b different => by
    rw [accounts.counts b, List.count_cons_of_ne (Ne.symm different)]
  -- the counts do not depend on whether the block goes back to the free list
  have count : ∀ (stack : List Nat) b, ({ a with
      refcounts := a.refcounts.set id (a.refcount id - 1)
      freeList := stack } : BlockAllocator).refcount b = refs.count b := by
    intro stack b
    rw [refcount_set size inside]
    by_cases same : b = id
    · subst same; simp [idCount]
    · simp [same, others b same]
  refine ⟨by simp [size], ?_, ?_, count _⟩
  · split
    · exact List.nodup_cons.mpr ⟨idBusy, accounts.freeNodup⟩
    · exact accounts.freeNodup
  · intro b
    rw [count]
    by_cases same : b = id
    · subst same
      by_cases last : refs.count b = 0
      · simp [idCount, last, inside]
      · simp [idCount, last, idBusy]
    · rw [← others b same, ← accounts.memFree b]
      split <;> simp [same]

/-- Giving back a list of held references. -/
theorem Accounts.free {blocks : List Nat} (accounts : Accounts a (blocks ++ refs)) :
    Accounts (a.free blocks) refs := by
  unfold BlockAllocator.free
  induction blocks generalizing a with
  | nil => exact accounts
  | cons id blocks ih => exact ih accounts.freeOne

theorem incref_frame (id : Nat) :
    (a.incref id).total = a.total ∧ (a.incref id).blockSize = a.blockSize ∧
      (a.incref id).freeList = a.freeList := by
  unfold incref
  split <;> exact ⟨rfl, rfl, rfl⟩

/-- Sharing a block that somebody holds. -/
theorem Accounts.incref {id : Nat} (accounts : Accounts a refs) (held : id ∈ refs) :
    Accounts (a.incref id) (id :: refs) := by
  have positive : 0 < a.refcount id := accounts.refcount_pos held
  have inside : id < a.total := refcount_lt_total positive
  have kept : id < a.total ∧ a.refcount id > 0 := ⟨inside, positive⟩
  have size := accounts.size
  simp only [BlockAllocator.incref, kept, and_self, if_true]
  have count : ∀ b, ({ a with refcounts := a.refcounts.set id (a.refcount id + 1) } :
      BlockAllocator).refcount b = (id :: refs).count b := by
    intro b
    rw [refcount_set size inside]
    by_cases same : b = id
    · subst same; simp [accounts.counts]
    · simp [same, accounts.counts, List.count_cons_of_ne (Ne.symm same)]
  refine ⟨by simp [size], accounts.freeNodup, ?_, count⟩
  intro b
  rw [count b]
  by_cases same : b = id
  · subst same
    have busy : b ∉ a.freeList := fun free => accounts.not_mem_of_free free held
    simp [busy]
  · rw [List.count_cons_of_ne (Ne.symm same), ← accounts.counts b, ← accounts.memFree b]

theorem increfs_frame (blocks : List Nat) :
    (blocks.foldl incref a).total = a.total ∧ (blocks.foldl incref a).blockSize = a.blockSize ∧
      (blocks.foldl incref a).freeList = a.freeList := by
  induction blocks generalizing a with
  | nil => exact ⟨rfl, rfl, rfl⟩
  | cons id blocks ih =>
    obtain ⟨total, size, stack⟩ := ih (a := a.incref id)
    obtain ⟨total', size', stack'⟩ := incref_frame (a := a) id
    exact ⟨total.trans total', size.trans size', stack.trans stack'⟩

theorem Accounts.increfs {blocks : List Nat} (accounts : Accounts a refs)
    (held : ∀ b ∈ blocks, b ∈ refs) : Accounts (blocks.foldl BlockAllocator.incref a) (blocks ++ refs) := by
  induction blocks generalizing a refs with
  | nil => exact accounts
  | cons id blocks ih =>
    have shared := accounts.incref (held id (by simp))
    have rest := ih shared (fun b member => List.mem_cons_of_mem _ (held b (by simp [member])))
    exact rest.perm (by simp)

end BlockAllocator

/-! ## Page tables -/

/-- One sequence's blocks, in logical order. -/
structure BlockTable where
  blocks : List Nat := []
  nTokens : Nat := 0
  sharedPrefixBlocks : Nat := 0
  sharedPrefixTokens : Nat := 0
deriving DecidableEq, Repr

namespace BlockTable

def nBlocks (t : BlockTable) : Nat := t.blocks.length

/-- Grow to `nTokens` in total; `none` if the pool cannot supply the shortfall, in
    which case nothing has changed. -/
def ensureCapacity (t : BlockTable) (nTokens : Nat) (a : BlockAllocator) :
    Option (BlockTable × BlockAllocator) :=
  let needed := a.blocksFor nTokens
  if needed > t.nBlocks then
    -- only the shortfall is asked for
    match a.allocate (needed - t.nBlocks) with
    | none => none
    | some (extra, a) => some ({ t with blocks := t.blocks ++ extra, nTokens := nTokens }, a)
  -- a table never shrinks, though the count of its tokens may
  else some ({ t with nTokens := nTokens }, a)

def adoptSharedPrefix (t : BlockTable) (blocks : List Nat) (nTokens : Nat)
    (a : BlockAllocator) : BlockTable × BlockAllocator :=
  ({ blocks := t.blocks ++ blocks
     nTokens := max t.nTokens nTokens
     sharedPrefixBlocks := blocks.length
     sharedPrefixTokens := nTokens },
   blocks.foldl BlockAllocator.incref a)

abbrev release (t : BlockTable) (a : BlockAllocator) : BlockTable × BlockAllocator :=
  ({}, a.free t.blocks)

/-- A table that is large enough is kept, and any other gets the blocks it lacks. -/
theorem ensureCapacity_cases {t t' : BlockTable} {n : Nat} {a a' : BlockAllocator}
    (grown : t.ensureCapacity n a = some (t', a')) :
    (a.blocksFor n ≤ t.nBlocks ∧ t' = { t with nTokens := n } ∧ a' = a) ∨
    (t.nBlocks < a.blocksFor n ∧ ∃ extra, a.allocate (a.blocksFor n - t.nBlocks) = some (extra, a') ∧
      t' = { t with blocks := t.blocks ++ extra, nTokens := n }) := by
  simp only [ensureCapacity] at grown
  split at grown
  · rename_i short
    split at grown
    · cases grown
    · rename_i taken
      cases grown
      exact .inr ⟨short, _, taken, rfl⟩
  · rename_i enough
    cases grown
    exact .inl ⟨Nat.le_of_not_lt enough, rfl, rfl⟩

/-- What growing a table does: some fresh blocks are appended, and nothing else
    changes hands. -/
theorem ensureCapacity_spec {t t' : BlockTable} {n : Nat} {a a' : BlockAllocator}
    {refs : List Nat} (accounts : a.Accounts (t.blocks ++ refs))
    (grown : t.ensureCapacity n a = some (t', a')) :
    ∃ extra, t'.blocks = t.blocks ++ extra ∧ a'.Accounts (t'.blocks ++ refs) ∧ extra.Nodup ∧
      (∀ b ∈ extra, b ∉ t.blocks ++ refs) ∧ a'.total = a.total ∧ a'.blockSize = a.blockSize ∧
      t'.nBlocks = max t.nBlocks (a.blocksFor n) := by
  rcases ensureCapacity_cases grown with ⟨enough, rfl, rfl⟩ | ⟨short, extra, taken, rfl⟩
  · refine ⟨[], by simp, accounts, List.nodup_nil, by simp, rfl, rfl, ?_⟩
    simp only [nBlocks] at enough ⊢
    omega
  · obtain ⟨after, nodup, length, fresh⟩ := accounts.allocate taken
    obtain ⟨total, size⟩ := BlockAllocator.allocate_frame taken
    refine ⟨extra, rfl, after.perm ?_, nodup, fresh, total, size, ?_⟩
    · rw [← List.append_assoc]
      exact List.perm_append_comm.append_right refs
    · simp only [nBlocks, List.length_append, length] at short ⊢
      omega

/-- What growing a table does to the table and to the size of the pool, whoever holds what. -/
theorem ensureCapacity_shape {t t' : BlockTable} {n : Nat} {a a' : BlockAllocator}
    (grown : t.ensureCapacity n a = some (t', a')) :
    t'.nTokens = n ∧ t'.nBlocks = max t.nBlocks (a.blocksFor n) ∧
      t'.sharedPrefixBlocks = t.sharedPrefixBlocks ∧ t'.sharedPrefixTokens = t.sharedPrefixTokens ∧
      a'.total = a.total ∧ a'.blockSize = a.blockSize := by
  rcases ensureCapacity_cases grown with ⟨enough, rfl, rfl⟩ | ⟨short, extra, taken, rfl⟩
  · refine ⟨rfl, ?_, rfl, rfl, rfl, rfl⟩
    simp only [nBlocks] at enough ⊢
    omega
  · obtain ⟨total, size⟩ := BlockAllocator.allocate_frame taken
    have length := BlockAllocator.allocate_length taken
    refine ⟨rfl, ?_, rfl, rfl, total, size⟩
    simp only [nBlocks, List.length_append, length] at short ⊢
    omega

theorem ensureCapacity_shared {t t' : BlockTable} {n : Nat} {a a' : BlockAllocator}
    (grown : t.ensureCapacity n a = some (t', a')) : t'.sharedPrefixTokens = t.sharedPrefixTokens :=
  (ensureCapacity_shape grown).2.2.2.1

/-- What the pool has left after growing a table. -/
theorem ensureCapacity_freeBlocks {t t' : BlockTable} {n : Nat} {a a' : BlockAllocator}
    (grown : t.ensureCapacity n a = some (t', a')) :
    a'.freeBlocks + (a.blocksFor n - t.nBlocks) = a.freeBlocks := by
  rcases ensureCapacity_cases grown with ⟨enough, rfl, rfl⟩ | ⟨_, extra, taken, rfl⟩
  · omega
  · exact BlockAllocator.allocate_freeBlocks taken

theorem ensureCapacity_eq_none_iff {t : BlockTable} {n : Nat} {a : BlockAllocator} :
    t.ensureCapacity n a = none ↔
      t.nBlocks < a.blocksFor n ∧ a.freeBlocks < a.blocksFor n - t.nBlocks := by
  simp only [ensureCapacity]
  split
  · rename_i short
    split
    · rename_i failed
      rw [BlockAllocator.allocate_eq_none_iff] at failed
      simp [short, failed]
    · rename_i taken
      have enough : ¬ a.freeBlocks < a.blocksFor n - t.nBlocks := by
        rw [← BlockAllocator.allocate_eq_none_iff, taken]
        simp
      simp [enough]
  · rename_i enough
    simp at enough
    simp [enough]

end BlockTable

end MicroVllm
