import MicroVllm.Engine
import MicroVllm.Lib.Lists
import Mathlib.Data.List.MinMax

/-! # The prefix cache

A map from the hash of a prompt prefix to the sequence whose KV holds it, together
with the stack of free donor slots.  Its specification is over `pairs`, the map
without its recency stamps: what each operation does to the entries, to the blocks
they pin and to the donor slots.
-/

namespace MicroVllm

structure Record where
  entry : Entry
  lastUsed : Nat := 0
deriving DecidableEq, Repr

/-- `entries` is the hash map, in the order it would be iterated; no key occurs twice.
    The top of the stack of donor slots is the head of the list. -/
structure PrefixCache where
  entries : List (UInt64 × Record) := []
  keysNodup : (entries.map Prod.fst).Nodup := by exact List.nodup_nil
  freeDonorSlots : List Nat := []
  firstDonorSlot : Nat := 0
  donorCapacity : Nat := 0
  tick : Nat := 0
deriving DecidableEq

namespace PrefixCache

/-- The fold of the FNV constants over the tokens; a token enters as its 32-bit
    pattern. -/
def hashTokens (tokens : List Token) : UInt64 :=
  tokens.foldl (fun h token => (h ^^^ token.toUInt32.toUInt64) * 1099511628211) 1469598103934665603

def hashPrefix (tokens : List Token) (nTokens : Nat) : UInt64 :=
  hashTokens (tokens.take nTokens)

def configureDonors (c : PrefixCache) (first count : Nat) : PrefixCache :=
  { c with
    firstDonorSlot := first
    donorCapacity := count
    -- the lowest slot on top
    freeDonorSlots := (List.range count).map (first + ·) }

def donorsHeld (c : PrefixCache) : Nat := c.donorCapacity - c.freeDonorSlots.length

def find? (c : PrefixCache) (hash : UInt64) : Option Record :=
  (c.entries.find? (·.1 = hash)).map Prod.snd

/-- Move a record to the front of recency. -/
def touch (c : PrefixCache) (hash : UInt64) : PrefixCache :=
  { c with
    entries := c.entries.map fun p =>
      if p.1 = hash then (p.1, { p.2 with lastUsed := c.tick + 1 }) else p
    keysNodup := by
      rw [List.map_map, List.map_congr_left (g := Prod.fst) (fun p _ => by
        simp only [Function.comp]; split <;> rfl)]
      exact c.keysNodup
    tick := c.tick + 1 }

/-- The scan of `find_longest`, from `nb` blocks down to one. -/
def findLongestFrom (c : PrefixCache) (tokens : List Token) (blockSize : Nat) :
    Nat → Option Entry × PrefixCache
  | 0 => (none, c)
  | nb + 1 =>
    let nTokens := toUint32 ((nb + 1) * blockSize)
    let hash := hashPrefix tokens nTokens
    match c.find? hash with
    | some record =>
      -- the lengths are compared, the tokens are not
      if record.entry.nTokens = nTokens then (some record.entry, c.touch hash)
      else findLongestFrom c tokens blockSize nb
    | none => findLongestFrom c tokens blockSize nb

def findLongest (c : PrefixCache) (tokens : List Token) (blockSize : Nat) :
    Option Entry × PrefixCache :=
  if blockSize = 0 ∨ tokens = [] then (none, c)
  -- whole blocks only: the last one is still being written
  else findLongestFrom c tokens blockSize (toUint32 (tokens.length / blockSize))

/-- `entries_[hash] = Record{entry, ++tick_}`. -/
def insert (c : PrefixCache) (hash : UInt64) (entry : Entry) : PrefixCache :=
  { c with
    -- an entry already under this key is dropped, with whatever it pinned
    entries := (hash, { entry := entry, lastUsed := c.tick + 1 }) ::
      c.entries.filter (·.1 ≠ hash)
    keysNodup := by
      rw [List.map_cons, List.nodup_cons]
      refine ⟨by simp, ?_⟩
      exact c.keysNodup.sublist (List.filter_sublist.map _)
    tick := c.tick + 1 }

def takeDonorSlot (c : PrefixCache) : Option (Nat × PrefixCache) :=
  match c.freeDonorSlots with
  | [] => none
  | slot :: rest => some (slot, { c with freeDonorSlots := rest })

def retain (c : PrefixCache) (hash : UInt64) (slot nTokens : Nat) (blocks : List Nat)
    (prompt : List Token) : PrefixCache :=
  c.insert hash { seq := slot, nTokens, blocks, retained := true, prompt }

/-- The retained record with the smallest stamp, the first one met on a tie. -/
def lruVictim (entries : List (UInt64 × Record)) : Option (UInt64 × Record) :=
  entries.foldl (fun victim p =>
    -- the entry of a live sequence is not the cache's to give up
    if !p.2.entry.retained then victim
    else match victim with
      | none => some p
      | some v => if p.2.lastUsed < v.2.lastUsed then some p else some v) none

def evictLruRetained (c : PrefixCache) : Option (Entry × PrefixCache) :=
  match lruVictim c.entries with
  | none => none
  | some victim => some (victim.2.entry, { c with
      entries := c.entries.filter (·.1 ≠ victim.1)
      keysNodup := c.keysNodup.sublist (List.filter_sublist.map _)
      freeDonorSlots := victim.2.entry.seq :: c.freeDonorSlots })

/-- Drop every entry of `seq`; each that was retained hands a donor slot back. -/
def evictSequence (c : PrefixCache) (seq : Nat) : PrefixCache :=
  { c with
    entries := c.entries.filter (·.2.entry.seq ≠ seq)
    keysNodup := c.keysNodup.sublist (List.filter_sublist.map _)
    freeDonorSlots :=
      (c.entries.filter (fun p => p.2.entry.seq = seq ∧ p.2.entry.retained)).map
        (fun _ => seq) ++ c.freeDonorSlots }

/-! ## Entries without their stamps -/

def pairs (c : PrefixCache) : List (UInt64 × Entry) :=
  c.entries.map fun p => (p.1, p.2.entry)

/-- The blocks an entry holds a reference to: a live entry holds none. -/
def pinnedBy (p : UInt64 × Entry) : List Nat := if p.2.retained then p.2.blocks else []

def pinned (c : PrefixCache) : List Nat := c.pairs.flatMap pinnedBy

/-- The donor slot an entry sits in: a live entry sits in none. -/
def slotBy (p : UInt64 × Entry) : List Nat := if p.2.retained then [p.2.seq] else []

/-- The donor slots that retained entries name. -/
def donorsNamed (c : PrefixCache) : List Nat := c.pairs.flatMap slotBy

/-- What the entry filed under `hash`, if there is one, contributes to a reading of the
    entries. -/
def underKey {β : Type} (c : PrefixCache) (hash : UInt64) (f : UInt64 × Entry → List β) : List β :=
  match c.find? hash with
  | some record => f (hash, record.entry)
  | none => []

variable {c : PrefixCache}

theorem pairs_keys_nodup : (c.pairs.map Prod.fst).Nodup := by
  simpa [pairs, Function.comp_def] using c.keysNodup

/-- Two caches that differ at most in how recently their entries were used. -/
structure SameEntries (c c' : PrefixCache) : Prop where
  pairs : c'.pairs = c.pairs
  freeDonorSlots : c'.freeDonorSlots = c.freeDonorSlots
  donorCapacity : c'.donorCapacity = c.donorCapacity

/-! ## What each operation does -/

theorem find?_eq_some {hash : UInt64} {record : Record} (found : c.find? hash = some record) :
    (hash, record.entry) ∈ c.pairs := by
  simp only [find?, Option.map_eq_some_iff] at found
  obtain ⟨p, found, rfl⟩ := found
  have key := List.find?_some found
  simp only [decide_eq_true_eq] at key
  exact List.mem_map.mpr ⟨p, List.mem_of_find?_eq_some found, by rw [← key]⟩

@[simp] theorem touch_pairs (hash : UInt64) : (c.touch hash).pairs = c.pairs := by
  simp only [touch, pairs, List.map_map]
  apply List.map_congr_left
  intro p _
  simp only [Function.comp]
  split <;> rfl

@[simp] theorem touch_freeDonorSlots (hash : UInt64) :
    (c.touch hash).freeDonorSlots = c.freeDonorSlots := rfl

@[simp] theorem touch_donorCapacity (hash : UInt64) :
    (c.touch hash).donorCapacity = c.donorCapacity := rfl

/-- A hit is an entry of the map, filed under the hash of as many tokens of the query
    as it says it covers; looking it up changes nothing but recency. -/
theorem findLongestFrom_spec (tokens : List Token) (blockSize nb : Nat)
    (bound : nb ≤ tokens.length / blockSize) (small : tokens.length < 2 ^ 32) :
    let r := c.findLongestFrom tokens blockSize nb
    SameEntries c r.2 ∧
      ∀ e, r.1 = some e → (hashPrefix tokens e.nTokens, e) ∈ c.pairs ∧
        ∃ k, 0 < k ∧ k ≤ nb ∧ e.nTokens = k * blockSize ∧ e.nTokens ≤ tokens.length := by
  induction nb with
  | zero => exact ⟨⟨rfl, rfl, rfl⟩, by simp [findLongestFrom]⟩
  | succ nb ih =>
    have within : (nb + 1) * blockSize ≤ tokens.length :=
      Nat.le_trans (Nat.mul_le_mul_right _ bound) (Nat.div_mul_le_self _ _)
    have whole : toUint32 ((nb + 1) * blockSize) = (nb + 1) * blockSize :=
      toUint32_of_lt (by omega)
    obtain ⟨same, later⟩ := ih (by omega)
    have wider : ∀ e, (c.findLongestFrom tokens blockSize nb).1 = some e →
        (hashPrefix tokens e.nTokens, e) ∈ c.pairs ∧
          ∃ k, 0 < k ∧ k ≤ nb + 1 ∧ e.nTokens = k * blockSize ∧ e.nTokens ≤ tokens.length := by
      intro e hit
      obtain ⟨member, k, positive, small, covers⟩ := later e hit
      exact ⟨member, k, positive, by omega, covers⟩
    simp only [findLongestFrom]
    split
    · rename_i record found
      split
      · rename_i covers
        refine ⟨⟨by simp, by simp, by simp⟩, ?_⟩
        intro e hit
        simp only [Option.some.injEq] at hit
        subst hit
        rw [covers]
        refine ⟨find?_eq_some found, nb + 1, by omega, by omega, ?_, ?_⟩
        · exact whole
        · rw [whole]; exact within
      · exact ⟨same, wider⟩
    · exact ⟨same, wider⟩

theorem findLongest_spec (tokens : List Token) (blockSize : Nat) (small : tokens.length < 2 ^ 32) :
    let r := c.findLongest tokens blockSize
    SameEntries c r.2 ∧
      ∀ e, r.1 = some e → (hashPrefix tokens e.nTokens, e) ∈ c.pairs ∧ 0 < e.nTokens ∧
        e.nTokens ≤ tokens.length := by
  simp only [findLongest]
  split
  · exact ⟨⟨rfl, rfl, rfl⟩, by simp⟩
  · rename_i nonempty
    obtain ⟨same, hit⟩ := c.findLongestFrom_spec tokens blockSize
      (toUint32 (tokens.length / blockSize)) (toUint32_le _) small
    refine ⟨same, ?_⟩
    intro e found
    obtain ⟨member, k, positive, _, covers, within⟩ := hit e found
    refine ⟨member, ?_, within⟩
    rw [covers]
    exact Nat.mul_pos positive (by omega)

@[simp] theorem insert_pairs (hash : UInt64) (entry : Entry) :
    (c.insert hash entry).pairs = (hash, entry) :: c.pairs.filter (·.1 ≠ hash) := by
  simp [insert, pairs, List.filter_map, Function.comp_def]

@[simp] theorem insert_freeDonorSlots (hash : UInt64) (entry : Entry) :
    (c.insert hash entry).freeDonorSlots = c.freeDonorSlots := rfl

@[simp] theorem insert_donorCapacity (hash : UInt64) (entry : Entry) :
    (c.insert hash entry).donorCapacity = c.donorCapacity := rfl

theorem takeDonorSlot_eq_some {slot : Nat} {c' : PrefixCache}
    (taken : c.takeDonorSlot = some (slot, c')) :
    c.freeDonorSlots = slot :: c'.freeDonorSlots ∧ c'.pairs = c.pairs ∧
      c'.donorCapacity = c.donorCapacity := by
  simp only [takeDonorSlot] at taken
  split at taken
  · simp at taken
  · rename_i slot' rest stack
    simp only [Option.some.injEq, Prod.mk.injEq] at taken
    obtain ⟨rfl, rfl⟩ := taken
    exact ⟨stack, rfl, rfl⟩

/-- The scan of `evict_lru_retained` is that for the smallest stamp among the retained records. -/
theorem lruVictim_eq_argmin (entries : List (UInt64 × Record)) :
    lruVictim entries = (entries.filter (·.2.entry.retained)).argmin (·.2.lastUsed) := by
  rw [lruVictim, List.argmin, List.foldl_filter]
  congr 1
  funext victim p
  cases victim <;> cases p.2.entry.retained <;> rfl

theorem lruVictim_mem {entries : List (UInt64 × Record)} {p : UInt64 × Record}
    (found : lruVictim entries = some p) : p ∈ entries ∧ p.2.entry.retained = true := by
  rw [lruVictim_eq_argmin] at found
  exact List.mem_filter.mp (List.argmin_mem found)

theorem lruVictim_eq_none {entries : List (UInt64 × Record)} :
    lruVictim entries = none ↔ ∀ p ∈ entries, p.2.entry.retained = false := by
  rw [lruVictim_eq_argmin, List.argmin_eq_none, List.filter_eq_nil_iff]
  simp only [Bool.not_eq_true]

/-- Evicting takes out one retained entry and hands back its slot. -/
theorem evictLruRetained_eq_some {entry : Entry} {c' : PrefixCache}
    (evicted : c.evictLruRetained = some (entry, c')) :
    ∃ hash, (hash, entry) ∈ c.pairs ∧ entry.retained = true ∧
      c'.pairs = c.pairs.filter (·.1 ≠ hash) ∧ c.pairs.Perm ((hash, entry) :: c'.pairs) ∧
      c'.freeDonorSlots = entry.seq :: c.freeDonorSlots ∧ c'.donorCapacity = c.donorCapacity := by
  simp only [evictLruRetained] at evicted
  split at evicted
  · simp at evicted
  · rename_i victim found
    simp only [Option.some.injEq, Prod.mk.injEq] at evicted
    obtain ⟨rfl, rfl⟩ := evicted
    obtain ⟨member, kept⟩ := lruVictim_mem found
    have inPairs : (victim.1, victim.2.entry) ∈ c.pairs := List.mem_map.mpr ⟨victim, member, rfl⟩
    have rest : (c.entries.filter (·.1 ≠ victim.1)).map (fun p => (p.1, p.2.entry)) =
        c.pairs.filter (·.1 ≠ victim.1) := by
      simp [pairs, List.filter_map, Function.comp_def]
    have split := Lists.perm_cons_filter_ne c.pairs_keys_nodup inPairs
    refine ⟨victim.1, inPairs, kept, rest, ?_, rfl, rfl⟩
    simpa only [pairs, rest] using split

theorem evictLruRetained_eq_none (none : c.evictLruRetained = none) :
    ∀ p ∈ c.pairs, p.2.retained = false := by
  simp only [evictLruRetained] at none
  split at none
  · rename_i found
    intro p member
    obtain ⟨q, inside, rfl⟩ := List.mem_map.mp member
    exact lruVictim_eq_none.mp found q inside
  · simp at none

theorem evictLruRetained_length {entry : Entry} {c' : PrefixCache}
    (evicted : c.evictLruRetained = some (entry, c')) : c'.entries.length < c.entries.length := by
  obtain ⟨hash, _, _, _, split, _, _⟩ := evictLruRetained_eq_some evicted
  have length := split.length_eq
  simp only [pairs, List.length_map, List.length_cons] at length
  omega

@[simp] theorem evictSequence_pairs (seq : Nat) :
    (c.evictSequence seq).pairs = c.pairs.filter (·.2.seq ≠ seq) := by
  simp [evictSequence, pairs, List.filter_map, Function.comp_def]

@[simp] theorem evictSequence_donorCapacity (seq : Nat) :
    (c.evictSequence seq).donorCapacity = c.donorCapacity := rfl

/-- A slot no donor sits in gives no donor slot back. -/
theorem evictSequence_freeDonorSlots {seq : Nat}
    (live : ∀ p ∈ c.pairs, p.2.retained = true → p.2.seq ≠ seq) :
    (c.evictSequence seq).freeDonorSlots = c.freeDonorSlots := by
  simp only [evictSequence]
  rw [List.filter_eq_nil_iff.mpr]
  · rfl
  · intro p member
    have outside := live (p.1, p.2.entry) (List.mem_map.mpr ⟨p, member, rfl⟩)
    simp only [decide_eq_true_eq, not_and]
    intro same kept
    exact outside kept same

/-- Dropping the entries of a slot changes no reading to which they contribute nothing. -/
theorem evictSequence_flatMap {β : Type} {seq : Nat} {f : UInt64 × Entry → List β}
    (nothing : ∀ p ∈ c.pairs, p.2.seq = seq → f p = []) :
    (c.evictSequence seq).pairs.flatMap f = c.pairs.flatMap f := by
  rw [evictSequence_pairs]
  refine Lists.flatMap_filter_eq ?_
  intro p member out
  exact nothing p member (by simpa using out)

theorem find?_eq_none {hash : UInt64} (missing : c.find? hash = none) :
    ∀ p ∈ c.pairs, p.1 ≠ hash := by
  intro p member same
  simp only [find?, Option.map_eq_none_iff] at missing
  obtain ⟨q, inside, rfl⟩ := List.mem_map.mp member
  have other := List.find?_eq_none.mp missing q inside
  simp [show q.1 = hash from same] at other

/-- Writing an entry adds what it contributes to a reading and drops what the entry it
    was written over did. -/
theorem insert_flatMap {β : Type} (hash : UInt64) (entry : Entry) (f : UInt64 × Entry → List β) :
    (f (hash, entry) ++ c.pairs.flatMap f).Perm
      ((c.insert hash entry).pairs.flatMap f ++ c.underKey hash f) := by
  rw [insert_pairs, List.flatMap_cons, List.append_assoc]
  refine List.Perm.append_left _ ?_
  cases found : c.find? hash with
  | none =>
    have all : c.pairs.filter (·.1 ≠ hash) = c.pairs := by
      rw [List.filter_eq_self]
      intro p member
      simpa using find?_eq_none found p member
    rw [all, underKey, found, List.append_nil]
  | some record =>
    have split := (Lists.perm_cons_filter_ne c.pairs_keys_nodup (find?_eq_some found)).flatMap_right f
    rw [underKey, found]
    exact split.trans List.perm_append_comm

end PrefixCache

end MicroVllm
