import MicroVllm.PrefixCache
import MicroVllm.Lib.Machine
import MicroVllm.Lib.Recency

/-! # The prefix cache under any history of calls

A history records the keys it touches: those of entries that are written and of entries that a lookup
returns.  Ticks count the touches, and the stamp of an entry is the position of the last touch of
its key; so `evict_lru_retained` takes the donor whose last touch is the oldest, in whatever
order the hash map is iterated.  Ticks are unbounded here; the source's are 64 bits wide.
-/

namespace MicroVllm

namespace PrefixCache

variable {c c' d : PrefixCache} {past touched : List UInt64}

/-! ## Histories -/

/-- A call to the cache, with any arguments. -/
inductive Call where
  | insert (hash : UInt64) (entry : Entry)
  | retain (hash : UInt64) (slot nTokens : Nat) (blocks : List Nat) (prompt : List Token)
  | findLongest (tokens : List Token) (blockSize : Nat)
  | takeDonorSlot
  | evictSequence (seq : Nat)
  | evictLruRetained

/-- The keys a call touches, and the cache after it. -/
def call (c : PrefixCache) : Call → List UInt64 × PrefixCache
  | .insert hash entry => ([hash], c.insert hash entry)
  | .retain hash slot nTokens blocks prompt => ([hash], c.retain hash slot nTokens blocks prompt)
  | .findLongest tokens blockSize =>
    match c.findLongest tokens blockSize with
    | (some entry, c') => ([hashPrefix tokens entry.nTokens], c')
    | (none, c') => ([], c')
  | .takeDonorSlot => ([], (c.takeDonorSlot.map Prod.snd).getD c)
  | .evictSequence seq => ([], c.evictSequence seq)
  | .evictLruRetained => ([], (c.evictLruRetained.map Prod.snd).getD c)

/-- The same cache, iterated in another order. -/
structure Reordered (c c' : PrefixCache) : Prop where
  entries : c'.entries.Perm c.entries
  freeDonorSlots : c'.freeDonorSlots = c.freeDonorSlots
  firstDonorSlot : c'.firstDonorSlot = c.firstDonorSlot
  donorCapacity : c'.donorCapacity = c.donorCapacity
  tick : c'.tick = c.tick

/-- Calls in any order on a cache that starts empty.  The order of iteration may change at any time,
    as it does when a hash map grows. -/
def histories : Transition.Machine PrefixCache UInt64 where
  init c := ∃ first count, c = ({} : PrefixCache).configureDonors first count
  step c touched c' := (touched = [] ∧ c.Reordered c') ∨ ∃ made, c.call made = (touched, c')

/-- The touches and the cache after some more calls. -/
def replay (history : List UInt64 × PrefixCache) (calls : List Call) : List UInt64 × PrefixCache :=
  calls.foldl (fun h made => (h.1 ++ (h.2.call made).1, (h.2.call made).2)) history

theorem run_replay (history : List UInt64 × PrefixCache) (run : histories.Run history.1 history.2)
    (calls : List Call) : histories.Run (replay history calls).1 (replay history calls).2 := by
  induction calls generalizing history with
  | nil => exact run
  | cons made calls ih => exact ih _ (run.next (.inr ⟨made, rfl⟩))

/-! ## Stamps are positions -/

/-- The tick has counted the touches, and every entry bears the position of the last touch of its
    key. -/
structure Stamped (past : List UInt64) (c : PrefixCache) : Prop where
  tick : c.tick = past.length
  touched : ∀ p ∈ c.entries, p.1 ∈ past
  stamps : ∀ p ∈ c.entries, p.2.lastUsed = Recency.stamp past p.1

/-- A call that writes no entry leaves what stays as it was. -/
theorem Stamped.mono (stamped : c.Stamped past) (tick : c'.tick = c.tick)
    (entries : c'.entries ⊆ c.entries) : c'.Stamped past where
  tick := tick.trans stamped.tick
  touched p member := stamped.touched p (entries member)
  stamps p member := stamped.stamps p (entries member)

/-- A call that raises the tick: the key it touches gets the new tick, and the other entries stay as
    they were. -/
theorem Stamped.raise (stamped : c.Stamped past) {hash : UInt64} (tick : c'.tick = c.tick + 1)
    (entries : ∀ p ∈ c'.entries, (p.1 = hash ∧ p.2.lastUsed = c.tick + 1) ∨
      (p.1 ≠ hash ∧ p ∈ c.entries)) : c'.Stamped (past ++ [hash]) where
  tick := by rw [tick, stamped.tick, List.length_append, List.length_singleton]
  touched p member := by
    rcases entries p member with ⟨rfl, _⟩ | ⟨_, old⟩
    · exact List.mem_append_right _ List.mem_cons_self
    · exact List.mem_append_left _ (stamped.touched p old)
  stamps p member := by
    rcases entries p member with ⟨rfl, now⟩ | ⟨other, old⟩
    · rw [now, stamped.tick, Recency.stamp_snoc_self]
    · rw [Recency.stamp_snoc_ne other, stamped.stamps p old]

theorem Stamped.insert (stamped : c.Stamped past) (hash : UInt64) (entry : Entry) :
    (c.insert hash entry).Stamped (past ++ [hash]) := by
  apply stamped.raise rfl
  intro p member
  simp only [PrefixCache.insert, List.mem_cons, List.mem_filter, decide_eq_true_eq] at member
  rcases member with rfl | ⟨old, other⟩
  · exact .inl ⟨rfl, rfl⟩
  · exact .inr ⟨other, old⟩

theorem Stamped.touch (stamped : c.Stamped past) (hash : UInt64) :
    (c.touch hash).Stamped (past ++ [hash]) := by
  apply stamped.raise rfl
  intro p member
  obtain ⟨q, old, rfl⟩ := List.mem_map.mp member
  by_cases same : q.1 = hash
  · rw [if_pos same]
    exact .inl ⟨same, rfl⟩
  · rw [if_neg same]
    exact .inr ⟨same, old⟩

/-- A lookup misses and changes nothing, or it touches the key of the entry that it returns. -/
theorem findLongestFrom_touches (tokens : List Token) (blockSize nb : Nat) :
    c.findLongestFrom tokens blockSize nb = (none, c) ∨
      ∃ entry, c.findLongestFrom tokens blockSize nb =
        (some entry, c.touch (hashPrefix tokens entry.nTokens)) := by
  induction nb with
  | zero => exact .inl rfl
  | succ nb ih =>
    rw [findLongestFrom]
    split
    · rename_i record found
      split
      · rename_i covers
        exact .inr ⟨record.entry, by rw [covers]⟩
      · exact ih
    · exact ih

theorem findLongest_touches (tokens : List Token) (blockSize : Nat) :
    c.findLongest tokens blockSize = (none, c) ∨
      ∃ entry, c.findLongest tokens blockSize =
        (some entry, c.touch (hashPrefix tokens entry.nTokens)) := by
  rw [findLongest]
  split
  · exact .inl rfl
  · exact findLongestFrom_touches ..

theorem Stamped.call (stamped : c.Stamped past) {made : Call} (called : c.call made = (touched, c')) :
    c'.Stamped (past ++ touched) := by
  cases made with
  | insert hash entry =>
    cases called
    exact stamped.insert hash entry
  | retain hash slot nTokens blocks prompt =>
    cases called
    exact stamped.insert hash _
  | findLongest tokens blockSize =>
    rw [PrefixCache.call] at called
    rcases c.findLongest_touches tokens blockSize with missed | ⟨entry, hit⟩
    · rw [missed] at called
      cases called
      rwa [List.append_nil]
    · rw [hit] at called
      cases called
      exact stamped.touch _
  | takeDonorSlot =>
    cases called
    rw [List.append_nil, takeDonorSlot]
    split
    · exact stamped
    · exact stamped.mono rfl (List.Subset.refl _)
  | evictSequence seq =>
    cases called
    rw [List.append_nil]
    exact stamped.mono rfl (List.filter_subset_self _)
  | evictLruRetained =>
    cases called
    rw [List.append_nil, PrefixCache.evictLruRetained]
    split
    · exact stamped
    · exact stamped.mono rfl (fun _ => List.mem_of_mem_filter)

theorem stamped_run (run : histories.Run past c) : c.Stamped past := by
  apply run.invariant fun past c => c.Stamped past
  · rintro c ⟨first, count, rfl⟩
    exact ⟨rfl, by simp [configureDonors], by simp [configureDonors]⟩
  · rintro past c touched c' stamped (⟨rfl, reordered⟩ | ⟨made, called⟩)
    · rw [List.append_nil]
      exact stamped.mono reordered.tick reordered.entries.subset
    · exact stamped.call called

/-! ## The victim -/

theorem mem_pairs {p : UInt64 × Record} (member : p ∈ c.entries) : (p.1, p.2.entry) ∈ c.pairs :=
  List.mem_map.mpr ⟨p, member, rfl⟩

theorem exists_record {p : UInt64 × Entry} (member : p ∈ c.pairs) :
    ∃ record, (p.1, record) ∈ c.entries ∧ record.entry = p.2 := by
  obtain ⟨q, there, rfl⟩ := List.mem_map.mp member
  exact ⟨q.2, there, rfl⟩

/-- A donor sits under this key, and the last touch of every other donor's key is later. -/
def Oldest (past : List UInt64) (c : PrefixCache) (hash : UInt64) : Prop :=
  (∃ entry, (hash, entry) ∈ c.pairs ∧ entry.retained = true) ∧
    ∀ p ∈ c.pairs, p.2.retained = true → p.1 ≠ hash → Recency.Older past hash p.1

/-- A retained record of the smallest stamp sits under the oldest key. -/
theorem Stamped.oldest (stamped : c.Stamped past) {victim : UInt64 × Record}
    (found : lruVictim c.entries = some victim) : c.Oldest past victim.1 := by
  obtain ⟨member, kept⟩ := lruVictim_mem found
  refine ⟨⟨_, mem_pairs member, kept⟩, ?_⟩
  intro p inside donor other
  obtain ⟨record, there, same⟩ := exists_record inside
  have candidate : (p.1, record) ∈ c.entries.filter (·.2.entry.retained) :=
    List.mem_filter.mpr ⟨there, by rw [same]; exact donor⟩
  rw [lruVictim_eq_argmin] at found
  have least := List.le_of_mem_argmin (f := (·.2.lastUsed)) candidate found
  rw [stamped.stamps victim member, stamped.stamps _ there] at least
  have used := stamped.touched victim member
  apply (Recency.older_iff_stamp_lt used).mpr
  -- equal stamps would mean equal keys
  exact Nat.lt_of_le_of_ne least fun same => other (Recency.eq_of_stamp_eq used same).symm

/-- There is one oldest key at most. -/
theorem Stamped.oldest_unique (stamped : c.Stamped past) {hash other : UInt64}
    (oldest : c.Oldest past hash) (also : c.Oldest past other) : other = hash := by
  obtain ⟨⟨entry, member, kept⟩, first⟩ := oldest
  obtain ⟨⟨entry', member', kept'⟩, first'⟩ := also
  obtain ⟨_, there, _⟩ := exists_record member
  obtain ⟨_, there', _⟩ := exists_record member'
  by_contra differ
  have less := (Recency.older_iff_stamp_lt (stamped.touched _ there)).mp (first _ member' kept' differ)
  have more := (Recency.older_iff_stamp_lt (stamped.touched _ there')).mp
    (first' _ member kept (Ne.symm differ))
  simp only at less more
  omega

theorem evictLruRetained_eq_none_iff :
    c.evictLruRetained = none ↔ ∀ p ∈ c.pairs, p.2.retained = false := by
  refine ⟨evictLruRetained_eq_none, fun live => ?_⟩
  have none : lruVictim c.entries = none := by
    apply lruVictim_eq_none.mpr
    exact fun p member => live _ (mem_pairs member)
  rw [evictLruRetained, none]

/-- What is evicted is the donor under the oldest key, and the other entries stay. -/
theorem Stamped.evictLruRetained (stamped : c.Stamped past) {entry : Entry}
    (evicted : c.evictLruRetained = some (entry, c')) :
    ∃ hash, (hash, entry) ∈ c.pairs ∧ c.Oldest past hash ∧
      c'.entries = c.entries.filter (·.1 ≠ hash) ∧
      c' = { c with
        entries := c'.entries
        keysNodup := c'.keysNodup
        freeDonorSlots := entry.seq :: c.freeDonorSlots } := by
  simp only [PrefixCache.evictLruRetained] at evicted
  split at evicted
  · cases evicted
  · rename_i victim found
    cases evicted
    exact ⟨victim.1, mem_pairs (lruVictim_mem found).1, stamped.oldest found, rfl, rfl⟩

theorem Oldest.reordered (reordered : c.Reordered d) {hash : UInt64} (oldest : c.Oldest past hash) :
    d.Oldest past hash := by
  have same : d.pairs.Perm c.pairs := reordered.entries.map _
  obtain ⟨⟨entry, member, kept⟩, first⟩ := oldest
  exact ⟨⟨entry, same.mem_iff.mpr member, kept⟩, fun p inside => first p (same.mem_iff.mp inside)⟩

/-- The order of iteration does not show in what is evicted. -/
theorem Stamped.evictLruRetained_reordered (stamped : c.Stamped past) (reordered : c.Reordered d) :
    Option.Rel (fun out out' => out'.1 = out.1 ∧ out.2.Reordered out'.2) c.evictLruRetained
      d.evictLruRetained := by
  have pairs : d.pairs.Perm c.pairs := reordered.entries.map _
  have stamped' := stamped.mono reordered.tick reordered.entries.subset
  cases evicted : c.evictLruRetained with
  | none =>
    have live := evictLruRetained_eq_none evicted
    rw [evictLruRetained_eq_none_iff.mpr fun p member => live p (pairs.mem_iff.mp member)]
    exact .none
  | some out =>
    obtain ⟨entry, c'⟩ := out
    obtain ⟨hash, member, oldest, left, frame⟩ := stamped.evictLruRetained evicted
    cases evicted' : d.evictLruRetained with
    | none =>
      have live := evictLruRetained_eq_none evicted'
      obtain ⟨⟨donor, there, kept⟩, _⟩ := oldest
      rw [live _ (pairs.mem_iff.mpr there)] at kept
      cases kept
    | some out' =>
      obtain ⟨entry', d'⟩ := out'
      obtain ⟨hash', member', oldest', left', frame'⟩ := stamped'.evictLruRetained evicted'
      -- both keys are the oldest one, and a key has one entry
      have key : hash' = hash := stamped'.oldest_unique (oldest.reordered reordered) oldest'
      rw [key] at member' left'
      have entries : entry' = entry := by
        have once := List.inj_on_of_nodup_map d.pairs_keys_nodup member' (pairs.mem_iff.mpr member) rfl
        exact congrArg Prod.snd once
      refine .some ⟨entries, ?_⟩
      rw [frame, frame']
      constructor
      · simp only [left, left']
        exact reordered.entries.filter _
      · simp only [entries, reordered.freeDonorSlots]
      · exact reordered.firstDonorSlot
      · exact reordered.donorCapacity
      · exact reordered.tick

/-- After any history of calls, `evict_lru_retained` returns nothing exactly if there is no donor.
    Otherwise it returns and removes the one donor whose last touch is the oldest, and leaves the
    other entries with their stamps as they are.  The order in which the map is iterated does
    not matter.  A tick has counted the touches. -/
theorem lru_eviction (past : List UInt64) (c : PrefixCache) (run : histories.Run past c) :
    (c.evictLruRetained = none ↔ ∀ p ∈ c.pairs, p.2.retained = false) ∧
    (∀ entry c', c.evictLruRetained = some (entry, c') →
      ∃ hash, (hash, entry) ∈ c.pairs ∧ entry.retained = true ∧ hash ∈ past ∧ c.Oldest past hash ∧
        (∀ other, c.Oldest past other → other = hash) ∧
        c'.entries = c.entries.filter (·.1 ≠ hash)) ∧
    (∀ d, c.Reordered d → Option.Rel (fun out out' => out'.1 = out.1 ∧ out.2.Reordered out'.2)
      c.evictLruRetained d.evictLruRetained) ∧
    c.tick = past.length ∧ ∀ p ∈ c.entries, p.2.lastUsed ≤ c.tick := by
  have stamped := stamped_run run
  refine ⟨evictLruRetained_eq_none_iff, ?_, fun d => stamped.evictLruRetained_reordered,
    stamped.tick, ?_⟩
  · intro entry c' evicted
    obtain ⟨_, _, kept, _⟩ := evictLruRetained_eq_some evicted
    obtain ⟨hash, member, oldest, left, _⟩ := stamped.evictLruRetained evicted
    obtain ⟨record, there, _⟩ := exists_record member
    exact ⟨hash, member, kept, stamped.touched _ there, oldest,
      fun _ => stamped.oldest_unique oldest, left⟩
  · intro p member
    rw [stamped.stamps p member, stamped.tick]
    exact Nat.sub_le _ _

/-- Two donors of one block each, the first of which is then looked up. -/
def warming : List Call :=
  [.retain (hashPrefix [1, 2] 2) 4 2 [0] [1, 2], .retain (hashPrefix [3, 4] 2) 5 2 [1] [3, 4],
    .findLongest [1, 2, 7] 2]

/-- The lookup has saved the older donor. -/
theorem lru_eviction_warm : ∃ past c, histories.Run past c ∧ c.pairs.length = 2 ∧
    ∃ entry c', c.evictLruRetained = some (entry, c') ∧ entry.seq = 5 ∧
      ∃ hash, (hash, entry) ∈ c.pairs ∧ entry.retained = true ∧ hash ∈ past ∧ c.Oldest past hash ∧
        (∀ other, c.Oldest past other → other = hash) ∧
        c'.entries = c.entries.filter (·.1 ≠ hash) := by
  have start : histories.Run [] (({} : PrefixCache).configureDonors 4 2) := .start ⟨4, 2, rfl⟩
  have run := run_replay ([], _) start warming
  obtain ⟨⟨entry, c'⟩, evicted, second⟩ := (Option.any_eq_true (·.1.seq = 5)
    (replay ([], ({} : PrefixCache).configureDonors 4 2) warming).2.evictLruRetained).mp (by decide +kernel)
  exact ⟨_, _, run, by decide +kernel, entry, c', evicted, of_decide_eq_true second,
    (lru_eviction _ _ run).2.1 entry c' evicted⟩

end PrefixCache

end MicroVllm
