import MicroVllm.Scheduler.Tables

/-! # What a lookup finds

A prompt is published, and left with a donor, under one key: the hash of all its whole blocks.
A lookup tries every number of whole blocks of its own prompt, but the entry answers to one of
them only.  So a prompt that shares all whole blocks with the cached one finds them, and one that
shares fewer finds nothing.
-/

namespace MicroVllm

namespace PrefixCache

variable {c : PrefixCache} {hash : UInt64} {entry : Entry}

/-- In a cache with one entry a key finds that entry or nothing. -/
theorem find?_of_single (only : c.pairs = [(hash, entry)]) {key : UInt64} {record : Record}
    (found : c.find? key = some record) : key = hash ∧ record.entry = entry := by
  have member := find?_eq_some found
  rw [only, List.mem_singleton, Prod.mk.injEq] at member
  exact member

theorem find?_single (only : c.pairs = [(hash, entry)]) :
    ∃ record, c.find? hash = some record ∧ record.entry = entry := by
  cases found : c.find? hash with
  | none =>
    have member : (hash, entry) ∈ c.pairs := by rw [only]; exact List.mem_cons_self
    exact absurd rfl (find?_eq_none found _ member)
  | some record => exact ⟨record, rfl, (find?_of_single only found).2⟩

/-- The scan passes over all longer prefixes and stops at the one the entry covers. -/
theorem findLongestFrom_single (only : c.pairs = [(hash, entry)]) {tokens : List Token}
    {blockSize k nb : Nat} (sized : 0 < blockSize) (covers : entry.nTokens = k * blockSize)
    (key : hash = hashPrefix tokens entry.nTokens) (positive : 0 < k) (upward : k ≤ nb)
    (within : nb * blockSize < 2 ^ 32) : (c.findLongestFrom tokens blockSize nb).1 = some entry := by
  induction nb with
  | zero => omega
  | succ nb ih =>
    have whole : toUint32 ((nb + 1) * blockSize) = (nb + 1) * blockSize := toUint32_of_lt within
    have less : nb * blockSize < 2 ^ 32 := by
      have step : nb * blockSize ≤ (nb + 1) * blockSize := Nat.mul_le_mul_right _ (Nat.le_succ nb)
      omega
    simp only [findLongestFrom, whole]
    by_cases here : k = nb + 1
    · subst here
      rw [← covers, ← key]
      obtain ⟨record, found, same⟩ := find?_single only
      rw [found]
      simp [same]
    · have longer : (nb + 1) * blockSize ≠ entry.nTokens := by
        rw [covers]
        intro same
        exact here (Nat.eq_of_mul_eq_mul_right sized same).symm
      split
      · rename_i record found
        rw [(find?_of_single only found).2, if_neg (Ne.symm longer)]
        exact ih (by omega) less
      · exact ih (by omega) less

/-- A lookup in a cache with one entry, filed under all whole blocks of its prompt: the first `k`
    blocks of that prompt are found for every prompt that starts with them, if and only if there
    are no more. -/
theorem findLongest_single_iff (only : c.pairs = [(hash, entry)]) {blockSize k : Nat} (sized : 0 < blockSize)
    (covers : entry.nTokens = entry.prompt.length / blockSize * blockSize)
    (key : hash = hashPrefix entry.prompt entry.nTokens) (small : entry.prompt.length < 2 ^ 32)
    (positive : 1 ≤ k) (within : k * blockSize ≤ entry.prompt.length) :
    (∀ tokens : List Token, tokens.length < 2 ^ 32 → k * blockSize ≤ tokens.length →
        tokens.take (k * blockSize) = entry.prompt.take (k * blockSize) →
        ∃ found, (c.findLongest tokens blockSize).1 = some found ∧ k * blockSize ≤ found.nTokens) ↔
      entry.prompt.length < (k + 1) * blockSize := by
  constructor
  · -- the shared blocks alone are a prompt that starts with them
    intro all
    have length : (entry.prompt.take (k * blockSize)).length = k * blockSize := List.length_take_of_le within
    obtain ⟨found, hit, _⟩ := all (entry.prompt.take (k * blockSize)) (by omega) (by omega)
      (by rw [List.take_take, Nat.min_self])
    obtain ⟨_, spec⟩ := c.findLongest_spec (entry.prompt.take (k * blockSize)) blockSize (by omega)
    obtain ⟨member, _, most⟩ := spec found hit
    rw [only, List.mem_singleton, Prod.mk.injEq] at member
    rw [member.2, covers, length] at most
    have few : entry.prompt.length / blockSize < k + 1 :=
      Nat.lt_succ_of_le (Nat.le_of_mul_le_mul_right most sized)
    exact (Nat.div_lt_iff_lt_mul sized).mp few
  · intro less tokens short long agree
    have blocks : entry.prompt.length / blockSize = k := by
      apply Nat.le_antisymm
      · exact Nat.le_of_lt_succ ((Nat.div_lt_iff_lt_mul sized).mpr less)
      · exact (Nat.le_div_iff_mul_le sized).mpr within
    rw [blocks] at covers
    have upward : k ≤ tokens.length / blockSize := (Nat.le_div_iff_mul_le sized).mpr long
    have whole : tokens.length / blockSize * blockSize ≤ tokens.length := Nat.div_mul_le_self _ _
    have cast : toUint32 (tokens.length / blockSize) = tokens.length / blockSize := by
      apply toUint32_of_lt
      exact Nat.lt_of_le_of_lt (Nat.div_le_self _ _) short
    refine ⟨entry, ?_, Nat.le_of_eq covers.symm⟩
    have some : tokens ≠ [] := by
      rintro rfl
      have : 0 < k * blockSize := Nat.mul_pos positive sized
      simp at long
      omega
    rw [findLongest, if_neg (by simp [some]; omega), cast]
    apply findLongestFrom_single only sized covers _ positive upward (by omega)
    rw [key, hashPrefix, hashPrefix, covers, agree]

end PrefixCache

/-- From every state a server can reach in which the cache holds one prompt, published or left with
    a donor: the first `k` blocks of that prompt are found for every prompt that starts with them,
    if and only if they are all its whole blocks. -/
theorem shared_prefix_found {σ : Type} (w : World σ) (config : SchedulerConfig) (capacity : Nat) (world : σ)
    (past : List Event) (s : Server (Continuous σ))
    (run : (Server.continuous w config capacity world).Run past s) (hash : UInt64) (entry : Entry)
    (only : s.thread.prefixCache.pairs = [(hash, entry)]) (k : Nat) (positive : 1 ≤ k)
    (within : k * s.thread.blocks.blockSize ≤ entry.prompt.length) :
    (∀ tokens : List Token, tokens.length < 2 ^ 32 → k * s.thread.blocks.blockSize ≤ tokens.length →
        tokens.take (k * s.thread.blocks.blockSize) = entry.prompt.take (k * s.thread.blocks.blockSize) →
        ∃ found, (s.thread.prefixCache.findLongest tokens s.thread.blocks.blockSize).1 = some found ∧
          k * s.thread.blocks.blockSize ≤ found.nTokens) ↔
      entry.prompt.length < (k + 1) * s.thread.blocks.blockSize := by
  have size := (Server.pool_run run).2
  have sized := config.construct_blockSize_pos w.caps
  obtain ⟨_, key, whole, author, _, source⟩ :=
    (Server.filed_run run).1 (hash, entry) (by rw [only]; exact List.mem_cons_self)
  have small : entry.prompt.length < 2 ^ 32 := by
    rw [show entry.prompt = _ from source]
    exact Nat.lt_trans (w.tokenize_length _ _) (by decide)
  simp only [Scheduler.wholeTokens, toUint32_of_lt small] at whole
  rw [size] at within ⊢
  exact PrefixCache.findLongest_single_iff only sized whole key small positive within

/-- A prompt of one block has been published: it is found by a longer prompt that starts with it. -/
theorem shared_prefix_found_letter :
    ∃ past s hash entry, (Server.continuous Script.letter.world (.single 2) 4 fun _ => none).Run past s ∧
      s.thread.active ≠ [] ∧ s.thread.prefixCache.pairs = [(hash, entry)] ∧ entry.prompt = [1, 2] ∧
      ∃ found, (s.thread.prefixCache.findLongest [1, 2, 7, 8, 9] s.thread.blocks.blockSize).1 = some found ∧
        2 ≤ found.nTokens := by
  obtain ⟨past, s, run, active, single, prompts, size⟩ : ∃ past s,
      (Server.continuous Script.letter.world (.single 2) 4 fun _ => none).Run past s ∧
      (s.thread.active ≠ [] ∧ s.thread.prefixCache.pairs.length = 1 ∧
        s.thread.prefixCache.pairs.map (fun p => p.2.prompt) = [[1, 2]] ∧ s.thread.blocks.blockSize = 2) :=
    Server.exists_run ([.push { id := 0, spec := { prompt := [1, 2], maxTokens := 4 } }] ++
      List.replicate 8 .run) rfl rfl (by decide +kernel)
  obtain ⟨⟨hash, entry⟩, only⟩ := List.length_eq_one_iff.mp single
  have prompt : entry.prompt = [1, 2] := by simpa [only] using prompts
  have found := (shared_prefix_found _ _ _ _ past s run hash entry only 1 (by decide)
    (by simp [size, prompt])).mpr (by simp [size, prompt]) [1, 2, 7, 8, 9] (by decide) (by simp [size])
    (by simp [size, prompt])
  rw [size] at found
  exact ⟨past, s, hash, entry, run, active, only, prompt, by rwa [size]⟩

/-- A prompt of two blocks has been published.  A prompt that shares the first of them finds
    nothing. -/
theorem shared_prefix_missed_letter :
    ∃ past s hash entry, (Server.continuous Script.letter.world (.single 2) 4 fun _ => none).Run past s ∧
      s.thread.active ≠ [] ∧ s.thread.prefixCache.pairs = [(hash, entry)] ∧ entry.prompt = [1, 2, 3, 4] ∧
      s.thread.blocks.blockSize = 2 ∧
      (s.thread.prefixCache.findLongest [1, 2, 7, 8] s.thread.blocks.blockSize).1 = none := by
  obtain ⟨past, s, run, active, single, prompts, size, missed⟩ : ∃ past s,
      (Server.continuous Script.letter.world (.single 2) 4 fun _ => none).Run past s ∧
      (s.thread.active ≠ [] ∧ s.thread.prefixCache.pairs.length = 1 ∧
        s.thread.prefixCache.pairs.map (fun p => p.2.prompt) = [[1, 2, 3, 4]] ∧
        s.thread.blocks.blockSize = 2 ∧
        (s.thread.prefixCache.findLongest [1, 2, 7, 8] s.thread.blocks.blockSize).1 = none) :=
    Server.exists_run ([.push { id := 0, spec := { prompt := [1, 2, 3, 4], maxTokens := 4 } }] ++
      List.replicate 8 .run) rfl rfl (by decide +kernel)
  obtain ⟨⟨hash, entry⟩, only⟩ := List.length_eq_one_iff.mp single
  have prompt : entry.prompt = [1, 2, 3, 4] := by simpa [only] using prompts
  exact ⟨past, s, hash, entry, run, active, only, prompt, size, missed⟩

end MicroVllm
