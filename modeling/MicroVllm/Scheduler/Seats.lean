import Mathlib.Data.List.Pairwise
import MicroVllm.Scheduler.Books
import MicroVllm.Scheduler.Orderly

/-! # Jobs and their slots

What a move does to one job together with what its slot holds.  A `Seat` is a job, the
step it waits for if it has been sampled for, and the contents of its slot; `Stage` lists
the ways a seat can change, and `EntryStage` where a cache entry and the contents it names
can come from.  An invariant about KV contents is checked stage by stage, and never has to
look at the other slots.
-/

namespace MicroVllm

/-! ## Contents of one slot -/

namespace Slot

variable {α : Type}

/-- A slot after its items of a batch. -/
def feed (kind : CellKind α) (items : List BatchItem) (slot : Slot α) : Slot α :=
  { slot with cells := slot.cells ++ (items.flatMap (·.tokens)).map kind.fed }

/-- A slot after the first `n` positions of another have been copied to it. -/
def inherit (kind : CellKind α) (source : Option (Slot α)) (n : Nat) (slot : Slot α) : Slot α :=
  match source with
  | some source => { slot with cells := (source.cells.take n).map kind.copied }
  | none => slot

end Slot

namespace Kv

variable {α : Type} {kind : CellKind α} {kv : Kv α}

theorem feed_apply (items : List BatchItem) (slot : Nat) :
    kv.feed kind items slot = (kv slot).map (Slot.feed kind (itemsOf slot items)) := rfl

theorem copy_apply (src dst : Nat) (n : Int) :
    kv.copy kind src dst n dst = (kv dst).map (Slot.inherit kind (kv src) n.toNat) := if_pos rfl

end Kv

/-! ## Seats -/

/-- The step that a slot waits for: none if it has not been sampled for, and possibly none
    either if the engine returned too few. -/
def dueIn (slot : Nat) : List Nat → List GenStep → Option (Option GenStep)
  | [], _ => none
  | owner :: sampling, steps => if owner = slot then some steps.head? else dueIn slot sampling steps.tail

def Pc.due (slot : Nat) : Pc → Option (Option GenStep)
  | .accept sampling steps _ => dueIn slot sampling steps
  | _ => none

theorem dueIn_of_not_mem {slot : Nat} {sampling : List Nat} (missing : slot ∉ sampling)
    (steps : List GenStep) : dueIn slot sampling steps = none := by
  induction sampling generalizing steps with
  | nil => rfl
  | cons owner sampling ih =>
    rw [List.mem_cons, not_or] at missing
    rw [dueIn, if_neg (Ne.symm missing.1)]
    exact ih missing.2 _

theorem dueIn_ne_none {slot : Nat} {sampling : List Nat} (sampled : slot ∈ sampling)
    (steps : List GenStep) : dueIn slot sampling steps ≠ none := by
  induction sampling generalizing steps with
  | nil => cases sampled
  | cons owner sampling ih =>
    rw [dueIn]
    split
    · simp
    · rename_i other
      exact ih ((List.mem_cons.mp sampled).resolve_left fun same => other same.symm) _

/-- A step that is due stands where the slot stands among the sampled ones. -/
theorem dueIn_eq_some {slot : Nat} {sampling : List Nat} {steps : List GenStep} {step : Option GenStep}
    (due : dueIn slot sampling steps = some step) :
    ∃ i : Nat, sampling[i]? = some slot ∧ steps[i]? = step := by
  induction sampling generalizing steps with
  | nil => cases due
  | cons owner sampling ih =>
    rw [dueIn] at due
    split at due
    · rename_i here
      cases due
      exact ⟨0, by simp [here], by cases steps <;> rfl⟩
    · obtain ⟨i, owns, answers⟩ := ih due
      refine ⟨i + 1, owns, ?_⟩
      cases steps with
      | nil => simpa using answers
      | cons => exact answers

/-- A step is due for exactly the slots with an item that samples. -/
theorem dueIn_asked (items : List BatchItem) (slot : Nat) (steps : List GenStep) :
    dueIn slot ((items.filter (·.sample)).map (·.seq)) steps ≠ none ↔
      ∃ item ∈ itemsOf slot items, item.sample = true := by
  constructor
  · intro asked
    by_contra nobody
    apply asked
    apply dueIn_of_not_mem
    intro sampled
    obtain ⟨item, inside, owner⟩ := List.mem_map.mp sampled
    obtain ⟨submitted, samples⟩ := List.mem_filter.mp inside
    exact nobody ⟨item, List.mem_filter.mpr ⟨submitted, by simpa using owner⟩, samples⟩
  · rintro ⟨item, inside, samples⟩
    obtain ⟨submitted, owner⟩ := List.mem_filter.mp inside
    apply dueIn_ne_none
    exact List.mem_map.mpr ⟨item, List.mem_filter.mpr ⟨submitted, samples⟩, by simpa using owner⟩

structure Seat (α : Type) where
  job : Job
  due : Option (Option GenStep)
  held : Option (Slot α)

/-- A job that the exception path has been over. -/
def Job.failed (message : String) (job : Job) : Job :=
  if job.state.finished then job else { job with state := job.state.fail message }

namespace Continuous

variable {σ α : Type} {w : World σ} {config : SchedulerConfig} {kind : CellKind α}

def seat (T : Tracker w kind) (past : List Event) (s : Continuous σ) (job : Job) : Seat α where
  job := job
  due := s.pc.due job.state.seq
  held := T.contents past s.port job.state.seq

/-- The log moves from the port into the history. -/
theorem contents_quiet (T : Tracker w kind) (past : List Event) (s : Continuous σ) :
    T.contents (past ++ s.port.log) s.quiet.port = T.contents past s.port := by
  simp [Tracker.contents, quiet]

theorem seat_quiet (T : Tracker w kind) (past : List Event) (s : Continuous σ) (job : Job) :
    s.quiet.seat T (past ++ s.port.log) job = s.seat T past job := by
  rw [seat, seat, contents_quiet]
  rfl

/-- The next turn leaves the try block: the decode throws, or a step is missing. -/
def tryFails (w : World σ) (config : SchedulerConfig) (s : Continuous σ) : Bool :=
  match s.pc with
  | .build =>
    let items := (buildBatch w.caps.nBatch config s.active).items
    items ≠ [] && !(s.port.decode w items).1.isOk
  | .accept (_ :: _) [] _ => true
  | _ => false

end Continuous

/-- What a move can do to a seat.  `A` is what the engine may answer for the contents of a
    slot, `keeps` whether a decode that throws leaves the contents alone, `s` the thread
    before the move and `kv` the contents. -/
inductive Stage {σ α : Type} (w : World σ) (config : SchedulerConfig) (kind : CellKind α)
    (A : Slot α → GenStep → Prop) (keeps : Prop) (s : Continuous σ) (kv : Kv α) :
    Seat α → Seat α → Prop where
  | stay {seat} : Stage w config kind A keeps s kv seat seat
  | grow {job due held table} (unfinished : job.state.finished = false)
      (shared : table.sharedPrefixTokens = job.blocks.sharedPrefixTokens) :
      Stage w config kind A keeps s kv ⟨job, due, held⟩ ⟨{ job with blocks := table }, due, held⟩
  | adopt {request slot table held hit} (pc : s.pc = .reserve (Scheduler.newJob w request slot))
      (caching : config.prefixCaching = true)
      (enters : s.Enters (Scheduler.newJob w request slot))
      (found : (PrefixCache.hashPrefix (w.tokenize request.spec.prompt true) hit.nTokens, hit) ∈
        s.prefixCache.pairs)
      (positive : 0 < hit.nTokens) (within : hit.nTokens ≤ (w.tokenize request.spec.prompt true).length) :
      Stage w config kind A keeps s kv ⟨Scheduler.newJob w request slot, none, held⟩
        ⟨Continuous.inherit (Scheduler.newJob w request slot) table hit, none,
          held.map (Slot.inherit kind (kv hit.seq) hit.nTokens)⟩
  | serve {job job' items due held} (pc : s.pc = .build) (member : job ∈ s.active)
      (served : Served job job' items)
      (asked : due ≠ none ↔ ∃ item ∈ items, item.sample = true)
      (answer : ∀ step slot, due = some (some step) → held.map (Slot.feed kind items) = some slot →
        A slot step) :
      Stage w config kind A keeps s kv ⟨job, none, held⟩
        ⟨job', due, held.map (Slot.feed kind items)⟩
  | spoil {job job' items held held' message} (fails : s.tryFails w config = true) (member : job ∈ s.active)
      (served : Served job job' items) (kept : keeps → held' = held) :
      Stage w config kind A keeps s kv ⟨job, none, held⟩ ⟨job'.failed message, none, held'⟩
  | drop {job due held message} (fails : s.tryFails w config = true) (member : job ∈ s.active) :
      Stage w config kind A keeps s kv ⟨job, due, held⟩ ⟨job.failed message, none, held⟩
  | goOn {job step state held table} (through : job.state.prefilling = false)
      (accepts : job.state.Accepts w step true state)
      (shared : table.sharedPrefixTokens = job.blocks.sharedPrefixTokens) :
      Stage w config kind A keeps s kv ⟨job, some (some step), held⟩
        ⟨{ job with state := state, blocks := table }, none, held⟩
  | stop {job step state held port} (through : job.state.prefilling = false)
      (accepts : job.state.Accepts w step false state) :
      Stage w config kind A keeps s kv ⟨job, some (some step), held⟩
        ⟨{ job with state := (state.finish w port).1 }, none, held⟩
  | overflow {job held message port} (through : job.state.prefilling = false)
      (unfinished : job.state.finished = false)
      (large : s.blocks.total < s.blocks.blocksFor job.needed) :
      Stage w config kind A keeps s kv ⟨job, none, held⟩
        ⟨{ job with state := ((job.state.fail message .contextOverflow).finish w port).1 }, none, held⟩

/-- Where an entry and the contents of its slot come from. -/
inductive EntryStage {σ α : Type} (w : World σ) (config : SchedulerConfig) (kind : CellKind α)
    (keeps : Prop) (s s' : Continuous σ) (kv kv' : Kv α) (p : UInt64 × Entry) : Prop where
  | old (member : p ∈ s.prefixCache.pairs) (held : kv' p.2.seq = kv p.2.seq)
  | fed {items} (member : p ∈ s.prefixCache.pairs)
      (held : kv' p.2.seq = (kv p.2.seq).map (Slot.feed kind items))
  | spoiled (member : p ∈ s.prefixCache.pairs) (held : keeps → kv' p.2.seq = kv p.2.seq)
  | published {job} (member : job ∈ s'.active) (offers : Continuous.Offers config job config.blockSize)
      (entry : p = (Continuous.offerHash job config.blockSize, job.offer config.blockSize))
  | kept {job slot} (member : job ∈ s.active) (finished : job.state.finished = true)
      (backed : 0 < job.blocks.nBlocks)
      (entry : p = (Scheduler.keptHash config job, Scheduler.keptEntry config job slot))
      (held : kv' slot = some (Slot.inherit kind (kv job.state.seq)
        (Scheduler.wholeTokens config job.state.prompt) { params := {}, cells := [] }))

/-! ## Slots that a move leaves alone -/

section Frames

variable {σ α : Type} {w : World σ} {config : SchedulerConfig} {kind : CellKind α}
variable (T : Tracker w kind) {past : List Event}
variable {held lostBlocks lostSlots : List Nat} {m m' : Scheduler σ}

/-- A batch slot is no donor slot. -/
theorem not_donorSlot {slot : Nat} (batch : slot < config.maxBatchSize) : slot ∉ donorSlots config := by
  intro donor
  have above := mem_donorSlots donor
  omega

namespace Ledger

/-- Two donors in one slot are one. -/
theorem retained_inj {a : BlockAllocator} {c : PrefixCache}
    (ledger : Ledger config a c held lostBlocks lostSlots) {p p' : UInt64 × Entry}
    (member : p ∈ c.pairs) (member' : p' ∈ c.pairs) (kept : p.2.retained = true)
    (kept' : p'.2.retained = true) (same : p.2.seq = p'.2.seq) : p = p' := by
  have nodup := ledger.donors.nodup_iff.mpr (donorSlots_nodup config)
  have named : c.donorsNamed.Nodup := (List.nodup_append.mp (List.nodup_append.mp nodup).2.1).1
  have apart := (List.nodup_flatMap.mp named).2
  have symm : Std.Symm (Function.onFun List.Disjoint PrefixCache.slotBy) := ⟨fun _ _ d => d.symm⟩
  by_contra different
  have disjoint := apart.forall member member' different
  refine disjoint (a := p.2.seq) ?_ ?_
  · simp [PrefixCache.slotBy, kept]
  · simp [PrefixCache.slotBy, kept', same]

/-- The slot taken is a donor slot. -/
theorem taken_donorSlot {slot : Nat}
    (ledger : Ledger config m.blocks m.prefixCache held lostBlocks lostSlots)
    (taken : m.takeSlot w = some (slot, m')) : slot ∈ donorSlots config := by
  refine (ledger.takeSlot taken).donors.mem_iff.mp ?_
  exact List.mem_append_right _ (List.mem_append_right _ List.mem_cons_self)

theorem contents_reclaim (ledger : Ledger config m.blocks m.prefixCache held lostBlocks lostSlots)
    (evicted : m.reclaimDonorBlocks w = some m') {slot : Nat} (batch : slot ∉ donorSlots config) :
    T.contents past m'.port slot = T.contents past m.port slot := by
  obtain ⟨donor, cache, found, _, _, after⟩ := T.contents_reclaim past evicted
  obtain ⟨hash, member, kept, _⟩ := PrefixCache.evictLruRetained_eq_some found
  rw [after]
  apply Kv.release_other
  rintro rfl
  exact batch (ledger.donor_of_retained member kept)

theorem contents_takeSlot {slot : Nat}
    (ledger : Ledger config m.blocks m.prefixCache held lostBlocks lostSlots)
    (taken : m.takeSlot w = some (slot, m')) {other : Nat} (batch : other ∉ donorSlots config) :
    T.contents past m'.port other = T.contents past m.port other := by
  simp only [Scheduler.takeSlot] at taken
  split at taken
  · cases taken
    rfl
  · split at taken
    · cases taken
    · rename_i evicted
      have reclaimed : T.contents past _ other = _ := ledger.contents_reclaim T evicted batch
      split at taken
      · cases taken
      · cases taken
        exact reclaimed

/-- Outside the donor slots, keeping a prefix changes nothing. -/
theorem contents_retains {job : Job}
    (ledger : Ledger config m.blocks m.prefixCache held lostBlocks lostSlots)
    (retains : Scheduler.Retains w config job m m') {other : Nat} (batch : other ∉ donorSlots config) :
    T.contents past m'.port other = T.contents past m.port other := by
  have apart : ∀ {slot m₁}, m.takeSlot w = some (slot, m₁) → other ≠ slot := by
    rintro slot m₁ taken rfl
    exact batch (ledger.taken_donorSlot taken)
  cases retains with
  | nothing => rfl
  | notBegun taken begins =>
    rw [T.contents_release, Kv.release_other (apart taken), T.contents_begin_error begins (apart taken)]
    exact ledger.contents_takeSlot T taken batch
  | notCopied taken begins copies =>
    rw [T.contents_release, Kv.release_other (apart taken), T.contents_copy_error copies (apart taken),
      T.contents_begin begins, Kv.begin_other (apart taken)]
    exact ledger.contents_takeSlot T taken batch
  | kept caching whole backed taken begins copies =>
    simp only [Tracker.contents_note, Event.ghost_index, Event.ghost_stat]
    rw [T.contents_copy copies, Kv.copy_other (apart taken), T.contents_begin begins,
      Kv.begin_other (apart taken)]
    exact ledger.contents_takeSlot T taken batch

/-- Outside the donor slots, retiring a job only empties its own slot. -/
theorem contents_retire {job : Job}
    (ledger : Ledger config m.blocks m.prefixCache held lostBlocks lostSlots)
    (own : job.state.seq < config.maxBatchSize) {other : Nat} (apart : other ≠ job.state.seq)
    (batch : other ∉ donorSlots config) :
    T.contents past (m.retire w config job).port other = T.contents past m.port other := by
  have sameSeq := (SequenceState.finish_same (w := w) job.state m.port).seq
  have kept : T.contents past _ other = T.contents past (m.dismiss w job).port other :=
    (ledger.dismiss own).contents_retains T (Scheduler.dismiss_retains w config job m) batch
  simp only [Scheduler.retire_eq, T.contents_deliver, T.contents_release,
    T.contents_note _ _ (Event.ghost_stat _ _)]
  rw [Kv.release_other (by rw [sameSeq]; exact apart), kept, Scheduler.dismiss_port, T.contents_finish]

/-! Entries that stay keep their contents. -/

variable (live : ∀ p ∈ m.prefixCache.pairs, p.2.retained = false → p.2.seq ∉ donorSlots config)

include live in
theorem entry_reclaim (ledger : Ledger config m.blocks m.prefixCache held lostBlocks lostSlots)
    (evicted : m.reclaimDonorBlocks w = some m') {p : UInt64 × Entry}
    (member : p ∈ m'.prefixCache.pairs) : p ∈ m.prefixCache.pairs ∧
      T.contents past m'.port p.2.seq = T.contents past m.port p.2.seq := by
  have old := Scheduler.reclaim_pairs evicted member
  refine ⟨old, ?_⟩
  cases kept : p.2.retained with
  | false => exact ledger.contents_reclaim T evicted (live p old kept)
  | true =>
    obtain ⟨donor, cache, found, cached, _, after⟩ := T.contents_reclaim past evicted
    obtain ⟨hash, named, donates, rest, _⟩ := PrefixCache.evictLruRetained_eq_some found
    rw [after]
    apply Kv.release_other
    intro same
    -- the evicted donor is the only one in its slot, and it is gone
    have equal := ledger.retained_inj old named kept donates same
    rw [cached, rest, List.mem_filter] at member
    simp [equal] at member

include live in
theorem entry_takeSlot {slot : Nat}
    (ledger : Ledger config m.blocks m.prefixCache held lostBlocks lostSlots)
    (taken : m.takeSlot w = some (slot, m')) {p : UInt64 × Entry}
    (member : p ∈ m'.prefixCache.pairs) : p ∈ m.prefixCache.pairs ∧
      T.contents past m'.port p.2.seq = T.contents past m.port p.2.seq ∧ p.2.seq ≠ slot := by
  have other : p ∈ m.prefixCache.pairs → p.2.seq ≠ slot := by
    intro old
    cases kept : p.2.retained with
    | false =>
      rintro rfl
      exact live p old kept (ledger.taken_donorSlot taken)
    | true => exact (ledger.takeSlot taken).outside_of_lost List.mem_cons_self p member kept
  simp only [Scheduler.takeSlot] at taken
  split at taken
  · rename_i popped
    cases taken
    have pairs := (PrefixCache.takeDonorSlot_eq_some popped).2.1
    have old : p ∈ m.prefixCache.pairs := pairs ▸ member
    exact ⟨old, rfl, other old⟩
  · split at taken
    · cases taken
    · rename_i evicted
      split at taken
      · cases taken
      · rename_i popped
        cases taken
        have pairs := (PrefixCache.takeDonorSlot_eq_some popped).2.1
        obtain ⟨old, same⟩ := ledger.entry_reclaim T live evicted (pairs ▸ member)
        exact ⟨old, same, other old⟩

include live in
theorem entry_retains {job : Job}
    (ledger : Ledger config m.blocks m.prefixCache held lostBlocks lostSlots)
    (retains : Scheduler.Retains w config job m m') (own : job.state.seq ∉ donorSlots config)
    {p : UInt64 × Entry} (member : p ∈ m'.prefixCache.pairs) :
    (p ∈ m.prefixCache.pairs ∧ T.contents past m'.port p.2.seq = T.contents past m.port p.2.seq) ∨
      ∃ slot, p = (Scheduler.keptHash config job, Scheduler.keptEntry config job slot) ∧
        0 < Scheduler.wholeTokens config job.state.prompt ∧
        Scheduler.wholeTokens config job.state.prompt / config.blockSize ≤ job.blocks.nBlocks ∧
        slot ≠ job.state.seq ∧
        T.contents past m'.port slot = some (Slot.inherit kind (T.contents past m.port job.state.seq)
          (toPos (Scheduler.wholeTokens config job.state.prompt)).toNat { params := {}, cells := [] }) := by
  cases retains with
  | nothing => exact .inl ⟨member, rfl⟩
  | notBegun taken begins =>
    rw [PrefixCache.evictSequence_pairs] at member
    obtain ⟨old, same, other⟩ := ledger.entry_takeSlot T live taken (List.mem_of_mem_filter member)
    refine .inl ⟨old, ?_⟩
    rw [T.contents_release, Kv.release_other other, T.contents_begin_error begins other]
    exact same
  | notCopied taken begins copies =>
    rw [PrefixCache.evictSequence_pairs] at member
    obtain ⟨old, same, other⟩ := ledger.entry_takeSlot T live taken (List.mem_of_mem_filter member)
    refine .inl ⟨old, ?_⟩
    rw [T.contents_release, Kv.release_other other, T.contents_copy_error copies other,
      T.contents_begin begins, Kv.begin_other other]
    exact same
  | @kept slot m₁ begun copied caching whole backed taken begins copies =>
    simp only [PrefixCache.insert_pairs, List.mem_cons] at member
    simp only [Tracker.contents_note, Event.ghost_index, Event.ghost_stat]
    rcases member with rfl | stays
    · have apart : job.state.seq ≠ slot := by
        rintro rfl
        exact own (ledger.taken_donorSlot taken)
      refine .inr ⟨slot, rfl, whole, backed, apart.symm, ?_⟩
      rw [T.contents_copy copies, Kv.copy_apply, T.contents_begin begins, Kv.begin_self,
        Kv.begin_other apart, ledger.contents_takeSlot T taken own]
      rfl
    · obtain ⟨old, same, other⟩ := ledger.entry_takeSlot T live taken (List.mem_of_mem_filter stays)
      refine .inl ⟨old, ?_⟩
      rw [T.contents_copy copies, Kv.copy_other other, T.contents_begin begins, Kv.begin_other other]
      exact same

include live in
theorem entry_retire {job : Job}
    (ledger : Ledger config m.blocks m.prefixCache held lostBlocks lostSlots)
    (own : job.state.seq < config.maxBatchSize) {p : UInt64 × Entry}
    (member : p ∈ (m.retire w config job).prefixCache.pairs) :
    (p ∈ m.prefixCache.pairs ∧
        T.contents past (m.retire w config job).port p.2.seq = T.contents past m.port p.2.seq) ∨
      ∃ slot, p = (Scheduler.keptHash config job, Scheduler.keptEntry config job slot) ∧
        0 < Scheduler.wholeTokens config job.state.prompt ∧
        Scheduler.wholeTokens config job.state.prompt / config.blockSize ≤ job.blocks.nBlocks ∧
        T.contents past (m.retire w config job).port slot =
          some (Slot.inherit kind (T.contents past m.port job.state.seq)
            (toPos (Scheduler.wholeTokens config job.state.prompt)).toNat { params := {}, cells := [] }) := by
  have same := SequenceState.finish_same (w := w) job.state m.port
  have outside : ∀ p ∈ (m.dismiss w job).prefixCache.pairs,
      p.2.retained = false → p.2.seq ∉ donorSlots config := by
    intro p inside
    rw [Scheduler.dismiss, PrefixCache.evictSequence_pairs] at inside
    exact live p (List.mem_of_mem_filter inside)
  have told : ∀ slot, T.contents past (m.dismiss w job).port slot = T.contents past m.port slot :=
    fun slot => congrFun (T.contents_finish past job.state m.port) slot
  simp only [Scheduler.retire_eq, T.contents_deliver, T.contents_release,
    T.contents_note _ _ (Event.ghost_stat _ _)]
  rcases (ledger.dismiss own).entry_retains T outside (Scheduler.dismiss_retains w config job m)
    (by rw [same.seq]; exact not_donorSlot own) member with
    ⟨old, kept⟩ | ⟨slot, rfl, whole, backed, apart, held⟩
  · rw [Scheduler.dismiss, PrefixCache.evictSequence_pairs, List.mem_filter] at old
    refine .inl ⟨old.1, ?_⟩
    rw [Kv.release_other (by simpa using old.2), kept, told]
  · refine .inr ⟨slot, by simp [Scheduler.keptHash, Scheduler.keptEntry, same.prompt], ?_, ?_, ?_⟩
    · simpa only [same.prompt] using whole
    · simpa only [same.prompt] using backed
    · rw [Kv.release_other apart, held, told, same.seq, same.prompt]

end Ledger

end Frames

/-! ## The seats after a move -/

namespace Continuous

variable {σ α : Type} {w : World σ} {config : SchedulerConfig} {kind : CellKind α}

/-- A seat after a move: a stage on from one before, or just taken. -/
inductive Seated (T : Tracker w kind) (past : List Event) (config : SchedulerConfig)
    (A : Slot α → GenStep → Prop) (s s' : Continuous σ) (job' : Job) : Prop where
  | staged {job} (member : job ∈ s.crew)
      (stage : Stage w config kind A T.keeps s (T.contents past s.port) (s.seat T past job)
        (s'.seat T past job'))
  | entered {request slot} (seat : s'.seat T past job' =
      ⟨Scheduler.newJob w request slot, none, some { params := request.spec.sampling, cells := [] }⟩)
      (hand : s'.pc = .reserve (Scheduler.newJob w request slot))

theorem Layout.lt_of_free {s : Continuous σ} (layout : Layout w config s) {slot : Nat}
    (free : slot ∈ s.freeSlots) : slot < config.maxBatchSize :=
  List.mem_range.mp (layout.slots.mem_iff.mp (List.mem_append_left _ free))

/-- The slot of the job in hand is free. -/
theorem Layout.hand_free {s : Continuous σ} (layout : Layout w config s) {job : Job}
    (pc : s.pc = .reserve job) : job.state.seq ∈ s.freeSlots := by
  obtain ⟨request, slot, slots, rfl, free⟩ := layout.hand job pc
  rw [Scheduler.newJob_seq, free]
  exact List.mem_cons_self

theorem Layout.lt_of_crew {s : Continuous σ} (layout : Layout w config s) {job : Job}
    (member : job ∈ s.crew) : job.state.seq < config.maxBatchSize := by
  rcases List.mem_append.mp member with active | hand
  · exact layout.lt_of_active active
  · cases pc : s.pc with
    | reserve inHand =>
      rw [pc] at hand
      cases List.mem_singleton.mp hand
      exact layout.lt_of_free (layout.hand_free pc)
    | _ => simp [pc, Pc.inHand] at hand

/-- An active job does not sit in the slot of the job in hand, or of one to come. -/
theorem Layout.ne_of_free {s : Continuous σ} (layout : Layout w config s) {job : Job} {slot : Nat}
    (active : job ∈ s.active) (free : slot ∈ s.freeSlots) : job.state.seq ≠ slot := by
  rintro rfl
  exact layout.not_active_of_free free (mem_seqs.mpr ⟨job, active, rfl⟩)

section

variable (T : Tracker w kind) {past : List Event} {A : Slot α → GenStep → Prop} {s s' : Continuous σ}

theorem seats_frame (crew : ∀ job ∈ s'.crew, job ∈ s.crew)
    (due : ∀ job ∈ s'.crew, s'.pc.due job.state.seq = s.pc.due job.state.seq)
    (held : ∀ job ∈ s'.crew,
      T.contents past s'.port job.state.seq = T.contents past s.port job.state.seq) :
    ∀ job ∈ s'.crew, Seated T past config A s s' job := by
  intro job member
  have same : s'.seat T past job = s.seat T past job := by
    rw [seat, seat, due job member, held job member]
  refine .staged (crew job member) ?_
  rw [same]
  exact .stay

/-- A move that only changes where the loop is, away from the steps that are due. -/
theorem seats_idle (active : s'.active = s.active) (hand : s'.pc.inHand = [])
    (due : ∀ slot, s'.pc.due slot = s.pc.due slot)
    (held : T.contents past s'.port = T.contents past s.port) :
    ∀ job ∈ s'.crew, Seated T past config A s s' job := by
  refine seats_frame T ?_ (fun job _ => due _) (fun job _ => by rw [held])
  intro job member
  rw [crew, active, hand, List.append_nil] at member
  exact List.mem_append_left _ member

/-- One active job moves on, and the others do not wait for its step. -/
theorem seats_around {before after : List Job} {job job' : Job}
    (here : s.active = before ++ job :: after) (nodup : (seqs s.active).Nodup)
    (active : s'.active = before ++ job' :: after) (hand : s'.pc.inHand = [])
    (due : ∀ slot, slot ≠ job.state.seq → s'.pc.due slot = s.pc.due slot)
    (held : T.contents past s'.port = T.contents past s.port)
    (stage : Stage w config kind A T.keeps s (T.contents past s.port) (s.seat T past job)
      (s'.seat T past job')) : ∀ job ∈ s'.crew, Seated T past config A s s' job := by
  intro j member
  have inside : job ∈ s.active := by rw [here]; simp
  rw [crew, active, hand, List.append_nil] at member
  rcases mem_replaced nodup here member with rfl | ⟨old, other⟩
  · exact .staged (List.mem_append_left _ inside) stage
  · apply Seated.staged (List.mem_append_left _ old)
    have same : s'.seat T past j = s.seat T past j := by rw [seat, seat, due _ other, held]
    rw [same]
    exact .stay

theorem crew_of_none (hand : s.pc.inHand = []) : s.crew = s.active := by
  rw [crew, hand, List.append_nil]

/-- What the engine may answer, of one decode. -/
def Honest (T : Tracker w kind) (past : List Event) (A : Slot α → GenStep → Prop) (port : Port σ) : Prop :=
  ∀ items steps port', port.decode w items = (.ok steps, port') →
    ∀ (i : Nat) item step, (items.filter (·.sample))[i]? = some item → steps[i]? = some step →
      ∀ slot, T.contents past port' item.seq = some slot → A slot step

variable {T} in
/-- A step that is due for a slot was answered for what the slot holds. -/
theorem Honest.due {port port' : Port σ} (honest : Honest T past A port) {items : List BatchItem}
    {steps : List GenStep} (returned : port.decode w items = (.ok steps, port')) {owner : Nat}
    {step : GenStep} {slot : Slot α}
    (due : dueIn owner ((items.filter (·.sample)).map (·.seq)) steps = some (some step))
    (held : T.contents past port' owner = some slot) : A slot step := by
  obtain ⟨i, here, answers⟩ := dueIn_eq_some due
  rw [List.getElem?_map, Option.map_eq_some_iff] at here
  obtain ⟨item, inside, rfl⟩ := here
  exact honest _ _ _ returned i item step inside answers slot held

theorem seats_decode {steps : List GenStep} {port : Port σ} (layout : Layout w config s)
    (honest : Honest T past A s.port) (pc : s.pc = .build)
    (returned : s.port.decode w (buildBatch w.caps.nBatch config s.active).items = (.ok steps, port))
    {job' : Job} (member : job' ∈ (buildBatch w.caps.nBatch config s.active).active)
    (port' : s'.port = port)
    (pc' : s'.pc = .accept (buildBatch w.caps.nBatch config s.active).sampling steps []) :
    Seated T past config A s s' job' := by
  have sampling := buildBatch_sampling w.caps.nBatch config s.active
  obtain ⟨job, active, served⟩ :=
    Lists.exists_of_forall₂_right (buildBatch_served w.caps.nBatch config layout.nodup) member
  generalize buildBatch w.caps.nBatch config s.active = batch at *
  have sameSeq : job'.state.seq = job.state.seq := served.seq_eq
  have fed : T.contents past s'.port job'.state.seq =
      (T.contents past s.port job.state.seq).map (Slot.feed kind (itemsOf job.state.seq batch.items)) := by
    rw [port', T.contents_decode returned, Kv.feed_apply, sameSeq]
  refine .staged (List.mem_append_left _ active) ?_
  have before : s.seat T past job = ⟨job, none, T.contents past s.port job.state.seq⟩ := by
    simp [seat, Pc.due, pc]
  have after : s'.seat T past job' = ⟨job', dueIn job.state.seq batch.sampling steps,
      (T.contents past s.port job.state.seq).map
        (Slot.feed kind (itemsOf job.state.seq batch.items))⟩ := by
    rw [seat, fed, pc', Pc.due, sameSeq]
  rw [before, after]
  refine .serve pc active served ?_ ?_
  · rw [sampling]
    exact dueIn_asked batch.items job.state.seq steps
  · intro step slot due held
    rw [sampling] at due
    apply honest.due returned due
    rw [← sameSeq, ← port', fed, held]

theorem seats_spoil {message : String} {port : Port σ} (layout : Layout w config s)
    (pc : s.pc = .build)
    (something : (buildBatch w.caps.nBatch config s.active).items ≠ [])
    (threw : s.port.decode w (buildBatch w.caps.nBatch config s.active).items = (.error message, port))
    {job' : Job} (member : job' ∈ (buildBatch w.caps.nBatch config s.active).active)
    (port' : s'.port = port) (pc' : s'.pc = .sweep 0 (some [])) :
    Seated T past config A s s' (job'.failed message) := by
  have fails : s.tryFails w config = true := by
    simp [tryFails, pc, something, threw, Except.isOk, Except.toBool]
  obtain ⟨job, active, served⟩ :=
    Lists.exists_of_forall₂_right (buildBatch_served w.caps.nBatch config layout.nodup) member
  have sameSeq : (job'.failed message).state.seq = job.state.seq := by
    generalize itemsOf job.state.seq _ = items at served
    cases served <;> simp only [Job.failed] <;> split <;> rfl
  refine .staged (List.mem_append_left _ active) ?_
  have before : s.seat T past job = ⟨job, none, T.contents past s.port job.state.seq⟩ := by
    simp [seat, Pc.due, pc]
  have after : s'.seat T past (job'.failed message) =
      ⟨job'.failed message, none, T.contents past s'.port job.state.seq⟩ := by
    rw [seat, sameSeq, pc']
    rfl
  rw [before, after]
  refine .spoil fails active served fun keeps => ?_
  rw [port', T.contents_decode_error keeps threw]

/-- The job at the head of the sampling list gets its step. -/
theorem seats_accept {sampling : List Nat} {step : GenStep} {steps : List GenStep}
    {grewShort grewShort' : List Nat} {before after : List Job} {job job' : Job}
    (layout : Layout w config s) (orderly : s.Orderly)
    (pc : s.pc = .accept (job.state.seq :: sampling) (step :: steps) grewShort)
    (here : s.active = before ++ job :: after) (active : s'.active = before ++ job' :: after)
    (pc' : s'.pc = .accept sampling steps grewShort') (sameSeq : job'.state.seq = job.state.seq)
    (held : T.contents past s'.port = T.contents past s.port)
    (stage : ∀ held, Stage w config kind A T.keeps s (T.contents past s.port)
      ⟨job, some (some step), held⟩ ⟨job', none, held⟩) :
    ∀ job ∈ s'.crew, Seated T past config A s s' job := by
  have once := orderly.once
  rw [pc] at once
  have gone : job.state.seq ∉ sampling := fun again =>
    (List.nodup_cons.mp once).1 (List.mem_append_left _ again)
  refine seats_around T here layout.nodup active (by rw [pc']; rfl) ?_ held ?_
  · intro slot other
    rw [pc, pc', Pc.due, Pc.due, dueIn, if_neg (Ne.symm other), List.tail_cons]
  · have before : s.seat T past job = ⟨job, some (some step), T.contents past s.port job.state.seq⟩ := by
      simp [seat, Pc.due, pc, dueIn]
    have after : s'.seat T past job' = ⟨job', none, T.contents past s.port job.state.seq⟩ := by
      rw [seat, pc', held, sameSeq, Pc.due, dueIn_of_not_mem gone]
    rw [before, after]
    exact stage _

/-- A request is taken in hand. -/
theorem seats_make {request : Request} {slot : Nat} (active : s'.active = s.active)
    (due : ∀ slot, none = s.pc.due slot) (pc' : s'.pc = .reserve (Scheduler.newJob w request slot))
    (held : ∀ j ∈ s.active, T.contents past s'.port j.state.seq = T.contents past s.port j.state.seq)
    (own : T.contents past s'.port slot = some { params := request.spec.sampling, cells := [] }) :
    ∀ job ∈ s'.crew, Seated T past config A s s' job := by
  intro j member
  rcases List.mem_append.mp member with old | hand
  · rw [active] at old
    refine .staged (List.mem_append_left _ old) ?_
    have same : s'.seat T past j = s.seat T past j := by
      rw [seat, seat, held j old, pc', ← due]
      rfl
    rw [same]
    exact .stay
  · rw [pc'] at hand
    cases List.mem_singleton.mp hand
    have seated : s'.seat T past (Scheduler.newJob w request slot) =
        ⟨Scheduler.newJob w request slot, none, some { params := request.spec.sampling, cells := [] }⟩ := by
      rw [seat, pc', Scheduler.newJob_seq, own]
      rfl
    exact .entered seated pc'

/-- The job in hand takes its place in the batch. -/
theorem seats_place {job job' : Job} (pc : s.pc = .reserve job) (active : s'.active = s.active ++ [job'])
    (pc' : s'.pc = .admitNext)
    (held : ∀ j ∈ s.active, T.contents past s'.port j.state.seq = T.contents past s.port j.state.seq)
    (stage : Stage w config kind A T.keeps s (T.contents past s.port)
      ⟨job, none, T.contents past s.port job.state.seq⟩
      ⟨job', none, T.contents past s'.port job'.state.seq⟩) :
    ∀ job ∈ s'.crew, Seated T past config A s s' job := by
  intro j member
  rw [crew, active, pc', show Pc.admitNext.inHand = [] from rfl, List.append_nil, List.mem_append,
    List.mem_singleton] at member
  rcases member with old | rfl
  · refine .staged (List.mem_append_left _ old) ?_
    have same : s'.seat T past j = s.seat T past j := by
      rw [seat, seat, pc, pc', held j old]
      rfl
    rw [same]
    exact .stay
  · have inHand : job ∈ s.crew := List.mem_append_right _ (by simp [pc, Pc.inHand])
    refine .staged inHand ?_
    have before : s.seat T past job = ⟨job, none, T.contents past s.port job.state.seq⟩ := by
      simp [seat, Pc.due, pc]
    have after : s'.seat T past j = ⟨j, none, T.contents past s'.port j.state.seq⟩ := by
      simp [seat, Pc.due, pc']
    rw [before, after]
    exact stage

/-- A job leaves, and with it only its own slot changes. -/
theorem seats_leave {before after : List Job} {job : Job} (nodup : (seqs s.active).Nodup)
    (here : s.active = before ++ job :: after) (active : s'.active = before ++ after)
    (hand : s.pc.inHand = []) (pc' : s'.pc = s.pc)
    (held : ∀ j ∈ s.active, j.state.seq ≠ job.state.seq →
      T.contents past s'.port j.state.seq = T.contents past s.port j.state.seq) :
    ∀ job ∈ s'.crew, Seated T past config A s s' job := by
  have stayed : ∀ j ∈ s'.crew, j ∈ s.active ∧ j.state.seq ≠ job.state.seq := by
    intro j member
    rw [crew, active, pc', hand, List.append_nil] at member
    exact mem_beside nodup here member
  refine seats_frame T ?_ (fun _ _ => by rw [pc']) ?_
  · exact fun j member => List.mem_append_left _ (stayed j member).1
  · exact fun j member => held j (stayed j member).1 (stayed j member).2

/-- The job in hand takes its place with the cells of a cached prefix. -/
theorem seats_adopt {job : Job} {table : BlockTable} {hit : Entry} {port : Port σ}
    (layout : Layout w config s) (pc : s.pc = .reserve job) (enters : s.Enters job)
    (caching : config.prefixCaching = true)
    (found : (PrefixCache.hashPrefix job.state.prompt hit.nTokens, hit) ∈ s.prefixCache.pairs)
    (positive : 0 < hit.nTokens) (within : hit.nTokens ≤ job.state.prompt.length)
    (copied : s.port.copySequence w hit.seq job.state.seq (toPos hit.nTokens) = (.ok (), port))
    (active : s'.active = s.active ++ [inherit job table hit]) (pc' : s'.pc = .admitNext)
    (port' : T.contents past s'.port = T.contents past port) :
    ∀ job ∈ s'.crew, Seated T past config A s s' job := by
  obtain ⟨request, slot, slots, rfl, stack⟩ := layout.hand job pc
  rw [Scheduler.newJob_prompt] at found within
  have cast : (toPos hit.nTokens).toNat = hit.nTokens := by
    rw [toPos_of_lt (Nat.lt_of_le_of_lt within (w.tokenize_length _ _))]
    rfl
  refine seats_place T pc active pc' ?_ ?_
  · intro j inside
    rw [port', T.contents_copy copied]
    exact Kv.copy_other (layout.ne_of_free inside (layout.hand_free pc))
  · have seq : (inherit (Scheduler.newJob w request slot) table hit).state.seq =
      (Scheduler.newJob w request slot).state.seq := rfl
    rw [port', T.contents_copy copied, seq, Kv.copy_apply, cast]
    exact .adopt pc caching enters found positive within

/-- A batch for which nothing is submitted leaves every job as it was. -/
theorem seats_nothing (layout : Layout w config s) (pc : s.pc = .build)
    (nothing : (buildBatch w.caps.nBatch config s.active).items = []) {job' : Job}
    (member : job' ∈ (buildBatch w.caps.nBatch config s.active).active) (port' : s'.port = s.port)
    (pc' : s'.pc = .sweep 0 (some [])) : Seated T past config A s s' job' := by
  obtain ⟨job, active, served⟩ :=
    Lists.exists_of_forall₂_right (buildBatch_served w.caps.nBatch config layout.nodup) member
  rw [nothing, itemsOf_nil] at served
  cases served
  apply Seated.staged (List.mem_append_left _ active)
  have same : s'.seat T past job' = s.seat T past job' := by
    rw [seat, seat, pc, pc', port']
    rfl
  rw [same]
  exact .stay

/-- A token too few fails every job of the batch. -/
theorem seats_drop {slot : Nat} {sampling grewShort : List Nat} {job : Job}
    (pc : s.pc = .accept (slot :: sampling) [] grewShort) (active : job ∈ s.active)
    (port' : s'.port = s.port) (pc' : s'.pc = .sweep 0 (some grewShort)) :
    Seated T past config A s s' (job.failed (outOfRange s.nSteps)) := by
  apply Seated.staged (List.mem_append_left _ active)
  have sameSeq : (job.failed (outOfRange s.nSteps)).state.seq = job.state.seq := by
    simp only [Job.failed]
    split <;> rfl
  have after : s'.seat T past (job.failed (outOfRange s.nSteps)) =
      ⟨job.failed (outOfRange s.nSteps), none, T.contents past s.port job.state.seq⟩ := by
    rw [seat, sameSeq, port', pc']
    rfl
  rw [after]
  exact .drop (by simp [tryFails, pc]) active

theorem Move.seats {q q' : RequestQueue} {lostBlocks lostSlots : List Nat}
    (move : Move w config s q s' q') (layout : Layout w config s) (orderly : s.Orderly)
    (books : Books config s lostBlocks lostSlots) (honest : Honest T past A s.port) :
    ∀ job ∈ s'.crew, Seated T past config A s s' job := by
  have free : ∀ {slot slots}, s.freeSlots = slot :: slots → ∀ j ∈ s.active, j.state.seq ≠ slot :=
    fun stack j active => layout.ne_of_free active (by rw [stack]; exact List.mem_cons_self)
  have reclaims : ∀ {members}, s.reclaimDonorBlocks w = some members → ∀ j ∈ s.crew,
      T.contents past members.port j.state.seq = T.contents past s.port j.state.seq :=
    fun evicted j member => books.ledger.contents_reclaim T evicted (not_donorSlot (layout.lt_of_crew member))
  cases move with
  -- admission: the engine is told of a free slot, which is nobody's
  | make pc next stack begun =>
    refine seats_make T rfl (fun slot => by rw [pc]; rfl) rfl ?_ ?_
    · intro j active
      rw [T.contents_begin begun, Kv.begin_other (free stack j active)]
    · rw [T.contents_begin begun, Kv.begin_self]
  | makeCrash pc next stack begun =>
    refine seats_frame T ?_ (fun _ _ => by rw [pc]; rfl) ?_
    · exact fun j member => List.mem_append_left _ (by simpa [crew, Pc.inHand] using member)
    · intro j member
      have active : j ∈ s.active := by simpa [crew, Pc.inHand] using member
      exact T.contents_begin_error begun (free stack j active)
  | admitted pc =>
    refine seats_idle T rfl ?_ ?_ rfl
    · simp only
      split <;> rfl
    · intro slot
      rw [pc]
      simp only
      split <;> rfl
  | giveUp pc short evicted | reclaimDonor pc here full evicted =>
    exact seats_frame T (fun _ member => member) (fun _ _ => rfl) (reclaims evicted)
  | @reject job pc unfinished full alone =>
    refine seats_frame T ?_ (fun _ _ => by rw [pc]; rfl) ?_
    · exact fun j member => List.mem_append_left _ (by simpa [crew, Continuous.reject, Pc.inHand] using member)
    · intro j member
      simp [crew, Continuous.reject, Pc.inHand, alone] at member
  | @defer job pc unfinished full busy =>
    have active : ∀ j ∈ (s.defer w job).crew, j ∈ s.active := by
      intro j member
      simpa [crew, Continuous.defer, busy, Pc.inHand] using member
    refine seats_frame T (fun j member => List.mem_append_left _ (active j member)) ?_ ?_
    · intro _ _
      simp [Continuous.defer, busy, pc, Pc.due]
    · intro j member
      simp only [Continuous.defer, T.contents_note _ _ (Event.ghost_stat _ _), T.contents_release]
      exact Kv.release_other (layout.ne_of_free (active j member) (layout.hand_free pc))
  | placeFailed pc failed =>
    refine seats_place T pc rfl rfl (fun _ _ => ?_) ?_
    · simp [Continuous.place]
    · simp only [Continuous.place, T.contents_note _ _ (Event.ghost_stat _ _)]
      exact .stay
  | place pc fits same =>
    refine seats_place T pc rfl rfl (fun _ _ => ?_) ?_
    · simp [Continuous.place]
    · simp only [Continuous.place, T.contents_note _ _ (Event.ghost_stat _ _)]
      exact .grow fits.unfinished (BlockTable.ensureCapacity_shared fits.grown)
  | @adopt job table blocks cache hit port pc fits same caching found positive within copied =>
    apply seats_adopt T layout pc fits.enters caching found positive within copied rfl rfl
    simp [Continuous.place]
  | adoptCrash pc fits same copied =>
    refine seats_frame T ?_ (fun _ _ => by rw [pc]; rfl) ?_
    · exact fun j member => List.mem_append_left _ (by simpa [crew, Pc.inHand] using member)
    · intro j member
      have active : j ∈ s.active := by simpa [crew, Pc.inHand] using member
      exact T.contents_copy_error copied (layout.ne_of_free active (layout.hand_free pc))
  -- the batch is built, decoded and answered
  | buildNothing pc nothing =>
    intro job' member
    rw [crew_of_none rfl] at member
    exact seats_nothing T layout pc nothing member rfl rfl
  | decode pc something returned =>
    intro job' member
    rw [crew_of_none rfl] at member
    exact seats_decode T layout honest pc returned member rfl rfl
  | decodeFail pc something threw =>
    intro job' member
    rw [crew_of_none rfl] at member
    obtain ⟨served, inside, rfl⟩ := List.mem_map.mp member
    exact seats_spoil T layout pc something threw inside rfl rfl
  | @acceptFail slot sampling grewShort pc =>
    intro job' member
    rw [crew_of_none rfl] at member
    obtain ⟨job, active, rfl⟩ := List.mem_map.mp member
    exact seats_drop T pc active rfl rfl
  | acceptStray pc missing =>
    refine seats_frame T ?_ ?_ (fun _ _ => rfl)
    · exact fun j member => List.mem_append_left _ (by simpa [crew, Pc.inHand] using member)
    · intro j member
      have active : j ∈ s.active := by simpa [crew, Pc.inHand] using member
      have other : _ ≠ j.state.seq := fun same => missing (mem_seqs.mpr ⟨j, active, same.symm⟩)
      rw [pc, Pc.due, Pc.due, dueIn, if_neg other, List.tail_cons]
  | acceptFinish pc here accepted =>
    refine seats_accept T layout orderly pc here rfl rfl ?_ ?_ ?_
    · exact (SequenceState.finish_same _ _).seq.trans (SequenceState.accept_same accepted).seq
    · rw [T.contents_finish, T.contents_accept accepted]
    · exact fun _ => .stop (orderly.through _ (by rw [here]; simp) (by simp [pc, Pc.sampled]))
        (SequenceState.accept_accepts accepted)
  | acceptStarve pc here accepted =>
    refine seats_accept T layout orderly pc here rfl rfl ?_ (T.contents_accept accepted) ?_
    · exact (SequenceState.accept_same accepted).seq
    · exact fun _ => .goOn (orderly.through _ (by rw [here]; simp) (by simp [pc, Pc.sampled]))
        (SequenceState.accept_accepts accepted) rfl
  | acceptGrow pc here accepted grown =>
    refine seats_accept T layout orderly pc here rfl rfl ?_ (T.contents_accept accepted) ?_
    · exact (SequenceState.accept_same accepted).seq
    · exact fun _ => .goOn (orderly.through _ (by rw [here]; simp) (by simp [pc, Pc.sampled]))
        (SequenceState.accept_accepts accepted) (BlockTable.ensureCapacity_shared grown)
  | acceptPublish pc here accepted grown published =>
    subst published
    refine seats_accept T layout orderly pc here rfl rfl ?_ ?_ ?_
    · exact (SequenceState.accept_same accepted).seq
    · rw [T.contents_note _ _ (Event.ghost_index _ _ _ _), T.contents_accept accepted]
    · exact fun _ => .goOn (orderly.through _ (by rw [here]; simp) (by simp [pc, Pc.sampled]))
        (SequenceState.accept_accepts accepted) (BlockTable.ensureCapacity_shared grown)
  -- jobs leave, and room is made for those that starve
  | @sweepRetire starved before job after pc here finished =>
    refine seats_leave T layout.nodup here rfl (by rw [pc]; rfl) rfl fun j active other => ?_
    exact books.ledger.contents_retire T (layout.lt_of_active (by rw [here]; simp)) other
      (not_donorSlot (layout.lt_of_active active))
  | sweepLoop pc =>
    refine seats_idle T rfl rfl (fun _ => by rw [pc]; rfl) ?_
    exact T.contents_note _ _ (Event.ghost_stat _ _)
  | @resolveFail starved before job after finished pc here large failed =>
    subst failed
    refine seats_around T here layout.nodup rfl rfl (fun _ _ => by rw [pc]; rfl) ?_ ?_
    · exact T.contents_finish _ _ _
    · have before : s.seat T past job = ⟨job, none, T.contents past s.port job.state.seq⟩ := by
        simp [seat, Pc.due, pc]
      rw [before, seat, (SequenceState.finish_same _ _).seq, T.contents_finish]
      exact .overflow (orderly.through _ (by rw [here]; simp) (by simp [pc, Pc.sampled]))
        (orderly.running _ (by rw [here]; simp) (by simp [pc, Pc.running, Pc.sampled])) large
  | reclaimGrow pc here grown | preemptGrow pc here grown =>
    refine seats_around T here layout.nodup rfl rfl (fun _ _ => by rw [pc]; rfl) rfl ?_
    rw [seat, seat, pc]
    exact .grow (orderly.running _ (by rw [here]; simp) (by simp [pc, Pc.running, Pc.sampled]))
      (BlockTable.ensureCapacity_shared grown)
  | preemptEvict pc starving named full here =>
    refine seats_leave T layout.nodup here rfl (by rw [pc]; rfl) rfl fun j active other => ?_
    simp only [T.contents_note _ _ (Event.ghost_stat _ _), T.contents_note _ _ (Event.ghost_preempt _ _ _ _),
      T.contents_release]
    exact Kv.release_other other
  | take => exact seats_frame T (fun _ member => member) (fun _ _ => rfl) (fun _ _ => rfl)
  | acceptEnd pc => exact seats_idle T rfl rfl (fun _ => by rw [pc]; rfl) rfl
  | leave pc | finish pc | sweepKeep pc | sweepResolve pc | resolveEnd pc | resolveGone pc
  | resolveRoom pc | reclaimGone pc | reclaimEnd pc | preemptGone pc | preemptEnd pc =>
    exact seats_idle T rfl rfl (fun _ => by rw [pc]; rfl) rfl

end

/-! ## The entries after a move -/

section

variable (T : Tracker w kind) {past : List Event} {s s' : Continuous σ} {q q' : RequestQueue}
variable {lostBlocks lostSlots : List Nat}

/-- A live entry names a batch slot. -/
theorem Books.live_batch (books : Books config s lostBlocks lostSlots) (layout : Layout w config s) :
    ∀ p ∈ s.prefixCache.pairs, p.2.retained = false → p.2.seq ∉ donorSlots config := by
  intro p member live
  obtain ⟨job, active, backs⟩ := books.live p member live
  rw [← backs.seq]
  exact not_donorSlot (layout.lt_of_active active)

/-- No entry names a free slot. -/
theorem Books.ne_of_free (books : Books config s lostBlocks lostSlots) (layout : Layout w config s)
    {p : UInt64 × Entry} (member : p ∈ s.prefixCache.pairs) {slot : Nat} (free : slot ∈ s.freeSlots) :
    p.2.seq ≠ slot := by
  cases kept : p.2.retained with
  | true => exact books.ledger.outside_of_batch (layout.lt_of_free free) p member kept
  | false =>
    obtain ⟨job, active, backs⟩ := books.live p member kept
    rw [← backs.seq]
    exact layout.ne_of_free active free

theorem Move.entries (move : Move w config s q s' q') (layout : Layout w config s)
    (books : Books config s lostBlocks lostSlots) {p : UInt64 × Entry}
    (member : p ∈ s'.prefixCache.pairs) :
    EntryStage w config kind T.keeps s s' (T.contents past s.port) (T.contents past s'.port) p := by
  have live := books.live_batch layout
  cases move with
  -- admission writes to the slot in hand, which no entry names
  | make pc next stack begun =>
    refine .old member ?_
    rw [T.contents_begin begun]
    exact Kv.begin_other (books.ne_of_free layout member (by rw [stack]; exact List.mem_cons_self))
  | makeCrash pc next stack begun =>
    refine .old member (T.contents_begin_error begun ?_)
    exact books.ne_of_free layout member (by rw [stack]; exact List.mem_cons_self)
  | giveUp pc short evicted | reclaimDonor pc here full evicted =>
    obtain ⟨old, held⟩ := books.ledger.entry_reclaim T live evicted member
    exact .old old held
  | reject pc =>
    refine .old member ?_
    simp only [Continuous.reject, T.contents_deliver, T.contents_release, T.contents_finish]
    exact Kv.release_other (books.ne_of_free layout member (layout.hand_free pc))
  | defer pc =>
    refine .old member ?_
    simp only [Continuous.defer, T.contents_note _ _ (Event.ghost_stat _ _), T.contents_release]
    exact Kv.release_other (books.ne_of_free layout member (layout.hand_free pc))
  | placeFailed pc => exact .old member (by simp [Continuous.place])
  | place pc fits same =>
    have old : p ∈ s.prefixCache.pairs := same.pairs ▸ member
    exact .old old (by simp [Continuous.place])
  | adopt pc fits same caching found positive within copied =>
    have old : p ∈ s.prefixCache.pairs := same.pairs ▸ member
    refine .old old ?_
    simp only [Continuous.place, Tracker.contents_note, Event.ghost_stat, Event.ghost_hit,
      T.contents_copy copied]
    exact Kv.copy_other (books.ne_of_free layout old (layout.hand_free pc))
  | adoptCrash pc fits same copied =>
    have old : p ∈ s.prefixCache.pairs := same.pairs ▸ member
    exact .old old (T.contents_copy_error copied (books.ne_of_free layout old (layout.hand_free pc)))
  -- a decode may write to a slot that an entry names: the entry of a live sequence
  | @decode steps port pc something returned =>
    have fed : T.contents past port p.2.seq = (T.contents past s.port p.2.seq).map
        (Slot.feed kind (itemsOf p.2.seq (buildBatch w.caps.nBatch config s.active).items)) := by
      rw [T.contents_decode returned]
      rfl
    exact .fed member fed
  | decodeFail pc something threw =>
    exact .spoiled member fun keeps => congrFun (T.contents_decode_error keeps threw) _
  | acceptFinish pc here accepted =>
    refine .old member ?_
    rw [T.contents_finish, T.contents_accept accepted]
  | acceptStarve pc here accepted | acceptGrow pc here accepted =>
    exact .old member (by rw [T.contents_accept accepted])
  | @acceptPublish sampling step steps grewShort before job after state port table blocks job' pc here
      accepted grown published offers =>
    have size : blocks.blockSize = config.blockSize := by
      subst published
      have books' : Books config { s with blocks := blocks, active := before ++ _ :: after } lostBlocks lostSlots :=
        books.grow here (same_accept accepted) grown rfl rfl
      exact books'.ledger.blockSize
    rw [size] at offers member
    -- the entry is the new one, or was there and has not been written over
    rw [PrefixCache.insert_pairs, List.mem_cons] at member
    rcases member with rfl | old
    · exact .published (by simp) offers rfl
    · refine .old (List.mem_of_mem_filter old) ?_
      rw [T.contents_note _ _ (Event.ghost_index _ _ _ _), T.contents_accept accepted]
  | @sweepRetire starved before job after pc here finished =>
    have active : job ∈ s.active := by rw [here]; simp
    -- the job's own entries are gone, and there may be a donor with its prompt
    rcases books.ledger.entry_retire T live (layout.lt_of_active active) member with
      ⟨old, held⟩ | ⟨slot, entry, whole, backed, held⟩
    · exact .old old held
    · have cast : (toPos (Scheduler.wholeTokens config job.state.prompt)).toNat =
          Scheduler.wholeTokens config job.state.prompt := by
        have within := Scheduler.wholeTokens_le config job.state.prompt
        rw [toPos_of_lt (Nat.lt_of_le_of_lt within (layout.origin job active).prompt_lt)]
        rfl
      rw [cast] at held
      exact .kept active finished (Nat.lt_of_lt_of_le (Scheduler.wholeTokens_div_pos whole) backed)
        entry held
  | sweepLoop pc => exact .old member (by rw [T.contents_note _ _ (Event.ghost_stat _ _)])
  | resolveFail pc here large failed =>
    subst failed
    exact .old member (by rw [T.contents_finish])
  | preemptEvict pc starving named full here =>
    -- what is left names other slots than the victim's
    rw [PrefixCache.evictSequence_pairs, List.mem_filter] at member
    refine .old member.1 ?_
    simp only [T.contents_note _ _ (Event.ghost_stat _ _),
      T.contents_note _ _ (Event.ghost_preempt _ _ _ _), T.contents_release]
    exact Kv.release_other (by simpa using member.2)
  | _ => exact .old member rfl

end

end Continuous

end MicroVllm
