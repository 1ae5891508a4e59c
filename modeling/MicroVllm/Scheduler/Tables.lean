import MicroVllm.Scheduler.Limits

/-! # Page tables

A table is grown to the tokens of its sequence, one block for every `blockSize` of them, and so it
stays as large as it has to be.  A cached prefix is meant to come first in it.  It does not: the
blocks of the prompt are reserved before the prefix is looked up, and the shared blocks go behind
them.
-/

namespace MicroVllm

namespace Continuous

variable {σ : Type} {w : World σ} {config : SchedulerConfig} {s s' : Continuous σ} {q q' : RequestQueue}

/-! ## Where the jobs of a batch come from -/

/-- Where a job of the batch has its table from: it had it, or grew it to the tokens it needs, or
    was admitted with it. -/
inductive Fares (w : World σ) (config : SchedulerConfig) (s : Continuous σ) (job' : Job) : Prop where
  | stays {job} (member : job ∈ s.active) (same : job.Same job') (blocks : job'.blocks = job.blocks)
      (more : job.state.usage.completionTokens ≤ job'.state.usage.completionTokens)
  | grows {job blocks} (member : job ∈ s.active) (same : job.Same job')
      (more : job.state.usage.completionTokens ≤ job'.state.usage.completionTokens)
      (grown : job.blocks.ensureCapacity job'.needed s.blocks = some (job'.blocks, blocks))
  | refused (pc : s.pc = .reserve job') (finished : job'.state.finished = true)
  | placed {job table blocks} (pc : s.pc = .reserve job) (fits : s.Fits job table blocks)
      (placed : job' = { job with blocks := table })
  | adopted {job table blocks hit} (pc : s.pc = .reserve job) (fits : s.Fits job table blocks)
      (caching : config.prefixCaching = true)
      (found : (PrefixCache.hashPrefix job.state.prompt hit.nTokens, hit) ∈ s.prefixCache.pairs)
      (positive : 0 < hit.nTokens) (within : hit.nTokens ≤ job.state.prompt.length)
      (inherits : job' = inherit job table hit)

/-- A later stage of a job with the same table. -/
structure Later (job job' : Job) : Prop extends job.Same job' where
  blocks : job'.blocks = job.blocks
  more : job.state.usage.completionTokens ≤ job'.state.usage.completionTokens

theorem Later.refl (job : Job) : Later job job := ⟨.refl job, rfl, Nat.le_refl _⟩

theorem Later.trans {a b c : Job} (first : Later a b) (second : Later b c) : Later a c :=
  ⟨first.toSame.trans second.toSame, second.blocks.trans first.blocks, Nat.le_trans first.more second.more⟩

theorem Later.chunk (job : Job) (take : Nat) :
    Later job { job with state := (job.state.takePrefillChunk take).2 } :=
  ⟨⟨rfl, job.state.takePrefillChunk_same take⟩, rfl, Nat.le_refl _⟩

theorem Later.fail (job : Job) (message : String) (reason : FinishReason) :
    Later job { job with state := job.state.fail message reason } :=
  ⟨⟨rfl, (job.state.fail_same message reason).toSameOrigin⟩, rfl, Nat.le_refl _⟩

theorem Later.finish (job : Job) (port : Port σ) : Later job { job with state := (job.state.finish w port).1 } := by
  have usage : (job.state.finish w port).1.usage = job.state.usage := by
    rw [SequenceState.finish_state, SequenceState.closed_usage]
  exact ⟨⟨rfl, (job.state.finish_same port).toSameOrigin⟩, rfl,
    Nat.le_of_eq (by rw [usage])⟩

theorem Later.accept {job : Job} {step : GenStep} {goesOn : Bool} {state : SequenceState}
    {port port' : Port σ} (accepted : job.state.accept w step port = (goesOn, state, port')) :
    Later job { job with state := state } :=
  ⟨same_accept accepted, rfl, (SequenceState.accept_accepts accepted).completion_le⟩

theorem Later.fares {job job' : Job} (later : Later job job') (member : job ∈ s.active) :
    Fares w config s job' := .stays member later.toSame later.blocks later.more

theorem Move.fares (move : Move w config s q s' q') : ∀ job ∈ s'.active, Fares w config s job := by
  have old : ∀ job ∈ s.active, Fares w config s job := fun job member => (Later.refl job).fares member
  have around : ∀ {before after : List Job} {job job' : Job}, s.active = before ++ job :: after →
      Fares w config s job' → ∀ j ∈ before ++ job' :: after, Fares w config s j := by
    intro before after job job' here new j member
    rcases Lists.mem_of_around here member with rfl | stays
    · exact new
    · exact old j stays
  have without : ∀ {before after : List Job} {job : Job}, s.active = before ++ job :: after →
      ∀ j ∈ before ++ after, Fares w config s j :=
    fun here j member => old j (Lists.mem_of_without here member)
  have joins : ∀ {job : Job}, Fares w config s job → ∀ j ∈ s.active ++ [job], Fares w config s j := by
    intro job new j member
    rcases List.mem_append.mp member with active | last
    · exact old j active
    · cases List.mem_singleton.mp last
      exact new
  have later : ∀ {jobs : List Job}, List.Forall₂ Later s.active jobs →
      ∀ j ∈ jobs, Fares w config s j := by
    intro jobs all j member
    obtain ⟨job, active, later⟩ := Lists.exists_of_forall₂_right all member
    exact later.fares active
  have built := forall₂_build Later.refl Later.chunk w.caps.nBatch config s.active
  have failed : ∀ message (t : Continuous σ), List.Forall₂ Later t.active (t.failAll message).active :=
    fun message t => forall₂_failAll Later.refl (fun job message => .fail job message _) message t
  have here' : ∀ {before after : List Job} {job : Job}, s.active = before ++ job :: after →
      job ∈ s.active := by
    intro before after job here
    simp [here]
  cases move with
  -- the three ways into the batch
  | placeFailed pc finished => exact joins (.refused pc finished)
  | place pc fits => exact joins (.placed pc fits rfl)
  | adopt pc fits _ caching found positive within => exact joins (.adopted pc fits caching found positive within rfl)
  -- the tables stay as they are
  | buildNothing | decode => exact later built
  | decodeFail =>
    refine later (Lists.forall₂_trans (R := Later) .trans built ?_)
    exact failed _ { s with active := (buildBatch w.caps.nBatch config s.active).active }
  | acceptFail => exact later (failed _ _)
  | acceptFinish pc here accepted =>
    exact around here (((Later.accept accepted).trans (.finish _ _)).fares (here' here))
  | acceptStarve pc here accepted => exact around here ((Later.accept accepted).fares (here' here))
  -- a table grows
  | acceptGrow pc here accepted grown =>
    have later := Later.accept accepted
    exact around here (.grows (here' here) ⟨later.request, later.state⟩ later.more grown)
  | acceptPublish pc here accepted grown published =>
    subst published
    have later := Later.accept accepted
    exact around here (.grows (here' here) ⟨later.request, later.state⟩ later.more grown)
  | sweepRetire pc here => exact without here
  | resolveFail pc here large failed =>
    subst failed
    exact around here (((Later.fail _ _ _).trans (.finish _ _)).fares (here' here))
  | reclaimGrow pc here grown | preemptGrow pc here grown =>
    exact around here (.grows (here' here) (.withBlocks _ _) (Nat.le_refl _) grown)
  | preemptEvict pc starving named full here => exact without here
  | _ => exact old

end Continuous

/-! ## Adoptions -/

/-- The slot and the entry of a prefix hit. -/
def Event.adoption : Event → Option (Nat × Entry)
  | .hit seq _ entry => some (seq, entry)
  | _ => none

theorem Event.adoption_of_toSink (sink : SinkRef) (e : Event) (call : e.ToSink sink) : e.adoption = none := by
  cases e <;> first | rfl | cases call

theorem Event.adoption_of_internal (e : Event) (inside : e.Internal) : e.adoption = none := by
  cases e <;> first | rfl | cases inside

/-- The blocks that the sequence in a slot inherited when it was admitted. -/
def adoptedBy (slot : Nat) (past : List Event) : List Nat :=
  past.foldl (fun blocks e => match e with
    | .beginSequence seq _ _ => if seq = slot then [] else blocks
    | .hit seq _ entry => if seq = slot then entry.blocks else blocks
    | _ => blocks) []

theorem adoptedBy_eq_nil (slot : Nat) {past : List Event} (none : past.filterMap Event.adoption = []) :
    adoptedBy slot past = [] := by
  unfold adoptedBy
  induction past with
  | nil => rfl
  | cons e past ih =>
    rw [List.filterMap_cons] at none
    cases e with
    | hit => cases none
    | beginSequence seq =>
      simp only [List.foldl_cons, ite_self]
      exact ih none
    | _ => exact ih none

namespace Continuous

variable {σ : Type} {w : World σ} {config : SchedulerConfig} {s s' : Continuous σ} {q q' : RequestQueue}

/-- No cached prefix is there for a job that is being admitted: no entry has the hash of a prefix of
    its prompt. -/
def SharesNothing (config : SchedulerConfig) (s : Continuous σ) : Prop :=
  config.prefixCaching = true → ∀ job ∈ s.pc.inHand, s.Enters job → ∀ p ∈ s.prefixCache.pairs,
    p.1 = PrefixCache.hashPrefix job.state.prompt p.2.nTokens →
      ¬ (0 < p.2.nTokens ∧ p.2.nTokens ≤ job.state.prompt.length)

instance (config : SchedulerConfig) (s : Continuous σ) : Decidable (s.SharesNothing config) :=
  inferInstanceAs (Decidable (config.prefixCaching = true → ∀ job ∈ s.pc.inHand, s.Enters job →
    ∀ p ∈ s.prefixCache.pairs, p.1 = PrefixCache.hashPrefix job.state.prompt p.2.nTokens →
      ¬ (0 < p.2.nTokens ∧ p.2.nTokens ≤ job.state.prompt.length)))

/-- Without one, nothing is adopted. -/
theorem SharesNothing.not_adopted {job : Job} {hit : Entry} (alone : s.SharesNothing config)
    (pc : s.pc = .reserve job) (enters : s.Enters job) (caching : config.prefixCaching = true)
    (found : (PrefixCache.hashPrefix job.state.prompt hit.nTokens, hit) ∈ s.prefixCache.pairs)
    (positive : 0 < hit.nTokens) (within : hit.nTokens ≤ job.state.prompt.length) : False :=
  alone caching job (by simp [pc, Pc.inHand]) enters _ found rfl ⟨positive, within⟩

theorem Move.adoptions (move : Move w config s q s' q') (silent : s.port.log = [])
    (alone : s.SharesNothing config) : s'.port.log.filterMap Event.adoption = [] := by
  have nothing : s.port.log.filterMap Event.adoption = [] := by
    rw [silent]
    rfl
  have finishes := fun (state : SequenceState) (port : Port σ) =>
    Scheduler.filterMap_finish (w := w) Event.adoption_of_toSink state port
  cases move with
  | adopt pc fits same caching found positive within =>
    exact (alone.not_adopted pc fits.enters caching found positive within).elim
  | sweepRetire pc here finished =>
    rw [Scheduler.filterMap_retire Event.adoption_of_toSink Event.adoption_of_internal, nothing]
    rfl
  | reject => simp [Continuous.reject, Scheduler.deliver, finishes, nothing, Event.adoption]
  | make pc next free begun | makeCrash pc next free begun =>
    simp [Port.filterMap_begin _ begun, nothing, Event.adoption]
  | adoptCrash pc fits same copied => simp [Port.filterMap_copy _ copied, nothing, Event.adoption]
  | giveUp pc short evicted =>
    simp [Scheduler.filterMap_reclaim Event.adoption_of_internal evicted, nothing]
  | reclaimDonor pc here full evicted =>
    simp [Scheduler.filterMap_reclaim Event.adoption_of_internal evicted, nothing]
  | defer => simp [Continuous.defer, nothing, Event.adoption]
  | placeFailed | place => simp [Continuous.place, nothing, Event.adoption]
  | decode pc something returned => simp [Port.filterMap_decode _ returned, nothing, Event.adoption]
  | decodeFail pc something threw =>
    simp [failAll, Port.filterMap_decode _ threw, nothing, Event.adoption]
  | acceptFail => simp [failAll, nothing]
  | acceptFinish pc here accepted =>
    simp [finishes, Scheduler.filterMap_accept Event.adoption_of_toSink accepted, nothing]
  | acceptStarve pc here accepted | acceptGrow pc here accepted =>
    simp [Scheduler.filterMap_accept Event.adoption_of_toSink accepted, nothing]
  | acceptPublish pc here accepted =>
    simp [Scheduler.filterMap_accept Event.adoption_of_toSink accepted, nothing, Event.adoption]
  | sweepLoop => simp [nothing, Event.adoption]
  | resolveFail pc here large failed =>
    subst failed
    simp [finishes, nothing]
  | preemptEvict => simp [nothing, Event.adoption]
  | _ => exact nothing

end Continuous

/-! ## Tables of the right size -/

/-- The page table of a sequence that inherited the blocks `adopted`: one block for every
    `blockSize` tokens; the inherited ones first and in order, so that they back the shared
    positions; and behind them blocks of its own. -/
structure Job.Paged (blockSize : Nat) (adopted : List Nat) (job : Job) : Prop where
  size : job.blocks.nBlocks = (job.blocks.nTokens + blockSize - 1) / blockSize
  first : job.blocks.blocks.take job.blocks.sharedPrefixBlocks = adopted
  shared : ∀ p < job.blocks.sharedPrefixTokens, ∃ b, job.blocks.blocks[p / blockSize]? = some b ∧
    adopted[p / blockSize]? = some b
  own : ∀ p, job.blocks.sharedPrefixTokens ≤ p → p < job.blocks.nTokens →
    ∃ b, job.blocks.blocks[p / blockSize]? = some b ∧ b ∉ adopted

/-- A table that was only ever grown, and never beyond the tokens of its sequence. -/
structure Job.Tabled (blockSize : Nat) (job : Job) : Prop where
  size : job.blocks.nBlocks = (job.blocks.nTokens + blockSize - 1) / blockSize
  within : job.blocks.nTokens ≤ job.state.usage.promptTokens + job.state.usage.completionTokens
  alone : job.blocks.sharedPrefixBlocks = 0 ∧ job.blocks.sharedPrefixTokens = 0

namespace Job.Tabled

variable {blockSize : Nat} {job job' : Job}

theorem paged (tabled : job.Tabled blockSize) (sized : 0 < blockSize) : job.Paged blockSize [] where
  size := tabled.size
  first := by simp [tabled.alone.1]
  shared p inside := by
    rw [tabled.alone.2] at inside
    cases inside
  own p _ inside := by
    have enough : p / blockSize < job.blocks.blocks.length := by
      have size : job.blocks.blocks.length = (job.blocks.nTokens + blockSize - 1) / blockSize := tabled.size
      calc p / blockSize + 1
          = (p + blockSize) / blockSize := (Nat.add_div_right p sized).symm
        _ ≤ (job.blocks.nTokens + blockSize - 1) / blockSize := Nat.div_le_div_right (by omega)
        _ = job.blocks.blocks.length := size.symm
    exact ⟨_, List.getElem?_eq_getElem enough, by simp⟩

/-- A table nobody has grown. -/
theorem empty (blocks : job.blocks = {}) (sized : 0 < blockSize) : job.Tabled blockSize := by
  have none : (0 + blockSize - 1) / blockSize = 0 := Nat.div_eq_of_lt (by omega)
  constructor
  · rw [blocks]
    exact none.symm
  · rw [blocks]
    exact Nat.zero_le _
  · rw [blocks]
    exact ⟨rfl, rfl⟩

theorem stays (tabled : job.Tabled blockSize) (same : job.Same job') (blocks : job'.blocks = job.blocks)
    (more : job.state.usage.completionTokens ≤ job'.state.usage.completionTokens) :
    job'.Tabled blockSize := by
  have within := tabled.within
  have prompt := same.state.promptTokens
  rw [← blocks] at within
  refine ⟨?_, by omega, ?_⟩
  · rw [blocks]
    exact tabled.size
  · rw [blocks]
    exact tabled.alone

/-- A table that is grown to at least the tokens it had. -/
theorem grow {a b : BlockAllocator} {n : Nat} (tabled : job.Tabled blockSize) (pool : a.blockSize = blockSize)
    (grown : job.blocks.ensureCapacity n a = some (job'.blocks, b)) (more : job.blocks.nTokens ≤ n)
    (small : n + blockSize ≤ 2 ^ 32)
    (within : n ≤ job'.state.usage.promptTokens + job'.state.usage.completionTokens) :
    job'.Tabled blockSize := by
  obtain ⟨tokens, blocks, sharedBlocks, sharedTokens, _⟩ := BlockTable.ensureCapacity_shape grown
  refine ⟨?_, by rw [tokens]; exact within, sharedBlocks.trans tabled.alone.1,
    sharedTokens.trans tabled.alone.2⟩
  have needed : a.blocksFor n = (n + blockSize - 1) / blockSize := by
    unfold BlockAllocator.blocksFor
    rw [pool]
    rcases Nat.eq_zero_or_pos blockSize with zero | positive
    · simp [zero]
    · rw [toUint32_of_lt (by omega)]
  have fewer : job.blocks.nBlocks ≤ (n + blockSize - 1) / blockSize := by
    rw [tabled.size]
    exact Nat.div_le_div_right (by omega)
  rw [blocks, tokens, needed, Nat.max_eq_right fewer]

end Job.Tabled

/-- The tokens a request may come to, in blocks, are counted without a wrap. -/
def Request.Countable {σ : Type} (w : World σ) (config : SchedulerConfig) (request : Request) : Prop :=
  request.length w + config.blockSize ≤ 2 ^ 32

instance {σ : Type} (w : World σ) (config : SchedulerConfig) (request : Request) :
    Decidable (request.Countable w config) :=
  inferInstanceAs (Decidable (request.length w + config.blockSize ≤ 2 ^ 32))

namespace Server

variable {σ : Type} {w : World σ} {config : SchedulerConfig} {capacity : Nat} {world : σ}
variable {past : List Event} {s : Server (Continuous σ)}

/-- What is known of a job after a move: whose it is, and that its tokens are counted. -/
theorem crew_move {thread : Continuous σ} {queue : RequestQueue}
    (run : (continuous w config capacity world).Run past s)
    (move : Continuous.Move w (config.construct w.caps) s.thread s.queue thread queue) :
    ∀ job ∈ thread.crew, job.request ∈ s.accepted ∧ job.Origin w ∧
      job.state.Limited w fun _ => True := by
  intro job member
  have handles := handles_move run move
  obtain ⟨known, origin, _⟩ := ((heard_run run).step handles (crew_once run)).roster job member
  exact ⟨known, origin, handles.kept (limited_kept w) (fun _ _ => trivial) (limited_run run).1.roster job member⟩

theorem tabled_run
    (run : ((continuous w config capacity world).guarded fun s _ _ =>
      s.thread.SharesNothing (config.construct w.caps)).Run past s)
    (small : ∀ r ∈ s.accepted, r.Countable w (config.construct w.caps)) :
    past.filterMap Event.adoption = [] ∧
      ∀ job ∈ s.thread.active, job.Tabled (config.construct w.caps).blockSize := by
  refine continuous_thread_invariant ?_ ?_ (accepting_each run small)
  · exact ⟨rfl, by simp [Continuous.start]⟩
  · rintro past s thread queue earlier settled ⟨none, tabled⟩ move ⟨alone, small⟩
    constructor
    · rw [List.filterMap_append, none, move.adoptions settled.silent alone]
      rfl
    · intro job active
      obtain ⟨known, origin, limited⟩ :=
        crew_move earlier.of_guarded move job (List.mem_append_left _ active)
      have pool := (pool_run earlier.of_guarded).2
      -- prompt and completion stay below the bound
      have bound : job.state.usage.promptTokens + job.state.usage.completionTokens +
          (config.construct w.caps).blockSize ≤ 2 ^ 32 := by
        have most : job.request.length w + (config.construct w.caps).blockSize ≤ 2 ^ 32 := small _ known
        have length := origin.length_eq
        have budget := limited.budget
        omega
      have sized := config.construct_blockSize_pos w.caps
      cases move.fares job active with
      | stays member same blocks more => exact (tabled _ member).stays same blocks more
      | @grows old _ member same more grown =>
        have within := (tabled old member).within
        have prompt := same.state.promptTokens
        have needed : job.needed = job.state.usage.promptTokens + job.state.usage.completionTokens :=
          toUint32_of_lt (by omega)
        rw [needed] at grown
        exact (tabled old member).grow pool grown (by omega) bound (Nat.le_refl _)
      | refused pc =>
        obtain ⟨request, slot, slots, rfl, _⟩ := settled.layout.hand job pc
        exact .empty rfl sized
      | @placed old table blocks pc fits placed =>
        subst placed
        obtain ⟨request, slot, slots, rfl, _⟩ := settled.layout.hand old pc
        have fresh : (Scheduler.newJob w request slot).Tabled (config.construct w.caps).blockSize :=
          .empty rfl sized
        simp only at bound
        exact fresh.grow pool fits.grown (Nat.zero_le _) (by omega) (Nat.le_add_right _ _)
      | adopted pc fits caching found positive within =>
        exact (alone.not_adopted pc fits.enters caching found positive within).elim

end Server

/-- In every run in which no cached prefix is there for a job when it is admitted, and the tokens
    of every accepted request are counted in blocks without a wrap, every page table is as it should
    be in every state. -/
theorem page_tables {σ : Type} (w : World σ) (config : SchedulerConfig) (capacity : Nat) (world : σ)
    (past : List Event) (s : Server (Continuous σ))
    (run : ((Server.continuous w config capacity world).guarded fun s _ _ =>
      s.thread.SharesNothing (config.construct w.caps)).Run past s)
    (small : ∀ r ∈ s.accepted, r.Countable w (config.construct w.caps)) :
    ∀ job ∈ s.thread.active,
      job.Paged (config.construct w.caps).blockSize (adoptedBy job.state.seq past) := by
  intro job active
  obtain ⟨none, tabled⟩ := Server.tabled_run run small
  rw [adoptedBy_eq_nil _ none]
  exact (tabled job active).paged (config.construct_blockSize_pos w.caps)

/-- Two requests that grow side by side. -/
theorem page_tables_letter :
    ∃ past s, ((Server.continuous Script.letter.world .sharing 4 fun _ => none).guarded fun s _ _ =>
        s.thread.SharesNothing (SchedulerConfig.sharing.construct Script.letter.caps)).Run past s ∧
      (∀ r ∈ s.accepted, r.Countable Script.letter.world
        (SchedulerConfig.sharing.construct Script.letter.caps)) ∧
      s.thread.pc = .takeWork ∧ (s.thread.active.map fun job => job.blocks.blocks) = [[0, 3], [1, 2, 4]] ∧
      ∀ job ∈ s.thread.active, job.Paged 2 (adoptedBy job.state.seq past) := by
  obtain ⟨past, s, run, small, boundary, listed⟩ : ∃ past s,
      ((Server.continuous Script.letter.world .sharing 4 fun _ => none).guarded fun s _ _ =>
        s.thread.SharesNothing (SchedulerConfig.sharing.construct Script.letter.caps)).Run past s ∧
      ((∀ r ∈ s.accepted, r.Countable Script.letter.world
        (SchedulerConfig.sharing.construct Script.letter.caps)) ∧ s.thread.pc = .takeWork ∧
        (s.thread.active.map fun job => job.blocks.blocks) = [[0, 3], [1, 2, 4]]) :=
    Server.exists_guarded ([.push { id := 0, spec := { prompt := [1, 2], maxTokens := 4 } },
      .push { id := 1, spec := { prompt := [3, 4, 5, 6], maxTokens := 4 } }] ++
      List.replicate 19 .run) rfl rfl (by decide +kernel)
  exact ⟨past, s, run, small, boundary, listed, page_tables _ _ _ _ past s run small⟩

/-- Two requests with one prompt of two blocks.  The second inherits the blocks of the first behind
    two of its own: four blocks for five tokens, and the shared positions backed by its own. -/
theorem page_tables_shared_letter :
    ∃ past s job, (Server.continuous Script.letter.world .sharing 4 fun _ => none).Run past s ∧
      s.thread.pc = .takeWork ∧ job ∈ s.thread.active ∧ job.state.finished = false ∧
      adoptedBy job.state.seq past = [0, 1] ∧ job.blocks.blocks = [3, 4, 0, 1] ∧
      job.blocks.nTokens = 5 ∧ job.blocks.sharedPrefixBlocks = 2 ∧
      ¬ job.Paged (SchedulerConfig.sharing.construct Script.letter.caps).blockSize
        (adoptedBy job.state.seq past) := by
  obtain ⟨past, s, run, boundary, job, active, unfinished, adopted, listed, tokens, shared⟩ : ∃ past s,
      (Server.continuous Script.letter.world .sharing 4 fun _ => none).Run past s ∧
      (s.thread.pc = .takeWork ∧ ∃ job ∈ s.thread.active, job.state.finished = false ∧
        adoptedBy job.state.seq past = [0, 1] ∧ job.blocks.blocks = [3, 4, 0, 1] ∧
        job.blocks.nTokens = 5 ∧ job.blocks.sharedPrefixBlocks = 2) :=
    Server.exists_run ([.push { id := 0, spec := { prompt := [1, 2, 3, 4], maxTokens := 4 } }] ++
      List.replicate 12 .run ++ [.push { id := 1, spec := { prompt := [1, 2, 3, 4], maxTokens := 4 } }] ++
      List.replicate 17 .run) rfl rfl (by decide +kernel)
  refine ⟨past, s, job, run, boundary, active, unfinished, adopted, listed, tokens, shared, ?_⟩
  intro paged
  have first := paged.first
  rw [adopted, listed, shared] at first
  cases first

end MicroVllm
