import MicroVllm.Scheduler.Attempts
import MicroVllm.Scheduler.Exhaustion

/-! # Admission with headroom

A request that is admitted beside others must find a spare block for each of them and one for
itself, on top of the blocks of its prompt.  A sequence takes at most one block in a turn, so in the
turn that admits it nobody runs short, whatever else is admitted in that turn.
-/

namespace MicroVllm

open Transition (Machine)

namespace Continuous

variable {σ : Type} {w : World σ} {config : SchedulerConfig} {s s' : Continuous σ} {q q' : RequestQueue}

/-- How many active jobs are still running. -/
def runningCount (s : Continuous σ) : Nat := s.active.countP fun job => !job.state.finished

/-- From an admission to the end of the turn: until the batch is built there is a free block for
    every running job, from then on one for every job still to be dealt with, and nobody is short. -/
structure Headroom (s : Continuous σ) : Prop where
  served : s.pc.unserved = []
  others : s.pc.admitting = true → s.pc ≠ .takeWork → s.active ≠ []
  free : s.pc.admitting = true → s.pc ≠ .takeWork → s.runningCount ≤ s.blocks.freeBlocks
  left : ∀ sampling steps grewShort, s.pc = .accept sampling steps grewShort →
    sampling.length ≤ s.blocks.freeBlocks

/-- A batch samples for running jobs, once for each. -/
theorem length_sampling_le (nBatch : Nat) (layout : Layout w config s) :
    (buildBatch nBatch config s.active).sampling.length ≤ s.runningCount := by
  have sampled : (buildBatch nBatch config s.active).sampling ⊆
      seqs (s.active.filter fun job => !job.state.finished) := by
    intro slot member
    rw [buildBatch_sampling] at member
    obtain ⟨item, inside, rfl⟩ := List.mem_map.mp member
    obtain ⟨job, active, owner, _, served⟩ :=
      (buildBatch_fills nBatch config layout.nodup).single (List.mem_of_mem_filter inside)
    refine mem_seqs.mpr ⟨job, List.mem_filter.mpr ⟨active, ?_⟩, owner⟩
    simp [served.item.1]
  have fewer := (List.subperm_of_subset (buildBatch_sampling_nodup nBatch config layout.nodup) sampled).length_le
  rwa [seqs, List.length_map, ← List.countP_eq_length_filter] at fewer

/-- The watermark of a request in hand is what it says, as long as slots are numbered by 32-bit
    integers. -/
theorem watermark_eq {job : Job} (layout : Layout w config s) (pc : s.pc = .reserve job)
    (sized : 0 < s.blocks.blockSize) (batch : config.maxBatchSize ≤ 2 ^ 31) (others : s.active ≠ []) :
    s.watermark job = s.want job + (s.active.length + 1) := by
  obtain ⟨request, slot, slots, rfl, free⟩ := layout.hand job pc
  have room : s.active.length + 1 ≤ config.maxBatchSize := by
    have all := layout.slots.length_eq
    rw [free] at all
    simp only [List.length_append, List.length_cons, seqs, List.length_map, List.length_range] at all
    omega
  have origin := origin_newJob w request slot
  -- a prompt never takes more blocks than it has tokens
  have few : s.want (Scheduler.newJob w request slot) < 2 ^ 31 := by
    have prompt := origin.prompt_lt
    rw [← origin.promptTokens] at prompt
    have most : toUint32 ((Scheduler.newJob w request slot).state.usage.promptTokens + s.blocks.blockSize - 1) ≤
        (Scheduler.newJob w request slot).state.usage.promptTokens + s.blocks.blockSize - 1 := toUint32_le _
    apply Nat.div_lt_of_lt_mul
    calc toUint32 ((Scheduler.newJob w request slot).state.usage.promptTokens + s.blocks.blockSize - 1)
        < 2 ^ 31 - 1 + s.blocks.blockSize := by omega
      _ ≤ s.blocks.blockSize * (2 ^ 31 - 1) + s.blocks.blockSize := by
        have least := Nat.mul_le_mul_right (2 ^ 31 - 1) sized
        omega
      _ = s.blocks.blockSize * 2 ^ 31 := by omega
  rw [watermark, if_neg others, toUint32_of_lt (n := s.active.length) (by omega), toUint32_of_lt (by omega)]

namespace Headroom

/-- An admission beside others leaves a block for everybody. -/
theorem placed {job : Job} {table : BlockTable} {blocks : BlockAllocator} {cache : PrefixCache}
    (fits : s.Fits job table blocks) (layout : Layout w config s) (pc : s.pc = .reserve job)
    (sized : 0 < s.blocks.blockSize) (batch : config.maxBatchSize ≤ 2 ^ 31) (others : s.active ≠ []) :
    ({ s with blocks := blocks, prefixCache := cache }.place { job with blocks := table }).Headroom := by
  refine ⟨rfl, fun _ _ => by simp [Continuous.place], fun _ _ => ?_, by simp [Continuous.place]⟩
  have room := fits.room
  rw [watermark_eq layout pc sized batch others] at room
  have left := BlockTable.ensureCapacity_freeBlocks fits.grown
  have taken : s.blocks.blocksFor job.state.usage.promptTokens = s.want job := rfl
  calc _ ≤ (s.active ++ [{ job with blocks := table }]).length := List.countP_le_length
    _ = s.active.length + 1 := by simp
    _ ≤ blocks.freeBlocks := by omega

/-- Outside of admission and acceptance there is only nobody to be short. -/
theorem of_served (served : s.pc.unserved = []) (away : s.pc.admitting = false ∨ s.pc = .takeWork)
    (isOver : ∀ sampling steps grewShort, s.pc ≠ .accept sampling steps grewShort) : s.Headroom := by
  refine ⟨served, ?_, ?_, fun _ _ _ pc => absurd pc (isOver _ _ _)⟩
  all_goals
    intro admitting other
    rcases away with left | top
    · simp [left] at admitting
    · exact absurd top other

/-- Admission goes on with the same pool. -/
theorem admitting {jobs : List Job} (headroom : s.Headroom) (before : s.pc.admitting = true)
    (within : s.pc ≠ .takeWork) (after : s'.pc.admitting = true) (active : s'.active = s.active ++ jobs)
    (ended : ∀ job ∈ jobs, job.state.finished = true) (blocks : s'.blocks = s.blocks) : s'.Headroom := by
  have none : s'.pc.unserved = [] ∧ ∀ sampling steps grewShort, s'.pc ≠ .accept sampling steps grewShort := by
    cases pc : s'.pc <;> simp [pc, Pc.admitting, Pc.unserved, Pc.serving, Pc.short] at after ⊢
  refine ⟨none.1, fun _ _ => ?_, fun _ _ => ?_, fun _ _ _ pc => absurd pc (none.2 _ _ _)⟩
  · rw [active]
    simp [headroom.others before within]
  · have none : jobs.countP (fun job => !job.state.finished) = 0 := by
      rw [List.countP_eq_zero]
      intro job member
      simp [ended job member]
    rw [runningCount, active, List.countP_append, none, blocks]
    exact headroom.free before within

/-- One sampled job is dealt with, and takes at most one block. -/
theorem accepting {slot : Nat} {sampling : List Nat} {step : GenStep} {steps : List GenStep}
    {grewShort : List Nat} (headroom : s.Headroom)
    (before : s.pc = .accept (slot :: sampling) (step :: steps) grewShort)
    (after : s'.pc = .accept sampling steps grewShort)
    (taken : s.blocks.freeBlocks ≤ s'.blocks.freeBlocks + 1) : s'.Headroom := by
  have served := headroom.served
  have left := headroom.left _ _ _ before
  rw [before] at served
  refine ⟨by rw [after]; exact served, by simp [after, Pc.admitting], by simp [after, Pc.admitting], ?_⟩
  intro sampling' steps' grewShort' pc
  rw [after] at pc
  cases pc
  simp only [List.length_cons] at left
  omega

theorem move (headroom : s.Headroom) (layout : Layout w config s) (orderly : s.Orderly)
    (supplied : s.Supplied) (sized : 0 < s.blocks.blockSize) (empty : s.prefixCache.pairs = [])
    (off : config.prefixCaching = false) (batch : config.maxBatchSize ≤ 2 ^ 31)
    (within : s.pc ≠ .takeWork) (move : Move w config s q s' q') : s'.Headroom := by
  have served := headroom.served
  have spent : s.reclaimDonorBlocks w = none := reclaim_eq_none_iff.mpr (by simp [empty])
  -- the next token of a sampled job takes one block at most
  have next : ∀ {sampling step steps grewShort before job after state port},
      s.pc = .accept (job.state.seq :: sampling) (step :: steps) grewShort →
      s.active = before ++ job :: after → job.state.accept w step s.port = (true, state, port) →
      s.blocks.blocksFor { job with state := state }.needed ≤ job.blocks.nBlocks + 1 := by
    intro sampling step steps grewShort before job after state port pc here accepted
    have member : job ∈ s.active := by simp [here]
    have running := orderly.running job member (by rw [pc]; simp [Pc.running, Pc.sampled])
    have covered : Job.Covered s.blocks [job.state.seq] { job with state := state } :=
      covered_accept sized (supplied.covered job member running) (by simp [served]) accepted (by simp)
    have tokens := covered.tokens
    split at tokens <;> simp only at tokens <;> omega
  cases move with
  | take pc | leave pc | finish pc => exact absurd pc within
  | makeCrash => exact of_served rfl (.inl rfl) (by simp)
  | make pc =>
    exact headroom.admitting (by simp [pc, Pc.admitting]) within rfl (List.append_nil _).symm (by simp) rfl
  | @admitted pc =>
    have before : s.pc.admitting = true := by rw [pc]; rfl
    refine headroom.admitting before within ?_ (List.append_nil _).symm (by simp) rfl
    exact (admitting_admitted s.active).2
  | giveUp pc short evicted => simp [spent] at evicted
  | reject pc unfinished full alone => exact absurd alone (headroom.others (by rw [pc]; rfl) within)
  | defer pc =>
    refine headroom.admitting (by rw [pc]; rfl) within ?_ (List.append_nil _).symm (by simp) rfl
    exact (admitting_admitted s.active).2
  | placeFailed pc failed =>
    exact headroom.admitting (by rw [pc]; rfl) within rfl rfl (by simpa using failed) rfl
  | @place job table blocks cache pc fits =>
    exact placed fits layout pc sized batch (headroom.others (by rw [pc]; rfl) within)
  | adopt pc fits touched caching => simp [off] at caching
  | adoptCrash => exact of_served rfl (.inl rfl) (by simp)
  | buildNothing => exact of_served rfl (.inl rfl) (by simp)
  | decodeFail => exact of_served rfl (.inl rfl) (by simp [failAll])
  | decode pc something returned =>
    have free := headroom.free (by rw [pc]; rfl) within
    refine ⟨rfl, by simp [Pc.admitting], by simp [Pc.admitting], ?_⟩
    intro sampling steps grewShort accepting
    cases accepting
    exact Nat.le_trans (length_sampling_le _ layout) free
  | acceptEnd pc | acceptFail pc =>
    rw [pc] at served
    exact of_served served (.inl rfl) (by simp [failAll])
  | acceptStray pc => exact headroom.accepting pc rfl (Nat.le_succ _)
  | acceptFinish pc here accepted => exact headroom.accepting pc rfl (Nat.le_succ _)
  | acceptStarve pc here accepted full =>
    -- there is a block for it
    obtain ⟨_, few⟩ := BlockTable.ensureCapacity_eq_none_iff.mp full
    have one := next pc here accepted
    have left := headroom.left _ _ _ pc
    simp only [List.length_cons] at left
    omega
  | acceptGrow pc here accepted grown =>
    have one := next pc here accepted
    have taken := BlockTable.ensureCapacity_freeBlocks grown
    exact headroom.accepting pc rfl (by simp only; omega)
  | acceptPublish pc here accepted grown published =>
    subst published
    have one := next pc here accepted
    have taken := BlockTable.ensureCapacity_freeBlocks grown
    exact headroom.accepting pc rfl (by simp only; omega)
  | sweepRetire pc => exact of_served served (.inl (by simp [pc, Pc.admitting])) (by simp [pc])
  | @sweepKeep starved _ _ _ pc =>
    rw [pc] at served
    cases starved <;> exact of_served served (.inl rfl) (by simp)
  | sweepResolve pc =>
    rw [pc] at served
    exact of_served served (.inl rfl) (by simp)
  | sweepLoop => exact of_served rfl (.inr rfl) (by simp)
  | resolveEnd => exact of_served rfl (.inl rfl) (by simp)
  | resolveGone pc | resolveFail pc | resolveRoom pc | reclaimGone pc | reclaimGrow pc | reclaimDonor pc
  | reclaimEnd pc | preemptGone pc | preemptGrow pc | preemptEvict pc | preemptEnd pc =>
    simp [pc, Pc.unserved, Pc.serving, Pc.short] at served

/-- What an admission beside others leaves. -/
theorem enter {job : Job} (layout : Layout w config s) (pc : s.pc = .reserve job)
    (unfinished : job.state.finished = false) (sized : 0 < s.blocks.blockSize)
    (off : config.prefixCaching = false) (batch : config.maxBatchSize ≤ 2 ^ 31) (others : s.active ≠ [])
    (move : Move w config s q s' q') (joined : s'.active.length = s.active.length + 1) : s'.Headroom := by
  cases move with
  | @place job' table blocks cache pc' fits =>
    rw [pc] at pc'
    cases pc'
    exact placed fits layout pc sized batch others
  | adopt pc' fits touched caching => simp [off] at caching
  | placeFailed pc' failed =>
    rw [pc] at pc'
    cases pc'
    simp [unfinished] at failed
  | giveUp | reject | defer | adoptCrash => simp [Continuous.reject, Continuous.defer] at joined
  | _ pc' => simp [pc] at pc'

end Headroom

end Continuous

namespace Server

variable {σ : Type} {w : World σ} {config : SchedulerConfig} {capacity : Nat} {world : σ}

/-- The rest of a turn of the continuous loop: steps from `s` on until it is at the top again. -/
def restOfTurn (w : World σ) (config : SchedulerConfig) (capacity : Nat) (world : σ) (s : Server (Continuous σ)) :
    Machine (Server (Continuous σ)) Event :=
  ((continuous w config capacity world).startingAt s).guarded fun u _ _ => u.thread.pc ≠ .takeWork

/-- With prefix caching off, an engine that throws in `decode` at most and prompts of at least one
    token: once a request that passed the context check has been admitted beside others, nobody runs
    short of blocks in that turn. -/
theorem headroom_suffices {past events more : List Event} {s t u : Server (Continuous σ)} {job : Job}
    (engine : w.OnlyDecodeThrows) (off : config.prefixCaching = false)
    (batch : (config.construct w.caps).maxBatchSize ≤ 2 ^ 31)
    (run : (continuous w config capacity world).Run past s) (inHand : s.thread.pc = .reserve job)
    (unfinished : job.state.finished = false) (others : s.thread.active ≠ [])
    (step : (continuous w config capacity world).step s events t)
    (admitted : t.thread.active.length = s.thread.active.length + 1)
    (rest : (restOfTurn w config capacity world t).Run more u)
    (prompts : ∀ r ∈ u.accepted, w.tokenize r.spec.prompt true ≠ []) : u.thread.pc.short = [] := by
  have entered : t.thread.Headroom := by
    cases step with
    | push request fresh => simp [push] at admitted
    | close => simp [close] at admitted
    | run stepped =>
      have layout := (settled_run run).layout
      obtain ⟨s', move, rfl, rfl⟩ := Continuous.step_move (config.construct_maxBatchSize_pos w.caps) layout stepped
      have after : s'.Headroom := .enter layout inHand unfinished (sized_run run) (construct_prefixCaching off)
        batch others move admitted
      exact ⟨after.served, after.others, after.free, after.left⟩
  -- along the rest of the turn, for the requests accepted by then
  have kept : (∀ r ∈ u.accepted, w.tokenize r.spec.prompt true ≠ []) → u.thread.Headroom := by
    clear prompts
    induction rest with
    | start initial =>
      cases initial
      exact fun _ => entered
    | next earlier step' ih =>
      obtain ⟨step', within⟩ := step'
      have reached := (run.next step).andThen earlier.of_guarded
      cases step' with
      | push request fresh =>
        intro prompts
        exact ih fun r member => prompts r (push_accepted_subset request _ member)
      | close => exact ih
      | run stepped =>
        intro prompts
        have layout := (settled_run reached).layout
        obtain ⟨s', move, rfl, rfl⟩ := Continuous.step_move (config.construct_maxBatchSize_pos w.caps) layout stepped
        have supplied := (supplied_run engine off reached fun r member _ => prompts r member).1
        have after : s'.Headroom := (ih prompts).move layout (orderly_run reached) supplied (sized_run reached)
          (uncached_run off reached) (construct_prefixCaching off) batch within move
        exact ⟨after.served, after.others, after.free, after.left⟩
  have served := (kept prompts).served
  exact (List.append_eq_nil_iff.mp served).2

/-- Two requests come at once.  The first is admitted to an empty batch and the second beside it, and
    in the same turn both are sampled for and have their blocks. -/
theorem headroom_suffices_letter :
    Script.letter.world.OnlyDecodeThrows ∧ (SchedulerConfig.pair 8).prefixCaching = false ∧
      ((SchedulerConfig.pair 8).construct Script.letter.world.caps).maxBatchSize ≤ 2 ^ 31 ∧
      ∃ past s events t more u job, (continuous Script.letter.world (.pair 8) 4 fun _ => none).Run past s ∧
        s.thread.pc = .reserve job ∧ job.state.finished = false ∧ s.thread.active ≠ [] ∧
        (continuous Script.letter.world (.pair 8) 4 fun _ => none).step s events t ∧
        t.thread.active.length = s.thread.active.length + 1 ∧
        (restOfTurn Script.letter.world (.pair 8) 4 (fun _ => none) t).Run more u ∧
        (∀ r ∈ u.accepted, Script.letter.world.tokenize r.spec.prompt true ≠ []) ∧
        u.thread.pc = .sweep 0 (some []) ∧ u.thread.pc.short = [] := by
  have engine := Script.letter.world_onlyDecodeThrows
  have batch : ((SchedulerConfig.pair 8).construct Script.letter.world.caps).maxBatchSize ≤ 2 ^ 31 := by
    decide
  obtain ⟨past, s, events, t, more, u, run, step, rest, inHand, unfinished, others, admitted, prompts, swept⟩ :
      ∃ past s events t more u,
      (continuous Script.letter.world (.pair 8) 4 fun _ => none).Run past s ∧
      (continuous Script.letter.world (.pair 8) 4 fun _ => none).step s events t ∧
      (restOfTurn Script.letter.world (.pair 8) 4 (fun _ => none) t).Run more u ∧
      (s.thread.pc = .reserve (Scheduler.newJob Script.letter.world
          { id := 1, spec := { prompt := [1], maxTokens := 4 } } 1) ∧
        (Scheduler.newJob Script.letter.world
          { id := 1, spec := { prompt := [1], maxTokens := 4 } } 1).state.finished = false ∧
        s.thread.active ≠ [] ∧ t.thread.active.length = s.thread.active.length + 1 ∧
        (∀ r ∈ u.accepted, Script.letter.world.tokenize r.spec.prompt true ≠ []) ∧
        u.thread.pc = .sweep 0 (some [])) :=
    exists_attempt ([.push { id := 0, spec := { prompt := [1], maxTokens := 4 } },
        .push { id := 1, spec := { prompt := [1], maxTokens := 4 } }] ++ List.replicate 6 .run)
      (List.replicate 5 .run) rfl rfl (by decide +kernel)
  exact ⟨engine, rfl, batch, past, s, events, t, more, u, _, run, inHand, unfinished, others, step, admitted,
    rest, prompts, swept,
    headroom_suffices engine rfl batch run inHand unfinished others step admitted rest prompts⟩

end Server

end MicroVllm
