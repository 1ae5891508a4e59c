import MicroVllm.Scheduler.Continuous

/-! # What a step of the continuous loop can do

`Move` lists the ways `Continuous.step` can go, each with what it found and what it
left behind, so that an invariant is checked move by move and never by unfolding the
loop.  A job that a move works on is shown in its place, `before ++ job :: after`; that
is what `findJob` and `setJob` do as long as no two active jobs share a slot.
-/

namespace MicroVllm

/-! ## Jobs by slot -/

def seqs (jobs : List Job) : List Nat := jobs.map fun job => job.state.seq

@[simp] theorem seqs_nil : seqs [] = [] := rfl

@[simp] theorem seqs_cons (job : Job) (jobs : List Job) :
    seqs (job :: jobs) = job.state.seq :: seqs jobs := rfl

@[simp] theorem seqs_append (jobs jobs' : List Job) :
    seqs (jobs ++ jobs') = seqs jobs ++ seqs jobs' := List.map_append

theorem mem_seqs {slot : Nat} {jobs : List Job} :
    slot ∈ seqs jobs ↔ ∃ job ∈ jobs, job.state.seq = slot := List.mem_map

/-- Around a job, the other jobs of a list without shared slots sit elsewhere. -/
theorem seqs_around {before after : List Job} {job : Job}
    (nodup : (seqs (before ++ job :: after)).Nodup) :
    (∀ j ∈ before, j.state.seq ≠ job.state.seq) ∧ ∀ j ∈ after, j.state.seq ≠ job.state.seq := by
  rw [seqs_append, seqs_cons, List.nodup_append, List.nodup_cons] at nodup
  obtain ⟨_, ⟨notAfter, _⟩, apart⟩ := nodup
  constructor
  · intro j member
    exact apart _ (mem_seqs.mpr ⟨j, member, rfl⟩) _ (by simp)
  · intro j member same
    exact notAfter (mem_seqs.mpr ⟨j, member, same⟩)

/-- The jobs beside one are in other slots. -/
theorem mem_beside {jobs before after : List Job} {job j : Job} (nodup : (seqs jobs).Nodup)
    (here : jobs = before ++ job :: after) (member : j ∈ before ++ after) :
    j ∈ jobs ∧ j.state.seq ≠ job.state.seq := by
  obtain ⟨notBefore, notAfter⟩ := seqs_around (here ▸ nodup)
  refine ⟨Lists.mem_of_without here member, ?_⟩
  rcases List.mem_append.mp member with earlier | later
  · exact notBefore j earlier
  · exact notAfter j later

theorem mem_replaced {jobs before after : List Job} {job job' j : Job} (nodup : (seqs jobs).Nodup)
    (here : jobs = before ++ job :: after) (member : j ∈ before ++ job' :: after) :
    j = job' ∨ j ∈ jobs ∧ j.state.seq ≠ job.state.seq := by
  rw [List.mem_append, List.mem_cons] at member
  rcases member with earlier | same | later
  · exact .inr (mem_beside nodup here (List.mem_append_left _ earlier))
  · exact .inl same
  · exact .inr (mem_beside nodup here (List.mem_append_right _ later))

theorem setJob_around {before after : List Job} (job job' : Job)
    (nodup : (seqs (before ++ job :: after)).Nodup) (same : job'.state.seq = job.state.seq) :
    setJob job' (before ++ job :: after) = before ++ job' :: after := by
  obtain ⟨notBefore, notAfter⟩ := seqs_around nodup
  have untouched : ∀ jobs : List Job, (∀ j ∈ jobs, j.state.seq ≠ job.state.seq) →
      jobs.map (fun j => if j.state.seq = job'.state.seq then job' else j) = jobs := by
    intro jobs elsewhere
    conv_rhs => rw [← List.map_id jobs]
    apply List.map_congr_left
    intro j member
    rw [if_neg (by rw [same]; exact elsewhere j member), id]
  rw [setJob, List.map_append, List.map_cons, untouched before notBefore, untouched after notAfter,
    if_pos same.symm]

theorem filter_seq_around {before after : List Job} {job : Job}
    (nodup : (seqs (before ++ job :: after)).Nodup) :
    (before ++ job :: after).filter (fun j => j.state.seq ≠ job.state.seq) = before ++ after := by
  obtain ⟨notBefore, notAfter⟩ := seqs_around nodup
  rw [List.filter_append, List.filter_cons_of_neg (by simp)]
  rw [List.filter_eq_self.mpr (by simpa using notBefore),
    List.filter_eq_self.mpr (by simpa using notAfter)]

theorem findJob_eq_some {slot : Nat} {jobs : List Job} {job : Job}
    (found : findJob slot jobs = some job) :
    ∃ before after, jobs = before ++ job :: after ∧ job.state.seq = slot := by
  obtain ⟨named, before, after, split, _⟩ := List.find?_eq_some_iff_append.mp found
  exact ⟨before, after, split, by simpa using named⟩

theorem findJob_eq_none {slot : Nat} {jobs : List Job} (missing : findJob slot jobs = none) :
    slot ∉ seqs jobs := by
  intro member
  obtain ⟨job, inside, named⟩ := mem_seqs.mp member
  have other := List.find?_eq_none.mp missing job inside
  simp [named] at other

/-- Two stages of one job, whatever its table. -/
structure Job.Same (job job' : Job) : Prop where
  request : job'.request = job.request
  state : job.state.SameOrigin job'.state

theorem Job.Same.refl (job : Job) : job.Same job := ⟨rfl, .refl _⟩

theorem Job.Same.trans {job job' job'' : Job} (first : job.Same job') (second : job'.Same job'') :
    job.Same job'' :=
  ⟨second.request.trans first.request, first.state.trans second.state⟩

theorem Job.Same.withBlocks (job : Job) (table : BlockTable) : job.Same { job with blocks := table } :=
  ⟨rfl, .refl _⟩

/-- Two stages of one job with the same blocks. -/
structure Job.SameTable (job job' : Job) : Prop extends Job.Same job job' where
  blocks : job'.blocks.blocks = job.blocks.blocks

theorem Job.SameTable.refl (job : Job) : job.SameTable job := ⟨.refl job, rfl⟩

theorem Job.SameTable.trans {job job' job'' : Job} (first : job.SameTable job')
    (second : job'.SameTable job'') : job.SameTable job'' :=
  ⟨first.toSame.trans second.toSame, second.blocks.trans first.blocks⟩

theorem same_of_sameTable {jobs jobs' : List Job} (same : List.Forall₂ Job.SameTable jobs jobs') :
    List.Forall₂ Job.Same jobs jobs' :=
  same.imp fun _ _ both => both.toSame

theorem seqs_of_same {jobs jobs' : List Job} (same : List.Forall₂ Job.Same jobs jobs') :
    seqs jobs' = seqs jobs := by
  induction same with
  | nil => rfl
  | cons head _ ih => rw [seqs_cons, seqs_cons, head.state.seq, ih]

/-- The job is one that `make_job` builds for its request and slot, at a later stage. -/
def Job.Origin {σ : Type} (w : World σ) (job : Job) : Prop :=
  (Scheduler.newState w job.request job.state.seq).SameOrigin job.state

theorem Job.Origin.of_same {σ : Type} {w : World σ} {job job' : Job} (origin : job.Origin w)
    (same : job.Same job') : job'.Origin w := by
  unfold Job.Origin at origin ⊢
  rw [same.request, same.state.seq]
  exact origin.trans same.state

theorem origin_newJob {σ : Type} (w : World σ) (request : Request) (seq : Nat) :
    (Scheduler.newJob w request seq).Origin w := by
  unfold Job.Origin
  rw [Scheduler.newJob_request, Scheduler.newJob_seq]
  exact (Scheduler.newJob_same w request seq).toSameOrigin

namespace Job.Origin

variable {σ : Type} {w : World σ} {job : Job}

theorem prompt (origin : job.Origin w) :
    job.state.prompt = w.tokenize job.request.spec.prompt true :=
  SequenceState.SameOrigin.prompt origin

theorem prompt_lt (origin : job.Origin w) : job.state.prompt.length < 2 ^ 31 := by
  rw [origin.prompt]
  exact w.tokenize_length _ _

theorem sink (origin : job.Origin w) : job.state.sink =
    if job.request.sink then .supplied job.request.id else .collecting job.request.id :=
  SequenceState.SameOrigin.sink origin

theorem promptTokens (origin : job.Origin w) :
    job.state.usage.promptTokens = job.state.prompt.length := by
  have cast := SequenceState.SameOrigin.promptTokens origin
  rw [cast, origin.prompt]
  exact toUint32_of_lt (Nat.lt_trans (w.tokenize_length _ _) (by decide))

end Job.Origin

namespace Continuous

variable {σ : Type} {w : World σ} {config : SchedulerConfig}

/-- Everything behind the victim of a preemption is finished or the starved job. -/
theorem victim?_eq_some {starved : Nat} {active : List Job} {job : Job}
    (found : victim? starved active = some job) :
    ∃ before after, active = before ++ job :: after ∧ job.state.finished = false ∧
      job.state.seq ≠ starved ∧
      ∀ j ∈ after, j.state.finished = true ∨ j.state.seq = starved := by
  obtain ⟨chosen, later, earlier, split, skipped⟩ := List.find?_eq_some_iff_append.mp found
  simp only [Bool.and_eq_true, Bool.not_eq_true', decide_eq_true_eq] at chosen
  refine ⟨earlier.reverse, later.reverse, ?_, chosen.1, chosen.2, ?_⟩
  · rw [← List.reverse_reverse active, split]
    simp
  · intro j member
    have skip := skipped j (List.mem_reverse.mp member)
    cases done : j.state.finished with
    | true => exact .inl rfl
    | false => exact .inr (by simpa [done] using skip)

theorem victim?_eq_none {starved : Nat} {active : List Job} (found : victim? starved active = none) :
    ∀ j ∈ active, j.state.finished = true ∨ j.state.seq = starved := by
  intro j member
  have skip := List.find?_eq_none.mp found j (List.mem_reverse.mpr member)
  cases done : j.state.finished with
  | true => exact .inl rfl
  | false => exact .inr (by simpa [done] using skip)

/-- The job in hand gets no blocks: too few are free with no donor left to give up, or
    enough are free for the watermark and the pool still cannot supply them. -/
def NoRoom (w : World σ) (job : Job) (s : Continuous σ) : Prop :=
  (s.blocks.freeBlocks < s.watermark job ∧ s.reclaimDonorBlocks w = none) ∨
    (s.watermark job ≤ s.blocks.freeBlocks ∧
      job.blocks.ensureCapacity job.state.usage.promptTokens s.blocks = none)

/-- The job in hand gets the blocks of its prompt. -/
structure Fits (job : Job) (s : Continuous σ) (table : BlockTable) (blocks : BlockAllocator) :
    Prop where
  unfinished : job.state.finished = false
  room : s.watermark job ≤ s.blocks.freeBlocks
  grown : job.blocks.ensureCapacity job.state.usage.promptTokens s.blocks = some (table, blocks)

/-- The next turn admits this job: it has not been refused, and gets its blocks. -/
def Enters (s : Continuous σ) (job : Job) : Prop :=
  job.state.finished = false ∧ s.watermark job ≤ s.blocks.freeBlocks ∧
    (job.blocks.ensureCapacity job.state.usage.promptTokens s.blocks).isSome = true

instance (s : Continuous σ) (job : Job) : Decidable (s.Enters job) := inferInstanceAs (Decidable (_ ∧ _ ∧ _))

theorem Fits.enters {s : Continuous σ} {job : Job} {table : BlockTable} {blocks : BlockAllocator}
    (fits : s.Fits job table blocks) : s.Enters job :=
  ⟨fits.unfinished, fits.room, Option.isSome_of_eq_some fits.grown⟩

/-- An admitted job after it has inherited a cached prefix. -/
def inherit (job : Job) (table : BlockTable) (hit : Entry) : Job :=
  { job with
    blocks :=
      { blocks := table.blocks ++ hit.blocks
        nTokens := max table.nTokens hit.nTokens
        sharedPrefixBlocks := hit.blocks.length
        sharedPrefixTokens := hit.nTokens }
    state := job.state.adoptCachedPrefix hit.nTokens }

/-- When `publish` writes an entry for a job. -/
structure Offers (config : SchedulerConfig) (job : Job) (blockSize : Nat) : Prop where
  caching : config.prefixCaching = true
  prefilled : job.state.prefilling = false
  whole : 0 < job.offeredBlocks blockSize
  backed : job.offeredBlocks blockSize ≤ job.blocks.nBlocks

/-- The key it writes the entry under. -/
def offerHash (job : Job) (blockSize : Nat) : UInt64 :=
  PrefixCache.hashPrefix job.state.prompt (job.offer blockSize).nTokens

inductive Move (w : World σ) (config : SchedulerConfig) :
    Continuous σ → RequestQueue → Continuous σ → RequestQueue → Prop where
  -- taking work
  | take {s q request rest} (pc : s.pc = .takeWork)
      (room : s.pending.length + s.active.length < config.maxBatchSize)
      (front : q.queue = request :: rest) :
      Move w config s q { s with pending := s.pending ++ [request] } { q with queue := rest }
  | leave {s q} (pc : s.pc = .takeWork) (busy : s.idle = false) :
      Move w config s q { s with pc := .admitNext } q
  | finish {s q} (pc : s.pc = .takeWork) (idle : s.idle = true) (empty : q.queue = [])
      (closed : q.closed = true) :
      Move w config s q { s with pc := .done } q
  -- admission
  | make {s q request pending slot slots port} (pc : s.pc = .admitNext)
      (next : s.pending = request :: pending) (free : s.freeSlots = slot :: slots)
      (begun : s.port.beginSequence w slot request.spec.sampling = (.ok (), port)) :
      Move w config s q
        { s with port := port, pending := pending, pc := .reserve (Scheduler.newJob w request slot) } q
  | makeCrash {s q request pending slot slots message port} (pc : s.pc = .admitNext)
      (next : s.pending = request :: pending) (free : s.freeSlots = slot :: slots)
      (begun : s.port.beginSequence w slot request.spec.sampling = (.error message, port)) :
      Move w config s q { s with port := port, pending := pending, pc := .crashed message } q
  | admitted {s q} (pc : s.pc = .admitNext) (stop : s.pending = [] ∨ s.freeSlots = []) :
      Move w config s q { s with pc := if s.active = [] then .takeWork else .build } q
  | giveUp {s q job members} (pc : s.pc = .reserve job)
      (short : s.blocks.freeBlocks < s.watermark job)
      (evicted : s.reclaimDonorBlocks w = some members) :
      Move w config s q { s with toScheduler := members } q
  | reject {s q job} (pc : s.pc = .reserve job) (unfinished : job.state.finished = false)
      (full : s.NoRoom w job) (alone : s.active = []) :
      Move w config s q (s.reject w job) q
  | defer {s q job} (pc : s.pc = .reserve job) (unfinished : job.state.finished = false)
      (full : s.NoRoom w job) (busy : s.active ≠ []) :
      Move w config s q (s.defer w job) q
  | placeFailed {s q job} (pc : s.pc = .reserve job) (failed : job.state.finished = true) :
      Move w config s q (s.place job) q
  | place {s q job table blocks cache} (pc : s.pc = .reserve job) (fits : s.Fits job table blocks)
      (same : s.prefixCache.SameEntries cache) :
      Move w config s q
        ({ s with blocks := blocks, prefixCache := cache }.place { job with blocks := table }) q
  | adopt {s q job table blocks cache hit port} (pc : s.pc = .reserve job)
      (fits : s.Fits job table blocks) (same : s.prefixCache.SameEntries cache)
      (caching : config.prefixCaching = true)
      (found : (PrefixCache.hashPrefix job.state.prompt hit.nTokens, hit) ∈ s.prefixCache.pairs)
      (positive : 0 < hit.nTokens) (within : hit.nTokens ≤ job.state.prompt.length)
      (copied : s.port.copySequence w hit.seq job.state.seq (toPos hit.nTokens) = (.ok (), port)) :
      Move w config s q
        ({ s with
            blocks := hit.blocks.foldl BlockAllocator.incref blocks
            prefixCache := cache
            port := ((port.note (.hit job.state.seq job.state.prompt hit)).note
              (.stat .prefixHits 1)).note (.stat .prefixTokensSaved hit.nTokens) }.place
          (inherit job table hit)) q
  | adoptCrash {s q job table blocks cache message port} {hit : Entry} (pc : s.pc = .reserve job)
      (fits : s.Fits job table blocks) (same : s.prefixCache.SameEntries cache)
      (copied : s.port.copySequence w hit.seq job.state.seq (toPos hit.nTokens) =
        (.error message, port)) :
      Move w config s q
        { s with blocks := blocks, prefixCache := cache, port := port, pc := .crashed message } q
  -- the batch
  | buildNothing {s q} (pc : s.pc = .build)
      (nothing : (buildBatch w.caps.nBatch config s.active).items = []) :
      Move w config s q
        { s with
          active := (buildBatch w.caps.nBatch config s.active).active
          pc := .sweep 0 (some []) } q
  | decode {s q steps port} (pc : s.pc = .build)
      (something : (buildBatch w.caps.nBatch config s.active).items ≠ [])
      (returned : s.port.decode w (buildBatch w.caps.nBatch config s.active).items =
        (.ok steps, port)) :
      Move w config s q
        { s with
          port := port
          active := (buildBatch w.caps.nBatch config s.active).active
          nSteps := steps.length
          pc := .accept (buildBatch w.caps.nBatch config s.active).sampling steps [] } q
  | decodeFail {s q message port} (pc : s.pc = .build)
      (something : (buildBatch w.caps.nBatch config s.active).items ≠ [])
      (threw : s.port.decode w (buildBatch w.caps.nBatch config s.active).items =
        (.error message, port)) :
      Move w config s q
        ({ s with
            port := port
            active := (buildBatch w.caps.nBatch config s.active).active
            pc := .sweep 0 (some []) }.failAll message) q
  -- accepting the sampled tokens
  | acceptEnd {s q steps grewShort} (pc : s.pc = .accept [] steps grewShort) :
      Move w config s q { s with pc := .sweep 0 (some grewShort) } q
  | acceptFail {s q slot sampling grewShort} (pc : s.pc = .accept (slot :: sampling) [] grewShort) :
      Move w config s q ({ s with pc := .sweep 0 (some grewShort) }.failAll (outOfRange s.nSteps)) q
  | acceptStray {s q slot sampling step steps grewShort}
      (pc : s.pc = .accept (slot :: sampling) (step :: steps) grewShort)
      (missing : slot ∉ seqs s.active) :
      Move w config s q { s with pc := .accept sampling steps grewShort } q
  | acceptFinish {s q sampling step steps grewShort before job after state port}
      (pc : s.pc = .accept (job.state.seq :: sampling) (step :: steps) grewShort)
      (here : s.active = before ++ job :: after)
      (accepted : job.state.accept w step s.port = (false, state, port)) :
      Move w config s q
        { s with
          port := (state.finish w port).2
          active := before ++ { job with state := (state.finish w port).1 } :: after
          pc := .accept sampling steps grewShort } q
  | acceptStarve {s q sampling step steps grewShort before job after state port}
      (pc : s.pc = .accept (job.state.seq :: sampling) (step :: steps) grewShort)
      (here : s.active = before ++ job :: after)
      (accepted : job.state.accept w step s.port = (true, state, port))
      (full : job.blocks.ensureCapacity { job with state := state }.needed s.blocks = none) :
      Move w config s q
        { s with
          port := port
          active := before ++ { job with state := state } :: after
          pc := .accept sampling steps (grewShort ++ [job.state.seq]) } q
  | acceptGrow {s q sampling step steps grewShort before job after state port table blocks}
      (pc : s.pc = .accept (job.state.seq :: sampling) (step :: steps) grewShort)
      (here : s.active = before ++ job :: after)
      (accepted : job.state.accept w step s.port = (true, state, port))
      (grown : job.blocks.ensureCapacity { job with state := state }.needed s.blocks =
        some (table, blocks))
      (silent : ¬ Offers config { job with state := state, blocks := table } blocks.blockSize) :
      Move w config s q
        { s with
          port := port
          blocks := blocks
          active := before ++ { job with state := state, blocks := table } :: after
          pc := .accept sampling steps grewShort } q
  | acceptPublish {s q sampling step steps grewShort before job after state port table blocks job'}
      (pc : s.pc = .accept (job.state.seq :: sampling) (step :: steps) grewShort)
      (here : s.active = before ++ job :: after)
      (accepted : job.state.accept w step s.port = (true, state, port))
      (grown : job.blocks.ensureCapacity { job with state := state }.needed s.blocks =
        some (table, blocks))
      (published : job' = { job with state := state, blocks := table })
      (offers : Offers config job' blocks.blockSize) :
      Move w config s q
        { s with
          port := port.note (.index job.state.seq (offerHash job' blocks.blockSize)
            (job'.offer blocks.blockSize)
            ((s.prefixCache.find? (offerHash job' blocks.blockSize)).map Record.entry))
          blocks := blocks
          prefixCache := s.prefixCache.insert (offerHash job' blocks.blockSize)
            (job'.offer blocks.blockSize)
          active := before ++ job' :: after
          pc := .accept sampling steps grewShort } q
  -- the sweeps
  | sweepRetire {s q starved before job after} (pc : s.pc = .sweep before.length starved)
      (here : s.active = before ++ job :: after) (finished : job.state.finished = true) :
      Move w config s q
        { s with
          toScheduler := s.retire w config job
          freeSlots := job.state.seq :: s.freeSlots
          active := before ++ after } q
  | sweepKeep {s q starved before job after} (pc : s.pc = .sweep before.length starved)
      (here : s.active = before ++ job :: after) (unfinished : job.state.finished = false) :
      Move w config s q { s with pc := .sweep (before.length + 1) starved } q
  | sweepResolve {s q i starved} (pc : s.pc = .sweep i (some starved)) (through : s.active.length ≤ i) :
      Move w config s q { s with pc := .resolve starved } q
  | sweepLoop {s q i} (pc : s.pc = .sweep i none) (through : s.active.length ≤ i) :
      Move w config s q
        { s with
          port := s.port.note (.stat .kvBlocksUsed s.blocks.usedBlocks)
          pc := .takeWork } q
  -- making room for the starved jobs
  | resolveEnd {s q} (pc : s.pc = .resolve []) : Move w config s q { s with pc := .sweep 0 none } q
  | resolveGone {s q slot starved} (pc : s.pc = .resolve (slot :: starved))
      (gone : slot ∉ seqs s.active) :
      Move w config s q { s with pc := .resolve starved } q
  | resolveFail {s q starved before job after finished} (pc : s.pc = .resolve (job.state.seq :: starved))
      (here : s.active = before ++ job :: after)
      (large : s.blocks.total < s.blocks.blocksFor job.needed)
      (failed : (job.state.fail (s.exhaustedMessage job) .contextOverflow).finish w s.port = finished) :
      Move w config s q
        { s with
          port := finished.2
          active := before ++ { job with state := finished.1 } :: after
          pc := .resolve starved } q
  | resolveRoom {s q starved before job after} (pc : s.pc = .resolve (job.state.seq :: starved))
      (here : s.active = before ++ job :: after)
      (small : s.blocks.blocksFor job.needed ≤ s.blocks.total) :
      Move w config s q { s with pc := .reclaim job.state.seq starved } q
  | reclaimGone {s q slot starved} (pc : s.pc = .reclaim slot starved)
      (gone : slot ∉ seqs s.active) :
      Move w config s q { s with pc := .resolve starved } q
  | reclaimGrow {s q starved before job after table blocks}
      (pc : s.pc = .reclaim job.state.seq starved) (here : s.active = before ++ job :: after)
      (grown : job.blocks.ensureCapacity job.needed s.blocks = some (table, blocks)) :
      Move w config s q
        { s with
          blocks := blocks
          active := before ++ { job with blocks := table } :: after
          pc := .preempt job.state.seq starved } q
  | reclaimDonor {s q starved before job after members}
      (pc : s.pc = .reclaim job.state.seq starved) (here : s.active = before ++ job :: after)
      (full : job.blocks.ensureCapacity job.needed s.blocks = none)
      (evicted : s.reclaimDonorBlocks w = some members) :
      Move w config s q { s with toScheduler := members } q
  | reclaimEnd {s q starved before job after}
      (pc : s.pc = .reclaim job.state.seq starved) (here : s.active = before ++ job :: after)
      (full : job.blocks.ensureCapacity job.needed s.blocks = none)
      (noDonor : s.reclaimDonorBlocks w = none) :
      Move w config s q { s with pc := .preempt job.state.seq starved } q
  | preemptGone {s q slot starved} (pc : s.pc = .preempt slot starved)
      (gone : slot ∉ seqs s.active) :
      Move w config s q { s with pc := .resolve starved } q
  | preemptGrow {s q starved before job after table blocks}
      (pc : s.pc = .preempt job.state.seq starved) (here : s.active = before ++ job :: after)
      (grown : job.blocks.ensureCapacity job.needed s.blocks = some (table, blocks)) :
      Move w config s q
        { s with
          blocks := blocks
          active := before ++ { job with blocks := table } :: after
          pc := .resolve starved } q
  | preemptEvict {s q slot starved job before victim after} (pc : s.pc = .preempt slot starved)
      (starving : job ∈ s.active) (named : job.state.seq = slot)
      (full : job.blocks.ensureCapacity job.needed s.blocks = none)
      (here : s.active = before ++ victim :: after) (unfinished : victim.state.finished = false)
      (other : victim.state.seq ≠ slot)
      (last : ∀ j ∈ after, j.state.finished = true ∨ j.state.seq = slot) :
      Move w config s q
        { s with
          prefixCache := s.prefixCache.evictSequence victim.state.seq
          blocks := s.blocks.free victim.blocks.blocks
          port := ((s.port.releaseSequence w victim.state.seq).note (.stat .preemptions 1)).note
            (.preempt victim.request.id victim.state.seq slot victim.state.emitted)
          freeSlots := victim.state.seq :: s.freeSlots
          active := before ++ after
          pending := victim.reclaim :: s.pending } q
  | preemptEnd {s q starved job} (pc : s.pc = .preempt job.state.seq starved)
      (starving : job ∈ s.active)
      (full : job.blocks.ensureCapacity job.needed s.blocks = none)
      (alone : ∀ j ∈ s.active, j.state.finished = true ∨ j.state.seq = job.state.seq) :
      Move w config s q { s with pc := .resolve starved } q

/-- A dead thread does not move. -/
theorem Move.not_crashed {s s' : Continuous σ} {q q' : RequestQueue} (move : Move w config s q s' q') :
    ∀ message, s.pc ≠ .crashed message := by
  intro message dead
  cases move <;> simp_all

/-- The loop returns with nothing in flight, once the queue is closed and drained. -/
theorem Move.returned {s s' : Continuous σ} {q q' : RequestQueue} (move : Move w config s q s' q')
    (done : s'.pc = .done) : s'.active = [] ∧ s'.pending = [] ∧ q'.queue = [] ∧ q'.closed = true := by
  cases move with
  | finish pc idle empty closed =>
    simp only [Continuous.idle, decide_eq_true_eq] at idle
    exact ⟨idle.1, idle.2, empty, closed⟩
  | take pc | giveUp pc | sweepRetire pc | reclaimDonor pc | preemptEvict pc => simp [pc] at done
  | admitted =>
    simp only at done
    split at done <;> cases done
  | defer =>
    simp only [Continuous.defer] at done
    split at done <;> cases done
  | _ => cases done

/-! ## Slots -/

/-- Free slots and the slots of active jobs are the batch slots, each once; the job in
    hand was built for the slot on top of the free ones, and every active job goes back to
    such a job. -/
structure Layout (w : World σ) (config : SchedulerConfig) (s : Continuous σ) : Prop where
  slots : (s.freeSlots ++ seqs s.active).Perm (List.range config.maxBatchSize)
  hand : ∀ job, s.pc = .reserve job → ∃ request slot slots,
    job = Scheduler.newJob w request slot ∧ s.freeSlots = slot :: slots
  origin : ∀ job ∈ s.active, job.Origin w

theorem Layout.nodup_all {s : Continuous σ} (layout : Layout w config s) :
    (s.freeSlots ++ seqs s.active).Nodup :=
  layout.slots.nodup_iff.mpr List.nodup_range

theorem Layout.nodup {s : Continuous σ} (layout : Layout w config s) : (seqs s.active).Nodup :=
  (List.nodup_append.mp layout.nodup_all).2.1

theorem Layout.not_active_of_free {s : Continuous σ} (layout : Layout w config s) {slot : Nat}
    (free : slot ∈ s.freeSlots) : slot ∉ seqs s.active :=
  fun active => (List.nodup_append.mp layout.nodup_all).2.2 slot free slot active rfl

theorem Layout.lt_of_active {s : Continuous σ} (layout : Layout w config s) {job : Job}
    (active : job ∈ s.active) : job.state.seq < config.maxBatchSize :=
  List.mem_range.mp (layout.slots.mem_iff.mp
    (List.mem_append_right _ (mem_seqs.mpr ⟨job, active, rfl⟩)))

/-! ## Every step is a move -/

theorem takeWork_move {s s' : Continuous σ} {q q' : RequestQueue} (batch : 0 < config.maxBatchSize)
    (pc : s.pc = .takeWork) (stepped : s.takeWork config q = some (s', q')) :
    Move w config s q s' q' := by
  have leaves : ∀ q, (s.idle = true → q.queue = [] ∧ q.closed = true) →
      Move w config s q s.leaveTakeWork q := by
    intro q drained
    cases idle : s.idle with
    | false => simpa [leaveTakeWork, idle] using Move.leave pc idle
    | true =>
      obtain ⟨empty, closed⟩ := drained idle
      simpa [leaveTakeWork, idle] using Move.finish pc idle empty closed
  simp only [takeWork] at stepped
  split at stepped
  · rename_i room
    split at stepped
    · rename_i idle
      simp only [RequestQueue.pop] at stepped
      cases front : q.queue with
      | nil =>
        cases closed : q.closed with
        | false => simp [front, closed] at stepped
        | true =>
          simp only [front, closed, if_true, Option.some.injEq, Prod.mk.injEq] at stepped
          obtain ⟨rfl, rfl⟩ := stepped
          exact leaves _ fun _ => ⟨front, closed⟩
      | cons request rest =>
        simp only [front, Option.some.injEq, Prod.mk.injEq] at stepped
        obtain ⟨rfl, rfl⟩ := stepped
        exact .take pc room front
    · rename_i busy
      simp only [RequestQueue.tryPop] at stepped
      cases front : q.queue with
      | nil =>
        simp only [front, Option.some.injEq, Prod.mk.injEq] at stepped
        obtain ⟨rfl, rfl⟩ := stepped
        exact leaves _ fun idle => absurd idle busy
      | cons request rest =>
        simp only [front, Option.some.injEq, Prod.mk.injEq] at stepped
        obtain ⟨rfl, rfl⟩ := stepped
        exact .take pc room front
  · rename_i full
    simp only [Option.some.injEq, Prod.mk.injEq] at stepped
    obtain ⟨rfl, rfl⟩ := stepped
    refine leaves _ fun idle => ?_
    -- an idle loop has room, since a batch has at least one slot
    simp only [Continuous.idle, decide_eq_true_eq] at idle
    simp [idle.1, idle.2, batch] at full

theorem admitNext_move {s : Continuous σ} {q : RequestQueue} (pc : s.pc = .admitNext) :
    Move w config s q (s.admitNext w) q := by
  simp only [admitNext]
  split
  · rename_i request pending slot slots next free
    simp only [Scheduler.makeJob]
    cases begun : s.port.beginSequence w slot request.spec.sampling with
    | mk result port =>
      cases result with
      | ok => exact .make pc next free begun
      | error message => exact .makeCrash pc next free begun
  · rename_i stuck
    refine .admitted pc ?_
    cases next : s.pending with
    | nil => exact .inl rfl
    | cons request pending =>
      cases free : s.freeSlots with
      | nil => exact .inr rfl
      | cons slot slots => exact absurd free (stuck request pending slot slots next)

theorem share_move {s : Continuous σ} {q : RequestQueue} {job : Job} {table : BlockTable}
    {blocks : BlockAllocator} (pc : s.pc = .reserve job) (fits : s.Fits job table blocks)
    (small : job.state.prompt.length < 2 ^ 32) :
    Move w config s q
      ({ s with blocks := blocks }.share w config { job with blocks := table }) q := by
  simp only [share]
  split
  · rename_i caching
    obtain ⟨same, hits⟩ := s.prefixCache.findLongest_spec job.state.prompt blocks.blockSize small
    split
    · rename_i hit found
      obtain ⟨member, positive, within⟩ := hits hit found
      split
      · simp only [Continuous.adopt]
        cases copied : s.port.copySequence w hit.seq job.state.seq (toPos hit.nTokens) with
        | mk result port =>
          cases result with
          | ok => exact .adopt pc fits same caching.1 member positive within copied
          | error message => exact .adoptCrash pc fits same copied
      · exact .place pc fits same
    · exact .place pc fits same
  · exact .place pc fits ⟨rfl, rfl, rfl⟩

theorem decide_move {s : Continuous σ} {q : RequestQueue} {job : Job} (pc : s.pc = .reserve job)
    (small : job.state.prompt.length < 2 ^ 32)
    (settled : s.blocks.freeBlocks < s.watermark job → s.reclaimDonorBlocks w = none) :
    Move w config s q (s.decide w config job) q := by
  simp only [decide]
  split
  · rename_i failed
    simpa [share, failed] using Move.placeFailed pc failed
  · rename_i unfinished
    have unfinished : job.state.finished = false := by simpa using unfinished
    split
    · rename_i table blocks grown
      split at grown
      · rename_i room
        exact share_move pc ⟨unfinished, room, grown⟩ small
      · simp at grown
    · rename_i failed
      have full : s.NoRoom w job := by
        split at failed
        · rename_i room
          exact .inr ⟨room, failed⟩
        · rename_i short
          exact .inl ⟨by omega, settled (by omega)⟩
      split
      · rename_i alone
        exact .reject pc unfinished full alone
      · rename_i busy
        exact .defer pc unfinished full busy

theorem reserve_move {s : Continuous σ} {q : RequestQueue} {job : Job} (pc : s.pc = .reserve job)
    (small : job.state.prompt.length < 2 ^ 32) :
    Move w config s q (s.reserve w config job) q := by
  simp only [reserve]
  split
  · rename_i short
    split
    · rename_i members evicted
      exact .giveUp pc short evicted
    · rename_i none
      exact decide_move pc small fun _ => none
  · rename_i room
    exact decide_move pc small fun short => absurd short room

theorem build_move {s : Continuous σ} {q : RequestQueue} (pc : s.pc = .build) :
    Move w config s q (s.build w config) q := by
  simp only [build]
  split
  · rename_i nothing
    exact .buildNothing pc nothing
  · rename_i something
    cases decoded : s.port.decode w (buildBatch w.caps.nBatch config s.active).items with
    | mk result port =>
      cases result with
      | ok steps => exact .decode pc something decoded
      | error message => exact .decodeFail pc something decoded

theorem accept_move {s : Continuous σ} {q : RequestQueue} {sampling : List Nat}
    {steps : List GenStep} {grewShort : List Nat} (nodup : (seqs s.active).Nodup)
    (pc : s.pc = .accept sampling steps grewShort) :
    Move w config s q (s.accept w config sampling steps grewShort) q := by
  cases sampling with
  | nil => exact .acceptEnd pc
  | cons slot sampling =>
    cases steps with
    | nil => exact .acceptFail pc
    | cons step steps =>
      simp only [accept]
      cases found : findJob slot s.active with
      | none => exact .acceptStray pc (findJob_eq_none found)
      | some job =>
        obtain ⟨before, after, here, rfl⟩ := findJob_eq_some found
        -- the job is written back to where it was found, as no other has its slot
        have put : ∀ job', job'.state.seq = job.state.seq →
            setJob job' s.active = before ++ job' :: after := by
          intro job' same
          rw [here]
          exact setJob_around _ _ (here ▸ nodup) same
        obtain ⟨goesOn, state, port, accepted⟩ :
            ∃ goesOn state port, job.state.accept w step s.port = (goesOn, state, port) :=
          ⟨_, _, _, rfl⟩
        have sameSeq := (SequenceState.accept_same accepted).seq
        cases goesOn with
        | false =>
          have done := put { job with state := (state.finish w port).1 }
            ((SequenceState.finish_same (w := w) state port).seq.trans sameSeq)
          simp only [acceptJob, accepted, done, Bool.false_eq_true, if_false]
          exact .acceptFinish pc here accepted
        | true =>
          cases grown : job.blocks.ensureCapacity { job with state := state }.needed s.blocks with
          | none =>
            simp only [acceptJob, accepted, grown, put { job with state := state } sameSeq, if_true]
            exact .acceptStarve pc here accepted grown
          | some pair =>
            obtain ⟨table, blocks⟩ := pair
            simp only [acceptJob, accepted, grown,
              put { job with state := state, blocks := table } sameSeq, publish, Bool.false_eq_true,
              if_false]
            by_cases offers : Offers config { job with state := state, blocks := table } blocks.blockSize
            · have move := Move.acceptPublish (q := q) pc here accepted grown rfl offers
              rw [if_pos ⟨offers.caching, by simpa using offers.prefilled, offers.whole, offers.backed⟩]
              simpa [offerHash, sameSeq] using move
            · rw [if_neg fun holds => offers
                ⟨holds.1, by simpa using holds.2.1, holds.2.2.1, holds.2.2.2⟩]
              exact .acceptGrow pc here accepted grown offers

theorem sweep_move {s : Continuous σ} {q : RequestQueue} {i : Nat} {starved : Option (List Nat)}
    (pc : s.pc = .sweep i starved) : Move w config s q (s.sweep w config i starved) q := by
  simp only [sweep]
  cases here : s.active[i]? with
  | some job =>
    obtain ⟨inside, same⟩ := List.getElem?_eq_some_iff.mp here
    have split : s.active = s.active.take i ++ job :: s.active.drop (i + 1) := by
      rw [← same, List.cons_getElem_drop_succ, List.take_append_drop]
    have length : (s.active.take i).length = i := List.length_take_of_le (by omega)
    have pc : s.pc = .sweep (s.active.take i).length starved := by rw [length]; exact pc
    simp only
    split
    · rename_i finished
      rw [List.eraseIdx_eq_take_drop_succ]
      exact .sweepRetire pc split finished
    · rename_i unfinished
      have move : Move w config s q _ q := .sweepKeep pc split (by simpa using unfinished)
      rwa [length] at move
  | none =>
    have through : s.active.length ≤ i := List.getElem?_eq_none_iff.mp here
    cases starved with
    | some starved => exact .sweepResolve pc through
    | none => exact .sweepLoop pc through

theorem resolve_move {s : Continuous σ} {q : RequestQueue} {starved : List Nat}
    (nodup : (seqs s.active).Nodup) (pc : s.pc = .resolve starved) :
    Move w config s q (s.resolve w starved) q := by
  cases starved with
  | nil => exact .resolveEnd pc
  | cons slot starved =>
    simp only [resolve]
    cases found : findJob slot s.active with
    | none => exact .resolveGone pc (findJob_eq_none found)
    | some job =>
      obtain ⟨before, after, here, rfl⟩ := findJob_eq_some found
      simp only
      split
      · rename_i large
        rw [here, setJob_around _ _ (here ▸ nodup) (SequenceState.finish_same (w := w) _ _).seq]
        exact .resolveFail pc here large rfl
      · rename_i small
        exact .resolveRoom pc here (by omega)

theorem reclaimStep_move {s : Continuous σ} {q : RequestQueue} {slot : Nat} {starved : List Nat}
    (nodup : (seqs s.active).Nodup) (pc : s.pc = .reclaim slot starved) :
    Move w config s q (s.reclaimStep w slot starved) q := by
  simp only [reclaimStep]
  cases found : findJob slot s.active with
  | none => exact .reclaimGone pc (findJob_eq_none found)
  | some job =>
    obtain ⟨before, after, here, rfl⟩ := findJob_eq_some found
    simp only
    cases grown : job.blocks.ensureCapacity job.needed s.blocks with
    | some pair =>
      simp only
      rw [here, setJob_around job { job with blocks := pair.1 } (here ▸ nodup) rfl]
      exact .reclaimGrow pc here grown
    | none =>
      simp only
      cases evicted : s.reclaimDonorBlocks w with
      | some members => exact .reclaimDonor pc here grown evicted
      | none => exact .reclaimEnd pc here grown evicted

theorem preemptStep_move {s : Continuous σ} {q : RequestQueue} {slot : Nat} {starved : List Nat}
    (nodup : (seqs s.active).Nodup) (pc : s.pc = .preempt slot starved) :
    Move w config s q (s.preemptStep w slot starved) q := by
  simp only [preemptStep]
  cases found : findJob slot s.active with
  | none => exact .preemptGone pc (findJob_eq_none found)
  | some job =>
    obtain ⟨before, after, here, rfl⟩ := findJob_eq_some found
    simp only
    cases grown : job.blocks.ensureCapacity job.needed s.blocks with
    | some pair =>
      simp only
      rw [here, setJob_around job { job with blocks := pair.1 } (here ▸ nodup) rfl]
      exact .preemptGrow pc here grown
    | none =>
      have starving : job ∈ s.active := by rw [here]; simp
      simp only [preemptOne]
      cases chosen : victim? job.state.seq s.active with
      | none => exact .preemptEnd pc starving grown (victim?_eq_none chosen)
      | some victim =>
        obtain ⟨front, back, split, unfinished, other, last⟩ := victim?_eq_some chosen
        have left : s.active.filter (fun j => j.state.seq ≠ victim.state.seq) = front ++ back := by
          rw [split]
          exact filter_seq_around (split ▸ nodup)
        simp only [left]
        exact .preemptEvict pc starving rfl grown split unfinished other last

theorem turn_move {s s' : Continuous σ} {q q' : RequestQueue} (batch : 0 < config.maxBatchSize)
    (layout : Layout w config s) (turned : s.turn w config q = some (s', q')) :
    Move w config s q s' q' := by
  have nodup : (seqs s.active).Nodup := layout.nodup
  simp only [turn] at turned
  split at turned
  case h_1 pc => exact takeWork_move batch pc turned
  case h_2 pc => cases turned; exact admitNext_move pc
  case h_3 job pc =>
    cases turned
    obtain ⟨request, slot, slots, rfl, _⟩ := layout.hand job pc
    refine reserve_move pc (Nat.lt_trans ?_ (by decide : 2 ^ 31 < 2 ^ 32))
    simpa using w.tokenize_length request.spec.prompt true
  case h_4 pc => cases turned; exact build_move pc
  case h_5 pc => cases turned; exact accept_move nodup pc
  case h_6 pc => cases turned; exact sweep_move pc
  case h_7 pc => cases turned; exact resolve_move nodup pc
  case h_8 pc => cases turned; exact reclaimStep_move nodup pc
  case h_9 pc => cases turned; exact preemptStep_move nodup pc
  case h_10 => cases turned
  case h_11 => cases turned

/-- What a step does: a move, whose log is what the step emits. -/
theorem step_move {s t : Continuous σ} {q q' : RequestQueue} {events : List Event}
    (batch : 0 < config.maxBatchSize) (layout : Layout w config s)
    (stepped : s.step w config q = some (events, t, q')) :
    ∃ s', Move w config s q s' q' ∧ events = s'.port.log ∧ t = s'.quiet := by
  simp only [step, Option.map_eq_some_iff] at stepped
  obtain ⟨⟨s', q''⟩, turned, same⟩ := stepped
  cases same
  exact ⟨s', turn_move batch layout turned, rfl, rfl⟩

/-! ## Jobs along a run -/

theorem forall₂_build {R : Job → Job → Prop} (refl : ∀ job, R job job)
    (chunk : ∀ job take, R job { job with state := (job.state.takePrefillChunk take).2 })
    (nBatch : Nat) (config : SchedulerConfig) (active : List Job) :
    List.Forall₂ R active (buildBatch nBatch config active).active := by
  have chunks : ∀ chunkCap budget,
      List.Forall₂ R active (buildPrefills chunkCap budget active).1 := by
    intro chunkCap budget
    induction active generalizing budget with
    | nil => exact .nil
    | cons job active ih =>
      simp only [buildPrefills]
      split
      · exact .cons (refl job) (ih _)
      · exact .cons (chunk job _) (ih _)
  exact chunks _ _

theorem forall₂_failAll {R : Job → Job → Prop} (refl : ∀ job, R job job)
    (fails : ∀ job message, R job { job with state := job.state.fail message }) (message : String)
    (s : Continuous σ) : List.Forall₂ R s.active (s.failAll message).active := by
  simp only [failAll]
  rw [List.forall₂_map_right_iff]
  refine List.forall₂_same.mpr ?_
  intro job _
  split
  · exact refl job
  · exact fails job message

theorem finished_failAll {message : String} {s : Continuous σ} {job : Job}
    (member : job ∈ (s.failAll message).active) : job.state.finished = true := by
  obtain ⟨old, _, rfl⟩ := List.mem_map.mp member
  split
  · assumption
  · rfl

theorem same_build (nBatch : Nat) (config : SchedulerConfig) (active : List Job) :
    List.Forall₂ Job.SameTable active (buildBatch nBatch config active).active :=
  forall₂_build .refl (fun _ _ => ⟨⟨rfl, SequenceState.takePrefillChunk_same _ _⟩, rfl⟩)
    nBatch config active

theorem same_failAll (message : String) (s : Continuous σ) :
    List.Forall₂ Job.SameTable s.active (s.failAll message).active :=
  forall₂_failAll .refl (fun _ _ => ⟨⟨rfl, (SequenceState.fail_same _ _ _).toSameOrigin⟩, rfl⟩)
    message s

theorem same_decodeFail (nBatch : Nat) (config : SchedulerConfig) (message : String)
    (s : Continuous σ) : List.Forall₂ Job.SameTable s.active
      ({ s with active := (buildBatch nBatch config s.active).active }.failAll message).active :=
  Lists.forall₂_trans (R := Job.SameTable) .trans (same_build nBatch config s.active)
    (same_failAll message { s with active := (buildBatch nBatch config s.active).active })

theorem same_accept {job : Job} {state : SequenceState} {step : GenStep} {port port' : Port σ}
    {goesOn : Bool} (accepted : job.state.accept w step port = (goesOn, state, port'))
    {table : BlockTable} : job.Same { job with state := state, blocks := table } :=
  ⟨rfl, (SequenceState.accept_same accepted).toSameOrigin⟩

theorem same_finish {job job' : Job} (same : job.Same job') (port : Port σ) :
    job.Same { job' with state := (job'.state.finish w port).1 } :=
  same.trans ⟨rfl, (SequenceState.finish_same _ _).toSameOrigin⟩

/-- The three things a move can do to the active jobs: keep them, place the job in hand
    behind them, or take one out. -/
inductive Turnover (s s' : Continuous σ) : Prop where
  | kept (slots : s'.freeSlots = s.freeSlots) (same : List.Forall₂ Job.Same s.active s'.active)
  | placed {job job'} (pc : s.pc = .reserve job) (same : job.Same job')
      (slots : s'.freeSlots = s.freeSlots.tail) (active : s'.active = s.active ++ [job'])
  | left {before job after} (here : s.active = before ++ job :: after)
      (slots : s'.freeSlots = job.state.seq :: s.freeSlots) (active : s'.active = before ++ after)

theorem Turnover.same {s s' : Continuous σ} (slots : s'.freeSlots = s.freeSlots)
    (active : s'.active = s.active) : Turnover s s' :=
  .kept slots (by rw [active]; exact List.forall₂_same.mpr fun j _ => .refl j)

theorem Turnover.around {s s' : Continuous σ} {before after : List Job} {job job' : Job}
    (here : s.active = before ++ job :: after) (same : job.Same job')
    (slots : s'.freeSlots = s.freeSlots) (active : s'.active = before ++ job' :: after) :
    Turnover s s' :=
  .kept slots (by rw [here, active]; exact Lists.forall₂_around Job.Same.refl same)

theorem Move.turnover {s s' : Continuous σ} {q q' : RequestQueue} (move : Move w config s q s' q') :
    Turnover s s' := by
  cases move with
  | placeFailed pc => exact .placed pc (.refl _) rfl rfl
  | place pc =>
    refine .placed pc ?_ rfl rfl
    exact ⟨rfl, .refl _⟩
  | adopt pc =>
    refine .placed pc ?_ rfl rfl
    exact ⟨rfl, SequenceState.adoptCachedPrefix_same _ _⟩
  | buildNothing | decode => exact .kept rfl (same_of_sameTable (same_build _ _ _))
  | decodeFail => exact .kept rfl (same_of_sameTable (same_decodeFail _ _ _ s))
  | acceptFail => exact .kept rfl (same_of_sameTable (same_failAll _ _))
  | acceptFinish pc here accepted =>
    exact .around here (same_finish (same_accept accepted) _) rfl rfl
  | acceptStarve pc here accepted => exact .around here (same_accept accepted) rfl rfl
  | acceptGrow pc here accepted => exact .around here (same_accept accepted) rfl rfl
  | acceptPublish pc here accepted grown published =>
    subst published
    exact .around here (same_accept accepted) rfl rfl
  | sweepRetire pc here => exact .left here rfl rfl
  | resolveFail pc here large failed =>
    subst failed
    refine .around here ?_ rfl rfl
    exact ⟨rfl, ((SequenceState.fail_same _ _ _).trans
      (SequenceState.finish_same _ _)).toSameOrigin⟩
  | reclaimGrow pc here | preemptGrow pc here => exact .around here (.withBlocks _ _) rfl rfl
  | preemptEvict pc starving named full here => exact .left here rfl rfl
  | _ => exact .same rfl rfl

theorem layout_start (world : σ) :
    Layout w (config.construct w.caps) (start w config world) where
  slots := by simp [start]
  hand := by simp [start]
  origin := by simp [start]

theorem Turnover.slots {s s' : Continuous σ} (turnover : Turnover s s') (layout : Layout w config s) :
    (s'.freeSlots ++ seqs s'.active).Perm (List.range config.maxBatchSize) := by
  have all := layout.slots
  cases turnover with
  | kept slots same => rwa [slots, seqs_of_same same]
  | placed pc same slots active =>
    obtain ⟨request, slot, rest, rfl, free⟩ := layout.hand _ pc
    rw [free] at all
    rw [slots, active, free, seqs_append, seqs_cons, same.state.seq, Scheduler.newJob_seq,
      List.tail_cons, seqs_nil]
    refine List.Perm.trans ?_ all
    rw [← List.append_assoc]
    exact List.perm_append_singleton _ _
  | left here slots active =>
    rw [here] at all
    rw [slots, active]
    refine List.Perm.trans ?_ all
    simp only [seqs_append, seqs_cons, ← List.append_assoc]
    exact List.perm_middle.symm

theorem Turnover.origin {s s' : Continuous σ} (turnover : Turnover s s') (layout : Layout w config s) :
    ∀ job ∈ s'.active, job.Origin w := by
  cases turnover with
  | kept slots same =>
    intro job member
    obtain ⟨job', member', related⟩ := Lists.exists_of_forall₂_right same member
    exact (layout.origin job' member').of_same related
  | placed pc same slots active =>
    obtain ⟨request, slot, rest, rfl, free⟩ := layout.hand _ pc
    intro job member
    rw [active, List.mem_append, List.mem_singleton] at member
    rcases member with old | rfl
    · exact layout.origin job old
    · exact (origin_newJob w request slot).of_same same
  | left here slots active =>
    intro job member
    rw [active] at member
    exact layout.origin job (Lists.mem_of_without here member)

/-- A request in hand after a move was taken there by it, or was there while a donor was given up. -/
theorem Move.reserves {s s' : Continuous σ} {q q' : RequestQueue} (move : Move w config s q s' q')
    {job : Job} (inHand : s'.pc = .reserve job) :
    (∃ request slot slots, job = Scheduler.newJob w request slot ∧ s'.freeSlots = slot :: slots ∧
      s.port.beginSequence w slot request.spec.sampling = (.ok (), s'.port)) ∨
    (s.pc = .reserve job ∧ s'.freeSlots = s.freeSlots ∧
      s.reclaimDonorBlocks w = some s'.toScheduler) := by
  cases move with
  | make pc next free begun =>
    cases inHand
    exact .inl ⟨_, _, _, rfl, free, begun⟩
  | giveUp pc short evicted => exact .inr ⟨inHand, rfl, evicted⟩
  | take pc | sweepRetire pc | reclaimDonor pc | preemptEvict pc => simp [pc] at inHand
  | admitted =>
    simp only at inHand
    split at inHand <;> cases inHand
  | defer =>
    simp only [Continuous.defer] at inHand
    split at inHand <;> cases inHand
  | _ => cases inHand

theorem Layout.move {s s' : Continuous σ} {q q' : RequestQueue} (layout : Layout w config s)
    (move : Move w config s q s' q') : Layout w config s' := by
  refine ⟨move.turnover.slots layout, ?_, move.turnover.origin layout⟩
  intro job inHand
  rcases move.reserves inHand with ⟨request, slot, slots, taken, free, _⟩ | ⟨held, free, _⟩
  · exact ⟨request, slot, slots, taken, free⟩
  · rw [free]
    exact layout.hand job held

end Continuous

end MicroVllm
