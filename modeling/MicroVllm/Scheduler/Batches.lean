import MicroVllm.Scheduler.Moves

/-! # What a mixed batch holds

The decodes are the first ready jobs in the order of admission, as many as the budget
allows; the prefills are chunks of the prompts that are not through.  Each job gets at most
one item, and the sampling list names the owners of the sampling items in their order.
-/

namespace MicroVllm

/-- The items of a batch for one slot. -/
def itemsOf (slot : Nat) (items : List BatchItem) : List BatchItem := items.filter (·.seq = slot)

@[simp] theorem itemsOf_nil (slot : Nat) : itemsOf slot [] = [] := rfl

theorem itemsOf_cons_self {slot : Nat} {item : BatchItem} (items : List BatchItem)
    (owned : item.seq = slot) : itemsOf slot (item :: items) = item :: itemsOf slot items :=
  List.filter_cons_of_pos (by simpa using owned)

theorem itemsOf_cons_other {slot : Nat} {item : BatchItem} (items : List BatchItem)
    (other : item.seq ≠ slot) : itemsOf slot (item :: items) = itemsOf slot items :=
  List.filter_cons_of_neg (by simpa using other)

theorem itemsOf_append (slot : Nat) (a b : List BatchItem) :
    itemsOf slot (a ++ b) = itemsOf slot a ++ itemsOf slot b := List.filter_append ..

theorem itemsOf_eq_nil {slot : Nat} {items : List BatchItem} (away : ∀ item ∈ items, item.seq ≠ slot) :
    itemsOf slot items = [] := by
  rw [itemsOf, List.filter_eq_nil_iff]
  intro item member
  simpa using away item member

/-- An unfinished job whose prompt is through. -/
def Job.ready (job : Job) : Bool := !job.state.finished && !job.state.prefilling

/-- What a batch can do for a job: nothing, feed back its last token, or submit a chunk of
    its prompt. -/
inductive Served (job : Job) : Job → List BatchItem → Prop where
  | idle : Served job job []
  | decode (unfinished : job.state.finished = false) (through : job.state.prefilling = false) :
      Served job job [job.state.decodeItem]
  | prefill {take} (unfinished : job.state.finished = false) (positive : 0 < take)
      (within : take ≤ job.state.prefillRemaining) :
      Served job { job with state := (job.state.takePrefillChunk take).2 }
        [(job.state.takePrefillChunk take).1]

theorem Served.length_le_one {job job' : Job} {items : List BatchItem} (served : Served job job' items) :
    items.length ≤ 1 := by
  cases served <;> simp

theorem Served.seq_eq {job job' : Job} {items : List BatchItem} (served : Served job job' items) :
    job'.state.seq = job.state.seq := by
  cases served <;> rfl

theorem Served.request_eq {job job' : Job} {items : List BatchItem} (served : Served job job' items) :
    job'.request = job.request := by
  cases served <;> rfl

theorem Served.frame {job job' : Job} {items : List BatchItem} (served : Served job job' items) :
    job'.state.finished = job.state.finished ∧ job'.state.prompt = job.state.prompt ∧
      job'.blocks = job.blocks := by
  cases served <;> exact ⟨rfl, rfl, rfl⟩

/-- Nothing is submitted for a job that has ended. -/
theorem Served.idle_of_finished {job job' : Job} {items : List BatchItem} (served : Served job job' items)
    (finished : job.state.finished = true) : job' = job := by
  cases served with
  | idle => rfl
  | decode unfinished => simp [finished] at unfinished
  | prefill unfinished => simp [finished] at unfinished

/-! ## Decodes -/

theorem buildDecodes_eq (budget : Nat) (active : List Job) :
    buildDecodes budget active =
      (((active.filter Job.ready).take budget).map fun job => job.state.decodeItem,
        seqs ((active.filter Job.ready).take budget),
        budget - ((active.filter Job.ready).take budget).length) := by
  induction active generalizing budget with
  | nil => simp [buildDecodes]
  | cons job active ih =>
    simp only [buildDecodes]
    split
    · rename_i skipped
      have unready : Job.ready job = false := by
        rcases skipped with finished | prefilling
        · simp [Job.ready, finished]
        · simp [Job.ready, prefilling]
      rw [ih, List.filter_cons_of_neg (by simp [unready])]
    · rename_i serves
      have isReady : Job.ready job = true := by simpa [Job.ready] using serves
      rw [List.filter_cons_of_pos isReady]
      cases budget with
      | zero => simp
      | succ budget =>
        simp only [ih, List.take_succ_cons, List.map_cons, seqs_cons, List.length_cons]
        rw [Nat.add_sub_add_right]

/-- Among the decodes, a job has its own item or none. -/
theorem itemsOf_decodes {chosen : List Job} (nodup : (seqs chosen).Nodup) (slot : Nat) :
    itemsOf slot (chosen.map fun job => job.state.decodeItem) = [] ∨
      ∃ job ∈ chosen, job.state.seq = slot ∧
        itemsOf slot (chosen.map fun job => job.state.decodeItem) = [job.state.decodeItem] := by
  induction chosen with
  | nil => exact .inl rfl
  | cons job chosen ih =>
    rw [seqs_cons, List.nodup_cons] at nodup
    by_cases here : job.state.seq = slot
    · right
      refine ⟨job, List.mem_cons_self, here, ?_⟩
      have rest : itemsOf slot (chosen.map fun job => job.state.decodeItem) = [] := by
        apply itemsOf_eq_nil
        intro item member same
        obtain ⟨other, inside, rfl⟩ := List.mem_map.mp member
        exact nodup.1 (mem_seqs.mpr ⟨other, inside, same.trans here.symm⟩)
      rw [List.map_cons, itemsOf_cons_self _ here, rest]
    · rw [List.map_cons, itemsOf_cons_other _ here]
      rcases ih nodup.2 with none | ⟨other, inside, named, item⟩
      · exact .inl none
      · exact .inr ⟨other, List.mem_cons_of_mem _ inside, named, item⟩

/-! ## Prefills -/

theorem buildPrefills_owned (chunkCap budget : Nat) (active : List Job) :
    ∀ item ∈ (buildPrefills chunkCap budget active).2.1, item.seq ∈ seqs active := by
  induction active generalizing budget with
  | nil => simp [buildPrefills]
  | cons job active ih =>
    simp only [buildPrefills]
    split
    · exact fun item member => List.mem_cons_of_mem _ (ih _ item member)
    · intro item member
      rcases List.mem_cons.mp member with rfl | later
      · exact List.mem_cons_self
      · exact List.mem_cons_of_mem _ (ih _ item later)

/-- A job that is through, or finished, is passed over; another gets a chunk or nothing. -/
theorem buildPrefills_served (chunkCap budget : Nat) {active : List Job} (nodup : (seqs active).Nodup) :
    List.Forall₂ (fun job job' =>
        Served job job' (itemsOf job.state.seq (buildPrefills chunkCap budget active).2.1) ∧
        (job.ready = true → itemsOf job.state.seq (buildPrefills chunkCap budget active).2.1 = []))
      active (buildPrefills chunkCap budget active).1 := by
  induction active generalizing budget with
  | nil => exact .nil
  | cons job active ih =>
    rw [seqs_cons, List.nodup_cons] at nodup
    have alone : ∀ budget, itemsOf job.state.seq (buildPrefills chunkCap budget active).2.1 = [] :=
      fun budget => itemsOf_eq_nil fun item member same =>
        nodup.1 (same ▸ buildPrefills_owned _ _ _ item member)
    simp only [buildPrefills]
    split
    · refine .cons ?_ (ih _ nodup.2)
      rw [alone]
      exact ⟨.idle, fun _ => rfl⟩
    · rename_i serves
      have unfinished : job.state.finished = false := by
        cases finished : job.state.finished with
        | false => rfl
        | true => simp [finished] at serves
      have prefilling : job.state.prefilling = true := by
        cases prefilling : job.state.prefilling with
        | true => rfl
        | false => simp [prefilling] at serves
      refine .cons ?_ (Lists.forall₂_imp_mem ?_ (ih _ nodup.2))
      · have owned : ∀ take, (job.state.takePrefillChunk take).1.seq = job.state.seq := fun _ => rfl
        dsimp only
        rw [itemsOf_cons_self _ (owned _), alone]
        refine ⟨.prefill unfinished (by omega) (by omega), ?_⟩
        simp [Job.ready, prefilling]
      · intro other member job' served
        have different : job.state.seq ≠ other.state.seq :=
          fun same => nodup.1 (mem_seqs.mpr ⟨other, member, same.symm⟩)
        rw [itemsOf_cons_other _ different]
        exact served

theorem buildPrefills_sampling (chunkCap budget : Nat) (active : List Job) :
    (buildPrefills chunkCap budget active).2.2 =
      ((buildPrefills chunkCap budget active).2.1.filter (·.sample)).map (·.seq) := by
  induction active generalizing budget with
  | nil => rfl
  | cons job active ih =>
    simp only [buildPrefills]
    split
    · exact ih _
    · simp only [ih]
      cases samples : (job.state.takePrefillChunk
          (min budget (min chunkCap job.state.prefillRemaining))).1.sample with
      | true =>
        rw [List.filter_cons_of_pos (by simpa using samples)]
        rfl
      | false =>
        rw [List.filter_cons_of_neg (by simp [samples])]
        rfl

/-! ## The whole batch -/

theorem ready_sublist (active : List Job) (budget : Nat) :
    ((active.filter Job.ready).take budget).Sublist active :=
  (List.take_sublist _ _).trans List.filter_sublist

theorem buildBatch_owned (nBatch : Nat) (config : SchedulerConfig) (active : List Job) :
    ∀ item ∈ (buildBatch nBatch config active).items, item.seq ∈ seqs active := by
  intro item member
  simp only [buildBatch, buildDecodes_eq] at member
  rcases List.mem_append.mp member with decoded | prefilled
  · obtain ⟨job, chosen, rfl⟩ := List.mem_map.mp decoded
    exact mem_seqs.mpr ⟨job, (ready_sublist _ _).subset chosen, rfl⟩
  · exact buildPrefills_owned _ _ _ item prefilled

theorem buildBatch_served (nBatch : Nat) (config : SchedulerConfig) {active : List Job}
    (nodup : (seqs active).Nodup) :
    List.Forall₂ (fun job job' =>
        Served job job' (itemsOf job.state.seq (buildBatch nBatch config active).items))
      active (buildBatch nBatch config active).active := by
  simp only [buildBatch, buildDecodes_eq]
  refine Lists.forall₂_imp_mem ?_ (buildPrefills_served _ _ nodup)
  intro job member job' ⟨served, passed⟩
  rw [itemsOf_append]
  have distinct : (seqs ((active.filter Job.ready).take nBatch)).Nodup :=
    nodup.sublist ((ready_sublist active nBatch).map _)
  rcases itemsOf_decodes distinct job.state.seq with none | ⟨other, chosen, same, item⟩
  · rw [none]
    exact served
  · -- the chosen job of this slot is this one, and prefills pass it over
    have identical : other = job := List.inj_on_of_nodup_map nodup
      ((ready_sublist _ _).subset chosen) member same
    subst identical
    have isReady : Job.ready other = true :=
      (List.mem_filter.mp (List.mem_of_mem_take chosen)).2
    have nothing := passed isReady
    rw [nothing] at served ⊢
    rw [item, List.append_nil]
    cases served
    simp only [Job.ready, Bool.and_eq_true, Bool.not_eq_true'] at isReady
    exact .decode isReady.1 isReady.2

/-- The sampling list names the owners of the sampling items, in their order. -/
theorem buildBatch_sampling (nBatch : Nat) (config : SchedulerConfig) (active : List Job) :
    (buildBatch nBatch config active).sampling =
      ((buildBatch nBatch config active).items.filter (·.sample)).map (·.seq) := by
  simp only [buildBatch, buildDecodes_eq, List.filter_append, List.map_append,
    buildPrefills_sampling]
  congr 1
  -- every decode samples
  generalize (active.filter Job.ready).take nBatch = chosen
  have all : (chosen.map fun job => job.state.decodeItem).filter (·.sample) =
      chosen.map fun job => job.state.decodeItem := by
    rw [List.filter_eq_self]
    intro item member
    obtain ⟨job, _, rfl⟩ := List.mem_map.mp member
    rfl
  rw [all, List.map_map]
  rfl

/-- A job that a batch samples for is through with its prompt. -/
theorem buildBatch_through (nBatch : Nat) (config : SchedulerConfig) {active : List Job}
    (nodup : (seqs active).Nodup) {job : Job} (member : job ∈ (buildBatch nBatch config active).active)
    (sampled : job.state.seq ∈ (buildBatch nBatch config active).sampling) :
    job.state.prefilling = false := by
  obtain ⟨old, _, served⟩ := Lists.exists_of_forall₂_right (buildBatch_served nBatch config nodup) member
  rw [buildBatch_sampling] at sampled
  obtain ⟨item, inside, owner⟩ := List.mem_map.mp sampled
  obtain ⟨submitted, samples⟩ := List.mem_filter.mp inside
  have own : item.seq = old.state.seq → item ∈ itemsOf old.state.seq (buildBatch nBatch config active).items :=
    fun same => List.mem_filter.mpr ⟨submitted, by simpa using same⟩
  generalize itemsOf old.state.seq (buildBatch nBatch config active).items = served at *
  cases served with
  | idle => cases own owner
  | decode _ through => exact through
  | prefill =>
    have chunk := List.mem_singleton.mp (own owner)
    rw [chunk] at samples
    simpa [SequenceState.takePrefillChunk, SequenceState.prefilling] using samples

/-! ## Items and their owners -/

/-- A batch as a whole: every item belongs to one of the jobs, and each job is served by its
    own items. -/
structure Fills (jobs jobs' : List Job) (items : List BatchItem) : Prop where
  owned : ∀ item ∈ items, item.seq ∈ seqs jobs
  served : List.Forall₂ (fun job job' => Served job job' (itemsOf job.state.seq items)) jobs jobs'

/-- No slot gets two items. -/
theorem Fills.nodup {jobs jobs' : List Job} {items : List BatchItem} (fills : Fills jobs jobs' items) :
    (items.map (·.seq)).Nodup := by
  rw [List.nodup_iff_count_le_one]
  intro slot
  have counted : (items.map (·.seq)).count slot = (itemsOf slot items).length := by
    rw [List.count, List.countP_map, itemsOf, ← List.countP_eq_length_filter]
    apply List.countP_congr
    simp
  rw [counted]
  by_cases owned : slot ∈ seqs jobs
  · obtain ⟨job, member, rfl⟩ := mem_seqs.mp owned
    obtain ⟨job', _, served⟩ := Lists.exists_of_forall₂_left fills.served member
    exact served.length_le_one
  · have none : itemsOf slot items = [] := by
      apply itemsOf_eq_nil
      rintro item member rfl
      exact owned (fills.owned item member)
    rw [none]
    exact Nat.zero_le 1

/-- An item is all its slot gets. -/
theorem Fills.single {jobs jobs' : List Job} {items : List BatchItem} (fills : Fills jobs jobs' items)
    {item : BatchItem} (member : item ∈ items) :
    ∃ job ∈ jobs, job.state.seq = item.seq ∧ ∃ job', Served job job' [item] := by
  obtain ⟨job, inside, owner⟩ := mem_seqs.mp (fills.owned item member)
  obtain ⟨job', _, served⟩ := Lists.exists_of_forall₂_left fills.served inside
  have own : item ∈ itemsOf job.state.seq items := List.mem_filter.mpr ⟨member, by simp [owner]⟩
  have single : itemsOf job.state.seq items = [item] := by
    have most := served.length_le_one
    match listed : itemsOf job.state.seq items with
    | [] => simp [listed] at own
    | [only] =>
      rw [listed] at own
      rw [List.mem_singleton.mp own]
    | _ :: _ :: _ => simp [listed] at most
  rw [single] at served
  exact ⟨job, inside, owner, job', served⟩

theorem buildBatch_fills (nBatch : Nat) (config : SchedulerConfig) {active : List Job}
    (nodup : (seqs active).Nodup) :
    Fills active (buildBatch nBatch config active).active (buildBatch nBatch config active).items :=
  ⟨buildBatch_owned nBatch config active, buildBatch_served nBatch config nodup⟩

/-- No slot is sampled for twice. -/
theorem buildBatch_sampling_nodup (nBatch : Nat) (config : SchedulerConfig) {active : List Job}
    (nodup : (seqs active).Nodup) : (buildBatch nBatch config active).sampling.Nodup := by
  rw [buildBatch_sampling]
  exact (buildBatch_fills nBatch config nodup).nodup.sublist (List.filter_sublist.map _)

/-! ## The budget -/

/-- An unfinished job whose prompt is not through. -/
def Job.waits (job : Job) : Bool := !job.state.finished && job.state.prefilling

/-- A piece of a job's prompt. -/
def Job.Chunk (job : Job) (item : BatchItem) : Prop :=
  ∃ take, 0 < take ∧ take ≤ job.state.prefillRemaining ∧ item = (job.state.takePrefillChunk take).1

/-- The tokens a batch submits. -/
def tokensOf (items : List BatchItem) : Nat := (items.map fun item => item.tokens.length).sum

theorem length_takePrefillChunk {s : SequenceState} {take : Nat} (within : take ≤ s.prefillRemaining) :
    (s.takePrefillChunk take).1.tokens.length = take := by
  simp only [SequenceState.takePrefillChunk, SequenceState.prefillRemaining, List.length_take,
    List.length_drop] at within ⊢
  omega

/-- The prefills are chunks for some of the waiting jobs, in their order and within the budget. -/
theorem buildPrefills_chunks (chunkCap budget : Nat) (active : List Job) :
    ∃ prefillers : List Job, prefillers.Sublist (active.filter Job.waits) ∧
      List.Forall₂ Job.Chunk prefillers (buildPrefills chunkCap budget active).2.1 ∧
      tokensOf (buildPrefills chunkCap budget active).2.1 ≤ budget ∧ (budget = 0 → prefillers = []) := by
  induction active generalizing budget with
  | nil => exact ⟨[], List.Sublist.refl _, .nil, Nat.zero_le _, fun _ => rfl⟩
  | cons job active ih =>
    simp only [buildPrefills]
    split
    · -- the job is passed over
      obtain ⟨prefillers, waiting, chunks, within, spent⟩ := ih budget
      refine ⟨prefillers, waiting.trans ?_, chunks, within, spent⟩
      exact (List.sublist_cons_self job active).filter _
    · rename_i serves
      simp only [not_or, Bool.not_eq_true, Bool.not_eq_false'] at serves
      obtain ⟨unfinished, prefilling, some, positive⟩ := serves
      have waits : job.waits = true := by simp [Job.waits, unfinished, prefilling]
      have length : (job.state.takePrefillChunk
          (min budget (min chunkCap job.state.prefillRemaining))).1.tokens.length = _ :=
        length_takePrefillChunk (by omega)
      rw [length]
      obtain ⟨prefillers, waiting, chunks, within, _⟩ :=
        ih (budget - min budget (min chunkCap job.state.prefillRemaining))
      refine ⟨job :: prefillers, ?_, .cons ⟨_, by omega, by omega, rfl⟩ chunks, ?_, fun zero => absurd zero some⟩
      · rw [List.filter_cons_of_pos waits]
        exact waiting.cons_cons job
      · simp only [tokensOf, List.map_cons, List.sum_cons, length] at within ⊢
        omega

theorem buildPrefills_ne_nil {chunkCap budget : Nat} (cap : 0 < chunkCap) (some : 0 < budget)
    {active : List Job} {job : Job} (member : job ∈ active) (unfinished : job.state.finished = false)
    (prefilling : job.state.prefilling = true) : (buildPrefills chunkCap budget active).2.1 ≠ [] := by
  induction active with
  | nil => cases member
  | cons first active ih =>
    simp only [buildPrefills]
    split
    · rename_i skipped
      rcases List.mem_cons.mp member with rfl | later
      · -- a job with tokens to submit is not passed over
        simp only [SequenceState.prefilling, gt_iff_lt, decide_eq_true_eq] at prefilling
        simp only [unfinished, SequenceState.prefilling] at skipped
        simp at skipped
        omega
      · exact ih later
    · exact List.cons_ne_nil _ _

/-- With a budget there is something to submit while any job runs. -/
theorem buildBatch_items_ne_nil {nBatch : Nat} (some : 1 ≤ nBatch) (config : SchedulerConfig)
    {active : List Job} {job : Job} (member : job ∈ active) (unfinished : job.state.finished = false) :
    (buildBatch nBatch config active).items ≠ [] := by
  simp only [buildBatch, buildDecodes_eq]
  by_cases ready : active.filter Job.ready = []
  · rw [ready]
    have prefilling : job.state.prefilling = true := by
      have busy := List.filter_eq_nil_iff.mp ready job member
      simpa [Job.ready, unfinished] using busy
    have cap : 0 < if config.prefillChunk = 0 then nBatch else config.prefillChunk := by
      split <;> omega
    have prefills := buildPrefills_ne_nil cap some member unfinished prefilling
    simpa using prefills
  · intro nothing
    have none := (List.append_eq_nil_iff.mp nothing).1
    rw [List.map_eq_nil_iff, List.take_eq_nil_iff] at none
    rcases none with zero | empty
    · omega
    · exact ready empty

/-- What a mixed batch is made of: the last tokens of `decoders` and chunks of the prompts of
    `prefillers`. -/
structure Batch.Mixed (nBatch : Nat) (active decoders prefillers : List Job) (batch : Batch) : Prop where
  /-- No job that has finished, and none twice. -/
  decoding : decoders.Sublist (active.filter Job.ready)
  prefilling : prefillers.Sublist (active.filter Job.waits)
  /-- Decodes stand before prefills. -/
  order : ∃ chunks, batch.items = (decoders.map fun job => job.state.decodeItem) ++ chunks ∧
    List.Forall₂ Job.Chunk prefillers chunks
  /-- No prompt gets on while a job that is through with its own is left out. -/
  first : decoders = active.filter Job.ready ∨ prefillers = []
  tokens : tokensOf batch.items ≤ nBatch
  once : (seqs active).Nodup → (batch.items.map (·.seq)).Nodup
  nonempty : 1 ≤ nBatch → (∃ job ∈ active, job.state.finished = false) → batch.items ≠ []
  sampling : batch.sampling = (batch.items.filter (·.sample)).map (·.seq)
  /-- A step for each sampling item, in their order, is a step for each job sampled for. -/
  steps : ∀ steps : List GenStep, steps.map (·.seq) = (batch.items.filter (·.sample)).map (·.seq) →
    ∀ k : Nat, steps[k]?.map GenStep.seq = batch.sampling[k]?

/-- Whatever is active, the batch built for it is a mixed batch within the budget. -/
theorem mixed_batch (nBatch : Nat) (config : SchedulerConfig) (active : List Job) :
    ∃ decoders prefillers, (buildBatch nBatch config active).Mixed nBatch active decoders prefillers := by
  have sampling := buildBatch_sampling nBatch config active
  have decodes := buildDecodes_eq nBatch active
  obtain ⟨prefillers, waiting, chunks, within, spent⟩ := buildPrefills_chunks
    (if config.prefillChunk = 0 then nBatch else config.prefillChunk) (buildDecodes nBatch active).2.2 active
  simp only [decodes] at chunks within spent
  have items : (buildBatch nBatch config active).items =
      (((active.filter Job.ready).take nBatch).map fun job => job.state.decodeItem) ++
        (buildPrefills (if config.prefillChunk = 0 then nBatch else config.prefillChunk)
          (nBatch - ((active.filter Job.ready).take nBatch).length) active).2.1 := by
    simp only [buildBatch, decodes]
  refine ⟨(active.filter Job.ready).take nBatch, prefillers, ?_⟩
  constructor
  · exact List.take_sublist _ _
  · exact waiting
  · exact ⟨_, items, chunks⟩
  · -- with a job left out the decodes have used the budget up
    by_cases all : (active.filter Job.ready).length ≤ nBatch
    · exact .inl (List.take_of_length_le all)
    · right
      apply spent
      simp only [List.length_take]
      omega
  · have ones : tokensOf (((active.filter Job.ready).take nBatch).map fun job => job.state.decodeItem) =
        ((active.filter Job.ready).take nBatch).length := by
      simp [tokensOf, Function.comp_def, SequenceState.decodeItem]
    have most : ((active.filter Job.ready).take nBatch).length ≤ nBatch := List.length_take_le _ _
    rw [items, tokensOf, List.map_append, List.sum_append]
    rw [tokensOf] at ones within
    omega
  · exact fun nodup => (buildBatch_fills nBatch config nodup).nodup
  · intro budget ⟨job, member, unfinished⟩
    exact buildBatch_items_ne_nil budget config member unfinished
  · exact sampling
  · intro steps inOrder k
    rw [sampling, ← inOrder, List.getElem?_map]

end MicroVllm
