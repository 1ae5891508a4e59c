import MicroVllm.Scheduler.Books
import MicroVllm.Scheduler.Lockstep
import MicroVllm.Scheduler.Protocol

/-! # Limits

A request is refused for two reasons: prompt and budget together exceed the context of a
sequence, or its tokens need more blocks than the pool has.  The first is checked once, with a
sum of 32 bits; the second whenever the table cannot grow.  What a sequence may submit lies below
the sum of prompt and budget, so the first check is what keeps positions inside the context.
-/

namespace MicroVllm

theorem toPos_le {n : Int} (bound : -2 ^ 31 ≤ n) : toPos n ≤ n := by
  unfold toPos
  rw [Int.bmod_def]
  split <;> omega

namespace SequenceState

variable {σ : Type} {w : World σ} {O : SequenceState → Prop} {s t : SequenceState}

/-! ## The limits of a sequence -/

/-- The context check of `make_job`, a sum of 32 bits against the context of a sequence. -/
def Oversize (w : World σ) (s : SequenceState) : Prop :=
  0 < w.caps.nCtxSeq ∧ w.caps.nCtxSeq < toUint32 (s.usage.promptTokens + s.spec.maxTokens.toNat)

/-- The budget is never overdrawn; a sequence that is too long for the context has been refused;
    and one that was refused has finished, and was too long or met `O`. -/
structure Limited (w : World σ) (O : SequenceState → Prop) (s : SequenceState) : Prop where
  budget : s.usage.completionTokens ≤ s.spec.maxTokens.toNat
  refused : s.Oversize w → s.reason = .contextOverflow ∧ s.usage.completionTokens = 0
  finished : s.reason = .contextOverflow → s.finished = true
  cause : s.reason = .contextOverflow → s.Oversize w ∨ O s

/-- `O` looks at the counts of tokens only. -/
def Counts (O : SequenceState → Prop) : Prop :=
  ∀ s t : SequenceState, t.usage.promptTokens = s.usage.promptTokens →
    t.usage.completionTokens = s.usage.completionTokens → O s → O t

theorem SameOrigin.oversize (same : s.SameOrigin t) : t.Oversize w ↔ s.Oversize w := by
  unfold Oversize
  rw [same.promptTokens, same.spec]

namespace Limited

/-- What goes on is not too long. -/
theorem fits (limited : s.Limited w O) (unfinished : s.finished = false) : ¬ s.Oversize w := by
  intro large
  rw [limited.finished (limited.refused large).1] at unfinished
  cases unfinished

/-- A change that keeps the counts and the outcome. -/
theorem frame (counts : Counts O) (limited : s.Limited w O) (same : s.SameOrigin t)
    (completion : t.usage.completionTokens = s.usage.completionTokens) (reason : t.reason = s.reason)
    (finished : t.finished = s.finished) : t.Limited w O := by
  constructor
  · rw [completion, same.spec]
    exact limited.budget
  · rw [same.oversize, reason, completion]
    exact limited.refused
  · rw [reason, finished]
    exact limited.finished
  · intro why
    rcases limited.cause (reason.symm.trans why) with large | short
    · exact .inl (same.oversize.mpr large)
    · exact .inr (counts s t same.promptTokens completion short)

/-- A sequence that was running is given another token, or an outcome. -/
theorem advance (limited : s.Limited w O) (unfinished : s.finished = false) (same : s.SameOrigin t)
    (budget : t.usage.completionTokens ≤ s.spec.maxTokens.toNat)
    (outcome : t.reason = .contextOverflow → t.finished = true ∧ O t) : t.Limited w O := by
  constructor
  · rw [same.spec]
    exact budget
  · exact fun large => absurd (same.oversize.mp large) (limited.fits unfinished)
  · exact fun why => (outcome why).1
  · exact fun why => .inr (outcome why).2

theorem accepts {step : GenStep} {goesOn : Bool} (limited : s.Limited w O)
    (accepts : s.Accepts w step goesOn t) : t.Limited w O := by
  have same := accepts.same.toSameOrigin
  cases accepts with
  | done => exact limited
  | eos unfinished | budget unfinished =>
    exact limited.advance unfinished same limited.budget (by simp [stopWith])
  | stop unfinished _ left | cancelled unfinished _ left =>
    exact limited.advance unfinished same left (by simp [stopWith])
  | goesOn unfinished _ left =>
    apply limited.advance unfinished same left
    intro why
    -- it goes on with the reason it had, which is none
    have isOver := limited.finished why
    rw [unfinished] at isOver
    cases isOver

theorem closed (counts : Counts O) (limited : s.Limited w O) (finished : s.finished = true) :
    s.closed.Limited w O := by
  apply limited.frame counts (closed_same s).toSameOrigin _ (closed_reason s)
  · rw [closed_finished finished, finished]
  · rw [closed_usage]

theorem work {calls : List Event} (counts : Counts O) (limited : s.Limited w O)
    (work : Work w O s calls t) : t.Limited w O := by
  have same := work.same
  cases work with
  | chunk | adopt => exact limited.frame counts same rfl rfl rfl
  | fail unfinished => exact limited.advance unfinished same limited.budget (by simp [SequenceState.fail, stopWith])
  | overflow unfinished short =>
    exact limited.advance unfinished same limited.budget fun _ => ⟨rfl, counts s _ rfl rfl short⟩
  | accept accepts => exact limited.accepts accepts
  | close finished => exact limited.closed counts finished

end Limited

theorem limited_newJob (w : World σ) (O : SequenceState → Prop) (request : Request) (slot : Nat) :
    (Scheduler.newJob w request slot).state.Limited w O := by
  have same := (Scheduler.newJob_same w request slot).toSameOrigin
  have size := same.oversize (w := w)
  simp only [Scheduler.newJob, Scheduler.checkContext] at size ⊢
  split
  · rename_i large
    exact ⟨Nat.zero_le _, fun _ => ⟨rfl, rfl⟩, fun _ => rfl, fun _ => .inl large⟩
  · rename_i fits
    -- it fits, and has not ended
    refine ⟨Nat.zero_le _, fun large => absurd large fits, ?_, ?_⟩
    · intro why
      cases why
    · intro why
      cases why

/-! ## The items of a sequence -/

/-- What a sequence can submit: its last token, or a chunk of its prompt. -/
inductive Item (s : SequenceState) : BatchItem → Prop where
  | feed : Item s s.decodeItem
  | chunk {take} : Item s (s.takePrefillChunk take).1

theorem feedPos_lt (limited : s.Limited w O) :
    s.feedPos < (s.prompt.length + s.spec.maxTokens.toNat : Nat) := by
  have wraps := s.feedPos_eq_toPos
  have most := toPos_le (n := s.prompt.length + s.usage.completionTokens - 1) (by omega)
  have budget := limited.budget
  omega

/-- Every position of it lies below the sum of prompt and budget. -/
theorem Item.position_lt {item : BatchItem} (item_ : s.Item item) (limited : s.Limited w O) :
    ∀ k < item.tokens.length, item.pos0 + k < (s.prompt.length + s.spec.maxTokens.toNat : Nat) := by
  intro k inside
  cases item_ with
  | feed =>
    have first : k = 0 := by simpa [decodeItem] using inside
    subst first
    have position : s.decodeItem.pos0 = s.feedPos := by rw [decodeItem]
    rw [position]
    simpa using feedPos_lt limited
  | @chunk take =>
    have position : (s.takePrefillChunk take).1.pos0 = toPos s.prefilled := by rw [takePrefillChunk]
    have most : toPos s.prefilled ≤ s.prefilled := toPos_le (by omega)
    simp only [takePrefillChunk, List.length_take, List.length_drop] at inside
    rw [position]
    omega

end SequenceState

/-- The tokens a request may come to in all, as an unbounded sum. -/
def Request.length {σ : Type} (w : World σ) (request : Request) : Nat :=
  (w.tokenize request.spec.prompt true).length + request.spec.maxTokens.toNat

/-- The context check refuses the request. -/
def Request.Refused {σ : Type} (w : World σ) (request : Request) : Prop :=
  0 < w.caps.nCtxSeq ∧ w.caps.nCtxSeq < toUint32 (request.length w)

instance {σ : Type} (w : World σ) (request : Request) : Decidable (request.Refused w) :=
  inferInstanceAs (Decidable (0 < w.caps.nCtxSeq ∧ w.caps.nCtxSeq < toUint32 (request.length w)))

theorem Scheduler.newJob_finished_iff {σ : Type} (w : World σ) (request : Request) (slot : Nat) :
    (newJob w request slot).state.finished = true ↔ request.Refused w := by
  have tokens : (newState w request slot).usage.promptTokens =
      (w.tokenize request.spec.prompt true).length :=
    toUint32_of_lt (Nat.lt_trans (w.tokenize_length _ _) (by decide))
  simp only [newJob, checkContext, tokens]
  split
  · rename_i large
    exact iff_of_true rfl large
  · rename_i fits
    exact iff_of_false (by simp [newState, SequenceState.make]) fits

/-- What runs was not refused. -/
theorem Seat.Running.unrefused {σ : Type} {w : World σ} {C : Choice} {seat : Seat Token} {tokens cells : List Token}
    (running : seat.Running w C tokens cells) : ¬ seat.job.request.Refused w := by
  have prompt : (seat.job.request.spec.opening w).usage.promptTokens =
      (w.tokenize seat.job.request.spec.prompt true).length :=
    toUint32_of_lt (Nat.lt_trans (w.tokenize_length _ _) (by decide))
  have inside := running.inside
  unfold RequestSpec.Overflows at inside
  rwa [prompt] at inside

/-- Without a wrap the check is the one that was meant. -/
theorem Request.length_le {σ : Type} {w : World σ} {r : Request} (context : 0 < w.caps.nCtxSeq)
    (small : ¬ r.Refused w → r.length w < 2 ^ 32) (fits : ¬ r.Refused w) : r.length w ≤ w.caps.nCtxSeq := by
  have wraps := toUint32_of_lt (small fits)
  unfold Refused at fits
  omega

namespace Job.Origin

variable {σ : Type} {w : World σ} {O : SequenceState → Prop} {job : Job}

theorem length_eq (origin : job.Origin w) :
    job.state.usage.promptTokens + job.state.spec.maxTokens.toNat = job.request.length w := by
  rw [origin.promptTokens, origin.spec, origin.prompt]
  rfl

theorem oversize (origin : job.Origin w) : job.state.Oversize w ↔ job.request.Refused w := by
  unfold SequenceState.Oversize Request.Refused
  rw [origin.length_eq]

/-- What goes on was not refused. -/
theorem fits (origin : job.Origin w) (limited : job.state.Limited w O) (unfinished : job.state.finished = false) :
    ¬ job.request.Refused w := fun refused => limited.fits unfinished (origin.oversize.mpr refused)

end Job.Origin

/-! ## Properties of the sequences in service -/

section Kept

variable {σ : Type} {w : World σ} {O : SequenceState → Prop} {P : SequenceState → Prop}
variable {accepted waiting waiting' : List Request} {roster roster' : List Job} {past log : List Event}

/-- What every job starts with and all work keeps. -/
structure Kept (w : World σ) (O : SequenceState → Prop) (P : SequenceState → Prop) : Prop where
  fresh : ∀ request slot, P (Scheduler.newJob w request slot).state
  work : ∀ {s calls t}, P s → s.Work w O calls t → P t

theorem Kept.works (kept : Kept w O P) {s t : SequenceState} {calls : List Event} (holds : P s)
    (works : s.Works w O calls t) : P t :=
  @SequenceState.Works.invariant _ _ _ _ _ _ (fun _ s => P s) [] works holds
    fun _ _ _ _ holds work => kept.work holds work

theorem Handles.kept {O' : SequenceState → Prop} (handles : Handles w O waiting waiting' roster roster' log)
    (kept : Kept w O' P) (weaker : ∀ t, O t → O' t) (all : ∀ job ∈ roster, P job.state) :
    ∀ job ∈ roster', P job.state := by
  intro job member
  cases handles.jobs job member with
  | goesOn old _ works => exact kept.works (all _ old) (works.mono weaker)
  | taken _ works => exact kept.works (kept.fresh _ _) (works.mono weaker)

/-- Every sequence in service has the property, and every result was made from one that had. -/
structure Serving (w : World σ) (P : SequenceState → Prop) (accepted : List Request)
    (roster : List Job) (past : List Event) : Prop where
  roster : ∀ job ∈ roster, P job.state
  delivered : ∀ id result, .setValue id result ∈ past → ∃ job : Job, job.request ∈ accepted ∧
    job.request.id = id ∧ job.Origin w ∧ P job.state ∧ result = job.result

theorem Serving.step (serving : Serving w P accepted roster past) (kept : Kept w (fun _ => True) P)
    (heard : Heard w accepted waiting roster past)
    (handles : Handles w O waiting waiting' roster roster' log) :
    Serving w P accepted roster' (past ++ log) where
  roster := handles.kept kept (fun _ _ => trivial) serving.roster
  delivered id result event := by
    rcases List.mem_append.mp event with old | new
    · exact serving.delivered id result old
    · cases handles.results with
      | nothing none =>
        have listed := Event.mem_results.mpr new
        simp [none] at listed
      | @result job state before inside works _ last only =>
        obtain ⟨known, origin, _⟩ := heard.roster job inside
        have only : (id, result) = (job.request.id, { job with state := state }.result) := by
          have listed := Event.mem_results.mpr new
          rw [last, List.filterMap_append, only] at listed
          simpa [Event.result?] using listed
        cases only
        exact ⟨{ job with state := state }, known, rfl, origin.of_same ⟨rfl, works.same⟩,
          kept.works (serving.roster job inside) works, rfl⟩

theorem Serving.push (serving : Serving w P accepted roster past) {more : List Request}
    (grows : accepted ⊆ more) : Serving w P more roster past :=
  ⟨serving.roster, fun id result event => by
    obtain ⟨job, known, rest⟩ := serving.delivered id result event
    exact ⟨job, grows known, rest⟩⟩

end Kept

/-! ## What is submitted -/

/-- Every item of a batch is for one of the jobs, which has not finished. -/
def Submits (jobs : List Job) (log : List Event) : Prop :=
  ∀ items ok, .decode items ok ∈ log → ∀ item ∈ items,
    ∃ job ∈ jobs, job.state.seq = item.seq ∧ job.state.finished = false ∧ job.state.Item item

def Event.Undecoded : Event → Prop
  | .decode .. => False
  | _ => True

theorem Event.Routine.undecoded {e : Event} (routine : e.Routine) : e.Undecoded := by
  cases e <;> trivial

section Submits

variable {σ : Type} {w : World σ} {jobs : List Job} {port port' port'' : Port σ}

theorem Submits.nothing (silent : port.log = []) (adds : port.Adds Event.Undecoded port') :
    Submits jobs port'.log := by
  obtain ⟨more, log, all⟩ := adds
  intro items ok event
  rw [log, silent] at event
  exact absurd (all _ event) id

theorem Submits.batch {items : List BatchItem} {result : Except String (List GenStep)}
    (silent : port.log = []) (decoded : port.decode w items = (result, port'))
    (adds : port'.Adds Event.Routine port'')
    (owned : ∀ item ∈ items, ∃ job ∈ jobs, job.state.seq = item.seq ∧ job.state.finished = false ∧
      job.state.Item item) : Submits jobs port''.log := by
  obtain ⟨more, log, all⟩ := adds
  intro items' ok event
  rw [log, Port.log_decode decoded, silent, List.nil_append] at event
  rcases List.mem_append.mp event with here | later
  · cases List.mem_singleton.mp here
    exact owned
  · exact absurd (all _ later) id

theorem Served.item {job job' : Job} {item : BatchItem} (served : Served job job' [item]) :
    job.state.finished = false ∧ job.state.Item item := by
  cases served with
  | decode unfinished => exact ⟨unfinished, .feed⟩
  | prefill unfinished => exact ⟨unfinished, .chunk⟩

end Submits

theorem Continuous.Move.submits {σ : Type} {w : World σ} {config : SchedulerConfig}
    {s s' : Continuous σ} {q q' : RequestQueue} (move : Move w config s q s' q')
    (nodup : (seqs s.active).Nodup) (silent : s.port.log = []) : Submits s.active s'.port.log := by
  cases move.logs with
  | routine adds => exact .nothing silent (adds.mono fun _ => Event.Routine.undecoded)
  | submits pc decoded =>
    apply Submits.batch silent decoded (.refl _)
    intro item member
    obtain ⟨job, active, owner, _, served⟩ := (buildBatch_fills w.caps.nBatch config nodup).single member
    exact ⟨job, active, owner, served.item⟩
  | adopts pc found within copied adds =>
    apply Submits.nothing silent
    exact Port.Adds.trans (.one (Port.log_copy copied) trivial)
      (adds.mono fun _ => Event.Routine.undecoded)
  | @retires job active finished port =>
    rw [port]
    have adds : s.port.Adds Event.Undecoded (s.retire w config job).port := by
      apply Scheduler.retire_adds
      · intro sink e call
        cases e <;> trivial
      · intro e inside
        cases e <;> trivial
      · exact fun _ _ => trivial
    exact .nothing silent adds

namespace Static

variable {σ : Type} {w : World σ} {config : SchedulerConfig} {s s' : Static σ} {q q' : RequestQueue}

theorem buildSlice_items (nBatch tokens : Nat) (started : Bool) (jobs : List Job) :
    ∀ item ∈ (buildSlice nBatch tokens started jobs).2.1, ∃ job ∈ jobs, job.state.seq = item.seq ∧
      job.state.finished = false ∧ job.state.Item item := by
  induction jobs generalizing tokens started with
  | nil => simp [buildSlice]
  | cons job jobs ih =>
    have later : ∀ tokens started, ∀ item ∈ (buildSlice nBatch tokens started jobs).2.1,
        ∃ j ∈ job :: jobs, j.state.seq = item.seq ∧ j.state.finished = false ∧ j.state.Item item := by
      intro tokens started item member
      obtain ⟨old, inside, rest⟩ := ih tokens started item member
      exact ⟨old, List.mem_cons_of_mem _ inside, rest⟩
    simp only [buildSlice]
    split
    · exact later _ _
    · rename_i unfinished
      split
      · simp
      · intro item member
        rcases List.mem_cons.mp member with rfl | inside
        · exact ⟨job, List.mem_cons_self, rfl, by simpa using unfinished, .chunk⟩
        · exact later _ _ item inside

theorem Move.submits (move : Move w config s q s' q') (silent : s.port.log = []) :
    Submits s.roster s'.port.log := by
  cases move.decodes with
  | routine adds => exact .nothing silent (adds.mono fun _ => Event.Routine.undecoded)
  | @slice i _ _ pc decoded adds =>
    apply Submits.batch silent decoded adds
    intro item member
    obtain ⟨job, inside, rest⟩ := buildSlice_items _ _ _ _ item member
    have whole : s.roster = s.jobs := by simp [roster, pc]
    rw [whole]
    exact ⟨job, List.mem_of_mem_drop inside, rest⟩
  | lockstep pc decoded adds =>
    apply Submits.batch silent decoded adds
    intro item member
    obtain ⟨job, running, rfl⟩ := List.mem_map.mp member
    obtain ⟨inside, unfinished⟩ := List.mem_filter.mp running
    have whole : s.roster = s.jobs := by simp [roster, pc]
    rw [whole]
    exact ⟨job, inside, rfl, by simpa using unfinished, .feed⟩

end Static

/-! ## The context -/

/-- The batches in `log` are for requests that passed the check, each item for the job in its
    slot, and below the sum of prompt and budget of its request. -/
def Placed {σ : Type} (w : World σ) (accepted : List Request) (jobs : List Job) (log : List Event) : Prop :=
  ∀ (items : List BatchItem) ok, .decode items ok ∈ log → ∀ item ∈ items,
    ∃ job ∈ jobs, job.state.seq = item.seq ∧ job.request ∈ accepted ∧ ¬ job.request.Refused w ∧
      ∀ k < item.tokens.length, item.pos0 + k < job.request.length w

theorem Serving.placed {σ : Type} {w : World σ} {O : SequenceState → Prop} {accepted waiting : List Request}
    {roster jobs : List Job} {past log : List Event}
    (serving : Serving w (SequenceState.Limited w O) accepted roster past)
    (heard : Heard w accepted waiting roster past) (subset : jobs ⊆ roster) (submits : Submits jobs log) :
    Placed w accepted jobs log := by
  intro items ok event item member
  obtain ⟨job, inside, owner, unfinished, submitted⟩ := submits items ok event item member
  obtain ⟨known, origin, _⟩ := heard.roster job (subset inside)
  have limited := serving.roster job (subset inside)
  refine ⟨job, inside, owner, known, origin.fits limited unfinished, fun k within => ?_⟩
  have below := submitted.position_lt limited k within
  rwa [← origin.promptTokens, origin.length_eq] at below

/-- What the engine has seen of the context, and who was refused: no position beyond it, and every
    request that is too long for it, without a token. -/
structure Confined {σ : Type} (w : World σ) (accepted : List Request) (past : List Event) : Prop where
  positions : ∀ (items : List BatchItem) ok, .decode items ok ∈ past → ∀ item ∈ items, ∀ k < item.tokens.length,
    item.pos0 + k < w.caps.nCtxSeq
  refused : ∀ r ∈ accepted, w.caps.nCtxSeq < r.length w → ∀ result, .setValue r.id result ∈ past →
    result.reason = .contextOverflow ∧ result.usage.completionTokens = 0

/-- The same of a whole history, whose jobs are gone. -/
def Bounded {σ : Type} (w : World σ) (accepted : List Request) (past : List Event) : Prop :=
  ∀ (items : List BatchItem) ok, .decode items ok ∈ past → ∀ item ∈ items,
    ∃ r ∈ accepted, ¬ r.Refused w ∧ ∀ k < item.tokens.length, item.pos0 + k < r.length w

section Bounded

variable {σ : Type} {w : World σ} {accepted : List Request} {jobs : List Job} {past log : List Event}

theorem Bounded.step (bounded : Bounded w accepted past) (placed : Placed w accepted jobs log) :
    Bounded w accepted (past ++ log) := by
  intro items ok event item member
  rcases List.mem_append.mp event with old | new
  · exact bounded items ok old item member
  · obtain ⟨job, _, _, known, rest⟩ := placed items ok new item member
    exact ⟨job.request, known, rest⟩

theorem Bounded.push (bounded : Bounded w accepted past) {more : List Request} (grows : accepted ⊆ more) :
    Bounded w more past := by
  intro items ok event item member
  obtain ⟨r, known, rest⟩ := bounded items ok event item member
  exact ⟨r, grows known, rest⟩

theorem Bounded.confined (bounded : Bounded w accepted past) (context : 0 < w.caps.nCtxSeq)
    (small : ∀ r ∈ accepted, ¬ r.Refused w → r.length w < 2 ^ 32) (nodup : (requestIds accepted).Nodup)
    (serving : Serving w (SequenceState.Limited w fun _ => True) accepted jobs past) :
    Confined w accepted past where
  positions items ok event item member k inside := by
    obtain ⟨r, known, passed, below⟩ := bounded items ok event item member
    have fits := Request.length_le context (small r known) passed
    have here := below k inside
    omega
  refused r known large result event := by
    obtain ⟨job, accepted, named, origin, limited, rfl⟩ := serving.delivered r.id result event
    have same : job.request = r := List.inj_on_of_nodup_map nodup accepted known named
    have refused : r.Refused w := by
      by_contra fits
      have short := Request.length_le context (small r known) fits
      omega
    exact limited.refused (origin.oversize.mpr (by rwa [same]))

end Bounded

namespace Server

variable {σ : Type} {w : World σ} {config : SchedulerConfig} {capacity : Nat} {world : σ}
variable {past : List Event}

theorem limited_kept (w : World σ) : Kept w (fun _ => True) (SequenceState.Limited w fun _ => True) :=
  ⟨SequenceState.limited_newJob w _, fun limited work => limited.work (fun _ _ _ _ _ => trivial) work⟩

/-- If every move of a thread handles its jobs and submits for them only, they stay within their limits along
    every run, and so do the batches. -/
theorem Moves.limited_run {τ : Type} {k : Moves τ} {thread : τ} (settled : k.Settled thread)
    (waiting : τ → List Request) (roster jobs : τ → List Job) {O : τ → SequenceState → Prop}
    (none : roster thread = []) (subset : ∀ t, jobs t ⊆ roster t)
    (heard : ∀ {past s}, (machine k.step thread capacity).Run past s →
      Heard w s.accepted (s.queue.queue ++ waiting s.thread) (roster s.thread) past)
    (handles : ∀ {past s u q}, (machine k.step thread capacity).Run past s → k.Move s.thread s.queue u q →
      Handles w (O s.thread) (s.queue.queue ++ waiting s.thread) (q.queue ++ waiting (k.quiet u)) (roster s.thread)
        (roster (k.quiet u)) (k.log u))
    (submits : ∀ {t u q q'}, k.Settled t → k.Move t q u q' → Submits (jobs t) (k.log u))
    {s : Server τ} (run : (machine k.step thread capacity).Run past s) :
    Serving w (SequenceState.Limited w fun _ => True) s.accepted (roster s.thread) past ∧
      Bounded w s.accepted past := by
  refine run_invariant settled ⟨⟨?_, ?_⟩, ?_⟩ ?_ ?_ ?_ run.guarded_true
  · simp [none]
  · simp
  · simp [Bounded]
  · rintro past s request _ ⟨serving, bounded⟩
    have grows := push_accepted_subset request s
    exact ⟨serving.push grows, bounded.push grows⟩
  · exact fun _ _ both => both
  · rintro past s u q earlier settled ⟨serving, bounded⟩ move _
    have heard := heard earlier.of_guarded
    exact ⟨serving.step (limited_kept w) heard (handles earlier.of_guarded move),
      bounded.step (serving.placed heard (subset s.thread) (submits settled move))⟩

theorem limited_run {s : Server (Continuous σ)} (run : (continuous w config capacity world).Run past s) :
    Serving w (SequenceState.Limited w fun _ => True) s.accepted s.thread.crew past ∧
      Bounded w s.accepted past :=
  Moves.limited_run (settled_start w config world) Continuous.pending Continuous.crew Continuous.active rfl
    (fun _ => List.subset_append_left _ _) heard_run handles_move
    (fun settled move => Continuous.Move.submits move settled.layout.nodup settled.silent) run

theorem static_limited_run {s : Server (Static σ)} (run : (static w config capacity world).Run past s) :
    Serving w (SequenceState.Limited w fun _ => True) s.accepted s.thread.roster past ∧
      Bounded w s.accepted past :=
  Moves.limited_run (O := fun _ _ => True) (settledStatic_start w config world) Static.waiting
    Static.roster Static.roster rfl (fun _ => List.Subset.refl _) (fun run => (static_heard_run run).2)
    static_handles_move (fun settled move => Static.Move.submits move settled.silent) run

/-- A request that the context check refuses is delivered as refused. -/
theorem refused_delivered {s : Server (Continuous σ)} (run : (continuous w config capacity world).Run past s)
    {r : Request} (accepted : r ∈ s.accepted) (refused : r.Refused w) {result : GenResult}
    (delivered : .setValue r.id result ∈ past) : result.reason = .contextOverflow := by
  obtain ⟨job, known, named, origin, limited, rfl⟩ := (limited_run run).1.delivered r.id result delivered
  have same : job.request = r := List.inj_on_of_nodup_map (counts_run run).nodup known accepted named
  exact (limited.refused (origin.oversize.mpr (by rwa [same]))).1

end Server

/-- The context limit, for a server whose thread works on `jobs`: every position submitted lies
    inside the context and a request too long for it gets no token; the items of a step are for
    requests that fit; and once the thread has returned every accepted request has been
    delivered. -/
structure ContextSafe {σ τ : Type} (w : World σ) (m : Transition.Machine (Server τ) Event)
    (jobs : τ → List Job) (returned : τ → Prop) (past : List Event) (s : Server τ) : Prop extends
    Confined w s.accepted past where
  slots : (seqs (jobs s.thread)).Nodup
  fits : ∀ events t, m.step s events t → ∀ items ok, .decode items ok ∈ events → ∀ item ∈ items,
    ∃ job ∈ jobs s.thread, job.state.seq = item.seq ∧ job.request ∈ s.accepted ∧
      job.request.length w ≤ w.caps.nCtxSeq
  delivered : w.OnlyDecodeThrows → returned s.thread →
    ∀ r ∈ s.accepted, ∃ result, .setValue r.id result ∈ past

theorem Placed.fits {σ : Type} {w : World σ} {accepted : List Request} {jobs : List Job}
    {log : List Event} (placed : Placed w accepted jobs log) (context : 0 < w.caps.nCtxSeq)
    (small : ∀ r ∈ accepted, ¬ r.Refused w → r.length w < 2 ^ 32) :
    ∀ items ok, .decode items ok ∈ log → ∀ item ∈ items,
      ∃ job ∈ jobs, job.state.seq = item.seq ∧ job.request ∈ accepted ∧
        job.request.length w ≤ w.caps.nCtxSeq := by
  intro items ok event item member
  obtain ⟨job, inside, owner, known, passed, _⟩ := placed items ok event item member
  exact ⟨job, inside, owner, known, Request.length_le context (small _ known) passed⟩

theorem Static.roster_subset {σ : Type} (s : Static σ) : s.roster ⊆ s.jobs := by
  unfold roster
  split
  case h_6 => exact List.drop_subset _ _
  all_goals simp

/-- In both modes, with any engine that has a context: in every run in which prompt and budget of
    every accepted request that the check does not refuse come to less than `2 ^ 32` tokens, the
    context limit holds in every state. -/
theorem context_limit {σ : Type} (w : World σ) (config : SchedulerConfig) (capacity : Nat) (world : σ)
    (context : 0 < w.caps.nCtxSeq) :
    (∀ past s, (Server.continuous w config capacity world).Run past s →
      (∀ r ∈ s.accepted, ¬ r.Refused w → r.length w < 2 ^ 32) →
      ContextSafe w (Server.continuous w config capacity world) Continuous.active (·.pc = .done) past s) ∧
    (∀ past s, (Server.static w config capacity world).Run past s →
      (∀ r ∈ s.accepted, ¬ r.Refused w → r.length w < 2 ^ 32) →
      ContextSafe w (Server.static w config capacity world) Static.jobs (·.pc = .done) past s) := by
  constructor
  · intro past s run small
    obtain ⟨serving, bounded⟩ := Server.limited_run run
    have settled := Server.settled_run run
    refine ⟨bounded.confined context small (Server.counts_run run).nodup serving, settled.layout.nodup, ?_, ?_⟩
    · intro events t step
      cases step with
      | push | close => simp
      | run stepped =>
        obtain ⟨thread, move, rfl, _⟩ := Continuous.step_move
          (config.construct_maxBatchSize_pos w.caps) settled.layout stepped
        have submits := move.submits settled.layout.nodup settled.silent
        exact (serving.placed (Server.heard_run run) (List.subset_append_left _ _) submits).fits context small
    · intro engine done r known
      obtain ⟨accounted, returned⟩ := Server.continuous_accounted engine run
      have all := (accounted.drained (returned done)).1
      exact mem_fulfilled.mp (all.mem_iff.mpr (List.mem_map_of_mem known))
  · intro past s run small
    obtain ⟨serving, bounded⟩ := Server.static_limited_run run
    have settled := Server.settledStatic_run run
    refine ⟨bounded.confined context small (Server.static_counts_run run).nodup serving,
      settled.layout.nodup, ?_, ?_⟩
    · intro events t step
      cases step with
      | push | close => simp
      | run stepped =>
        obtain ⟨thread, move, rfl, _⟩ := Static.step_move settled.layout stepped
        intro items ok event item member
        obtain ⟨job, inside, rest⟩ :=
          (serving.placed (Server.static_heard_run run).2 (List.Subset.refl _) (move.submits settled.silent)).fits
            context small items ok event item member
        exact ⟨job, s.thread.roster_subset inside, rest⟩
    · intro engine done r known
      obtain ⟨accounted, returned⟩ := Server.static_accounted engine run
      have all := (accounted.drained (returned done)).1
      exact mem_fulfilled.mp (all.mem_iff.mpr (List.mem_map_of_mem known))

/-- The engine for examples with a context of two tokens. -/
def Script.narrow : Script :=
  { Script.letter with caps := { nCtx := 64, nBatch := 8, nSeqMax := 4, nCtxSeq := 2 } }

/-- One request that fits and one that does not, in either mode. -/
theorem context_limit_narrow :
    0 < Script.narrow.world.caps.nCtxSeq ∧
      (∃ past s, (Server.continuous Script.narrow.world (.pair 8) 4 fun _ => none).Run past s ∧
        (∀ r ∈ s.accepted, ¬ r.Refused Script.narrow.world → r.length Script.narrow.world < 2 ^ 32) ∧
        requestIds s.accepted = [0, 1] ∧
        ContextSafe Script.narrow.world (Server.continuous Script.narrow.world (.pair 8) 4 fun _ => none)
          Continuous.active (·.pc = .done) past s ∧
        ∃ result, .setValue 1 result ∈ past ∧ result.reason = .contextOverflow) ∧
      (∃ past s, (Server.static Script.narrow.world (.pair 8) 4 fun _ => none).Run past s ∧
        (∀ r ∈ s.accepted, ¬ r.Refused Script.narrow.world → r.length Script.narrow.world < 2 ^ 32) ∧
        requestIds s.accepted = [0, 1] ∧
        ContextSafe Script.narrow.world (Server.static Script.narrow.world (.pair 8) 4 fun _ => none)
          Static.jobs (·.pc = .done) past s ∧
        ∃ result, .setValue 1 result ∈ past ∧ result.reason = .contextOverflow) := by
  have holds := context_limit Script.narrow.world (.pair 8) 4 (fun _ => none) (by decide)
  refine ⟨by decide, ?_, ?_⟩
  · obtain ⟨past, s, run, small, both, ⟨id, result⟩, delivered, rfl, reason⟩ : ∃ past s,
        (Server.continuous Script.narrow.world (.pair 8) 4 fun _ => none).Run past s ∧
        ((∀ r ∈ s.accepted, ¬ r.Refused Script.narrow.world → r.length Script.narrow.world < 2 ^ 32) ∧
          requestIds s.accepted = [0, 1] ∧
          ∃ d ∈ past.filterMap Event.result?, d.1 = 1 ∧ d.2.reason = .contextOverflow) :=
      Server.exists_run ([.push { id := 0, spec := { prompt := [1], maxTokens := 1 } },
        .push { id := 1, spec := { prompt := [1], maxTokens := 2 } }] ++
        List.replicate 16 .run) rfl rfl (by decide +kernel)
    exact ⟨past, s, run, small, both, holds.1 past s run small, result,
      Event.mem_results.mp delivered, reason⟩
  · obtain ⟨past, s, run, small, both, ⟨id, result⟩, delivered, rfl, reason⟩ : ∃ past s,
        (Server.static Script.narrow.world (.pair 8) 4 fun _ => none).Run past s ∧
        ((∀ r ∈ s.accepted, ¬ r.Refused Script.narrow.world → r.length Script.narrow.world < 2 ^ 32) ∧
          requestIds s.accepted = [0, 1] ∧
          ∃ d ∈ past.filterMap Event.result?, d.1 = 1 ∧ d.2.reason = .contextOverflow) :=
      Server.exists_run ([.push { id := 0, spec := { prompt := [1], maxTokens := 1 } },
        .push { id := 1, spec := { prompt := [1], maxTokens := 2 } }] ++
        List.replicate 16 .run) rfl rfl (by decide +kernel)
    exact ⟨past, s, run, small, both, holds.2 past s run small, result,
      Event.mem_results.mp delivered, reason⟩

/-- A budget of `2 ^ 32 - 1` and a prompt of one token come to nothing in 32 bits.  The request
    is admitted, and the engine is asked for position 2 of a context of two tokens. -/
theorem context_exceeded_narrow :
    0 < Script.narrow.world.caps.nCtxSeq ∧
      (∃ past s r, (Server.continuous Script.narrow.world (.pair 8) 4 fun _ => none).Run past s ∧
        s.accepted = [r] ∧ Script.narrow.world.caps.nCtxSeq < r.length Script.narrow.world ∧
        .decode [{ seq := 0, tokens := [97], pos0 := 2 }] true ∈ past ∧
        ¬ Confined Script.narrow.world s.accepted past) ∧
      (∃ past s r, (Server.static Script.narrow.world (.pair 8) 4 fun _ => none).Run past s ∧
        s.accepted = [r] ∧ Script.narrow.world.caps.nCtxSeq < r.length Script.narrow.world ∧
        .decode [{ seq := 0, tokens := [97], pos0 := 2 }] true ∈ past ∧
        ¬ Confined Script.narrow.world s.accepted past) := by
  have beyond : ∀ {accepted past}, .decode [{ seq := 0, tokens := [97], pos0 := 2 }] true ∈ past →
      ¬ Confined Script.narrow.world accepted past := by
    intro accepted past event confined
    have inside := confined.positions _ _ event _ List.mem_cons_self 0 (by decide)
    revert inside
    decide
  refine ⟨by decide, ?_, ?_⟩
  · obtain ⟨past, s, run, accepted, event⟩ : ∃ past s,
        (Server.continuous Script.narrow.world (.pair 8) 4 fun _ => none).Run past s ∧
        (s.accepted = [{ id := 0, spec := { prompt := [1], maxTokens := 4294967295 } }] ∧
          .decode [{ seq := 0, tokens := [97], pos0 := 2 }] true ∈ past) :=
      Server.exists_run ([.push { id := 0, spec := { prompt := [1], maxTokens := 4294967295 } }] ++
        List.replicate 32 .run) rfl rfl (by decide +kernel)
    exact ⟨past, s, _, run, accepted, by decide, event, beyond event⟩
  · obtain ⟨past, s, run, accepted, event⟩ : ∃ past s,
        (Server.static Script.narrow.world (.pair 8) 4 fun _ => none).Run past s ∧
        (s.accepted = [{ id := 0, spec := { prompt := [1], maxTokens := 4294967295 } }] ∧
          .decode [{ seq := 0, tokens := [97], pos0 := 2 }] true ∈ past) :=
      Server.exists_run ([.push { id := 0, spec := { prompt := [1], maxTokens := 4294967295 } }] ++
        List.replicate 14 .run) rfl rfl (by decide +kernel)
    exact ⟨past, s, _, run, accepted, by decide, event, beyond event⟩

/-! ## The pool -/

/-- The blocks that `n` tokens fill, as an unbounded sum. -/
def SchedulerConfig.blocksOf (config : SchedulerConfig) (n : Nat) : Nat :=
  (n + config.blockSize - 1) / config.blockSize

/-- The tokens of a sequence fill more blocks than the pool has. -/
def SchedulerConfig.Outgrown (config : SchedulerConfig) (s : SequenceState) : Prop :=
  config.kvBlocks < config.blocksOf (s.usage.promptTokens + s.usage.completionTokens)

section Outgrown

variable {σ : Type} {w : World σ} {config : SchedulerConfig}

theorem counts_outgrown (config : SchedulerConfig) : SequenceState.Counts config.Outgrown := by
  intro s t prompt completion outgrown
  unfold SchedulerConfig.Outgrown
  rw [prompt, completion]
  exact outgrown

/-- The 32 bits of `blocks_for` can only make the number smaller. -/
theorem blocksFor_le {a : BlockAllocator} (size : a.blockSize = config.blockSize) {n m : Nat}
    (fewer : n ≤ m) : a.blocksFor n ≤ config.blocksOf m := by
  unfold BlockAllocator.blocksFor SchedulerConfig.blocksOf
  rw [size]
  apply Nat.div_le_div_right
  have wrapped := toUint32_le (n + config.blockSize - 1)
  omega

theorem Continuous.Books.outgrown {s : Continuous σ} {lostBlocks lostSlots : List Nat}
    (books : s.Books config lostBlocks lostSlots) {state : SequenceState} (outgrows : s.Outgrows state) :
    config.Outgrown state := by
  unfold Continuous.Outgrows at outgrows
  rw [books.ledger.total] at outgrows
  exact Nat.lt_of_lt_of_le outgrows (blocksFor_le books.ledger.blockSize (toUint32_le _))

theorem Scheduler.evict_of_reclaim {m : Scheduler σ} (spent : m.reclaimDonorBlocks w = none) :
    m.prefixCache.evictLruRetained = none := by
  unfold reclaimDonorBlocks at spent
  split at spent
  · assumption
  · cases spent

/-- A prompt that finds no room in an idle batch is larger than the pool, if nothing was lost. -/
theorem Continuous.Intact.no_room {s : Continuous σ} {job : Job} (intact : s.Intact)
    (alone : s.active = []) (table : job.blocks = {}) (full : s.NoRoom w job) :
    s.blocks.total < s.want job := by
  have mark : s.watermark job = toUint32 (s.want job) := by
    unfold watermark
    rw [if_pos alone]
    rfl
  rcases full with ⟨short, none⟩ | ⟨room, stuck⟩
  · have free := intact alone (PrefixCache.evictLruRetained_eq_none (Scheduler.evict_of_reclaim none))
    have wrapped := toUint32_le (s.want job)
    omega
  · -- with an empty table the two tests are one, and they disagree
    have missing := (BlockTable.ensureCapacity_eq_none_iff.mp stuck).2
    rw [table] at missing
    have small : s.want job < 2 ^ 32 := by
      have bits : toUint32 (job.state.usage.promptTokens + s.blocks.blockSize - 1) < 2 ^ 32 :=
        Nat.mod_lt _ (by decide)
      exact Nat.lt_of_le_of_lt (Nat.div_le_self _ _) bits
    rw [mark, toUint32_of_lt small] at room
    have same : s.blocks.blocksFor job.state.usage.promptTokens = s.want job := rfl
    rw [same] at missing
    omega

theorem Continuous.Books.no_room {s : Continuous σ} {job : Job} (books : s.Books config [] [])
    (alone : s.active = []) (table : job.blocks = {}) (full : s.NoRoom w job) :
    config.Outgrown job.state := by
  have large := books.intact.no_room alone table full
  rw [books.ledger.total] at large
  exact Nat.lt_of_lt_of_le large (blocksFor_le books.ledger.blockSize (Nat.le_add_right _ _))

end Outgrown

namespace Server

variable {σ : Type} {w : World σ} {config : SchedulerConfig} {capacity : Nat} {world : σ}
variable {past : List Event}

theorem outgrown_kept (w : World σ) (config : SchedulerConfig) :
    Kept w config.Outgrown (SequenceState.Limited w config.Outgrown) :=
  ⟨SequenceState.limited_newJob w _, fun limited work => limited.work (counts_outgrown config) work⟩

theorem refusals_run {s : Server (Continuous σ)} (engine : w.OnlyDecodeThrows) (apart : config.Apart)
    (run : ((continuous w config capacity world).guarded fun s _ _ =>
      s.thread.SparesDonors w (config.construct w.caps)).Run past s) :
    Serving w (SequenceState.Limited w (config.construct w.caps).Outgrown) s.accepted s.thread.crew
      past := by
  refine continuous_invariant ?_ ?_ ?_ ?_ run
  · constructor
    · simp [Continuous.start, Continuous.crew, Pc.inHand]
    · simp
  · exact fun past s request _ serving => serving.push (push_accepted_subset request s)
  · exact fun _ _ serving => serving
  · intro past s thread queue earlier settled serving move _
    have books := books_spared engine apart earlier
    have kept := outgrown_kept w (config.construct w.caps)
    have heard := heard_run earlier.of_guarded
    constructor
    · exact (handles_move earlier.of_guarded move).kept kept (fun _ => books.outgrown) serving.roster
    · intro id result event
      rcases List.mem_append.mp event with old | new
      · exact serving.delivered id result old
      · cases move.delivered settled.silent new with
        | @retired job inside finished =>
          -- a job that ran, and whose state says why it ended
          obtain ⟨known, origin, _⟩ := heard.roster job inside
          have same := (SequenceState.finish_same (w := w) job.state s.thread.port).toSameOrigin
          rw [SequenceState.finish_state] at same
          exact ⟨{ job with state := job.state.closed }, known, rfl, origin.of_same ⟨rfl, same⟩,
            (serving.roster job inside).closed (counts_outgrown _) finished, rfl⟩
        | @rejected job inside pc unfinished full alone =>
          -- a job that found an idle pool too small: with balanced books, the whole pool
          obtain ⟨known, origin, _⟩ := heard.roster job inside
          obtain ⟨request, slot, slots, rfl, _⟩ := settled.layout.hand job pc
          have short := books.no_room alone rfl full
          obtain ⟨message, names⟩ : ∃ message, message =
              s.thread.rejectMessage (Scheduler.newJob w request slot) := ⟨_, rfl⟩
          rw [← names]
          have failed : SequenceState.Limited _ _ ((Scheduler.newJob w request slot).state.fail message
              .contextOverflow) :=
            (serving.roster _ inside).work (counts_outgrown _) (.overflow unfinished short)
          have same := (SequenceState.fail_same (Scheduler.newJob w request slot).state message
            .contextOverflow).trans (SequenceState.finish_same (w := w) _ s.thread.port)
          rw [SequenceState.finish_state] at same
          exact ⟨{ Scheduler.newJob w request slot with state :=
            ((Scheduler.newJob w request slot).state.fail message .contextOverflow).closed }, known, rfl,
            origin.of_same ⟨rfl, same.toSameOrigin⟩, failed.closed (counts_outgrown _) rfl, rfl⟩

/-- What a refusal says of the request: and so a request that fits is not refused. -/
theorem refused_run {s : Server (Continuous σ)} (engine : w.OnlyDecodeThrows) (apart : config.Apart)
    (run : ((continuous w config capacity world).guarded fun s _ _ =>
      s.thread.SparesDonors w (config.construct w.caps)).Run past s)
    {r : Request} (accepted : r ∈ s.accepted) {result : GenResult}
    (delivered : .setValue r.id result ∈ past) :
    (result.reason = .contextOverflow →
      (0 < w.caps.nCtxSeq ∧ w.caps.nCtxSeq < r.length w) ∨
      (config.construct w.caps).kvBlocks < (config.construct w.caps).blocksOf
        ((w.tokenize r.spec.prompt true).length + result.usage.completionTokens)) ∧
    ((w.caps.nCtxSeq = 0 ∨ r.length w ≤ w.caps.nCtxSeq) →
      (config.construct w.caps).blocksOf (r.length w) ≤ (config.construct w.caps).kvBlocks →
      result.reason ≠ .contextOverflow) := by
  obtain ⟨job, known, named, origin, limited, rfl⟩ :=
    (refusals_run engine apart run).delivered r.id result delivered
  have same : job.request = r :=
    List.inj_on_of_nodup_map (counts_run run.of_guarded).nodup known accepted named
  subst same
  have prompt : job.state.usage.promptTokens = (w.tokenize job.request.spec.prompt true).length := by
    rw [origin.promptTokens, origin.prompt]
  have cause : job.result.reason = .contextOverflow →
      (0 < w.caps.nCtxSeq ∧ w.caps.nCtxSeq < job.request.length w) ∨
      (config.construct w.caps).kvBlocks < (config.construct w.caps).blocksOf
        ((w.tokenize job.request.spec.prompt true).length + job.result.usage.completionTokens) := by
    intro why
    -- refused at the start, or outgrown on the way
    rcases limited.cause why with large | outgrown
    · have refused := origin.oversize.mp large
      exact .inl ⟨refused.1, Nat.lt_of_lt_of_le refused.2 (toUint32_le _)⟩
    · unfold SchedulerConfig.Outgrown at outgrown
      rw [prompt] at outgrown
      exact .inr outgrown
  refine ⟨cause, fun context pool why => ?_⟩
  have budget : job.result.usage.completionTokens ≤ job.request.spec.maxTokens.toNat := by
    rw [← show job.state.spec = job.request.spec from origin.spec]
    exact limited.budget
  rcases cause why with large | outgrown
  · omega
  · have fewer : (config.construct w.caps).blocksOf
        ((w.tokenize job.request.spec.prompt true).length + job.result.usage.completionTokens) ≤
        (config.construct w.caps).blocksOf (job.request.length w) := by
      apply Nat.div_le_div_right
      unfold Request.length
      omega
    omega

end Server

/-- With an engine that throws in `decode` at most, in every run in which no job publishes or
    retains its prefix under the key of a donor: a request that is refused is too long for the
    context, or its tokens, prompt and what it had generated, fill more blocks than the pool has;
    so one whose whole life fits is never refused. -/
theorem refused_only_too_large {σ : Type} (w : World σ) (config : SchedulerConfig) (capacity : Nat)
    (world : σ) (engine : w.OnlyDecodeThrows) (batch : 1 ≤ config.maxBatchSize)
    (past : List Event) (s : Server (Continuous σ))
    (run : ((Server.continuous w config capacity world).guarded fun s _ _ =>
      s.thread.SparesDonors w (config.construct w.caps)).Run past s)
    (r : Request) (accepted : r ∈ s.accepted) (result : GenResult)
    (delivered : .setValue r.id result ∈ past) :
    (result.reason = .contextOverflow →
      (0 < w.caps.nCtxSeq ∧ w.caps.nCtxSeq < r.length w) ∨
      (config.construct w.caps).kvBlocks < (config.construct w.caps).blocksOf
        ((w.tokenize r.spec.prompt true).length + result.usage.completionTokens)) ∧
    ((w.caps.nCtxSeq = 0 ∨ r.length w ≤ w.caps.nCtxSeq) →
      (config.construct w.caps).blocksOf (r.length w) ≤ (config.construct w.caps).kvBlocks →
      result.reason ≠ .contextOverflow) :=
  Server.refused_run engine (.inl batch) run accepted delivered

/-- One request at a time, in a pool of two blocks of two tokens, with one donor. -/
def SchedulerConfig.tight : SchedulerConfig := { SchedulerConfig.single 1 with kvBlocks := 2 }

/-- A prompt that is larger than the pool. -/
theorem refused_only_too_large_letter :
    Script.letter.world.OnlyDecodeThrows ∧ 1 ≤ SchedulerConfig.tight.maxBatchSize ∧
      ∃ past s r result,
        ((Server.continuous Script.letter.world .tight 4 fun _ => none).guarded fun s _ _ =>
          s.thread.SparesDonors Script.letter.world (SchedulerConfig.tight.construct Script.letter.caps)).Run past s ∧
        r ∈ s.accepted ∧ .setValue r.id result ∈ past ∧ result.reason = .contextOverflow ∧
        2 < (SchedulerConfig.tight.construct Script.letter.caps).blocksOf
          ((Script.letter.world.tokenize r.spec.prompt true).length + result.usage.completionTokens) := by
  have engine := Script.letter.world_onlyDecodeThrows
  obtain ⟨past, s, run, accepted, ⟨id, result⟩, delivered, rfl, reason⟩ : ∃ past s,
      ((Server.continuous Script.letter.world .tight 4 fun _ => none).guarded fun s _ _ =>
        s.thread.SparesDonors Script.letter.world (SchedulerConfig.tight.construct Script.letter.caps)).Run past s ∧
      ({ id := 1, spec := { prompt := [1, 2, 3, 4, 5], maxTokens := 1 } } ∈ s.accepted ∧
        ∃ d ∈ past.filterMap Event.result?, d.1 = 1 ∧ d.2.reason = .contextOverflow) :=
    Server.exists_guarded ([.push { id := 0, spec := { prompt := [1, 2], maxTokens := 1 } },
      .push { id := 1, spec := { prompt := [1, 2, 3, 4, 5], maxTokens := 1 } }] ++
      List.replicate 28 .run) rfl rfl (by decide +kernel)
  have done := Event.mem_results.mp delivered
  refine ⟨engine, by decide, past, s, _, result, run, accepted, done, reason, ?_⟩
  rcases (refused_only_too_large _ _ _ _ engine (by decide) past s run _ accepted result done).1 reason
    with large | outgrown
  · exact absurd large (by decide)
  · exact outgrown

/-- Two requests with one prompt, and a third that fits the pool.  The second publishes over the
    donor of the first, whose block is never given back, and the third is refused. -/
theorem refused_after_loss_letter :
    Script.letter.world.NeverThrows ∧ 1 ≤ SchedulerConfig.tight.maxBatchSize ∧
      ∃ past s r result, (Server.continuous Script.letter.world .tight 4 fun _ => none).Run past s ∧
        r ∈ s.accepted ∧ r.length Script.letter.world ≤ Script.letter.world.caps.nCtxSeq ∧
        (SchedulerConfig.tight.construct Script.letter.caps).blocksOf (r.length Script.letter.world) ≤
          (SchedulerConfig.tight.construct Script.letter.caps).kvBlocks ∧
        .setValue r.id result ∈ past ∧ result.reason = .contextOverflow := by
  obtain ⟨past, s, run, accepted, ⟨id, result⟩, delivered, rfl, reason⟩ : ∃ past s,
      (Server.continuous Script.letter.world .tight 4 fun _ => none).Run past s ∧
      ({ id := 2, spec := { prompt := [1, 2, 3], maxTokens := 1 } } ∈ s.accepted ∧
        ∃ d ∈ past.filterMap Event.result?, d.1 = 2 ∧ d.2.reason = .contextOverflow) :=
    Server.exists_run ([.push { id := 0, spec := { prompt := [1, 2], maxTokens := 1 } },
      .push { id := 1, spec := { prompt := [1, 2], maxTokens := 1 } },
      .push { id := 2, spec := { prompt := [1, 2, 3], maxTokens := 1 } }] ++
      List.replicate 49 .run) rfl rfl (by decide +kernel)
  exact ⟨Script.letter_neverThrows, by decide, past, s, _, result, run, accepted, by decide, by decide,
    Event.mem_results.mp delivered, reason⟩

end MicroVllm
