import MicroVllm.Generation
import MicroVllm.Scheduler.Entries
import MicroVllm.Scheduler.Seats

/-! # What a slot holds, exactly

A running job is in one of three phases: its prompt is being submitted, a step has been
sampled for it, or it waits for its last token to be fed back.  In each phase the tokens
its slot holds follow from the prompt and the tokens accepted so far.  A job that has
ended did so by itself, as the generation of its request would on its own, or was stopped.
-/

namespace MicroVllm

section Phases

variable {σ : Type} {w : World σ} {C : Choice} {L : Nat → Prop}

/-- The phase of a running job that has accepted `tokens` and whose slot holds `cells`, by
    the step that is due for it. -/
inductive Phase (w : World σ) (C : Choice) (spec : RequestSpec) (state : SequenceState)
    (tokens cells : List Token) : Option (Option GenStep) → Prop where
  | prefilling (more : state.prefilled < state.prompt.length) (fresh : tokens = [])
      (holds : cells = state.prompt.take state.prefilled) : Phase w C spec state tokens cells none
  | waiting {due} (through : state.prefilled = state.prompt.length)
      (holds : cells = spec.lead w ++ tokens)
      (answer : ∀ step, due = some step → C spec tokens step) :
      Phase w C spec state tokens cells (some due)
  | decoding (through : state.prefilled = state.prompt.length) (begun : state.prompt = [] ∨ tokens ≠ [])
      (last : spec.lead w ++ tokens = cells ++ [state.pending]) :
      Phase w C spec state tokens cells none

/-- The request is too long for the context of a sequence. -/
def RequestSpec.Overflows (w : World σ) (spec : RequestSpec) : Prop :=
  w.caps.nCtxSeq > 0 ∧
    toUint32 ((spec.opening w).usage.promptTokens + spec.maxTokens.toNat) > w.caps.nCtxSeq

/-- How a job came to its end: it was stopped from outside, it never fitted the context, the
    pool could not hold it any longer (`L` says which lengths it cannot hold), or its generation
    ended as it would on its own. -/
inductive Job.Ended (w : World σ) (C : Choice) (L : Nat → Prop) (job : Job) : Prop where
  | stopped (reason : job.state.reason = .error ∨
      job.state.reason = .cancelled ∧ ∃ sink world, w.cancelled sink world = true)
  | refused {message} (outside : job.request.spec.Overflows w)
      (state : job.state.core.closed =
        ((job.request.spec.opening w).fail message .contextOverflow).closed)
  | overflowed {tokens s message} (inside : ¬ job.request.spec.Overflows w)
      (generates : Generates w (C job.request.spec) (job.request.spec.opening w) tokens s)
      (large : L (toUint32 (s.prompt.length + tokens.length)))
      (state : job.state.core.closed = (s.fail message .contextOverflow).closed)
  | concluded (inside : ¬ job.request.spec.Overflows w)
      (concludes : Concludes w (C job.request.spec) (job.request.spec.opening w) job.state.core.closed)

/-- A running job, the tokens it has accepted and those its slot holds. -/
structure Seat.Running (w : World σ) (C : Choice) (seat : Seat Token) (tokens cells : List Token) :
    Prop where
  inside : ¬ seat.job.request.spec.Overflows w
  generates : Generates w (C seat.job.request.spec) (seat.job.request.spec.opening w) tokens
    seat.job.state.core
  held : seat.held = some { params := seat.job.request.spec.sampling, cells }
  phase : Phase w C seat.job.request.spec seat.job.state tokens cells seat.due

structure Seat.Exact (w : World σ) (C : Choice) (L : Nat → Prop) (seat : Seat Token) : Prop where
  running : seat.job.state.finished = false → ∃ tokens cells, seat.Running w C tokens cells
  ended : seat.job.state.finished = true → seat.job.Ended w C L

/-- The length of what a running job needs room for, counted in tokens. -/
theorem Seat.Running.needed_eq {seat : Seat Token} {tokens cells : List Token}
    (running : seat.Running w C tokens cells) :
    seat.job.needed = toUint32 (seat.job.state.prompt.length + tokens.length) := by
  have completion : seat.job.state.usage.completionTokens = tokens.length :=
    (running.generates.counted rfl).1
  have prompt : seat.job.state.prompt = w.tokenize seat.job.request.spec.prompt true :=
    running.generates.prompt_eq
  have counted : seat.job.state.usage.promptTokens = toUint32 seat.job.state.prompt.length := by
    rw [prompt]
    exact running.generates.promptTokens_eq
  rw [Job.needed, completion, counted]
  exact Nat.mod_add_mod _ _ _

/-! ## Ends -/

/-- The sink is notified once: closing an ended job again changes nothing that matters. -/
theorem Job.Ended.close {job : Job} (ended : job.Ended w C L) :
    { job with state := job.state.closed }.Ended w C L := by
  have again : job.state.closed.core.closed = job.state.core.closed := by
    rw [SequenceState.closed_core, SequenceState.closed_of_notified (SequenceState.closed_notified _)]
  cases ended with
  | stopped reason =>
    apply Job.Ended.stopped
    simp only [SequenceState.closed_reason]
    exact reason
  | refused outside state => exact .refused outside (again.trans state)
  | overflowed inside generates large state =>
    exact .overflowed inside generates large (again.trans state)
  | concluded inside concludes =>
    refine .concluded inside ?_
    simp only [again]
    exact concludes

/-- The page table plays no part in how a job ended. -/
theorem Job.Ended.congr {job job' : Job} (ended : job.Ended w C L) (state : job'.state = job.state)
    (request : job'.request = job.request) : job'.Ended w C L := by
  cases ended with
  | stopped reason => exact .stopped (by rwa [state])
  | refused outside closed => exact .refused (by rwa [request]) (by rw [state, request]; exact closed)
  | overflowed inside generates large closed =>
    rw [← request] at inside generates
    exact .overflowed inside generates large (by rw [state]; exact closed)
  | concluded inside concludes =>
    exact .concluded (by rwa [request]) (by rw [state, request]; exact concludes)

/-! ## Stages -/

theorem Seat.Exact.of_ended {seat : Seat Token} (finished : seat.job.state.finished = true)
    (ended : seat.job.Ended w C L) : seat.Exact w C L where
  running unfinished := by simp [finished] at unfinished
  ended _ := ended

theorem Seat.Exact.of_running {seat : Seat Token} {tokens cells : List Token}
    (unfinished : seat.job.state.finished = false) (running : seat.Running w C tokens cells) :
    seat.Exact w C L where
  running _ := ⟨tokens, cells, running⟩
  ended finished := by simp [unfinished] at finished

/-- The exception path leaves no running job behind. -/
theorem Seat.Exact.fail {seat seat' : Seat Token} {job : Job} {message : String}
    (before : seat.Exact w C L) (same : seat.job.state.finished = true → job = seat.job)
    (finished : job.state.finished = seat.job.state.finished)
    (failed : seat'.job = job.failed message) : seat'.Exact w C L := by
  cases ended : seat.job.state.finished with
  | true =>
    have kept : seat'.job = seat.job := by
      rw [failed, same ended, Job.failed, if_pos ended]
    apply Seat.Exact.of_ended
    · rw [kept]
      exact ended
    · rw [kept]
      exact before.ended ended
  | false =>
    have stopped : seat'.job = { job with state := job.state.fail message } := by
      rw [failed, Job.failed, finished, ended]
      rfl
    apply Seat.Exact.of_ended
    · rw [stopped]
      rfl
    · rw [stopped]
      exact .stopped (.inl rfl)

/-- A job that has just been built.  An empty prompt is through before anything has been sampled. -/
theorem Seat.Exact.enter (request : Request) (slot : Nat) :
    Seat.Exact w C L ⟨Scheduler.newJob w request slot, none,
      some { params := request.spec.sampling, cells := [] }⟩ := by
  by_cases overflows : request.spec.Overflows w
  · have state : (Scheduler.newJob w request slot).state =
        (Scheduler.newState w request slot).fail (Scheduler.overflowMessage _ _) .contextOverflow :=
      if_pos overflows
    apply Seat.Exact.of_ended
    · show (Scheduler.newJob w request slot).state.finished = true
      rw [state]
      rfl
    · apply Job.Ended.refused overflows
      rw [state]
      rfl
  · have state : (Scheduler.newJob w request slot).state = Scheduler.newState w request slot :=
      if_neg overflows
    have unfinished : (Scheduler.newJob w request slot).state.finished = false := by
      rw [state]
      rfl
    refine Seat.Exact.of_running unfinished (show Seat.Running w _ _ [] [] from ⟨overflows, ?_, rfl, ?_⟩)
    · show Generates w _ _ [] (Scheduler.newJob w request slot).state.core
      rw [state]
      exact .start
    · by_cases prompt : w.tokenize request.spec.prompt true = []
      · apply Phase.decoding
        · show (Scheduler.newJob w request slot).state.prefilled = _
          rw [Scheduler.newJob_prefilled, Scheduler.newJob_prompt, prompt]
          rfl
        · left
          exact (Scheduler.newJob_prompt w request slot).trans prompt
        · show request.spec.lead w ++ [] = [] ++ [(Scheduler.newJob w request slot).state.pending]
          rw [state, RequestSpec.lead, if_pos prompt]
          rfl
      · apply Phase.prefilling
        · show (Scheduler.newJob w request slot).state.prefilled < _
          rw [Scheduler.newJob_prefilled, Scheduler.newJob_prompt]
          exact List.length_pos_iff.mpr prompt
        · rfl
        · show [] = (Scheduler.newJob w request slot).state.prompt.take
            (Scheduler.newJob w request slot).state.prefilled
          rw [Scheduler.newJob_prefilled, List.take_zero]

/-- A batch is decoded, and `due` is what the loop then has for the job. -/
theorem Seat.Running.serve {job job' : Job} {items : List BatchItem} {held : Option (Slot Token)}
    {due : Option (Option GenStep)} {tokens cells : List Token}
    (running : Seat.Running w C ⟨job, none, held⟩ tokens cells) (served : Served job job' items)
    (asked : due ≠ none ↔ ∃ item ∈ items, item.sample = true)
    (answer : ∀ step, due = some (some step) →
      held.map (Slot.feed .token items) =
        some { params := job.request.spec.sampling, cells := job.request.spec.lead w ++ tokens } →
      C job.request.spec tokens step) :
    ∃ cells', Seat.Running w C ⟨job', due, held.map (Slot.feed .token items)⟩ tokens cells' := by
  obtain ⟨inside, generates, contents, phase⟩ := running
  simp only at inside generates contents phase
  subst contents
  cases served with
  | idle =>
    have nothing : due = none := by
      by_contra some
      obtain ⟨item, inside, _⟩ := asked.mp some
      cases inside
    subst nothing
    refine ⟨cells, inside, generates, ?_, phase⟩
    simp [Slot.feed]
  | decode unfinished through =>
    -- the last token goes in behind what the slot holds, and a step is due
    obtain ⟨sampled, rfl⟩ := Option.ne_none_iff_exists'.mp
      (asked.mpr ⟨_, List.mem_singleton_self _, rfl⟩)
    simp only [SequenceState.prefilling, SequenceState.prefillRemaining, gt_iff_lt,
      decide_eq_false_iff_not] at through
    cases phase with
    | prefilling more => omega
    | decoding all _ last =>
      have fed : cells ++ ([job.state.decodeItem].flatMap (·.tokens)).map CellKind.token.fed =
          job.request.spec.lead w ++ tokens := by
        simp [SequenceState.decodeItem, CellKind.token, last]
      have after : (some { params := job.request.spec.sampling, cells } : Option (Slot Token)).map
          (Slot.feed .token [job.state.decodeItem]) =
          some { params := job.request.spec.sampling, cells := job.request.spec.lead w ++ tokens } := by
        rw [Option.map_some, Slot.feed, fed]
      refine ⟨_, inside, generates, after, .waiting all rfl ?_⟩
      rintro step rfl
      exact answer step rfl after
  | @prefill take unfinished positive within =>
    have chunk : (job.state.takePrefillChunk take).1.tokens =
        (job.state.prompt.drop job.state.prefilled).take take := by
      simp [SequenceState.takePrefillChunk, Nat.min_eq_left within]
    have submitted : (job.state.takePrefillChunk take).2.prefilled = job.state.prefilled + take := by
      simp [SequenceState.takePrefillChunk, Nat.min_eq_left within]
    have samples : (job.state.takePrefillChunk take).1.sample =
        decide (job.state.prompt.length - (job.state.takePrefillChunk take).2.prefilled = 0) := rfl
    rw [submitted] at samples
    simp only [SequenceState.prefillRemaining] at within
    cases phase with
    | decoding all => omega
    | prefilling more fresh holds =>
      have fed : cells ++ ([(job.state.takePrefillChunk take).1].flatMap (·.tokens)).map
          CellKind.token.fed = job.state.prompt.take (job.state.prefilled + take) := by
        simp [chunk, CellKind.token, holds, List.take_add]
      refine ⟨job.state.prompt.take (job.state.prefilled + take), inside, generates, ?_, ?_⟩
      · rw [Option.map_some, Slot.feed, fed]
      · by_cases whole : job.state.prefilled + take = job.state.prompt.length
        · -- the chunk that completes the prompt samples
          obtain ⟨sampled, rfl⟩ := Option.ne_none_iff_exists'.mp
            (asked.mpr ⟨_, List.mem_singleton_self _, by rw [samples]; simp [whole]⟩)
          have prompt : job.state.prompt = w.tokenize job.request.spec.prompt true := generates.prompt_eq
          have all : job.state.prompt.take (job.state.prefilled + take) =
              job.request.spec.lead w ++ tokens := by
            rw [whole, List.take_length, fresh, List.append_nil, prompt, RequestSpec.lead_eq]
            apply List.ne_nil_of_length_pos
            rw [← prompt]
            omega
          apply Phase.waiting
          · rw [submitted]
            exact whole
          · exact all
          · rintro step rfl
            apply answer step rfl
            rw [Option.map_some, Slot.feed, fed, all]
        · have nothing : due = none := by
            by_contra some
            obtain ⟨item, inside, asks⟩ := asked.mp some
            rw [List.mem_singleton.mp inside, samples, decide_eq_true_eq] at asks
            omega
          subst nothing
          apply Phase.prefilling
          · rw [submitted]
            show job.state.prefilled + take < job.state.prompt.length
            omega
          · exact fresh
          · rw [submitted]
            rfl

/-- A sampled token is accepted and the sequence goes on. -/
theorem Seat.Running.goOn {job job' : Job} {step : GenStep} {state : SequenceState}
    {held : Option (Slot Token)} {tokens cells : List Token}
    (running : Seat.Running w C ⟨job, some (some step), held⟩ tokens cells)
    (accepts : job.state.Accepts w step true state) (request : job'.request = job.request)
    (after : job'.state = state) :
    Seat.Running w C ⟨job', none, held⟩ (tokens ++ [step.token]) cells := by
  obtain ⟨inside, generates, contents, phase⟩ := running
  simp only at inside generates contents phase
  have same := accepts.same
  have pending : state.pending = step.token := by
    cases accepts
    rfl
  cases phase with
  | waiting through holds answer =>
    refine ⟨by rw [request]; exact inside, ?_, by rw [request]; exact contents, ?_⟩
    · rw [request, after]
      exact generates.next (answer step rfl) accepts.core
    · rw [request, after]
      apply Phase.decoding
      · rw [same.prefilled, same.prompt]
        exact through
      · right
        simp
      · rw [pending, holds, List.append_assoc]

/-- A sampled token ends the sequence. -/
theorem Seat.Exact.stop {job : Job} {step : GenStep} {state : SequenceState} {port : Port σ}
    {due : Option (Option GenStep)} {held held' : Option (Slot Token)}
    (before : Seat.Exact w C L ⟨job, some (some step), held⟩)
    (accepts : job.state.Accepts w step false state) :
    Seat.Exact w C L ⟨{ job with state := (state.finish w port).1 }, due, held'⟩ := by
  apply Seat.Exact.of_ended (SequenceState.finish_finished accepts.finished_of_stops port)
  simp only [SequenceState.finish_state]
  cases finished : job.state.finished with
  | true =>
    -- a job that had ended is left as it was
    have same : state = job.state := by
      cases accepts with
      | done => rfl
      | eos unfinished | budget unfinished | stop unfinished | cancelled unfinished =>
        simp [finished] at unfinished
    rw [same]
    exact (before.ended finished).close
  | false =>
    by_cases cancelled : state.reason = .cancelled
    · apply Job.Ended.stopped
      simp only [SequenceState.closed_reason]
      exact .inr ⟨cancelled, accepts.heard finished cancelled⟩
    · obtain ⟨tokens, cells, inside, generates, _, phase⟩ := before.running finished
      cases phase with
      | waiting _ _ answer =>
        refine .concluded inside ?_
        simp only [SequenceState.closed_core,
          SequenceState.closed_of_notified (SequenceState.closed_notified _)]
        exact .intro generates (answer step rfl) accepts.core cancelled

/-- A running job that the pool can never hold is failed. -/
theorem Seat.Running.overflow {seat : Seat Token} {tokens cells : List Token}
    (running : seat.Running w C tokens cells) (large : L seat.job.needed) (message : String) :
    { seat.job with state := seat.job.state.fail message .contextOverflow }.Ended w C L := by
  rw [running.needed_eq] at large
  exact .overflowed running.inside running.generates large rfl

/-- A prefix is adopted that is shorter than the prompt and is all there. -/
theorem Seat.Running.adopt {request : Request} {slot : Nat} {table : BlockTable} {hit : Entry}
    {held source : Option (Slot Token)} {tokens cells : List Token}
    (running : Seat.Running w C ⟨Scheduler.newJob w request slot, none, held⟩ tokens cells)
    (shorter : hit.nTokens < (w.tokenize request.spec.prompt true).length)
    (there : ∃ original, source = some original ∧
      original.cells.take hit.nTokens = (w.tokenize request.spec.prompt true).take hit.nTokens) :
    Seat.Running w C ⟨Continuous.inherit (Scheduler.newJob w request slot) table hit, none,
      held.map (Slot.inherit .token source hit.nTokens)⟩ tokens
        ((w.tokenize request.spec.prompt true).take hit.nTokens) := by
  obtain ⟨inside, generates, contents, phase⟩ := running
  obtain ⟨original, rfl, agrees⟩ := there
  simp only at contents phase
  subst contents
  have prefilled : (Continuous.inherit (Scheduler.newJob w request slot) table hit).state.prefilled =
      hit.nTokens := by
    have nonempty : w.tokenize request.spec.prompt true ≠ [] := by
      apply List.ne_nil_of_length_pos
      omega
    simp only [Continuous.inherit, SequenceState.adoptCachedPrefix, Scheduler.newJob_prompt,
      if_neg nonempty]
    omega
  have prompt : (Continuous.inherit (Scheduler.newJob w request slot) table hit).state.prompt =
      w.tokenize request.spec.prompt true := Scheduler.newJob_prompt w request slot
  refine ⟨inside, generates, ?_, ?_⟩
  · simp only [Option.map_some, Slot.inherit, agrees, CellKind.token, List.map_id]
    rfl
  · cases phase with
    | decoding through =>
      -- a prompt longer than the hit is not through
      rw [Scheduler.newJob_prefilled, Scheduler.newJob_prompt] at through
      omega
    | prefilling _ fresh =>
      apply Phase.prefilling
      · simp only [prefilled, prompt]
        exact shorter
      · exact fresh
      · simp only [prefilled, prompt]

variable {config : SchedulerConfig} {A : Slot Token → GenStep → Prop} {keeps : Prop}
variable {s : Continuous σ} {kv : Kv Token}

/-- A hit for this prompt covers less than all of it, and its slot holds what it covers. -/
def CoversPart (s : Continuous σ) (kv : Kv Token) (prompt : List Token) : Prop :=
  ∀ hit, (PrefixCache.hashPrefix prompt hit.nTokens, hit) ∈ s.prefixCache.pairs →
    hit.nTokens ≤ prompt.length → hit.nTokens < prompt.length ∧
      ∃ original, kv hit.seq = some original ∧
        original.cells.take hit.nTokens = prompt.take hit.nTokens

/-- Every stage keeps a seat exact: what the engine answers for the contents must be something
    that may be sampled, and hits must be partial. -/
theorem Seat.Exact.stage {seat seat' : Seat Token} (before : seat.Exact w C L)
    (samples : s.pc = .build → ∀ job ∈ s.active, job.state.finished = false → ∀ tokens step,
      job.needed = toUint32 (job.state.prompt.length + tokens.length) →
      A { params := job.request.spec.sampling, cells := job.request.spec.lead w ++ tokens } step →
        C job.request.spec tokens step)
    (large : ∀ n, s.blocks.total < s.blocks.blocksFor n → L n)
    (hits : config.prefixCaching = true → ∀ job, s.pc = .reserve job → s.Enters job →
      CoversPart s kv job.state.prompt)
    (stage : Stage w config .token A keeps s kv seat seat') : seat'.Exact w C L := by
  cases stage with
  | stay => exact before
  | grow unfinished =>
    obtain ⟨tokens, cells, running⟩ := before.running unfinished
    exact .of_running unfinished
      ⟨running.inside, running.generates, running.held, running.phase⟩
  | @adopt request slot table held hit pc caching enters found positive within =>
    obtain ⟨tokens, cells, running⟩ := before.running enters.1
    have part := hits caching _ pc enters
    rw [Scheduler.newJob_prompt] at part
    obtain ⟨shorter, there⟩ := part hit found within
    exact .of_running enters.1 (running.adopt shorter there)
  | @serve job job' items due held pc member served asked answer =>
    cases finished : job.state.finished with
    | true =>
      -- nothing is submitted for a job that has ended
      cases served with
      | decode unfinished => simp [finished] at unfinished
      | prefill unfinished => simp [finished] at unfinished
      | idle => exact .of_ended finished (before.ended finished)
    | false =>
      obtain ⟨tokens, cells, running⟩ := before.running finished
      obtain ⟨cells', next⟩ := running.serve served asked
        fun step due held => samples pc job member finished tokens step running.needed_eq
          (answer step _ due held)
      exact .of_running (served.frame.1.trans finished) next
  | @spoil job job' items _ _ message fails member served =>
    exact before.fail served.idle_of_finished served.frame.1 rfl
  | drop => exact before.fail (fun _ => rfl) rfl rfl
  | goOn through accepts =>
    obtain ⟨unfinished, unfinished'⟩ := accepts.unfinished_of_goesOn
    obtain ⟨tokens, cells, running⟩ := before.running unfinished
    exact .of_running unfinished' (running.goOn accepts rfl rfl)
  | stop through accepts => exact before.stop accepts
  | overflow through unfinished toolarge =>
    obtain ⟨tokens, cells, running⟩ := before.running unfinished
    refine .of_ended (SequenceState.finish_finished rfl _) ?_
    simp only [SequenceState.finish_state]
    exact (running.overflow (large _ toolarge) _).close

end Phases

/-! ## The whole thread -/

namespace Continuous

variable {σ : Type} {w : World σ} {config : SchedulerConfig} {C : Choice} {L : Nat → Prop}
variable {A : Slot Token → GenStep → Prop} {T : Tracker w .token} {past : List Event}
variable {s s' : Continuous σ}

def Exact (w : World σ) (C : Choice) (L : Nat → Prop) (T : Tracker w .token) (past : List Event)
    (s : Continuous σ) : Prop :=
  ∀ job ∈ s.crew, (s.seat T past job).Exact w C L

theorem Exact.move {q q' : RequestQueue} {lostBlocks lostSlots : List Nat}
    (before : s.Exact w C L T past) (layout : Layout w config s) (orderly : s.Orderly)
    (books : Books config s lostBlocks lostSlots) (honest : Honest T past A s.port)
    (samples : s.pc = .build → ∀ job ∈ s.active, job.state.finished = false → ∀ tokens step,
      job.needed = toUint32 (job.state.prompt.length + tokens.length) →
      A { params := job.request.spec.sampling, cells := job.request.spec.lead w ++ tokens } step →
        C job.request.spec tokens step)
    (large : ∀ n, s.blocks.total < s.blocks.blocksFor n → L n)
    (hits : config.prefixCaching = true → ∀ job, s.pc = .reserve job → s.Enters job →
      CoversPart s (T.contents past s.port) job.state.prompt)
    (move : Move w config s q s' q') : s'.quiet.Exact w C L T (past ++ s'.port.log) := by
  intro job member
  rw [seat_quiet]
  cases move.seats T layout orderly books honest job member with
  | staged old stage =>
    exact (before _ old).stage samples large hits stage
  | @entered request slot taken =>
    rw [taken]
    exact Seat.Exact.enter request slot

end Continuous

namespace Server

variable {σ : Type} {w : World σ} {config : SchedulerConfig} {capacity : Nat} {world : σ}
variable {past : List Event} {s : Server (Continuous σ)}

/-- Without prefix caching every seat is exact. -/
theorem exact_run {S : Sampler} (T : Tracker w .token) (off : config.prefixCaching = false)
    (honest : ∀ past port, Continuous.Honest T past (fun slot => S slot.params slot.cells) port)
    (run : (continuous w config capacity world).Run past s) :
    s.thread.Exact w (S.choice w) (fun _ => True) T past := by
  refine continuous_thread_invariant ?_ ?_ run.guarded_true
  · intro job member
    simp [Continuous.crew, Continuous.start, Pc.inHand] at member
  · intro past s thread queue run settled before move _
    have orderly := orderly_run run.of_guarded
    obtain ⟨lostBlocks, lostSlots, books⟩ := books_run (.inr off) run.of_guarded
    exact before.move settled.layout orderly books (honest past s.thread.port)
      (fun _ _ _ _ _ _ _ answered => answered) (fun _ _ => trivial) (by simp [construct_prefixCaching off]) move

end Server

end MicroVllm
