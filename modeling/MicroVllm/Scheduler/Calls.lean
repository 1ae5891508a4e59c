import MicroVllm.Scheduler.Reservations

/-! # One call of `run_batch`

A call begins with the batch formed and no job built, and is over when the thread collects the next
batch.  Every job of the batch registers its slot with the engine when it is built.  A slot is
released when its sequence ends, or on the failure path; a job that was refused when it was built
ends in neither way.
-/

namespace MicroVllm

open Transition (Machine)

/-! ## Slots the engine holds -/

/-- Whether an event registers a slot with the engine or releases it. -/
def Event.registers (slot : Nat) : Event → Option Bool
  | .beginSequence seq _ _ => if seq = slot then some true else none
  | .releaseSequence seq => if seq = slot then some false else none
  | _ => none

theorem Event.registers_of_toSink (slot : Nat) (sink : SinkRef) (e : Event) (call : e.ToSink sink) :
    e.registers slot = none := by
  cases e with
  | onText | onFinish | onError => rfl
  | _ => cases call

/-- The slot was begun and has not been released since. -/
def Registered (past : List Event) (slot : Nat) : Prop :=
  (past.filterMap (Event.registers slot)).getLast? = some true

instance (past : List Event) (slot : Nat) : Decidable (Registered past slot) :=
  inferInstanceAs (Decidable ((past.filterMap (Event.registers slot)).getLast? = some true))

section Registered

variable {past events : List Event} {slot : Nat}

theorem registered_append_of_nil (none : events.filterMap (Event.registers slot) = []) :
    Registered (past ++ events) slot ↔ Registered past slot := by
  rw [Registered, Registered, List.filterMap_append, none, List.append_nil]

theorem registered_append_of_last {flag : Bool}
    (last : (events.filterMap (Event.registers slot)).getLast? = some flag) :
    Registered (past ++ events) slot ↔ flag = true := by
  rw [Registered, List.filterMap_append, List.getLast?_append, last]
  simp

end Registered

/-- A call of `decode` threw. -/
def Failed (past : List Event) : Prop := ∃ items, Event.decode items false ∈ past

def Event.fails : Event → Option (List BatchItem)
  | .decode items false => some items
  | _ => none

theorem Event.fails_of_toSink (sink : SinkRef) (e : Event) (call : e.ToSink sink) : e.fails = none := by
  cases e with
  | onText | onFinish | onError => rfl
  | _ => cases call

theorem failed_iff {past : List Event} : Failed past ↔ past.filterMap Event.fails ≠ [] := by
  constructor
  · rintro ⟨items, member⟩ none
    have read := List.filterMap_eq_nil_iff.mp none _ member
    cases read
  · intro some
    obtain ⟨items, member⟩ := List.exists_mem_of_ne_nil _ some
    obtain ⟨e, inside, read⟩ := List.mem_filterMap.mp member
    refine ⟨items, ?_⟩
    cases e with
    | decode items' ok =>
      cases ok with
      | false =>
        cases read
        exact inside
      | true => cases read
    | _ => cases read

theorem failed_append {past events : List Event} :
    Failed (past ++ events) ↔ Failed past ∨ events.filterMap Event.fails ≠ [] := by
  rw [failed_iff, failed_iff, List.filterMap_append, ne_eq, List.append_eq_nil_iff, not_and_or]

/-- Between two batches. -/
def StaticPc.collecting : StaticPc → Bool
  | .collect _ => true
  | _ => false

/-! ## What a batch asks for -/

namespace Static

variable {σ : Type} {w : World σ} {config : SchedulerConfig} {s s' : Static σ} {q q' : RequestQueue}

/-- The blocks that are reserved for a batch. -/
def reservation (w : World σ) (a : BlockAllocator) (batch : List Request) : Nat :=
  (batch.map fun request => a.blocksFor (toUint32 (request.length w))).sum

/-- No request of the batch is refused: each fits the context, and all fit the pool together. -/
def Admits (w : World σ) (a : BlockAllocator) (batch : List Request) : Prop :=
  (∀ request ∈ batch, ¬ request.Refused w) ∧ reservation w a batch ≤ a.freeBlocks

instance (w : World σ) (a : BlockAllocator) (batch : List Request) : Decidable (Admits w a batch) :=
  inferInstanceAs (Decidable ((∀ request ∈ batch, ¬ request.Refused w) ∧
    reservation w a batch ≤ a.freeBlocks))

theorem reservation_append (w : World σ) (a : BlockAllocator) (made rest : List Request) :
    reservation w a (made ++ rest) = reservation w a made + reservation w a rest := by
  simp [reservation]

theorem wholeLength_newJob (w : World σ) (request : Request) (slot : Nat) :
    wholeLength (Scheduler.newJob w request slot) = toUint32 (request.length w) := by
  have origin := origin_newJob w request slot
  rw [wholeLength, origin.promptTokens, origin.prompt]
  rfl

/-! ## The tally of a batch -/

/-- What the engine holds while a batch is running, of which `rejected` were refused. -/
structure Tally (rejected : List Nat) (past : List Event) (s : Static σ) : Prop where
  attended : ∀ job ∈ s.jobs, job.state.seq ∈ s.pc.waiting → job.state.finished = false
  once : s.pc.waiting.Nodup
  refused : ∀ job ∈ s.jobs, job.state.seq ∈ rejected → job.state.finished = true
  inside : rejected ⊆ seqs s.jobs
  held : ∀ job ∈ s.jobs, Registered past job.state.seq ↔
    (job.state.finished = false ∨ job.state.seq ∈ rejected)
  others : ∀ slot ∉ seqs s.jobs, ¬ Registered past slot

namespace Tally

variable {rejected : List Nat} {past past' : List Event}

/-- The jobs stand as they did, and no slot is begun or released. -/
theorem frame (tally : s.Tally rejected past) (jobs : List.Forall₂ Standing s.jobs s'.jobs)
    (quiet : ∀ slot, Registered past' slot ↔ Registered past slot) (once : s'.pc.waiting.Nodup)
    (attended : ∀ job ∈ s.jobs, job.state.seq ∈ s'.pc.waiting → job.state.finished = false) :
    s'.Tally rejected past' := by
  have same := seqs_of_standing jobs
  refine ⟨?_, once, ?_, ?_, ?_, ?_⟩
  · intro job' member waits
    obtain ⟨job, inside, stands⟩ := Lists.exists_of_forall₂_right jobs member
    rw [stands.seq] at waits
    exact stands.finished.trans (attended job inside waits)
  · intro job' member refused
    obtain ⟨job, inside, stands⟩ := Lists.exists_of_forall₂_right jobs member
    rw [stands.seq] at refused
    exact stands.finished.trans (tally.refused job inside refused)
  · rw [same]
    exact tally.inside
  · intro job' member
    obtain ⟨job, inside, stands⟩ := Lists.exists_of_forall₂_right jobs member
    rw [stands.seq, stands.finished, quiet]
    exact tally.held job inside
  · intro slot outside
    rw [same] at outside
    rw [quiet]
    exact tally.others slot outside

/-- A job joins the batch: it is running, or it has been refused. -/
theorem join {job : Job} {rejected' : List Nat} (tally : s.Tally rejected past) (layout : Layout s)
    (seq : job.state.seq = s.jobs.length) (jobs : s'.jobs = s.jobs ++ [job]) (idle : s'.pc.waiting = [])
    (begun : ∀ slot, Registered past' slot ↔ slot = s.jobs.length ∨ Registered past slot)
    (same : ∀ slot, slot ∈ rejected' ↔
      slot ∈ rejected ∨ (slot = s.jobs.length ∧ job.state.finished = true)) :
    s'.Tally rejected' past' := by
  -- the jobs have the slots up to their number, so the one that joins has a slot of its own
  have below : ∀ j ∈ s.jobs, j.state.seq ≠ s.jobs.length := by
    intro j member equal
    have listed : j.state.seq ∈ seqs s.jobs := mem_seqs.mpr ⟨j, member, rfl⟩
    unfold Layout at layout
    rw [layout, List.mem_range] at listed
    omega
  refine ⟨?_, ?_, ?_, ?_, ?_, ?_⟩
  · intro j _ waits
    rw [idle] at waits
    cases waits
  · rw [idle]
    exact .nil
  · intro j member refused
    rw [jobs] at member
    rcases List.mem_append.mp member with old | new
    · rcases (same _).mp refused with earlier | ⟨now, _⟩
      · exact tally.refused j old earlier
      · exact absurd now (below j old)
    · cases List.mem_singleton.mp new
      rcases (same _).mp refused with earlier | ⟨_, finished⟩
      · obtain ⟨j, member, equal⟩ := mem_seqs.mp (tally.inside earlier)
        exact absurd (equal.trans seq) (below j member)
      · exact finished
  · intro slot refused
    rw [jobs, seqs_append]
    rcases (same _).mp refused with earlier | ⟨now, _⟩
    · exact List.mem_append_left _ (tally.inside earlier)
    · rw [now, ← seq]
      exact List.mem_append_right _ List.mem_cons_self
  · intro j member
    rw [jobs] at member
    rcases List.mem_append.mp member with old | new
    · rw [begun, same, tally.held j old]
      simp [below j old]
    · cases List.mem_singleton.mp new
      rw [begun, same, seq]
      cases job.state.finished <;> simp
  · intro slot outside
    rw [jobs, seqs_append, List.mem_append] at outside
    rw [begun]
    rintro (now | registered)
    · exact outside (.inr (by simp [now, seq]))
    · exact tally.others slot (fun inside => outside (.inl inside)) registered

/-- A job that was waited for ends, and its slot is released. -/
theorem finish {before after : List Job} {job job' : Job} (tally : s.Tally rejected past)
    (layout : Layout s) (here : s.jobs = before ++ job :: after) (jobs : s'.jobs = before ++ job' :: after)
    (seq : job'.state.seq = job.state.seq) (finished : job'.state.finished = true)
    (waiting : s.pc.waiting = job.state.seq :: s'.pc.waiting)
    (released : ∀ slot, Registered past' slot ↔ slot ≠ job.state.seq ∧ Registered past slot) :
    s'.Tally rejected past' := by
  have inside : job ∈ s.jobs := by rw [here]; simp
  have unfinished := tally.attended job inside (by rw [waiting]; exact List.mem_cons_self)
  have unrefused : job.state.seq ∉ rejected := by
    intro refused
    have isOver := tally.refused job inside refused
    simp [unfinished] at isOver
  have once := tally.once
  rw [waiting, List.nodup_cons] at once
  have same : seqs s'.jobs = seqs s.jobs := by rw [jobs, here]; simp [seq]
  -- the others of the batch are as they were
  have split : ∀ j ∈ s'.jobs, j = job' ∨ (j ∈ s.jobs ∧ j.state.seq ≠ job.state.seq) := by
    intro j member
    rw [jobs] at member
    exact mem_replaced layout.nodup here member
  refine ⟨?_, once.2, ?_, ?_, ?_, ?_⟩
  · intro j member waits
    rcases split j member with rfl | ⟨old, _⟩
    · rw [seq] at waits
      exact absurd waits once.1
    · exact tally.attended j old (by rw [waiting]; exact List.mem_cons_of_mem _ waits)
  · intro j member refused
    rcases split j member with rfl | ⟨old, _⟩
    · exact finished
    · exact tally.refused j old refused
  · rw [same]
    exact tally.inside
  · intro j member
    rw [released]
    rcases split j member with rfl | ⟨old, other⟩
    · rw [seq, finished]
      simp [unrefused]
    · rw [tally.held j old]
      simp [other]
  · intro slot outside
    rw [same] at outside
    rw [released]
    exact fun both => tally.others slot outside both.2

end Tally

/-! ## The stages of a call -/

/-- The jobs of `made` have been built, with what was free in `a`. -/
structure Building (w : World σ) (a : BlockAllocator) (made : List Request) (rejected : List Nat)
    (past : List Event) (s : Static σ) : Prop where
  tally : s.Tally rejected past
  unfailed : ¬ Failed past
  size : s.blocks.blockSize = a.blockSize
  budget : (rejected = [] ∧ (∀ r ∈ made, ¬ r.Refused w) ∧
      s.blocks.freeBlocks + reservation w a made = a.freeBlocks) ∨
    (rejected ≠ [] ∧ ¬ Admits w a made)

structure Running (w : World σ) (a : BlockAllocator) (batch : List Request) (rejected : List Nat)
    (past : List Event) (s : Static σ) : Prop where
  tally : s.Tally rejected past
  unfailed : ¬ Failed past
  verdict : rejected = [] ↔ Admits w a batch

/-- Unless the batch failed, the engine is left with the slots of those that were refused. -/
structure Left (w : World σ) (a : BlockAllocator) (batch : List Request) (rejected : List Nat)
    (past : List Event) : Prop where
  held : ∀ slot, Registered past slot ↔ ¬ Failed past ∧ slot ∈ rejected
  verdict : rejected = [] ↔ Admits w a batch

/-- How far the call for `batch` has come. -/
def Called (w : World σ) (a : BlockAllocator) (batch : List Request) (past : List Event) (s : Static σ) :
    Prop :=
  match s.pc with
  | .make rest => ∃ made rejected, batch = made ++ rest ∧ s.Building w a made rejected past
  | .prefill _ | .acceptPrefill .. | .decode | .acceptDecode .. =>
    ∃ rejected, s.Running w a batch rejected past
  | .deliver _ | .collect _ => ∃ rejected, Left w a batch rejected past
  | .done | .crashed _ => True

section Stages

variable {a : BlockAllocator} {batch made : List Request} {rejected : List Nat} {past : List Event}

theorem settleAll_registers (message : String) (jobs : List Job) (port : Port σ) (slot : Nat) :
    (settleAll w message jobs port).2.log.filterMap (Event.registers slot) =
      port.log.filterMap (Event.registers slot) ++ List.replicate ((seqs jobs).count slot) false := by
  induction jobs generalizing port with
  | nil => simp [settleAll]
  | cons job jobs ih =>
    have seq : ∀ state : SequenceState, (state.finish w port).1.seq = state.seq :=
      fun state => (SequenceState.finish_same state port).seq
    simp only [settleAll, ih, Port.filterMap_release, seqs_cons,
      Scheduler.filterMap_finish (Event.registers_of_toSink slot), seq]
    have own : (if job.state.finished then job.state else job.state.fail message).seq = job.state.seq := by
      split <;> rfl
    rw [own, Event.registers, List.append_assoc]
    by_cases here : job.state.seq = slot
    · rw [if_pos here, here, List.count_cons_self, List.replicate_succ]
      rfl
    · rw [if_neg here, List.count_cons_of_ne here]
      rfl

/-- On the failure path every slot is released. -/
theorem Running.fail (running : s.Running w a batch rejected past) {t : Static σ} {message : String}
    (seqs_eq : seqs t.jobs = seqs s.jobs)
    (begun : ∀ slot, t.port.log.filterMap (Event.registers slot) = [])
    (failed : t.port.log.filterMap Event.fails ≠ []) :
    Left w a batch rejected (past ++ (t.failBatch w message).port.log) := by
  have unregistered : ∀ slot, ¬ Registered (past ++ (t.failBatch w message).port.log) slot := by
    intro slot
    have log : (t.failBatch w message).port.log.filterMap (Event.registers slot) =
        List.replicate ((seqs t.jobs).count slot) false := by
      show (settleAll w message t.jobs t.port).2.log.filterMap _ = _
      rw [settleAll_registers, begun, List.nil_append]
    by_cases inside : slot ∈ seqs s.jobs
    · have some : (seqs t.jobs).count slot ≠ 0 := by
        rw [seqs_eq]
        exact Nat.ne_of_gt (List.count_pos_iff.mpr inside)
      obtain ⟨n, count⟩ := Nat.exists_eq_succ_of_ne_zero some
      have last : ((t.failBatch w message).port.log.filterMap (Event.registers slot)).getLast? =
          .some false := by
        rw [log, count, List.replicate_succ', List.getLast?_concat]
      rw [registered_append_of_last last]
      simp
    · rw [registered_append_of_nil]
      · exact running.tally.others slot inside
      · rw [log, seqs_eq, List.count_eq_zero.mpr inside]
        rfl
  have told : Failed (past ++ (t.failBatch w message).port.log) := by
    have same : (t.failBatch w message).port.log.filterMap Event.fails = t.port.log.filterMap Event.fails := by
      refine (settleAll_adds message t.jobs t.port).filterMap_eq fun e routine => ?_
      cases e with
      | decode => cases routine
      | _ => rfl
    rw [failed_append, same]
    exact .inr failed
  exact ⟨fun slot => iff_of_false (unregistered slot) fun both => both.1 told, running.verdict⟩

theorem unfailed_append {log : List Event} (unfailed : ¬ Failed past)
    (well : log.filterMap Event.fails = []) : ¬ Failed (past ++ log) := by
  rw [failed_append, well]
  simpa using unfailed

/-- A running batch goes on. -/
theorem Running.goOn {log : List Event} (running : s.Running w a batch rejected past)
    (jobs : List.Forall₂ Standing s.jobs s'.jobs)
    (quiet : ∀ slot, log.filterMap (Event.registers slot) = []) (well : log.filterMap Event.fails = [])
    (once : s'.pc.waiting.Nodup)
    (attended : ∀ job ∈ s.jobs, job.state.seq ∈ s'.pc.waiting → job.state.finished = false) :
    s'.Running w a batch rejected (past ++ log) :=
  ⟨running.tally.frame jobs (fun slot => registered_append_of_nil (quiet slot)) once attended,
    unfailed_append running.unfailed well, running.verdict⟩

theorem Left.frame {log : List Event} (left : Left w a batch rejected past)
    (quiet : ∀ slot, log.filterMap (Event.registers slot) = []) (well : log.filterMap Event.fails = []) :
    Left w a batch rejected (past ++ log) := by
  refine ⟨fun slot => ?_, left.verdict⟩
  have same : Failed (past ++ log) ↔ Failed past := by
    rw [failed_append, well]
    simp
  rw [registered_append_of_nil (quiet slot), same]
  exact left.held slot

/-- The next job is built. -/
theorem Building.join {request : Request} {rejected' : List Nat} {log : List Event}
    (building : s.Building w a made rejected past) (tally : s'.Tally rejected' (past ++ log))
    (well : log.filterMap Event.fails = [])
    (size : s'.blocks.blockSize = s.blocks.blockSize)
    (budget : (rejected' = rejected ∧ ¬ request.Refused w ∧
        s'.blocks.freeBlocks + s.blocks.blocksFor (toUint32 (request.length w)) = s.blocks.freeBlocks) ∨
      (rejected' ≠ [] ∧ (request.Refused w ∨
        s.blocks.freeBlocks < s.blocks.blocksFor (toUint32 (request.length w))))) :
    s'.Building w a (made ++ [request]) rejected' (past ++ log) := by
  have same : reservation w a (made ++ [request]) =
      reservation w a made + s.blocks.blocksFor (toUint32 (request.length w)) := by
    rw [reservation_append, BlockAllocator.blocksFor, building.size]
    simp [reservation, BlockAllocator.blocksFor]
  refine ⟨tally, unfailed_append building.unfailed well, size.trans building.size, ?_⟩
  -- the first refusal decides
  rcases building.budget with ⟨none, fit, left⟩ | ⟨some, isOver⟩
  · rcases budget with ⟨still, fits, taken⟩ | ⟨now, short⟩
    · refine .inl ⟨still.trans none, ?_, by omega⟩
      intro r member
      rcases List.mem_append.mp member with old | new
      · exact fit r old
      · cases List.mem_singleton.mp new
        exact fits
    · refine .inr ⟨now, fun admits => ?_⟩
      rcases short with refused | few
      · exact admits.1 request (by simp) refused
      · have enough := admits.2
        omega
  · have already : ¬ Admits w a (made ++ [request]) := by
      intro admits
      have enough := admits.2
      exact isOver ⟨fun r member => admits.1 r (List.mem_append_left _ member), by omega⟩
    rcases budget with ⟨still, _⟩ | ⟨now, _⟩
    · exact .inr ⟨still ▸ some, already⟩
    · exact .inr ⟨now, already⟩

/-- All jobs have been built. -/
theorem Building.run (building : s.Building w a made rejected past)
    (tally : s'.Tally rejected past) : s'.Running w a made rejected past := by
  refine ⟨tally, building.unfailed, ?_⟩
  rcases building.budget with ⟨none, fit, left⟩ | ⟨some, isOver⟩
  · exact iff_of_true none ⟨fit, by omega⟩
  · exact iff_of_false some isOver

/-- All jobs have ended. -/
theorem Running.leave (running : s.Running w a batch rejected past)
    (all : ∀ job ∈ s.jobs, job.state.finished = true) : Left w a batch rejected past := by
  refine ⟨fun slot => ?_, running.verdict⟩
  rw [and_iff_right running.unfailed]
  by_cases inside : slot ∈ seqs s.jobs
  · obtain ⟨job, member, rfl⟩ := mem_seqs.mp inside
    rw [running.tally.held job member]
    simp [all job member]
  · exact iff_of_false (running.tally.others slot inside) fun refused =>
      inside (running.tally.inside refused)

/-- The log registers one slot, or releases it. -/
theorem registered_append_one {log : List Event} {seq : Nat} {opens : Bool}
    (told : ∀ slot, log.filterMap (Event.registers slot) = if seq = slot then [opens] else []) (slot : Nat) :
    Registered (past ++ log) slot ↔ (slot = seq ∧ opens = true) ∨ (slot ≠ seq ∧ Registered past slot) := by
  by_cases here : slot = seq
  · have last : (log.filterMap (Event.registers slot)).getLast? = some opens := by
      rw [told, if_pos here.symm]
      rfl
    rw [registered_append_of_last last]
    simp [here]
  · rw [registered_append_of_nil (by rw [told, if_neg (Ne.symm here)])]
    simp [here]

/-- A sampled token ends its job, and the slot is released. -/
theorem Running.finish {before after : List Job} {job : Job} {step : GenStep} {state : SequenceState}
    {port : Port σ} (running : s.Running w a batch rejected past) (layout : Layout s)
    (silent : s.port.log = []) (here : s.jobs = before ++ job :: after)
    (accepted : job.state.accept w step s.port = (false, state, port))
    (jobs : s'.jobs = before ++ { job with state := (state.finish w port).1 } :: after)
    (waiting : s.pc.waiting = job.state.seq :: s'.pc.waiting) :
    s'.Running w a batch rejected
      (past ++ ((state.finish w port).2.releaseSequence w (state.finish w port).1.seq).log) := by
  have seq : (state.finish w port).1.seq = job.state.seq :=
    (SequenceState.finish_same state port).seq.trans (SequenceState.accept_same accepted).seq
  have told : ∀ slot, ((state.finish w port).2.releaseSequence w (state.finish w port).1.seq).log.filterMap
      (Event.registers slot) = if job.state.seq = slot then [false] else [] := by
    intro slot
    rw [Port.filterMap_release, Scheduler.filterMap_finish (Event.registers_of_toSink slot),
      Scheduler.filterMap_accept (Event.registers_of_toSink slot) accepted, silent, seq, Event.registers]
    split <;> rfl
  have ended := SequenceState.finish_finished (w := w)
    (SequenceState.accept_accepts accepted).finished_of_stops port
  constructor
  · apply running.tally.finish layout here jobs seq ended waiting
    intro slot
    simpa using registered_append_one told slot
  · apply unfailed_append running.unfailed
    rw [Port.filterMap_release, Scheduler.filterMap_finish Event.fails_of_toSink,
      Scheduler.filterMap_accept Event.fails_of_toSink accepted, silent]
    rfl
  · exact running.verdict

/-- Only running jobs are submitted, each once. -/
theorem Layout.running_slots (layout : Layout s) :
    (∀ job ∈ s.jobs, job.state.seq ∈ seqs (s.jobs.filter fun job => !job.state.finished) →
      job.state.finished = false) ∧ (seqs (s.jobs.filter fun job => !job.state.finished)).Nodup := by
  refine ⟨fun job member listed => ?_, layout.nodup.sublist (List.filter_sublist.map _)⟩
  obtain ⟨job', inside, same⟩ := mem_seqs.mp listed
  obtain ⟨member', unfinished⟩ := List.mem_filter.mp inside
  cases List.inj_on_of_nodup_map layout.nodup member' member same
  simpa using unfinished

/-- The slots still waited for once the first has its token. -/
theorem Tally.waiting_tail {leave : StaticPc} {stay : List Nat → List GenStep → StaticPc} {slot : Nat}
    {slots : List Nat} {steps : List GenStep} (tally : s.Tally rejected past) (loop : AcceptLoop leave stay)
    (pc : s.pc = stay (slot :: slots) steps) :
    (∀ job ∈ s.jobs, job.state.seq ∈ slots → job.state.finished = false) ∧ slots.Nodup := by
  have waiting : s.pc.waiting = slot :: slots := by rw [pc, loop.waiting_stay]
  have once := tally.once
  have attended := tally.attended
  rw [waiting] at once attended
  exact ⟨fun job member waits => attended job member (List.mem_cons_of_mem _ waits),
    (List.nodup_cons.mp once).2⟩

theorem called_stay {leave : StaticPc} {stay : List Nat → List GenStep → StaticPc} {slots : List Nat}
    {steps : List GenStep} (loop : AcceptLoop leave stay) (pc : s.pc = stay slots steps) :
    s.Called w a batch past ↔ ∃ rejected, s.Running w a batch rejected past := by
  cases loop <;> simp only [Called, pc]

theorem called_leave {leave : StaticPc} {stay : List Nat → List GenStep → StaticPc}
    (loop : AcceptLoop leave stay) (pc : s.pc = leave) :
    s.Called w a batch past ↔ ∃ rejected, s.Running w a batch rejected past := by
  cases loop <;> simp only [Called, pc]

/-- A job is built in the next slot, whatever is counted besides. -/
theorem Called.join {request : Request} {rest : List Request} {job : Job} {log : List Event}
    (called : s.Called w a batch past) (layout : Layout s) (pc : s.pc = .make (request :: rest))
    (next : s'.pc = .make rest) (jobs : s'.jobs = s.jobs ++ [job]) (seq : job.state.seq = s.jobs.length)
    (begun : ∀ slot, log.filterMap (Event.registers slot) = if s.jobs.length = slot then [true] else [])
    (well : log.filterMap Event.fails = []) (size : s'.blocks.blockSize = s.blocks.blockSize)
    (budget : (job.state.finished = false ∧ ¬ request.Refused w ∧
        s'.blocks.freeBlocks + s.blocks.blocksFor (toUint32 (request.length w)) = s.blocks.freeBlocks) ∨
      (job.state.finished = true ∧ (request.Refused w ∨
        s.blocks.freeBlocks < s.blocks.blocksFor (toUint32 (request.length w))))) :
    s'.Called w a batch (past ++ log) := by
  simp only [Called, pc, next] at called ⊢
  obtain ⟨made, rejected, whole, building⟩ := called
  have registered : ∀ slot, Registered (past ++ log) slot ↔ slot = s.jobs.length ∨ Registered past slot := by
    intro slot
    rw [registered_append_one begun]
    by_cases here : slot = s.jobs.length <;> simp [here]
  rw [whole, List.append_cons]
  rcases budget with ⟨unfinished, fits, taken⟩ | ⟨finished, short⟩
  · refine ⟨made ++ [request], rejected, rfl, building.join (building.tally.join layout seq jobs ?_
      registered ?_) well size (.inl ⟨rfl, fits, taken⟩)⟩
    · rw [next]
      rfl
    · simp [unfinished]
  · refine ⟨made ++ [request], s.jobs.length :: rejected, rfl, building.join (building.tally.join layout seq
      jobs ?_ registered ?_) well size (.inr ⟨List.cons_ne_nil _ _, short⟩)⟩
    · rw [next]
      rfl
    · intro slot
      simp only [List.mem_cons, finished, and_true]
      exact or_comm

theorem Called.move (called : s.Called w a batch past) (layout : Layout s) (silent : s.port.log = [])
    (answered : s.Answered) (inside : s.pc.collecting = false) (move : Move w config s q s' q') :
    s'.Called w a batch (past ++ s'.port.log) := by
  have nothing : ∀ slot, s.port.log.filterMap (Event.registers slot) = [] := by simp [silent]
  have well : s.port.log.filterMap Event.fails = [] := by simp [silent]
  have same : List.Forall₂ Standing s.jobs s.jobs := List.forall₂_same.mpr fun job _ => .refl job
  have decoded : ∀ {items result port}, s.port.decode w items = (result, port) →
      ∀ slot, port.log.filterMap (Event.registers slot) = [] := by
    intro items result port returned slot
    rw [Port.filterMap_decode _ returned, nothing]
    rfl
  have begins : ∀ {seq params port}, s.port.beginSequence w seq params = (.ok (), port) →
      ∀ slot, port.log.filterMap (Event.registers slot) = if seq = slot then [true] else [] := by
    intro seq params port begun slot
    rw [Port.filterMap_begin _ begun, nothing, Event.registers]
    split <;> rfl
  have begunWell : ∀ {seq params port}, s.port.beginSequence w seq params = (.ok (), port) →
      port.log.filterMap Event.fails = [] := by
    intro seq params port begun
    rw [Port.filterMap_begin _ begun, well]
    rfl
  have attends := layout.running_slots
  cases move with
  | collect pc | finish pc | form pc => simp [pc, StaticPc.collecting] at inside
  -- the jobs are built
  | made pc =>
    simp only [Called, pc] at called ⊢
    obtain ⟨made, rejected, whole, building⟩ := called
    rw [List.append_nil] at whole
    rw [silent, List.append_nil, whole]
    exact ⟨rejected, building.run (building.tally.frame same (fun _ => .rfl) .nil (by simp [StaticPc.waiting]))⟩
  | makeCrash => trivial
  | @makeFailed request rest job port pc begun made failed =>
    subst made
    refine called.join layout pc rfl rfl (Scheduler.newJob_seq ..) ?_ ?_ rfl
      (.inr ⟨failed, .inl ((Scheduler.newJob_finished_iff ..).mp failed)⟩)
    · intro slot
      simp [begins begun, Event.registers]
    · simp [begunWell begun, Event.fails]
  | @make request rest job port table blocks pc begun made unfinished grown =>
    subst made
    have taken := BlockTable.ensureCapacity_freeBlocks grown
    rw [wholeLength_newJob] at taken
    refine called.join layout pc rfl rfl (Scheduler.newJob_seq ..) ?_ ?_
      (BlockTable.ensureCapacity_shape grown).2.2.2.2.2 (.inl ⟨unfinished, ?_, taken⟩)
    · intro slot
      simp [begins begun, Event.registers]
    · simp [begunWell begun, Event.fails]
    · rw [← Scheduler.newJob_finished_iff w request s.jobs.length]
      simp [unfinished]
  | @makeFull request rest job port pc begun made unfinished full =>
    subst made
    have short := (BlockTable.ensureCapacity_eq_none_iff.mp full).2
    rw [wholeLength_newJob] at short
    exact called.join layout pc rfl rfl (Scheduler.newJob_seq ..) (begins begun) (begunWell begun) rfl
      (.inr ⟨rfl, .inr short⟩)
  -- the batch runs; a decode that throws takes it straight to delivery
  | prefillEnd pc =>
    simp only [Called, pc] at called ⊢
    obtain ⟨rejected, running⟩ := called
    exact ⟨rejected, running.goOn same nothing well .nil (by simp [StaticPc.waiting])⟩
  | prefillSkip pc more sliced =>
    subst sliced
    simp only [Called, pc] at called ⊢
    obtain ⟨rejected, running⟩ := called
    exact ⟨rejected, running.goOn (sliced_standing _ _ _) nothing well .nil (by simp [StaticPc.waiting])⟩
  | @prefill i slice steps port pc more sliced something returned =>
    subst sliced
    simp only [Called, pc] at called ⊢
    obtain ⟨rejected, running⟩ := called
    have those := (buildSlice_attended w.caps.nBatch 0 false (s.jobs.drop i)).trans
      (((s.jobs.drop_sublist i).filter _).map _)
    refine ⟨rejected, running.goOn (sliced_standing _ _ _) (decoded returned) ?_ (attends.2.sublist those)
      fun job member waits => attends.1 job member (those.subset waits)⟩
    rw [Port.filterMap_decode _ returned, well]
    rfl
  | prefillFail pc more sliced something threw =>
    subst sliced
    simp only [Called, pc] at called ⊢
    obtain ⟨rejected, running⟩ := called
    refine ⟨rejected, running.fail ?_ ?_ ?_⟩
    · exact seqs_of_standing (sliced_standing _ _ _)
    · exact decoded threw
    · rw [Port.filterMap_decode _ threw]
      simp [Event.fails, Except.isOk, Except.toBool]
  | decodeEnd pc all =>
    simp only [Called, pc] at called ⊢
    obtain ⟨rejected, running⟩ := called
    rw [silent, List.append_nil]
    exact ⟨rejected, running.leave all⟩
  | decode pc those some returned =>
    subst those
    simp only [Called, pc] at called ⊢
    obtain ⟨rejected, running⟩ := called
    refine ⟨rejected, running.goOn same (decoded returned) ?_ attends.2 attends.1⟩
    rw [Port.filterMap_decode _ returned, well]
    rfl
  | decodeFail pc those some threw =>
    simp only [Called, pc] at called ⊢
    obtain ⟨rejected, running⟩ := called
    refine ⟨rejected, running.fail rfl (decoded threw) ?_⟩
    rw [Port.filterMap_decode _ threw]
    simp [Event.fails, Except.isOk, Except.toBool]
  | acceptEnd loop pc =>
    obtain ⟨rejected, running⟩ := (called_stay loop pc).mp called
    refine (called_leave loop rfl).mpr ⟨rejected, running.goOn same nothing well ?_ ?_⟩
    · simp [loop.waiting_leave]
    · simp [loop.waiting_leave]
  | acceptFail loop pc =>
    -- the engine returns a token for every slot that asked for one
    unfold Answered at answered
    rw [pc, loop.waiting_stay, loop.steps_stay] at answered
    exact absurd answered (by simp)
  | acceptStray loop pc =>
    obtain ⟨rejected, running⟩ := (called_stay loop pc).mp called
    have waiting := running.tally.waiting_tail loop pc
    exact (called_stay loop rfl).mpr ⟨rejected, running.goOn same nothing well
      (by simpa only [loop.waiting_stay] using waiting.2) (by simpa only [loop.waiting_stay] using waiting.1)⟩
  | acceptGoOn loop pc here accepted =>
    obtain ⟨rejected, running⟩ := (called_stay loop pc).mp called
    have waiting := running.tally.waiting_tail loop pc
    obtain ⟨unfinished, still⟩ := (SequenceState.accept_accepts accepted).unfinished_of_goesOn
    refine (called_stay loop rfl).mpr ⟨rejected, running.goOn ?_ ?_ ?_
      (by simpa only [loop.waiting_stay] using waiting.2) (by simpa only [loop.waiting_stay] using waiting.1)⟩
    · rw [here]
      exact Lists.forall₂_around Standing.refl
        ⟨(SequenceState.accept_same accepted).seq, still.trans unfinished.symm⟩
    · intro slot
      rw [Scheduler.filterMap_accept (Event.registers_of_toSink slot) accepted, nothing]
    · rw [Scheduler.filterMap_accept Event.fails_of_toSink accepted, well]
  | @acceptFinish leave stay slots step steps before job after state port finished loop pc here accepted
      notified =>
    subst notified
    obtain ⟨rejected, running⟩ := (called_stay loop pc).mp called
    refine (called_stay loop rfl).mpr ⟨rejected, running.finish layout silent here accepted rfl ?_⟩
    rw [pc, loop.waiting_stay, loop.waiting_stay]
  | deliver pc here notified =>
    subst notified
    simp only [Called, pc] at called ⊢
    obtain ⟨rejected, left⟩ := called
    refine ⟨rejected, left.frame ?_ ?_⟩
    · intro slot
      simp [Scheduler.filterMap_finish (Event.registers_of_toSink slot), nothing, Event.registers]
    · simp [Scheduler.filterMap_finish Event.fails_of_toSink, well, Event.fails]
  | deliverEnd pc =>
    simp only [Called, pc] at called ⊢
    obtain ⟨rejected, left⟩ := called
    refine ⟨rejected, left.frame ?_ ?_⟩
    · intro slot
      simp [nothing, Event.registers]
    · simp [well, Event.fails]

theorem Called.quiet (called : s.Called w a batch past) : s.quiet.Called w a batch past := by
  have clear : ∀ {rejected}, s.Tally rejected past → s.quiet.Tally rejected past := fun tally =>
    ⟨tally.attended, tally.once, tally.refused, tally.inside, tally.held, tally.others⟩
  have same : s.quiet.pc = s.pc := rfl
  cases pc : s.pc with
  | make rest =>
    simp only [Called, same, pc] at called ⊢
    obtain ⟨made, rejected, whole, building⟩ := called
    exact ⟨made, rejected, whole, clear building.tally, building.unfailed, building.size, building.budget⟩
  | prefill | acceptPrefill | decode | acceptDecode =>
    simp only [Called, same, pc] at called ⊢
    obtain ⟨rejected, running⟩ := called
    exact ⟨rejected, clear running.tally, running.unfailed, running.verdict⟩
  | deliver | collect =>
    simp only [Called, same, pc] at called ⊢
    exact called
  | done | crashed => simp only [Called, same, pc]

/-- A call begins. -/
theorem called_enter (w : World σ) (entered : s.pc = .make batch) (empty : s.jobs = []) :
    s.Called w s.blocks batch [] := by
  have idle : s.pc.waiting = [] := by
    rw [entered]
    rfl
  have tally : s.Tally [] [] := by
    refine ⟨?_, ?_, ?_, List.nil_subset _, ?_, ?_⟩
    · simp [empty]
    · rw [idle]
      exact .nil
    · simp [empty]
    · simp [empty]
    · simp [Registered]
  simp only [Called, entered]
  refine ⟨[], [], rfl, tally, ?_, rfl, .inl ⟨rfl, ?_, rfl⟩⟩
  · simp [Failed]
  · simp

end Stages

end Static

namespace Server

variable {σ : Type} {w : World σ} {config : SchedulerConfig} {capacity : Nat} {world : σ}
variable {past more : List Event} {s t : Server (Static σ)}

/-- The call of `run_batch` that is about to build its jobs in `s`, with what clients do meanwhile. -/
def call (w : World σ) (config : SchedulerConfig) (capacity : Nat) (world : σ) (s : Server (Static σ)) :
    Machine (Server (Static σ)) Event :=
  ((static w config capacity world).startingAt s).guarded fun u _ _ => u.thread.pc.collecting = false

/-- The invariant rule for a call, under a guard. -/
@[elab_as_elim]
theorem guarded_call_invariant {ok : Server (Static σ) → List Event → Server (Static σ) → Prop}
    (run : (static w config capacity world).Run past s)
    {I : List Event → Static σ → Prop} (initially : I [] s.thread)
    (moved : ∀ more (u : Server (Static σ)) thread queue,
      ((call w config capacity world s).guarded ok).Run more u →
      (static w config capacity world).Run (past ++ more) u → SettledStatic u.thread →
      u.thread.pc.collecting = false → I more u.thread →
      Static.Move w (config.construct w.caps) u.thread u.queue thread queue →
      ok u thread.port.log { u with thread := thread.quiet, queue := queue } →
      I (more ++ thread.port.log) thread.quiet)
    (call : ((call w config capacity world s).guarded ok).Run more t) : I more t.thread := by
  have reached : ∀ more u, ((Server.call w config capacity world s).guarded ok).Run more u →
      (static w config capacity world).Run (past ++ more) u := fun _ _ call =>
    run.andThen call.of_guarded.of_guarded
  refine Moves.invariant (k := staticMoves w config)
    (m := (Server.call w config capacity world s).guarded ok) (fun _ _ _ step => step.1.1)
    (fun _ _ call => settledStatic_run (reached _ _ call)) (fun more u => I more u.thread) ?_
    (fun _ _ _ _ holds => holds) (fun _ _ holds => holds) ?_ call
  · rintro _ rfl
    exact initially
  · exact fun more u thread queue call settled holds move step =>
      moved more u thread queue call (reached _ _ call) settled step.1.2 holds move step.2

@[elab_as_elim]
theorem call_invariant (run : (static w config capacity world).Run past s)
    {I : List Event → Static σ → Prop} (initially : I [] s.thread)
    (moved : ∀ more (u : Server (Static σ)) thread queue,
      (static w config capacity world).Run (past ++ more) u → SettledStatic u.thread →
      u.thread.pc.collecting = false → I more u.thread →
      Static.Move w (config.construct w.caps) u.thread u.queue thread queue →
      I (more ++ thread.port.log) thread.quiet)
    (call : (call w config capacity world s).Run more t) : I more t.thread :=
  guarded_call_invariant run initially
    (fun more u thread queue _ run settled inside holds move _ =>
      moved more u thread queue run settled inside holds move) call.guarded_true

theorem called_run (answers : w.Answers) (run : (static w config capacity world).Run past s)
    {batch : List Request} (entered : s.thread.pc = .make batch) (empty : s.thread.jobs = [])
    (call : (call w config capacity world s).Run more t) :
    t.thread.Called w s.thread.blocks batch more := by
  refine call_invariant run ?_ ?_ call
  · exact Static.called_enter w entered empty
  · intro more u thread queue run settled inside called move
    exact (called.move settled.layout settled.silent (static_answered_run answers run) inside move).quiet

/-- When `run_batch` returns, every block is back in the pool, and the slots it began have been
    released exactly if no request was refused for the context or the pool, or a decode threw. -/
theorem batch_releases (answers : w.Answers) (run : (static w config capacity world).Run past s)
    {batch : List Request} (entered : s.thread.pc = .make batch) (empty : s.thread.jobs = [])
    (call : (call w config capacity world s).Run more t) (returned : t.thread.pc = .collect []) :
    (t.thread.blocks.freeBlocks = t.thread.blocks.total ∧ ∀ b, t.thread.blocks.refcount b = 0) ∧
      ((∀ slot, ¬ Registered more slot) ↔ Static.Admits w s.thread.blocks batch ∨ Failed more) := by
  have accounts := (pooled_run (run.andThen call.of_guarded) (by simp [returned])).accounts
  have none : tables t.thread.roster = [] := by simp [Static.roster, returned]
  rw [none] at accounts
  refine ⟨⟨accounts.freeBlocks_of_nil, accounts.counts⟩, ?_⟩
  have called := called_run answers run entered empty call
  simp only [Static.Called, returned] at called
  obtain ⟨rejected, left⟩ := called
  constructor
  · intro released
    by_cases failed : Failed more
    · exact .inr failed
    · refine .inl (left.verdict.mp (List.eq_nil_iff_forall_not_mem.mpr fun slot refused => ?_))
      exact released slot ((left.held slot).mpr ⟨failed, refused⟩)
  · intro either slot registered
    obtain ⟨unfailed, refused⟩ := (left.held slot).mp registered
    rw [left.verdict.mpr (either.resolve_right unfailed)] at refused
    cases refused

/-- Two requests for a pool with room for both. -/
theorem batch_releases_letter :
    ∃ past s more t,
      (static Script.letter.world (.pair 16) 4 fun _ => none).Run past s ∧
      (call Script.letter.world (.pair 16) 4 (fun _ => none) s).Run more t ∧ t.thread.pc = .collect [] ∧
      s.thread.pc = .make [{ id := 0, spec := { prompt := [1], maxTokens := 4 } },
        { id := 1, spec := { prompt := [1], maxTokens := 4 } }] ∧
      ∀ slot, ¬ Registered more slot := by
  obtain ⟨past, s, more, t, run, call, returned, entered, empty, admits⟩ : ∃ past s more t,
      (static Script.letter.world (.pair 16) 4 fun _ => none).Run past s ∧
      (call Script.letter.world (.pair 16) 4 (fun _ => none) s).Run more t ∧
      (t.thread.pc = .collect [] ∧
        s.thread.pc = .make [{ id := 0, spec := { prompt := [1], maxTokens := 4 } },
          { id := 1, spec := { prompt := [1], maxTokens := 4 } }] ∧ s.thread.jobs = [] ∧
        Static.Admits Script.letter.world s.thread.blocks
          [{ id := 0, spec := { prompt := [1], maxTokens := 4 } },
            { id := 1, spec := { prompt := [1], maxTokens := 4 } }]) :=
    exists_then [.push { id := 0, spec := { prompt := [1], maxTokens := 4 } },
      .push { id := 1, spec := { prompt := [1], maxTokens := 4 } }, .run, .run, .run]
      (List.replicate 28 .run) rfl rfl (by decide +kernel)
  exact ⟨past, s, more, t, run, call, returned, entered,
    (batch_releases Script.letter.world_answers run entered empty call returned).2.mpr (.inl admits)⟩

/-- The second request asks for more tokens than the context has.  It is refused with its slot
    begun, and nobody releases the slot. -/
theorem batch_leaks_letter :
    Script.letter.world.Answers ∧ ∃ past s more t,
      (static Script.letter.world (.pair 16) 4 fun _ => none).Run past s ∧
      (call Script.letter.world (.pair 16) 4 (fun _ => none) s).Run more t ∧
      (t.thread.pc = .collect [] ∧
        s.thread.pc = .make [{ id := 0, spec := { prompt := [1], maxTokens := 4 } },
          { id := 1, spec := { prompt := [1], maxTokens := 100 } }] ∧ s.thread.jobs = [] ∧
        Registered more 1) :=
  ⟨Script.letter.world_answers,
    exists_then [.push { id := 0, spec := { prompt := [1], maxTokens := 4 } },
      .push { id := 1, spec := { prompt := [1], maxTokens := 100 } }, .run, .run, .run]
      (List.replicate 23 .run) rfl rfl (by decide +kernel)⟩

end Server

end MicroVllm
