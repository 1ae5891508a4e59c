import Mathlib.Data.List.Dedup
import MicroVllm.Generation
import MicroVllm.Scheduler.Seats
import MicroVllm.Scheduler.Streams

/-! # Who was admitted first

The order in which slots were admitted, read off the history, against the order of the
active jobs.  The batch is kept in order of admission, so the job that `preempt_one` picks,
the last unfinished one other than the starved job, is younger than the starved job
whenever any job it could pick is.  If the starved job is the youngest itself, an older job
loses its place.
-/

namespace MicroVllm

open Transition (Throughout)

/-! ## Admissions in a history -/

/-- The slot that was registered last, and the slots admitted so far, oldest first.  An
    admission is counted before the next slot is registered, so it is for the last one. -/
def Event.enrolls (roster : Nat × List Nat) : Event → Nat × List Nat
  | .beginSequence slot _ true => (slot, roster.2)
  | .stat .admitted _ => (roster.1, roster.2 ++ [roster.1])
  | _ => roster

def roster (past : List Event) : Nat × List Nat := past.foldl Event.enrolls (0, [])

/-- Both slots have been admitted, the second for the last time after the first.  `dedup`
    keeps the last occurrence of a slot. -/
def AdmittedBefore (past : List Event) (first second : Nat) : Prop :=
  [first, second].Sublist (roster past).2.dedup

instance (past : List Event) (first second : Nat) : Decidable (AdmittedBefore past first second) :=
  inferInstanceAs (Decidable ([first, second].Sublist (roster past).2.dedup))

namespace Event

/-- Neither an admission nor a preemption. -/
def Uncounted : Event → Prop
  | .stat .admitted _ | .preempt .. => False
  | _ => True

/-- Nor the registration of a slot. -/
def Bystander : Event → Prop
  | .stat .admitted _ | .preempt .. | .beginSequence .. => False
  | _ => True

theorem Uncounted.of_toSink {sink : SinkRef} {e : Event} (call : e.ToSink sink) : e.Uncounted := by
  cases e <;> trivial

theorem Uncounted.of_internal {e : Event} (inside : e.Internal) : e.Uncounted := by
  cases e with
  | stat stat => cases stat <;> trivial
  | _ => trivial

theorem Bystander.of_eviction {e : Event} (eviction : e.Eviction) : e.Bystander := by
  cases e with
  | stat stat => cases stat <;> trivial
  | beginSequence => cases eviction
  | _ => trivial

theorem Bystander.uncounted {e : Event} (apart : e.Bystander) : e.Uncounted := by
  cases e with
  | stat stat => cases stat <;> trivial
  | _ => trivial

theorem Uncounted.enrolls {e : Event} (uncounted : e.Uncounted) (r : Nat × List Nat) :
    (e.enrolls r).2 = r.2 := by
  cases e with
  | stat stat => cases stat <;> first | rfl | cases uncounted
  | beginSequence _ _ ok => cases ok <;> rfl
  | _ => rfl

theorem Bystander.enrolls {e : Event} (apart : e.Bystander) (r : Nat × List Nat) : e.enrolls r = r := by
  cases e with
  | stat stat => cases stat <;> first | rfl | cases apart
  | beginSequence => cases apart
  | _ => rfl

end Event

theorem roster_snoc (past : List Event) (e : Event) : roster (past ++ [e]) = e.enrolls (roster past) := by
  simp [roster]

theorem roster_uncounted {past more : List Event} (all : ∀ e ∈ more, e.Uncounted) :
    (roster (past ++ more)).2 = (roster past).2 := by
  induction more generalizing past with
  | nil => rw [List.append_nil]
  | cons e more ih =>
    have rest : (roster (past ++ [e] ++ more)).2 = (roster (past ++ [e])).2 :=
      ih fun e' member => all e' (List.mem_cons_of_mem _ member)
    rw [List.append_assoc] at rest
    exact rest.trans (by rw [roster_snoc]; exact (all e List.mem_cons_self).enrolls _)

theorem roster_bystander {past more : List Event} (all : ∀ e ∈ more, e.Bystander) :
    roster (past ++ more) = roster past := by
  induction more generalizing past with
  | nil => rw [List.append_nil]
  | cons e more ih =>
    have rest : roster (past ++ [e] ++ more) = roster (past ++ [e]) :=
      ih fun e' member => all e' (List.mem_cons_of_mem _ member)
    rw [List.append_assoc] at rest
    exact rest.trans (by rw [roster_snoc]; exact (all e List.mem_cons_self).enrolls _)

/-- A slot that is admitted again moves to the end. -/
theorem dedup_concat (slots : List Nat) (slot : Nat) :
    (slots ++ [slot]).dedup = slots.dedup.filter (· ≠ slot) ++ [slot] := by
  induction slots with
  | nil => rfl
  | cons other slots ih =>
    rw [List.cons_append]
    by_cases again : other ∈ slots
    · rw [List.dedup_cons_of_mem again, List.dedup_cons_of_mem (List.mem_append_left _ again), ih]
    · rw [List.dedup_cons_of_notMem again]
      by_cases same : other = slot
      · subst same
        rw [List.dedup_cons_of_mem (by simp), ih, List.filter_cons_of_neg (by simp)]
      · rw [List.dedup_cons_of_notMem (by simp [again, same]), ih,
          List.filter_cons_of_pos (by simpa using same), List.cons_append]

/-! ## The batch is in order of admission -/

namespace Continuous

variable {σ : Type} {w : World σ} {config : SchedulerConfig}

/-- What a move does to the batch and to the roster: nobody joins, the job in hand does and
    is counted, or a job is evicted for a starved one. -/
inductive Enrolls (s s' : Continuous σ) : Prop where
  | nobody (adds : s.port.Adds Event.Uncounted s'.port) (fewer : (seqs s'.active).Sublist (seqs s.active))
  | admitted {job : Job} {port : Port σ} (pc : s.pc = .reserve job)
      (joins : seqs s'.active = seqs s.active ++ [job.state.seq])
      (adds : s.port.Adds Event.Bystander port) (log : s'.port.log = port.log ++ [.stat .admitted 1])
  | evicted {slot starved job before victim after} {port : Port σ} (pc : s.pc = .preempt slot starved)
      (starving : job ∈ s.active) (named : job.state.seq = slot)
      (full : job.blocks.ensureCapacity job.needed s.blocks = none)
      (here : s.active = before ++ victim :: after) (unfinished : victim.state.finished = false)
      (other : victim.state.seq ≠ slot)
      (last : ∀ j ∈ after, j.state.finished = true ∨ j.state.seq = slot)
      (fewer : (seqs s'.active).Sublist (seqs s.active))
      (adds : s.port.Adds Event.Bystander port)
      (log : s'.port.log =
        port.log ++ [.preempt victim.request.id victim.state.seq slot victim.state.emitted])

theorem sublist_of_same {jobs jobs' : List Job} (same : List.Forall₂ Job.Same jobs jobs') :
    (seqs jobs').Sublist (seqs jobs) := by
  rw [seqs_of_same same]

theorem sublist_around {before after jobs : List Job} {job job' : Job}
    (here : jobs = before ++ job :: after) (same : job.Same job') :
    (seqs (before ++ job' :: after)).Sublist (seqs jobs) := by
  rw [here]
  exact sublist_of_same (Lists.forall₂_around Job.Same.refl same)

theorem sublist_left {before after jobs : List Job} {job : Job} (here : jobs = before ++ job :: after) :
    (seqs (before ++ after)).Sublist (seqs jobs) := by
  rw [here, seqs_append, seqs_append, seqs_cons]
  exact List.Sublist.append_left (List.sublist_cons_self _ _) _

theorem Move.enrolls {s s' : Continuous σ} {q q' : RequestQueue} (move : Move w config s q s' q') :
    Enrolls s s' := by
  have finishes : ∀ (state : SequenceState) (port : Port σ),
      port.Adds Event.Uncounted (state.finish w port).2 :=
    fun state port => (state.finish_adds port).mono fun _ => Event.Uncounted.of_toSink
  have accepts : ∀ {state state' : SequenceState} {step port port' goesOn},
      state.accept w step port = (goesOn, state', port') → port.Adds Event.Uncounted port' := by
    intro state state' step port port' goesOn accepted
    have adds := state.accept_adds (w := w) step port
    rw [accepted] at adds
    exact adds.mono fun _ => Event.Uncounted.of_toSink
  have reclaims : ∀ {members}, s.reclaimDonorBlocks w = some members →
      s.port.Adds Event.Uncounted members.port :=
    fun evicted => (Scheduler.reclaimDonorBlocks_adds evicted).mono fun _ eviction =>
      (Event.Bystander.of_eviction eviction).uncounted
  cases move with
  -- whoever is placed goes behind the others
  | placeFailed pc | place pc => exact .admitted pc (seqs_append _ _) (.refl _) rfl
  | adopt pc fits same caching found positive within copied =>
    apply Enrolls.admitted pc (seqs_append _ _) _ rfl
    exact (((Port.Adds.copy copied trivial).trans (.note _ trivial)).trans (.note _ trivial)).trans
      (.note _ trivial)
  -- nobody joins, and those that stay keep their order
  | make pc next free begun | makeCrash pc next free begun => exact .nobody (.begin begun trivial) (.refl _)
  | giveUp pc short evicted | reclaimDonor pc here full evicted =>
    exact .nobody (reclaims evicted) (.refl _)
  | reject =>
    have released : ∀ (port : Port σ) seq, port.Adds Event.Uncounted (port.releaseSequence w seq) :=
      fun port seq => .release _ _ trivial
    have counts : ∀ stat n, stat ≠ Stat.admitted → (Event.stat stat n).Uncounted := by
      intro stat n other
      cases stat <;> trivial
    exact .nobody (((finishes _ _).trans (released _ _)).trans
      (Scheduler.deliver_adds counts (fun _ _ => trivial) _ _)) (.refl _)
  | defer => exact .nobody ((Port.Adds.release _ _ trivial).trans (.note _ trivial)) (.refl _)
  | adoptCrash pc fits same copied => exact .nobody (.copy copied trivial) (.refl _)
  | buildNothing => exact .nobody (.refl _) (sublist_of_same (same_of_sameTable (same_build _ _ _)))
  | decode pc something returned =>
    exact .nobody (.one (Port.log_decode returned) trivial)
      (sublist_of_same (same_of_sameTable (same_build _ _ _)))
  | decodeFail pc something threw =>
    exact .nobody (.one (Port.log_decode threw) trivial)
      (sublist_of_same (same_of_sameTable (same_decodeFail _ _ _ s)))
  | acceptFail => exact .nobody (.refl _) (sublist_of_same (same_of_sameTable (same_failAll _ _)))
  | acceptFinish pc here accepted =>
    exact .nobody ((accepts accepted).trans (finishes _ _))
      (sublist_around here (same_finish (same_accept accepted) _))
  | acceptStarve pc here accepted | acceptGrow pc here accepted =>
    exact .nobody (accepts accepted) (sublist_around here (same_accept accepted))
  | acceptPublish pc here accepted grown published =>
    subst published
    exact .nobody ((accepts accepted).trans (.note _ trivial)) (sublist_around here (same_accept accepted))
  | sweepRetire pc here =>
    exact .nobody (Scheduler.retire_adds (fun _ _ => Event.Uncounted.of_toSink)
      (fun _ => Event.Uncounted.of_internal) (fun _ _ => trivial) _ _) (sublist_left here)
  | sweepLoop => exact .nobody (.note _ trivial) (.refl _)
  | resolveFail pc here large failed =>
    subst failed
    exact .nobody (finishes _ _) (sublist_around here ⟨rfl,
      ((SequenceState.fail_same _ _ _).trans (SequenceState.finish_same _ _)).toSameOrigin⟩)
  | reclaimGrow pc here | preemptGrow pc here =>
    exact .nobody (.refl _) (sublist_around here (.withBlocks _ _))
  | @preemptEvict slot starved job before victim after pc starving named full here unfinished other last =>
    have released : s.port.Adds Event.Bystander
        ((s.port.releaseSequence w victim.state.seq).note (.stat .preemptions 1)) :=
      (Port.Adds.release _ _ trivial).trans (.note _ trivial)
    exact .evicted pc starving named full here unfinished other last (sublist_left here) released rfl
  | _ => exact .nobody (.refl _) (.refl _)

/-- The active jobs stand in the order of their admission, and the job in hand sits in the
    slot that was registered last. -/
structure Ranked (past : List Event) (s : Continuous σ) : Prop where
  hand : ∀ job, s.pc = .reserve job → (roster past).1 = job.state.seq
  order : (seqs s.active).Sublist (roster past).2.dedup

variable {s s' : Continuous σ} {q q' : RequestQueue} {past : List Event}

theorem Ranked.hand_move (ranked : s.Ranked past) (silent : s.port.log = [])
    (move : Move w config s q s' q') :
    ∀ job, s'.pc = .reserve job → (roster (past ++ s'.port.log)).1 = job.state.seq := by
  intro job inHand
  rcases move.reserves inHand with ⟨request, slot, slots, rfl, _, begun⟩ | ⟨held, _, evicted⟩
  · have log := (Port.log_begin begun).trans (by rw [silent, List.nil_append])
    rw [log, roster_snoc, Scheduler.newJob_seq]
    rfl
  · obtain ⟨more, log, all⟩ := Scheduler.reclaimDonorBlocks_adds evicted
    rw [silent, List.nil_append] at log
    rw [log, roster_bystander fun e member => Event.Bystander.of_eviction (all e member)]
    exact ranked.hand job held

theorem Ranked.move (ranked : s.Ranked past) (layout : Layout w config s) (silent : s.port.log = [])
    (move : Move w config s q s' q') : s'.Ranked (past ++ s'.port.log) := by
  refine ⟨ranked.hand_move silent move, ?_⟩
  cases move.enrolls with
  | nobody adds fewer =>
    obtain ⟨more, log, all⟩ := adds
    rw [silent, List.nil_append] at log
    rw [log, roster_uncounted all]
    exact fewer.trans ranked.order
  | @admitted job port pc joins adds log =>
    obtain ⟨more, log', all⟩ := adds
    rw [silent, List.nil_append] at log'
    -- the slot that was registered last is free, so no active job sits in it
    have free := layout.not_active_of_free (layout.hand_free pc)
    have others : ∀ slot ∈ seqs s.active, slot ≠ job.state.seq := by
      rintro slot active rfl
      exact free active
    rw [log, log', ← List.append_assoc, roster_snoc, roster_bystander all, joins]
    show List.Sublist _ ((roster past).2 ++ [(roster past).1]).dedup
    rw [ranked.hand job pc, dedup_concat]
    apply List.Sublist.append_right
    have kept := ranked.order.filter (fun slot => Decidable.decide (slot ≠ job.state.seq))
    rwa [List.filter_eq_self.mpr (by simpa using others)] at kept
  | evicted pc starving named full here unfinished other last fewer adds log =>
    obtain ⟨more, log', all⟩ := adds
    rw [silent, List.nil_append] at log'
    rw [log, log', ← List.append_assoc, roster_snoc, roster_bystander all]
    exact fewer.trans ranked.order

end Continuous

namespace Server

variable {σ : Type} {w : World σ} {config : SchedulerConfig} {capacity : Nat} {world : σ}
variable {past : List Event} {s : Server (Continuous σ)}

theorem ranked_run (run : (continuous w config capacity world).Run past s) : s.thread.Ranked past := by
  refine continuous_thread_invariant ?_ ?_ run.guarded_true
  · exact ⟨by simp [Continuous.start], List.Sublist.refl _⟩
  · intro past s thread queue _ settled ranked move _
    have after := ranked.move settled.layout settled.silent move
    exact ⟨after.hand, after.order⟩

end Server

/-! ## Progress -/

/-- A later stage of one generation: nothing submitted, produced or sent has been lost. -/
structure SequenceState.Advances (s s' : SequenceState) : Prop where
  prefilled : s.prefilled ≤ s'.prefilled
  text : s.text <+: s'.text
  completion : s.usage.completionTokens ≤ s'.usage.completionTokens
  emitted : s.emitted ≤ s'.emitted

namespace SequenceState.Advances

variable {σ : Type} {w : World σ} {s t u : SequenceState}

theorem refl (s : SequenceState) : s.Advances s :=
  ⟨Nat.le_refl _, List.prefix_refl _, Nat.le_refl _, Nat.le_refl _⟩

theorem trans (first : s.Advances t) (second : t.Advances u) : s.Advances u :=
  ⟨Nat.le_trans first.prefilled second.prefilled, first.text.trans second.text,
    Nat.le_trans first.completion second.completion, Nat.le_trans first.emitted second.emitted⟩

theorem chunk (s : SequenceState) (take : Nat) : s.Advances (s.takePrefillChunk take).2 :=
  ⟨Nat.le_add_right _ _, List.prefix_refl _, Nat.le_refl _, Nat.le_refl _⟩

theorem fail (s : SequenceState) (message : String) (reason : FinishReason) :
    s.Advances (s.fail message reason) := ⟨Nat.le_refl _, List.prefix_refl _, Nat.le_refl _, Nat.le_refl _⟩

theorem accepts {step : GenStep} {goesOn : Bool} (accepts : s.Accepts w step goesOn t) : s.Advances t := by
  -- at most one piece is appended, and sending only raises `emitted`
  cases accepts with
  | done | eos | budget => exact ⟨Nat.le_refl _, List.prefix_refl _, Nat.le_refl _, Nat.le_refl _⟩
  | stop | goesOn =>
    exact ⟨Nat.le_refl _, List.prefix_append _ _, Nat.le_succ _, Nat.le_max_left _ _⟩
  | cancelled =>
    exact ⟨Nat.le_refl _, List.prefix_append _ _, Nat.le_succ _,
      Nat.le_trans (Nat.le_max_left _ _) (Nat.le_max_left _ _)⟩

theorem finish (s : SequenceState) (port : Port σ) : s.Advances (s.finish w port).1 := by
  rw [finish_state, closed]
  split
  · exact refl s
  · split
    · exact ⟨Nat.le_refl _, List.prefix_refl _, Nat.le_refl _, Nat.le_max_left _ _⟩
    · exact ⟨Nat.le_refl _, List.prefix_refl _, Nat.le_refl _, Nat.le_refl _⟩

end SequenceState.Advances

/-- A later stage of a job that has kept its slot. -/
structure Job.Advances (job job' : Job) : Prop extends Job.Same job job' where
  advances : job.state.Advances job'.state

theorem Job.Advances.refl (job : Job) : job.Advances job := ⟨.refl job, .refl _⟩

theorem Job.Advances.trans {job job' job'' : Job} (first : job.Advances job')
    (second : job'.Advances job'') : job.Advances job'' :=
  ⟨first.toSame.trans second.toSame, first.advances.trans second.advances⟩

namespace Continuous

variable {σ : Type} {w : World σ} {config : SchedulerConfig}
variable {s s' : Continuous σ} {q q' : RequestQueue}

/-- The only way out of the batch for an unfinished job is to be preempted. -/
theorem Move.advances (move : Move w config s q s' q') (layout : Layout w config s) {job : Job}
    (member : job ∈ s.active) (unfinished : job.state.finished = false) :
    s.evictee? = some job ∨ ∃ job' ∈ s'.active, job.Advances job' := by
  have kept : List.Forall₂ Job.Advances s.active s'.active →
      s.evictee? = some job ∨ ∃ job' ∈ s'.active, job.Advances job' :=
    fun all => .inr (Lists.exists_of_forall₂_left all member)
  have same : s'.active = s.active → s.evictee? = some job ∨ ∃ job' ∈ s'.active, job.Advances job' :=
    fun active => .inr ⟨job, active ▸ member, .refl job⟩
  have around : ∀ {before after : List Job} {j j' : Job}, s.active = before ++ j :: after →
      s'.active = before ++ j' :: after → j.Advances j' →
      s.evictee? = some job ∨ ∃ job' ∈ s'.active, job.Advances job' := by
    intro before after j j' here active on
    apply kept
    rw [here, active]
    exact Lists.forall₂_around .refl on
  have built : List.Forall₂ Job.Advances s.active (buildBatch w.caps.nBatch config s.active).active :=
    forall₂_build .refl
      (fun _ _ => ⟨⟨rfl, SequenceState.takePrefillChunk_same _ _⟩, .chunk _ _⟩) _ _ _
  have fails : ∀ message (t : Continuous σ),
      List.Forall₂ Job.Advances t.active (t.failAll message).active := fun message t =>
    forall₂_failAll .refl
      (fun _ _ => ⟨⟨rfl, (SequenceState.fail_same _ _ _).toSameOrigin⟩, .fail _ _ _⟩) message t
  cases move with
  | placeFailed | place | adopt => exact .inr ⟨job, List.mem_append_left _ member, .refl job⟩
  | buildNothing | decode => exact kept built
  | decodeFail =>
    exact kept (Lists.forall₂_trans (R := Job.Advances) .trans built
      (fails _ { s with active := (buildBatch w.caps.nBatch config s.active).active }))
  | acceptFail => exact kept (fails _ _)
  | acceptFinish pc here accepted =>
    exact around here rfl ⟨same_finish (same_accept accepted) _,
      (SequenceState.Advances.accepts (SequenceState.accept_accepts accepted)).trans (.finish _ _)⟩
  | acceptStarve pc here accepted | acceptGrow pc here accepted =>
    exact around here rfl ⟨same_accept accepted, .accepts (SequenceState.accept_accepts accepted)⟩
  | acceptPublish pc here accepted grown published =>
    subst published
    exact around here rfl ⟨same_accept accepted, .accepts (SequenceState.accept_accepts accepted)⟩
  | resolveFail pc here large failed =>
    subst failed
    exact around here rfl ⟨⟨rfl, ((SequenceState.fail_same _ _ _).trans
      (SequenceState.finish_same _ _)).toSameOrigin⟩, (SequenceState.Advances.fail _ _ _).trans (.finish _ _)⟩
  | reclaimGrow pc here | preemptGrow pc here => exact around here rfl ⟨.withBlocks _ _, .refl _⟩
  | @sweepRetire starved before retired after pc here finished =>
    -- the retired job is finished, so it is another one
    rw [here, List.mem_append, List.mem_cons] at member
    apply Or.inr
    rcases member with earlier | rfl | later
    · exact ⟨job, List.mem_append_left _ earlier, .refl job⟩
    · simp [finished] at unfinished
    · exact ⟨job, List.mem_append_right _ later, .refl job⟩
  | @preemptEvict slot starved job' before victim after pc starving named full here running other last =>
    have evicted := evictee?_of_full layout pc starving named full here running other last
    rw [here, List.mem_append, List.mem_cons] at member
    rcases member with earlier | rfl | later
    · exact .inr ⟨job, List.mem_append_left _ earlier, .refl job⟩
    · exact .inl evicted
    · exact .inr ⟨job, List.mem_append_right _ later, .refl job⟩
  | _ => exact same rfl

/-! ## Preemption -/

/-- The jobs admitted after the one in `slot`. -/
def behind (slot : Nat) (jobs : List Job) : List Job :=
  (jobs.dropWhile fun job => job.state.seq ≠ slot).tail

theorem behind_around {before after : List Job} {job : Job}
    (nodup : (seqs (before ++ job :: after)).Nodup) :
    behind job.state.seq (before ++ job :: after) = after := by
  obtain ⟨notBefore, _⟩ := seqs_around nodup
  rw [behind, List.dropWhile_append_of_pos (by simpa using notBefore),
    List.dropWhile_cons_of_neg (by simp), List.tail_cons]

/-- A job stands in one place of the batch. -/
theorem around_unique {jobs before after before' after' : List Job} {job : Job} (nodup : (seqs jobs).Nodup)
    (here : jobs = before ++ job :: after) (there : jobs = before' ++ job :: after') :
    before = before' ∧ after = after' := by
  have tail : after = after' := by
    have one := behind_around (here ▸ nodup)
    have two := behind_around (there ▸ nodup)
    rw [← here] at one
    rw [← there] at two
    exact one.symm.trans two
  subst tail
  exact ⟨List.append_cancel_right (here.symm.trans there), rfl⟩

/-- If the next turn preempts, a job admitted after the starved one is still running. -/
def JuniorRuns (s : Continuous σ) : Prop :=
  match s.pc with
  | .preempt slot _ => s.evictee? ≠ none → ∃ job ∈ behind slot s.active, job.state.finished = false
  | _ => True

instance (s : Continuous σ) : Decidable s.JuniorRuns := by
  unfold JuniorRuns
  split <;> infer_instance

/-- Of two active jobs the one that stands first was admitted first. -/
theorem Ranked.before {past : List Event} (ranked : s.Ranked past) {front middle back : List Job}
    {elder junior : Job} (here : s.active = front ++ elder :: (middle ++ junior :: back)) :
    AdmittedBefore past elder.state.seq junior.state.seq := by
  apply List.Sublist.trans _ ranked.order
  have pair : [elder, junior].Sublist s.active := by
    rw [here]
    exact ((List.singleton_sublist.mpr (by simp)).cons_cons elder).trans (List.sublist_append_right _ _)
  exact pair.map fun job => job.state.seq

/-- The job picked stands behind the starved one if any running job does. -/
theorem JuniorRuns.behind (junior : s.JuniorRuns) (layout : Layout w config s)
    {slot : Nat} {starved : List Nat} {job victim : Job} {before after : List Job}
    (pc : s.pc = .preempt slot starved) (starving : job ∈ s.active) (named : job.state.seq = slot)
    (full : job.blocks.ensureCapacity job.needed s.blocks = none)
    (here : s.active = before ++ victim :: after) (unfinished : victim.state.finished = false)
    (other : victim.state.seq ≠ slot)
    (last : ∀ j ∈ after, j.state.finished = true ∨ j.state.seq = slot) :
    ∃ front middle back, s.active = front ++ job :: (middle ++ victim :: back) := by
  have evicted := evictee?_of_full layout pc starving named full here unfinished other last
  simp only [JuniorRuns, pc, evicted, ne_eq, reduceCtorEq, not_false_eq_true, forall_const] at junior
  obtain ⟨young, inside, running⟩ := junior
  obtain ⟨front, back, split⟩ := List.append_of_mem starving
  rw [split, ← named, behind_around (split ▸ layout.nodup)] at inside
  have placed : victim ∈ front ++ job :: back := by
    rw [← split, here]
    simp
  rw [List.mem_append, List.mem_cons] at placed
  rcases placed with ahead | rfl | later
  · -- a victim ahead of the starved job would have the running one behind it
    obtain ⟨first, rest, rfl⟩ := List.append_of_mem ahead
    have whole : s.active = first ++ victim :: (rest ++ job :: back) := by
      rw [split]
      simp
    have tail : after = rest ++ job :: back := (around_unique layout.nodup here whole).2
    rcases last young (by rw [tail]; simp [inside]) with done | same
    · simp [running] at done
    · -- no two jobs share a slot
      have apart := (seqs_around (split ▸ layout.nodup)).2 young inside
      exact absurd (same.trans named.symm) apart
  · exact absurd named other
  · obtain ⟨middle, rest, rfl⟩ := List.append_of_mem later
    exact ⟨front, middle, rest, split⟩

end Continuous

/-- The event that evicts a slot evicts one that was admitted after the starved one. -/
def SparesElders (before : List Event) : Event → Prop
  | .preempt _ victim starved _ => AdmittedBefore before starved victim
  | _ => True

theorem SparesElders.of_uncounted {before : List Event} {e : Event} (uncounted : e.Uncounted) :
    SparesElders before e := by
  cases e <;> trivial

namespace Server

variable {σ : Type} {w : World σ} {config : SchedulerConfig} {capacity : Nat} {world : σ}
variable {past : List Event} {s : Server (Continuous σ)}

theorem sparesElders_run (run : ((continuous w config capacity world).guarded fun s _ _ =>
    s.thread.JuniorRuns).Run past s) : Throughout SparesElders past := by
  refine continuous_thread_invariant ?_ ?_ run
  · exact .nil
  · intro past s thread queue earlier settled all move junior
    have ranked := ranked_run earlier.of_guarded
    cases move.enrolls with
    | nobody adds =>
      obtain ⟨more, log, quiet⟩ := adds
      rw [settled.silent, List.nil_append] at log
      rw [log]
      exact all.append fun before e member => .of_uncounted (quiet e member)
    | admitted pc joins adds log =>
      obtain ⟨more, log', quiet⟩ := adds
      rw [settled.silent, List.nil_append] at log'
      rw [log, log']
      apply all.append
      intro before e member
      rcases List.mem_append.mp member with other | last
      · exact .of_uncounted (quiet e other).uncounted
      · rw [List.mem_singleton.mp last]
        trivial
    | evicted pc starving named full here unfinished other last fewer adds log =>
      obtain ⟨more, log', quiet⟩ := adds
      rw [settled.silent, List.nil_append] at log'
      rw [log, log', ← List.append_assoc]
      have before : Throughout SparesElders (past ++ more) :=
        all.append fun before e member => .of_uncounted (quiet e member).uncounted
      apply before.snoc
      obtain ⟨front, middle, back, split⟩ :=
        junior.behind settled.layout pc starving named full here unfinished other last
      show AdmittedBefore (past ++ more) _ _
      rw [AdmittedBefore, roster_bystander quiet, ← named]
      exact ranked.before split

end Server

namespace Continuous

variable {σ : Type} {w : World σ} {config : SchedulerConfig}
variable {s s' : Continuous σ} {q q' : RequestQueue}

/-- The unfinished job that was admitted longest ago. -/
structure Eldest (s : Continuous σ) (job : Job) : Prop where
  place : ∃ before after, s.active = before ++ job :: after ∧ ∀ j ∈ before, j.state.finished = true
  unfinished : job.state.finished = false

/-- It is not the one that makes room. -/
theorem Eldest.advances {job : Job} (eldest : s.Eldest job) (layout : Layout w config s)
    (orderly : s.Orderly) (junior : s.JuniorRuns) (move : Move w config s q s' q') :
    ∃ job' ∈ s'.active, job.Advances job' := by
  obtain ⟨before, after, here, ahead⟩ := eldest.place
  have member : job ∈ s.active := by rw [here]; simp
  rcases move.advances layout member eldest.unfinished with evicted | kept
  · -- the starved job would stand ahead of it, unfinished
    obtain ⟨slot, starved, starving, front, back, pc, active, named, full, split, running, other, last⟩ :=
      evictee?_eq_some evicted
    obtain ⟨first, middle, rest, whole⟩ :=
      junior.behind layout pc active named full split running other last
    have runs := orderly.running starving active (by simp [pc, Pc.running, Pc.sampled, named])
    have tail : after = rest := by
      have longer : s.active = (first ++ starving :: middle) ++ job :: rest := by
        rw [whole]
        simp
      exact (around_unique layout.nodup here longer).2
    rw [here, List.mem_append, List.mem_cons] at active
    rcases active with early | rfl | late
    · simp [ahead starving early] at runs
    · exact absurd named other
    · have apart := (seqs_around (whole ▸ layout.nodup)).2 starving (by simp [← tail, late])
      exact absurd rfl apart
  · exact kept

end Continuous

/-- In every run in which each preemption finds a running job admitted after the starved one,
    every job ever preempted was admitted after the job it was preempted for, and the unfinished
    job that was admitted longest ago is still there after the next step, with its progress. -/
theorem preempts_juniors {σ : Type} (w : World σ) (config : SchedulerConfig) (capacity : Nat)
    (world : σ) (past : List Event) (s : Server (Continuous σ))
    (run : ((Server.continuous w config capacity world).guarded fun s _ _ =>
      s.thread.JuniorRuns).Run past s) :
    (∀ before id victim starved emitted after,
      past = before ++ .preempt id victim starved emitted :: after →
      AdmittedBefore before starved victim) ∧
    ∀ events t, ((Server.continuous w config capacity world).guarded fun s _ _ =>
        s.thread.JuniorRuns).step s events t →
      ∀ job, s.thread.Eldest job → ∃ job' ∈ t.thread.active, job.Advances job' := by
  refine ⟨fun before id victim starved emitted after split =>
    Server.sparesElders_run run before _ after split, ?_⟩
  intro events t step job eldest
  have settled := Server.settled_run run.of_guarded
  have stays : ∃ job' ∈ s.thread.active, job.Advances job' := by
    obtain ⟨before, after, here, _⟩ := eldest.place
    exact ⟨job, by rw [here]; simp, .refl job⟩
  obtain ⟨step, junior⟩ := step
  cases step with
  | push request => exact stays
  | close => exact stays
  | run stepped =>
    obtain ⟨s', move, rfl, rfl⟩ := Continuous.step_move
      (config.construct_maxBatchSize_pos w.caps) settled.layout stepped
    obtain ⟨job', member, on⟩ :=
      eldest.advances settled.layout (Server.orderly_run run.of_guarded) junior move
    exact ⟨job', member, on⟩

/-- Two requests in a pool of six blocks: the older one starves and evicts the younger. -/
theorem preempts_juniors_letter :
    ∃ past s, ((Server.continuous Script.letter.world (.pair 6) 4 fun _ => none).guarded fun s _ _ =>
        s.thread.JuniorRuns).Run (past ++ [.preempt 1 1 0 3]) s ∧ AdmittedBefore past 0 1 := by
  obtain ⟨past, s, run, last⟩ : ∃ past s,
      ((Server.continuous Script.letter.world (.pair 6) 4 fun _ => none).guarded fun s _ _ =>
        s.thread.JuniorRuns).Run past s ∧ past.getLast? = some (.preempt 1 1 0 3) :=
    Server.exists_guarded ([.push { id := 0, spec := { prompt := [1], maxTokens := 4 } },
      .push { id := 1, spec := { prompt := [1], maxTokens := 4 } }] ++
      List.replicate 44 .run) rfl rfl (by decide +kernel)
  obtain ⟨before, rfl⟩ := List.getLast?_eq_some_iff.mp last
  exact ⟨before, s, run, (preempts_juniors _ _ _ _ _ s run).1 before 1 1 0 3 [] rfl⟩

/-- The same two requests with one block less.  The younger one starves first, and the older
    one, admitted before it, loses its place and the two bytes it has sent. -/
theorem preempts_elder_letter :
    ∃ past s, (Server.continuous Script.letter.world (.pair 5) 4 fun _ => none).Run
        (past ++ [.preempt 0 0 1 2]) s ∧ AdmittedBefore past 0 1 ∧ ¬ AdmittedBefore past 1 0 := by
  obtain ⟨past, s, run, last, before, notAfter⟩ : ∃ past s,
      (Server.continuous Script.letter.world (.pair 5) 4 fun _ => none).Run past s ∧
      (past.getLast? = some (.preempt 0 0 1 2) ∧ AdmittedBefore past.dropLast 0 1 ∧
        ¬ AdmittedBefore past.dropLast 1 0) :=
    Server.exists_run ([.push { id := 0, spec := { prompt := [1], maxTokens := 4 } },
      .push { id := 1, spec := { prompt := [1], maxTokens := 4 } }] ++
      List.replicate 31 .run) rfl rfl (by decide +kernel)
  obtain ⟨before', rfl⟩ := List.getLast?_eq_some_iff.mp last
  rw [List.dropLast_concat] at before notAfter
  exact ⟨before', s, run, before, notAfter⟩

end MicroVllm
