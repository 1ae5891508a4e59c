import MicroVllm.Scheduler.Batches
import MicroVllm.Scheduler.Runs

/-! # The order of a turn

Where the loop is says something about the active jobs: those it has sampled for are
through with their prompts and have not finished, a sweep leaves no finished job behind
it, and at the top of the loop the only finished jobs are those that failed at admission.
-/

namespace MicroVllm

/-- The slots the loop has sampled for in this turn and not yet dealt with. -/
def Pc.sampled : Pc → List Nat
  | .accept sampling _ grewShort => sampling ++ grewShort
  | .sweep _ starved => starved.getD []
  | .resolve starved => starved
  | .reclaim slot starved => slot :: starved
  | .preempt slot starved => slot :: starved
  | _ => []

/-- The ones among them that are still running: all, once the first sweep is over. -/
def Pc.running : Pc → List Nat
  | .sweep _ _ => []
  | pc => pc.sampled

/-- Between the last sweep of a turn and the next batch. -/
def Pc.admitting : Pc → Bool
  | .takeWork | .admitNext | .reserve _ | .build => true
  | _ => false

namespace Continuous

variable {σ : Type} {w : World σ} {config : SchedulerConfig}

structure Orderly (s : Continuous σ) : Prop where
  once : s.pc.sampled.Nodup
  through : ∀ job ∈ s.active, job.state.seq ∈ s.pc.sampled → job.state.prefilling = false
  running : ∀ job ∈ s.active, job.state.seq ∈ s.pc.running → job.state.finished = false
  swept : ∀ i starved, s.pc = .sweep i starved → ∀ job ∈ s.active.take i, job.state.finished = false
  failed : s.pc.admitting = true → ∀ job ∈ s.active, job.state.finished = true → job.blocks.blocks = []

/-- Where a move leaves everything but the place in the loop. -/
theorem admitting_admitted (active : List Job) :
    (if active = [] then Pc.takeWork else Pc.build).sampled = [] ∧
      (if active = [] then Pc.takeWork else Pc.build).admitting = true := by
  split <;> exact ⟨rfl, rfl⟩

/-! ## Sampled once, and through -/

theorem Move.once {s s' : Continuous σ} {q q' : RequestQueue} (move : Move w config s q s' q')
    (layout : Layout w config s) (once : s.pc.sampled.Nodup) : s'.pc.sampled.Nodup := by
  cases move with
  | decode pc something returned =>
    simpa [Pc.sampled] using buildBatch_sampling_nodup w.caps.nBatch config layout.nodup
  | acceptStarve pc =>
    rw [pc] at once
    -- the slot goes from the head of one list to the end of the other
    refine (List.Perm.nodup_iff ?_).mp once
    simp only [Pc.sampled, List.cons_append, ← List.append_assoc]
    exact (List.perm_append_singleton _ _).symm
  | acceptStray pc | acceptFinish pc | acceptGrow pc | acceptPublish pc =>
    rw [pc] at once
    exact (List.nodup_cons.mp once).2
  | resolveGone pc | resolveFail pc | reclaimGone pc | preemptGone pc | preemptGrow pc
  | preemptEnd pc =>
    rw [pc] at once
    exact (List.nodup_cons.mp once).2
  | acceptEnd pc | acceptFail pc =>
    rw [pc] at once
    exact (List.nodup_append.mp once).2.1
  | sweepKeep pc | sweepResolve pc | resolveRoom pc | reclaimGrow pc | reclaimEnd pc =>
    rw [pc] at once
    exact once
  | take | giveUp | sweepRetire | reclaimDonor | preemptEvict => exact once
  | admitted =>
    rw [(admitting_admitted s.active).1]
    exact .nil
  | defer =>
    simp only [Continuous.defer]
    rw [(admitting_admitted s.active).1]
    exact .nil
  | _ => exact .nil

/-- The jobs afterwards are the same requests at the same point of their prompts. -/
theorem through_frame {s s' : Continuous σ}
    (through : ∀ job ∈ s.active, job.state.seq ∈ s.pc.sampled → job.state.prefilling = false)
    (fewer : s'.pc.sampled ⊆ s.pc.sampled)
    (jobs : ∀ job' ∈ s'.active, ∃ job ∈ s.active, job.state.SameRequest job'.state) :
    ∀ job ∈ s'.active, job.state.seq ∈ s'.pc.sampled → job.state.prefilling = false := by
  intro job' member sampled
  obtain ⟨job, old, same⟩ := jobs job' member
  rw [same.prefilling_eq]
  exact through job old (by rw [← same.seq]; exact fewer sampled)

theorem through_of_none {s : Continuous σ} (none : s.pc.sampled = []) :
    ∀ job ∈ s.active, job.state.seq ∈ s.pc.sampled → job.state.prefilling = false := by
  intro job _ sampled
  rw [none] at sampled
  cases sampled

theorem around_same {before after active : List Job} {job job' : Job}
    (here : active = before ++ job :: after) (same : job.state.SameRequest job'.state) :
    ∀ j' ∈ before ++ job' :: after, ∃ j ∈ active, j.state.SameRequest j'.state := by
  intro j member
  rw [here]
  rw [List.mem_append, List.mem_cons] at member
  rcases member with earlier | rfl | later
  · exact ⟨j, List.mem_append_left _ earlier, .refl _⟩
  · exact ⟨job, by simp, same⟩
  · exact ⟨j, List.mem_append_right _ (List.mem_cons_of_mem _ later), .refl _⟩

theorem subset_same {active active' : List Job} (sub : active' ⊆ active) :
    ∀ j' ∈ active', ∃ j ∈ active, j.state.SameRequest j'.state :=
  fun j member => ⟨j, sub member, .refl _⟩

theorem Move.through {s s' : Continuous σ} {q q' : RequestQueue} (move : Move w config s q s' q')
    (layout : Layout w config s)
    (through : ∀ job ∈ s.active, job.state.seq ∈ s.pc.sampled → job.state.prefilling = false) :
    ∀ job ∈ s'.active, job.state.seq ∈ s'.pc.sampled → job.state.prefilling = false := by
  cases move with
  | decode pc something returned =>
    intro job member sampled
    refine buildBatch_through _ _ layout.nodup member ?_
    simpa [Pc.sampled] using sampled
  | acceptFail pc =>
    refine through_frame through (by simp [failAll, Pc.sampled, pc]) fun job' member => ?_
    obtain ⟨job, old, rfl⟩ := List.mem_map.mp member
    refine ⟨job, old, ?_⟩
    split
    · exact .refl _
    · exact SequenceState.fail_same _ _ _
  | acceptFinish pc here accepted =>
    apply through_frame through (by simp [Pc.sampled, pc])
    exact around_same here ((SequenceState.accept_same accepted).trans (SequenceState.finish_same _ _))
  | acceptStarve pc here accepted | acceptGrow pc here accepted =>
    apply through_frame through (by simp [Pc.sampled, pc])
    exact around_same here (SequenceState.accept_same accepted)
  | acceptPublish pc here accepted grown published =>
    subst published
    apply through_frame through (by simp [Pc.sampled, pc])
    exact around_same here (SequenceState.accept_same accepted)
  | resolveFail pc here large failed =>
    subst failed
    apply through_frame through (by simp [Pc.sampled, pc])
    exact around_same here ((SequenceState.fail_same _ _ _).trans (SequenceState.finish_same _ _))
  | reclaimGrow pc here | preemptGrow pc here =>
    apply through_frame through (by simp [Pc.sampled, pc])
    apply around_same here
    exact .refl _
  | sweepRetire pc here finished =>
    exact through_frame through (List.Subset.refl _) (subset_same (by simp [here]))
  | preemptEvict pc starving named full here =>
    exact through_frame through (List.Subset.refl _) (subset_same (by simp [here]))
  | giveUp | reclaimDonor | take =>
    exact through_frame through (List.Subset.refl _) (subset_same (List.Subset.refl _))
  | acceptEnd pc | acceptStray pc | sweepKeep pc | sweepResolve pc | resolveGone pc | resolveRoom pc
  | reclaimGone pc | reclaimEnd pc | preemptGone pc | preemptEnd pc =>
    exact through_frame through (by simp [Pc.sampled, pc]) (subset_same (List.Subset.refl _))
  | admitted => exact through_of_none (admitting_admitted s.active).1
  | defer => exact through_of_none (admitting_admitted s.active).1
  | _ => exact through_of_none rfl

/-! ## Running -/

theorem running_of_none {s : Continuous σ} (none : s.pc.running = []) :
    ∀ job ∈ s.active, job.state.seq ∈ s.pc.running → job.state.finished = false := by
  intro job _ sampled
  rw [none] at sampled
  cases sampled

/-- One job moves on; if it has finished, nobody waits for it any more. -/
theorem running_around {s s' : Continuous σ} {before after : List Job} {job job' : Job}
    (running : ∀ job ∈ s.active, job.state.seq ∈ s.pc.running → job.state.finished = false)
    (here : s.active = before ++ job :: after) (active : s'.active = before ++ job' :: after)
    (fewer : s'.pc.running ⊆ s.pc.running)
    (own : job'.state.seq ∈ s'.pc.running → job'.state.finished = false) :
    ∀ job ∈ s'.active, job.state.seq ∈ s'.pc.running → job.state.finished = false := by
  intro j member waits
  rw [active] at member
  rcases Lists.mem_of_around here member with rfl | old
  · exact own waits
  · exact running j old (fewer waits)

theorem running_subset {s s' : Continuous σ}
    (running : ∀ job ∈ s.active, job.state.seq ∈ s.pc.running → job.state.finished = false)
    (active : s'.active ⊆ s.active) (fewer : s'.pc.running ⊆ s.pc.running) :
    ∀ job ∈ s'.active, job.state.seq ∈ s'.pc.running → job.state.finished = false :=
  fun job member waits => running job (active member) (fewer waits)

/-- A job that a batch samples for is running. -/
theorem running_build (nBatch : Nat) (config : SchedulerConfig) {active : List Job}
    (nodup : (seqs active).Nodup) {job : Job} (member : job ∈ (buildBatch nBatch config active).active)
    (sampled : job.state.seq ∈ (buildBatch nBatch config active).sampling) :
    job.state.finished = false := by
  obtain ⟨old, _, served⟩ := Lists.exists_of_forall₂_right (buildBatch_served nBatch config nodup) member
  rw [buildBatch_sampling] at sampled
  obtain ⟨item, inside, owner⟩ := List.mem_map.mp sampled
  have submitted := (List.mem_filter.mp inside).1
  have own : item.seq = old.state.seq → item ∈ itemsOf old.state.seq (buildBatch nBatch config active).items :=
    fun same => List.mem_filter.mpr ⟨submitted, by simpa using same⟩
  generalize itemsOf old.state.seq (buildBatch nBatch config active).items = items at *
  cases served with
  | idle => cases own owner
  | decode unfinished => exact unfinished
  | prefill unfinished => exact unfinished

theorem Move.running {s s' : Continuous σ} {q q' : RequestQueue} (move : Move w config s q s' q')
    (layout : Layout w config s) (orderly : s.Orderly) :
    ∀ job ∈ s'.active, job.state.seq ∈ s'.pc.running → job.state.finished = false := by
  have running := orderly.running
  have once := orderly.once
  cases move with
  | decode pc something returned =>
    intro job member sampled
    refine running_build _ _ layout.nodup member ?_
    simpa [Pc.running, Pc.sampled] using sampled
  | acceptFinish pc here accepted =>
    refine running_around running here rfl (by simp [Pc.running, Pc.sampled, pc]) fun waits => ?_
    -- its own slot was at the head of the list, and nowhere else
    rw [pc] at once
    have gone := (List.nodup_cons.mp once).1
    rw [(SequenceState.finish_same _ _).seq, (SequenceState.accept_same accepted).seq] at waits
    exact absurd waits gone
  | acceptStarve pc here accepted | acceptGrow pc here accepted =>
    refine running_around running here rfl (by simp [Pc.running, Pc.sampled, pc]) fun _ => ?_
    exact (SequenceState.accept_accepts accepted).unfinished_of_goesOn.2
  | acceptPublish pc here accepted grown published =>
    subst published
    refine running_around running here rfl (by simp [Pc.running, Pc.sampled, pc]) fun _ => ?_
    exact (SequenceState.accept_accepts accepted).unfinished_of_goesOn.2
  | resolveFail pc here large failed =>
    subst failed
    refine running_around running here rfl (by simp [Pc.running, Pc.sampled, pc]) fun waits => ?_
    rw [pc] at once
    have gone := (List.nodup_cons.mp once).1
    rw [(SequenceState.finish_same _ _).seq, (SequenceState.fail_same _ _ _).seq] at waits
    exact absurd waits gone
  | @reclaimGrow _ before job after _ _ pc here | @preemptGrow _ before job after _ _ pc here =>
    refine running_around running here rfl (by simp [Pc.running, Pc.sampled, pc]) fun _ => ?_
    exact running job (by rw [here]; simp) (by simp [Pc.running, Pc.sampled, pc])
  | sweepResolve pc through =>
    -- the sweep has removed every job that had finished
    intro job member _
    refine orderly.swept _ _ pc job ?_
    rw [List.take_of_length_le through]
    exact member
  | sweepRetire pc | sweepKeep pc => exact running_of_none (by simp [Pc.running, pc])
  | preemptEvict pc starving named full here =>
    exact running_subset running (by simp [here]) (List.Subset.refl _)
  | giveUp | reclaimDonor | take =>
    exact running_subset running (List.Subset.refl _) (List.Subset.refl _)
  | acceptStray pc | resolveGone pc | resolveRoom pc | reclaimGone pc | reclaimEnd pc | preemptGone pc
  | preemptEnd pc =>
    exact running_subset running (List.Subset.refl _) (by simp [Pc.running, Pc.sampled, pc])
  | admitted => exact running_of_none (by simp only; split <;> rfl)
  | defer => exact running_of_none (by simp only [Continuous.defer]; split <;> rfl)
  | _ => exact running_of_none rfl

/-! ## Swept -/

theorem Move.swept {s s' : Continuous σ} {q q' : RequestQueue} (move : Move w config s q s' q')
    (orderly : s.Orderly) :
    ∀ i starved, s'.pc = .sweep i starved → ∀ job ∈ s'.active.take i, job.state.finished = false := by
  intro i starved sweeping
  cases move with
  | buildNothing | decodeFail | acceptEnd | acceptFail | resolveEnd =>
    cases sweeping
    simp
  | sweepRetire pc here finished =>
    rw [pc] at sweeping
    cases sweeping
    have swept := orderly.swept _ _ pc
    rw [here, List.take_left] at swept
    rw [List.take_left]
    exact swept
  | @sweepKeep _ before job after pc here unfinished =>
    cases sweeping
    have swept := orderly.swept _ _ pc
    rw [here, List.take_left] at swept
    intro j member
    rw [here, List.take_length_add_append, List.take_succ_cons, List.take_zero, List.mem_append,
      List.mem_singleton] at member
    rcases member with earlier | rfl
    · exact swept j earlier
    · exact unfinished
  | take pc | giveUp pc | reclaimDonor pc | preemptEvict pc => simp [pc] at sweeping
  | admitted =>
    simp only at sweeping
    split at sweeping <;> cases sweeping
  | defer =>
    simp only [Continuous.defer] at sweeping
    split at sweeping <;> cases sweeping
  | _ => cases sweeping

/-! ## Failed at admission -/

theorem Move.failed {s s' : Continuous σ} {q q' : RequestQueue} (move : Move w config s q s' q')
    (layout : Layout w config s) (orderly : s.Orderly) :
    s'.pc.admitting = true → ∀ job ∈ s'.active, job.state.finished = true → job.blocks.blocks = [] := by
  intro admitting
  have joins : ∀ job, (job.state.finished = true → job.blocks.blocks = []) → s.pc.admitting = true →
      ∀ j ∈ s.active ++ [job], j.state.finished = true → j.blocks.blocks = [] := by
    intro job own before j member
    rw [List.mem_append, List.mem_singleton] at member
    rcases member with old | rfl
    · exact orderly.failed before j old
    · exact own
  cases move with
  | placeFailed pc failed =>
    -- a job that failed its check has not been given a table
    refine joins _ (fun _ => ?_) (by simp [Pc.admitting, pc])
    obtain ⟨request, slot, slots, rfl, _⟩ := layout.hand _ pc
    rfl
  | place pc fits =>
    refine joins _ (fun finished => ?_) (by simp [Pc.admitting, pc])
    simp [fits.unfinished] at finished
  | adopt pc fits =>
    refine joins _ (fun finished => ?_) (by simp [Pc.admitting, pc])
    simp [inherit, SequenceState.adoptCachedPrefix, fits.unfinished] at finished
  | sweepLoop pc through =>
    intro job member finished
    have swept := orderly.swept _ _ pc job (by rw [List.take_of_length_le through]; exact member)
    simp [swept] at finished
  | take pc | leave pc | make pc | admitted pc | giveUp pc | reject pc | defer pc =>
    exact orderly.failed (by simp [Pc.admitting, pc])
  | sweepRetire pc | reclaimDonor pc | preemptEvict pc => simp [Pc.admitting, pc] at admitting
  | _ => cases admitting

theorem Orderly.move {s s' : Continuous σ} {q q' : RequestQueue} (orderly : s.Orderly)
    (layout : Layout w config s) (move : Move w config s q s' q') : s'.Orderly where
  once := move.once layout orderly.once
  through := move.through layout orderly.through
  running := move.running layout orderly
  swept := move.swept orderly
  failed := move.failed layout orderly

end Continuous

namespace Server

variable {σ : Type} {w : World σ} {config : SchedulerConfig} {capacity : Nat} {world : σ}
variable {past : List Event} {s : Server (Continuous σ)}

theorem orderly_run (run : (continuous w config capacity world).Run past s) : s.thread.Orderly := by
  refine continuous_thread_invariant ?_ ?_ run.guarded_true
  · refine ⟨.nil, ?_, ?_, ?_, ?_⟩ <;> simp [Continuous.start]
  · intro _ s thread queue _ settled orderly move _
    have after := orderly.move settled.layout move
    exact ⟨after.once, after.through, after.running, after.swept, after.failed⟩

end Server

end MicroVllm
