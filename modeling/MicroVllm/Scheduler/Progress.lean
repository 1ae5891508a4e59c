import MicroVllm.Lib.Countdown
import MicroVllm.Scheduler.Seniority

/-! # Getting somewhere

A measure that every step of the loop lowers, as long as nobody has to make room for a job that was
admitted later.  What counts first is the number of requests without a result, then what the running
jobs still have to go, the job admitted first counting most; a job that starves hides those behind
it, so that preempting them costs nothing.  What is left is how far the loop is from the next token.
-/

namespace MicroVllm

open Countdown

/-! ## What is left to do for a job -/

/-- One for coming to its end, the prompt tokens to submit and the tokens to generate. -/
def SequenceState.toGo (s : SequenceState) : Nat :=
  if s.finished then 0 else 1 + s.prefillRemaining + (s.spec.maxTokens.toNat - s.usage.completionTokens)

namespace SequenceState

variable {σ : Type} {w : World σ} {s t : SequenceState}

theorem toGo_of_finished (finished : s.finished = true) : s.toGo = 0 := if_pos finished

theorem toGo_of_unfinished (unfinished : s.finished = false) :
    s.toGo = 1 + s.prefillRemaining + (s.spec.maxTokens.toNat - s.usage.completionTokens) :=
  if_neg (by simp [unfinished])

theorem toGo_pos (unfinished : s.finished = false) : 0 < s.toGo := by
  rw [toGo_of_unfinished unfinished]
  omega

theorem Accepts.toGo_lt {step : GenStep} (accepts : s.Accepts w step true t) : t.toGo < s.toGo := by
  obtain ⟨before, after⟩ := accepts.unfinished_of_goesOn
  rw [toGo_of_unfinished before, toGo_of_unfinished after]
  cases accepts with
  | goesOn _ _ left =>
    show 1 + s.prefillRemaining + (s.spec.maxTokens.toNat - (s.usage.completionTokens + 1)) < _
    omega

theorem toGo_chunk_lt {take : Nat} (unfinished : s.finished = false) (positive : 0 < take)
    (within : take ≤ s.prefillRemaining) : (s.takePrefillChunk take).2.toGo < s.toGo := by
  have after : (s.takePrefillChunk take).2.finished = false := unfinished
  rw [toGo_of_unfinished unfinished, toGo_of_unfinished after]
  simp only [takePrefillChunk, prefillRemaining] at within ⊢
  omega

end SequenceState

/-- A batch either leaves a job alone or takes it further. -/
theorem Served.toGo {job job' : Job} {items : List BatchItem} (served : Served job job' items) :
    job' = job ∨ job'.state.toGo < job.state.toGo := by
  cases served with
  | idle | decode => exact .inl rfl
  | prefill unfinished positive within =>
    exact .inr (SequenceState.toGo_chunk_lt unfinished positive within)

/-- Only a chunk of the prompt is not sampled from, and it takes the job further. -/
theorem Served.samples {job job' : Job} {items : List BatchItem} {item : BatchItem}
    (served : Served job job' items) (same : job' = job) (member : item ∈ items) : item.sample = true := by
  cases served with
  | idle => cases member
  | decode =>
    rw [List.mem_singleton.mp member]
    rfl
  | @prefill take unfinished positive within =>
    have less := SequenceState.toGo_chunk_lt unfinished positive within
    have stays : (job.state.takePrefillChunk take).2 = job.state := congrArg Job.state same
    rw [stays] at less
    exact absurd less (Nat.lt_irrefl _)

/-! ## Batches that only decode -/

/-- A batch that leaves every job as it is samples. -/
theorem buildBatch_samples {nBatch : Nat} {config : SchedulerConfig} {active : List Job}
    (nodup : (seqs active).Nodup) (something : (buildBatch nBatch config active).items ≠ [])
    (same : (buildBatch nBatch config active).active = active) :
    (buildBatch nBatch config active).sampling ≠ [] := by
  have fills := buildBatch_fills nBatch config nodup
  rw [same] at fills
  obtain ⟨item, member⟩ := List.exists_mem_of_ne_nil _ something
  obtain ⟨job, inside, owner⟩ := mem_seqs.mp (fills.owned item member)
  have served := List.forall₂_same.mp fills.served job inside
  have own : item ∈ itemsOf job.state.seq (buildBatch nBatch config active).items :=
    List.mem_filter.mpr ⟨member, by simp [owner]⟩
  rw [buildBatch_sampling]
  intro none
  exact List.filter_eq_nil_iff.mp (List.map_eq_nil_iff.mp none) item member (served.samples rfl own)

/-! ## Where the loop is -/

namespace Pc

/-- The slots short of blocks that the loop has to make room for. -/
def starving : Pc → List Nat
  | .accept _ _ grewShort => grewShort
  | .sweep _ starved => starved.getD []
  | .resolve starved => starved
  | .reclaim slot starved => slot :: starved
  | .preempt slot starved => slot :: starved
  | _ => []

/-- How far the loop is from a sweep, when a job has finished. -/
def untilSwept : Pc → Nat
  | .takeWork => 9
  | .admitNext | .reserve _ => 8
  | .build => 7
  | .accept _ _ _ => 6
  | .sweep _ (some _) => 5
  | .resolve _ | .reclaim _ _ | .preempt _ _ => 4
  | .sweep _ none => 3
  | .done | .crashed _ => 0

/-- How far the loop is from accepting a token, when no job has finished.  Once a job has been found
    short the tokens left to accept may be those of hidden jobs. -/
def untilAccepted (idle : Bool) : Pc → Nat
  | .accept (_ :: _) _ [] => 2
  | .accept _ _ _ => 9
  | .sweep _ (some _) => 8
  | .resolve _ | .reclaim _ _ | .preempt _ _ => 7
  | .sweep _ none => 6
  | .takeWork => if idle then 1 else 5
  | .admitNext | .reserve _ => 4
  | .build => 3
  | .done | .crashed _ => 0

theorem untilSwept_lt (pc : Pc) : pc.untilSwept < 10 := by
  unfold untilSwept
  split <;> decide

theorem untilAccepted_accept {idle : Bool} {sampling : List Nat} {steps : List GenStep}
    {grewShort : List Nat} (some : grewShort ≠ []) :
    (accept sampling steps grewShort).untilAccepted idle = 9 := by
  cases grewShort with
  | nil => exact absurd rfl some
  | cons slot grewShort => cases sampling <;> rfl

end Pc

namespace Continuous

variable {σ : Type} {w : World σ} {config : SchedulerConfig} {s s' : Continuous σ} {q q' : RequestQueue}

/-- A finished job waits for the next sweep. -/
def someDone (s : Continuous σ) : Bool := s.active.any fun job => job.state.finished

def phase (s : Continuous σ) : Nat :=
  if s.someDone then s.pc.untilSwept else 10 + s.pc.untilAccepted s.idle

/-- What is left of the loop the thread is in. -/
def turns (s : Continuous σ) : Nat :=
  match s.pc with
  | .admitNext => 2 * s.pending.length
  | .reserve _ => 2 * s.pending.length + 1
  | .accept sampling _ _ => sampling.length
  | .sweep i _ => s.active.length - i
  | .resolve starved => 3 * starved.length
  | .reclaim _ starved => 3 * starved.length + 2
  | .preempt _ starved => 3 * starved.length + 1
  | _ => 0

/-- What could still be given up to make room. -/
def spare (s : Continuous σ) : Nat := s.prefixCache.pairs.length + s.active.length

/-- What the jobs have to go, up to the first one that starves. -/
def shown (s : Continuous σ) : List Nat :=
  (upTo (fun mark => mark.1 ∈ s.pc.starving)
    (s.active.map fun job => (job.state.seq, job.state.toGo))).map Prod.snd

end Continuous

/-- How far a server of `n` slots is from having nothing to do. -/
abbrev Standing (n : Nat) := ℕ ×ₗ ℕ ×ₗ Lex (Fin n → WithTop ℕ) ×ₗ ℕ ×ₗ ℕ ×ₗ ℕ

namespace Continuous

variable {σ : Type} {w : World σ} {config : SchedulerConfig} {s s' : Continuous σ} {q q' : RequestQueue}
variable {n : Nat}

def standing (n : Nat) (s : Continuous σ) (q : RequestQueue) : Standing n :=
  toLex (q.queue.length + s.held.length, toLex (q.queue.length, toLex (digits n s.shown,
    toLex (s.phase, toLex (s.turns, s.spare)))))

/-! ## Ways to get on -/

/-- A request has been delivered. -/
theorem standing_of_held (fewer : s'.held.length < s.held.length) :
    standing n s' q < standing n s q :=
  lt_of_fst_lt (by omega)

theorem standing_of_shown (held : s'.held.length = s.held.length)
    (less : digits n s'.shown < digits n s.shown) : standing n s' q < standing n s q :=
  lt_of_snd_lt (by omega) (lt_of_snd_lt (Nat.le_refl _) (lt_of_fst_lt less))

theorem standing_of_phase (held : s'.held.length = s.held.length)
    (most : digits n s'.shown ≤ digits n s.shown) (less : s'.phase < s.phase) :
    standing n s' q < standing n s q :=
  lt_of_snd_lt (by omega) (lt_of_snd_lt (Nat.le_refl _) (lt_of_snd_lt most (lt_of_fst_lt less)))

theorem standing_of_turns (held : s'.held.length = s.held.length)
    (most : digits n s'.shown ≤ digits n s.shown) (phase : s'.phase ≤ s.phase)
    (less : s'.turns < s.turns) : standing n s' q < standing n s q :=
  lt_of_snd_lt (by omega) (lt_of_snd_lt (Nat.le_refl _) (lt_of_snd_lt most
    (lt_of_snd_lt phase (lt_of_fst_lt less))))

theorem standing_of_spare (held : s'.held.length = s.held.length)
    (most : digits n s'.shown ≤ digits n s.shown) (phase : s'.phase ≤ s.phase)
    (turns : s'.turns ≤ s.turns) (less : s'.spare < s.spare) : standing n s' q < standing n s q :=
  lt_of_snd_lt (by omega) (lt_of_snd_lt (Nat.le_refl _) (lt_of_snd_lt most
    (lt_of_snd_lt phase (lt_of_snd_lt turns less))))

theorem held_length (s : Continuous σ) :
    s.held.length = s.pending.length + s.pc.inHand.length + s.active.length := by
  simp [held, requestIds, owners, Nat.add_assoc]

theorem phase_lt (same : s'.someDone = s.someDone) (swept : s'.pc.untilSwept < s.pc.untilSwept)
    (accepted : s'.pc.untilAccepted s'.idle < s.pc.untilAccepted s.idle) : s'.phase < s.phase := by
  rw [phase, phase, same]
  split <;> omega

theorem phase_le (same : s'.someDone = s.someDone) (swept : s'.pc.untilSwept ≤ s.pc.untilSwept)
    (accepted : s'.pc.untilAccepted s'.idle ≤ s.pc.untilAccepted s.idle) : s'.phase ≤ s.phase := by
  rw [phase, phase, same]
  split <;> omega

/-- If a job has finished the loop is on its way to a sweep, whatever it was doing before. -/
theorem phase_lt_of_done (after : s'.someDone = true)
    (swept : s.someDone = true → s'.pc.untilSwept < s.pc.untilSwept) : s'.phase < s.phase := by
  have near := s'.pc.untilSwept_lt
  rw [phase, phase, after, if_pos rfl]
  by_cases before : s.someDone = true
  · rw [if_pos before]
    exact swept before
  · rw [if_neg before]
    omega

theorem phase_lt_of_none (before : s.someDone = false) (after : s'.someDone = false)
    (accepted : s'.pc.untilAccepted s'.idle < s.pc.untilAccepted s.idle) : s'.phase < s.phase := by
  rw [phase, phase, before, after]
  simpa using accepted

theorem someDone_eq_false (none : ∀ job ∈ s.active, job.state.finished = false) : s.someDone = false := by
  simpa [someDone] using none

theorem someDone_eq_true {job : Job} (member : job ∈ s.active) (finished : job.state.finished = true) :
    s.someDone = true := List.any_eq_true.mpr ⟨job, member, finished⟩

/-- One job changes and does not come to its end. -/
theorem someDone_around {before after : List Job} {job job' : Job}
    (here : s.active = before ++ job :: after) (there : s'.active = before ++ job' :: after)
    (same : job'.state.finished = job.state.finished) : s'.someDone = s.someDone := by
  simp [someDone, here, there, same]

theorem shown_eq (active : s'.active.map (fun job => (job.state.seq, job.state.toGo)) =
      s.active.map fun job => (job.state.seq, job.state.toGo))
    (starving : s'.pc.starving = s.pc.starving) : s'.shown = s.shown := by
  rw [shown, shown, active, starving]

/-- With nobody starving every job is shown. -/
theorem shown_all (nobody : s.pc.starving = []) : s.shown = s.active.map fun job => job.state.toGo := by
  rw [shown, nobody, upTo_eq_self (by simp), List.map_map]
  rfl

/-- The jobs before a point at which nobody starves yet are all shown. -/
theorem shown_append {front rest : List Job} (here : s.active = front ++ rest)
    (fed : ∀ j ∈ front, j.state.seq ∉ s.pc.starving) :
    s.shown = (front.map fun job => job.state.toGo) ++
      (upTo (fun mark => mark.1 ∈ s.pc.starving)
        (rest.map fun job => (job.state.seq, job.state.toGo))).map Prod.snd := by
  rw [shown, here, List.map_append, upTo_append, List.map_append, List.map_map]
  · rfl
  · intro mark member
    obtain ⟨j, inside, rfl⟩ := List.mem_map.mp member
    simpa using fed j inside

/-- Those behind a job that starves are not. -/
theorem shown_of_mem {front rest : List Job} (here : s.active = front ++ rest) {j : Job}
    (member : j ∈ front) (starves : j.state.seq ∈ s.pc.starving) :
    s.shown = (upTo (fun mark => mark.1 ∈ s.pc.starving)
      (front.map fun job => (job.state.seq, job.state.toGo))).map Prod.snd := by
  rw [shown, here, List.map_append]
  rw [upTo_append_of_mem (List.mem_map_of_mem member) (by simpa using starves)]

/-- Making room for one job shows more of the others. -/
theorem shown_weaken {slot : Nat} (active : s'.active.map (fun job => (job.state.seq, job.state.toGo)) =
      s.active.map fun job => (job.state.seq, job.state.toGo))
    (starving : s.pc.starving = slot :: s'.pc.starving) : digits n s'.shown ≤ digits n s.shown := by
  obtain ⟨more, grows⟩ := upTo_weaken (p := fun mark : Nat × Nat => mark.1 ∈ s.pc.starving)
    (q := fun mark => mark.1 ∈ s'.pc.starving) (by simp_all)
    (s.active.map fun job => (job.state.seq, job.state.toGo))
  rw [shown, shown, active, grows, List.map_append]
  exact digits_append_le _ _

/-- A job gets on.  If it is hidden nothing is seen of it, and then somebody starves. -/
theorem shown_around {before after : List Job} {job job' : Job} (room : s.active.length ≤ n)
    (here : s.active = before ++ job :: after) (there : s'.active = before ++ job' :: after)
    (starving : ∀ j ∈ before, j.state.seq ∈ s'.pc.starving ↔ j.state.seq ∈ s.pc.starving)
    (less : job'.state.toGo < job.state.toGo) :
    digits n s'.shown < digits n s.shown ∨ (s'.shown = s.shown ∧ s.pc.starving ≠ []) := by
  by_cases visible : ∀ j ∈ before, j.state.seq ∉ s.pc.starving
  · left
    have inside : (before.map fun j => j.state.toGo).length < n := by
      rw [here, List.length_append, List.length_cons] at room
      rw [List.length_map]
      omega
    -- whether the job starves or not, it is the next to be seen
    have next : ∀ (p : Nat × Nat → Bool) (j : Job), ∃ back,
        (upTo p ((j :: after).map fun job => (job.state.seq, job.state.toGo))).map Prod.snd =
          j.state.toGo :: back := by
      intro p j
      rw [List.map_cons, upTo]
      split
      · exact ⟨[], rfl⟩
      · exact ⟨_, rfl⟩
    rw [shown_append here visible, shown_append there fun j member => by
      rw [starving j member]
      exact visible j member]
    obtain ⟨back, seen⟩ := next (fun mark => mark.1 ∈ s.pc.starving) job
    obtain ⟨back', seen'⟩ := next (fun mark => mark.1 ∈ s'.pc.starving) job'
    rw [seen, seen']
    exact digits_lt_of_lt less inside
  · right
    push Not at visible
    obtain ⟨j, member, starves⟩ := visible
    refine ⟨?_, List.ne_nil_of_mem starves⟩
    rw [shown_of_mem here member starves, shown_of_mem there member ((starving j member).mpr starves)]
    refine congrArg (List.map Prod.snd) (upTo_congr ?_)
    intro mark inside
    obtain ⟨j, member, rfl⟩ := List.mem_map.mp inside
    simpa using starving j member

/-- Every job is where it was, and none has more to go. -/
theorem shown_le (starving : s'.pc.starving = s.pc.starving)
    (all : List.Forall₂ (fun job job' => job'.state.seq = job.state.seq ∧ job'.state.toGo ≤ job.state.toGo)
      s.active s'.active) : digits n s'.shown ≤ digits n s.shown := by
  rw [shown, shown, starving]
  apply digits_le_of_forall₂
  have marks : List.Forall₂ (fun mark mark' : Nat × Nat => mark'.1 = mark.1 ∧ mark'.2 ≤ mark.2)
      (s.active.map fun job => (job.state.seq, job.state.toGo))
      (s'.active.map fun job => (job.state.seq, job.state.toGo)) := by
    rw [List.forall₂_map_left_iff, List.forall₂_map_right_iff]
    exact all
  have seen := forall₂_upTo (p := fun mark => mark.1 ∈ s.pc.starving) marks fun _ _ same => by
    rw [same.1]
  rw [List.forall₂_map_left_iff, List.forall₂_map_right_iff]
  exact seen.imp fun _ _ same => same.2

/-! ## Every step gets on -/

/-- The loop builds batches for somebody, and samples for jobs that are there. -/
structure Manned (s : Continuous σ) : Prop where
  building : s.pc = .build → s.active ≠ []
  sampled : ∀ sampling steps grewShort, s.pc = .accept sampling steps grewShort →
    ∀ slot ∈ sampling, slot ∈ seqs s.active

theorem Manned.move (manned : s.Manned) (move : Move w config s q s' q') : s'.Manned := by
  have elsewhere : s'.pc ≠ .build → (∀ sampling steps grewShort, s'.pc ≠ .accept sampling steps grewShort) →
      s'.Manned :=
    fun building accepting => ⟨fun pc => absurd pc building, fun _ _ _ pc => absurd pc (accepting _ _ _)⟩
  -- the rest of the sampled jobs, with one of them changed
  have around : ∀ {before after : List Job} {job job' : Job} {slot sampling step steps grewShort grewShort'},
      s.pc = .accept (slot :: sampling) (step :: steps) grewShort →
      s.active = before ++ job :: after → s'.active = before ++ job' :: after →
      job'.state.seq = job.state.seq → s'.pc = .accept sampling steps grewShort' → s'.Manned := by
    intro before after job job' slot sampling step steps grewShort grewShort' pc here there seq pc'
    refine ⟨by simp [pc'], ?_⟩
    intro sampling' steps' grewShort'' accepting owner member
    rw [pc'] at accepting
    cases accepting
    have known := manned.sampled _ _ _ pc owner (List.mem_cons_of_mem _ member)
    rw [here] at known
    rw [there]
    simpa [seqs, seq] using known
  cases move with
  | admitted pc =>
    constructor
    · intro building
      simp only at building
      split at building
      · cases building
      · assumption
    · intro _ _ _ accepting
      simp only at accepting
      split at accepting <;> cases accepting
  | defer pc unfinished full busy =>
    constructor
    · exact fun _ => busy
    · intro _ _ _ accepting
      simp only [Continuous.defer] at accepting
      split at accepting <;> cases accepting
  | decode pc something returned =>
    refine ⟨by simp, ?_⟩
    intro sampling steps grewShort accepting slot member
    cases accepting
    rw [buildBatch_sampling] at member
    obtain ⟨item, inside, rfl⟩ := List.mem_map.mp member
    have owned := buildBatch_owned w.caps.nBatch config s.active item (List.mem_filter.mp inside).1
    have same := forall₂_build (R := fun job job' => job'.state.seq = job.state.seq) (fun _ => rfl)
      (fun _ _ => rfl) w.caps.nBatch config s.active
    obtain ⟨job, active, owner⟩ := mem_seqs.mp owned
    obtain ⟨job', active', seq⟩ := Lists.exists_of_forall₂_left same active
    exact mem_seqs.mpr ⟨job', active', seq.trans owner⟩
  | acceptStray pc =>
    refine ⟨by simp, ?_⟩
    intro _ _ _ accepting slot member
    cases accepting
    exact manned.sampled _ _ _ pc slot (List.mem_cons_of_mem _ member)
  | acceptFinish pc here accepted =>
    have seq := (SequenceState.accept_same accepted).seq
    exact around pc here rfl ((SequenceState.finish_same (w := w) _ _).seq.trans seq) rfl
  | acceptStarve pc here accepted | acceptGrow pc here accepted =>
    exact around pc here rfl (SequenceState.accept_same accepted).seq rfl
  | acceptPublish pc here accepted grown published =>
    subst published
    exact around pc here rfl (SequenceState.accept_same accepted).seq rfl
  | take pc | giveUp pc | sweepRetire pc | reclaimDonor pc | preemptEvict pc =>
    exact elsewhere (by simp [pc]) (by simp [pc])
  | reject => exact elsewhere (by simp [Continuous.reject]) (by simp [Continuous.reject])
  | placeFailed | place | adopt => exact elsewhere (by simp [Continuous.place]) (by simp [Continuous.place])
  | decodeFail | acceptFail => exact elsewhere (by simp [failAll]) (by simp [failAll])
  | _ => exact elsewhere (by simp) (by simp)

theorem pairs_reclaim {m m' : Scheduler σ} (evicted : m.reclaimDonorBlocks w = some m') :
    m'.prefixCache.pairs.length < m.prefixCache.pairs.length := by
  unfold Scheduler.reclaimDonorBlocks at evicted
  split at evicted
  · cases evicted
  · rename_i donor cache found
    cases evicted
    obtain ⟨_, _, _, _, split, _⟩ := PrefixCache.evictLruRetained_eq_some found
    show cache.pairs.length < _
    rw [split.length_eq]
    exact Nat.lt_succ_self _

/-- Building a batch takes no job back. -/
theorem batch_toGo (nBatch : Nat) (config : SchedulerConfig) {active : List Job}
    (nodup : (seqs active).Nodup) :
    List.Forall₂ (fun job job' => job'.state.seq = job.state.seq ∧ job'.state.toGo ≤ job.state.toGo)
      active (buildBatch nBatch config active).active := by
  apply (buildBatch_served nBatch config nodup).imp
  intro job job' served
  refine ⟨served.seq_eq, ?_⟩
  rcases served.toGo with rfl | less
  · exact Nat.le_refl _
  · exact Nat.le_of_lt less

/-- Neither does failing them all. -/
theorem failAll_toGo (message : String) (s : Continuous σ) :
    List.Forall₂ (fun job job' => job'.state.seq = job.state.seq ∧ job'.state.toGo ≤ job.state.toGo)
      s.active (s.failAll message).active := by
  show List.Forall₂ _ s.active (s.active.map _)
  rw [List.forall₂_map_right_iff]
  apply List.forall₂_same.mpr
  intro job _
  split
  · exact ⟨rfl, Nat.le_refl _⟩
  · refine ⟨rfl, ?_⟩
    rw [SequenceState.toGo_of_finished rfl]
    exact Nat.zero_le _

theorem someDone_failAll (message : String) (some : s.active ≠ []) : (s.failAll message).someDone = true := by
  obtain ⟨job, member⟩ := List.exists_mem_of_ne_nil _ some
  have inside := List.mem_map_of_mem (f := fun job : Job => if job.state.finished then job
    else { job with state := job.state.fail message }) member
  exact someDone_eq_true inside (finished_failAll (s := s) inside)

theorem length_batch (nBatch : Nat) (config : SchedulerConfig) (active : List Job) :
    (buildBatch nBatch config active).active.length = active.length :=
  (forall₂_build (R := fun _ _ => True) (fun _ => trivial) (fun _ _ => trivial) nBatch config
    active).length_eq.symm

/-! ### The kinds of turns -/

/-- The thread goes on to another part of the loop and leaves the jobs as they are. -/
theorem standing_of_jump (active : s'.active = s.active) (starving : s'.pc.starving = s.pc.starving)
    (held : s'.held.length = s.held.length) (swept : s'.pc.untilSwept < s.pc.untilSwept)
    (accepted : s'.pc.untilAccepted s'.idle < s.pc.untilAccepted s.idle) :
    standing n s' q < standing n s q := by
  apply standing_of_phase held
  · rw [shown_eq (by rw [active]) starving]
  · exact phase_lt (by rw [someDone, someDone, active]) swept accepted

/-- One more turn of the loop, with room made for at most one job. -/
theorem standing_of_turn (active : s'.active.map (fun job => (job.state.seq, job.state.toGo)) =
      s.active.map fun job => (job.state.seq, job.state.toGo))
    (starving : s'.pc.starving = s.pc.starving ∨ ∃ slot, s.pc.starving = slot :: s'.pc.starving)
    (held : s'.held.length = s.held.length) (phase : s'.phase ≤ s.phase) (fewer : s'.turns < s.turns) :
    standing n s' q < standing n s q := by
  apply standing_of_turns held _ phase fewer
  rcases starving with same | ⟨slot, one⟩
  · rw [shown_eq active same]
  · exact shown_weaken active one

/-- A job joins the batch. -/
theorem standing_of_join {job : Job} (room : s.active.length < n) (fed : s.pc.starving = [])
    (fed' : s'.pc.starving = []) (held : s'.held.length = s.held.length)
    (active : s'.active = s.active ++ [job]) : standing n s' q < standing n s q := by
  apply standing_of_shown held
  rw [shown_all fed', shown_all fed, active, List.map_append]
  apply digits_append_lt
  rwa [List.length_map]

/-- A running job comes to its end. -/
theorem standing_of_end {before after : List Job} {job job' : Job} (room : s.active.length ≤ n)
    (here : s.active = before ++ job :: after) (there : s'.active = before ++ job' :: after)
    (held : s'.held.length = s.held.length)
    (starving : ∀ j ∈ before, j.state.seq ∈ s'.pc.starving ↔ j.state.seq ∈ s.pc.starving)
    (running : job.state.finished = false) (ended : job'.state.finished = true)
    (swept : s'.pc.untilSwept ≤ s.pc.untilSwept) (fewer : s'.turns < s.turns) :
    standing n s' q < standing n s q := by
  have done : s'.someDone = true := someDone_eq_true (by rw [there]; simp) ended
  have less : job'.state.toGo < job.state.toGo := by
    rw [SequenceState.toGo_of_finished ended]
    exact SequenceState.toGo_pos running
  rcases shown_around room here there starving less with seen | ⟨hidden, _⟩
  · exact standing_of_shown held seen
  · by_cases earlier : s.someDone = true
    · apply standing_of_turns held (le_of_eq (by rw [hidden])) _ fewer
      rw [phase, phase, if_pos done, if_pos earlier]
      exact swept
    · exact standing_of_phase held (le_of_eq (by rw [hidden]))
        (phase_lt_of_done done fun again => absurd again earlier)

/-- A running job gets a token further, and may be found short of blocks. -/
theorem standing_of_token {before after : List Job} {job job' : Job} {step : GenStep}
    {sampling grewShort grewShort' : List Nat} {steps steps' : List GenStep} (room : s.active.length ≤ n)
    (nodup : (seqs s.active).Nodup)
    (pc : s.pc = .accept (job.state.seq :: sampling) steps grewShort)
    (pc' : s'.pc = .accept sampling steps' grewShort')
    (here : s.active = before ++ job :: after) (there : s'.active = before ++ job' :: after)
    (held : s'.held.length = s.held.length)
    (short : grewShort' = grewShort ∨ grewShort' = grewShort ++ [job.state.seq])
    (accepts : job.state.Accepts w step true job'.state) : standing n s' q < standing n s q := by
  obtain ⟨unfinished, unfinished'⟩ := accepts.unfinished_of_goesOn
  have starving : ∀ j ∈ before, j.state.seq ∈ s'.pc.starving ↔ j.state.seq ∈ s.pc.starving := by
    intro j member
    have other := (seqs_around (here ▸ nodup)).1 j member
    rw [pc, pc']
    rcases short with rfl | rfl <;> simp [Pc.starving, other]
  rcases shown_around room here there starving accepts.toGo_lt with seen | ⟨hidden, some⟩
  · exact standing_of_shown held seen
  · -- behind a job that is short nothing is seen of it, but there is one token less to accept
    have short' : grewShort ≠ [] := by simpa [pc, Pc.starving] using some
    have short'' : grewShort' ≠ [] := by
      rcases short with rfl | rfl
      · exact short'
      · simp
    apply standing_of_turns held (le_of_eq (by rw [hidden]))
    · apply phase_le (someDone_around here there (unfinished'.trans unfinished.symm))
      · simp [pc, pc', Pc.untilSwept]
      · rw [pc, pc', Pc.untilAccepted_accept short'', Pc.untilAccepted_accept short']
    · simp [turns, pc, pc']

/-- A job that stands behind the one in need makes room for it. -/
theorem standing_of_evict {front middle back : List Job} {job victim : Job} {slot : Nat} {starved : List Nat}
    (pc : s.pc = .preempt slot starved) (pc' : s'.pc = s.pc) (named : job.state.seq = slot)
    (here : s.active = front ++ job :: (middle ++ victim :: back))
    (there : s'.active = front ++ job :: (middle ++ back)) (held : s'.held.length = s.held.length)
    (unfinished : victim.state.finished = false)
    (cached : s'.prefixCache.pairs.length ≤ s.prefixCache.pairs.length) :
    standing n s' q < standing n s q := by
  have starves : job.state.seq ∈ s.pc.starving := by simp [pc, named, Pc.starving]
  have here' : s.active = (front ++ [job]) ++ (middle ++ victim :: back) := by rw [here]; simp
  have there' : s'.active = (front ++ [job]) ++ (middle ++ back) := by rw [there]; simp
  apply standing_of_spare held
  · rw [shown_of_mem here' (j := job) (by simp) starves, shown_of_mem there' (j := job) (by simp) (pc' ▸ starves),
      pc']
  · apply phase_le
    · simp [someDone, here, there, unfinished]
    · simp [pc', pc, Pc.untilSwept]
    · simp [pc', pc, Pc.untilAccepted]
  · simp [turns, pc', pc]
  · simp only [spare, here, there, List.length_append, List.length_cons]
    omega

/-- A batch that only decodes is followed by a token, any other takes a job further. -/
theorem standing_of_decode {steps : List GenStep} (pc : s.pc = .build) (room : s.active.length ≤ n)
    (nodup : (seqs s.active).Nodup) (something : (buildBatch w.caps.nBatch config s.active).items ≠ [])
    (pc' : s'.pc = .accept (buildBatch w.caps.nBatch config s.active).sampling steps [])
    (active : s'.active = (buildBatch w.caps.nBatch config s.active).active)
    (pending : s'.pending = s.pending) : standing n s' q < standing n s q := by
  have served := (buildBatch_served w.caps.nBatch config nodup).imp fun _ _ served => served.toGo
  have held : s'.held.length = s.held.length := by
    simp [held_length, pc, pc', active, pending, length_batch, Pc.inHand]
  rcases exists_less_of_forall₂ (f := fun job : Job => job.state.toGo) served with
    stays | ⟨front, job, back, job', back', here, there, less⟩
  · obtain ⟨slot, rest, sampled⟩ :=
      List.exists_cons_of_ne_nil (buildBatch_samples nodup something stays)
    apply standing_of_jump (active.trans stays) (by rw [pc, pc']; rfl) held
    · simp [pc, pc', Pc.untilSwept]
    · simp [pc, pc', sampled, Pc.untilAccepted]
  · apply standing_of_shown held
    rw [shown_all (s := s') (by rw [pc']; rfl), shown_all (s := s) (by rw [pc]; rfl), active, there, here,
      List.map_append, List.map_append]
    apply digits_lt_of_lt less
    rw [here, List.length_append, List.length_cons] at room
    rw [List.length_map]
    omega

/-- Every job is made to fail, so that the next sweep takes all of them. -/
theorem standing_of_failAll {t : Continuous σ} {message : String}
    (active : List.Forall₂ (fun job job' => job'.state.seq = job.state.seq ∧ job'.state.toGo ≤ job.state.toGo)
      s.active t.active)
    (some : s.active ≠ []) (starving : t.pc.starving = s.pc.starving)
    (held : t.held.length = s.held.length) (swept : t.pc.untilSwept < s.pc.untilSwept) :
    standing n (t.failAll message) q < standing n s q := by
  apply standing_of_phase
  · rw [← held]
    simp [held_length, failAll]
  · refine shown_le starving (Lists.forall₂_trans ?_ active (failAll_toGo message t))
    exact fun first second => ⟨second.1.trans first.1, Nat.le_trans second.2 first.2⟩
  · apply phase_lt_of_done
    · apply someDone_failAll
      apply List.ne_nil_of_length_pos
      rw [← active.length_eq]
      exact List.length_pos_iff.mpr some
    · exact fun _ => swept

/-- The sweep has been through all jobs, and none has finished. -/
theorem someDone_swept {i : Nat} {starved : Option (List Nat)} (orderly : s.Orderly)
    (pc : s.pc = .sweep i starved) (through : s.active.length ≤ i) : s.someDone = false := by
  apply someDone_eq_false
  intro job member
  apply orderly.swept i starved pc
  rwa [List.take_of_length_le through]

/-- Every turn of a loop brings the thread nearer to having nothing to do, if a preemption never
    costs a job that was admitted before the one in need. -/
theorem Move.descends (move : Move w config s q s' q') (engine : w.OnlyDecodeThrows)
    (budget : 1 ≤ w.caps.nBatch) (batch : 0 < config.maxBatchSize) (layout : Layout w config s)
    (orderly : s.Orderly) (manned : s.Manned) (juniors : s.JuniorRuns) :
    standing config.maxBatchSize s' q' < standing config.maxBatchSize s q := by
  have slots := layout.slots.length_eq
  rw [List.length_append, List.length_range, seqs, List.length_map] at slots
  have room : s.active.length ≤ config.maxBatchSize := by omega
  have nodup := layout.nodup
  -- a request in hand has a free slot to go to
  have free : ∀ {job}, s.pc = .reserve job → s.active.length < config.maxBatchSize := by
    intro job pc
    obtain ⟨_, slot, rest, _, free⟩ := layout.hand job pc
    rw [free, List.length_cons] at slots
    omega
  have same : s'.active = s.active → s'.pc.starving = s.pc.starving →
      digits config.maxBatchSize s'.shown ≤ digits config.maxBatchSize s.shown :=
    fun active starving => le_of_eq (by rw [shown_eq (by rw [active]) starving])
  have around : ∀ {before after : List Job} {job job' : Job}, s.active = before ++ job :: after →
      job'.state = job.state →
      (before ++ job' :: after).map (fun job => (job.state.seq, job.state.toGo)) =
        s.active.map fun job => (job.state.seq, job.state.toGo) := by
    intro before after job job' here state
    simp [here, state]
  cases move with
  -- taking work
  | take pc open_ front =>
    apply lt_of_snd_lt
    · simp only [held_length, pc, front, List.length_append, List.length_cons, List.length_nil]
      omega
    · apply lt_of_fst_lt
      simp [front]
  | leave pc work | finish pc work =>
    apply standing_of_jump
    · rfl
    · rw [pc]; rfl
    · simp [held_length, pc, Pc.inHand]
    · simp [pc, Pc.untilSwept]
    · simp [pc, Pc.untilAccepted, work]
  -- admission
  | make pc next free begun =>
    apply standing_of_turn
    · rfl
    · left; rw [pc]; rfl
    · simp [held_length, pc, next, Pc.inHand]
    · exact phase_le rfl (by simp [pc, Pc.untilSwept]) (by simp [pc, Pc.untilAccepted])
    · simp [turns, pc, next]
      omega
  | makeCrash pc next free begun => exact absurd begun engine.begin_ne_error
  | admitted pc stop =>
    by_cases alone : s.active = []
    · -- all slots are free, so no request is left
      have none : s.pending = [] := by
        rcases stop with none | full
        · exact none
        · simp [full, alone] at slots
          omega
      apply standing_of_phase
      · simp [held_length, pc, alone, Pc.inHand]
      · exact same rfl (by simp [pc, alone, Pc.starving])
      · apply phase_lt_of_none
        · simp [someDone, alone]
        · simp [someDone, alone]
        · simp [pc, alone, none, idle, Pc.untilAccepted]
    · apply standing_of_jump
      · rfl
      · simp [pc, alone, Pc.starving]
      · simp [held_length, pc, alone, Pc.inHand]
      · simp [pc, alone, Pc.untilSwept]
      · simp [pc, alone, Pc.untilAccepted]
  | giveUp pc short evicted | reclaimDonor pc here full evicted =>
    -- nothing has changed but the cache, which has an entry less
    apply standing_of_spare
    · simp [held_length, pc]
    · exact same rfl rfl
    · exact Nat.le_refl _
    · exact Nat.le_refl _
    · exact Nat.add_lt_add_right (pairs_reclaim evicted) _
  | reject pc unfinished full alone =>
    apply standing_of_held
    simp [held_length, pc, Continuous.reject, Pc.inHand]
  | defer pc unfinished full busy =>
    apply standing_of_jump
    · rfl
    · simp [pc, busy, Continuous.defer, Pc.starving]
    · simp [held_length, pc, busy, Continuous.defer, Pc.inHand]
    · simp [pc, busy, Continuous.defer, Pc.untilSwept]
    · simp [pc, busy, Continuous.defer, Pc.untilAccepted]
  | placeFailed pc | place pc | adopt pc =>
    apply standing_of_join (free pc) (by rw [pc]; rfl) (by rfl) _ rfl
    simp [held_length, pc, Continuous.place, Pc.inHand]
    omega
  | adoptCrash pc fits same copied => exact absurd copied engine.copy_ne_error
  -- the batch
  | buildNothing pc nothing =>
    -- a job that runs would have been submitted for
    have done : s.someDone = true := by
      by_contra none
      obtain ⟨job, member⟩ := List.exists_mem_of_ne_nil _ (manned.building pc)
      have unfinished : job.state.finished = false := by
        cases finished : job.state.finished with
        | false => rfl
        | true => exact absurd (someDone_eq_true member finished) none
      exact buildBatch_items_ne_nil budget config member unfinished nothing
    apply standing_of_phase
    · simp [held_length, pc, length_batch, Pc.inHand]
    · exact shown_le (by rw [pc]; rfl) (batch_toGo w.caps.nBatch config nodup)
    · apply phase_lt_of_done
      · obtain ⟨job, member, finished⟩ := List.any_eq_true.mp done
        obtain ⟨job', member', served⟩ :=
          Lists.exists_of_forall₂_left (buildBatch_served w.caps.nBatch config nodup) member
        exact someDone_eq_true member' (served.frame.1.trans finished)
      · simp [pc, Pc.untilSwept]
  | decode pc something returned => exact standing_of_decode pc room nodup something rfl rfl rfl
  | decodeFail pc something threw =>
    apply standing_of_failAll
    · exact batch_toGo w.caps.nBatch config nodup
    · exact manned.building pc
    · rw [pc]; rfl
    · simp [held_length, pc, length_batch, Pc.inHand]
    · simp [pc, Pc.untilSwept]
  -- accepting the sampled tokens
  | acceptEnd pc | resolveEnd pc =>
    apply standing_of_jump
    · rfl
    · rw [pc]; rfl
    · simp [held_length, pc, Pc.inHand]
    · simp [pc, Pc.untilSwept]
    · simp [pc, Pc.untilAccepted]
  | acceptFail pc =>
    obtain ⟨job, member, _⟩ := mem_seqs.mp (manned.sampled _ _ _ pc _ List.mem_cons_self)
    apply standing_of_failAll
    · exact List.forall₂_same.mpr fun _ _ => ⟨rfl, Nat.le_refl _⟩
    · exact List.ne_nil_of_mem member
    · rw [pc]; rfl
    · simp [held_length, pc, Pc.inHand]
    · simp [pc, Pc.untilSwept]
  | acceptStray pc missing => exact absurd (manned.sampled _ _ _ pc _ List.mem_cons_self) missing
  | @acceptFinish sampling step steps grewShort before job after state port pc here accepted =>
    have ended := SequenceState.finish_finished (w := w)
      (SequenceState.accept_accepts accepted).finished_of_stops port
    have running := orderly.running job (by rw [here]; simp) (by simp [pc, Pc.running, Pc.sampled])
    apply standing_of_end room here rfl _ (fun _ _ => by rw [pc]; rfl) running ended
    · simp [pc, Pc.untilSwept]
    · simp [turns, pc]
    · simp [held_length, pc, here, Pc.inHand]
  | acceptStarve pc here accepted =>
    apply standing_of_token room nodup pc rfl here rfl _ (.inr rfl) (SequenceState.accept_accepts accepted)
    simp [held_length, pc, here, Pc.inHand]
  | acceptGrow pc here accepted =>
    apply standing_of_token room nodup pc rfl here rfl _ (.inl rfl) (SequenceState.accept_accepts accepted)
    simp [held_length, pc, here, Pc.inHand]
  | acceptPublish pc here accepted grown published =>
    subst published
    apply standing_of_token room nodup pc rfl here rfl _ (.inl rfl) (SequenceState.accept_accepts accepted)
    simp [held_length, pc, here, Pc.inHand]
  -- the sweeps
  | sweepRetire pc here =>
    apply standing_of_held
    simp [held_length, pc, here]
  | @sweepKeep starved before job after pc here =>
    apply standing_of_turn
    · rfl
    · left; rw [pc]; rfl
    · simp [held_length, pc, Pc.inHand]
    · cases starved <;>
        exact phase_le rfl (by simp [pc, Pc.untilSwept]) (by simp [pc, Pc.untilAccepted])
    · simp [turns, pc, here]
      omega
  | sweepResolve pc through =>
    have none := someDone_swept orderly pc through
    apply standing_of_phase
    · simp [held_length, pc, Pc.inHand]
    · exact same rfl (by rw [pc]; rfl)
    · exact phase_lt_of_none none none (by simp [pc, Pc.untilAccepted])
  | sweepLoop pc through =>
    have none := someDone_swept orderly pc through
    apply standing_of_phase
    · simp [held_length, pc, Pc.inHand]
    · exact same rfl (by rw [pc]; rfl)
    · apply phase_lt_of_none
      · exact none
      · exact none
      · simp only [pc, Pc.untilAccepted]
        split <;> omega
  -- making room for the starved jobs
  | resolveGone pc gone | reclaimGone pc gone | preemptGone pc gone | preemptEnd pc gone =>
    apply standing_of_turn
    · rfl
    · right; rw [pc]; exact ⟨_, rfl⟩
    · simp [held_length, pc, Pc.inHand]
    · exact phase_le rfl (by simp [pc, Pc.untilSwept]) (by simp [pc, Pc.untilAccepted])
    · simp [turns, pc]
  | @resolveFail starved before job after finished pc here large failed =>
    subst failed
    have running := orderly.running job (by rw [here]; simp) (by simp [pc, Pc.running, Pc.sampled])
    apply standing_of_end room here rfl _ _ running (SequenceState.finish_finished (w := w) rfl _)
    · simp [pc, Pc.untilSwept]
    · simp [turns, pc]
    · simp [held_length, pc, here, Pc.inHand]
    · intro j member
      simp [pc, Pc.starving, (seqs_around (here ▸ nodup)).1 j member]
  | resolveRoom pc here | reclaimEnd pc here =>
    apply standing_of_turn
    · rfl
    · left; rw [pc]; rfl
    · simp [held_length, pc, Pc.inHand]
    · exact phase_le rfl (by simp [pc, Pc.untilSwept]) (by simp [pc, Pc.untilAccepted])
    · simp only [turns, pc, List.length_cons]
      omega
  | reclaimGrow pc here grown =>
    apply standing_of_turn
    · exact around here rfl
    · left; rw [pc]; rfl
    · simp [held_length, pc, here, Pc.inHand]
    · exact phase_le (someDone_around here rfl rfl) (by simp [pc, Pc.untilSwept])
        (by simp [pc, Pc.untilAccepted])
    · simp [turns, pc]
  | preemptGrow pc here grown =>
    apply standing_of_turn
    · exact around here rfl
    · right; rw [pc]; exact ⟨_, rfl⟩
    · simp [held_length, pc, here, Pc.inHand]
    · exact phase_le (someDone_around here rfl rfl) (by simp [pc, Pc.untilSwept])
        (by simp [pc, Pc.untilAccepted])
    · simp [turns, pc]
  | @preemptEvict slot starved job before victim after pc starving named full here unfinished other last =>
    obtain ⟨front, middle, back, split⟩ :=
      juniors.behind layout pc starving named full here unfinished other last
    -- the victim has one place in the batch
    have whole : before ++ after = front ++ job :: (middle ++ back) := by
      have longer : s.active = (front ++ job :: middle) ++ victim :: back := by
        rw [split]
        simp
      obtain ⟨rfl, rfl⟩ := around_unique nodup here longer
      simp
    apply standing_of_evict
    · exact pc
    · rfl
    · exact named
    · exact split
    · exact whole
    · simp [held_length, pc, here]
      omega
    · exact unfinished
    · simp only [PrefixCache.evictSequence_pairs]
      exact List.length_filter_le _ _

end Continuous

end MicroVllm
