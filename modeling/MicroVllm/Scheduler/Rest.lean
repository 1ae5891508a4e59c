import MicroVllm.Scheduler.Cancellation
import MicroVllm.Scheduler.Turns

/-! # Coming to rest

What the scheduler thread comes to when it is left to itself.  One iteration of the continuous loop always
ends, whatever the engine does and however little room there is.  From iteration to iteration two jobs
can take the pool from each other, but not once their clients are gone: a job whose sink asks for no more
does not grow.  In static mode there is nothing to wait for but the clients.
-/

namespace MicroVllm

open Countdown Transition

namespace Server

/-! ## Turns of a thread -/

section Reaches

variable {τ α : Type} [Preorder α] [WellFoundedLT α] {m : Machine (Server τ) Event}
variable {step : τ → RequestQueue → Option (List Event × τ × RequestQueue)}

/-- A thread whose every turn gets it on, as long as it has not come to `goal`, comes to it or stops. -/
theorem reaches (steps : m.step = Step step) (measure : Server τ → α) (goal I : Server τ → Prop)
    (descends : ∀ past s events thread queue, m.Run past s → I s → ¬ goal s →
      step s.thread s.queue = some (events, thread, queue) →
      I { s with thread := thread, queue := queue } ∧
        measure { s with thread := thread, queue := queue } < measure s)
    {past : List Event} {s : Server τ} (run : m.Run past s) (holds : I s) :
    ∃ n past' t, play step (fun _ _ _ => true) (List.replicate n .run) past s = some (past', t) ∧
      m.Run past' t ∧ t.accepted = s.accepted ∧ I t ∧ (goal t ∨ step t.thread t.queue = none) := by
  generalize level : measure s = least
  induction least using WellFoundedLT.induction generalizing past s with
  | _ least ih =>
    by_cases there : goal s
    · exact ⟨0, past, s, rfl, run, rfl, holds, .inl there⟩
    · cases stepped : step s.thread s.queue with
      | none => exact ⟨0, past, s, rfl, run, rfl, holds, .inr stepped⟩
      | some next =>
        obtain ⟨events, thread, queue⟩ := next
        obtain ⟨kept, less⟩ := descends past s events thread queue run holds there stepped
        have after : m.Run (past ++ events) { s with thread := thread, queue := queue } :=
          run.next (steps ▸ .run stepped)
        obtain ⟨n, past', t, played, run', same, holds', ends⟩ := ih _ (level ▸ less) after kept rfl
        refine ⟨n + 1, past', t, ?_, run', same, holds', ends⟩
        simp only [List.replicate_succ, play, stepped, if_true]
        exact played

end Reaches

variable {σ : Type} {w : World σ} {config : SchedulerConfig} {capacity : Nat} {world : σ} {past : List Event}

theorem pop_eq_waits {q : RequestQueue} (waits : q.pop = .waits) : q.queue = [] ∧ q.closed = false := by
  unfold RequestQueue.pop at waits
  split at waits
  · cases waits
  · rename_i empty
    split at waits
    · cases waits
    · rename_i unclosed
      exact ⟨empty, by simpa using unclosed⟩

/-- A thread that cannot go on has nothing left to do. -/
theorem static_rests (engine : w.OnlyDecodeThrows) {t : Server (Static σ)}
    (run : (static w config capacity world).Run past t)
    (stops : t.thread.step w (config.construct w.caps) t.queue = none) :
    t.queue.queue = [] ∧ t.thread.held = [] ∧ (t.queue.closed = true ↔ t.thread.pc = .done) := by
  obtain ⟨_, drained⟩ := static_accounted engine run
  simp only [Static.step, Option.map_eq_none_iff, Static.turn] at stops
  split at stops
  case h_1 batch pc =>
    simp only [Static.collect] at stops
    split at stops
    · split at stops
      · rename_i waits
        obtain ⟨empty, unclosed⟩ := pop_eq_waits waits
        exact ⟨empty, by simp [Static.held, pc], by simp [unclosed, pc]⟩
      · cases stops
      · cases stops
    · split at stops
      · split at stops <;> cases stops
      · cases stops
  case h_8 pc => exact ⟨(drained pc).queue, (drained pc).held, by simp [(drained pc).closed, pc]⟩
  case h_9 message pc => exact absurd pc (static_alive engine run message)
  all_goals cases stops

theorem continuous_rests (engine : w.OnlyDecodeThrows) {t : Server (Continuous σ)}
    (run : (continuous w config capacity world).Run past t)
    (stops : t.thread.step w (config.construct w.caps) t.queue = none) :
    t.queue.queue = [] ∧ t.thread.held = [] ∧ (t.queue.closed = true ↔ t.thread.pc = .done) := by
  obtain ⟨_, drained⟩ := continuous_accounted engine run
  simp only [Continuous.step, Option.map_eq_none_iff, Continuous.turn] at stops
  split at stops
  case h_1 pc =>
    simp only [Continuous.takeWork] at stops
    split at stops
    · split at stops
      · rename_i idle
        split at stops
        · rename_i waits
          obtain ⟨empty, unclosed⟩ := pop_eq_waits waits
          simp only [Continuous.idle, decide_eq_true_eq] at idle
          exact ⟨empty, by simp [Continuous.held, Pc.inHand, pc, idle.1, idle.2], by simp [unclosed, pc]⟩
        · cases stops
        · cases stops
      · split at stops <;> cases stops
    · cases stops
  case h_10 pc => exact ⟨(drained pc).queue, (drained pc).held, by simp [(drained pc).closed, pc]⟩
  case h_11 message pc => exact absurd pc (continuous_alive engine run message)
  all_goals cases stops

/-- Where nothing is queued or held, everything accepted has been delivered. -/
theorem Accounted.all {τ : Type} {s : Server τ} {held : List Nat} (accounted : s.Accounted held past)
    (empty : s.queue.queue = []) (idle : held = []) : (fulfilled past).Perm (requestIds s.accepted) := by
  have whole := accounted.perm
  rwa [empty, idle] at whole

end Server

/-! ## One iteration -/

/-- How far the loop is from the top of its next iteration. -/
def Pc.stage : Pc → Nat
  | .takeWork | .done | .crashed _ => 0
  | .sweep _ none => 1
  | .resolve _ | .reclaim _ _ | .preempt _ _ => 2
  | .sweep _ (some _) => 3
  | .accept .. => 4
  | .build => 5
  | .admitNext | .reserve _ => 6

namespace Continuous

variable {σ : Type} {w : World σ} {config : SchedulerConfig} {s s' : Continuous σ} {q q' : RequestQueue}

/-- What is left of an iteration. -/
def round (s : Continuous σ) : ℕ ×ₗ ℕ ×ₗ ℕ := toLex (s.pc.stage, toLex (s.turns, s.spare))

theorem round_of_stage (less : s'.pc.stage < s.pc.stage) : s'.round < s.round := lt_of_fst_lt less

theorem round_of_turns (stage : s'.pc.stage ≤ s.pc.stage) (less : s'.turns < s.turns) : s'.round < s.round :=
  lt_of_snd_lt stage (lt_of_fst_lt less)

theorem round_of_spare (pc : s'.pc = s.pc) (turns : s'.turns ≤ s.turns) (less : s'.spare < s.spare) :
    s'.round < s.round := by
  refine lt_of_snd_lt ?_ (lt_of_snd_lt turns less)
  rw [pc]

/-- Every turn inside an iteration brings its end nearer. -/
theorem Move.round_lt (move : Move w config s q s' q') (inside : s.pc.stage ≠ 0) : s'.round < s.round := by
  cases move with
  | take pc | leave pc | finish pc => exact absurd (by rw [pc]; rfl) inside
  -- admission
  | make pc next free begun =>
    refine round_of_turns (by simp [pc, Pc.stage]) ?_
    simp [turns, pc, next]
    omega
  | makeCrash pc | adoptCrash pc => exact round_of_stage (by simp [pc, Pc.stage])
  | admitted pc | defer pc =>
    refine round_of_stage ?_
    simp only [pc, Continuous.defer]
    split <;> simp [Pc.stage]
  | giveUp pc short evicted | reclaimDonor pc here full evicted =>
    exact round_of_spare rfl (Nat.le_refl _) (Nat.add_lt_add_right (pairs_reclaim evicted) _)
  | reject pc | placeFailed pc | place pc | adopt pc =>
    exact round_of_turns (by simp [pc, Continuous.reject, Continuous.place, Pc.stage])
      (by simp [turns, pc, Continuous.reject, Continuous.place])
  -- the batch
  | buildNothing pc | decode pc | decodeFail pc =>
    exact round_of_stage (by simp [pc, Continuous.failAll, Pc.stage])
  -- accepting the sampled tokens
  | acceptEnd pc | acceptFail pc => exact round_of_stage (by simp [pc, Continuous.failAll, Pc.stage])
  | acceptStray pc | acceptFinish pc | acceptStarve pc | acceptGrow pc | acceptPublish pc =>
    exact round_of_turns (by simp [pc, Pc.stage]) (by simp [turns, pc])
  -- the sweeps
  | sweepRetire pc here =>
    exact round_of_turns (Nat.le_refl _) (by simp [turns, pc, here])
  | @sweepKeep starved before job after pc here =>
    refine round_of_turns ?_ ?_
    · cases starved <;> simp [pc, Pc.stage]
    · simp [turns, pc, here]
      omega
  | sweepResolve pc | sweepLoop pc | resolveEnd pc => exact round_of_stage (by simp [pc, Pc.stage])
  -- making room for the starved jobs
  | resolveGone pc | resolveFail pc | resolveRoom pc | reclaimGone pc | reclaimGrow pc | reclaimEnd pc
  | preemptGone pc | preemptGrow pc | preemptEnd pc =>
    refine round_of_turns (by simp [pc, Pc.stage]) ?_
    simp only [turns, pc, List.length_cons]
    omega
  | @preemptEvict slot starved job before victim after pc _ _ _ here =>
    refine round_of_spare rfl ?_ ?_
    · simp [turns, pc]
    · have fewer : (s.prefixCache.evictSequence victim.state.seq).pairs.length ≤ s.prefixCache.pairs.length := by
        rw [PrefixCache.evictSequence_pairs]
        exact List.length_filter_le _ _
      simp only [spare, here, List.length_append, List.length_cons]
      omega

end Continuous

namespace Server

variable {σ : Type} {w : World σ} {config : SchedulerConfig} {capacity : Nat} {world : σ}
variable {past : List Event} {s : Server (Continuous σ)}

/-- An iteration comes to its end. -/
theorem ends_iteration (run : (continuous w config capacity world).Run past s) :
    ∃ n past' t, alone w config n past s = some (past', t) ∧
      (continuous w config capacity world).Run past' t ∧ t.accepted = s.accepted ∧
      t.queue.closed = s.queue.closed ∧ t.thread.pc.stage = 0 := by
  obtain ⟨n, past', t, played, run', same, closed, there | stopped⟩ :=
    reaches (m := continuous w config capacity world) rfl (fun t => t.thread.round)
      (fun t => t.thread.pc.stage = 0) (fun t => t.queue.closed = s.queue.closed) (by
        intro past t events thread queue run closed inside stepped
        have settled := settled_run run
        obtain ⟨_, move, _, rfl⟩ :=
          Continuous.step_move (config.construct_maxBatchSize_pos w.caps) settled.layout stepped
        exact ⟨(Move.closed move).trans closed, move.round_lt inside⟩) run rfl
  · exact ⟨n, past', t, played, run', same, closed, there⟩
  · refine ⟨n, past', t, played, run', same, closed, ?_⟩
    -- the thread stops only at the top of the loop or outside of it
    simp only [Continuous.step, Option.map_eq_none_iff, Continuous.turn] at stopped
    split at stopped
    case h_1 pc => rw [pc]; rfl
    case h_10 pc => rw [pc]; rfl
    case h_11 pc => rw [pc]; rfl
    all_goals cases stopped

/-- So does the loop at its top, unless there is nothing to take. -/
theorem leaves_top (run : (continuous w config capacity world).Run past s) :
    ∃ n past' t, alone w config n past s = some (past', t) ∧
      (t.thread.pc ≠ .takeWork ∨ Continuous.step w (config.construct w.caps) t.thread t.queue = none) := by
  obtain ⟨n, past', t, played, _, _, _, ends⟩ := reaches (m := continuous w config capacity world) rfl
    (fun s => s.queue.queue.length + if s.thread.pc = .takeWork then 1 else 0) (fun s => s.thread.pc ≠ .takeWork)
    (fun _ => True) (by
      intro past s events thread queue run _ inside stepped
      have settled := settled_run run
      have positive := config.construct_maxBatchSize_pos w.caps
      obtain ⟨_, move, _, rfl⟩ := Continuous.step_move positive settled.layout stepped
      rw [not_not] at inside
      refine ⟨trivial, ?_⟩
      cases move with
      | take _ _ front => simp [front, inside, Continuous.quiet]
      | leave | finish => simp [inside, Continuous.quiet]
      | _ pc => rw [inside] at pc; cases pc) run trivial
  exact ⟨n, past', t, played, ends⟩

/-! ## Clients that are gone -/

/-- What has been emitted before makes no difference to the thread. -/
theorem alone_past (n : Nat) (past : List Event) (s : Server (Continuous σ)) :
    alone w config n past s = (alone w config n [] s).map fun r => (past ++ r.1, r.2) := by
  have shifted : alone w config n (past ++ []) s = _ := play_past (List.replicate n .run) past [] s
  rwa [List.append_nil] at shifted

theorem alone_add (n k : Nat) (past : List Event) (s : Server (Continuous σ)) :
    alone w config (n + k) past s = (alone w config n past s).bind fun r => alone w config k r.1 r.2 := by
  unfold alone
  rw [List.replicate_add, play_append]

/-- From here on, whenever the thread asks a sink, it is told that the request is cancelled. -/
def Dismissed (w : World σ) (config : SchedulerConfig) (s : Server (Continuous σ)) : Prop :=
  ∀ n past t id, alone w config n [] s = some (past, t) → t.thread.asks w ≠ some (id, false)

theorem Dismissed.later (dismissed : s.Dismissed w config) {n : Nat} {past past' : List Event}
    {t : Server (Continuous σ)} (turned : alone w config n past s = some (past', t)) : t.Dismissed w config := by
  intro k past'' u id further
  rw [alone_past] at turned
  obtain ⟨⟨before, t'⟩, first, same⟩ := Option.map_eq_some_iff.mp turned
  cases same
  refine dismissed (n + k) (before ++ past'') u id ?_
  rw [alone_add, first, Option.bind_some, alone_past, further]
  rfl

end Server

/-- A token that lets its sequence go on was asked about. -/
theorem SequenceState.accept_goesOn_asks {σ : Type} {w : World σ} {s s' : SequenceState} {step : GenStep}
    {port port' : Port σ} (accepted : s.accept w step port = (true, s', port')) :
    s.asks w step port = some false := by
  unfold accept at accepted
  split at accepted
  · cases accepted
  · rename_i unfinished
    split at accepted
    · cases accepted
    · rename_i more
      split at accepted
      · cases accepted
      · rename_i left
        simp only at accepted
        split at accepted
        · cases accepted
        · rename_i clear
          split at accepted
          · cases accepted
          · rename_i answer
            unfold asks
            rw [if_neg (by simp [unfinished, more, left])]
            simp only [clear]
            simpa using answer

/-- If no job goes on, none comes to starve. -/
theorem Continuous.Move.unstarved {σ : Type} {w : World σ} {config : SchedulerConfig} {s s' : Continuous σ}
    {q q' : RequestQueue} (move : Move w config s q s' q') (layout : Layout w config s)
    (dismissed : ∀ id, s.asks w ≠ some (id, false)) (nobody : s.pc.starving = []) : s'.pc.starving = [] := by
  cases move with
  | take | giveUp | sweepRetire | reclaimDonor | preemptEvict => exact nobody
  | leave | finish | make | makeCrash | reject | placeFailed | place | adopt | adoptCrash | buildNothing | decode
  | decodeFail | sweepLoop | resolveEnd => rfl
  | admitted | defer => simp only [Continuous.defer]; split <;> rfl
  | acceptStarve pc here accepted =>
    exact absurd (asks_around layout pc here (SequenceState.accept_goesOn_asks accepted)) (dismissed _)
  | acceptEnd pc | acceptFail pc | acceptStray pc | acceptFinish pc | acceptGrow pc | acceptPublish pc
  | sweepKeep pc | sweepResolve pc =>
    rw [pc] at nobody
    exact nobody
  | resolveGone pc | resolveFail pc | resolveRoom pc | reclaimGone pc | reclaimGrow pc | reclaimEnd pc | preemptGone pc
  | preemptGrow pc | preemptEnd pc =>
    rw [pc] at nobody
    cases nobody

namespace Server

variable {σ : Type} {w : World σ} {config : SchedulerConfig} {capacity : Nat} {world : σ}
variable {past : List Event} {s : Server (Continuous σ)}

/-- Left to itself with no client to go on for, the thread runs out of work. -/
theorem rests_dismissed (engine : w.OnlyDecodeThrows) (budget : 1 ≤ w.caps.nBatch)
    (run : (continuous w config capacity world).Run past s) (dismissed : s.Dismissed w config)
    (nobody : s.thread.pc.starving = []) :
    ∃ n past' t, alone w config n past s = some (past', t) ∧ (continuous w config capacity world).Run past' t ∧
      t.accepted = s.accepted ∧ t.queue.closed = s.queue.closed ∧
      t.thread.step w (config.construct w.caps) t.queue = none := by
  obtain ⟨n, past', t, turns, run', same, ⟨_, _, closed⟩, never | stops⟩ :=
    reaches (m := continuous w config capacity world) rfl
      (fun t => t.thread.standing (config.construct w.caps).maxBatchSize t.queue) (fun _ => False)
      (fun t => t.thread.pc.starving = [] ∧ t.Dismissed w config ∧ t.queue.closed = s.queue.closed) (by
        rintro past t events thread queue run ⟨nobody, dismissed, closed⟩ _ stepped
        have settled := settled_run run
        have positive := config.construct_maxBatchSize_pos w.caps
        have turned : alone w config 1 past t = some (past ++ events, { t with thread := thread, queue := queue }) :=
          alone_succ stepped
        obtain ⟨thread', move, _, rfl⟩ := Continuous.step_move positive settled.layout stepped
        -- nobody starves, so nobody is preempted
        have juniors : t.thread.JuniorRuns := by
          unfold Continuous.JuniorRuns
          split
          · rename_i pc
            simp [pc, Pc.starving] at nobody
          · trivial
        refine ⟨⟨?_, dismissed.later turned, (Move.closed move).trans closed⟩, ?_⟩
        · exact move.unstarved settled.layout (fun id => dismissed 0 [] t id rfl) nobody
        · exact move.descends engine budget positive settled.layout (orderly_run run) (manned_run run) juniors)
      run ⟨nobody, dismissed, rfl⟩
  · exact never.elim
  · exact ⟨n, past', t, turns, run', same, closed, stops⟩

end Server

/-- An iteration of the continuous loop ends, whatever the engine does and however little room there is:
    from wherever the thread stands in it, finitely many turns bring it back to the top, or out of the
    loop; and at the top it takes up the queue and goes on, unless there is nothing to wait for but clients. -/
theorem iteration_ends {σ : Type} (w : World σ) (config : SchedulerConfig) (capacity : Nat) (world : σ)
    (past : List Event) (s : Server (Continuous σ)) (run : (Server.continuous w config capacity world).Run past s) :
    (s.thread.pc ≠ .takeWork → ∃ n past' t, Server.alone w config n past s = some (past', t) ∧
      (t.thread.pc = .takeWork ∨ t.thread.pc = .done ∨ ∃ message, t.thread.pc = .crashed message)) ∧
    (s.thread.pc = .takeWork → ∃ n past' t, Server.alone w config n past s = some (past', t) ∧
      (t.thread.pc ≠ .takeWork ∨ Continuous.step w (config.construct w.caps) t.thread t.queue = none)) := by
  refine ⟨fun _ => ?_, fun _ => Server.leaves_top run⟩
  obtain ⟨n, past', t, turns, _, _, _, top⟩ := Server.ends_iteration run
  refine ⟨n, past', t, turns, ?_⟩
  cases pc : t.thread.pc with
  | takeWork => exact .inl rfl
  | done => exact .inr (.inl rfl)
  | crashed message => exact .inr (.inr ⟨message, rfl⟩)
  | sweep _ starved => cases starved <;> simp [pc, Pc.stage] at top
  | _ => simp [pc, Pc.stage] at top

/-- Of the three requests that hold each other up for good, an iteration ends all the same. -/
theorem iteration_ends_rivals :
    ∃ past s n past' t, (Server.continuous .tireless .rivals 4 ()).Run past s ∧ s.thread.pc = .preempt 0 [] ∧
      Server.alone .tireless .rivals n past s = some (past', t) ∧
      (t.thread.pc = .takeWork ∨ t.thread.pc = .done ∨ ∃ message, t.thread.pc = .crashed message) := by
  obtain ⟨past, s, run, starved⟩ : ∃ past s,
      (Server.continuous .tireless .rivals 4 ()).Run past s ∧ s.thread.pc = .preempt 0 [] :=
    Server.exists_run ([.push { id := 0, spec := { prompt := [1], maxTokens := 1 } },
      .push { id := 1, spec := { prompt := [1], maxTokens := 4 } },
      .push { id := 2, spec := { prompt := [1], maxTokens := 4 } }] ++ List.replicate 58 .run) rfl rfl
      (by decide +kernel)
  obtain ⟨n, past', t, ended⟩ := (iteration_ends .tireless .rivals 4 () past s run).1 (by rw [starved]; exact nofun)
  exact ⟨past, s, n, past', t, run, starved, ended⟩

/-- Once no client wants more, the server comes to rest, even from a state in which it would go round
    for good: with an engine that throws in `decode` at most and takes at least one token a call, if from
    here on every sink that is asked asks to stop, then after finitely many turns the thread has delivered
    every request it ever accepted, and it has returned if the queue is closed. -/
theorem rests_once_dismissed {σ : Type} (w : World σ) (config : SchedulerConfig) (capacity : Nat) (world : σ)
    (engine : w.OnlyDecodeThrows) (budget : 1 ≤ w.caps.nBatch) (past : List Event)
    (s : Server (Continuous σ)) (run : (Server.continuous w config capacity world).Run past s)
    (dismissed : s.Dismissed w config) :
    ∃ n past' t, Server.alone w config n past s = some (past', t) ∧
      (fulfilled past').Perm (requestIds s.accepted) ∧ t.thread.held = [] ∧
      Continuous.step w (config.construct w.caps) t.thread t.queue = none ∧
      (s.queue.closed = true → t.thread.pc = .done) := by
  -- the iteration it is in may still preempt; no later one does
  obtain ⟨n, past₁, u, first, run₁, same₁, closed₁, top⟩ := Server.ends_iteration run
  have nobody : u.thread.pc.starving = [] := by
    cases pc : u.thread.pc with
    | sweep _ starved => cases starved <;> simp [pc, Pc.stage] at top
    | _ => simp [pc, Pc.stage, Pc.starving] at top ⊢
  obtain ⟨k, past₂, t, second, run₂, same₂, closed₂, stops⟩ :=
    Server.rests_dismissed engine budget run₁ (dismissed.later first) nobody
  obtain ⟨empty, idle, returned⟩ := Server.continuous_rests engine run₂ stops
  refine ⟨n + k, past₂, t, ?_, ?_, idle, stops, fun closed => returned.mp ?_⟩
  · rw [Server.alone_add, first]
    exact second
  · rw [← same₁, ← same₂]
    exact (Server.continuous_accounted engine run₂).1.all empty idle
  · rw [closed₂, closed₁, closed]

/-- The same engine, whose clients leave when it has been called seven times. -/
def World.impatient : World Nat where
  caps := World.tireless.caps
  tokenize := World.tireless.tokenize
  tokenize_length := World.tireless.tokenize_length
  piece _ := []
  beginSequence _ _ calls := (.ok (), calls)
  decode items calls := ((World.tireless.decode items ()).1, calls + 1)
  releaseSequence _ calls := calls
  copySequence _ _ _ calls := (.ok (), calls)
  onText _ _ calls := calls
  onFinish _ _ _ calls := calls
  onError _ _ calls := calls
  cancelled _ calls := 7 ≤ calls

theorem World.impatient_onlyDecodeThrows : World.impatient.OnlyDecodeThrows where
  begins _ _ _ := rfl
  copies _ _ _ _ := rfl

/-- The rivals, in the middle of taking the pool from each other when their clients leave. -/
theorem rests_once_dismissed_rivals :
    ∃ past s n past' t, (Server.continuous .impatient .rivals 4 0).Run past s ∧ s.thread.pc = .preempt 1 [] ∧
      s.accepted.map Request.id = [0, 1, 2] ∧ Server.alone .impatient .rivals n past s = some (past', t) ∧
      (fulfilled past').Perm (requestIds s.accepted) ∧ t.thread.pc = .done := by
  obtain ⟨past, s, run, starved, closed, pushed, asked⟩ : ∃ past s,
      (Server.continuous .impatient .rivals 4 0).Run past s ∧ (s.thread.pc = .preempt 1 [] ∧
        s.queue.closed = true ∧ s.accepted.map Request.id = [0, 1, 2] ∧
        ((Server.play (Continuous.step .impatient (SchedulerConfig.rivals.construct World.impatient.caps))
          (fun s _ _ => decide (((s.thread.asks .impatient).all fun asked => asked.2) = true))
          (List.replicate 19 .run) [] s).any fun r => ((r.2.thread.asks .impatient).all fun asked => asked.2) &&
              (Continuous.step .impatient (SchedulerConfig.rivals.construct World.impatient.caps)
                r.2.thread r.2.queue).isNone) = true) :=
    Server.exists_run ([.push { id := 0, spec := { prompt := [1], maxTokens := 1 } },
      .push { id := 1, spec := { prompt := [1], maxTokens := 4 } },
      .push { id := 2, spec := { prompt := [1], maxTokens := 4 } }, .close] ++ List.replicate 89 .run) rfl rfl
      (by decide +kernel)
  obtain ⟨⟨past', t⟩, played, last⟩ := (Option.any_eq_true _ _).mp asked
  simp only [Bool.and_eq_true, Option.isNone_iff_eq_none] at last
  have dismissed : s.Dismissed .impatient .rivals := by
    intro n past' t id later refused
    have heeded := Server.forall_of_play (P := fun s : Server (Continuous Nat) =>
      ((s.thread.asks .impatient).all fun asked => asked.2) = true) played last.2 last.1 n past' t later
    simp [refused] at heeded
  obtain ⟨n, past', t, turns, all, _, _, returned⟩ := rests_once_dismissed .impatient .rivals 4 0
    World.impatient_onlyDecodeThrows (by decide) past s run dismissed
  exact ⟨past, s, n, past', t, run, starved, pushed, turns, all, returned closed⟩

/-! ## Static mode -/

/-- How far the loop is from the next batch. -/
def StaticPc.stage : StaticPc → Nat
  | .done | .crashed _ => 0
  | .collect [] => 1
  | .collect _ => 3
  | _ => 2

namespace Static

variable {σ : Type} {w : World σ} {config : SchedulerConfig} {s s' : Static σ} {q q' : RequestQueue}

theorem stage_of_batching {pc : StaticPc} (inside : pc.batching = true) : pc.stage = 2 := by
  cases pc with
  | collect | done | crashed => cases inside
  | _ => rfl

theorem Move.queue_of_batching (move : Move w config s q s' q') (inside : s.pc.batching = true) : q' = q := by
  cases move with
  | collect pc => simp [pc, StaticPc.batching] at inside
  | _ => rfl

/-- What is left to do for the requests that are there. -/
def ahead (w : World σ) (s : Static σ) (q : RequestQueue) : ℕ ×ₗ ℕ ×ₗ ℕ :=
  toLex (q.queue.length, toLex (s.pc.stage, s.left w))

theorem Move.ahead_lt (move : Move w config s q s' q') (engine : w.OnlyDecodeThrows) (layout : Layout s)
    (attending : s.Attending) : s'.ahead w q' < s.ahead w q := by
  by_cases inside : s.pc.batching = true
  · rw [move.queue_of_batching inside]
    refine lt_of_snd_lt (Nat.le_refl _) ?_
    rcases move.batching inside engine with still | ended
    · refine lt_of_snd_lt ?_ (move.left_lt layout attending inside)
      rw [stage_of_batching still, stage_of_batching inside]
    · refine lt_of_fst_lt ?_
      rw [ended, stage_of_batching inside]
      exact Nat.one_lt_two
  · cases move with
    | collect pc front => exact lt_of_fst_lt (by simp [front])
    | finish pc => exact lt_of_snd_lt (Nat.le_refl _) (lt_of_fst_lt (by simp [pc, StaticPc.stage]))
    | @form batch pc some =>
      refine lt_of_snd_lt (Nat.le_refl _) (lt_of_fst_lt ?_)
      cases batch with
      | nil => exact absurd rfl some
      | cons => simp [pc, StaticPc.stage]
    | acceptEnd loop pc | acceptFail loop pc | acceptStray loop pc | acceptGoOn loop pc | acceptFinish loop pc =>
      cases loop <;> exact absurd (by rw [pc]; rfl) inside
    | _ pc => exact absurd (by rw [pc]; rfl) inside

theorem Move.closed (move : Move w config s q s' q') : q'.closed = q.closed := by
  cases move <;> rfl

end Static

/-- In static mode, with an engine that throws in `decode` at most, the server comes to rest from every
    state it can be in: after finitely many turns in which nothing is pushed the thread has delivered every
    request it ever accepted, and waits for the next one, or has returned if the queue is closed. -/
theorem static_rests_always {σ : Type} (w : World σ) (config : SchedulerConfig) (capacity : Nat) (world : σ)
    (engine : w.OnlyDecodeThrows) (past : List Event) (s : Server (Static σ))
    (run : (Server.static w config capacity world).Run past s) :
    ∃ n past' t, Server.play (Static.step w (config.construct w.caps)) (fun _ _ _ => true)
        (List.replicate n .run) past s = some (past', t) ∧
      (fulfilled past').Perm (requestIds s.accepted) ∧ t.thread.held = [] ∧
      Static.step w (config.construct w.caps) t.thread t.queue = none ∧
      (s.queue.closed = true ↔ t.thread.pc = .done) := by
  obtain ⟨n, past', t, turns, run', same, closed, never | stops⟩ :=
    Server.reaches (m := Server.static w config capacity world) rfl (fun t => t.thread.ahead w t.queue)
      (fun _ => False) (fun t => t.queue.closed = s.queue.closed) (by
        intro past t events thread queue run closed _ stepped
        have settled := Server.settledStatic_run run
        obtain ⟨_, move, _, rfl⟩ := Static.step_move settled.layout stepped
        exact ⟨move.closed.trans closed, move.ahead_lt engine settled.layout (Server.attending_run run)⟩) run rfl
  · exact never.elim
  · obtain ⟨empty, idle, returned⟩ := Server.static_rests engine run' stops
    refine ⟨n, past', t, turns, ?_, idle, stops, by rw [← returned, closed]⟩
    rw [← same]
    exact (Server.static_accounted engine run').1.all empty idle

/-- Two requests in static mode, of which one has been taken for a batch. -/
theorem static_rests_always_letter :
    ∃ past s n past' t, (Server.static Script.letter.world (.pair 6) 4 fun _ => none).Run past s ∧
      s.accepted.map Request.id = [0, 1] ∧ s.queue.queue.length = 1 ∧ s.queue.closed = false ∧
      Server.play (Static.step Script.letter.world ((SchedulerConfig.pair 6).construct Script.letter.world.caps))
        (fun _ _ _ => true) (List.replicate n .run) past s = some (past', t) ∧
      (fulfilled past').Perm (requestIds s.accepted) ∧ t.thread.held = [] ∧ t.thread.pc ≠ .done := by
  obtain ⟨past, s, run, pushed, waiting, unclosed⟩ : ∃ past s,
      (Server.static Script.letter.world (.pair 6) 4 fun _ => none).Run past s ∧
      (s.accepted.map Request.id = [0, 1] ∧ s.queue.queue.length = 1 ∧ s.queue.closed = false) :=
    Server.exists_run [.push { id := 0, spec := { prompt := [1], maxTokens := 4 } },
      .push { id := 1, spec := { prompt := [1], maxTokens := 4 } }, .run] rfl rfl (by decide +kernel)
  obtain ⟨n, past', t, turns, all, idle, _, returned⟩ := static_rests_always Script.letter.world (.pair 6) 4
    (fun _ => none) Script.letter.world_onlyDecodeThrows past s run
  refine ⟨past, s, n, past', t, run, pushed, waiting, unclosed, turns, all, idle, fun done => ?_⟩
  simp [unclosed] at returned
  exact returned done

end MicroVllm
