import MicroVllm.Scheduler.Delivery
import MicroVllm.Scheduler.Progress

/-! # Shutting down

Once the queue is closed nobody but the scheduler thread does anything, and its turns follow one
another without a choice.  If none of them preempts a job that was admitted before the starved one,
the thread runs out of work after finitely many turns, with every request delivered.  If some do,
two jobs can take the pool from each other for ever.
-/

namespace MicroVllm

namespace Server

/-! ## The thread on its own -/

section Play

variable {τ : Type} {step : τ → RequestQueue → Option (List Event × τ × RequestQueue)}
variable {ok : Server τ → List Event → Server τ → Bool} {past : List Event} {s : Server τ}

theorem play_append (first second : List Action) (past : List Event) (s : Server τ) :
    play step ok (first ++ second) past s =
      (play step ok first past s).bind fun r => play step ok second r.1 r.2 := by
  induction first generalizing past s with
  | nil => rfl
  | cons action first ih =>
    cases action with
    | push request =>
      simp only [List.cons_append, play]
      split
      · exact ih past (s.push request)
      · rfl
    | close =>
      simp only [List.cons_append, play]
      split
      · exact ih past s.close
      · rfl
    | run =>
      simp only [List.cons_append, play]
      split
      · rfl
      · split
        · exact ih _ _
        · rfl

/-- What has been emitted before makes no difference. -/
theorem play_past (actions : List Action) (before past : List Event) (s : Server τ) :
    play step ok actions (before ++ past) s =
      (play step ok actions past s).map fun r => (before ++ r.1, r.2) := by
  induction actions generalizing past s with
  | nil => rfl
  | cons action actions ih =>
    cases action with
    | push request =>
      simp only [play]
      split
      · exact ih past (s.push request)
      · rfl
    | close =>
      simp only [play]
      split
      · exact ih past s.close
      · rfl
    | run =>
      simp only [play]
      split
      · rfl
      · split
        · rw [List.append_assoc]
          exact ih _ _
        · rfl

/-- A schedule that can be played under a guard can be played without. -/
theorem play_free {actions : List Action} {past past' : List Event} {s t : Server τ}
    (played : play step ok actions past s = some (past', t)) :
    play step (fun _ _ _ => true) actions past s = some (past', t) := by
  induction actions generalizing past s with
  | nil => exact played
  | cons action actions ih =>
    cases action with
    | push request =>
      simp only [play, and_true] at played ⊢
      split at played
      · rename_i fits
        rw [if_pos fits.1]
        exact ih played
      · cases played
    | close =>
      simp only [play, if_true] at played ⊢
      split at played
      · exact ih played
      · cases played
    | run =>
      simp only [play, if_true] at played ⊢
      split at played
      · cases played
      · split at played
        · exact ih played
        · cases played

/-- A property of the states a guarded schedule of turns goes through holds after any number of
    turns, if the thread stops where the schedule ends. -/
theorem forall_of_play {P : Server τ → Prop} [∀ s, Decidable (P s)] {n : Nat} {past past' : List Event}
    {s t : Server τ}
    (played : play step (fun s _ _ => P s) (List.replicate n .run) past s = some (past', t))
    (stops : step t.thread t.queue = none) (last : P t) :
    ∀ k past'' u, play step (fun _ _ _ => true) (List.replicate k .run) past s = some (past'', u) → P u := by
  induction n generalizing past s with
  | zero =>
    cases played
    intro k past'' u free
    cases k with
    | zero =>
      cases free
      exact last
    | succ k => simp [List.replicate_succ, play, stops] at free
  | succ n ih =>
    simp only [List.replicate_succ, play] at played
    split at played
    · cases played
    · rename_i events thread queue stepped
      split at played
      · rename_i holds
        intro k past'' u free
        cases k with
        | zero =>
          cases free
          exact of_decide_eq_true holds
        | succ k =>
          simp only [List.replicate_succ, play, stepped, if_true] at free
          exact ih played k past'' u free
      · cases played

/-- A thread that comes back to where it was goes on for ever. -/
theorem forever_of_play {P : Server τ → Prop} [∀ s, Decidable (P s)] {n : Nat} {more : List Event}
    {s : Server τ}
    (cycle : play step (fun s _ _ => P s) (List.replicate (n + 1) .run) [] s = some (more, s)) :
    ∀ k past, ∃ past' t,
      play step (fun _ _ _ => true) (List.replicate k .run) past s = some (past', t) ∧ P t := by
  intro k
  induction k using Nat.strong_induction_on with
  | _ k ih =>
    intro past
    have round : ∀ past, play step (fun s _ _ => P s) (List.replicate (n + 1) .run) past s =
        some (past ++ more, s) := by
      intro past
      have shifted : play step (fun s _ _ => P s) (List.replicate (n + 1) .run) (past ++ []) s = _ :=
        play_past (List.replicate (n + 1) .run) past [] s
      rw [List.append_nil, cycle] at shifted
      exact shifted
    by_cases within : k ≤ n
    · -- inside the cycle the next turn is guarded as well
      obtain ⟨left, split⟩ := Nat.exists_eq_add_of_le within
      have whole := round past
      rw [show n + 1 = k + (left + 1) by omega, List.replicate_add, play_append] at whole
      obtain ⟨⟨past', t⟩, played, rest⟩ := Option.bind_eq_some_iff.mp whole
      refine ⟨past', t, play_free played, ?_⟩
      simp only [List.replicate_succ, play] at rest
      split at rest
      · cases rest
      · split at rest
        · rename_i holds
          exact of_decide_eq_true holds
        · cases rest
    · obtain ⟨past', t, played, holds⟩ := ih (k - (n + 1)) (by omega) (past ++ more)
      refine ⟨past', t, ?_, holds⟩
      rw [show k = (n + 1) + (k - (n + 1)) by omega, List.replicate_add, play_append, play_free (round past)]
      exact played

end Play

variable {σ : Type} {w : World σ} {config : SchedulerConfig} {capacity : Nat} {world : σ}
variable {past past' : List Event} {s t : Server (Continuous σ)}

/-- The server after `n` turns of the thread in which nobody else does anything. -/
def alone (w : World σ) (config : SchedulerConfig) (n : Nat) (past : List Event)
    (s : Server (Continuous σ)) : Option (List Event × Server (Continuous σ)) :=
  play (Continuous.step w (config.construct w.caps)) (fun _ _ _ => true) (List.replicate n .run) past s

theorem alone_succ {n : Nat} {events : List Event} {thread : Continuous σ} {queue : RequestQueue}
    (stepped : Continuous.step w (config.construct w.caps) s.thread s.queue = some (events, thread, queue)) :
    alone w config (n + 1) past s =
      alone w config n (past ++ events) { s with thread := thread, queue := queue } := by
  simp only [alone, List.replicate_succ, play, stepped, if_true]

theorem manned_run (run : (continuous w config capacity world).Run past s) : s.thread.Manned := by
  refine continuous_thread_invariant ?_ ?_ run.guarded_true
  · exact ⟨by simp [Continuous.start], by simp [Continuous.start]⟩
  · intro past s thread queue _ _ manned move _
    have after := manned.move move
    exact ⟨after.building, after.sampled⟩

theorem Move.closed {thread : Continuous σ} {queue : RequestQueue}
    (move : Continuous.Move w config s.thread s.queue thread queue) : queue.closed = s.queue.closed := by
  cases move <;> rfl

/-- With the queue closed the thread stops only where it returns. -/
theorem stopped_done (engine : w.OnlyDecodeThrows) (run : (continuous w config capacity world).Run past s)
    (closed : s.queue.closed = true)
    (stops : Continuous.step w (config.construct w.caps) s.thread s.queue = none) : s.thread.pc = .done := by
  simp only [Continuous.step, Option.map_eq_none_iff, Continuous.turn] at stops
  split at stops
  case h_1 pc =>
    -- `pop` does not wait on a closed queue
    have awake : s.queue.pop ≠ .waits := by
      simp only [RequestQueue.pop, closed, if_true]
      split <;> simp
    simp only [Continuous.takeWork] at stops
    split at stops
    · split at stops
      · split at stops
        · rename_i waits
          exact absurd waits awake
        · cases stops
        · cases stops
      · split at stops <;> cases stops
    · cases stops
  case h_10 pc => exact pc
  case h_11 message pc => exact absurd pc (continuous_alive engine run message)
  all_goals cases stops

/-- The thread runs out of work. -/
theorem settles (engine : w.OnlyDecodeThrows) (budget : 1 ≤ w.caps.nBatch)
    (run : (continuous w config capacity world).Run past s) (closed : s.queue.closed = true)
    (juniors : ∀ n past' t, alone w config n past s = some (past', t) → t.thread.JuniorRuns) :
    ∃ n past' t, alone w config n past s = some (past', t) ∧ (continuous w config capacity world).Run past' t ∧
      t.accepted = s.accepted ∧ t.thread.pc = .done := by
  -- every turn lowers the standing
  generalize level : s.thread.standing (config.construct w.caps).maxBatchSize s.queue = standing
  induction standing using WellFoundedLT.induction generalizing past s with
  | _ standing ih =>
    cases stepped : Continuous.step w (config.construct w.caps) s.thread s.queue with
    | none => exact ⟨0, past, s, rfl, run, rfl, stopped_done engine run closed stepped⟩
    | some next =>
      obtain ⟨events, thread, queue⟩ := next
      have settled := settled_run run
      have positive := config.construct_maxBatchSize_pos w.caps
      have after := run.next (.run stepped)
      obtain ⟨thread', move, rfl, rfl⟩ := Continuous.step_move positive settled.layout stepped
      have less := move.descends engine budget positive settled.layout (orderly_run run) (manned_run run)
        (juniors 0 past s rfl)
      obtain ⟨n, past', t, turns, run', same, done⟩ := ih _ (level ▸ less) after
        ((Move.closed move).trans closed)
        (fun n past' t later => juniors (n + 1) past' t ((alone_succ stepped).trans later)) rfl
      exact ⟨n + 1, past', t, (alone_succ stepped).trans turns, run', same, done⟩

end Server

/-- From every state a server can be in with its queue closed: if every preemption from there on finds
    a running job that was admitted after the starved one, then after finitely many turns the thread
    has returned, with no job active or pending and every request delivered. -/
theorem no_livelock {σ : Type} (w : World σ) (config : SchedulerConfig) (capacity : Nat) (world : σ)
    (engine : w.OnlyDecodeThrows) (budget : 1 ≤ w.caps.nBatch) (past : List Event)
    (s : Server (Continuous σ)) (run : (Server.continuous w config capacity world).Run past s)
    (closed : s.queue.closed = true)
    (juniors : ∀ n past' t, Server.alone w config n past s = some (past', t) → t.thread.JuniorRuns) :
    ∃ n past' t, Server.alone w config n past s = some (past', t) ∧ t.thread.pc = .done ∧
      t.thread.active = [] ∧ t.thread.pending = [] ∧ (fulfilled past').Perm (requestIds s.accepted) := by
  obtain ⟨n, past', t, turns, run', same, done⟩ := Server.settles engine budget run closed juniors
  obtain ⟨accounted, returned⟩ := Server.continuous_accounted engine run'
  have drained := returned done
  have nothing := Continuous.held_length t.thread
  rw [drained.held, List.length_nil] at nothing
  refine ⟨n, past', t, turns, done, List.length_eq_zero_iff.mp (by omega),
    List.length_eq_zero_iff.mp (by omega), ?_⟩
  rw [← same]
  exact (accounted.drained drained).1

/-- Two requests in a pool of six blocks: the older one starves, evicts the younger, and after 122
    turns both have been delivered. -/
theorem no_livelock_letter :
    ∃ past s n past' t, (Server.continuous Script.letter.world (.pair 6) 4 fun _ => none).Run past s ∧
      s.accepted.map Request.id = [0, 1] ∧
      (∃ k before r, Server.alone Script.letter.world (.pair 6) k past s = some (before, r) ∧
        .preempt 1 1 0 3 ∈ before) ∧
      Server.alone Script.letter.world (.pair 6) n past s = some (past', t) ∧ t.thread.pc = .done ∧
      t.thread.active = [] ∧ t.thread.pending = [] ∧ (fulfilled past').Perm (requestIds s.accepted) := by
  obtain ⟨past, s, run, closed, pushed, juniors⟩ : ∃ past s,
      (Server.continuous Script.letter.world (.pair 6) 4 fun _ => none).Run past s ∧
      (s.queue.closed = true ∧ s.accepted.map Request.id = [0, 1] ∧
        ((Server.play (Continuous.step Script.letter.world
          ((SchedulerConfig.pair 6).construct Script.letter.world.caps)) (fun s _ _ => s.thread.JuniorRuns)
          (List.replicate 122 .run) past s).any fun r => decide (r.2.thread.JuniorRuns) &&
            (Continuous.step Script.letter.world
              ((SchedulerConfig.pair 6).construct Script.letter.world.caps) r.2.thread r.2.queue).isNone &&
            decide (.preempt 1 1 0 3 ∈ r.1)) = true) :=
    Server.exists_run [.push { id := 0, spec := { prompt := [1], maxTokens := 4 } },
      .push { id := 1, spec := { prompt := [1], maxTokens := 4 } }, .close] rfl rfl (by decide +kernel)
  obtain ⟨⟨past', t⟩, played, last⟩ := (Option.any_eq_true _ _).mp juniors
  simp only [Bool.and_eq_true, decide_eq_true_eq, Option.isNone_iff_eq_none] at last
  obtain ⟨n, past'', u, rest⟩ := no_livelock Script.letter.world (.pair 6) 4 (fun _ => none)
    Script.letter.world_onlyDecodeThrows (by decide) past s run closed
    (Server.forall_of_play (P := fun s : Server (Continuous (Kv Token)) => s.thread.JuniorRuns) played
      last.1.2 last.1.1)
  exact ⟨past, s, n, past'', u, run, pushed, ⟨122, past', t, Server.play_free played, last.2⟩, rest⟩

/-- An engine that returns a token for every item it is asked to sample, never ends a sequence and
    never throws; it has no state, and nobody cancels. -/
def World.tireless : World Unit where
  caps := { nCtx := 64, nBatch := 8, nSeqMax := 4, nCtxSeq := 32 }
  tokenize text _ := if text.length < 2 ^ 31 then text.map fun byte => Int32.ofNat byte.toNat else []
  tokenize_length text _ := by
    split
    · simpa
    · simp
  piece _ := []
  beginSequence _ _ _ := (.ok (), ())
  decode items _ := (.ok ((items.filter (·.sample)).map fun item =>
    { seq := item.seq, token := 97, isEog := false }), ())
  releaseSequence _ _ := ()
  copySequence _ _ _ _ := (.ok (), ())
  onText _ _ _ := ()
  onFinish _ _ _ _ := ()
  onError _ _ _ := ()
  cancelled _ _ := false

theorem World.tireless_neverThrows : World.tireless.NeverThrows where
  begins _ _ _ := rfl
  copies _ _ _ _ := rfl
  decodes _ _ := rfl

/-- The request has a prompt, and could be served if it had the server to itself. -/
def Request.FitsAlone {σ : Type} (w : World σ) (s : Continuous σ) (request : Request) : Prop :=
  1 ≤ (w.tokenize request.spec.prompt true).length ∧
    (w.tokenize request.spec.prompt true).length + request.spec.maxTokens.toNat ≤ w.caps.nCtxSeq ∧
    s.blocks.blocksFor ((w.tokenize request.spec.prompt true).length + request.spec.maxTokens.toNat) ≤
      s.blocks.total

instance {σ : Type} (w : World σ) (s : Continuous σ) (request : Request) :
    Decidable (request.FitsAlone w s) := inferInstanceAs (Decidable (_ ∧ _))

/-- Two slots over a pool of seven blocks of one token, without a prefix cache. -/
def SchedulerConfig.rivals : SchedulerConfig where
  maxBatchSize := 2
  blockSize := 1
  kvBlocks := 7
  prefixCaching := false
  prefillChunk := 0

/-- Three requests of which each would fit alone.  When the first has been served the other two are
    out of step, and each of them takes the pool from the other just before it would be done: 310
    turns after the 63rd the server is in the state it was in then. -/
theorem livelock_rivals :
    ∃ past s, (Server.continuous .tireless .rivals 4 ()).Run past s ∧ s.queue.closed = true ∧
      s.accepted.map (fun request => (request.id, request.spec.prompt, request.spec.maxTokens)) =
        [(0, [1], 1), (1, [1], 4), (2, [1], 4)] ∧
      (∀ request ∈ s.accepted, request.FitsAlone .tireless s.thread) ∧
      World.tireless.NeverThrows ∧ 1 ≤ World.tireless.caps.nBatch ∧
      (∃ past', Server.alone .tireless .rivals 310 past s = some (past', s)) ∧
      ∀ n, ∃ past' t, Server.alone .tireless .rivals n past s = some (past', t) ∧
        ¬ (t.thread.active = [] ∧ t.thread.pending = []) := by
  obtain ⟨past, s, run, closed, pushed, fits, cycle⟩ : ∃ past s,
      (Server.continuous .tireless .rivals 4 ()).Run past s ∧ (s.queue.closed = true ∧
        s.accepted.map (fun request => (request.id, request.spec.prompt, request.spec.maxTokens)) =
          [(0, [1], 1), (1, [1], 4), (2, [1], 4)] ∧
        (∀ request ∈ s.accepted, request.FitsAlone .tireless s.thread) ∧
        (Server.play (Continuous.step .tireless (SchedulerConfig.rivals.construct World.tireless.caps))
          (fun s _ _ => ¬ (s.thread.active = [] ∧ s.thread.pending = [])) (List.replicate (309 + 1) .run) []
          s).map Prod.snd = some s) :=
    Server.exists_run ([.push { id := 0, spec := { prompt := [1], maxTokens := 1 } },
      .push { id := 1, spec := { prompt := [1], maxTokens := 4 } },
      .push { id := 2, spec := { prompt := [1], maxTokens := 4 } }, .close] ++ List.replicate 63 .run) rfl rfl
      (by decide +kernel)
  obtain ⟨⟨more, t⟩, played, rfl⟩ := Option.map_eq_some_iff.mp cycle
  have round : Server.play (Continuous.step .tireless (SchedulerConfig.rivals.construct World.tireless.caps))
      (fun _ _ _ => true) (List.replicate 310 .run) (past ++ []) t = _ :=
    Server.play_past (List.replicate 310 .run) past [] t
  rw [List.append_nil, Server.play_free played] at round
  exact ⟨past, t, run, closed, pushed, fits, World.tireless_neverThrows, by decide, ⟨_, round⟩, fun n =>
    Server.forever_of_play (P := fun s : Server (Continuous Unit) =>
      ¬ (s.thread.active = [] ∧ s.thread.pending = [])) played n past⟩

end MicroVllm
