import MicroVllm.Scheduler.Agreement
import MicroVllm.Scheduler.Tables

/-! # What a static batch reserves

A job of a static batch gets the blocks for its prompt and its whole budget when it is built, keeps
them until it is delivered and then gives them back.  The reservation is computed in 32 bits, and
covers the generation only if that computation does not wrap.
-/

namespace MicroVllm

/-- A later stage of a job with the same blocks.  A job that has finished stays as it has. -/
structure Job.Matures (job job' : Job) : Prop extends Job.SameTable job job' where
  finished : job.state.finished = true →
    job'.state.finished = true ∧ job'.state.reason = job.state.reason

namespace Job.Matures

variable {σ : Type} {w : World σ} {job : Job}

theorem refl (job : Job) : job.Matures job := ⟨.refl job, fun finished => ⟨finished, rfl⟩⟩

theorem of_unfinished {t : SequenceState} (unfinished : job.state.finished = false)
    (same : job.state.SameOrigin t) : job.Matures { job with state := t } :=
  ⟨⟨⟨rfl, same⟩, rfl⟩, fun finished => by simp [unfinished] at finished⟩

theorem accept {step : GenStep} {port port' : Port σ} {goesOn : Bool} {t : SequenceState}
    (accepted : job.state.accept w step port = (goesOn, t, port')) : job.Matures { job with state := t } := by
  refine ⟨⟨⟨rfl, (SequenceState.accept_same accepted).toSameOrigin⟩, rfl⟩, fun finished => ?_⟩
  rw [SequenceState.accept_of_finished finished] at accepted
  cases accepted
  exact ⟨finished, rfl⟩

theorem close (job : Job) : job.Matures { job with state := job.state.closed } :=
  ⟨⟨⟨rfl, (SequenceState.closed_same _).toSameOrigin⟩, rfl⟩,
    fun finished => ⟨SequenceState.closed_finished finished, SequenceState.closed_reason _⟩⟩

theorem trans {job' job'' : Job} (first : job.Matures job') (second : job'.Matures job'') :
    job.Matures job'' := by
  refine ⟨first.toSameTable.trans second.toSameTable, fun finished => ?_⟩
  obtain ⟨finished', reason⟩ := first.finished finished
  obtain ⟨finished'', reason'⟩ := second.finished finished'
  exact ⟨finished'', reason'.trans reason⟩

end Job.Matures

/-- A new job that has finished has been refused. -/
theorem Scheduler.newJob_refused {σ : Type} {w : World σ} {request : Request} {slot : Nat}
    (failed : (newJob w request slot).state.finished = true) :
    (newJob w request slot).state.reason = .contextOverflow := by
  simp only [newJob, checkContext] at failed ⊢
  split
  · rfl
  · rename_i fits
    rw [if_neg fits] at failed
    cases failed

namespace Static

variable {σ : Type} {w : World σ} {config : SchedulerConfig} {s s' : Static σ} {q q' : RequestQueue}

/-! ## Jobs come and go -/

theorem settleAll_matures (message : String) (jobs : List Job) (port : Port σ) :
    List.Forall₂ Job.Matures jobs (settleAll w message jobs port).1 := by
  apply settleAll_relates message
  intro job port
  rw [SequenceState.finish_state]
  by_cases finished : job.state.finished = true
  · rw [if_pos finished]
    exact .close job
  · rw [if_neg finished]
    have failed : job.Matures { job with state := job.state.fail message } :=
      .of_unfinished (by simpa using finished) (SequenceState.fail_same _ _ _).toSameOrigin
    exact failed.trans (.close _)

theorem sliced_matures (i nBatch : Nat) (jobs : List Job) :
    List.Forall₂ Job.Matures jobs (jobs.take i ++ (buildSlice nBatch 0 false (jobs.drop i)).1) := by
  apply sliced_relates .refl
  intro job unfinished
  exact .of_unfinished unfinished (SequenceState.takePrefillChunk_same _ _)

/-- What a move does to the jobs that have not been delivered, and to the pool. -/
inductive Turnover (w : World σ) (s s' : Static σ) : Prop where
  | goesOn (jobs : List.Forall₂ Job.Matures s.roster s'.roster) (pool : s'.blocks = s.blocks)
  | refuses {job} (roster : s'.roster = s.roster ++ [job])
      (refused : job.state.reason = .contextOverflow) (none : job.blocks.blocks = []) (pool : s'.blocks = s.blocks)
  | admits {request slot table}
      (grown : BlockTable.ensureCapacity {} (wholeLength (Scheduler.newJob w request slot)) s.blocks =
        some (table, s'.blocks))
      (roster : s'.roster = s.roster ++ [{ Scheduler.newJob w request slot with blocks := table }])
  | delivers {job} (roster : s.roster = job :: s'.roster)
      (pool : s'.blocks = s.blocks.free job.blocks.blocks)
  | dies {message} (pc : s'.pc = .crashed message) (pool : s'.blocks = s.blocks)

theorem Move.not_crashed (move : Move w config s q s' q') : ∀ message, s.pc ≠ .crashed message := by
  intro message dead
  cases move with
  | acceptEnd loop pc | acceptFail loop pc | acceptStray loop pc | acceptGoOn loop pc
  | acceptFinish loop pc =>
    cases loop <;> simp [dead] at pc
  | _ pc => simp [dead] at pc

theorem Move.turnover (move : Move w config s q s' q') : Turnover w s s' := by
  have same : s'.roster = s.roster → s'.blocks = s.blocks → Turnover w s s' := by
    intro roster pool
    refine .goesOn ?_ pool
    rw [roster]
    exact List.forall₂_same.mpr fun job _ => .refl job
  have fails : ∀ {t : Static σ} {message : String}, s.roster = s.jobs → t.blocks = s.blocks →
      List.Forall₂ Job.Matures s.jobs t.jobs → Turnover w s (t.failBatch w message) := by
    intro t message whole pool matured
    refine .goesOn ?_ pool
    rw [whole]
    exact Lists.forall₂_trans (R := Job.Matures) .trans matured (settleAll_matures message t.jobs t.port)
  have around : ∀ {before job after job'}, s.jobs = before ++ job :: after → job.Matures job' →
      List.Forall₂ Job.Matures s.jobs (before ++ job' :: after) := by
    intro before job after job' here matured
    rw [here]
    exact Lists.forall₂_around Job.Matures.refl matured
  cases move with
  -- the pool is touched when a job is made and when it is delivered, and at no other time
  | collect pc | finish pc | form pc | made pc | prefillEnd pc | decodeEnd pc | decode pc =>
    exact same (by simp [roster, pc]) rfl
  | makeCrash => exact .dies rfl rfl
  | makeFailed pc begun made failed =>
    subst made
    exact .refuses (by simp [roster, pc]) (Scheduler.newJob_refused failed) rfl rfl
  | make pc begun made unfinished grown =>
    subst made
    exact .admits grown (by simp [roster, pc])
  | @makeFull request rest job port pc begun made =>
    subst made
    exact @Turnover.refuses _ _ _ _ { Scheduler.newJob w request s.jobs.length with
      state := (Scheduler.newJob w request s.jobs.length).state.fail noRoomMessage .contextOverflow }
      (by simp [roster, pc]) rfl rfl rfl
  | @prefillSkip i slice pc more sliced | @prefill i slice steps port pc more sliced =>
    subst sliced
    refine .goesOn ?_ rfl
    simp only [roster, pc]
    exact sliced_matures i w.caps.nBatch s.jobs
  | @prefillFail i slice message port pc more sliced =>
    subst sliced
    exact fails (by simp [roster, pc]) rfl (sliced_matures i w.caps.nBatch s.jobs)
  | decodeFail pc => exact fails (by simp [roster, pc]) rfl (List.forall₂_same.mpr fun job _ => .refl job)
  | acceptFail loop pc =>
    exact fails (roster_stay loop pc).1 rfl (List.forall₂_same.mpr fun job _ => .refl job)
  | acceptEnd loop pc => exact same (((roster_leave loop rfl).1).trans (roster_stay loop pc).1.symm) rfl
  | acceptStray loop pc => exact same (((roster_stay loop rfl).1).trans (roster_stay loop pc).1.symm) rfl
  | acceptGoOn loop pc here accepted =>
    refine .goesOn ?_ rfl
    rw [(roster_stay loop pc).1, (roster_stay loop rfl).1]
    exact around here (.accept accepted)
  | acceptFinish loop pc here accepted notified =>
    subst notified
    refine .goesOn ?_ rfl
    rw [(roster_stay loop pc).1, (roster_stay loop rfl).1, SequenceState.finish_state]
    exact around here ((Job.Matures.accept accepted).trans (.close _))
  | @deliver before job after finished pc here notified =>
    refine @Turnover.delivers _ _ _ _ job ?_ rfl
    have done : (before ++ { job with state := finished.1, blocks := {} } :: after).drop (before.length + 1) =
        after := by
      rw [List.drop_append, List.drop_of_length_le (Nat.le_succ _)]
      simp
    simp only [roster, pc, here, done]
    simp
  | deliverEnd pc through =>
    refine same ?_ rfl
    simp only [roster, pc]
    exact (List.drop_of_length_le through).symm

theorem Turnover.pool (turnover : Turnover w s s') : s.blocks.SamePool s'.blocks := by
  cases turnover with
  | goesOn _ pool | refuses _ _ _ pool | dies _ pool =>
    rw [pool]
    exact .refl _
  | admits grown => exact .grown grown
  | delivers _ pool =>
    rw [pool]
    exact .free _ _

/-- The pool, and who holds its blocks. -/
structure Pooled (config : SchedulerConfig) (s : Static σ) : Prop where
  total : s.blocks.total = config.kvBlocks
  size : s.blocks.blockSize = config.blockSize
  accounts : s.blocks.Accounts (tables s.roster)

theorem Pooled.turnover (pooled : s.Pooled config) (turnover : Turnover w s s')
    (alive : ∀ message, s'.pc ≠ .crashed message) : s'.Pooled config := by
  have same := turnover.pool
  refine ⟨same.total.trans pooled.total, same.blockSize.trans pooled.size, ?_⟩
  have accounts := pooled.accounts
  cases turnover with
  | goesOn jobs pool =>
    rw [pool, tables_of_same (jobs.imp fun _ _ matured => matured.toSameTable)]
    exact accounts
  | refuses roster _ none pool =>
    rw [pool, roster, tables_append, tables_cons, none]
    simpa using accounts
  | admits grown roster =>
    have accounts : s.blocks.Accounts (BlockTable.blocks {} ++ tables s.roster) := accounts
    obtain ⟨_, _, after, _⟩ := BlockTable.ensureCapacity_spec accounts grown
    rw [roster]
    refine after.perm ?_
    simpa using List.perm_append_comm
  | delivers roster pool =>
    rw [roster, tables_cons] at accounts
    rw [pool]
    exact accounts.free
  | dies pc => exact absurd pc (alive _)

/-- A job that was not refused holds what was reserved for it. -/
def Reserved (s : Static σ) : Prop :=
  ∀ job ∈ s.roster, job.state.reason = .contextOverflow ∨
    job.blocks.nBlocks = s.blocks.blocksFor (wholeLength job)

theorem Reserved.turnover (reserved : s.Reserved) (turnover : Turnover w s s')
    (refused : ∀ job ∈ s.roster, job.state.reason = .contextOverflow → job.state.finished = true) :
    s'.Reserved := by
  have size := turnover.pool.blockSize
  have same : ∀ n, s'.blocks.blocksFor n = s.blocks.blocksFor n := by
    intro n
    rw [BlockAllocator.blocksFor, BlockAllocator.blocksFor, size]
  intro job' member
  rw [same]
  cases turnover with
  | goesOn jobs pool =>
    obtain ⟨job, inside, matured⟩ := Lists.exists_of_forall₂_right jobs member
    -- a refused job has finished, and keeps its reason
    rcases reserved job inside with reason | held
    · exact .inl ((matured.finished (refused job inside reason)).2.trans reason)
    · right
      rw [BlockTable.nBlocks, matured.blocks, wholeLength, matured.state.promptTokens, matured.request]
      exact held
  | refuses roster reason =>
    rw [roster] at member
    rcases List.mem_append.mp member with old | new
    · exact reserved job' old
    · cases List.mem_singleton.mp new
      exact .inl reason
  | admits grown roster =>
    rw [roster] at member
    rcases List.mem_append.mp member with old | new
    · exact reserved job' old
    · cases List.mem_singleton.mp new
      obtain ⟨_, blocks, _⟩ := BlockTable.ensureCapacity_shape grown
      exact .inr (blocks.trans (Nat.max_eq_right (Nat.zero_le _)))
  | delivers roster =>
    apply reserved
    rw [roster]
    exact List.mem_cons_of_mem _ member
  | dies pc =>
    simp only [roster, pc] at member
    cases member

end Static

namespace Server

variable {σ : Type} {w : World σ} {config : SchedulerConfig} {capacity : Nat} {world : σ}
variable {past : List Event} {s : Server (Static σ)}

/-- Until the thread dies, every reference to a block is held by a job that has not been
    delivered. -/
theorem pooled_run (run : (static w config capacity world).Run past s)
    (alive : ∀ message, s.thread.pc ≠ .crashed message) : s.thread.Pooled (config.construct w.caps) := by
  revert alive
  refine static_thread_invariant ?_ ?_ run.guarded_true
  · obtain ⟨total, size⟩ := Scheduler.make_pool w config world
    exact fun _ => ⟨total, size, BlockAllocator.accounts_make _ _⟩
  · intro past s thread queue _ _ pooled move _ alive
    have after := (pooled move.not_crashed).turnover move.turnover alive
    exact ⟨after.total, after.size, after.accounts⟩

theorem reserved_run (run : (static w config capacity world).Run past s) : s.thread.Reserved := by
  refine static_thread_invariant ?_ ?_ run.guarded_true
  · intro job member
    cases member
  · intro past s thread queue run _ reserved move _
    have after : thread.Reserved := reserved.turnover move.turnover fun job member =>
      ((static_limited_run run.of_guarded).1.roster job member).finished
    exact after

end Server

/-! ## What the reservation is worth -/

theorem SchedulerConfig.blocksOf_mono (config : SchedulerConfig) {n m : Nat} (fewer : n ≤ m) :
    config.blocksOf n ≤ config.blocksOf m :=
  Nat.div_le_div_right (by omega)

/-- The blocks reserved for `n` tokens are those they fill unless the sum wraps, and then they are
    fewer. -/
theorem blocksFor_toUint32 {config : SchedulerConfig} {a : BlockAllocator} (size : a.blockSize = config.blockSize)
    (positive : 0 < config.blockSize) (small : config.blockSize ≤ 2 ^ 32) (n : Nat) :
    (n + config.blockSize ≤ 2 ^ 32 → a.blocksFor (toUint32 n) = config.blocksOf n) ∧
      (¬ n + config.blockSize ≤ 2 ^ 32 → a.blocksFor (toUint32 n) < config.blocksOf n) := by
  rw [BlockAllocator.blocksFor, SchedulerConfig.blocksOf, size]
  constructor
  · intro fits
    have fewer : n < 2 ^ 32 := by omega
    rw [toUint32_of_lt fewer, toUint32_of_lt (by omega)]
  · intro wraps
    have less : toUint32 (toUint32 n + config.blockSize - 1) + config.blockSize ≤ n + config.blockSize - 1 := by
      unfold toUint32
      omega
    calc toUint32 (toUint32 n + config.blockSize - 1) / config.blockSize
        < (toUint32 (toUint32 n + config.blockSize - 1) + config.blockSize) / config.blockSize := by
          rw [Nat.add_div_right _ positive]
          exact Nat.lt_succ_self _
      _ ≤ (n + config.blockSize - 1) / config.blockSize := Nat.div_le_div_right less

/-- The blocks of a static job, from when it is built until it is delivered.  If prompt and budget
    are counted without a wrap, they are enough for the tokens it has at any time.  If not, they are
    fewer than its whole generation would fill. -/
theorem static_reservation {σ : Type} (w : World σ) (config : SchedulerConfig) (capacity : Nat) (world : σ)
    (size : (config.construct w.caps).blockSize ≤ 2 ^ 32) (past : List Event) (s : Server (Static σ))
    (run : (Server.static w config capacity world).Run past s) (job : Job) (member : job ∈ s.thread.roster)
    (admitted : job.state.reason ≠ .contextOverflow) :
    (job.request.Countable w (config.construct w.caps) →
      (config.construct w.caps).blocksOf (job.state.usage.promptTokens + job.state.usage.completionTokens) ≤
        job.blocks.nBlocks) ∧
    (¬ job.request.Countable w (config.construct w.caps) →
      job.blocks.nBlocks <
        (config.construct w.caps).blocksOf (job.state.usage.promptTokens + job.request.spec.maxTokens.toNat)) := by
  have alive : ∀ message, s.thread.pc ≠ .crashed message := by
    intro message dead
    simp only [Static.roster, dead] at member
    cases member
  have pooled := Server.pooled_run run alive
  obtain ⟨_, origin, _⟩ := (Server.static_heard_run run).2.roster job member
  have limited := (Server.static_limited_run run).1.roster job member
  have length := origin.length_eq
  have spec : job.state.spec = job.request.spec := origin.spec
  have budget := limited.budget
  have held := (Server.reserved_run run job member).resolve_left admitted
  rw [spec] at length budget
  obtain ⟨covers, short⟩ := blocksFor_toUint32 pooled.size (config.construct_blockSize_pos w.caps) size
    (job.state.usage.promptTokens + job.request.spec.maxTokens.toNat)
  rw [held, Static.wholeLength, Request.Countable, ← length]
  constructor
  · intro countable
    rw [covers countable]
    exact SchedulerConfig.blocksOf_mono _ (by omega)
  · exact short

/-- A request of two tokens with a budget of four: two blocks of two tokens, of which the first is
    full when it has a third token. -/
theorem static_reservation_letter :
    ∃ past s, (Server.static Script.letter.world (.single 0) 4 fun _ => none).Run past s ∧
      ∃ job ∈ s.thread.roster, job.state.usage.promptTokens = 2 ∧ job.state.usage.completionTokens = 1 ∧
        ((SchedulerConfig.single 0).construct Script.letter.caps).blocksOf
          (job.state.usage.promptTokens + job.state.usage.completionTokens) ≤ job.blocks.nBlocks := by
  obtain ⟨past, s, run, job, member, prompt, completion, admitted, countable⟩ : ∃ past s,
      (Server.static Script.letter.world (.single 0) 4 fun _ => none).Run past s ∧
      ∃ job ∈ s.thread.roster, job.state.usage.promptTokens = 2 ∧ job.state.usage.completionTokens = 1 ∧
        job.state.reason ≠ .contextOverflow ∧
        job.request.Countable Script.letter.world ((SchedulerConfig.single 0).construct Script.letter.caps) :=
    Server.exists_run ([.push { id := 0, spec := { prompt := [1, 2], maxTokens := 4 } }] ++
      List.replicate 6 .run) rfl rfl (by decide +kernel)
  exact ⟨past, s, run, job, member, prompt, completion,
    (static_reservation Script.letter.world (.single 0) 4 _ (by decide) past s run job member admitted).1 countable⟩

/-- One token and the largest budget: the sum is zero in 32 bits.  The request passes the context
    check, gets no block at all and is running. -/
theorem static_reservation_wraps_letter :
    ∃ past s, (Server.static Script.letter.world (.single 0) 4 fun _ => none).Run past s ∧
      ∃ job ∈ s.thread.roster, job.request.spec.maxTokens = 4294967295 ∧
        job.state.reason ≠ .contextOverflow ∧ job.state.finished = false ∧
        job.state.usage.promptTokens = 1 ∧ job.state.usage.completionTokens = 1 ∧
        job.blocks.nBlocks = 0 ∧
        job.blocks.nBlocks < ((SchedulerConfig.single 0).construct Script.letter.caps).blocksOf
          (job.state.usage.promptTokens + job.state.usage.completionTokens) :=
  Server.exists_run ([.push { id := 0, spec := { prompt := [1], maxTokens := 4294967295 } }] ++
    List.replicate 6 .run) rfl rfl (by decide +kernel)

end MicroVllm
