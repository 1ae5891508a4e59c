import MicroVllm.Lib.Line
import MicroVllm.Scheduler.Streams

/-! # First come, first served

The order in which requests are served.  In static mode a promise is fulfilled when all that were made
before it have been.  In continuous mode jobs finish in any order, and a job that is preempted goes back to
the head of the line; but nobody who has not been served yet is passed by a later arrival.
-/

namespace MicroVllm

/-- In static mode, with an engine that throws in `decode` at most, promises are fulfilled in the order in
    which the requests were accepted: what has been fulfilled, then what the thread holds, then what is
    queued, is the list of the accepted requests. -/
theorem static_fulfils_in_order {σ : Type} (w : World σ) (config : SchedulerConfig) (capacity : Nat) (world : σ)
    (engine : w.OnlyDecodeThrows) (past : List Event) (s : Server (Static σ))
    (run : (Server.static w config capacity world).Run past s) :
    fulfilled past ++ s.thread.held ++ requestIds s.queue.queue = requestIds s.accepted := by
  refine Server.static_invariant ?_ ?_ ?_ ?_ run.guarded_true
  · simp [Static.start, Static.held]
  · intro past s request _ ordered
    simp only [Server.push, RequestQueue.tryPush]
    split
    · exact ordered
    · simp only [if_true, requestIds_append, ← List.append_assoc, ordered]
  · exact fun _ _ ordered => ordered
  · intro past s thread queue _ settled ordered move _
    have step := move.in_order settled.silent (move.alive engine)
    show fulfilled (past ++ thread.port.log) ++ thread.held ++ requestIds queue.queue = _
    simp only [fulfilled, List.filterMap_append] at step ordered ⊢
    rw [← ordered, List.append_assoc, List.append_assoc, ← List.append_assoc (List.filterMap _ thread.port.log),
      step, List.append_assoc]

/-- Three requests in batches of two: the first is delivered, the second is next, the third is queued. -/
theorem static_fulfils_in_order_letter :
    ∃ past s, (Server.static Script.letter.world (.pair 16) 4 fun _ => none).Run past s ∧
      fulfilled past = [0] ∧ s.thread.held = [1] ∧
      fulfilled past ++ s.thread.held ++ requestIds s.queue.queue = requestIds s.accepted := by
  obtain ⟨past, s, run, first, second⟩ : ∃ past s,
      (Server.static Script.letter.world (.pair 16) 4 fun _ => none).Run past s ∧
      (fulfilled past = [0] ∧ s.thread.held = [1]) :=
    Server.exists_run ([.push { id := 0, spec := { prompt := [1], maxTokens := 4 } },
      .push { id := 1, spec := { prompt := [1], maxTokens := 4 } },
      .push { id := 2, spec := { prompt := [1], maxTokens := 4 } }] ++ List.replicate 29 .run) rfl rfl
      (by decide +kernel)
  exact ⟨past, s, run, first, second, static_fulfils_in_order Script.letter.world (.pair 16) 4 (fun _ => none)
    Script.letter.world_onlyDecodeThrows past s run⟩

namespace Continuous

variable {σ : Type} {w : World σ} {config : SchedulerConfig} {s s' : Continuous σ} {q q' : RequestQueue}

/-- The requests that wait to be admitted: the one that is being looked at, and the rest. -/
def line (s : Continuous σ) : List Request := s.pc.inHand.map Job.request ++ s.pending

/-- How requests go from the queue to the line, from its head to the batch or to their clients, and from
    the batch to their clients or back to the head of the line. -/
inductive Passes (s s' : Continuous σ) (q q' : RequestQueue) : Prop where
  | stays (line : s'.line = s.line) (active : owners s'.active = owners s.active) (queue : q'.queue = q.queue)
      (log : fulfilled s'.port.log = [])
  | taken {request} (front : q.queue = request :: q'.queue) (line : s'.line = s.line ++ [request])
      (active : s'.active = s.active) (log : fulfilled s'.port.log = [])
  | admitted (request : Request) (front : s.line = request :: s'.line)
      (active : owners s'.active = owners s.active ++ [request.id]) (queue : q'.queue = q.queue)
      (log : fulfilled s'.port.log = [])
  | refused (request : Request) (front : s.line = request :: s'.line) (active : owners s'.active = owners s.active)
      (queue : q'.queue = q.queue) (log : fulfilled s'.port.log = [request.id])
  | retired (id : Nat) (line : s'.line = s.line) (active : (owners s.active).Perm (id :: owners s'.active))
      (queue : q'.queue = q.queue) (log : fulfilled s'.port.log = [id])
  | evicted {victim starved emitted} (request : Request) (line : s'.line = request :: s.line)
      (active : (owners s.active).Perm (request.id :: owners s'.active)) (queue : q'.queue = q.queue)
      (log : fulfilled s'.port.log = []) (noted : .preempt request.id victim starved emitted ∈ s'.port.log)

theorem Move.passes (move : Move w config s q s' q') (silent : s.port.log = [])
    (alive : ∀ message, s'.pc ≠ .crashed message) : Passes s s' q q' := by
  have nothing : fulfilled s.port.log = [] := by rw [silent]; rfl
  cases move with
  | take pc room front => exact .taken front (by simp [line]) rfl nothing
  | makeCrash | adoptCrash => exact absurd rfl (alive _)
  | leave pc | finish pc | acceptEnd pc | acceptStray pc | sweepKeep pc | sweepResolve pc
  | resolveEnd pc | resolveGone pc | resolveRoom pc | reclaimGone pc | reclaimEnd pc
  | preemptGone pc | preemptEnd pc | sweepLoop pc =>
    exact .stays (by simp [line, pc, Pc.inHand]) rfl rfl (by simp [nothing])
  | admitted pc =>
    refine .stays ?_ rfl rfl nothing
    simp only [line, pc]
    split <;> simp [Pc.inHand]
  -- from the line to the hand and back: the head of the line is still its head
  | make pc next free begun =>
    exact .stays (by simp [line, pc, next, Pc.inHand, Scheduler.newJob]) rfl rfl
      (by simp [fulfilled_begin begun, nothing])
  | defer pc unfinished full busy =>
    exact .stays (by simp [line, pc, Continuous.defer, busy, Pc.inHand, Job.reclaim]) rfl rfl
      (by simp [Continuous.defer, nothing])
  | giveUp pc short evicted | reclaimDonor pc here full evicted =>
    exact .stays rfl rfl rfl (by simp [fulfilled_reclaim evicted, nothing])
  | @reject job pc unfinished full alone =>
    exact .refused job.request (by simp [line, pc, Continuous.reject, Pc.inHand]) rfl rfl
      (by simp [Continuous.reject, nothing])
  | @placeFailed job pc | @place job table blocks cache pc =>
    exact .admitted job.request (by simp [line, pc, Continuous.place, Pc.inHand])
      (by simp [Continuous.place]) rfl (by simp [Continuous.place, nothing])
  | @adopt job table blocks cache hit port pc fits same caching found positive within copied =>
    exact .admitted job.request (by simp [line, pc, Continuous.place, Pc.inHand])
      (by simp [Continuous.place, inherit]) rfl (by simp [Continuous.place, fulfilled_copy copied, nothing])
  -- the jobs of the batch keep their requests
  | buildNothing pc =>
    exact .stays (by simp [line, pc, Pc.inHand]) (owners_of_same (same_of_sameTable (same_build _ _ _))) rfl nothing
  | decode pc something returned =>
    exact .stays (by simp [line, pc, Pc.inHand]) (owners_of_same (same_of_sameTable (same_build _ _ _))) rfl
      (by simp [fulfilled_decode returned, nothing])
  | decodeFail pc something threw =>
    refine .stays (by simp [line, pc, failAll, Pc.inHand]) ?_ rfl (by simp [failAll, fulfilled_decode threw, nothing])
    rw [owners_of_same (same_of_sameTable (same_failAll _ _)), owners_of_same (same_of_sameTable (same_build _ _ _))]
  | acceptFail pc =>
    exact .stays (by simp [line, pc, failAll, Pc.inHand]) (owners_of_same (same_of_sameTable (same_failAll _ _))) rfl
      (by simp [failAll, nothing])
  | acceptFinish pc here accepted | acceptStarve pc here accepted | acceptGrow pc here accepted =>
    exact .stays (by simp [line, pc, Pc.inHand]) (by simp [here]) rfl (by simp [fulfilled_accept accepted, nothing])
  | acceptPublish pc here accepted grown published =>
    exact .stays (by simp [line, pc, Pc.inHand]) (by simp [here, published]) rfl
      (by simp [fulfilled_accept accepted, nothing])
  -- out of the batch
  | @sweepRetire starved before job after pc here finished =>
    exact .retired job.request.id (by simp [line, pc, Pc.inHand]) (by simp [here]) rfl
      (by simp [fulfilled_retire, nothing])
  | resolveFail pc here large failed =>
    subst failed
    exact .stays (by simp [line, pc, Pc.inHand]) (by simp [here]) rfl (by simp [nothing])
  | reclaimGrow pc here | preemptGrow pc here =>
    exact .stays (by simp [line, pc, Pc.inHand]) (by simp [here]) rfl nothing
  | @preemptEvict slot starved job before victim after pc starving named full here =>
    exact .evicted victim.request (by simp [line, pc, Pc.inHand, Job.reclaim]) (by simp [here]) rfl
      (by simp [nothing]) (List.mem_append_right _ List.mem_cons_self)

end Continuous

/-- The request has lost its slot to another one. -/
def Preempted (past : List Event) (id : Nat) : Prop :=
  ∃ victim starved emitted, .preempt id victim starved emitted ∈ past

theorem Preempted.append {past : List Event} {id : Nat} (preempted : Preempted past id) (log : List Event) :
    Preempted (past ++ log) id := by
  obtain ⟨victim, starved, emitted, noted⟩ := preempted
  exact ⟨victim, starved, emitted, List.mem_append_left _ noted⟩

/-- In continuous mode, with an engine that throws in `decode` at most, requests are first served in the order
    in which they were accepted.  In every state the accepted ones are those that have been started, then the
    rest of the line, then the queue, in this order; what has been started has been delivered, is in the batch,
    or was preempted and stands at the head of the line. -/
theorem continuous_serves_in_order {σ : Type} (w : World σ) (config : SchedulerConfig) (capacity : Nat) (world : σ)
    (engine : w.OnlyDecodeThrows) (past : List Event) (s : Server (Continuous σ))
    (run : (Server.continuous w config capacity world).Run past s) :
    Waiting.InOrder (requestIds s.accepted) (requestIds s.queue.queue) (requestIds s.thread.line)
      (owners s.thread.active) (fulfilled past) (Preempted past) := by
  refine Server.continuous_invariant ?_ ?_ ?_ ?_ run.guarded_true
  · exact .empty _
  · intro past s request _ ordered
    simp only [Server.push, RequestQueue.tryPush]
    split
    · exact ordered
    · simpa using ordered.arrive request.id
  · exact fun _ _ ordered => ordered
  · intro past s thread queue _ settled ordered move _
    have kept := ordered.mono fun _ preempted => Preempted.append preempted thread.port.log
    have longer : fulfilled (past ++ thread.port.log) = fulfilled past ++ fulfilled thread.port.log :=
      List.filterMap_append
    show Waiting.InOrder _ _ (requestIds thread.line) (owners thread.active) _ _
    cases move.passes settled.silent (move.alive engine) with
    | stays line active queue log =>
      rw [line, active, queue, longer, log, List.append_nil]
      exact kept
    | taken front line active log =>
      rw [front] at kept
      rw [line, active, longer, log, List.append_nil, requestIds_append]
      exact kept.join
    | admitted request front active queue log =>
      rw [front] at kept
      rw [queue, longer, log, List.append_nil]
      refine kept.serve ?_
      rw [active, ← List.append_assoc]
      exact List.perm_append_singleton _ _
    | refused request front active queue log =>
      rw [front] at kept
      rw [queue, longer, log]
      refine kept.serve ?_
      rw [active, List.append_assoc]
      exact List.perm_middle
    | retired id line active queue log =>
      rw [line, queue, longer, log]
      refine kept.proceed ?_
      rw [List.append_assoc]
      exact (active.append_left _).symm
    | evicted request line active queue log noted =>
      rw [line, queue, longer, log, List.append_nil]
      refine kept.requeue ?_ ⟨_, _, _, List.mem_append_right past noted⟩
      exact (active.append_left _).trans List.perm_middle

/-- Three requests for two slots: the first one has lost its slot and stands in line, the third is queued. -/
theorem continuous_serves_in_order_letter :
    ∃ past s, (Server.continuous Script.letter.world (.pair 5) 4 fun _ => none).Run past s ∧
      requestIds s.thread.line = [0] ∧ owners s.thread.active = [1] ∧ requestIds s.queue.queue = [2] ∧
      Waiting.InOrder (requestIds s.accepted) [2] [0] [1] (fulfilled past) (Preempted past) := by
  obtain ⟨past, s, run, line, active, queue⟩ : ∃ past s,
      (Server.continuous Script.letter.world (.pair 5) 4 fun _ => none).Run past s ∧
      (requestIds s.thread.line = [0] ∧ owners s.thread.active = [1] ∧ requestIds s.queue.queue = [2]) :=
    Server.exists_run ([.push { id := 0, spec := { prompt := [1], maxTokens := 4 } },
      .push { id := 1, spec := { prompt := [1], maxTokens := 4 } },
      .push { id := 2, spec := { prompt := [1], maxTokens := 4 } }] ++ List.replicate 37 .run) rfl rfl
      (by decide +kernel)
  have ordered := continuous_serves_in_order Script.letter.world (.pair 5) 4 (fun _ => none)
    Script.letter.world_onlyDecodeThrows past s run
  rw [line, active, queue] at ordered
  exact ⟨past, s, run, line, active, queue, ordered⟩

end MicroVllm
