import MicroVllm.Http.Handlers
import MicroVllm.Scheduler.Protocol
import MicroVllm.Scheduler.Rest

/-! # The scheduler as the handlers see it

In either mode, and with the scheduler as one of the threads of the server: nothing accepted is lost or
answered twice, a sink hears text and then one last call that agrees with the promise, and the thread
sleeps only when it has nothing left to do.
-/

namespace MicroVllm

open Transition (Machine)

/-! ## What a sink has heard -/

/-- The last call of a sink. -/
def Event.EndTo (sink : SinkRef) : Event → Prop
  | .onFinish s _ _ => s = sink
  | .onError s _ => s = sink
  | _ => False

theorem SequenceState.outcome_endTo (s : SequenceState) : s.outcome.EndTo s.sink := by
  unfold outcome
  split <;> rfl

theorem GenResult.outcome_endTo (result : GenResult) (sink : SinkRef) : (result.outcome sink).EndTo sink := by
  unfold outcome
  split <;> rfl

/-- The sink of a request has heard text, and in the end one last call, which says what the promise
    says. -/
inductive Spoken (r : Request) (past : List Event) : Prop where
  | going (texts : ∀ e ∈ callsTo r.sinkRef past, e.TextTo r.sinkRef) (unanswered : r.id ∉ fulfilled past)
  | ended {texts last} (all : ∀ e ∈ texts, e.TextTo r.sinkRef) (terminal : last.EndTo r.sinkRef)
      (calls : callsTo r.sinkRef past = texts ++ [last])
      (agrees : ∀ result, .setValue r.id result ∈ past → last = result.outcome r.sinkRef)

theorem result_unique {past : List Event} {id : Nat} {a b : GenResult} (once : (fulfilled past).Nodup)
    (first : .setValue id a ∈ past) (second : .setValue id b ∈ past) : a = b := by
  obtain ⟨before, after, rfl⟩ := List.append_of_mem first
  rw [show fulfilled (before ++ .setValue id a :: after) = fulfilled before ++ id :: fulfilled after by
    simp [fulfilled, Event.fulfils], List.nodup_middle, List.nodup_cons, List.mem_append, not_or] at once
  rcases List.mem_append.mp second with earlier | later
  · exact absurd (mem_fulfilled.mpr ⟨b, earlier⟩) once.1.1
  · rcases List.mem_cons.mp later with same | later
    · cases same
      rfl
    · exact absurd (mem_fulfilled.mpr ⟨b, later⟩) once.1.2

theorem eq_of_id {requests : List Request} {r r' : Request} (nodup : (requestIds requests).Nodup)
    (first : r ∈ requests) (second : r' ∈ requests) (same : r.id = r'.id) : r = r' :=
  List.inj_on_of_nodup_map nodup first second same

/-- If every accepted request is waiting, in service or fulfilled, its sink has heard as much. -/
theorem Heard.spoken {σ : Type} {w : World σ} {accepted waiting : List Request} {roster : List Job}
    {past : List Event} (heard : Heard w accepted waiting roster past) (nodup : (requestIds accepted).Nodup)
    (counts : (requestIds waiting ++ owners roster ++ fulfilled past).Perm (requestIds accepted)) {r : Request}
    (member : r ∈ accepted) : Spoken r past := by
  have once := counts.nodup_iff.mpr nodup
  obtain ⟨_, single, apart⟩ := List.nodup_append.mp once
  have somewhere : r.id ∈ requestIds waiting ++ owners roster ++ fulfilled past :=
    counts.mem_iff.mpr (List.mem_map_of_mem member)
  rcases List.mem_append.mp somewhere with unanswered | answered
  · have unfulfilled : r.id ∉ fulfilled past := fun twice => apart _ unanswered _ twice rfl
    rcases List.mem_append.mp unanswered with waits | served
    · obtain ⟨r', waits, same⟩ := List.mem_map.mp waits
      obtain ⟨known, texts⟩ := heard.waiting r' waits
      cases eq_of_id nodup known member same
      exact .going texts unfulfilled
    · obtain ⟨job, inside, same⟩ := List.mem_map.mp served
      obtain ⟨known, origin, told⟩ := heard.roster job inside
      cases eq_of_id nodup known member same
      have sink : job.state.sink = job.request.sinkRef := origin.sink
      cases notified : job.state.notified with
      | false => exact .going (sink ▸ told.before notified) unfulfilled
      | true =>
        obtain ⟨texts, all, calls⟩ := told.after notified
        rw [sink] at all calls
        refine .ended all (sink ▸ job.state.outcome_endTo) calls fun result delivered => ?_
        exact absurd (mem_fulfilled.mpr ⟨result, delivered⟩) unfulfilled
  · obtain ⟨result, delivered⟩ := mem_fulfilled.mp answered
    obtain ⟨before, after, split⟩ := List.append_of_mem delivered
    obtain ⟨r', known, same, _, ⟨texts, all, calls⟩, silent⟩ := heard.settled before r.id result after split
    obtain rfl := eq_of_id nodup member known same.symm
    refine .ended all (result.outcome_endTo _) ?_ fun result' again => ?_
    · have quiet : callsTo r.sinkRef (.setValue r.id result :: after) = [] := silent
      rw [split, callsTo_append, calls, quiet, List.append_nil]
    · rw [result_unique single delivered again]

/-! ## Threads -/

namespace Server

variable {τ τ' : Type}

/-- The server with its thread seen as one of another kind. -/
def map (f : τ → τ') (s : Server τ) : Server τ' :=
  { thread := f s.thread, queue := s.queue, accepted := s.accepted }

/-- A thread that goes on as another does. -/
def Embeds (f : τ → τ') (step : τ → RequestQueue → Option (List Event × τ × RequestQueue))
    (step' : τ' → RequestQueue → Option (List Event × τ' × RequestQueue)) : Prop :=
  ∀ t q, step' (f t) q = (step t q).map fun (events, t, q) => (events, f t, q)

theorem Embeds.follows {f : τ → τ'} {step : τ → RequestQueue → Option (List Event × τ × RequestQueue)}
    {step' : τ' → RequestQueue → Option (List Event × τ' × RequestQueue)} (embeds : Embeds f step step')
    (thread : τ) (capacity : Nat) (ok : Server τ' → List Event → Server τ' → Prop) :
    ((machine step' (f thread) capacity).guarded ok).Follows
      ((machine step thread capacity).guarded fun s events t => ok (s.map f) events (t.map f)) some
      fun s t => s = t.map f where
  init := by
    rintro s rfl
    exact ⟨_, rfl, rfl⟩
  step := by
    rintro past s events s' t - rfl ⟨step, fine⟩
    rw [List.filterMap_some]
    cases step with
    | push request fresh => exact ⟨t.push request, .one ⟨.push request fresh, fine⟩, rfl⟩
    | close => exact ⟨t.close, .one ⟨.close, fine⟩, rfl⟩
    | run stepped =>
      have both : step' (f t.thread) t.queue = some _ := stepped
      rw [embeds, Option.map_eq_some_iff] at both
      obtain ⟨⟨_, next, _⟩, stepped, same⟩ := both
      cases same
      exact ⟨{ t with thread := next, queue := _ }, .one ⟨.run stepped, fine⟩, rfl⟩

end Server

namespace Thread

variable {σ : Type} {w : World σ} {config : SchedulerConfig} {capacity : Nat} {world : σ}
variable {past : List Event} {s : Server (Thread σ)}

/-- The scheduler of the program with any clients. -/
def server (w : World σ) (config : SchedulerConfig) (capacity : Nat) (world : σ) :
    Machine (Server (Thread σ)) Event :=
  Server.machine (worker w config).step (start w config world) capacity

/-- Every run is one of the mode the scheduler is in. -/
theorem run_mode {ok : Server (Thread σ) → List Event → Server (Thread σ) → Prop}
    (run : ((server w config capacity world).guarded ok).Run past s) :
    (config.mode = .static ∧ ∃ t : Server (Static σ), s = t.map .static ∧
      ((Server.static w config capacity world).guarded
        fun s events t => ok (s.map .static) events (t.map .static)).Run past t) ∨
    (config.mode = .continuous ∧ ∃ t : Server (Continuous σ), s = t.map .continuous ∧
      ((Server.continuous w config capacity world).guarded
        fun s events t => ok (s.map .continuous) events (t.map .continuous)).Run past t) := by
  unfold server start at run
  cases mode : config.mode with
  | static =>
    rw [mode] at run
    have embeds : Server.Embeds Thread.static (Static.step w (config.construct w.caps)) (worker w config).step :=
      fun _ _ => rfl
    obtain ⟨t, run', same⟩ := (embeds.follows _ capacity ok).run run
    rw [List.filterMap_some] at run'
    exact .inl ⟨rfl, t, same, run'⟩
  | continuous =>
    rw [mode] at run
    have embeds : Server.Embeds Thread.continuous (Continuous.step w (config.construct w.caps))
        (worker w config).step := fun _ _ => rfl
    obtain ⟨t, run', same⟩ := (embeds.follows _ capacity ok).run run
    rw [List.filterMap_some] at run'
    exact .inr ⟨rfl, t, same, run'⟩

/-- What holds in both modes holds of the scheduler. -/
theorem both (P : List Event → Server (Thread σ) → Prop)
    (static : ∀ past t, (Server.static w config capacity world).Run past t → P past (t.map .static))
    (continuous : ∀ past t, (Server.continuous w config capacity world).Run past t → P past (t.map .continuous))
    (run : (server w config capacity world).Run past s) : P past s := by
  rcases run_mode run.guarded_true with ⟨_, t, rfl, moded⟩ | ⟨_, t, rfl, moded⟩
  · exact static _ t moded.of_guarded
  · exact continuous _ t moded.of_guarded

def held : Thread σ → List Nat
  | .static thread => thread.held
  | .continuous thread => thread.held

theorem counted (run : (server w config capacity world).Run past s) : s.Counted s.thread.held past := by
  refine both (fun past s => s.Counted s.thread.held past) ?_ ?_ run
  · intro past t run
    obtain ⟨nodup, counts⟩ := Server.static_counts_run run
    exact ⟨nodup, counts⟩
  · intro past t run
    obtain ⟨nodup, counts⟩ := Server.counts_run run
    exact ⟨nodup, counts⟩

theorem accounted (engine : w.OnlyDecodeThrows) (run : (server w config capacity world).Run past s) :
    s.Accounted s.thread.held past := by
  refine both (fun past s => s.Accounted s.thread.held past) ?_ ?_ run
  · intro past t run
    obtain ⟨⟨nodup, once⟩, _⟩ := Server.static_accounted engine run
    exact ⟨nodup, once⟩
  · intro past t run
    obtain ⟨⟨nodup, once⟩, _⟩ := Server.continuous_accounted engine run
    exact ⟨nodup, once⟩

/-- A promise is never fulfilled with a result that has no reason. -/
theorem reasoned (run : (server w config capacity world).Run past s) {id : Nat} {result : GenResult}
    (delivered : .setValue id result ∈ past) : result.reason ≠ .unset := by
  obtain ⟨before, after, split⟩ := List.append_of_mem delivered
  refine both (fun past _ => past = before ++ .setValue id result :: after → result.reason ≠ .unset) ?_ ?_ run split
  · intro past t run split
    obtain ⟨_, _, _, reason, _⟩ := (Server.static_heard_run run).2.settled before id result after split
    exact reason
  · intro past t run split
    obtain ⟨_, _, _, reason, _⟩ := (Server.heard_run run).settled before id result after split
    exact reason

theorem spoken (engine : w.OnlyDecodeThrows) (run : (server w config capacity world).Run past s) {r : Request}
    (member : r ∈ s.accepted) : Spoken r past := by
  refine both (fun past s => r ∈ s.accepted → Spoken r past) ?_ ?_ run member
  · intro past t run member
    obtain ⟨accounted, _⟩ := Server.static_accounted engine run
    refine (Server.static_heard_run run).2.spoken accounted.nodup (.trans ?_ accounted.perm) member
    simp only [requestIds_append, Static.held_eq, List.append_assoc]
    exact (List.perm_append_comm_assoc _ _ _).append_left _
  · intro past t run member
    obtain ⟨accounted, _⟩ := Server.continuous_accounted engine run
    refine (Server.heard_run run).spoken accounted.nodup (.trans ?_ accounted.perm) member
    simp only [requestIds_append, Continuous.held, Continuous.crew, owners_append, List.append_assoc]
    exact ((List.perm_append_comm_assoc _ _ _).append_left _).append_left _

/-- The thread only takes from the queue. -/
theorem keeps (run : (server w config capacity world).Run past s) {events : List Event} {thread : Thread σ}
    {queue : RequestQueue} (stepped : (worker w config).step s.thread s.queue = some (events, thread, queue)) :
    queue.closed = s.queue.closed ∧ queue.capacity = s.queue.capacity ∧ queue.queue <:+ s.queue.queue := by
  refine both (fun _ s => (worker w config).step s.thread s.queue = some (events, thread, queue) →
    queue.closed = s.queue.closed ∧ queue.capacity = s.queue.capacity ∧ queue.queue <:+ s.queue.queue) ?_ ?_ run stepped
  · intro past t run stepped
    obtain ⟨⟨_, next, rest⟩, stepped', same⟩ := Option.map_eq_some_iff.mp stepped
    cases same
    obtain ⟨_, move, rfl, rfl⟩ := Static.step_move (Server.settledStatic_run run).layout stepped'
    cases move with
    | collect pc front => exact ⟨rfl, rfl, by simp [front]⟩
    | _ => exact ⟨rfl, rfl, List.suffix_rfl⟩
  · intro past t run stepped
    obtain ⟨⟨_, next, rest⟩, stepped', same⟩ := Option.map_eq_some_iff.mp stepped
    cases same
    have positive := config.construct_maxBatchSize_pos w.caps
    obtain ⟨_, move, rfl, rfl⟩ := Continuous.step_move positive (Server.settled_run run).layout stepped'
    cases move with
    | take pc room front => exact ⟨rfl, rfl, by simp [front]⟩
    | _ => exact ⟨rfl, rfl, List.suffix_rfl⟩

/-- No more requests wait than the queue has room for. -/
theorem bounded (run : (server w config capacity world).Run past s) :
    s.queue.capacity = capacity ∧ s.queue.queue.length ≤ capacity := by
  induction run with
  | start initial =>
    cases initial
    exact ⟨rfl, Nat.zero_le _⟩
  | next earlier step before =>
    obtain ⟨same, fits⟩ := before
    cases step with
    | push request =>
      simp only [Server.push, RequestQueue.tryPush]
      split
      · exact ⟨same, fits⟩
      · rename_i room
        rw [not_or, not_le, same] at room
        refine ⟨same, ?_⟩
        rw [List.length_append]
        exact room.2
    | close => exact ⟨same, fits⟩
    | run stepped =>
      obtain ⟨_, kept, fewer⟩ := keeps earlier stepped
      exact ⟨kept.trans same, fewer.length_le.trans fits⟩

/-- A thread that cannot go on has nothing left to do. -/
theorem rests (engine : w.OnlyDecodeThrows) (run : (server w config capacity world).Run past s)
    (stops : (worker w config).step s.thread s.queue = none) : s.queue.queue = [] ∧ s.thread.held = [] := by
  refine both (fun _ s => (worker w config).step s.thread s.queue = none →
    s.queue.queue = [] ∧ s.thread.held = []) ?_ ?_ run stops
  · intro past t run stops
    have stops : Static.step w (config.construct w.caps) t.thread t.queue = none :=
      Option.map_eq_none_iff.mp stops
    obtain ⟨empty, idle, _⟩ := Server.static_rests engine run stops
    exact ⟨empty, idle⟩
  · intro past t run stops
    have stops : Continuous.step w (config.construct w.caps) t.thread t.queue = none :=
      Option.map_eq_none_iff.mp stops
    obtain ⟨empty, idle, _⟩ := Server.continuous_rests engine run stops
    exact ⟨empty, idle⟩

/-- Only a request whose flag is up is delivered as cancelled. -/
theorem flagged {flags : Nat → Bool}
    (run : ((server w config capacity world).guarded (Server.Heeds (asks w) flags)).Run past s) :
    FlaggedLog flags past := by
  rcases run_mode run with ⟨_, t, rfl, moded⟩ | ⟨_, t, rfl, moded⟩
  · refine (Server.static_flagged_run (moded.mono ?_)).2
    intro s events t heeds id asked
    exact (heeds id asked).imp_left fun same => Thread.static.inj same
  · refine (Server.flagged_run (moded.mono ?_)).2
    intro s events t heeds id asked
    exact (heeds id asked).imp_left fun same => Thread.continuous.inj same

end Thread

end MicroVllm
