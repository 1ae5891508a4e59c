import MicroVllm.Lib.Source
import MicroVllm.Scheduler.Budget

/-! # Engines with a state of their own for each sequence

What is sampled for a sequence may depend on more than the tokens in its slot: a sampler with a seed has drawn
some numbers, one with a penalty remembers what it has drawn.  Here an engine keeps a source for each slot,
which absorbs what is submitted for the slot and draws what is sampled.  It may rely on the scheduler: that a
batch is within its limit and has one item for each slot, in the place where the last one ended, and that a
slot has been released before it is begun again.  It need not clear the slot itself.

Without prefix caching the scheduler keeps to this.  So what is sampled for a request is the stream that its
source produces alone, from its prompt and its own tokens, however it was chunked, batched and preempted.
-/

namespace MicroVllm

/-- Slots as an engine sees them: the source one holds, and whether nothing is left in one. -/
structure SlotView (σ β : Type) where
  holds : σ → Nat → β → Prop
  clean : σ → Nat → Prop

namespace SlotView

variable {σ β : Type} (v : SlotView σ β)

/-- From `s` to `s'` nothing becomes of the slots in `P`. -/
def Spares (P : Nat → Prop) (s s' : σ) : Prop :=
  ∀ seq, P seq → (∀ b, v.holds s seq b → v.holds s' seq b) ∧ (v.clean s seq → v.clean s' seq)

theorem Spares.trans {v : SlotView σ β} {P Q : Nat → Prop} {s s' s'' : σ} (first : v.Spares P s s')
    (second : v.Spares Q s' s'') : v.Spares (fun seq => P seq ∧ Q seq) s s'' :=
  fun seq both => ⟨fun b held => (second seq both.2).1 b ((first seq both.1).1 b held),
    fun clean => (second seq both.2).2 ((first seq both.1).2 clean)⟩

theorem Spares.mono {v : SlotView σ β} {P Q : Nat → Prop} {s s' : σ} (spares : v.Spares P s s')
    (fewer : ∀ seq, Q seq → P seq) : v.Spares Q s s' := fun seq inside => spares seq (fewer seq inside)

/-- Nor does a call that spares them all make a difference to what has been released. -/
theorem Spares.told {v : SlotView σ β} {released : List Nat} {s s' s'' : σ} (spares : v.Spares (· ∉ released) s s')
    (clean : ∀ seq ∈ released, v.clean s' seq) (call : v.Spares (fun _ => True) s' s'') :
    v.Spares (· ∉ released) s s'' ∧ ∀ seq ∈ released, v.clean s'' seq :=
  ⟨(spares.trans call).mono fun _ out => ⟨out, trivial⟩, fun seq gone => (call seq trivial).2 (clean seq gone)⟩

/-- A batch as the engine may expect it. -/
structure InOrder (a : Source SamplingParams Token β) (nBatch : Nat) (s : σ) (items : List BatchItem) : Prop where
  once : (items.map (·.seq)).Nodup
  within : tokensOf items ≤ nBatch
  placed : ∀ item ∈ items, item.tokens ≠ [] ∧
    ∃ b, v.holds s item.seq b ∧ item.pos0 = a.size b ∧ a.size b + item.tokens.length ≤ 2 ^ 31

end SlotView

/-- The engine keeps a source for each slot.  A batch in order that it fails to decode, with a message among
    `fails`, may spoil the slots that are in it. -/
structure Steers {σ β : Type} (w : World σ) (a : Source SamplingParams Token β) extends SlotView σ β where
  fails : String → Prop
  throws : w.OnlyDecodeThrows
  onText : ∀ s sink delta, toSlotView.Spares (fun _ => True) s (w.onText sink delta s)
  onFinish : ∀ s sink reason usage, toSlotView.Spares (fun _ => True) s (w.onFinish sink reason usage s)
  onError : ∀ s sink message, toSlotView.Spares (fun _ => True) s (w.onError sink message s)
  begins : ∀ s seq params, clean s seq → holds (w.beginSequence seq params s).2 seq (a.start params) ∧
    toSlotView.Spares (· ≠ seq) s (w.beginSequence seq params s).2
  releases : ∀ s seq, clean (w.releaseSequence seq s) seq ∧
    toSlotView.Spares (· ≠ seq) s (w.releaseSequence seq s)
  decodes : ∀ s s' items steps, toSlotView.InOrder a w.caps.nBatch s items →
    w.decode items s = (.ok steps, s') →
    (∀ item ∈ items, ∀ b, holds s item.seq b → holds s' item.seq (a.serve item.tokens item.sample b).2) ∧
    List.Forall₂ (fun item step => ∀ b, holds s item.seq b →
      (a.serve item.tokens item.sample b).1 = some (step.token, step.isEog)) (items.filter (·.sample)) steps ∧
    toSlotView.Spares (· ∉ items.map (·.seq)) s s'
  spoils : ∀ s s' items message, toSlotView.InOrder a w.caps.nBatch s items →
    w.decode items s = (.error message, s') →
    fails message ∧ toSlotView.Spares (· ∉ items.map (·.seq)) s s'

/-- An engine among sinks that have a state of their own. -/
def IModelEngine.among {σ ρ : Type} (engine : IModelEngine σ) (sinks : ITokenSink ρ) : World (σ × ρ) where
  caps := engine.caps
  tokenize := engine.tokenize
  tokenize_length := engine.tokenize_length
  piece := engine.piece
  beginSequence seq params s :=
    ((engine.beginSequence seq params s.1).1, (engine.beginSequence seq params s.1).2, s.2)
  decode items s := ((engine.decode items s.1).1, (engine.decode items s.1).2, s.2)
  releaseSequence seq s := (engine.releaseSequence seq s.1, s.2)
  copySequence src dst nTokens s :=
    ((engine.copySequence src dst nTokens s.1).1, (engine.copySequence src dst nTokens s.1).2, s.2)
  onText sink delta s := (s.1, sinks.onText sink delta s.2)
  onFinish sink reason usage s := (s.1, sinks.onFinish sink reason usage s.2)
  onError sink message s := (s.1, sinks.onError sink message s.2)
  cancelled sink s := sinks.cancelled sink s.2

/-- Sinks that only listen. -/
def ITokenSink.mute : ITokenSink Unit where
  onText _ _ s := s
  onFinish _ _ _ s := s
  onError _ _ s := s
  cancelled _ _ := false

theorem Port.world_decode {σ : Type} {w : World σ} {port port' : Port σ} {items : List BatchItem}
    {result : Except String (List GenStep)} (called : port.decode w items = (result, port')) :
    w.decode items port.world = (result, port'.world) := by
  cases called
  rfl

/-! ## Calls on the side -/

/-- Calls of sinks and notes, and of the engine only to release slots. -/
inductive Port.Aside {σ : Type} (w : World σ) (port : Port σ) : List Nat → Port σ → Prop where
  | refl : Port.Aside w port [] port
  | note {released port'} (e : Event) (calls : Port.Aside w port released port') :
      Port.Aside w port released (port'.note e)
  | onText {released port'} (sink : SinkRef) (delta : Text) (calls : Port.Aside w port released port') :
      Port.Aside w port released (port'.onText w sink delta)
  | onFinish {released port'} (sink : SinkRef) (reason : FinishReason) (usage : Usage)
      (calls : Port.Aside w port released port') : Port.Aside w port released (port'.onFinish w sink reason usage)
  | onError {released port'} (sink : SinkRef) (message : String) (calls : Port.Aside w port released port') :
      Port.Aside w port released (port'.onError w sink message)
  | release {released port'} (seq : Nat) (calls : Port.Aside w port released port') :
      Port.Aside w port (seq :: released) (port'.releaseSequence w seq)

namespace Port.Aside

variable {σ β : Type} {w : World σ} {a : Source SamplingParams Token β} {port port' : Port σ} {released : List Nat}

/-- The engine is left with what it held, less the slots that were released. -/
theorem spares (st : Steers w a) (calls : port.Aside w released port') :
    st.Spares (· ∉ released) port.world port'.world ∧ ∀ seq ∈ released, st.clean port'.world seq := by
  induction calls with
  | refl => exact ⟨fun _ _ => ⟨fun _ held => held, fun clean => clean⟩, by simp⟩
  | note e calls ih => exact ih
  | @onText released port' sink delta calls ih =>
    exact SlotView.Spares.told ih.1 ih.2 (st.onText port'.world sink delta)
  | @onFinish released port' sink reason usage calls ih =>
    exact SlotView.Spares.told ih.1 ih.2 (st.onFinish port'.world sink reason usage)
  | @onError released port' sink message calls ih =>
    exact SlotView.Spares.told ih.1 ih.2 (st.onError port'.world sink message)
  | @release released port' seq calls ih =>
    obtain ⟨clean, others⟩ := st.releases port'.world seq
    refine ⟨(ih.1.trans others).mono ?_, ?_⟩
    · intro other out
      rw [List.mem_cons, not_or] at out
      exact ⟨out.2, out.1⟩
    · intro other gone
      by_cases same : other = seq
      · rw [same]
        exact clean
      · exact (others other same).2 (ih.2 other ((List.mem_cons.mp gone).resolve_left same))

theorem flushUpto (calls : port.Aside w released port') (s : SequenceState) (upto : Nat) :
    port.Aside w released (s.flushUpto w upto port').2 := by
  unfold SequenceState.flushUpto
  split
  · exact .onText _ _ calls
  · exact calls

theorem finish (calls : port.Aside w released port') (s : SequenceState) :
    port.Aside w released (s.finish w port').2 := by
  unfold SequenceState.finish
  split
  · exact calls
  · simp only
    split
    · exact .onError _ _ calls
    · split
      · exact .onFinish _ _ _ (calls.flushUpto _ _)
      · exact .onFinish _ _ _ calls

theorem accept {s s' : SequenceState} {step : GenStep} {goesOn : Bool}
    (accepted : s.accept w step port = (goesOn, s', port')) : port.Aside w [] port' := by
  have all : port.Aside w [] (s.accept w step port).2.2 := by
    unfold SequenceState.accept
    split
    · exact .refl
    · split
      · exact .refl
      · split
        · exact .refl
        · simp only
          split
          · exact flushUpto .refl _ _
          · split
            · exact (flushUpto .refl _ _).flushUpto _ _
            · exact flushUpto .refl _ _
  rw [accepted] at all
  exact all

theorem deliver (calls : port.Aside w released port') (job : Job) :
    port.Aside w released (Scheduler.deliver job port') :=
  .note _ (.note _ (.note _ (.note _ calls)))

end Port.Aside

/-! ## What a move calls -/

namespace Continuous

variable {σ : Type} {w : World σ} {config : SchedulerConfig} {s s' : Continuous σ} {q q' : RequestQueue}
variable {lostBlocks lostSlots : List Nat}

/-- What a move has the engine do: begin a free slot for the request it takes in hand, decode a batch, or
    release the slots of the jobs that leave. -/
inductive Engages (w : World σ) (config : SchedulerConfig) (s s' : Continuous σ) : Prop where
  | begins {request slot} (pc : s.pc = .admitNext) (waits : request ∈ s.pending) (free : slot ∈ s.freeSlots)
      (active : s'.active = s.active) (hand : s'.pc = .reserve (Scheduler.newJob w request slot))
      (called : s.port.beginSequence w slot request.spec.sampling = (.ok (), s'.port))
  | decodes {steps} (pc : s.pc = .build) (active : s'.active = (buildBatch w.caps.nBatch config s.active).active)
      (accept : s'.pc = .accept (buildBatch w.caps.nBatch config s.active).sampling steps [])
      (called : s.port.decode w (buildBatch w.caps.nBatch config s.active).items = (.ok steps, s'.port))
  | fails {message} (pc : s.pc = .build) (sweep : s'.pc = .sweep 0 (some []))
      (active : s'.active = (buildBatch w.caps.nBatch config s.active).active.map (·.failed message))
      (called : s.port.decode w (buildBatch w.caps.nBatch config s.active).items = (.error message, s'.port))
  | skips (pc : s.pc = .build) (nothing : (buildBatch w.caps.nBatch config s.active).items = [])
      (sweep : s'.pc = .sweep 0 (some []))
      (active : s'.active = (buildBatch w.caps.nBatch config s.active).active) (port : s'.port = s.port)
  | aside {released} (pc : s.pc ≠ .build) (hand : s'.pc.inHand = []) (calls : s.port.Aside w released s'.port)
      (gone : ∀ seq ∈ released, seq ∉ seqs s'.crew)
      (left : ∀ seq ∈ seqs s.crew, seq ∈ seqs s'.crew ∨ seq ∈ released)

/-- Nothing leaves, and the engine is not called. -/
theorem Engages.same (pc : s.pc ≠ .build) (hand : s'.pc.inHand = []) (calls : s.port.Aside w [] s'.port)
    (crew : seqs s'.crew = seqs s.crew) : Engages w config s s' :=
  .aside pc hand calls (by simp) fun seq member => .inl (by rwa [crew])

/-- An active job leaves. -/
theorem Engages.leave {before after : List Job} {job : Job} (pc : s.pc ≠ .build) (layout : Layout w config s)
    (here : s.active = before ++ job :: after) (active : s'.active = before ++ after) (hand : s.pc.inHand = [])
    (hand' : s'.pc.inHand = []) (calls : s.port.Aside w [job.state.seq] s'.port) : Engages w config s s' := by
  have apart := seqs_around (here ▸ layout.nodup)
  refine .aside pc hand' calls ?_ ?_
  · intro seq gone stays
    rw [List.mem_singleton.mp gone, crew, active, hand', List.append_nil] at stays
    obtain ⟨other, member, same⟩ := mem_seqs.mp stays
    rcases List.mem_append.mp member with early | late
    · exact apart.1 other early same
    · exact apart.2 other late same
  · intro seq member
    rw [crew, hand, here, List.append_nil] at member
    rw [crew, hand', active, List.append_nil]
    simp only [seqs_append, seqs_cons, List.mem_append, List.mem_cons, List.not_mem_nil, or_false] at member ⊢
    tauto

/-- Without donors there is nothing to evict. -/
theorem Books.no_reclaim (books : Books config s lostBlocks lostSlots) (none : donorSlots config = [])
    {members : Scheduler σ} (evicted : s.reclaimDonorBlocks w = some members) : False := by
  obtain ⟨donor, cache, found, _⟩ := (Tracker.history w .token true).contents_reclaim [] evicted
  obtain ⟨hash, member, kept, _⟩ := PrefixCache.evictLruRetained_eq_some found
  have donates := books.ledger.donor_of_retained member kept
  rw [none] at donates
  cases donates

/-- And nothing is kept of a job that retires. -/
theorem Books.retire_aside (books : Books config s lostBlocks lostSlots) (layout : Layout w config s)
    (none : donorSlots config = []) {job : Job} (active : job ∈ s.active) :
    s.port.Aside w [job.state.seq] (s.retire w config job).port := by
  have same := SequenceState.finish_same (w := w) job.state s.port
  have kept : Scheduler.retainPrefix w config { job with state := (job.state.finish w s.port).1 }
      (s.dismiss w job) = s.dismiss w job := by
    have ledger := books.ledger.dismiss (w := w) (layout.lt_of_active active)
    generalize retained : Scheduler.retainPrefix w config _ _ = m
    have retains := Scheduler.dismiss_retains w config job s.toScheduler
    rw [retained] at retains
    have empty : ∀ {slot m₁}, (s.dismiss w job).takeSlot w = some (slot, m₁) → False := by
      intro slot m₁ taken
      have donates := ledger.taken_donorSlot taken
      rw [none] at donates
      cases donates
    cases retains with
    | nothing => rfl
    | notBegun taken | notCopied taken | kept _ _ _ taken => exact (empty taken).elim
  rw [Scheduler.retire_eq, kept, Scheduler.dismiss_port, same.seq]
  exact .deliver (.note _ (.release _ (.finish .refl _))) _

theorem Move.engages (move : Move w config s q s' q') (layout : Layout w config s)
    (books : Books config s lostBlocks lostSlots) (none : donorSlots config = [])
    (off : config.prefixCaching = false) (throws : w.OnlyDecodeThrows) : Engages w config s s' := by
  have around : ∀ {before after : List Job} {job job' : Job}, s.active = before ++ job :: after →
      job'.state.seq = job.state.seq → seqs (before ++ job' :: after) = seqs s.active := by
    intro before after job job' here same
    simp [here, same]
  cases move with
  | make pc next free begun =>
    exact .begins pc (by rw [next]; exact List.mem_cons_self) (by rw [free]; exact List.mem_cons_self) rfl rfl begun
  | makeCrash pc next free begun => simp [Port.beginSequence, throws.begins] at begun
  | adoptCrash pc fits same copied => simp [Port.copySequence, throws.copies] at copied
  | adopt pc fits same caching => simp [off] at caching
  | giveUp pc short evicted | reclaimDonor pc here full evicted => exact (books.no_reclaim none evicted).elim
  | buildNothing pc nothing => exact .skips pc nothing rfl rfl rfl
  | decode pc something returned => exact .decodes pc rfl rfl returned
  | decodeFail pc something threw => exact .fails pc rfl rfl threw
  | take pc => exact .same (by simp [pc]) (by simp [pc, Pc.inHand]) .refl rfl
  | admitted pc =>
    refine .same (by simp [pc]) ?_ .refl ?_
    · simp only
      split <;> rfl
    · simp only [crew, pc]
      split <;> rfl
  | @reject job pc unfinished full alone =>
    refine .aside (by simp [pc]) rfl (.deliver (.release _ (.finish .refl _)) _) ?_ ?_
    · simp [crew, Continuous.reject, Pc.inHand, alone]
    · simp [crew, pc, Pc.inHand, alone]
  | @defer job pc unfinished full busy =>
    refine .aside (by simp [pc]) (by simp [Continuous.defer, busy, Pc.inHand]) (.note _ (.release _ .refl)) ?_ ?_
    · intro seq gone stays
      simp only [crew, Continuous.defer, busy, Pc.inHand, if_false, List.append_nil] at stays
      rw [List.mem_singleton.mp gone] at stays
      exact layout.not_active_of_free (layout.hand_free pc) stays
    · intro seq member
      simpa [crew, Continuous.defer, busy, pc, Pc.inHand] using member
  | placeFailed pc | place pc =>
    exact .same (by simp [pc]) rfl (.note _ .refl) (by simp [crew, Continuous.place, pc, Pc.inHand])
  | acceptEnd pc | acceptStray pc => exact .same (by simp [pc]) rfl .refl (by simp [crew, pc, Pc.inHand])
  | acceptFail pc =>
    refine .same (by simp [pc]) rfl .refl ?_
    simp only [crew, failAll, pc, Pc.inHand, List.append_nil, seqs, List.map_map]
    refine List.map_congr_left fun job _ => ?_
    simp only [Function.comp_apply]
    split <;> rfl
  | acceptFinish pc here accepted =>
    refine .same (by simp [pc]) rfl ((Port.Aside.accept accepted).finish _) ?_
    simp only [crew, pc, Pc.inHand, List.append_nil]
    exact around here ((SequenceState.finish_same _ _).seq.trans (SequenceState.accept_same accepted).seq)
  | acceptStarve pc here accepted | acceptGrow pc here accepted =>
    refine .same (by simp [pc]) rfl (.accept accepted) ?_
    simp only [crew, pc, Pc.inHand, List.append_nil]
    exact around here (SequenceState.accept_same accepted).seq
  | acceptPublish pc here accepted grown published =>
    subst published
    refine .same (by simp [pc]) rfl (.note _ (.accept accepted)) ?_
    simp only [crew, pc, Pc.inHand, List.append_nil]
    exact around here (SequenceState.accept_same accepted).seq
  | @sweepRetire starved before job after pc here finished =>
    refine .leave (by simp [pc]) layout here rfl (by rw [pc]; rfl) (by rw [pc]; rfl) ?_
    exact books.retire_aside layout none (by rw [here]; simp)
  | sweepLoop pc => exact .same (by simp [pc]) rfl (.note _ .refl) (by simp [crew, pc, Pc.inHand])
  | resolveFail pc here large failed =>
    subst failed
    refine .same (by simp [pc]) rfl (.finish .refl _) ?_
    simp only [crew, pc, Pc.inHand, List.append_nil]
    exact around here (SequenceState.finish_same _ _).seq
  | reclaimGrow pc here grown | preemptGrow pc here grown =>
    refine .same (by simp [pc]) rfl .refl ?_
    simp only [crew, pc, Pc.inHand, List.append_nil]
    exact around here rfl
  | preemptEvict pc starving named full here =>
    refine .leave (by simp [pc]) layout here rfl (by rw [pc]; rfl) (by rw [pc]; rfl) ?_
    exact .note _ (.note _ (.release _ .refl))
  | leave pc | finish pc | sweepKeep pc | sweepResolve pc | resolveEnd pc | resolveGone pc
  | resolveRoom pc | reclaimGone pc | reclaimEnd pc | preemptGone pc | preemptEnd pc =>
    exact .same (by simp [pc]) rfl .refl (by simp [crew, pc, Pc.inHand])

end Continuous

/-! ## Where the source of a job is -/

section Sources

variable {σ β : Type} {w : World σ} (a : Source SamplingParams Token β)

/-- What the source of a request draws after the request has accepted some tokens: the stream knows them. -/
def drawnBy (w : World σ) : Choice := fun spec tokens step =>
  (step.token, step.isEog) = a.answer spec.sampling (w.tokenize spec.prompt true) tokens.length

/-- The source in the slot of a job: it has absorbed a part of the prompt, or it has drawn a step that is due or
    was accepted last. -/
def Job.source (due : Bool) (job : Job) : β :=
  if job.state.prefilled < job.state.prompt.length then
    a.absorbs (job.state.prompt.take job.state.prefilled) (a.start job.request.spec.sampling)
  else
    a.after job.request.spec.sampling job.state.prompt
      (if due then job.state.usage.completionTokens else job.state.usage.completionTokens - 1)

variable {a} {job job' : Job} {held : Option (Slot Token)} {tokens cells : List Token}

theorem Seat.Running.prompt_eq {C : Choice} {seat : Seat Token} (running : seat.Running w C tokens cells) :
    seat.job.state.prompt = w.tokenize seat.job.request.spec.prompt true := running.generates.prompt_eq

theorem Seat.Running.count_eq {C : Choice} {seat : Seat Token} (running : seat.Running w C tokens cells) :
    seat.job.state.usage.completionTokens = tokens.length := (running.generates.counted rfl).1

/-- The token to feed back is the one drawn last. -/
theorem Generates.pending_drawn {spec : RequestSpec} {s : SequenceState}
    (generates : Generates w (drawnBy a w spec) (spec.opening w) tokens s) (some : tokens ≠ []) :
    tokens.getLast some = (a.answer spec.sampling (w.tokenize spec.prompt true) (tokens.length - 1)).1 := by
  cases generates with
  | start => exact absurd rfl some
  | @next tokens s step s' earlier sampled accepts =>
    have drawn : step.token = _ := congrArg Prod.fst sampled
    simp [drawn]

/-- The item that feeds the last token back takes the source to its next draw. -/
theorem Seat.Running.serves_decode (running : Seat.Running w (drawnBy a w) ⟨job, none, held⟩ tokens cells)
    (prompt : w.tokenize job.request.spec.prompt true ≠ []) (through : job.state.prefilling = false) :
    a.serve job.state.decodeItem.tokens true (job.source a false) =
      (some (a.answer job.request.spec.sampling (w.tokenize job.request.spec.prompt true) tokens.length),
        job.source a true) := by
  have same : job.state.prompt = _ := running.prompt_eq
  have count : job.state.usage.completionTokens = _ := running.count_eq
  obtain ⟨_, generates, _, phase⟩ := running
  simp only at generates phase
  simp only [SequenceState.prefilling, SequenceState.prefillRemaining, gt_iff_lt,
    decide_eq_false_iff_not] at through
  cases phase with
  | prefilling more => omega
  | decoding all begun last =>
    have some : tokens ≠ [] := begun.resolve_left (by rw [same]; exact prompt)
    obtain ⟨accepted, token, rfl⟩ := (List.eq_nil_or_concat' tokens).resolve_left some
    have pending : token = job.state.pending := by
      have ends := congrArg List.getLast? last
      simpa using ends
    have drawn := generates.pending_drawn some
    rw [List.getLast_concat, List.length_append, List.length_singleton, Nat.add_sub_cancel, pending] at drawn
    have here : ∀ due, job.source a due = a.after job.request.spec.sampling
        (w.tokenize job.request.spec.prompt true) (if due then accepted.length + 1 else accepted.length) := by
      intro due
      rw [Job.source, if_neg (by omega), count, same, List.length_append, List.length_singleton, Nat.add_sub_cancel]
    rw [here, here, SequenceState.decodeItem, drawn, List.length_append, List.length_singleton]
    exact a.serve_next ..

/-- A chunk of the prompt is absorbed, and the one that completes it is followed by the first draw. -/
theorem Seat.Running.serves_chunk {take : Nat} (running : Seat.Running w (drawnBy a w) ⟨job, none, held⟩ tokens cells)
    (positive : 0 < take) (within : take ≤ job.state.prefillRemaining) :
    a.serve (job.state.takePrefillChunk take).1.tokens (job.state.takePrefillChunk take).1.sample (job.source a false) =
      (if (job.state.takePrefillChunk take).1.sample then
          some (a.answer job.request.spec.sampling (w.tokenize job.request.spec.prompt true) tokens.length)
        else none,
        Job.source a (job.state.takePrefillChunk take).1.sample
          { job with state := (job.state.takePrefillChunk take).2 }) := by
  have same : job.state.prompt = _ := running.prompt_eq
  have count : job.state.usage.completionTokens = _ := running.count_eq
  obtain ⟨_, _, _, phase⟩ := running
  simp only at phase
  simp only [SequenceState.prefillRemaining] at within
  cases phase with
  | decoding all => omega
  | prefilling more fresh =>
    subst fresh
    have chunk : (job.state.takePrefillChunk take).1.tokens =
        (job.state.prompt.drop job.state.prefilled).take take := by
      simp [SequenceState.takePrefillChunk, SequenceState.prefillRemaining, Nat.min_eq_left within]
    have submitted : (job.state.takePrefillChunk take).2.prefilled = job.state.prefilled + take := by
      simp [SequenceState.takePrefillChunk, SequenceState.prefillRemaining, Nat.min_eq_left within]
    have samples : (job.state.takePrefillChunk take).1.sample =
        decide (job.state.prompt.length - (job.state.takePrefillChunk take).2.prefilled = 0) := rfl
    have before : job.source a false = a.absorbs (job.state.prompt.take job.state.prefilled)
        (a.start job.request.spec.sampling) := if_pos more
    rw [submitted] at samples
    by_cases whole : job.state.prefilled + take = job.state.prompt.length
    · have rest : job.state.prompt.take job.state.prefilled ++
          (job.state.prompt.drop job.state.prefilled).take take = w.tokenize job.request.spec.prompt true := by
        rw [← List.take_add, whole, List.take_length, same]
      have after : Job.source a true { job with state := (job.state.takePrefillChunk take).2 } =
          a.after job.request.spec.sampling (w.tokenize job.request.spec.prompt true) 0 := by
        rw [Job.source, if_neg (by rw [submitted]; show ¬ _ < job.state.prompt.length; omega)]
        show a.after job.request.spec.sampling job.state.prompt job.state.usage.completionTokens = _
        rw [count, same, List.length_nil]
      rw [samples, whole, Nat.sub_self, decide_eq_true rfl, chunk, before, after]
      exact a.serve_rest rest
    · have after : Job.source a false { job with state := (job.state.takePrefillChunk take).2 } =
          a.absorbs (job.state.prompt.take (job.state.prefilled + take)) (a.start job.request.spec.sampling) := by
        rw [Job.source, if_pos (by rw [submitted]; show _ < job.state.prompt.length; omega), submitted]
        rfl
      rw [samples, decide_eq_false (by omega), chunk, before, after, List.take_add, a.absorbs_append]
      rfl

/-- An item takes the source of its job on, and if it samples then to what is due. -/
theorem Seat.Running.serves {item : BatchItem} (running : Seat.Running w (drawnBy a w) ⟨job, none, held⟩ tokens cells)
    (prompt : w.tokenize job.request.spec.prompt true ≠ []) (served : Served job job' [item]) :
    a.serve item.tokens item.sample (job.source a false) =
      (if item.sample then
          some (a.answer job.request.spec.sampling (w.tokenize job.request.spec.prompt true) tokens.length)
        else none,
        job'.source a item.sample) := by
  cases served with
  | decode _ through => exact running.serves_decode prompt through
  | prefill _ positive within => exact running.serves_chunk positive within

/-- The source has absorbed what the slot holds. -/
theorem Seat.Running.source_size (running : Seat.Running w (drawnBy a w) ⟨job, none, held⟩ tokens cells)
    (prompt : w.tokenize job.request.spec.prompt true ≠ []) : a.size (job.source a false) = cells.length := by
  have same : job.state.prompt = _ := running.prompt_eq
  have count : job.state.usage.completionTokens = _ := running.count_eq
  obtain ⟨_, _, _, phase⟩ := running
  simp only at phase
  cases phase with
  | prefilling more _ holds =>
    rw [Job.source, if_pos more, a.size_absorbs, a.size_start, holds, Nat.zero_add]
  | decoding all begun last =>
    have some : tokens ≠ [] := begun.resolve_left (by rw [same]; exact prompt)
    have positive := List.length_pos_iff.mpr some
    have length := congrArg List.length last
    rw [RequestSpec.lead_eq prompt, ← same] at length
    simp only [List.length_append, List.length_singleton] at length
    rw [Job.source, if_neg (by omega), a.size_after, count]
    simp only [Bool.false_eq_true, if_false]
    omega

/-- What an item leaves behind has positions that fit their type. -/
theorem Seat.Running.item_bound {C : Choice} {item : BatchItem}
    (running : Seat.Running w C ⟨job, none, held⟩ tokens cells) (served : Served job job' [item])
    (positioned : job.request.Positioned w) : cells.length + item.tokens.length ≤ 2 ^ 31 := by
  have same : job.state.prompt = _ := running.prompt_eq
  have spent : tokens.length ≤ job.request.spec.maxTokens.toNat := (running.generates.counted rfl).2
  have small := positioned.small
  obtain ⟨_, _, _, phase⟩ := running
  simp only at phase
  rw [← same] at small
  cases served with
  | decode _ through =>
    simp only [SequenceState.prefilling, SequenceState.prefillRemaining, gt_iff_lt,
      decide_eq_false_iff_not] at through
    cases phase with
    | prefilling more => omega
    | decoding _ _ last =>
      have length := congrArg List.length last
      rw [RequestSpec.lead_eq positioned.nonempty, ← same] at length
      simp only [List.length_append, List.length_singleton] at length
      simp only [SequenceState.decodeItem, List.length_singleton]
      omega
  | prefill _ positive within =>
    rw [length_takePrefillChunk within]
    simp only [SequenceState.prefillRemaining] at within
    cases phase with
    | decoding all => omega
    | prefilling more _ holds =>
      rw [holds, List.length_take]
      omega

end Sources

/-! ## The invariant -/

/-- A batch stays within its limit. -/
theorem buildBatch_within (nBatch : Nat) (config : SchedulerConfig) (active : List Job) :
    tokensOf (buildBatch nBatch config active).items ≤ nBatch := by
  obtain ⟨_, _, _, within, _⟩ := buildPrefills_chunks
    (if config.prefillChunk = 0 then nBatch else config.prefillChunk)
    (nBatch - ((active.filter Job.ready).take nBatch).length) active
  have decodes : tokensOf (((active.filter Job.ready).take nBatch).map fun job => job.state.decodeItem) =
      ((active.filter Job.ready).take nBatch).length := by
    simp [tokensOf, Function.comp_def, SequenceState.decodeItem]
  have most : ((active.filter Job.ready).take nBatch).length ≤ nBatch := List.length_take_le _ _
  simp only [buildBatch, buildDecodes_eq]
  rw [tokensOf, List.map_append, List.sum_append]
  rw [tokensOf] at decodes within
  omega

theorem Served.none_or_one {job job' : Job} {items : List BatchItem} (served : Served job job' items) :
    items = [] ∧ job' = job ∨ ∃ item, items = [item] ∧ job.state.finished = false := by
  cases served with
  | idle => exact .inl ⟨rfl, rfl⟩
  | decode unfinished => exact .inr ⟨_, rfl, unfinished⟩
  | prefill unfinished => exact .inr ⟨_, rfl, unfinished⟩

/-- What a job is served with leaves its verdict alone. -/
theorem Served.verdict {job job' : Job} {items : List BatchItem} (served : Served job job' items) :
    job'.state.reason = job.state.reason ∧ job'.state.error = job.state.error := by
  cases served <;> exact ⟨rfl, rfl⟩

theorem Job.failed_finished (message : String) (job : Job) : (job.failed message).state.finished = true := by
  unfold Job.failed
  split
  · assumption
  · rfl

theorem Job.failed_seq (message : String) (job : Job) : (job.failed message).state.seq = job.state.seq := by
  unfold Job.failed
  split <;> rfl

theorem Scheduler.newJob_reason_ne {σ : Type} (w : World σ) (request : Request) (slot : Nat) :
    (Scheduler.newJob w request slot).state.reason ≠ .error := by
  unfold Scheduler.newJob Scheduler.newState Scheduler.checkContext
  simp only
  split <;> split <;> simp [SequenceState.make, SequenceState.fail, SequenceState.stopWith]

/-- The source of a job in hand is at its start. -/
theorem Job.source_newJob {σ β : Type} {w : World σ} {a : Source SamplingParams Token β} {request : Request}
    {slot : Nat} {due : Bool} (prompt : w.tokenize request.spec.prompt true ≠ []) :
    (Scheduler.newJob w request slot).source a due = a.start request.spec.sampling := by
  have same : (Scheduler.newJob w request slot).state.prompt = w.tokenize request.spec.prompt true :=
    Scheduler.newJob_prompt ..
  have fresh : (Scheduler.newJob w request slot).state.prefilled = 0 := Scheduler.newJob_prefilled ..
  rw [Job.source, if_pos (by rw [fresh, same]; exact List.length_pos_iff.mpr prompt), fresh]
  rfl

theorem Port.world_beginSequence {σ : Type} {w : World σ} {port port' : Port σ} {seq : Nat} {params : SamplingParams}
    {result : Except String Unit} (called : port.beginSequence w seq params = (result, port')) :
    (w.beginSequence seq params port.world).2 = port'.world := by
  cases called
  rfl

/-! ### Stages without the engine -/

/-- The error of a state that stops by itself is none of its own. -/
theorem SequenceState.Accepts.error_eq {σ : Type} {w : World σ} {s s' : SequenceState} {step : GenStep} {goesOn : Bool}
    (accepts : s.Accepts w step goesOn s') (error : s'.reason = .error) :
    s.reason = .error ∧ s'.error = s.error := by
  cases accepts with
  | done | goesOn => exact ⟨error, rfl⟩
  | eos | budget | stop | cancelled => cases error

theorem SequenceState.closed_error (s : SequenceState) : s.closed.error = s.error := by
  unfold closed
  split
  · rfl
  · split <;> rfl

/-- No step is missing among those that are waited for. -/
def Pc.Answered : Pc → Prop
  | .accept sampling steps _ => sampling.length ≤ steps.length
  | _ => True

namespace Continuous

theorem not_tryFails {σ : Type} {w : World σ} {config : SchedulerConfig} {s : Continuous σ} (pc : s.pc ≠ .build)
    (answered : s.pc.Answered) : s.tryFails w config ≠ true := by
  intro fails
  unfold tryFails at fails
  cases here : s.pc with
  | build => exact pc here
  | accept sampling steps starved =>
    rw [here] at fails answered
    cases sampling with
    | nil => cases fails
    | cons owner sampling =>
      cases steps with
      | nil => simp [Pc.Answered] at answered
      | cons => cases fails
  | _ =>
    rw [here] at fails
    cases fails

end Continuous

section Stages

variable {σ β : Type} {w : World σ} {config : SchedulerConfig} {A : Slot Token → GenStep → Prop} {keeps : Prop}
variable {s : Continuous σ} {kv : Kv Token} {seat seat' : Seat Token}

theorem Stage.seq_eq (stage : Stage w config .token A keeps s kv seat seat') :
    seat'.job.state.seq = seat.job.state.seq := by
  cases stage with
  | stay | grow | adopt => rfl
  | serve _ _ served => exact served.seq_eq
  | spoil _ _ served => exact (Job.failed_seq ..).trans served.seq_eq
  | drop => exact Job.failed_seq ..
  | goOn _ accepts => exact accepts.same.seq
  | stop _ accepts => exact (SequenceState.finish_same _ _).seq.trans accepts.same.seq
  | overflow => exact (SequenceState.finish_same _ _).seq

/-- A job that runs on has its source where it was. -/
theorem Stage.source_eq (a : Source SamplingParams Token β) (stage : Stage w config .token A keeps s kv seat seat')
    (off : config.prefixCaching = false) (pc : s.pc ≠ .build) (answered : s.pc.Answered)
    (unfinished : seat'.job.state.finished = false) :
    seat.job.state.finished = false ∧
      seat'.job.source a seat'.due.isSome = seat.job.source a seat.due.isSome := by
  cases stage with
  | stay => exact ⟨unfinished, rfl⟩
  | grow running => exact ⟨running, rfl⟩
  | adopt _ caching => simp [off] at caching
  | serve building => exact absurd building pc
  | spoil fails | drop fails => exact absurd fails (Continuous.not_tryFails pc answered)
  | @goOn job step state held table through accepts =>
    have counts : state.usage.completionTokens = job.state.usage.completionTokens + 1 := by
      cases accepts
      rfl
    have prefilled : state.prefilled = job.state.prefilled := by
      cases accepts
      rfl
    have whole : ¬ job.state.prefilled < job.state.prompt.length := by
      simp only [SequenceState.prefilling, SequenceState.prefillRemaining, gt_iff_lt,
        decide_eq_false_iff_not] at through
      omega
    refine ⟨accepts.unfinished_of_goesOn.1, ?_⟩
    rw [Job.source, Job.source, if_neg whole, if_neg]
    · simp [counts, accepts.same.prompt]
    · simpa [accepts.same.prompt, prefilled] using whole
  | stop _ accepts =>
    rw [SequenceState.finish_finished accepts.finished_of_stops] at unfinished
    cases unfinished
  | overflow =>
    rw [SequenceState.finish_finished rfl] at unfinished
    cases unfinished

theorem Stage.failed_of_error (stage : Stage w config .token A keeps s kv seat seat')
    (off : config.prefixCaching = false) (pc : s.pc ≠ .build) (answered : s.pc.Answered)
    (error : seat'.job.state.reason = .error) :
    seat.job.state.reason = .error ∧ seat'.job.state.error = seat.job.state.error := by
  cases stage with
  | stay | grow => exact ⟨error, rfl⟩
  | adopt _ caching => simp [off] at caching
  | serve building => exact absurd building pc
  | spoil fails | drop fails => exact absurd fails (Continuous.not_tryFails pc answered)
  | goOn _ accepts => exact accepts.error_eq error
  | stop _ accepts =>
    simp only [SequenceState.finish_state, SequenceState.closed_reason, SequenceState.closed_error] at error ⊢
    exact accepts.error_eq error
  | overflow =>
    simp only [SequenceState.finish_state, SequenceState.closed_reason] at error
    cases error

end Stages

namespace Continuous

variable {σ β : Type} {w : World σ} {a : Source SamplingParams Token β} {config : SchedulerConfig}
variable {s s' : Continuous σ} {q q' : RequestQueue} {past : List Event} {lostBlocks lostSlots : List Nat}

/-- The slot of every running job holds the source of the job, and every other slot is clean.  Nothing but a
    failed decode makes a job fail. -/
structure Steered (st : Steers w a) (past : List Event) (s : Continuous σ) : Prop where
  exactly : s.Exact w (drawnBy a w) (fun _ => True) (.history w .token true) past
  linked : ∀ job ∈ s.crew, job.state.finished = false →
    st.holds s.port.world job.state.seq (job.source a (s.pc.due job.state.seq).isSome)
  cleaned : ∀ seq, seq ∉ seqs s.crew → st.clean s.port.world seq
  answered : s.pc.Answered
  failed : ∀ job ∈ s.crew, job.state.reason = .error → st.fails job.state.error

variable {st : Steers w a}

namespace Steered

/-- At the time a batch is built, no step is due. -/
theorem running (steered : s.Steered st past) (pc : s.pc = .build) {job : Job} (active : job ∈ s.active)
    (unfinished : job.state.finished = false) :
    ∃ tokens cells, Seat.Running w (drawnBy a w)
      ⟨job, none, (Tracker.history w .token true).contents past s.port job.state.seq⟩ tokens cells := by
  have seat : s.seat (.history w .token true) past job =
      ⟨job, none, (Tracker.history w .token true).contents past s.port job.state.seq⟩ := by
    rw [Continuous.seat, pc]
    rfl
  have exactly := steered.exactly job (List.mem_append_left _ active)
  rw [seat] at exactly
  exact exactly.running unfinished

theorem holds (steered : s.Steered st past) (pc : s.pc = .build) {job : Job} (active : job ∈ s.active)
    (unfinished : job.state.finished = false) : st.holds s.port.world job.state.seq (job.source a false) := by
  have linked := steered.linked job (List.mem_append_left _ active) unfinished
  rw [pc] at linked
  exact linked

/-- A batch is as the engine expects it. -/
theorem inOrder (steered : s.Steered st past) (pc : s.pc = .build) (layout : Layout w config s)
    (positioned : ∀ job ∈ s.active, ¬ job.request.Refused w → job.request.Positioned w) :
    st.InOrder a w.caps.nBatch s.port.world (buildBatch w.caps.nBatch config s.active).items := by
  have fills := buildBatch_fills w.caps.nBatch config layout.nodup
  refine ⟨fills.nodup, buildBatch_within .., fun item member => ?_⟩
  obtain ⟨job, active, owner, job', served⟩ := fills.single member
  have unfinished : job.state.finished = false := by
    cases served with
    | decode unfinished => exact unfinished
    | prefill unfinished => exact unfinished
  obtain ⟨tokens, cells, running⟩ := steered.running pc active unfinished
  have placed := positioned job active running.unrefused
  obtain ⟨nonempty, position⟩ := running.item_inPlace served placed
  have size := running.source_size placed.nonempty
  refine ⟨nonempty, job.source a false, owner ▸ steered.holds pc active unfinished, ?_, ?_⟩
  · rw [position, size]
  · rw [size]
    exact running.item_bound served placed

end Steered

/-- Steps are taken one for each slot. -/
theorem Move.answered (move : Move w config s q s' q') (pc : s.pc ≠ .build) (before : s.pc.Answered) :
    s'.pc.Answered := by
  cases move with
  | buildNothing here | decode here | decodeFail here => exact absurd here pc
  | acceptStray here | acceptFinish here | acceptStarve here | acceptGrow here | acceptPublish here =>
    rw [here] at before
    exact Nat.le_of_succ_le_succ before
  | take here =>
    simp only [here]
    trivial
  | admitted here | defer here =>
    simp only [Continuous.defer]
    split <;> trivial
  | _ => trivial

/-- A job for which the decoded batch had something, or nothing: its seat before and after. -/
theorem decode_seat {steps : List GenStep} (T : Tracker w .token) (past : List Event) (layout : Layout w config s)
    (active : s'.active = (buildBatch w.caps.nBatch config s.active).active)
    (accept : s'.pc = .accept (buildBatch w.caps.nBatch config s.active).sampling steps [])
    (called : s.port.decode w (buildBatch w.caps.nBatch config s.active).items = (.ok steps, s'.port))
    {job' : Job} (member : job' ∈ s'.active) :
    ∃ job ∈ s.active,
      Served job job' (itemsOf job.state.seq (buildBatch w.caps.nBatch config s.active).items) ∧
      s'.seat T past job' = ⟨job', dueIn job.state.seq (buildBatch w.caps.nBatch config s.active).sampling steps,
        (T.contents past s.port job.state.seq).map
          (Slot.feed .token (itemsOf job.state.seq (buildBatch w.caps.nBatch config s.active).items))⟩ := by
  rw [active] at member
  obtain ⟨job, inside, served⟩ :=
    Lists.exists_of_forall₂_right (buildBatch_served w.caps.nBatch config layout.nodup) member
  refine ⟨job, inside, served, ?_⟩
  rw [seat, accept, T.contents_decode called, Kv.feed_apply, served.seq_eq]
  rfl

/-- The step that is due for the slot of an item is the one its source has drawn. -/
theorem due_drawn {items : List BatchItem} {steps : List GenStep} {world : σ}
    (order : st.InOrder a w.caps.nBatch world items)
    (answers : List.Forall₂ (fun item step => ∀ b, st.holds world item.seq b →
      (a.serve item.tokens item.sample b).1 = some (step.token, step.isEog)) (items.filter (·.sample)) steps)
    {item : BatchItem} (member : item ∈ items) {b : β} (held : st.holds world item.seq b) {step : GenStep}
    (due : dueIn item.seq ((items.filter (·.sample)).map (·.seq)) steps = some (some step)) :
    (a.serve item.tokens item.sample b).1 = some (step.token, step.isEog) := by
  obtain ⟨i, here, answered⟩ := dueIn_eq_some due
  obtain ⟨other, there, drawn⟩ := Lists.getElem?_of_forall₂ answers answered
  rw [List.getElem?_map, there, Option.map_some, Option.some.injEq] at here
  have inside : other ∈ items := List.mem_of_mem_filter (List.mem_of_getElem? there)
  have same : other = item := List.inj_on_of_nodup_map order.once inside member here
  subst same
  exact drawn b held

namespace Steered

theorem quiet (steered : s.Steered st past) : s.quiet.Steered st (past ++ s.port.log) where
  exactly job member := by
    rw [seat_quiet]
    exact steered.exactly job member
  linked := steered.linked
  cleaned := steered.cleaned
  answered := steered.answered
  failed := steered.failed

/-- The slots in a batch are those of active jobs, and the others stay clean. -/
theorem cleaned_after (steered : s.Steered st past) (pc : s.pc = .build) {world : σ} {seq : Nat}
    (spared : st.Spares (· ∉ (buildBatch w.caps.nBatch config s.active).items.map (·.seq)) s.port.world world)
    (out : seq ∉ seqs s.active) : st.clean world seq := by
  refine (spared seq fun inside => ?_).2 (steered.cleaned seq ?_)
  · obtain ⟨item, member, rfl⟩ := List.mem_map.mp inside
    exact out (buildBatch_owned _ _ _ item member)
  · rwa [crew_of_none (s := s) (by rw [pc]; rfl)]

/-- A decode for one job: a step that is due was drawn, and the source has moved on with the job. -/
theorem decoded_job {steps : List GenStep} (steered : s.Steered st past) (pc : s.pc = .build)
    (order : st.InOrder a w.caps.nBatch s.port.world (buildBatch w.caps.nBatch config s.active).items)
    (called : s.port.decode w (buildBatch w.caps.nBatch config s.active).items = (.ok steps, s'.port))
    {job job' : Job} (active : job ∈ s.active)
    (prompt : ¬ job.request.Refused w → w.tokenize job.request.spec.prompt true ≠ [])
    (unfinished : job.state.finished = false)
    (served : Served job job' (itemsOf job.state.seq (buildBatch w.caps.nBatch config s.active).items))
    {due : Option (Option GenStep)} (here : due = dueIn job.state.seq
      (((buildBatch w.caps.nBatch config s.active).items.filter (·.sample)).map (·.seq)) steps) :
    st.holds s'.port.world job.state.seq (job'.source a due.isSome) ∧
      ∀ tokens cells, Seat.Running w (drawnBy a w)
          ⟨job, none, (Tracker.history w .token true).contents past s.port job.state.seq⟩ tokens cells →
        ∀ step, due = some (some step) → drawnBy a w job.request.spec tokens step := by
  obtain ⟨moved, answers, spared⟩ := st.decodes _ _ _ _ order (Port.world_decode called)
  have held := steered.holds pc active unfinished
  obtain ⟨_, _, runs⟩ := steered.running pc active unfinished
  have prompt := prompt runs.unrefused
  have asked := dueIn_asked (buildBatch w.caps.nBatch config s.active).items job.state.seq steps
  rw [← here] at asked
  rcases served.none_or_one with ⟨nothing, rfl⟩ | ⟨item, one, _⟩
  · -- nothing was submitted for it
    have none : due = none := by
      by_contra some
      obtain ⟨item, inside, _⟩ := asked.mp some
      rw [nothing] at inside
      cases inside
    subst none
    refine ⟨(spared _ fun inside => ?_).1 _ held, fun _ _ _ _ due => by cases due⟩
    obtain ⟨item, member, owner⟩ := List.mem_map.mp inside
    have own : item ∈ itemsOf job'.state.seq (buildBatch w.caps.nBatch config s.active).items :=
      List.mem_filter.mpr ⟨member, by simpa using owner⟩
    rw [nothing] at own
    cases own
  · rw [one] at served asked
    have own : item ∈ itemsOf job.state.seq (buildBatch w.caps.nBatch config s.active).items := by simp [one]
    obtain ⟨member, owner⟩ := List.mem_filter.mp own
    have owner : item.seq = job.state.seq := by simpa using owner
    have samples : due.isSome = item.sample := by
      rw [Bool.eq_iff_iff, Option.isSome_iff_ne_none, asked]
      simp
    rw [← owner] at held here ⊢
    constructor
    · have after := moved item member _ held
      rw [runs.serves prompt served] at after
      rw [samples]
      exact after
    · intro tokens cells running step pending
      have drawn := due_drawn order answers member held (here ▸ pending)
      have asks : item.sample = true := by
        rw [← samples, pending]
        rfl
      rw [running.serves prompt served, asks] at drawn
      exact (Option.some.inj drawn).symm

/-- After a decode. -/
theorem decoded {steps : List GenStep} (steered : s.Steered st past) (pc : s.pc = .build)
    (layout : Layout w config s) (positioned : ∀ job ∈ s.active, ¬ job.request.Refused w → job.request.Positioned w)
    (active : s'.active = (buildBatch w.caps.nBatch config s.active).active)
    (accept : s'.pc = .accept (buildBatch w.caps.nBatch config s.active).sampling steps [])
    (called : s.port.decode w (buildBatch w.caps.nBatch config s.active).items = (.ok steps, s'.port)) :
    s'.Steered st past := by
  have order : st.InOrder a w.caps.nBatch s.port.world (buildBatch w.caps.nBatch config s.active).items :=
    steered.inOrder pc layout positioned
  obtain ⟨_, answers, spared⟩ := st.decodes _ _ _ _ order (Port.world_decode called)
  have sampling := buildBatch_sampling w.caps.nBatch config s.active
  have crew' : s'.crew = s'.active := crew_of_none (by rw [accept]; rfl)
  have prompts : ∀ job ∈ s.active, ¬ job.request.Refused w → w.tokenize job.request.spec.prompt true ≠ [] :=
    fun job inside passed => (positioned job inside passed).nonempty
  have seats := fun job' (member : job' ∈ s'.active) =>
    decode_seat (Tracker.history w .token true) past layout active accept called member
  refine ⟨?_, ?_, ?_, ?_, ?_⟩
  · intro job' member
    rw [crew'] at member
    obtain ⟨job, inside, served, seat⟩ := seats job' member
    rw [seat]
    cases finished : job.state.finished with
    | true =>
      have kept := served.idle_of_finished finished
      subst kept
      exact .of_ended finished ((steered.exactly _ (List.mem_append_left _ inside)).ended finished)
    | false =>
      obtain ⟨tokens, cells, running⟩ := steered.running pc inside finished
      have drawn := (steered.decoded_job pc order called inside (prompts job inside) finished served rfl).2
      rw [sampling]
      obtain ⟨cells', next⟩ := running.serve served (dueIn_asked _ _ _) fun step due _ => drawn _ _ running step due
      exact .of_running (served.frame.1.trans finished) next
  · intro job' member unfinished'
    rw [crew'] at member
    obtain ⟨job, inside, served, _⟩ := seats job' member
    have unfinished := served.frame.1.symm.trans unfinished'
    have moved := (steered.decoded_job pc order called inside (prompts job inside) unfinished served rfl).1
    rw [accept, sampling, served.seq_eq]
    exact moved
  · intro seq out
    rw [crew', active, seqs_buildBatch] at out
    exact steered.cleaned_after pc spared out
  · rw [accept, sampling, Pc.Answered, List.length_map, answers.length_eq]
  · intro job' member
    rw [crew'] at member
    obtain ⟨job, inside, served, _⟩ := seats job' member
    rw [served.verdict.1, served.verdict.2]
    exact steered.failed job (List.mem_append_left _ inside)

/-- After a decode that threw every job has ended. -/
theorem spoilt {message : String} (steered : s.Steered st past) (pc : s.pc = .build)
    (layout : Layout w config s) (positioned : ∀ job ∈ s.active, ¬ job.request.Refused w → job.request.Positioned w)
    (sweep : s'.pc = .sweep 0 (some []))
    (active : s'.active = (buildBatch w.caps.nBatch config s.active).active.map (·.failed message))
    (called : s.port.decode w (buildBatch w.caps.nBatch config s.active).items = (.error message, s'.port)) :
    s'.Steered st past := by
  have order : st.InOrder a w.caps.nBatch s.port.world (buildBatch w.caps.nBatch config s.active).items :=
    steered.inOrder pc layout positioned
  obtain ⟨fails, spared⟩ := st.spoils _ _ _ _ order (Port.world_decode called)
  have crew' : s'.crew = s'.active := crew_of_none (by rw [sweep]; rfl)
  have before : ∀ job' ∈ s'.crew, ∃ job ∈ s.active, ∃ middle, job' = Job.failed message middle ∧
      Served job middle (itemsOf job.state.seq (buildBatch w.caps.nBatch config s.active).items) := by
    intro job' member
    rw [crew', active] at member
    obtain ⟨middle, inside, rfl⟩ := List.mem_map.mp member
    obtain ⟨job, old, served⟩ :=
      Lists.exists_of_forall₂_right (buildBatch_served w.caps.nBatch config layout.nodup) inside
    exact ⟨job, old, middle, rfl, served⟩
  refine ⟨?_, ?_, ?_, ?_, ?_⟩
  · intro job' member
    obtain ⟨job, old, middle, failed, served⟩ := before job' member
    exact (steered.exactly job (List.mem_append_left _ old)).fail served.idle_of_finished served.frame.1 failed
  · intro job' member unfinished
    obtain ⟨_, _, middle, rfl, _⟩ := before job' member
    rw [Job.failed_finished] at unfinished
    cases unfinished
  · intro seq out
    have same : seqs s'.crew = seqs s.active := by
      rw [crew', active, ← seqs_buildBatch w.caps.nBatch config s.active, seqs, seqs, List.map_map]
      exact List.map_congr_left fun job _ => Job.failed_seq message job
    rw [same] at out
    exact steered.cleaned_after pc spared out
  · rw [sweep]
    trivial
  · intro job' member error
    obtain ⟨job, old, middle, rfl, served⟩ := before job' member
    cases finished : middle.state.finished with
    | true =>
      rw [Job.failed, if_pos finished] at error ⊢
      rw [served.verdict.1] at error
      rw [served.verdict.2]
      exact steered.failed job (List.mem_append_left _ old) error
    | false =>
      rw [Job.failed, if_neg (by simp [finished])]
      exact fails

/-- There was nothing to decode. -/
theorem skipped (steered : s.Steered st past) (pc : s.pc = .build) (layout : Layout w config s)
    (nothing : (buildBatch w.caps.nBatch config s.active).items = [])
    (sweep : s'.pc = .sweep 0 (some [])) (active : s'.active = (buildBatch w.caps.nBatch config s.active).active)
    (port : s'.port = s.port) : s'.Steered st past := by
  have crew' : s'.crew = s'.active := crew_of_none (by rw [sweep]; rfl)
  have old : ∀ job ∈ s'.crew, job ∈ s.crew := by
    intro job' member
    rw [crew', active] at member
    obtain ⟨job, old, served⟩ :=
      Lists.exists_of_forall₂_right (buildBatch_served w.caps.nBatch config layout.nodup) member
    rw [nothing] at served
    rcases served.none_or_one with ⟨_, rfl⟩ | ⟨item, one, _⟩
    · exact List.mem_append_left _ old
    · cases one
  have due : ∀ slot, s'.pc.due slot = s.pc.due slot := fun slot => by rw [sweep, pc]; rfl
  refine ⟨?_, ?_, ?_, ?_, ?_⟩
  · intro job member
    have same : s'.seat (.history w .token true) past job = s.seat (.history w .token true) past job := by
      rw [seat, seat, due, port]
    rw [same]
    exact steered.exactly job (old job member)
  · intro job member
    rw [due, port]
    exact steered.linked job (old job member)
  · intro seq out
    rw [crew', active, seqs_buildBatch] at out
    rw [port]
    exact steered.cleaned seq (by rwa [crew_of_none (s := s) (by rw [pc]; rfl)])
  · rw [sweep]
    trivial
  · exact fun job member => steered.failed job (old job member)

/-- A request has been taken in hand, and its free slot begun. -/
theorem begun {request : Request} {slot : Nat} (steered : s.Steered st past) (layout : Layout w config s)
    (exactly : s'.Exact w (drawnBy a w) (fun _ => True) (.history w .token true) past)
    (prompt : ¬ request.Refused w → w.tokenize request.spec.prompt true ≠ []) (pc : s.pc = .admitNext)
    (free : slot ∈ s.freeSlots) (active : s'.active = s.active)
    (hand : s'.pc = .reserve (Scheduler.newJob w request slot))
    (called : s.port.beginSequence w slot request.spec.sampling = (.ok (), s'.port)) : s'.Steered st past := by
  have crew : s.crew = s.active := crew_of_none (by rw [pc]; rfl)
  have crew' : s'.crew = s.active ++ [Scheduler.newJob w request slot] := by
    rw [Continuous.crew, active, hand]
    rfl
  have unused : slot ∉ seqs s.crew := by
    rw [crew]
    exact layout.not_active_of_free free
  obtain ⟨held, others⟩ := st.begins s.port.world slot request.spec.sampling (steered.cleaned slot unused)
  rw [Port.world_beginSequence called] at held others
  have due : ∀ slot, s'.pc.due slot = s.pc.due slot := fun slot => by rw [hand, pc]; rfl
  refine ⟨exactly, ?_, ?_, ?_, ?_⟩
  · intro job member unfinished
    rw [crew'] at member
    rcases List.mem_append.mp member with old | new
    · rw [due]
      refine (others _ (layout.ne_of_free old free)).1 _ ?_
      exact steered.linked job (List.mem_append_left _ old) unfinished
    · cases List.mem_singleton.mp new
      have passed : ¬ request.Refused w := by
        rw [← Scheduler.newJob_finished_iff w request slot, unfinished]
        exact Bool.false_ne_true
      rw [due, pc, Scheduler.newJob_seq, Job.source_newJob (prompt passed)]
      exact held
  · intro seq out
    rw [crew', seqs_append, List.mem_append, not_or] at out
    refine (others seq fun same => out.2 ?_).2 (steered.cleaned seq (by rw [crew]; exact out.1))
    simp [same]
  · rw [hand]
    trivial
  · intro job member
    rw [crew'] at member
    rcases List.mem_append.mp member with old | new
    · exact steered.failed job (List.mem_append_left _ old)
    · intro error
      rw [List.mem_singleton.mp new] at error
      exact (Scheduler.newJob_reason_ne w request slot error).elim

/-- The sinks were told something, or slots were released. -/
theorem told {released : List Nat} (steered : s.Steered st past)
    (exactly : s'.Exact w (drawnBy a w) (fun _ => True) (.history w .token true) past)
    (stages : ∀ job' ∈ s'.crew, ∃ job ∈ s.crew, Stage w config .token (fun _ _ => True)
      (Tracker.history w .token true).keeps s ((Tracker.history w .token true).contents past s.port)
      (s.seat (.history w .token true) past job) (s'.seat (.history w .token true) past job'))
    (off : config.prefixCaching = false) (pc : s.pc ≠ .build) (answered : s'.pc.Answered)
    (calls : s.port.Aside w released s'.port) (gone : ∀ seq ∈ released, seq ∉ seqs s'.crew)
    (left : ∀ seq ∈ seqs s.crew, seq ∈ seqs s'.crew ∨ seq ∈ released) : s'.Steered st past := by
  obtain ⟨spared, clean⟩ := calls.spares st
  refine ⟨exactly, ?_, ?_, answered, ?_⟩
  · intro job' member unfinished'
    obtain ⟨job, old, stage⟩ := stages job' member
    obtain ⟨unfinished, source⟩ := stage.source_eq a off pc steered.answered unfinished'
    have seq : job'.state.seq = job.state.seq := stage.seq_eq
    have source : job'.source a (s'.pc.due job'.state.seq).isSome = job.source a (s.pc.due job.state.seq).isSome :=
      source
    refine (spared _ fun released => gone _ released (mem_seqs.mpr ⟨job', member, rfl⟩)).1 _ ?_
    rw [source, seq]
    exact steered.linked job old unfinished
  · intro seq out
    by_cases released : seq ∈ released
    · exact clean seq released
    · exact (spared seq released).2 (steered.cleaned seq fun inside => (left seq inside).elim out released)
  · intro job' member error
    obtain ⟨job, old, stage⟩ := stages job' member
    obtain ⟨error', same⟩ := stage.failed_of_error off pc steered.answered error
    exact same ▸ steered.failed job old error'

/-- Every move keeps to it. -/
theorem move (steered : s.Steered st past) (move : Move w config s q s' q') (layout : Layout w config s)
    (orderly : s.Orderly) (books : Books config s lostBlocks lostSlots) (none : donorSlots config = [])
    (off : config.prefixCaching = false)
    (positioned : ∀ job ∈ s.active, ¬ job.request.Refused w → job.request.Positioned w)
    (prompts : ∀ request ∈ s.pending, ¬ request.Refused w → w.tokenize request.spec.prompt true ≠ []) :
    s'.quiet.Steered st (past ++ s'.port.log) := by
  apply Steered.quiet
  have honest : Honest (Tracker.history w .token true) past (fun _ _ => True) s.port :=
    fun _ _ _ _ _ _ _ _ _ _ _ => trivial
  have seated := move.seats (.history w .token true) layout orderly books honest
  have exactly : s.pc ≠ .build → s'.Exact w (drawnBy a w) (fun _ => True) (.history w .token true) past := by
    intro pc job member
    have after := steered.exactly.move layout orderly books honest (fun build => absurd build pc)
      (fun _ _ => trivial) (by simp [off]) move job member
    rwa [seat_quiet] at after
  cases move.engages layout books none off st.throws with
  | begins pc waits free active hand called =>
    exact steered.begun layout (exactly (by simp [pc])) (prompts _ waits) pc free active hand called
  | decodes pc active accept called => exact steered.decoded pc layout positioned active accept called
  | fails pc sweep active called => exact steered.spoilt pc layout positioned sweep active called
  | skips pc nothing sweep active port => exact steered.skipped pc layout nothing sweep active port
  | aside pc hand calls gone left =>
    refine steered.told (exactly pc) ?_ off pc (move.answered pc steered.answered) calls gone left
    intro job member
    cases seated job member with
    | staged old stage => exact ⟨_, old, stage⟩
    | entered _ entered =>
      rw [entered] at hand
      cases hand

end Steered

end Continuous

/-! ## Whole runs -/

/-- The result is what the generation of its request comes to, if this is what may be sampled. -/
def GenResult.Comes {σ : Type} (w : World σ) (C : Choice) (spec : RequestSpec) (result : GenResult) : Prop :=
  ∃ final, Concludes w (C spec) (spec.opening w) final ∧ result.text = final.emittedText ∧
    result.reason = final.reason ∧ result.usage.completionTokens = final.usage.completionTokens

/-- A job that neither failed nor was cancelled came to its end by itself. -/
theorem Job.Ended.comes {σ : Type} {w : World σ} {C : Choice} {L : Nat → Prop} {job : Job} (ended : job.Ended w C L)
    (unfailed : ¬ { job with state := job.state.closed }.result.Failed)
    (uncancelled : { job with state := job.state.closed }.result.reason ≠ .cancelled) :
    { job with state := job.state.closed }.result.Comes w C job.request.spec := by
  have reason : { job with state := job.state.closed }.result.reason = job.state.core.closed.reason := by
    rw [SequenceState.closed_reason]
    exact SequenceState.closed_reason _
  cases ended with
  | stopped stopped =>
    rcases stopped with error | ⟨cancelled, _⟩
    · exact absurd (.inl ((SequenceState.closed_reason _).trans error)) unfailed
    · exact absurd ((SequenceState.closed_reason _).trans cancelled) uncancelled
  | refused _ state | overflowed _ _ _ state =>
    exact absurd (.inr (reason.trans (by rw [state, SequenceState.closed_reason]; rfl))) unfailed
  | concluded _ concludes =>
    refine ⟨job.state.core.closed, concludes, ?_, reason, ?_⟩
    all_goals
      rw [← SequenceState.closed_core]
      rfl

namespace Server

variable {σ β : Type} {w : World σ} {a : Source SamplingParams Token β} {config : SchedulerConfig} {capacity : Nat}
variable {world : σ} {past : List Event} {s : Server (Continuous σ)}

theorem steered_run (st : Steers w a) (off : config.prefixCaching = false) (clean : ∀ seq, st.clean world seq)
    (run : (continuous w config capacity world).Run past s)
    (positioned : ∀ r ∈ s.accepted, ¬ r.Refused w → r.Positioned w) :
    s.thread.Steered st past := by
  refine continuous_thread_invariant ?_ ?_ (accepting_each run.guarded_true positioned)
  · have nobody : ∀ job, job ∉ (Continuous.start w (config.construct w.caps) world).crew := by
      simp [Continuous.crew, Continuous.start, Pc.inHand]
    exact ⟨fun job member => absurd member (nobody job), fun job member => absurd member (nobody job),
      fun seq _ => clean seq, trivial, fun job member => absurd member (nobody job)⟩
  · rintro past s thread queue run settled before move ⟨_, positioned⟩
    have requested := requested_run run.of_guarded
    have orderly := orderly_run run.of_guarded
    obtain ⟨lostBlocks, lostSlots, books⟩ := books_run (.inr off) run.of_guarded
    refine before.move move settled.layout orderly books (donorSlots_construct_off off w.caps)
      (construct_prefixCaching off) ?_ ?_
    · exact fun job active => positioned _ (requested job (List.mem_append_left _ active))
    · intro request waits passed
      refine (positioned request (known_run run.of_guarded request ?_) passed).nonempty
      exact List.mem_append_right _ (List.mem_append_left _ waits)

/-- What is delivered: the stream of the source, or an error the engine is known for. -/
theorem steered_results (st : Steers w a) (off : config.prefixCaching = false) (clean : ∀ seq, st.clean world seq)
    (run : (continuous w config capacity world).Run past s)
    (positioned : ∀ r ∈ s.accepted, ¬ r.Refused w → r.Positioned w) :
    ∀ id result, Event.setValue id result ∈ past → ∃ r ∈ s.accepted, r.id = id ∧
      (result.reason = .error → st.fails result.error) ∧
      (¬ result.Failed → result.reason ≠ .cancelled → result.Comes w (drawnBy a w) r.spec) := by
  intro id result delivered
  obtain ⟨earlier, t, _, _, ran, fewer, _, delivered, _⟩ := delivered_run run.guarded_true delivered
  have steered := steered_run st off clean ran.of_guarded fun r member => positioned r (fewer member)
  cases delivered with
  | @retired job crew finished =>
    refine ⟨job.request, fewer (requested_run ran.of_guarded job crew), rfl, ?_, ?_⟩
    · intro error
      simp only [Job.result, SequenceState.closed_reason, SequenceState.closed_error] at error ⊢
      rw [if_pos (.inl error)]
      exact steered.failed job crew error
    · exact fun unfailed => ((steered.exactly job crew).ended finished).comes unfailed
  | @rejected job crew =>
    -- refused by an idle pool: a failure, and none of the engine
    have reason : ({ job with state := (job.state.fail (t.thread.rejectMessage job)
        .contextOverflow).closed } : Job).result.reason = .contextOverflow := by
      rw [Job.result, SequenceState.closed_reason]
      rfl
    refine ⟨job.request, fewer (requested_run ran.of_guarded job crew), rfl, ?_, ?_⟩
    · intro error
      rw [reason] at error
      cases error
    · exact fun unfailed => absurd (.inr reason) unfailed

end Server

end MicroVllm
