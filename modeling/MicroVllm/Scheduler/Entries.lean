import MicroVllm.Scheduler.Books

/-! # Where cache entries come from

Every entry was written by a job for a prefix of its prompt, and is filed under the hash
of that prefix.  A hit compares hashes and lengths and never the tokens, so an admitted
prompt agrees with the entry it inherits from exactly as far as the hash tells the prefixes
apart.
-/

namespace MicroVllm

theorem Job.reclaim_eq (job : Job) : job.reclaim = job.request := rfl

/-- What a job writes to the cache: the whole blocks of its prompt, under their hash. -/
structure Job.Writes (config : SchedulerConfig) (job : Job) (p : UInt64 × Entry) : Prop where
  key : p.1 = PrefixCache.hashPrefix p.2.prompt p.2.nTokens
  prompt : p.2.prompt = job.state.prompt
  whole : p.2.nTokens = Scheduler.wholeTokens config p.2.prompt

/-- The prompt and the entry of a prefix hit. -/
def Event.hit? : Event → Option (List Token × Entry)
  | .hit _ prompt entry => some (prompt, entry)
  | _ => none

theorem Event.hit?_of_toSink (sink : SinkRef) (e : Event) (call : e.ToSink sink) : e.hit? = none := by
  cases e <;> first | rfl | cases call

theorem Event.hit?_of_internal (e : Event) (inside : e.Internal) : e.hit? = none := by
  cases e <;> first | rfl | cases inside

theorem Event.mem_hits {log : List Event} {prompt : List Token} {entry : Entry} :
    (prompt, entry) ∈ log.filterMap Event.hit? ↔ ∃ seq, Event.hit seq prompt entry ∈ log := by
  rw [List.mem_filterMap]
  constructor
  · rintro ⟨e, member, found⟩
    cases e with
    | hit seq _ _ =>
      cases found
      exact ⟨seq, member⟩
    | _ => cases found
  · rintro ⟨seq, member⟩
    exact ⟨_, member, rfl⟩

namespace Continuous

variable {σ : Type} {w : World σ} {config : SchedulerConfig}

/-- The requests the thread has taken and not delivered. -/
def requests (s : Continuous σ) : List Request :=
  s.pending ++ (s.pc.inHand.map Job.request ++ s.active.map Job.request)

theorem requests_of_same {jobs jobs' : List Job} (same : List.Forall₂ Job.Same jobs jobs') :
    jobs'.map Job.request = jobs.map Job.request := by
  induction same with
  | nil => rfl
  | cons head _ ih => rw [List.map_cons, List.map_cons, head.request, ih]

/-- A move makes no request up. -/
theorem Move.requests {s s' : Continuous σ} {q q' : RequestQueue} (move : Move w config s q s' q') :
    ∀ r ∈ q'.queue ++ s'.requests, r ∈ q.queue ++ s.requests := by
  have built := fun nBatch => requests_of_same (same_of_sameTable (same_build nBatch config s.active))
  have failed := fun message (s : Continuous σ) =>
    requests_of_same (same_of_sameTable (same_failAll message s))
  intro r
  -- with the lists of a state written out, each case is a question of membership
  simp only [Continuous.requests, List.mem_append]
  cases move with
  | take pc room front =>
    simp only [front, List.mem_append, List.mem_cons, List.not_mem_nil, or_false]
    tauto
  | make pc next free begun =>
    simp only [pc, next, Pc.inHand, List.map_cons, List.map_nil, List.mem_cons, List.not_mem_nil,
      or_false, Scheduler.newJob_request]
    tauto
  | makeCrash pc next free begun =>
    simp only [pc, next, Pc.inHand, List.map_nil, List.mem_cons, List.not_mem_nil]
    tauto
  | admitted pc =>
    simp only [pc]
    split <;> simp [Pc.inHand]
  | giveUp pc => exact id
  | reject pc unfinished full alone =>
    simp only [Continuous.reject, pc, Pc.inHand, List.map_nil, List.not_mem_nil]
    tauto
  | defer pc unfinished full busy =>
    simp only [Continuous.defer, pc, busy, if_false, Pc.inHand, Job.reclaim_eq, List.map_cons,
      List.map_nil, List.mem_cons, List.not_mem_nil]
    tauto
  | placeFailed pc | place pc | adopt pc =>
    simp only [Continuous.place, inherit, pc, Pc.inHand, List.map_append, List.map_cons, List.map_nil,
      List.mem_append, List.mem_cons, List.not_mem_nil, or_false]
    tauto
  | adoptCrash pc =>
    simp only [pc, Pc.inHand, List.map_cons, List.map_nil, List.not_mem_nil]
    tauto
  | buildNothing pc | decode pc => simp only [pc, built, Pc.inHand]; exact id
  | decodeFail pc =>
    simp only [failed, built, pc]
    exact id
  | acceptFail pc =>
    simp only [failed, pc]
    exact id
  | acceptFinish pc here | acceptStarve pc here | acceptGrow pc here | resolveFail pc here
  | reclaimGrow pc here | preemptGrow pc here =>
    simp only [pc, here, List.map_append, List.map_cons, Pc.inHand]
    exact id
  | acceptPublish pc here accepted grown published =>
    simp only [pc, here, published, List.map_append, List.map_cons, Pc.inHand]
    exact id
  | sweepRetire pc here =>
    simp only [here, List.map_append, List.map_cons, List.mem_append, List.mem_cons]
    tauto
  | preemptEvict pc starving named full here =>
    simp only [here, Job.reclaim_eq, List.map_append, List.map_cons, List.mem_append, List.mem_cons]
    tauto
  | _ pc => simp only [pc, Pc.inHand]; exact id

/-- How an active job comes to write an entry: it publishes it, or leaves it with a donor. -/
inductive Writing (config : SchedulerConfig) (s : Continuous σ) (p : UInt64 × Entry) : Prop where
  | published {job job' : Job} (active : job ∈ s.active) (same : job.Same job')
      (offers : Offers config job' s.blocks.blockSize)
      (written : p = (offerHash job' s.blocks.blockSize, job'.offer s.blocks.blockSize))
  | kept {job : Job} {slot : Nat} (active : job ∈ s.active) (caching : config.prefixCaching = true)
      (whole : 0 < Scheduler.wholeTokens config job.state.prompt)
      (written : p = (Scheduler.keptHash config job, Scheduler.keptEntry config job slot))

theorem Move.writing {s s' : Continuous σ} {q q' : RequestQueue} (move : Move w config s q s' q')
    {p : UInt64 × Entry} (member : p ∈ s'.prefixCache.pairs) :
    p ∈ s.prefixCache.pairs ∨ s.Writing config p := by
  cases move with
  | giveUp pc short evicted | reclaimDonor pc here full evicted =>
    exact .inl (Scheduler.reclaim_pairs evicted member)
  -- a lookup changes the stamps only
  | place pc fits same | adopt pc fits same | adoptCrash pc fits same => exact .inl (same.pairs ▸ member)
  | @acceptPublish sampling step steps grewShort before job after state port table blocks job' pc here
      accepted grown published offers =>
    rw [PrefixCache.insert_pairs, List.mem_cons] at member
    rcases member with written | old
    · have active : job ∈ s.active := by rw [here]; simp
      have same : job.Same job' := by
        rw [published]
        exact same_accept accepted
      -- the entry is cut by the block size of the pool the table has just grown in
      obtain ⟨_, _, _, _, _, size⟩ := BlockTable.ensureCapacity_shape grown
      rw [size] at offers written
      exact .inr (.published active same offers written)
    · exact .inl (List.mem_of_mem_filter old)
  | @sweepRetire starved before job after pc here finished =>
    rcases Scheduler.retire_pairs job s.toScheduler member with old | ⟨slot, written, caching, whole⟩
    · exact .inl old.1
    · exact .inr (.kept (by rw [here]; simp) caching whole written)
  | preemptEvict =>
    rw [PrefixCache.evictSequence_pairs] at member
    exact .inl (List.mem_of_mem_filter member)
  | _ => exact .inl member

/-- Every entry was there before or is written for an active job. -/
theorem Move.written {s s' : Continuous σ} {q q' : RequestQueue} (move : Move w config s q s' q')
    (layout : Layout w config s) (size : s.blocks.blockSize = config.blockSize) {p : UInt64 × Entry}
    (member : p ∈ s'.prefixCache.pairs) :
    p ∈ s.prefixCache.pairs ∨ config.prefixCaching = true ∧ ∃ job ∈ s.active, job.Writes config p := by
  rcases move.writing member with old | writing
  · exact .inl old
  · cases writing with
    | @published job job' active same offers written =>
      rw [size] at written
      subst written
      have small : job'.state.prompt.length < 2 ^ 32 := by
        rw [same.state.prompt]
        exact Nat.lt_trans (layout.origin job active).prompt_lt (by decide)
      exact .inr ⟨offers.caching, job, active, rfl, same.state.prompt, offer_nTokens small⟩
    | kept active caching whole written =>
      subst written
      exact .inr ⟨caching, _, active, rfl, rfl, rfl⟩

/-- A hit is for the prompt of the job in hand, on an entry under the hash of as much of
    it as the entry covers. -/
theorem Move.hit {s s' : Continuous σ} {q q' : RequestQueue} (move : Move w config s q s' q')
    (layout : Layout w config s) (silent : s.port.log = []) {prompt : List Token} {entry : Entry}
    (member : (prompt, entry) ∈ s'.port.log.filterMap Event.hit?) :
    (PrefixCache.hashPrefix prompt entry.nTokens, entry) ∈ s.prefixCache.pairs ∧
      entry.nTokens ≤ prompt.length ∧
      ∃ request ∈ s.requests, prompt = w.tokenize request.spec.prompt true := by
  have nothing : s.port.log.filterMap Event.hit? = [] := by rw [silent]; rfl
  have finishes := fun (state : SequenceState) (port : Port σ) =>
    Scheduler.filterMap_finish (w := w) Event.hit?_of_toSink state port
  cases move with
  -- the one move that logs a hit
  | @adopt job table blocks cache hit port pc fits same caching found positive within copied =>
    simp only [Continuous.place, Port.filterMap_note, Port.filterMap_copy _ copied, nothing, Event.hit?,
      Option.toList_none, Option.toList_some, List.append_nil, List.nil_append, List.mem_singleton,
      Prod.mk.injEq] at member
    obtain ⟨rfl, rfl⟩ := member
    refine ⟨found, within, job.request, by simp [Continuous.requests, pc, Pc.inHand], ?_⟩
    obtain ⟨request, slot, slots, rfl, _⟩ := layout.hand job pc
    exact Scheduler.newJob_prompt w request slot
  | make pc next free begun | makeCrash pc next free begun =>
    simp [Port.filterMap_begin _ begun, nothing, Event.hit?] at member
  | adoptCrash pc fits same copied =>
    simp [Port.filterMap_copy _ copied, nothing, Event.hit?] at member
  | giveUp pc short evicted | reclaimDonor pc here full evicted =>
    simp [Scheduler.filterMap_reclaim Event.hit?_of_internal evicted, nothing] at member
  | reject => simp [Continuous.reject, finishes, nothing, Event.hit?] at member
  | defer => simp [Continuous.defer, nothing, Event.hit?] at member
  | placeFailed | place => simp [Continuous.place, nothing, Event.hit?] at member
  | decode pc something returned =>
    simp [Port.filterMap_decode _ returned, nothing, Event.hit?] at member
  | decodeFail pc something threw =>
    simp [failAll, Port.filterMap_decode _ threw, nothing, Event.hit?] at member
  | acceptFail => simp [failAll, nothing] at member
  | acceptFinish pc here accepted =>
    simp [finishes, Scheduler.filterMap_accept Event.hit?_of_toSink accepted, nothing] at member
  | acceptStarve pc here accepted | acceptGrow pc here accepted =>
    simp [Scheduler.filterMap_accept Event.hit?_of_toSink accepted, nothing] at member
  | acceptPublish pc here accepted =>
    simp [Scheduler.filterMap_accept Event.hit?_of_toSink accepted, nothing, Event.hit?] at member
  | sweepRetire =>
    simp [Scheduler.filterMap_retire Event.hit?_of_toSink Event.hit?_of_internal, nothing,
      Event.hit?] at member
  | sweepLoop => simp [nothing, Event.hit?] at member
  | resolveFail pc here large failed =>
    subst failed
    simp [finishes, nothing] at member
  | preemptEvict => simp [nothing, Event.hit?] at member
  | _ => simp [nothing] at member

end Continuous

/-! ## Along a run -/

namespace Server

variable {σ : Type} {w : World σ} {config : SchedulerConfig} {capacity : Nat} {world : σ}
variable {past : List Event} {s : Server (Continuous σ)}

/-- A push adds to the queue what it adds to the accepted requests. -/
theorem known_push {τ : Type} {s : Server τ} {taken : List Request} {request : Request}
    (known : ∀ r ∈ s.queue.queue ++ taken, r ∈ s.accepted) :
    ∀ r ∈ (s.push request).queue.queue ++ taken, r ∈ (s.push request).accepted := by
  intro r
  simp only [push, RequestQueue.tryPush]
  split
  · exact known r
  · simp only [if_true, List.mem_append, List.mem_singleton]
    intro member
    rcases member with (queued | new) | taken
    · exact .inl (known r (List.mem_append_left _ queued))
    · exact .inr new
    · exact .inl (known r (List.mem_append_right _ taken))

/-- Everything in the queue and with the thread was accepted. -/
theorem known_run (run : (continuous w config capacity world).Run past s) :
    ∀ r ∈ s.queue.queue ++ s.thread.requests, r ∈ s.accepted := by
  refine continuous_invariant ?_ ?_ ?_ ?_ run.guarded_true
  · simp [Continuous.start, Continuous.requests, Pc.inHand]
  · exact fun _ _ _ _ known => known_push known
  · exact fun _ _ known => known
  · exact fun _ s _ _ _ _ known move _ r member => known r (move.requests r member)

theorem requested_run (run : (continuous w config capacity world).Run past s) :
    ∀ job ∈ s.thread.crew, job.request ∈ s.accepted := by
  intro job member
  apply known_run run
  apply List.mem_append_right
  apply List.mem_append_right
  rcases List.mem_append.mp member with active | hand
  · exact List.mem_append_right _ (List.mem_map_of_mem active)
  · exact List.mem_append_left _ (List.mem_map_of_mem hand)

end Server

/-- The entry covers the whole blocks of an accepted prompt, and its key is their hash. -/
structure Filed {σ : Type} (w : World σ) (config : SchedulerConfig) (accepted : List Request)
    (p : UInt64 × Entry) : Prop where
  caching : config.prefixCaching = true
  key : p.1 = PrefixCache.hashPrefix p.2.prompt p.2.nTokens
  whole : p.2.nTokens = Scheduler.wholeTokens config p.2.prompt
  source : ∃ request ∈ accepted, p.2.prompt = w.tokenize request.spec.prompt true

section Filed

variable {σ : Type} {w : World σ} {config : SchedulerConfig} {accepted accepted' : List Request}
variable {p : UInt64 × Entry}

theorem Filed.mono (filed : Filed w config accepted p) (more : accepted ⊆ accepted') :
    Filed w config accepted' p := by
  obtain ⟨request, member, prompt⟩ := filed.source
  exact ⟨filed.caching, filed.key, filed.whole, request, more member, prompt⟩

theorem Filed.within (filed : Filed w config accepted p) : p.2.nTokens ≤ p.2.prompt.length := by
  rw [filed.whole]
  exact Scheduler.wholeTokens_le config p.2.prompt

/-- A prompt is taken for one that starts with the whole blocks of another, and does not. -/
def Collides (config : SchedulerConfig) (author prompt : List Token) : Prop :=
  Scheduler.wholeTokens config author ≤ prompt.length ∧
    PrefixCache.hashPrefix author (Scheduler.wholeTokens config author) =
      PrefixCache.hashPrefix prompt (Scheduler.wholeTokens config author) ∧
    author.take (Scheduler.wholeTokens config author) ≠ prompt.take (Scheduler.wholeTokens config author)

/-- If prefixes are cached, no accepted prompt collides with another one. -/
def Collisionless (w : World σ) (config : SchedulerConfig) (accepted : List Request) : Prop :=
  config.prefixCaching = true → ∀ a ∈ accepted, ∀ b ∈ accepted,
    ¬ Collides config (w.tokenize a.spec.prompt true) (w.tokenize b.spec.prompt true)

instance (config : SchedulerConfig) (author prompt : List Token) : Decidable (Collides config author prompt) :=
  inferInstanceAs (Decidable (_ ∧ _ ∧ _))

instance (w : World σ) (config : SchedulerConfig) (accepted : List Request) :
    Decidable (Collisionless w config accepted) :=
  inferInstanceAs (Decidable (config.prefixCaching = true → ∀ a ∈ accepted, ∀ b ∈ accepted,
    ¬ Collides config (w.tokenize a.spec.prompt true) (w.tokenize b.spec.prompt true)))

theorem Collisionless.mono (distinct : Collisionless w config accepted') (fewer : accepted ⊆ accepted') :
    Collisionless w config accepted :=
  fun caching a knownA b knownB => distinct caching a (fewer knownA) b (fewer knownB)

theorem Collisionless.of_off (off : config.prefixCaching = false) : Collisionless w config accepted :=
  fun caching => absurd (off.symm.trans caching) Bool.false_ne_true

/-- An accepted prompt that an entry answers to starts with what the entry covers. -/
theorem Filed.agrees {prompt : List Token} {entry : Entry} {request : Request}
    (filed : Filed w config accepted (PrefixCache.hashPrefix prompt entry.nTokens, entry))
    (distinct : Collisionless w config accepted) (known : request ∈ accepted)
    (tokens : prompt = w.tokenize request.spec.prompt true) (within : entry.nTokens ≤ prompt.length) :
    entry.prompt.take entry.nTokens = prompt.take entry.nTokens := by
  obtain ⟨caching, key, whole, author, accepted, source⟩ := filed
  simp only at key whole source
  have apart := distinct caching author accepted request known
  rw [← source, ← tokens, Collides, ← whole] at apart
  by_contra differ
  exact apart ⟨within, key.symm, differ⟩

end Filed

namespace Server

variable {σ : Type} {w : World σ} {config : SchedulerConfig} {capacity : Nat} {world : σ}
variable {past : List Event} {s : Server (Continuous σ)}

/-- Every entry is filed, and so was every entry that was hit. -/
theorem filed_run (run : (continuous w config capacity world).Run past s) :
    (∀ p ∈ s.thread.prefixCache.pairs, Filed w (config.construct w.caps) s.accepted p) ∧
      ∀ prompt entry, (prompt, entry) ∈ past.filterMap Event.hit? →
        Filed w (config.construct w.caps) s.accepted (PrefixCache.hashPrefix prompt entry.nTokens, entry) ∧
        entry.nTokens ≤ prompt.length ∧
        ∃ request ∈ s.accepted, prompt = w.tokenize request.spec.prompt true := by
  refine continuous_invariant ?_ ?_ ?_ ?_ run.guarded_true
  · simp [Continuous.start, Scheduler.make, PrefixCache.configureDonors, PrefixCache.pairs]
  · rintro past s request _ ⟨entries, hits⟩
    have more := push_accepted_subset request s
    refine ⟨fun p member => (entries p member).mono more, ?_⟩
    intro prompt entry member
    obtain ⟨filed, within, known, accepted, tokens⟩ := hits prompt entry member
    exact ⟨filed.mono more, within, known, more accepted, tokens⟩
  · exact fun _ _ both => both
  · rintro past s thread queue run settled ⟨entries, hits⟩ move _
    have known := known_run run.of_guarded
    constructor
    · intro p member
      rcases move.written settled.layout (pool_run run.of_guarded).2 member with
        old | ⟨caching, job, active, writes⟩
      · exact entries p old
      · refine ⟨caching, writes.key, writes.whole, job.request, ?_, ?_⟩
        · apply known
          refine List.mem_append_right _ (List.mem_append_right _ (List.mem_append_right _ ?_))
          exact List.mem_map_of_mem active
        · rw [writes.prompt, (settled.layout.origin job active).prompt]
    · intro prompt entry member
      rw [List.filterMap_append, List.mem_append] at member
      rcases member with old | new
      · exact hits prompt entry old
      · obtain ⟨found, within, request, taken, tokens⟩ := move.hit settled.layout settled.silent new
        exact ⟨entries _ found, within, request, known _ (List.mem_append_right _ taken), tokens⟩

/-- Without prefix caching nothing is ever written to the cache. -/
theorem uncached_run (off : config.prefixCaching = false)
    (run : (continuous w config capacity world).Run past s) : s.thread.prefixCache.pairs = [] := by
  apply List.eq_nil_iff_forall_not_mem.mpr
  intro p member
  have caching := ((filed_run run).1 p member).caching
  simp [construct_prefixCaching off] at caching

/-- So no donor is ever written over. -/
theorem spares_run (off : config.prefixCaching = false)
    (run : (continuous w config capacity world).Run past s) :
    ((continuous w config capacity world).guarded fun s _ _ =>
      s.thread.SparesDonors w (config.construct w.caps)).Run past s := by
  apply run.guard
  intro past s events t earlier _ job _ p member
  simp [uncached_run off earlier] at member

end Server

/-- In a run in which no accepted prompt collides with the whole blocks of another one, every
    prefix hit is for equal tokens: the admitted prompt agrees with the one the entry was written
    for. -/
theorem hits_agree {σ : Type} (w : World σ) (config : SchedulerConfig) (capacity : Nat) (world : σ)
    (past : List Event) (s : Server (Continuous σ))
    (run : (Server.continuous w config capacity world).Run past s)
    (distinct : Collisionless w (config.construct w.caps) s.accepted) :
    ∀ seq prompt entry, Event.hit seq prompt entry ∈ past →
      entry.nTokens ≤ entry.prompt.length ∧ entry.nTokens ≤ prompt.length ∧
      entry.prompt.take entry.nTokens = prompt.take entry.nTokens := by
  intro seq prompt entry member
  obtain ⟨filed, within, request, accepted, tokens⟩ := (Server.filed_run run).2 prompt entry
    (Event.mem_hits.mpr ⟨seq, member⟩)
  exact ⟨filed.within, within, filed.agrees distinct accepted tokens within⟩

/-- A prompt that starts like an earlier one inherits its first block. -/
theorem hits_agree_letter :
    ∃ past s seq prompt entry,
      (Server.continuous Script.letter.world (.single 2) 4 fun _ => none).Run past s ∧
      Collisionless Script.letter.world ((SchedulerConfig.single 2).construct Script.letter.caps) s.accepted ∧
      Event.hit seq prompt entry ∈ past ∧
      entry.prompt.take entry.nTokens = prompt.take entry.nTokens := by
  obtain ⟨past, s, run, distinct, some⟩ : ∃ past s,
      (Server.continuous Script.letter.world (.single 2) 4 fun _ => none).Run past s ∧
      (Collisionless Script.letter.world ((SchedulerConfig.single 2).construct Script.letter.caps) s.accepted ∧
        past.filterMap Event.hit? ≠ []) :=
    Server.exists_run ([.push { id := 0, spec := { prompt := [1, 2], maxTokens := 2 } },
      .push { id := 1, spec := { prompt := [1, 2, 3, 4], maxTokens := 2 } }] ++
      List.replicate 64 .run) rfl rfl (by decide +kernel)
  obtain ⟨⟨prompt, entry⟩, member⟩ := List.exists_mem_of_ne_nil _ some
  obtain ⟨seq, member⟩ := Event.mem_hits.mp member
  exact ⟨past, s, seq, prompt, entry, run, distinct, member,
    (hits_agree _ _ _ _ past s run distinct seq prompt entry member).2.2⟩

/-- Two prompts of two tokens each, all four different, with one hash. -/
def Script.colliding : Script :=
  { Script.letter with
    tokens := fun text =>
      if text = [1] then [1939669891, 1] else [-446497668, -1795162548] }

/-- The second prompt inherits the KV of the first, with which it shares no token. -/
theorem hit_collides :
    ∃ past s seq prompt entry,
      (Server.continuous Script.colliding.world (.single 2) 4 fun _ => none).Run past s ∧
      Event.hit seq prompt entry ∈ past ∧ entry.nTokens = 2 ∧
      entry.prompt.take 2 = [1939669891, 1] ∧ prompt.take 2 = [-446497668, -1795162548] ∧
      entry.prompt.take entry.nTokens ≠ prompt.take entry.nTokens := by
  obtain ⟨past, s, run, ⟨prompt, entry⟩, member, covers, theirs, ours⟩ : ∃ past s,
      (Server.continuous Script.colliding.world (.single 2) 4 fun _ => none).Run past s ∧
      (∃ h ∈ past.filterMap Event.hit?, h.2.nTokens = 2 ∧ h.2.prompt.take 2 = [1939669891, 1] ∧
        h.1.take 2 = [-446497668, -1795162548]) :=
    Server.exists_run ([.push { id := 0, spec := { prompt := [1], maxTokens := 2 } },
      .push { id := 1, spec := { prompt := [2], maxTokens := 2 } }] ++
      List.replicate 64 .run) rfl rfl (by decide +kernel)
  obtain ⟨seq, member⟩ := Event.mem_hits.mp member
  refine ⟨past, s, seq, prompt, entry, run, member, covers, theirs, ours, ?_⟩
  rw [covers, theirs, ours]
  decide

end MicroVllm
