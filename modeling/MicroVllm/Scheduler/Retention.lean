import MicroVllm.Scheduler.Logs

/-! # Keeping the prefix of a retiring job

`retain_prefix` takes a donor slot, has the engine copy the prompt into it and records the
entry, and each of the three can come to nothing.  `Retains` lists the outcomes.
-/

namespace MicroVllm

namespace Scheduler

variable {σ : Type} {w : World σ} {config : SchedulerConfig}

theorem reclaim_pairs {m m' : Scheduler σ} (evicted : m.reclaimDonorBlocks w = some m') :
    m'.prefixCache.pairs ⊆ m.prefixCache.pairs := by
  simp only [reclaimDonorBlocks] at evicted
  split at evicted
  · cases evicted
  · rename_i found
    cases evicted
    obtain ⟨hash, _, _, rest, _⟩ := PrefixCache.evictLruRetained_eq_some found
    intro p member
    simp only [releaseDonor, rest] at member
    exact List.mem_of_mem_filter member

theorem takeSlot_pairs {m m' : Scheduler σ} {slot : Nat} (taken : m.takeSlot w = some (slot, m')) :
    m'.prefixCache.pairs ⊆ m.prefixCache.pairs := by
  have popped : ∀ {c c' : PrefixCache}, c.takeDonorSlot = some (slot, c') → c'.pairs ⊆ c.pairs := by
    intro c c' pop
    rw [(PrefixCache.takeDonorSlot_eq_some pop).2.1]
    exact List.Subset.refl _
  simp only [takeSlot] at taken
  split at taken
  · rename_i pop
    cases taken
    exact popped pop
  · split at taken
    · cases taken
    · rename_i evicted
      split at taken
      · cases taken
      · rename_i pop
        cases taken
        exact List.Subset.trans (popped pop) (reclaim_pairs evicted)

/-- The entry `retain_prefix` writes for a job, and its key. -/
def keptEntry (config : SchedulerConfig) (job : Job) (slot : Nat) : Entry where
  seq := slot
  nTokens := wholeTokens config job.state.prompt
  blocks := job.blocks.blocks.take (wholeTokens config job.state.prompt / config.blockSize)
  retained := true
  prompt := job.state.prompt

def keptHash (config : SchedulerConfig) (job : Job) : UInt64 :=
  PrefixCache.hashPrefix job.state.prompt (wholeTokens config job.state.prompt)

/-- When `retain_prefix` has something to keep of a job. -/
def Retainable (config : SchedulerConfig) (job : Job) : Prop :=
  config.prefixCaching = true ∧ 0 < wholeTokens config job.state.prompt ∧
    wholeTokens config job.state.prompt / config.blockSize ≤ job.blocks.nBlocks

instance (config : SchedulerConfig) (job : Job) : Decidable (Retainable config job) :=
  inferInstanceAs (Decidable (_ ∧ _ ∧ _))

/-- What `retain_prefix` can do: nothing, be refused the donor slot or the copy by the engine,
    or copy the prefix into the slot and record it. -/
inductive Retains (w : World σ) (config : SchedulerConfig) (job : Job) (m : Scheduler σ) :
    Scheduler σ → Prop where
  | nothing : Retains w config job m m
  | notBegun {slot m₁ message port} (taken : m.takeSlot w = some (slot, m₁))
      (begins : m₁.port.beginSequence w slot {} = (.error message, port)) :
      Retains w config job m { m₁ with
        port := port.releaseSequence w slot, prefixCache := m₁.prefixCache.evictSequence slot }
  | notCopied {slot m₁ begun message port} (taken : m.takeSlot w = some (slot, m₁))
      (begins : m₁.port.beginSequence w slot {} = (.ok (), begun))
      (copies : begun.copySequence w job.state.seq slot
        (toPos (wholeTokens config job.state.prompt)) = (.error message, port)) :
      Retains w config job m { m₁ with
        port := port.releaseSequence w slot, prefixCache := m₁.prefixCache.evictSequence slot }
  | kept {slot m₁ begun copied} (caching : config.prefixCaching = true)
      (whole : 0 < wholeTokens config job.state.prompt)
      (backed : wholeTokens config job.state.prompt / config.blockSize ≤ job.blocks.nBlocks)
      (taken : m.takeSlot w = some (slot, m₁))
      (begins : m₁.port.beginSequence w slot {} = (.ok (), begun))
      (copies : begun.copySequence w job.state.seq slot
        (toPos (wholeTokens config job.state.prompt)) = (.ok (), copied)) :
      Retains w config job m
        { blocks := (keptEntry config job slot).blocks.foldl BlockAllocator.incref m₁.blocks
          prefixCache := m₁.prefixCache.insert (keptHash config job) (keptEntry config job slot)
          port := ((copied.note (.index job.state.seq (keptHash config job) (keptEntry config job slot)
              ((m₁.prefixCache.find? (keptHash config job)).map Record.entry))).note
                (.stat .donorsRetained 1)).note
                  (.stat .donorsHeld (m₁.prefixCache.insert (keptHash config job)
                    (keptEntry config job slot)).donorsHeld) }

theorem retainPrefix_retains (w : World σ) (config : SchedulerConfig) (job : Job) (m : Scheduler σ) :
    Retains w config job m (retainPrefix w config job m) := by
  simp only [retainPrefix]
  split
  · exact .nothing
  · rename_i enabled
    split
    · exact .nothing
    · rename_i whole
      split
      · exact .nothing
      · rename_i backed
        split
        · exact .nothing
        · rename_i slot m₁ taken
          obtain ⟨begun, port, begins⟩ : ∃ begun port,
              m₁.port.beginSequence w slot {} = (begun, port) := ⟨_, _, rfl⟩
          cases begun with
          | error message =>
            simp only [retainInto, begins]
            exact .notBegun taken begins
          | ok =>
            obtain ⟨copied, port', copies⟩ : ∃ copied port', port.copySequence w job.state.seq slot
                (toPos (wholeTokens config job.state.prompt)) = (copied, port') := ⟨_, _, rfl⟩
            cases copied with
            | error message =>
              simp only [retainInto, begins, copies]
              exact .notCopied taken begins copies
            | ok =>
              simp only [retainInto, begins, copies]
              exact .kept (by simpa using (not_or.mp enabled).1) (by omega) (by omega) taken begins
                copies

/-- Every entry afterwards was there before, or is the one that keeps the job's prefix. -/
theorem Retains.pairs {job : Job} {m m' : Scheduler σ} (retains : Retains w config job m m')
    {p : UInt64 × Entry} (member : p ∈ m'.prefixCache.pairs) :
    p ∈ m.prefixCache.pairs ∨
      ∃ slot, p = (keptHash config job, keptEntry config job slot) ∧
        config.prefixCaching = true ∧ 0 < wholeTokens config job.state.prompt := by
  cases retains with
  | nothing => exact .inl member
  | notBegun taken | notCopied taken =>
    rw [PrefixCache.evictSequence_pairs] at member
    exact .inl (takeSlot_pairs taken (List.mem_of_mem_filter member))
  | @kept slot m₁ begun copied caching whole backed taken =>
    simp only [PrefixCache.insert_pairs, List.mem_cons] at member
    rcases member with rfl | old
    · exact .inr ⟨slot, rfl, caching, whole⟩
    · exact .inl (takeSlot_pairs taken (List.mem_of_mem_filter old))

/-- The members once a job that retires has been notified and its live entries have been dropped. -/
def dismiss (w : World σ) (job : Job) (m : Scheduler σ) : Scheduler σ :=
  { m with
    port := (job.state.finish w m.port).2
    prefixCache := m.prefixCache.evictSequence (job.state.finish w m.port).1.seq }

theorem dismiss_port (w : World σ) (job : Job) (m : Scheduler σ) :
    (m.dismiss w job).port = (job.state.finish w m.port).2 := rfl

theorem retire_eq (w : World σ) (config : SchedulerConfig) (job : Job) (m : Scheduler σ) :
    m.retire w config job =
      { retainPrefix w config { job with state := (job.state.finish w m.port).1 } (m.dismiss w job) with
        blocks := (retainPrefix w config { job with state := (job.state.finish w m.port).1 }
          (m.dismiss w job)).blocks.free job.blocks.blocks
        port := deliver { job with state := (job.state.finish w m.port).1 }
          (((retainPrefix w config { job with state := (job.state.finish w m.port).1 }
            (m.dismiss w job)).port.releaseSequence w (job.state.finish w m.port).1.seq).note
              (.stat .completed 1)) } := rfl

/-- What is kept of the prefix of a job that retires. -/
theorem dismiss_retains (w : World σ) (config : SchedulerConfig) (job : Job) (m : Scheduler σ) :
    Retains w config { job with state := (job.state.finish w m.port).1 } (m.dismiss w job)
      (retainPrefix w config { job with state := (job.state.finish w m.port).1 } (m.dismiss w job)) :=
  retainPrefix_retains w config _ _

/-- The same after a job retired; an entry that was there before is not the job's. -/
theorem retire_pairs (job : Job) (m : Scheduler σ) {p : UInt64 × Entry}
    (member : p ∈ (m.retire w config job).prefixCache.pairs) :
    (p ∈ m.prefixCache.pairs ∧ p.2.seq ≠ job.state.seq) ∨
      ∃ slot, p = (keptHash config job, keptEntry config job slot) ∧
        config.prefixCaching = true ∧ 0 < wholeTokens config job.state.prompt := by
  have same := SequenceState.finish_same (w := w) job.state m.port
  rcases (dismiss_retains w config job m).pairs member with old | ⟨slot, rfl, caching, whole⟩
  · rw [dismiss, PrefixCache.evictSequence_pairs, same.seq, List.mem_filter] at old
    exact .inl (by simpa using old)
  · simp only [same.prompt] at whole
    exact .inr ⟨slot, by simp [keptHash, keptEntry, same.prompt], caching, whole⟩

theorem Retains.adds {job : Job} {m m' : Scheduler σ} (retains : Retains w config job m m') :
    m.port.Adds Event.Caching m'.port := by
  have takes : ∀ {slot m₁}, m.takeSlot w = some (slot, m₁) → m.port.Adds Event.Caching m₁.port :=
    fun taken => (takeSlot_adds taken).mono fun _ => Event.Eviction.caching
  cases retains with
  | nothing => exact .refl _
  | notBegun taken begins =>
    exact ((takes taken).trans (.begin begins trivial)).trans (.release _ _ trivial)
  | notCopied taken begins copies =>
    exact (((takes taken).trans (.begin begins trivial)).trans
      (.copy copies trivial)).trans (.release _ _ trivial)
  | kept caching whole backed taken begins copies =>
    have copied := ((takes taken).trans (.begin begins trivial)).trans (.copy copies trivial)
    exact ((copied.trans (.note _ (by trivial))).trans (.note _ (by trivial))).trans
      (.note _ (by trivial))

theorem deliver_adds {P : Event → Prop} (stats : ∀ stat n, stat ≠ .admitted → P (.stat stat n))
    (values : ∀ id result, P (.setValue id result)) (job : Job) (port : Port σ) :
    port.Adds P (deliver job port) :=
  ((Port.Adds.note _ (stats .promptTokens _ (by decide))).trans
    (.note _ (stats .completionTokens _ (by decide)))).trans
    ((Port.Adds.note _ (stats .e2eLatency _ (by decide))).trans (.note _ (values _ _)))

theorem retire_adds {P : Event → Prop} (sinks : ∀ sink e, Event.ToSink sink e → P e)
    (internal : ∀ e, Event.Internal e → P e) (values : ∀ id result, P (.setValue id result)) (job : Job)
    (m : Scheduler σ) : m.port.Adds P (m.retire w config job).port := by
  have stats : ∀ stat n, stat ≠ .admitted → P (.stat stat n) := by
    intro stat n other
    cases stat <;> first | exact internal _ trivial | exact absurd rfl other
  have finished := (job.state.finish_adds (w := w) m.port).mono (sinks _)
  have kept := (dismiss_retains w config job m).adds.mono fun e caching => internal e caching.internal
  have released : ∀ port : Port σ, port.Adds P
      ((port.releaseSequence w (job.state.finish w m.port).1.seq).note (.stat .completed 1)) :=
    fun port => (Port.Adds.release _ _ (internal _ trivial)).trans (.note _ (stats _ _ (by decide)))
  exact ((finished.trans kept).trans (released _)).trans (deliver_adds stats values _ _)

/-! ## Readings of what a job logs on its way out -/

section Readings

variable {α : Type} {f : Event → Option α}

@[simp] theorem filterMap_deliver (job : Job) (port : Port σ) :
    (deliver job port).log.filterMap f =
      port.log.filterMap f ++ (f (.stat .promptTokens job.state.usage.promptTokens)).toList ++
        (f (.stat .completionTokens job.state.usage.completionTokens)).toList ++
        (f (.stat .e2eLatency 1)).toList ++ (f (.setValue job.request.id job.result)).toList := by
  simp [deliver, Job.result]

theorem filterMap_finish (sinks : ∀ sink e, Event.ToSink sink e → f e = none) (s : SequenceState)
    (port : Port σ) : (s.finish w port).2.log.filterMap f = port.log.filterMap f :=
  (s.finish_adds port).filterMap_eq (sinks s.sink)

theorem filterMap_accept (sinks : ∀ sink e, Event.ToSink sink e → f e = none)
    {s s' : SequenceState} {step : GenStep} {port port' : Port σ} {goesOn : Bool}
    (accepted : s.accept w step port = (goesOn, s', port')) :
    port'.log.filterMap f = port.log.filterMap f := by
  have adds := s.accept_adds (w := w) step port
  rw [accepted] at adds
  exact adds.filterMap_eq (sinks s.sink)

theorem filterMap_reclaim_caching (caching : ∀ e, Event.Caching e → f e = none) {m m' : Scheduler σ}
    (evicted : m.reclaimDonorBlocks w = some m') :
    m'.port.log.filterMap f = m.port.log.filterMap f :=
  (reclaimDonorBlocks_adds evicted).filterMap_eq fun e eviction => caching e eviction.caching

theorem filterMap_reclaim (internal : ∀ e, Event.Internal e → f e = none) {m m' : Scheduler σ}
    (evicted : m.reclaimDonorBlocks w = some m') :
    m'.port.log.filterMap f = m.port.log.filterMap f :=
  filterMap_reclaim_caching (fun e caching => internal e caching.internal) evicted

/-- Retiring a job logs what `finish` logs, then that it is completed and what `deliver` logs, but for
    matters of the prefix cache. -/
theorem filterMap_retire_caching (caching : ∀ e, Event.Caching e → f e = none) (job : Job) (m : Scheduler σ) :
    (m.retire w config job).port.log.filterMap f = (job.state.finish w m.port).2.log.filterMap f ++
      (f (.stat .completed 1)).toList ++
      (f (.stat .promptTokens (job.state.finish w m.port).1.usage.promptTokens)).toList ++
      (f (.stat .completionTokens (job.state.finish w m.port).1.usage.completionTokens)).toList ++
      (f (.stat .e2eLatency 1)).toList ++
      (f (.setValue job.request.id { job with state := (job.state.finish w m.port).1 }.result)).toList := by
  have kept := (dismiss_retains w config job m).adds.filterMap_eq caching
  have releases : ∀ seq, f (.releaseSequence seq) = none := fun seq => caching _ trivial
  simp only [retire_eq, filterMap_deliver, Port.filterMap_note, Port.filterMap_release, releases, kept,
    dismiss_port, Option.toList_none, List.append_nil]

/-- Retiring a job logs what `finish` logs and then the result, but for internal matters. -/
theorem filterMap_retire_log (internal : ∀ e, Event.Internal e → f e = none) (job : Job) (m : Scheduler σ) :
    (m.retire w config job).port.log.filterMap f = (job.state.finish w m.port).2.log.filterMap f ++
      (f (.setValue job.request.id { job with state := (job.state.finish w m.port).1 }.result)).toList := by
  have completed : ∀ n, f (.stat .completed n) = none := fun n => internal _ trivial
  have prompts : ∀ n, f (.stat .promptTokens n) = none := fun n => internal _ trivial
  have completions : ∀ n, f (.stat .completionTokens n) = none := fun n => internal _ trivial
  have observed : ∀ n, f (.stat .e2eLatency n) = none := fun n => internal _ trivial
  rw [filterMap_retire_caching (fun e caching => internal e caching.internal), completed, prompts, completions,
    observed]
  simp only [Option.toList_none, List.append_nil]

theorem filterMap_retire (sinks : ∀ sink e, Event.ToSink sink e → f e = none)
    (internal : ∀ e, Event.Internal e → f e = none) (job : Job) (m : Scheduler σ) :
    (m.retire w config job).port.log.filterMap f = m.port.log.filterMap f ++
      (f (.setValue job.request.id
        { job with state := (job.state.finish w m.port).1 }.result)).toList := by
  rw [filterMap_retire_log internal, filterMap_finish sinks]

/-- What a reading of sink calls sees of it is what `finish` logs. -/
theorem filterMap_retire_sinks (internal : ∀ e, Event.Internal e → f e = none)
    (values : ∀ id result, f (.setValue id result) = none) (job : Job) (m : Scheduler σ) :
    (m.retire w config job).port.log.filterMap f = (job.state.finish w m.port).2.log.filterMap f := by
  rw [filterMap_retire_log internal, values, Option.toList_none, List.append_nil]

end Readings

end Scheduler

end MicroVllm
