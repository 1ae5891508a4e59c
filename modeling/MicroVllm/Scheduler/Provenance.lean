import MicroVllm.Scheduler.Cells

/-! # Where retained prefixes come from

A donor entry is recorded, and a cached prefix is copied, only when every position it
covers was copied from another slot or fed in a decode that returned, unless the try block
is left while a job has not been prefilled for the whole blocks of its prompt.
-/

namespace MicroVllm

open Transition (Throughout)
open Scheduler (wholeTokens)

/-- A position that was copied, or fed with this token. -/
def CopiedOrFed (t : Token) (cell : Option Token) : Prop := cell = none ∨ cell = some t

theorem origin_tracks : CellKind.origin.Tracks CopiedOrFed where
  fed _ := .inr rfl
  copied _ _ _ := .inl rfl

/-- What an event claims of the KV cache holds after the calls before it.  The source slot
    of a donor entry has every position the entry covers, copied or fed with the prompt's token
    in a decode that returned; and a copy is of positions the source slot has. -/
def Computed (before : List Event) : Event → Prop
  | .index source _ entry _ => entry.retained = true →
    ∃ slot, replay .origin false before source = some slot ∧
      ∀ i < entry.nTokens, slot.cells[i]? = some none ∨
        ∃ t, entry.prompt[i]? = some t ∧ slot.cells[i]? = some (some t)
  | .copySequence src _ n true =>
    ∃ slot, replay .origin false before src = some slot ∧ n ≤ slot.cells.length
  | _ => True

theorem Computed.of_routine {before : List Event} {e : Event} (routine : e.Routine) :
    Computed before e := by
  cases e with
  | index source hash entry displaced =>
    intro retained
    rw [show entry.retained = false from routine] at retained
    cases retained
  | copySequence src dst n ok =>
    cases ok with
    | false => trivial
    | true => cases routine
  | _ => trivial

section

variable {σ : Type} {w : World σ} {config : SchedulerConfig} {past : List Event}

/-- What a slot that holds an entry says of the event that records it. -/
theorem Slot.HoldsEntry.computed {entry : Entry} {slot : Slot (Option Token)}
    (holds : slot.HoldsEntry CopiedOrFed entry) (within : entry.nTokens ≤ entry.prompt.length) :
    ∀ i < entry.nTokens, slot.cells[i]? = some none ∨
      ∃ t, entry.prompt[i]? = some t ∧ slot.cells[i]? = some (some t) := by
  intro i inside
  have covers := holds.covers
  obtain ⟨t, token⟩ : ∃ t, entry.prompt[i]? = some t :=
    ⟨_, List.getElem?_eq_getElem (Nat.lt_of_lt_of_le inside within)⟩
  obtain ⟨c, cell⟩ : ∃ c, slot.cells[i]? = some c :=
    ⟨_, List.getElem?_eq_getElem (Nat.lt_of_lt_of_le inside covers)⟩
  have goes := holds.goes i t c (by rw [List.getElem?_take, if_pos inside]; exact token) cell
  rcases goes with rfl | rfl
  · exact .inl cell
  · exact .inr ⟨t, token, cell⟩

theorem Port.Heeds.routine {port port' : Port σ} (heeds : port.Heeds Computed past)
    (adds : port.Adds Event.Routine port') : port'.Heeds Computed past :=
  heeds.adds adds fun _ _ => Computed.of_routine

/-- Keeping the prefix of a job whose slot holds the whole blocks of its prompt claims
    nothing untrue. -/
theorem heeds_retains {m m' : Scheduler σ} {job : Job} {held lostBlocks lostSlots : List Nat}
    {slot : Slot (Option Token)} (heeds : m.port.Heeds Computed past)
    (ledger : Ledger config m.blocks m.prefixCache held lostBlocks lostSlots)
    (own : job.state.seq ∉ donorSlots config) (small : job.state.prompt.length < 2 ^ 31)
    (found : (Tracker.history w .origin false).contents past m.port job.state.seq = some slot)
    (holds : ∀ donor, 0 < wholeTokens config job.state.prompt →
      wholeTokens config job.state.prompt / config.blockSize ≤ job.blocks.nBlocks →
      slot.HoldsEntry CopiedOrFed (Scheduler.keptEntry config job donor))
    (retains : Scheduler.Retains w config job m m') : m'.port.Heeds Computed past := by
  have takes : ∀ {donor m₁}, m.takeSlot w = some (donor, m₁) → m₁.port.Heeds Computed past :=
    fun taken => heeds.routine ((Scheduler.takeSlot_adds taken).mono fun _ => Event.Routine.of_eviction)
  have begun : ∀ {donor m₁ result port}, m.takeSlot w = some (donor, m₁) →
      m₁.port.beginSequence w donor {} = (result, port) → port.Heeds Computed past :=
    fun taken begins => (takes taken).routine (.begin begins trivial)
  cases retains with
  | nothing => exact heeds
  | notBegun taken begins => exact (begun taken begins).routine (.release _ _ trivial)
  | notCopied taken begins copies =>
    have copied := (begun taken begins).routine (.copy copies rfl)
    exact copied.routine (.release _ _ trivial)
  | @kept donor m₁ begunPort copied caching whole backed taken begins copies =>
    have entry := holds donor whole backed
    have apart : job.state.seq ≠ donor := by
      rintro rfl
      exact own (ledger.taken_donorSlot taken)
    -- the job's own slot is what it was, before the copy and after it
    have before : (Tracker.history w .origin false).contents past begunPort job.state.seq = some slot := by
      rw [Tracker.contents_begin _ begins, Kv.begin_other apart, ledger.contents_takeSlot _ taken own]
      exact found
    have after : (Tracker.history w .origin false).contents past copied job.state.seq = some slot := by
      rw [Tracker.contents_copy _ copies, Kv.copy_other apart]
      exact before
    have within : wholeTokens config job.state.prompt ≤ job.state.prompt.length :=
      Scheduler.wholeTokens_le config job.state.prompt
    have heedsCopy : copied.Heeds Computed past := by
      refine (begun taken begins).snoc (Port.log_copy copies) ⟨slot, before, ?_⟩
      rw [toPos_of_lt (Nat.lt_of_le_of_lt within small)]
      exact Int.ofNat_le.mpr entry.covers
    have heedsIndex : (copied.note (.index job.state.seq (Scheduler.keptHash config job)
        (Scheduler.keptEntry config job donor)
        ((m₁.prefixCache.find? (Scheduler.keptHash config job)).map Record.entry))).Heeds Computed past :=
      heedsCopy.snoc rfl fun _ => ⟨slot, after, entry.computed within⟩
    exact heedsIndex.routine ((Port.Adds.note _ trivial).trans (.note _ trivial))

/-- Retiring it claims nothing untrue either. -/
theorem heeds_retire {m : Scheduler σ} {job : Job} {held lostBlocks lostSlots : List Nat}
    {slot : Slot (Option Token)} (heeds : m.port.Heeds Computed past)
    (ledger : Ledger config m.blocks m.prefixCache held lostBlocks lostSlots)
    (own : job.state.seq < config.maxBatchSize) (small : job.state.prompt.length < 2 ^ 31)
    (found : (Tracker.history w .origin false).contents past m.port job.state.seq = some slot)
    (holds : ∀ donor, 0 < wholeTokens config job.state.prompt →
      wholeTokens config job.state.prompt / config.blockSize ≤ job.blocks.nBlocks →
      slot.HoldsEntry CopiedOrFed (Scheduler.keptEntry config job donor)) :
    (m.retire w config job).port.Heeds Computed past := by
  have same := SequenceState.finish_same (w := w) job.state m.port
  have finishes := heeds.routine
    ((job.state.finish_adds (w := w) m.port).mono fun _ => Event.Routine.of_toSink)
  have dismissed : (m.dismiss w job).port.Heeds Computed past := finishes
  have kept := heeds_retains dismissed (ledger.dismiss own) (by rw [same.seq]; exact not_donorSlot own)
    (by rw [same.prompt]; exact small)
    (by rw [Scheduler.dismiss_port, Tracker.contents_finish, same.seq]; exact found)
    (by simpa only [Scheduler.keptEntry, same.prompt] using holds)
    (Scheduler.dismiss_retains w config job m)
  have released : ∀ port : Port σ, port.Adds Event.Routine
      ((port.releaseSequence w (job.state.finish w m.port).1.seq).note (.stat .completed 1)) :=
    fun port => (Port.Adds.release _ _ trivial).trans (.note _ trivial)
  exact (kept.routine (released _)).routine
    (Scheduler.deliver_adds (fun _ _ _ => trivial) (fun _ _ => trivial) _ _)

end

namespace Server

variable {σ : Type} {w : World σ} {config : SchedulerConfig} {capacity : Nat} {world : σ}
variable {past : List Event} {s : Server (Continuous σ)}

/-- Along a run that leaves the try block only in good order, every slot holds what its job
    and its entries say, and every event claims no more. -/
theorem computed_run (batch : 1 ≤ config.maxBatchSize)
    (run : ((continuous w config capacity world).guarded fun s _ _ =>
      s.thread.FailsClean w (config.construct w.caps)).Run past s) :
    s.thread.Cells CopiedOrFed (config.construct w.caps) (.history w .origin false) past ∧
      Throughout Computed past := by
  refine continuous_thread_invariant ?_ ?_ run
  · refine ⟨⟨?_, ?_⟩, .nil⟩
    · simp [Continuous.crew, Continuous.start, Pc.inHand]
    · simp [Continuous.start, Scheduler.make, PrefixCache.configureDonors, PrefixCache.pairs]
  · rintro past s thread queue run settled ⟨cells, heeds⟩ move clean
    have orderly := orderly_run run.of_guarded
    obtain ⟨lostBlocks, lostSlots, books⟩ := books_run (.inl batch) run.of_guarded
    have after := cells.move settled.layout orderly books origin_tracks rfl clean
      (fun _ _ _ _ _ _ _ _ _ _ _ => .inl rfl) move
    refine ⟨after.quiet, ?_⟩
    have start : s.thread.port.Heeds Computed past := by
      rw [Port.Heeds, settled.silent, List.append_nil]
      exact heeds
    change thread.port.Heeds Computed past
    cases move.logs with
    | routine adds => exact start.routine adds
    | submits pc decoded =>
      exact start.snoc (Port.log_decode decoded) trivial
    | @adopts job hit port pc found within copied adds =>
      -- what is copied is covered by the entry that was hit
      obtain ⟨slot, source, entry⟩ := cells.entries _ found
      have small : job.state.prompt.length < 2 ^ 31 := by
        obtain ⟨request, slot, slots, rfl, _⟩ := settled.layout.hand job pc
        rw [Scheduler.newJob_prompt]
        exact w.tokenize_length _ _
      refine (start.snoc (Port.log_copy copied) ⟨slot, source, ?_⟩).routine adds
      rw [toPos_of_lt (Nat.lt_of_le_of_lt within small)]
      exact Int.ofNat_le.mpr entry.covers
    | @retires job active finished port =>
      -- a donor entry covers the prompt of a finished job, all of which its slot holds
      obtain ⟨slot, found, holds⟩ := cells.jobs job (List.mem_append_left _ active)
      rw [port]
      refine heeds_retire start books.ledger (settled.layout.lt_of_active active)
        (settled.layout.origin job active).prompt_lt found fun donor whole backed => ?_
      exact ⟨holds.goes.take _, holds.done finished
        (Nat.lt_of_lt_of_le (Scheduler.wholeTokens_div_pos whole) backed)⟩

end Server

/-- In every run that leaves the try block only when the whole blocks of the prompts of all unfinished
    jobs had been prefilled or copied, each donor entry covers positions that were copied or fed in a
    decode that returned, and each copied prefix is of positions that are there. -/
theorem retained_prefixes_computed {σ : Type} (w : World σ) (config : SchedulerConfig) (capacity : Nat)
    (world : σ) (batch : 1 ≤ config.maxBatchSize) (past : List Event) (s : Server (Continuous σ))
    (run : ((Server.continuous w config capacity world).guarded fun s _ _ =>
      s.thread.FailsClean w (config.construct w.caps)).Run past s) : Throughout Computed past :=
  (Server.computed_run batch run).2

/-- The small engine, except that a decode with exactly these tokens in it throws. -/
def Script.flaky (tokens : List Token) : Script :=
  { Script.letter with fails := fun _ items => items.any fun item => item.tokens = tokens }

/-- The decode after the prompt throws, and the prefix of the failed job is kept. -/
theorem retained_prefixes_computed_flaky :
    1 ≤ (SchedulerConfig.single 1).maxBatchSize ∧
      ∃ past s, ((Server.continuous (Script.flaky [97]).world (.single 1) 4 fun _ => none).guarded
          fun s _ _ => s.thread.FailsClean (Script.flaky [97]).world
            ((SchedulerConfig.single 1).construct (Script.flaky [97]).caps)).Run past s ∧
        s.thread.prefixCache.donors.length = 1 ∧
        Event.decode [{ seq := 0, tokens := [97], pos0 := 2 }] false ∈ past ∧
        Throughout Computed past := by
  obtain ⟨past, s, run, kept, threw⟩ : ∃ past s,
      ((Server.continuous (Script.flaky [97]).world (.single 1) 4 fun _ => none).guarded
        fun s _ _ => s.thread.FailsClean (Script.flaky [97]).world
          ((SchedulerConfig.single 1).construct (Script.flaky [97]).caps)).Run past s ∧
      (s.thread.prefixCache.donors.length = 1 ∧
        Event.decode [{ seq := 0, tokens := [97], pos0 := 2 }] false ∈ past) :=
    Server.exists_guarded ([.push { id := 0, spec := { prompt := [1, 2], maxTokens := 2 } }] ++
      List.replicate 20 .run) rfl rfl (by decide +kernel)
  exact ⟨by decide, past, s, run, kept, threw,
    retained_prefixes_computed _ _ _ _ (by decide) past s run⟩

/-- The decode of the prompt itself throws.  The failed job is retained all the same: the
    donor entry covers two tokens of a slot that has none, and the next request inherits them. -/
theorem retained_prefix_uncomputed :
    1 ≤ (SchedulerConfig.single 1).maxBatchSize ∧
      ∃ past s, (Server.continuous (Script.flaky [1, 2]).world (.single 1) 4 fun _ => none).Run past s ∧
        (∃ before hash entry after, past = before ++ .index 0 hash entry none :: after ∧
          entry.retained = true ∧ entry.nTokens = 2 ∧
          replay .origin false before 0 = some { params := {}, cells := [] } ∧
          Event.hit 0 [1, 2, 3] entry ∈ past) ∧
        ¬ Throughout Computed past := by
  refine ⟨by decide, ?_⟩
  obtain ⟨past, s, run, recorded, empty, inherited⟩ : ∃ past s,
      (Server.continuous (Script.flaky [1, 2]).world (.single 1) 4 fun _ => none).Run past s ∧
      (past[6]? = some (.index 0 11125486474286715500
          { seq := 1, nTokens := 2, blocks := [0], retained := true, prompt := [1, 2] } none) ∧
        replay .origin false (past.take 6) 0 = some { params := {}, cells := [] } ∧
        Event.hit 0 [1, 2, 3]
          { seq := 1, nTokens := 2, blocks := [0], retained := true, prompt := [1, 2] } ∈ past) :=
    Server.exists_run ([.push { id := 0, spec := { prompt := [1, 2], maxTokens := 2 } },
      .push { id := 1, spec := { prompt := [1, 2, 3], maxTokens := 2 } }] ++
      List.replicate 36 .run) rfl rfl (by decide +kernel)
  obtain ⟨inside, event⟩ := List.getElem?_eq_some_iff.mp recorded
  have split : past = past.take 6 ++ .index 0 11125486474286715500
      { seq := 1, nTokens := 2, blocks := [0], retained := true, prompt := [1, 2] } none ::
      past.drop 7 := by
    rw [← event, List.cons_getElem_drop_succ, List.take_append_drop]
  refine ⟨past, s, run, ⟨_, _, _, _, split, rfl, rfl, empty, inherited⟩, fun throughout => ?_⟩
  obtain ⟨slot, found, cells⟩ := throughout _ _ _ split rfl
  rw [empty, Option.some.injEq] at found
  subst found
  have first := cells 0 (by decide)
  simp at first

end MicroVllm
