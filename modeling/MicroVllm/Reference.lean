import MicroVllm.Generation
import MicroVllm.Kv

/-! # Engines that are what their KV cache holds

`Samples` is the contract of an engine whose next token for a sequence is a function of
the sequence's sampling parameters and of the tokens its slot holds.  `Script.world` is
such an engine that runs: its state is the contents themselves.
-/

namespace MicroVllm

/-- The engine keeps `kv` as the calls say, and samples with `next` from what a slot holds
    after the batch.  Nothing is said about the contents once `decode` has thrown. -/
structure Samples {σ : Type} (w : World σ) where
  kv : σ → Kv Token
  next : SamplingParams → List Token → Token × Bool
  onText : ∀ s sink delta, kv (w.onText sink delta s) = kv s
  onFinish : ∀ s sink reason usage, kv (w.onFinish sink reason usage s) = kv s
  onError : ∀ s sink message, kv (w.onError sink message s) = kv s
  begins : ∀ s seq params, w.beginSequence seq params s = (.ok (), (w.beginSequence seq params s).2) ∧
    kv (w.beginSequence seq params s).2 = (kv s).begin seq params
  copies : ∀ s src dst n, w.copySequence src dst n s = (.ok (), (w.copySequence src dst n s).2) ∧
    kv (w.copySequence src dst n s).2 = (kv s).copy .token src dst n
  releases : ∀ s seq, kv (w.releaseSequence seq s) = (kv s).release seq
  decodes : ∀ s s' items steps, w.decode items s = (.ok steps, s') →
    kv s' = (kv s).feed .token items ∧
      List.Forall₂ (fun item step => ∀ slot, kv s' item.seq = some slot →
        (step.token, step.isEog) = next slot.params slot.cells)
        (items.filter (·.sample)) steps

namespace Samples

variable {σ : Type} {w : World σ}

/-- What this engine may sample. -/
def sampler (samples : Samples w) : Sampler :=
  fun params tokens step => (step.token, step.isEog) = samples.next params tokens

/-- At most one step can be sampled for a request after the tokens it has accepted. -/
theorem determines (samples : Samples w) (spec : RequestSpec) :
    Determines (spec.Sampled w samples.sampler) := by
  intro tokens step step' sampled sampled'
  have same : (step'.token, step'.isEog) = (step.token, step.isEog) := Eq.trans sampled' (Eq.symm sampled)
  exact ⟨congrArg Prod.fst same, congrArg Prod.snd same⟩

/-- The contents of the engine itself, as a view along a run. -/
def tracker (samples : Samples w) : Tracker w .token where
  kv _ s := samples.kv s
  keeps := False
  note _ _ _ _ := rfl
  onText _ s _ _ := samples.onText s _ _
  onFinish _ s _ _ _ := samples.onFinish s _ _ _
  onError _ s _ _ := samples.onError s _ _
  begin_ok _ s s' seq params begun := by
    have contents := (samples.begins s seq params).2
    rwa [begun] at contents
  begin_error _ s s' seq params message begun := by
    have returned := (samples.begins s seq params).1
    rw [begun] at returned
    cases returned
  copy_ok _ s s' src dst n copied := by
    have contents := (samples.copies s src dst n).2
    rwa [copied] at contents
  copy_error _ s s' src dst n message copied := by
    have returned := (samples.copies s src dst n).1
    rw [copied] at returned
    cases returned
  release _ s seq := samples.releases s seq
  decode_ok _ s s' items steps returned := (samples.decodes s s' items steps returned).1
  decode_error keeps := keeps.elim

end Samples

/-- Two engines that tokenize, spell and sample alike. -/
structure Samples.Twin {σ τ : Type} {w : World σ} {v : World τ} (samples : Samples w) (twin : Samples v) :
    Prop where
  tokenize : v.tokenize = w.tokenize
  piece : v.piece = w.piece
  next : twin.next = samples.next

namespace Samples.Twin

variable {σ τ : Type} {w : World σ} {v : World τ} {samples : Samples w} {twin : Samples v}

/-- A request generates the same on both. -/
theorem concludes (alike : samples.Twin twin) {spec : RequestSpec} {s : SequenceState}
    (concludes : Concludes v (spec.Sampled v twin.sampler) (spec.opening v) s) :
    Concludes w (spec.Sampled w samples.sampler) (spec.opening w) s := by
  have opening : spec.opening v = spec.opening w := by
    rw [RequestSpec.opening, RequestSpec.opening, alike.tokenize]
  rw [opening] at concludes
  apply concludes.transfer alike.piece.symm
  intro tokens step sampled
  unfold RequestSpec.Sampled sampler at sampled ⊢
  rwa [alike.tokenize, alike.next] at sampled

end Samples.Twin

/-- An engine whose only method that throws is `decode`. -/
structure World.OnlyDecodeThrows {σ : Type} (w : World σ) : Prop where
  begins : ∀ seq params s, (w.beginSequence seq params s).1 = .ok ()
  copies : ∀ src dst n s, (w.copySequence src dst n s).1 = .ok ()

/-- An engine that never throws. -/
structure World.NeverThrows {σ : Type} (w : World σ) : Prop extends World.OnlyDecodeThrows w where
  decodes : ∀ items s, (w.decode items s).1.isOk = true

/-- Every sampling item of a decode yields a step. -/
def World.Answers {σ : Type} (w : World σ) : Prop :=
  ∀ items s steps s', w.decode items s = (.ok steps, s') →
    (items.filter (·.sample)).length ≤ steps.length

/-- The same view of an engine that never throws. -/
def Samples.steady {σ : Type} {w : World σ} (samples : Samples w) (engine : w.NeverThrows) :
    Tracker w .token :=
  { samples.tracker with
    keeps := True
    decode_error := by
      intro _ past s s' items message threw
      have returns := engine.decodes items s
      rw [threw] at returns
      cases returns }

theorem Samples.answers {σ : Type} {w : World σ} (samples : Samples w) : w.Answers := by
  intro items s steps s' returned
  exact Nat.le_of_eq (samples.decodes s s' items steps returned).2.length_eq

/-- No sink ever asks for cancellation. -/
def World.NeverCancels {σ : Type} (w : World σ) : Prop := ∀ sink s, w.cancelled sink s = false

/-- How an executable reference engine behaves. -/
structure Script where
  caps : EngineCaps
  tokens : Text → List Token
  next : SamplingParams → List Token → Token × Bool
  piece : Token → Text
  fails : Kv Token → List BatchItem → Bool := fun _ _ => false

namespace Script

/-- The step an item gets from what its slot holds. -/
def sample (script : Script) (kv : Kv Token) (item : BatchItem) : GenStep :=
  match kv item.seq with
  | some slot =>
    let next := script.next slot.params slot.cells
    { seq := item.seq, token := next.1, isEog := next.2 }
  | none => { seq := item.seq, token := 0, isEog := true }

def world (script : Script) : World (Kv Token) where
  caps := script.caps
  tokenize text _ := if (script.tokens text).length < 2 ^ 31 then script.tokens text else []
  tokenize_length text _ := by
    split
    · assumption
    · simp
  piece := script.piece
  beginSequence seq params kv := (.ok (), kv.begin seq params)
  decode items kv :=
    if script.fails kv items then (.error "backend failure", kv)
    else (.ok ((items.filter (·.sample)).map (script.sample (kv.feed .token items))),
      kv.feed .token items)
  releaseSequence seq kv := kv.release seq
  copySequence src dst n kv := (.ok (), kv.copy .token src dst n)
  onText _ _ kv := kv
  onFinish _ _ _ kv := kv
  onError _ _ kv := kv
  cancelled _ _ := false

/-- The reference engine meets the contract. -/
def samples (script : Script) : Samples script.world where
  kv s := s
  next := script.next
  onText _ _ _ := rfl
  onFinish _ _ _ _ := rfl
  onError _ _ _ := rfl
  begins _ _ _ := ⟨rfl, rfl⟩
  copies _ _ _ _ := ⟨rfl, rfl⟩
  releases _ _ := rfl
  decodes s s' items steps returned := by
    simp only [world] at returned
    split at returned
    · cases returned
    · simp only [Prod.mk.injEq, Except.ok.injEq] at returned
      obtain ⟨rfl, rfl⟩ := returned
      refine ⟨rfl, ?_⟩
      rw [List.forall₂_map_right_iff]
      refine List.forall₂_same.mpr ?_
      intro item _ slot held
      simp [sample, held]

theorem world_onlyDecodeThrows (script : Script) : script.world.OnlyDecodeThrows :=
  ⟨fun _ _ _ => rfl, fun _ _ _ _ => rfl⟩

theorem world_answers (script : Script) : script.world.Answers := script.samples.answers

theorem world_neverCancels (script : Script) : script.world.NeverCancels := fun _ _ => rfl

/-- A small engine for examples: one token per byte, and the same letter until the budget
    is spent. -/
def letter : Script where
  caps := { nCtx := 64, nBatch := 8, nSeqMax := 4, nCtxSeq := 32 }
  tokens text := text.map fun byte => Int32.ofNat byte.toNat
  next _ _ := (97, false)
  piece _ := [97]

theorem letter_neverThrows : letter.world.NeverThrows :=
  ⟨letter.world_onlyDecodeThrows, fun _ _ => rfl⟩

end Script

end MicroVllm
