import MicroVllm.Scheduler.Retention

/-! # The KV cache behind the engine

What each slot of the engine holds, as the calls that cross the boundary make it: a
sequence starts empty, a decode appends the tokens of its items, a copy takes the first
positions of another slot, and a release empties the slot.

A `Tracker` is a view of those contents along a run.  One kind of tracker reads them off
the history of calls, another is the state of an engine that behaves this way; the
invariants are proved of trackers, so they hold of both.
-/

namespace MicroVllm

/-- What a position of a slot records of the token fed to it and of being copied. -/
structure CellKind (α : Type) where
  fed : Token → α
  copied : α → α

/-- Positions that hold their tokens. -/
def CellKind.token : CellKind Token where
  fed := id
  copied := id

/-- Positions that hold the token fed to them here, or nothing if they were copied. -/
def CellKind.origin : CellKind (Option Token) where
  fed := some
  copied _ := none

/-- A registered sequence: its sampling parameters and its positions. -/
structure Slot (α : Type) where
  params : SamplingParams
  cells : List α
deriving DecidableEq, Repr

abbrev Kv (α : Type) := Nat → Option (Slot α)

/-- The tokens a batch feeds to a slot. -/
def tokensFor (slot : Nat) (items : List BatchItem) : List Token :=
  (items.filter (·.seq = slot)).flatMap (·.tokens)

namespace Kv

variable {α : Type}

def begin (kv : Kv α) (seq : Nat) (params : SamplingParams) : Kv α :=
  fun slot => if slot = seq then some { params, cells := [] } else kv slot

def release (kv : Kv α) (seq : Nat) : Kv α := fun slot => if slot = seq then none else kv slot

def feed (kind : CellKind α) (kv : Kv α) (items : List BatchItem) : Kv α :=
  fun slot => (kv slot).map fun held =>
    { held with cells := held.cells ++ (tokensFor slot items).map kind.fed }

/-- The first `n` positions of `src` become those of `dst`, if both are registered. -/
def copy (kind : CellKind α) (kv : Kv α) (src dst : Nat) (n : Int) : Kv α :=
  fun slot =>
    if slot = dst then
      (kv dst).map fun held =>
        match kv src with
        | some source => { held with cells := (source.cells.take n.toNat).map kind.copied }
        | none => held
    else kv slot

theorem begin_self (kv : Kv α) (seq : Nat) (params : SamplingParams) :
    kv.begin seq params seq = some { params, cells := [] } := if_pos rfl

theorem begin_other {kv : Kv α} {seq slot : Nat} {params : SamplingParams} (other : slot ≠ seq) :
    kv.begin seq params slot = kv slot := if_neg other

theorem release_other {kv : Kv α} {seq slot : Nat} (other : slot ≠ seq) :
    kv.release seq slot = kv slot := if_neg other

theorem copy_other {kind : CellKind α} {kv : Kv α} {src dst slot : Nat} {n : Int}
    (other : slot ≠ dst) : kv.copy kind src dst n slot = kv slot := if_neg other

end Kv

namespace Event

/-- Notes of the scheduler's own decisions and counters: nothing the engine sees. -/
def Ghost : Event → Prop
  | .setValue .. | .stat .. | .hit .. | .index .. | .preempt .. => True
  | _ => False

@[simp] theorem ghost_setValue (id : Nat) (result : GenResult) :
    (Event.setValue id result).Ghost := trivial

@[simp] theorem ghost_stat (stat : Stat) (n : Nat) : (Event.stat stat n).Ghost := trivial

@[simp] theorem ghost_hit (seq : Nat) (prompt : List Token) (entry : Entry) :
    (Event.hit seq prompt entry).Ghost := trivial

@[simp] theorem ghost_index (source : Nat) (hash : UInt64) (entry : Entry)
    (displaced : Option Entry) : (Event.index source hash entry displaced).Ghost := trivial

@[simp] theorem ghost_preempt (id victim starved emitted : Nat) :
    (Event.preempt id victim starved emitted).Ghost := trivial

end Event

/-! ## Trackers -/

/-- A view of the KV contents, from the calls so far and the state of the outside world,
    that changes with each call as the contents do.  A call of `begin_sequence` or
    `copy_sequence` that throws touches at most its own slot; a `decode` that throws keeps
    the contents if the view `keeps` them. -/
structure Tracker {σ α : Type} (w : World σ) (kind : CellKind α) where
  kv : List Event → σ → Kv α
  keeps : Prop
  note : ∀ past s e, e.Ghost → kv (past ++ [e]) s = kv past s
  onText : ∀ past s sink delta, kv (past ++ [.onText sink delta]) (w.onText sink delta s) = kv past s
  onFinish : ∀ past s sink reason usage,
    kv (past ++ [.onFinish sink reason usage]) (w.onFinish sink reason usage s) = kv past s
  onError : ∀ past s sink message,
    kv (past ++ [.onError sink message]) (w.onError sink message s) = kv past s
  begin_ok : ∀ past s s' seq params, w.beginSequence seq params s = (.ok (), s') →
    kv (past ++ [.beginSequence seq params true]) s' = (kv past s).begin seq params
  begin_error : ∀ past s s' seq params message, w.beginSequence seq params s = (.error message, s') →
    ∀ slot, slot ≠ seq → kv (past ++ [.beginSequence seq params false]) s' slot = kv past s slot
  copy_ok : ∀ past s s' src dst n, w.copySequence src dst n s = (.ok (), s') →
    kv (past ++ [.copySequence src dst n true]) s' = (kv past s).copy kind src dst n
  copy_error : ∀ past s s' src dst n message, w.copySequence src dst n s = (.error message, s') →
    ∀ slot, slot ≠ dst → kv (past ++ [.copySequence src dst n false]) s' slot = kv past s slot
  release : ∀ past s seq,
    kv (past ++ [.releaseSequence seq]) (w.releaseSequence seq s) = (kv past s).release seq
  decode_ok : ∀ past s s' items steps, w.decode items s = (.ok steps, s') →
    kv (past ++ [.decode items true]) s' = (kv past s).feed kind items
  decode_error : keeps → ∀ past s s' items message, w.decode items s = (.error message, s') →
    kv (past ++ [.decode items false]) s' = kv past s

namespace Tracker

variable {σ α : Type} {w : World σ} {kind : CellKind α} (T : Tracker w kind) (past : List Event)

/-- The contents as the scheduler's side of the boundary has left them. -/
def contents (port : Port σ) : Kv α := T.kv (past ++ port.log) port.world

@[simp] theorem contents_note (port : Port σ) {e : Event} (ghost : e.Ghost) :
    T.contents past (port.note e) = T.contents past port := by
  simp only [contents, Port.note, ← List.append_assoc]
  exact T.note _ _ e ghost

@[simp] theorem contents_onText (port : Port σ) (sink : SinkRef) (delta : Text) :
    T.contents past (port.onText w sink delta) = T.contents past port := by
  simp only [contents, Port.onText, ← List.append_assoc]
  exact T.onText _ _ _ _

@[simp] theorem contents_onFinish (port : Port σ) (sink : SinkRef) (reason : FinishReason)
    (usage : Usage) : T.contents past (port.onFinish w sink reason usage) = T.contents past port := by
  simp only [contents, Port.onFinish, ← List.append_assoc]
  exact T.onFinish _ _ _ _ _

@[simp] theorem contents_onError (port : Port σ) (sink : SinkRef) (message : String) :
    T.contents past (port.onError w sink message) = T.contents past port := by
  simp only [contents, Port.onError, ← List.append_assoc]
  exact T.onError _ _ _ _

@[simp] theorem contents_release (port : Port σ) (seq : Nat) :
    T.contents past (port.releaseSequence w seq) = (T.contents past port).release seq := by
  simp only [contents, Port.releaseSequence, ← List.append_assoc]
  exact T.release _ _ _

variable {past} in
theorem contents_begin {port port' : Port σ} {seq : Nat} {params : SamplingParams}
    (begun : port.beginSequence w seq params = (.ok (), port')) :
    T.contents past port' = (T.contents past port).begin seq params := by
  obtain ⟨result, world, called⟩ : ∃ result world, w.beginSequence seq params port.world = (result, world) :=
    ⟨_, _, rfl⟩
  simp only [Port.beginSequence, called, Prod.mk.injEq] at begun
  obtain ⟨rfl, rfl⟩ := begun
  simp only [contents, ← List.append_assoc]
  exact T.begin_ok _ _ _ _ _ called

variable {past} in
theorem contents_begin_error {port port' : Port σ} {seq slot : Nat} {params : SamplingParams}
    {message : String} (begun : port.beginSequence w seq params = (.error message, port'))
    (other : slot ≠ seq) : T.contents past port' slot = T.contents past port slot := by
  obtain ⟨result, world, called⟩ : ∃ result world, w.beginSequence seq params port.world = (result, world) :=
    ⟨_, _, rfl⟩
  simp only [Port.beginSequence, called, Prod.mk.injEq] at begun
  obtain ⟨rfl, rfl⟩ := begun
  simp only [contents, ← List.append_assoc]
  exact T.begin_error _ _ _ _ _ _ called slot other

variable {past} in
theorem contents_copy {port port' : Port σ} {src dst : Nat} {n : Int}
    (copied : port.copySequence w src dst n = (.ok (), port')) :
    T.contents past port' = (T.contents past port).copy kind src dst n := by
  obtain ⟨result, world, called⟩ : ∃ result world, w.copySequence src dst n port.world = (result, world) :=
    ⟨_, _, rfl⟩
  simp only [Port.copySequence, called, Prod.mk.injEq] at copied
  obtain ⟨rfl, rfl⟩ := copied
  simp only [contents, ← List.append_assoc]
  exact T.copy_ok _ _ _ _ _ _ called

variable {past} in
theorem contents_copy_error {port port' : Port σ} {src dst slot : Nat} {n : Int} {message : String}
    (copied : port.copySequence w src dst n = (.error message, port')) (other : slot ≠ dst) :
    T.contents past port' slot = T.contents past port slot := by
  obtain ⟨result, world, called⟩ : ∃ result world, w.copySequence src dst n port.world = (result, world) :=
    ⟨_, _, rfl⟩
  simp only [Port.copySequence, called, Prod.mk.injEq] at copied
  obtain ⟨rfl, rfl⟩ := copied
  simp only [contents, ← List.append_assoc]
  exact T.copy_error _ _ _ _ _ _ _ called slot other

variable {past} in
theorem contents_decode {port port' : Port σ} {items : List BatchItem} {steps : List GenStep}
    (returned : port.decode w items = (.ok steps, port')) :
    T.contents past port' = (T.contents past port).feed kind items := by
  obtain ⟨result, world, called⟩ : ∃ result world, w.decode items port.world = (result, world) :=
    ⟨_, _, rfl⟩
  simp only [Port.decode, called, Prod.mk.injEq] at returned
  obtain ⟨rfl, rfl⟩ := returned
  simp only [contents, ← List.append_assoc]
  exact T.decode_ok _ _ _ _ _ called

variable {past} in
theorem contents_decode_error (keeps : T.keeps) {port port' : Port σ} {items : List BatchItem}
    {message : String} (threw : port.decode w items = (.error message, port')) :
    T.contents past port' = T.contents past port := by
  obtain ⟨result, world, called⟩ : ∃ result world, w.decode items port.world = (result, world) :=
    ⟨_, _, rfl⟩
  simp only [Port.decode, called, Prod.mk.injEq] at threw
  obtain ⟨rfl, rfl⟩ := threw
  simp only [contents, ← List.append_assoc]
  exact T.decode_error keeps _ _ _ _ _ called

/-! ## Calls that leave the contents alone -/

@[simp] theorem contents_flushUpto (s : SequenceState) (upto : Nat) (port : Port σ) :
    T.contents past (s.flushUpto w upto port).2 = T.contents past port := by
  simp only [SequenceState.flushUpto]
  split <;> simp

@[simp] theorem contents_finish (s : SequenceState) (port : Port σ) :
    T.contents past (s.finish w port).2 = T.contents past port := by
  simp only [SequenceState.finish]
  split
  · rfl
  · split
    · simp
    · split <;> simp

variable {past} in
theorem contents_accept {s s' : SequenceState} {step : GenStep} {port port' : Port σ} {goesOn : Bool}
    (accepted : s.accept w step port = (goesOn, s', port')) :
    T.contents past port' = T.contents past port := by
  have same : T.contents past (s.accept w step port).2.2 = T.contents past port := by
    simp only [SequenceState.accept]
    split
    · rfl
    · split
      · rfl
      · split
        · rfl
        · split
          · simp
          · split <;> simp
  rwa [accepted] at same

@[simp] theorem contents_deliver (job : Job) (port : Port σ) :
    T.contents past (Scheduler.deliver job port) = T.contents past port := by
  simp [Scheduler.deliver]

theorem contents_reclaim {s s' : Scheduler σ} (evicted : s.reclaimDonorBlocks w = some s') :
    ∃ donor cache, s.prefixCache.evictLruRetained = some (donor, cache) ∧
      s'.prefixCache = cache ∧ s'.blocks = s.blocks.free donor.blocks ∧
      T.contents past s'.port = (T.contents past s.port).release donor.seq := by
  simp only [Scheduler.reclaimDonorBlocks] at evicted
  split at evicted
  · cases evicted
  · rename_i donor cache found
    cases evicted
    exact ⟨donor, cache, found, rfl, rfl, by simp [Scheduler.releaseDonor]⟩

end Tracker

/-! ## Contents read off the history -/

namespace Event

/-- What a call does to the contents.  `counted` says whether a `decode` that threw still
    counts as having submitted its tokens. -/
def effect {α : Type} (kind : CellKind α) (counted : Bool) (kv : Kv α) : Event → Kv α
  | .beginSequence seq params true => kv.begin seq params
  | .releaseSequence seq => kv.release seq
  | .copySequence src dst n true => kv.copy kind src dst n
  | .decode items ok => if ok || counted then kv.feed kind items else kv
  | _ => kv

end Event

/-- The contents after a history of calls. -/
def replay {α : Type} (kind : CellKind α) (counted : Bool) (past : List Event) : Kv α :=
  past.foldl (Event.effect kind counted) fun _ => none

theorem replay_append {α : Type} (kind : CellKind α) (counted : Bool) (past : List Event) (e : Event) :
    replay kind counted (past ++ [e]) = e.effect kind counted (replay kind counted past) := by
  simp [replay]

/-- The history of calls as a tracker. -/
def Tracker.history {σ α : Type} (w : World σ) (kind : CellKind α) (counted : Bool) :
    Tracker w kind where
  kv past _ := replay kind counted past
  keeps := counted = false
  note past _ e ghost := by
    rw [replay_append]
    cases e <;> first | rfl | cases ghost
  onText _ _ _ _ := replay_append ..
  onFinish _ _ _ _ _ := replay_append ..
  onError _ _ _ _ := replay_append ..
  begin_ok _ _ _ _ _ _ := replay_append ..
  begin_error _ _ _ _ _ _ _ _ _ := by rw [replay_append]; rfl
  copy_ok _ _ _ _ _ _ _ := replay_append ..
  copy_error _ _ _ _ _ _ _ _ _ _ := by rw [replay_append]; rfl
  release _ _ _ := replay_append ..
  decode_ok _ _ _ _ _ _ := by rw [replay_append]; rfl
  decode_error kept _ _ _ _ _ _ := by rw [replay_append, kept]; rfl

end MicroVllm
