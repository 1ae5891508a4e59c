import MicroVllm.BlockAllocator
import MicroVllm.PrefixCache
import MicroVllm.SequenceState

/-! # The scheduler object

The configuration the constructor settles on, one in-flight request (`Job`), and the
members both serving loops share: the block pool, the prefix cache and the port to
the outside.
-/

namespace MicroVllm

inductive BatchingMode where
  | static
  | continuous
deriving DecidableEq, Repr

structure SchedulerConfig where
  maxBatchSize : Nat := 8
  mode : BatchingMode := .continuous
  kvBlocks : Nat := 0
  blockSize : Nat := 16
  prefixDonors : Nat := 4
  prefixCaching : Bool := true
  prefillChunk : Nat := 128
deriving DecidableEq, Repr

namespace SchedulerConfig

/-- No more sequences in a batch than the engine has slots for. -/
def clampBatch (caps : EngineCaps) (config : SchedulerConfig) : SchedulerConfig :=
  if caps.nSeqMax > 0 ∧ config.maxBatchSize > caps.nSeqMax then
    { config with maxBatchSize := caps.nSeqMax }
  else config

/-- By default the pool is exactly what the engine's context holds. -/
def sizePool (caps : EngineCaps) (config : SchedulerConfig) : SchedulerConfig :=
  let blockSize := if config.blockSize = 0 then 16 else config.blockSize
  let cells := if caps.nCtx > 0 then caps.nCtx else 4096
  { config with
    blockSize := blockSize
    kvBlocks :=
      if config.kvBlocks = 0 then toUint32 (cells + blockSize - 1) / blockSize
      else config.kvBlocks }

/-- Donor slots live above the batch slots and below the engine's capacity. -/
def clampDonors (caps : EngineCaps) (config : SchedulerConfig) : SchedulerConfig :=
  let donors := if config.prefixCaching then config.prefixDonors else 0
  let batch := toUint32 config.maxBatchSize
  -- the batch size is taken as it stands here, zero included
  let room := if caps.nSeqMax > batch then caps.nSeqMax - batch else 0
  { config with prefixDonors := if donors > room then room else donors }

/-- The configuration the constructor hands to the prefix cache. -/
def settle (caps : EngineCaps) (config : SchedulerConfig) : SchedulerConfig :=
  ((config.clampBatch caps).sizePool caps).clampDonors caps

/-- The configuration after construction: a batch of zero becomes one, after the donor
    slots have been placed. -/
def construct (caps : EngineCaps) (config : SchedulerConfig) : SchedulerConfig :=
  let config := config.settle caps
  if config.maxBatchSize = 0 then { config with maxBatchSize := 1 } else config

end SchedulerConfig

/-- One in-flight request: its state machine and its page table.  The sink is named
    by the state. -/
structure Job where
  request : Request
  state : SequenceState
  blocks : BlockTable := {}
deriving DecidableEq, Repr

/-- Tokens whose KV the sequence needs room for. -/
def Job.needed (job : Job) : Nat :=
  toUint32 (job.state.usage.promptTokens + job.state.usage.completionTokens)

/-- Hand the request of a job back so that it can be retried: promise, cancel flag and
    sink travel with its id. -/
def Job.reclaim (job : Job) : Request :=
  { id := job.request.id, spec := job.request.spec, sink := job.request.sink }

/-- What the promise of a job is fulfilled with. -/
def Job.result (job : Job) : GenResult where
  text := job.state.emittedText
  reason := job.state.reason
  usage := job.state.usage
  error :=
    if job.state.reason = .error ∨ job.state.reason = .contextOverflow then job.state.error else ""

structure Scheduler (σ : Type) where
  blocks : BlockAllocator
  prefixCache : PrefixCache
  port : Port σ
deriving DecidableEq

namespace Scheduler

variable {σ : Type}

/-- The members as constructed for a configuration and the caps of an engine. -/
def make (w : World σ) (config : SchedulerConfig) (world : σ) : Scheduler σ :=
  let settled := config.settle w.caps
  { blocks := .make settled.kvBlocks settled.blockSize
    prefixCache := ({} : PrefixCache).configureDonors settled.maxBatchSize settled.prefixDonors
    port := { world := world } }

/-- Fulfil a job's promise from its state machine, and count it. -/
def deliver (job : Job) (port : Port σ) : Port σ :=
  let result := job.result
  (((port.note (.stat .promptTokens result.usage.promptTokens)).note
    (.stat .completionTokens result.usage.completionTokens)).note (.stat .e2eLatency 1)).note
    (.setValue job.request.id result)

def overflowMessage (needed nCtxSeq : Nat) : String :=
  "request needs " ++ toString needed ++ " tokens (prompt + max_tokens) but the per-request context " ++
    "holds " ++ toString nCtxSeq ++ "; raise --ctx or lower max_tokens"

/-- Admission control on the context length.  `needed` is the source's 32-bit sum. -/
def checkContext (w : World σ) (request : Request) (state : SequenceState) : SequenceState :=
  let needed := toUint32 (state.usage.promptTokens + request.spec.maxTokens.toNat)
  -- an engine that does not say how much a sequence may hold refuses nothing
  if w.caps.nCtxSeq > 0 ∧ needed > w.caps.nCtxSeq then
    state.fail (overflowMessage needed w.caps.nCtxSeq) .contextOverflow
  else state

/-- The state a request starts from. -/
def newState (w : World σ) (request : Request) (seq : Nat) : SequenceState :=
  .make seq request.spec
    (if request.sink then .supplied request.id else .collecting request.id)
    (w.tokenize request.spec.prompt true)

/-- The job `make_job` builds; a request that does not fit the context starts out failed. -/
def newJob (w : World σ) (request : Request) (seq : Nat) : Job where
  request := request
  state := checkContext w request (newState w request seq)

theorem checkContext_same (w : World σ) (request : Request) (state : SequenceState) :
    state.SameRequest (checkContext w request state) := by
  simp only [checkContext]
  split
  · exact SequenceState.fail_same _ _ _
  · exact .refl _

theorem newJob_same (w : World σ) (request : Request) (seq : Nat) :
    (newState w request seq).SameRequest (newJob w request seq).state :=
  checkContext_same w request _

@[simp] theorem newJob_seq (w : World σ) (request : Request) (seq : Nat) :
    (newJob w request seq).state.seq = seq := (newJob_same w request seq).seq

@[simp] theorem newJob_prompt (w : World σ) (request : Request) (seq : Nat) :
    (newJob w request seq).state.prompt = w.tokenize request.spec.prompt true :=
  (newJob_same w request seq).prompt

@[simp] theorem newJob_prefilled (w : World σ) (request : Request) (seq : Nat) :
    (newJob w request seq).state.prefilled = 0 := (newJob_same w request seq).prefilled

@[simp] theorem newJob_text (w : World σ) (request : Request) (seq : Nat) :
    (newJob w request seq).state.text = [] ∧ (newJob w request seq).state.emitted = 0 := by
  simp only [newJob, checkContext]
  split <;> exact ⟨rfl, rfl⟩

@[simp] theorem newJob_request (w : World σ) (request : Request) (seq : Nat) :
    (newJob w request seq).request = request := rfl

@[simp] theorem newJob_blocks (w : World σ) (request : Request) (seq : Nat) :
    (newJob w request seq).blocks = {} := rfl

/-- Build a job for a request and register its slot with the engine. -/
def makeJob (w : World σ) (request : Request) (seq : Nat) (port : Port σ) :
    Except String Job × Port σ :=
  match port.beginSequence w seq request.spec.sampling with
  | (.ok (), port) => (.ok (newJob w request seq), port)
  | (.error message, port) => (.error message, port)

/-- Give back everything an evicted donor was holding. -/
def releaseDonor (w : World σ) (donor : Entry) (s : Scheduler σ) : Scheduler σ :=
  { s with
    blocks := s.blocks.free donor.blocks
    port := ((s.port.releaseSequence w donor.seq).note (.stat .donorEvictions 1)).note
      (.stat .donorsHeld s.prefixCache.donorsHeld) }

/-- Drop the least recently used donor; `none` if there is none to drop. -/
def reclaimDonorBlocks (w : World σ) (s : Scheduler σ) : Option (Scheduler σ) :=
  match s.prefixCache.evictLruRetained with
  | none => none
  | some (victim, cache) => some (releaseDonor w victim { s with prefixCache := cache })

/-- A donor slot, evicting the oldest donor if none is free. -/
def takeSlot (w : World σ) (s : Scheduler σ) : Option (Nat × Scheduler σ) :=
  match s.prefixCache.takeDonorSlot with
  | some (slot, cache) => some (slot, { s with prefixCache := cache })
  | none =>
    match s.reclaimDonorBlocks w with
    | none => none
    | some s =>
      match s.prefixCache.takeDonorSlot with
      | none => none
      | some (slot, cache) => some (slot, { s with prefixCache := cache })

/-- The whole blocks of a prompt, in tokens. -/
def wholeTokens (config : SchedulerConfig) (prompt : List Token) : Nat :=
  toUint32 prompt.length / config.blockSize * config.blockSize

theorem wholeTokens_le (config : SchedulerConfig) (prompt : List Token) :
    wholeTokens config prompt ≤ prompt.length :=
  Nat.le_trans (Nat.div_mul_le_self _ _) (toUint32_le _)

/-- A prompt with a whole block has at least one block to keep. -/
theorem wholeTokens_div_pos {config : SchedulerConfig} {prompt : List Token}
    (whole : 0 < wholeTokens config prompt) : 0 < wholeTokens config prompt / config.blockSize := by
  simp only [wholeTokens] at whole ⊢
  have sized : 0 < config.blockSize := Nat.pos_of_mul_pos_left whole
  rw [Nat.mul_div_cancel _ sized]
  exact Nat.pos_of_mul_pos_right whole

/-- Copy a retiring job's prompt prefix into `slot` and record it.  If the engine
    refuses, the slot is released and its entries, of which there are none, dropped. -/
def retainInto (w : World σ) (config : SchedulerConfig) (job : Job) (slot : Nat)
    (s : Scheduler σ) : Scheduler σ :=
  let nTokens := wholeTokens config job.state.prompt
  let nBlocks := nTokens / config.blockSize
  let hash := PrefixCache.hashPrefix job.state.prompt nTokens
  let failed (port : Port σ) : Scheduler σ :=
    { s with port := port.releaseSequence w slot, prefixCache := s.prefixCache.evictSequence slot }
  -- a sequence exists only once the engine knows of it: register the slot, then copy
  match s.port.beginSequence w slot {} with
  | (.error _, port) => failed port
  | (.ok (), port) =>
    match port.copySequence w job.state.seq slot (toPos nTokens) with
    | (.error _, port) => failed port
    | (.ok (), port) =>
      -- a reference of the donor's own, so that the blocks survive the job
      let blocks := job.blocks.blocks.take nBlocks
      let cache := s.prefixCache.retain hash slot nTokens blocks job.state.prompt
      { blocks := blocks.foldl BlockAllocator.incref s.blocks
        prefixCache := cache
        port := ((port.note (.index job.state.seq hash
            { seq := slot, nTokens, blocks, retained := true, prompt := job.state.prompt }
            ((s.prefixCache.find? hash).map Record.entry))).note
              (.stat .donorsRetained 1)).note (.stat .donorsHeld cache.donorsHeld) }

/-- Keep the prompt prefix of a retiring job in a donor slot, if it has a whole block
    and its table backs all of them. -/
def retainPrefix (w : World σ) (config : SchedulerConfig) (job : Job) (s : Scheduler σ) :
    Scheduler σ :=
  let nTokens := wholeTokens config job.state.prompt
  if config.prefixCaching = false ∨ s.prefixCache.donorCapacity = 0 then s
  else if nTokens = 0 then s
  else if nTokens / config.blockSize > job.blocks.nBlocks then s
  else
    match s.takeSlot w with
    | none => s
    | some (slot, s) => retainInto w config job slot s

/-- Finish a job, drop its cache entries, keep its prefix, return its blocks, release
    its slot and fulfil its promise, in that order. -/
def retire (w : World σ) (config : SchedulerConfig) (job : Job) (s : Scheduler σ) : Scheduler σ :=
  let finished := job.state.finish w s.port
  let job := { job with state := finished.1 }
  -- the job's own entries name a slot that is about to be recycled
  let s := { s with
    port := finished.2
    prefixCache := s.prefixCache.evictSequence job.state.seq }
  -- the copy needs the slot it copies from, so it comes before the release
  let s := retainPrefix w config job s
  { s with
    blocks := (job.blocks.release s.blocks).2
    port := deliver job ((s.port.releaseSequence w job.state.seq).note (.stat .completed 1)) }

end Scheduler

end MicroVllm
