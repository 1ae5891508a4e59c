import MicroVllm.Types

/-! # The boundary of the scheduler thread

The two interfaces the scheduler is written against, the engine and the sinks, and
the calls that cross them.  `World σ` stands for whatever implements both, with a
state `σ` of its own; a `Port σ` is the scheduler's side of the boundary, that state
together with the calls made so far.
-/

namespace MicroVllm

structure EngineCaps where
  nCtx : Nat := 0
  nBatch : Nat := 0
  nSeqMax : Nat := 0
  nCtxSeq : Nat := 0
deriving DecidableEq, Repr

/-- One sequence's contribution to a decode step. -/
structure BatchItem where
  seq : Nat
  tokens : List Token
  pos0 : Int
  sample : Bool := true
deriving DecidableEq, Repr

structure GenStep where
  seq : Nat
  token : Token
  isEog : Bool
deriving DecidableEq, Repr

/-- The tensor backend.  A method that can throw returns the message beside the state
    it leaves behind.  Positions are 32-bit, so no tokenizer numbers more than
    `2 ^ 31` tokens. -/
structure IModelEngine (σ : Type) where
  caps : EngineCaps
  tokenize : Text → Bool → List Token
  tokenize_length : ∀ text addSpecial, (tokenize text addSpecial).length < 2 ^ 31
  piece : Token → Text
  beginSequence : Nat → SamplingParams → σ → Except String Unit × σ
  decode : List BatchItem → σ → Except String (List GenStep) × σ
  releaseSequence : Nat → σ → σ
  copySequence : Nat → Nat → Int → σ → Except String Unit × σ

/-- Which sink a sequence writes to: the one its request came with, or the
    `CollectingSink` that `make_job` installs when there is none. -/
inductive SinkRef where
  | supplied (id : Nat)
  | collecting (id : Nat)
deriving DecidableEq, Repr

/-- Where generated text goes.  `cancelled` is read from a flag that other threads
    set, so its answer may differ between any two calls. -/
structure ITokenSink (σ : Type) where
  onText : SinkRef → Text → σ → σ
  onFinish : SinkRef → FinishReason → Usage → σ → σ
  onError : SinkRef → String → σ → σ
  cancelled : SinkRef → σ → Bool

structure World (σ : Type) extends IModelEngine σ, ITokenSink σ

/-- One cached prefix.  `prompt` is a ghost: the prompt the entry was published or
    retained for, which the source does not keep and no definition here reads. -/
structure Entry where
  seq : Nat
  nTokens : Nat
  blocks : List Nat
  retained : Bool := false
  prompt : List Token
deriving DecidableEq, Repr

/-- The scheduler's counters and gauges; of the end-to-end histogram, its count. -/
inductive Stat where
  | admitted
  | completed
  | preemptions
  | deferred
  | prefixHits
  | prefixTokensSaved
  | donorsRetained
  | donorEvictions
  | donorsHeld
  | promptTokens
  | completionTokens
  | e2eLatency
  | kvBlocksUsed
deriving DecidableEq, Repr

/-- What the scheduler thread does that can be told from outside: calls to the
    engine (with whether they returned), to a sink and to a promise, counter updates,
    and its decisions about the prefix cache and about preemption. -/
inductive Event where
  | beginSequence (seq : Nat) (params : SamplingParams) (ok : Bool)
  | decode (items : List BatchItem) (ok : Bool)
  | releaseSequence (seq : Nat)
  | copySequence (src dst : Nat) (nTokens : Int) (ok : Bool)
  | onText (sink : SinkRef) (delta : Text)
  | onFinish (sink : SinkRef) (reason : FinishReason) (usage : Usage)
  | onError (sink : SinkRef) (message : String)
  | setValue (id : Nat) (result : GenResult)
  | stat (stat : Stat) (n : Nat)
  /-- `find_longest` found `entry` for the prompt of the job being admitted. -/
  | hit (seq : Nat) (prompt : List Token) (entry : Entry)
  /-- `entry` was written under `hash`, over `displaced`, by the job in slot `source`. -/
  | index (source : Nat) (hash : UInt64) (entry : Entry) (displaced : Option Entry)
  /-- The request in slot `victim` lost its slot to the starved one; `emitted` bytes of
      its text had already gone to its sink. -/
  | preempt (id : Nat) (victim starved : Nat) (emitted : Nat)
deriving DecidableEq, Repr

structure Port (σ : Type) where
  world : σ
  log : List Event := []
deriving DecidableEq, Repr

namespace Port

variable {σ : Type}

def note (event : Event) (port : Port σ) : Port σ :=
  { port with log := port.log ++ [event] }

def beginSequence (w : World σ) (seq : Nat) (params : SamplingParams) (port : Port σ) :
    Except String Unit × Port σ :=
  let result := w.beginSequence seq params port.world
  (result.1, { world := result.2, log := port.log ++ [.beginSequence seq params result.1.isOk] })

def decode (w : World σ) (items : List BatchItem) (port : Port σ) :
    Except String (List GenStep) × Port σ :=
  let result := w.decode items port.world
  (result.1, { world := result.2, log := port.log ++ [.decode items result.1.isOk] })

def releaseSequence (w : World σ) (seq : Nat) (port : Port σ) : Port σ :=
  { world := w.releaseSequence seq port.world, log := port.log ++ [.releaseSequence seq] }

def copySequence (w : World σ) (src dst : Nat) (nTokens : Int) (port : Port σ) :
    Except String Unit × Port σ :=
  let result := w.copySequence src dst nTokens port.world
  (result.1, { world := result.2, log := port.log ++ [.copySequence src dst nTokens result.1.isOk] })

def onText (w : World σ) (sink : SinkRef) (delta : Text) (port : Port σ) : Port σ :=
  { world := w.onText sink delta port.world, log := port.log ++ [.onText sink delta] }

def onFinish (w : World σ) (sink : SinkRef) (reason : FinishReason) (usage : Usage)
    (port : Port σ) : Port σ :=
  { world := w.onFinish sink reason usage port.world,
    log := port.log ++ [.onFinish sink reason usage] }

def onError (w : World σ) (sink : SinkRef) (message : String) (port : Port σ) : Port σ :=
  { world := w.onError sink message port.world, log := port.log ++ [.onError sink message] }

end Port

end MicroVllm
