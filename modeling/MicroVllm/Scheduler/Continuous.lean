import MicroVllm.Scheduler.Members
import MicroVllm.RequestQueue

/-! # Continuous batching

`run_continuous` as a machine that takes one step for each turn of one of its loops.
`Pc` says which loop the thread is in and holds that loop's locals; a job is named by
its slot, which no other active job has.  Between steps the log is empty: what a step
logs is what the step emits.
-/

namespace MicroVllm

def findJob (slot : Nat) (jobs : List Job) : Option Job := jobs.find? (·.state.seq = slot)

/-- Write a job back in its place. -/
def setJob (job : Job) (jobs : List Job) : List Job :=
  jobs.map fun j => if j.state.seq = job.state.seq then job else j

/-- How many whole blocks of its prompt a job has to offer. -/
def Job.offeredBlocks (job : Job) (blockSize : Nat) : Nat :=
  toUint32 (job.state.prompt.length / blockSize)

/-- The entry under which a job offers them. -/
def Job.offer (job : Job) (blockSize : Nat) : Entry where
  seq := job.state.seq
  nTokens := toUint32 (job.offeredBlocks blockSize * blockSize)
  blocks := job.blocks.blocks.take (job.offeredBlocks blockSize)
  prompt := job.state.prompt

/-! ## Building the mixed batch -/

/-- Decodes first, one token each, until the budget runs out. -/
def buildDecodes : Nat → List Job → List BatchItem × List Nat × Nat
  | budget, [] => ([], [], budget)
  | budget, job :: jobs =>
    if job.state.finished ∨ job.state.prefilling then buildDecodes budget jobs
    else match budget with
      -- the loop ends here: no job further back is looked at
      | 0 => ([], [], 0)
      | budget + 1 =>
        let rest := buildDecodes budget jobs
        (job.state.decodeItem :: rest.1, job.state.seq :: rest.2.1, rest.2.2)

/-- Prefills share what is left, at most `chunkCap` tokens each. -/
def buildPrefills (chunkCap : Nat) : Nat → List Job → List Job × List BatchItem × List Nat
  | _, [] => ([], [], [])
  | budget, job :: jobs =>
    let take := min budget (min chunkCap job.state.prefillRemaining)
    if job.state.finished ∨ !job.state.prefilling ∨ budget = 0 ∨ take = 0 then
      -- this loop only skips, so what a job leaves of the budget goes to those behind it
      let rest := buildPrefills chunkCap budget jobs
      (job :: rest.1, rest.2)
    else
      let chunk := job.state.takePrefillChunk take
      let rest := buildPrefills chunkCap (budget - chunk.1.tokens.length) jobs
      -- only the chunk that completes the prompt asks for a token
      ({ job with state := chunk.2 } :: rest.1, chunk.1 :: rest.2.1,
        if chunk.1.sample then chunk.2.seq :: rest.2.2 else rest.2.2)

structure Batch where
  active : List Job
  items : List BatchItem
  sampling : List Nat
deriving DecidableEq, Repr

def buildBatch (nBatch : Nat) (config : SchedulerConfig) (active : List Job) : Batch :=
  let decodes := buildDecodes nBatch active
  let chunkCap := if config.prefillChunk = 0 then nBatch else config.prefillChunk
  let prefills := buildPrefills chunkCap decodes.2.2 active
  { active := prefills.1
    items := decodes.1 ++ prefills.2.1
    sampling := decodes.2.1 ++ prefills.2.2 }

/-! ## The loop -/

/-- Where `run_continuous` is.

* `takeWork`: the top of the loop, filling `pending` from the queue;
* `admitNext`: the admission loop; `reserve job`: the loop that gives up donors for `job`;
* `build`: building and decoding the mixed batch; `accept`: the sampled jobs not yet
  visited with the steps not yet used, and the jobs that grew short so far;
* `sweep i starved`: the retirement sweep at position `i`, the first one when the
  starved jobs are still to be resolved and the last one when there is `none`;
* `resolve`: the starved jobs left; `reclaim` and `preempt`: the two loops that make
  room for the first of them;
* `done`: returned; `crashed`: an exception left the loop. -/
inductive Pc where
  | takeWork
  | admitNext
  | reserve (job : Job)
  | build
  | accept (sampling : List Nat) (steps : List GenStep) (grewShort : List Nat)
  | sweep (i : Nat) (starved : Option (List Nat))
  | resolve (starved : List Nat)
  | reclaim (slot : Nat) (starved : List Nat)
  | preempt (slot : Nat) (starved : List Nat)
  | done
  | crashed (message : String)
deriving DecidableEq, Repr

/-- `nSteps` is the size of the vector that the last decode returned. -/
structure Continuous (σ : Type) extends Scheduler σ where
  pc : Pc := .takeWork
  freeSlots : List Nat
  active : List Job := []
  pending : List Request := []
  nSteps : Nat := 0
deriving DecidableEq

namespace Continuous

variable {σ : Type}

/-- The members as constructed, and an empty loop over all batch slots. -/
def start (w : World σ) (config : SchedulerConfig) (world : σ) : Continuous σ where
  toScheduler := .make w config world
  freeSlots := List.range (config.construct w.caps).maxBatchSize

def idle (s : Continuous σ) : Bool := s.active = [] ∧ s.pending = []

/-- Leave the loop that takes work. -/
def leaveTakeWork (s : Continuous σ) : Continuous σ :=
  { s with pc := if s.idle then .done else .admitNext }

/-- One turn of the loop that takes work; `none` while `pop` sleeps. -/
def takeWork (config : SchedulerConfig) (s : Continuous σ) (q : RequestQueue) :
    Option (Continuous σ × RequestQueue) :=
  if s.pending.length + s.active.length < config.maxBatchSize then
    -- `pop` blocks, and nothing is in flight that could stall
    if s.idle then
      match q.pop with
      | .waits => none
      | .drained => some (s.leaveTakeWork, q)
      | .front request rest => some ({ s with pending := s.pending ++ [request] }, rest)
    else
      match q.tryPop with
      | none => some (s.leaveTakeWork, q)
      | some (request, rest) => some ({ s with pending := s.pending ++ [request] }, rest)
  else some (s.leaveTakeWork, q)

/-- One turn of the admission loop, up to the job being built; the request is in hand
    until it is placed. -/
def admitNext (w : World σ) (s : Continuous σ) : Continuous σ :=
  match s.pending, s.freeSlots with
  | request :: pending, slot :: _ =>
    match Scheduler.makeJob w request slot s.port with
    | (.ok job, port) => { s with port := port, pending := pending, pc := .reserve job }
    -- `begin_sequence` threw outside the try block, with the request moved out of `pending`
    | (.error message, port) => { s with port := port, pending := pending, pc := .crashed message }
  | _, _ => { s with pc := if s.active = [] then .takeWork else .build }

def want (job : Job) (s : Continuous σ) : Nat := s.blocks.blocksFor job.state.usage.promptTokens

/-- Blocks that must be free to admit `job`: its prompt, and one spare block for every
    sequence once it runs.  The first sequence is exempt. -/
def watermark (job : Job) (s : Continuous σ) : Nat :=
  toUint32 (s.want job + if s.active = [] then 0 else toUint32 s.active.length + 1)

def rejectMessage (job : Job) (s : Continuous σ) : String :=
  "KV cache exhausted: prompt needs " ++ toString (s.want job) ++ " blocks but the pool holds " ++
    toString s.blocks.total

/-- Nothing is running and the request still does not fit: fail it. -/
def reject (w : World σ) (job : Job) (s : Continuous σ) : Continuous σ :=
  let finished := (job.state.fail (s.rejectMessage job) .contextOverflow).finish w s.port
  let port := finished.2.releaseSequence w job.state.seq
  { s with port := Scheduler.deliver { job with state := finished.1 } port, pc := .admitNext }

/-- Put the request back untouched and let the running sequences drain. -/
def defer (w : World σ) (job : Job) (s : Continuous σ) : Continuous σ :=
  { s with
    port := (s.port.releaseSequence w job.state.seq).note (.stat .deferred 1)
    pending := job.reclaim :: s.pending
    pc := if s.active = [] then .takeWork else .build }

/-- Move an admitted job into the batch. -/
def place (job : Job) (s : Continuous σ) : Continuous σ :=
  { s with
    port := s.port.note (.stat .admitted 1)
    freeSlots := s.freeSlots.tail
    active := s.active ++ [job]
    pc := .admitNext }

/-- Inherit the KV of a cached prefix. -/
def adopt (w : World σ) (job : Job) (hit : Entry) (s : Continuous σ) : Continuous σ :=
  match s.port.copySequence w hit.seq job.state.seq (toPos hit.nTokens) with
  -- admission is outside the try block
  | (.error message, port) => { s with port := port, pc := .crashed message }
  | (.ok (), port) =>
    let adopted := job.blocks.adoptSharedPrefix hit.blocks hit.nTokens s.blocks
    let job := { job with
      blocks := adopted.1
      state := job.state.adoptCachedPrefix hit.nTokens }
    { s with
      blocks := adopted.2
      port := ((port.note (.hit job.state.seq job.state.prompt hit)).note
        (.stat .prefixHits 1)).note (.stat .prefixTokensSaved hit.nTokens) }.place job

/-- The job fits: look for a shared prefix and place it. -/
def share (w : World σ) (config : SchedulerConfig) (job : Job) (s : Continuous σ) :
    Continuous σ :=
  if config.prefixCaching ∧ !job.state.finished then
    let found := s.prefixCache.findLongest job.state.prompt s.blocks.blockSize
    let s := { s with prefixCache := found.2 }
    match found.1 with
    -- the lookup has already counted as a use of the entry, adopted or not
    | some hit => if hit.seq ≠ job.state.seq then s.adopt w job hit else s.place job
    | none => s.place job
  else s.place job

/-- The admission decision once no more donors are to be given up. -/
def decide (w : World σ) (config : SchedulerConfig) (job : Job) (s : Continuous σ) :
    Continuous σ :=
  -- refused by the context check: it takes no blocks, and the next sweep takes it
  if job.state.finished then s.share w config job
  else
    -- the table grows only above the watermark, `&&` being short-circuit
    match if s.blocks.freeBlocks ≥ s.watermark job then
        job.blocks.ensureCapacity job.state.usage.promptTokens s.blocks else none with
    | some (table, blocks) => { s with blocks := blocks }.share w config { job with blocks := table }
    -- with nothing running, no amount of waiting frees a block
    | none => if s.active = [] then s.reject w job else s.defer w job

/-- One turn of the loop that gives up donors for the job in hand. -/
def reserve (w : World σ) (config : SchedulerConfig) (job : Job) (s : Continuous σ) :
    Continuous σ :=
  if s.blocks.freeBlocks < s.watermark job then
    match s.reclaimDonorBlocks w with
    | some members => { s with toScheduler := members }
    -- no donor is left: the decision is made on what is free
    | none => s.decide w config job
  else s.decide w config job

/-- A failure inside the try block fails every unfinished sequence. -/
def failAll (message : String) (s : Continuous σ) : Continuous σ :=
  { s with active := s.active.map fun job =>
      if job.state.finished then job else { job with state := job.state.fail message } }

def build (w : World σ) (config : SchedulerConfig) (s : Continuous σ) : Continuous σ :=
  let batch := buildBatch w.caps.nBatch config s.active
  let s := { s with active := batch.active }
  if batch.items = [] then { s with pc := .sweep 0 (some []) }
  else
    match s.port.decode w batch.items with
    | (.ok steps, port) =>
      { s with port := port, nSteps := steps.length, pc := .accept batch.sampling steps [] }
    | (.error message, port) => { s with port := port, pc := .sweep 0 (some []) }.failAll message

/-- Offer the whole blocks of a job's prompt to later requests. -/
def publish (config : SchedulerConfig) (job : Job) (s : Continuous σ) : Continuous σ :=
  let nBlocks := job.offeredBlocks s.blocks.blockSize
  if config.prefixCaching ∧ !job.state.prefilling ∧ nBlocks > 0 ∧ job.blocks.nBlocks ≥ nBlocks then
    let entry := job.offer s.blocks.blockSize
    let hash := PrefixCache.hashPrefix job.state.prompt entry.nTokens
    { s with
      prefixCache := s.prefixCache.insert hash entry
      port := s.port.note (.index job.state.seq hash entry
        ((s.prefixCache.find? hash).map Record.entry)) }
  else s

/-- Accept a sampled token for one job: whether the table could not grow with it. -/
def acceptJob (w : World σ) (config : SchedulerConfig) (job : Job) (step : GenStep)
    (s : Continuous σ) : Bool × Continuous σ :=
  match job.state.accept w step s.port with
  -- the client is told at once, the slot is given back by the sweep
  | (false, state, port) =>
    let finished := state.finish w port
    (false, { s with
      port := finished.2
      active := setJob { job with state := finished.1 } s.active })
  | (true, state, port) =>
    let job := { job with state := state }
    match job.blocks.ensureCapacity job.needed s.blocks with
    -- the token is kept though its block is missing, and the prompt is not published
    | none => (true, { s with port := port, active := setJob job s.active })
    | some (table, blocks) =>
      let job := { job with blocks := table }
      (false, { s with
        port := port
        blocks := blocks
        active := setJob job s.active }.publish config job)

/-- What `std::vector::at` throws for the first index past the end. -/
def outOfRange (size : Nat) : String :=
  "vector::_M_range_check: __n (which is " ++ toString size ++ ") >= this->size() (which is " ++
    toString size ++ ")"

def accept (w : World σ) (config : SchedulerConfig) (sampling : List Nat) (steps : List GenStep)
    (grewShort : List Nat) (s : Continuous σ) : Continuous σ :=
  match sampling, steps with
  | [], _ => { s with pc := .sweep 0 (some grewShort) }
  -- `steps.at(k)` throws inside the try block
  | _ :: _, [] => { s with pc := .sweep 0 (some grewShort) }.failAll (outOfRange s.nSteps)
  | slot :: sampling, step :: steps =>
    match findJob slot s.active with
    -- the source holds the job by pointer; a sampled slot is never vacant
    | none => { s with pc := .accept sampling steps grewShort }
    | some job =>
      let accepted := s.acceptJob w config job step
      { accepted.2 with
        pc := .accept sampling steps (if accepted.1 then grewShort ++ [slot] else grewShort) }

/-- One turn of a retirement sweep. -/
def sweep (w : World σ) (config : SchedulerConfig) (i : Nat) (starved : Option (List Nat))
    (s : Continuous σ) : Continuous σ :=
  match s.active[i]? with
  | some job =>
    if job.state.finished then
      -- the next job moves up to position `i`
      { s with
        toScheduler := s.retire w config job
        freeSlots := job.state.seq :: s.freeSlots
        active := s.active.eraseIdx i }
    else { s with pc := .sweep (i + 1) starved }
  | none =>
    match starved with
    | some starved => { s with pc := .resolve starved }
    | none => { s with
        port := s.port.note (.stat .kvBlocksUsed s.blocks.usedBlocks)
        pc := .takeWork }

def exhaustedMessage (job : Job) (s : Continuous σ) : String :=
  "KV cache exhausted: sequence needs " ++ toString (s.blocks.blocksFor job.needed) ++
    " blocks but the pool holds only " ++ toString s.blocks.total

/-- The next starved job: gone already, larger than the pool, or in need of room. -/
def resolve (w : World σ) (starved : List Nat) (s : Continuous σ) : Continuous σ :=
  match starved with
  | [] => { s with pc := .sweep 0 none }
  | slot :: rest =>
    match findJob slot s.active with
    -- retired by the sweep, or preempted for one that starved before it
    | none => { s with pc := .resolve rest }
    | some job =>
      if s.blocks.blocksFor job.needed > s.blocks.total then
        let finished := (job.state.fail (s.exhaustedMessage job) .contextOverflow).finish w s.port
        { s with
          port := finished.2
          active := setJob { job with state := finished.1 } s.active
          pc := .resolve rest }
      else { s with pc := .reclaim slot rest }

/-- Cache yields to work: one turn of the loop that drops donors for a starved job. -/
def reclaimStep (w : World σ) (slot : Nat) (starved : List Nat) (s : Continuous σ) :
    Continuous σ :=
  match findJob slot s.active with
  | none => { s with pc := .resolve starved }
  | some job =>
    match job.blocks.ensureCapacity job.needed s.blocks with
    | some (table, blocks) =>
      { s with
        blocks := blocks
        active := setJob { job with blocks := table } s.active
        -- the second loop asks again, and finds the room
        pc := .preempt slot starved }
    | none =>
      match s.reclaimDonorBlocks w with
      | some members => { s with toScheduler := members }
      | none => { s with pc := .preempt slot starved }

/-- The most recently admitted unfinished job other than `except`, with its position. -/
def victim? (except : Nat) (active : List Job) : Option Job :=
  active.reverse.find? fun job => !job.state.finished && job.state.seq ≠ except

/-- Evict one job to make room, LIFO, and requeue it at the front. -/
def preemptOne (w : World σ) (except : Nat) (s : Continuous σ) : Option (Continuous σ) :=
  match victim? except s.active with
  | none => none
  | some job =>
    some { s with
      prefixCache := s.prefixCache.evictSequence job.state.seq
      blocks := (job.blocks.release s.blocks).2
      port := ((s.port.releaseSequence w job.state.seq).note (.stat .preemptions 1)).note
        (.preempt job.request.id job.state.seq except job.state.emitted)
      freeSlots := job.state.seq :: s.freeSlots
      active := s.active.filter (·.state.seq ≠ job.state.seq)
      pending := job.reclaim :: s.pending }

/-- One turn of the loop that preempts for a starved job. -/
def preemptStep (w : World σ) (slot : Nat) (starved : List Nat) (s : Continuous σ) :
    Continuous σ :=
  match findJob slot s.active with
  | none => { s with pc := .resolve starved }
  | some job =>
    match job.blocks.ensureCapacity job.needed s.blocks with
    | some (table, blocks) =>
      { s with
        blocks := blocks
        active := setJob { job with blocks := table } s.active
        pc := .resolve starved }
    | none =>
      match s.preemptOne w slot with
      | some s => s
      -- nobody is left to evict: the job goes on without its block
      | none => { s with pc := .resolve starved }

/-- One turn of the loop the thread is in; `none` when it sleeps in `pop` or has left. -/
def turn (w : World σ) (config : SchedulerConfig) (s : Continuous σ) (q : RequestQueue) :
    Option (Continuous σ × RequestQueue) :=
  match s.pc with
  | .takeWork => s.takeWork config q
  | .admitNext => some (s.admitNext w, q)
  | .reserve job => some (s.reserve w config job, q)
  | .build => some (s.build w config, q)
  | .accept sampling steps grewShort => some (s.accept w config sampling steps grewShort, q)
  | .sweep i starved => some (s.sweep w config i starved, q)
  | .resolve starved => some (s.resolve w starved, q)
  | .reclaim slot starved => some (s.reclaimStep w slot starved, q)
  | .preempt slot starved => some (s.preemptStep w slot starved, q)
  | .done => none
  | .crashed _ => none

def quiet (s : Continuous σ) : Continuous σ := { s with port := { s.port with log := [] } }

/-- One step of the thread: what it did, and the state with the log cleared again. -/
def step (w : World σ) (config : SchedulerConfig) (s : Continuous σ) (q : RequestQueue) :
    Option (List Event × Continuous σ × RequestQueue) :=
  (s.turn w config q).map fun (s, q) => (s.port.log, s.quiet, q)

end Continuous

end MicroVllm
