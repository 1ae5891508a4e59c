import MicroVllm.Scheduler.Continuous

/-! # Static batching

`run_static` and `run_batch` as a machine, in the manner of `Continuous`: one step for
each turn of a loop, a job named by its slot, which here is its place in the batch.
-/

namespace MicroVllm

/-- One slice of prompts: the jobs from here on, with the ones in the slice advanced,
    the items, the slots submitted, and how many jobs the slice went past.  The first
    prompt is taken whatever its length. -/
def buildSlice (nBatch : Nat) : Nat → Bool → List Job → List Job × List BatchItem × List Nat × Nat
  | _, _, [] => ([], [], [], 0)
  | tokens, started, job :: jobs =>
    let len := job.state.prefillRemaining
    -- refused when it was made: it never reaches the engine
    if job.state.finished then
      let rest := buildSlice nBatch tokens started jobs
      (job :: rest.1, rest.2.1, rest.2.2.1, rest.2.2.2 + 1)
    else if started ∧ tokens + len > nBatch then (job :: jobs, [], [], 0)
    else
      let item := job.state.prefillItem
      let rest := buildSlice nBatch (tokens + len) true jobs
      ({ job with state := item.2 } :: rest.1, item.1 :: rest.2.1, item.2.seq :: rest.2.2.1,
        rest.2.2.2 + 1)

/-- Where `run_static` is.

* `collect batch`: forming the next batch, asleep in `pop` while it is empty;
* `make requests`: building the jobs of a batch;
* `prefill i`: the slicing loop from job `i` on; `acceptPrefill`: the slots of a slice not
  yet visited with the steps not yet used;
* `decode` and `acceptDecode`: the lockstep loop;
* `deliver i`: the final loop at job `i`;
* `done`: returned; `crashed`: an exception left the loop. -/
inductive StaticPc where
  | collect (batch : List Request)
  | make (requests : List Request)
  | prefill (i : Nat)
  | acceptPrefill (i : Nat) (submitted : List Nat) (steps : List GenStep)
  | decode
  | acceptDecode (running : List Nat) (steps : List GenStep)
  | deliver (i : Nat)
  | done
  | crashed (message : String)
deriving DecidableEq, Repr

/-- `nSteps` is as in `Continuous`. -/
structure Static (σ : Type) extends Scheduler σ where
  pc : StaticPc := .collect []
  jobs : List Job := []
  nSteps : Nat := 0
deriving DecidableEq

namespace Static

variable {σ : Type}

def start (w : World σ) (config : SchedulerConfig) (world : σ) : Static σ where
  toScheduler := .make w config world

/-- `next_batch`: wait for one request, then sweep up what has already arrived. -/
def collect (config : SchedulerConfig) (batch : List Request) (s : Static σ) (q : RequestQueue) :
    Option (Static σ × RequestQueue) :=
  match batch with
  | [] =>
    match q.pop with
    | .waits => none
    | .drained => some ({ s with pc := .done }, q)
    | .front request rest => some ({ s with pc := .collect [request] }, rest)
  | first :: others =>
    if (first :: others).length < config.maxBatchSize then
      match q.tryPop with
      | none => some ({ s with jobs := [], pc := .make (first :: others) }, q)
      | some (request, rest) => some ({ s with pc := .collect (first :: others ++ [request]) }, rest)
    else some ({ s with jobs := [], pc := .make (first :: others) }, q)

def noRoomMessage : String := "KV cache exhausted: not enough blocks for this batch"

/-- Reserve a job's whole generation, or fail it.  A job that already failed the
    context check reserves nothing and still counts as admitted. -/
def reserveJob (job : Job) (s : Static σ) : Static σ :=
  let whole := toUint32 (job.state.usage.promptTokens + job.request.spec.maxTokens.toNat)
  let admitted := { s with port := s.port.note (.stat .admitted 1) }
  if job.state.finished then { admitted with jobs := s.jobs ++ [job] }
  else
    match job.blocks.ensureCapacity whole s.blocks with
    | some (table, blocks) =>
      { admitted with blocks := blocks, jobs := s.jobs ++ [{ job with blocks := table }] }
    -- not counted as admitted, and its slot stays registered with the engine
    | none =>
      { s with jobs := s.jobs ++
        [{ job with state := job.state.fail noRoomMessage .contextOverflow }] }

def make (w : World σ) (requests : List Request) (s : Static σ) : Static σ :=
  match requests with
  | [] => { s with pc := .prefill 0 }
  | request :: rest =>
    match Scheduler.makeJob w request s.jobs.length s.port with
    | (.ok job, port) => { s with port := port, pc := .make rest }.reserveJob job
    -- the jobs are made before the try block
    | (.error message, port) => { s with port := port, pc := .crashed message }

/-- Report a failure to every unfinished job, notify and release all. -/
def settleAll (w : World σ) (message : String) : List Job → Port σ → List Job × Port σ
  | [], port => ([], port)
  | job :: jobs, port =>
    let state := if job.state.finished then job.state else job.state.fail message
    let finished := state.finish w port
    -- the slot of a job that ended earlier is released a second time
    let rest := settleAll w message jobs (finished.2.releaseSequence w finished.1.seq)
    ({ job with state := finished.1 } :: rest.1, rest.2)

/-- The failure path. -/
def failBatch (w : World σ) (message : String) (s : Static σ) : Static σ :=
  let settled := settleAll w message s.jobs s.port
  { s with jobs := settled.1, port := settled.2, pc := .deliver 0 }

def prefill (w : World σ) (i : Nat) (s : Static σ) : Static σ :=
  if i < s.jobs.length then
    let slice := buildSlice w.caps.nBatch 0 false (s.jobs.drop i)
    let s := { s with jobs := s.jobs.take i ++ slice.1 }
    let next := i + slice.2.2.2
    -- a slice of refused jobs only
    if slice.2.1 = [] then { s with pc := .prefill next }
    else
      match s.port.decode w slice.2.1 with
      | (.ok steps, port) =>
        { s with port := port, nSteps := steps.length, pc := .acceptPrefill next slice.2.2.1 steps }
      | (.error message, port) => { s with port := port }.failBatch w message
  else { s with pc := .decode }

/-- Accept a sampled token for one job; one that is done is released at once. -/
def acceptJob (w : World σ) (job : Job) (step : GenStep) (s : Static σ) : Static σ :=
  match job.state.accept w step s.port with
  | (true, state, port) => { s with port := port, jobs := setJob { job with state := state } s.jobs }
  | (false, state, port) =>
    let finished := state.finish w port
    { s with
      port := finished.2.releaseSequence w finished.1.seq
      jobs := setJob { job with state := finished.1 } s.jobs }

/-- One turn of an accept loop; `leave` is where the loop goes when it is through. -/
def acceptStep (w : World σ) (leave : StaticPc) (stay : List Nat → List GenStep → StaticPc)
    (slots : List Nat) (steps : List GenStep) (s : Static σ) : Static σ :=
  match slots, steps with
  | [], _ => { s with pc := leave }
  -- `steps.at(k)` throws inside the try block
  | _ :: _, [] => s.failBatch w (Continuous.outOfRange s.nSteps)
  | slot :: slots, step :: steps =>
    match findJob slot s.jobs with
    | none => { s with pc := stay slots steps }
    | some job => { s.acceptJob w job step with pc := stay slots steps }

def decode (w : World σ) (s : Static σ) : Static σ :=
  let running := s.jobs.filter fun job => !job.state.finished
  if running = [] then { s with pc := .deliver 0 }
  else
    match s.port.decode w (running.map fun job => job.state.decodeItem) with
    | (.ok steps, port) =>
      { s with
        port := port
        nSteps := steps.length
        pc := .acceptDecode (running.map fun job => job.state.seq) steps }
    | (.error message, port) => { s with port := port }.failBatch w message

/-- The final loop: notify, return the blocks, fulfil the promise. -/
def deliver (w : World σ) (i : Nat) (s : Static σ) : Static σ :=
  match s.jobs[i]? with
  | some job =>
    -- silent for a job that has been notified; there is no release here
    let finished := job.state.finish w s.port
    let released := job.blocks.release s.blocks
    let job := { job with state := finished.1, blocks := released.1 }
    { s with
      blocks := released.2
      port := Scheduler.deliver job (finished.2.note (.stat .completed 1))
      jobs := s.jobs.set i job
      pc := .deliver (i + 1) }
  | none =>
    { s with
      port := s.port.note (.stat .kvBlocksUsed s.blocks.usedBlocks)
      jobs := []
      pc := .collect [] }

/-- One turn of the loop the thread is in; `none` when it sleeps in `pop` or has left. -/
def turn (w : World σ) (config : SchedulerConfig) (s : Static σ) (q : RequestQueue) :
    Option (Static σ × RequestQueue) :=
  match s.pc with
  | .collect batch => s.collect config batch q
  | .make requests => some (s.make w requests, q)
  | .prefill i => some (s.prefill w i, q)
  | .acceptPrefill i submitted steps =>
    some (s.acceptStep w (.prefill i) (.acceptPrefill i) submitted steps, q)
  | .decode => some (s.decode w, q)
  | .acceptDecode running steps => some (s.acceptStep w .decode .acceptDecode running steps, q)
  | .deliver i => some (s.deliver w i, q)
  | .done => none
  | .crashed _ => none

def quiet (s : Static σ) : Static σ := { s with port := { s.port with log := [] } }

/-- One step of the thread: what it did, and the state with the log cleared again. -/
def step (w : World σ) (config : SchedulerConfig) (s : Static σ) (q : RequestQueue) :
    Option (List Event × Static σ × RequestQueue) :=
  (s.turn w config q).map fun (s, q) => (s.port.log, s.quiet, q)

end Static

end MicroVllm
