import MicroVllm.Types

/-! # The queue between client threads and the scheduler thread

Every method runs under the queue's mutex, so a call is one step of whoever makes it.
-/

namespace MicroVllm

structure RequestQueue where
  queue : List Request := []
  capacity : Nat
  closed : Bool := false
deriving DecidableEq, Repr

namespace RequestQueue

/-- What `pop` does: sleep, report a closed and drained queue, or return the front. -/
inductive Popped where
  | waits
  | drained
  | front (request : Request) (rest : RequestQueue)

/-- Whether the request was taken, what the caller's request holds afterwards (nothing
    once it has been moved in), and the queue. -/
def tryPush (q : RequestQueue) (request : Request) : Bool × Option Request × RequestQueue :=
  if q.closed ∨ q.queue.length ≥ q.capacity then (false, some request, q)
  else (true, none, { q with queue := q.queue ++ [request] })

def pop (q : RequestQueue) : Popped :=
  match q.queue with
  | request :: rest => .front request { q with queue := rest }
  | [] => if q.closed then .drained else .waits

def tryPop (q : RequestQueue) : Option (Request × RequestQueue) :=
  match q.queue with
  | request :: rest => some (request, { q with queue := rest })
  | [] => none

/-- The head of the queue, whatever its capacity; as for `tryPush`, with what the caller is left with. -/
def pushFront (q : RequestQueue) (request : Request) : Bool × Option Request × RequestQueue :=
  if q.closed then (false, some request, q) else (true, none, { q with queue := request :: q.queue })

def close (q : RequestQueue) : RequestQueue := { q with closed := true }

end RequestQueue

end MicroVllm
