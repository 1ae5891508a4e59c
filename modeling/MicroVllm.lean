import MicroVllm.Types
import MicroVllm.Engine
import MicroVllm.BlockAllocator
import MicroVllm.PrefixCache
import MicroVllm.Scheduler.Members
import MicroVllm.RequestQueue
import MicroVllm.Scheduler.Continuous
import MicroVllm.Scheduler.Static
import MicroVllm.Lib.Machine
import MicroVllm.Lib.Countdown
import MicroVllm.Lib.Recency
import MicroVllm.Scheduler.Server
import MicroVllm.Scheduler.Moves
import MicroVllm.Scheduler.Runs
import MicroVllm.Scheduler.Logs
import MicroVllm.Emission
import MicroVllm.Scheduler.Retention
import MicroVllm.Scheduler.Delivery
import MicroVllm.Scheduler.StaticMoves
import MicroVllm.Kv
import MicroVllm.Reference
import MicroVllm.Scheduler.Ledger
import MicroVllm.Scheduler.Books
import MicroVllm.Scheduler.Entries
import MicroVllm.Scheduler.Streams
import MicroVllm.Scheduler.Batches
import MicroVllm.Scheduler.Orderly
import MicroVllm.Scheduler.Seats
import MicroVllm.Scheduler.Histories
import MicroVllm.Scheduler.Cells
import MicroVllm.Scheduler.Provenance
import MicroVllm.Scheduler.Freshness
import MicroVllm.Generation
import MicroVllm.Scheduler.Phases
import MicroVllm.Scheduler.Lockstep
import MicroVllm.Scheduler.Positions
import MicroVllm.Generator
import MicroVllm.Scheduler.Seniority
import MicroVllm.Scheduler.Slots
import MicroVllm.Works
import MicroVllm.Scheduler.Service
import MicroVllm.Scheduler.Protocol
import MicroVllm.Scheduler.Limits
import MicroVllm.Scheduler.Tables
import MicroVllm.Lib.Occurrences
import MicroVllm.Streaming
import MicroVllm.Lib.Codes
import MicroVllm.Utf8
import MicroVllm.Scheduler.Isolation
import MicroVllm.Scheduler.Agreement
import MicroVllm.Scheduler.Room
import MicroVllm.Scheduler.Sharing
import MicroVllm.Scheduler.Progress
import MicroVllm.Scheduler.Livelock
import MicroVllm.Scheduler.Lookup
import MicroVllm.Scheduler.Attempts
import MicroVllm.Scheduler.Reservations
import MicroVllm.Scheduler.Calls
import MicroVllm.Scheduler.Refusals
import MicroVllm.Scheduler.Exhaustion
import MicroVllm.Scheduler.Headroom
import MicroVllm.Scheduler.Places
import MicroVllm.Scheduler.Turns
import MicroVllm.Scheduler.Refinement
import MicroVllm.Scheduler.Mates
import MicroVllm.Pool
import MicroVllm.Prefill
import MicroVllm.Lru
import MicroVllm.HttpApi
import MicroVllm.LlamaEngine
import MicroVllm.Scheduler.SlotRanges
import MicroVllm.Scheduler.Counters
import MicroVllm.Lib.EventStream
import MicroVllm.Lib.Simulation
import MicroVllm.Responses
import MicroVllm.Sinks
import MicroVllm.Scheduler.Cancellation
import MicroVllm.Scheduler.Rest
import MicroVllm.Http.Serve
import MicroVllm.Http.Handlers
import MicroVllm.Http.Threads
import MicroVllm.Http.Answers
import MicroVllm.Http.Streams
import MicroVllm.Lib.Line
import MicroVllm.Scheduler.Fifo
import MicroVllm.Scheduler.Budget
import MicroVllm.Lib.Monitor
import MicroVllm.Locks
import MicroVllm.Lib.Source
import MicroVllm.Scheduler.Steering
import MicroVllm.MockEngine
