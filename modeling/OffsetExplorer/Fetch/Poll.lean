import OffsetExplorer.Fetch.Plan
import OffsetExplorer.Lib.Machine

/-!
# The poll loop

The loop of `fetch_messages` that polls its consumers until the plan is read, as a machine: a step
is one iteration, and its input is what the iteration reads of the cancellation flag and what its
poll returns.

* `PollState`, `Loop`: the variables of the loop, and what it does not change.
* `takeMessage`, `pollMessage`, `iterate`: the body, one definition for each kind of poll result.
* `Running`, `step`, `start`: the condition of the `while`, one iteration, and the state before the
  first.
-/

namespace OffsetExplorer.Fetch

open Std

/-- The bytes of a key, a payload or a header. -/
abbrev Bytes := List UInt8

/-- A message as librdkafka lends it. -/
structure BorrowedMessage where
  partition : ℤ
  offset : ℤ
  timestamp : Option ℤ := none
  key : Option Bytes := none
  payload : Option Bytes := none
  headers : Option (List (String × Option Bytes)) := none
  deriving DecidableEq

/-- What a poll returns; an error comes as `describe_poll_error` words it. -/
inductive Polled where
  | message (borrowed : BorrowedMessage)
  | partitionEof (partition : ℤ)
  | error (described : String)
  | nothing
  deriving DecidableEq

/-- In milliseconds: how long nothing may come before the fetch gives up. -/
def idleTimeout : ℕ := 10000

/-- In milliseconds: how long a single consumer is polled at a time. -/
def pollTimeout : ℕ := 500

/-- In milliseconds: how long one of several consumers is. -/
def shardedPollSlice : ℕ := 5

/-- At most so many consumers share a fetch. -/
def maxFetchShards : ℕ := 8

/-- What the queues of all consumers may hold together. -/
def shardPrefetchCeilingBytes : ℕ := 128 * 1024 * 1024

/-- How many consumers a fetch spreads its partitions across. -/
def fetchShardCount (partitionsWithWork : ℕ) (maxMessageSizeBytes : UInt32) : ℕ :=
  if partitionsWithWork = 0 then 1
  else
    let perShardPrefetch := max (maxMessageSizeBytes.toNat * 2) (8 * 1024 * 1024)
    let affordable := max (shardPrefetchCeilingBytes / perShardPrefetch) 1
    min (min partitionsWithWork maxFetchShards) affordable

/-- How much of a payload to carry back. -/
def payloadPreviewSlice (payload : Bytes) : Option UInt32 → Bytes
  | some max => payload.take (min payload.length max.toNat)
  | none => payload

/-- No budget is never reached. -/
def byteBudgetReached (bytesRead : ℕ) (budget : Option ℕ) : Bool :=
  budget.any fun budget => budget ≤ bytesRead

/-- What a polled message charges against the byte budget. -/
def budgetedPayloadBytes (payloadLen : ℕ) (includePayload : Bool) : ℕ :=
  if includePayload then payloadLen else 0

/-- What the loop reads and never changes. `encode` is the base64 engine. -/
structure Loop where
  filter : MessageFilter
  plan : FetchPlan
  maxMessageSizeBytes : UInt32
  maxTotalPayloadBytes : Option ℕ
  encode : Bytes → String

namespace Loop

variable (c : Loop)

/-- The partitions with something to read. -/
def working : List ℤ := (c.plan.limits.toList.filter fun e => 0 < e.2).map Prod.fst

/-- A single consumer need not make way for another one. -/
def pollSlice : ℕ :=
  if fetchShardCount c.working.length c.maxMessageSizeBytes = 1 then pollTimeout
  else shardedPollSlice

/-- The sum of the limits, which no number of 32-bit partitions and limits makes wrap. -/
def totalTarget : ℤ := (c.plan.limits.toList.map Prod.snd).sum

/-- The headers in their order, with values as base64. -/
def extractHeaders (m : BorrowedMessage) : List MessageHeader :=
  (m.headers.getD []).map fun header =>
    { key := header.1, valueBase64 := header.2.map c.encode }

/-- The row of a message. -/
def row (m : BorrowedMessage) : TopicMessage where
  partition := m.partition
  offset := m.offset
  timestampMs := m.timestamp
  keyBase64 := m.key.map c.encode
  payloadBase64 :=
    if c.filter.includePayload then
      some (c.encode (payloadPreviewSlice (m.payload.getD []) c.filter.maxPayloadPreviewBytes))
    else none
  payloadSizeBytes := m.payload.map List.length
  headers := c.extractHeaders m

end Loop

/-- The variables of the loop. -/
structure PollState where
  remaining : PartitionMap ℤ
  unfinished : ℕ
  finished : Finset ℤ := ∅
  collected : List TopicMessage := []
  idleElapsed : ℕ := 0
  lastPollError : Option String := none
  payloadBytesRead : ℕ := 0
  stoppedAtByteBudget : Bool := false

/-- `n - 1` on `usize`, which wraps in a release build. -/
def usizePred (n : ℕ) : ℕ := if n = 0 then 2 ^ 64 - 1 else n - 1

/-- `if finished.insert(partition) { unfinished -= 1; }`. -/
def PollState.finish (s : PollState) (partition : ℤ) : PollState :=
  if partition ∈ s.finished then s
  else { s with finished := insert partition s.finished, unfinished := usizePred s.unfinished }

variable (c : Loop)

/-- A message within the budget and the range of its partition. -/
def takeMessage (s : PollState) (m : BorrowedMessage) (budget : ℤ) : PollState :=
  let payload := m.payload.getD []
  let read := s.payloadBytesRead + budgetedPayloadBytes payload.length c.filter.includePayload
  let taken := { s with
    payloadBytesRead := read
    collected := s.collected ++ [c.row m]
    remaining := s.remaining.insert m.partition (budget - 1) }
  let done := if budget - 1 ≤ 0 then taken.finish m.partition else taken
  { done with stoppedAtByteBudget := byteBudgetReached read c.maxTotalPayloadBytes }

/-- The branch of the body for a message. -/
def pollMessage (s : PollState) (m : BorrowedMessage) : PollState :=
  let s := { s with idleElapsed := 0 }
  match s.remaining[m.partition]? with
  | none => s
  | some budget =>
    if budget ≤ 0 then s
    else if (c.plan.endOffsets[m.partition]?).any fun «end» => «end» ≤ m.offset then
      s.finish m.partition
    else takeMessage c s m budget

/-- The body of the loop, from the poll on. -/
def iterate (s : PollState) : Polled → PollState
  | .message m => pollMessage c s m
  | .partitionEof partition =>
    if partition ∈ s.remaining then s.finish partition else s
  | .error described =>
    { s with idleElapsed := s.idleElapsed + c.pollSlice, lastPollError := some described }
  | .nothing => { s with idleElapsed := s.idleElapsed + c.pollSlice }

/-- The condition of the loop, less the cancellation flag. -/
def Running (s : PollState) : Prop :=
  0 < s.unfinished ∧ (s.collected.length : ℤ) < c.totalTarget ∧ s.idleElapsed < idleTimeout ∧
    s.stoppedAtByteBudget = false

instance (s : PollState) : Decidable (Running c s) := inferInstanceAs (Decidable (_ ∧ _))

/-- What an iteration gets from outside. -/
structure Iteration where
  cancelled : Bool := false
  polled : Polled

/-- One iteration of the loop, where its condition holds. -/
def step (s : PollState) (e : Iteration) : Option PollState :=
  if Running c s ∧ e.cancelled = false then some (iterate c s e.polled) else none

/-- The state before the first iteration. -/
def start : PollState where
  remaining := c.plan.limits
  unfinished := c.plan.limits.toList.countP fun e => 0 < e.2

/-- The result of a fetch whose loop ended in `s`. -/
def result (s : PollState) : MessageFetchResult where
  messages := s.collected
  totalMatching := c.plan.totalMatching
  pollError := s.lastPollError
  stoppedAtByteBudget := s.stoppedAtByteBudget
  payloadBytesRead := s.payloadBytesRead

end OffsetExplorer.Fetch
