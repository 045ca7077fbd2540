import OffsetExplorer.Lib.Machine
import OffsetExplorer.Message

/-!
# The forwarding task of a streamed fetch

`fetch_messages` sends every message it collects on an unbounded channel, and `forward_in_batches`
receives them in a task of its own and emits them in batches. The two run concurrently with the
batch timer and with whoever sets the cancellation flag, so the model is a machine whose events are
the steps of all four.

* `Forwarder`: the locals of `forward_in_batches`, with `push`, `report`, `emitBatch`, `finish`;
* `State`, `Event`, `step`: the channel, the flag and the program counter of the task;
* `responseMessages`: what the command leaves in its response.
-/

namespace OffsetExplorer.Stream

/-- The locals of `forward_in_batches`, and the calls it has made of `emit` and `progress`. -/
structure Forwarder (M : Type) where
  emitted : ℕ := 0
  batch : List M := []
  reportedAt : ℕ := 0
  emits : List (List M) := []
  progress : List ℕ := []
  deriving DecidableEq

namespace Forwarder

variable {M : Type}

/-- `emitted += batch.len(); emit(take(&mut batch))`. -/
def emitBatch (f : Forwarder M) : Forwarder M :=
  { f with emitted := f.emitted + f.batch.length, batch := [], emits := f.emits ++ [f.batch] }

/-- Buffer a message, and emit the batch as soon as it is full. -/
def push (batchSize : ℕ) (m : M) (f : Forwarder M) : Forwarder M :=
  let f := { f with batch := f.batch ++ [m] }
  if batchSize ≤ f.batch.length then f.emitBatch else f

/-- Report the running total each time it has passed another `progressEvery` messages. -/
def report (progressEvery : ℕ) (f : Forwarder M) : Forwarder M :=
  let seen := f.emitted + f.batch.length
  if 0 < progressEvery ∧ progressEvery ≤ seen - f.reportedAt then
    { f with reportedAt := seen, progress := f.progress ++ [seen] }
  else f

/-- What is left when the sender is gone: the last batch goes unless it is empty. -/
def finish (f : Forwarder M) : Forwarder M :=
  let g := { f with emitted := f.emitted + f.batch.length, batch := [] }
  if f.batch.isEmpty then g else { g with emits := f.emits ++ [f.batch] }

end Forwarder

/-- Where the task stands: awaiting `recv`, holding what `recv` returned, or returned. -/
inductive Pc (M : Type) where
  | receiving
  | received (m : M)
  | returned (emitted : ℕ)
  deriving DecidableEq

/-- A streamed fetch: what the poll loop has collected, the channel, the flag and the task. -/
structure State (M : Type) where
  collected : List M := []
  senderDropped : Bool := false
  queue : List M := []
  cancelled : Bool := false
  pc : Pc M := .receiving
  fwd : Forwarder M := {}
  deriving DecidableEq

/-- The steps of the poll loop, of the task, of its timer and of a cancellation. -/
inductive Event (M : Type) where
  /-- The poll loop sends a message and pushes it to its result. -/
  | send (m : M)
  | dropSender
  | cancel
  /-- `recv` resolves: with the next message, or with `None` once the channel is closed. -/
  | recv
  /-- The batch interval elapses before `recv` resolves. -/
  | elapsed
  /-- The task goes on with the message it has received. -/
  | forward
  deriving DecidableEq

variable {M : Type}

/-- The task has returned, which drops the receiver: later sends fail and are ignored. -/
def Pc.isReturned : Pc M → Bool
  | .returned _ => true
  | _ => false

/-- One step of a streamed fetch. The shadowed `batch_size` of the source is `max batchSize 1`. -/
def step (batchSize progressEvery : ℕ) (s : State M) : Event M → Option (State M)
  | .send m =>
    if s.senderDropped then none
    else some { s with
      collected := s.collected ++ [m]
      queue := if s.pc.isReturned then s.queue else s.queue ++ [m] }
  | .dropSender => some { s with senderDropped := true }
  | .cancel => some { s with cancelled := true }
  | .recv =>
    match s.pc, s.queue with
    | .receiving, m :: queue => some { s with pc := .received m, queue }
    | .receiving, [] =>
      if s.senderDropped then
        let fwd := s.fwd.finish
        some { s with pc := .returned fwd.emitted, fwd }
      else none
    | _, _ => none
  | .elapsed =>
    match s.pc with
    -- an empty batch is awaited without a timeout
    | .receiving => if s.fwd.batch.isEmpty then none else some { s with fwd := s.fwd.emitBatch }
    | _ => none
  | .forward =>
    match s.pc with
    | .received m =>
      -- whatever is buffered is dropped with the message
      if s.cancelled then some { s with pc := .returned s.fwd.emitted }
      else some { s with
        pc := .receiving
        fwd := (s.fwd.push (max batchSize 1) m).report progressEvery }
    | _ => none

/-- The messages the poll loop sends in a list of events, in order: the list it collects. -/
def sentBy (es : List (Event M)) : List M :=
  es.filterMap fun
    | .send m => some m
    | _ => none

/-- `match forward_task`: how many messages were streamed, a panicked task counting as none. -/
def streamedCount : Option (Option ℕ) → ℕ
  | some joined => joined.getD 0
  | none => 0

/-- `messages.drain(..streamed.min(fetched))`: what the response still carries. -/
def responseMessages (streamed : ℕ) (messages : List M) : List M :=
  messages.drop (min streamed messages.length)

end OffsetExplorer.Stream
