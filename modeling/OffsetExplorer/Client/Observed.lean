import OffsetExplorer.Auth
import OffsetExplorer.Lib.Machine

/-!
# Requests on a pooled client

The client has one event queue, which librdkafka appends to at any time and only `poll` serves, and one
slot for the last reason, which serving an error event fills. Requests take turns: the lock around the
slot lets one of them at a time from `begin` to `failure`.

* `Client.poll`, `failureReport`: serving events, and what a failed request reports.
* `Pool`, `Event`, `step`: the machine. Any number of requests wait for the lock; watermark walks run
  outside it and can do nothing here but make librdkafka queue events.
-/

namespace OffsetExplorer.ObservedClient

/-- What librdkafka queues: failures, and logs, statistics and the like. -/
inductive ClientEvent where
  | error (reason : String)
  | other
  deriving DecidableEq

/-- Whether the event leaves a report in the slot. -/
def ClientEvent.isError : ClientEvent → Bool
  | .error _ => true
  | .other => false

/-- An event of the queue; events are numbered as they are queued. -/
structure Queued where
  number : ℕ
  event : ClientEvent
  deriving DecidableEq

/-- A reason, with the number of the event that brought it. -/
structure Reason where
  text : String
  number : ℕ
  deriving DecidableEq

/-- The error slot. -/
structure ClientErrorContext where
  lastError : Option Reason := none
  deriving DecidableEq

/-- The slot is emptied before an operation. -/
def ClientErrorContext.clear (_ : ClientErrorContext) : ClientErrorContext := {}

/-- An event is served: an error event overwrites the slot. -/
def ClientErrorContext.serve (context : ClientErrorContext) (q : Queued) : ClientErrorContext :=
  match q.event with
  | .error reason => { lastError := some { text := reason, number := q.number } }
  | .other => context

/-- The client with its queue, the first event first, and the number of events queued so far. -/
structure Client where
  queue : List Queued := []
  queued : ℕ := 0
  context : ClientErrorContext := {}

namespace Client

variable (client : Client)

/-- librdkafka queues an event. -/
def enqueue (event : ClientEvent) : Client :=
  { client with
    queue := client.queue ++ [{ number := client.queued, event }]
    queued := client.queued + 1 }

/-- A poll serves the first events of the queue, as many as it comes to in its time. -/
def poll (served : ℕ) : Client :=
  { client with
    queue := client.queue.drop served
    context := (client.queue.take served).foldl ClientErrorContext.serve client.context }

/-- `begin`: forget the reason of an earlier request. -/
def beginCall : Client := { client with context := client.context.clear }

end Client

/-- The report of a failure whose reason is known. -/
def failureReport (error : KafkaError) (reason what : String) : Report where
  error := if isAuthFailure (some error) (some reason) then .authentication else .kafka
  attachments := [s!"{what}: {reason}"]

/-- Where a request in the locked section is; `began` counts the events queued when it began. -/
inductive Phase where
  | locked
  | calling (began : ℕ)
  /-- The call has failed: the queue is served until there is a reason or the time is up. -/
  | draining (began : ℕ) (error : KafkaError)

/-- The request that holds the lock. -/
structure Section where
  what : String
  phase : Phase

/-- A reported failure: when its call began, the event its reason came from, if it came from the slot,
and the report. -/
structure Failure where
  began : ℕ
  source : Option ℕ
  report : Report
  deriving DecidableEq

/-- A pooled client, the holder of its lock, and the failures reported so far. -/
structure Pool where
  client : Client := {}
  holder : Option Section := none
  failures : List Failure := []

/-- What can happen next. -/
inductive Event where
  /-- librdkafka queues an event, whoever holds the lock. -/
  | enqueue (event : ClientEvent)
  /-- A request takes the lock. -/
  | lock (what : String)
  | begin
  /-- The call of the holder succeeds; the lock is released. -/
  | succeed
  /-- The call of the holder fails. -/
  | fail (error : KafkaError)
  /-- The call of the holder panics; the lock is released. -/
  | panic
  /-- A turn of the drain loop, while there is no reason. -/
  | poll (served : ℕ)
  /-- The drain loop is over: the failure is reported and the lock released. -/
  | report

/-- What the drain loop has found, or else the error's own text. -/
def reasonOf (context : ClientErrorContext) (error : KafkaError) : String :=
  (context.lastError.map Reason.text).getD error.text

/-- One step of the pool: what librdkafka queues, and what the call that holds the client does next. -/
def step (s : Pool) : Event → Option Pool
  | .enqueue event => some { s with client := s.client.enqueue event }
  | .lock what =>
    if s.holder.isNone then some { s with holder := some { what, phase := .locked } } else none
  | .begin =>
    match s.holder with
    | some ⟨what, .locked⟩ =>
      some { s with
        client := s.client.beginCall
        holder := some { what, phase := .calling s.client.queued } }
    | _ => none
  | .succeed | .panic =>
    match s.holder with
    | some ⟨_, .calling _⟩ => some { s with holder := none }
    | _ => none
  | .fail error =>
    match s.holder with
    | some ⟨what, .calling began⟩ =>
      some { s with holder := some { what, phase := .draining began error } }
    | _ => none
  | .poll served =>
    match s.holder with
    | some ⟨_, .draining ..⟩ =>
      if s.client.context.lastError.isNone then some { s with client := s.client.poll served }
      else none
    | _ => none
  | .report =>
    match s.holder with
    | some ⟨what, .draining began error⟩ =>
      let context := s.client.context
      some { s with
        holder := none
        failures := s.failures ++
          [{ began, source := context.lastError.map Reason.number
             report := failureReport error (reasonOf context error) what }] }
    | _ => none

/-! ## What each event needs and does -/

section Steps

variable {s t : Pool}

theorem step_lock {what : String} : step s (.lock what) = some t ↔
    s.holder = none ∧ { s with holder := some { what, phase := .locked } } = t := by
  rw [step, Option.ite_none_right_eq_some, Option.isNone_iff_eq_none, Option.some.injEq]

theorem step_begin : step s .begin = some t ↔ ∃ what, s.holder = some ⟨what, .locked⟩ ∧
    { s with client := s.client.beginCall,
             holder := some { what, phase := .calling s.client.queued } } = t := by
  rw [step]
  split
  · rename_i what h
    simp [h]
  · rename_i h
    refine ⟨nofun, ?_⟩
    rintro ⟨what, hw, -⟩
    exact absurd hw (h what)

theorem step_succeed : step s .succeed = some t ↔
    (∃ what began, s.holder = some ⟨what, .calling began⟩) ∧ { s with holder := none } = t := by
  rw [step]
  split <;> simp_all

theorem step_panic : step s .panic = step s .succeed := by
  rw [step, step]

theorem step_fail {error : KafkaError} : step s (.fail error) = some t ↔
    ∃ what began, s.holder = some ⟨what, .calling began⟩ ∧
      { s with holder := some { what, phase := .draining began error } } = t := by
  rw [step]
  split <;> simp_all

theorem step_poll {served : ℕ} : step s (.poll served) = some t ↔
    (∃ what began error, s.holder = some ⟨what, .draining began error⟩) ∧
      s.client.context.lastError = none ∧ { s with client := s.client.poll served } = t := by
  rw [step]
  split
  · rename_i what began error h
    rw [Option.ite_none_right_eq_some, Option.isNone_iff_eq_none, Option.some.injEq, h]
    exact ⟨fun hs => ⟨⟨what, began, error, rfl⟩, hs⟩, fun hs => hs.2⟩
  · rename_i h
    refine ⟨nofun, ?_⟩
    rintro ⟨⟨what, began, error, hw⟩, -⟩
    exact absurd hw (h what began error)

theorem step_report : step s .report = some t ↔
    ∃ what began error, s.holder = some ⟨what, .draining began error⟩ ∧
      { s with
        holder := none
        failures := s.failures ++
          [{ began, source := s.client.context.lastError.map Reason.number
             report := failureReport error (reasonOf s.client.context error) what }] } = t := by
  rw [step]
  split
  · rename_i what began error h
    simp [h]
  · rename_i h
    refine ⟨nofun, ?_⟩
    rintro ⟨what, began, error, hw, -⟩
    exact absurd hw (h what began error)

end Steps

end OffsetExplorer.ObservedClient
