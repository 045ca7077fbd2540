import OffsetExplorer.DataTab.Store
import OffsetExplorer.Lib.Machine

/-!
# The Data tab component

One mounted `DataTab` with its refs, the store it writes to, the FIFO channel of `messages-batch`
events and the fetch commands it has called, whose answers come on channels of their own. A step is
an action of the user or of the back end, the delivery of one event or answer, or a timer that
fires.

* `onBatch`, `flush`, `handlePlay`, `handleAnswer`, `stopActiveFetch`: the handlers.
* `step`: the machine. No order is assumed between events, answers and timers.
* `step_play` to `step_timer`: what each event needs and does.
-/

namespace OffsetExplorer.DataTab

/-- Where a call of the fetch command stands. -/
inductive CallStatus where
  | running
  | answered (answer : Except String MessageFetchResult)
  | settled

/-- A call of `handlePlay`, with what its closure holds on to. -/
structure Call where
  requestId : String
  tabKey : String
  status : CallStatus

/-- The state of the component and its refs. -/
structure View where
  tabKey : String
  isPlaying : Bool := false
  error : Option String := none
  stopped : Bool := false
  streamBuffer : List TopicMessage := []
  flushHandle : Bool := false
  activeRequestId : Option String := none
  byteBudgetBytesRead : Option ℕ := none
  payloadBudgetSpent : Bool := false

/-- The component and its surroundings. `timers` counts the flush timeouts that are scheduled, which
may be more than the one that `flushHandle` stands for. -/
structure App where
  view : View
  store : TabDataState := {}
  maxTotalFetchBytes : ℤ
  events : List (String × List TopicMessage) := []
  calls : List Call := []
  timers : ℕ := 0
  cancelFetches : List String := []

namespace App

variable (a : App)

/-- Rows that wait to be shown are dropped, and their timer with them. -/
def discardBufferedStream : App :=
  { a with
    view := { a.view with streamBuffer := [], flushHandle := false }
    timers := if a.view.flushHandle then a.timers - 1 else a.timers }

/-- The Stop button: nothing more is shown of the fetch, and the back end is told. -/
def stopActiveFetch : App :=
  let a := { a with view := { a.view with stopped := true } }
  let a := a.discardBufferedStream
  { a with
    view := { a.view with isPlaying := false }
    cancelFetches := a.cancelFetches ++ a.view.activeRequestId.toList }

/-- Bring the retained total inside the limit; the view `tabKey` is protected. -/
def enforceRetentionLimit (tabKey : String) : App :=
  let store := (a.store.evictToFit a.maxTotalFetchBytes tabKey).1
  { a with
    store
    view := { a.view with
      payloadBudgetSpent := a.maxTotalFetchBytes < totalRetainedPayloadBytes store.payloadBytesByTab } }

/-- Append rows to a view and count their payloads. -/
def appendRows (tabKey : String) (rows : List TopicMessage) (now : ℕ) : App :=
  { a with
    store := (a.store.appendTabMessages tabKey rows now).addTabPayloadBytes tabKey
      (retainedPayloadBytes rows) }

/-- Write the buffered rows to the store. -/
def flush (now : ℕ) : App :=
  let buffered := a.view.streamBuffer
  let a := { a with view := { a.view with flushHandle := false } }
  if buffered.isEmpty then a
  else
    let a := { a with view := { a.view with streamBuffer := [] } }
    (a.appendRows a.view.tabKey buffered now).enforceRetentionLimit a.view.tabKey

/-- The listener on `messages-batch`. -/
def onBatch (requestId : String) (messages : List TopicMessage) : App :=
  if a.view.stopped then a
  else if some requestId ≠ a.view.activeRequestId then a
  else
    { a with
      view := { a.view with
        streamBuffer := a.view.streamBuffer ++ messages
        flushHandle := true }
      timers := if a.view.flushHandle then a.timers else a.timers + 1 }

/-- `handlePlay` up to its call of the command, for a form that passes validation. -/
def handlePlay (requestId : String) : App :=
  let a := { a with
    view := { a.view with error := none, isPlaying := true, stopped := false } }
  let a := a.discardBufferedStream
  { a with
    view := { a.view with
      activeRequestId := some requestId
      byteBudgetBytesRead := none
      payloadBudgetSpent := false }
    store := a.store.clearTabMessages a.view.tabKey
    calls := a.calls ++ [{ requestId, tabKey := a.view.tabKey, status := .running }] }

/-- The `finally` block: only the fetch that is still current, or has just retired, tidies up. -/
def settle (requestId : String) (retiredHere : Bool) : App :=
  if retiredHere || a.view.activeRequestId = some requestId then
    let a := a.discardBufferedStream
    { a with view := { a.view with activeRequestId := none, isPlaying := false } }
  else a

/-- Append what the stream did not deliver. -/
def appendRest (tabKey : String) (rows : List TopicMessage) (now : ℕ) : App :=
  if rows.isEmpty then a else a.appendRows tabKey rows now

/-- A result the view still waits for: flush the stream, append the rest, retire the request. -/
def complete (tabKey : String) (result : MessageFetchResult) (now elapsedMs : ℕ) : App :=
  let a := (a.flush now).appendRest tabKey result.messages now
  let a := { a with
    view := { a.view with
      activeRequestId := none
      byteBudgetBytesRead :=
        if result.stoppedAtByteBudget then some result.payloadBytesRead else none }
    store := (a.store.setTabTotalMatching tabKey result.totalMatching).setTabFetchDurationMs tabKey
      elapsedMs }
  a.enforceRetentionLimit tabKey

/-- `handlePlay` from the answer of its call on. -/
def handleAnswer (requestId tabKey : String) (answer : Except String MessageFetchResult)
    (now elapsedMs : ℕ) : App :=
  if a.view.stopped = false ∧ a.view.activeRequestId = some requestId then
    match answer with
    | .ok result => (a.complete tabKey result now elapsedMs).settle requestId true
    | .error err =>
      ({ a with view := { a.view with error := some err } } : App).settle requestId false
  else a.settle requestId false

/-- Move the call of a request on to a status. -/
def setStatus (requestId : String) (status : CallStatus) : App :=
  { a with
    calls := a.calls.map fun call =>
      if call.requestId = requestId then { call with status } else call }

/-- The call of a request, if there was one. -/
def call? (requestId : String) : Option Call :=
  a.calls.find? fun call => call.requestId = requestId

/-- The component is rendered for another topic, partition or connection. -/
def retarget (tabKey : String) (now : ℕ) : App :=
  let a := { a with
    view := { a.view with tabKey }
    store := a.store.touchTab tabKey now }
  let a := a.stopActiveFetch
  { a with view := { a.view with error := none, payloadBudgetSpent := false } }

end App

/-- What can happen next. -/
inductive Event where
  /-- Fetch is clicked; the request id is fresh. -/
  | play (requestId : String)
  /-- Fetch is clicked with a form that fails validation. -/
  | reject (error : String)
  | stop
  | retarget (tabKey : String) (now : ℕ)
  /-- The command emits a batch, while it has not answered. -/
  | emitBatch (requestId : String) (messages : List TopicMessage)
  /-- The command answers. -/
  | respond (requestId : String) (answer : Except String MessageFetchResult)
  /-- The first event of the channel reaches the listener. -/
  | deliverEvent (requestId : String) (messages : List TopicMessage)
  /-- The answer of a call reaches `handlePlay`. -/
  | deliverResponse (requestId : String) (now elapsedMs : ℕ)
  | timer (now : ℕ)

/-- One step of the Data tab. What cannot happen is `none`. -/
def step (a : App) : Event → Option App
  | .play requestId =>
    if a.view.isPlaying ∨ (a.call? requestId).isSome then none else some (a.handlePlay requestId)
  | .reject error =>
    if a.view.isPlaying then none
    else some { a with view := { a.view with error := some error } }
  | .stop => if a.view.isPlaying then some a.stopActiveFetch else none
  | .retarget tabKey now =>
    if tabKey = a.view.tabKey then none else some (a.retarget tabKey now)
  | .emitBatch requestId messages =>
    match (a.call? requestId).map Call.status with
    | some .running => some { a with events := a.events ++ [(requestId, messages)] }
    | _ => none
  | .respond requestId answer =>
    match (a.call? requestId).map Call.status with
    | some .running => some (a.setStatus requestId (.answered answer))
    | _ => none
  | .deliverEvent requestId messages =>
    match a.events with
    | [] => none
    | event :: events =>
      if event = (requestId, messages) then
        some (({ a with events } : App).onBatch requestId messages)
      else none
  | .deliverResponse requestId now elapsedMs =>
    match a.call? requestId with
    | some ⟨_, tabKey, .answered answer⟩ =>
      some ((a.setStatus requestId .settled).handleAnswer requestId tabKey answer now elapsedMs)
    | _ => none
  | .timer now =>
    if a.timers = 0 then none else some (({ a with timers := a.timers - 1 } : App).flush now)

section Steps

variable {a b : App} {id : String}

theorem step_play : step a (.play id) = some b ↔
    a.view.isPlaying = false ∧ a.call? id = none ∧ a.handlePlay id = b := by
  rw [step, Option.ite_none_left_eq_some, not_or, Bool.not_eq_true, Option.not_isSome_iff_eq_none,
    Option.some.injEq, and_assoc]

theorem step_reject {error : String} : step a (.reject error) = some b ↔
    a.view.isPlaying = false ∧ { a with view := { a.view with error := some error } } = b := by
  rw [step, Option.ite_none_left_eq_some, Bool.not_eq_true, Option.some.injEq]

theorem step_stop : step a .stop = some b ↔ a.view.isPlaying = true ∧ a.stopActiveFetch = b := by
  rw [step, Option.ite_none_right_eq_some, Option.some.injEq]

theorem step_retarget {tabKey : String} {now : ℕ} : step a (.retarget tabKey now) = some b ↔
    tabKey ≠ a.view.tabKey ∧ a.retarget tabKey now = b := by
  rw [step, Option.ite_none_left_eq_some, Option.some.injEq]

theorem step_emitBatch {messages : List TopicMessage} :
    step a (.emitBatch id messages) = some b ↔
      (a.call? id).map Call.status = some .running ∧
        { a with events := a.events ++ [(id, messages)] } = b := by
  rw [step]
  split
  · rename_i h
    simp [h]
  · rename_i h
    exact ⟨fun hs => (by cases hs), fun hs => absurd hs.1 h⟩

theorem step_respond {answer : Except String MessageFetchResult} :
    step a (.respond id answer) = some b ↔
      (a.call? id).map Call.status = some .running ∧ a.setStatus id (.answered answer) = b := by
  rw [step]
  split
  · rename_i h
    simp [h]
  · rename_i h
    exact ⟨fun hs => (by cases hs), fun hs => absurd hs.1 h⟩

theorem step_deliverEvent {messages : List TopicMessage} :
    step a (.deliverEvent id messages) = some b ↔
      ∃ events, a.events = (id, messages) :: events ∧
        ({ a with events } : App).onBatch id messages = b := by
  rw [step]
  split
  · rename_i h
    simp [h]
  · rename_i event events h
    rw [Option.ite_none_right_eq_some, Option.some.injEq, h]
    constructor
    · rintro ⟨rfl, hb⟩
      exact ⟨events, rfl, hb⟩
    · rintro ⟨events', heq, hb⟩
      cases heq
      exact ⟨rfl, hb⟩

theorem step_deliverResponse {now elapsedMs : ℕ} :
    step a (.deliverResponse id now elapsedMs) = some b ↔
      ∃ call answer, a.call? id = some call ∧ call.status = .answered answer ∧
        (a.setStatus id .settled).handleAnswer id call.tabKey answer now elapsedMs = b := by
  rw [step]
  split
  · rename_i requestId tabKey answer h
    rw [Option.some.injEq]
    constructor
    · intro hb
      exact ⟨_, answer, h, rfl, hb⟩
    · rintro ⟨call, answer', hcall, hst, hb⟩
      rw [h] at hcall
      cases hcall
      cases hst
      exact hb
  · rename_i h
    refine ⟨fun hs => (by cases hs), ?_⟩
    rintro ⟨⟨requestId, tabKey, status⟩, answer, hcall, hst, _⟩
    dsimp only at hst
    rw [hst] at hcall
    exact (h requestId tabKey answer hcall).elim

theorem step_timer {now : ℕ} : step a (.timer now) = some b ↔
    a.timers ≠ 0 ∧ ({ a with timers := a.timers - 1 } : App).flush now = b := by
  rw [step, Option.ite_none_left_eq_some, Option.some.injEq]

end Steps

/-- The component as it is mounted, over a store that other views may have filled. -/
def mounted (tabKey : String) (store : TabDataState) (maxTotalFetchBytes : ℤ) : App where
  view := { tabKey }
  store := store
  maxTotalFetchBytes := maxTotalFetchBytes

end OffsetExplorer.DataTab
