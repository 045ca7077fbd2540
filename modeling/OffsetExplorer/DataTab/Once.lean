import OffsetExplorer.DataTab.View
import OffsetExplorer.Stream.Once

/-!
# A streamed fetch and the rows of its view

* `Open`: from the click to the answer, the rows of the view and the buffer are what the listener
  has been given, and the rest of what was emitted is still in the channel.
* `Closed`: after the answer nothing reaches the view any more, whatever is still in the channel.
* **`rows_once_iff`**: the view ends up with exactly the rows of the fetch if and only if every
  event was delivered before the answer.
-/

namespace OffsetExplorer.DataTab

open Machine

variable {a b : App} {K rid : String}

/-- The batches a request emits in a list of events, in order. -/
def emittedOf (rid : String) (es : List Event) : List (List TopicMessage) :=
  es.filterMap fun
    | .emitBatch id messages => if id = rid then some messages else none
    | _ => none

/-- The batches of a request that reach the listener, in order. -/
def deliveredOf (rid : String) (es : List Event) : List (List TopicMessage) :=
  es.filterMap fun
    | .deliverEvent id messages => if id = rid then some messages else none
    | _ => none

/-- The batches of a request that are still in the channel. -/
def App.inChannel (a : App) (rid : String) : List (List TopicMessage) :=
  (a.events.filter fun event => event.1 = rid).map Prod.snd

theorem emittedOf_snoc (es : List Event) (e : Event) :
    emittedOf rid (es ++ [e]) = emittedOf rid es ++ emittedOf rid [e] := List.filterMap_append

theorem deliveredOf_snoc (es : List Event) (e : Event) :
    deliveredOf rid (es ++ [e]) = deliveredOf rid es ++ deliveredOf rid [e] := List.filterMap_append

/-! ## What the handlers do to a view's rows -/

theorem appendRows_messages (rows : List TopicMessage) (now : ℕ) :
    (a.appendRows K rows now).store.messages K = a.store.messages K ++ rows :=
  TabDataState.messages_appendTabMessages rows now

theorem enforceRetentionLimit_messages :
    (a.enforceRetentionLimit K).store.messages K = a.store.messages K :=
  TabDataState.evictToFit_messages a.maxTotalFetchBytes

theorem flush_messages (now : ℕ) : (a.flush now).store.messages a.view.tabKey =
    a.store.messages a.view.tabKey ++ a.view.streamBuffer := by
  unfold App.flush
  dsimp only
  split_ifs with h
  · simp [List.isEmpty_iff.mp h]
  · exact enforceRetentionLimit_messages.trans (appendRows_messages _ now)

theorem flush_streamBuffer (now : ℕ) : (a.flush now).view.streamBuffer = [] := by
  unfold App.flush
  dsimp only
  split_ifs with h
  · exact List.isEmpty_iff.mp h
  · rfl

theorem flush_frame (now : ℕ) :
    (a.flush now).view.tabKey = a.view.tabKey ∧ (a.flush now).view.stopped = a.view.stopped ∧
      (a.flush now).view.activeRequestId = a.view.activeRequestId ∧
      (a.flush now).view.isPlaying = a.view.isPlaying ∧ (a.flush now).events = a.events ∧
      (a.flush now).calls = a.calls := by
  unfold App.flush
  dsimp only
  split_ifs
  · exact ⟨rfl, rfl, rfl, rfl, rfl, rfl⟩
  · exact ⟨rfl, rfl, rfl, rfl, rfl, rfl⟩

theorem flush_of_empty (h : a.view.streamBuffer = []) (now : ℕ) :
    (a.flush now).store = a.store := by
  unfold App.flush
  dsimp only
  rw [h]
  rfl

theorem appendRest_messages (rows : List TopicMessage) (now : ℕ) :
    (a.appendRest K rows now).store.messages K = a.store.messages K ++ rows := by
  unfold App.appendRest
  split_ifs with h
  · rw [List.isEmpty_iff.mp h, List.append_nil]
  · exact appendRows_messages rows now

theorem appendRest_frame (rows : List TopicMessage) (now : ℕ) :
    (a.appendRest K rows now).view = a.view ∧ (a.appendRest K rows now).events = a.events ∧
      (a.appendRest K rows now).calls = a.calls := by
  unfold App.appendRest
  split_ifs
  · exact ⟨rfl, rfl, rfl⟩
  · exact ⟨rfl, rfl, rfl⟩

theorem onBatch_of_inactive (h : a.view.activeRequestId = none) (id : String)
    (batch : List TopicMessage) : a.onBatch id batch = a := by
  have hne : some id ≠ a.view.activeRequestId := by
    rw [h]
    exact Option.some_ne_none id
  unfold App.onBatch
  rw [if_pos hne, ite_self]

theorem handleAnswer_of_ne (h : a.view.activeRequestId ≠ some rid) (key : String)
    (answer : Except String MessageFetchResult) (now elapsedMs : ℕ) :
    a.handleAnswer rid key answer now elapsedMs = a := by
  unfold App.handleAnswer App.settle
  rw [if_neg (fun hc => h hc.2), if_neg (by simpa using h)]

/-- The answer the view waits for completes the rows of its view and retires the request. -/
theorem handleAnswer_ok (result : MessageFetchResult) (hstop : a.view.stopped = false)
    (hact : a.view.activeRequestId = some rid) (now elapsedMs : ℕ) :
    let b := a.handleAnswer rid a.view.tabKey (.ok result) now elapsedMs
    b.store.messages a.view.tabKey =
        a.store.messages a.view.tabKey ++ a.view.streamBuffer ++ result.messages ∧
      b.view.streamBuffer = [] ∧ b.view.activeRequestId = none ∧ b.view.isPlaying = false ∧
      b.events = a.events ∧ b.calls = a.calls := by
  intro b
  have hb : b = (a.complete a.view.tabKey result now elapsedMs).settle rid true :=
    if_pos ⟨hstop, hact⟩
  obtain ⟨_, _, _, _, hevents, hcalls⟩ := flush_frame (a := a) now
  obtain ⟨_, hevents', hcalls'⟩ :=
    appendRest_frame (a := a.flush now) (K := a.view.tabKey) result.messages now
  rw [hb]
  refine ⟨?_, rfl, rfl, rfl, hevents'.trans hevents, hcalls'.trans hcalls⟩
  calc ((a.complete a.view.tabKey result now elapsedMs).settle rid true).store.messages
        a.view.tabKey
      = ((a.flush now).appendRest a.view.tabKey result.messages now).store.messages
          a.view.tabKey := enforceRetentionLimit_messages
    _ = (a.flush now).store.messages a.view.tabKey ++ result.messages :=
        appendRest_messages result.messages now
    _ = _ := by rw [flush_messages]

theorem call?_setStatus (id : String) (status : CallStatus) :
    (a.setStatus id status).call? rid =
      (a.call? rid).map fun call =>
        if call.requestId = id then { call with status } else call := by
  unfold App.call? App.setStatus
  rw [List.find?_map]
  congr 2
  funext call
  simp only [Function.comp_apply]
  split_ifs <;> rfl

theorem call?_requestId {call : Call} (h : a.call? rid = some call) : call.requestId = rid := by
  simpa using List.find?_some h

/-! ## Before the answer -/

/-- What may happen to a fetch that is neither stopped nor superseded, other than its answer. -/
def Undisturbed (rid : String) : Event → Prop
  | .play _ | .stop | .retarget _ _ => False
  | .deliverResponse id _ _ => id ≠ rid
  | _ => True

/-- The fetch `rid` into view `K` between its click and its answer, after the events `es`. -/
structure Open (K rid : String) (es : List Event) (a : App) : Prop where
  tabKey : a.view.tabKey = K
  stopped : a.view.stopped = false
  active : a.view.activeRequestId = some rid
  playing : a.view.isPlaying = true
  call : (a.call? rid).map Call.tabKey = some K
  rows : a.store.messages K ++ a.view.streamBuffer = (deliveredOf rid es).flatten
  channel : emittedOf rid es = deliveredOf rid es ++ a.inChannel rid

theorem Open.flush {es : List Event} (h : Open K rid es a) (now : ℕ) :
    Open K rid es (a.flush now) := by
  obtain ⟨htab, hstop, hact, hplay, hevents, hcalls⟩ := flush_frame (a := a) now
  refine ⟨htab.trans h.tabKey, hstop.trans h.stopped, hact.trans h.active, hplay.trans h.playing,
    ?_, ?_, ?_⟩
  · unfold App.call?
    rw [hcalls]
    exact h.call
  · have hm := flush_messages (a := a) now
    rw [h.tabKey] at hm
    rw [hm, flush_streamBuffer, List.append_nil, h.rows]
  · unfold App.inChannel
    rw [hevents]
    exact h.channel

theorem Open.onBatch {es : List Event} {id : String} {rows : List TopicMessage}
    {rest : List (String × List TopicMessage)} (h : Open K rid es a)
    (hev : a.events = (id, rows) :: rest) :
    Open K rid (es ++ [.deliverEvent id rows])
      (({ a with events := rest } : App).onBatch id rows) := by
  have hch := h.channel
  unfold App.inChannel at hch
  rw [hev] at hch
  have hstop : ¬ a.view.stopped = true := by rw [h.stopped]; exact Bool.false_ne_true
  unfold App.onBatch
  rw [if_neg hstop]
  by_cases hid : id = rid
  · subst hid
    rw [if_neg (not_not.mpr h.active.symm)]
    refine ⟨h.tabKey, h.stopped, h.active, h.playing, h.call, ?_, ?_⟩
    · rw [deliveredOf_snoc, List.flatten_append, ← h.rows]
      simp [deliveredOf]
    · rw [emittedOf_snoc, deliveredOf_snoc, hch]
      simp [emittedOf, deliveredOf, App.inChannel]
  · have hne : some id ≠ a.view.activeRequestId := by
      rw [h.active]
      exact fun hc => hid (Option.some.inj hc)
    rw [if_pos hne]
    refine ⟨h.tabKey, h.stopped, h.active, h.playing, h.call, ?_, ?_⟩
    · rw [deliveredOf_snoc, List.flatten_append, ← h.rows]
      simp [deliveredOf, hid]
    · rw [emittedOf_snoc, deliveredOf_snoc, hch]
      simp [emittedOf, deliveredOf, App.inChannel, hid]

theorem Open.setStatus {es : List Event} (h : Open K rid es a) (id : String)
    (status : CallStatus) : Open K rid es (a.setStatus id status) := by
  refine ⟨h.tabKey, h.stopped, h.active, h.playing, ?_, h.rows, h.channel⟩
  rw [call?_setStatus, Option.map_map, ← h.call]
  congr 1
  funext call
  simp only [Function.comp_apply]
  split_ifs <;> rfl

theorem Open.keep {es : List Event} {e : Event} (h : Open K rid es a)
    (h1 : emittedOf rid [e] = []) (h2 : deliveredOf rid [e] = []) : Open K rid (es ++ [e]) a := by
  refine ⟨h.tabKey, h.stopped, h.active, h.playing, h.call, ?_, ?_⟩
  · rw [deliveredOf_snoc, h2, List.append_nil, h.rows]
  · rw [emittedOf_snoc, deliveredOf_snoc, h1, h2, List.append_nil, List.append_nil, h.channel]

/-- **One step keeps an undisturbed fetch open.** -/
theorem open_step {es : List Event} {e : Event} (he : Undisturbed rid e) (h : Open K rid es a)
    (hs : step a e = some b) : Open K rid (es ++ [e]) b := by
  cases e with
  | play id => exact he.elim
  | stop => exact he.elim
  | retarget key now => exact he.elim
  | reject error =>
    obtain ⟨hidle, _⟩ := step_reject.mp hs
    rw [h.playing] at hidle
    cases hidle
  | emitBatch id rows =>
    obtain ⟨_, rfl⟩ := step_emitBatch.mp hs
    refine ⟨h.tabKey, h.stopped, h.active, h.playing, h.call, ?_, ?_⟩
    · rw [deliveredOf_snoc, h.rows]
      simp [deliveredOf]
    · rw [emittedOf_snoc, deliveredOf_snoc, h.channel]
      by_cases hid : id = rid
      · simp [emittedOf, deliveredOf, App.inChannel, hid]
      · simp [emittedOf, deliveredOf, App.inChannel, hid]
  | respond id answer =>
    obtain ⟨_, rfl⟩ := step_respond.mp hs
    exact (h.setStatus id _).keep rfl rfl
  | deliverEvent id rows =>
    obtain ⟨rest, hev, rfl⟩ := step_deliverEvent.mp hs
    exact h.onBatch hev
  | deliverResponse id now elapsedMs =>
    obtain ⟨call, answer, _, _, rfl⟩ := step_deliverResponse.mp hs
    have hne : (a.setStatus id .settled).view.activeRequestId ≠ some id := by
      show a.view.activeRequestId ≠ some id
      rw [h.active]
      exact fun hc => he (Option.some.inj hc).symm
    rw [handleAnswer_of_ne hne]
    exact (h.setStatus id _).keep rfl rfl
  | timer now =>
    obtain ⟨_, rfl⟩ := step_timer.mp hs
    have h' : Open K rid es { a with timers := a.timers - 1 } :=
      ⟨h.tabKey, h.stopped, h.active, h.playing, h.call, h.rows, h.channel⟩
    exact (h'.flush now).keep rfl rfl

/-! ## After the answer -/

/-- The fetch `rid` into view `K` once its answer has been handled, after the events `es`: the view
has the rows `rows`, and the listener no longer takes what was left in the channel. -/
structure Closed (K rid : String) (rows : List TopicMessage) (left : List (List TopicMessage))
    (es : List Event) (a : App) : Prop where
  inactive : a.view.activeRequestId = none
  buffer : a.view.streamBuffer = []
  idle : a.view.isPlaying = false
  call : ∀ call ∈ a.call? rid, call.status = .settled
  rows : a.store.messages K = rows
  channel : left = deliveredOf rid es ++ a.inChannel rid

/-- What may happen to a completed fetch until another one is started or shown. -/
def Resting : Event → Prop
  | .play _ | .retarget _ _ => False
  | _ => True

variable {rows : List TopicMessage} {left : List (List TopicMessage)}

theorem Closed.keep {es : List Event} {e : Event} (h : Closed K rid rows left es a)
    (h2 : deliveredOf rid [e] = []) : Closed K rid rows left (es ++ [e]) a := by
  refine ⟨h.inactive, h.buffer, h.idle, h.call, h.rows, ?_⟩
  rw [deliveredOf_snoc, h2, List.append_nil, h.channel]

theorem Closed.setStatus {es : List Event} (h : Closed K rid rows left es a) {id : String}
    (hid : id ≠ rid) (status : CallStatus) : Closed K rid rows left es (a.setStatus id status) := by
  refine ⟨h.inactive, h.buffer, h.idle, fun call hcall => ?_, h.rows, h.channel⟩
  rw [call?_setStatus, Option.mem_def, Option.map_eq_some_iff] at hcall
  obtain ⟨call', hcall', rfl⟩ := hcall
  have hreq := call?_requestId hcall'
  rw [if_neg (by rw [hreq]; exact Ne.symm hid)]
  exact h.call call' hcall'

theorem Closed.ne_of_status {es : List Event} (h : Closed K rid rows left es a) {id : String}
    {status : CallStatus} (hst : (a.call? id).map Call.status = some status)
    (hne : status ≠ .settled) : id ≠ rid := by
  rintro rfl
  obtain ⟨call, hcall, rfl⟩ := Option.map_eq_some_iff.mp hst
  exact hne (h.call call hcall)

/-- **One step keeps a completed fetch closed.** -/
theorem closed_step {es : List Event} {e : Event} (he : Resting e)
    (h : Closed K rid rows left es a) (hs : step a e = some b) :
    Closed K rid rows left (es ++ [e]) b := by
  cases e with
  | play id => exact he.elim
  | retarget key now => exact he.elim
  | stop =>
    obtain ⟨hplay, _⟩ := step_stop.mp hs
    rw [h.idle] at hplay
    cases hplay
  | reject error =>
    obtain ⟨_, rfl⟩ := step_reject.mp hs
    have h' : Closed K rid rows left es { a with view := { a.view with error := some error } } :=
      ⟨h.inactive, h.buffer, h.idle, h.call, h.rows, h.channel⟩
    exact h'.keep rfl
  | emitBatch id batch =>
    obtain ⟨hst, rfl⟩ := step_emitBatch.mp hs
    have hid : id ≠ rid := h.ne_of_status hst (by rintro ⟨⟩)
    have h' : Closed K rid rows left es { a with events := a.events ++ [(id, batch)] } := by
      refine ⟨h.inactive, h.buffer, h.idle, h.call, h.rows, ?_⟩
      rw [h.channel]
      simp [App.inChannel, hid]
    exact h'.keep rfl
  | respond id answer =>
    obtain ⟨hst, rfl⟩ := step_respond.mp hs
    exact (h.setStatus (h.ne_of_status hst (by rintro ⟨⟩)) _).keep rfl
  | deliverEvent id batch =>
    obtain ⟨rest, hev, rfl⟩ := step_deliverEvent.mp hs
    have hch := h.channel
    unfold App.inChannel at hch
    rw [hev] at hch
    rw [onBatch_of_inactive (a := { a with events := rest }) h.inactive]
    refine ⟨h.inactive, h.buffer, h.idle, h.call, h.rows, ?_⟩
    rw [deliveredOf_snoc, hch]
    by_cases hid : id = rid
    · simp [deliveredOf, App.inChannel, hid]
    · simp [deliveredOf, App.inChannel, hid]
  | deliverResponse id now elapsedMs =>
    obtain ⟨call, answer, hcall, hst, rfl⟩ := step_deliverResponse.mp hs
    have hid : id ≠ rid :=
      h.ne_of_status (by rw [hcall, Option.map_some, hst]) (by rintro ⟨⟩)
    have hne : (a.setStatus id .settled).view.activeRequestId ≠ some id := by
      show a.view.activeRequestId ≠ some id
      rw [h.inactive]
      rintro ⟨⟩
    rw [handleAnswer_of_ne hne]
    exact (h.setStatus hid _).keep rfl
  | timer now =>
    obtain ⟨_, rfl⟩ := step_timer.mp hs
    obtain ⟨_, _, hact, hplay, hevents, hcalls⟩ :=
      flush_frame (a := { a with timers := a.timers - 1 }) now
    have hstore := flush_of_empty (a := { a with timers := a.timers - 1 }) h.buffer now
    have h' : Closed K rid rows left es (({ a with timers := a.timers - 1 } : App).flush now) := by
      refine ⟨hact.trans h.inactive, flush_streamBuffer now, hplay.trans h.idle, ?_, ?_, ?_⟩
      · unfold App.call?
        rw [hcalls]
        exact h.call
      · rw [hstore]
        exact h.rows
      · unfold App.inChannel
        rw [hevents]
        exact h.channel
    exact h'.keep rfl

/-! ## Exactly once -/

/-- The ids of the requests made so far. -/
def App.requests (a : App) : List String := a.calls.map Call.requestId

theorem call?_isSome : (a.call? rid).isSome ↔ rid ∈ a.requests := by
  simp [App.call?, App.requests, List.find?_isSome]

theorem requests_setStatus (id : String) (status : CallStatus) :
    (a.setStatus id status).requests = a.requests := by
  unfold App.requests App.setStatus
  rw [List.map_map]
  congr 1
  funext call
  simp only [Function.comp_apply]
  split_ifs <;> rfl

theorem handleAnswer_frame (rid key : String) (answer : Except String MessageFetchResult)
    (now elapsedMs : ℕ) :
    (a.handleAnswer rid key answer now elapsedMs).events = a.events ∧
      (a.handleAnswer rid key answer now elapsedMs).calls = a.calls := by
  obtain ⟨_, _, _, _, hevents, hcalls⟩ := flush_frame (a := a) now
  unfold App.handleAnswer
  split_ifs
  · cases answer with
    | ok result =>
      obtain ⟨_, hevents', hcalls'⟩ :=
        appendRest_frame (a := a.flush now) (K := key) result.messages now
      exact ⟨hevents'.trans hevents, hcalls'.trans hcalls⟩
    | error err =>
      dsimp only
      unfold App.settle
      split_ifs <;> exact ⟨rfl, rfl⟩
  · unfold App.settle
    split_ifs <;> exact ⟨rfl, rfl⟩

theorem onBatch_frame (id : String) (batch : List TopicMessage) :
    (a.onBatch id batch).events = a.events ∧ (a.onBatch id batch).calls = a.calls := by
  unfold App.onBatch
  split_ifs <;> exact ⟨rfl, rfl⟩

theorem events_requested {es : List Event} {store : TabDataState} {limit : ℤ}
    (h : run step (mounted K store limit) es = some a) :
    ∀ event ∈ a.events, event.1 ∈ a.requests := by
  refine run_invariant (I := fun a => ∀ event ∈ a.events, event.1 ∈ a.requests) ?_
    (by simp [mounted]) h
  intro a e b ha hs
  cases e with
  | play id =>
    obtain ⟨_, _, rfl⟩ := step_play.mp hs
    intro event hev
    have : (a.handlePlay id).requests = a.requests ++ [id] := by
      simp [App.requests, App.handlePlay, App.discardBufferedStream]
    rw [this]
    exact List.mem_append_left _ (ha event hev)
  | stop =>
    obtain ⟨_, rfl⟩ := step_stop.mp hs
    exact ha
  | retarget key now =>
    obtain ⟨_, rfl⟩ := step_retarget.mp hs
    exact ha
  | reject error =>
    obtain ⟨_, rfl⟩ := step_reject.mp hs
    exact ha
  | emitBatch id batch =>
    obtain ⟨hst, rfl⟩ := step_emitBatch.mp hs
    obtain ⟨call, hcall, _⟩ := Option.map_eq_some_iff.mp hst
    have hid : id ∈ a.requests := call?_isSome.mp (by rw [hcall]; rfl)
    intro event hev
    rcases List.mem_append.mp hev with hev | hev
    · exact ha event hev
    · rw [List.mem_singleton.mp hev]
      exact hid
  | respond id answer =>
    obtain ⟨_, rfl⟩ := step_respond.mp hs
    rw [requests_setStatus]
    exact ha
  | deliverEvent id batch =>
    obtain ⟨rest, hev, rfl⟩ := step_deliverEvent.mp hs
    obtain ⟨hevents, hcalls⟩ := onBatch_frame (a := { a with events := rest }) id batch
    unfold App.requests
    rw [hevents, hcalls]
    exact fun event h' => ha event (hev ▸ List.mem_cons_of_mem _ h')
  | deliverResponse id now elapsedMs =>
    obtain ⟨call, answer, _, _, rfl⟩ := step_deliverResponse.mp hs
    obtain ⟨hevents, hcalls⟩ := handleAnswer_frame (a := a.setStatus id .settled) id
      call.tabKey answer now elapsedMs
    have hreq := requests_setStatus (a := a) id .settled
    unfold App.requests at hreq ha ⊢
    rw [hevents, hcalls, hreq]
    exact ha
  | timer now =>
    obtain ⟨_, rfl⟩ := step_timer.mp hs
    obtain ⟨_, _, _, _, hevents, hcalls⟩ :=
      flush_frame (a := { a with timers := a.timers - 1 }) now
    unfold App.requests
    rw [hevents, hcalls]
    exact ha

theorem open_play {es : List Event} {store : TabDataState} {limit : ℤ}
    (h : run step (mounted K store limit) es = some a) (hs : step a (.play rid) = some b) :
    Open a.view.tabKey rid [] b := by
  obtain ⟨_, hfresh, rfl⟩ := step_play.mp hs
  have hnone : a.inChannel rid = [] := by
    unfold App.inChannel
    rw [List.map_eq_nil_iff, List.filter_eq_nil_iff]
    intro event hev hid
    have heq : event.1 = rid := by simpa using hid
    have hsome := call?_isSome.mpr (heq ▸ events_requested h event hev)
    rw [hfresh] at hsome
    cases hsome
  refine ⟨rfl, rfl, rfl, rfl, ?_, ?_, hnone.symm⟩
  · unfold App.call? at hfresh ⊢
    show (List.find? _ (a.calls ++ [_])).map Call.tabKey = _
    rw [List.find?_append, hfresh]
    simp
    rfl
  · show (a.store.clearTabMessages a.view.tabKey).messages a.view.tabKey ++ [] = _
    rw [TabDataState.messages_clearTabMessages]
    rfl

/-- The answer closes an open fetch, with the rows delivered so far and those it carries itself. -/
theorem closed_answer {es : List Event} {result : MessageFetchResult} {now elapsedMs : ℕ}
    (h : Open K rid es a) (hres : (a.call? rid).map Call.status = some (.answered (.ok result)))
    (hs : step a (.deliverResponse rid now elapsedMs) = some b) :
    Closed K rid ((deliveredOf rid es).flatten ++ result.messages) (a.inChannel rid) [] b := by
  obtain ⟨call, answer, hcall, hst, rfl⟩ := step_deliverResponse.mp hs
  have hkey : call.tabKey = a.view.tabKey := by
    have := h.call
    rw [hcall, Option.map_some, Option.some.injEq] at this
    rw [this, h.tabKey]
  have hok : answer = .ok result := by
    rw [hcall, Option.map_some, hst, Option.some.injEq] at hres
    cases hres
    rfl
  obtain ⟨hrows, hbuf, hact, hplay, hevents, hcalls⟩ :=
    handleAnswer_ok (a := a.setStatus rid .settled) result h.stopped h.active now elapsedMs
  rw [hkey, hok]
  refine ⟨hact, hbuf, hplay, fun c hc => ?_, ?_, ?_⟩
  · unfold App.call? at hc
    rw [show (App.handleAnswer _ rid a.view.tabKey (.ok result) now elapsedMs).calls = _ from
      hcalls] at hc
    have hc' : (a.setStatus rid .settled).call? rid = some c := hc
    rw [call?_setStatus, hcall, Option.map_some, if_pos (call?_requestId hcall)] at hc'
    cases hc'
    rfl
  · rw [← h.rows, ← h.tabKey]
    exact hrows
  · unfold App.inChannel
    rw [show (App.handleAnswer _ rid a.view.tabKey (.ok result) now elapsedMs).events = _ from
      hevents]
    rfl

/-- A streamed fetch that is neither stopped nor superseded: the run of its forwarding task, and
what the view sees from its mount to a moment when the answer has been handled and no event of the
fetch is left in the channel. -/
structure StreamedFetch where
  batchSize : ℕ
  progressEvery : ℕ
  sends : List (Stream.Event TopicMessage)
  task : Stream.State TopicMessage
  streamed : ℕ
  task_run : run (Stream.step batchSize progressEvery) {} sends = some task
  task_returned : task.pc = .returned streamed
  tabKey : String
  store : TabDataState
  maxTotalFetchBytes : ℤ
  requestId : String
  result : MessageFetchResult
  now : ℕ
  elapsedMs : ℕ
  /-- What happens before the click, between the click and the answer, and after the answer. -/
  past : List Event
  before : List Event
  after : List Event
  idle : App
  clicked : App
  waiting : App
  answered : App
  final : App
  past_run : run step (mounted tabKey store maxTotalFetchBytes) past = some idle
  click : step idle (.play requestId) = some clicked
  before_run : run step clicked before = some waiting
  before_undisturbed : ∀ e ∈ before, Undisturbed requestId e
  emitted : emittedOf requestId before = task.fwd.emits
  responded : (waiting.call? requestId).map Call.status = some (.answered (.ok result))
  rest : result.messages = Stream.responseMessages streamed (Stream.sentBy sends)
  answer : step waiting (.deliverResponse requestId now elapsedMs) = some answered
  after_run : run step answered after = some final
  after_resting : ∀ e ∈ after, Resting e
  drained : final.inChannel requestId = []

namespace StreamedFetch

variable (f : StreamedFetch)

/-- The rows of the view that the fetch was started for. -/
def viewRows : List TopicMessage := f.final.store.messages f.idle.view.tabKey

/-- What the back end fetched, in its order. -/
def fetched : List TopicMessage := Stream.sentBy f.sends

theorem rows_eq : ∃ early late : List (List TopicMessage),
    late = deliveredOf f.requestId f.after ∧ f.task.fwd.emits = early ++ late ∧
      f.viewRows = early.flatten ++ f.result.messages := by
  have hopen : Open f.idle.view.tabKey f.requestId f.before f.waiting :=
    run_history (open_play f.past_run f.click) (fun _ _ _ _ he hs ht => open_step he hs ht)
      f.before_undisturbed f.before_run
  have hclosed := run_history (I := Closed f.idle.view.tabKey f.requestId _ _)
    (closed_answer hopen f.responded f.answer) (fun _ _ _ _ he hs ht => closed_step he hs ht)
    f.after_resting f.after_run
  refine ⟨deliveredOf f.requestId f.before, _, rfl, ?_, hclosed.rows⟩
  have hleft := hclosed.channel
  rw [f.drained, List.append_nil] at hleft
  rw [← f.emitted, hopen.channel, hleft]

theorem deliveredOf_eq_nil {es : List Event} :
    deliveredOf rid es = [] ↔ ∀ batch, .deliverEvent rid batch ∉ es := by
  rw [deliveredOf, List.filterMap_eq_nil_iff]
  constructor
  · intro h batch hmem
    simpa using h _ hmem
  · intro h e he
    cases e with
    | deliverEvent id batch =>
      by_cases hid : id = rid
      · exact (h batch (hid ▸ he)).elim
      · simp [hid]
    | _ => rfl

/-- **When the rows reach the grid exactly once.** A fetch that was neither stopped nor superseded
leaves its view with exactly the rows of the back end, each once and in order, if and only if no
event of it reaches the listener after its answer has been handled. -/
theorem rows_once_iff :
    f.viewRows = f.fetched ↔ ∀ batch, .deliverEvent f.requestId batch ∉ f.after := by
  obtain ⟨early, late, hlate, hemits, hrows⟩ := f.rows_eq
  obtain ⟨hall, hsizes, _⟩ := Stream.returned_spec f.task_run f.task_returned
  rw [← deliveredOf_eq_nil, ← hlate, hrows, fetched, ← hall, f.rest, hemits, List.flatten_append,
    List.append_assoc, List.append_cancel_left_eq, List.self_eq_append_left, List.flatten_eq_nil_iff]
  constructor
  · intro h
    -- the forwarding task emits no empty batch
    rw [List.eq_nil_iff_forall_not_mem]
    intro batch hbatch
    have hmem : batch ∈ f.task.fwd.emits := by
      rw [hemits]
      exact List.mem_append_right _ hbatch
    exact (hsizes batch hmem).1 (h batch hbatch)
  · rintro rfl batch hbatch
    cases hbatch

end StreamedFetch

/-! ## A late batch -/

/-- One row is fetched, and its batch is the task's only one. -/
def oneRow : List (Stream.Event TopicMessage) :=
  [.send (Stream.row 7), .recv, .forward, .dropSender, .recv]

/-- The task of a fetch of one row, which has been emitted. -/
def oneRowTask : Stream.State TopicMessage where
  collected := [Stream.row 7]
  senderDropped := true
  pc := .returned 1
  fwd := { emitted := 1, emits := [[Stream.row 7]] }

/-- A fetch whose answer overtakes its only batch. -/
def lateBatch : StreamedFetch where
  batchSize := 100
  progressEvery := 0
  sends := oneRow
  task := oneRowTask
  streamed := 1
  task_run := rfl
  task_returned := rfl
  tabKey := "tab-1:1:orders:all"
  store := {}
  maxTotalFetchBytes := 1000
  requestId := "r1"
  result := { totalMatching := 1 }
  now := 0
  elapsedMs := 5
  past := []
  before := [.emitBatch "r1" [Stream.row 7], .respond "r1" (.ok { totalMatching := 1 })]
  after := [.deliverEvent "r1" [Stream.row 7]]
  idle := _
  clicked := _
  waiting := _
  answered := _
  final := _
  past_run := rfl
  click := rfl
  before_run := rfl
  before_undisturbed := by simp [Undisturbed]
  emitted := rfl
  responded := rfl
  rest := rfl
  answer := rfl
  after_run := rfl
  after_resting := by simp [Resting]
  drained := rfl

/-- The listener has forgotten the request by then, and the row never reaches the grid. -/
theorem lateBatch_lost : lateBatch.viewRows = [] ∧ lateBatch.fetched = [Stream.row 7] :=
  ⟨rfl, rfl⟩

end OffsetExplorer.DataTab
