import OffsetExplorer.Lib.Record
import OffsetExplorer.Message
import Mathlib.Data.List.Sort

/-!
# The store behind the Data tabs

`useTabDataStore`: what every view has cached, one record a field, keyed by view.

* `dataTabCacheKey`: the key of a view.
* `TabDataState` and its actions, one definition each under its name in the store.
* `evictToFit`: least recently used views lose their rows until the total fits; the loop is bounded
  by the number of views, for every turn drops one.
* `evictToFit_messages`: the protected view keeps its rows.
-/

namespace OffsetExplorer.DataTab

/-- The key of a workspace tab, or the placeholder before there is one. -/
def tabDataKey (activeTabId : Option String) : String := activeTabId.getD "unassigned"

/-- The key of a view: its workspace tab and what it shows there. -/
def dataTabCacheKey (activeTabId : Option String) (connectionId topicName : String)
    (partitionId : Option ℤ) : String :=
  let partition := (partitionId.map toString).getD "all"
  s!"{tabDataKey activeTabId}:{connectionId}:{topicName}:{partition}"

/-- What every key of a workspace tab begins with. -/
def tabDataPrefix (activeTabId : Option String) : String := s!"{tabDataKey activeTabId}:"

/-- The connection is segment 1 of a key. -/
def dataTabKeyBelongsTo (key connectionId : String) : Bool :=
  (key.toList.splitOn ':')[1]? = some connectionId.toList

/-- How many bytes a base64 text decodes to. The back end pads its texts, so that the division is exact; for
another length the source has a fraction. -/
def base64DecodedLength (base64 : String) : ℤ :=
  if base64.length = 0 then 0
  else
    let padding : ℤ := if base64.endsWith "==" then 2 else if base64.endsWith "=" then 1 else 0
    (base64.length : ℤ) / 4 * 3 - padding

/-- How many bytes of payloads the rows hold. -/
def retainedPayloadBytes (messages : List TopicMessage) : ℤ :=
  messages.foldl (fun total m => total + (m.payloadBase64.map base64DecodedLength).getD 0) 0

/-- The cached rows of every view and what goes with them. Times are milliseconds. -/
structure TabDataState where
  messagesByTab : Record String (List TopicMessage) := ∅
  totalMatchingByTab : Record String ℕ := ∅
  fetchDurationMsByTab : Record String ℕ := ∅
  payloadBytesByTab : Record String ℤ := ∅
  lastUsedByTab : Record String ℕ := ∅
  evictedTabs : Record String Unit := ∅

/-- The app-wide total that the ceiling is about. -/
def totalRetainedPayloadBytes (payloadBytesByTab : Record String ℤ) : ℤ :=
  payloadBytesByTab.values.foldl (· + ·) 0

namespace TabDataState

variable (state : TabDataState) (tabId : String)

/-- `messagesByTab[tabId] ?? []`. -/
def messages : List TopicMessage := (state.messagesByTab.get? tabId).getD []

/-- The bytes of a view, as they are counted anew. -/
def setTabPayloadBytes (bytes : ℤ) : TabDataState :=
  { state with payloadBytesByTab := state.payloadBytesByTab.set tabId bytes }

/-- The bytes of a view, with those that have come. -/
def addTabPayloadBytes (bytes : ℤ) : TabDataState :=
  { state with
    payloadBytesByTab := state.payloadBytesByTab.set tabId
      ((state.payloadBytesByTab.get? tabId).getD 0 + bytes) }

/-- The rows of a view are replaced, which counts as a use of it. -/
def setTabMessages (messages : List TopicMessage) (now : ℕ) : TabDataState :=
  { state with
    messagesByTab := state.messagesByTab.set tabId messages
    lastUsedByTab := state.lastUsedByTab.set tabId now }

/-- How many messages match the filter of the view. -/
def setTabTotalMatching (totalMatching : ℕ) : TabDataState :=
  { state with totalMatchingByTab := state.totalMatchingByTab.set tabId totalMatching }

/-- How long the fetch of the view took. -/
def setTabFetchDurationMs (durationMs : ℕ) : TabDataState :=
  { state with fetchDurationMsByTab := state.fetchDurationMsByTab.set tabId durationMs }

/-- A row that streams in. -/
def appendTabMessage (message : TopicMessage) : TabDataState :=
  { state with
    messagesByTab := state.messagesByTab.set tabId (state.messages tabId ++ [message]) }

/-- Rows that stream in. No rows are no use of the view. -/
def appendTabMessages (messages : List TopicMessage) (now : ℕ) : TabDataState :=
  if messages.isEmpty then state
  else { state with
    messagesByTab := state.messagesByTab.set tabId (state.messages tabId ++ messages)
    lastUsedByTab := state.lastUsedByTab.set tabId now }

/-- One view is forgotten, its mark with it. -/
def clearTabMessages : TabDataState where
  messagesByTab := state.messagesByTab.erase tabId
  totalMatchingByTab := state.totalMatchingByTab.erase tabId
  fetchDurationMsByTab := state.fetchDurationMsByTab.erase tabId
  payloadBytesByTab := state.payloadBytesByTab.erase tabId
  lastUsedByTab := state.lastUsedByTab.erase tabId
  evictedTabs := state.evictedTabs.erase tabId

/-- Every field without the keys that fail a test. -/
def keep (p : String → Bool) : TabDataState where
  messagesByTab := state.messagesByTab.keep p
  totalMatchingByTab := state.totalMatchingByTab.keep p
  fetchDurationMsByTab := state.fetchDurationMsByTab.keep p
  payloadBytesByTab := state.payloadBytesByTab.keep p
  lastUsedByTab := state.lastUsedByTab.keep p
  evictedTabs := state.evictedTabs.keep p

/-- Every view of a workspace tab is forgotten. -/
def clearAllMessagesForTab (activeTabId : Option String) : TabDataState :=
  state.keep fun key => !(tabDataPrefix activeTabId).toList.isPrefixOf key.toList

/-- Every view of a connection is forgotten. -/
def clearForConnection (connectionId : String) : TabDataState :=
  state.keep fun key => !dataTabKeyBelongsTo key connectionId

/-- The view is used now. -/
def touchTab (now : ℕ) : TabDataState :=
  { state with lastUsedByTab := state.lastUsedByTab.set tabId now }

/-- The view that gives up its rows next: the coldest one that holds something. -/
def coldest (protectedTabId : String) : Option String :=
  ((state.payloadBytesByTab.keys.filter fun key =>
      key ≠ protectedTabId ∧ 0 < (state.payloadBytesByTab.get? key).getD 0).insertionSort
    fun a b => (state.lastUsedByTab.get? a).getD 0 ≤ (state.lastUsedByTab.get? b).getD 0).head?

/-- One turn of the eviction loop: a view loses its rows and is marked. -/
def evict (coldest : String) : TabDataState :=
  { state with
    payloadBytesByTab := state.payloadBytesByTab.erase coldest
    messagesByTab := state.messagesByTab.erase coldest
    totalMatchingByTab := state.totalMatchingByTab.erase coldest
    fetchDurationMsByTab := state.fetchDurationMsByTab.erase coldest
    lastUsedByTab := state.lastUsedByTab.erase coldest
    evictedTabs := state.evictedTabs.set coldest () }

/-- The eviction loop for at most `turns` turns, with the keys it drops. -/
def evictLoop (limitBytes : ℤ) (protectedTabId : String) :
    ℕ → TabDataState → TabDataState × List String
  | 0, state => (state, [])
  | turns + 1, state =>
    if totalRetainedPayloadBytes state.payloadBytesByTab ≤ limitBytes then (state, [])
    else
      match state.coldest protectedTabId with
      | none => (state, [])
      | some coldest =>
        let (rest, evicted) := evictLoop limitBytes protectedTabId turns (state.evict coldest)
        (rest, coldest :: evicted)

/-- Views lose their rows, the coldest first, until the others fit or none is left to choose. -/
def evictToFit (limitBytes : ℤ) (protectedTabId : String) : TabDataState × List String :=
  evictLoop limitBytes protectedTabId state.payloadBytesByTab.keys.length state

variable {state tabId}

theorem messages_appendTabMessages (rows : List TopicMessage) (now : ℕ) :
    (state.appendTabMessages tabId rows now).messages tabId = state.messages tabId ++ rows := by
  unfold appendTabMessages
  cases rows with
  | nil => simp
  | cons m rows => simp [messages]

@[simp] theorem messages_addTabPayloadBytes (k : String) (bytes : ℤ) :
    (state.addTabPayloadBytes k bytes).messages tabId = state.messages tabId := rfl

theorem messages_clearTabMessages : (state.clearTabMessages tabId).messages tabId = [] := by
  simp [messages, clearTabMessages]

theorem coldest_ne {key : String} (h : state.coldest tabId = some key) : key ≠ tabId := by
  have hmem := List.mem_of_mem_head? h
  rw [List.mem_insertionSort, List.mem_filter] at hmem
  exact (of_decide_eq_true hmem.2).1

/-- **Eviction never touches the protected view.** -/
theorem evictLoop_messages (limitBytes : ℤ) (turns : ℕ) (state : TabDataState) :
    (evictLoop limitBytes tabId turns state).1.messages tabId = state.messages tabId := by
  induction turns generalizing state with
  | zero => rfl
  | succ turns ih =>
    rw [evictLoop]
    split_ifs
    · rfl
    · cases h : state.coldest tabId with
      | none => rfl
      | some key =>
        show (evictLoop limitBytes tabId turns (state.evict key)).1.messages tabId = _
        rw [ih, messages, evict, Record.get?_erase_ne _ (coldest_ne h).symm, messages]

theorem evictToFit_messages (limitBytes : ℤ) :
    (state.evictToFit limitBytes tabId).1.messages tabId = state.messages tabId :=
  evictLoop_messages limitBytes _ state

end TabDataState

end OffsetExplorer.DataTab
