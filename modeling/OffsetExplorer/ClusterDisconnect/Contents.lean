import OffsetExplorer.DataTab.CacheKey
import OffsetExplorer.DataTab.Filters
import OffsetExplorer.PublishTab.Draft
import OffsetExplorer.Workspace.Stores

/-!
# What is held of a cluster

`clearConnectionState` is called when a session ends. It clears seven stores and the queries of seven roots; most
of the stores keep what they hold of a cluster under texts that join a tab, a connection and what is shown of it
there. Queries of other roots stay: they describe the connection, or like `write-denied` are not on the list.

* `treeKey`, `connectionIdOfTreeKey`, `TreeRow`: the rows of the connection tree and their keys.
* `Contents`, `Contents.step`, `clearConnectionState`: the stores, and what is done to them.
* `Forgotten`, `SameBut`: these stores and queries hold nothing of a connection; the others keep what they have.
* **`disconnect_forgets`**: a session that has ended leaves nothing behind in them, and nothing of it comes back.
-/

namespace OffsetExplorer.ClusterDisconnect

open DataTab (ActiveTab DataView FilterFormState TabDataState dataTabKeyBelongsTo)
open PublishTab (DraftMessage DraftStore)
open Workspace (Stores SelectionOp ViewerOp StoreOp selectionKind viewerKind)

/-! ## The tree -/

/-- `[activeTabId ?? "no-tab", ...parts].join(":")`. -/
def treeKey (activeTabId : Option String) (parts : List String) : String :=
  parts.foldl (fun key part => key ++ ":" ++ part) (activeTabId.getD "no-tab")

/-- The connection of a key is its segment 1, or segment 2 for the row of the connection itself. -/
def connectionIdOfTreeKey (key : String) : Option String :=
  let segments := (key.toList.splitOn ':').map String.ofList
  if segments[1]? = some "connection" then segments[2]? else segments[1]?

/-- The test of `collapseConnection`. -/
def treeKeyBelongsTo (connectionId key : String) : Bool := connectionIdOfTreeKey key = some connectionId

/-- What has a key of its own below a connection. -/
inductive TreeNode where
  | connection
  | category (name : String)
  | topic (name : String)

/-- A row of the tree in a tab. The ids of connections are generated. -/
structure TreeRow where
  tab : ActiveTab
  connectionId : String
  node : TreeNode
  plain : ':' ∉ connectionId.toList ∧ connectionId ≠ "connection"

/-- What the key of a node has behind the tab. -/
def TreeNode.parts (connectionId : String) : TreeNode → List String
  | .connection => ["connection", connectionId]
  | .category name => [connectionId, name]
  | .topic name => [connectionId, "topic", name]

/-- Where the tree keeps what is open, searched and hidden at the row. -/
def TreeRow.key (row : TreeRow) : String := treeKey row.tab.id (row.node.parts row.connectionId)

theorem colon_notMem_tab (tab : ActiveTab) : ':' ∉ (tab.id.getD "no-tab").toList := by
  rcases tab with ⟨_ | id, plain⟩
  · show ':' ∉ "no-tab".toList
    decide
  · exact (plain id rfl).1

theorem connectionIdOfTreeKey_of {key connectionId : String} (tab : ActiveTab) (rest : List Char)
    (hcolon : ':' ∉ connectionId.toList) (hid : connectionId ≠ "connection")
    (hkey : key.toList = (tab.id.getD "no-tab").toList ++ ':' :: (connectionId.toList ++ ':' :: rest)) :
    connectionIdOfTreeKey key = some connectionId := by
  rw [connectionIdOfTreeKey, hkey, List.splitOn_append_cons_self_of_not_mem (colon_notMem_tab tab),
    List.splitOn_append_cons_self_of_not_mem hcolon]
  simp [hid]

/-- **The connection of a row is read back from its key**, whatever its topic is called. -/
theorem connectionIdOfTreeKey_key (row : TreeRow) : connectionIdOfTreeKey row.key = some row.connectionId := by
  obtain ⟨tab, id, node, hcolon, hid⟩ := row
  cases node with
  | connection =>
    have hkey : (treeKey tab.id ["connection", id]).toList =
        (tab.id.getD "no-tab").toList ++ ':' :: ("connection".toList ++ ':' :: id.toList) := by
      simp [treeKey]
    have hfirst : ':' ∉ "connection".toList := by decide
    show connectionIdOfTreeKey (treeKey tab.id ["connection", id]) = some id
    rw [connectionIdOfTreeKey, hkey, List.splitOn_append_cons_self_of_not_mem (colon_notMem_tab tab),
      List.splitOn_append_cons_self_of_not_mem hfirst, List.splitOn_eq_singleton hcolon]
    simp
  | category name =>
    refine connectionIdOfTreeKey_of tab name.toList hcolon hid ?_
    simp [TreeRow.key, TreeNode.parts, treeKey]
  | topic name =>
    refine connectionIdOfTreeKey_of tab ("topic".toList ++ ':' :: name.toList) hcolon hid ?_
    simp [TreeRow.key, TreeNode.parts, treeKey]

theorem treeKeyBelongsTo_key (row : TreeRow) (connectionId : String) :
    treeKeyBelongsTo connectionId row.key = true ↔ row.connectionId = connectionId := by
  rw [treeKeyBelongsTo, connectionIdOfTreeKey_key, decide_eq_true_iff, Option.some.injEq]

/-! ## The stores -/

/-- The arrangement of a grid; what it sorts and filters by is the grid's own. -/
structure DataTabGridState (σ φ : Type) where
  sortModel : List σ := []
  filterModel : Record String φ := ∅
  searchText : String := ""

/-- A patch, with what it does not mention left out. -/
structure GridPatch (σ φ : Type) where
  sortModel : Option (List σ) := none
  filterModel : Option (Record String φ) := none
  searchText : Option String := none

/-- The fields that a patch names take its values. -/
def DataTabGridState.patch {σ φ : Type} (state : DataTabGridState σ φ) (patch : GridPatch σ φ) :
    DataTabGridState σ φ where
  sortModel := patch.sortModel.getD state.sortModel
  filterModel := patch.filterModel.getD state.filterModel
  searchText := patch.searchText.getD state.searchText

/-- A query key by its root, its second element and the rest. -/
structure QueryKey where
  root : String
  id : Option String := none
  rest : List String := []
  deriving DecidableEq

/-- The roots of what has been read from a cluster. -/
def clusterDataQueryRoots : List String :=
  ["brokers", "topics", "consumer-groups", "partitions", "topic-config", "topic-schema", "full-payload"]

/-- The predicate of `removeQueries`. -/
def queryBelongsTo (connectionId : String) (key : QueryKey) : Bool :=
  key.root ∈ clusterDataQueryRoots ∧ key.id = some connectionId

variable {σ φ δ : Type}

/-- The stores that are cleared, and the query cache; `σ`, `φ` and `δ` are what grids sort and filter by and what queries have read. -/
structure Contents (σ φ δ : Type) where
  expanded : Record String Bool := ∅
  searchText : Record String String := ∅
  hideEmptyConsumerGroups : Record String Bool := ∅
  stores : Stores := Workspace.start
  tabData : TabDataState := {}
  formByTab : Record String FilterFormState := ∅
  stateByTab : Record String (DataTabGridState σ φ) := ∅
  messagesByTab : DraftStore := ∅
  queries : Record QueryKey δ := ∅

/-- What is done to the cached rows of a view. -/
inductive TabDataOp where
  | setTabMessages (messages : List TopicMessage) (now : ℕ)
  | setTabPayloadBytes (bytes : ℤ)
  | addTabPayloadBytes (bytes : ℤ)
  | setTabTotalMatching (totalMatching : ℕ)
  | setTabFetchDurationMs (durationMs : ℕ)
  | appendTabMessage (message : TopicMessage)
  | appendTabMessages (messages : List TopicMessage) (now : ℕ)
  | touchTab (now : ℕ)

/-- What the operation does to the view of a key. -/
def TabDataOp.apply (state : TabDataState) (key : String) : TabDataOp → TabDataState
  | .setTabMessages messages now => state.setTabMessages key messages now
  | .setTabPayloadBytes bytes => state.setTabPayloadBytes key bytes
  | .addTabPayloadBytes bytes => state.addTabPayloadBytes key bytes
  | .setTabTotalMatching totalMatching => state.setTabTotalMatching key totalMatching
  | .setTabFetchDurationMs durationMs => state.setTabFetchDurationMs key durationMs
  | .appendTabMessage message => state.appendTabMessage key message
  | .appendTabMessages messages now => state.appendTabMessages key messages now
  | .touchTab now => state.touchTab key now

/-- What is done to the stores and to the query cache. -/
inductive Event (σ φ δ : Type) where
  | toggleExpanded (row : TreeRow)
  | setSearchText (row : TreeRow) (value : String)
  | toggleHideEmptyConsumerGroups (row : TreeRow)
  | store (op : StoreOp)
  | tabData (view : DataView) (op : TabDataOp)
  | clearTabMessages (view : DataView)
  | clearAllMessagesForTab (tab : ActiveTab)
  | evictToFit (limitBytes : ℤ) (view : DataView)
  | setForm (view : DataView) (form : FilterFormState)
  | patchState (view : DataView) (patch : GridPatch σ φ)
  | setDraft (view : DataView) (messages : List DraftMessage)
  | resetDraft (view : DataView) (nextId : ℕ)
  /-- A query has been answered. -/
  | setQueryData (key : QueryKey) (data : δ)
  | clearConnectionState (connectionId : String)

namespace Contents

variable (s : Contents σ φ δ)

/-- `!record[key]`, where there may be nothing. -/
def toggle (record : Record String Bool) (key : String) : Record String Bool :=
  record.set key (!(record.get? key).getD false)

/-- Every store forgets the connection, and the queries of its cluster are removed. -/
def clearConnectionState (connectionId : String) : Contents σ φ δ where
  expanded := s.expanded.keep fun key => !treeKeyBelongsTo connectionId key
  searchText := s.searchText.keep fun key => !treeKeyBelongsTo connectionId key
  hideEmptyConsumerGroups := s.hideEmptyConsumerGroups.keep fun key => !treeKeyBelongsTo connectionId key
  stores := (s.stores.step (.selection (.clearForConnection connectionId))).step
    (.viewer (.clearForConnection connectionId))
  tabData := s.tabData.clearForConnection connectionId
  formByTab := s.formByTab.keep fun key => !dataTabKeyBelongsTo key connectionId
  stateByTab := s.stateByTab.keep fun key => !dataTabKeyBelongsTo key connectionId
  messagesByTab := s.messagesByTab.clearForConnection connectionId
  queries := s.queries.keep fun key => !queryBelongsTo connectionId key

/-- The contents after an event. -/
def step : Event σ φ δ → Contents σ φ δ
  | .toggleExpanded row => { s with expanded := toggle s.expanded row.key }
  | .setSearchText row value => { s with searchText := s.searchText.set row.key value }
  | .toggleHideEmptyConsumerGroups row =>
    { s with hideEmptyConsumerGroups := toggle s.hideEmptyConsumerGroups row.key }
  | .store op => { s with stores := s.stores.step op }
  | .tabData view op => { s with tabData := op.apply s.tabData view.key }
  | .clearTabMessages view => { s with tabData := s.tabData.clearTabMessages view.key }
  | .clearAllMessagesForTab tab => { s with tabData := s.tabData.clearAllMessagesForTab tab.id }
  | .evictToFit limitBytes view => { s with tabData := (s.tabData.evictToFit limitBytes view.key).1 }
  | .setForm view form => { s with formByTab := s.formByTab.set view.key form }
  | .patchState view patch =>
    { s with stateByTab := s.stateByTab.set view.key (((s.stateByTab.get? view.key).getD {}).patch patch) }
  | .setDraft view messages => { s with messagesByTab := s.messagesByTab.set view.key messages }
  | .resetDraft view nextId => { s with messagesByTab := s.messagesByTab.reset view.key nextId }
  | .setQueryData key data => { s with queries := s.queries.set key data }
  | .clearConnectionState connectionId => s.clearConnectionState connectionId

end Contents

/-! ## What is written for a connection -/

/-- The operation selects something of the connection. -/
def SelectionOp.Writes (connectionId : String) : SelectionOp → Prop
  | .selectConnection id _ | .selectBroker id _ | .selectTopic id _ | .selectPartition id _ _
  | .selectConsumerGroup id _ => id = connectionId
  | .setActiveTab _ | .clearSelection | .clearTabMemory _ | .clearForConnection _ => False

/-- The operation opens a message of the connection. -/
def ViewerOp.Writes (connectionId : String) : ViewerOp → Prop
  | .viewMessage _ id _ _ => id = connectionId
  | .setActiveTab _ | .setFullPayload _ | .clear | .clearTabMemory _ | .clearForConnection _ => False

/-- The event puts something of this connection into a store. -/
def Event.Writes (connectionId : String) : Event σ φ δ → Prop
  | .toggleExpanded row | .setSearchText row _ | .toggleHideEmptyConsumerGroups row =>
    row.connectionId = connectionId
  | .store (.selection op) => SelectionOp.Writes connectionId op
  | .store (.viewer op) => ViewerOp.Writes connectionId op
  | .tabData view _ | .setForm view _ | .patchState view _ | .setDraft view _ | .resetDraft view _ =>
    view.connectionId = connectionId
  | .setQueryData key _ => queryBelongsTo connectionId key = true
  | .clearTabMessages _ | .clearAllMessagesForTab _ | .evictToFit _ _ | .clearConnectionState _ => False

/-- The stores that are cleared, and the queries of cluster data, hold nothing of this connection. -/
structure Forgotten (connectionId : String) (s : Contents σ φ δ) : Prop where
  expanded : s.expanded.Lacks (treeKeyBelongsTo connectionId)
  searchText : s.searchText.Lacks (treeKeyBelongsTo connectionId)
  hideEmptyConsumerGroups : s.hideEmptyConsumerGroups.Lacks (treeKeyBelongsTo connectionId)
  selection : s.stores.selection.ClearOf selectionKind connectionId
  viewer : s.stores.viewer.ClearOf viewerKind connectionId
  tabData : ∀ view : DataView, view.connectionId = connectionId → s.tabData.Absent view.key
  formByTab : s.formByTab.Lacks fun key => dataTabKeyBelongsTo key connectionId
  stateByTab : s.stateByTab.Lacks fun key => dataTabKeyBelongsTo key connectionId
  messagesByTab : s.messagesByTab.Lacks fun key => dataTabKeyBelongsTo key connectionId
  queries : s.queries.Lacks (queryBelongsTo connectionId)

/-- What is not of this connection is as it was. -/
structure SameBut (connectionId : String) (s t : Contents σ φ δ) : Prop where
  expanded : ∀ key, treeKeyBelongsTo connectionId key = false → t.expanded.get? key = s.expanded.get? key
  searchText : ∀ key, treeKeyBelongsTo connectionId key = false → t.searchText.get? key = s.searchText.get? key
  hideEmptyConsumerGroups : ∀ key, treeKeyBelongsTo connectionId key = false →
    t.hideEmptyConsumerGroups.get? key = s.hideEmptyConsumerGroups.get? key
  selection : ∀ tabId, selectionKind.belongs connectionId (s.stores.selection.slot tabId) = false →
    t.stores.selection.slot tabId = s.stores.selection.slot tabId
  viewer : ∀ tabId, viewerKind.belongs connectionId (s.stores.viewer.slot tabId) = false →
    t.stores.viewer.slot tabId = s.stores.viewer.slot tabId
  tabData : ∀ key, dataTabKeyBelongsTo key connectionId = false → s.tabData.SameView t.tabData key
  formByTab : ∀ key, dataTabKeyBelongsTo key connectionId = false → t.formByTab.get? key = s.formByTab.get? key
  stateByTab : ∀ key, dataTabKeyBelongsTo key connectionId = false → t.stateByTab.get? key = s.stateByTab.get? key
  messagesByTab : ∀ key, dataTabKeyBelongsTo key connectionId = false →
    t.messagesByTab.get? key = s.messagesByTab.get? key
  queries : ∀ key, queryBelongsTo connectionId key = false → t.queries.get? key = s.queries.get? key

variable {s : Contents σ φ δ} {connectionId : String}

theorem forgotten_clearConnectionState (s : Contents σ φ δ) (connectionId : String) :
    Forgotten connectionId (s.clearConnectionState connectionId) where
  expanded := Record.lacks_keep _ _
  searchText := Record.lacks_keep _ _
  hideEmptyConsumerGroups := Record.lacks_keep _ _
  selection := Mirrored.clearOf_forgetWhere selectionKind s.stores.selection connectionId
  viewer := Mirrored.clearOf_forgetWhere viewerKind s.stores.viewer connectionId
  tabData := by
    intro view hview
    refine TabDataState.absent_keep ?_
    rw [(DataTab.dataTabKeyBelongsTo_key view connectionId).mpr hview]
    rfl
  formByTab := Record.lacks_keep _ _
  stateByTab := Record.lacks_keep _ _
  messagesByTab := Record.lacks_keep _ _
  queries := Record.lacks_keep _ _

theorem sameBut_clearConnectionState (s : Contents σ φ δ) (connectionId : String) :
    SameBut connectionId s (s.clearConnectionState connectionId) where
  expanded := fun _ => Record.get?_keep_not _
  searchText := fun _ => Record.get?_keep_not _
  hideEmptyConsumerGroups := fun _ => Record.get?_keep_not _
  selection := by
    intro tabId h
    refine (Mirrored.slot_forgetWhere selectionKind s.stores.selection connectionId tabId).trans ?_
    rw [h]
    rfl
  viewer := by
    intro tabId h
    refine (Mirrored.slot_forgetWhere viewerKind s.stores.viewer connectionId tabId).trans ?_
    rw [h]
    rfl
  tabData := by
    intro key h
    refine TabDataState.sameView_keep ?_
    rw [h]
    rfl
  formByTab := fun _ h => Record.get?_keep_not s.formByTab h
  stateByTab := fun _ h => Record.get?_keep_not s.stateByTab h
  messagesByTab := fun _ h => Record.get?_keep_not s.messagesByTab h
  queries := fun _ => Record.get?_keep_not _

/-! ## One step -/

theorem belongsTo_key_eq_false {view : DataView} (h : view.connectionId ≠ connectionId) :
    dataTabKeyBelongsTo view.key connectionId = false :=
  Bool.eq_false_of_not_eq_true fun hbelongs => h ((DataTab.dataTabKeyBelongsTo_key view connectionId).mp hbelongs)

theorem treeBelongsTo_key_eq_false {row : TreeRow} (h : row.connectionId ≠ connectionId) :
    treeKeyBelongsTo connectionId row.key = false :=
  Bool.eq_false_of_not_eq_true fun hbelongs => h ((treeKeyBelongsTo_key row connectionId).mp hbelongs)

theorem avoids_selection {op : SelectionOp} (h : ¬ SelectionOp.Writes connectionId op) :
    op.toOp.Avoids selectionKind connectionId := by
  cases op with
  | selectConnection | selectBroker | selectTopic | selectPartition | selectConsumerGroup =>
    exact beq_false_of_ne h
  | setActiveTab | clearTabMemory | clearForConnection => trivial
  | clearSelection => rfl

theorem avoids_viewer {op : ViewerOp} (h : ¬ ViewerOp.Writes connectionId op) :
    op.toOp.Avoids viewerKind connectionId := by
  cases op with
  | viewMessage message id topic partitionId =>
    exact beq_false_of_ne fun heq => h (Option.some.inj heq)
  | setFullPayload payloadBase64 => exact fun _ hv => hv
  | setActiveTab | clearTabMemory | clearForConnection => trivial
  | clear => rfl

theorem sameView_apply {state : TabDataState} {key tabId : String} (h : key ≠ tabId) (op : TabDataOp) :
    state.SameView (op.apply state tabId) key := by
  cases op with
  | setTabMessages messages now =>
    exact ⟨Record.get?_set_ne _ h _, rfl, rfl, rfl, Record.get?_set_ne _ h now, rfl⟩
  | setTabPayloadBytes bytes | addTabPayloadBytes bytes =>
    exact ⟨rfl, rfl, rfl, Record.get?_set_ne _ h _, rfl, rfl⟩
  | setTabTotalMatching totalMatching => exact ⟨rfl, Record.get?_set_ne _ h _, rfl, rfl, rfl, rfl⟩
  | setTabFetchDurationMs durationMs => exact ⟨rfl, rfl, Record.get?_set_ne _ h _, rfl, rfl, rfl⟩
  | appendTabMessage message => exact ⟨Record.get?_set_ne _ h _, rfl, rfl, rfl, rfl, rfl⟩
  | appendTabMessages messages now =>
    rw [TabDataOp.apply, TabDataState.appendTabMessages]
    split_ifs
    · exact ⟨rfl, rfl, rfl, rfl, rfl, rfl⟩
    · exact ⟨Record.get?_set_ne _ h _, rfl, rfl, rfl, Record.get?_set_ne _ h now, rfl⟩
  | touchTab now => exact ⟨rfl, rfl, rfl, rfl, Record.get?_set_ne _ h now, rfl⟩

theorem key_ne {view other : DataView} (hview : view.connectionId = connectionId)
    (hother : other.connectionId ≠ connectionId) : view.key ≠ other.key := by
  intro heq
  rw [DataTab.key_injective heq] at hview
  exact hother hview

/-- **One step** that writes nothing for a forgotten connection leaves it forgotten. -/
theorem forgotten_step (h : Forgotten connectionId s) {e : Event σ φ δ} (he : ¬ e.Writes connectionId) :
    Forgotten connectionId (s.step e) := by
  cases e with
  | toggleExpanded row =>
    exact { h with expanded := h.expanded.set (treeBelongsTo_key_eq_false he) _ }
  | setSearchText row value =>
    exact { h with searchText := h.searchText.set (treeBelongsTo_key_eq_false he) value }
  | toggleHideEmptyConsumerGroups row =>
    exact { h with hideEmptyConsumerGroups := h.hideEmptyConsumerGroups.set (treeBelongsTo_key_eq_false he) _ }
  | store op =>
    cases op with
    | selection op => exact { h with selection := h.selection.step (avoids_selection he) }
    | viewer op => exact { h with viewer := h.viewer.step (avoids_viewer he) }
  | tabData view op =>
    exact { h with tabData := fun other hother =>
      (h.tabData other hother).of_same (sameView_apply (key_ne hother he) op) }
  | clearTabMessages view =>
    refine { h with tabData := fun other hother => ?_ }
    by_cases hkey : other.key = view.key
    · show (s.tabData.clearTabMessages view.key).Absent other.key
      rw [hkey]
      constructor <;> exact Record.get?_erase_self ..
    · exact (h.tabData other hother).of_same (TabDataState.sameView_clearTabMessages hkey)
  | clearAllMessagesForTab tab =>
    exact { h with tabData := fun other hother => (h.tabData other hother).keep _ }
  | evictToFit limitBytes view =>
    exact { h with tabData := fun other hother => (h.tabData other hother).evictToFit limitBytes _ }
  | setForm view form =>
    exact { h with formByTab := h.formByTab.set (belongsTo_key_eq_false he) form }
  | patchState view patch =>
    exact { h with stateByTab := h.stateByTab.set (belongsTo_key_eq_false he) _ }
  | setDraft view messages =>
    exact { h with messagesByTab := h.messagesByTab.set (belongsTo_key_eq_false he) messages }
  | resetDraft view nextId =>
    exact { h with messagesByTab := h.messagesByTab.set (belongsTo_key_eq_false he) _ }
  | setQueryData key data =>
    exact { h with queries := h.queries.set (Bool.eq_false_of_not_eq_true he) data }
  | clearConnectionState other =>
    have hselection : Mirrored.Op.Avoids selectionKind connectionId (.forgetWhere other) := trivial
    have hviewer : Mirrored.Op.Avoids viewerKind connectionId (.forgetWhere other) := trivial
    exact {
      expanded := h.expanded.keep _
      searchText := h.searchText.keep _
      hideEmptyConsumerGroups := h.hideEmptyConsumerGroups.keep _
      selection := h.selection.step hselection
      viewer := h.viewer.step hviewer
      tabData := fun view hview => (h.tabData view hview).keep _
      formByTab := h.formByTab.keep _
      stateByTab := h.stateByTab.keep _
      messagesByTab := h.messagesByTab.keep _
      queries := h.queries.keep _ }

/-! ## Whole runs -/

/-- The contents after events since the start of the app. -/
def afterEvents (es : List (Event σ φ δ)) : Contents σ φ δ := es.foldl Contents.step {}

theorem afterEvents_append (es later : List (Event σ φ δ)) :
    afterEvents (es ++ later) = later.foldl Contents.step (afterEvents es) := List.foldl_append ..

theorem forgotten_run {later : List (Event σ φ δ)} (h : Forgotten connectionId s)
    (hlater : ∀ e ∈ later, ¬ e.Writes connectionId) : Forgotten connectionId (later.foldl Contents.step s) := by
  induction later generalizing s with
  | nil => exact h
  | cons e later ih =>
    exact ih (forgotten_step h (hlater e List.mem_cons_self)) fun f hf =>
      hlater f (List.mem_cons_of_mem e hf)

/-- **What a session that has ended leaves behind.** In whatever state the app is when the session of a connection
ends, nothing of that connection is left in any tab of the stores that are cleared or under the roots of cluster
data, and it does not come back with what is done for other connections, for tabs or for memory; whatever belongs
to another connection stays as it is, and so does every query of another root. A key belongs to the connection of
its row or view, for every name of a topic. -/
theorem disconnect_forgets (es later : List (Event σ φ δ)) (connectionId : String)
    (hlater : ∀ e ∈ later, ¬ e.Writes connectionId) :
    Forgotten connectionId (afterEvents (es ++ .clearConnectionState connectionId :: later)) ∧
      SameBut connectionId (afterEvents es) (afterEvents (es ++ [.clearConnectionState connectionId])) ∧
      (∀ row : TreeRow, treeKeyBelongsTo connectionId row.key = true ↔ row.connectionId = connectionId) ∧
      ∀ view : DataView, dataTabKeyBelongsTo view.key connectionId = true ↔ view.connectionId = connectionId := by
  refine ⟨?_, ?_, fun row => treeKeyBelongsTo_key row connectionId,
    fun view => DataTab.dataTabKeyBelongsTo_key view connectionId⟩
  · rw [afterEvents_append, List.foldl_cons]
    exact forgotten_run (forgotten_clearConnectionState _ connectionId) hlater
  · rw [afterEvents_append]
    exact sameBut_clearConnectionState _ connectionId

/-! ## Two clusters -/

theorem plain_firstTab : ∀ tab ∈ some "tab-1", ':' ∉ tab.toList ∧ tab ≠ "unassigned" := by
  intro tab h
  cases h
  decide

/-- The ids of the fixtures have no colon. -/
def firstTab : ActiveTab := ⟨some "tab-1", plain_firstTab⟩

/-- A topic with a colon in its name, of the connection that goes. -/
def topicRow : TreeRow := ⟨firstTab, "gone", .topic "orders:v1", by decide⟩

/-- A row of the connection that stays. -/
def keptRow : TreeRow := ⟨firstTab, "kept", .category "Topics", by decide⟩

/-- Both clusters are browsed in the first tab. -/
def browsing : List (Event Unit Unit Unit) :=
  [.store (.selection (.setActiveTab (some "tab-1"))), .toggleExpanded topicRow, .toggleExpanded keptRow,
    .store (.selection (.selectTopic "gone" "orders:v1")), .setQueryData ⟨"topics", some "gone", []⟩ ()]

/-- The other cluster is browsed on. -/
def afterwards : List (Event Unit Unit Unit) :=
  [.store (.selection (.setActiveTab (some "tab-2"))), .store (.selection (.setActiveTab (some "tab-1"))),
    .toggleExpanded keptRow, .setQueryData ⟨"topics", some "kept", []⟩ ()]

theorem browsing_forgotten :
    Forgotten "gone" (afterEvents (browsing ++ .clearConnectionState "gone" :: afterwards)) ∧
      SameBut "gone" (afterEvents browsing) (afterEvents (browsing ++ [.clearConnectionState "gone"])) ∧
      (∀ row : TreeRow, treeKeyBelongsTo "gone" row.key = true ↔ row.connectionId = "gone") ∧
      ∀ view : DataView, dataTabKeyBelongsTo view.key "gone" = true ↔ view.connectionId = "gone" := by
  refine disconnect_forgets browsing afterwards "gone" fun e he => ?_
  simp only [afterwards, List.mem_cons, List.not_mem_nil, or_false] at he
  obtain rfl | rfl | rfl | rfl := he
  · exact not_false
  · exact not_false
  · show ¬ "kept" = "gone"
    decide
  · show ¬ queryBelongsTo "gone" ⟨"topics", some "kept", []⟩ = true
    decide

end OffsetExplorer.ClusterDisconnect
