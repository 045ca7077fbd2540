import OffsetExplorer.Lib.Mirrored
import OffsetExplorer.Message

/-!
# What each tab shows

Two stores keep something for each tab, and mirror what they keep for the active one: what is selected in
the connection tree, and the message in the right pane.

* `WorkspaceSelectionState`, `SelectionOp`: the selection of a tab.
* `MessageViewerState`, `ViewerOp`: the message that is viewed in a tab.
* `afterOps`: the two stores after operations on them.
* **`mirrors_inStep`**: the mirrors show the slot of the active tab, and an operation changes the slots that it
  is for.
-/

namespace OffsetExplorer.Workspace

/-- `tabId ? … : …`: the empty text is no tab. -/
def isTab (tabId : String) : Bool := tabId != ""

/-! ## The selection -/

/-- What is selected in the connection tree; `null` is `none`. -/
inductive WorkspaceSelection where
  | connection (id name : String)
  | broker (connectionId : String) (brokerId : ℤ)
  | topic (connectionId topicName : String)
  | partition (connectionId topicName : String) (partitionId : ℤ)
  | consumerGroup (connectionId groupId : String)
  deriving DecidableEq

/-- What is selected is the connection, or lies in its cluster. -/
def belongsToConnection (connectionId : String) : Option WorkspaceSelection → Bool
  | none => false
  | some (.connection id _) => id == connectionId
  | some (.broker id _) | some (.topic id _) | some (.partition id _ _) | some (.consumerGroup id _) =>
    id == connectionId

/-- The selection of each tab, and that of the active one. -/
abbrev WorkspaceSelectionState := Mirrored String WorkspaceSelection (Option WorkspaceSelection)

/-- The mirror is the slot itself. -/
def selectionKind : Mirrored.Kind String WorkspaceSelection (Option WorkspaceSelection) String where
  live := isTab
  view := id
  belongs := belongsToConnection
  shownBelongs := belongsToConnection
  empty := fun _ => rfl
  shows := fun _ _ => rfl

namespace WorkspaceSelectionState

/-- What the middle pane shows. -/
def selection (s : WorkspaceSelectionState) : Option WorkspaceSelection := s.shown

/-- The tab that is shown. -/
def activeTabId (s : WorkspaceSelectionState) : Option String := s.current

/-- What each tab has selected. -/
def byTab (s : WorkspaceSelectionState) : Record String (Option WorkspaceSelection) := s.slots

end WorkspaceSelectionState

/-- The operations of the selection store. -/
inductive SelectionOp where
  | setActiveTab (tabId : Option String)
  | selectConnection (id name : String)
  | selectBroker (connectionId : String) (brokerId : ℤ)
  | selectTopic (connectionId topicName : String)
  | selectPartition (connectionId topicName : String) (partitionId : ℤ)
  | selectConsumerGroup (connectionId groupId : String)
  | clearSelection
  | clearTabMemory (tabId : Option String)
  | clearForConnection (connectionId : String)

/-- What they are to a mirrored store. -/
def SelectionOp.toOp : SelectionOp → Mirrored.Op String WorkspaceSelection String
  | .setActiveTab tabId => .switch tabId
  | .selectConnection id name => .write (some (.connection id name))
  | .selectBroker connectionId brokerId => .write (some (.broker connectionId brokerId))
  | .selectTopic connectionId topicName => .write (some (.topic connectionId topicName))
  | .selectPartition connectionId topicName partitionId =>
    .write (some (.partition connectionId topicName partitionId))
  | .selectConsumerGroup connectionId groupId => .write (some (.consumerGroup connectionId groupId))
  | .clearSelection => .write none
  | .clearTabMemory tabId => .forget tabId
  | .clearForConnection connectionId => .forgetWhere connectionId

/-! ## The message -/

/-- A message that is viewed, and where it is from. -/
structure ViewedMessage where
  message : TopicMessage
  connectionId : String
  topic : String
  /-- The partition scope of the Data tab. -/
  partitionId : Option ℤ := none
  /-- The whole payload, once it has been fetched. -/
  fullPayloadBase64 : Option String := none
  deriving DecidableEq

/-- The fields of the store that mirror a slot. -/
structure ViewedFields where
  message : Option TopicMessage
  connectionId : Option String
  topic : Option String
  partitionId : Option ℤ
  fullPayloadBase64 : Option String
  deriving DecidableEq

/-- The fields of what is viewed, `null` where nothing is. -/
def ViewedFields.of (viewed : Option ViewedMessage) : ViewedFields where
  message := viewed.map ViewedMessage.message
  connectionId := viewed.map ViewedMessage.connectionId
  topic := viewed.map ViewedMessage.topic
  partitionId := viewed.bind ViewedMessage.partitionId
  fullPayloadBase64 := viewed.bind ViewedMessage.fullPayloadBase64

/-- The message of each tab, and the fields of that of the active one. -/
abbrev MessageViewerState := Mirrored String ViewedMessage ViewedFields

/-- Slots and mirror are told by their `connectionId`. -/
def viewerKind : Mirrored.Kind String ViewedMessage ViewedFields String where
  live := isTab
  view := ViewedFields.of
  belongs := fun connectionId viewed => viewed.map ViewedMessage.connectionId == some connectionId
  shownBelongs := fun connectionId fields => fields.connectionId == some connectionId
  empty := fun _ => rfl
  shows := fun _ _ => rfl

namespace MessageViewerState

/-- What the right pane shows. -/
def fields (s : MessageViewerState) : ViewedFields := s.shown

/-- The tab that is shown. -/
def activeTabId (s : MessageViewerState) : Option String := s.current

/-- What each tab views. -/
def byTab (s : MessageViewerState) : Record String (Option ViewedMessage) := s.slots

end MessageViewerState

/-- The operations of the viewer store. -/
inductive ViewerOp where
  | setActiveTab (tabId : Option String)
  | viewMessage (message : TopicMessage) (connectionId topic : String) (partitionId : Option ℤ)
  | setFullPayload (payloadBase64 : String)
  | clear
  | clearTabMemory (tabId : Option String)
  | clearForConnection (connectionId : String)

/-- What they are to a mirrored store. -/
def ViewerOp.toOp : ViewerOp → Mirrored.Op String ViewedMessage String
  | .setActiveTab tabId => .switch tabId
  | .viewMessage message connectionId topic partitionId =>
    .write (some { message, connectionId, topic, partitionId })
  | .setFullPayload payloadBase64 =>
    .revise fun viewed => { viewed with fullPayloadBase64 := some payloadBase64 }
  | .clear => .write none
  | .clearTabMemory tabId => .forget tabId
  | .clearForConnection connectionId => .forgetWhere connectionId

/-! ## The two stores -/

/-- The two stores. -/
structure Stores where
  selection : WorkspaceSelectionState
  viewer : MessageViewerState

/-- An operation on one of them. -/
inductive StoreOp where
  | selection (op : SelectionOp)
  | viewer (op : ViewerOp)

/-- Nothing is selected or viewed. -/
def start : Stores := ⟨.init selectionKind, .init viewerKind⟩

/-- An operation leaves the other store alone. -/
def Stores.step (s : Stores) : StoreOp → Stores
  | .selection op => { s with selection := s.selection.step selectionKind op.toOp }
  | .viewer op => { s with viewer := s.viewer.step viewerKind op.toOp }

/-- The stores behind a sequence of operations. -/
def afterOps (ops : List StoreOp) : Stores := ops.foldl Stores.step start

theorem afterOps_snoc (ops : List StoreOp) (op : StoreOp) : afterOps (ops ++ [op]) = (afterOps ops).step op := by
  rw [afterOps, List.foldl_append]
  rfl

theorem inStep_afterOps (ops : List StoreOp) :
    (afterOps ops).selection.InStep selectionKind ∧ (afterOps ops).viewer.InStep viewerKind := by
  induction ops using List.reverseRecOn with
  | nil => exact ⟨Mirrored.inStep_init selectionKind, Mirrored.inStep_init viewerKind⟩
  | append_singleton ops op ih =>
    rw [afterOps_snoc]
    cases op with
    | selection op => exact ⟨ih.1.step op.toOp, ih.2⟩
    | viewer op => exact ⟨ih.1, ih.2.step op.toOp⟩

/-- The tab that `clearTabMemory` names or else the active tab, for another operation the active tab, and for
`clearForConnection` the tabs whose slot belongs to the connection. -/
def SelectionOp.IsFor (op : SelectionOp) (s : WorkspaceSelectionState) (tabId : String) : Prop :=
  s.Touches selectionKind op.toOp tabId

@[inherit_doc SelectionOp.IsFor]
def ViewerOp.IsFor (op : ViewerOp) (s : MessageViewerState) (tabId : String) : Prop :=
  s.Touches viewerKind op.toOp tabId

/-- **After any operations on the stores** the mirrors show what is kept for the active tab; a further operation
leaves the slot of any tab that it is not for as it is, and clearing a connection empties exactly the slots that
belong to it. -/
theorem mirrors_inStep (ops : List StoreOp) :
    (∀ tabId, (afterOps ops).selection.activeTabId = some tabId → tabId ≠ "" →
      (afterOps ops).selection.selection = ((afterOps ops).selection.byTab.get? tabId).join) ∧
    (∀ tabId, (afterOps ops).viewer.activeTabId = some tabId → tabId ≠ "" →
      (afterOps ops).viewer.fields = .of ((afterOps ops).viewer.byTab.get? tabId).join) ∧
    (∀ (op : SelectionOp) (tabId : String), ¬ op.IsFor (afterOps ops).selection tabId →
      ((afterOps ops).step (.selection op)).selection.byTab.get? tabId = (afterOps ops).selection.byTab.get? tabId) ∧
    (∀ (op : ViewerOp) (tabId : String), ¬ op.IsFor (afterOps ops).viewer tabId →
      ((afterOps ops).step (.viewer op)).viewer.byTab.get? tabId = (afterOps ops).viewer.byTab.get? tabId) ∧
    (∀ connectionId tabId,
      ((afterOps ops).step (.selection (.clearForConnection connectionId))).selection.byTab.get? tabId =
        if belongsToConnection connectionId ((afterOps ops).selection.byTab.get? tabId).join then some none
        else (afterOps ops).selection.byTab.get? tabId) ∧
    ∀ connectionId tabId,
      ((afterOps ops).step (.viewer (.clearForConnection connectionId))).viewer.byTab.get? tabId =
        if ((afterOps ops).viewer.byTab.get? tabId).join.map ViewedMessage.connectionId = some connectionId
        then some none else (afterOps ops).viewer.byTab.get? tabId := by
  obtain ⟨hselection, hviewer⟩ := inStep_afterOps ops
  have hactive : ∀ {current : Option String} {tabId : String}, current = some tabId → tabId ≠ "" →
      current.filter isTab = some tabId := fun hcurrent hne =>
    Option.filter_eq_some_iff.mpr ⟨hcurrent, bne_iff_ne.mpr hne⟩
  refine ⟨fun tabId hcurrent hne => hselection tabId (hactive hcurrent hne), fun tabId hcurrent hne =>
    hviewer tabId (hactive hcurrent hne), fun op tabId hfor => Mirrored.get?_step_of_not_touches hfor,
    fun op tabId hfor => Mirrored.get?_step_of_not_touches hfor, fun connectionId tabId =>
    Mirrored.get?_forgetWhere selectionKind (afterOps ops).selection connectionId tabId,
    fun connectionId tabId => ?_⟩
  refine (Mirrored.get?_forgetWhere viewerKind (afterOps ops).viewer connectionId tabId).trans ?_
  exact if_congr (by rw [viewerKind, beq_iff_eq]; rfl) rfl rfl

/-- The bottom panel's operation can be for a tab that is not active, and under the empty text nothing is
kept. -/
theorem clearTabMemory_other_tab :
    ¬ (∀ (ops : List StoreOp) (op : SelectionOp) (tabId : String),
        (afterOps ops).selection.activeTabId ≠ none → (afterOps ops).selection.activeTabId ≠ some tabId →
        (∀ connectionId, op ≠ .clearForConnection connectionId) →
        ((afterOps ops).step (.selection op)).selection.byTab.get? tabId =
          (afterOps ops).selection.byTab.get? tabId) ∧
    ¬ ∀ (ops : List StoreOp) (tabId : String), (afterOps ops).selection.activeTabId = some tabId →
        (afterOps ops).selection.selection = ((afterOps ops).selection.byTab.get? tabId).join := by
  constructor
  · intro h
    have hsame := h
      [.selection (.setActiveTab (some "tab-1")), .selection (.selectTopic "conn-1" "orders"),
        .selection (.setActiveTab (some "tab-2"))]
      (.clearTabMemory (some "tab-1")) "tab-1" (by decide +kernel) (by decide +kernel) (fun _ => nofun)
    revert hsame
    decide +kernel
  · intro h
    have hsame := h
      [.selection (.setActiveTab (some "")), .selection (.selectTopic "conn-1" "orders")] "" rfl
    revert hsame
    decide +kernel

end OffsetExplorer.Workspace
