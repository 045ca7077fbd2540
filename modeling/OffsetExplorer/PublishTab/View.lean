import OffsetExplorer.PublishTab.Draft
import OffsetExplorer.Lib.Machine

/-!
# The Publish tab component

The workspace as far as publishing goes: the Publish tab that is on screen, if there is one, the
draft store, and the publishes that the back end has not answered. One workspace tab is on screen at
a time, so at most one Publish tab is. A mutation runs its option callbacks when it settles, also
after its component is gone; while it is pending a render of the component that started it replaces
its options, and a component that is mounted anew starts with an idle mutation.

* `View`, `Mutation`, `Workspace`: the component, a publish in flight, and what holds them.
* `step`: the machine.
-/

namespace OffsetExplorer.PublishTab

/-- The props of the component, and the workspace tab around it. -/
structure Target where
  activeTabId : Option String
  connectionId : String
  topicName : String
  partitionId : ℤ
  deriving DecidableEq

/-- Where the rows for the target are kept. -/
def Target.draftKey (t : Target) : String :=
  DataTab.dataTabCacheKey t.activeTabId t.connectionId t.topicName (some t.partitionId)

/-- The mutation that a component observes. -/
inductive PublishState where
  | idle
  | pending (id : ℕ)
  | success
  | error (message : String)

/-- An answer is waited for. -/
def PublishState.isPending : PublishState → Bool
  | .pending _ => true
  | _ => false

/-- One mounted component; `mount` tells the instances apart. -/
structure View where
  mount : ℕ
  target : Target
  blank : List DraftMessage
  confirming : Bool := false
  outcome : Option PublishOutcome := none
  publish : PublishState := .idle
  openSelectors : List Slot := []

/-- A publish in flight: which instance started it, where and what it sent, and the draft key that
its option callbacks close over. -/
structure Mutation where
  id : ℕ
  owner : ℕ
  sent : Target
  messages : List NewPublishMessage
  optionsKey : String

/-- What the gates of the component look at. -/
structure Gates where
  /-- `allowPublishing` of the connection, if the connection is there. -/
  allowPublishing : Option Bool
  isConnected : Bool
  deniedReason : Option String

/-- Whether the component shows the form; an empty reason is falsy and denies nothing. -/
def Gates.showsForm (g : Gates) : Bool :=
  g.allowPublishing = some true && g.isConnected && (g.deniedReason.getD "").isEmpty

/-- The tab, if it is on the screen, with the drafts and the calls that outlive it. -/
structure Workspace where
  gates : Gates
  drafts : DraftStore := ∅
  tab : Option View := none
  mutations : List Mutation := []
  /-- Counters of local ids, mounts and mutations. -/
  nextId : ℕ := 0
  mounts : ℕ := 0
  calls : ℕ := 0

namespace Workspace

variable (w : Workspace)

/-- The draft that a tab shows. -/
def messages (t : View) : List DraftMessage := (w.drafts.get? t.target.draftKey).getD t.blank

/-- The rows are written to the drafts. -/
def setMessages (t : View) (messages : List DraftMessage) : Workspace :=
  { w with drafts := w.drafts.set t.target.draftKey messages }

/-- Mounted: an idle mutation, nothing confirmed, and a blank message of its own. -/
def mount (target : Target) : Workspace :=
  { w with
    tab := some { mount := w.mounts, target, blank := [emptyMessage w.nextId] }
    nextId := w.nextId + 1
    mounts := w.mounts + 1 }

/-- Rendered with other props: the state stays, and so does the mutation, but with the options of
this render. The rows of another draft have other ids, so their selectors are new and closed. -/
def retarget (t : View) (target : Target) : Workspace :=
  let sameDraft : Bool := target.draftKey = t.target.draftKey
  { w with
    tab := some { t with
      target
      blank := if sameDraft then t.blank else [emptyMessage w.nextId]
      openSelectors := if sameDraft then t.openSelectors else [] }
    nextId := if sameDraft then w.nextId else w.nextId + 1
    mutations := w.mutations.map fun m =>
      if m.owner = t.mount then { m with optionsKey := target.draftKey } else m }

/-- `setMessages` with the result of an edit. -/
def edit (t : View) (e : Edit) : Option Workspace :=
  (e.apply (w.messages t) w.nextId).map fun (messages, nextId) =>
    { w.setMessages t messages with nextId }

/-- `publish.mutate()`. -/
def mutate (t : View) : Workspace :=
  { w with
    tab := some { t with publish := .pending w.calls }
    mutations := w.mutations ++
      [{ id := w.calls
         owner := t.mount
         sent := t.target
         messages := toWireMessages (w.messages t)
         optionsKey := t.target.draftKey }]
    calls := w.calls + 1 }

/-- A state change of the instance that started a mutation, if it is still mounted. -/
def updateOwner (m : Mutation) (f : View → View) : Workspace :=
  { w with tab := w.tab.map fun t => if t.mount = m.owner then f t else t }

/-- `resetMessages(key)`. -/
def resetMessages (key : String) : Workspace :=
  { w with drafts := w.drafts.reset key w.nextId, nextId := w.nextId + 1 }

/-- What the tab does with an outcome; the rows are cleared if nothing failed. -/
def onSuccess (m : Mutation) (result : PublishOutcome) : Workspace :=
  let w := w.updateOwner m fun t => { t with confirming := false, outcome := some result }
  if result.failure.isNone then w.resetMessages m.optionsKey else w

/-- What the tab does with an error: it keeps the rows. -/
def onError (m : Mutation) : Workspace :=
  w.updateOwner m fun t => { t with confirming := false }

/-- The answer of a publish: its option callback runs, then its observers see the new state. -/
def settle (m : Mutation) (answer : Except String PublishOutcome) : Workspace :=
  let w := { w with mutations := w.mutations.filter (·.id ≠ m.id) }
  match answer with
  | .ok result => (w.onSuccess m result).updateOwner m fun t => { t with publish := .success }
  | .error message => (w.onError m).updateOwner m fun t => { t with publish := .error message }

end Workspace

/-- What can happen next. -/
inductive Event where
  | mount (target : Target)
  | unmount
  | retarget (target : Target)
  | gate (gates : Gates)
  /-- A control of the fieldset is used. -/
  | edit (e : Edit)
  /-- The toggle button of a type selector is pressed. -/
  | toggleSelector (slot : Slot)
  /-- A press outside a selector, or Escape, closes it. -/
  | closeSelector (slot : Slot)
  /-- An option of an open type selector is chosen. -/
  | commitSelector (slot : Slot) (encoding : PayloadEncoding)
  | publish
  | cancel
  | confirm
  /-- The back end answers a publish. -/
  | settle (id : ℕ) (answer : Except String PublishOutcome)
  /-- The connection drops and its drafts are forgotten. -/
  | clearForConnection (connectionId : String)

section Step

variable (browser : Browser) (maxMessageSizeBytes : ℕ)

/-- The events of the form, on the tab that shows it. -/
def stepForm (w : Workspace) (t : View) : Event → Option Workspace
  | .edit e => if t.publish.isPending ∨ t.confirming then none else w.edit t e
  | .toggleSelector slot =>
    if t.publish.isPending ∨ t.confirming ∨ (slot.edit (w.messages t) .null).isNone then none
    else
      let openSelectors :=
        if slot ∈ t.openSelectors then t.openSelectors.erase slot else slot :: t.openSelectors
      some { w with tab := some { t with openSelectors } }
  | .closeSelector slot =>
    some { w with tab := some { t with openSelectors := t.openSelectors.erase slot } }
  -- The options are list items, which a disabled fieldset leaves enabled.
  | .commitSelector slot encoding =>
    if slot ∈ t.openSelectors then
      let closed := { t with openSelectors := t.openSelectors.erase slot }
      (slot.edit (w.messages t) encoding).bind fun e =>
        ({ w with tab := some closed } : Workspace).edit closed e
    else none
  | .publish =>
    if t.confirming ∨ t.publish.isPending ∨
        (batchProblem browser (w.messages t) maxMessageSizeBytes).isSome then none
    else some { w with tab := some { t with outcome := none, confirming := true } }
  | .cancel =>
    if t.confirming ∧ ¬ t.publish.isPending then
      some { w with tab := some { t with publish := .idle, confirming := false } }
    else none
  | .confirm => if t.confirming ∧ ¬ t.publish.isPending then some (w.mutate t) else none
  | _ => none

/-- One step of the tab. What cannot happen is `none`. -/
def step (w : Workspace) : Event → Option Workspace
  | .mount target => if w.tab.isSome then none else some (w.mount target)
  | .unmount => if w.tab.isSome then some { w with tab := none } else none
  | .retarget target => w.tab.bind fun t =>
    if target ≠ t.target ∧ target.activeTabId = t.target.activeTabId then
      some (w.retarget t target)
    else none
  | .gate gates =>
    some { w with
      gates
      tab := w.tab.map fun t => if gates.showsForm then t else { t with openSelectors := [] } }
  | .settle id answer =>
    (w.mutations.find? (·.id = id)).map fun m => w.settle m answer
  | .clearForConnection connectionId =>
    some { w with drafts := w.drafts.clearForConnection connectionId }
  | event => w.tab.bind fun t =>
    if w.gates.showsForm then stepForm browser maxMessageSizeBytes w t event else none

end Step

end OffsetExplorer.PublishTab
