import OffsetExplorer.DataTab.View

/-!
# The window around the Data tab

All `DataTab` components that were ever mounted, over the one store they share, with the per-row
payload fetches that are still under way and the callers outside the component that clear rows.

* `App.patchRow`: `fetchPayloadForRow` from its answer on.
* `Window`, `Action`, `Window.step`: the machine. An unmounted component settles its calls and lets
  its timers run out; an answer may come at any later time.
-/

namespace OffsetExplorer.DataTab

/-- Whether a message is the one at the partition and offset of a row. -/
def sameRow (row m : TopicMessage) : Bool := m.partition = row.partition ∧ m.offset = row.offset

/-- The bytes a row holds; `null` weighs what the empty text does. -/
def rowBytes (m : TopicMessage) : ℤ := base64DecodedLength (m.payloadBase64.getD "")

/-- `fetchPayloadForRow` from the answer of its call on: charge the change, replace the row. -/
def App.patchRow (a : App) (tabKey : String) (row : TopicMessage) (result : MessageFetchResult)
    (now : ℕ) : App :=
  match result.messages.find? (sameRow row) with
  | none => a
  | some updated =>
    let current := a.store.messages tabKey
    let replaced := current.find? (sameRow row)
    let store := a.store.addTabPayloadBytes tabKey
      (rowBytes updated - (replaced.map rowBytes).getD (base64DecodedLength ""))
    let store := store.setTabMessages tabKey
      (current.map fun m => if sameRow row m then updated else m) now
    ({ a with store } : App).enforceRetentionLimit tabKey

/-- What the answer of a row fetch does: a failure leaves everything as it is. -/
def App.settleRow (a : App) (tabKey : String) (row : TopicMessage)
    (answer : Except String MessageFetchResult) (now : ℕ) : App :=
  match answer with
  | .ok result => a.patchRow tabKey row result now
  | .error _ => a

/-- The component when it goes away: its fetch is stopped and its listener is gone. -/
def App.unmount (a : App) : App := { a.stopActiveFetch with events := [] }

/-- What still reaches a component that has gone away. -/
def Event.outlivesView : Event → Bool
  | .emitBatch .. | .respond .. | .deliverResponse .. | .timer _ => true
  | .play _ | .reject _ | .stop | .retarget .. | .deliverEvent .. => false

/-- A component that is or was mounted. -/
structure Tab where
  app : App
  mounted : Bool

/-- A call of `fetchPayloadForRow`, with what its closure holds on to. -/
structure RowFetch where
  tab : ℕ
  tabKey : String
  row : TopicMessage

/-- The store, the setting and everything that writes to them. -/
structure Window where
  store : TabDataState := {}
  maxTotalFetchBytes : ℤ
  tabs : List Tab := []
  rowFetches : List RowFetch := []

namespace Window

variable (w : Window)

/-- A component as it sees the window: the store and the setting are those of now. -/
def app (i : ℕ) : Option App :=
  w.tabs[i]?.map fun tab =>
    { tab.app with store := w.store, maxTotalFetchBytes := w.maxTotalFetchBytes }

/-- Take back a component and the store it has written to. -/
def put (i : ℕ) (a : App) : Window :=
  { w with
    store := a.store
    tabs := w.tabs.modify i fun tab => { tab with app := a } }

/-- The tab is on the screen. -/
def isMounted (i : ℕ) : Bool := (w.tabs[i]?.map Tab.mounted).getD false

end Window

/-- What can happen next in the window. -/
inductive Action where
  /-- A component is rendered anew; looking at a view counts as using it. -/
  | mount (tabKey : String) (now : ℕ)
  | unmount (tab : ℕ)
  | view (tab : ℕ) (event : Event)
  /-- "Fetch payload" is clicked on a row. -/
  | fetchPayload (tab : ℕ) (row : TopicMessage)
  /-- The call of a row fetch comes back. -/
  | payloadAnswer (call : ℕ) (answer : Except String MessageFetchResult) (now : ℕ)
  /-- "Clear memory" is clicked, or a workspace tab is deleted. -/
  | clearAllMessagesForTab (activeTabId : Option String)
  /-- A connection goes away. -/
  | clearForConnection (connectionId : String)
  /-- The setting is changed. -/
  | setMaxTotalFetchBytes (bytes : ℤ)

namespace Window

/-- One step of the window: a tab comes or goes, or one of them takes a step with the shared store. -/
def step (w : Window) : Action → Option Window
  | .mount tabKey now =>
    let app := mounted tabKey w.store w.maxTotalFetchBytes
    some { w with
      store := w.store.touchTab tabKey now
      tabs := w.tabs ++ [{ app, mounted := true }] }
  | .unmount i =>
    if w.isMounted i then
      (w.app i).map fun a =>
        let w := w.put i a.unmount
        { w with tabs := w.tabs.modify i fun tab => { tab with mounted := false } }
    else none
  | .view i event =>
    if w.isMounted i || event.outlivesView then
      (w.app i).bind fun a => (DataTab.step a event).map (w.put i)
    else none
  | .fetchPayload i row =>
    if w.isMounted i then
      (w.app i).map fun a =>
        { w with rowFetches := w.rowFetches ++ [{ tab := i, tabKey := a.view.tabKey, row }] }
    else none
  | .payloadAnswer j answer now =>
    w.rowFetches[j]?.bind fun call =>
      (w.app call.tab).map fun a =>
        ({ w with rowFetches := w.rowFetches.eraseIdx j } : Window).put call.tab
          (a.settleRow call.tabKey call.row answer now)
  | .clearAllMessagesForTab activeTabId =>
    some { w with store := w.store.clearAllMessagesForTab activeTabId }
  | .clearForConnection connectionId =>
    some { w with store := w.store.clearForConnection connectionId }
  | .setMaxTotalFetchBytes maxTotalFetchBytes => some { w with maxTotalFetchBytes }

/-- The window when the app starts: nothing is cached. -/
def opened (maxTotalFetchBytes : ℤ) : Window where
  maxTotalFetchBytes := maxTotalFetchBytes

end Window

end OffsetExplorer.DataTab
