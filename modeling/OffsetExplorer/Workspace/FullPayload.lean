import OffsetExplorer.DataTab.Store
import OffsetExplorer.Lib.Machine
import OffsetExplorer.Workspace.Stores

/-!
# The full payload of the message that is viewed

A row of the grid holds the beginning of a large payload. The viewer of such a message fetches the whole of
it, and an effect of the rendering that has it puts it into the slot of the active tab.

* `Rendering`: what the viewer shows, from the store and the query cache, and what its effect remembers.
* `Viewer.step`: operations on the store, renderings, their effects, and fetches that end.
* `OwnPayload`: a full payload in a slot is that of the slot's message.
* `InTime`: an effect finds the message in the slot that was rendered; `inTime_of_prompt`: it does where it has
  run before another message is opened or a tab is made active.
* **`ownPayload_of_allSteps`**: what is kept where the effects are in time.
-/

namespace OffsetExplorer.Workspace

open Machine

/-! ## What is fetched -/

/-- The key of a query for a full payload. -/
structure PayloadKey where
  connectionId : String
  topic : String
  partition : ℤ
  offset : ℤ
  deriving DecidableEq

/-- The key under which the whole payload of the message is fetched. -/
def ViewedMessage.key (viewed : ViewedMessage) : PayloadKey where
  connectionId := viewed.connectionId
  topic := viewed.topic
  partition := viewed.message.partition
  offset := viewed.message.offset

/-- The key that the viewer gives to `useFullPayload`, if a message is shown. -/
def ViewedFields.key? (fields : ViewedFields) : Option PayloadKey := do
  let connectionId ← fields.connectionId
  let topic ← fields.topic
  let message ← fields.message
  return { connectionId, topic, partition := message.partition, offset := message.offset }

/-- The row has fewer bytes than the message. -/
def isPayloadTruncated : Option String → Option ℕ → Bool
  | some payloadBase64, some payloadSizeBytes => DataTab.base64DecodedLength payloadBase64 < payloadSizeBytes
  | _, _ => false

/-- What the broker has: the payload of a message. -/
abbrev Log := PayloadKey → Option String

/-- The messages that are fetched under a key are those of its topic. -/
def RightAnswer (log : Log) (key : PayloadKey) (messages : List TopicMessage) : Prop :=
  ∀ m ∈ messages, m.payloadBase64 = log { key with partition := m.partition, offset := m.offset }

instance (log : Log) (key : PayloadKey) (messages : List TopicMessage) :
    Decidable (RightAnswer log key messages) :=
  inferInstanceAs (Decidable (∀ m ∈ messages, _ = _))

/-! ## Renderings -/

/-- A rendering of the viewer: what it reads from the store, and the data of the query with its key. -/
structure Rendering where
  fields : ViewedFields
  data : Option (List TopicMessage)

namespace Rendering

variable (r : Rendering)

/-- The payload that the slot has. -/
def rememberedPayloadBase64 : Option String := r.fields.fullPayloadBase64

/-- The message of the data that has the partition and the offset of the one that is shown. -/
def found : Option TopicMessage := do
  let message ← r.fields.message
  let messages ← r.data
  messages.find? fun m => m.partition == message.partition && m.offset == message.offset

/-- The payload that is shown: the remembered one, or else that of the query. -/
def fetchedPayloadBase64 : Option String :=
  r.rememberedPayloadBase64.or (r.found.bind TopicMessage.payloadBase64)

/-- The query is enabled. -/
def needsFullPayload : Bool :=
  isPayloadTruncated (r.fields.message.bind TopicMessage.payloadBase64)
    (r.fields.message.bind TopicMessage.payloadSizeBytes) && r.rememberedPayloadBase64.isNone

/-- The dependencies of the effect. -/
def deps : Option String × Option String := (r.fetchedPayloadBase64, r.rememberedPayloadBase64)

/-- What the effect hands to `setFullPayload`. -/
def toRemember : Option String :=
  if r.rememberedPayloadBase64 = none then r.fetchedPayloadBase64 else none

end Rendering

/-- The store, the queries, and the effect that waits. -/
structure Viewer where
  store : MessageViewerState
  /-- The data of queries. -/
  cache : PayloadKey → Option (List TopicMessage)
  fetching : List PayloadKey
  /-- The rendering whose effect has yet to run. -/
  effect : Option Rendering
  /-- The dependencies at the last rendering since the viewer was mounted. -/
  deps : Option (Option String × Option String)

/-- What can happen to a viewer. -/
inductive ViewerEvent where
  /-- An operation on the store that is not the effect's. -/
  | store (op : ViewerOp)
  | render
  /-- Effects run after the rendering is on the screen. React runs those of a rendering at once that a store
  or a query has caused; one that waits is of another rendering, such as that of a toolbar's status. -/
  | runEffect
  | fetched (key : PayloadKey) (messages : List TopicMessage)
  | fetchFailed (key : PayloadKey)
  /-- Data that nothing shows is dropped. -/
  | dropQuery (key : PayloadKey)
  /-- A tab is left, or no message is shown any more. -/
  | unmount

namespace Viewer

/-- Nothing is open. -/
def start : Viewer where
  store := .init viewerKind
  cache := fun _ => none
  fetching := []
  effect := none
  deps := none

/-- What the viewer renders. -/
def rendering (s : Viewer) : Rendering where
  fields := s.store.fields
  data := s.store.fields.key?.bind s.cache

/-- One step. What cannot happen is `none`. -/
def step (log : Log) (s : Viewer) : ViewerEvent → Option Viewer
  | .store (.setFullPayload _) => none
  | .store op => some { s with store := s.store.step viewerKind op.toOp }
  | .render =>
    -- an effect that waits runs before the next rendering
    if s.effect.isSome ∨ s.store.fields.message = none then none
    else some { s with
      effect := if s.deps = some s.rendering.deps then none else some s.rendering
      deps := some s.rendering.deps
      fetching := match s.store.fields.key? with
        | some key =>
          if s.rendering.needsFullPayload ∧ s.cache key = none ∧ key ∉ s.fetching then key :: s.fetching
          else s.fetching
        | none => s.fetching }
  | .runEffect =>
    match s.effect with
    | some r => some { s with
        effect := none
        store := match r.toRemember with
          | some payload => s.store.step viewerKind (ViewerOp.setFullPayload payload).toOp
          | none => s.store }
    | none => none
  | .fetched key messages =>
    if key ∈ s.fetching ∧ RightAnswer log key messages then
      some { s with
        cache := Function.update s.cache key (some messages)
        fetching := s.fetching.erase key }
    else none
  | .fetchFailed key => some { s with fetching := s.fetching.erase key }
  | .dropQuery key => some { s with cache := Function.update s.cache key none }
  | .unmount => if s.effect.isSome then none else some { s with deps := none }

/-- The message in the slot of the active tab. -/
def viewed (s : Viewer) : Option ViewedMessage := (s.store.active isTab).bind s.store.slot

end Viewer

/-- A full payload in a slot is the payload of the message that the slot shows. -/
def OwnPayload (log : Log) (s : Viewer) : Prop :=
  ∀ tabId, ∀ viewed ∈ s.store.slot tabId, ∀ payload ∈ viewed.fullPayloadBase64, log viewed.key = some payload

/-- Where an effect hands over a payload, the active tab shows no message or the one that was rendered. -/
def InTime (s : Viewer) : ViewerEvent → Prop
  | .runEffect => ∀ r ∈ s.effect, r.toRemember ≠ none → ∀ viewed ∈ s.viewed, r.fields.key? = some viewed.key
  | _ => True

instance (s : Viewer) (e : ViewerEvent) : Decidable (InTime s e) := by
  cases e with
  | runEffect =>
    exact inferInstanceAs (Decidable (∀ r ∈ s.effect, r.toRemember ≠ none → ∀ viewed ∈ s.viewed, _ = _))
  | _ => exact inferInstanceAs (Decidable True)

/-! ## What is kept -/

variable {log : Log} {s t : Viewer}

/-- The data and what is rendered of it are right, and so are the slots. -/
structure Right (log : Log) (s : Viewer) : Prop where
  slots : OwnPayload log s
  cache : ∀ key, ∀ messages ∈ s.cache key, RightAnswer log key messages
  effect : ∀ r ∈ s.effect, ∀ messages ∈ r.data, ∃ key ∈ r.fields.key?, RightAnswer log key messages

theorem right_start (log : Log) : Right log Viewer.start := ⟨fun _ _ => nofun, fun _ _ => nofun, fun _ => nofun⟩

theorem toRemember_eq {r : Rendering}
    (h : ∀ messages ∈ r.data, ∃ key ∈ r.fields.key?, RightAnswer log key messages) {payload : String}
    (hr : r.toRemember = some payload) : ∃ key, r.fields.key? = some key ∧ log key = some payload := by
  unfold Rendering.toRemember at hr
  split_ifs at hr with hnone
  rw [Rendering.fetchedPayloadBase64, hnone, Option.none_or] at hr
  obtain ⟨m, hfound, hpayload⟩ := Option.bind_eq_some_iff.mp hr
  simp only [Rendering.found, Option.bind_eq_bind, Option.bind_eq_some_iff] at hfound
  obtain ⟨message, hmessage, messages, hdata, hfind⟩ := hfound
  obtain ⟨key, hkey, hright⟩ := h messages hdata
  refine ⟨key, hkey, ?_⟩
  have hplace := List.find?_some hfind
  rw [Bool.and_eq_true, beq_iff_eq, beq_iff_eq] at hplace
  rw [← hpayload, hright m (List.mem_of_find?_eq_some hfind), hplace.1, hplace.2]
  -- the key has the partition and the offset of the message that is shown
  simp only [ViewedFields.key?, hmessage, Option.mem_def, Option.bind_eq_bind, Option.bind_eq_some_iff] at hkey
  obtain ⟨connectionId, -, topic, -, _, heq, hkey⟩ := hkey
  cases heq
  cases hkey
  rfl

theorem meets_of_store {op : ViewerOp} (hop : ∀ payload, op ≠ .setFullPayload payload) (store : MessageViewerState)
    (P : String → ViewedMessage → Prop) (hP : ∀ tabId viewed, viewed.fullPayloadBase64 = none → P tabId viewed) :
    op.toOp.Meets viewerKind store P := by
  cases op with
  | viewMessage message connectionId topic partitionId =>
    intro tabId _ viewed hviewed
    cases hviewed
    exact hP tabId _ rfl
  | setFullPayload payload => exact absurd rfl (hop payload)
  | clear => exact fun _ _ _ => nofun
  | setActiveTab tabId => trivial
  | clearTabMemory tabId => trivial
  | clearForConnection connectionId => trivial

theorem Viewer.step_store {op : ViewerOp} (h : s.step log (.store op) = some t) :
    (∀ payload, op ≠ .setFullPayload payload) ∧ t = { s with store := s.store.step viewerKind op.toOp } := by
  cases op with
  | setFullPayload payload => cases h
  | _ =>
    cases h
    exact ⟨nofun, rfl⟩

theorem Viewer.step_render (h : s.step log .render = some t) :
    s.effect = none ∧ t.store = s.store ∧ t.cache = s.cache ∧ ∀ r ∈ t.effect, r = s.rendering := by
  simp only [Viewer.step] at h
  split at h
  · cases h
  · rename_i hguard
    obtain ⟨heffect, -⟩ := not_or.mp hguard
    cases h
    refine ⟨Option.not_isSome_iff_eq_none.mp heffect, rfl, rfl, fun r hr => ?_⟩
    simp only at hr
    split_ifs at hr with hdeps
    · cases hr
    · exact (Option.some.inj hr).symm

theorem Viewer.step_runEffect (h : s.step log .runEffect = some t) :
    ∃ r, s.effect = some r ∧ t.effect = none ∧ t.cache = s.cache ∧
      ((∃ payload, r.toRemember = some payload ∧
        t.store = s.store.step viewerKind (ViewerOp.setFullPayload payload).toOp) ∨ t.store = s.store) := by
  simp only [Viewer.step] at h
  split at h
  · rename_i r hr
    cases h
    refine ⟨r, hr, rfl, rfl, ?_⟩
    simp only
    split
    · rename_i payload hpayload
      exact .inl ⟨payload, hpayload, rfl⟩
    · exact .inr rfl
  · cases h

theorem Right.step {e : ViewerEvent} (h : Right log s) (hin : InTime s e) (hstep : s.step log e = some t) :
    Right log t := by
  cases e with
  | store op =>
    obtain ⟨hop, rfl⟩ := Viewer.step_store hstep
    refine ⟨Mirrored.slot_step_of_meets h.slots (meets_of_store hop s.store _ fun _ viewed hnone => ?_), h.cache,
      h.effect⟩
    rw [hnone]
    exact fun _ => nofun
  | render =>
    obtain ⟨-, hstore, hcache, heffect⟩ := Viewer.step_render hstep
    refine ⟨?_, hcache ▸ h.cache, fun r hr messages hmessages => ?_⟩
    · rw [OwnPayload, hstore]
      exact h.slots
    · rw [heffect r hr] at hmessages ⊢
      obtain ⟨key, hkey, hdata⟩ := Option.bind_eq_some_iff.mp hmessages
      exact ⟨key, hkey, h.cache key messages hdata⟩
  | runEffect =>
    obtain ⟨r, hr, heffect, hcache, hstore⟩ := Viewer.step_runEffect hstep
    refine ⟨?_, hcache ▸ h.cache, by rw [heffect]; exact fun _ => nofun⟩
    rcases hstore with ⟨payload, hpayload, hstore⟩ | hstore
    · obtain ⟨key, hkey, hlog⟩ := toRemember_eq (h.effect r hr) hpayload
      rw [OwnPayload, hstore]
      refine Mirrored.slot_step_of_meets h.slots fun tabId htabId viewed hslot p hp => ?_
      cases hp
      -- the slot shows the message that was rendered
      have hviewed : viewed ∈ s.viewed := Option.bind_eq_some_iff.mpr ⟨tabId, htabId, hslot⟩
      have hsame := hin r hr (Option.ne_none_iff_exists'.mpr ⟨payload, hpayload⟩) viewed hviewed
      rw [hkey] at hsame
      cases hsame
      exact hlog
    · rw [OwnPayload, hstore]
      exact h.slots
  | fetched key messages =>
    simp only [Viewer.step] at hstep
    split_ifs at hstep with hguard
    cases hstep
    refine ⟨h.slots, fun k ms hms => ?_, h.effect⟩
    simp only [Function.update_apply] at hms
    split_ifs at hms with hk
    · cases hms
      exact hk ▸ hguard.2
    · exact h.cache k ms hms
  | fetchFailed key =>
    cases hstep
    exact ⟨h.slots, h.cache, h.effect⟩
  | dropQuery key =>
    cases hstep
    refine ⟨h.slots, fun k ms hms => ?_, h.effect⟩
    simp only [Function.update_apply] at hms
    split_ifs at hms
    · cases hms
    · exact h.cache k ms hms
  | unmount =>
    simp only [Viewer.step] at hstep
    split_ifs at hstep
    cases hstep
    exact ⟨h.slots, h.cache, h.effect⟩

/-- **Where every effect finds the message in the slot that it was rendered with**, a slot never has the payload
of another message. -/
theorem ownPayload_of_allSteps (log : Log) {es : List ViewerEvent}
    (h : AllSteps (Viewer.step log) InTime Viewer.start es) :
    Always (Viewer.step log) (OwnPayload log) Viewer.start es :=
  always_of_allSteps (fun _ _ _ hin hs hstep => hs.step hin hstep) (fun _ hs => hs.slots) h (right_start log)

/-- Two large messages of a topic. -/
def ordersLog : Log := fun key => if key.offset = 1 then some "QUFBQQ==" else some "QkJCQg=="

/-- The row of a message of `ordersLog`, with the beginning of its payload. -/
def ordersRow (offset : ℤ) : TopicMessage where
  partition := 0
  offset := offset
  payloadBase64 := some "QQ=="
  payloadSizeBytes := some 4

/-- A click on a row of the orders topic. -/
def openRow (offset : ℤ) : ViewerEvent := .store (.viewMessage (ordersRow offset) "conn-1" "orders" none)

/-- Its whole payload arrives. -/
def rowFetched (offset : ℤ) : ViewerEvent :=
  .fetched ⟨"conn-1", "orders", 0, offset⟩
    [{ ordersRow offset with payloadBase64 := ordersLog ⟨"conn-1", "orders", 0, offset⟩ }]

/-- The other message is opened while the first is fetched, and looked at again from another tab. -/
def openBoth : List ViewerEvent :=
  [.store (.setActiveTab (some "tab-1")), openRow 1, .render, .runEffect, openRow 2, .render, rowFetched 1,
    rowFetched 2, .render, .store (.clearForConnection "conn-2"), .runEffect, .render, .runEffect,
    .store (.setActiveTab (some "tab-2")), .unmount, .store (.setActiveTab (some "tab-1")), .render, .runEffect]

theorem openBoth_ownPayload : (run (Viewer.step ordersLog) Viewer.start openBoth).isSome = true ∧
    Always (Viewer.step ordersLog) (OwnPayload ordersLog) Viewer.start openBoth :=
  ⟨by decide +kernel, ownPayload_of_allSteps ordersLog (by decide +kernel)⟩

/-- The other message is opened after the payload of the first is on the screen and before the effect has
run. -/
def openBetween : List ViewerEvent :=
  [.store (.setActiveTab (some "tab-1")), openRow 1, .render, .runEffect, rowFetched 1, .render, openRow 2,
    .runEffect]

/-- The slot has the second message and the payload of the first. -/
theorem openBetween_not_ownPayload :
    ¬ ∀ (log : Log) (es : List ViewerEvent), (run (Viewer.step log) Viewer.start es).isSome = true →
      Always (Viewer.step log) (OwnPayload log) Viewer.start es := by
  intro h
  have hend : OwnPayload ordersLog (after (Viewer.step ordersLog) Viewer.start openBetween (by decide +kernel)) :=
    (h ordersLog openBetween (by decide +kernel)).last (run_after _ _ _ _)
  have hslot := hend "tab-1"
    { message := ordersRow 2, connectionId := "conn-1", topic := "orders", fullPayloadBase64 := some "QUFBQQ==" }
    (by decide +kernel) "QUFBQQ==" rfl
  revert hslot
  decide +kernel

/-! ## Effects that run before anything else is opened -/

/-- While an effect has a payload to hand over, no message is opened and no tab is made active. -/
def Prompt (s : Viewer) : ViewerEvent → Prop
  | .store (.viewMessage ..) | .store (.setActiveTab _) => ∀ r ∈ s.effect, r.toRemember = none
  | _ => True

/-- The store shows the active tab, and an effect with a payload is that of its message. -/
structure Current (s : Viewer) : Prop where
  inStep : s.store.InStep viewerKind
  effect : ∀ r ∈ s.effect, r.toRemember ≠ none → ∀ viewed ∈ s.viewed, r.fields.key? = some viewed.key

theorem Viewer.rendering_key (h : s.store.InStep viewerKind) {viewed : ViewedMessage} (hviewed : viewed ∈ s.viewed) :
    s.rendering.fields.key? = some viewed.key := by
  obtain ⟨tabId, htabId, hslot⟩ := Option.bind_eq_some_iff.mp hviewed
  have hshown : s.store.fields = .of (s.store.slot tabId) := h tabId htabId
  change s.store.fields.key? = _
  rw [hshown, hslot]
  rfl

theorem viewed_of_store (op : ViewerOp)
    (hop : op.toOp.Meets viewerKind s.store fun tabId v => v ∈ s.store.slot tabId)
    (hactive : (s.store.step viewerKind op.toOp).active isTab = s.store.active isTab) {viewed : ViewedMessage}
    (h : viewed ∈ { s with store := s.store.step viewerKind op.toOp : Viewer }.viewed) : viewed ∈ s.viewed := by
  obtain ⟨tabId, htabId, hslot⟩ := Option.bind_eq_some_iff.mp h
  exact Option.bind_eq_some_iff.mpr
    ⟨tabId, hactive ▸ htabId, Mirrored.slot_step_of_meets (fun _ _ hv => hv) hop tabId viewed hslot⟩

theorem Current.step {e : ViewerEvent} (h : Current s) (hprompt : Prompt s e) (hstep : s.step log e = some t) :
    Current t := by
  cases e with
  | store op =>
    obtain ⟨hop, rfl⟩ := Viewer.step_store hstep
    refine ⟨h.inStep.step op.toOp, fun r hr hremember viewed hviewed => ?_⟩
    cases op with
    | viewMessage message connectionId topic partitionId => exact absurd (hprompt r hr) hremember
    | setActiveTab tabId => exact absurd (hprompt r hr) hremember
    | setFullPayload payload => exact absurd rfl (hop payload)
    | clear =>
      refine h.effect r hr hremember viewed (viewed_of_store .clear (fun _ _ v hv => ?_) rfl hviewed)
      cases hv
    | clearTabMemory tabId =>
      refine h.effect r hr hremember viewed (viewed_of_store (.clearTabMemory tabId) trivial ?_ hviewed)
      simp only [ViewerOp.toOp, Mirrored.step, Mirrored.forget]
      split <;> rfl
    | clearForConnection connectionId =>
      exact h.effect r hr hremember viewed
        (viewed_of_store (.clearForConnection connectionId) trivial rfl hviewed)
  | render =>
    obtain ⟨-, hstore, -, heffect⟩ := Viewer.step_render hstep
    refine ⟨hstore ▸ h.inStep, fun r hr _ viewed hviewed => ?_⟩
    rw [heffect r hr]
    rw [Viewer.viewed, hstore] at hviewed
    exact Viewer.rendering_key h.inStep hviewed
  | runEffect =>
    obtain ⟨r, -, heffect, -, hstore⟩ := Viewer.step_runEffect hstep
    refine ⟨?_, fun r hr => ?_⟩
    · rcases hstore with ⟨payload, -, hstore⟩ | hstore
      · rw [hstore]
        exact h.inStep.step _
      · rw [hstore]
        exact h.inStep
    · rw [heffect] at hr
      cases hr
  | fetched key messages =>
    simp only [Viewer.step] at hstep
    split_ifs at hstep
    cases hstep
    exact ⟨h.inStep, h.effect⟩
  | fetchFailed key =>
    cases hstep
    exact ⟨h.inStep, h.effect⟩
  | dropQuery key =>
    cases hstep
    exact ⟨h.inStep, h.effect⟩
  | unmount =>
    simp only [Viewer.step] at hstep
    split_ifs at hstep
    cases hstep
    exact ⟨h.inStep, h.effect⟩

/-- **An effect is in time** where it has run before another message is opened or a tab is made active. -/
theorem inTime_of_prompt (log : Log) {es : List ViewerEvent}
    (h : AllSteps (Viewer.step log) Prompt Viewer.start es) :
    AllSteps (Viewer.step log) InTime Viewer.start es := by
  refine AllSteps.of_invariant (I := Current) (fun s e t hprompt hs hstep => hs.step hprompt hstep)
    (fun s e _ hs => ?_) h ⟨Mirrored.inStep_init viewerKind, fun _ => nofun⟩
  cases e with
  | runEffect => exact hs.effect
  | _ => trivial

end OffsetExplorer.Workspace
