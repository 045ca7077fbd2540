import OffsetExplorer.Tabs.Order

/-!
# The tab that is active

The bar shows the workspace tabs, the viewer tabs and the settings tab. Each kind is a store of its own, and
whichever tab is closed while it is active, it is a workspace tab that becomes active instead.

* `BarState.step`: what the tab bar lets the user do to the stores, and what the back end answers.
* `ActiveLive`: a tab that is shown is active, if any is shown.
* `LeavesActive`: a step that closes the active tab leaves a workspace tab, or no tab at all.
* **`activeLive_iff`**: the runs where a shown tab is always active are those of such steps.
-/

namespace OffsetExplorer.Tabs

variable {Id : Type}

/-! ## The tab bar -/

/-- The last tab, whose closing has to be confirmed. -/
inductive PendingClose (Id : Type) where
  | tab (id : Id)
  | json (id : Id)

/-- The bar with the stores behind it. -/
structure BarState (Id : Type) where
  stores : TabState Id
  /-- The settings tab is there. -/
  isOpen : Bool
  /-- The last tab, until the user confirms that it is to be closed. -/
  pendingClose : Option (PendingClose Id)
  /-- The calls of `deleteTab` that wait for the back end. -/
  deleting : List Id

/-- What the user and the back end do to the bar. -/
inductive BarEvent (Id : Type) where
  | addTab
  | tabCreated (call : ℕ) (id : Id)
  | tabRefused (call : ℕ)
  | clickTab (id : Id)
  | requestCloseTab (id : Id)
  | tabDeleted (call : ℕ)
  | deleteRefused (call : ℕ)
  /-- A value is opened in a viewer tab, which is then selected. -/
  | openJsonTab (id : Id)
  | requestCloseJsonTab (id : Id)
  | confirmCloseLastTab
  /-- The question is taken away, by the user or since the last tab has been closed. -/
  | clearPendingClose
  | openSettings
  | closeSettings
  | startDragging (id : Id)
  | moveTab (overId : Id)
  | stopDragging

namespace BarState

/-- The tab that is shown. -/
def activeTabId (s : BarState Id) : Option Id := s.stores.activeTabId

/-- The tabs in the bar. -/
def shown (settingsTabId : Id) (s : BarState Id) : List Id :=
  s.stores.liveIds ++ if s.isOpen then [settingsTabId] else []

/-- The bar before the tabs are loaded. -/
def empty : BarState Id where
  stores := start
  isOpen := false
  pendingClose := none
  deleting := []

/-- A first tab is made where the back end has none. -/
def tabsToLoad (listed : List Id) (created : Id) : List Id :=
  match listed with
  | [] => [created]
  | _ :: _ => listed

section

variable [DecidableEq Id]

/-- The settings tab is not counted. -/
def isLastTab (s : BarState Id) : Bool := s.stores.order.length == 1

/-- The stores take an event. -/
def take (settingsTabId : Id) (s : BarState Id) (event : Event Id) : Option (BarState Id) :=
  (s.stores.step settingsTabId event).map fun stores => { s with stores }

/-- One step of the bar. What cannot happen is `none`. -/
def step (settingsTabId : Id) (s : BarState Id) : BarEvent Id → Option (BarState Id)
  | .addTab => s.take settingsTabId .addTab
  | .tabCreated call id =>
    if id = settingsTabId then none else s.take settingsTabId (.tabCreated call id)
  | .tabRefused call => s.take settingsTabId (.tabRefused call)
  | .clickTab id => if id ∈ s.shown settingsTabId then s.take settingsTabId (.selectTab id) else none
  | .requestCloseTab id =>
    if id ∉ s.stores.tabs then none
    else if s.isLastTab then some { s with pendingClose := some (.tab id) }
    else some { s with deleting := s.deleting ++ [id] }
  | .tabDeleted call =>
    match s.deleting[call]? with
    | some id =>
      -- the back end does not find a tab a second time
      if id ∈ s.stores.tabs then
        { s with deleting := s.deleting.eraseIdx call }.take settingsTabId (.deleteTab id)
      else none
    | none => none
  | .deleteRefused call => some { s with deleting := s.deleting.eraseIdx call }
  | .openJsonTab id =>
    if id = settingsTabId then none
    else (s.take settingsTabId (.openTab id)).bind fun s => s.take settingsTabId (.selectTab id)
  | .requestCloseJsonTab id =>
    if id ∉ s.stores.jsonTabs then none
    else if s.isLastTab then some { s with pendingClose := some (.json id) }
    else s.take settingsTabId (.closeTab id)
  | .confirmCloseLastTab =>
    match s.pendingClose with
    | some (.tab id) => some { s with deleting := s.deleting ++ [id] }
    | some (.json id) => { s with pendingClose := none }.take settingsTabId (.closeTab id)
    | none => none
  | .clearPendingClose => some { s with pendingClose := none }
  | .openSettings => { s with isOpen := true }.take settingsTabId (.selectTab settingsTabId)
  | .closeSettings =>
    if s.isOpen then { s with isOpen := false }.take settingsTabId .closeSettings else none
  | .startDragging id => s.take settingsTabId (.startDragging id)
  | .moveTab overId => s.take settingsTabId (.moveTab overId)
  | .stopDragging => s.take settingsTabId .stopDragging

/-- The app as it is after `loadTabs`. -/
def load (settingsTabId : Id) (listed : List Id) (created : Id) : Option (BarState Id) :=
  if settingsTabId ∈ tabsToLoad listed created then none
  else empty.take settingsTabId (.loadTabs (tabsToLoad listed created))

/-- The tab that an event closes. -/
def closing (settingsTabId : Id) (s : BarState Id) : BarEvent Id → Option Id
  | .tabDeleted call => s.deleting[call]?
  | .requestCloseJsonTab id => if s.isLastTab then none else some id
  | .confirmCloseLastTab =>
    match s.pendingClose with
    | some (.json id) => some id
    | _ => none
  | .closeSettings => some settingsTabId
  | _ => none

end

end BarState

/-- If a tab is shown, then one is active that is shown. -/
def ActiveLive (settingsTabId : Id) (s : BarState Id) : Prop :=
  s.shown settingsTabId ≠ [] → ∃ id ∈ s.shown settingsTabId, s.activeTabId = some id

/-- Where the active tab is closed and no other is a workspace tab, no other is shown. -/
def LeavesActive [DecidableEq Id] (settingsTabId : Id) (s : BarState Id) (event : BarEvent Id) : Prop :=
  ∀ id ∈ s.closing settingsTabId event, s.activeTabId = some id → (∀ x ∈ s.stores.tabs, x = id) →
    ∀ x ∈ s.shown settingsTabId, x = id

instance [DecidableEq Id] (settingsTabId : Id) (s : BarState Id) (event : BarEvent Id) :
    Decidable (LeavesActive settingsTabId s event) :=
  inferInstanceAs (Decidable (∀ id ∈ s.closing settingsTabId event, s.activeTabId = some id →
    (∀ x ∈ s.stores.tabs, x = id) → ∀ x ∈ s.shown settingsTabId, x = id))

section

variable [DecidableEq Id]

/-! ## What the stores gain -/

/-- The tabs that an event adds. -/
def Event.opened : Event Id → List Id
  | .loadTabs tabs => tabs
  | .tabCreated _ id => [id]
  | .openTab id => [id]
  | _ => []

theorem moveTab_mem {tabs : List Id} {draggedId overId x : Id} :
    x ∈ moveTab tabs draggedId overId ↔ x ∈ tabs :=
  (moveTab_perm tabs draggedId overId).mem_iff

theorem TabState.step_gain {settingsTabId : Id} {s t : TabState Id} {event : Event Id}
    (h : s.step settingsTabId event = some t) :
    (∀ x ∈ t.tabs, x ∈ s.tabs ∨ x ∈ event.opened) ∧
      (∀ x ∈ t.jsonTabs, x ∈ s.jsonTabs ∨ x ∈ event.opened) ∧ s.known ⊆ t.known := by
  cases event with
  | loadTabs tabs =>
    simp only [TabState.step] at h
    split_ifs at h
    cases h
    exact ⟨fun _ hx => .inr hx, fun _ hx => .inl hx, List.subset_append_right tabs s.known⟩
  | tabCreated call id =>
    simp only [TabState.step] at h
    split at h
    · split_ifs at h
      cases h
      exact ⟨fun _ hx => List.mem_append.mp hx, fun _ hx => .inl hx, List.subset_cons_self id s.known⟩
    · cases h
  | openTab id =>
    simp only [TabState.step] at h
    split_ifs at h
    cases h
    exact ⟨fun _ hx => .inl hx, fun _ hx => List.mem_append.mp hx, List.subset_cons_self id s.known⟩
  | deleteTab id =>
    cases h
    exact ⟨fun _ hx => .inl (List.mem_of_mem_filter hx), fun _ hx => .inl hx, List.Subset.refl _⟩
  | closeTab id =>
    cases h
    exact ⟨fun _ hx => .inl hx, fun _ hx => .inl (List.mem_of_mem_filter hx), List.Subset.refl _⟩
  | selectTab id =>
    cases h
    exact ⟨fun _ hx => .inl hx, fun _ hx => .inl hx, List.subset_cons_self id s.known⟩
  | addTab | tabRefused call | closeSettings | startDragging id =>
    cases h
    exact ⟨fun _ hx => .inl hx, fun _ hx => .inl hx, List.Subset.refl _⟩
  | moveTab overId =>
    simp only [TabState.step] at h
    split at h
    · cases h
      exact ⟨fun _ hx => .inl (moveTab_mem.mp hx), fun _ hx => .inl hx, List.Subset.refl _⟩
    · cases h
  | stopDragging =>
    simp only [TabState.step] at h
    split at h
    · cases h
      exact ⟨fun _ hx => .inl hx, fun _ hx => .inl hx, List.Subset.refl _⟩
    · cases h

/-- After the tabs have been listed, a tab is opened under an id that was not known. -/
theorem TabState.opened_fresh {settingsTabId : Id} {s t : TabState Id} {event : Event Id}
    (h : s.step settingsTabId event = some t) (hload : ∀ tabs, event ≠ .loadTabs tabs) :
    ∀ x ∈ event.opened, x ∉ s.known := by
  cases event with
  | loadTabs tabs => exact absurd rfl (hload tabs)
  | tabCreated call id =>
    simp only [TabState.step] at h
    split at h
    · split_ifs at h with hfresh
      exact fun x hx => List.mem_singleton.mp hx ▸ hfresh
    · cases h
  | openTab id =>
    simp only [TabState.step] at h
    split_ifs at h with hfresh
    exact fun x hx => List.mem_singleton.mp hx ▸ hfresh
  | _ => exact List.forall_mem_nil _

/-! ## What holds in every state -/

/-- The stores are well kept, and neither the settings tab nor a viewer tab that is to be closed is a
workspace tab. -/
structure BarState.Kept (settingsTabId : Id) (s : BarState Id) : Prop where
  stores : WellKept s.stores
  settings : settingsTabId ∉ s.stores.liveIds
  pending : ∀ id, s.pendingClose = some (.json id) →
    id ∈ s.stores.known ∧ id ∉ s.stores.tabs ∧ id ≠ settingsTabId

namespace BarState

variable {settingsTabId : Id}

theorem take_eq_some {s t : BarState Id} {event : Event Id} (h : s.take settingsTabId event = some t) :
    ∃ stores, s.stores.step settingsTabId event = some stores ∧ t = { s with stores } := by
  obtain ⟨stores, hstep, ht⟩ := Option.map_eq_some_iff.mp h
  exact ⟨stores, hstep, ht.symm⟩

theorem Kept.take {s t : BarState Id} {event : Event Id} (hs : s.Kept settingsTabId)
    (h : s.take settingsTabId event = some t) (hnew : settingsTabId ∉ event.opened)
    (hfresh : ∀ x ∈ event.opened, x ∉ s.stores.known) : t.Kept settingsTabId := by
  obtain ⟨stores, hstep, rfl⟩ := take_eq_some h
  obtain ⟨htabs, hjson, hknown⟩ := TabState.step_gain hstep
  refine ⟨hs.stores.step hstep, fun hmem => ?_, fun id hid => ?_⟩
  · rcases List.mem_append.mp hmem with hmem | hmem
    · exact (htabs _ hmem).elim (fun hx => hs.settings (List.mem_append_left _ hx)) hnew
    · exact (hjson _ hmem).elim (fun hx => hs.settings (List.mem_append_right _ hx)) hnew
  · obtain ⟨hmem, hnot, hne⟩ := hs.pending id hid
    exact ⟨hknown hmem, fun hx => (htabs id hx).elim hnot fun hx => hfresh id hx hmem, hne⟩

theorem Kept.take_of_opened_nil {s t : BarState Id} {event : Event Id} (hs : s.Kept settingsTabId)
    (h : s.take settingsTabId event = some t) (hnil : event.opened = []) : t.Kept settingsTabId :=
  hs.take h (hnil ▸ List.not_mem_nil) (hnil ▸ List.forall_mem_nil _)

omit [DecidableEq Id] in
theorem Kept.isOpen {s : BarState Id} (hs : s.Kept settingsTabId) (isOpen : Bool) (deleting : List Id) :
    ({ s with isOpen, deleting } : BarState Id).Kept settingsTabId :=
  ⟨hs.stores, hs.settings, hs.pending⟩

omit [DecidableEq Id] in
theorem Kept.pendingClose {s : BarState Id} (hs : s.Kept settingsTabId)
    (pendingClose : Option (PendingClose Id)) (h : ∀ id, pendingClose = some (.json id) →
      id ∈ s.stores.known ∧ id ∉ s.stores.tabs ∧ id ≠ settingsTabId) :
    ({ s with pendingClose } : BarState Id).Kept settingsTabId :=
  ⟨hs.stores, hs.settings, h⟩

omit [DecidableEq Id] in
theorem Kept.json {s : BarState Id} (hs : s.Kept settingsTabId) {id : Id} (hid : id ∈ s.stores.jsonTabs) :
    id ∈ s.stores.known ∧ id ∉ s.stores.tabs ∧ id ≠ settingsTabId := by
  have hlive : id ∈ s.stores.liveIds := List.mem_append_right _ hid
  refine ⟨hs.stores.known id hlive, fun hmem => ?_, fun heq => hs.settings (heq ▸ hlive)⟩
  exact List.disjoint_of_nodup_append hs.stores.nodup hmem hid

theorem Kept.step {s t : BarState Id} {event : BarEvent Id} (hs : s.Kept settingsTabId)
    (h : s.step settingsTabId event = some t) : t.Kept settingsTabId := by
  cases event with
  | addTab | tabRefused call | startDragging id | moveTab overId | stopDragging =>
    exact hs.take_of_opened_nil h rfl
  | tabCreated call id =>
    simp only [BarState.step] at h
    split_ifs at h with hid
    obtain ⟨stores, hstep, -⟩ := take_eq_some h
    refine hs.take h ?_ (TabState.opened_fresh hstep fun _ => nofun)
    exact fun hmem => hid (List.mem_singleton.mp hmem).symm
  | clickTab id =>
    simp only [BarState.step] at h
    split_ifs at h
    exact hs.take_of_opened_nil h rfl
  | requestCloseTab id =>
    simp only [BarState.step] at h
    split_ifs at h
    · cases h
      exact hs.pendingClose _ fun _ => nofun
    · cases h
      exact hs.isOpen _ _
  | tabDeleted call =>
    simp only [BarState.step] at h
    split at h
    · split_ifs at h
      exact (hs.isOpen _ _).take_of_opened_nil h rfl
    · cases h
  | deleteRefused call =>
    cases h
    exact hs.isOpen _ _
  | openJsonTab id =>
    simp only [BarState.step] at h
    split_ifs at h with hid
    obtain ⟨u, hopen, hselect⟩ := Option.bind_eq_some_iff.mp h
    obtain ⟨stores, hstep, -⟩ := take_eq_some hopen
    have hu : u.Kept settingsTabId := hs.take hopen
      (fun hmem => hid (List.mem_singleton.mp hmem).symm) (TabState.opened_fresh hstep fun _ => nofun)
    exact hu.take_of_opened_nil hselect rfl
  | requestCloseJsonTab id =>
    simp only [BarState.step] at h
    split_ifs at h with hmem
    · cases h
      refine hs.pendingClose _ fun _ heq => ?_
      cases heq
      exact hs.json hmem
    · exact hs.take_of_opened_nil h rfl
  | confirmCloseLastTab =>
    simp only [BarState.step] at h
    split at h
    · cases h
      exact hs.isOpen _ _
    · exact (hs.pendingClose none fun _ => nofun).take_of_opened_nil h rfl
    · cases h
  | clearPendingClose =>
    cases h
    exact hs.pendingClose none fun _ => nofun
  | openSettings => exact (hs.isOpen true s.deleting).take_of_opened_nil h rfl
  | closeSettings =>
    simp only [BarState.step] at h
    split_ifs at h
    exact (hs.isOpen false s.deleting).take_of_opened_nil h rfl

theorem kept_of_load {listed : List Id} {created : Id} {s : BarState Id}
    (h : load settingsTabId listed created = some s) : s.Kept settingsTabId := by
  unfold load at h
  split_ifs at h with hsettings
  have hempty : (empty : BarState Id).Kept settingsTabId :=
    ⟨wellKept_start, List.not_mem_nil, fun _ => nofun⟩
  exact hempty.take h hsettings fun _ _ => List.not_mem_nil

/-! ## What a step changes -/

/-- A tab is closed. Where it was active, another workspace tab becomes so, or none if there is none. -/
structure Closed (settingsTabId : Id) (s t : BarState Id) (id : Id) : Prop where
  shown : ∀ x, x ∈ t.shown settingsTabId ↔ x ∈ s.shown settingsTabId ∧ x ≠ id
  other : s.activeTabId ≠ some id → t.activeTabId = s.activeTabId
  next : s.activeTabId = some id →
    (∃ next ∈ s.stores.tabs, next ≠ id ∧ t.activeTabId = some next) ∨
      ((∀ x ∈ s.stores.tabs, x = id) ∧ t.activeTabId = none)

omit [DecidableEq Id] in
theorem mem_shown {s : BarState Id} {x : Id} : x ∈ s.shown settingsTabId ↔
    x ∈ s.stores.tabs ∨ x ∈ s.stores.jsonTabs ∨ s.isOpen = true ∧ x = settingsTabId := by
  rw [shown, TabState.liveIds, List.mem_append, List.mem_append, or_assoc]
  refine or_congr_right (or_congr_right ?_)
  cases s.isOpen <;> simp

/-- The neighbour of a workspace tab is another workspace tab, and is missing only beside no other. -/
theorem fallback_of_mem {tabs : List Id} {id : Id} (hid : id ∈ tabs) (hnodup : tabs.Nodup) :
    (∃ next ∈ tabs, next ≠ id ∧ fallback tabs id = some next) ∨
      ((∀ x ∈ tabs, x = id) ∧ fallback tabs id = none) := by
  obtain ⟨index, hindex⟩ := Option.isSome_iff_exists.mp (List.isSome_idxOf?.mpr hid)
  obtain ⟨front, back, rfl, rfl⟩ := split_of_idxOf? hindex
  have hnot : id ∉ front ++ back := (List.nodup_middle.mp hnodup).notMem
  rw [fallback, hindex]
  rcases List.eq_nil_or_concat front with rfl | ⟨front, before, rfl⟩
  · cases back with
    | nil => exact .inr ⟨fun x hx => List.mem_singleton.mp hx, rfl⟩
    | cons after back =>
      refine .inl ⟨after, by simp, ?_, rfl⟩
      rintro rfl
      exact hnot List.mem_cons_self
  · rw [List.concat_eq_append] at hnot ⊢
    refine .inl ⟨before, by simp, ?_, ?_⟩
    · rintro rfl
      exact hnot (by simp)
    · rw [List.length_append]
      simp

theorem closed_of_deleteTab {s t : BarState Id} {id : Id} (hs : s.Kept settingsTabId)
    (hid : id ∈ s.stores.tabs) (h : s.take settingsTabId (.deleteTab id) = some t) :
    Closed settingsTabId s t id := by
  cases h
  have hjson : id ∉ s.stores.jsonTabs := fun hmem =>
    List.disjoint_of_nodup_append hs.stores.nodup hid hmem
  have hsettings : settingsTabId ≠ id := fun heq => hs.settings (heq ▸ List.mem_append_left _ hid)
  refine ⟨fun x => ?_, fun hother => if_neg hother, fun hactive => ?_⟩
  · simp only [mem_shown, List.mem_filter, decide_eq_true_eq]
    constructor
    · rintro (⟨hx, hne⟩ | hx | ⟨hopen, rfl⟩)
      · exact ⟨.inl hx, hne⟩
      · exact ⟨.inr (.inl hx), fun heq => hjson (heq ▸ hx)⟩
      · exact ⟨.inr (.inr ⟨hopen, rfl⟩), hsettings⟩
    · rintro ⟨hx, hne⟩
      exact hx.imp_left fun hx => ⟨hx, hne⟩
  · have hfallback := fallback_of_mem hid hs.stores.nodup.of_append_left
    simp only [activeTabId] at hactive
    simpa only [activeTabId, hactive, if_true] using hfallback

omit [DecidableEq Id] in
theorem next_of_getLast? {tabs : List Id} {id : Id} (hid : id ∉ tabs) :
    (∃ next ∈ tabs, next ≠ id ∧ tabs.getLast? = some next) ∨
      ((∀ x ∈ tabs, x = id) ∧ tabs.getLast? = none) := by
  cases hlast : tabs.getLast? with
  | none =>
    rw [List.getLast?_eq_none_iff.mp hlast]
    exact .inr ⟨List.forall_mem_nil _, rfl⟩
  | some next =>
    have hnext : next ∈ tabs := List.mem_of_getLast? hlast
    exact .inl ⟨next, hnext, fun heq => hid (heq ▸ hnext), rfl⟩

theorem closed_of_closeTab {s t : BarState Id} {id : Id} (hid : id ∉ s.stores.tabs)
    (hsettings : id ≠ settingsTabId) (h : s.take settingsTabId (.closeTab id) = some t) :
    Closed settingsTabId s t id := by
  cases h
  refine ⟨fun x => ?_, fun hother => if_neg hother, fun hactive => ?_⟩
  · simp only [mem_shown, List.mem_filter, decide_eq_true_eq]
    constructor
    · rintro (hx | ⟨hx, hne⟩ | ⟨hopen, rfl⟩)
      · exact ⟨.inl hx, fun heq => hid (heq ▸ hx)⟩
      · exact ⟨.inr (.inl hx), hne⟩
      · exact ⟨.inr (.inr ⟨hopen, rfl⟩), hsettings.symm⟩
    · rintro ⟨hx, hne⟩
      exact hx.imp_right fun hx => hx.imp_left fun hx => ⟨hx, hne⟩
  · simp only [activeTabId] at hactive
    simpa only [activeTabId, hactive, if_true] using next_of_getLast? hid

theorem closed_of_closeSettings {s t : BarState Id} (hs : s.Kept settingsTabId)
    (h : take settingsTabId { s with isOpen := false } .closeSettings = some t) :
    Closed settingsTabId s t settingsTabId := by
  cases h
  have htabs : settingsTabId ∉ s.stores.tabs := fun hmem => hs.settings (List.mem_append_left _ hmem)
  have hjson : settingsTabId ∉ s.stores.jsonTabs := fun hmem => hs.settings (List.mem_append_right _ hmem)
  refine ⟨fun x => ?_, fun hother => if_neg hother, fun hactive => ?_⟩
  · simp only [mem_shown, Bool.false_eq_true, false_and, or_false]
    constructor
    · rintro (hx | hx)
      · exact ⟨.inl hx, fun heq => htabs (heq ▸ hx)⟩
      · exact ⟨.inr (.inl hx), fun heq => hjson (heq ▸ hx)⟩
    · rintro ⟨hx | hx | ⟨-, hx⟩, hne⟩
      · exact .inl hx
      · exact .inr hx
      · exact absurd hx hne
  · simp only [activeTabId] at hactive
    simpa only [activeTabId, hactive, if_true] using next_of_getLast? htabs

/-- **What a step can do**: it leaves the tabs and the active one as they are, makes a tab active that is
shown, or closes a tab. -/
theorem step_cases {s t : BarState Id} {event : BarEvent Id} (hs : s.Kept settingsTabId)
    (h : s.step settingsTabId event = some t) :
    (s.closing settingsTabId event = none ∧ t.activeTabId = s.activeTabId ∧
      ∀ x, x ∈ t.shown settingsTabId ↔ x ∈ s.shown settingsTabId) ∨
    (s.closing settingsTabId event = none ∧
      ∃ id ∈ t.shown settingsTabId, t.activeTabId = some id) ∨
    ∃ id, s.closing settingsTabId event = some id ∧ Closed settingsTabId s t id := by
  cases event with
  | addTab | tabRefused call | startDragging id | deleteRefused call | clearPendingClose =>
    cases h
    exact .inl ⟨rfl, rfl, fun _ => Iff.rfl⟩
  | tabCreated call id =>
    simp only [BarState.step] at h
    split_ifs at h
    obtain ⟨stores, hstep, rfl⟩ := take_eq_some h
    simp only [TabState.step] at hstep
    split at hstep
    · split_ifs at hstep
      cases hstep
      exact .inr (.inl ⟨rfl, id, mem_shown.mpr (.inl (by simp)), rfl⟩)
    · cases hstep
  | clickTab id =>
    simp only [BarState.step] at h
    split_ifs at h with hid
    cases h
    exact .inr (.inl ⟨rfl, id, hid, rfl⟩)
  | requestCloseTab id =>
    simp only [BarState.step] at h
    split_ifs at h
    · cases h
      exact .inl ⟨rfl, rfl, fun _ => Iff.rfl⟩
    · cases h
      exact .inl ⟨rfl, rfl, fun _ => Iff.rfl⟩
  | tabDeleted call =>
    simp only [BarState.step] at h
    split at h
    · rename_i id hcall
      split_ifs at h with hid
      obtain ⟨hshown, hother, hnext⟩ := closed_of_deleteTab (hs.isOpen s.isOpen (s.deleting.eraseIdx call)) hid h
      exact .inr (.inr ⟨id, hcall, hshown, hother, hnext⟩)
    · cases h
  | openJsonTab id =>
    simp only [BarState.step] at h
    split_ifs at h
    obtain ⟨u, hopen, hselect⟩ := Option.bind_eq_some_iff.mp h
    obtain ⟨stores, hstep, rfl⟩ := take_eq_some hopen
    simp only [TabState.step] at hstep
    split_ifs at hstep
    cases hstep
    cases hselect
    exact .inr (.inl ⟨rfl, id, mem_shown.mpr (.inr (.inl (by simp))), rfl⟩)
  | requestCloseJsonTab id =>
    simp only [BarState.step] at h
    split_ifs at h with hid hlast
    · cases h
      exact .inl ⟨if_pos hlast, rfl, fun _ => Iff.rfl⟩
    · obtain ⟨-, htabs, hsettings⟩ := hs.json hid
      exact .inr (.inr ⟨id, if_neg hlast, closed_of_closeTab htabs hsettings h⟩)
  | confirmCloseLastTab =>
    simp only [BarState.step] at h
    split at h
    · rename_i hpending
      cases h
      refine .inl ⟨?_, rfl, fun _ => Iff.rfl⟩
      rw [closing, hpending]
    · rename_i id hpending
      obtain ⟨-, htabs, hsettings⟩ := hs.pending id hpending
      obtain ⟨hshown, hother, hnext⟩ :=
        closed_of_closeTab (s := { s with pendingClose := none }) htabs hsettings h
      refine .inr (.inr ⟨id, ?_, hshown, hother, hnext⟩)
      rw [closing, hpending]
    · cases h
  | openSettings =>
    cases h
    exact .inr (.inl ⟨rfl, settingsTabId, mem_shown.mpr (.inr (.inr ⟨rfl, rfl⟩)), rfl⟩)
  | closeSettings =>
    simp only [BarState.step] at h
    split_ifs at h
    exact .inr (.inr ⟨settingsTabId, rfl, closed_of_closeSettings hs h⟩)
  | moveTab overId =>
    obtain ⟨stores, hstep, rfl⟩ := take_eq_some h
    simp only [TabState.step] at hstep
    split at hstep
    · cases hstep
      refine .inl ⟨rfl, rfl, fun x => ?_⟩
      rw [mem_shown, mem_shown, moveTab_mem]
    · cases hstep
  | stopDragging =>
    obtain ⟨stores, hstep, rfl⟩ := take_eq_some h
    simp only [TabState.step] at hstep
    split at hstep
    · cases hstep
      exact .inl ⟨rfl, rfl, fun _ => Iff.rfl⟩
    · cases hstep

end BarState

/-! ## Runs -/

variable {settingsTabId : Id}

omit [DecidableEq Id] in
theorem activeLive_iff_of_shown {s : BarState Id} :
    ActiveLive settingsTabId s ↔ ∀ x ∈ s.shown settingsTabId,
      ∃ id ∈ s.shown settingsTabId, s.activeTabId = some id := by
  refine ⟨fun h x hx => h (List.ne_nil_of_mem hx), fun h hne => ?_⟩
  obtain ⟨x, hx⟩ := List.exists_mem_of_ne_nil _ hne
  exact h x hx

/-- **One step** keeps a shown tab active exactly when the active tab is not closed in favour of none. -/
theorem activeLive_step_iff {s t : BarState Id} {event : BarEvent Id} (hs : s.Kept settingsTabId)
    (hactive : ActiveLive settingsTabId s) (h : s.step settingsTabId event = some t) :
    ActiveLive settingsTabId t ↔ LeavesActive settingsTabId s event := by
  rw [activeLive_iff_of_shown] at hactive
  rcases BarState.step_cases hs h with
    ⟨hnone, hsame, hshown⟩ | ⟨hnone, hlive⟩ | ⟨id, hclosing, hclosed⟩
  · refine iff_of_true ?_ ?_
    · rw [activeLive_iff_of_shown]
      intro x hx
      obtain ⟨id, hid, hid'⟩ := hactive x ((hshown x).mp hx)
      exact ⟨id, (hshown id).mpr hid, hsame.trans hid'⟩
    · rw [LeavesActive, hnone]
      nofun
  · refine iff_of_true (fun _ => hlive) ?_
    rw [LeavesActive, hnone]
    nofun
  · have hleaves : LeavesActive settingsTabId s event ↔ (s.activeTabId = some id →
        (∀ x ∈ s.stores.tabs, x = id) → ∀ x ∈ s.shown settingsTabId, x = id) := by
      simp only [LeavesActive, hclosing, Option.mem_def, Option.some.injEq, forall_eq']
    rw [hleaves, activeLive_iff_of_shown]
    by_cases hid : s.activeTabId = some id
    · rw [forall_prop_of_true hid]
      rcases hclosed.next hid with ⟨next, hnext, hne, ht⟩ | ⟨hall, ht⟩
      · -- another workspace tab becomes active
        refine iff_of_true (fun _ _ => ⟨next, ?_, ht⟩) fun hall => absurd (hall next hnext) hne
        exact (hclosed.shown next).mpr ⟨BarState.mem_shown.mpr (.inl hnext), hne⟩
      · -- nothing becomes active, so nothing may be left
        rw [forall_prop_of_true hall]
        constructor
        · intro hlive x hx
          by_contra hne
          obtain ⟨a, -, ha⟩ := hlive x ((hclosed.shown x).mpr ⟨hx, hne⟩)
          rw [ht] at ha
          cases ha
        · intro hleft x hx
          obtain ⟨hx, hne⟩ := (hclosed.shown x).mp hx
          exact absurd (hleft x hx) hne
    · -- the active tab stays
      refine iff_of_true (fun x hx => ?_) fun h => absurd h hid
      obtain ⟨a, ha, hactive⟩ := hactive x ((hclosed.shown x).mp hx).1
      refine ⟨a, (hclosed.shown a).mpr ⟨ha, fun heq => hid (heq ▸ hactive)⟩, ?_⟩
      rw [hclosed.other hid, hactive]

theorem activeLive_of_load {listed : List Id} {created : Id} {s : BarState Id}
    (h : BarState.load settingsTabId listed created = some s) : ActiveLive settingsTabId s := by
  unfold BarState.load at h
  split_ifs at h
  obtain ⟨stores, hstep, rfl⟩ := BarState.take_eq_some h
  simp only [TabState.step] at hstep
  split_ifs at hstep
  cases hstep
  intro _
  cases listed with
  | nil => exact ⟨created, by simp [BarState.shown, TabState.liveIds, BarState.tabsToLoad], rfl⟩
  | cons id listed => exact ⟨id, by simp [BarState.shown, TabState.liveIds, BarState.tabsToLoad], rfl⟩

/-- **The runs where a shown tab is always active**, as long as any tab is shown, are those of steps that
do not close the active tab where no other workspace tab is there and another tab is. -/
theorem activeLive_iff {listed : List Id} {created : Id} {s t : BarState Id} {events : List (BarEvent Id)}
    (hload : BarState.load settingsTabId listed created = some s)
    (h : Machine.run (BarState.step settingsTabId) s events = some t) :
    Machine.Always (BarState.step settingsTabId) (ActiveLive settingsTabId) s events ↔
      Machine.AllSteps (BarState.step settingsTabId) (LeavesActive settingsTabId) s events :=
  Machine.always_iff_allSteps_of_invariant (fun _ _ _ hs => hs.step)
    (fun _ _ _ => activeLive_step_iff) (BarState.kept_of_load hload) (activeLive_of_load hload) h

/-- Each kind of tab is closed while it is active. -/
def closeEach : List (BarEvent ℕ) :=
  [.openJsonTab 3, .requestCloseJsonTab 3, .openSettings, .closeSettings, .requestCloseTab 2, .tabDeleted 0]

theorem closeEach_live : ∃ s t, BarState.load 0 [1, 2] 1 = some s ∧
    Machine.run (BarState.step 0) s closeEach = some t ∧
    Machine.Always (BarState.step 0) (ActiveLive 0) s closeEach :=
  ⟨_, _, rfl, rfl, (activeLive_iff (rfl : BarState.load 0 [1, 2] 1 = some _) rfl).mpr (by decide)⟩

/-- A workspace tab, a viewer tab opened from it, and the workspace tab selected again and closed. -/
def closeWorkspaceTab : List (BarEvent ℕ) := [.openJsonTab 2, .clickTab 1, .requestCloseTab 1, .tabDeleted 0]

/-- The viewer tab is left, and nothing is active. -/
theorem closeWorkspaceTab_not_live : ∃ s t, BarState.load 0 [1] 1 = some s ∧
    Machine.run (BarState.step 0) s closeWorkspaceTab = some t ∧
    ¬ Machine.Always (BarState.step 0) (ActiveLive 0) s closeWorkspaceTab := by
  refine ⟨_, _, rfl, rfl, fun h => ?_⟩
  obtain ⟨id, -, hactive⟩ := h.last rfl (by decide)
  cases hactive

end

end OffsetExplorer.Tabs
