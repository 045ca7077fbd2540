import OffsetExplorer.Lib.Anchored
import OffsetExplorer.Lib.Machine
import Mathlib.Data.List.Nodup

/-!
# The tabs that are open

The workspace tabs, the viewer tabs and the places of tabs are three stores that do not know of one another,
and the tab bar changes all of them. A state holds what the place of a tab can depend on.

* `registerRoot`, `registerAfter`, `clearAnchor`, `remove`: the anchors of tabs.
* `moveTab`: what dragging does to the workspace tabs.
* `step`: what the user does and the back end answers; ids are never given out twice.
* **`WellKept.step`**: a tab is one of a kind, and nothing has an anchor that was not there before it.
-/

namespace OffsetExplorer.Tabs

variable {Id : Type}

/-! ## The places of tabs -/

/-- `Record<string, string | null>`. -/
abbrev Anchors (Id : Type) := Id → Option (Option Id)

/-- `anchors[id] ?? null`. -/
def anchorOf (anchors : Anchors Id) (id : Id) : Option Id := (anchors id).join

section

variable [DecidableEq Id]

/-- A tab without an anchor, unless it is known already. -/
def registerRoot (anchors : Anchors Id) (id : Id) : Anchors Id :=
  if (anchors id).isSome then anchors else Function.update anchors id (some none)

/-- A tab is anchored to another one. -/
def registerAfter (anchors : Anchors Id) (id : Id) (anchorId : Option Id) : Anchors Id :=
  Function.update anchors id (some anchorId)

/-- A tab that was dragged stands for itself. -/
def clearAnchor (anchors : Anchors Id) (id : Id) : Anchors Id := Function.update anchors id (some none)

/-- A tab that was closed is forgotten. -/
def remove (anchors : Anchors Id) (id : Id) : Anchors Id := Function.update anchors id none

end

/-! ## The stores -/

/-- The stores of workspace tabs, viewer tabs and anchors, and what is under way. -/
structure TabState (Id : Type) where
  tabs : List Id
  activeTabId : Option Id
  jsonTabs : List Id
  anchors : Anchors Id
  /-- The calls of `addTab` that wait for the back end: the tab that was active before. -/
  adding : List (Option Id)
  draggingId : Option Id
  didReorder : Bool
  /-- Every id that has been given out or selected. -/
  known : List Id

/-- There are no tabs yet. -/
def start : TabState Id where
  tabs := []
  activeTabId := none
  jsonTabs := []
  anchors := fun _ => none
  adding := []
  draggingId := none
  didReorder := false
  known := []

/-- What can happen to the stores. -/
inductive Event (Id : Type) where
  /-- The back end lists the tabs. -/
  | loadTabs (tabs : List Id)
  /-- A click on `+`. -/
  | addTab
  /-- The back end has made the tab of a call. -/
  | tabCreated (call : ℕ) (id : Id)
  | tabRefused (call : ℕ)
  /-- The back end has deleted a tab. -/
  | deleteTab (id : Id)
  | selectTab (id : Id)
  /-- A value is opened in a viewer tab. -/
  | openTab (id : Id)
  | closeTab (id : Id)
  | closeSettings
  | startDragging (id : Id)
  /-- The dragged tab comes over another. -/
  | moveTab (overId : Id)
  | stopDragging

section

variable [DecidableEq Id]

/-- The tab that is selected after a deletion: the one before, the one after, or none. -/
def fallback (tabs : List Id) (id : Id) : Option Id :=
  match tabs.idxOf? id with
  | some 0 => tabs[1]?
  | some (before + 1) => tabs[before]?.or tabs[before + 2]?
  -- index -1: there is nothing at -2, and something at 0
  | none => tabs[0]?

/-- `draggedId` goes to where `overId` is. -/
def moveTab (tabs : List Id) (draggedId overId : Id) : List Id :=
  if draggedId = overId then tabs
  else match tabs.idxOf? draggedId, tabs.idxOf? overId with
    | some fromIndex, some toIndex => (tabs.eraseIdx fromIndex).insertIdx toIndex draggedId
    | _, _ => tabs

/-- One step. What cannot happen is `none`. -/
def TabState.step (settingsTabId : Id) (s : TabState Id) : Event Id → Option (TabState Id)
  | .loadTabs tabs =>
    if tabs.Nodup ∧ ∀ id ∈ tabs, id ∉ s.jsonTabs then
      some { s with
        tabs
        activeTabId := s.activeTabId.or tabs[0]?
        anchors := tabs.foldl registerRoot s.anchors
        known := tabs ++ s.known }
    else none
  | .addTab => some { s with adding := s.adding ++ [s.activeTabId] }
  | .tabCreated call id =>
    match s.adding[call]? with
    | some activeBefore =>
      if id ∈ s.known then none
      else some { s with
        tabs := s.tabs ++ [id]
        activeTabId := some id
        anchors := registerAfter s.anchors id activeBefore
        adding := s.adding.eraseIdx call
        known := id :: s.known }
    | none => none
  | .tabRefused call => some { s with adding := s.adding.eraseIdx call }
  | .deleteTab id => some { s with
      tabs := s.tabs.filter (· ≠ id)
      activeTabId := if s.activeTabId = some id then fallback s.tabs id else s.activeTabId
      anchors := remove s.anchors id }
  | .selectTab id => some { s with activeTabId := some id, known := id :: s.known }
  | .openTab id =>
    if id ∈ s.known then none
    else some { s with
      jsonTabs := s.jsonTabs ++ [id]
      anchors := registerAfter s.anchors id s.activeTabId
      known := id :: s.known }
  | .closeTab id => some { s with
      jsonTabs := s.jsonTabs.filter (· ≠ id)
      activeTabId := if s.activeTabId = some id then s.tabs.getLast? else s.activeTabId
      anchors := remove s.anchors id }
  | .closeSettings => some { s with
      activeTabId := if s.activeTabId = some settingsTabId then s.tabs.getLast? else s.activeTabId }
  | .startDragging id => some { s with draggingId := some id, didReorder := false }
  | .moveTab overId =>
    match s.draggingId with
    | some draggedId => some { s with tabs := moveTab s.tabs draggedId overId, didReorder := true }
    | none => none
  | .stopDragging =>
    match s.draggingId with
    | some draggedId => some { s with
        draggingId := none
        anchors := if s.didReorder then clearAnchor s.anchors draggedId else s.anchors }
    | none => none

/-! ## Anchors after an operation -/

theorem anchorOf_update (anchors : Anchors Id) (id x : Id) (entry : Option (Option Id)) :
    anchorOf (Function.update anchors id entry) x = if x = id then entry.join else anchorOf anchors x := by
  rw [anchorOf, Function.update_apply]
  split_ifs <;> rfl

@[simp] theorem anchorOf_registerAfter (anchors : Anchors Id) (id x : Id) (anchorId : Option Id) :
    anchorOf (registerAfter anchors id anchorId) x = if x = id then anchorId else anchorOf anchors x :=
  anchorOf_update anchors id x (some anchorId)

@[simp] theorem anchorOf_clearAnchor (anchors : Anchors Id) (id x : Id) :
    anchorOf (clearAnchor anchors id) x = if x = id then none else anchorOf anchors x :=
  anchorOf_update anchors id x (some none)

@[simp] theorem anchorOf_remove (anchors : Anchors Id) (id x : Id) :
    anchorOf (remove anchors id) x = if x = id then none else anchorOf anchors x :=
  anchorOf_update anchors id x none

@[simp] theorem anchorOf_registerRoots (anchors : Anchors Id) (tabs : List Id) :
    anchorOf (tabs.foldl registerRoot anchors) = anchorOf anchors := by
  induction tabs generalizing anchors with
  | nil => rfl
  | cons id tabs ih =>
    rw [List.foldl_cons, ih]
    funext x
    unfold registerRoot
    split_ifs with hid
    · rfl
    · rw [anchorOf_update]
      split_ifs with hx
      · rw [hx, anchorOf, Option.not_isSome_iff_eq_none.mp hid]
        rfl
      · rfl

/-! ## What holds in every state -/

/-- The tabs that the dragged tab passes on its way. -/
def passed (tabs : List Id) (draggedId overId : Id) : List Id :=
  match tabs.idxOf? draggedId, tabs.idxOf? overId with
  | some fromIndex, some toIndex =>
    if fromIndex < toIndex then (tabs.drop (fromIndex + 1)).take (toIndex - fromIndex)
    else (tabs.drop toIndex).take (fromIndex - toIndex)
  | _, _ => []

theorem split_of_idxOf? {tabs : List Id} {id : Id} {index : ℕ} (h : tabs.idxOf? id = some index) :
    ∃ front back, tabs = front ++ id :: back ∧ front.length = index := by
  obtain ⟨hindex, hid, -⟩ := List.idxOf?_eq_some_iff.mp h
  refine ⟨tabs.take index, tabs.drop (index + 1), ?_, List.length_take_of_le (Nat.le_of_lt hindex)⟩
  rw [← hid, ← List.drop_eq_getElem_cons, List.take_append_drop]

/-- **A move** takes a tab over the tabs that it passes, to the right or to the left. -/
theorem moveTab_cases (tabs : List Id) (draggedId overId : Id) :
    (moveTab tabs draggedId overId = tabs ∧ passed tabs draggedId overId = []) ∨
    ∃ front back,
      (tabs = front ++ draggedId :: (passed tabs draggedId overId ++ back) ∧
        moveTab tabs draggedId overId = front ++ (passed tabs draggedId overId ++ draggedId :: back)) ∨
      (tabs = front ++ (passed tabs draggedId overId ++ draggedId :: back) ∧
        moveTab tabs draggedId overId = front ++ draggedId :: (passed tabs draggedId overId ++ back)) := by
  unfold moveTab passed
  split_ifs with hself
  · subst hself
    refine .inl ⟨rfl, ?_⟩
    split
    · rename_i hfrom hto
      rw [hfrom] at hto
      cases hto
      simp
    · rfl
  split
  · rename_i fromIndex toIndex hfrom hto
    refine .inr ?_
    obtain ⟨front, back, htabs, hfront⟩ := split_of_idxOf? hfrom
    obtain ⟨hlength, -⟩ := List.idxOf?_eq_some_iff.mp hto
    subst htabs hfront
    rw [List.length_append, List.length_cons] at hlength
    have herase : (front ++ draggedId :: back).eraseIdx front.length = front ++ back := by
      rw [List.eraseIdx_append_of_length_le (Nat.le_refl _), Nat.sub_self]
      rfl
    have hafter : (front ++ draggedId :: back).drop (front.length + 1) = back := by
      rw [List.append_cons]
      exact List.drop_left' (by simp)
    rw [herase]
    split_ifs with hright
    · -- to the right, over what comes first of `back`
      rw [hafter]
      refine ⟨front, back.drop (toIndex - front.length), .inl ⟨by rw [List.take_append_drop], ?_⟩⟩
      have hplace : (front ++ back.take (toIndex - front.length)).length = toIndex := by
        rw [List.length_append, List.length_take]
        omega
      have hinsert := Anchored.insertIdx_length (front ++ back.take (toIndex - front.length))
        (back.drop (toIndex - front.length)) draggedId
      rw [hplace, List.append_assoc, List.take_append_drop, List.append_assoc] at hinsert
      exact hinsert
    · -- to the left, over what comes last of `front`
      have hbefore : ((front ++ draggedId :: back).drop toIndex).take (front.length - toIndex) =
          front.drop toIndex := by
        rw [List.drop_append_of_le_length (by omega)]
        exact List.take_left' (by simp)
      rw [hbefore]
      refine ⟨front.take toIndex, back, .inr ⟨?_, ?_⟩⟩
      · rw [← List.append_assoc, List.take_append_drop]
      · have hplace : (front.take toIndex).length = toIndex := List.length_take_of_le (by omega)
        have hinsert :=
          Anchored.insertIdx_length (front.take toIndex) (front.drop toIndex ++ back) draggedId
        rw [hplace, ← List.append_assoc, List.take_append_drop] at hinsert
        exact hinsert
  · exact .inl ⟨rfl, rfl⟩

theorem moveTab_perm (tabs : List Id) (draggedId overId : Id) :
    (moveTab tabs draggedId overId).Perm tabs := by
  rcases moveTab_cases tabs draggedId overId with
    ⟨hsame, -⟩ | ⟨front, back, ⟨htabs, hmove⟩ | ⟨htabs, hmove⟩⟩
  · rw [hsame]
  · rw [hmove]
    nth_rewrite 2 [htabs]
    exact List.perm_middle.append_left front
  · rw [hmove]
    nth_rewrite 2 [htabs]
    exact List.perm_middle.symm.append_left front

/-- A tab is a workspace tab or a viewer tab, and once; what is an anchor, is active or was so when a tab
was asked for, has been given out before; no tab is its own anchor. -/
structure WellKept (s : TabState Id) : Prop where
  nodup : (s.tabs ++ s.jsonTabs).Nodup
  known : ∀ id ∈ s.tabs ++ s.jsonTabs, id ∈ s.known
  anchor : ∀ id anchorId, anchorOf s.anchors id = some anchorId → anchorId ∈ s.known ∧ anchorId ≠ id
  active : ∀ id ∈ s.activeTabId, id ∈ s.known
  adding : ∀ before ∈ s.adding, ∀ id ∈ before, id ∈ s.known

omit [DecidableEq Id] in
theorem wellKept_start : WellKept (start : TabState Id) where
  nodup := List.nodup_nil
  known := List.forall_mem_nil _
  anchor := fun _ _ => nofun
  active := fun _ => nofun
  adding := List.forall_mem_nil _

theorem fallback_mem {tabs : List Id} {id next : Id} (h : fallback tabs id = some next) : next ∈ tabs := by
  unfold fallback at h
  split at h
  · exact List.mem_of_getElem? h
  · rw [Option.or_eq_some_iff] at h
    rcases h with h | ⟨-, h⟩ <;> exact List.mem_of_getElem? h
  · exact List.mem_of_getElem? h

theorem anchor_of_update {anchors after : Anchors Id} {known more : List Id} {id : Id}
    {anchorId : Option Id} (h : ∀ x a, anchorOf anchors x = some a → a ∈ known ∧ a ≠ x)
    (hsub : known ⊆ more)
    (hafter : ∀ x, anchorOf after x = if x = id then anchorId else anchorOf anchors x)
    (hid : ∀ a ∈ anchorId, a ∈ known ∧ a ≠ id) :
    ∀ x a, anchorOf after x = some a → a ∈ more ∧ a ≠ x := by
  intro x a hx
  rw [hafter] at hx
  split_ifs at hx with heq
  · subst heq
    exact (hid a hx).imp_left fun ha => hsub ha
  · exact (h x a hx).imp_left fun ha => hsub ha

omit [DecidableEq Id] in
theorem WellKept.selected {s t : TabState Id} (h : WellKept s)
    (htabs : t.tabs ++ t.jsonTabs = s.tabs ++ s.jsonTabs) (hanchors : t.anchors = s.anchors)
    (hadding : ∀ before ∈ t.adding, before ∈ s.adding ∨ before = s.activeTabId)
    (hknown : s.known ⊆ t.known) (hactive : ∀ id ∈ t.activeTabId, id ∈ t.known) : WellKept t where
  nodup := htabs ▸ h.nodup
  known := fun id hid => hknown (h.known id (htabs ▸ hid))
  anchor := fun id a ha => (h.anchor id a (hanchors ▸ ha)).imp_left fun hmem => hknown hmem
  active := hactive
  adding := fun before hbefore id hid => hknown <| (hadding before hbefore).elim
    (fun hmem => h.adding before hmem id hid) fun heq => h.active id (heq ▸ hid)

theorem WellKept.closed {s t : TabState Id} {id : Id} (h : WellKept s)
    (htabs : (t.tabs ++ t.jsonTabs).Sublist (s.tabs ++ s.jsonTabs))
    (hanchors : t.anchors = remove s.anchors id) (hadding : t.adding = s.adding)
    (hknown : t.known = s.known) (hactive : ∀ x ∈ t.activeTabId, x ∈ s.known) : WellKept t where
  nodup := h.nodup.sublist htabs
  known := fun x hx => hknown ▸ h.known x (htabs.subset hx)
  anchor := by
    rw [hanchors, hknown]
    exact anchor_of_update h.anchor (List.Subset.refl _) (anchorOf_remove _ _) nofun
  active := fun x hx => hknown ▸ hactive x hx
  adding := fun before hbefore x hx => hknown ▸ h.adding before (hadding ▸ hbefore) x hx

theorem WellKept.opened {s t : TabState Id} {id : Id} {anchorId : Option Id} (h : WellKept s)
    (hfresh : id ∉ s.known) (hanchor : ∀ a ∈ anchorId, a ∈ s.known)
    (htabs : (t.tabs ++ t.jsonTabs).Perm (id :: (s.tabs ++ s.jsonTabs)))
    (hanchors : t.anchors = registerAfter s.anchors id anchorId)
    (hadding : ∀ before ∈ t.adding, before ∈ s.adding) (hknown : t.known = id :: s.known)
    (hactive : ∀ x ∈ t.activeTabId, x = id ∨ x ∈ s.activeTabId) : WellKept t where
  nodup := htabs.nodup_iff.mpr (List.nodup_cons.mpr ⟨fun hid => hfresh (h.known id hid), h.nodup⟩)
  known := by
    intro x hx
    rw [hknown]
    rcases List.mem_cons.mp (htabs.mem_iff.mp hx) with rfl | hx
    · exact List.mem_cons_self
    · exact List.mem_cons_of_mem id (h.known x hx)
  anchor := by
    rw [hanchors, hknown]
    refine anchor_of_update h.anchor (List.subset_cons_self id s.known) (anchorOf_registerAfter _ _ · _) ?_
    exact fun a ha => ⟨hanchor a ha, fun heq => hfresh (heq ▸ hanchor a ha)⟩
  active := by
    intro x hx
    rw [hknown]
    rcases hactive x hx with rfl | hx
    · exact List.mem_cons_self
    · exact List.mem_cons_of_mem id (h.active x hx)
  adding := fun before hbefore x hx =>
    hknown ▸ List.mem_cons_of_mem id (h.adding before (hadding before hbefore) x hx)

/-- **A step keeps this up.** -/
theorem WellKept.step {settingsTabId : Id} {s t : TabState Id} {event : Event Id} (h : WellKept s)
    (hstep : s.step settingsTabId event = some t) : WellKept t := by
  have hlast : ∀ id ∈ s.tabs.getLast?, id ∈ s.known := fun id hid =>
    h.known id (List.mem_append_left _ (List.mem_of_getLast? hid))
  cases event with
  | loadTabs tabs =>
    simp only [TabState.step] at hstep
    split_ifs at hstep with hguard
    cases hstep
    refine ⟨?_, ?_, ?_, ?_, fun before hb id hid => List.mem_append_right tabs (h.adding before hb id hid)⟩
    · exact hguard.1.append h.nodup.of_append_right fun id hid hj => hguard.2 id hid hj
    · intro id hid
      rcases List.mem_append.mp hid with hid | hid
      · exact List.mem_append_left _ hid
      · exact List.mem_append_right tabs (h.known id (List.mem_append_right _ hid))
    · intro id a ha
      rw [anchorOf_registerRoots] at ha
      exact (h.anchor id a ha).imp_left (List.mem_append_right tabs)
    · intro id hid
      rw [Option.mem_def, Option.or_eq_some_iff] at hid
      rcases hid with hid | ⟨-, hid⟩
      · exact List.mem_append_right tabs (h.active id hid)
      · exact List.mem_append_left _ (List.mem_of_getElem? hid)
  | addTab =>
    cases hstep
    refine h.selected rfl rfl (fun before hbefore => ?_) (List.Subset.refl _) h.active
    exact (List.mem_append.mp hbefore).imp_right List.mem_singleton.mp
  | tabCreated call id =>
    simp only [TabState.step] at hstep
    split at hstep
    · rename_i before hbefore
      split_ifs at hstep with hfresh
      cases hstep
      refine h.opened hfresh (h.adding before (List.mem_of_getElem? hbefore)) ?_ rfl
        (fun _ hb => List.mem_of_mem_eraseIdx hb) rfl fun x hx => .inl (Option.some.inj hx).symm
      rw [← List.append_cons]
      exact List.perm_middle
    · cases hstep
  | tabRefused call =>
    cases hstep
    exact h.selected rfl rfl (fun _ hb => .inl (List.mem_of_mem_eraseIdx hb)) (List.Subset.refl _) h.active
  | deleteTab id =>
    cases hstep
    refine h.closed (List.filter_sublist.append_right _) rfl rfl rfl fun x hx => ?_
    simp only at hx
    split_ifs at hx
    · exact h.known x (List.mem_append_left _ (fallback_mem hx))
    · exact h.active x hx
  | selectTab id =>
    cases hstep
    refine h.selected rfl rfl (fun _ hb => .inl hb) (List.subset_cons_self id s.known) fun x hx => ?_
    cases hx
    exact List.mem_cons_self
  | openTab id =>
    simp only [TabState.step] at hstep
    split_ifs at hstep with hfresh
    cases hstep
    refine h.opened hfresh h.active ?_ rfl (fun _ hb => hb) rfl fun _ hx => .inr hx
    rw [← List.append_assoc]
    exact List.perm_append_singleton id _
  | closeTab id =>
    cases hstep
    refine h.closed (List.filter_sublist.append_left _) rfl rfl rfl fun x hx => ?_
    simp only at hx
    split_ifs at hx
    · exact hlast x hx
    · exact h.active x hx
  | closeSettings =>
    cases hstep
    refine h.selected rfl rfl (fun _ hb => .inl hb) (List.Subset.refl _) fun x hx => ?_
    simp only at hx
    split_ifs at hx
    · exact hlast x hx
    · exact h.active x hx
  | startDragging id =>
    cases hstep
    exact h.selected rfl rfl (fun _ hb => .inl hb) (List.Subset.refl _) h.active
  | moveTab overId =>
    simp only [TabState.step] at hstep
    split at hstep
    · rename_i draggedId _
      cases hstep
      have hperm := (moveTab_perm s.tabs draggedId overId).append_right s.jsonTabs
      exact ⟨hperm.nodup_iff.mpr h.nodup, fun x hx => h.known x (hperm.mem_iff.mp hx), h.anchor, h.active,
        h.adding⟩
    · cases hstep
  | stopDragging =>
    simp only [TabState.step] at hstep
    split at hstep
    · cases hstep
      refine ⟨h.nodup, h.known, ?_, h.active, h.adding⟩
      simp only
      split_ifs
      · exact anchor_of_update h.anchor (List.Subset.refl _) (anchorOf_clearAnchor _ _) nofun
      · exact h.anchor
    · cases hstep

end

end OffsetExplorer.Tabs
