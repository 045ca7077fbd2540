import OffsetExplorer.Tabs.Stores

/-!
# The order of the tab bar

Tabs without an anchor come in the order of the workspace tabs, and every other tab is put right after its
anchor, first the workspace tabs and then the viewer tabs. A tab that is put before its anchor is there goes
to the end.

* `mergeTabOrder`, `order`: the order that is shown.
* `Placed`: every tab is shown once, and beside its anchor.
* `Meets`: the steps after which no tab is put before its anchor, by **`inOrder_step_iff`**.
* **`placed_of_allSteps`**: where all steps are such, every order that is shown is right.
-/

namespace OffsetExplorer.Tabs

open Anchored (InOrder Settled Beside HangsOn)

variable {Id : Type} [DecidableEq Id]

/-- One tab is put into the result. -/
def place (anchors : Anchors Id) (liveIds : List Id) (result : List Id) (id : Id) : List Id :=
  if id ∉ liveIds ∨ id ∈ result then result
  else
    match (anchorOf anchors id).bind fun anchorId => result.idxOf? anchorId with
    | some anchorIndex => result.insertIdx (anchorIndex + 1) id
    | none => result.insertIdx result.length id

/-- The tabs without an anchor in their order, and the others put in one after another. -/
def mergeTabOrder (rootOrder anchoredIds : List Id) (anchors : Anchors Id) (liveIds : List Id) : List Id :=
  anchoredIds.foldl (place anchors liveIds) (rootOrder.filter (· ∈ liveIds))

/-! ## What the tab bar passes -/

namespace TabState

/-- The tabs that are open. -/
def liveIds (s : TabState Id) : List Id := s.tabs ++ s.jsonTabs

/-- The workspace tabs without an anchor. -/
def rootOrder (s : TabState Id) : List Id := s.tabs.filter fun id => (anchorOf s.anchors id).isNone

/-- The workspace tabs that have an anchor. -/
def anchoredTabs (s : TabState Id) : List Id := s.tabs.filter fun id => (anchorOf s.anchors id).isSome

/-- The tabs with an anchor, as `TabBar` passes them: those of the workspace first. -/
def anchoredIds (s : TabState Id) : List Id := s.anchoredTabs ++ s.jsonTabs

/-- The order that is shown. -/
def order (s : TabState Id) : List Id := mergeTabOrder s.rootOrder s.anchoredIds s.anchors s.liveIds

end TabState

/-- Every live tab is shown once, the roots in their order, and a tab with a live anchor after it, with only
tabs between that are anchored, directly or not, to the same tab. -/
structure Placed (s : TabState Id) : Prop where
  perm : s.order.Perm s.liveIds
  roots : s.rootOrder.Sublist s.order
  beside : ∀ id ∈ s.liveIds, ∀ anchorId ∈ s.liveIds, anchorOf s.anchors id = some anchorId →
    Beside (anchorOf s.anchors) s.order anchorId id

/-! ## Inserting tabs -/

theorem place_eq {anchors : Anchors Id} {liveIds result : List Id} {id : Id} (hlive : id ∈ liveIds)
    (hnew : id ∉ result) : place anchors liveIds result id =
      Anchored.insertAfter result (anchorOf anchors id) id := by
  rw [place, if_neg (by simp [hlive, hnew])]
  cases hanchor : anchorOf anchors id with
  | none => exact List.insertIdx_length_self
  | some anchorId =>
    rw [Option.bind_some, Anchored.insertAfter, List.idxOf_eq_getD_idxOf?]
    cases hindex : result.idxOf? anchorId with
    | none =>
      rw [if_neg (List.idxOf?_eq_none_iff.mp hindex)]
      exact List.insertIdx_length_self
    | some index =>
      have hmem : anchorId ∈ result := by
        rw [← List.isSome_idxOf?, hindex]
        rfl
      rw [if_pos hmem, Option.getD_some]

theorem foldl_place {anchors : Anchors Id} {liveIds result ids : List Id} (hlive : ∀ id ∈ ids, id ∈ liveIds)
    (hnodup : (result ++ ids).Nodup) :
    ids.foldl (place anchors liveIds) result = Anchored.merge (anchorOf anchors) result ids := by
  induction ids generalizing result with
  | nil => rfl
  | cons id ids ih =>
    obtain ⟨hid, hlive⟩ := List.forall_mem_cons.mp hlive
    have hnew : id ∉ result := fun hmem =>
      (List.disjoint_of_nodup_append hnodup) hmem List.mem_cons_self
    have hperm := (Anchored.insertAfter_perm result (anchorOf anchors id) id).append_right ids
    rw [List.append_assoc, List.singleton_append] at hperm
    rw [List.foldl_cons, place_eq hid hnew, ih hlive (hperm.nodup_iff.mpr hnodup)]
    rfl

omit [DecidableEq Id] in
theorem rootOrder_append_perm (s : TabState Id) : (s.rootOrder ++ s.anchoredIds).Perm s.liveIds := by
  have hkinds : s.anchoredTabs = s.tabs.filter fun id => !(anchorOf s.anchors id).isNone := by
    refine List.filter_congr fun id _ => ?_
    cases anchorOf s.anchors id <;> rfl
  rw [TabState.anchoredIds, hkinds, ← List.append_assoc]
  exact (List.filter_append_perm _ s.tabs).append_right s.jsonTabs

theorem order_eq {s : TabState Id} (h : WellKept s) :
    s.order = Anchored.merge (anchorOf s.anchors) s.rootOrder s.anchoredIds := by
  have hperm := rootOrder_append_perm s
  have hroots : s.rootOrder.filter (· ∈ s.liveIds) = s.rootOrder := List.filter_eq_self.mpr fun id hid =>
    decide_eq_true (hperm.mem_iff.mp (List.mem_append_left _ hid))
  rw [TabState.order, mergeTabOrder, hroots]
  exact foldl_place (fun id hid => hperm.mem_iff.mp (List.mem_append_right _ hid))
    (hperm.nodup_iff.mpr h.nodup)

/-- **In every state** every live tab is shown once and the roots keep their order. -/
theorem order_perm {s : TabState Id} (h : WellKept s) :
    s.order.Perm s.liveIds ∧ s.rootOrder.Sublist s.order := by
  rw [order_eq h]
  exact ⟨(Anchored.merge_perm _ _ _).trans (rootOrder_append_perm s), Anchored.sublist_merge _ _ _⟩

/-- **Where no tab is put before its anchor**, the order is right. -/
theorem placed_of_inOrder {s : TabState Id} (h : WellKept s)
    (horder : InOrder (anchorOf s.anchors) s.anchoredIds) : Placed s := by
  obtain ⟨hperm, hroots⟩ := order_perm h
  refine ⟨hperm, hroots, fun id hid anchorId hanchor heq => ?_⟩
  have hroot : ∀ x ∈ s.rootOrder, anchorOf s.anchors x = none := fun x hx =>
    Option.isNone_iff_eq_none.mp (List.mem_filter.mp hx).2
  have hsettled : Settled (anchorOf s.anchors) s.order := by
    rw [order_eq h]
    refine Anchored.settled_merge (fun x hx => (h.anchor x x hx).2 rfl) ?_ ?_ horder
    · intro x hx a _ hxa
      rw [hroot x hx] at hxa
      cases hxa
    · intro x hx a _ hxa
      rw [hroot x hx] at hxa
      cases hxa
  exact hsettled id (hperm.mem_iff.mpr hid) anchorId (hperm.mem_iff.mpr hanchor) heq

/-- A chain of anchors. -/
example : mergeTabOrder [1, 2] [3, 4]
    (registerAfter (registerAfter (fun _ => none) 3 (some 1)) 4 (some 3)) [1, 2, 3, 4] = [1, 3, 4, 2] := by
  decide

/-! ## The steps that keep tabs in order -/

/-- No tab is put before its anchor. -/
def Ordered (s : TabState Id) : Prop := InOrder (anchorOf s.anchors) s.anchoredIds

/-- A new tab was not asked for while a viewer tab was active that is still there; a tab with an anchor is
not dragged over its anchor, where that has an anchor itself, nor over a tab that is anchored to it; tabs
that are loaded come after their anchors. This is what `Ordered` takes; a tab that is put before its anchor goes to
the end, which may be beside the anchor all the same, so for `Placed` it is more than enough. -/
def Meets (s : TabState Id) : Event Id → Prop
  | .tabCreated call _ => ∀ anchorId, s.adding[call]? = some (some anchorId) → anchorId ∉ s.jsonTabs
  | .moveTab overId => ∀ draggedId, s.draggingId = some draggedId → anchorOf s.anchors draggedId ≠ none →
      ∀ id ∈ passed s.tabs draggedId overId, anchorOf s.anchors id ≠ none →
        anchorOf s.anchors draggedId ≠ some id ∧ anchorOf s.anchors id ≠ some draggedId
  | .loadTabs tabs => Ordered { s with tabs }
  | _ => True

theorem Ordered.of_remove {s t : TabState Id} {id : Id} (h : Ordered s)
    (htabs : t.tabs.Sublist s.tabs) (hjson : t.jsonTabs.Sublist s.jsonTabs)
    (hanchor : ∀ x, anchorOf t.anchors x = if x = id then none else anchorOf s.anchors x) : Ordered t := by
  have hcases : ∀ x, anchorOf t.anchors x = anchorOf s.anchors x ∨ anchorOf t.anchors x = none := by
    intro x
    rw [hanchor]
    split_ifs
    · exact .inr rfl
    · exact .inl rfl
  refine InOrder.sublist h (List.Sublist.append ?_ hjson) fun x _ => hcases x
  refine (List.monotone_filter_right t.tabs fun x hx => ?_).trans (htabs.filter _)
  rcases hcases x with heq | heq
  · rwa [← heq]
  · rw [heq] at hx
    cases hx

omit [DecidableEq Id] in
theorem inOrder_move_iff {anchor : Id → Option Id} {front mid back : List Id} {d : Id} :
    (InOrder anchor (front ++ d :: (mid ++ back)) → (InOrder anchor (front ++ (mid ++ d :: back)) ↔
      ∀ id ∈ mid, anchor d ≠ some id ∧ anchor id ≠ some d)) ∧
    (InOrder anchor (front ++ (mid ++ d :: back)) → (InOrder anchor (front ++ d :: (mid ++ back)) ↔
      ∀ id ∈ mid, anchor d ≠ some id ∧ anchor id ≠ some d)) := by
  simp only [InOrder, List.pairwise_append, List.pairwise_cons, List.mem_append, List.mem_cons]
  refine ⟨fun h => ⟨fun h' id hid => ?_, fun hmid => ?_⟩, fun h => ⟨fun h' id hid => ?_, fun hmid => ?_⟩⟩
  all_goals grind

theorem ordered_moveTab_iff {s t : TabState Id} {draggedId overId : Id} (h : Ordered s)
    (htabs : t.tabs = moveTab s.tabs draggedId overId) (hjson : t.jsonTabs = s.jsonTabs)
    (hanchors : t.anchors = s.anchors) :
    Ordered t ↔ (anchorOf s.anchors draggedId ≠ none →
      ∀ id ∈ passed s.tabs draggedId overId, anchorOf s.anchors id ≠ none →
        anchorOf s.anchors draggedId ≠ some id ∧ anchorOf s.anchors id ≠ some draggedId) := by
  have hmid : ∀ mid : List Id, (∀ id ∈ mid.filter fun id => (anchorOf s.anchors id).isSome,
      anchorOf s.anchors draggedId ≠ some id ∧ anchorOf s.anchors id ≠ some draggedId) ↔
      ∀ id ∈ mid, anchorOf s.anchors id ≠ none →
        anchorOf s.anchors draggedId ≠ some id ∧ anchorOf s.anchors id ≠ some draggedId := by
    intro mid
    simp only [List.mem_filter, Option.isSome_iff_ne_none, and_imp]
  rw [Ordered, TabState.anchoredIds, TabState.anchoredTabs] at h ⊢
  rw [hanchors, htabs, hjson, ← hmid]
  by_cases hdragged : (anchorOf s.anchors draggedId).isSome = true
  · rw [forall_prop_of_true (Option.isSome_iff_ne_none.mp hdragged)]
    rcases moveTab_cases s.tabs draggedId overId with
      ⟨hsame, hnone⟩ | ⟨front, back, ⟨hbefore, hmove⟩ | ⟨hbefore, hmove⟩⟩
    · rw [hsame, hnone]
      exact iff_of_true h (List.forall_mem_nil _)
    all_goals
      rw [hbefore] at h
      rw [hmove]
      simp only [List.filter_append, List.filter_cons, hdragged, if_true, List.append_assoc,
        List.cons_append] at h ⊢
    · exact inOrder_move_iff.1 h
    · exact inOrder_move_iff.2 h
  · refine iff_of_true ?_ fun hne => absurd (Option.isSome_iff_ne_none.mpr hne) hdragged
    -- a root is not among the tabs that are put next to another
    rcases moveTab_cases s.tabs draggedId overId with
      ⟨hsame, -⟩ | ⟨front, back, ⟨hbefore, hmove⟩ | ⟨hbefore, hmove⟩⟩
    · rwa [hsame]
    all_goals
      rw [hbefore] at h
      rw [hmove]
      simpa only [List.filter_append, List.filter_cons, hdragged, Bool.false_eq_true, if_false,
        List.append_assoc] using h

theorem inOrder_registerAfter {s : TabState Id} {id : Id} (h : WellKept s) (hfresh : id ∉ s.known)
    (anchorId : Option Id) :
    (s.tabs.filter fun x => (anchorOf (registerAfter s.anchors id anchorId) x).isSome) = s.anchoredTabs ∧
      (Ordered s → InOrder (anchorOf (registerAfter s.anchors id anchorId)) s.anchoredIds) ∧
      ∀ x ∈ s.liveIds, anchorOf (registerAfter s.anchors id anchorId) x ≠ some id := by
  have hsame : ∀ x ∈ s.liveIds,
      anchorOf (registerAfter s.anchors id anchorId) x = anchorOf s.anchors x := by
    intro x hx
    rw [anchorOf_registerAfter, if_neg]
    rintro rfl
    exact hfresh (h.known x hx)
  have hlive : ∀ x ∈ s.anchoredIds, x ∈ s.liveIds := fun x hx =>
    (rootOrder_append_perm s).mem_iff.mp (List.mem_append_right _ hx)
  refine ⟨List.filter_congr fun x hx => by rw [hsame x (List.mem_append_left _ hx)], fun horder => ?_,
    fun x hx heq => ?_⟩
  · exact horder.sublist (List.Sublist.refl _) fun x hx => .inl (hsame x (hlive x hx))
  · rw [hsame x hx] at heq
    exact hfresh (h.anchor x id heq).1

/-- **Which steps keep tabs in order**: no tab is put before its anchor after a step exactly when the step
meets the condition. -/
theorem ordered_step_iff {settingsTabId : Id} {s t : TabState Id} {event : Event Id} (h : WellKept s)
    (horder : Ordered s) (hstep : s.step settingsTabId event = some t) : Ordered t ↔ Meets s event := by
  cases event with
  | loadTabs tabs =>
    simp only [TabState.step] at hstep
    split_ifs at hstep
    cases hstep
    simp only [Meets, Ordered, TabState.anchoredIds, TabState.anchoredTabs, anchorOf_registerRoots]
  | tabCreated call id =>
    simp only [TabState.step] at hstep
    split at hstep
    · rename_i before hbefore
      split_ifs at hstep with hfresh
      cases hstep
      obtain ⟨hfilter, hold, hnone⟩ := inOrder_registerAfter h hfresh before
      have hown : anchorOf (registerAfter s.anchors id before) id = before := by
        rw [anchorOf_registerAfter, if_pos rfl]
      rw [Ordered, TabState.anchoredIds, TabState.anchoredTabs, List.filter_append, hfilter]
      rcases before with _ | anchorId
      · rw [List.filter_cons_of_neg (by rw [hown]; exact Bool.false_ne_true), List.filter_nil,
          List.append_nil]
        refine iff_of_true (hold horder) fun anchorId heq => ?_
        rw [hbefore] at heq
        cases heq
      · rw [List.filter_cons_of_pos (by rw [hown]; rfl), List.filter_nil, List.append_assoc,
          List.singleton_append]
        obtain ⟨htabs, hjson, hacross⟩ := List.pairwise_append.mp (hold horder)
        simp only [Meets, hbefore, Option.some.injEq, forall_eq']
        constructor
        · intro hpairs hmem
          obtain ⟨-, hpairs, -⟩ := List.pairwise_append.mp hpairs
          exact (List.pairwise_cons.mp hpairs).1 anchorId hmem hown
        · intro hmem
          refine List.pairwise_append.mpr ⟨htabs, List.pairwise_cons.mpr ⟨fun x hx heq => ?_, hjson⟩, ?_⟩
          · rw [hown] at heq
            exact hmem (Option.some.inj heq ▸ hx)
          · intro x hx
            exact List.forall_mem_cons.mpr
              ⟨hnone x (List.mem_append_left _ (List.mem_filter.mp hx).1), hacross x hx⟩
    · cases hstep
  | openTab id =>
    simp only [TabState.step] at hstep
    split_ifs at hstep with hfresh
    cases hstep
    obtain ⟨hfilter, hold, hnone⟩ := inOrder_registerAfter h hfresh s.activeTabId
    refine iff_of_true ?_ trivial
    rw [Ordered, TabState.anchoredIds, TabState.anchoredTabs, hfilter, ← List.append_assoc]
    refine List.pairwise_append.mpr ⟨hold horder, List.pairwise_singleton _ _, fun x hx y hy => ?_⟩
    rw [List.mem_singleton.mp hy]
    exact hnone x ((rootOrder_append_perm s).mem_iff.mp (List.mem_append_right _ hx))
  | moveTab overId =>
    simp only [TabState.step] at hstep
    split at hstep
    · rename_i draggedId hdragged
      cases hstep
      refine Iff.trans (ordered_moveTab_iff horder rfl rfl rfl) ?_
      simp [Meets, hdragged]
    · cases hstep
  | deleteTab id =>
    cases hstep
    exact iff_of_true
      (horder.of_remove List.filter_sublist (List.Sublist.refl _) (anchorOf_remove _ _)) trivial
  | closeTab id =>
    cases hstep
    exact iff_of_true
      (horder.of_remove (List.Sublist.refl _) List.filter_sublist (anchorOf_remove _ _)) trivial
  | stopDragging =>
    simp only [TabState.step] at hstep
    split at hstep
    · rename_i draggedId _
      cases hstep
      refine iff_of_true ?_ trivial
      cases hreorder : s.didReorder with
      | false => exact horder
      | true =>
        exact horder.of_remove (List.Sublist.refl _) (List.Sublist.refl _) (anchorOf_clearAnchor _ _)
    · cases hstep
  | addTab | tabRefused | selectTab | closeSettings | startDragging =>
    cases hstep
    exact iff_of_true horder trivial

/-! ## Runs -/

/-- Every state of a run is well kept, so that every order that is shown has each live tab once. -/
theorem always_order_perm (settingsTabId : Id) (events : List (Event Id)) :
    Machine.Always (TabState.step settingsTabId)
      (fun s => s.order.Perm s.liveIds ∧ s.rootOrder.Sublist s.order) start events :=
  Machine.always_of_allSteps (fun _ _ _ _ h hstep => h.step hstep) (fun _ h => order_perm h)
    (Machine.allSteps_of_forall (fun _ _ => trivial) start events) wellKept_start

/-- **Where all steps keep tabs in order, every order that is shown is right**, whatever the user does and
the back end answers, in any order. -/
theorem placed_of_allSteps (settingsTabId : Id) (events : List (Event Id))
    (h : Machine.AllSteps (TabState.step settingsTabId) Meets start events) :
    Machine.Always (TabState.step settingsTabId) Placed start events :=
  Machine.always_of_allSteps (I := fun s => WellKept s ∧ Ordered s)
    (fun _ _ _ hmeets hs hstep => ⟨hs.1.step hstep, (ordered_step_iff hs.1 hs.2 hstep).mpr hmeets⟩)
    (fun _ hs => placed_of_inOrder hs.1 hs.2) h ⟨wellKept_start, List.Pairwise.nil⟩

theorem always_ordered_iff {settingsTabId : Id} {events : List (Event Id)} {t : TabState Id}
    (h : Machine.run (TabState.step settingsTabId) start events = some t) :
    Machine.Always (TabState.step settingsTabId) (fun s => WellKept s ∧ Ordered s) start events ↔
      Machine.AllSteps (TabState.step settingsTabId) Meets start events := by
  refine Machine.always_iff_allSteps (fun s event t hs hstep => ?_) ⟨wellKept_start, List.Pairwise.nil⟩ h
  rw [and_iff_right (hs.1.step hstep), ordered_step_iff hs.1 hs.2 hstep]

/-- Two tabs, a viewer tab that is opened from the first, and a tab that is asked for while it is active. -/
def besideViewer : List (Event ℕ) :=
  [.loadTabs [1, 2], .openTab 3, .selectTab 3, .addTab, .tabCreated 0 4]

theorem besideViewer_isSome : (Machine.run (TabState.step 0) start besideViewer).isSome = true := by decide

/-- The new tab is anchored to the viewer tab, and the second tab comes between. -/
theorem besideViewer_not_placed : ¬ Machine.Always (TabState.step 0) Placed start besideViewer := by
  intro h
  have hplaced := h.last (Machine.run_after _ _ _ besideViewer_isSome)
  obtain ⟨front, between, back, horder, hbetween⟩ := hplaced.beside 4 (by decide) 3 (by decide) (by decide)
  have hshown :
      (Machine.after (TabState.step 0) start besideViewer besideViewer_isSome).order = [1, 3, 2, 4] := by
    decide
  have hroot : anchorOf (Machine.after (TabState.step 0) start besideViewer besideViewer_isSome).anchors 2 =
      none := by
    decide
  have htwo : 2 ∈ between := by
    rw [hshown] at horder
    rcases front with _ | ⟨_, _ | ⟨_, front⟩⟩
    · cases (List.cons.inj horder).1
    · rcases between with _ | ⟨_, between⟩
      · cases (List.cons.inj (List.cons.inj (List.cons.inj horder).2).2).1
      · rw [(List.cons.inj (List.cons.inj (List.cons.inj horder).2).2).1]
        exact List.mem_cons_self
    · have hmem : 3 ∈ [2, 4] := by
        rw [(List.cons.inj (List.cons.inj horder).2).2]
        exact List.mem_append_right front List.mem_cons_self
      exact absurd hmem (by decide)
  obtain ⟨_, hanchor, -⟩ := Relation.TransGen.head'_iff.mp (hbetween 2 htwo)
  rw [hroot] at hanchor
  cases hanchor

theorem viewers_placed : Machine.Always (TabState.step 0) Placed start
    [Event.loadTabs [1, 2], .openTab 3, .selectTab 3, .openTab 4] :=
  placed_of_allSteps 0 _
    ⟨List.Pairwise.nil, fun _ _ => ⟨trivial, fun _ _ => ⟨trivial, fun _ _ =>
      ⟨trivial, fun _ _ => trivial⟩⟩⟩⟩

end OffsetExplorer.Tabs
