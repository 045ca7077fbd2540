import OffsetExplorer.PublishTab.View

/-!
# Drafts in flight

What the Publish tab does to a draft whose publish has not been answered.

* `Calm`: the navigation that keeps the component and the publishes it started together.
* `PublishedOnce`: a draft in flight is in flight once, cannot be edited or sent again, and its
  clean completion clears it and no other draft.
* **`published_once`**: every run of calm steps reaches only such states.
* **`navigation_breaks_publish`**: navigation while the broker works can send a draft twice and
  clear a draft that nobody sent.
-/

namespace OffsetExplorer.PublishTab

/-- The events that edit the draft that is shown, or send it. -/
def Event.usesDraft : Event → Bool
  | .edit _ | .commitSelector _ _ | .publish | .confirm => true
  | _ => false

section

variable (browser : Browser) (maxMessageSizeBytes : ℕ) (w : Workspace)

/-- Nothing edits or sends the draft `key`. -/
def Locked (key : String) : Prop :=
  ∀ e w', step browser maxMessageSizeBytes w e = some w' → e.usesDraft = true →
    ∀ t ∈ w.tab, t.target.draftKey ≠ key

/-- A draft is published once and only itself is cleared. -/
structure PublishedOnce : Prop where
  locked : ∀ m ∈ w.mutations, Locked browser maxMessageSizeBytes w m.sent.draftKey
  single : (w.mutations.map fun m => m.sent.draftKey).Nodup
  cleared : ∀ m ∈ w.mutations, ∀ result : PublishOutcome, result.failure = none →
    ∃ w', step browser maxMessageSizeBytes w (.settle m.id (.ok result)) = some w' ∧
      w'.drafts.get? m.sent.draftKey = some [emptyMessage w.nextId] ∧
        ∀ key ≠ m.sent.draftKey, w'.drafts.get? key = w.drafts.get? key

/-- The tab is not taken to a draft in flight, nor away from its own, and no type selector is left
open when a publish starts. -/
def Calm : Event → Prop
  | .mount target => ∀ m ∈ w.mutations, m.sent.draftKey ≠ target.draftKey
  | .retarget target =>
    (∀ m ∈ w.mutations, m.sent.draftKey ≠ target.draftKey) ∧
      ∀ t ∈ w.tab, t.publish.isPending = false
  | .confirm => ∀ t ∈ w.tab, t.openSelectors = []
  | _ => True

instance : ∀ e, Decidable (Calm w e)
  | .mount _ => inferInstanceAs (Decidable (∀ m ∈ w.mutations, _))
  | .retarget _ =>
    inferInstanceAs (Decidable ((∀ m ∈ w.mutations, _) ∧ ∀ t ∈ w.tab, _))
  | .confirm => inferInstanceAs (Decidable (∀ t ∈ w.tab, _))
  | .unmount | .gate _ | .edit _ | .toggleSelector _ | .closeSelector _ | .commitSelector _ _
  | .publish | .cancel | .settle _ _ | .clearForConnection _ => inferInstanceAs (Decidable True)

end

/-! ## The invariant -/

/-- The component that shows a draft in flight, or that started a publish, waits for it. -/
structure Sound (w : Workspace) : Prop where
  tab_lt : ∀ t ∈ w.tab, t.mount < w.mounts
  lt : ∀ m ∈ w.mutations, m.owner < w.mounts ∧ m.id < w.calls
  ids : (w.mutations.map Mutation.id).Nodup
  single : (w.mutations.map fun m => m.sent.draftKey).Nodup
  options : ∀ m ∈ w.mutations, m.optionsKey = m.sent.draftKey
  waits : ∀ t ∈ w.tab, ∀ m ∈ w.mutations,
    m.owner = t.mount ∨ m.sent.draftKey = t.target.draftKey → t.publish = .pending m.id
  closed : ∀ t ∈ w.tab, t.publish.isPending = true → t.openSelectors = []

/-- The publishes stay as they are, and so does the component as far as they go. -/
structure Quiet (w w' : Workspace) : Prop where
  mutations : w'.mutations = w.mutations
  mounts : w'.mounts = w.mounts
  calls : w'.calls = w.calls
  tab : ∀ t' ∈ w'.tab, ∃ t ∈ w.tab, t'.mount = t.mount ∧ t'.target = t.target ∧
    (t.publish.isPending = true → t'.publish = t.publish) ∧
    (t.publish.isPending = false → t'.publish.isPending = false) ∧
    (t.openSelectors = [] → t.publish.isPending = true → t'.openSelectors = [])

theorem Quiet.sound {w w' : Workspace} (hq : Quiet w w') (h : Sound w) : Sound w' := by
  have hwait : ∀ t' ∈ w'.tab, ∀ m ∈ w.mutations,
      m.owner = t'.mount ∨ m.sent.draftKey = t'.target.draftKey → t'.publish = .pending m.id := by
    intro t' ht' m hm hor
    obtain ⟨t, ht, hmount, htarget, hsame, -⟩ := hq.tab t' ht'
    rw [hmount, htarget] at hor
    have hp := h.waits t ht m hm hor
    rw [hsame (by rw [hp]; rfl), hp]
  constructor
  · intro t' ht'
    obtain ⟨t, ht, hmount, -⟩ := hq.tab t' ht'
    rw [hmount, hq.mounts]
    exact h.tab_lt t ht
  · rw [hq.mutations, hq.mounts, hq.calls]
    exact h.lt
  · rw [hq.mutations]
    exact h.ids
  · rw [hq.mutations]
    exact h.single
  · rw [hq.mutations]
    exact h.options
  · rw [hq.mutations]
    exact hwait
  · intro t' ht' hp'
    obtain ⟨t, ht, -, -, hsame, hidle, hclosed⟩ := hq.tab t' ht'
    have hp : t.publish.isPending = true := by
      by_contra hne
      rw [hidle (Bool.not_eq_true _ ▸ hne)] at hp'
      exact Bool.noConfusion hp'
    exact hclosed (h.closed t ht hp) hp

/-! ## Steps -/

variable {browser : Browser} {maxMessageSizeBytes : ℕ} {w w' : Workspace}

theorem edit_eq_some {t : View} {e : Edit} (h : w.edit t e = some w') :
    ∃ messages nextId, w' = { w.setMessages t messages with nextId } := by
  obtain ⟨⟨messages, nextId⟩, -, rfl⟩ := Option.map_eq_some_iff.mp h
  exact ⟨messages, nextId, rfl⟩

theorem quiet_of_tab {t t' : View} (ht : w.tab = some t) (htab : w'.tab = some t')
    (hm : w'.mutations = w.mutations) (hmounts : w'.mounts = w.mounts) (hcalls : w'.calls = w.calls)
    (hmount : t'.mount = t.mount) (htarget : t'.target = t.target)
    (hsame : t.publish.isPending = true → t'.publish = t.publish)
    (hidle : t.publish.isPending = false → t'.publish.isPending = false)
    (hclosed : t.openSelectors = [] → t.publish.isPending = true → t'.openSelectors = []) :
    Quiet w w' := by
  refine ⟨hm, hmounts, hcalls, ?_⟩
  intro t'' ht''
  rw [htab] at ht''
  cases ht''
  exact ⟨t, ht, hmount, htarget, hsame, hidle, hclosed⟩

/-- **The form starts no publish but by `confirm`.** -/
theorem stepForm_quiet {t : View} {e : Event} (ht : w.tab = some t) (he : e ≠ .confirm)
    (h : stepForm browser maxMessageSizeBytes w t e = some w') : Quiet w w' := by
  cases e with
  | edit e =>
    rw [stepForm, Option.ite_none_left_eq_some] at h
    obtain ⟨messages, nextId, rfl⟩ := edit_eq_some h.2
    exact quiet_of_tab ht ht rfl rfl rfl rfl rfl (fun _ => rfl) id fun h _ => h
  | toggleSelector slot =>
    rw [stepForm, Option.ite_none_left_eq_some, not_or] at h
    obtain ⟨⟨hp, -⟩, hw⟩ := h
    cases hw
    exact quiet_of_tab ht rfl rfl rfl rfl rfl rfl (fun _ => rfl) id fun _ h => absurd h hp
  | closeSelector slot =>
    rw [stepForm] at h
    cases h
    refine quiet_of_tab ht rfl rfl rfl rfl rfl rfl (fun _ => rfl) id fun h _ => ?_
    show t.openSelectors.erase slot = []
    rw [h, List.erase_nil]
  | commitSelector slot encoding =>
    rw [stepForm, Option.ite_none_right_eq_some] at h
    obtain ⟨hslot, hw⟩ := h
    obtain ⟨e, -, hedit⟩ := Option.bind_eq_some_iff.mp hw
    obtain ⟨messages, nextId, rfl⟩ := edit_eq_some hedit
    refine quiet_of_tab ht rfl rfl rfl rfl rfl rfl (fun _ => rfl) id fun h _ => ?_
    rw [h] at hslot
    exact absurd hslot List.not_mem_nil
  | publish =>
    rw [stepForm, Option.ite_none_left_eq_some] at h
    cases h.2
    exact quiet_of_tab ht rfl rfl rfl rfl rfl rfl (fun _ => rfl) id fun h _ => h
  | cancel =>
    rw [stepForm, Option.ite_none_right_eq_some] at h
    obtain ⟨⟨-, hp⟩, hw⟩ := h
    cases hw
    exact quiet_of_tab ht rfl rfl rfl rfl rfl rfl (fun h => absurd h hp) (fun _ => rfl) fun h _ => h
  | confirm => exact absurd rfl he
  | _ => cases h

theorem Sound.mount (h : Sound w) {target : Target}
    (hC : ∀ m ∈ w.mutations, m.sent.draftKey ≠ target.draftKey) : Sound (w.mount target) := by
  refine ⟨?_, fun m hm => ⟨(h.lt m hm).1.trans (Nat.lt_succ_self _), (h.lt m hm).2⟩, h.ids, h.single,
    h.options, ?_, ?_⟩
  · intro t ht
    cases ht
    exact Nat.lt_succ_self _
  · intro t ht m hm hor
    cases ht
    rcases hor with howner | hkey
    · exact absurd howner (Nat.ne_of_lt (h.lt m hm).1)
    · exact absurd hkey (hC m hm)
  · intro t ht _
    cases ht
    rfl

theorem Sound.retarget (h : Sound w) {t : View} (ht : w.tab = some t) {target : Target}
    (hC : ∀ m ∈ w.mutations, m.sent.draftKey ≠ target.draftKey)
    (hidle : t.publish.isPending = false) : Sound (w.retarget t target) := by
  -- The component waits for nothing, so no publish is its own and no options change.
  have howner : ∀ m ∈ w.mutations, m.owner ≠ t.mount := by
    intro m hm ho
    rw [h.waits t ht m hm (Or.inl ho)] at hidle
    exact Bool.noConfusion hidle
  have hmap : (w.retarget t target).mutations = w.mutations := by
    refine (List.map_congr_left fun m hm => if_neg (howner m hm)).trans ?_
    exact List.map_id _
  constructor
  · intro t' ht'
    cases ht'
    exact h.tab_lt t ht
  · rw [hmap]
    exact h.lt
  · rw [hmap]
    exact h.ids
  · rw [hmap]
    exact h.single
  · rw [hmap]
    exact h.options
  · rw [hmap]
    intro t' ht' m hm hor
    cases ht'
    rcases hor with ho | hkey
    · exact absurd ho (howner m hm)
    · exact absurd hkey (hC m hm)
  · intro t' ht' hp
    cases ht'
    exact absurd hp (by rw [hidle]; exact Bool.false_ne_true)

theorem Sound.mutate (h : Sound w) {t : View} (ht : w.tab = some t)
    (hidle : t.publish.isPending = false) (hclosed : t.openSelectors = []) :
    Sound (w.mutate t) := by
  have hfree : ∀ m ∈ w.mutations, ¬ (m.owner = t.mount ∨ m.sent.draftKey = t.target.draftKey) := by
    intro m hm hor
    rw [h.waits t ht m hm hor] at hidle
    exact Bool.noConfusion hidle
  constructor
  · intro t' ht'
    cases ht'
    exact h.tab_lt t ht
  · intro m hm
    rcases List.mem_append.mp hm with hm | hm
    · exact ⟨(h.lt m hm).1, (h.lt m hm).2.trans (Nat.lt_succ_self _)⟩
    · cases List.mem_singleton.mp hm
      exact ⟨h.tab_lt t ht, Nat.lt_succ_self _⟩
  · show ((w.mutations ++ [_]).map Mutation.id).Nodup
    rw [List.map_append, List.nodup_append]
    refine ⟨h.ids, List.nodup_singleton _, ?_⟩
    intro id hid id' hid'
    obtain ⟨m, hm, rfl⟩ := List.mem_map.mp hid
    cases List.mem_singleton.mp hid'
    exact Nat.ne_of_lt (h.lt m hm).2
  · show ((w.mutations ++ [_]).map fun m : Mutation => m.sent.draftKey).Nodup
    rw [List.map_append, List.nodup_append]
    refine ⟨h.single, List.nodup_singleton _, ?_⟩
    intro key hkey key' hkey'
    obtain ⟨m, hm, rfl⟩ := List.mem_map.mp hkey
    cases List.mem_singleton.mp hkey'
    exact fun heq => hfree m hm (Or.inr heq)
  · intro m hm
    rcases List.mem_append.mp hm with hm | hm
    · exact h.options m hm
    · cases List.mem_singleton.mp hm
      rfl
  · intro t' ht' m hm hor
    cases ht'
    rcases List.mem_append.mp hm with hm | hm
    · exact absurd hor (hfree m hm)
    · cases List.mem_singleton.mp hm
      rfl
  · intro t' ht' _
    cases ht'
    exact hclosed

theorem settle_tab (m : Mutation) (answer : Except String PublishOutcome) :
    ∀ t' ∈ (w.settle m answer).tab, ∃ t ∈ w.tab, t'.mount = t.mount ∧ t'.target = t.target ∧
      t'.openSelectors = t.openSelectors ∧
        if t.mount = m.owner then t'.publish.isPending = false else t' = t := by
  intro t' ht'
  cases htab : w.tab with
  | none =>
    rcases answer with message | ⟨delivered, _ | failure, notAttempted⟩ <;>
      simp [Workspace.settle, Workspace.onSuccess, Workspace.onError, Workspace.updateOwner,
        Workspace.resetMessages, htab] at ht'
  | some t =>
    refine ⟨t, rfl, ?_⟩
    by_cases ho : t.mount = m.owner
    · rcases answer with message | ⟨delivered, _ | failure, notAttempted⟩ <;>
        simp [Workspace.settle, Workspace.onSuccess, Workspace.onError, Workspace.updateOwner,
          Workspace.resetMessages, htab, ho] at ht' <;>
        subst ht' <;> simp [ho, PublishState.isPending]
    · rcases answer with message | ⟨delivered, _ | failure, notAttempted⟩ <;>
        simp [Workspace.settle, Workspace.onSuccess, Workspace.onError, Workspace.updateOwner,
          Workspace.resetMessages, htab, ho] at ht' <;>
        subst ht' <;> simp [ho]

theorem settle_mutations (m : Mutation) (answer : Except String PublishOutcome) :
    (w.settle m answer).mutations = w.mutations.filter (·.id ≠ m.id) ∧
      (w.settle m answer).mounts = w.mounts ∧ (w.settle m answer).calls = w.calls := by
  rcases answer with message | ⟨delivered, _ | failure, notAttempted⟩ <;> exact ⟨rfl, rfl, rfl⟩

theorem Sound.settle (h : Sound w) {m : Mutation} (hm : m ∈ w.mutations)
    (answer : Except String PublishOutcome) : Sound (w.settle m answer) := by
  obtain ⟨hrest, hmounts, hcalls⟩ := settle_mutations (w := w) m answer
  have hmem : ∀ n ∈ (w.settle m answer).mutations, n ∈ w.mutations ∧ n.id ≠ m.id := by
    intro n hn
    rw [hrest, List.mem_filter] at hn
    exact ⟨hn.1, of_decide_eq_true hn.2⟩
  have hsub : (w.settle m answer).mutations.Sublist w.mutations := hrest ▸ List.filter_sublist
  constructor
  · intro t' ht'
    obtain ⟨t, ht, hmount, -⟩ := settle_tab m answer t' ht'
    rw [hmount, hmounts]
    exact h.tab_lt t ht
  · intro n hn
    rw [hmounts, hcalls]
    exact h.lt n (hmem n hn).1
  · exact h.ids.sublist (hsub.map _)
  · exact h.single.sublist (hsub.map _)
  · exact fun n hn => h.options n (hmem n hn).1
  · intro t' ht' n hn hor
    obtain ⟨t, ht, hmount, htarget, -, hpub⟩ := settle_tab m answer t' ht'
    rw [hmount, htarget] at hor
    have hp := h.waits t ht n (hmem n hn).1 hor
    by_cases ho : t.mount = m.owner
    · -- The component that waited for this answer waits for no other.
      rw [h.waits t ht m hm (Or.inl ho.symm), PublishState.pending.injEq] at hp
      exact absurd hp.symm (hmem n hn).2
    · rw [if_neg ho] at hpub
      rw [hpub, hp]
  · intro t' ht' hp
    obtain ⟨t, ht, hmount, htarget, hopen, hpub⟩ := settle_tab m answer t' ht'
    by_cases ho : t.mount = m.owner
    · rw [if_pos ho, hp] at hpub
      exact absurd hpub Bool.noConfusion
    · rw [if_neg ho] at hpub
      rw [hopen]
      exact h.closed t ht (hpub ▸ hp)

/-- **The invariant is kept by every calm step.** -/
theorem Sound.step {e : Event} (h : Sound w) (hC : Calm w e)
    (hs : step browser maxMessageSizeBytes w e = some w') : Sound w' := by
  have form : ∀ t, w.tab = some t → stepForm browser maxMessageSizeBytes w t e = some w' →
      Sound w' := by
    intro t ht hf
    by_cases he : e = .confirm
    · subst he
      rw [stepForm, Option.ite_none_right_eq_some] at hf
      obtain ⟨⟨-, hp⟩, hw⟩ := hf
      cases hw
      exact h.mutate ht (Bool.not_eq_true _ ▸ hp) (hC t ht)
    · exact (stepForm_quiet ht he hf).sound h
  cases e with
  | mount target =>
    rw [PublishTab.step, Option.ite_none_left_eq_some] at hs
    cases hs.2
    exact h.mount hC
  | unmount =>
    rw [PublishTab.step, Option.ite_none_right_eq_some] at hs
    cases hs.2
    exact Quiet.sound (w := w) ⟨rfl, rfl, rfl, fun t' ht' => (by cases ht')⟩ h
  | retarget target =>
    obtain ⟨t, ht, hr⟩ := Option.bind_eq_some_iff.mp hs
    rw [Option.ite_none_right_eq_some] at hr
    cases hr.2
    exact h.retarget ht hC.1 (hC.2 t ht)
  | gate gates =>
    cases hs
    refine Quiet.sound (w := w) ⟨rfl, rfl, rfl, ?_⟩ h
    intro t' ht'
    obtain ⟨t, ht, rfl⟩ := Option.map_eq_some_iff.mp ht'
    refine ⟨t, ht, ?_⟩
    split_ifs
    · exact ⟨rfl, rfl, fun _ => rfl, id, fun ho _ => ho⟩
    · exact ⟨rfl, rfl, fun _ => rfl, id, fun _ _ => rfl⟩
  | settle id answer =>
    obtain ⟨m, hm, rfl⟩ := Option.map_eq_some_iff.mp hs
    exact h.settle (List.mem_of_find?_eq_some hm) answer
  | clearForConnection connectionId =>
    cases hs
    exact Quiet.sound (w := w) ⟨rfl, rfl, rfl,
      fun t' ht' => ⟨t', ht', rfl, rfl, fun _ => rfl, id, fun ho _ => ho⟩⟩ h
  | _ =>
    obtain ⟨t, ht, hf⟩ := Option.bind_eq_some_iff.mp hs
    rw [Option.ite_none_right_eq_some] at hf
    exact form t ht hf.2

/-! ## Drafts in flight -/

theorem Sound.locked (h : Sound w) {m : Mutation} (hm : m ∈ w.mutations) :
    Locked browser maxMessageSizeBytes w m.sent.draftKey := by
  intro e w' hs huse t ht hkey
  have hp : t.publish.isPending = true := by
    rw [h.waits t ht m hm (Or.inr hkey.symm)]
    rfl
  have hf : stepForm browser maxMessageSizeBytes w t e = some w' := by
    cases e <;> first
      | (obtain ⟨t', ht', hf⟩ := Option.bind_eq_some_iff.mp hs
         cases ht.symm.trans ht'
         exact (Option.ite_none_right_eq_some.mp hf).2)
      | cases huse
  cases e with
  | edit e =>
    rw [stepForm, if_pos (Or.inl hp)] at hf
    cases hf
  | commitSelector slot encoding =>
    rw [stepForm, h.closed t ht hp, if_neg List.not_mem_nil] at hf
    cases hf
  | publish =>
    rw [stepForm, if_pos (Or.inr (Or.inl hp))] at hf
    cases hf
  | confirm =>
    rw [stepForm, if_neg fun hc => hc.2 hp] at hf
    cases hf
  | _ => cases huse

theorem find?_mutation (h : Sound w) {m : Mutation} (hm : m ∈ w.mutations) :
    w.mutations.find? (·.id = m.id) = some m := by
  cases hf : w.mutations.find? (·.id = m.id) with
  | none => exact absurd rfl (of_decide_eq_false (Bool.not_eq_true _ ▸ List.find?_eq_none.mp hf m hm))
  | some n =>
    have hid : n.id = m.id := of_decide_eq_true (List.find?_some hf :)
    rw [List.inj_on_of_nodup_map h.ids (List.mem_of_find?_eq_some hf) hm hid]

theorem Sound.cleared (h : Sound w) {m : Mutation} (hm : m ∈ w.mutations) {result : PublishOutcome}
    (hr : result.failure = none) :
    ∃ w', PublishTab.step browser maxMessageSizeBytes w (.settle m.id (.ok result)) = some w' ∧
      w'.drafts.get? m.sent.draftKey = some [emptyMessage w.nextId] ∧
        ∀ key ≠ m.sent.draftKey, w'.drafts.get? key = w.drafts.get? key := by
  refine ⟨w.settle m (.ok result), ?_, ?_⟩
  · rw [PublishTab.step, find?_mutation h hm]
    rfl
  · have hd : (w.settle m (.ok result)).drafts = w.drafts.reset m.sent.draftKey w.nextId := by
      rw [← h.options m hm]
      simp only [Workspace.settle, Workspace.onSuccess, hr, Option.isNone_none, if_true]
      rfl
    rw [hd]
    exact ⟨Record.get?_set_self _ _ _, fun key hkey => Record.get?_set_ne _ hkey _⟩

theorem Sound.publishedOnce (h : Sound w) : PublishedOnce browser maxMessageSizeBytes w where
  locked _ hm := h.locked hm
  single := h.single
  cleared _ hm _ hr := h.cleared hm hr

theorem sound_start (gates : Gates) (drafts : DraftStore) : Sound { gates, drafts } where
  tab_lt _ ht := by cases ht
  lt _ hm := by cases hm
  ids := List.nodup_nil
  single := List.nodup_nil
  options _ hm := by cases hm
  waits _ ht := by cases ht
  closed _ ht := by cases ht

/-- **A draft is published once and only itself is cleared**, in every state that calm steps reach
from a workspace without a Publish tab. -/
theorem published_once (browser : Browser) (maxMessageSizeBytes : ℕ) (gates : Gates)
    (drafts : DraftStore) {es : List Event} {w : Workspace}
    (hC : Machine.AllSteps (step browser maxMessageSizeBytes) Calm { gates, drafts } es)
    (hw : Machine.run (step browser maxMessageSizeBytes) { gates, drafts } es = some w) :
    PublishedOnce browser maxMessageSizeBytes w :=
  (Machine.run_induction (fun _ _ _ hC h hs => h.step hC hs) hC (sound_start gates drafts)
    hw).publishedOnce

/-- A partition of one topic, in the first workspace tab. -/
def ordersPartition (n : ℤ) : Target where
  activeTabId := some "tab-1"
  connectionId := "c1"
  topicName := "orders"
  partitionId := n

/-- A connected cluster that allows publishing, with no draft stored. -/
def openWorkspace : Workspace where
  gates := { allowPublishing := some true, isConnected := true, deniedReason := none }

/-- A browser that parses `null` alone. -/
def plainBrowser : Browser where
  parsesJson text := text = "null"
  atobLength text := some (text.length / 4 * 3)
  toLocaleString := toString

/-- A publish that is answered while its tab stays; then one of another partition. -/
def stayEvents : List Event :=
  [.mount (ordersPartition 0), .publish, .confirm, .settle 0 (.ok {}),
    .retarget (ordersPartition 1), .publish, .confirm]

/-- The workspace after the events, which have to be possible in this order. -/
def afterEvents (es : List Event)
    (h : (Machine.run (step plainBrowser 1000) openWorkspace es).isSome = true) : Workspace :=
  (Machine.run (step plainBrowser 1000) openWorkspace es).get h

theorem run_afterEvents (es : List Event)
    (h : (Machine.run (step plainBrowser 1000) openWorkspace es).isSome = true) :
    Machine.run (step plainBrowser 1000) openWorkspace es = some (afterEvents es h) :=
  (Option.some_get h).symm

theorem published_once_stay :
    (afterEvents stayEvents (by decide)).mutations.length = 1 ∧
      PublishedOnce plainBrowser 1000 (afterEvents stayEvents (by decide)) := by
  refine ⟨by decide, ?_⟩
  have hC : Machine.AllSteps (step plainBrowser 1000) Calm openWorkspace stayEvents := by decide
  exact published_once plainBrowser 1000 openWorkspace.gates ∅ hC (run_afterEvents stayEvents _)

/-- The tab is left while the broker works, and opened again. -/
def remountEvents : List Event :=
  [.mount (ordersPartition 0), .publish, .confirm, .unmount, .mount (ordersPartition 0),
    .publish, .confirm]

/-- Another partition is selected while the broker works. -/
def retargetEvents : List Event :=
  [.mount (ordersPartition 0), .publish, .confirm, .retarget (ordersPartition 1)]

/-- The publish is confirmed by keyboard, with a type selector open. -/
def selectorEvents : List Event :=
  [.mount (ordersPartition 0), .toggleSelector (.value "message-1"), .publish, .confirm]

theorem neighbour_cleared : ∃ m ∈ (afterEvents retargetEvents (by decide)).mutations,
    m.sent = ordersPartition 0 ∧
      ((step plainBrowser 1000 (afterEvents retargetEvents (by decide))
        (.settle m.id (.ok {}))).map fun w =>
          (w.drafts.get? (ordersPartition 0).draftKey, w.drafts.get? (ordersPartition 1).draftKey)) =
        some (none, some [emptyMessage 2]) := by
  decide

theorem edited_in_flight : ∃ m ∈ (afterEvents selectorEvents (by decide)).mutations,
    m.sent = ordersPartition 0 ∧
      (step plainBrowser 1000 (afterEvents selectorEvents (by decide))
        (.commitSelector (.value "message-1") .null)).isSome = true := by
  decide

/-- **Navigation while the broker works breaks both halves**: after the tab is opened again the draft
in flight is sent again, and after a re-target the neighbouring draft is the one that is cleared. An
open type selector lets even the waiting tab edit its draft. -/
theorem navigation_breaks_publish :
    ¬ PublishedOnce plainBrowser 1000 (afterEvents remountEvents (by decide)) ∧
      ¬ PublishedOnce plainBrowser 1000 (afterEvents retargetEvents (by decide)) ∧
        ¬ PublishedOnce plainBrowser 1000 (afterEvents selectorEvents (by decide)) := by
  refine ⟨?_, ?_, ?_⟩
  · intro h
    exact absurd h.single (by decide)
  · intro h
    obtain ⟨m, hm, hsent, hmap⟩ := neighbour_cleared
    obtain ⟨w, hw, hcleared, -⟩ := h.cleared m hm {} rfl
    rw [hw, Option.map_some, Option.some.injEq, Prod.mk.injEq, ← hsent, hcleared] at hmap
    exact Option.some_ne_none _ hmap.1
  · intro h
    obtain ⟨m, hm, hsent, hsome⟩ := edited_in_flight
    obtain ⟨w, hw⟩ := Option.isSome_iff_exists.mp hsome
    have htab : (afterEvents selectorEvents (by decide)).tab.map (fun t => t.target.draftKey) =
        some (ordersPartition 0).draftKey := by decide
    obtain ⟨t, ht, hkey⟩ := Option.map_eq_some_iff.mp htab
    exact h.locked m hm _ w hw rfl t ht (hsent ▸ hkey)

end OffsetExplorer.PublishTab
