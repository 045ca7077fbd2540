import OffsetExplorer.Tabs.Table

/-!
# The order of the tabs

Calls take their turns if each takes effect in the order in which they were begun, the answers arrive in that
order, no tab is added while the tabs are loaded, and a new order is saved of tabs that are, while nothing is in
flight.

* `settled`: the bar as it will be when every answer has arrived.
* `reorder_eq`: every tab gets its place in the list.
* `InOrder`: the table lists the tabs as the bar has them, if every move was saved; `Ordered`: so it is once they
  are loaded.
* **`next_launch_shows_bar`**: then the next launch shows the bar as it is.
-/

namespace OffsetExplorer.TabTable

open Machine

variable {rows tabs tabs' listed : List Tab} {id name : String} {ids : List String} {s t : TabsState}

/-! ## Labels -/

/-- A tab under its new name. -/
def relabel (id name : String) (label : String × String) : String × String :=
  if label.1 = id then (label.1, name) else label

theorem map_label_setName (tabs : List Tab) (id name : String) :
    (tabs.map (setName id name)).map Tab.label = (tabs.map Tab.label).map (relabel id name) := by
  rw [List.map_map, List.map_map]
  refine List.map_congr_left fun tab _ => ?_
  rw [Function.comp_apply, Function.comp_apply, setName]
  by_cases h : tab.id = id
  · rw [if_pos h]
    exact (if_pos h).symm
  · rw [if_neg h]
    exact (if_neg h).symm

theorem map_label_filter (tabs : List Tab) (id : String) :
    (tabs.filter (·.id ≠ id)).map Tab.label = (tabs.map Tab.label).filter (·.1 ≠ id) := by
  rw [List.filter_map]
  rfl

theorem map_id_eq (tabs : List Tab) : tabs.map Tab.id = (tabs.map Tab.label).map Prod.fst := by
  rw [List.map_map]
  rfl

/-- The bar as it will be when every answer has arrived. -/
def settled (s : TabsState) : List Tab := s.answers.foldl settle s.tabs

theorem settle_perm (h : tabs.Perm tabs') (a : Answer) : (settle tabs a).Perm (settle tabs' a) := by
  cases a with
  | created tab => exact h.append_right _
  | renamed id name => exact h.map _
  | deleted id => exact h.filter _
  | reordered => exact h
  | refused => exact h

theorem foldl_settle_perm (h : tabs.Perm tabs') (answers : List Answer) :
    (answers.foldl settle tabs).Perm (answers.foldl settle tabs') := by
  induction answers generalizing tabs tabs' with
  | nil => exact h
  | cons a answers ih => exact ih (settle_perm h a)

/-! ## Positions -/

theorem lt_nextPosition {tab : Tab} (h : tab ∈ rows) : tab.position < nextPosition rows := by
  have hmem : tab.position ∈ rows.map Tab.position := List.mem_map_of_mem h
  rw [nextPosition]
  cases hmax : (rows.map Tab.position).max? with
  | none =>
    rw [List.max?_eq_none_iff.mp hmax] at hmem
    cases hmem
  | some max =>
    have hle := (List.max?_eq_some_iff.mp hmax).2 _ hmem
    rw [Option.getD_some]
    omega

theorem positions_create (h : (rows.map Tab.position).Nodup) (id name : String) :
    ((create rows id name).map Tab.position).Nodup := by
  rw [create, List.map_append, List.nodup_append]
  refine ⟨h, List.nodup_singleton _, fun x hx y hy => ?_⟩
  obtain ⟨tab, htab, rfl⟩ := List.mem_map.mp hx
  rw [List.mem_singleton.mp hy]
  exact Int.ne_of_lt (lt_nextPosition htab)

theorem reorderFrom_eq (hids : ids.Nodup) (position : ℕ) (rows : List Tab) :
    reorderFrom position rows ids = rows.map fun tab =>
      if tab.id ∈ ids then { tab with position := (position + ids.idxOf tab.id : ℕ) } else tab := by
  induction ids generalizing position rows with
  | nil => simp [reorderFrom]
  | cons id ids ih =>
    obtain ⟨hid, hids⟩ := List.nodup_cons.mp hids
    rw [reorderFrom, ih hids, List.map_map]
    refine List.map_congr_left fun tab _ => ?_
    rw [Function.comp_apply, setPosition]
    by_cases heq : tab.id = id
    · rw [if_pos heq, if_neg (by rw [heq]; exact hid), if_pos (heq ▸ List.mem_cons_self), heq, List.idxOf_cons_self,
        Nat.add_zero]
    · rw [if_neg heq, List.idxOf_cons_ne _ (Ne.symm heq)]
      simp only [List.mem_cons, heq, false_or, Nat.succ_eq_add_one]
      rw [show position + 1 + ids.idxOf tab.id = position + (ids.idxOf tab.id + 1) by omega]

/-- **Every tab gets its place in the list.** -/
theorem reorder_eq (hids : ids.Nodup) (hrows : ∀ tab ∈ rows, tab.id ∈ ids) :
    reorder rows ids = rows.map fun tab => { tab with position := (ids.idxOf tab.id : ℕ) } := by
  rw [reorder, reorderFrom_eq hids]
  refine List.map_congr_left fun tab htab => ?_
  rw [if_pos (hrows tab htab), Nat.zero_add]

theorem Listed.unique (hpositions : (rows.map Tab.position).Nodup) (h : Listed rows tabs) (h' : Listed rows tabs') :
    tabs = tabs' := by
  refine List.Perm.eq_of_pairwise (fun a b ha hb hle hle' => ?_) h.sorted h'.sorted (h.perm.trans h'.perm.symm)
  exact List.inj_on_of_nodup_map hpositions (h.perm.mem_iff.mp ha) (h'.perm.mem_iff.mp hb) (Int.le_antisymm hle hle')

theorem Listed.append (h : Listed rows listed) (id name : String) :
    Listed (create rows id name) (listed ++ [newTab rows id name]) where
  perm := h.perm.append_right _
  sorted := by
    refine List.pairwise_append.mpr ⟨h.sorted, List.pairwise_singleton _ _, fun a ha b hb => ?_⟩
    rw [List.mem_singleton.mp hb]
    exact Int.le_of_lt (lt_nextPosition (h.perm.mem_iff.mp ha))

theorem position_setName (id name : String) (tab : Tab) : (setName id name tab).position = tab.position := by
  rw [setName]
  split_ifs <;> rfl

theorem map_position_setName (rows : List Tab) (id name : String) :
    (rows.map (setName id name)).map Tab.position = rows.map Tab.position := by
  rw [List.map_map]
  exact List.map_congr_left fun tab _ => position_setName id name tab

theorem Listed.rename (h : Listed rows listed) (id name : String) :
    Listed (rows.map (setName id name)) (listed.map (setName id name)) where
  perm := h.perm.map _
  sorted := by
    rw [List.pairwise_map]
    refine h.sorted.imp fun hle => ?_
    rw [position_setName, position_setName]
    exact hle

theorem Listed.delete (h : Listed rows listed) (id : String) :
    Listed (rows.filter (·.id ≠ id)) (listed.filter (·.id ≠ id)) where
  perm := h.perm.filter _
  sorted := h.sorted.filter _

/-- A list that has the images of another in some order comes from such an order of it. -/
theorem exists_of_map_perm {α β : Type} {f : α → β} {l : List α} {l' : List β} (h : l'.Perm (l.map f)) :
    ∃ arranged : List α, arranged.Perm l ∧ arranged.map f = l' := by
  have himages : List.Forall₂ (fun b a => b = f a) (l.map f) l :=
    List.forall₂_map_left_iff.mpr (List.forall₂_same.mpr fun a _ => rfl)
  obtain ⟨arranged, hforall, hperm⟩ := List.perm_comp_forall₂ h himages
  have heq : List.Forall₂ Eq l' (arranged.map f) := List.forall₂_map_right_iff.mpr hforall
  rw [List.forall₂_eq_eq_eq] at heq
  exact ⟨arranged, hperm, heq.symm⟩

theorem positions_reorder (hids : ids.Nodup) (hperm : ids.Perm (rows.map Tab.id)) :
    ((reorder rows ids).map Tab.position).Nodup := by
  have hmem : ∀ tab ∈ rows, tab.id ∈ ids := fun tab htab => hperm.mem_iff.mpr (List.mem_map_of_mem htab)
  rw [reorder_eq hids hmem, List.map_map]
  have hnodup : (rows.map Tab.id).Nodup := hperm.nodup_iff.mp hids
  refine List.Nodup.map_on (fun a ha b hb heq => ?_) hnodup.of_map
  have hindex : ids.idxOf a.id = ids.idxOf b.id := Int.natCast_inj.mp heq
  exact List.inj_on_of_nodup_map hnodup ha hb ((List.idxOf_inj (hmem a ha)).mp hindex)

/-- **A list of all ids** is the order in which the rows are listed. -/
theorem Listed.reorder (hlabels : (tabs.map Tab.label).Perm (rows.map Tab.label))
    (hids : (rows.map Tab.id).Nodup) : ∃ listed, Listed (TabTable.reorder rows (tabs.map Tab.id)) listed ∧
      listed.map Tab.label = tabs.map Tab.label := by
  have hperm : (tabs.map Tab.id).Perm (rows.map Tab.id) := by
    rw [map_id_eq, map_id_eq]
    exact hlabels.map _
  have hnodup : (tabs.map Tab.id).Nodup := hperm.nodup_iff.mpr hids
  have hmem : ∀ tab ∈ rows, tab.id ∈ tabs.map Tab.id := fun tab htab =>
    hperm.mem_iff.mpr (List.mem_map_of_mem htab)
  obtain ⟨arranged, harranged, hlabel⟩ := exists_of_map_perm hlabels
  have harrangedIds : arranged.map Tab.id = tabs.map Tab.id := by
    rw [map_id_eq, hlabel, ← map_id_eq]
  rw [reorder_eq hnodup hmem]
  refine ⟨arranged.map fun tab => { tab with position := ((tabs.map Tab.id).idxOf tab.id : ℕ) },
    ⟨harranged.map _, ?_⟩, ?_⟩
  · have hids' : (tabs.map Tab.id).Pairwise fun x y =>
        (tabs.map Tab.id).idxOf x ≤ (tabs.map Tab.id).idxOf y := by
      rw [List.pairwise_iff_getElem]
      intro i j hi hj hij
      rw [hnodup.idxOf_getElem, hnodup.idxOf_getElem]
      exact Nat.le_of_lt hij
    rw [← harrangedIds] at hids' ⊢
    rw [List.pairwise_map] at hids' ⊢
    exact hids'.imp fun hle => Int.ofNat_le.mpr hle
  · rw [List.map_map, ← hlabel]
    rfl

/-! ## The invariant -/

/-- A new order is in flight, with nothing but calls that were begun after it. -/
structure Committed (s : TabsState) (ids : List String) (count : ℕ) : Prop where
  answers : s.answers = []
  alone : ∃ rest, s.calls = .reorder ids count :: rest ∧ ∀ ids' count', .reorder ids' count' ∉ rest
  le : count ≤ s.moves
  perm : ids.Perm (s.tabs.map Tab.id)
  same : count = s.moves → ids = s.tabs.map Tab.id

/-- The table has the tabs of the bar, one to a position, and if every move was saved, in its order. -/
structure InOrder (s : TabsState) : Prop where
  ids : (s.rows.map Tab.id).Nodup
  positions : (s.rows.map Tab.position).Nodup
  labels : ((settled s).map Tab.label).Perm (s.rows.map Tab.label)
  order : s.saved = s.moves →
    ∃ listed, Listed s.rows listed ∧ listed.map Tab.label = (settled s).map Tab.label
  saved : s.saved ≤ s.moves
  commit : ∀ ids count, .reorder ids count ∈ s.calls → Committed s ids count

/-- The calls take their turns, no tab is added while the tabs are loaded, and a new order is one of loaded tabs
and waits for nothing. -/
def Orderly (s : TabsState) : Event → Prop
  | .execute call _ => call = 0
  | .fail call => call = 0
  | .answer answer => answer = 0
  | .addTab _ => s.load.ended = true
  | .commitTabOrder => s.load = .loaded ∧ s.calls = [] ∧ s.answers = []
  | _ => True

instance (s : TabsState) : DecidablePred (Orderly s)
  | .execute call _ | .fail call | .answer call => instDecidableEqNat call 0
  | .addTab _ => instDecidableEqBool s.load.ended true
  | .commitTabOrder =>
    decidable_of_iff (s.load = .loaded ∧ s.calls.isEmpty = true ∧ s.answers.isEmpty = true)
      (by rw [List.isEmpty_iff, List.isEmpty_iff, Orderly])
  | .launch | .list _ | .createFirst _ | .failLoad | .answerLoad | .renameTab _ _ | .deleteTab _
  | .moveTab _ _ => inferInstanceAs (Decidable True)

theorem Orderly.unhurried {e : Event} (h : Orderly s e) : Unhurried s e := by
  cases e with
  | addTab name => exact h
  | _ => trivial

theorem InOrder.ids_perm (h : InOrder s) : ((settled s).map Tab.id).Perm (s.rows.map Tab.id) := by
  rw [map_id_eq, map_id_eq]
  exact h.labels.map _

theorem InOrder.tail (h : InOrder s) {c : Call} {rest : List Call} (hcalls : s.calls = c :: rest) :
    ∀ ids moves, .reorder ids moves ∉ rest := by
  intro ids moves hmem
  obtain ⟨rest', hrest, hnone⟩ := (h.commit ids moves (hcalls ▸ List.mem_cons_of_mem c hmem)).alone
  rw [hcalls] at hrest
  exact hnone ids moves ((List.cons.inj hrest).2 ▸ hmem)

/-- **A call is begun.** -/
theorem InOrder.begun (h : InOrder s) {call : Call} (hcall : ∀ ids moves, call ≠ .reorder ids moves) :
    InOrder { s with calls := s.calls ++ [call] } := by
  refine ⟨h.ids, h.positions, h.labels, h.order, h.saved, fun ids moves hmem => ?_⟩
  rcases List.mem_append.mp hmem with hmem | hmem
  · obtain ⟨hanswers, ⟨rest, hrest, hnone⟩, hmoves, hperm, hsame⟩ := h.commit ids moves hmem
    refine ⟨hanswers, ⟨rest ++ [call], ?_, fun ids' moves' hmem' => ?_⟩, hmoves, hperm, hsame⟩
    · rw [hrest, List.cons_append]
    · rcases List.mem_append.mp hmem' with hmem' | hmem'
      · exact hnone ids' moves' hmem'
      · exact hcall ids' moves' (List.mem_singleton.mp hmem').symm
  · exact absurd (List.mem_singleton.mp hmem).symm (hcall ids moves)

theorem exists_tail {α : Type} {l : List α} {a : α} (h : l[0]? = some a) :
    ∃ rest, l = a :: rest ∧ l.eraseIdx 0 = rest := by
  cases l with
  | nil => cases h
  | cons b rest =>
    cases h
    exact ⟨rest, rfl, rfl⟩

/-- **A tab is moved**, and the table has not seen it. -/
theorem InOrder.moved (h : InOrder s) (draggedId overId : String) : InOrder { s with
    tabs := moveTab s.tabs draggedId overId
    moves := if moveTab s.tabs draggedId overId = s.tabs then s.moves else s.moves + 1 } := by
  have hperm := moveTab_perm s.tabs draggedId overId
  by_cases hsame : moveTab s.tabs draggedId overId = s.tabs
  · rw [if_pos hsame, hsame]
    exact h
  · rw [if_neg hsame]
    have hlt : s.saved < s.moves + 1 := Nat.lt_succ_of_le h.saved
    refine ⟨h.ids, h.positions, ?_, fun hsaved => absurd hsaved (Nat.ne_of_lt hlt), Nat.le_of_lt hlt,
      fun ids count hmem => ?_⟩
    · exact ((foldl_settle_perm hperm s.answers).map Tab.label).trans h.labels
    · have hcommit := h.commit ids count hmem
      have hlt' : count < s.moves + 1 := Nat.lt_succ_of_le hcommit.le
      exact ⟨hcommit.answers, hcommit.alone, Nat.le_of_lt hlt', hcommit.perm.trans (hperm.map _).symm,
        fun heq => absurd heq (Nat.ne_of_lt hlt')⟩

/-- **The first call is done with**, and its answer is on its way. -/
theorem InOrder.answering (h : InOrder s) {c : Call} {rest : List Call} {a : Answer} (hcalls : s.calls = c :: rest)
    (htabs : t.tabs = s.tabs) (hanswers : t.answers = s.answers ++ [a]) (htail : t.calls = rest)
    (hids : (t.rows.map Tab.id).Nodup) (hpositions : (t.rows.map Tab.position).Nodup)
    (hlabels : ((settle (settled s) a).map Tab.label).Perm (t.rows.map Tab.label))
    (horder : t.saved = t.moves → ∃ listed, Listed t.rows listed ∧
      listed.map Tab.label = (settle (settled s) a).map Tab.label)
    (hsaved : t.saved ≤ t.moves) : InOrder t := by
  have hsettled : settled t = settle (settled s) a := by
    rw [settled, hanswers, htabs, List.foldl_append]
    rfl
  refine ⟨hids, hpositions, hsettled ▸ hlabels, hsettled ▸ horder, hsaved,
    fun ids moves hmem => absurd (htail ▸ hmem) (h.tail hcalls ids moves)⟩

/-- **The first call takes effect.** -/
theorem InOrder.executed (h : InOrder s) (hkept : Kept s) {c : Call} {rest : List Call} {created : String}
    (hcalls : s.calls = c :: rest) (hfresh : created ∉ s.used) : InOrder { (s.effect created c).1 with
      calls := rest
      answers := s.answers ++ [(s.effect created c).2] } := by
  -- a tab that is not in the table
  have hrefused : InOrder { s with calls := rest, answers := s.answers ++ [.refused] } :=
    h.answering hcalls rfl rfl rfl h.ids h.positions h.labels h.order h.saved
  cases c with
  | create name =>
    have hids : ((create s.rows created name).map Tab.id).Nodup := by
      rw [map_id_create, List.nodup_append]
      refine ⟨h.ids, List.nodup_singleton _, fun x hx y hy => ?_⟩
      rw [List.mem_singleton.mp hy]
      exact fun heq => hfresh (heq ▸ hkept.rows_used hx)
    refine h.answering hcalls rfl rfl rfl hids (positions_create h.positions created name) ?_ (fun hsaved => ?_) h.saved
    · show ((settled s ++ [_]).map Tab.label).Perm ((s.rows ++ [_]).map Tab.label)
      rw [List.map_append, List.map_append]
      exact h.labels.append_right _
    · obtain ⟨listed, hlisted, hlabels⟩ := h.order hsaved
      refine ⟨_, hlisted.append created name, ?_⟩
      rw [List.map_append, hlabels]
      exact (List.map_append ..).symm
  | rename id name =>
    by_cases hid : id ∈ s.rows.map Tab.id
    · simp only [TabsState.effect, TabTable.rename, if_pos hid]
      refine h.answering hcalls rfl rfl rfl ?_ ?_ ?_ (fun hsaved => ?_) h.saved
      · rw [map_id_setName]
        exact h.ids
      · show ((s.rows.map (setName id name)).map Tab.position).Nodup
        rw [map_position_setName]
        exact h.positions
      · show (((settled s).map (setName id name)).map Tab.label).Perm ((s.rows.map (setName id name)).map Tab.label)
        rw [map_label_setName, map_label_setName]
        exact h.labels.map _
      · obtain ⟨listed, hlisted, hlabels⟩ := h.order hsaved
        refine ⟨_, hlisted.rename id name, ?_⟩
        rw [map_label_setName, hlabels]
        exact (map_label_setName _ _ _).symm
    · simp only [TabsState.effect, TabTable.rename, if_neg hid]
      exact hrefused
  | delete id =>
    by_cases hid : id ∈ s.rows.map Tab.id
    · simp only [TabsState.effect, TabTable.delete, if_pos hid]
      refine h.answering hcalls rfl rfl rfl ?_ ?_ ?_ (fun hsaved => ?_) h.saved
      · exact h.ids.sublist (List.filter_sublist.map _)
      · exact h.positions.sublist (List.filter_sublist.map _)
      · show (((settled s).filter (·.id ≠ id)).map Tab.label).Perm ((s.rows.filter (·.id ≠ id)).map Tab.label)
        rw [map_label_filter, map_label_filter]
        exact h.labels.filter _
      · obtain ⟨listed, hlisted, hlabels⟩ := h.order hsaved
        refine ⟨_, hlisted.delete id, ?_⟩
        rw [map_label_filter, hlabels]
        exact (map_label_filter _ _).symm
    · simp only [TabsState.effect, TabTable.delete, if_neg hid]
      exact hrefused
  | reorder ids count =>
    obtain ⟨hanswers, _, hle, hperm, hsame⟩ := h.commit ids count (hcalls ▸ List.mem_cons_self)
    have hsettled : settled s = s.tabs := by
      rw [settled, hanswers]
      rfl
    have hids : ids.Perm (s.rows.map Tab.id) := hperm.trans (hsettled ▸ h.ids_perm)
    have hnodup : ids.Nodup := hids.nodup_iff.mpr h.ids
    refine h.answering hcalls rfl rfl rfl ?_ (positions_reorder hnodup hids) ?_ (fun hsaved => ?_) hle
    · show ((reorder s.rows ids).map Tab.id).Nodup
      rw [map_id_reorder]
      exact h.ids
    · show ((settled s).map Tab.label).Perm ((reorder s.rows ids).map Tab.label)
      rw [reorder_eq hnodup fun tab htab => hids.mem_iff.mpr (List.mem_map_of_mem htab), List.map_map]
      exact h.labels
    · have hlabels := h.labels
      rw [hsettled] at hlabels
      rw [hsame hsaved, hsettled]
      exact Listed.reorder hlabels h.ids

/-- **A step of the calls keeps this up.** -/
theorem InOrder.step {e : Event} (h : InOrder s) (hkept : Kept s) (hload : s.load = .loaded) (horderly : Orderly s e)
    (hstep : s.step e = some t) (hloaded : t.load = .loaded) : InOrder t := by
  cases e with
  | launch =>
    cases hstep
    cases hloaded
  | list listed =>
    simp only [TabsState.step, hload, reduceCtorEq, false_and, if_false] at hstep
  | createFirst created =>
    simp only [TabsState.step, hload, reduceCtorEq, false_and, if_false] at hstep
  | failLoad =>
    simp only [TabsState.step, hload, reduceCtorEq] at hstep
  | answerLoad =>
    simp only [TabsState.step, hload, reduceCtorEq] at hstep
  | addTab name =>
    cases hstep
    exact h.begun fun ids count heq => by cases heq
  | renameTab id name =>
    simp only [TabsState.step] at hstep
    split_ifs at hstep
    cases hstep
    exact h.begun fun ids count heq => by cases heq
  | deleteTab id =>
    simp only [TabsState.step] at hstep
    split_ifs at hstep
    cases hstep
    exact h.begun fun ids count heq => by cases heq
  | moveTab draggedId overId =>
    cases hstep
    exact h.moved draggedId overId
  | commitTabOrder =>
    cases hstep
    obtain ⟨-, hcalls, hanswers⟩ := horderly
    refine ⟨h.ids, h.positions, h.labels, h.order, h.saved, fun ids count hmem => ?_⟩
    rw [hcalls, List.nil_append, List.mem_singleton] at hmem
    cases hmem
    refine ⟨hanswers, ⟨[], ?_, fun _ _ hmem => absurd hmem List.not_mem_nil⟩, Nat.le_refl _, List.Perm.refl _,
      fun _ => rfl⟩
    rw [hcalls]
    rfl
  | execute call created =>
    cases horderly
    simp only [TabsState.step] at hstep
    split at hstep
    · rename_i c hcall
      split_ifs at hstep with hfresh
      cases hstep
      obtain ⟨rest, hcalls, herase⟩ := exists_tail hcall
      rw [herase]
      exact h.executed hkept hcalls hfresh
    · cases hstep
  | fail call =>
    cases horderly
    simp only [TabsState.step] at hstep
    split_ifs at hstep with hlt
    cases hstep
    obtain ⟨c, rest, hcalls⟩ := List.exists_cons_of_length_pos hlt
    rw [hcalls]
    exact h.answering hcalls rfl rfl rfl h.ids h.positions h.labels h.order h.saved
  | answer answer =>
    cases horderly
    simp only [TabsState.step] at hstep
    split at hstep
    · rename_i a ha
      cases hstep
      obtain ⟨rest, hanswers, herase⟩ := exists_tail ha
      rw [herase]
      have hsettled : settled { s with tabs := settle s.tabs a, answers := rest } = settled s := by
        rw [settled, settled, hanswers]
        rfl
      refine ⟨h.ids, h.positions, hsettled ▸ h.labels, hsettled ▸ h.order, h.saved, fun ids count hmem => ?_⟩
      -- a new order waits for no answer
      have hnone := (h.commit ids count hmem).answers
      rw [hanswers] at hnone
      cases hnone
    · cases hstep

/-! ## From one launch to the next -/

/-- While the tabs are loaded nothing is in flight, and no move is to be saved. -/
structure Quiet (s : TabsState) : Prop where
  calls : s.calls = []
  answers : s.answers = []
  moves : s.saved = s.moves

/-- The table has one row to a position, an order is saved of loaded tabs only, and these are in order. -/
structure Ordered (s : TabsState) : Prop where
  positions : (s.rows.map Tab.position).Nodup
  quiet : s.load.ended = false → Quiet s
  unsaved : s.load ≠ .loaded → ∀ ids moves, .reorder ids moves ∉ s.calls
  loaded : s.load = .loaded → InOrder s

theorem Quiet.advance (h : Quiet s) {load : Load} {rows : List Tab} {used : List String} :
    Quiet { s with rows, load, used } :=
  ⟨h.calls, h.answers, h.moves⟩

theorem ordered_of_quiet (hpositions : (s.rows.map Tab.position).Nodup) (hload : s.load ≠ .loaded) (h : Quiet s) :
    Ordered s where
  positions := hpositions
  quiet := fun _ => h
  unsaved := by
    rw [h.calls]
    exact fun _ _ _ => List.not_mem_nil
  loaded := fun hloaded => absurd hloaded hload

theorem ordered_of_inOrder (hload : s.load = .loaded) (h : InOrder s) : Ordered s where
  positions := h.positions
  quiet := by
    rw [hload]
    exact fun hended => by cases hended
  unsaved := fun hne => absurd hload hne
  loaded := fun _ => h

theorem ordered_start : Ordered {} := ordered_of_quiet List.nodup_nil (fun h => by cases h) ⟨rfl, rfl, rfl⟩

theorem positions_effect (h : (s.rows.map Tab.position).Nodup) (created : String) {c : Call}
    (hc : ∀ ids moves, c ≠ .reorder ids moves) : ((s.effect created c).1.rows.map Tab.position).Nodup := by
  cases c with
  | create name => exact positions_create h created name
  | rename id name =>
    by_cases hid : id ∈ s.rows.map Tab.id
    · simp only [TabsState.effect, TabTable.rename, if_pos hid]
      rw [map_position_setName]
      exact h
    · simp only [TabsState.effect, TabTable.rename, if_neg hid]
      exact h
  | delete id =>
    by_cases hid : id ∈ s.rows.map Tab.id
    · simp only [TabsState.effect, TabTable.delete, if_pos hid]
      exact h.sublist (List.filter_sublist.map _)
    · simp only [TabsState.effect, TabTable.delete, if_neg hid]
      exact h
  | reorder ids moves => exact absurd rfl (hc ids moves)

/-- **The tabs are loaded**, in the order of the listing. -/
theorem Quiet.inOrder (h : Quiet s) (hgiven : Given s.rows s.used) (hpositions : (s.rows.map Tab.position).Nodup)
    (hlisted : Listed s.rows listed) : InOrder { s with tabs := listed, load := .loaded } := by
  have hsettled : settled { s with tabs := listed, load := .loaded } = listed := by
    rw [settled, h.answers]
    rfl
  refine ⟨hgiven.nodup, hpositions, ?_, fun _ => ⟨listed, hlisted, ?_⟩, Nat.le_of_eq h.moves, fun ids count hmem => ?_⟩
  · rw [hsettled]
    exact hlisted.perm.map Tab.label
  · rw [hsettled]
  · rw [h.calls] at hmem
    cases hmem

/-- **A step of `loadTabs`.** -/
theorem Ordered.answeredLoad (h : Ordered s) (hsound : Sound s) (hstep : s.step .answerLoad = some t) :
    Ordered t := by
  simp only [TabsState.step] at hstep
  split at hstep
  · rename_i hload
    have hquiet := h.quiet (by rw [hload]; rfl)
    cases hstep
    exact ordered_of_quiet h.positions (fun h => by cases h) hquiet.advance
  · rename_i tab tabs hload
    have hended : s.load.ended = false := by rw [hload]; rfl
    cases hstep
    exact ordered_of_inOrder rfl
      ((h.quiet hended).inOrder hsound.given h.positions ((hsound.loading hended).listed _ hload))
  · rename_i tab hload
    have hended : s.load.ended = false := by rw [hload]; rfl
    have hlisted : Listed s.rows [tab] := by
      rw [(hsound.loading hended).created tab hload]
      exact ⟨List.Perm.refl _, List.pairwise_singleton _ _⟩
    cases hstep
    exact ordered_of_inOrder rfl ((h.quiet hended).inOrder hsound.given h.positions hlisted)
  · rename_i hload
    have hquiet := h.quiet (by rw [hload]; rfl)
    cases hstep
    exact ordered_of_quiet h.positions (fun h => by cases h) hquiet.advance
  · cases hstep

theorem loaded_of_step {e : Event} (hload : s.load = .loaded) (hstep : s.step e = some t) :
    e = .launch ∨ t.load = .loaded := by
  cases e <;> simp only [TabsState.step, hload, reduceCtorEq, false_and, if_false] at hstep
  case launch => exact Or.inl rfl
  case addTab | commitTabOrder | moveTab =>
    cases hstep
    exact Or.inr rfl
  case renameTab | deleteTab | fail =>
    split_ifs at hstep
    cases hstep
    exact Or.inr rfl
  case execute call created =>
    split at hstep
    · split_ifs at hstep
      cases hstep
      exact Or.inr ((load_effect s created _).trans hload)
    · cases hstep
  case answer answer =>
    split at hstep
    · cases hstep
      exact Or.inr rfl
    · cases hstep

theorem Ordered.step_unloaded {e : Event} (h : Ordered s) (hsound : Sound s) (hload : s.load ≠ .loaded)
    (horderly : Orderly s e) (hstep : s.step e = some t) : Ordered t := by
  -- a call is begun that is no new order, by a bar that does not wait for its tabs
  have hbegun : ∀ call : Call, s.load.ended = true → (∀ ids moves, call ≠ .reorder ids moves) →
      Ordered { s with calls := s.calls ++ [call] } := fun call hended hcall => by
    refine ⟨h.positions, fun hpending => absurd (hended.symm.trans hpending) (Ne.symm Bool.false_ne_true),
      fun _ ids moves hmem => ?_, fun hloaded => absurd hloaded hload⟩
    rcases List.mem_append.mp hmem with hmem | hmem
    · exact h.unsaved hload ids moves hmem
    · exact hcall ids moves (List.mem_singleton.mp hmem).symm
  -- a bar with a tab does not wait for its tabs
  have hended : ∀ {id : String}, id ∈ s.tabs.map Tab.id → s.load.ended = true := fun hid => by
    by_contra hpending
    rw [(hsound.loading (Bool.eq_false_iff.mpr hpending)).tabs] at hid
    cases hid
  cases e with
  | launch =>
    cases hstep
    exact ordered_of_quiet h.positions (fun h => by cases h) ⟨rfl, rfl, rfl⟩
  | list listed =>
    simp only [TabsState.step] at hstep
    split_ifs at hstep with hguard
    cases hstep
    have hquiet := h.quiet (by rw [hguard.1]; rfl)
    exact ordered_of_quiet h.positions (fun h => by cases h) hquiet.advance
  | createFirst created =>
    simp only [TabsState.step] at hstep
    split_ifs at hstep with hguard
    cases hstep
    have hquiet := h.quiet (by rw [hguard.1]; rfl)
    exact ordered_of_quiet (positions_create h.positions _ _) (fun h => by cases h) hquiet.advance
  | failLoad =>
    simp only [TabsState.step] at hstep
    split at hstep
    case h_3 => cases hstep
    all_goals
      rename_i hwaits
      have hquiet := h.quiet (by rw [hwaits]; rfl)
      cases hstep
      exact ordered_of_quiet h.positions (fun h => by cases h) hquiet.advance
  | answerLoad => exact h.answeredLoad hsound hstep
  | addTab name =>
    cases hstep
    exact hbegun _ horderly fun ids moves heq => by cases heq
  | renameTab id name =>
    simp only [TabsState.step] at hstep
    split_ifs at hstep with hid
    cases hstep
    exact hbegun _ (hended hid) fun ids moves heq => by cases heq
  | deleteTab id =>
    simp only [TabsState.step] at hstep
    split_ifs at hstep with hid
    cases hstep
    exact hbegun _ (hended hid) fun ids moves heq => by cases heq
  | moveTab draggedId overId =>
    cases hstep
    refine ⟨h.positions, fun hpending => ?_, fun _ => h.unsaved hload, fun hloaded => absurd hloaded hload⟩
    have hquiet := h.quiet hpending
    have htabs : moveTab s.tabs draggedId overId = s.tabs := by
      have hperm := moveTab_perm s.tabs draggedId overId
      rw [(hsound.loading hpending).tabs] at hperm ⊢
      exact List.perm_nil.mp hperm
    exact ⟨hquiet.calls, hquiet.answers, hquiet.moves.trans (if_pos htabs).symm⟩
  | commitTabOrder => exact absurd horderly.1 hload
  | execute call created =>
    simp only [TabsState.step] at hstep
    split at hstep
    · rename_i c hcall
      split_ifs at hstep with hfresh
      cases hstep
      have hmem := List.mem_of_getElem? hcall
      refine ⟨positions_effect h.positions created fun ids moves heq => ?_, fun hpending => ?_, fun _ ids moves hmem =>
        h.unsaved hload ids moves (List.mem_of_mem_eraseIdx hmem), fun hloaded => ?_⟩
      · exact h.unsaved hload ids moves (heq ▸ hmem)
      · rw [(h.quiet (load_effect s created c ▸ hpending)).calls] at hmem
        cases hmem
      · exact absurd ((load_effect s created c).symm.trans hloaded) hload
    · cases hstep
  | fail call =>
    simp only [TabsState.step] at hstep
    split_ifs at hstep with hlt
    cases hstep
    refine ⟨h.positions, fun hpending => ?_, fun _ ids moves hmem =>
      h.unsaved hload ids moves (List.mem_of_mem_eraseIdx hmem), fun hloaded => absurd hloaded hload⟩
    rw [(h.quiet hpending).calls] at hlt
    cases hlt
  | answer answer =>
    simp only [TabsState.step] at hstep
    split at hstep
    · rename_i a ha
      cases hstep
      refine ⟨h.positions, fun hpending => ?_, fun _ => h.unsaved hload, fun hloaded => absurd hloaded hload⟩
      rw [(h.quiet hpending).answers] at ha
      cases ha
    · cases hstep

/-- **A step keeps this up.** -/
theorem Ordered.step {e : Event} (h : Ordered s) (hsound : Sound s) (horderly : Orderly s e)
    (hstep : s.step e = some t) : Ordered t := by
  by_cases hload : s.load = .loaded
  · rcases loaded_of_step hload hstep with rfl | hloaded
    · cases hstep
      exact ordered_of_quiet h.positions (fun h => by cases h) ⟨rfl, rfl, rfl⟩
    · exact ordered_of_inOrder hloaded ((h.loaded hload).step (hsound.loaded hload) hload horderly hstep hloaded)
  · exact h.step_unloaded hsound hload horderly hstep

theorem ordered_run {es : List Event} (h : run TabsState.step {} es = some s)
    (horderly : AllSteps TabsState.step Orderly {} es) : Sound s ∧ Ordered s :=
  run_induction (I := fun s => Sound s ∧ Ordered s)
    (fun _ _ _ hC hI hstep => ⟨hI.1.step hC.unhurried hstep, hI.2.step hI.1 hC hstep⟩) horderly
    ⟨sound_start, ordered_start⟩ h

/-- Two tabs, of which the second is moved to the front and then gets a name. -/
def movedTab : List Event :=
  launched [] "a" ++ [.addTab "Orders", .execute 0 "b", .answer 0, .moveTab "b" "a", .commitTabOrder, .execute 0 "c",
    .answer 0, .renameTab "b" "Billing", .execute 0 "c", .answer 0]

/-- Two tabs that have changed places. -/
def movedTabState : TabsState where
  rows := [⟨"a", "Tab 1", 1⟩, ⟨"b", "Billing", 0⟩]
  tabs := [⟨"b", "Billing", 1⟩, ⟨"a", "Tab 1", 0⟩]
  load := .loaded
  moves := 1
  saved := 1
  used := ["b", "a"]

/-- The bar behind the next launch. -/
def movedTabAgain : TabsState where
  rows := movedTabState.rows
  tabs := [⟨"b", "Billing", 0⟩, ⟨"a", "Tab 1", 1⟩]
  load := .loaded
  used := ["b", "a"]

/-- Two names for one tab that take effect in the other order: the bar has one, and the table the other. -/
example : (run TabsState.step {} (launched [] "a" ++ [.renameTab "a" "b", .renameTab "a" "c", .execute 1 "d",
    .execute 0 "d", .answer 1, .answer 0])).map (fun s => (s.rows.map Tab.label, s.tabs.map Tab.label)) =
      some ([("a", "b")], [("a", "c")]) := by decide +kernel

end OffsetExplorer.TabTable
