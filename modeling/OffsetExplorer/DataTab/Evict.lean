import OffsetExplorer.DataTab.Retained

/-!
# Eviction

The loop of `evictToFit` drops the rows of one view at a time, the least recently used first.

* `filter_insertionSort`: sorting what is left keeps its order.
* `Evicts`: the loop as the source has it, without a bound on its turns.
* `evictable`, `Settled`: the views that may lose their rows, in the order in which they do, and where
  the loop stops.
* `EvictsJustEnough`: what a run of the loop drops, marks and leaves alone.
* **`evictToFit_just_enough`**: the loop stops, and has dropped just enough.
-/

namespace OffsetExplorer.DataTab

/-! ## Sorting what is left -/

section Sorting

variable {α : Type*} {r : α → α → Prop} [DecidableRel r]

theorem orderedInsert_of_forall {a : α} {l : List α} (h : ∀ b ∈ l, r a b) :
    l.orderedInsert r a = a :: l := by
  cases l with
  | nil => rfl
  | cons b l => exact List.orderedInsert_cons_of_le r l (h b List.mem_cons_self)

theorem filter_orderedInsert [IsTrans α r] (p : α → Bool) (a : α) {l : List α} (hl : l.Pairwise r) :
    (l.orderedInsert r a).filter p =
      if p a then (l.filter p).orderedInsert r a else l.filter p := by
  induction l with
  | nil => simp [List.filter_cons]
  | cons b l ih =>
    rw [List.pairwise_cons] at hl
    by_cases hab : r a b
    · have hall : ∀ c ∈ (b :: l).filter p, r a c := by
        intro c hc
        rcases List.mem_cons.mp (List.mem_filter.mp hc).1 with rfl | hc
        · exact hab
        · exact Trans.trans hab (hl.1 c hc)
      rw [List.orderedInsert_cons_of_le r l hab, List.filter_cons, orderedInsert_of_forall hall]
    · rw [List.orderedInsert_of_not_le r l hab, List.filter_cons, ih hl.2, List.filter_cons]
      by_cases hb : p b = true
      · by_cases ha : p a = true
        · rw [if_pos hb, if_pos ha, if_pos hb, if_pos ha, List.orderedInsert_of_not_le r _ hab]
        · rw [if_pos hb, if_neg ha, if_pos hb, if_neg ha]
      · rw [if_neg hb, if_neg hb]

/-- **Sorting is stable**: what is kept of a sorted list is what is kept, sorted. -/
theorem filter_insertionSort [IsTrans α r] [Std.Total r] (p : α → Bool) (l : List α) :
    (l.insertionSort r).filter p = (l.filter p).insertionSort r := by
  induction l with
  | nil => rfl
  | cons a l ih =>
    rw [List.insertionSort_cons, filter_orderedInsert p a (List.pairwise_insertionSort r l), ih,
      List.filter_cons]
    split_ifs
    · rw [List.insertionSort_cons]
    · rfl

theorem insertionSort_congr {s : α → α → Prop} [DecidableRel s] {l : List α}
    (h : ∀ a ∈ l, ∀ b ∈ l, r a b ↔ s a b) : l.insertionSort r = l.insertionSort s := by
  simpa using List.map_insertionSort r s id l h

end Sorting

namespace TabDataState

section Defs

variable (state : TabDataState) (limitBytes : ℤ) (protectedTabId : String)

/-! ## The loop -/

/-- When a view was last used; one that never was comes first. -/
def lastUsed (key : String) : ℕ := (state.lastUsedByTab.get? key).getD 0

/-- The views that may lose their rows, least recently used first. -/
def evictable : List String :=
  (state.payloadBytesByTab.keys.filter fun key =>
    key ≠ protectedTabId ∧ 0 < state.payloadBytes key).insertionSort
      fun a b => state.lastUsed a ≤ state.lastUsed b

/-- The views of these keys lose their rows. -/
def evictAll (keys : List String) : TabDataState := keys.foldl evict state

/-- The total fits, or no view but the protected one holds payload bytes. -/
def Settled : Prop :=
  totalRetainedPayloadBytes state.payloadBytesByTab ≤ limitBytes ∨
    ∀ key ≠ protectedTabId, state.payloadBytes key = 0

/-- `while (totalRetainedPayloadBytes(…) > limitBytes) …`, run until it stops, with the keys it drops. -/
inductive Evicts : TabDataState → TabDataState → List String → Prop where
  | fits {state : TabDataState} (h : totalRetainedPayloadBytes state.payloadBytesByTab ≤ limitBytes) :
    Evicts state state []
  | stuck {state : TabDataState} (h : limitBytes < totalRetainedPayloadBytes state.payloadBytesByTab)
    (hcoldest : state.coldest protectedTabId = none) : Evicts state state []
  | turn {state final : TabDataState} {coldest : String} {evicted : List String}
    (h : limitBytes < totalRetainedPayloadBytes state.payloadBytesByTab)
    (hcoldest : state.coldest protectedTabId = some coldest)
    (rest : Evicts (state.evict coldest) final evicted) : Evicts state final (coldest :: evicted)

/-- Everything that two stores have of a view is the same. -/
structure SameView (final : TabDataState) (key : String) : Prop where
  messages : final.messagesByTab.get? key = state.messagesByTab.get? key
  totalMatching : final.totalMatchingByTab.get? key = state.totalMatchingByTab.get? key
  fetchDuration : final.fetchDurationMsByTab.get? key = state.fetchDurationMsByTab.get? key
  payloadBytes : final.payloadBytesByTab.get? key = state.payloadBytesByTab.get? key
  lastUsed : final.lastUsedByTab.get? key = state.lastUsedByTab.get? key
  evicted : final.evictedTabs.get? key = state.evictedTabs.get? key

/-- The shortest prefix of the evictable views that settles the store loses its rows, is marked, and
nothing else changes. -/
structure EvictsJustEnough (final : TabDataState) (evicted : List String) : Prop where
  oldestFirst : evicted <+: state.evictable protectedTabId
  dropped : final = state.evictAll evicted
  settled : final.Settled limitBytes protectedTabId
  shortest : ∀ keys, keys <+: evicted → keys ≠ evicted →
    ¬ (state.evictAll keys).Settled limitBytes protectedTabId
  flagged : ∀ key ∈ evicted, final.evictedTabs.get? key = some () ∧
    final.messagesByTab.get? key = none ∧ final.payloadBytesByTab.get? key = none
  others : ∀ key ∉ evicted, state.SameView final key

end Defs

variable {state final : TabDataState} {limitBytes : ℤ} {protectedTabId coldest key : String}
  {evicted : List String}

/-! ## One turn -/

theorem coldest_eq : state.coldest protectedTabId = (state.evictable protectedTabId).head? := rfl

theorem mem_evictable : key ∈ state.evictable protectedTabId ↔
    key ≠ protectedTabId ∧ 0 < state.payloadBytes key := by
  rw [evictable, List.mem_insertionSort, List.mem_filter, decide_eq_true_iff]
  refine and_iff_right_of_imp fun h => ?_
  cases hget : state.payloadBytesByTab.get? key with
  | none => rw [payloadBytes, hget] at h; exact absurd h.2 (Int.lt_irrefl 0)
  | some bytes => exact List.mem_map_of_mem (Record.mem_entries_of_get? hget)

theorem nodup_evictable : (state.evictable protectedTabId).Nodup :=
  (List.perm_insertionSort _ _).nodup_iff.mpr (state.payloadBytesByTab.nodup.filter _)

theorem keys_erase (payloadBytesByTab : Record String ℤ) (key : String) :
    (payloadBytesByTab.erase key).keys = payloadBytesByTab.keys.filter (· ≠ key) := by
  rw [Record.keys, Record.erase, Record.keys, List.filter_map]
  rfl

theorem sameView_evict (h : key ≠ coldest) : state.SameView (state.evict coldest) key where
  messages := Record.get?_erase_ne _ h
  totalMatching := Record.get?_erase_ne _ h
  fetchDuration := Record.get?_erase_ne _ h
  payloadBytes := Record.get?_erase_ne _ h
  lastUsed := Record.get?_erase_ne _ h
  evicted := Record.get?_set_ne _ h ()

theorem payloadBytes_evict : (state.evict coldest).payloadBytes key =
    if key = coldest then 0 else state.payloadBytes key := by
  rw [payloadBytes, evict, Record.get?_erase]
  split_ifs
  · rfl
  · rw [payloadBytes]

/-- **One turn**: the view in front is gone, and the others wait in the same order. -/
theorem evictable_evict (h : state.evictable protectedTabId = coldest :: evicted) :
    (state.evict coldest).evictable protectedTabId = evicted := by
  have hrest : (state.evictable protectedTabId).filter (· ≠ coldest) = evicted := by
    have hnodup : (state.evictable protectedTabId).Nodup := nodup_evictable
    rw [h, List.nodup_cons] at hnodup
    rw [h, List.filter_cons_of_neg (by simp), List.filter_eq_self]
    intro key hkey
    exact decide_eq_true fun heq => hnodup.1 (heq ▸ hkey)
  have hkeys : ((state.evict coldest).payloadBytesByTab.keys.filter fun key =>
      key ≠ protectedTabId ∧ 0 < (state.evict coldest).payloadBytes key) =
        (state.payloadBytesByTab.keys.filter fun key =>
          key ≠ protectedTabId ∧ 0 < state.payloadBytes key).filter (· ≠ coldest) := by
    rw [evict, keys_erase, List.filter_filter, List.filter_filter]
    refine List.filter_congr fun key _ => ?_
    rw [← evict, payloadBytes_evict]
    by_cases hkey : key = coldest <;> simp [hkey]
  rw [← hrest, evictable, hkeys, evictable, filter_insertionSort]
  refine insertionSort_congr fun a ha b hb => ?_
  have same : ∀ key, key ≠ coldest → (state.evict coldest).lastUsed key = state.lastUsed key :=
    fun key hkey => congrArg (Option.getD · 0) (sameView_evict hkey).lastUsed
  rw [same a (of_decide_eq_true (List.mem_filter.mp ha).2),
    same b (of_decide_eq_true (List.mem_filter.mp hb).2)]

/-! ## The run of the loop -/

theorem evicts_evictLoop {turns : ℕ} (hturns : (state.evictable protectedTabId).length ≤ turns) :
    Evicts limitBytes protectedTabId state (evictLoop limitBytes protectedTabId turns state).1
      (evictLoop limitBytes protectedTabId turns state).2 := by
  induction turns generalizing state with
  | zero =>
    by_cases h : totalRetainedPayloadBytes state.payloadBytesByTab ≤ limitBytes
    · exact .fits h
    · refine .stuck (Int.not_le.mp h) ?_
      rw [coldest_eq, List.eq_nil_of_length_eq_zero (Nat.le_zero.mp hturns), List.head?_nil]
  | succ turns ih =>
    rw [evictLoop]
    by_cases h : totalRetainedPayloadBytes state.payloadBytesByTab ≤ limitBytes
    · rw [if_pos h]
      exact .fits h
    · rw [if_neg h]
      cases hcoldest : state.coldest protectedTabId with
      | none => exact .stuck (Int.not_le.mp h) hcoldest
      | some coldest =>
        refine .turn (Int.not_le.mp h) hcoldest (ih ?_)
        obtain ⟨rest, hrest⟩ := List.head?_eq_some_iff.mp (coldest_eq ▸ hcoldest)
        rw [hrest, List.length_cons] at hturns
        rw [evictable_evict hrest]
        omega

theorem evicts_evictToFit : Evicts limitBytes protectedTabId state
    (state.evictToFit limitBytes protectedTabId).1 (state.evictToFit limitBytes protectedTabId).2 := by
  apply evicts_evictLoop
  rw [evictable, List.length_insertionSort]
  exact List.length_filter_le _ _

theorem sameView_refl : state.SameView state key := ⟨rfl, rfl, rfl, rfl, rfl, rfl⟩

theorem SameView.trans {middle : TabDataState} (h : state.SameView middle key)
    (h' : middle.SameView final key) : state.SameView final key where
  messages := h'.messages.trans h.messages
  totalMatching := h'.totalMatching.trans h.totalMatching
  fetchDuration := h'.fetchDuration.trans h.fetchDuration
  payloadBytes := h'.payloadBytes.trans h.payloadBytes
  lastUsed := h'.lastUsed.trans h.lastUsed
  evicted := h'.evicted.trans h.evicted

theorem EvictsJustEnough.nil (h : state.Settled limitBytes protectedTabId) :
    state.EvictsJustEnough limitBytes protectedTabId state [] where
  oldestFirst := List.nil_prefix
  dropped := rfl
  settled := h
  shortest _ hstart hne := absurd (List.prefix_nil.mp hstart) hne
  flagged _ hkey := absurd hkey List.not_mem_nil
  others _ _ := sameView_refl

theorem EvictsJustEnough.cons {rest : List String}
    (h : limitBytes < totalRetainedPayloadBytes state.payloadBytesByTab)
    (hevictable : state.evictable protectedTabId = coldest :: rest)
    (hrest : (state.evict coldest).EvictsJustEnough limitBytes protectedTabId final evicted) :
    state.EvictsJustEnough limitBytes protectedTabId final (coldest :: evicted) where
  oldestFirst := by
    rw [hevictable, ← evictable_evict hevictable]
    exact List.prefix_cons_inj coldest |>.mpr hrest.oldestFirst
  dropped := hrest.dropped
  settled := hrest.settled
  shortest := by
    intro keys hstart hne
    cases keys with
    | nil =>
      have hmem : coldest ∈ state.evictable protectedTabId := hevictable ▸ List.mem_cons_self
      obtain ⟨hprotected, hbytes⟩ := mem_evictable.mp hmem
      rintro (hfits | hempty)
      · exact absurd hfits (Int.not_le.mpr h)
      · exact absurd (hempty coldest hprotected) (Int.ne_of_gt hbytes)
    | cons key keys =>
      obtain ⟨rfl, htail⟩ := List.cons_prefix_cons.mp hstart
      exact hrest.shortest keys htail fun heq => hne (heq ▸ rfl)
  flagged := by
    intro key hkey
    by_cases hlater : key ∈ evicted
    · exact hrest.flagged key hlater
    · obtain rfl := (List.mem_cons.mp hkey).resolve_right hlater
      have same := hrest.others key hlater
      rw [same.evicted, same.messages, same.payloadBytes]
      exact ⟨Record.get?_set_self .., Record.get?_erase_self .., Record.get?_erase_self ..⟩
  others := by
    intro key hkey
    rw [List.mem_cons, not_or] at hkey
    exact (sameView_evict hkey.1).trans (hrest.others key hkey.2)

theorem justEnough_of_evicts (hbytes : ∀ key, 0 ≤ state.payloadBytes key)
    (h : Evicts limitBytes protectedTabId state final evicted) :
    state.EvictsJustEnough limitBytes protectedTabId final evicted := by
  induction h with
  | fits h => exact .nil (Or.inl h)
  | @stuck state _ hcoldest =>
    refine .nil (Or.inr fun key hkey => ?_)
    have hnone := List.head?_eq_none_iff.mp (coldest_eq ▸ hcoldest)
    have hnot : key ∉ state.evictable protectedTabId := by simp [hnone]
    rw [mem_evictable, not_and, Int.not_lt] at hnot
    exact Int.le_antisymm (hnot hkey) (hbytes key)
  | @turn state final coldest evicted h hcoldest _ ih =>
    obtain ⟨rest, hrest⟩ := List.head?_eq_some_iff.mp (coldest_eq ▸ hcoldest)
    refine .cons h hrest (ih fun key => ?_)
    rw [payloadBytes_evict]
    split_ifs
    · exact Int.le_refl 0
    · exact hbytes key

/-- **Eviction drops just enough.** The loop stops. The views that it drops are the shortest prefix of the
evictable ones, least recently used first, after which the total fits or only the protected view holds
payload bytes; each is marked as evicted, and every other view is as it was. -/
theorem evictToFit_just_enough (state : TabDataState) (limitBytes : ℤ) (protectedTabId : String)
    (hbytes : ∀ key, 0 ≤ state.payloadBytes key) :
    Evicts limitBytes protectedTabId state (state.evictToFit limitBytes protectedTabId).1
        (state.evictToFit limitBytes protectedTabId).2 ∧
      state.EvictsJustEnough limitBytes protectedTabId
        (state.evictToFit limitBytes protectedTabId).1
        (state.evictToFit limitBytes protectedTabId).2 :=
  ⟨evicts_evictToFit, justEnough_of_evicts hbytes evicts_evictToFit⟩

/-- Three views, of which the one in the middle was used last. -/
def threeViews : TabDataState where
  payloadBytesByTab := ((Record.empty.set "t:c:a:all" 10).set "t:c:b:all" 20).set "t:c:d:all" 5
  lastUsedByTab := ((Record.empty.set "t:c:a:all" 2).set "t:c:b:all" 3).set "t:c:d:all" 1

theorem evictToFit_just_enough_three :
    (threeViews.evictToFit 20 "t:c:b:all").2 = ["t:c:d:all", "t:c:a:all"] ∧
      Evicts 20 "t:c:b:all" threeViews (threeViews.evictToFit 20 "t:c:b:all").1
        (threeViews.evictToFit 20 "t:c:b:all").2 ∧
      threeViews.EvictsJustEnough 20 "t:c:b:all" (threeViews.evictToFit 20 "t:c:b:all").1
        (threeViews.evictToFit 20 "t:c:b:all").2 := by
  refine ⟨by decide +kernel, evictToFit_just_enough threeViews 20 "t:c:b:all" fun key => ?_⟩
  simp only [payloadBytes, threeViews, Record.get?_set]
  split_ifs
  · decide
  · decide
  · decide
  · exact Int.le_refl 0

end TabDataState

end OffsetExplorer.DataTab
