import OffsetExplorer.Fetch.Plan
import OffsetExplorer.Lib.MapM

/-!
# Sharing out the total budget

* `Allocation.Ok`: every partition has between nothing and its window, and what it has and what
  remains add up to the budget.
* `Ok.give`: raising one partition by at most what remains keeps this.
* **`distributeTotalBudget_spec`**: the limits stay within the windows and within the budget.
* `planFetch_limits`: so do those of every plan, one for each target.
-/

namespace OffsetExplorer.Fetch

open Std TreeTable

variable {S : Finset ℤ} {w g : ℤ → ℤ} {total : ℤ} {a : Allocation}

/-- `a` gives the partitions of `S` the amounts `g`, within their windows and the budget. -/
structure Allocation.Ok (S : Finset ℤ) (w : ℤ → ℤ) (total : ℤ) (a : Allocation) (g : ℤ → ℤ) :
    Prop where
  tabulates : Tabulates a.allocated S g
  nonneg : ∀ p ∈ S, 0 ≤ g p
  le_window : ∀ p ∈ S, g p ≤ w p
  spent : ∑ p ∈ S, g p + a.remaining = total
  remaining_nonneg : 0 ≤ a.remaining

namespace Allocation.Ok

/-- A partition may be given `v` when that is within its window and what remains pays for it. -/
theorem give (h : a.Ok S w total g) {p v : ℤ} (hp : p ∈ S) (hv : 0 ≤ v) (hw : v ≤ w p)
    (hr : v - g p ≤ a.remaining) :
    ({ allocated := a.allocated.insert p v, remaining := a.remaining - (v - g p) } : Allocation).Ok
      S w total (Function.update g p v) where
  tabulates := h.tabulates.insert_mem hp v
  nonneg q hq := by
    by_cases hqp : q = p
    · rwa [hqp, Function.update_self]
    · rw [Function.update_of_ne hqp]
      exact h.nonneg q hq
  le_window q hq := by
    by_cases hqp : q = p
    · rwa [hqp, Function.update_self]
    · rw [Function.update_of_ne hqp]
      exact h.le_window q hq
  spent := by
    have h1 := Finset.sum_update_of_mem hp g v
    have h2 := Finset.sum_eq_add_sum_sdiff_singleton_of_mem hp g
    have h3 := h.spent
    rw [h2] at h3
    show ∑ q ∈ S, Function.update g p v q + (a.remaining - (v - g p)) = total
    rw [h1]
    omega
  remaining_nonneg := by
    show 0 ≤ a.remaining - (v - g p)
    omega

end Allocation.Ok

theorem shareOut_ok (l : List (ℤ × ℤ)) (hnd : (l.map Prod.fst).Nodup)
    (hl : ∀ e ∈ l, e.1 ∈ S ∧ e.2 = w e.1) (hw : ∀ p ∈ S, 0 ≤ w p) (hg : ∀ e ∈ l, g e.1 = 0)
    (h : a.Ok S w total g) : ∃ g', (shareOut l l.length a).Ok S w total g' := by
  induction l generalizing a g with
  | nil => exact ⟨g, h⟩
  | cons e l ih =>
    obtain ⟨p, window⟩ := e
    rw [List.map_cons, List.nodup_cons] at hnd
    obtain ⟨hpS, hwp⟩ := hl _ List.mem_cons_self
    have hgp : g p = 0 := hg _ List.mem_cons_self
    by_cases hrem : a.remaining ≤ 0
    · rw [shareOut, if_pos hrem]
      exact ⟨g, h⟩
    · rw [shareOut, if_neg hrem]
      set share := a.remaining.tdiv ((p, window) :: l).length with hshare
      have hpos : (0 : ℤ) ≤ ((p, window) :: l).length := by omega
      have hshare0 : 0 ≤ share := Int.tdiv_nonneg h.remaining_nonneg hpos
      have hshare_le : share ≤ a.remaining := Int.tdiv_le_self _ h.remaining_nonneg
      have hwindow : 0 ≤ window := by
        rw [show window = w p from hwp]
        exact hw p hpS
      have hgive := h.give hpS (le_min hwindow hshare0) ((min_le_left _ _).trans hwp.le)
        (by rw [hgp, sub_zero]; exact (min_le_right _ _).trans hshare_le)
      rw [hgp, sub_zero] at hgive
      have hsharers : (((p, window) :: l).length : ℤ) - 1 = l.length := by simp
      rw [hsharers]
      refine ih hnd.2 (fun e he => hl e (List.mem_cons_of_mem _ he)) (fun e he => ?_) hgive
      have hne : e.1 ≠ p := fun heq => hnd.1 (List.mem_map.mpr ⟨e, he, heq⟩)
      rw [Function.update_of_ne hne]
      exact hg e (List.mem_cons_of_mem _ he)

theorem handOut_ok (l : List (ℤ × ℤ)) (hl : ∀ e ∈ l, e.1 ∈ S ∧ e.2 = w e.1)
    (h : a.Ok S w total g) : ∃ g', (handOut l a).Ok S w total g' := by
  induction l generalizing a g with
  | nil => exact ⟨g, h⟩
  | cons e l ih =>
    obtain ⟨p, window⟩ := e
    obtain ⟨hpS, hwp⟩ := hl _ List.mem_cons_self
    have hl' : ∀ e ∈ l, e.1 ∈ S ∧ e.2 = w e.1 := fun e he => hl e (List.mem_cons_of_mem _ he)
    by_cases hrem : a.remaining ≤ 0
    · rw [handOut, if_pos hrem]
      exact ⟨g, h⟩
    · rw [handOut, if_neg hrem, h.tabulates.get_mem hpS]
      by_cases htaken : g p < window
      · have hnonneg := h.nonneg p hpS
        have hwindow : window = w p := hwp
        have hgive := h.give hpS (show 0 ≤ g p + 1 by omega) (by omega)
          (show g p + 1 - g p ≤ a.remaining by omega)
        rw [add_sub_cancel_left] at hgive
        rw [Option.getD_some, if_pos htaken]
        exact ih hl' hgive
      · rw [Option.getD_some, if_neg htaken]
        exact ih hl' h

theorem byWindow_perm (windows : PartitionMap ℤ) :
    (byWindow windows).Perm (windows.toList.map fun e => (e.1, max e.2 0)) :=
  List.perm_insertionSort _ _

theorem byWindow_nodup (windows : PartitionMap ℤ) : ((byWindow windows).map Prod.fst).Nodup := by
  rw [((byWindow_perm windows).map Prod.fst).nodup_iff, List.map_map]
  have : (Prod.fst ∘ fun e : ℤ × ℤ => (e.1, max e.2 0)) = Prod.fst := rfl
  rw [this, TreeMap.map_fst_toList_eq_keys]
  exact TreeMap.nodup_keys

theorem mem_byWindow {windows : PartitionMap ℤ} (h : Tabulates windows S w)
    (hw : ∀ p ∈ S, 0 ≤ w p) : ∀ e ∈ byWindow windows, e.1 ∈ S ∧ e.2 = w e.1 := by
  intro e he
  rw [(byWindow_perm windows).mem_iff, h.toList_eq, List.map_map, List.mem_map] at he
  obtain ⟨p, hp, rfl⟩ := he
  have hpS : p ∈ S := by
    rw [← h.keys_toFinset]
    exact List.mem_toFinset.mpr hp
  exact ⟨hpS, max_eq_left (hw p hpS)⟩

/-- **The budget is kept.** Every limit is within its window, and with a total budget the limits
add up to at most that. -/
theorem distributeTotalBudget_spec {windows : PartitionMap ℤ} (h : Tabulates windows S w)
    (hw : ∀ p ∈ S, 0 ≤ w p) (maxTotal : Option UInt32) :
    ∃ g, Tabulates (distributeTotalBudget windows maxTotal) S g ∧ (∀ p ∈ S, 0 ≤ g p ∧ g p ≤ w p) ∧
      ∀ t, maxTotal = some t → ∑ p ∈ S, g p ≤ t.toNat := by
  cases maxTotal with
  | none => exact ⟨w, h, fun p hp => ⟨hw p hp, le_rfl⟩, fun t ht => by cases ht⟩
  | some t =>
    have hseeded : ({ allocated := windows.map fun _ _ => 0, remaining := t.toNat } :
        Allocation).Ok S w t.toNat fun _ => 0 :=
      ⟨h.map fun _ _ => 0, fun _ _ => le_rfl, hw, by simp, by simp⟩
    have hmem := mem_byWindow h hw
    obtain ⟨g₁, h₁⟩ := shareOut_ok (byWindow windows) (byWindow_nodup windows) hmem hw
      (fun _ _ => rfl) hseeded
    obtain ⟨g₂, h₂⟩ := handOut_ok (byWindow windows) hmem h₁
    refine ⟨g₂, h₂.tabulates, fun p hp => ⟨h₂.nonneg p hp, h₂.le_window p hp⟩, fun t' ht => ?_⟩
    cases ht
    have := h₂.spent
    have := h₂.remaining_nonneg
    omega

/-! ## The maps of a plan -/

variable {targets : List ℤ}

theorem collectOffsets_ok {α : Type} {f : ℤ → Except Report α} {g : ℤ → α}
    (h : ∀ p ∈ targets, f p = .ok (g p)) :
    ∃ m, collectOffsets targets f = .ok m ∧ Tabulates m targets.toFinset g := by
  refine ⟨_, ?_, Tabulates.ofList targets g⟩
  rw [collectOffsets, MapM.mapM_ok (g := fun p => (p, g p)) fun p hp => by rw [h p hp]; rfl]
  rfl

theorem tabulates_of_collectOffsets {f : ℤ → Except Report ℤ} {m : PartitionMap ℤ}
    (h : collectOffsets targets f = .ok m) : ∃ g, Tabulates m targets.toFinset g := by
  obtain ⟨entries, hentries, -⟩ := bind_eq_ok.mp h
  have hf : ∀ p ∈ targets, f p = .ok ((f p).toOption.getD 0) := by
    intro p hp
    obtain ⟨e, he⟩ := MapM.exists_of_mapM_ok hentries p hp
    obtain ⟨v, hv, -⟩ := bind_eq_ok.mp he
    rw [hv]
    rfl
  obtain ⟨m', hm', htab⟩ := collectOffsets_ok hf
  rw [h] at hm'
  cases hm'
  exact ⟨_, htab⟩

/-! ## The limits of a plan -/

theorem tabulates_filterStartOffsets {watermarks : ℤ → Except Report (ℤ × ℤ)}
    {explicit fromTimestamp : Option (PartitionMap ℤ)} {starts : PartitionMap ℤ}
    (h : filterStartOffsets targets watermarks explicit fromTimestamp = .ok starts) :
    ∃ g, Tabulates starts targets.toFinset g := by
  unfold filterStartOffsets at h
  split_ifs at h
  · cases h
    exact ⟨_, Tabulates.ofList targets _⟩
  · exact tabulates_of_collectOffsets h

/-- **The limits of every plan**, whatever the broker answers: one for each target, up to the cap, and
with a total budget no more than that together. -/
theorem planFetch_limits {b : Broker} {filter : MessageFilter} {plan : FetchPlan}
    (h : planFetch b filter = .ok plan) :
    ∃ g, Tabulates plan.limits (b.targetPartitions filter).toFinset g ∧
      (∀ p ∈ (b.targetPartitions filter).toFinset, 0 ≤ g p ∧
        g p ≤ (effectiveMaxMessagesPerPartition filter.maxMessagesPerPartition).toNat) ∧
      ∀ t, filter.maxTotalMessages = some t →
        ∑ p ∈ (b.targetPartitions filter).toFinset, g p ≤ t.toNat := by
  obtain ⟨found, _, h⟩ := bind_eq_ok.mp h
  obtain ⟨explicit, _, h⟩ := bind_eq_ok.mp h
  obtain ⟨fromTimestamp, _, h⟩ := bind_eq_ok.mp h
  obtain ⟨starts, hstarts, h⟩ := bind_eq_ok.mp h
  obtain ⟨ends, _, h⟩ := bind_eq_ok.mp h
  obtain ⟨start, hstart⟩ := tabulates_filterStartOffsets hstarts
  have hwindows : Tabulates (partitionLimits starts ends
      (some (effectiveMaxMessagesPerPartition filter.maxMessagesPerPartition))) _ _ := hstart.map _
  obtain ⟨g, hg, hle, hsum⟩ := distributeTotalBudget_spec hwindows
    (fun p _ => le_min (le_max_right _ _) (by simp)) filter.maxTotalMessages
  have hcap : ∀ p ∈ (b.targetPartitions filter).toFinset, 0 ≤ g p ∧
      g p ≤ (effectiveMaxMessagesPerPartition filter.maxMessagesPerPartition).toNat := by
    intro p hp
    exact ⟨(hle p hp).1, (hle p hp).2.trans (min_le_right _ _)⟩
  dsimp only at h
  split_ifs at h
  · obtain ⟨startOffsets, _, h⟩ := bind_eq_ok.mp h
    cases h
    exact ⟨g, hg, hcap, hsum⟩
  · obtain ⟨startOffsets, _, h⟩ := bind_eq_ok.mp h
    cases h
    exact ⟨g, hg, hcap, hsum⟩

theorem planFetch_limits_nonneg {b : Broker} {filter : MessageFilter} {plan : FetchPlan}
    (h : planFetch b filter = .ok plan) (p : ℤ) : 0 ≤ (plan.limits[p]?).getD 0 := by
  obtain ⟨g, hg, hle, -⟩ := planFetch_limits h
  by_cases hp : p ∈ (b.targetPartitions filter).toFinset
  · rw [hg.get_mem hp]
    exact (hle p hp).1
  · rw [hg.get_not_mem hp]
    exact le_rfl

end OffsetExplorer.Fetch
