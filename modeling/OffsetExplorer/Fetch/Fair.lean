import OffsetExplorer.Fetch.Budget
import OffsetExplorer.Lib.EvenShare
import Mathlib.Algebra.Order.BigOperators.Group.Finset

/-!
# The total budget is shared fairly

The first pass over the partitions, smallest window first, is the fair division of the budget into
even shares. It leaves nothing over, so the second pass finds nothing to do.

* `shareOut_spec`: the first pass gives each partition its `amount`.
* `handOut_idle`: the second pass changes nothing where the budget or every window is used up.
* `distributeTotalBudget_eq`: the limits are the amounts of the fair division.
* `i64Div`, `distributeTotalBudgetChecked`: the same with the panics of the source.
* **`budget_shared_fairly`**: the limits are exact and fair, and nothing panics.
* **`budget_monotone`**: a larger budget takes nothing away.
-/

namespace OffsetExplorer.Fetch

open Std (TreeMap)
open TreeTable EvenShare

variable {S : Finset ℤ} {g : ℤ → ℤ} {a : Allocation} {l : List (ℤ × ℤ)}

/-! ## The first pass -/

theorem amount_zero (hl : ∀ e ∈ l, 0 ≤ e.2) (p : ℤ) : amount l 0 p = 0 := by
  induction l with
  | nil => rfl
  | cons e rest ih =>
    have htake : min e.2 (0 / (rest.length + 1 : ℤ)) = 0 := by
      rw [Int.zero_ediv]
      exact min_eq_right (hl e List.mem_cons_self)
    by_cases hp : p = e.1
    · rw [hp, amount_self, htake]
    · rw [amount_of_ne hp, htake, sub_zero]
      exact ih fun e he => hl e (List.mem_cons_of_mem _ he)

theorem add_amount_cons {p w r : ℤ} {rest : List (ℤ × ℤ)} (hgp : g p = 0)
    (hp : p ∉ rest.map Prod.fst) (q : ℤ) :
    Function.update g p (min w (r / (rest.length + 1))) q +
        amount rest (r - min w (r / (rest.length + 1))) q = g q + amount ((p, w) :: rest) r q := by
  by_cases hq : q = p
  · have hrest : ∀ v, (p, v) ∉ rest := fun v hv => hp (List.mem_map.mpr ⟨_, hv, rfl⟩)
    rw [hq, Function.update_self, amount_self, amount_of_not_mem hrest, hgp]
    omega
  · rw [Function.update_of_ne hq, amount_of_ne hq]

/-- **The first pass divides fairly.** Each partition gets its amount, and the rest remains. -/
theorem shareOut_spec (hnd : (l.map Prod.fst).Nodup) (hl : ∀ e ∈ l, 0 ≤ e.2)
    (hmem : ∀ e ∈ l, e.1 ∈ S) (hg : ∀ e ∈ l, g e.1 = 0) (h : Tabulates a.allocated S g)
    (hr : 0 ≤ a.remaining) :
    Tabulates (shareOut l l.length a).allocated S (fun p => g p + amount l a.remaining p) ∧
      (shareOut l l.length a).remaining =
        a.remaining - ∑ p ∈ (l.map Prod.fst).toFinset, amount l a.remaining p := by
  induction l generalizing a g with
  | nil => exact ⟨h.congr fun p _ => (add_zero _).symm, by simp [shareOut]⟩
  | cons e rest ih =>
    obtain ⟨p, w⟩ := e
    by_cases hrem : a.remaining ≤ 0
    · have h0 : a.remaining = 0 := le_antisymm hrem hr
      rw [shareOut, if_pos hrem, h0, Finset.sum_congr rfl fun p _ => amount_zero hl p]
      refine ⟨h.congr fun p _ => ?_, by simp⟩
      rw [amount_zero hl, add_zero]
    · have hshare : a.remaining.tdiv ((p, w) :: rest).length = a.remaining / (rest.length + 1) := by
        rw [Int.tdiv_eq_ediv_of_nonneg hr, List.length_cons, Nat.cast_succ]
      have hlen : (((p, w) :: rest).length : ℤ) - 1 = rest.length := by simp
      have hnd' := hnd
      rw [List.map_cons, List.nodup_cons] at hnd'
      have hgrest : ∀ e ∈ rest,
          Function.update g p (min w (a.remaining / (rest.length + 1))) e.1 = 0 := by
        intro e he
        have hne : e.1 ≠ p := fun heq => hnd'.1 (List.mem_map.mpr ⟨e, he, heq⟩)
        rw [Function.update_of_ne hne]
        exact hg e (List.mem_cons_of_mem _ he)
      obtain ⟨htab, hleft⟩ := ih hnd'.2 (fun e he => hl e (List.mem_cons_of_mem _ he))
        (fun e he => hmem e (List.mem_cons_of_mem _ he)) hgrest
        (a := ⟨a.allocated.insert p (min w (a.remaining / (rest.length + 1))),
          a.remaining - min w (a.remaining / (rest.length + 1))⟩)
        (h.insert_mem (hmem _ List.mem_cons_self) _) (rest_nonneg hr _ _)
      rw [shareOut, if_neg hrem]
      dsimp only
      rw [hshare, hlen]
      refine ⟨htab.congr fun q _ => ?_, ?_⟩
      · exact add_amount_cons (hg _ List.mem_cons_self) hnd'.1 q
      · dsimp only at hleft
        rw [hleft, sum_cons hnd]
        omega

/-! ## The second pass -/

/-- **The second pass is idle** where nothing remains or no partition has room. -/
theorem handOut_idle (hmem : ∀ e ∈ l, e.1 ∈ S) (h : Tabulates a.allocated S g)
    (hfull : a.remaining ≤ 0 ∨ ∀ e ∈ l, e.2 ≤ g e.1) : handOut l a = a := by
  induction l with
  | nil => rfl
  | cons e rest ih =>
    by_cases hrem : a.remaining ≤ 0
    · rw [handOut, if_pos hrem]
    · have hfull := hfull.resolve_left hrem
      have htaken : ¬ g e.1 < e.2 := not_lt.mpr (hfull e List.mem_cons_self)
      rw [handOut, if_neg hrem, h.get_mem (hmem e List.mem_cons_self), Option.getD_some,
        if_neg htaken]
      exact ih (fun e he => hmem e (List.mem_cons_of_mem _ he))
        (.inr fun e he => hfull e (List.mem_cons_of_mem _ he))

/-! ## The windows in order -/

instance : Std.Total windowLe where
  total a b := by
    unfold windowLe
    omega

instance : IsTrans (ℤ × ℤ) windowLe where
  trans a b c := by
    unfold windowLe
    omega

theorem byWindow_sorted (windows : PartitionMap ℤ) :
    (byWindow windows).Pairwise fun a b => a.2 ≤ b.2 := by
  refine (List.pairwise_insertionSort windowLe _).imp ?_
  unfold windowLe
  omega

/-- A partition's window as the distribution sees it. -/
def windowOf (windows : PartitionMap ℤ) (p : ℤ) : ℤ := max (windows[p]?.getD 0) 0

theorem windowOf_eq {windows : PartitionMap ℤ} {p w : ℤ} (h : windows[p]? = some w) :
    windowOf windows p = max w 0 := by
  rw [windowOf, h, Option.getD_some]

theorem of_mem_byWindow {windows : PartitionMap ℤ} {e : ℤ × ℤ} (he : e ∈ byWindow windows) :
    e.2 = windowOf windows e.1 ∧ 0 ≤ e.2 := by
  rw [(byWindow_perm windows).mem_iff, List.mem_map] at he
  obtain ⟨⟨p, w⟩, hw, rfl⟩ := he
  exact ⟨(windowOf_eq (TreeMap.mem_toList_iff_getElem?_eq_some.mp hw)).symm, le_max_right _ _⟩

theorem byWindow_keys (windows : PartitionMap ℤ) :
    ((byWindow windows).map Prod.fst).toFinset = windows.keys.toFinset := by
  ext p
  rw [List.mem_toFinset, ((byWindow_perm windows).map Prod.fst).mem_iff, List.map_map,
    ← TreeMap.map_fst_toList_eq_keys, List.mem_toFinset]
  rfl

theorem maxMinFair_byWindow (windows : PartitionMap ℤ) (total : UInt32) :
    MaxMinFair windows.keys.toFinset (windowOf windows) (amount (byWindow windows) total.toNat)
      total.toNat := by
  rw [← byWindow_keys]
  exact maxMinFair_amount (byWindow_nodup windows) (byWindow_sorted windows)
    (fun _ he => of_mem_byWindow he) (by omega)

/-- **What the distribution computes.** -/
theorem distributeTotalBudget_eq (windows : PartitionMap ℤ) (total : UInt32) :
    Tabulates (distributeTotalBudget windows (some total)) windows.keys.toFinset
      (amount (byWindow windows) total.toNat) := by
  have hmem : ∀ e ∈ byWindow windows, e.1 ∈ windows.keys.toFinset := by
    intro e he
    rw [← byWindow_keys]
    exact List.mem_toFinset.mpr (List.mem_map_of_mem he)
  have hfair := maxMinFair_byWindow windows total
  obtain ⟨htab, hleft⟩ := shareOut_spec (a := ⟨windows.map fun _ _ => 0, total.toNat⟩)
    (byWindow_nodup windows) (fun e he => (of_mem_byWindow he).2) hmem (fun _ _ => rfl)
    ((Tabulates.self windows 0).map fun _ _ => 0) (by dsimp only; omega)
  have htab' := htab.congr fun p _ => zero_add _
  rw [byWindow_keys, hfair.sum_eq] at hleft
  rw [distributeTotalBudget, handOut_idle hmem htab']
  · exact htab'
  · -- what remains is what the windows do not hold, and then each is full
    rcases le_total (total.toNat : ℤ) (∑ p ∈ windows.keys.toFinset, windowOf windows p) with h | h
    · left
      rw [hleft, min_eq_left h]
      exact (sub_self _).le
    · right
      have hsum := hfair.sum_eq
      rw [min_eq_right h, Finset.sum_eq_sum_iff_of_le hfair.le_claim] at hsum
      intro e he
      rw [(of_mem_byWindow he).1, ← hsum e.1 (hmem e he)]

/-! ## The panics of the source -/

/-- `a / b` on `i64`, which panics where `b` is zero. -/
def i64Div (a b : ℤ) : Option ℤ := if b = 0 then none else some (a.tdiv b)

/-- One round with checked arithmetic; `none` is a panic. -/
def shareOutChecked : List (ℤ × ℤ) → ℤ → Allocation → Option Allocation
  | [], _, a => some a
  | (partition, window) :: rest, sharers, a =>
    if a.remaining ≤ 0 then some a
    else do
      let share ← i64Div a.remaining sharers
      let take := min window share
      shareOutChecked rest (sharers - 1)
        { allocated := a.allocated.insert partition take, remaining := a.remaining - take }

/-- The second pass, which expects an entry for every partition. -/
def handOutChecked : List (ℤ × ℤ) → Allocation → Option Allocation
  | [], a => some a
  | (partition, window) :: rest, a =>
    if a.remaining ≤ 0 then some a
    else do
      let taken ← a.allocated[partition]?
      if taken < window then
        handOutChecked rest
          { allocated := a.allocated.insert partition (taken + 1), remaining := a.remaining - 1 }
      else handOutChecked rest a

/-- `distributeTotalBudget`, where nothing is returned if a step of it panics. -/
def distributeTotalBudgetChecked (windows : PartitionMap ℤ) :
    Option UInt32 → Option (PartitionMap ℤ)
  | none => some windows
  | some maxTotal => do
    let seeded : Allocation :=
      { allocated := windows.map fun _ _ => 0, remaining := maxTotal.toNat }
    let byWindow := byWindow windows
    let shared ← shareOutChecked byWindow byWindow.length seeded
    return (← handOutChecked byWindow shared).allocated

theorem shareOutChecked_eq (l : List (ℤ × ℤ)) (a : Allocation) :
    shareOutChecked l l.length a = some (shareOut l l.length a) := by
  induction l generalizing a with
  | nil => rfl
  | cons e rest ih =>
    have hlen : ((e :: rest).length : ℤ) - 1 = rest.length := by simp
    have hpos : ((e :: rest).length : ℤ) ≠ 0 := by
      rw [List.length_cons]
      omega
    by_cases hrem : a.remaining ≤ 0
    · rw [shareOutChecked, shareOut, if_pos hrem, if_pos hrem]
    · rw [shareOutChecked, shareOut, if_neg hrem, if_neg hrem, i64Div, if_neg hpos, hlen]
      exact ih _

theorem handOutChecked_eq (hmem : ∀ e ∈ l, e.1 ∈ S) (h : Tabulates a.allocated S g) :
    handOutChecked l a = some (handOut l a) := by
  induction l generalizing a g with
  | nil => rfl
  | cons e rest ih =>
    have hp : e.1 ∈ S := hmem e List.mem_cons_self
    have hmem' : ∀ e ∈ rest, e.1 ∈ S := fun e he => hmem e (List.mem_cons_of_mem _ he)
    by_cases hrem : a.remaining ≤ 0
    · rw [handOutChecked, handOut, if_pos hrem, if_pos hrem]
    · rw [handOutChecked, handOut, if_neg hrem, if_neg hrem, h.get_mem hp, Option.getD_some]
      by_cases htaken : g e.1 < e.2
      · have hstep := ih (a := ⟨a.allocated.insert e.1 (g e.1 + 1), a.remaining - 1⟩) hmem'
          (h.insert_mem hp _)
        simpa only [Option.bind_eq_bind, Option.bind_some, if_pos htaken] using hstep
      · simpa only [Option.bind_eq_bind, Option.bind_some, if_neg htaken] using ih hmem' h

theorem distributeTotalBudgetChecked_eq (windows : PartitionMap ℤ) (budget : Option UInt32) :
    distributeTotalBudgetChecked windows budget = some (distributeTotalBudget windows budget) := by
  cases budget with
  | none => rfl
  | some total =>
    have hmem : ∀ e ∈ byWindow windows, e.1 ∈ windows.keys.toFinset := by
      intro e he
      rw [← byWindow_keys]
      exact List.mem_toFinset.mpr (List.mem_map_of_mem he)
    obtain ⟨htab, -⟩ := shareOut_spec (a := ⟨windows.map fun _ _ => 0, total.toNat⟩)
      (byWindow_nodup windows) (fun e he => (of_mem_byWindow he).2) hmem (fun _ _ => rfl)
      ((Tabulates.self windows 0).map fun _ _ => 0) (by dsimp only; omega)
    have hhand := handOutChecked_eq hmem htab
    rw [distributeTotalBudgetChecked, shareOutChecked_eq]
    show (handOutChecked _ _).bind _ = _
    rw [hhand]
    rfl

/-! ## The limits -/

/-- **The budget is shared exactly and fairly.** No step panics, no budget leaves the windows as
they are, and a budget gives each partition between nothing and its window, all of it or all the
windows, and never two more than a partition that goes short. -/
theorem budget_shared_fairly (windows : PartitionMap ℤ) :
    (∀ budget : Option UInt32, distributeTotalBudgetChecked windows budget =
      some (distributeTotalBudget windows budget)) ∧
    distributeTotalBudget windows none = windows ∧
    ∀ total : UInt32,
      (∀ p : ℤ, p ∈ distributeTotalBudget windows (some total) ↔ p ∈ windows) ∧
      (∀ p w n : ℤ, windows[p]? = some w →
        (distributeTotalBudget windows (some total))[p]? = some n → 0 ≤ n ∧ n ≤ max w 0) ∧
      ((distributeTotalBudget windows (some total)).toList.map Prod.snd).sum =
        min (total.toNat : ℤ) (windows.toList.map fun e => max e.2 0).sum ∧
      ∀ p w n : ℤ, windows[p]? = some w →
        (distributeTotalBudget windows (some total))[p]? = some n → n < w →
        ∀ q m : ℤ, (distributeTotalBudget windows (some total))[q]? = some m → m ≤ n + 1 := by
  refine ⟨distributeTotalBudgetChecked_eq windows, rfl, fun total => ?_⟩
  have htab := distributeTotalBudget_eq windows total
  have hfair := maxMinFair_byWindow windows total
  -- a limit that is there is the amount of a partition that is
  have hget : ∀ {p n : ℤ}, (distributeTotalBudget windows (some total))[p]? = some n →
      p ∈ windows.keys.toFinset ∧ n = amount (byWindow windows) total.toNat p := by
    intro p n hn
    by_cases hp : p ∈ windows.keys.toFinset
    · rw [htab.get_mem hp] at hn
      exact ⟨hp, (Option.some.inj hn).symm⟩
    · rw [htab.get_not_mem hp] at hn
      cases hn
  refine ⟨fun p => ?_, fun p w n hw hn => ?_, ?_, fun p w n hw hn hlt q m hm => ?_⟩
  · rw [htab.mem_iff, List.mem_toFinset, TreeMap.mem_keys]
  · obtain ⟨hp, rfl⟩ := hget hn
    rw [← windowOf_eq hw]
    exact ⟨hfair.nonneg p hp, hfair.le_claim p hp⟩
  · have hwindows := (Tabulates.self windows 0).sum_toList fun e => max e.2 0
    rw [htab.sum_toList Prod.snd, hwindows]
    exact hfair.sum_eq
  · obtain ⟨hp, rfl⟩ := hget hn
    obtain ⟨hq, rfl⟩ := hget hm
    refine hfair.fair p hp ?_ q hq
    rw [windowOf_eq hw]
    omega

/-- **A larger budget takes nothing away.** -/
theorem budget_monotone (windows : PartitionMap ℤ) (total total' : UInt32)
    (h : total ≤ total') (p n : ℤ)
    (hn : (distributeTotalBudget windows (some total))[p]? = some n) :
    ∃ n', (distributeTotalBudget windows (some total'))[p]? = some n' ∧ n ≤ n' := by
  have htab := distributeTotalBudget_eq windows total
  have htab' := distributeTotalBudget_eq windows total'
  by_cases hp : p ∈ windows.keys.toFinset
  · rw [htab.get_mem hp] at hn
    refine ⟨_, htab'.get_mem hp, ?_⟩
    rw [← Option.some.inj hn]
    exact amount_mono (by exact_mod_cast UInt32.le_iff_toNat_le.mp h) p
  · rw [htab.get_not_mem hp] at hn
    cases hn

/-- Of three messages the larger of two partitions gives two, and of ten no fewer. -/
theorem budget_monotone_three_ten :
    ∃ n', (distributeTotalBudget (.ofList [((0 : ℤ), (2 : ℤ)), (1, 100)]) (some 10))[(1 : ℤ)]? =
      some n' ∧ 2 ≤ n' := by
  have hthree : (distributeTotalBudget (.ofList [((0 : ℤ), (2 : ℤ)), (1, 100)])
      (some 3))[(1 : ℤ)]? = some 2 := by decide +kernel
  exact budget_monotone _ 3 10 (by decide) 1 2 hthree

end OffsetExplorer.Fetch
