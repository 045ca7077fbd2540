import Mathlib.Algebra.BigOperators.Group.Finset.Basic
import Mathlib.Algebra.Order.BigOperators.Group.List
import Mathlib.Algebra.Order.Ring.Int
import Mathlib.Data.Finset.Dedup
import Mathlib.Data.List.Sort
import Mathlib.Tactic.Linarith
import Mathlib.Tactic.Ring

/-!
# Even shares of a budget

Claimants take turns: each takes its claim or an even share of what is left for those still to come,
whichever is less. With the smallest claim first this is the max-min fair division in whole units.

* `MaxMinFair`: within the claims, whole, and fair to within one unit.
* `amount`: what each claimant takes in turn.
* `amount_mono`: nobody takes less of a larger budget.
* `level_le_amount`, `amount_le_level`: the shares never fall, and rise by at most a unit once a
  claim goes unmet.
* **`maxMinFair_amount`**: smallest claim first, the division is fair.
-/

namespace EvenShare

variable {ι : Type*} {S : Finset ι} {claim alloc : ι → ℤ} {budget : ℤ}

/-- `alloc` divides `budget` among the claims of `S` fairly. -/
structure MaxMinFair (S : Finset ι) (claim alloc : ι → ℤ) (budget : ℤ) : Prop where
  nonneg : ∀ i ∈ S, 0 ≤ alloc i
  le_claim : ∀ i ∈ S, alloc i ≤ claim i
  sum_eq : ∑ i ∈ S, alloc i = min budget (∑ i ∈ S, claim i)
  fair : ∀ i ∈ S, alloc i < claim i → ∀ j ∈ S, alloc j ≤ alloc i + 1

/-! ## One share -/

/-- What the others have after an even share is at least as much for each as before. -/
theorem level_le_rest {c r n : ℤ} (hn : 0 ≤ n) (h : c * (n + 1) ≤ r) : c * n ≤ r - r / (n + 1) := by
  have hdiv := Int.mul_ediv_add_emod r (n + 1)
  have hmod := Int.emod_nonneg r (show n + 1 ≠ 0 by omega)
  have hc : c ≤ r / (n + 1) := (Int.le_ediv_iff_mul_le (by omega)).mpr h
  have := mul_le_mul_of_nonneg_right hc hn
  linarith

theorem rest_le_level {c r n : ℤ} (hn : 0 ≤ n) (h : r ≤ c * (n + 1)) : r - r / (n + 1) ≤ c * n := by
  have hdiv := Int.mul_ediv_add_emod r (n + 1)
  have hmod := Int.emod_nonneg r (show n + 1 ≠ 0 by omega)
  have hlt := Int.emod_lt_of_pos r (show 0 < n + 1 by omega)
  have hc : r / (n + 1) ≤ c := Int.ediv_le_of_le_mul (by omega) h
  rcases hc.lt_or_eq with hs | hs
  · have := mul_le_mul_of_nonneg_right (show r / (n + 1) + 1 ≤ c by omega) hn
    linarith
  · rw [hs] at hdiv ⊢
    linarith

theorem rest_mono {r r' n : ℤ} (hn : 0 ≤ n) (h : r ≤ r') : r - r / (n + 1) ≤ r' - r' / (n + 1) := by
  have hdiv := Int.mul_ediv_add_emod r (n + 1)
  have hmod := Int.emod_nonneg r (show n + 1 ≠ 0 by omega)
  have hdiv' := Int.mul_ediv_add_emod r' (n + 1)
  have hlt := Int.emod_lt_of_pos r (show 0 < n + 1 by omega)
  have hmod' := Int.emod_nonneg r' (show n + 1 ≠ 0 by omega)
  have hs : r / (n + 1) ≤ r' / (n + 1) := Int.ediv_le_ediv (by omega) h
  rcases hs.lt_or_eq with hs | hs
  · have := mul_le_mul_of_nonneg_right (show r / (n + 1) + 1 ≤ r' / (n + 1) by omega) hn
    linarith
  · rw [hs]
    omega

theorem take_of_le {c r n w : ℤ} (hn : 0 ≤ n) (h : r ≤ c * (n + 1)) (hw : c ≤ w) :
    min w (r / (n + 1)) = r / (n + 1) :=
  min_eq_right ((Int.ediv_le_of_le_mul (by omega) h).trans hw)

/-! ## Taking turns -/

variable [DecidableEq ι]

/-- What claimant `i` takes when those of the list take turns at `r`. -/
def amount : List (ι × ℤ) → ℤ → ι → ℤ
  | [], _, _ => 0
  | (j, w) :: rest, r, i =>
    if i = j then min w (r / (rest.length + 1))
    else amount rest (r - min w (r / (rest.length + 1))) i

variable {l rest : List (ι × ℤ)} {i j : ι} {w r r' c : ℤ}

theorem amount_self : amount ((j, w) :: rest) r j = min w (r / (rest.length + 1)) := by
  rw [amount, if_pos rfl]

theorem amount_of_ne (h : i ≠ j) : amount ((j, w) :: rest) r i =
    amount rest (r - min w (r / (rest.length + 1))) i := by
  rw [amount, if_neg h]

theorem amount_of_not_mem (h : ∀ w, (i, w) ∉ l) : amount l r i = 0 := by
  induction l generalizing r with
  | nil => rfl
  | cons e rest ih =>
    have hne : i ≠ e.1 := fun he => h e.2 (he ▸ List.mem_cons_self)
    rw [amount_of_ne hne]
    exact ih fun w hw => h w (List.mem_cons_of_mem _ hw)

theorem rest_nonneg (hr : 0 ≤ r) (w : ℤ) (n : ℕ) : 0 ≤ r - min w (r / (n + 1)) := by
  have h1 := min_le_right w (r / (n + 1))
  have h2 := Int.ediv_le_self (n + 1 : ℤ) hr
  omega

theorem amount_nonneg (hl : ∀ e ∈ l, 0 ≤ e.2) (hr : 0 ≤ r) (i : ι) : 0 ≤ amount l r i := by
  induction l generalizing r with
  | nil => exact le_rfl
  | cons e rest ih =>
    by_cases h : i = e.1
    · rw [h, amount_self]
      exact le_min (hl e List.mem_cons_self) (Int.ediv_nonneg hr (by omega))
    · rw [amount_of_ne h]
      exact ih (fun e he => hl e (List.mem_cons_of_mem _ he)) (rest_nonneg hr _ _)

/-- **Nobody takes less of a larger budget.** -/
theorem amount_mono (h : r ≤ r') (i : ι) : amount l r i ≤ amount l r' i := by
  induction l generalizing r r' with
  | nil => exact le_rfl
  | cons e rest ih =>
    have hshare : r / (rest.length + 1 : ℤ) ≤ r' / (rest.length + 1) :=
      Int.ediv_le_ediv (by omega) h
    by_cases hi : i = e.1
    · rw [hi, amount_self, amount_self]
      exact min_le_min_left _ hshare
    · rw [amount_of_ne hi, amount_of_ne hi]
      apply ih
      have := rest_mono (n := rest.length) (by omega) h
      omega

theorem amount_le (hnd : (l.map Prod.fst).Nodup) (hi : (i, w) ∈ l) : amount l r i ≤ w := by
  induction l generalizing r with
  | nil => cases hi
  | cons e rest ih =>
    rw [List.map_cons, List.nodup_cons] at hnd
    rcases List.mem_cons.mp hi with rfl | hi
    · rw [amount_self]
      exact min_le_left _ _
    · have hne : i ≠ e.1 := fun he => hnd.1 (List.mem_map.mpr ⟨_, hi, he⟩)
      rw [amount_of_ne hne]
      exact ih hnd.2 hi

theorem level_le_amount (hnd : (l.map Prod.fst).Nodup) (hr : c * l.length ≤ r) (hi : (i, w) ∈ l) :
    min w c ≤ amount l r i := by
  induction l generalizing r with
  | nil => cases hi
  | cons e rest ih =>
    rw [List.map_cons, List.nodup_cons] at hnd
    rw [List.length_cons, Nat.cast_succ] at hr
    rcases List.mem_cons.mp hi with rfl | hi
    · rw [amount_self]
      exact min_le_min_left _ ((Int.le_ediv_iff_mul_le (by omega)).mpr hr)
    · have hne : i ≠ e.1 := fun he => hnd.1 (List.mem_map.mpr ⟨_, hi, he⟩)
      rw [amount_of_ne hne]
      refine ih hnd.2 ?_ hi
      have := level_le_rest (by omega) hr
      omega

/-- Where every claim reaches `c` and the budget has at most `c` for everyone, nobody has more. -/
theorem amount_le_level (hr : r ≤ c * l.length) (hl : ∀ e ∈ l, c ≤ e.2) (hi : (i, w) ∈ l) :
    amount l r i ≤ c := by
  induction l generalizing r with
  | nil => cases hi
  | cons e rest ih =>
    rw [List.length_cons, Nat.cast_succ] at hr
    have htake := take_of_le (by omega) hr (hl e List.mem_cons_self)
    by_cases hne : i = e.1
    · rw [hne, amount_self, htake]
      exact Int.ediv_le_of_le_mul (by omega) hr
    · rw [amount_of_ne hne, htake]
      have hi' : (i, w) ∈ rest := (List.mem_cons.mp hi).resolve_left fun he => hne (he ▸ rfl)
      exact ih (rest_le_level (by omega) hr) (fun e he => hl e (List.mem_cons_of_mem _ he)) hi'

/-! ## The whole budget -/

theorem sum_cons (hnd : (((j, w) :: rest).map Prod.fst).Nodup) :
    ∑ i ∈ (((j, w) :: rest).map Prod.fst).toFinset, amount ((j, w) :: rest) r i =
      min w (r / (rest.length + 1)) +
        ∑ i ∈ (rest.map Prod.fst).toFinset, amount rest (r - min w (r / (rest.length + 1))) i := by
  rw [List.map_cons, List.nodup_cons] at hnd
  rw [List.map_cons, List.toFinset_cons, Finset.sum_insert (by simpa using hnd.1), amount_self]
  congr 1
  refine Finset.sum_congr rfl fun i hi => amount_of_ne fun he => hnd.1 ?_
  rw [← he]
  exact List.mem_toFinset.mp hi

theorem sum_of_level (hnd : (l.map Prod.fst).Nodup) (hr0 : 0 ≤ r) (hr : r ≤ c * l.length)
    (hl : ∀ e ∈ l, c ≤ e.2) : ∑ i ∈ (l.map Prod.fst).toFinset, amount l r i = r := by
  induction l generalizing r with
  | nil =>
    have : r = 0 := le_antisymm (by simpa using hr) hr0
    simp [this]
  | cons e rest ih =>
    have hr1 : r ≤ c * (rest.length + 1) := by simpa using hr
    have htake := take_of_le (by omega) hr1 (hl e List.mem_cons_self)
    rw [sum_cons hnd, ih (List.nodup_cons.mp hnd).2 (rest_nonneg hr0 _ _)
      (by rw [htake]; exact rest_le_level (by omega) hr1)
      fun e he => hl e (List.mem_cons_of_mem _ he)]
    ring

/-- **The budget is spent**, or every claim is met. -/
theorem sum_amount (hnd : (l.map Prod.fst).Nodup) (hs : l.Pairwise fun a b => a.2 ≤ b.2)
    (hl : ∀ e ∈ l, 0 ≤ e.2) (hr : 0 ≤ r) :
    ∑ i ∈ (l.map Prod.fst).toFinset, amount l r i = min r (l.map Prod.snd).sum := by
  induction l generalizing r with
  | nil => simp [hr]
  | cons e rest ih =>
    obtain ⟨j, w⟩ := e
    rw [List.pairwise_cons] at hs
    rcases le_or_gt w (r / (rest.length + 1)) with hw | hw
    · rw [sum_cons hnd, ih (List.nodup_cons.mp hnd).2 hs.2
        (fun e he => hl e (List.mem_cons_of_mem _ he)) (rest_nonneg hr _ _), min_eq_left hw,
        List.map_cons, List.sum_cons]
      omega
    · -- the head goes short, so every claim passes the next level and the whole budget goes
      have hlevel : ∀ e ∈ (j, w) :: rest, r / (rest.length + 1 : ℤ) + 1 ≤ e.2 := by
        intro e he
        rcases List.mem_cons.mp he with rfl | he
        · exact hw
        · exact hw.trans_le (hs.1 e he)
      have hbound : r ≤ (r / (rest.length + 1 : ℤ) + 1) * ((j, w) :: rest).length := by
        have := Int.lt_ediv_add_one_mul_self r (show (0 : ℤ) < rest.length + 1 by omega)
        rw [List.length_cons, Nat.cast_succ]
        exact this.le
      have hsum := sum_of_level hnd hr hbound hlevel
      have hle : ∑ i ∈ (((j, w) :: rest).map Prod.fst).toFinset, amount ((j, w) :: rest) r i ≤
          (((j, w) :: rest).map Prod.snd).sum := by
        rw [List.sum_toFinset _ hnd, List.map_map]
        exact List.sum_le_sum fun e he => amount_le hnd he
      rw [hsum] at hle ⊢
      exact (min_eq_left hle).symm

/-! ## Fairness -/

/-- Of two claimants in turn, each that goes short has at most a unit less than the other. -/
theorem fair_of_sorted (hnd : (l.map Prod.fst).Nodup) (hs : l.Pairwise fun a b => a.2 ≤ b.2)
    {v : ℤ} (hi : (i, w) ∈ l) (hj : (j, v) ∈ l) (hshort : amount l r i < w) :
    amount l r j ≤ amount l r i + 1 := by
  induction l generalizing r with
  | nil => cases hi
  | cons e rest ih =>
    have hnd' := hnd
    rw [List.map_cons, List.nodup_cons] at hnd'
    rw [List.pairwise_cons] at hs
    have hne : ∀ {k : ι} {x : ℤ}, (k, x) ∈ rest → k ≠ e.1 :=
      fun hk he => hnd'.1 (List.mem_map.mpr ⟨_, hk, he⟩)
    have hpos : (0 : ℤ) < rest.length + 1 := by omega
    rcases List.mem_cons.mp hi with rfl | hi' <;> rcases List.mem_cons.mp hj with hje | hj'
    · obtain ⟨rfl, -⟩ := Prod.mk.inj hje
      omega
    · -- the head goes short: nobody later passes its level by more than one
      rw [amount_self] at hshort ⊢
      have hw : r / (rest.length + 1 : ℤ) < w := by omega
      rw [min_eq_right hw.le]
      refine amount_le_level (w := v) ?_ (fun e he => ?_) hj
      · have := Int.lt_ediv_add_one_mul_self r hpos
        rw [List.length_cons, Nat.cast_succ]
        exact this.le
      · rcases List.mem_cons.mp he with rfl | he
        · exact hw
        · exact hw.trans_le (hs.1 e he)
    · -- the head comes first: what it was offered is what everyone later gets
      have hlevel : min w (r / (rest.length + 1)) ≤ amount (e :: rest) r i := by
        refine level_le_amount hnd ?_ hi
        rw [List.length_cons, Nat.cast_succ]
        exact Int.ediv_mul_le r hpos.ne'
      have hje' : j = e.1 := congrArg Prod.fst hje
      have hle : amount (e :: rest) r j ≤ r / (rest.length + 1) := by
        rw [hje', amount_self]
        exact min_le_right _ _
      omega
    · rw [amount_of_ne (hne hi')] at hshort ⊢
      rw [amount_of_ne (hne hj')]
      exact ih hnd'.2 hs.2 hi' hj' hshort

/-- **Even shares are fair.** With the smallest claim first, the amounts are the max-min fair
division of the budget. -/
theorem maxMinFair_amount (hnd : (l.map Prod.fst).Nodup) (hs : l.Pairwise fun a b => a.2 ≤ b.2)
    (hl : ∀ e ∈ l, e.2 = claim e.1 ∧ 0 ≤ e.2) (hr : 0 ≤ r) :
    MaxMinFair (l.map Prod.fst).toFinset claim (amount l r) r := by
  have hmem : ∀ i ∈ (l.map Prod.fst).toFinset, (i, claim i) ∈ l := by
    intro i hi
    obtain ⟨e, he, rfl⟩ := List.mem_map.mp (List.mem_toFinset.mp hi)
    rw [← (hl e he).1]
    exact he
  refine ⟨fun i _ => amount_nonneg (fun e he => (hl e he).2) hr i,
    fun i hi => amount_le hnd (hmem i hi), ?_,
    fun i hi hshort j hj => fair_of_sorted hnd hs (hmem i hi) (hmem j hj) hshort⟩
  rw [sum_amount hnd hs (fun e he => (hl e he).2) hr, List.sum_toFinset _ hnd, List.map_map]
  congr 2
  exact List.map_congr_left fun e he => (hl e he).1

end EvenShare
