import OffsetExplorer.Fetch.Poll
import Mathlib.Algebra.BigOperators.Ring.Finset

/-!
# What the poll loop keeps count of

* `iterate_cases`: what one iteration can do. It keeps the counts, finishes a partition, or takes
  a message; every fact about the loop is derived from this.
* `Ledger`: the remaining budgets, the count of unfinished partitions and the collected rows
  agree; **`ledger_run`**: they do in every state of the loop, whatever is polled.
-/

namespace OffsetExplorer.Fetch

open Machine Std TreeTable

namespace Loop

variable (c : Loop)

/-- How many messages of the partition are wanted. -/
def limit (p : ℤ) : ℤ := (c.plan.limits[p]?).getD 0

/-- The partitions of the plan. -/
def planned : Finset ℤ := c.plan.limits.keys.toFinset

/-- The partitions the plan reads something of: those that are assigned. -/
def active : Finset ℤ := c.planned.filter fun p => 0 < c.limit p

/-- Where an assigned partition is read from: `start_offsets.get(&p).unwrap_or(0)`. -/
def assignedStart (p : ℤ) : ℤ := (c.plan.startOffsets[p]?).getD 0

/-- A message at or past the end of its partition's range. -/
def PastEnd (m : BorrowedMessage) : Prop := ∃ e ∈ c.plan.endOffsets[m.partition]?, e ≤ m.offset

theorem tabulates_limits : Tabulates c.plan.limits c.planned c.limit :=
  Tabulates.self c.plan.limits 0

theorem limit_nonneg (h : ∀ e ∈ c.plan.limits.toList, 0 ≤ e.2) (p : ℤ) : 0 ≤ c.limit p := by
  unfold limit
  cases hp : c.plan.limits[p]? with
  | none => exact le_rfl
  | some l => exact h (p, l) (TreeMap.mem_toList_iff_getElem?_eq_some.mpr hp)

theorem totalTarget_eq : c.totalTarget = ∑ p ∈ c.planned, c.limit p :=
  c.tabulates_limits.sum_toList Prod.snd

theorem mem_active {p : ℤ} : p ∈ c.active ↔ p ∈ c.planned ∧ 0 < c.limit p := Finset.mem_filter

end Loop

variable {c : Loop} {s t : PollState} {r : ℤ → ℤ}

@[simp] theorem finish_collected (p : ℤ) : (s.finish p).collected = s.collected := by
  unfold PollState.finish; split_ifs <;> rfl

@[simp] theorem finish_idleElapsed (p : ℤ) : (s.finish p).idleElapsed = s.idleElapsed := by
  unfold PollState.finish; split_ifs <;> rfl

theorem finish_finished (p : ℤ) : (s.finish p).finished = insert p s.finished := by
  unfold PollState.finish
  split_ifs with h
  · exact (Finset.insert_eq_of_mem h).symm
  · rfl

theorem collected_takeMessage (m : BorrowedMessage) (b : ℤ) :
    (takeMessage c s m b).collected = s.collected ++ [c.row m] := by
  unfold takeMessage
  dsimp only
  split_ifs
  · exact finish_collected _
  · rfl

theorem Loop.any_end_iff (c : Loop) (m : BorrowedMessage) :
    ((c.plan.endOffsets[m.partition]?).any fun «end» => «end» ≤ m.offset) = true ↔ c.PastEnd m := by
  unfold Loop.PastEnd
  cases c.plan.endOffsets[m.partition]? <;> simp

/-- **What an iteration can do**, for the budgets `r`: keep the counts, finish a partition that
reported its end or delivered past it, or take a message. -/
theorem iterate_cases {S : Finset ℤ} (hr : Tabulates s.remaining S r) (polled : Polled) :
    (∃ i e, iterate c s polled = { s with idleElapsed := i, lastPollError := e }) ∨
    (∃ i, ∃ p ∈ S, (polled = .partitionEof p ∨
        ∃ m, polled = .message m ∧ m.partition = p ∧ 0 < r p ∧ c.PastEnd m) ∧
      iterate c s polled = ({ s with idleElapsed := i } : PollState).finish p) ∨
    ∃ m, polled = .message m ∧ m.partition ∈ S ∧ 0 < r m.partition ∧ ¬ c.PastEnd m ∧
      iterate c s polled = takeMessage c { s with idleElapsed := 0 } m (r m.partition) := by
  cases polled with
  | nothing => exact .inl ⟨_, _, rfl⟩
  | error described => exact .inl ⟨_, _, rfl⟩
  | partitionEof p =>
    rw [iterate]
    by_cases hp : p ∈ S
    · rw [if_pos (hr.mem_iff.mpr hp)]
      exact .inr (.inl ⟨s.idleElapsed, p, hp, .inl rfl, rfl⟩)
    · rw [if_neg (mt hr.mem_iff.mp hp)]
      exact .inl ⟨s.idleElapsed, s.lastPollError, rfl⟩
  | message m =>
    rw [iterate, pollMessage]
    dsimp only
    by_cases hp : m.partition ∈ S
    · rw [hr.get_mem hp]
      dsimp only
      by_cases hb : r m.partition ≤ 0
      · rw [if_pos hb]
        exact .inl ⟨0, s.lastPollError, rfl⟩
      · rw [if_neg hb]
        have hend := c.any_end_iff m
        by_cases he : c.PastEnd m
        · rw [if_pos (hend.mpr he)]
          exact .inr (.inl ⟨0, m.partition, hp, .inr ⟨m, rfl, rfl, Int.not_le.mp hb, he⟩, rfl⟩)
        · rw [if_neg (mt hend.mp he)]
          exact .inr (.inr ⟨m, rfl, hp, Int.not_le.mp hb, he, rfl⟩)
    · rw [hr.get_not_mem hp]
      exact .inl ⟨0, s.lastPollError, rfl⟩

/-! ## The ledger -/

/-- How many rows of a partition have been collected. -/
def PollState.taken (s : PollState) (p : ℤ) : ℕ := s.collected.countP fun m => m.partition = p

/-- The budgets `r`, the finished partitions, their count and the collected rows agree. -/
structure Books (c : Loop) (s : PollState) (r : ℤ → ℤ) : Prop where
  tabulates : Tabulates s.remaining c.planned r
  nonneg : ∀ p ∈ c.planned, 0 ≤ r p
  finished_sub : s.finished ⊆ c.planned
  unfinished_add : s.unfinished + s.finished.card = c.active.card
  spent : ∀ p ∈ c.planned, (s.taken p : ℤ) + r p = c.limit p
  inRange : ∀ m ∈ s.collected, m.partition ∈ c.active ∧
    ∀ e ∈ c.plan.endOffsets[m.partition]?, m.offset < e

/-- The books, with every exhausted partition finished. -/
structure Ledger (c : Loop) (s : PollState) (r : ℤ → ℤ) : Prop extends Books c s r where
  exhausted : ∀ p ∈ c.active, r p = 0 → p ∈ s.finished

theorem Books.congr (h : Books c s r) (hr : t.remaining = s.remaining)
    (hu : t.unfinished = s.unfinished) (hf : t.finished = s.finished)
    (hc : t.collected = s.collected) : Books c t r where
  tabulates := hr ▸ h.tabulates
  nonneg := h.nonneg
  finished_sub := hf ▸ h.finished_sub
  unfinished_add := by rw [hu, hf]; exact h.unfinished_add
  spent := by unfold PollState.taken; rw [hc]; exact h.spent
  inRange := hc ▸ h.inRange

theorem Books.finish (h : Books c s r) {p : ℤ} (hp : p ∈ c.planned) (hpos : 0 < s.unfinished) :
    Books c (s.finish p) r := by
  by_cases hmem : p ∈ s.finished
  · rw [PollState.finish, if_pos hmem]
    exact h
  · rw [PollState.finish, if_neg hmem]
    refine ⟨h.tabulates, h.nonneg, ?_, ?_, h.spent, h.inRange⟩
    · exact Finset.insert_subset hp h.finished_sub
    · have := h.unfinished_add
      show usizePred s.unfinished + (insert p s.finished).card = c.active.card
      rw [Finset.card_insert_of_notMem hmem, usizePred, if_neg (by omega)]
      omega

theorem Ledger.finish (h : Ledger c s r) {p : ℤ} (hp : p ∈ c.planned) (hpos : 0 < s.unfinished) :
    Ledger c (s.finish p) r := by
  refine ⟨h.toBooks.finish hp hpos, fun q hq hr => ?_⟩
  rw [finish_finished]
  exact Finset.mem_insert_of_mem (h.exhausted q hq hr)

theorem Books.take (h : Books c s r) {m : BorrowedMessage} (hp : m.partition ∈ c.planned)
    (hpos : 0 < r m.partition) (hend : ¬ c.PastEnd m) (ht : t.collected = s.collected ++ [c.row m])
    (hr : t.remaining = s.remaining.insert m.partition (r m.partition - 1))
    (hu : t.unfinished = s.unfinished) (hf : t.finished = s.finished) :
    Books c t (Function.update r m.partition (r m.partition - 1)) where
  tabulates := by
    rw [hr]
    exact h.tabulates.insert_mem hp _
  nonneg q hq := by
    by_cases hqp : q = m.partition
    · rw [hqp, Function.update_self]
      omega
    · rw [Function.update_of_ne hqp]
      exact h.nonneg q hq
  finished_sub := hf ▸ h.finished_sub
  unfinished_add := by rw [hu, hf]; exact h.unfinished_add
  spent q hq := by
    have hspent := h.spent q hq
    unfold PollState.taken at hspent ⊢
    rw [ht, List.countP_append, List.countP_singleton]
    by_cases hqp : q = m.partition
    · subst hqp
      rw [Function.update_self, if_pos (by simp [Loop.row])]
      push_cast
      omega
    · rw [Function.update_of_ne hqp, if_neg (by simp [Loop.row, Ne.symm hqp])]
      simpa using hspent
  inRange m' hm' := by
    rw [ht, List.mem_append, List.mem_singleton] at hm'
    rcases hm' with hm' | rfl
    · exact h.inRange m' hm'
    · have hspent := h.spent m.partition hp
      have hactive : m.partition ∈ c.active := c.mem_active.mpr ⟨hp, by omega⟩
      refine ⟨hactive, fun e he => ?_⟩
      by_contra hle
      exact hend ⟨e, he, Int.not_lt.mp hle⟩

theorem Ledger.take (h : Ledger c s r) {m : BorrowedMessage} (hp : m.partition ∈ c.planned)
    (hpos : 0 < r m.partition) (hend : ¬ c.PastEnd m) (hu : 0 < s.unfinished) :
    Ledger c (takeMessage c s m (r m.partition))
      (Function.update r m.partition (r m.partition - 1)) := by
  unfold takeMessage
  dsimp only
  set taken : PollState := { s with
    payloadBytesRead := s.payloadBytesRead +
      budgetedPayloadBytes (m.payload.getD []).length c.filter.includePayload
    collected := s.collected ++ [c.row m]
    remaining := s.remaining.insert m.partition (r m.partition - 1) } with htaken
  have hbooks : Books c taken (Function.update r m.partition (r m.partition - 1)) :=
    h.toBooks.take hp hpos hend rfl rfl rfl rfl
  by_cases hlast : r m.partition - 1 ≤ 0
  · rw [if_pos hlast]
    have hfin := hbooks.finish hp (show 0 < taken.unfinished from hu)
    refine ⟨hfin.congr rfl rfl rfl rfl, fun q hq hr => ?_⟩
    show q ∈ (taken.finish m.partition).finished
    rw [finish_finished]
    by_cases hqp : q = m.partition
    · exact hqp ▸ Finset.mem_insert_self _ _
    · rw [Function.update_of_ne hqp] at hr
      exact Finset.mem_insert_of_mem (h.exhausted q hq hr)
  · rw [if_neg hlast]
    refine ⟨hbooks.congr rfl rfl rfl rfl, fun q hq hr => ?_⟩
    by_cases hqp : q = m.partition
    · rw [hqp, Function.update_self] at hr
      omega
    · rw [Function.update_of_ne hqp] at hr
      exact h.exhausted q hq hr

/-- **One iteration keeps the ledger**, and never raises a budget. -/
theorem ledger_iterate (h : Ledger c s r) (hu : 0 < s.unfinished) (polled : Polled) :
    ∃ r', Ledger c (iterate c s polled) r' ∧ ∀ p, r' p ≤ r p := by
  obtain ⟨i, e, heq⟩ | ⟨i, p, hp, _, heq⟩ | ⟨m, _, hp, hpos, hend, heq⟩ :=
    iterate_cases h.tabulates polled
  · rw [heq]
    exact ⟨r, ⟨h.toBooks.congr rfl rfl rfl rfl, h.exhausted⟩, fun _ => le_rfl⟩
  · rw [heq]
    have h' : Ledger c { s with idleElapsed := i } r :=
      ⟨h.toBooks.congr rfl rfl rfl rfl, h.exhausted⟩
    exact ⟨r, h'.finish hp hu, fun _ => le_rfl⟩
  · rw [heq]
    have h' : Ledger c { s with idleElapsed := 0 } r :=
      ⟨h.toBooks.congr rfl rfl rfl rfl, h.exhausted⟩
    refine ⟨_, h'.take hp hpos hend hu, fun q => ?_⟩
    by_cases hqp : q = m.partition
    · rw [hqp, Function.update_self]
      omega
    · rw [Function.update_of_ne hqp]

theorem ledger_start (hnn : ∀ p, 0 ≤ c.limit p) : Ledger c (start c) c.limit where
  tabulates := c.tabulates_limits
  nonneg p _ := hnn p
  finished_sub := Finset.empty_subset _
  unfinished_add := by
    show c.plan.limits.toList.countP (fun e => 0 < e.2) + (∅ : Finset ℤ).card = c.active.card
    rw [c.tabulates_limits.countP_toList, Finset.card_empty, Nat.add_zero]
    simp [Loop.active]
  spent p _ := by simp [PollState.taken, start]
  inRange m hm := by cases hm
  exhausted p hp hr := absurd hr (c.mem_active.mp hp).2.ne'

theorem step_eq_some {e : Iteration} (h : step c s e = some t) :
    Running c s ∧ e.cancelled = false ∧ t = iterate c s e.polled := by
  unfold step at h
  by_cases hr : Running c s ∧ e.cancelled = false
  · rw [if_pos hr] at h
    exact ⟨hr.1, hr.2, (Option.some.inj h).symm⟩
  · rw [if_neg hr] at h
    cases h

/-- **The books are kept** in every state of the loop, whatever is polled. -/
theorem ledger_run (hnn : ∀ p, 0 ≤ c.limit p) {es : List Iteration}
    (h : run (step c) (start c) es = some s) : ∃ r, Ledger c s r := by
  refine run_invariant (I := fun s => ∃ r, Ledger c s r) ?_ ⟨_, ledger_start hnn⟩ h
  intro s e t hs ht
  obtain ⟨r, hr⟩ := hs
  obtain ⟨hrun, _, rfl⟩ := step_eq_some ht
  obtain ⟨r', hr', _⟩ := ledger_iterate hr hrun.1 e.polled
  exact ⟨r', hr'⟩

theorem Books.total (h : Books c s r) :
    (s.collected.length : ℤ) + ∑ p ∈ c.planned, r p = c.totalTarget := by
  have hmem : ∀ p ∈ (s.collected.map TopicMessage.partition : Multiset ℤ), p ∈ c.planned := by
    intro p hp
    obtain ⟨m, hm, rfl⟩ := List.mem_map.mp (Multiset.mem_coe.mp hp)
    exact (c.mem_active.mp (h.inRange m hm).1).1
  have hlen : s.collected.length = ∑ p ∈ c.planned, s.taken p := by
    have hcount := Multiset.sum_count_eq_card hmem
    rw [Multiset.coe_card, List.length_map] at hcount
    rw [← hcount]
    refine Finset.sum_congr rfl fun p _ => ?_
    rw [Multiset.coe_count, List.count, List.countP_map, PollState.taken]
    rfl
  rw [hlen, c.totalTarget_eq, Nat.cast_sum, ← Finset.sum_add_distrib]
  exact Finset.sum_congr rfl h.spent

end OffsetExplorer.Fetch
