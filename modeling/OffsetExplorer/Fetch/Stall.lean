import OffsetExplorer.Fetch.Ledger
import Mathlib.Algebra.Order.BigOperators.Group.Finset

/-!
# A stalled poll loop

A partition whose leader is unavailable never finishes, and only the idle counter can end the loop.
Every polled message resets it, also one that the loop goes on to skip.

* `loopAt`: the state before iteration `n`, while the loop lasts; `idleSince`: the empty and failed
  polls since the last message.
* `target_open`: while something is unfinished the target is not reached.
* **`stalled_loop_exits_iff`**: a stalled loop ends exactly when the other partitions let it idle.
-/

namespace OffsetExplorer.Fetch

open Machine Std TreeTable

variable {c : Loop} {s t : PollState} {r : ℤ → ℤ} {polls : ℕ → Polled} {n N : ℕ}

/-- The state before iteration `n` of a fetch that is never cancelled. -/
def loopAt (c : Loop) (polls : ℕ → Polled) (n : ℕ) : Option PollState :=
  run (step c) (start c) ((List.range n).map fun i => { polled := polls i })

/-- How many polls were empty or failed since the last message before poll `n`. -/
def idleSince (polls : ℕ → Polled) : ℕ → ℕ
  | 0 => 0
  | n + 1 =>
    match polls n with
    | .message _ => 0
    | .partitionEof _ => idleSince polls n
    | .error _ | .nothing => idleSince polls n + 1

/-- A poll that no unfinished partition had a part in. -/
def Stalled (c : Loop) (s : PollState) : Polled → Prop
  | .message m => m.partition ∈ c.active → m.partition ∈ s.finished
  | .partitionEof p => p ∈ c.planned → p ∈ s.finished
  | .error _ | .nothing => True

theorem idleElapsed_takeMessage (m : BorrowedMessage) (b : ℤ) :
    (takeMessage c s m b).idleElapsed = s.idleElapsed := by
  unfold takeMessage
  dsimp only
  split_ifs
  · exact finish_idleElapsed _
  · rfl

theorem idleElapsed_pollMessage (m : BorrowedMessage) : (pollMessage c s m).idleElapsed = 0 := by
  unfold pollMessage
  dsimp only
  cases s.remaining[m.partition]? with
  | none => rfl
  | some b =>
    dsimp only
    split_ifs
    · rfl
    · exact finish_idleElapsed _
    · exact idleElapsed_takeMessage _ _

theorem loopAt_succ (c : Loop) (polls : ℕ → Polled) (n : ℕ) :
    loopAt c polls (n + 1) = (loopAt c polls n).bind fun s => step c s { polled := polls n } := by
  rw [loopAt, List.range_succ, List.map_append, List.map_singleton, run_snoc]
  rfl

theorem loopAt_succ_some (h : loopAt c polls (n + 1) = some t) :
    ∃ s, loopAt c polls n = some s ∧ Running c s ∧ t = iterate c s (polls n) := by
  rw [loopAt_succ, Option.bind_eq_some_iff] at h
  obtain ⟨s, hs, hst⟩ := h
  obtain ⟨hrun, _, ht⟩ := step_eq_some hst
  exact ⟨s, hs, hrun, ht⟩

theorem loopAt_succ_of_running (hs : loopAt c polls n = some s) (hrun : Running c s) :
    loopAt c polls (n + 1) = some (iterate c s (polls n)) := by
  rw [loopAt_succ, hs, Option.bind_some, step, if_pos ⟨hrun, rfl⟩]

theorem running_of_lt {m : ℕ} (h : loopAt c polls n = some t) (hm : m < n) :
    ∃ s, loopAt c polls m = some s ∧ Running c s := by
  induction n generalizing t with
  | zero => omega
  | succ n ih =>
    obtain ⟨s, hs, hrun, _⟩ := loopAt_succ_some h
    rcases Nat.lt_succ_iff_lt_or_eq.mp hm with hlt | rfl
    · exact ih hs hlt
    · exact ⟨s, hs, hrun⟩

theorem idleElapsed_eq (h : loopAt c polls n = some s) :
    s.idleElapsed = c.pollSlice * idleSince polls n := by
  induction n generalizing s with
  | zero => cases h; rfl
  | succ n ih =>
    obtain ⟨u, hu, _, rfl⟩ := loopAt_succ_some h
    have hidle := ih hu
    unfold idleSince
    cases polls n with
    | message m => exact idleElapsed_pollMessage m
    | partitionEof p =>
      show (if p ∈ u.remaining then u.finish p else u).idleElapsed = _
      split_ifs
      · rw [finish_idleElapsed, hidle]
      · exact hidle
    | error described =>
      show u.idleElapsed + c.pollSlice = c.pollSlice * (idleSince polls n + 1)
      rw [hidle, Nat.mul_succ]
    | nothing =>
      show u.idleElapsed + c.pollSlice = c.pollSlice * (idleSince polls n + 1)
      rw [hidle, Nat.mul_succ]

theorem exists_budget (h : Ledger c s r) (hu : 0 < s.unfinished) :
    ∃ p ∈ c.active, p ∉ s.finished ∧ 0 < r p := by
  have hcard : s.finished.card < c.active.card := by
    have := h.unfinished_add
    omega
  obtain ⟨p, hp, hfin⟩ := Finset.exists_mem_notMem_of_card_lt_card hcard
  have hne : r p ≠ 0 := fun h0 => hfin (h.exhausted p hp h0)
  have hnn := h.nonneg p (c.mem_active.mp hp).1
  exact ⟨p, hp, hfin, by omega⟩

/-- **The target stays open** while something is unfinished, so `collected.len()` never ends a
loop that `unfinished` does not. -/
theorem target_open (h : Ledger c s r) (hu : 0 < s.unfinished) :
    (s.collected.length : ℤ) < c.totalTarget := by
  obtain ⟨p, hp, _, hpos⟩ := exists_budget h hu
  have hle := Finset.single_le_sum h.nonneg (c.mem_active.mp hp).1
  have := h.total
  omega

theorem running_iff (h : Ledger c s r) (hu : 0 < s.unfinished)
    (hb : s.stoppedAtByteBudget = false) : Running c s ↔ s.idleElapsed < idleTimeout :=
  ⟨fun hrun => hrun.2.2.1, fun hidle => ⟨hu, target_open h hu, hidle, hb⟩⟩

theorem not_stopped_of_no_budget (hc : c.maxTotalPayloadBytes = none)
    (h : loopAt c polls n = some s) : s.stoppedAtByteBudget = false := by
  refine run_invariant (I := fun s => s.stoppedAtByteBudget = false) ?_ rfl h
  intro s e t hs ht
  obtain ⟨_, _, rfl⟩ := step_eq_some ht
  obtain ⟨i, e', heq⟩ | ⟨i, p, _, _, heq⟩ | ⟨m, _, _, _, _, heq⟩ :=
    iterate_cases (c := c) (Tabulates.self s.remaining 0) e.polled
  · rw [heq]
    exact hs
  · rw [heq]
    unfold PollState.finish
    split_ifs
    · exact hs
    · exact hs
  · rw [heq]
    show byteBudgetReached _ c.maxTotalPayloadBytes = false
    rw [hc]
    rfl

theorem unfinished_finish_of_mem {p : ℤ} (hp : p ∈ s.finished) :
    (s.finish p).unfinished = s.unfinished := by
  rw [PollState.finish, if_pos hp]

theorem unfinished_iterate (h : Ledger c s r) {polled : Polled} (hst : Stalled c s polled) :
    (iterate c s polled).unfinished = s.unfinished := by
  obtain ⟨i, e, heq⟩ | ⟨i, p, hp, hwhy, heq⟩ | ⟨m, hm, hp, hpos, hend, heq⟩ :=
    iterate_cases (c := c) h.tabulates polled
  · rw [heq]
  · have hfin : p ∈ s.finished := by
      rcases hwhy with rfl | ⟨m, rfl, rfl, hpos, _⟩
      · exact hst hp
      · have := h.spent _ hp
        exact hst (c.mem_active.mpr ⟨hp, by omega⟩)
    rw [heq]
    exact unfinished_finish_of_mem hfin
  · subst hm
    have hspent := h.spent _ hp
    have hfin : m.partition ∈ s.finished := hst (c.mem_active.mpr ⟨hp, by omega⟩)
    rw [heq]
    unfold takeMessage
    dsimp only
    split_ifs
    · exact unfinished_finish_of_mem hfin
    · rfl

theorem unfinished_stalled (hnn : ∀ p, 0 ≤ c.limit p)
    (hN : ∃ s, loopAt c polls N = some s ∧ 0 < s.unfinished)
    (hst : ∀ n s, N ≤ n → loopAt c polls n = some s → Stalled c s (polls n)) (hn : N ≤ n)
    (h : loopAt c polls n = some s) : 0 < s.unfinished := by
  induction n, hn using Nat.le_induction generalizing s with
  | base =>
    obtain ⟨s', hs', hu⟩ := hN
    rw [h] at hs'
    cases hs'
    exact hu
  | succ n hn ih =>
    obtain ⟨u, hu, _, rfl⟩ := loopAt_succ_some h
    obtain ⟨r, hr⟩ := ledger_run hnn hu
    rw [unfinished_iterate hr (hst n u hn hu)]
    exact ih hu

/-- **When a stalled loop ends.** Let the loop still run at iteration `N`, never be cancelled and
never reach the byte budget, and let no unfinished partition have a part in any poll from there on.
Then it ends if and only if at some point the polls since the last message, of whatever partition,
were empty or failed for as long as the idle timeout. -/
theorem stalled_loop_exits_iff (hnn : ∀ p, 0 ≤ c.limit p)
    (hN : ∃ s, loopAt c polls N = some s ∧ Running c s)
    (hbudget : ∀ n s, loopAt c polls n = some s → s.stoppedAtByteBudget = false)
    (hst : ∀ n s, N ≤ n → loopAt c polls n = some s → Stalled c s (polls n)) :
    (∃ n s, loopAt c polls n = some s ∧ ¬ Running c s) ↔
      ∃ n, N ≤ n ∧ idleTimeout ≤ c.pollSlice * idleSince polls n := by
  have hN' : ∃ s, loopAt c polls N = some s ∧ 0 < s.unfinished := by
    obtain ⟨s, hs, hrun⟩ := hN
    exact ⟨s, hs, hrun.1⟩
  have hiff (n : ℕ) (s : PollState) (hn : N ≤ n) (hs : loopAt c polls n = some s) :
      Running c s ↔ c.pollSlice * idleSince polls n < idleTimeout := by
    obtain ⟨r, hr⟩ := ledger_run hnn hs
    rw [running_iff hr (unfinished_stalled hnn hN' hst hn hs) (hbudget n s hs), idleElapsed_eq hs]
  constructor
  · rintro ⟨n, s, hs, hnot⟩
    have hn : N ≤ n := by
      by_contra hlt
      obtain ⟨sN, hsN, _⟩ := hN
      obtain ⟨s', hs', hrun⟩ := running_of_lt hsN (Nat.lt_of_not_le hlt)
      rw [hs] at hs'
      cases hs'
      exact hnot hrun
    refine ⟨n, hn, ?_⟩
    have := mt (hiff n s hn hs).mpr hnot
    omega
  · rintro ⟨n, hn, hidle⟩
    by_contra hnone
    have hrun (m : ℕ) (u : PollState) (hu : loopAt c polls m = some u) : Running c u := by
      by_contra hnot
      exact hnone ⟨m, u, hu, hnot⟩
    -- a loop that never ends has a state before every iteration
    have hall (m : ℕ) : ∃ u, loopAt c polls m = some u := by
      induction m with
      | zero => exact ⟨_, rfl⟩
      | succ m ih =>
        obtain ⟨u, hu⟩ := ih
        exact ⟨_, loopAt_succ_of_running hu (hrun m u hu)⟩
    obtain ⟨u, hu⟩ := hall n
    have := (hiff n u hn hu).mp (hrun n u hu)
    omega

/-- Two partitions with one message to read each. -/
def pair : Loop where
  filter := {}
  plan := {
    totalMatching := 2
    limits := TreeMap.ofList [((0 : ℤ), (1 : ℤ)), (1, 1)]
    startOffsets := TreeMap.ofList [((0 : ℤ), (0 : ℤ)), (1, 0)]
    endOffsets := TreeMap.ofList [((0 : ℤ), (1 : ℤ)), (1, 1)] }
  maxMessageSizeBytes := 1048576
  maxTotalPayloadBytes := none
  encode _ := ""

/-- The second partition is silent, and so is the first once it is read. -/
def silentAfterFirst : ℕ → Polled
  | 0 => .message { partition := 0, offset := 0 }
  | _ + 1 => .nothing

theorem idleSince_silentAfterFirst (k : ℕ) : idleSince silentAfterFirst (k + 1) = k := by
  induction k with
  | zero => rfl
  | succ k ih => exact congrArg (· + 1) ih

theorem pair_silent_exits : ∃ n s, loopAt pair silentAfterFirst n = some s ∧ ¬ Running pair s := by
  have hN : ∃ s, loopAt pair silentAfterFirst 1 = some s ∧ Running pair s :=
    ⟨(loopAt pair silentAfterFirst 1).get (by decide), by simp, by decide⟩
  have hst (n : ℕ) (s : PollState) (hn : 1 ≤ n) (_ : loopAt pair silentAfterFirst n = some s) :
      Stalled pair s (silentAfterFirst n) := by
    obtain ⟨k, rfl⟩ := Nat.exists_eq_add_of_le' hn
    trivial
  exact (stalled_loop_exits_iff (pair.limit_nonneg (by decide)) hN
    (fun n s => not_stopped_of_no_budget rfl) hst).mpr
      ⟨2001, by decide, by rw [idleSince_silentAfterFirst]; decide⟩

/-- The second partition is silent while the first, read already, keeps delivering. -/
def busyNeighbour (n : ℕ) : Polled := .message { partition := 0, offset := n }

/-- From the second poll on only a finished partition delivers, and the loop runs for ever. -/
theorem busy_neighbour_never_exits :
    (∀ n s, 1 ≤ n → loopAt pair busyNeighbour n = some s →
      Stalled pair s (busyNeighbour n) ∧ s.stoppedAtByteBudget = false) ∧
    ∀ n, ∃ s, loopAt pair busyNeighbour n = some s ∧ Running pair s := by
  have hafter (n : ℕ) : loopAt pair busyNeighbour (n + 1) =
      some (iterate pair (start pair) (busyNeighbour 0)) := by
    induction n with
    | zero => rfl
    | succ n ih =>
      rw [loopAt_succ_of_running ih (by decide)]
      rfl
  constructor
  · intro n s hn hs
    refine ⟨fun _ => ?_, not_stopped_of_no_budget rfl hs⟩
    obtain ⟨k, rfl⟩ := Nat.exists_eq_add_of_le' hn
    rw [hafter k] at hs
    cases hs
    show (0 : ℤ) ∈ (iterate pair (start pair) (busyNeighbour 0)).finished
    decide
  · intro n
    cases n with
    | zero => exact ⟨_, rfl, by decide⟩
    | succ n => exact ⟨_, hafter n, by decide⟩

end OffsetExplorer.Fetch
