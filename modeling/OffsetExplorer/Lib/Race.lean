import OffsetExplorer.Lib.Machine
import Mathlib.Algebra.BigOperators.Group.Finset.Basic
import Mathlib.Algebra.Order.BigOperators.Group.Finset
import Mathlib.Data.Fintype.Basic
import Mathlib.Logic.Function.Basic
import Mathlib.Tactic.SplitIfs

/-!
# Races

Attempts that start after a delay each and are given up after a limit. The first one that has succeeded wins;
the race is lost when all of them have failed.

* `Setup`, `State`, `step`: a clock, the attempts, and whoever waits for them, in any order.
* `OnTime`: the clock does not pass over what is due.
* **`verdict_of_succeeds`**, **`succeeds_of_verdict`**: what the verdict says, however late the steps are.
* `Timely`, `timely_run`: how far the attempts are at what time; `verdict_iff`, `now_le`, `now_le_of_succeeds`.
* **`progress`**, **`length_le`**: a race that is on time comes to its verdict.
-/

namespace Race

/-- What becomes of an attempt: it ends after so long, or not by itself. -/
inductive Fate where
  | succeeds (after : ℕ)
  | fails (after : ℕ)
  | hangs
  deriving DecidableEq

/-- How an attempt has ended, so long after its start. -/
def Fate.ended (elapsed : ℕ) : Fate → Option Bool
  | .succeeds after => if after ≤ elapsed then some true else none
  | .fails after => if after ≤ elapsed then some false else none
  | .hangs => none

/-- When each task starts, how long it may take, and what becomes of it. -/
structure Setup (ι : Type*) where
  delay : ι → ℕ
  limit : ℕ
  fate : ι → Fate

/-- How far a task has come. -/
inductive Phase where
  | waiting
  | running (since : ℕ)
  | finished (success : Bool)
  | joined (success : Bool)
  deriving DecidableEq

/-- Its outcome has been looked at. -/
def Phase.isJoined : Phase → Bool
  | .joined _ => true
  | _ => false

/-- The time, the tasks, and the verdict once there is one. -/
structure State (ι : Type*) where
  now : ℕ := 0
  phase : ι → Phase := fun _ => .waiting
  verdict : Option Bool := none

/-- What can happen in a race. -/
inductive Event (ι : Type*) where
  | tick
  | start (i : ι)
  | poll (i : ι)
  | join (i : ι)
  /-- There is nothing left to join. -/
  | drain

namespace Setup

variable {ι : Type*} (c : Setup ι)

/-- An attempt with its limit, looked at so long after its start. What has ended counts before the limit does. -/
def poll (i : ι) (elapsed : ℕ) : Option Bool :=
  match (c.fate i).ended elapsed with
  | some success => some success
  | none => if c.limit ≤ elapsed then some false else none

variable [DecidableEq ι] [Fintype ι]

/-- One step; there is none after the verdict. -/
def step (s : State ι) (e : Event ι) : Option (State ι) :=
  if s.verdict.isSome then none
  else
    match e with
    | .tick => some { s with now := s.now + 1 }
    | .start i =>
      if s.phase i = .waiting ∧ c.delay i ≤ s.now then
        some { s with phase := Function.update s.phase i (.running s.now) }
      else none
    | .poll i =>
      match s.phase i with
      | .running since =>
        (c.poll i (s.now - since)).map fun success =>
          { s with phase := Function.update s.phase i (.finished success) }
      | _ => none
    | .join i =>
      match s.phase i with
      | .finished success =>
        some { s with
          phase := Function.update s.phase i (.joined success)
          verdict := if success then some true else none }
      | _ => none
    | .drain => if ∀ i, (s.phase i).isJoined then some { s with verdict := some false } else none

end Setup

variable {ι : Type*} {c : Setup ι}

/-! ## When attempts end -/

/-- How long an attempt takes, its limit included. -/
def Setup.endsAfter (c : Setup ι) (i : ι) : ℕ :=
  match c.fate i with
  | .succeeds after | .fails after => min after c.limit
  | .hangs => c.limit

/-- It succeeds within its limit. -/
def Setup.Succeeds (c : Setup ι) (i : ι) : Prop := ∃ after, c.fate i = .succeeds after ∧ after ≤ c.limit

theorem endsAfter_le (c : Setup ι) (i : ι) : c.endsAfter i ≤ c.limit := by
  unfold Setup.endsAfter
  cases c.fate i with
  | succeeds after | fails after => exact min_le_right _ _
  | hangs => exact le_rfl

theorem endsAfter_of_fate {i : ι} {after : ℕ} (h : c.fate i = .succeeds after) : c.endsAfter i ≤ after := by
  rw [Setup.endsAfter, h]
  exact min_le_left _ _

theorem poll_eq_none {i : ι} {elapsed : ℕ} : c.poll i elapsed = none ↔ elapsed < c.endsAfter i := by
  unfold Setup.poll Setup.endsAfter
  cases c.fate i with
  | succeeds after | fails after =>
    rw [Fate.ended, lt_min_iff]
    by_cases hafter : after ≤ elapsed
    · simp [hafter]
    · simp [hafter, Nat.lt_of_not_le hafter]
  | hangs => simp [Fate.ended]

theorem poll_of_succeeds {i : ι} {elapsed : ℕ} {success : Bool} (h : c.Succeeds i)
    (hpoll : c.poll i elapsed = some success) : success = true := by
  obtain ⟨after, hfate, hle⟩ := h
  rw [Setup.poll, hfate, Fate.ended] at hpoll
  by_cases hafter : after ≤ elapsed
  · rw [if_pos hafter] at hpoll
    exact (Option.some.inj hpoll).symm
  · have hlimit : ¬ c.limit ≤ elapsed := fun hlimit => hafter (hle.trans hlimit)
    rw [if_neg hafter, if_neg hlimit] at hpoll
    cases hpoll

theorem succeeds_of_poll {i : ι} {elapsed : ℕ} (hpoll : c.poll i elapsed = some true) :
    ∃ after, c.fate i = .succeeds after ∧ after ≤ elapsed := by
  rw [Setup.poll] at hpoll
  cases hfate : c.fate i with
  | succeeds after =>
    rw [hfate, Fate.ended] at hpoll
    by_cases hafter : after ≤ elapsed
    · exact ⟨after, rfl, hafter⟩
    · rw [if_neg hafter] at hpoll
      dsimp only at hpoll
      split_ifs at hpoll
      cases hpoll
  | fails after | hangs =>
    rw [hfate] at hpoll
    simp only [Fate.ended] at hpoll
    split_ifs at hpoll <;> simp at hpoll

/-! ## Steps -/

variable [DecidableEq ι] {s t : State ι} {e : Event ι}

/-- One task comes further. -/
def State.moved (s : State ι) (i : ι) (phase : Phase) : State ι := { s with phase := Function.update s.phase i phase }

theorem phase_moved (s : State ι) (i j : ι) (phase : Phase) :
    (s.moved i phase).phase j = if j = i then phase else s.phase j := Function.update_apply ..

/-- What a step does. -/
inductive Steps (c : Setup ι) (s : State ι) : Event ι → State ι → Prop where
  | tick : Steps c s .tick { s with now := s.now + 1 }
  | start (i : ι) (hphase : s.phase i = .waiting) (hdelay : c.delay i ≤ s.now) :
    Steps c s (.start i) (s.moved i (.running s.now))
  | poll (i : ι) (since : ℕ) (success : Bool) (hphase : s.phase i = .running since)
    (hpoll : c.poll i (s.now - since) = some success) : Steps c s (.poll i) (s.moved i (.finished success))
  | joinSuccess (i : ι) (hphase : s.phase i = .finished true) :
    Steps c s (.join i) { s.moved i (.joined true) with verdict := some true }
  | joinFailure (i : ι) (hphase : s.phase i = .finished false) :
    Steps c s (.join i) (s.moved i (.joined false))
  | drain (hjoined : ∀ i, (s.phase i).isJoined) : Steps c s .drain { s with verdict := some false }

variable [Fintype ι]

theorem step_cases (h : c.step s e = some t) : s.verdict = none ∧ Steps c s e t := by
  unfold Setup.step at h
  by_cases hverdict : s.verdict.isSome = true
  · rw [if_pos hverdict] at h
    cases h
  have hnone : s.verdict = none := Option.not_isSome_iff_eq_none.mp hverdict
  rw [if_neg hverdict] at h
  refine ⟨hnone, ?_⟩
  cases e with
  | tick =>
    cases h
    exact .tick
  | start i =>
    dsimp only at h
    split_ifs at h with hstart
    cases h
    exact .start i hstart.1 hstart.2
  | poll i =>
    dsimp only at h
    cases hphase : s.phase i with
    | running since =>
      rw [hphase] at h
      obtain ⟨success, hpoll, rfl⟩ := Option.map_eq_some_iff.mp h
      exact .poll i since success hphase hpoll
    | waiting | finished | joined =>
      rw [hphase] at h
      cases h
  | join i =>
    dsimp only at h
    cases hphase : s.phase i with
    | finished success =>
      rw [hphase] at h
      cases h
      cases success with
      | true => exact .joinSuccess i hphase
      | false =>
        have hsame : { s.moved i (.joined false) with verdict := none } = s.moved i (.joined false) := by
          rw [State.moved, hnone]
        exact hsame ▸ .joinFailure i hphase
    | waiting | running | joined =>
      rw [hphase] at h
      cases h
  | drain =>
    dsimp only at h
    split_ifs at h with hjoined
    cases h
    exact .drain hjoined

/-! ## Any schedule -/

/-- Attempts run after their delay, and end as they are polled. -/
structure Attempts (c : Setup ι) (s : State ι) : Prop where
  started : ∀ i, s.phase i ≠ .waiting → c.delay i ≤ s.now
  ended : ∀ i success, s.phase i = .finished success ∨ s.phase i = .joined success →
    ∃ elapsed, c.poll i elapsed = some success

/-- The verdict is that of the attempts which have been joined. -/
structure Sound (c : Setup ι) (s : State ι) : Prop extends Attempts c s where
  running : s.verdict = none → ∀ i, s.phase i ≠ .joined true
  won : s.verdict = some true → ∃ i, s.phase i = .joined true
  lost : s.verdict = some false → ∀ i, s.phase i = .joined false

omit [Fintype ι] in
theorem Attempts.moved {i : ι} {phase : Phase} (h : Attempts c s) (hdelay : c.delay i ≤ s.now)
    (hended : ∀ success, phase = .finished success ∨ phase = .joined success →
      ∃ elapsed, c.poll i elapsed = some success) : Attempts c (s.moved i phase) where
  started := by
    intro j hj
    rw [phase_moved] at hj
    split_ifs at hj with hji
    · exact hji ▸ hdelay
    · exact h.started j hj
  ended := by
    intro j success hj
    rw [phase_moved] at hj
    split_ifs at hj with hji
    · exact hji ▸ hended success hj
    · exact h.ended j success hj

omit [Fintype ι] in
theorem Sound.moved {i : ι} {phase : Phase} (h : Sound c s) (hverdict : s.verdict = none)
    (hattempts : Attempts c (s.moved i phase)) (hphase : phase ≠ .joined true) : Sound c (s.moved i phase) where
  toAttempts := hattempts
  running := by
    intro _ j
    rw [phase_moved]
    split_ifs
    · exact hphase
    · exact h.running hverdict j
  won := fun hv => (Option.some_ne_none _ (hv.symm.trans hverdict)).elim
  lost := fun hv => (Option.some_ne_none _ (hv.symm.trans hverdict)).elim

omit [Fintype ι] in
theorem isJoined_iff {phase : Phase} : phase.isJoined = true ↔ ∃ success, phase = .joined success := by
  cases phase with
  | joined success => exact iff_of_true rfl ⟨success, rfl⟩
  | waiting | running | finished =>
    refine iff_of_false Bool.false_ne_true ?_
    rintro ⟨_, h⟩
    cases h

theorem sound_step (h : Sound c s) (hst : c.step s e = some t) : Sound c t := by
  obtain ⟨hverdict, hcases⟩ := step_cases hst
  cases hcases with
  | tick =>
    exact ⟨⟨fun i hi => (h.started i hi).trans (Nat.le_succ _), h.ended⟩, h.running, h.won, h.lost⟩
  | start i hphase hdelay =>
    refine h.moved hverdict (h.toAttempts.moved hdelay ?_) Phase.noConfusion
    rintro _ (hp | hp) <;> cases hp
  | poll i since success hphase hpoll =>
    refine h.moved hverdict (h.toAttempts.moved (h.started i (by rw [hphase]; exact Phase.noConfusion)) ?_)
      Phase.noConfusion
    rintro _ (hp | hp) <;> cases hp
    exact ⟨_, hpoll⟩
  | joinSuccess i hphase =>
    have hattempts : Attempts c (s.moved i (.joined true)) := by
      refine h.toAttempts.moved (h.started i (by rw [hphase]; exact Phase.noConfusion)) ?_
      rintro _ (hp | hp) <;> cases hp
      exact h.ended i true (.inl hphase)
    exact ⟨⟨hattempts.started, hattempts.ended⟩, fun hv => (Option.some_ne_none _ hv).elim,
      fun _ => ⟨i, (phase_moved s i i _).trans (if_pos rfl)⟩, fun hv => (by cases hv)⟩
  | joinFailure i hphase =>
    refine h.moved hverdict (h.toAttempts.moved (h.started i (by rw [hphase]; exact Phase.noConfusion)) ?_) ?_
    · rintro _ (hp | hp) <;> cases hp
      exact h.ended i false (.inl hphase)
    · intro hp
      cases hp
  | drain hjoined =>
    refine ⟨⟨h.started, h.ended⟩, fun hv => (Option.some_ne_none _ hv).elim, fun hv => (by cases hv), fun _ i => ?_⟩
    obtain ⟨success, hi⟩ := isJoined_iff.mp (hjoined i)
    cases success with
    | true => exact absurd hi (h.running hverdict i)
    | false => exact hi

omit [DecidableEq ι] [Fintype ι] in
theorem sound_start : Sound c {} where
  started := fun _ h => absurd rfl h
  ended := by
    rintro _ _ (h | h) <;> cases h
  running := fun _ _ => Phase.noConfusion
  won := fun h => (Option.some_ne_none _ h.symm).elim
  lost := fun h => (Option.some_ne_none _ h.symm).elim

theorem sound_run {es : List (Event ι)} (h : Machine.run c.step {} es = some s) : Sound c s :=
  Machine.run_invariant (fun _ _ _ => sound_step) sound_start h

/-- **What succeeds within its limit wins the race**, whatever the order of the steps and their delays. -/
theorem verdict_of_succeeds {es : List (Event ι)} (h : Machine.run c.step {} es = some s) {i : ι}
    (hi : c.Succeeds i) {verdict : Bool} (hverdict : s.verdict = some verdict) : verdict = true := by
  have hsound := sound_run h
  cases verdict with
  | true => rfl
  | false =>
    obtain ⟨elapsed, hpoll⟩ := hsound.ended i false (.inr (hsound.lost hverdict i))
    exact poll_of_succeeds hi hpoll

/-- **Who has won has succeeded**, after its limit at worst. -/
theorem succeeds_of_verdict {es : List (Event ι)} (h : Machine.run c.step {} es = some s)
    (hverdict : s.verdict = some true) : ∃ i after, c.fate i = .succeeds after := by
  have hsound := sound_run h
  obtain ⟨i, hi⟩ := hsound.won hverdict
  obtain ⟨elapsed, hpoll⟩ := hsound.ended i true (.inr hi)
  obtain ⟨after, hfate, -⟩ := succeeds_of_poll hpoll
  exact ⟨i, after, hfate⟩

/-! ## On time -/

/-- What can be done for an attempt is due. -/
def Phase.due (c : Setup ι) (i : ι) (now : ℕ) : Phase → Prop
  | .waiting => c.delay i ≤ now
  | .running since => c.endsAfter i ≤ now - since
  | .finished _ => True
  | .joined _ => False

/-- The clock waits for what is due, and for whoever has joined all attempts. -/
def OnTime (c : Setup ι) (s : State ι) : Event ι → Prop
  | .tick => (∀ i, ¬ (s.phase i).due c i s.now) ∧ ∃ i, ¬ (s.phase i).isJoined
  | _ => True

/-- Where an attempt is at this time. -/
def Phase.Timely (c : Setup ι) (i : ι) (now : ℕ) : Phase → Prop
  | .waiting => now ≤ c.delay i
  | .running since => since = c.delay i ∧ now ≤ c.delay i + c.endsAfter i
  | .finished success => now ≤ c.delay i + c.endsAfter i ∧ (success = true ↔ c.Succeeds i)
  | .joined success => (success = true → now ≤ c.delay i + c.endsAfter i) ∧ (success = true ↔ c.Succeeds i)

/-- All attempts are on time, and so is the clock. -/
structure Timely (c : Setup ι) (s : State ι) : Prop where
  phases : ∀ i, (s.phase i).Timely c i s.now
  clock : ∀ bound, (∀ i, c.delay i + c.endsAfter i ≤ bound) → s.now ≤ bound

omit [DecidableEq ι] [Fintype ι] in
/-- An attempt that is polled when it ends has succeeded if it succeeds within its limit. -/
theorem poll_endsAfter {i : ι} {success : Bool} (h : c.poll i (c.endsAfter i) = some success) :
    success = true ↔ c.Succeeds i := by
  refine ⟨fun hsuccess => ?_, fun hsucceeds => poll_of_succeeds hsucceeds h⟩
  subst hsuccess
  obtain ⟨after, hfate, hle⟩ := succeeds_of_poll h
  exact ⟨after, hfate, hle.trans (endsAfter_le c i)⟩

omit [Fintype ι] in
theorem Timely.moved {i : ι} {phase : Phase} (h : Timely c s) (hphase : phase.Timely c i s.now) :
    Timely c (s.moved i phase) where
  phases := by
    intro j
    rw [phase_moved]
    split_ifs with hji
    · exact hji ▸ hphase
    · exact h.phases j
  clock := h.clock

omit [DecidableEq ι] [Fintype ι] in
theorem Phase.Timely.tick {i : ι} {now : ℕ} {phase : Phase} (h : phase.Timely c i now) (hdue : ¬ phase.due c i now)
    (hjoined : phase.isJoined = false) : phase.Timely c i (now + 1) ∧ now + 1 ≤ c.delay i + c.endsAfter i := by
  cases phase with
  | waiting =>
    have hlt : now < c.delay i := Nat.lt_of_not_le hdue
    exact ⟨hlt, hlt.trans_le (Nat.le_add_right _ _)⟩
  | running since =>
    obtain ⟨rfl, -⟩ := h
    have hlt : now - c.delay i < c.endsAfter i := Nat.lt_of_not_le hdue
    have hnow : now + 1 ≤ c.delay i + c.endsAfter i := by omega
    exact ⟨⟨rfl, hnow⟩, hnow⟩
  | finished success => exact absurd trivial hdue
  | joined success => cases hjoined

theorem timely_step (hsound : Sound c s) (h : Timely c s) (htime : OnTime c s e) (hst : c.step s e = some t) :
    Timely c t := by
  obtain ⟨hverdict, hcases⟩ := step_cases hst
  cases hcases with
  | tick =>
    obtain ⟨hdue, i, hi⟩ := htime
    refine ⟨fun j => ?_, fun bound hbound => ?_⟩
    · cases hj : (s.phase j).isJoined with
      | false => exact ((h.phases j).tick (hdue j) hj).1
      | true =>
        obtain ⟨success, hphase⟩ := isJoined_iff.mp hj
        have hsame := h.phases j
        rw [hphase] at hsame
        show (s.phase j).Timely c j (s.now + 1)
        rw [hphase]
        refine ⟨fun hsuccess => ?_, hsame.2⟩
        subst hsuccess
        exact absurd hphase (hsound.running hverdict j)
    · exact ((h.phases i).tick (hdue i) (Bool.eq_false_of_not_eq_true hi)).2.trans (hbound i)
  | start i hphase hdelay =>
    have hi := h.phases i
    rw [hphase] at hi
    have hnow : s.now = c.delay i := le_antisymm hi hdelay
    exact h.moved ⟨hnow, hnow ▸ Nat.le_add_right _ _⟩
  | poll i since success hphase hpoll =>
    have hi := h.phases i
    rw [hphase] at hi
    obtain ⟨rfl, hle⟩ := hi
    have hended : c.endsAfter i ≤ s.now - c.delay i := by
      refine Nat.le_of_not_lt fun hlt => ?_
      rw [poll_eq_none.mpr hlt] at hpoll
      cases hpoll
    have hexact : s.now - c.delay i = c.endsAfter i := by omega
    exact h.moved ⟨hle, poll_endsAfter (hexact ▸ hpoll)⟩
  | joinSuccess i hphase =>
    have hi := h.phases i
    rw [hphase] at hi
    have hmoved : Timely c (s.moved i (.joined true)) := h.moved ⟨fun _ => hi.1, hi.2⟩
    exact ⟨hmoved.phases, hmoved.clock⟩
  | joinFailure i hphase =>
    have hi := h.phases i
    rw [hphase] at hi
    exact h.moved ⟨fun hf => (by cases hf), hi.2⟩
  | drain hjoined => exact ⟨h.phases, h.clock⟩

theorem timely_run {es : List (Event ι)} (h : Machine.run c.step {} es = some s)
    (htime : Machine.AllSteps c.step (OnTime c) {} es) : Timely c s :=
  (Machine.run_induction (I := fun s => Sound c s ∧ Timely c s)
    (fun _ _ _ hC hI hst => ⟨sound_step hI.1 hst, timely_step hI.1 hI.2 hC hst⟩) htime
    ⟨sound_start, fun _ => Nat.zero_le _, fun _ _ => Nat.zero_le _⟩ h).2

section Verdict

variable {es : List (Event ι)} (h : Machine.run c.step {} es = some s)
  (htime : Machine.AllSteps c.step (OnTime c) {} es)

include h htime

/-- **Exactly the attempts that succeed within their limit count.** -/
theorem verdict_iff {verdict : Bool} (hverdict : s.verdict = some verdict) :
    verdict = true ↔ ∃ i, c.Succeeds i := by
  have hsound := sound_run h
  have htimely := timely_run h htime
  constructor
  · rintro rfl
    obtain ⟨i, hi⟩ := hsound.won hverdict
    have hphase := htimely.phases i
    rw [hi] at hphase
    exact ⟨i, hphase.2.mp rfl⟩
  · rintro ⟨i, hi⟩
    exact verdict_of_succeeds h hi hverdict

/-- **The race is over when an attempt has succeeded**, whatever the others do. -/
theorem now_le_of_succeeds {i : ι} {after : ℕ} (hfate : c.fate i = .succeeds after) (hle : after ≤ c.limit) :
    s.now ≤ c.delay i + after := by
  have hends := endsAfter_of_fate hfate
  have hsucceeds : c.Succeeds i := ⟨after, hfate, hle⟩
  have hphase := (timely_run h htime).phases i
  cases hp : s.phase i with
  | waiting =>
    rw [hp] at hphase
    exact hphase.trans (Nat.le_add_right _ _)
  | running since =>
    rw [hp] at hphase
    have := hphase.2
    omega
  | finished success =>
    rw [hp] at hphase
    have := hphase.1
    omega
  | joined success =>
    rw [hp] at hphase
    have := hphase.1 (hphase.2.mpr hsucceeds)
    omega

end Verdict

/-! ## To the verdict -/

/-- What is left for an attempt to do. -/
def Phase.weight : Phase → ℕ
  | .waiting => 3
  | .running _ => 2
  | .finished _ => 1
  | .joined _ => 0

/-- What is left of a race that ends by then. -/
def State.left (bound : ℕ) (s : State ι) : ℕ :=
  bound - s.now + ∑ i, (s.phase i).weight + if s.verdict = none then 1 else 0

omit [DecidableEq ι] in
theorem left_start (bound : ℕ) : ({} : State ι).left bound = bound + 3 * Fintype.card ι + 1 := by
  simp [State.left, Phase.weight, mul_comm]

theorem left_moved {i : ι} {phase : Phase} {bound : ℕ} {verdict : Option Bool} (hverdict : s.verdict = none)
    (h : phase.weight < (s.phase i).weight) :
    ({ s.moved i phase with verdict } : State ι).left bound < s.left bound := by
  have hsum : ∑ j, ((s.moved i phase).phase j).weight < ∑ j, (s.phase j).weight := by
    refine Finset.sum_lt_sum (fun j _ => ?_) ⟨i, Finset.mem_univ i, ?_⟩
    · rw [phase_moved]
      split_ifs with hji
      · exact hji ▸ h.le
      · exact le_rfl
    · rw [phase_moved, if_pos rfl]
      exact h
  unfold State.left
  rw [if_pos hverdict]
  change bound - s.now + ∑ j, ((s.moved i phase).phase j).weight + (if verdict = none then 1 else 0) < _
  split_ifs <;> omega

theorem left_step {bound : ℕ} (hbound : ∀ i, c.delay i + c.endsAfter i ≤ bound) (hsound : Sound c s)
    (h : Timely c s) (htime : OnTime c s e) (hst : c.step s e = some t) : t.left bound < s.left bound := by
  have hclock := (timely_step hsound h htime hst).clock bound hbound
  obtain ⟨hverdict, hcases⟩ := step_cases hst
  cases hcases with
  | tick =>
    have hnow : s.now + 1 ≤ bound := hclock
    unfold State.left
    dsimp only
    omega
  | start i hphase hdelay => exact left_moved hverdict (by rw [hphase]; exact Nat.lt_succ_self 2)
  | poll i since success hphase hpoll => exact left_moved hverdict (by rw [hphase]; exact Nat.lt_succ_self 1)
  | joinSuccess i hphase | joinFailure i hphase =>
    exact left_moved hverdict (by rw [hphase]; exact Nat.lt_succ_self 0)
  | drain hjoined =>
    unfold State.left
    dsimp only
    rw [if_pos hverdict, if_neg (Option.some_ne_none _)]
    omega

/-- **A race that is on time goes on** until there is a verdict. -/
theorem progress (hverdict : s.verdict = none) : ∃ e t, OnTime c s e ∧ c.step s e = some t := by
  have hnot : ¬ s.verdict.isSome = true := by simp [hverdict]
  by_cases hdue : ∃ i, (s.phase i).due c i s.now
  · obtain ⟨i, hi⟩ := hdue
    cases hphase : s.phase i with
    | waiting =>
      rw [hphase] at hi
      refine ⟨.start i, s.moved i (.running s.now), trivial, ?_⟩
      rw [Setup.step.eq_def, if_neg hnot]
      exact if_pos ⟨hphase, hi⟩
    | running since =>
      rw [hphase] at hi
      have hsome : c.poll i (s.now - since) ≠ none := fun hnone =>
        absurd (poll_eq_none.mp hnone) (Nat.not_lt.mpr hi)
      obtain ⟨success, hpoll⟩ := Option.ne_none_iff_exists'.mp hsome
      refine ⟨.poll i, s.moved i (.finished success), trivial, ?_⟩
      rw [Setup.step.eq_def, if_neg hnot]
      dsimp only
      rw [hphase]
      dsimp only
      rw [hpoll]
      rfl
    | finished success =>
      refine ⟨.join i, { s.moved i (.joined success) with verdict := if success then some true else none },
        trivial, ?_⟩
      rw [Setup.step.eq_def, if_neg hnot]
      dsimp only
      rw [hphase]
      rfl
    | joined success =>
      rw [hphase] at hi
      exact hi.elim
  · by_cases hjoined : ∀ i, (s.phase i).isJoined = true
    · refine ⟨.drain, { s with verdict := some false }, trivial, ?_⟩
      rw [Setup.step.eq_def, if_neg hnot]
      exact if_pos hjoined
    · refine ⟨.tick, { s with now := s.now + 1 }, ⟨not_exists.mp hdue, not_forall.mp hjoined⟩, ?_⟩
      rw [Setup.step.eq_def, if_neg hnot]

/-- **It is over after so many steps.** -/
theorem length_le {bound : ℕ} (hbound : ∀ i, c.delay i + c.endsAfter i ≤ bound) {es : List (Event ι)}
    (h : Machine.run c.step {} es = some s) (htime : Machine.AllSteps c.step (OnTime c) {} es) :
    es.length ≤ bound + 3 * Fintype.card ι + 1 := by
  have hend := Machine.run_history_of_allSteps
    (I := fun es s => (Sound c s ∧ Timely c s) ∧ es.length + s.left bound ≤ bound + 3 * Fintype.card ι + 1)
    ⟨⟨sound_start, fun _ => Nat.zero_le _, fun _ _ => Nat.zero_le _⟩, by rw [left_start]; simp⟩
    (fun es s e t hC hI hst => ⟨⟨sound_step hI.1.1 hst, timely_step hI.1.1 hI.1.2 hC hst⟩, by
      have hlt := left_step hbound hI.1.1 hI.1.2 hC hst
      have hle := hI.2
      rw [List.length_append, List.length_singleton]
      omega⟩) htime h
  exact (Nat.le_add_right _ _).trans hend.2

end Race
