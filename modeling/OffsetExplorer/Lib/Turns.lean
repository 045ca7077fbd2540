import OffsetExplorer.Lib.Machine
import Mathlib.Data.List.Infix
import Mathlib.Logic.Function.Basic

/-!
# Taking from queues in turn

Someone takes items from so many queues, one at a time: each time the queues are looked at in turn, once
round, from where the last look ended, and if nothing was shown the next one is waited for. The turn is a
counter that starts again at zero after so many looks.

* `sweep`, `pick`: one round of looks, and one round with the wait at its end.
* `step`: items are put in at any time, whoever takes may not see them at once.
* **`taken_append_queue`**: what was taken of a queue and what is still in it is what was put in.
* **`served`**: whoever is always seen is served within fewer than two rounds of takes, also where the
  counter starts again.
-/

namespace Turns

open Machine

variable {α : Type*}

/-- The queues, whose turn it is, and what each take has found: an item with its queue, or nothing. -/
structure State (α : Type*) where
  queues : ℕ → List α
  turn : ℕ := 0
  taken : List (Option (ℕ × α)) := []

/-- An item arrives, or items are taken. -/
inductive Event (α : Type*) where
  | put (queue : ℕ) (item : α)
  /-- A take; of a queue with items one is shown in the round, and one while it is waited for. -/
  | take (shown late : ℕ → Bool)

/-- What a look at a queue finds. -/
def offered (queues : ℕ → List α) (shown : ℕ → Bool) (queue : ℕ) : Option α :=
  if shown queue then (queues queue).head? else none

section

variable (modulus seats : ℕ)

/-- Up to `looks` looks in turn: the first item found, and the turn after it. -/
def sweep (queues : ℕ → List α) (shown : ℕ → Bool) : ℕ → ℕ → Option (ℕ × α) × ℕ
  | 0, turn => (none, turn)
  | looks + 1, turn =>
    match offered queues shown (turn % seats) with
    | some item => (some (turn % seats, item), (turn + 1) % modulus)
    | none => sweep queues shown looks ((turn + 1) % modulus)

/-- One look at each queue, and the next one is waited for if nothing was found. -/
def pick (queues : ℕ → List α) (shown late : ℕ → Bool) (turn : ℕ) : Option (ℕ × α) × ℕ :=
  match sweep modulus seats queues shown seats turn with
  | (some found, turn) => (some found, turn)
  | (none, turn) => ((offered queues late (turn % seats)).map (turn % seats, ·), (turn + 1) % modulus)

/-- What is taken is gone from its queue. -/
def removeFound (queues : ℕ → List α) : Option (ℕ × α) → ℕ → List α
  | some (queue, _) => Function.update queues queue (queues queue).tail
  | none => queues

/-- One step of the queues. -/
def step (s : State α) : Event α → Option (State α)
  | .put queue item =>
    some { s with queues := Function.update s.queues queue (s.queues queue ++ [item]) }
  | .take shown late =>
    let (found, turn) := pick modulus seats s.queues shown late s.turn
    some { queues := removeFound s.queues found, turn, taken := s.taken ++ [found] }

end

/-- What was taken of a queue, in order. -/
def fromQueue (queue : ℕ) (taken : List (Option (ℕ × α))) : List α :=
  taken.filterMap fun found => (found.filter fun entry => entry.1 = queue).map Prod.snd

/-- What an event puts in a queue. -/
def Event.putIn (queue : ℕ) : Event α → List α
  | .put q item => if q = queue then [item] else []
  | .take _ _ => []

/-- Whether the event is a take. -/
def Event.isTake : Event α → Bool
  | .put _ _ => false
  | .take _ _ => true

/-- Whether a take sees a queue with items. -/
def Event.Sees (queue : ℕ) : Event α → Prop
  | .put _ _ => True
  | .take shown late => shown queue = true ∧ late queue = true

variable {modulus seats queue turn looks : ℕ} {queues : ℕ → List α} {shown late : ℕ → Bool}
  {s t : State α} {es : List (Event α)}

/-! ## What is found -/

theorem fromQueue_append (queue : ℕ) (taken more : List (Option (ℕ × α))) :
    fromQueue queue (taken ++ more) = fromQueue queue taken ++ fromQueue queue more := List.filterMap_append

theorem fromQueue_cons_self (queue : ℕ) (item : α) (taken : List (Option (ℕ × α))) :
    fromQueue queue (some (queue, item) :: taken) = item :: fromQueue queue taken := by
  rw [← List.singleton_append, fromQueue_append]
  simp [fromQueue]

theorem offered_eq_some {item : α} (h : offered queues shown queue = some item) :
    (queues queue).head? = some item := by
  rw [offered] at h
  split_ifs at h
  exact h

theorem sweep_eq_some {queue : ℕ} {item : α}
    (h : (sweep modulus seats queues shown looks turn).1 = some (queue, item)) :
    (queues queue).head? = some item := by
  induction looks generalizing turn with
  | zero => cases h
  | succ looks ih =>
    rw [sweep] at h
    cases hlook : offered queues shown (turn % seats) with
    | none =>
      rw [hlook] at h
      exact ih h
    | some found =>
      rw [hlook] at h
      cases h
      exact offered_eq_some hlook

theorem pick_eq_some {item : α}
    (h : (pick modulus seats queues shown late turn).1 = some (queue, item)) :
    (queues queue).head? = some item := by
  rw [pick] at h
  rcases hsweep : sweep modulus seats queues shown seats turn with ⟨_ | found, after⟩
  · rw [hsweep] at h
    obtain ⟨found, hfound, heq⟩ := Option.map_eq_some_iff.mp h
    cases heq
    exact offered_eq_some hfound
  · rw [hsweep] at h
    cases h
    exact sweep_eq_some (congrArg Prod.fst hsweep)

theorem sweep_lt (hseats : seats ≠ 0) {item : α}
    (h : (sweep modulus seats queues shown looks turn).1 = some (queue, item)) : queue < seats := by
  induction looks generalizing turn with
  | zero => cases h
  | succ looks ih =>
    rw [sweep] at h
    cases hlook : offered queues shown (turn % seats) with
    | none =>
      rw [hlook] at h
      exact ih h
    | some found =>
      rw [hlook] at h
      cases h
      exact Nat.mod_lt _ (Nat.pos_of_ne_zero hseats)

theorem pick_lt (hseats : seats ≠ 0) {item : α}
    (h : (pick modulus seats queues shown late turn).1 = some (queue, item)) : queue < seats := by
  rw [pick] at h
  rcases hsweep : sweep modulus seats queues shown seats turn with ⟨_ | found, after⟩
  · rw [hsweep] at h
    obtain ⟨found, -, heq⟩ := Option.map_eq_some_iff.mp h
    cases heq
    exact Nat.mod_lt _ (Nat.pos_of_ne_zero hseats)
  · rw [hsweep] at h
    cases h
    exact sweep_lt hseats (congrArg Prod.fst hsweep)

theorem taken_lt (hseats : seats ≠ 0) (h : run (step modulus seats) s es = some t)
    (hs : ∀ entry, some entry ∈ s.taken → entry.1 < seats) :
    ∀ entry, some entry ∈ t.taken → entry.1 < seats := by
  refine run_invariant (I := fun s => ∀ entry, some entry ∈ s.taken → entry.1 < seats) ?_ hs h
  intro s e t hs hst entry hentry
  cases e with
  | put q item =>
    cases hst
    exact hs entry hentry
  | take shown late =>
    simp only [step, Option.some.injEq] at hst
    subst hst
    rcases List.mem_append.mp hentry with hold | hnew
    · exact hs entry hold
    · exact pick_lt hseats (List.mem_singleton.mp hnew).symm

theorem fromQueue_append_step {e : Event α} (h : step modulus seats s e = some t) (queue : ℕ) :
    fromQueue queue t.taken ++ t.queues queue =
      fromQueue queue s.taken ++ s.queues queue ++ e.putIn queue := by
  cases e with
  | put q item =>
    cases h
    dsimp only
    rw [Event.putIn, List.append_assoc]
    by_cases hq : q = queue
    · rw [hq, Function.update_self, if_pos rfl]
    · rw [Function.update_of_ne (Ne.symm hq), if_neg hq, List.append_nil]
  | take shown late =>
    rw [Event.putIn, List.append_nil]
    simp only [step, Option.some.injEq] at h
    subst h
    dsimp only
    rw [fromQueue_append]
    cases hfound : (pick modulus seats s.queues shown late s.turn).1 with
    | none => simp [removeFound, fromQueue]
    | some entry =>
      obtain ⟨q, item⟩ := entry
      have hhead := pick_eq_some hfound
      by_cases hq : q = queue
      · subst hq
        have hcons : s.queues q = item :: (s.queues q).tail := (List.cons_head?_tail hhead).symm
        rw [removeFound, Function.update_self]
        conv_rhs => rw [hcons]
        simp [fromQueue]
      · simp [removeFound, fromQueue, hq, Function.update_of_ne (Ne.symm hq)]

/-- **Nothing is lost, made up or put in another order**: what was taken of a queue and what is left of it is
what was put in. -/
theorem taken_append_queue (h : run (step modulus seats) s es = some t) (queue : ℕ) :
    fromQueue queue t.taken ++ t.queues queue =
      fromQueue queue s.taken ++ s.queues queue ++ es.flatMap (Event.putIn queue) := by
  induction es generalizing s with
  | nil =>
    cases h
    rw [List.flatMap_nil, List.append_nil]
  | cons e es ih =>
    obtain ⟨u, hu, hrun⟩ := run_cons_some _ h
    rw [ih hrun, fromQueue_append_step hu, List.flatMap_cons, List.append_assoc]

/-! ## Who waits -/

/-- The next looks pass a queue over. -/
def Passed (modulus seats turn queue looks : ℕ) : Prop :=
  ∀ j < looks, ((turn + j) % modulus) % seats ≠ queue

theorem passed_add {more : ℕ} (h : Passed modulus seats turn queue looks)
    (h' : Passed modulus seats ((turn + looks) % modulus) queue more) :
    Passed modulus seats turn queue (looks + more) := by
  intro j hj
  by_cases hlt : j < looks
  · exact h j hlt
  · obtain ⟨i, rfl⟩ := Nat.exists_eq_add_of_le (Nat.le_of_not_lt hlt)
    have hi := h' i (by omega)
    rwa [Nat.mod_add_mod, Nat.add_assoc] at hi

/-- Fewer than two rounds of looks pass no queue over, even if the counter starts again among them. -/
theorem lt_of_passed (hqueue : queue < seats) (hmodulus : seats ≤ modulus) (hturn : turn < modulus)
    (h : Passed modulus seats turn queue looks) : looks < 2 * seats - 1 := by
  by_contra hmany
  by_cases hwrap : turn + seats ≤ modulus
  · -- a whole round before the counter starts again
    set j := (queue + seats - turn % seats) % seats with hj
    have hlt : j < seats := Nat.mod_lt _ (by omega)
    refine h j (by omega) ?_
    have hrest : turn % seats < seats := Nat.mod_lt _ (by omega)
    have hsum : turn + (queue + seats - turn % seats) = queue + seats * (turn / seats + 1) := by
      have hdiv := Nat.div_add_mod turn seats
      rw [Nat.mul_add, Nat.mul_one]
      omega
    rw [Nat.mod_eq_of_lt (show turn + j < modulus by omega), hj, Nat.add_mod_mod, hsum,
      Nat.add_mul_mod_self_left, Nat.mod_eq_of_lt hqueue]
  · -- a whole round after it
    refine h (modulus - turn + queue) (by omega) ?_
    rw [show turn + (modulus - turn + queue) = queue + modulus by omega, Nat.add_mod_right,
      Nat.mod_eq_of_lt (hqueue.trans_le hmodulus), Nat.mod_eq_of_lt hqueue]

theorem offered_of_shown (hitems : queues queue ≠ []) (hshown : shown queue = true) :
    ∃ item, offered queues shown queue = some item := by
  obtain ⟨item, rest, heq⟩ := List.exists_cons_of_ne_nil hitems
  exact ⟨item, by rw [offered, if_pos hshown, heq, List.head?_cons]⟩

theorem sweep_passed (looks : ℕ) (hitems : queues queue ≠ []) (hshown : shown queue = true)
    (hturn : turn < modulus)
    (hnot : ∀ item, (sweep modulus seats queues shown looks turn).1 ≠ some (queue, item)) :
    ∃ m, (looks = 0 ∨ 0 < m) ∧ (sweep modulus seats queues shown looks turn).2 = (turn + m) % modulus ∧
      Passed modulus seats turn queue m := by
  induction looks generalizing turn with
  | zero => exact ⟨0, .inl rfl, (Nat.mod_eq_of_lt hturn).symm, by simp [Passed]⟩
  | succ looks ih =>
    have hother : turn % seats ≠ queue := by
      intro heq
      obtain ⟨item, hitem⟩ := offered_of_shown hitems hshown
      refine hnot item ?_
      rw [sweep, heq, hitem]
    have hone : Passed modulus seats turn queue 1 := by
      intro j hj
      obtain rfl : j = 0 := by omega
      rwa [Nat.add_zero, Nat.mod_eq_of_lt hturn]
    rw [sweep] at hnot ⊢
    cases hlook : offered queues shown (turn % seats) with
    | some item => exact ⟨1, .inr Nat.one_pos, rfl, hone⟩
    | none =>
      rw [hlook] at hnot
      obtain ⟨m, -, hafter, hpassed⟩ := ih (Nat.mod_lt _ (by omega)) hnot
      refine ⟨1 + m, .inr (by omega), hafter.trans ?_, passed_add hone hpassed⟩
      rw [Nat.mod_add_mod, Nat.add_assoc]

theorem pick_passed (hitems : queues queue ≠ []) (hshown : shown queue = true) (hlate : late queue = true)
    (hturn : turn < modulus) (hseats : seats ≠ 0)
    (hnot : ∀ item, (pick modulus seats queues shown late turn).1 ≠ some (queue, item)) :
    ∃ m, 0 < m ∧ (pick modulus seats queues shown late turn).2 = (turn + m) % modulus ∧
      Passed modulus seats turn queue m := by
  rw [pick] at hnot ⊢
  rcases hsweep : sweep modulus seats queues shown seats turn with ⟨_ | found, after⟩
  · obtain ⟨m, hm, hafter, hpassed⟩ := sweep_passed seats hitems hshown hturn
      (fun item h => by rw [hsweep] at h; cases h)
    rw [hsweep] at hafter hnot
    dsimp only at hafter hnot ⊢
    have hother : after % seats ≠ queue := by
      intro heq
      obtain ⟨item, hitem⟩ := offered_of_shown hitems hlate
      refine hnot item ?_
      rw [heq, hitem, Option.map_some]
    refine ⟨m + 1, m.succ_pos, ?_, passed_add hpassed fun j hj => ?_⟩
    · rw [hafter, Nat.mod_add_mod, Nat.add_assoc]
    · obtain rfl : j = 0 := by omega
      rwa [Nat.add_zero, Nat.mod_mod, ← hafter]
  · rw [hsweep] at hnot
    obtain ⟨m, hm, hafter, hpassed⟩ := sweep_passed seats hitems hshown hturn
      (fun item h => hnot item (by rw [hsweep] at h; exact h))
    rw [hsweep] at hafter
    exact ⟨m, hm.resolve_left hseats, hafter, hpassed⟩

theorem fromQueue_step_extends {e : Event α} (h : step modulus seats s e = some t) (queue : ℕ) :
    fromQueue queue s.taken <+: fromQueue queue t.taken := by
  cases e with
  | put q item =>
    cases h
    exact List.prefix_rfl
  | take shown late =>
    simp only [step, Option.some.injEq] at h
    subst h
    rw [fromQueue_append]
    exact List.prefix_append _ _

theorem fromQueue_run_extends (h : run (step modulus seats) s es = some t) (queue : ℕ) :
    fromQueue queue s.taken <+: fromQueue queue t.taken := by
  induction es generalizing s with
  | nil =>
    cases h
    exact List.prefix_rfl
  | cons e es ih =>
    obtain ⟨u, hu, hrun⟩ := run_cons_some _ h
    exact (fromQueue_step_extends hu queue).trans (ih hrun)

/-- While nothing is taken of a queue that is seen and has items, each take passes it over. -/
theorem run_passed (h : run (step modulus seats) s es = some t) (hseats : seats ≠ 0) (hturn : s.turn < modulus)
    (hitems : s.queues queue ≠ []) (hsees : ∀ e ∈ es, e.Sees queue)
    (hsame : fromQueue queue t.taken = fromQueue queue s.taken) :
    ∃ m, es.countP Event.isTake ≤ m ∧ Passed modulus seats s.turn queue m := by
  induction es generalizing s with
  | nil => exact ⟨0, le_rfl, by simp [Passed]⟩
  | cons e es ih =>
    obtain ⟨u, hu, hrun⟩ := run_cons_some _ h
    obtain ⟨hsee, hlater⟩ := List.forall_mem_cons.mp hsees
    have hfirst : fromQueue queue u.taken = fromQueue queue s.taken := by
      refine ((fromQueue_step_extends hu queue).eq_of_length_le ?_).symm
      rw [← hsame]
      exact (fromQueue_run_extends hrun queue).length_le
    have hleft : u.queues queue ≠ [] := by
      have happ := fromQueue_append_step hu queue
      rw [hfirst, List.append_assoc, List.append_cancel_left_eq] at happ
      rw [happ]
      exact List.append_ne_nil_of_left_ne_nil hitems _
    have hrest := hsame.trans hfirst.symm
    cases e with
    | put q item =>
      cases hu
      have hpassed := ih hrun hturn hleft hlater hrest
      exact hpassed
    | take shown late =>
      simp only [step, Option.some.injEq] at hu
      subst hu
      have hnot : ∀ item, (pick modulus seats s.queues shown late s.turn).1 ≠ some (queue, item) := by
        intro item hitem
        rw [fromQueue_append, hitem, fromQueue_cons_self] at hfirst
        simp at hfirst
      obtain ⟨m, hm, hafter, hpassed⟩ := pick_passed hitems hsee.1 hsee.2 hturn hseats hnot
      obtain ⟨more, hmore, hpassed'⟩ := ih hrun
        (by dsimp only; rw [hafter]; exact Nat.mod_lt _ (by omega)) hleft hlater hrest
      dsimp only at hpassed'
      rw [hafter] at hpassed'
      refine ⟨m + more, ?_, passed_add hpassed hpassed'⟩
      rw [List.countP_cons, Event.isTake, if_pos rfl]
      omega

/-- **Whoever is always seen is served**: of a queue with items, fewer than two rounds of takes take the
first one. -/
theorem served (h : run (step modulus seats) s es = some t) (hqueue : queue < seats) (hmodulus : seats ≤ modulus)
    (hturn : s.turn < modulus) {item : α} (hitem : (s.queues queue).head? = some item)
    (hsees : ∀ e ∈ es, e.Sees queue) (htakes : 2 * seats - 1 ≤ es.countP Event.isTake) :
    fromQueue queue s.taken ++ [item] <+: fromQueue queue t.taken := by
  have hitems : s.queues queue ≠ [] := by
    intro hnil
    rw [hnil] at hitem
    cases hitem
  obtain ⟨more, hmore⟩ := fromQueue_run_extends h queue
  cases more with
  | nil =>
    rw [List.append_nil] at hmore
    obtain ⟨m, hm, hpassed⟩ := run_passed h (by omega) hturn hitems hsees hmore.symm
    have := lt_of_passed hqueue hmodulus hturn hpassed
    omega
  | cons first more =>
    -- the first item taken is the first one there was
    have happ := taken_append_queue h queue
    have hcons : s.queues queue = item :: (s.queues queue).tail := (List.cons_head?_tail hitem).symm
    rw [← hmore, hcons, List.append_assoc, List.append_assoc, List.append_cancel_left_eq, List.cons_append,
      List.cons_append] at happ
    rw [← hmore, (List.cons.inj happ).1]
    exact ⟨more, by rw [List.append_assoc, List.singleton_append]⟩

end Turns
