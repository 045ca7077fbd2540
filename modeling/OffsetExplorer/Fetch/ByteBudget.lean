import OffsetExplorer.Fetch.Stall

/-!
# The byte budget of a fetch

The budget bounds what a fetch keeps. It is checked after a message is taken, and messages without
their payloads are charged nothing.

* `whyStopped`, `pollLoop`: the whole loop, and which condition of its `while` ended it.
* `Available`: the loop gets to a message that the plan asks for, whatever the budget.
* `BudgetHarmless`: without payloads the budget changes nothing; with them it leaves the first message
  and stops before the payloads pass it by more than one.
* **`budget_harmless_iff`**: so it is, but for a budget of zero, which a message charged nothing
  reaches.
-/

namespace OffsetExplorer.Fetch

open Machine

/-- The conditions of the `while`, in order. -/
inductive Stop where
  | finished
  | target
  | idle
  | byteBudget
  | cancelled
  deriving DecidableEq

/-- The first condition that keeps the loop from another poll. -/
def whyStopped (c : Loop) (s : PollState) (cancelled : Bool) : Option Stop :=
  if s.unfinished = 0 then some .finished
  else if c.totalTarget ≤ s.collected.length then some .target
  else if idleTimeout ≤ s.idleElapsed then some .idle
  else if s.stoppedAtByteBudget then some .byteBudget
  else if cancelled then some .cancelled
  else none

/-- The loop: the state it ends in and why. There is no reason where it would poll once more. -/
def pollLoop (c : Loop) : PollState → List Iteration → PollState × Option Stop
  | s, [] => (s, none)
  | s, e :: es =>
    match whyStopped c s e.cancelled with
    | some why => (s, some why)
    | none => pollLoop c (iterate c s e.polled) es

/-- The same fetch without a byte budget. -/
def Loop.unbudgeted (c : Loop) : Loop := { c with maxTotalPayloadBytes := none }

/-- A message in the range of a partition that the plan reads. -/
def Wanted (c : Loop) : Polled → Prop
  | .message m => 0 < c.limit m.partition ∧ ¬ c.PastEnd m
  | _ => False

/-- The loop gets to a wanted message from `s`. -/
def Offered (c : Loop) : PollState → List Iteration → Prop
  | _, [] => False
  | s, e :: es =>
    whyStopped c s e.cancelled = none ∧ (Wanted c e.polled ∨ Offered c (iterate c s e.polled) es)

/-- A message is there for the fetch, whatever its byte budget. -/
def Available (c : Loop) (es : List Iteration) : Prop := Offered c.unbudgeted (start c) es

/-- The payload bytes of some rows. -/
def payloadBytes (rows : List TopicMessage) : ℕ :=
  (rows.map fun m => m.payloadSizeBytes.getD 0).sum

/-- What the byte budget is not to do to a fetch. -/
def BudgetHarmless (c : Loop) (es : List Iteration) : Prop :=
  (c.filter.includePayload = false →
    pollLoop c (start c) es = pollLoop c.unbudgeted (start c) es ∧
      (pollLoop c (start c) es).1.stoppedAtByteBudget = false) ∧
  (c.filter.includePayload = true →
    (Available c es → (pollLoop c (start c) es).1.collected ≠ []) ∧
      ∀ b rows last, c.maxTotalPayloadBytes = some b → 0 < b →
        (pollLoop c (start c) es).1.collected = rows ++ [last] → payloadBytes rows < b)

variable {c : Loop} {s t : PollState} {es : List Iteration} {polled : Polled}

/-! ## The loop and its runs -/

theorem whyStopped_eq_none {cancelled : Bool} :
    whyStopped c s cancelled = none ↔ Running c s ∧ cancelled = false := by
  unfold whyStopped Running
  split_ifs with h1 h2 h3 h4 h5
  · simp [h1]
  · simp [h2]
  · simp [h3]
  · simp [h4]
  · simp [h5]
  · simp only [Nat.pos_of_ne_zero h1, not_le.mp h2, not_le.mp h3, h4, h5, and_self]

theorem pollLoop_cons_of_running {e : Iteration} (h : whyStopped c s e.cancelled = none) :
    pollLoop c s (e :: es) = pollLoop c (iterate c s e.polled) es := by
  rw [pollLoop, h]

theorem pollLoop_cons_of_stopped {e : Iteration} {why : Stop}
    (h : whyStopped c s e.cancelled = some why) : pollLoop c s (e :: es) = (s, some why) := by
  rw [pollLoop, h]

theorem run_pollLoop (c : Loop) (s : PollState) (es : List Iteration) :
    ∃ taken, run (step c) s taken = some (pollLoop c s es).1 := by
  induction es generalizing s with
  | nil => exact ⟨[], rfl⟩
  | cons e es ih =>
    cases h : whyStopped c s e.cancelled with
    | some why =>
      rw [pollLoop_cons_of_stopped h]
      exact ⟨[], rfl⟩
    | none =>
      obtain ⟨taken, htaken⟩ := ih (iterate c s e.polled)
      rw [pollLoop_cons_of_running h]
      refine ⟨e :: taken, ?_⟩
      rw [run_cons, step, if_pos (whyStopped_eq_none.mp h)]
      exact htaken

theorem pollLoop_invariant {I : PollState → Prop} (hs : I s)
    (hI : ∀ s polled, Running c s → I s → I (iterate c s polled)) : I (pollLoop c s es).1 := by
  obtain ⟨taken, htaken⟩ := run_pollLoop c s es
  refine run_invariant (fun u e v hu hv => ?_) hs htaken
  obtain ⟨hrun, -, rfl⟩ := step_eq_some hv
  exact hI u e.polled hrun hu

/-! ## Taking a message -/

theorem takeMessage_stopped (m : BorrowedMessage) (b : ℤ) :
    (takeMessage c s m b).stoppedAtByteBudget = byteBudgetReached (s.payloadBytesRead +
      budgetedPayloadBytes (m.payload.getD []).length c.filter.includePayload)
      c.maxTotalPayloadBytes := rfl

theorem takeMessage_payloadBytesRead (m : BorrowedMessage) (b : ℤ) :
    (takeMessage c s m b).payloadBytesRead = s.payloadBytesRead +
      budgetedPayloadBytes (m.payload.getD []).length c.filter.includePayload := by
  unfold takeMessage PollState.finish
  dsimp only
  split_ifs <;> rfl

/-- An iteration takes a message, or it leaves the rows, their bytes and the budget alone. -/
theorem iterate_takes_or_keeps (c : Loop) (s : PollState) (polled : Polled) :
    (∃ m b, iterate c s polled = takeMessage c { s with idleElapsed := 0 } m b) ∨
      (iterate c s polled).collected = s.collected ∧
        (iterate c s polled).payloadBytesRead = s.payloadBytesRead ∧
        (iterate c s polled).stoppedAtByteBudget = s.stoppedAtByteBudget := by
  obtain ⟨i, e, heq⟩ | ⟨i, p, -, -, heq⟩ | ⟨m, -, -, -, -, heq⟩ :=
    iterate_cases (c := c) (TreeTable.Tabulates.self s.remaining 0) polled
  · rw [heq]
    exact .inr ⟨rfl, rfl, rfl⟩
  · rw [heq]
    unfold PollState.finish
    split_ifs <;> exact .inr ⟨rfl, rfl, rfl⟩
  · exact .inl ⟨m, _, heq⟩

/-- Where the budget is not reached, it makes no difference to the message taken. -/
theorem takeMessage_unbudgeted {m : BorrowedMessage} {b : ℤ}
    (h : byteBudgetReached (s.payloadBytesRead + budgetedPayloadBytes (m.payload.getD []).length
      c.filter.includePayload) c.maxTotalPayloadBytes = false) :
    takeMessage c s m b = takeMessage c.unbudgeted s m b := by
  unfold takeMessage
  dsimp only
  rw [h]
  rfl

theorem whyStopped_unbudgeted (cancelled : Bool) :
    whyStopped c.unbudgeted s cancelled = whyStopped c s cancelled := rfl

/-! ## Without payloads -/

/-- Nothing has been charged and nothing has stopped. -/
def Uncharged (s : PollState) : Prop := s.payloadBytesRead = 0 ∧ s.stoppedAtByteBudget = false

theorem uncharged_takeMessage (hinclude : c.filter.includePayload = false)
    (hbudget : c.maxTotalPayloadBytes ≠ some 0) (h : Uncharged s) (m : BorrowedMessage) (b : ℤ) :
    Uncharged (takeMessage c s m b) ∧ takeMessage c s m b = takeMessage c.unbudgeted s m b := by
  have hread : s.payloadBytesRead + budgetedPayloadBytes (m.payload.getD []).length
      c.filter.includePayload = 0 := by
    rw [h.1, hinclude]
    rfl
  have hreached : byteBudgetReached (s.payloadBytesRead + budgetedPayloadBytes
      (m.payload.getD []).length c.filter.includePayload) c.maxTotalPayloadBytes = false := by
    rw [hread]
    cases hb : c.maxTotalPayloadBytes with
    | none => rfl
    | some b =>
      have : b ≠ 0 := fun h0 => hbudget (h0 ▸ hb)
      simp [byteBudgetReached, this]
  refine ⟨⟨?_, ?_⟩, takeMessage_unbudgeted hreached⟩
  · rw [takeMessage_payloadBytesRead, hread]
  · rw [takeMessage_stopped, hreached]

theorem uncharged_iterate (hinclude : c.filter.includePayload = false)
    (hbudget : c.maxTotalPayloadBytes ≠ some 0) (h : Uncharged s) (polled : Polled) :
    Uncharged (iterate c s polled) ∧ iterate c s polled = iterate c.unbudgeted s polled := by
  constructor
  · rcases iterate_takes_or_keeps c s polled with ⟨m, b, heq⟩ | ⟨-, hread, hstop⟩
    · rw [heq]
      exact (uncharged_takeMessage hinclude hbudget (s := { s with idleElapsed := 0 }) h m b).1
    · exact ⟨hread.trans h.1, hstop.trans h.2⟩
  · cases polled with
    | message m =>
      simp only [iterate, pollMessage,
        (uncharged_takeMessage hinclude hbudget (s := { s with idleElapsed := 0 }) h m _).2]
      rfl
    | partitionEof p => rfl
    | error described => rfl
    | nothing => rfl

/-- **Without payloads a budget makes no difference**, unless it is zero. -/
theorem pollLoop_uncharged (hinclude : c.filter.includePayload = false)
    (hbudget : c.maxTotalPayloadBytes ≠ some 0) (h : Uncharged s) :
    pollLoop c s es = pollLoop c.unbudgeted s es := by
  induction es generalizing s with
  | nil => rfl
  | cons e es ih =>
    obtain ⟨hnext, heq⟩ := uncharged_iterate hinclude hbudget h e.polled
    rw [pollLoop, pollLoop, whyStopped_unbudgeted, ih hnext, heq]

/-! ## Before the first message -/

/-- Nothing has been taken. -/
structure Fresh (c : Loop) (s : PollState) : Prop where
  collected : s.collected = []
  remaining : s.remaining = c.plan.limits
  notStopped : s.stoppedAtByteBudget = false

theorem fresh_start (c : Loop) : Fresh c (start c) := ⟨rfl, rfl, rfl⟩

theorem Fresh.finish (h : Fresh c s) (p : ℤ) : Fresh c (s.finish p) := by
  unfold PollState.finish
  split_ifs
  · exact h
  · exact ⟨h.collected, h.remaining, h.notStopped⟩

theorem pollMessage_fresh (h : Fresh c s) (m : BorrowedMessage) :
    (Wanted c (.message m) → (pollMessage c s m).collected ≠ []) ∧
      (¬ Wanted c (.message m) → Fresh c (pollMessage c s m) ∧
        pollMessage c s m = pollMessage c.unbudgeted s m) := by
  have hidle : Fresh c { s with idleElapsed := 0 } := ⟨h.collected, h.remaining, h.notStopped⟩
  have hlimit : c.limit m.partition = (s.remaining[m.partition]?).getD 0 := by
    rw [h.remaining]
    rfl
  have hend := c.any_end_iff m
  have hwanted : Wanted c (.message m) ↔ 0 < (s.remaining[m.partition]?).getD 0 ∧ ¬ c.PastEnd m := by
    rw [← hlimit]
    rfl
  rw [pollMessage, pollMessage, hwanted]
  dsimp only [Loop.unbudgeted]
  cases s.remaining[m.partition]? with
  | none => exact ⟨fun hw => absurd hw.1 (lt_irrefl _), fun _ => ⟨hidle, rfl⟩⟩
  | some budget =>
    dsimp only [Option.getD_some]
    split_ifs with hb he
    · exact ⟨fun hw => absurd hw.1 (by omega), fun _ => ⟨hidle, rfl⟩⟩
    · exact ⟨fun hw => absurd (hend.mp he) hw.2, fun _ => ⟨hidle.finish _, (if_pos he).symm⟩⟩
    · refine ⟨fun _ => ?_, fun hw => absurd ⟨by omega, mt hend.mpr he⟩ hw⟩
      rw [collected_takeMessage]
      exact List.append_ne_nil_of_right_ne_nil _ (List.cons_ne_nil _ _)

theorem iterate_wanted (h : Fresh c s) (hw : Wanted c polled) :
    (iterate c s polled).collected ≠ [] := by
  cases polled with
  | message m => exact (pollMessage_fresh h m).1 hw
  | partitionEof p => exact hw.elim
  | error described => exact hw.elim
  | nothing => exact hw.elim

theorem iterate_unwanted (h : Fresh c s) (hw : ¬ Wanted c polled) :
    Fresh c (iterate c s polled) ∧ iterate c s polled = iterate c.unbudgeted s polled := by
  cases polled with
  | message m => exact (pollMessage_fresh h m).2 hw
  | partitionEof p =>
    refine ⟨?_, rfl⟩
    rw [iterate]
    split_ifs
    · exact h.finish p
    · exact h
  | error described => exact ⟨⟨h.collected, h.remaining, h.notStopped⟩, rfl⟩
  | nothing => exact ⟨⟨h.collected, h.remaining, h.notStopped⟩, rfl⟩

theorem collected_pollLoop (h : s.collected ≠ []) : (pollLoop c s es).1.collected ≠ [] := by
  refine pollLoop_invariant (I := fun s => s.collected ≠ []) h fun u polled _ hu => ?_
  rcases iterate_takes_or_keeps c u polled with ⟨m, b, heq⟩ | ⟨hcollected, -, -⟩
  · rw [heq, collected_takeMessage]
    exact List.append_ne_nil_of_right_ne_nil _ (List.cons_ne_nil _ _)
  · rwa [hcollected]

/-- **The first message is taken**, whatever the budget. -/
theorem collected_of_offered (h : Fresh c s) (ho : Offered c.unbudgeted s es) :
    (pollLoop c s es).1.collected ≠ [] := by
  induction es generalizing s with
  | nil => exact ho.elim
  | cons e es ih =>
    obtain ⟨hgo, hrest⟩ := ho
    rw [pollLoop_cons_of_running ((whyStopped_unbudgeted _).symm.trans hgo)]
    by_cases hw : Wanted c e.polled
    · exact collected_pollLoop (iterate_wanted h hw)
    · obtain ⟨hnext, heq⟩ := iterate_unwanted h hw
      rw [← heq] at hrest
      exact ih hnext (hrest.resolve_left hw)

theorem pollLoop_of_not_offered (h : Fresh c s) (ho : ¬ Offered c.unbudgeted s es) :
    pollLoop c s es = pollLoop c.unbudgeted s es ∧ Fresh c (pollLoop c s es).1 := by
  induction es generalizing s with
  | nil => exact ⟨rfl, h⟩
  | cons e es ih =>
    cases hgo : whyStopped c s e.cancelled with
    | some why =>
      rw [pollLoop_cons_of_stopped hgo,
        pollLoop_cons_of_stopped ((whyStopped_unbudgeted _).trans hgo)]
      exact ⟨rfl, h⟩
    | none =>
      have hrest : ¬ (Wanted c e.polled ∨ Offered c.unbudgeted (iterate c.unbudgeted s e.polled) es) :=
        fun hrest => ho ⟨hgo, hrest⟩
      obtain ⟨hw, hrest⟩ := not_or.mp hrest
      obtain ⟨hnext, heq⟩ := iterate_unwanted h hw
      rw [← heq] at hrest
      rw [pollLoop_cons_of_running hgo,
        pollLoop_cons_of_running ((whyStopped_unbudgeted _).trans hgo), ← heq]
      exact ih hnext hrest

/-! ## With payloads -/

theorem payloadBytes_append (rows : List TopicMessage) (m : TopicMessage) :
    payloadBytes (rows ++ [m]) = payloadBytes rows + m.payloadSizeBytes.getD 0 := by
  simp [payloadBytes]

/-- Where the loop stands towards a budget of `b`. -/
structure Charged (b : ℕ) (s : PollState) : Prop where
  read : s.payloadBytesRead = payloadBytes s.collected
  below : s.stoppedAtByteBudget = false → s.payloadBytesRead < b
  before : ∀ rows last, s.collected = rows ++ [last] → payloadBytes rows < b

theorem charged_takeMessage {b : ℕ} (hinclude : c.filter.includePayload = true)
    (hbudget : c.maxTotalPayloadBytes = some b) (h : Charged b s)
    (hrun : s.stoppedAtByteBudget = false) (m : BorrowedMessage) (k : ℤ) :
    Charged b (takeMessage c s m k) := by
  have hsize : budgetedPayloadBytes (m.payload.getD []).length c.filter.includePayload =
      (c.row m).payloadSizeBytes.getD 0 := by
    rw [hinclude]
    cases hm : m.payload with
    | none => simp [Loop.row, budgetedPayloadBytes, hm]
    | some payload => simp [Loop.row, budgetedPayloadBytes, hm]
  have hread : (takeMessage c s m k).payloadBytesRead =
      payloadBytes (takeMessage c s m k).collected := by
    rw [takeMessage_payloadBytesRead, collected_takeMessage, payloadBytes_append, hsize, h.read]
  refine ⟨hread, fun hstop => ?_, fun rows last hrows => ?_⟩
  · rw [takeMessage_stopped, ← takeMessage_payloadBytesRead (s := s) m k, hbudget] at hstop
    simpa [byteBudgetReached] using hstop
  · rw [collected_takeMessage] at hrows
    obtain ⟨rfl, -⟩ := List.append_inj' hrows rfl
    rw [← h.read]
    exact h.below hrun

theorem charged_iterate {b : ℕ} (hinclude : c.filter.includePayload = true)
    (hbudget : c.maxTotalPayloadBytes = some b) (polled : Polled) (hrun : Running c s)
    (h : Charged b s) : Charged b (iterate c s polled) := by
  rcases iterate_takes_or_keeps c s polled with ⟨m, k, heq⟩ | ⟨hcollected, hread, hstop⟩
  · rw [heq]
    have hidle : Charged b { s with idleElapsed := 0 } := ⟨h.read, h.below, h.before⟩
    exact charged_takeMessage hinclude hbudget hidle hrun.2.2.2 m k
  · refine ⟨?_, ?_, ?_⟩
    · rw [hread, hcollected, h.read]
    · rw [hread, hstop]
      exact h.below
    · rw [hcollected]
      exact h.before

theorem charged_start {b : ℕ} (hb : 0 < b) : Charged b (start c) where
  read := rfl
  below _ := hb
  before _ _ h := absurd h.symm (List.append_ne_nil_of_right_ne_nil _ (List.cons_ne_nil _ _))

/-- **The budget is passed by one message at most.** -/
theorem charged_pollLoop {b : ℕ} (hinclude : c.filter.includePayload = true)
    (hbudget : c.maxTotalPayloadBytes = some b) (hb : 0 < b) (es : List Iteration) :
    Charged b (pollLoop c (start c) es).1 :=
  pollLoop_invariant (charged_start hb) fun _ polled hrun hs =>
    charged_iterate hinclude hbudget polled hrun hs

/-! ## A budget of zero -/

theorem stopped_of_collected (hbudget : c.maxTotalPayloadBytes = some 0) (es : List Iteration)
    (h : (pollLoop c (start c) es).1.collected ≠ []) :
    (pollLoop c (start c) es).1.stoppedAtByteBudget = true := by
  revert h
  refine pollLoop_invariant (I := fun s => s.collected ≠ [] → s.stoppedAtByteBudget = true)
    (fun h => absurd rfl h) fun u polled _ hu => ?_
  rcases iterate_takes_or_keeps c u polled with ⟨m, b, heq⟩ | ⟨hcollected, -, hstop⟩
  · intro _
    rw [heq, takeMessage_stopped, hbudget]
    simp [byteBudgetReached]
  · rwa [hcollected, hstop]

/-- **When the byte budget is harmless.** A fetch that keeps payloads returns a message where there is
one and passes its budget by that of the last at most; one that does not goes as without a budget,
unless the budget is zero and there is a message to reach it. -/
theorem budget_harmless_iff (c : Loop) (es : List Iteration) :
    BudgetHarmless c es ↔ c.filter.includePayload = true ∨ c.maxTotalPayloadBytes ≠ some 0 ∨
      ¬ Available c es := by
  constructor
  · intro h
    by_contra hnot
    obtain ⟨hinclude, hrest⟩ := not_or.mp hnot
    obtain ⟨hbudget, havailable⟩ := not_or.mp hrest
    have hcollected := collected_of_offered (fresh_start c) (not_not.mp havailable)
    have hstop := stopped_of_collected (not_not.mp hbudget) es hcollected
    have hnever := (h.1 (Bool.eq_false_iff.mpr hinclude)).2
    rw [hstop] at hnever
    cases hnever
  · intro h
    refine ⟨fun hinclude => ?_, fun hinclude => ⟨fun havailable => ?_, ?_⟩⟩
    · have h' := h.resolve_left (by rw [hinclude]; exact Bool.false_ne_true)
      by_cases hbudget : c.maxTotalPayloadBytes = some 0
      · have hnone := h'.resolve_left (not_not.mpr hbudget)
        obtain ⟨heq, hfresh⟩ := pollLoop_of_not_offered (fresh_start c) hnone
        exact ⟨heq, hfresh.notStopped⟩
      · refine ⟨pollLoop_uncharged hinclude hbudget ⟨rfl, rfl⟩, ?_⟩
        exact (pollLoop_invariant (I := Uncharged) ⟨rfl, rfl⟩ fun u polled _ hu =>
          (uncharged_iterate hinclude hbudget hu polled).1).2
    · exact collected_of_offered (fresh_start c) havailable
    · intro b rows last hbudget hb
      exact (charged_pollLoop hinclude hbudget hb es).before rows last

/-- A browse of two messages without payloads, with a byte budget of zero. -/
def zeroBudget : Loop := { pair with maxTotalPayloadBytes := some 0 }

/-- A message of each of two partitions. -/
def twoMessages : List Iteration :=
  [{ polled := .message { partition := 0, offset := 0 } },
    { polled := .message { partition := 1, offset := 0 } }]

/-- The first message, charged nothing, reaches the budget, and the second is not read. -/
theorem zero_budget_not_harmless :
    (pollLoop zeroBudget (start zeroBudget) twoMessages).1.collected.length = 1 ∧
      (pollLoop zeroBudget.unbudgeted (start zeroBudget) twoMessages).1.collected.length = 2 ∧
      ¬ BudgetHarmless zeroBudget twoMessages := by
  refine ⟨by decide, by decide, fun h => ?_⟩
  have hstop : (pollLoop zeroBudget (start zeroBudget) twoMessages).1.stoppedAtByteBudget = true := by
    decide
  have hnever := (h.1 rfl).2
  rw [hstop] at hnever
  cases hnever

end OffsetExplorer.Fetch
