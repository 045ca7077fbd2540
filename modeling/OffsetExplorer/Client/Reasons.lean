import OffsetExplorer.Client.Observed

/-!
# Whose reason a failure reports

* `Own`: every reason taken from the slot was queued after the call that reports it began.
* `Fresh`: a call fails while no error event of an earlier time is left in the queue.
* `step_own`: fresh failures report reasons of their own.
* **`reasons_own`**: so do all runs of them; and a call whose failure is not fresh can go on to report
  a reason that is older than itself.
-/

namespace OffsetExplorer.ObservedClient

open Machine

variable {s t : Pool} {es : List Event}

/-- Every reason taken from the slot was queued after its call began. -/
def Own (s : Pool) : Prop :=
  ∀ failure ∈ s.failures, ∀ number ∈ failure.source, failure.began ≤ number

/-- No error event that was queued before a call began is left. -/
def NoStale (queue : List Queued) (began : ℕ) : Prop :=
  ∀ q ∈ queue, q.event.isError = true → began ≤ q.number

/-- A call that fails has no error event from before it began in the queue. -/
def Fresh (s : Pool) : Event → Prop
  | .fail _ => ∀ what began, s.holder = some ⟨what, .calling began⟩ → NoStale s.client.queue began
  | _ => True

/-! ## The queue -/

/-- The events of the queue are in the order of their numbers, and the slot is empty during a call. -/
structure Ordered (s : Pool) : Prop where
  sorted : s.client.queue.Pairwise fun p q => p.number < q.number
  queued : ∀ q ∈ s.client.queue, q.number < s.client.queued
  calling : ∀ what began, s.holder = some ⟨what, .calling began⟩ →
    s.client.context.lastError = none ∧ began ≤ s.client.queued
  draining : ∀ what began error, s.holder = some ⟨what, .draining began error⟩ →
    began ≤ s.client.queued

theorem ordered_start : Ordered {} where
  sorted := List.Pairwise.nil
  queued := nofun
  calling := nofun
  draining := nofun

theorem lastError_foldl {events : List Queued} {context : ClientErrorContext} {reason : Reason}
    (h : (events.foldl ClientErrorContext.serve context).lastError = some reason) :
    context.lastError = some reason ∨
      ∃ q ∈ events, q.event.isError = true ∧ q.number = reason.number := by
  induction events generalizing context with
  | nil => exact .inl h
  | cons q events ih =>
    rcases ih h with hslot | ⟨p, hp, herror⟩
    · cases he : q.event with
      | other =>
        rw [ClientErrorContext.serve, he] at hslot
        exact .inl hslot
      | error text =>
        rw [ClientErrorContext.serve, he] at hslot
        cases hslot
        exact .inr ⟨q, List.mem_cons_self, by rw [he]; rfl, rfl⟩
    · exact .inr ⟨p, List.mem_cons_of_mem q hp, herror⟩

theorem Ordered.step {e : Event} (h : Ordered s) (hst : step s e = some t) : Ordered t := by
  cases e with
  | enqueue event =>
    cases hst
    refine ⟨?_, ?_, fun what began hw => ?_, fun what began error hw => ?_⟩
    · refine List.pairwise_append.mpr ⟨h.sorted, List.pairwise_singleton _ _, ?_⟩
      intro p hp q hq
      cases List.mem_singleton.mp hq
      exact h.queued p hp
    · intro q hq
      rcases List.mem_append.mp hq with hq | hq
      · exact Nat.lt_succ_of_lt (h.queued q hq)
      · cases List.mem_singleton.mp hq
        exact Nat.lt_succ_self _
    · exact ⟨(h.calling what began hw).1, Nat.le_succ_of_le (h.calling what began hw).2⟩
    · exact Nat.le_succ_of_le (h.draining what began error hw)
  | lock what =>
    obtain ⟨-, rfl⟩ := step_lock.mp hst
    exact ⟨h.sorted, h.queued, nofun, nofun⟩
  | begin =>
    obtain ⟨what, -, rfl⟩ := step_begin.mp hst
    refine ⟨h.sorted, h.queued, fun what' began hw => ?_, nofun⟩
    cases hw
    exact ⟨rfl, Nat.le_refl _⟩
  | succeed =>
    obtain ⟨-, rfl⟩ := step_succeed.mp hst
    exact ⟨h.sorted, h.queued, nofun, nofun⟩
  | panic =>
    rw [step_panic] at hst
    obtain ⟨-, rfl⟩ := step_succeed.mp hst
    exact ⟨h.sorted, h.queued, nofun, nofun⟩
  | fail error =>
    obtain ⟨what, began, hw, rfl⟩ := step_fail.mp hst
    refine ⟨h.sorted, h.queued, nofun, fun what' began' error' hw' => ?_⟩
    cases hw'
    exact (h.calling what began hw).2
  | poll served =>
    obtain ⟨⟨what, began, error, hw⟩, -, rfl⟩ := step_poll.mp hst
    refine ⟨h.sorted.sublist (List.drop_sublist served _), ?_, ?_, h.draining⟩
    · exact fun q hq => h.queued q (List.mem_of_mem_drop hq)
    · intro what' began' hw'
      cases hw.symm.trans hw'
  | report =>
    obtain ⟨what, began, error, -, rfl⟩ := step_report.mp hst
    exact ⟨h.sorted, h.queued, nofun, nofun⟩

/-! ## Fresh failures -/

/-- The reasons so far are their calls' own, and a drain can only come upon one of its own. -/
structure Owning (s : Pool) : Prop where
  ordered : Ordered s
  own : Own s
  fresh : ∀ what began error, s.holder = some ⟨what, .draining began error⟩ →
    NoStale s.client.queue began ∧ ∀ reason ∈ s.client.context.lastError, began ≤ reason.number

theorem owning_start : Owning {} := ⟨ordered_start, nofun, nofun⟩

theorem failures_of_step {e : Event} (hne : e ≠ .report) (hst : step s e = some t) :
    t.failures = s.failures := by
  cases e with
  | enqueue event =>
    cases hst
    rfl
  | lock what =>
    obtain ⟨-, rfl⟩ := step_lock.mp hst
    rfl
  | begin =>
    obtain ⟨what, -, rfl⟩ := step_begin.mp hst
    rfl
  | succeed =>
    obtain ⟨-, rfl⟩ := step_succeed.mp hst
    rfl
  | panic =>
    rw [step_panic] at hst
    obtain ⟨-, rfl⟩ := step_succeed.mp hst
    rfl
  | fail error =>
    obtain ⟨what, began, -, rfl⟩ := step_fail.mp hst
    rfl
  | poll served =>
    obtain ⟨-, -, rfl⟩ := step_poll.mp hst
    rfl
  | report => exact absurd rfl hne

/-- A report of a drain that has only come upon reasons of its own is one of them. -/
theorem Owning.report (h : Owning s) (hst : step s .report = some t) : Own t := by
  obtain ⟨what, began, error, hw, rfl⟩ := step_report.mp hst
  intro failure hf number hn
  rcases List.mem_append.mp hf with hf | hf
  · exact h.own failure hf number hn
  · cases List.mem_singleton.mp hf
    obtain ⟨reason, hreason, rfl⟩ := Option.map_eq_some_iff.mp hn
    exact (h.fresh what began error hw).2 reason hreason

/-- **A step that is fresh keeps reasons with their calls.** -/
theorem Owning.step {e : Event} (h : Owning s) (hfresh : Fresh s e) (hst : step s e = some t) :
    Owning t := by
  have hown : Own t := by
    by_cases he : e = .report
    · subst he
      exact h.report hst
    · rw [Own, failures_of_step he hst]
      exact h.own
  refine ⟨h.ordered.step hst, hown, fun what began error hw => ?_⟩
  cases e with
  | enqueue event =>
    cases hst
    obtain ⟨hstale, hslot⟩ := h.fresh what began error hw
    refine ⟨fun q hq herror => ?_, hslot⟩
    rcases List.mem_append.mp hq with hq | hq
    · exact hstale q hq herror
    · cases List.mem_singleton.mp hq
      exact h.ordered.draining what began error hw
  | lock what' =>
    obtain ⟨-, rfl⟩ := step_lock.mp hst
    cases hw
  | begin =>
    obtain ⟨what', -, rfl⟩ := step_begin.mp hst
    cases hw
  | succeed =>
    obtain ⟨-, rfl⟩ := step_succeed.mp hst
    cases hw
  | panic =>
    rw [step_panic] at hst
    obtain ⟨-, rfl⟩ := step_succeed.mp hst
    cases hw
  | fail error' =>
    obtain ⟨what', began', hcalling, rfl⟩ := step_fail.mp hst
    cases hw
    refine ⟨hfresh what began hcalling, fun reason hreason => ?_⟩
    have hnone := (h.ordered.calling what began hcalling).1
    cases hnone.symm.trans hreason
  | poll served =>
    obtain ⟨-, hnone, rfl⟩ := step_poll.mp hst
    obtain ⟨hstale, -⟩ := h.fresh what began error hw
    refine ⟨fun q hq => hstale q (List.mem_of_mem_drop hq), fun reason hreason => ?_⟩
    rcases lastError_foldl hreason with hslot | ⟨q, hq, herror, hnumber⟩
    · cases hnone.symm.trans hslot
    · rw [← hnumber]
      exact hstale q (List.mem_of_mem_take hq) herror
  | report =>
    obtain ⟨what', began', error', -, rfl⟩ := step_report.mp hst
    cases hw

/-! ## Failures that are not fresh -/

theorem poll_one {client : Client} {q : Queued} {queue : List Queued}
    (hq : client.queue = q :: queue) :
    client.poll 1 = { client with queue, context := client.context.serve q } := by
  rw [Client.poll, hq]
  rfl

/-- Serving the queue event by event comes upon its first error event, which is the oldest. -/
theorem exists_drain {queue : List Queued} (hq : s.client.queue = queue)
    (hsorted : queue.Pairwise fun p q => p.number < q.number) {what : String} {began : ℕ}
    {error : KafkaError} (hw : s.holder = some ⟨what, .draining began error⟩)
    (hnone : s.client.context.lastError = none) (herror : ∃ q ∈ queue, q.event.isError = true) :
    ∃ n t reason, run step s (List.replicate n (.poll 1)) = some t ∧ t.holder = s.holder ∧
      t.client.context.lastError = some reason ∧
      ∀ q ∈ queue, q.event.isError = true → reason.number ≤ q.number := by
  induction queue generalizing s with
  | nil =>
    obtain ⟨q, hmem, -⟩ := herror
    cases hmem
  | cons q queue ih =>
    have hpoll : step s (.poll 1) = some { s with client := s.client.poll 1 } :=
      step_poll.mpr ⟨⟨what, began, error, hw⟩, hnone, rfl⟩
    rw [poll_one hq] at hpoll
    rw [List.pairwise_cons] at hsorted
    cases hevent : q.event with
    | error text =>
      refine ⟨1, { s with client := { s.client with queue, context := s.client.context.serve q } },
        { text, number := q.number }, ?_, rfl, ?_, ?_⟩
      · rw [List.replicate_one, run_cons, hpoll]
        rfl
      · show (s.client.context.serve q).lastError = _
        rw [ClientErrorContext.serve, hevent]
      · intro p hp _
        rcases List.mem_cons.mp hp with rfl | hp
        · exact Nat.le_refl _
        · exact Nat.le_of_lt (hsorted.1 p hp)
    | other =>
      have hrest : ∃ p ∈ queue, p.event.isError = true := by
        obtain ⟨p, hp, he⟩ := herror
        rcases List.mem_cons.mp hp with rfl | hp
        · rw [hevent] at he
          cases he
        · exact ⟨p, hp, he⟩
      have hslot : (s.client.context.serve q).lastError = none := by
        rw [ClientErrorContext.serve, hevent]
        exact hnone
      obtain ⟨n, t, reason, hrun, hholder, hreason, holdest⟩ :=
        ih (s := { s with client := { s.client with queue, context := s.client.context.serve q } })
          rfl hsorted.2 hw hslot hrest
      refine ⟨n + 1, t, reason, ?_, hholder, hreason, fun p hp he => ?_⟩
      · rw [List.replicate_succ, run_cons, hpoll]
        exact hrun
      · rcases List.mem_cons.mp hp with rfl | hp
        · rw [hevent] at he
          cases he
        · exact holdest p hp he

/-- What the holder of the lock does once its call has failed. -/
def Drains (e : Event) : Prop := e = .report ∨ ∃ served, e = .poll served

/-- **A failure that is not fresh can report the reason of an earlier time.** -/
theorem exists_stale_report (h : Ordered s) {error : KafkaError}
    (hst : step s (.fail error) = some t) (hstale : ¬ Fresh s (.fail error)) :
    ∃ drain u, (∀ e ∈ drain, Drains e) ∧ run step s (.fail error :: drain) = some u ∧
      ¬ Own u := by
  obtain ⟨what, began, hcalling, rfl⟩ := step_fail.mp hst
  have hqueue : ∃ q ∈ s.client.queue, q.event.isError = true ∧ q.number < began := by
    by_contra hnot
    refine hstale fun what' began' hw q hq he => ?_
    cases hcalling.symm.trans hw
    by_contra hlt
    exact hnot ⟨q, hq, he, Nat.lt_of_not_le hlt⟩
  obtain ⟨q, hq, he, hlt⟩ := hqueue
  obtain ⟨n, u, reason, hrun, hholder, hreason, holdest⟩ :=
    exists_drain (s := { s with holder := some ⟨what, .draining began error⟩ }) rfl h.sorted rfl
      (h.calling what began hcalling).1 ⟨q, hq, he⟩
  obtain ⟨t, ht, hfailures⟩ : ∃ t, step u .report = some t ∧ t.failures = u.failures ++
      [⟨began, some reason.number,
        failureReport error (reasonOf u.client.context error) what⟩] := by
    refine ⟨_, step_report.mpr ⟨what, began, error, hholder, rfl⟩, ?_⟩
    rw [hreason]
    rfl
  refine ⟨List.replicate n (.poll 1) ++ [.report], t, ?_, ?_, fun hown => ?_⟩
  · intro e hmem
    rcases List.mem_append.mp hmem with hmem | hmem
    · exact .inr ⟨1, List.eq_of_mem_replicate hmem⟩
    · exact .inl (List.mem_singleton.mp hmem)
  · rw [run_cons, hst, Option.bind_some, run_snoc, hrun]
    exact ht
  · rw [Own, hfailures] at hown
    have hbegan := hown _ (List.mem_append_right _ (List.mem_singleton_self _)) reason.number rfl
    exact absurd (Nat.lt_of_le_of_lt (holdest q hq he) hlt) (Nat.not_lt.mpr hbegan)

theorem ordered_of_run (h : run step {} es = some s) : Ordered s :=
  run_invariant (fun _ _ _ hs hst => hs.step hst) ordered_start h

/-- **Main result.** In a run whose failures are all fresh, every reason that is reported from the slot
was queued after the call that reports it began. And after any run that has kept to that, every way to
drain the queue for a call that fails now keeps to it exactly when the failure is fresh. -/
theorem reasons_own (h : run step {} es = some s) :
    (AllSteps step Fresh {} es → Always step Own {} es) ∧
      ∀ error, Own s → (step s (.fail error)).isSome = true →
        ((∀ drain t, (∀ e ∈ drain, Drains e) → run step s (.fail error :: drain) = some t → Own t) ↔
          Fresh s (.fail error)) := by
  constructor
  · intro hfresh
    exact always_of_allSteps (fun _ _ _ hC hs hst => Owning.step hs hC hst) (fun _ hs => hs.own)
      hfresh owning_start
  · intro error hown hsome
    obtain ⟨u, hst⟩ := Option.isSome_iff_exists.mp hsome
    have hordered := ordered_of_run h
    constructor
    · intro hall
      by_contra hstale
      obtain ⟨drain, t, hdrain, hrun, hnot⟩ := exists_stale_report hordered hst hstale
      exact hnot (hall drain t hdrain hrun)
    · intro hfresh drain t hdrain hrun
      obtain ⟨what, began, hcalling, -⟩ := step_fail.mp hst
      have howning : Owning s := by
        refine ⟨hordered, hown, fun what' began' error' hw => ?_⟩
        cases hcalling.symm.trans hw
      rw [run_cons, hst, Option.bind_some] at hrun
      have hdrains : AllSteps step Fresh u drain := by
        refine (allSteps_of_mem hdrain).mono ?_
        rintro s e (rfl | ⟨served, rfl⟩)
        · exact trivial
        · exact trivial
      exact (run_induction (fun _ _ _ hC hs hst => Owning.step hs hC hst) hdrains
        (howning.step hfresh hst) hrun).own

/-! ## Two requests -/

/-- A request fails with two reasons, and only the first of them is looked at; then another one times
out. -/
def twoRequests : List Event :=
  [.lock "topics", .begin, .enqueue (.error "broker down"),
    .enqueue (.error "SASL authentication failed"), .fail ⟨none, "transport failure"⟩, .poll 1,
    .report, .lock "groups", .begin, .fail ⟨none, "timed out"⟩, .poll 1, .report]

/-- The reasons of the first request are its own. -/
theorem reasons_own_first : Always step Own {} (twoRequests.take 7) := by
  have hrun : (run step {} (twoRequests.take 7)).isSome = true := by decide +kernel
  refine (reasons_own (run_after step _ _ hrun)).1 ⟨trivial, ?_⟩
  rintro _ ⟨⟩
  refine ⟨trivial, ?_⟩
  rintro _ ⟨⟩
  refine ⟨trivial, ?_⟩
  rintro _ ⟨⟩
  refine ⟨trivial, ?_⟩
  rintro _ ⟨⟩
  refine ⟨fun what began hw q _ _ => ?_, ?_⟩
  · cases hw
    exact Nat.zero_le _
  · rintro _ ⟨⟩
    refine ⟨trivial, fun _ _ => ⟨trivial, fun _ _ => trivial⟩⟩

/-- **The second reason is reported as that of the other request, and as one about the credentials.** -/
theorem stale_reason :
    ∃ s, run step {} twoRequests = some s ∧
      s.failures = [⟨0, some 0, ⟨.kafka, ["topics: broker down"]⟩⟩,
        ⟨2, some 1, ⟨.authentication, ["groups: SASL authentication failed"]⟩⟩] ∧ ¬ Own s := by
  have hfailures : (run step {} twoRequests).map Pool.failures =
      some [⟨0, some 0, ⟨.kafka, ["topics: broker down"]⟩⟩,
        ⟨2, some 1, ⟨.authentication, ["groups: SASL authentication failed"]⟩⟩] := by
    decide +kernel
  obtain ⟨s, hs, hf⟩ := Option.map_eq_some_iff.mp hfailures
  refine ⟨s, hs, hf, fun h => ?_⟩
  rw [Own, hf] at h
  have := h _ (List.mem_cons_of_mem _ List.mem_cons_self) 1 rfl
  exact absurd this (by decide)

end OffsetExplorer.ObservedClient
