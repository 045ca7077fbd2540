import OffsetExplorer.Lib.Bursts
import OffsetExplorer.Stream.Once

/-!
# The forwarding task and the time

Without a cancellation, what `forward_in_batches` does is determined by when the messages are sent, and when
the sender is dropped. The task takes a message as soon as it is there; the timer of a batch that is not full
is started anew whenever the task begins to wait.

* `Schedule`: when the messages are sent.
* `Timed`, `forwardInBatches`: the task with the time of each `emit`; `forwardInBatches_run`: it is the task.
* **`emissions_eq`**: the batches are the groups of the schedule, and when each is emitted.
* `Prompt`: each message is emitted within an interval after the oldest of its batch has been sent.
* **`prompt_iff`**: the schedules whose messages are.
-/

namespace OffsetExplorer.Stream

open Machine

variable {M : Type}

/-! ## Schedules -/

/-- A message that is sent. Where it is due at the same time as a timer, either may come first. -/
structure Arrival (M : Type) where
  time : ℕ
  timerFirst : Bool
  message : M
  deriving DecidableEq

/-- Messages in the order in which they are sent, and when the sender is dropped. -/
structure Schedule (M : Type) where
  arrivals : List (Arrival M)
  ordered : arrivals.Pairwise fun a b => a.time ≤ b.time
  close : ℕ
  closed : ∀ a ∈ arrivals, a.time ≤ close

/-- A message comes before a timer that was started at `since`. -/
def Arrival.beats (batchInterval since : ℕ) (a : Arrival M) : Bool :=
  a.time < since + batchInterval || (a.time == since + batchInterval && !a.timerFirst)

/-! ## The task -/

/-- The task with a clock. -/
structure Timed (M : Type) where
  fwd : Forwarder (Arrival M) := {}
  /-- When the task last began to wait. -/
  since : ℕ := 0
  /-- The calls of `emit`, with their times. -/
  emissions : List (ℕ × List (Arrival M)) := []

namespace Timed

/-- The task goes on at a time, and waits again. -/
def advance (time : ℕ) (fwd : Forwarder (Arrival M)) (s : Timed M) : Timed M where
  fwd := fwd
  since := time
  emissions := s.emissions ++ (fwd.emits.drop s.fwd.emits.length).map fun batch => (time, batch)

/-- `Err(_elapsed)`. -/
def elapse (batchInterval : ℕ) (s : Timed M) : Timed M :=
  s.advance (s.since + batchInterval) s.fwd.emitBatch

/-- A message arrives before the timeout. -/
def receive (batchSize progressEvery : ℕ) (a : Arrival M) (s : Timed M) : Timed M :=
  s.advance a.time ((s.fwd.push (max batchSize 1) a).report progressEvery)

/-- An empty batch is awaited without a timeout. -/
def arrive (batchSize batchInterval progressEvery : ℕ) (s : Timed M) (a : Arrival M) : Timed M :=
  if s.fwd.batch.isEmpty || a.beats batchInterval s.since then s.receive batchSize progressEvery a
  else (s.elapse batchInterval).receive batchSize progressEvery a

/-- The sender is dropped. -/
def close (batchInterval time : ℕ) (s : Timed M) : Timed M :=
  let s := if s.fwd.batch.isEmpty || time ≤ s.since + batchInterval then s else s.elapse batchInterval
  s.advance time s.fwd.finish

end Timed

/-- The task over a schedule, up to the end of the channel. -/
def forwardInBatches (batchSize batchInterval progressEvery : ℕ) (schedule : Schedule M) : Timed M :=
  (schedule.arrivals.foldl (Timed.arrive batchSize batchInterval progressEvery) {}).close batchInterval
    schedule.close

/-! ## The batches -/

/-- A message is sent soon enough after the one before to find that one still waiting. -/
def joins (batchInterval : ℕ) (a b : Arrival M) : Bool := b.beats batchInterval a.time

/-- When a batch is emitted: as soon as it is full, or an interval after its last message, unless the sender is
dropped before. -/
def emitTime (batchSize batchInterval close : ℕ) (batch : List (Arrival M)) : ℕ :=
  let last := (batch.getLast?.map Arrival.time).getD 0
  if batch.length = max batchSize 1 then last else min (last + batchInterval) close

namespace Timed

theorem advance_emissions {time : ℕ} {fwd : Forwarder (Arrival M)} {s : Timed M} (more : List (List (Arrival M)))
    (h : fwd.emits = s.fwd.emits ++ more) :
    (s.advance time fwd).emissions = s.emissions ++ more.map fun batch => (time, batch) := by
  rw [advance, h, List.drop_left]

theorem elapse_emissions (batchInterval : ℕ) (s : Timed M) :
    (s.elapse batchInterval).emissions = s.emissions ++ [(s.since + batchInterval, s.fwd.batch)] :=
  advance_emissions [s.fwd.batch] rfl

theorem receive_of_room {batchSize : ℕ} {s : Timed M} (progressEvery : ℕ) (a : Arrival M)
    (h : s.fwd.batch.length + 1 < max batchSize 1) :
    (s.receive batchSize progressEvery a).fwd.batch = s.fwd.batch ++ [a] ∧
      (s.receive batchSize progressEvery a).emissions = s.emissions := by
  have hpush : s.fwd.push (max batchSize 1) a = { s.fwd with batch := s.fwd.batch ++ [a] } := by
    rw [Forwarder.push, if_neg]
    rw [List.length_append, List.length_singleton]
    exact Nat.not_le.mpr h
  constructor
  · rw [receive, advance, Forwarder.report_batch, hpush]
  · rw [receive, advance_emissions [] (by rw [Forwarder.report_emits, hpush, List.append_nil])]
    exact List.append_nil _

theorem receive_of_full {batchSize : ℕ} {s : Timed M} (progressEvery : ℕ) (a : Arrival M)
    (h : s.fwd.batch.length + 1 = max batchSize 1) :
    (s.receive batchSize progressEvery a).fwd.batch = [] ∧
      (s.receive batchSize progressEvery a).emissions = s.emissions ++ [(a.time, s.fwd.batch ++ [a])] := by
  have hpush : s.fwd.push (max batchSize 1) a =
      Forwarder.emitBatch { s.fwd with batch := s.fwd.batch ++ [a] } := by
    rw [Forwarder.push, if_pos]
    rw [List.length_append, List.length_singleton]
    exact Nat.le_of_eq h.symm
  constructor
  · rw [receive, advance, Forwarder.report_batch, hpush]
    rfl
  · refine advance_emissions [s.fwd.batch ++ [a]] ?_
    rw [Forwarder.report_emits, hpush]
    rfl

theorem finish_emissions (time : ℕ) (s : Timed M) :
    (s.advance time s.fwd.finish).emissions =
      if s.fwd.batch = [] then s.emissions else s.emissions ++ [(time, s.fwd.batch)] := by
  split_ifs with h
  · rw [advance_emissions [] (by simp [Forwarder.finish, h])]
    exact List.append_nil _
  · exact advance_emissions [s.fwd.batch] (by simp [Forwarder.finish, h])

/-- What is known of a batch that waits: its messages join one another, and the timer was started at the last. -/
structure Waits (batchSize batchInterval : ℕ) (s : Timed M) : Prop where
  room : s.fwd.batch.length < max batchSize 1
  chain : s.fwd.batch.IsChain fun a b => joins batchInterval a b
  since : ∀ a ∈ s.fwd.batch.getLast?, a.time = s.since

theorem waits_of_empty {batchSize batchInterval : ℕ} {s : Timed M} (h : s.fwd.batch = []) :
    Waits batchSize batchInterval s := by
  refine ⟨?_, ?_, ?_⟩ <;> rw [h]
  · exact Nat.lt_of_lt_of_le Nat.one_pos (Nat.le_max_right _ _)
  · exact List.isChain_nil
  · exact fun _ => nofun

end Timed

section

variable {batchSize batchInterval : ℕ} {s : Timed M}

/-- The groups of a schedule with their times. -/
def timedGroups (batchSize batchInterval close : ℕ) (arrivals : List (Arrival M)) :
    List (ℕ × List (Arrival M)) :=
  (Chunks.groups (max batchSize 1) (joins batchInterval) arrivals).map fun batch =>
    (emitTime batchSize batchInterval close batch, batch)

theorem emitTime_of_full {close : ℕ} {batch : List (Arrival M)} {a : Arrival M}
    (h : batch.length + 1 = max batchSize 1) :
    emitTime batchSize batchInterval close (batch ++ [a]) = a.time := by
  rw [emitTime, if_pos (by rw [List.length_append, List.length_singleton, h])]
  simp

theorem emitTime_of_room {close time : ℕ} {batch : List (Arrival M)} (h : batch.length < max batchSize 1)
    (hne : batch ≠ []) (hlast : ∀ a ∈ batch.getLast?, a.time = time) :
    emitTime batchSize batchInterval close batch = min (time + batchInterval) close := by
  rw [emitTime, if_neg (Nat.ne_of_lt h), List.getLast?_eq_some_getLast hne, Option.map_some, Option.getD_some,
    hlast _ (List.getLast?_eq_some_getLast hne)]

theorem receive_timedGroups (h : s.Waits batchSize batchInterval) {a : Arrival M}
    (hjoin : ∀ b ∈ s.fwd.batch.getLast?, joins batchInterval b a = true) (progressEvery close : ℕ)
    (rest : List (Arrival M)) :
    (s.receive batchSize progressEvery a).Waits batchSize batchInterval ∧
      s.emissions ++ timedGroups batchSize batchInterval close (s.fwd.batch ++ a :: rest) =
        (s.receive batchSize progressEvery a).emissions ++ timedGroups batchSize batchInterval close
          ((s.receive batchSize progressEvery a).fwd.batch ++ rest) := by
  have hchain : (s.fwd.batch ++ [a]).IsChain fun a b => joins batchInterval a b := by
    refine List.isChain_append.mpr ⟨h.chain, List.isChain_singleton a, fun b hb x hx => ?_⟩
    cases hx
    exact hjoin b hb
  have hroom := h.room
  by_cases hfull : s.fwd.batch.length + 1 = max batchSize 1
  · obtain ⟨hbatch, hemissions⟩ := Timed.receive_of_full progressEvery a hfull
    refine ⟨Timed.waits_of_empty hbatch, ?_⟩
    rw [hbatch, hemissions, List.nil_append, List.append_cons, timedGroups,
      Chunks.groups_append_of_full (by omega) hchain (by simpa using hfull), List.map_cons, emitTime_of_full hfull]
    simp [timedGroups]
  · have hmore : s.fwd.batch.length + 1 < max batchSize 1 := by omega
    obtain ⟨hbatch, hemissions⟩ := Timed.receive_of_room progressEvery a hmore
    refine ⟨⟨?_, hbatch ▸ hchain, fun b hb => ?_⟩, ?_⟩
    · rw [hbatch, List.length_append, List.length_singleton]
      omega
    · rw [hbatch, List.getLast?_append, List.getLast?_singleton, Option.some_or, Option.mem_some_iff] at hb
      rw [← hb]
      rfl
    · rw [hbatch, hemissions, List.append_assoc, List.singleton_append]

/-- The batch that waits is the last, when its time is over or the sender is dropped. -/
theorem close_emissions_of_waits {close : ℕ} (h : s.Waits batchSize batchInterval) :
    (s.close batchInterval close).emissions =
      s.emissions ++ timedGroups batchSize batchInterval close s.fwd.batch := by
  rw [Timed.close]
  by_cases hempty : s.fwd.batch = []
  · rw [hempty, List.isEmpty_nil, Bool.true_or, if_pos rfl, Timed.finish_emissions, if_pos hempty]
    exact (List.append_nil _).symm
  have hgroups : timedGroups batchSize batchInterval close s.fwd.batch =
      [(min (s.since + batchInterval) close, s.fwd.batch)] := by
    rw [timedGroups, Chunks.groups_of_partial hempty h.chain (Nat.le_of_lt h.room), List.map_singleton,
      emitTime_of_room h.room hempty h.since]
  rw [hgroups]
  by_cases hclose : close ≤ s.since + batchInterval
  · rw [if_pos (by simp [hclose]), Timed.finish_emissions, if_neg hempty, Nat.min_eq_right hclose]
  · have hbatch : (s.elapse batchInterval).fwd.batch = [] := rfl
    rw [if_neg (by simp [hclose, hempty]), Timed.finish_emissions, if_pos hbatch, Timed.elapse_emissions,
      Nat.min_eq_left (Nat.le_of_not_le hclose)]

/-- **The emissions from a batch that waits** are the groups of that batch and the rest. -/
theorem close_emissions (progressEvery : ℕ) {close : ℕ} {rest : List (Arrival M)} (h : s.Waits batchSize batchInterval)
    (hclosed : ∀ a ∈ rest, a.time ≤ close) :
    ((rest.foldl (Timed.arrive batchSize batchInterval progressEvery) s).close batchInterval close).emissions =
      s.emissions ++ timedGroups batchSize batchInterval close (s.fwd.batch ++ rest) := by
  induction rest generalizing s with
  | nil =>
    rw [List.foldl_nil, List.append_nil]
    exact close_emissions_of_waits h
  | cons a rest ih =>
    rw [List.foldl_cons]
    have hrest : ∀ b ∈ rest, b.time ≤ close := fun b hb => hclosed b (List.mem_cons_of_mem a hb)
    by_cases hbeats : (s.fwd.batch.isEmpty || a.beats batchInterval s.since) = true
    · -- the batch is empty, or the message joins it
      have hjoin : ∀ b ∈ s.fwd.batch.getLast?, joins batchInterval b a = true := by
        intro b hb
        rcases Bool.or_eq_true_iff.mp hbeats with hempty | hbeats
        · rw [List.isEmpty_iff.mp hempty] at hb
          cases hb
        · rwa [joins, h.since b hb]
      obtain ⟨hwaits, hgroups⟩ := receive_timedGroups h hjoin progressEvery close rest
      rw [hgroups, Timed.arrive, if_pos hbeats]
      exact ih hwaits hrest
    · -- the timer comes first
      rw [Timed.arrive, if_neg hbeats]
      rw [Bool.or_eq_true_iff, not_or] at hbeats
      have hne : s.fwd.batch ≠ [] := fun hempty => hbeats.1 (List.isEmpty_iff.mpr hempty)
      have hlate : s.since + batchInterval ≤ a.time := by
        by_contra hlt
        exact hbeats.2 (by simp [Arrival.beats, Nat.not_le.mp hlt])
      have hgap : ∀ b ∈ s.fwd.batch.getLast?, joins batchInterval b a = false := by
        intro b hb
        rw [joins, h.since b hb]
        exact eq_false_of_ne_true hbeats.2
      have hempty : (s.elapse batchInterval).Waits batchSize batchInterval := Timed.waits_of_empty rfl
      obtain ⟨hwaits, hgroups⟩ := receive_timedGroups hempty (fun _ => nofun) progressEvery close rest
      have hfirst : timedGroups batchSize batchInterval close (s.fwd.batch ++ a :: rest) =
          (s.since + batchInterval, s.fwd.batch) :: timedGroups batchSize batchInterval close (a :: rest) := by
        rw [timedGroups, Chunks.groups_append_of_gap hne h.chain (Nat.le_of_lt h.room) hgap, List.map_cons,
          emitTime_of_room h.room hne h.since,
          Nat.min_eq_left (hlate.trans (hclosed a List.mem_cons_self))]
        rfl
      rw [ih hwaits hrest, ← hgroups, hfirst, Timed.elapse_emissions, List.append_assoc]
      rfl

/-- **The batches are the groups of the schedule**, each emitted at its time. -/
theorem emissions_eq (batchSize batchInterval progressEvery : ℕ) (schedule : Schedule M) :
    (forwardInBatches batchSize batchInterval progressEvery schedule).emissions =
      timedGroups batchSize batchInterval schedule.close schedule.arrivals :=
  close_emissions progressEvery (Timed.waits_of_empty rfl) schedule.closed

/-! ## How long a message is held -/

/-- Every message is emitted, no later than an interval after the oldest one in its batch was sent. -/
def Prompt (batchInterval : ℕ) (schedule : Schedule M) (emissions : List (ℕ × List (Arrival M))) : Prop :=
  (emissions.map Prod.snd).flatten = schedule.arrivals ∧
    ∀ emission ∈ emissions, ∀ a ∈ emission.2, emission.1 ≤ a.time + batchInterval

/-- The messages of a full group are sent within an interval. Those of another group are sent at one time, or the
sender is dropped within an interval after the first. -/
def WithinInterval (batchSize batchInterval close : ℕ) (batch : List (Arrival M)) : Prop :=
  if batch.length = max batchSize 1 then ∀ a ∈ batch, ∀ b ∈ batch, b.time ≤ a.time + batchInterval
  else (∀ a ∈ batch, ∀ b ∈ batch, b.time = a.time) ∨ ∀ a ∈ batch, close ≤ a.time + batchInterval

theorem emitTime_le_iff {close : ℕ} {batch : List (Arrival M)}
    (hordered : batch.Pairwise fun a b => a.time ≤ b.time) :
    (∀ a ∈ batch, emitTime batchSize batchInterval close batch ≤ a.time + batchInterval) ↔
      WithinInterval batchSize batchInterval close batch := by
  rcases List.eq_nil_or_concat batch with rfl | ⟨init, last, rfl⟩
  · exact iff_of_true (List.forall_mem_nil _) (by simp [WithinInterval])
  rw [List.concat_eq_append] at hordered ⊢
  have hlast : ∀ a ∈ init ++ [last], a.time ≤ last.time := by
    intro a ha
    rcases List.mem_append.mp ha with ha | ha
    · exact (List.pairwise_append.mp hordered).2.2 a ha last (List.mem_singleton_self last)
    · rw [List.mem_singleton.mp ha]
  have hmem : last ∈ init ++ [last] := List.mem_append_right init (List.mem_singleton_self last)
  rw [WithinInterval]
  by_cases hfull : (init ++ [last]).length = max batchSize 1
  · rw [if_pos hfull, emitTime_of_full (by simpa using hfull)]
    constructor
    · intro h a ha b hb
      exact (hlast b hb).trans (h a ha)
    · intro h a ha
      exact h a ha last hmem
  · have htime : emitTime batchSize batchInterval close (init ++ [last]) =
        min (last.time + batchInterval) close := by
      rw [emitTime, if_neg hfull, List.getLast?_append, List.getLast?_singleton]
      rfl
    rw [if_neg hfull, htime]
    constructor
    · intro h
      by_cases hsame : ∀ a ∈ init ++ [last], last.time ≤ a.time
      · refine .inl fun a ha b hb => ?_
        have hlastA := hlast a ha
        have hlastB := hlast b hb
        have hsameA := hsame a ha
        have hsameB := hsame b hb
        omega
      · -- one is older than the last, so that the sender is dropped in time for it
        push Not at hsame
        obtain ⟨old, hold, hlt⟩ := hsame
        refine .inr fun a ha => ?_
        have htimeOld := h old hold
        have htimeA := h a ha
        omega
    · rintro (hsame | hclose) a ha
      · rw [hsame a ha last hmem]
        exact Nat.min_le_left _ _
      · exact (Nat.min_le_right _ _).trans (hclose a ha)

/-- **No message is held longer than an interval** exactly where the messages of each group are sent within one,
or the sender is dropped in time. -/
theorem prompt_iff (batchSize batchInterval progressEvery : ℕ) (schedule : Schedule M) :
    Prompt batchInterval schedule
        (forwardInBatches batchSize batchInterval progressEvery schedule).emissions ↔
      ∀ batch ∈ Chunks.groups (max batchSize 1) (joins batchInterval) schedule.arrivals,
        WithinInterval batchSize batchInterval schedule.close batch := by
  have hall : ((timedGroups batchSize batchInterval schedule.close schedule.arrivals).map Prod.snd).flatten =
      schedule.arrivals := by
    rw [timedGroups, List.map_map]
    exact (congrArg List.flatten (List.map_id _)).trans (Chunks.flatten_groups _ _ _)
  rw [Prompt, emissions_eq, and_iff_right hall, timedGroups, List.forall_mem_map]
  refine forall₂_congr fun batch hbatch => emitTime_le_iff (schedule.ordered.sublist ?_)
  rw [← Chunks.flatten_groups (max batchSize 1) (joins batchInterval) schedule.arrivals]
  exact List.sublist_flatten_of_mem hbatch

/-- Two messages, the second before the timer of the first. -/
def trickle : Schedule Unit where
  arrivals := [⟨0, false, ()⟩, ⟨60, false, ()⟩]
  ordered := by decide
  close := 1000
  closed := by decide

/-- The first one waits 160 ms where the interval is 100 ms. -/
theorem trickle_not_prompt :
    ¬ Prompt 100 trickle (forwardInBatches 100 100 100 trickle).emissions := by
  unfold Prompt
  decide +kernel

end

/-! ## The task does this -/

/-- The task waits, with nothing in the channel. -/
def waiting (collected : List (Arrival M)) (fwd : Forwarder (Arrival M)) : State (Arrival M) :=
  { collected, fwd }

section

variable (batchSize batchInterval progressEvery : ℕ) (s : Timed M) (collected : List (Arrival M))

theorem receive_run (a : Arrival M) :
    run (step batchSize progressEvery) (waiting collected s.fwd) [.send a, .recv, .forward] =
      some (waiting (collected ++ [a]) (s.receive batchSize progressEvery a).fwd) := rfl

theorem elapse_run (h : s.fwd.batch ≠ []) :
    step batchSize progressEvery (waiting collected s.fwd) .elapsed =
      some (waiting collected (s.elapse batchInterval).fwd) :=
  if_neg (by rwa [List.isEmpty_iff])

theorem arrive_run (a : Arrival M) : ∃ es, .cancel ∉ es ∧ sentBy es = [a] ∧
    run (step batchSize progressEvery) (waiting collected s.fwd) es =
      some (waiting (collected ++ [a]) (s.arrive batchSize batchInterval progressEvery a).fwd) := by
  by_cases h : (s.fwd.batch.isEmpty || a.beats batchInterval s.since) = true
  · refine ⟨[.send a, .recv, .forward], by simp, rfl, ?_⟩
    rw [Timed.arrive, if_pos h]
    exact receive_run batchSize progressEvery s collected a
  · refine ⟨[.elapsed, .send a, .recv, .forward], by simp, rfl, ?_⟩
    have hne : s.fwd.batch ≠ [] := by
      intro hempty
      rw [hempty] at h
      exact h rfl
    rw [Timed.arrive, if_neg h, run_cons, elapse_run batchSize batchInterval progressEvery s collected hne,
      Option.bind_some]
    exact receive_run batchSize progressEvery (s.elapse batchInterval) collected a

theorem arrivals_run (arrivals : List (Arrival M)) : ∃ es, .cancel ∉ es ∧ sentBy es = arrivals ∧
    run (step batchSize progressEvery) (waiting collected s.fwd) es =
      some (waiting (collected ++ arrivals)
        (arrivals.foldl (Timed.arrive batchSize batchInterval progressEvery) s).fwd) := by
  induction arrivals generalizing s collected with
  | nil => exact ⟨[], by simp, rfl, by rw [List.append_nil]; rfl⟩
  | cons a arrivals ih =>
    obtain ⟨first, hfirst, hsent, hrun⟩ := arrive_run batchSize batchInterval progressEvery s collected a
    obtain ⟨es, hes, hrest, hruns⟩ := ih (s.arrive batchSize batchInterval progressEvery a) (collected ++ [a])
    refine ⟨first ++ es, ?_, ?_, ?_⟩
    · rw [List.mem_append, not_or]
      exact ⟨hfirst, hes⟩
    · rw [sentBy, List.filterMap_append]
      exact congrArg₂ _ hsent hrest
    · rw [run_append, hrun, Option.bind_some, hruns, List.append_assoc]
      rfl

theorem drop_run : ∃ t, run (step batchSize progressEvery) (waiting collected s.fwd) [.dropSender, .recv] = some t ∧
    t.pc.isReturned = true ∧ t.fwd = s.fwd.finish :=
  ⟨_, rfl, rfl, rfl⟩

theorem close_run (time : ℕ) : ∃ es t, .cancel ∉ es ∧ sentBy es = [] ∧
    run (step batchSize progressEvery) (waiting collected s.fwd) es = some t ∧ t.pc.isReturned = true ∧
      t.fwd = (s.close batchInterval time).fwd := by
  by_cases h : (s.fwd.batch.isEmpty || decide (time ≤ s.since + batchInterval)) = true
  · obtain ⟨t, hrun, hreturned, hfwd⟩ := drop_run batchSize progressEvery s collected
    refine ⟨[.dropSender, .recv], t, by simp, rfl, hrun, hreturned, ?_⟩
    rw [Timed.close, if_pos h]
    exact hfwd
  · have hne : s.fwd.batch ≠ [] := by
      intro hempty
      rw [hempty] at h
      exact h rfl
    obtain ⟨t, hrun, hreturned, hfwd⟩ := drop_run batchSize progressEvery (s.elapse batchInterval) collected
    refine ⟨[.elapsed, .dropSender, .recv], t, by simp, rfl, ?_, hreturned, ?_⟩
    · rw [run_cons, elapse_run batchSize batchInterval progressEvery s collected hne, Option.bind_some]
      exact hrun
    · rw [Timed.close, if_neg h]
      exact hfwd

end

/-- **It is a run of the task** without a cancellation, in which it returns. -/
theorem forwardInBatches_run (batchSize batchInterval progressEvery : ℕ) (schedule : Schedule M) :
    ∃ es t, .cancel ∉ es ∧ sentBy es = schedule.arrivals ∧
      run (step batchSize progressEvery) {} es = some t ∧ t.pc.isReturned = true ∧
      t.fwd = (forwardInBatches batchSize batchInterval progressEvery schedule).fwd := by
  obtain ⟨es, hes, hsent, hrun⟩ :=
    arrivals_run batchSize batchInterval progressEvery ({} : Timed M) [] schedule.arrivals
  obtain ⟨fs, t, hfs, hnone, hclose, hreturned, hfwd⟩ :=
    close_run batchSize batchInterval progressEvery
      (schedule.arrivals.foldl (Timed.arrive batchSize batchInterval progressEvery) {})
      ([] ++ schedule.arrivals) schedule.close
  refine ⟨es ++ fs, t, ?_, ?_, ?_, hreturned, hfwd⟩
  · rw [List.mem_append, not_or]
    exact ⟨hes, hfs⟩
  · rw [sentBy, List.filterMap_append]
    exact (congrArg₂ _ hsent hnone).trans (List.append_nil _)
  · have hwait : run (step batchSize progressEvery) {} es = _ := hrun
    rw [run_append, hwait]
    exact hclose

end OffsetExplorer.Stream
