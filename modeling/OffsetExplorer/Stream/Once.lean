import OffsetExplorer.Stream.Forward

/-!
# A streamed fetch delivers every message exactly once

* `Forwarder.Ok`: the count is right and no emitted batch is empty or too large.
* `Accounted`: what the poll loop has collected is what was emitted, then the batch, then what
  the task holds, then the channel; once the task has returned, what was emitted is a prefix.
* `step_inv`, **`streamed_then_response`**: emitted batches and response make up the list.
* **`forwarder_returns`**: once the sender is gone the task returns, however its steps fall.
-/

namespace OffsetExplorer.Stream

open Machine

variable {M : Type}

namespace Forwarder

/-- The running count counts the emitted messages, and every emitted batch has a legal size. -/
structure Ok (n : ℕ) (f : Forwarder M) : Prop where
  emitted_eq : f.emitted = f.emits.flatten.length
  sizes : ∀ b ∈ f.emits, b ≠ [] ∧ b.length ≤ n

/-- Emitted and buffered messages, in order. -/
def seen (f : Forwarder M) : List M := f.emits.flatten ++ f.batch

@[simp] theorem emitBatch_batch (f : Forwarder M) : f.emitBatch.batch = [] := rfl

theorem seen_emitBatch (f : Forwarder M) : f.emitBatch.seen = f.seen := by
  simp [seen, emitBatch]

theorem Ok.emitBatch {n : ℕ} {f : Forwarder M} (hf : f.Ok n) (hne : f.batch ≠ [])
    (hle : f.batch.length ≤ n) : f.emitBatch.Ok n := by
  refine ⟨?_, fun b hb => ?_⟩
  · simp [Forwarder.emitBatch, hf.emitted_eq]
  · rcases List.mem_append.mp hb with hb | hb
    · exact hf.sizes b hb
    · rw [List.mem_singleton.mp hb]
      exact ⟨hne, hle⟩

theorem seen_push (n : ℕ) (m : M) (f : Forwarder M) : (f.push n m).seen = f.seen ++ [m] := by
  simp only [push]
  split_ifs
  · rw [seen_emitBatch]
    simp [seen]
  · simp [seen]

theorem Ok.push {n : ℕ} (hn : 0 < n) {f : Forwarder M} (hf : f.Ok n) (hroom : f.batch.length < n)
    (m : M) : (f.push n m).Ok n ∧ (f.push n m).batch.length < n := by
  have hlen : (f.batch ++ [m]).length = f.batch.length + 1 := by simp
  simp only [Forwarder.push]
  split_ifs with h
  · exact ⟨Ok.emitBatch (f := { f with batch := f.batch ++ [m] }) ⟨hf.emitted_eq, hf.sizes⟩
      (by simp) (by simp only [hlen]; omega), hn⟩
  · exact ⟨⟨hf.emitted_eq, hf.sizes⟩, Nat.lt_of_not_le h⟩

@[simp] theorem report_emits (n : ℕ) (f : Forwarder M) : (f.report n).emits = f.emits := by
  simp only [report]; split_ifs <;> rfl

@[simp] theorem report_batch (n : ℕ) (f : Forwarder M) : (f.report n).batch = f.batch := by
  simp only [report]; split_ifs <;> rfl

@[simp] theorem report_emitted (n : ℕ) (f : Forwarder M) : (f.report n).emitted = f.emitted := by
  simp only [report]; split_ifs <;> rfl

theorem Ok.report {n : ℕ} {f : Forwarder M} (hf : f.Ok n) (k : ℕ) : (f.report k).Ok n :=
  ⟨by simpa using hf.emitted_eq, by simpa using hf.sizes⟩

theorem emits_finish (f : Forwarder M) : f.finish.emits.flatten = f.seen := by
  cases h : f.batch with
  | nil => simp [finish, seen, h]
  | cons m b => simp [finish, seen, h]

theorem Ok.finish {n : ℕ} {f : Forwarder M} (hf : f.Ok n) (hroom : f.batch.length < n) :
    f.finish.Ok n := by
  refine ⟨?_, fun b hb => ?_⟩
  · rw [emits_finish, seen, List.length_append, ← hf.emitted_eq]
    simp only [Forwarder.finish]
    split_ifs <;> rfl
  · by_cases he : f.batch = []
    · exact hf.sizes b (by simpa [Forwarder.finish, he] using hb)
    · have hb : b ∈ f.emits ∨ b = f.batch := by simpa [Forwarder.finish, he] using hb
      rcases hb with hb | rfl
      · exact hf.sizes b hb
      · exact ⟨he, Nat.le_of_lt hroom⟩

end Forwarder

/-- Where every collected message is, depending on where the task stands. -/
def Accounted (s : State M) : Prop :=
  match s.pc with
  | .receiving => s.collected = s.fwd.seen ++ s.queue
  | .received m => s.collected = s.fwd.seen ++ m :: s.queue
  | .returned k => k = s.fwd.emitted ∧ s.fwd.emits.flatten <+: s.collected

/-- The invariant of a streamed fetch with (shadowed) batch size `n`. -/
structure Inv (n : ℕ) (s : State M) : Prop where
  ok : s.fwd.Ok n
  room : s.pc.isReturned = false → s.fwd.batch.length < n
  accounted : Accounted s

theorem init_inv {n : ℕ} (hn : 0 < n) : Inv n ({} : State M) :=
  ⟨⟨rfl, by simp⟩, fun _ => hn, rfl⟩

theorem accounted_send {s : State M} (h : Accounted s) (m : M) :
    Accounted { s with
      collected := s.collected ++ [m]
      queue := if s.pc.isReturned then s.queue else s.queue ++ [m] } := by
  unfold Accounted at h ⊢
  cases hpc : s.pc with
  | receiving => simp_all [Pc.isReturned]
  | received m' => simp_all [Pc.isReturned]
  | returned k =>
    simp only [hpc] at h ⊢
    exact ⟨h.1, h.2.trans (List.prefix_append _ _)⟩

/-- **One step keeps the invariant.** -/
theorem step_inv {batchSize progressEvery : ℕ} {s t : State M} {e : Event M}
    (hs : Inv (max batchSize 1) s) (h : step batchSize progressEvery s e = some t) :
    Inv (max batchSize 1) t := by
  have hn : 0 < max batchSize 1 := by omega
  obtain ⟨hok, hroom, hacc⟩ := hs
  cases e with
  | send m =>
    simp only [step, Option.ite_none_left_eq_some, Option.some.injEq] at h
    obtain ⟨_, rfl⟩ := h
    exact ⟨hok, hroom, accounted_send hacc m⟩
  | dropSender => cases h; exact ⟨hok, hroom, hacc⟩
  | cancel => cases h; exact ⟨hok, hroom, hacc⟩
  | recv =>
    rcases s with ⟨col, dropped, queue, canc, pc, f⟩
    cases pc with
    | received m => cases h
    | returned k => cases h
    | receiving =>
      cases queue with
      | cons m queue => cases h; exact ⟨hok, fun _ => hroom rfl, hacc⟩
      | nil =>
        simp only [step, Option.ite_none_right_eq_some, Option.some.injEq] at h
        obtain ⟨_, rfl⟩ := h
        refine ⟨hok.finish (hroom rfl), by simp [Pc.isReturned], rfl, ?_⟩
        have : col = f.seen ++ [] := hacc
        simp only [f.emits_finish, this, List.append_nil, List.prefix_refl]
  | elapsed =>
    rcases s with ⟨col, dropped, queue, canc, pc, f⟩
    cases pc with
    | received m => cases h
    | returned k => cases h
    | receiving =>
      simp only [step, Option.ite_none_left_eq_some, Option.some.injEq] at h
      obtain ⟨hne, rfl⟩ := h
      have hlt := hroom rfl
      refine ⟨hok.emitBatch (by simpa using hne) (Nat.le_of_lt hlt), fun _ => hn, ?_⟩
      have : col = f.seen ++ queue := hacc
      simpa only [Accounted, f.seen_emitBatch] using this
  | forward =>
    rcases s with ⟨col, dropped, queue, canc, pc, f⟩
    cases pc with
    | receiving => cases h
    | returned k => cases h
    | received m =>
      have hcol : col = f.seen ++ m :: queue := hacc
      cases canc with
      | true =>
        cases h
        refine ⟨hok, by simp [Pc.isReturned], rfl, ?_⟩
        rw [hcol, Forwarder.seen, List.append_assoc]
        exact List.prefix_append _ _
      | false =>
        cases h
        obtain ⟨hok', hlt⟩ := hok.push hn (hroom rfl) m
        refine ⟨hok'.report _, fun _ => by simpa using hlt, ?_⟩
        have hseen : ((f.push (max batchSize 1) m).report progressEvery).seen = f.seen ++ [m] := by
          rw [← f.seen_push (max batchSize 1) m]
          simp [Forwarder.seen]
        simp only [Accounted, hseen, hcol, List.append_assoc, List.singleton_append]

theorem step_collected {batchSize progressEvery : ℕ} {s t : State M} {e : Event M}
    (h : step batchSize progressEvery s e = some t) :
    t.collected = s.collected ++ sentBy [e] := by
  rcases s with ⟨col, dropped, queue, canc, pc, f⟩
  cases e with
  | send m =>
    simp only [step, Option.ite_none_left_eq_some, Option.some.injEq] at h
    rw [← h.2]
    rfl
  | dropSender => cases h; simp [sentBy]
  | cancel => cases h; simp [sentBy]
  | recv =>
    cases pc with
    | receiving =>
      cases queue with
      | cons m queue => cases h; simp [sentBy]
      | nil =>
        simp only [step, Option.ite_none_right_eq_some, Option.some.injEq] at h
        simp [← h.2, sentBy]
    | received m => cases h
    | returned k => cases h
  | elapsed =>
    cases pc with
    | receiving =>
      simp only [step, Option.ite_none_left_eq_some, Option.some.injEq] at h
      simp [← h.2, sentBy]
    | received m => cases h
    | returned k => cases h
  | forward =>
    cases pc with
    | receiving => cases h
    | returned k => cases h
    | received m => cases canc <;> cases h <;> simp [sentBy]

theorem collected_eq {batchSize progressEvery : ℕ} {s t : State M} {es : List (Event M)}
    (h : run (step batchSize progressEvery) s es = some t) :
    t.collected = s.collected ++ sentBy es := by
  induction es generalizing s with
  | nil => cases h; simp [sentBy]
  | cons e es ih =>
    obtain ⟨u, hu, hr⟩ := run_cons_some _ h
    rw [ih hr, step_collected hu, List.append_assoc, sentBy, sentBy, ← List.filterMap_append]
    rfl

theorem append_responseMessages {l messages : List M} (h : l <+: messages) :
    l ++ responseMessages l.length messages = messages := by
  obtain ⟨rest, rfl⟩ := h
  simp [responseMessages]

theorem returned_spec {batchSize progressEvery k : ℕ} {s : State M} {es : List (Event M)}
    (h : run (step batchSize progressEvery) {} es = some s) (hpc : s.pc = .returned k) :
    s.fwd.emits.flatten ++ responseMessages k (sentBy es) = sentBy es ∧
      (∀ b ∈ s.fwd.emits, b ≠ [] ∧ b.length ≤ max batchSize 1) ∧
      k = s.fwd.emits.flatten.length := by
  have hinv : Inv (max batchSize 1) s :=
    run_invariant (fun s e t hs ht => step_inv hs ht) (init_inv (by omega)) h
  have hacc := hinv.accounted
  simp only [Accounted, hpc] at hacc
  obtain ⟨rfl, hstart⟩ := hacc
  rw [collected_eq h, List.nil_append] at hstart
  refine ⟨?_, hinv.ok.sizes, hinv.ok.emitted_eq⟩
  rw [hinv.ok.emitted_eq]
  exact append_responseMessages hstart

/-! ## The task returns -/

/-- The steps that are the task's own. -/
def Event.isForwarder : Event M → Bool
  | .recv | .elapsed | .forward => true
  | _ => false

/-- How many more steps the task can take once the sender is gone. -/
def stepsLeft (s : State M) : ℕ :=
  match s.pc with
  | .receiving => 3 * s.queue.length + (if s.fwd.batch.isEmpty then 0 else 1) + 1
  | .received _ => 3 * s.queue.length + 3
  | .returned _ => 0

theorem stepsLeft_lt {batchSize progressEvery : ℕ} {s t : State M} {e : Event M}
    (he : e.isForwarder) (hd : s.senderDropped) (h : step batchSize progressEvery s e = some t) :
    t.senderDropped ∧ stepsLeft t < stepsLeft s := by
  rcases s with ⟨col, dropped, queue, canc, pc, f⟩
  cases e with
  | send m => cases he
  | dropSender => cases he
  | cancel => cases he
  | recv =>
    cases pc with
    | received m => cases h
    | returned k => cases h
    | receiving =>
      cases queue with
      | cons m queue =>
        cases h
        refine ⟨hd, ?_⟩
        simp only [stepsLeft, List.length_cons]
        omega
      | nil =>
        simp only [step, Option.ite_none_right_eq_some, Option.some.injEq] at h
        obtain ⟨_, rfl⟩ := h
        exact ⟨hd, by simp [stepsLeft]⟩
  | elapsed =>
    cases pc with
    | received m => cases h
    | returned k => cases h
    | receiving =>
      simp only [step, Option.ite_none_left_eq_some, Option.some.injEq] at h
      obtain ⟨hne, rfl⟩ := h
      refine ⟨hd, ?_⟩
      simp [stepsLeft, hne]
  | forward =>
    cases pc with
    | receiving => cases h
    | returned k => cases h
    | received m =>
      cases canc with
      | true => cases h; exact ⟨hd, by simp [stepsLeft]⟩
      | false =>
        cases h
        refine ⟨hd, ?_⟩
        simp only [stepsLeft]
        split_ifs <;> omega

theorem exists_forwarder_step (batchSize progressEvery : ℕ) {s : State M} (hd : s.senderDropped)
    (hpos : 0 < stepsLeft s) :
    ∃ e t, e.isForwarder ∧ step batchSize progressEvery s e = some t := by
  rcases s with ⟨col, dropped, queue, canc, pc, f⟩
  cases pc with
  | receiving =>
    refine ⟨.recv, ?_⟩
    cases queue with
    | cons m queue => exact ⟨_, rfl, rfl⟩
    | nil =>
      obtain rfl : dropped = true := hd
      exact ⟨_, rfl, rfl⟩
  | received m => cases canc <;> exact ⟨.forward, _, rfl, rfl⟩
  | returned k => simp [stepsLeft] at hpos

theorem returned_of_stepsLeft {s : State M} (h : stepsLeft s = 0) : ∃ k, s.pc = .returned k := by
  rcases s with ⟨col, dropped, queue, canc, pc, f⟩
  cases pc with
  | receiving => simp [stepsLeft] at h
  | received m => simp [stepsLeft] at h
  | returned k => exact ⟨k, rfl⟩

/-- **The task returns.** Once the sender is gone, the task's steps can be continued until it has
returned, and it takes at most `stepsLeft` of them in whatever order they fall. -/
theorem forwarder_returns (batchSize progressEvery : ℕ) {s : State M} (hd : s.senderDropped) :
    (∃ es t k, (∀ e ∈ es, e.isForwarder) ∧ run (step batchSize progressEvery) s es = some t ∧
      t.pc = .returned k) ∧
    ∀ es t, (∀ e ∈ es, e.isForwarder) → run (step batchSize progressEvery) s es = some t →
      es.length ≤ stepsLeft s := by
  constructor
  · have hstep (u : State M) (hu : u.senderDropped) (hpos : 0 < stepsLeft u) :
        ∃ e v, e.isForwarder ∧ step batchSize progressEvery u e = some v ∧ v.senderDropped ∧
          stepsLeft v < stepsLeft u := by
      obtain ⟨e, v, he, hv⟩ := exists_forwarder_step batchSize progressEvery hu hpos
      obtain ⟨hdv, hlt⟩ := stepsLeft_lt he hu hv
      exact ⟨e, v, he, hv, hdv, hlt⟩
    obtain ⟨es, t, hes, ht, _, h0⟩ := exists_run_to_zero (P := fun e : Event M => e.isForwarder)
      (I := fun s : State M => s.senderDropped) hstep hd
    obtain ⟨k, hk⟩ := returned_of_stepsLeft h0
    exact ⟨es, t, k, hes, ht, hk⟩
  · intro es t hes ht
    have := run_length_le (I := fun s : State M => s.senderDropped) (m := stepsLeft)
      (fun u e v he hu hv => stepsLeft_lt he hu hv) hes hd ht
    omega

/-! ## Exactly once -/

/-- **A streamed fetch delivers exactly once.** Whatever the order of sends, timeouts, the sender
being dropped and a cancellation: when the task has returned `k`, the emitted batches followed by
the response are the collected list, no batch is empty or larger than the batch size (one, when it
is zero), and `k` messages were emitted; and once the sender is gone the task does return. -/
theorem streamed_exactly_once (batchSize progressEvery : ℕ) {s : State M} {es : List (Event M)}
    (h : run (step batchSize progressEvery) {} es = some s) :
    (∀ k, s.pc = .returned k →
      s.fwd.emits.flatten ++ responseMessages k (sentBy es) = sentBy es ∧
        (∀ b ∈ s.fwd.emits, b ≠ [] ∧ b.length ≤ max batchSize 1) ∧
        k = s.fwd.emits.flatten.length) ∧
    (s.senderDropped →
      (∃ fs t k, (∀ e ∈ fs, e.isForwarder) ∧ run (step batchSize progressEvery) s fs = some t ∧
        t.pc = .returned k) ∧
      ∀ fs t, (∀ e ∈ fs, e.isForwarder) → run (step batchSize progressEvery) s fs = some t →
        fs.length ≤ stepsLeft s) :=
  ⟨fun _ hpc => returned_spec h hpc, forwarder_returns batchSize progressEvery⟩

/-- A row of partition `0`. -/
def row (offset : ℤ) : TopicMessage := { partition := 0, offset }

/-- A fetch stopped between `recv` and the check of the flag, with batches of two. -/
def stoppedRun : List (Event TopicMessage) :=
  [.send (row 7), .send (row 8), .recv, .forward, .elapsed, .recv, .forward, .send (row 9), .recv,
    .cancel, .forward, .send (row 10), .dropSender]

/-- Where `stoppedRun` ends: one row was emitted, two are dropped with the task's locals. -/
def stopped : State TopicMessage where
  collected := [row 7, row 8, row 9, row 10]
  senderDropped := true
  cancelled := true
  pc := .returned 1
  fwd := { emitted := 1, batch := [row 8], emits := [[row 7]] }

/-- The rows the task did not emit are left to the response. -/
theorem streamed_exactly_once_stopped :
    [row 7] ++ responseMessages 1 (sentBy stoppedRun) = sentBy stoppedRun :=
  ((streamed_exactly_once 2 100
    (show run (step 2 100) {} stoppedRun = some stopped from rfl)).1 1 rfl).1

/-- With a batch size of zero every message is a batch of one, which exceeds it. -/
theorem zero_batch_size_exceeded :
    ∃ s, run (step 0 100) {} [.send (row 7), .recv, .forward, .dropSender, .recv] = some s ∧
      s.pc = .returned 1 ∧ ∃ b ∈ s.fwd.emits, ¬ b.length ≤ 0 :=
  ⟨_, rfl, rfl, [row 7], by decide, by decide⟩

end OffsetExplorer.Stream
