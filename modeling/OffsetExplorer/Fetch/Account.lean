import OffsetExplorer.Fetch.Ledger
import OffsetExplorer.Fetch.Slice
import Mathlib.Algebra.Order.BigOperators.Group.Finset

/-!
# The accounts of the poll loop

* `Ordered`, `EofsAssigned`: what librdkafka promises of a sequence of poll results.
* `History`: the rows are a sublist of the messages polled, and every finished partition has read
  its limit, delivered past its end or reported it.
* **`poll_accounting`**: the count of unfinished partitions is right in every state of the loop,
  nothing is collected twice or out of range, and a loop that ends because nothing is unfinished
  has a reason for each partition.
-/

namespace OffsetExplorer.Fetch

open Machine Std TreeTable

variable {c : Loop} {s t : PollState} {r : ℤ → ℤ} {es : List Iteration}

/-- The messages polled, in order. -/
def messagesOf (es : List Iteration) : List BorrowedMessage :=
  es.filterMap fun e =>
    match e.polled with
    | .message m => some m
    | _ => none

/-- The offsets polled from one partition, in order. -/
def offsetsOf (p : ℤ) (es : List Iteration) : List ℤ :=
  ((messagesOf es).filter fun m => m.partition = p).map BorrowedMessage.offset

/-- Every assigned partition delivers increasing offsets, from its start on. -/
def Ordered (c : Loop) (es : List Iteration) : Prop :=
  ∀ p ∈ c.active, (offsetsOf p es).Pairwise (· < ·) ∧ ∀ o ∈ offsetsOf p es, c.assignedStart p ≤ o

/-- No partition that the plan has but does not assign, for its limit is zero, reports its end. -/
def EofsAssigned (c : Loop) (es : List Iteration) : Prop :=
  ∀ e ∈ es, ∀ p ∈ c.planned, e.polled = .partitionEof p → p ∈ c.active

/-- A reason for a partition to be finished. -/
def Done (c : Loop) (es : List Iteration) (s : PollState) (p : ℤ) : Prop :=
  (s.taken p : ℤ) = c.limit p ∨
    (∃ e ∈ es, ∃ m, e.polled = .message m ∧ m.partition = p ∧ c.PastEnd m) ∨
    ∃ e ∈ es, e.polled = .partitionEof p

/-- How a state of the loop relates to what has been polled. -/
structure History (c : Loop) (es : List Iteration) (s : PollState) : Prop where
  ledger : ∃ r, Ledger c s r
  rows : s.collected.Sublist ((messagesOf es).map c.row)
  done : ∀ p ∈ s.finished, Done c es s p
  active : EofsAssigned c es → s.finished ⊆ c.active

theorem messagesOf_append (es : List Iteration) (e : Iteration) :
    messagesOf (es ++ [e]) = messagesOf es ++ messagesOf [e] := List.filterMap_append

theorem mem_finished_takeMessage {m : BorrowedMessage} {b q : ℤ}
    (h : q ∈ (takeMessage c s m b).finished) :
    q ∈ s.finished ∨ q = m.partition ∧ b - 1 ≤ 0 := by
  unfold takeMessage at h
  dsimp only at h
  split_ifs at h with hb
  · rw [finish_finished, Finset.mem_insert] at h
    exact h.symm.imp id fun hq => ⟨hq, hb⟩
  · exact .inl h

theorem Done.mono (h : Ledger c s r) {r' : ℤ → ℤ} (h' : Ledger c t r') (hle : ∀ p, r' p ≤ r p)
    {p : ℤ} (hp : p ∈ c.planned) (e : Iteration) (hd : Done c es s p) :
    Done c (es ++ [e]) t p := by
  rcases hd with htaken | ⟨e', he', hm⟩ | ⟨e', he', heof⟩
  · have h1 := h.spent p hp
    have h2 := h'.spent p hp
    have h3 := h'.nonneg p hp
    have h4 := hle p
    exact .inl (by omega)
  · exact .inr (.inl ⟨e', List.mem_append_left _ he', hm⟩)
  · exact .inr (.inr ⟨e', List.mem_append_left _ he', heof⟩)

theorem finished_iterate (es : List Iteration) (h : Ledger c s r) {e : Iteration} {q : ℤ}
    (hq : q ∈ (iterate c s e.polled).finished) :
    q ∈ s.finished ∨ (Done c (es ++ [e]) (iterate c s e.polled) q ∧
      (e.polled = .partitionEof q ∨ 0 < r q)) := by
  obtain ⟨i, err, heq⟩ | ⟨i, p, hp, hwhy, heq⟩ | ⟨m, hm, hp, hpos, hend, heq⟩ :=
    iterate_cases (c := c) h.tabulates e.polled
  · rw [heq] at hq
    exact .inl hq
  · rw [heq, finish_finished, Finset.mem_insert] at hq
    rcases hq with rfl | hq
    · right
      rcases hwhy with heof | ⟨m, hm, hmp, hpos, hpast⟩
      · exact ⟨.inr (.inr ⟨e, by simp, heof⟩), .inl heof⟩
      · exact ⟨.inr (.inl ⟨e, by simp, m, hm, hmp, hpast⟩), .inr hpos⟩
    · exact .inl hq
  · have hq' := hq
    rw [heq] at hq'
    rcases mem_finished_takeMessage hq' with hq' | ⟨rfl, hb⟩
    · exact .inl hq'
    · refine .inr ⟨.inl ?_, .inr hpos⟩
      have hspent := h.spent m.partition hp
      have htaken : (iterate c s e.polled).taken m.partition = s.taken m.partition + 1 := by
        rw [heq]
        unfold PollState.taken
        rw [collected_takeMessage, List.countP_append, List.countP_singleton,
          if_pos (by simp [Loop.row])]
      rw [htaken]
      push_cast
      omega

theorem rows_iterate (h : Ledger c s r) {e : Iteration}
    (hrows : s.collected.Sublist ((messagesOf es).map c.row)) :
    (iterate c s e.polled).collected.Sublist ((messagesOf (es ++ [e])).map c.row) := by
  rw [messagesOf_append, List.map_append]
  obtain ⟨i, err, heq⟩ | ⟨i, p, hp, hwhy, heq⟩ | ⟨m, hm, hp, hpos, hend, heq⟩ :=
    iterate_cases (c := c) h.tabulates e.polled
  · rw [heq]
    exact hrows.trans (List.sublist_append_left _ _)
  · rw [heq, finish_collected]
    exact hrows.trans (List.sublist_append_left _ _)
  · rw [heq, collected_takeMessage]
    refine hrows.append ?_
    have : messagesOf [e] = [m] := by simp [messagesOf, hm]
    rw [this]
    exact List.Sublist.refl _

theorem history_start (hnn : ∀ p, 0 ≤ c.limit p) : History c [] (start c) where
  ledger := ⟨_, ledger_start hnn⟩
  rows := List.Sublist.refl _
  done p hp := by cases hp
  active _ := Finset.empty_subset _

/-- **One iteration extends the history.** -/
theorem history_step {e : Iteration} (h : History c es s) (ht : step c s e = some t) :
    History c (es ++ [e]) t := by
  obtain ⟨hrun, _, rfl⟩ := step_eq_some ht
  obtain ⟨r, hr⟩ := h.ledger
  obtain ⟨r', hr', hle⟩ := ledger_iterate hr hrun.1 e.polled
  refine ⟨⟨r', hr'⟩, rows_iterate hr h.rows, fun q hq => ?_, fun heofs q hq => ?_⟩
  · rcases finished_iterate es hr hq with hq | ⟨hdone, _⟩
    · exact (h.done q hq).mono hr hr' hle (hr.finished_sub hq) e
    · exact hdone
  · have hplanned : q ∈ c.planned := hr'.finished_sub hq
    rcases finished_iterate es hr hq with hq | ⟨_, heof | hpos⟩
    · exact h.active (fun e' he' => heofs e' (List.mem_append_left _ he')) hq
    · exact heofs e (by simp) q hplanned heof
    · have := hr.spent q hplanned
      exact c.mem_active.mpr ⟨hplanned, by omega⟩

theorem history_run (hnn : ∀ p, 0 ≤ c.limit p) (h : run (step c) (start c) es = some s) :
    History c es s :=
  run_history (P := fun _ => True) (history_start hnn) (fun _ _ _ _ _ hs ht => history_step hs ht)
    (fun _ _ => trivial) h

/-! ## The accounts -/

/-- A list whose second components increase within every first component repeats nothing. -/
theorem nodup_of_sorted_fibres {l : List (ℤ × ℤ)}
    (h : ∀ p, ((l.filter fun x => x.1 = p).map Prod.snd).Pairwise (· < ·)) : l.Nodup := by
  induction l with
  | nil => exact List.nodup_nil
  | cons a l ih =>
    rw [List.nodup_cons]
    constructor
    · intro ha
      have hp := h a.1
      rw [List.filter_cons_of_pos (by simp), List.map_cons, List.pairwise_cons] at hp
      have hmem : a.2 ∈ (l.filter fun x => x.1 = a.1).map Prod.snd :=
        List.mem_map_of_mem (List.mem_filter.mpr ⟨ha, by simp⟩)
      exact lt_irrefl _ (hp.1 a.2 hmem)
    · refine ih fun p => (h p).sublist ?_
      exact ((List.sublist_cons_self a l).filter _).map _

/-- The offsets collected of a partition are among those polled from it, in order. -/
theorem offsets_sublist (h : History c es s) (p : ℤ) :
    ((s.collected.filter fun m => m.partition = p).map TopicMessage.offset).Sublist
      (offsetsOf p es) := by
  have := (h.rows.filter fun m => m.partition = p).map TopicMessage.offset
  rwa [List.filter_map, List.map_map] at this

theorem collected_nodup (h : History c es s) (hord : Ordered c es) :
    (s.collected.map fun m => (m.partition, m.offset)).Nodup := by
  obtain ⟨r, hr⟩ := h.ledger
  refine nodup_of_sorted_fibres fun p => ?_
  rw [List.filter_map, List.map_map]
  by_cases hp : p ∈ c.active
  · exact (hord p hp).1.sublist (offsets_sublist h p)
  · have hnil : s.collected.filter ((fun x : ℤ × ℤ => decide (x.1 = p)) ∘
        fun m => (m.partition, m.offset)) = [] := by
      rw [List.filter_eq_nil_iff]
      intro m hm hmp
      have : m.partition = p := by simpa using hmp
      exact hp (this ▸ (hr.inRange m hm).1)
    rw [hnil]
    exact List.Pairwise.nil

/-! ## The target -/

theorem Books.collected_le_target (h : Books c s r) : (s.collected.length : ℤ) ≤ c.totalTarget := by
  have := h.total
  have := Finset.sum_nonneg h.nonneg
  omega

/-- The target of a plan: at most the total budget, and at most the cap for each of the targets. -/
theorem totalTarget_le {b : Broker} (h : planFetch b c.filter = .ok c.plan) :
    (∀ t, c.filter.maxTotalMessages = some t → c.totalTarget ≤ t.toNat) ∧
      c.totalTarget ≤ ((effectiveMaxMessagesPerPartition c.filter.maxMessagesPerPartition).toNat *
        (b.targetPartitions c.filter).length : ℕ) := by
  obtain ⟨g, hg, hle, hsum⟩ := planFetch_limits h
  have htarget : c.totalTarget = ∑ p ∈ (b.targetPartitions c.filter).toFinset, g p :=
    hg.sum_toList Prod.snd
  rw [htarget]
  refine ⟨hsum, ?_⟩
  have hcap := Finset.sum_le_card_nsmul _ g _ fun p hp => (hle p hp).2
  have hcard := List.toFinset_card_le (b.targetPartitions c.filter)
  rw [nsmul_eq_mul, mul_comm, ← Nat.cast_mul] at hcap
  refine hcap.trans ?_
  exact_mod_cast Nat.mul_le_mul_left _ hcard

/-! ## The accounts -/

/-- **Poll-loop accounting.** In every state of the loop, whatever was polled, as long as assigned
partitions deliver in order and a partition left out for its limit of zero reports no end:
`unfinished` counts the assigned partitions that are not finished; each partition contributes at
most its limit, in its range, nothing twice, and all of them at most the sum of the limits; and
when nothing is unfinished every assigned partition has a reason to be finished. -/
theorem poll_accounting (hnn : ∀ p, 0 ≤ c.limit p) (hord : Ordered c es)
    (heofs : EofsAssigned c es) (h : run (step c) (start c) es = some s) :
    s.unfinished = (c.active \ s.finished).card ∧
      (∀ p, (s.taken p : ℤ) ≤ c.limit p) ∧
      (∀ m ∈ s.collected, m.partition ∈ c.active ∧ c.assignedStart m.partition ≤ m.offset ∧
        ∀ e ∈ c.plan.endOffsets[m.partition]?, m.offset < e) ∧
      (s.collected.map fun m => (m.partition, m.offset)).Nodup ∧
      (s.collected.length : ℤ) ≤ c.totalTarget ∧
      (s.unfinished = 0 → ∀ p ∈ c.active, Done c es s p) := by
  have hist := history_run hnn h
  obtain ⟨r, hr⟩ := hist.ledger
  have hsub : s.finished ⊆ c.active := hist.active heofs
  have hcount : s.unfinished = (c.active \ s.finished).card := by
    have := hr.unfinished_add
    rw [Finset.card_sdiff_of_subset hsub]
    omega
  refine ⟨hcount, fun p => ?_, fun m hm => ?_, collected_nodup hist hord, ?_, fun h0 p hp => ?_⟩
  · by_cases hp : p ∈ c.planned
    · have := hr.spent p hp
      have := hr.nonneg p hp
      omega
    · have h0 : s.taken p = 0 := by
        rw [PollState.taken, List.countP_eq_zero]
        intro m hm hmp
        have : m.partition = p := by simpa using hmp
        exact hp (this ▸ (c.mem_active.mp (hr.inRange m hm).1).1)
      rw [h0]
      exact hnn p
  · obtain ⟨hactive, hend⟩ := hr.inRange m hm
    refine ⟨hactive, (hord _ hactive).2 _ ?_, hend⟩
    refine (offsets_sublist hist m.partition).subset (List.mem_map_of_mem ?_)
    exact List.mem_filter.mpr ⟨hm, by simp⟩
  · exact hr.collected_le_target
  · rw [h0] at hcount
    have hempty := Finset.card_eq_zero.mp hcount.symm
    exact hist.done p (Finset.sdiff_eq_empty_iff_subset.mp hempty hp)

/-- A table of partitions and offsets. -/
def offsetTable (entries : List (ℤ × ℤ)) : PartitionMap ℤ := .ofList entries

/-- A browse of three partitions without payloads; nothing matches in the last. -/
def browse : Loop where
  filter := {}
  plan := {
    totalMatching := 3
    limits := offsetTable [(0, 2), (1, 1), (2, 0)]
    startOffsets := offsetTable [(0, 5), (1, 0), (2, 9)]
    endOffsets := offsetTable [(0, 7), (1, 1), (2, 9)] }
  maxMessageSizeBytes := 1048576
  maxTotalPayloadBytes := none
  encode _ := ""

/-- An iteration that polls a bare message. -/
def polledMessage (partition offset : ℤ) : Iteration := { polled := .message { partition, offset } }

/-- An iteration that comes to the end of a partition. -/
def polledEof (partition : ℤ) : Iteration := { polled := .partitionEof partition }

/-- One partition ends early and goes on past its end, another is read to its limit. -/
def browsePolls : List Iteration :=
  [polledMessage 0 6, polledEof 0, { polled := .nothing }, polledMessage 0 8, polledMessage 7 1,
    polledEof 0, polledMessage 1 0]

theorem browse_accounts :
    ∃ s, run (step browse) (start browse) browsePolls = some s ∧
      s.unfinished = (browse.active \ s.finished).card ∧
      ∀ p, (s.taken p : ℤ) ≤ browse.limit p := by
  obtain ⟨s, hs⟩ : ∃ s, run (step browse) (start browse) browsePolls = some s :=
    Option.isSome_iff_exists.mp (by decide)
  have hnn := browse.limit_nonneg (by decide)
  have hord : Ordered browse browsePolls := by unfold Ordered; decide
  have heofs : EofsAssigned browse browsePolls := by unfold EofsAssigned; decide
  have h := poll_accounting hnn hord heofs hs
  exact ⟨s, hs, h.1, h.2.1⟩

/-- The end of a partition that the plan leaves out with a limit of zero is counted all the same. -/
theorem zero_limit_eof_counted :
    ∃ s, run (step browse) (start browse) [polledEof 2] = some s ∧
      s.unfinished ≠ (browse.active \ s.finished).card :=
  ⟨(run (step browse) (start browse) [polledEof 2]).get (by decide), by simp, by decide⟩

end OffsetExplorer.Fetch
