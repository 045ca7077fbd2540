import OffsetExplorer.Fetch.Account
import Mathlib.Data.List.Infix

/-!
# What a fetch returns of the logs

A consumer hands over the messages of each partition in the order of its log, but the partitions come in
any order, and with them ends of partitions, errors and empty polls.

* `Loop.slice`: the messages of a partition that are before its end, as many as its limit.
* `rowsOf_run`: what is collected of a partition is the slice of what was polled of it.
* `Delivers`: what librdkafka promises about the logs of the assigned partitions; `done_iff_complete`: the
  loop is complete as soon as every partition has a reason to be finished.
* `rowsOf_of_complete`: a complete fetch has collected the slices of the logs.
* **`fetch_returns_asked`**: in terms of the filter, whatever the order of the polls.
-/

namespace OffsetExplorer.Fetch

open Machine TreeTable

instance (c : Loop) (m : BorrowedMessage) : Decidable (c.PastEnd m) := decidable_of_iff _ (c.any_end_iff m)

/-- The messages polled of one partition, in order. -/
def polledOf (p : ℤ) (es : List Iteration) : List BorrowedMessage :=
  (messagesOf es).filter fun m => m.partition = p

/-- The rows collected of one partition. -/
def PollState.rowsOf (s : PollState) (p : ℤ) : List TopicMessage :=
  s.collected.filter fun m => m.partition = p

/-- The messages before the end of the partition, as many as its limit. -/
def Loop.slice (c : Loop) (p : ℤ) (messages : List BorrowedMessage) : List BorrowedMessage :=
  (messages.filter fun m => ¬ c.PastEnd m).take (c.limit p).toNat

/-- The loop has ended for it has read what the plan asks for. -/
def Complete (c : Loop) (s : PollState) : Prop :=
  s.unfinished = 0 ∨ c.totalTarget ≤ s.collected.length

variable {c : Loop} {s t : PollState} {r : ℤ → ℤ} {es : List Iteration} {p : ℤ}
  {log : ℤ → List BorrowedMessage}

/-! ## One more message -/

theorem polledOf_append (p : ℤ) (es fs : List Iteration) :
    polledOf p (es ++ fs) = polledOf p es ++ polledOf p fs := by
  rw [polledOf, messagesOf, List.filterMap_append, List.filter_append]
  rfl

theorem polledOf_message {e : Iteration} {m : BorrowedMessage} (h : e.polled = .message m) (p : ℤ) :
    polledOf p [e] = if m.partition = p then [m] else [] := by
  rw [polledOf, messagesOf, List.filterMap_cons, h]
  dsimp only
  rw [List.filterMap_nil, List.filter_cons, List.filter_nil]
  simp only [decide_eq_true_eq]

theorem polledOf_of_not_message {e : Iteration} (h : ∀ m, e.polled ≠ .message m) (p : ℤ) :
    polledOf p [e] = [] := by
  rw [polledOf, messagesOf, List.filterMap_cons]
  cases hpolled : e.polled with
  | message m => exact absurd hpolled (h m)
  | partitionEof _ => rfl
  | error _ => rfl
  | nothing => rfl

/-- Another message is in the slice if it is before the end, unless the slice is full. -/
theorem Loop.slice_concat (c : Loop) (p : ℤ) (messages : List BorrowedMessage) (m : BorrowedMessage) :
    c.slice p (messages ++ [m]) =
      if ¬ c.PastEnd m ∧ (c.slice p messages).length < (c.limit p).toNat then c.slice p messages ++ [m]
      else c.slice p messages := by
  rw [slice, List.filter_append]
  by_cases hend : c.PastEnd m
  · rw [if_neg (fun h => h.1 hend), List.filter_cons_of_neg (by simpa using hend), List.filter_nil,
      List.append_nil, slice]
  · rw [List.filter_cons_of_pos (by simpa using hend), List.filter_nil]
    by_cases hroom : (c.slice p messages).length < (c.limit p).toNat
    · have hall : (messages.filter fun m => ¬ c.PastEnd m).length < (c.limit p).toNat := by
        rw [slice, List.length_take] at hroom
        omega
      rw [if_pos ⟨hend, hroom⟩, slice, List.take_of_length_le hall.le, List.take_of_length_le]
      rw [List.length_append, List.length_singleton]
      exact hall
    · rw [if_neg (fun h => hroom h.2), slice, List.take_append_of_le_length]
      rw [slice, List.length_take] at hroom
      omega

theorem collected_iterate (h : Ledger c s r) (polled : Polled) :
    (iterate c s polled).collected = s.collected ∨
      ∃ m, polled = .message m ∧ m.partition ∈ c.planned ∧ 0 < r m.partition ∧ ¬ c.PastEnd m ∧
        (iterate c s polled).collected = s.collected ++ [c.row m] := by
  obtain ⟨i, e, heq⟩ | ⟨i, q, -, -, heq⟩ | ⟨m, hm, hq, hpos, hend, heq⟩ :=
    iterate_cases (c := c) h.tabulates polled
  · exact .inl (by rw [heq])
  · exact .inl (by rw [heq, finish_collected])
  · exact .inr ⟨m, hm, hq, hpos, hend, by rw [heq, collected_takeMessage]⟩

theorem collected_iterate_message (h : Ledger c s r) {m : BorrowedMessage} (hp : m.partition ∈ c.planned)
    (hpos : 0 < r m.partition) (hend : ¬ c.PastEnd m) :
    (iterate c s (.message m)).collected = s.collected ++ [c.row m] := by
  rw [iterate, pollMessage]
  dsimp only
  rw [h.tabulates.get_mem hp]
  dsimp only
  rw [if_neg (by omega), if_neg (mt (c.any_end_iff m).mp hend), collected_takeMessage]

theorem PollState.length_rowsOf (s : PollState) (p : ℤ) : (s.rowsOf p).length = s.taken p := by
  rw [PollState.rowsOf, PollState.taken, List.countP_eq_length_filter]

theorem rowsOf_of_collected_append {m : BorrowedMessage} (h : t.collected = s.collected ++ [c.row m]) (p : ℤ) :
    t.rowsOf p = s.rowsOf p ++ if m.partition = p then [c.row m] else [] := by
  rw [PollState.rowsOf, h, List.filter_append]
  have hrow : (c.row m).partition = m.partition := rfl
  by_cases hmp : m.partition = p
  · rw [List.filter_cons_of_pos (by simpa only [hrow, decide_eq_true_eq] using hmp), if_pos hmp, List.filter_nil]
    rfl
  · rw [List.filter_cons_of_neg (by simpa only [hrow, decide_eq_true_eq] using hmp), if_neg hmp, List.filter_nil]
    rfl

theorem Loop.limit_of_not_planned (c : Loop) (h : p ∉ c.planned) : c.limit p = 0 := by
  rw [Loop.limit, c.tabulates_limits.get_not_mem h, Option.getD_none]

theorem Books.lt_limit_iff (h : Books c s r) (hp : p ∈ c.planned) : s.taken p < (c.limit p).toNat ↔ 0 < r p := by
  have hspent := h.spent p hp
  omega

/-- **One iteration** collects of a partition what the slice grows by. -/
theorem rowsOf_iterate (h : Ledger c s r) (e : Iteration)
    (hrows : s.rowsOf p = (c.slice p (polledOf p es)).map c.row) :
    (iterate c s e.polled).rowsOf p = (c.slice p (polledOf p (es ++ [e]))).map c.row := by
  have htaken : (c.slice p (polledOf p es)).length = s.taken p := by
    rw [← s.length_rowsOf, hrows, List.length_map]
  have hkept : (iterate c s e.polled).collected = s.collected →
      (iterate c s e.polled).rowsOf p = (c.slice p (polledOf p es)).map c.row := by
    intro heq
    rw [PollState.rowsOf, heq]
    exact hrows
  rw [polledOf_append]
  rcases collected_iterate h e.polled with hsame | ⟨m, hm, hp, hpos, hend, happ⟩
  · rw [hkept hsame]
    by_cases hmessage : ∃ m, e.polled = .message m ∧ m.partition = p
    · obtain ⟨m, hm, rfl⟩ := hmessage
      rw [polledOf_message hm, if_pos rfl, c.slice_concat, if_neg]
      rintro ⟨hend, hroom⟩
      -- such a message would have been taken
      have hplanned : m.partition ∈ c.planned := by
        by_contra hnot
        rw [c.limit_of_not_planned hnot] at hroom
        exact Nat.not_lt_zero _ hroom
      have hpos : 0 < r m.partition := (h.lt_limit_iff hplanned).mp (htaken ▸ hroom)
      have happ := collected_iterate_message h hplanned hpos hend
      rw [← hm, hsame] at happ
      have hlength := congrArg List.length happ
      rw [List.length_append, List.length_singleton] at hlength
      omega
    · have hnone : polledOf p [e] = [] := by
        by_cases hany : ∃ m, e.polled = .message m
        · obtain ⟨m, hm⟩ := hany
          rw [polledOf_message hm, if_neg fun hmp => hmessage ⟨m, hm, hmp⟩]
        · exact polledOf_of_not_message (fun m hm => hany ⟨m, hm⟩) p
      rw [hnone, List.append_nil]
  · rw [rowsOf_of_collected_append happ, polledOf_message hm, hrows]
    by_cases hmp : m.partition = p
    · subst hmp
      have hroom : (c.slice m.partition (polledOf m.partition es)).length < (c.limit m.partition).toNat :=
        htaken ▸ (h.lt_limit_iff hp).mpr hpos
      rw [if_pos rfl, if_pos rfl, c.slice_concat, if_pos ⟨hend, hroom⟩, List.map_append, List.map_singleton]
    · rw [if_neg hmp, if_neg hmp, List.append_nil, List.append_nil]

/-- **What is collected of a partition is the slice of what was polled of it**, in every state of the loop. -/
theorem rowsOf_run (hnn : ∀ p, 0 ≤ c.limit p) (h : run (step c) (start c) es = some s) (p : ℤ) :
    s.rowsOf p = (c.slice p (polledOf p es)).map c.row := by
  refine (run_history (P := fun _ => True)
    (I := fun es s => (∃ r, Ledger c s r) ∧ s.rowsOf p = (c.slice p (polledOf p es)).map c.row)
    ⟨⟨_, ledger_start hnn⟩, ?_⟩ ?_ (fun _ _ => trivial) h).2
  · rw [polledOf, messagesOf, List.filterMap_nil, List.filter_nil, Loop.slice, List.filter_nil, List.take_nil]
    rfl
  · rintro es s e t - ⟨⟨r, hr⟩, hrows⟩ hst
    obtain ⟨hrun, -, rfl⟩ := step_eq_some hst
    obtain ⟨r', hr', -⟩ := ledger_iterate hr hrun.1 e.polled
    exact ⟨⟨r', hr'⟩, rowsOf_iterate hr e hrows⟩

/-! ## What the consumers hand over -/

/-- The messages of each partition have increasing offsets. -/
structure IsLog (log : ℤ → List BorrowedMessage) : Prop where
  ofPartition : ∀ p, ∀ m ∈ log p, m.partition = p
  increasing : ∀ p, (log p).Pairwise fun m m' => m.offset < m'.offset

/-- What librdkafka promises of the logs of the assigned partitions, each from its assigned start on: a
partition is handed over in order and without gaps, and its end is reported after everything before the end
that the plan has worked out. Messages of other partitions may come at any time. -/
structure Delivers (c : Loop) (log : ℤ → List BorrowedMessage) (es : List Iteration) : Prop where
  inOrder : ∀ p ∈ c.active, polledOf p es <+: log p
  atEnd : ∀ pre e post p, es = pre ++ e :: post → e.polled = .partitionEof p →
    p ∈ c.active ∧ ∀ m ∈ log p, ¬ c.PastEnd m → m ∈ polledOf p pre

theorem slice_append_of_past {messages rest : List BorrowedMessage} (h : ∀ m ∈ rest, c.PastEnd m) (p : ℤ) :
    c.slice p (messages ++ rest) = c.slice p messages := by
  have hnone : rest.filter (fun m => ¬ c.PastEnd m) = [] := by
    rw [List.filter_eq_nil_iff]
    intro m hm hnot
    exact of_decide_eq_true hnot (h m hm)
  rw [Loop.slice, List.filter_append, hnone, List.append_nil]
  rfl

theorem slice_append_of_full {messages : List BorrowedMessage} (rest : List BorrowedMessage)
    (h : (c.limit p).toNat ≤ (c.slice p messages).length) :
    c.slice p (messages ++ rest) = c.slice p messages := by
  rw [Loop.slice, List.length_take] at h
  rw [Loop.slice, List.filter_append, List.take_append_of_le_length (by omega)]
  rfl

theorem IsLog.past_of_past (hlog : IsLog log) {polled rest : List BorrowedMessage}
    (heq : log p = polled ++ rest) {m : BorrowedMessage} (hm : m ∈ polled) (hpast : c.PastEnd m) :
    ∀ m' ∈ rest, c.PastEnd m' := by
  intro m' hm'
  have hincreasing := hlog.increasing p
  rw [heq, List.pairwise_append] at hincreasing
  have hlt := hincreasing.2.2 m hm m' hm'
  have hp : m.partition = p := hlog.ofPartition p m (heq ▸ List.mem_append_left _ hm)
  have hp' : m'.partition = p := hlog.ofPartition p m' (heq ▸ List.mem_append_right _ hm')
  obtain ⟨«end», hend, hle⟩ := hpast
  exact ⟨«end», by rwa [hp', ← hp], hle.trans hlt.le⟩

theorem IsLog.not_mem_of_mem_rest (hlog : IsLog log) {polled rest : List BorrowedMessage}
    (heq : log p = polled ++ rest) {m : BorrowedMessage} (hm : m ∈ rest) : m ∉ polled := by
  intro hpolled
  have hincreasing := hlog.increasing p
  rw [heq, List.pairwise_append] at hincreasing
  exact lt_irrefl _ (hincreasing.2.2 m hpolled m hm)

/-- Whatever is the reason for a partition to be finished, there is no more of its slice. -/
theorem slice_of_done (hlog : IsLog log) (hdel : Delivers c log es) (hp : p ∈ c.active)
    (hrows : s.rowsOf p = (c.slice p (polledOf p es)).map c.row) (hdone : Done c es s p) :
    c.slice p (polledOf p es) = c.slice p (log p) := by
  obtain ⟨rest, hrest⟩ := hdel.inOrder p hp
  rw [← hrest]
  rcases hdone with hfull | ⟨e, he, m, hm, hmp, hpast⟩ | ⟨e, he, heof⟩
  · refine (slice_append_of_full rest ?_).symm
    rw [← List.length_map c.row, ← hrows, s.length_rowsOf]
    omega
  · refine (slice_append_of_past (hlog.past_of_past hrest.symm ?_ hpast) p).symm
    rw [polledOf, List.mem_filter, messagesOf, List.mem_filterMap]
    exact ⟨⟨e, he, by rw [hm]⟩, decide_eq_true hmp⟩
  · obtain ⟨pre, post, hsplit⟩ := List.append_of_mem he
    refine (slice_append_of_past (fun m hm => ?_) p).symm
    by_contra hnot
    have hbefore := (hdel.atEnd pre e post p hsplit heof).2 m
      (hrest ▸ List.mem_append_right _ hm) hnot
    refine hlog.not_mem_of_mem_rest hrest.symm hm ?_
    rw [hsplit, polledOf_append]
    exact List.mem_append_left _ hbefore

/-! ## When the loop is complete -/

/-- What the finished partitions have been since the start: those with a reason. -/
structure Finished (c : Loop) (es : List Iteration) (s : PollState) : Prop where
  eof : ∀ e ∈ es, ∀ p ∈ c.planned, e.polled = .partitionEof p → p ∈ s.finished
  past : ∀ e ∈ es, ∀ m, e.polled = .message m → m.partition ∈ c.active → c.PastEnd m → m.partition ∈ s.finished

theorem mem_finished_iterate (h : Ledger c s r) (polled : Polled) (hp : p ∈ s.finished) :
    p ∈ (iterate c s polled).finished := by
  obtain ⟨i, e, heq⟩ | ⟨i, q, -, -, heq⟩ | ⟨m, -, -, -, -, heq⟩ := iterate_cases (c := c) h.tabulates polled
  · rw [heq]
    exact hp
  · rw [heq, finish_finished]
    exact Finset.mem_insert_of_mem hp
  · rw [heq]
    unfold takeMessage
    dsimp only
    split_ifs
    · rw [finish_finished]
      exact Finset.mem_insert_of_mem hp
    · exact hp

theorem finished_iterate_eof (h : Ledger c s r) (hp : p ∈ c.planned) :
    p ∈ (iterate c s (.partitionEof p)).finished := by
  rw [iterate, if_pos (h.tabulates.mem_iff.mpr hp), finish_finished]
  exact Finset.mem_insert_self _ _

theorem finished_iterate_past (h : Ledger c s r) {m : BorrowedMessage} (hp : m.partition ∈ c.active)
    (hpast : c.PastEnd m) : m.partition ∈ (iterate c s (.message m)).finished := by
  have hplanned := (c.mem_active.mp hp).1
  rw [iterate, pollMessage]
  dsimp only
  rw [h.tabulates.get_mem hplanned]
  dsimp only
  split_ifs with hspent hend
  · exact h.exhausted _ hp (le_antisymm hspent (h.nonneg _ hplanned))
  · rw [finish_finished]
    exact Finset.mem_insert_self _ _
  · exact absurd ((c.any_end_iff m).mpr hpast) hend

theorem finished_run (hnn : ∀ p, 0 ≤ c.limit p) (h : run (step c) (start c) es = some s) :
    Finished c es s := by
  refine (run_history (P := fun _ => True) (I := fun es s => (∃ r, Ledger c s r) ∧ Finished c es s)
    ⟨⟨_, ledger_start hnn⟩, ⟨by simp, by simp⟩⟩ ?_ (fun _ _ => trivial) h).2
  rintro es s e t - ⟨⟨r, hr⟩, hfin⟩ hst
  obtain ⟨hrun, -, rfl⟩ := step_eq_some hst
  obtain ⟨r', hr', -⟩ := ledger_iterate hr hrun.1 e.polled
  refine ⟨⟨r', hr'⟩, fun f hf p hp heof => ?_, fun f hf m hm hp hpast => ?_⟩
  · rcases List.mem_append.mp hf with hf | hf
    · exact mem_finished_iterate hr _ (hfin.eof f hf p hp heof)
    · rw [List.mem_singleton.mp hf] at heof
      rw [heof]
      exact finished_iterate_eof hr hp
  · rcases List.mem_append.mp hf with hf | hf
    · exact mem_finished_iterate hr _ (hfin.past f hf m hm hp hpast)
    · rw [List.mem_singleton.mp hf] at hm
      rw [hm]
      exact finished_iterate_past hr hp hpast

theorem mem_finished_of_done (hr : Ledger c s r) (hfin : Finished c es s) (hp : p ∈ c.active)
    (hdone : Done c es s p) : p ∈ s.finished := by
  have hplanned := (c.mem_active.mp hp).1
  rcases hdone with hfull | ⟨e, he, m, hm, rfl, hpast⟩ | ⟨e, he, heof⟩
  · have hspent := hr.spent p hplanned
    exact hr.exhausted p hp (by omega)
  · exact hfin.past e he m hm hp hpast
  · exact hfin.eof e he p hplanned heof

/-- **The loop is complete as soon as every assigned partition has a reason to be finished**, and not
before. -/
theorem done_iff_complete (hnn : ∀ p, 0 ≤ c.limit p) (heofs : EofsAssigned c es)
    (h : run (step c) (start c) es = some s) : Complete c s ↔ ∀ p ∈ c.active, Done c es s p := by
  have hist := history_run hnn h
  obtain ⟨r, hr⟩ := hist.ledger
  have hsub := hist.active heofs
  have hcount := hr.unfinished_add
  constructor
  · rintro (hnone | htarget) p hp
    · have hall : s.finished = c.active := Finset.eq_of_subset_of_card_le hsub (by omega)
      exact hist.done p (hall ▸ hp)
    · have htotal := hr.total
      have hleft : ∑ q ∈ c.planned, r q = 0 :=
        le_antisymm (by omega) (Finset.sum_nonneg hr.nonneg)
      have hplanned := (c.mem_active.mp hp).1
      have hspent := hr.spent p hplanned
      rw [(Finset.sum_eq_zero_iff_of_nonneg hr.nonneg).mp hleft p hplanned, add_zero] at hspent
      exact .inl hspent
  · intro hdone
    have hall : c.active ⊆ s.finished := fun p hp =>
      mem_finished_of_done hr (finished_run hnn h) hp (hdone p hp)
    have hcard := Finset.card_le_card hall
    exact .inl (by omega)

theorem Delivers.eofsAssigned (hdel : Delivers c log es) : EofsAssigned c es := by
  intro e he p _ heof
  obtain ⟨pre, post, hsplit⟩ := List.append_of_mem he
  exact (hdel.atEnd pre e post p hsplit heof).1

/-- **A complete fetch has collected the slices of the logs**, in whatever order the partitions came. -/
theorem rowsOf_of_complete (hnn : ∀ p, 0 ≤ c.limit p) (hlog : IsLog log) (hdel : Delivers c log es)
    (h : run (step c) (start c) es = some s) (hcomplete : Complete c s) (p : ℤ) :
    s.rowsOf p = (c.slice p (log p)).map c.row := by
  have hrows := rowsOf_run hnn h p
  by_cases hp : p ∈ c.active
  · rw [hrows, slice_of_done hlog hdel hp hrows]
    exact (done_iff_complete hnn hdel.eofsAssigned h).mp hcomplete p hp
  · have hzero : (c.limit p).toNat = 0 := by
      have hlimit : ¬ 0 < c.limit p := fun hpos => hp (c.mem_active.mpr ⟨?_, hpos⟩)
      · omega
      · by_contra hnot
        rw [c.limit_of_not_planned hnot] at hpos
        exact lt_irrefl _ hpos
    rw [hrows, Loop.slice, hzero, List.take_zero, Loop.slice, hzero, List.take_zero]

/-- Lists that agree on every class are the same but for the order of the classes. -/
theorem perm_of_classes {α β : Type*} [DecidableEq α] [DecidableEq β] (f : α → β) {l l' : List α}
    (h : ∀ b, l.filter (fun a => f a = b) = l'.filter fun a => f a = b) : l.Perm l' := by
  rw [List.perm_iff_count]
  intro a
  have hcount : ∀ l : List α, l.count a = (l.filter fun x => f x = f a).count a := fun l =>
    (List.count_filter (by simp)).symm
  rw [hcount l, hcount l', h]

/-! ## In terms of the filter -/

section Filter

variable {b : Broker} {filter : MessageFilter} {low high : ℤ → ℤ} {plan : FetchPlan}

/-- Whether the filter says where to start. -/
def Pinned (filter : MessageFilter) : Prop := filter.offset.isSome || filter.fromTimestampMs.isSome

instance (filter : MessageFilter) : Decidable (Pinned filter) := inferInstanceAs (Decidable (_ = true))

/-- The offsets of a partition that a fetch with a limit is after: those that match, and of these only the
newest ones where the filter does not say where to start. -/
noncomputable def soughtIn (b : Broker) (filter : MessageFilter) (low high : ℤ → ℤ) (limit p : ℤ) : Finset ℤ :=
  if Pinned filter then matchingIn b filter low high p else newest (matchingIn b filter low high p) limit

/-- The start and the end of a partition bound what is sought in it. -/
structure Bounds (b : Broker) (filter : MessageFilter) (low high : ℤ → ℤ) (plan : FetchPlan) (p : ℤ) : Prop where
  limit_nonneg : 0 ≤ plan.limits[p]?.getD 0
  sought : soughtIn b filter low high (plan.limits[p]?.getD 0) p =
    Finset.Ico (plan.startOffsets[p]?.getD 0) (plan.endOffsets[p]?.getD 0)
  endOffset : ∃ «end», plan.endOffsets[p]? = some «end»
  width : ¬ Pinned filter →
    plan.endOffsets[p]?.getD 0 - plan.startOffsets[p]?.getD 0 = plan.limits[p]?.getD 0

/-- The limits of a plan: the windows between the filter's starts and the ends, within the total budget. -/
def limitsOf (filter : MessageFilter) (starts ends : PartitionMap ℤ) : PartitionMap ℤ :=
  distributeTotalBudget (partitionLimits starts ends
    (some (effectiveMaxMessagesPerPartition filter.maxMessagesPerPartition))) filter.maxTotalMessages

/-- **The plan** bounds every target by what is sought in it, and has no limit for anything else. -/
theorem bounds_of_planFetch (h : b.Answers filter low high) (hplan : planFetch b filter = .ok plan) :
    (∀ p ∈ b.targetPartitions filter, Bounds b filter low high plan p) ∧
      ∀ p ∉ b.targetPartitions filter, plan.limits[p]? = none := by
  obtain ⟨found, hfound, hw⟩ := watermarks_ok h
  obtain ⟨explicit, hexp, hei, hep⟩ := explicitStartOffsets_ok filter hw
  obtain ⟨fromTs, hfrom, hfi, hfp⟩ := fromTimestampStartOffsets_ok b filter hw
    fun ms hms => (h.times ms (.inl hms)).1
  obtain ⟨starts, hstarts, hs⟩ := filterStartOffsets_ok hw hei hfi hep hfp
  obtain ⟨ends, hends, he⟩ := filterEndOffsets_ok b filter hw
    fun ms hms => (h.times ms (.inr hms)).1
  have hwin := partitionLimits_tabulates hs he
    (some (effectiveMaxMessagesPerPartition filter.maxMessagesPerPartition))
  obtain ⟨limit, hlimit, hle, -⟩ := distributeTotalBudget_spec hwin
    (fun p _ => le_min (le_max_right _ _) (by simp)) filter.maxTotalMessages
  change Tabulates (limitsOf filter starts ends) _ limit at hlimit
  have hnone : ∀ p ∉ b.targetPartitions filter, (limitsOf filter starts ends)[p]? = none :=
    fun p hp => hlimit.get_not_mem (mt List.mem_toFinset.mp hp)
  by_cases hpin : explicit.isSome || fromTs.isSome
  · have heq : planFetch b filter = .ok ⟨sumAvailable (partitionLimits starts ends none),
        limitsOf filter starts ends, starts, ends⟩ := by
      simp only [planFetch, hfound, hexp, hfrom, hstarts, hends, bind, Except.bind, hpin]
      rfl
    cases heq.symm.trans hplan
    refine ⟨fun p hp => ?_, hnone⟩
    have hmem := List.mem_toFinset.mpr hp
    rw [hei, hfi] at hpin
    change Pinned filter at hpin
    refine ⟨?_, ?_, ⟨_, he.get_mem hmem⟩, fun hnot => absurd hpin hnot⟩
    · dsimp only
      rw [hlimit.get_mem hmem]
      exact (hle p hmem).1
    · rw [soughtIn, if_pos hpin, hs.get_mem hmem, he.get_mem hmem]
      exact matchingIn_eq h hp
  · obtain ⟨newestStarts, hnew, hn⟩ := newestFirstStartOffsets_ok hw he hlimit
    have heq : planFetch b filter = .ok ⟨sumAvailable (partitionLimits starts ends none),
        limitsOf filter starts ends, newestStarts, ends⟩ := by
      rw [limitsOf] at hnew
      simp only [planFetch, hfound, hexp, hfrom, hstarts, hends, hnew, bind, Except.bind, hpin]
      rfl
    cases heq.symm.trans hplan
    refine ⟨fun p hp => ?_, hnone⟩
    have hmem := List.mem_toFinset.mpr hp
    obtain ⟨h0, hmin⟩ := hle p hmem
    rw [hei, hfi] at hpin
    change ¬ Pinned filter at hpin
    have hlow : filterStart b filter (low p) (high p) p = low p := by
      have hnot := hpin
      rw [Pinned, Bool.or_eq_true, not_or] at hnot
      rw [filterStart, Option.not_isSome_iff_eq_none.mp hnot.1, Option.not_isSome_iff_eq_none.mp hnot.2]
      rfl
    have hend := filterEnd_mem h hp
    obtain ⟨hl0, _, hmax⟩ := h.ordered p hp
    have hav : limit p ≤ filterEnd b filter (high p) p - low p := by
      have hwindow := hmin.trans (min_le_left _ _)
      rw [available_eq h hp, hlow] at hwindow
      omega
    have hsub : i64Sub (filterEnd b filter (high p) p) (limit p) = filterEnd b filter (high p) p - limit p :=
      i64Sub_eq (by omega) (by omega) h0 (by omega)
    have hstart : newestFirstStartOffset (low p) (filterEnd b filter (high p) p) (limit p) =
        filterEnd b filter (high p) p - limit p := by
      rw [newestFirstStartOffset, hsub, max_eq_left (by omega)]
    refine ⟨?_, ?_, ⟨_, he.get_mem hmem⟩, fun _ => ?_⟩
    · rw [hlimit.get_mem hmem]
      exact h0
    · rw [soughtIn, if_neg hpin, hlimit.get_mem hmem, hn.get_mem hmem, he.get_mem hmem, matchingIn_eq h hp,
        hlow, Option.getD_some, newest_Ico hav, Option.getD_some, Option.getD_some, hstart]
    · rw [hlimit.get_mem hmem, hn.get_mem hmem, he.get_mem hmem, Option.getD_some, Option.getD_some,
        Option.getD_some, hstart, sub_sub_cancel]

theorem length_filter_Ico_le (hlog : IsLog log) (p start «end» : ℤ) :
    ((log p).filter fun m => m.offset ∈ Finset.Ico start «end»).length ≤ («end» - start).toNat := by
  have hsorted : ((log p).filter fun m => m.offset ∈ Finset.Ico start «end»).Pairwise
      fun m m' => m.offset < m'.offset := (hlog.increasing p).sublist List.filter_sublist
  have hnodup : (((log p).filter fun m => m.offset ∈ Finset.Ico start «end»).map
      BorrowedMessage.offset).Nodup := by
    rw [List.Nodup, List.pairwise_map]
    exact hsorted.imp fun hlt => hlt.ne
  have hsub : (((log p).filter fun m => m.offset ∈ Finset.Ico start «end»).map
      BorrowedMessage.offset).toFinset ⊆ Finset.Ico start «end» := by
    intro o ho
    obtain ⟨m, hm, rfl⟩ := List.mem_map.mp (List.mem_toFinset.mp ho)
    exact of_decide_eq_true (List.mem_filter.mp hm).2
  have hcard := Finset.card_le_card hsub
  rwa [List.toFinset_card_of_nodup hnodup, List.length_map, Int.card_Ico] at hcard

theorem slice_eq_sought (hlog : IsLog log) (hbounds : Bounds b c.filter low high c.plan p) :
    c.slice p ((log p).filter fun m => c.assignedStart p ≤ m.offset) =
      ((log p).filter fun m => m.offset ∈ soughtIn b c.filter low high (c.limit p) p).take (c.limit p).toNat := by
  rw [Loop.slice, List.filter_filter]
  congr 1
  refine List.filter_congr fun m hm => ?_
  obtain ⟨«end», hend⟩ := hbounds.endOffset
  have hsought : m.offset ∈ soughtIn b c.filter low high (c.limit p) p ↔
      c.assignedStart p ≤ m.offset ∧ m.offset < «end» := by
    have h := hbounds.sought
    rw [hend, Option.getD_some] at h
    rw [Loop.limit, h, Finset.mem_Ico, Loop.assignedStart]
  have hpast : c.PastEnd m ↔ «end» ≤ m.offset := by
    rw [Loop.PastEnd, hlog.ofPartition p m hm, hend]
    simp
  rw [Bool.eq_iff_iff, Bool.and_eq_true, decide_eq_true_eq, decide_eq_true_eq, decide_eq_true_eq, hsought,
    hpast, not_le, and_comm]

/-- What a fetch is asked for of the messages of a partition: those that match the filter, up to the limit
and from the first one on where the filter says where to start, and otherwise all among the newest offsets,
which in a compacted log are fewer messages than offsets. -/
noncomputable def asked (b : Broker) (filter : MessageFilter) (low high : ℤ → ℤ) (limit p : ℤ)
    (messages : List BorrowedMessage) : List BorrowedMessage :=
  if Pinned filter then (messages.filter fun m => m.offset ∈ matchingIn b filter low high p).take limit.toNat
  else messages.filter fun m => m.offset ∈ newest (matchingIn b filter low high p) limit

theorem take_sought_eq_asked (hlog : IsLog log) (hbounds : Bounds b c.filter low high c.plan p) :
    ((log p).filter fun m => m.offset ∈ soughtIn b c.filter low high (c.limit p) p).take (c.limit p).toNat =
      asked b c.filter low high (c.limit p) p (log p) := by
  by_cases hpin : Pinned c.filter
  · rw [asked, if_pos hpin, soughtIn, if_pos hpin]
  · have hfew : ((log p).filter fun m => m.offset ∈ soughtIn b c.filter low high (c.limit p) p).length ≤
        (c.limit p).toNat := by
      have hsought := hbounds.sought
      have hwidth := hbounds.width hpin
      rw [← Loop.limit] at hsought hwidth
      rw [hsought, ← hwidth]
      exact length_filter_Ico_le hlog p _ _
    rw [List.take_of_length_le hfew, asked, if_neg hpin, soughtIn, if_neg hpin]

/-- **A fetch that has read all that it planned returns, of every target partition, the messages that it is
asked for**, and nothing of any other. It does not matter in which order the partitions, their ends, errors
and empty polls come. -/
theorem fetch_returns_asked (h : b.Answers c.filter low high) (hplan : planFetch b c.filter = .ok c.plan)
    (hlog : IsLog log)
    (hdel : Delivers c (fun p => (log p).filter fun m => c.assignedStart p ≤ m.offset) es)
    (hrun : run (step c) (start c) es = some s) (hcomplete : Complete c s) :
    (∀ p ∈ b.targetPartitions c.filter,
      s.rowsOf p = (asked b c.filter low high (c.limit p) p (log p)).map c.row) ∧
      ∀ p ∉ b.targetPartitions c.filter, s.rowsOf p = [] := by
  obtain ⟨hbounds, hnone⟩ := bounds_of_planFetch h hplan
  have hzero : ∀ p ∉ b.targetPartitions c.filter, c.limit p = 0 := by
    intro p hp
    rw [Loop.limit, hnone p hp, Option.getD_none]
  have hnn : ∀ p, 0 ≤ c.limit p := by
    intro p
    by_cases hp : p ∈ b.targetPartitions c.filter
    · exact (hbounds p hp).limit_nonneg
    · exact (hzero p hp).ge
  have hfrom : IsLog fun p => (log p).filter fun m => c.assignedStart p ≤ m.offset :=
    ⟨fun p m hm => hlog.ofPartition p m (List.mem_filter.mp hm).1,
      fun p => (hlog.increasing p).sublist List.filter_sublist⟩
  have hrows := rowsOf_of_complete hnn hfrom hdel hrun hcomplete
  refine ⟨fun p hp => ?_, fun p hp => ?_⟩
  · rw [hrows, slice_eq_sought hlog (hbounds p hp), take_sought_eq_asked hlog (hbounds p hp)]
  · rw [hrows, Loop.slice, hzero p hp]
    rfl

end Filter

/-- A fetch of the two partitions of the topic from a time on, which the plan of the second leaves out. -/
def ordersFetch : Loop where
  filter := { fromTimestampMs := some 500 }
  plan := ((planFetch ordersTopic { fromTimestampMs := some 500 }).toOption).getD
    { totalMatching := 0, limits := ∅, startOffsets := ∅, endOffsets := ∅ }
  maxMessageSizeBytes := 1048576
  maxTotalPayloadBytes := none
  encode _ := ""

/-- The offsets of the topic that hold messages. -/
def ordersLog (p : ℤ) : List BorrowedMessage :=
  if p = 0 then [{ partition := 0, offset := 90 }, { partition := 0, offset := 120 }, { partition := 0, offset := 130 }]
  else if p = 1 then [{ partition := 1, offset := 41 }]
  else []

/-- Two messages with an empty poll between them, and the end. -/
def ordersPolls : List Iteration :=
  [polledMessage 0 120, { polled := .nothing }, polledMessage 0 130, polledEof 0]

theorem isLog_ordersLog : IsLog ordersLog where
  ofPartition p m hm := by
    unfold ordersLog at hm
    split_ifs at hm with h0 h1
    · rw [h0]
      revert m
      decide
    · rw [h1]
      revert m
      decide
    · cases hm
  increasing p := by
    unfold ordersLog
    split_ifs <;> simp

theorem delivers_ordersPolls : Delivers ordersFetch
    (fun p => (ordersLog p).filter fun m => ordersFetch.assignedStart p ≤ m.offset) ordersPolls where
  inOrder := by decide
  atEnd pre e post p heq heof := by
    rcases pre with _ | ⟨_, _ | ⟨_, _ | ⟨_, _ | ⟨_, pre⟩⟩⟩⟩
    · cases heq
      cases heof
    · cases heq
      cases heof
    · cases heq
      cases heof
    · cases heq
      cases heof
      decide
    · simp [ordersPolls] at heq

theorem ordersFetch_returns_asked :
    ∃ s, run (step ordersFetch) (start ordersFetch) ordersPolls = some s ∧
      s.rowsOf 0 = (asked ordersTopic ordersFetch.filter (fun p => if p = 0 then 0 else 40)
        (fun p => if p = 0 then 250 else 43) (ordersFetch.limit 0) 0 (ordersLog 0)).map ordersFetch.row := by
  obtain ⟨s, hs⟩ : ∃ s, run (step ordersFetch) (start ordersFetch) ordersPolls = some s :=
    Option.isSome_iff_exists.mp (by decide)
  have hcomplete : Complete ordersFetch s := by
    have hdone : (run (step ordersFetch) (start ordersFetch) ordersPolls).all
        fun s => s.unfinished = 0 := by decide
    rw [hs] at hdone
    exact .inl (of_decide_eq_true hdone)
  exact ⟨s, hs, (fetch_returns_asked ordersTopic_answers rfl isLog_ordersLog delivers_ordersPolls hs
    hcomplete).1 0 (by decide)⟩

end OffsetExplorer.Fetch
