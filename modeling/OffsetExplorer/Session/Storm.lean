import OffsetExplorer.Session.Denial

/-!
# A storm of requests

How often the brokers of a cluster are asked with credentials that they reject, however many requests are made at
once.

* `Op.underWay`, `inFlight`: the requests of a connection that have passed its breaker and have no outcome on
  record yet.
* `underWay_next`: only the breaker lets requests through; one that is under way leads to one.
* **`storm_bounded`**: rejected credentials are tried once less than the breaker allows, and once more for each
  request that was in flight at the same time; behind a breaker that has tripped nobody is asked but by these.
-/

namespace OffsetExplorer.Session

/-- What a request of `c` does from the time when it has passed the breaker up to the record of a rejection. -/
def Op.underWay (c : String) : Op → Bool
  | .dbGet id _ | .authFailuresRecord id _ => id = c
  | .metadataClient connection _ | .adminClient connection _ | .broker connection _
  | .isConnected connection _ | .writeDenied connection _ _ | .produce connection _ _ => connection.id = c
  | _ => false

/-- The requests of `c` in flight. -/
def inFlight (c : String) (w : World) : ℕ := w.pending (Op.underWay c)

/-- The operation asks a broker of `c`. -/
def Op.asksBroker (c : String) : Op → Bool
  | .broker connection _ | .produce connection _ _ => connection.id = c
  | _ => false

/-- The operation asks a broker of `c`, and a rejection of the credentials counts. -/
def Op.triesCredentials (c : String) : Op → Bool
  | .broker connection request => connection.id = c && request.counts
  | .produce connection _ _ => connection.id = c
  | _ => false

/-- The history of `c` is not cleared: by a success, a connect, an update or a delete. -/
def Uncleared (c : String) : Event → Prop
  | .invoke _ => True
  | .act _ op _ => op ≠ .authFailuresRemove c

/-- Brokers that are asked with the credentials of `c` reject them. -/
def Rejected (c : String) : Event → Prop
  | .invoke _ => True
  | .act _ op input => op.triesCredentials c = true → rejects c op input = true

/-- An event that performs such an operation. -/
def Performs (p : Op → Bool) : Event → Bool
  | .invoke _ => false
  | .act _ op _ => p op

section

variable {decoders : Decoders} {s : AppState} {op f : Op} {input : Input} {ops : List Op} {c id : String}
  {request : Request} {result : Except Report Unit}

/-! ## What is under way -/

theorem countP_recordAuthFailure_le {reason : String} :
    (recordAuthFailure id reason ++ release id).countP (Op.underWay c) ≤ 1 := by
  rw [List.countP_append, show (release id).countP (Op.underWay c) = 0 from rfl, Nat.add_zero]
  exact List.countP_le_length

theorem countP_record_le : (record id request result).countP (Op.underWay c) ≤ 1 := by
  have hsuccess : (recordAuthSuccess id).countP (Op.underWay c) = 0 := rfl
  have honly : (recordAuthSuccessOnly id result).countP (Op.underWay c) ≤ 1 := by
    rcases result with report | ⟨⟩
    · rw [recordAuthSuccessOnly]
      split_ifs <;> exact Nat.zero_le 1
    · exact Nat.zero_le 1
  unfold record
  split
  · exact honly
  · exact honly
  · exact Nat.zero_le 1
  · rcases result with report | ⟨⟩
    · rw [recordAuthOutcome]
      split_ifs
      · exact countP_recordAuthFailure_le
      · exact Nat.zero_le 1
    · exact Nat.zero_le 1

theorem countP_settle_le : (settle id request result).countP (Op.underWay c) ≤ 1 := by
  have hanswer : [answer result].countP (Op.underWay c) = 0 := by
    rcases result with report | ⟨⟩ <;> rfl
  have hrecord := @countP_record_le c id request result
  unfold settle
  rw [List.countP_append, List.countP_append, List.countP_append, hanswer]
  split <;> split <;> simpa [finish, Op.underWay] using hrecord

theorem countP_fail_le {report : Report} : (fail id request report).countP (Op.underWay c) ≤ 1 := by
  have hsettle := @countP_settle_le c id request (.error report)
  unfold fail
  rw [List.countP_append]
  split_ifs
  · rwa [show (dropPooledClient id).countP (Op.underWay c) = 0 from rfl, Nat.zero_add]
  · rwa [List.countP_nil, Nat.zero_add]

theorem countP_refuse {message : String} : (refuse request message).countP (Op.underWay c) = 0 := by
  cases request <;> rfl

theorem countP_recordPublishOutcome_le {topic : String} {outcome : PublishOutcome} :
    (recordPublishOutcome id topic outcome).countP (Op.underWay c) ≤ 1 := by
  have hsuccess : (if outcome.delivered.isEmpty then [] else recordAuthSuccess id).countP (Op.underWay c) = 0 := by
    split_ifs <;> rfl
  unfold recordPublishOutcome
  rw [List.countP_append, hsuccess, Nat.zero_add]
  split
  · exact Nat.zero_le 1
  · split
    · exact Nat.zero_le 1
    · exact countP_recordAuthFailure_le
    · exact Nat.zero_le 1
    · exact Nat.zero_le 1

theorem countP_useConnection_le {connection : Connection} :
    (useConnection connection request).countP (Op.underWay c) ≤ 1 := by
  unfold useConnection
  split <;> exact List.countP_le_length

theorem countP_next_le (h : next decoders s op input = some ops) : ops.countP (Op.underWay c) ≤ 1 := by
  cases op <;> cases input <;> simp only [next, reduceCtorEq, Option.some.injEq] at h <;>
    try (subst h; first | exact Nat.zero_le 1 | exact List.countP_le_length)
  case authFailuresRecord.ok id reason =>
    subst h
    split_ifs <;> exact Nat.zero_le 1
  case ownersOf.order id requestIds =>
    obtain ⟨-, h⟩ := Option.ite_none_right_eq_some.mp h
    cases h
    rw [List.countP_map]
    exact (List.countP_eq_zero.mpr fun requestId _ => Bool.false_ne_true).le.trans (Nat.zero_le 1)
  case authBlockReason.ok id request =>
    subst h
    split
    · exact countP_refuse.le.trans (Nat.zero_le 1)
    · exact List.countP_le_length
  case dbGet.ok id request =>
    subst h
    split
    · exact countP_useConnection_le
    · exact countP_refuse.le.trans (Nat.zero_le 1)
  case dbGet.error id request report =>
    subst h
    exact countP_refuse.le.trans (Nat.zero_le 1)
  case metadataClient.error connection request report =>
    rw [Option.ite_none_left_eq_some, Option.some.injEq] at h
    exact h.2 ▸ countP_fail_le
  case adminClient.error connection request report =>
    rw [Option.ite_none_left_eq_some, Option.some.injEq] at h
    exact h.2 ▸ countP_fail_le
  case broker.ok connection request =>
    subst h
    exact countP_settle_le
  case broker.error connection request report =>
    subst h
    exact countP_fail_le
  case broker.panicked connection request =>
    obtain ⟨text, -, rfl⟩ := Option.map_eq_some_iff.mp h
    exact countP_settle_le
  case writeDenied.ok connection call connected =>
    subst h
    split
    · exact Nat.zero_le 1
    · split
      · exact Nat.zero_le 1
      · exact List.countP_le_length
  case produce.outcome connection call records outcome =>
    subst h
    rw [List.countP_append, show [Op.respond (.ok ())].countP (Op.underWay c) = 0 from rfl, Nat.add_zero]
    exact countP_recordPublishOutcome_le
  case dbCreate.ok connection =>
    obtain ⟨-, h⟩ := Option.ite_none_right_eq_some.mp h
    cases h
    exact Nat.zero_le 1
  all_goals
    subst h
    split_ifs <;> exact Nat.zero_le 1

theorem not_underWay_of_mem_refuse {message : String} (hf : f ∈ refuse request message) : f.underWay c = false :=
  Bool.eq_false_iff.mpr (List.countP_eq_zero.mp countP_refuse f hf)

theorem records_of_mem_settle (hf : f ∈ settle id request result) (h : f.underWay c = true) :
    f.recordsFailure c = true := by
  rcases of_mem_settle hf with ⟨requestId, flag, -, hf⟩ | hf | ⟨-, -, rfl⟩ | rfl
  · rcases List.mem_pair.mp hf with rfl | rfl <;> cases h
  · rcases of_mem_record hf with ⟨-, hf⟩ | ⟨report, -, -, ⟨-, hf⟩ | hf⟩
    · rcases List.mem_pair.mp hf with rfl | rfl <;> cases h
    · cases List.mem_singleton.mp hf
      exact h
    · rcases List.mem_pair.mp hf with rfl | rfl <;> cases h
  · cases h
  · rcases result with report | ⟨⟩ <;> cases h

theorem records_of_mem_fail {report : Report} (hf : f ∈ fail id request report) (h : f.underWay c = true) :
    f.recordsFailure c = true := by
  rcases of_mem_fail hf with hf | hf
  · rcases List.mem_pair.mp hf with rfl | rfl <;> cases h
  · exact records_of_mem_settle hf h

theorem records_of_mem_recordPublishOutcome {topic : String} {outcome : PublishOutcome}
    (hf : f ∈ recordPublishOutcome id topic outcome) (h : f.underWay c = true) : f.recordsFailure c = true := by
  rcases of_mem_recordPublishOutcome hf with ⟨-, hf⟩ | ⟨failure, -, ⟨-, rfl⟩ | ⟨-, hf | hf⟩⟩
  · rcases List.mem_pair.mp hf with rfl | rfl <;> cases h
  · cases h
  · cases List.mem_singleton.mp hf
    exact h
  · rcases List.mem_pair.mp hf with rfl | rfl <;> cases h

/-- The breaker of `c` lets a request through. -/
def Admits (c : String) (s : AppState) (op : Op) : Prop :=
  (∃ request, op = .authBlockReason c request) ∧ s.connections.authBlockReason c = none

/-- **What puts a request under way**: the breaker, or what is under way itself. Behind a broker there is only
the record. -/
theorem Leads.underWay (h : Leads decoders s op input f) (hf : f.underWay c = true) :
    Admits c s op ∨ op.underWay c = true ∧ op.recordsFailure c = false ∧
      (op.asksBroker c = true → f.recordsFailure c = true) := by
  have hon : f.on = some c := by
    cases f <;> simp_all [Op.underWay, Op.on]
  have hopOn : op.on = some c := (h.on_eq.resolve_left (by simp [hon])).symm.trans hon
  cases h with
  | admitted hb =>
    cases Option.some.inj hopOn
    exact Or.inl ⟨⟨_, rfl⟩, hb⟩
  | blocks hb hm => rcases List.mem_pair.mp hm with rfl | rfl <;> cases hf
  | refused hb hm | unloaded hm =>
    rw [not_underWay_of_mem_refuse hm] at hf
    cases hf
  | loaded | metadata | admin | connected | encoded | noMetadata | noAdmin =>
    exact Or.inr ⟨decide_eq_true (Option.some.inj hopOn), rfl, fun h => by cases h⟩
  | answered hm =>
    exact Or.inr ⟨decide_eq_true (Option.some.inj hopOn), rfl, fun _ => records_of_mem_settle hm hf⟩
  | failed hm => exact Or.inr ⟨decide_eq_true (Option.some.inj hopOn), rfl, fun _ => records_of_mem_fail hm hf⟩
  | panicked hm => exact Or.inr ⟨decide_eq_true (Option.some.inj hopOn), rfl, fun _ => records_of_mem_settle hm hf⟩
  | published hm =>
    exact Or.inr ⟨decide_eq_true (Option.some.inj hopOn), rfl,
      fun _ => records_of_mem_recordPublishOutcome hm hf⟩
  | reread hm =>
    rcases of_mem_reread hm with hm | hm | rfl
    · rcases List.mem_pair.mp hm with rfl | rfl <;> cases hf
    · rcases List.mem_pair.mp hm with rfl | rfl <;> cases hf
    · cases hf
  | forgotten hm =>
    rcases of_mem_forget hm with hm | hm | hm | rfl
    · rcases List.mem_pair.mp hm with rfl | rfl <;> cases hf
    · rcases List.mem_pair.mp hm with rfl | rfl <;> cases hf
    · rcases List.mem_pair.mp hm with rfl | rfl <;> cases hf
    · cases hf
  | begun | cancels | updated | deleted | responds => cases hf

theorem underWay_next (h : next decoders s op input = some ops) :
    ops.countP (Op.underWay c) = 0 ∨ ops.countP (Op.underWay c) = 1 ∧
      (Admits c s op ∨ op.underWay c = true ∧ op.recordsFailure c = false) := by
  rcases Nat.eq_zero_or_pos (ops.countP (Op.underWay c)) with hzero | hpos
  · exact Or.inl hzero
  · obtain ⟨f, hf, hway⟩ := List.countP_pos_iff.mp hpos
    have hone := countP_next_le (c := c) h
    exact Or.inr ⟨by omega, ((leads_of_mem_next h hf).underWay hway).imp_right fun h => ⟨h.1, h.2.1⟩⟩

theorem record_mem_fail {report : Report} (hcounts : request.counts = true)
    (hreport : report.error = .authentication) :
    .authFailuresRecord id (reportReasons report) ∈ fail id request report := by
  have hrecord : .authFailuresRecord id (reportReasons report) ∈ record id request (.error report) := by
    have houtcome : .authFailuresRecord id (reportReasons report) ∈ recordAuthOutcome id (.error report) := by
      rw [recordAuthOutcome, if_pos hreport]
      exact List.mem_cons_self
    unfold record
    split
    · cases hcounts
    · cases hcounts
    · cases hcounts
    · exact houtcome
  unfold fail settle
  simp only [List.mem_append]
  exact Or.inr (Or.inl (Or.inl (Or.inr hrecord)))

theorem record_mem_recordPublishOutcome {topic : String} {outcome : PublishOutcome}
    (h : (outcome.failure.any fun failure => failure.kind = .authentication) = true) :
    ∃ reason, .authFailuresRecord id reason ∈ recordPublishOutcome id topic outcome := by
  cases hfailure : outcome.failure with
  | none =>
    rw [hfailure] at h
    cases h
  | some failure =>
    rw [hfailure] at h
    refine ⟨failure.reason, List.mem_append_right _ ?_⟩
    simp only [hfailure, of_decide_eq_true (p := failure.kind = .authentication) h]
    exact List.mem_cons_self

theorem records_of_rejects (h : next decoders s op input = some ops) (hop : op.triesCredentials c = true)
    (hrejects : rejects c op input = true) : 0 < ops.countP (Op.recordsFailure c) := by
  rw [List.countP_pos_iff]
  cases op <;> simp only [Op.triesCredentials, Bool.false_eq_true] at hop
  case broker connection request =>
    cases input <;> simp only [rejects, Bool.false_eq_true] at hrejects
    obtain ⟨hboth, hreport⟩ := Bool.and_eq_true_iff.mp hrejects
    obtain ⟨hid, hcounts⟩ := Bool.and_eq_true_iff.mp hboth
    simp only [next, Option.some.injEq] at h
    subst h
    exact ⟨_, record_mem_fail hcounts (of_decide_eq_true hreport), hid⟩
  case produce connection call records =>
    cases input <;> simp only [rejects, Bool.false_eq_true] at hrejects
    obtain ⟨hid, hfailure⟩ := Bool.and_eq_true_iff.mp hrejects
    simp only [next, Option.some.injEq] at h
    subst h
    obtain ⟨reason, hmem⟩ := record_mem_recordPublishOutcome hfailure
    exact ⟨_, List.mem_append_left _ hmem, hid⟩

/-! ## The count -/

theorem countFailures_eq {n r : ℕ} (hop : op ≠ .authFailuresRemove c)
    (h : min n maxAuthAttempts = min r maxAuthAttempts) :
    min (op.countFailures c n) maxAuthAttempts =
      min (r + if op.recordsFailure c then 1 else 0) maxAuthAttempts := by
  cases op with
  | authFailuresRecord id reason =>
    simp only [Op.countFailures, Op.recordsFailure, maxAuthAttempts, decide_eq_true_eq] at h ⊢
    split_ifs <;> omega
  | authFailuresRemove id =>
    have hid : ¬ id = c := fun heq => hop (heq ▸ rfl)
    rw [Op.countFailures, if_neg hid]
    exact h
  | _ => exact h

theorem not_underWay_of_mem_script {command : Command} (hf : f ∈ command.script) : f.underWay c = false := by
  revert f
  cases command <;>
    simp [Command.script, clearAuthFailures, connectionForRequest, markDisconnected, cancelAllForConnection,
      release, dropPooledClient, beginForConnection, Op.underWay]

theorem underWay_of_records (h : op.recordsFailure c = true) : op.underWay c = true := by
  cases op <;> first | exact h | cases h

end

/-! ## Runs -/

section

variable {decoders : Decoders} {c : String} {w u : World} {e : Event} {es : List Event} {k bound r : ℕ}

theorem performs_act (p : Op → Bool) (t : ℕ) (op : Op) (input : Input) : Performs p (.act t op input) = p op := rfl

/-- What one step does to the records, the requests in flight and the brokers that were asked. -/
structure StormStep (c : String) (w u : World) (e : Event) (r r' : ℕ) : Prop where
  count : min (u.shared.connections.attempts c) maxAuthAttempts = min r' maxAuthAttempts
  /-- Requests come under way in front of a breaker that has not tripped, and else not. -/
  flight : r' + inFlight c u ≤ r + inFlight c w ∨ r' = r ∧ r < maxAuthAttempts
  asked : r + w.pending (Op.recordsFailure c) + (if Performs (Op.triesCredentials c) e then 1 else 0) ≤
    r' + u.pending (Op.recordsFailure c)

theorem stormStep (hclear : Uncleared c e) (hrejected : Rejected c e)
    (hcount : min (w.shared.connections.attempts c) maxAuthAttempts = min r maxAuthAttempts)
    (hstep : Script.step (session decoders) w e = some u) :
    StormStep c w u e r (r + if Performs (Op.recordsFailure c) e then 1 else 0) := by
  cases e with
  | invoke command =>
    have hflight := Script.pending_invoke (p := Op.underWay c) hstep
    have hrecords := Script.pending_invoke (p := Op.recordsFailure c) hstep
    have hnone : ∀ f ∈ (session decoders).script command, f.underWay c ≠ true := fun f hf =>
      Bool.eq_false_iff.mp (not_underWay_of_mem_script hf)
    rw [List.countP_eq_zero.mpr hnone] at hflight
    rw [List.countP_eq_zero.mpr fun f hf h => hnone f hf (underWay_of_records h)] at hrecords
    refine ⟨?_, Or.inl ?_, ?_⟩
    · rw [(Script.step_invoke_script hstep).1]
      exact hcount
    · exact Nat.add_le_add_left hflight.le r
    · exact Nat.add_le_add_left hrecords.ge r
  | act t op input =>
    obtain ⟨next, hp, hflight⟩ := Script.pending_act (p := Op.underWay c) hstep
    obtain ⟨next', hp', hrecords⟩ := Script.pending_act (p := Op.recordsFailure c) hstep
    cases hp.symm.trans hp'
    obtain ⟨hnext, hshared⟩ := perform_eq_some.mp hp
    refine ⟨?_, ?_, ?_⟩
    · rw [hshared, effect_attempts]
      exact countFailures_eq hclear hcount
    · rw [performs_act, inFlight, inFlight]
      rcases underWay_next (c := c) hnext with hnone | ⟨hone, ⟨⟨request, rfl⟩, hopen⟩ | ⟨hway, hnot⟩⟩
      · refine Or.inl ?_
        by_cases hrecord : op.recordsFailure c = true
        · rw [if_pos (underWay_of_records hrecord)] at hflight
          rw [if_pos hrecord]
          omega
        · rw [if_neg hrecord]
          omega
      · refine Or.inr ⟨rfl, ?_⟩
        have hlt : ¬ maxAuthAttempts ≤ w.shared.connections.attempts c := fun h => by
          have hblocked := ConnectionRegistry.authBlockReason_isSome.mpr h
          rw [hopen] at hblocked
          cases hblocked
        omega
      · rw [if_pos hway] at hflight
        rw [hnot, if_neg Bool.false_ne_true]
        omega
    · rw [performs_act, performs_act]
      by_cases htries : op.triesCredentials c = true
      · have hpos := records_of_rejects hnext htries (hrejected htries)
        rw [if_pos htries]
        omega
      · rw [if_neg htries]
        omega

theorem storm_run {w' : World} (hbound : maxAuthAttempts - 1 + k ≤ bound) (hflight : r + inFlight c w ≤ bound)
    (hcount : min (w.shared.connections.attempts c) maxAuthAttempts = min r maxAuthAttempts)
    (hclear : ∀ e ∈ es, Uncleared c e) (hrejected : ∀ e ∈ es, Rejected c e)
    (hwithin : Machine.Always (Script.step (session decoders)) (fun w => inFlight c w ≤ k) w es)
    (hrun : Machine.run (Script.step (session decoders)) w es = some w') :
    r + w.pending (Op.recordsFailure c) + es.countP (Performs (Op.triesCredentials c)) ≤ bound := by
  induction es generalizing w r with
  | nil =>
    have hle : w.pending (Op.recordsFailure c) ≤ inFlight c w := Script.pending_mono fun _ => underWay_of_records
    rw [List.countP_nil]
    omega
  | cons e es ih =>
    obtain ⟨u, hu, hr⟩ := Machine.run_cons_some _ hrun
    obtain ⟨hcu, hfu, hau⟩ := stormStep (hclear e List.mem_cons_self) (hrejected e List.mem_cons_self) hcount hu
    have hk : inFlight c u ≤ k := by
      have hrest := hwithin.2 u hu
      cases es with
      | nil => exact hrest
      | cons f fs => exact hrest.1
    have hrest := ih (by omega) hcu (fun f hf => hclear f (List.mem_cons_of_mem e hf))
      (fun f hf => hrejected f (List.mem_cons_of_mem e hf)) (hwithin.2 u hu) hr
    rw [List.countP_cons]
    omega

/-- What a request of `c` does before its broker has answered. -/
def Op.beforeAnswer (c : String) (op : Op) : Bool := op.underWay c && !op.recordsFailure c

theorem countP_beforeAnswer {s : AppState} {op : Op} {input : Input} {ops : List Op}
    (hblocked : maxAuthAttempts ≤ s.connections.attempts c) (h : next decoders s op input = some ops) :
    (if op.asksBroker c then 1 else 0) + ops.countP (Op.beforeAnswer c) ≤ if op.beforeAnswer c then 1 else 0 := by
  have hle : ops.countP (Op.beforeAnswer c) ≤ 1 :=
    (List.countP_mono_left fun f _ hf => (Bool.and_eq_true_iff.mp hf).1).trans (countP_next_le h)
  have hbefore : ops.countP (Op.beforeAnswer c) = 0 ∨ op.beforeAnswer c = true ∧ op.asksBroker c = false := by
    rcases Nat.eq_zero_or_pos (ops.countP (Op.beforeAnswer c)) with hzero | hpos
    · exact Or.inl hzero
    · obtain ⟨f, hf, hwaits⟩ := List.countP_pos_iff.mp hpos
      obtain ⟨hway, hnot⟩ := Bool.and_eq_true_iff.mp hwaits
      rcases (leads_of_mem_next h hf).underWay hway with ⟨-, hopen⟩ | ⟨hop, hrecords, hasks⟩
      · have hclosed := ConnectionRegistry.authBlockReason_isSome.mpr hblocked
        rw [hopen] at hclosed
        cases hclosed
      · refine Or.inr ⟨Bool.and_eq_true_iff.mpr ⟨hop, by rw [hrecords]; rfl⟩, ?_⟩
        by_contra hasked
        rw [hasks (Bool.not_eq_false _ ▸ hasked)] at hnot
        cases hnot
  have hasksBefore : op.asksBroker c = true → op.beforeAnswer c = true := by
    intro hasks
    cases op <;> first | cases hasks | exact Bool.and_eq_true_iff.mpr ⟨hasks, rfl⟩
  rcases hbefore with hzero | ⟨hop, hasks⟩
  · rw [hzero, Nat.add_zero]
    split_ifs with hasks hop hop
    · exact le_rfl
    · exact absurd (hasksBefore hasks) hop
    · exact Nat.zero_le 1
    · exact le_rfl
  · rw [hasks, hop, if_neg Bool.false_ne_true, if_pos rfl, Nat.zero_add]
    exact hle

/-- Behind a breaker that has tripped, brokers are asked by those in flight and by nobody else. -/
theorem asks_run {w' : World} (hblocked : maxAuthAttempts ≤ w.shared.connections.attempts c)
    (hclear : ∀ e ∈ es, Uncleared c e)
    (hrun : Machine.run (Script.step (session decoders)) w es = some w') :
    es.countP (Performs (Op.asksBroker c)) ≤ w.pending (Op.beforeAnswer c) := by
  induction es generalizing w with
  | nil => exact Nat.zero_le _
  | cons e es ih =>
    obtain ⟨u, hu, hr⟩ := Machine.run_cons_some _ hrun
    have hrest := fun hblocked => @ih u hblocked (fun f hf => hclear f (List.mem_cons_of_mem e hf)) hr
    rw [List.countP_cons]
    cases e with
    | invoke command =>
      have hpending := Script.pending_invoke (p := Op.beforeAnswer c) hu
      have hrest := hrest (by rwa [(Script.step_invoke_script hu).1])
      rw [List.countP_eq_zero.mpr fun f hf h => ?_] at hpending
      · rw [Performs, if_neg Bool.false_ne_true]
        omega
      · have hway := (Bool.and_eq_true_iff.mp h).1
        rw [not_underWay_of_mem_script hf] at hway
        cases hway
    | act t op input =>
      obtain ⟨next, hp, hpending⟩ := Script.pending_act (p := Op.beforeAnswer c) hu
      obtain ⟨hnext, hshared⟩ := perform_eq_some.mp hp
      have hstays := countFailures_eq (hclear _ List.mem_cons_self)
        (rfl : min (w.shared.connections.attempts c) maxAuthAttempts = _)
      have hrest := hrest (by rw [hshared, effect_attempts]; omega)
      have hone := countP_beforeAnswer hblocked hnext
      rw [performs_act]
      omega

end

/-! ## Three listings at once -/

instance (c : String) : ∀ e, Decidable (Uncleared c e)
  | .invoke _ => inferInstanceAs (Decidable True)
  | .act _ op _ => inferInstanceAs (Decidable (op ≠ .authFailuresRemove c))

instance (c : String) : ∀ e, Decidable (Rejected c e)
  | .invoke _ => inferInstanceAs (Decidable True)
  | .act _ op input => inferInstanceAs (Decidable (op.triesCredentials c = true → rejects c op input = true))

/-- All have passed the breaker before the first is rejected; the second rejection trips it. -/
def threeListings : List Event :=
  List.replicate 3 (.invoke (.query "c1" .listBrokers)) ++ loadEvents 0 ++ loadEvents 1 ++ loadEvents 2 ++
    rejectedEvents 0 ordersConnection false ++ rejectedEvents 1 ordersConnection true ++
      rejectedEvents 2 ordersConnection true

end OffsetExplorer.Session
