import OffsetExplorer.Session.Command

/-!
# What an operation changes, and what it leads to

Everything about a run of commands rests on these facts about one operation.

* `effect_attempts` to `effect_adminClients`: one lemma for each part of the shared state, which
  operations change it and to what.
* `Leads`, **`leads_of_mem_next`**: all that a command can do next, with the conditions under which it
  does; `Leads.on_eq`: it stays with its connection.
* `Leads.stages`: the stages that it goes through, one after the other.
* `accepts`, `rejects`: what the input of an operation says about the credentials.
-/

namespace OffsetExplorer.Session

variable (s : AppState) (op : Op) (input : Input) (c : String)

/-- The rejected attempts on `c` after an operation, from those before. -/
def Op.countFailures : Op → ℕ → ℕ
  | .authFailuresRecord id _, n => if id = c then min (n + 1) (2 ^ 32 - 1) else n
  | .authFailuresRemove id, n => if id = c then 0 else n
  | _, n => n

theorem effect_attempts : (effect s op input).connections.attempts c =
    op.countFailures c (s.connections.attempts c) := by
  cases op <;> cases input <;> try rfl
  all_goals
    simp only [effect, ConnectionRegistry.attempts, ConnectionRegistry.countAuthFailure,
      ConnectionRegistry.forgetAuthFailures, Op.countFailures, Function.update_apply, eq_comm]
    split_ifs with h
    · subst h; rfl
    · rfl

theorem effect_connected : (effect s op input).connections.connected c =
    if op = .connectedInsert c then true
    else if op = .connectedRemove c then false else s.connections.connected c := by
  cases op <;> cases input <;> try rfl
  all_goals
    simp only [effect, ConnectionRegistry.insertConnected, ConnectionRegistry.removeConnected,
      Function.update_apply, Op.connectedInsert.injEq, Op.connectedRemove.injEq, eq_comm,
      reduceCtorEq, if_false]

theorem effect_writeDenied (t : String) (hop : op ≠ .writeDenialsRetain c)
    (h : (s.connections.writeDeniedReason c t).isSome = true) :
    ((effect s op input).connections.writeDeniedReason c t).isSome = true := by
  cases op with
  | writeDenialsInsert id topic reason =>
    show (Function.update s.connections.writeDenials (id, topic) (some reason) (c, t)).isSome = true
    rw [Function.update_apply]
    split_ifs
    · rfl
    · exact h
  | writeDenialsRetain id =>
    have hid : ¬ c = id := fun heq => hop (heq ▸ rfl)
    show (if c = id then none else s.connections.writeDeniedReason c t).isSome = true
    rw [if_neg hid]
    exact h
  | _ => cases input <;> exact h

theorem effect_metadataClients (hop : ∀ connection request, op = .metadataClient connection request →
    input = .ok → connection.id ≠ c) : (effect s op input).kafka.metadataClients c =
      if op = .metadataClientsRemove c then none else s.kafka.metadataClients c := by
  cases op with
  | metadataClientsRemove id =>
    show Function.update s.kafka.metadataClients id none c = _
    simp only [Function.update_apply, Op.metadataClientsRemove.injEq, eq_comm]
  | metadataClient connection request =>
    rw [if_neg (by simp)]
    cases input with
    | ok => exact RdKafkaClient.poolMetadataClient_of_ne (hop connection request rfl rfl)
    | _ => rfl
  | _ => cases input <;> simp [effect, RdKafkaClient.removeAdminClient]

theorem effect_adminClients (hop : ∀ connection request, op = .adminClient connection request →
    input = .ok → connection.id ≠ c) : (effect s op input).kafka.adminClients c =
      if op = .adminClientsRemove c then none else s.kafka.adminClients c := by
  cases op with
  | adminClientsRemove id =>
    show Function.update s.kafka.adminClients id none c = _
    simp only [Function.update_apply, Op.adminClientsRemove.injEq, eq_comm]
  | adminClient connection request =>
    rw [if_neg (by simp)]
    cases input with
    | ok => exact RdKafkaClient.poolAdminClient_of_ne (hop connection request rfl rfl)
    | _ => rfl
  | _ => cases input <;> simp [effect, RdKafkaClient.removeMetadataClient]

/-- What an operation does to the registered fetches. -/
def Op.onFetches (f : FetchCancellations) : Op → FetchCancellations
  | .ownersInsert requestId id => f.insertOwner requestId id
  | .flagsEntry requestId _ => (f.entry requestId).1
  | .flagsCancel requestId => f.cancel requestId
  | .flagsRemove requestId => f.removeFlag requestId
  | .ownersRemove requestId => f.removeOwner requestId
  | _ => f

theorem effect_fetchCancellations :
    (effect s op input).fetchCancellations = op.onFetches s.fetchCancellations := by
  cases op <;> cases input <;> rfl

section Fetches

variable (f : FetchCancellations) {op : Op} {requestId : String} {flag : ℕ}

theorem allocated_onFetches : f.allocated ≤ (op.onFetches f).allocated := by
  cases op <;> first | exact Nat.le_refl _ | exact FetchCancellations.allocated_le_entry

variable {f}

theorem heap_onFetches (hlt : flag < f.allocated) (h : f.heap flag = true) :
    (op.onFetches f).heap flag = true := by
  cases op with
  | flagsEntry r id => exact (FetchCancellations.entry_heap hlt).trans h
  | flagsCancel r =>
    show (f.cancel r).heap flag = true
    rw [FetchCancellations.cancel_heap]
    split_ifs
    · rfl
    · exact (FetchCancellations.entry_heap hlt).trans h
  | _ => exact h

theorem flags_onFetches (hop : op ≠ .flagsRemove requestId)
    (h : f.flags.get? requestId = some flag) : (op.onFetches f).flags.get? requestId = some flag := by
  cases op with
  | flagsEntry r _ | flagsCancel r =>
    show (f.entry r).1.flags.get? requestId = some flag
    unfold FetchCancellations.entry
    split
    · exact h
    · rename_i hr
      show (f.flags.set r f.allocated).get? requestId = some flag
      rw [Record.get?_set_ne _ (by rintro rfl; rw [hr] at h; cases h), h]
  | flagsRemove r =>
    show (f.flags.erase r).get? requestId = some flag
    rw [Record.get?_erase_ne _ (by rintro rfl; exact hop rfl), h]
  | _ => exact h

theorem heap_cancel (h : f.flags.get? requestId = some flag) :
    (f.cancel requestId).heap flag = true := by
  rw [FetchCancellations.cancel_heap, if_pos]
  unfold FetchCancellations.entry
  rw [← Option.some_inj, ← h]
  split
  · rename_i hf
    exact hf
  · rename_i hf
    rw [h] at hf
    cases hf

end Fetches

/-! ## What an operation leads to -/

/-- Whether a rejection of the credentials counts against the connection: those of the group commands
do not, and a publish counts what its outcome says. -/
def Request.counts : Request → Bool
  | .query .listConsumerGroups | .query .fetchConsumerGroupLag | .publish _ => false
  | _ => true

section Methods

variable {f : Op} {id : String} {request : Request} {result : Except Report Unit}

theorem of_mem_record (h : f ∈ record id request result) :
    (result = .ok () ∧ f ∈ recordAuthSuccess id) ∨
      ∃ report, result = .error report ∧ report.error = .authentication ∧
        (request.counts = true ∧ f ∈ recordAuthFailure id (reportReasons report) ∨
          f ∈ release id) := by
  unfold record at h
  rcases result with report | ⟨⟩
  · refine Or.inr ⟨report, rfl, ?_⟩
    split at h
    · grind [recordAuthSuccessOnly]
    · grind [recordAuthSuccessOnly]
    · cases h
    · grind [recordAuthOutcome, Request.counts]
  · refine Or.inl ⟨rfl, ?_⟩
    split at h
    · exact h
    · exact h
    · cases h
    · exact h

theorem of_mem_settle (h : f ∈ settle id request result) :
    (∃ requestId flag, request = .fetchMessages requestId flag ∧ f ∈ finish requestId) ∨
      f ∈ record id request result ∨
        (request = .connect ∧ result = .ok () ∧ f = .connectedInsert id) ∨ f = answer result := by
  unfold settle at h
  split at h <;> split at h <;> simp only [List.mem_append, List.mem_singleton, List.not_mem_nil] at h
  all_goals grind

theorem of_mem_refuse {message : String} (h : f ∈ refuse request message) :
    (∃ requestId flag, request = .fetchMessages requestId flag ∧ f ∈ finish requestId) ∨
      f = .respond (.error message) := by
  unfold refuse at h
  split at h
  · rename_i requestId flag
    rcases List.mem_append.mp h with h | h
    · exact Or.inl ⟨requestId, flag, rfl, h⟩
    · exact Or.inr (List.mem_singleton.mp h)
  · exact Or.inr (List.mem_singleton.mp h)

theorem of_mem_useConnection {connection : Connection} (h : f ∈ useConnection connection request) :
    (∃ call, request = .publish call ∧ f = .isConnected connection call) ∨
      f = .adminClient connection request ∨ f = .metadataClient connection request := by
  unfold useConnection at h
  split at h
  · rename_i call
    exact Or.inl ⟨call, rfl, List.mem_singleton.mp h⟩
  · exact Or.inr (Or.inl (List.mem_singleton.mp h))
  · exact Or.inr (Or.inr (List.mem_singleton.mp h))

theorem of_mem_fail {report : Report} (h : f ∈ fail id request report) :
    f ∈ dropPooledClient id ∨ f ∈ settle id request (.error report) := by
  rcases List.mem_append.mp h with h | h
  · split_ifs at h
    · exact Or.inl h
    · cases h
  · exact Or.inr h

theorem of_mem_recordPublishOutcome {topic : String} {outcome : PublishOutcome}
    (h : f ∈ recordPublishOutcome id topic outcome) :
    (outcome.delivered.isEmpty = false ∧ f ∈ recordAuthSuccess id) ∨
      ∃ failure, outcome.failure = some failure ∧
        (failure.kind = .authorization ∧ f = .writeDenialsInsert id topic failure.reason ∨
          failure.kind = .authentication ∧
            (f ∈ recordAuthFailure id failure.reason ∨ f ∈ release id)) := by
  unfold recordPublishOutcome at h
  rcases List.mem_append.mp h with h | h
  · split_ifs at h with hd
    · cases h
    · exact Or.inl ⟨Bool.not_eq_true _ ▸ hd, h⟩
  · refine Or.inr ?_
    cases hfail : outcome.failure with
    | none =>
      rw [hfail] at h
      cases h
    | some failure =>
      rw [hfail] at h
      refine ⟨failure, rfl, ?_⟩
      cases hk : failure.kind <;> simp only [hk] at h
      · exact Or.inl ⟨rfl, List.mem_singleton.mp h⟩
      · exact Or.inr ⟨rfl, List.mem_append.mp h⟩
      · cases h
      · cases h

theorem of_mem_reread
    (h : f ∈ clearAuthFailures id ++ release id ++ [.schemaRegistryRelease id]) :
    f ∈ clearAuthFailures id ∨ f ∈ release id ∨ f = .schemaRegistryRelease id := by
  simpa only [List.mem_append, List.mem_singleton, or_assoc] using h

theorem of_mem_forget (h : f ∈ markDisconnected id ++ clearAuthFailures id ++ release id ++
    [.schemaRegistryRelease id]) : f ∈ markDisconnected id ∨ f ∈ clearAuthFailures id ∨
      f ∈ release id ∨ f = .schemaRegistryRelease id := by
  simpa only [List.mem_append, List.mem_singleton, or_assoc] using h

end Methods

/-- `Leads decoders s op input f`: in the state `s` the operation `op` with this input has `f` among
what its command does next. -/
inductive Leads (decoders : Decoders) (s : AppState) : Op → Input → Op → Prop where
  | blocks {id reason f}
      (hb : maxAuthAttempts ≤ (s.connections.countAuthFailure id reason).attempts id)
      (hf : f ∈ markDisconnected id) : Leads decoders s (.authFailuresRecord id reason) .ok f
  | begun {requestId id} : Leads decoders s (.flagsEntry requestId id) .ok
      (.authBlockReason id (.fetchMessages requestId (s.fetchCancellations.entry requestId).2))
  | cancels {id requestIds requestId} (hr : requestId ∈ s.fetchCancellations.requestsOf id) :
      Leads decoders s (.ownersOf id) (.order requestIds) (.flagsCancel requestId)
  | refused {id request reason f} (hb : s.connections.authBlockReason id = some reason)
      (hf : f ∈ refuse request (blockedText reason)) :
      Leads decoders s (.authBlockReason id request) .ok f
  | admitted {id request} (hb : s.connections.authBlockReason id = none) :
      Leads decoders s (.authBlockReason id request) .ok (.dbGet id request)
  | loaded {id request connection f} (hg : s.db.get id = some connection)
      (hf : f ∈ useConnection connection request) : Leads decoders s (.dbGet id request) .ok f
  | unloaded {id request input message f} (hf : f ∈ refuse request message) :
      Leads decoders s (.dbGet id request) input f
  | metadata {connection request} :
      Leads decoders s (.metadataClient connection request) .ok (.broker connection request)
  | admin {connection request} :
      Leads decoders s (.adminClient connection request) .ok (.broker connection request)
  | noMetadata {connection request report f} (hf : f ∈ fail connection.id request report) :
      Leads decoders s (.metadataClient connection request) (.error report) f
  | noAdmin {connection request report f} (hf : f ∈ fail connection.id request report) :
      Leads decoders s (.adminClient connection request) (.error report) f
  | answered {connection request f} (hf : f ∈ settle connection.id request (.ok ())) :
      Leads decoders s (.broker connection request) .ok f
  | failed {connection request report f} (hf : f ∈ fail connection.id request report) :
      Leads decoders s (.broker connection request) (.error report) f
  | panicked {connection request text f}
      (hf : f ∈ settle connection.id request (.error ⟨.kafka, [text]⟩)) :
      Leads decoders s (.broker connection request) .panicked f
  | connected {connection call} : Leads decoders s (.isConnected connection call) .ok
      (.writeDenied connection call (s.connections.isConnected connection.id))
  | encoded {connection call connected records}
      (hr : publishRefusal connected connection.allowPublishing
        (s.connections.writeDeniedReason connection.id call.topic) = none)
      (he : encodeMessages decoders call.messages
        (PublishLimits.forMaxMessageSize call.maxMessageSizeBytes) = .ok records) :
      Leads decoders s (.writeDenied connection call connected) .ok
        (.produce connection call records)
  | published {connection call records outcome f}
      (hf : f ∈ recordPublishOutcome connection.id call.topic outcome) :
      Leads decoders s (.produce connection call records) (.outcome outcome) f
  | updated {id new now} (hg : (s.db.get id).isSome = true) :
      Leads decoders s (.dbUpdate id new) (.stamp now) (.dbGetUpdated id)
  | reread {id f}
      (hf : f ∈ clearAuthFailures id ++ release id ++ [.schemaRegistryRelease id]) :
      Leads decoders s (.dbGetUpdated id) .ok f
  | deleted {id} (hg : (s.db.get id).isSome = true) :
      Leads decoders s (.dbDelete id) .ok (.dbDeleteSchemas id)
  | forgotten {id f}
      (hf : f ∈ markDisconnected id ++ clearAuthFailures id ++ release id ++
        [.schemaRegistryRelease id]) : Leads decoders s (.dbDeleteSchemas id) .ok f
  | responds {op input result} : Leads decoders s op input (.respond result)

section

variable {decoders : Decoders} {s : AppState} {op f : Op} {input : Input} {ops : List Op}

/-- The snapshot of a disconnect has every request that is recorded for its connection. -/
theorem cancels_of_owner {id requestId : String} (h : next decoders s (.ownersOf id) input = some ops)
    (howner : s.fetchCancellations.owners.get? requestId = some id) : .flagsCancel requestId ∈ ops := by
  cases input <;> simp only [next, reduceCtorEq] at h
  rw [Option.ite_none_right_eq_some] at h
  obtain ⟨hperm, h⟩ := h
  cases h
  apply List.mem_map_of_mem
  exact hperm.mem_iff.mpr (FetchCancellations.mem_requestsOf.mpr howner)

/-- **What a command does next is what its operation leads to.** -/
theorem leads_of_mem_next (h : next decoders s op input = some ops) (hf : f ∈ ops) :
    Leads decoders s op input f := by
  cases op <;> cases input <;> simp only [next, reduceCtorEq, Option.some.injEq] at h <;>
    try (subst h; cases hf; done)
  case authFailuresRecord id reason =>
    subst h
    split_ifs at hf with hb
    · exact .blocks hb hf
    · cases hf
  case flagsEntry requestId id =>
    subst h
    cases List.mem_singleton.mp hf
    exact .begun
  case ownersOf id requestIds =>
    rw [Option.ite_none_right_eq_some] at h
    obtain ⟨hp, h⟩ := h
    cases h
    obtain ⟨requestId, hr, rfl⟩ := List.mem_map.mp hf
    exact .cancels (hp.mem_iff.mp hr)
  case authBlockReason id request =>
    subst h
    cases hb : s.connections.authBlockReason id with
    | some reason =>
      rw [hb] at hf
      exact .refused hb hf
    | none =>
      rw [hb] at hf
      cases List.mem_singleton.mp hf
      exact .admitted hb
  case dbGet.ok id request =>
    subst h
    cases hg : s.db.get id with
    | some connection =>
      rw [hg] at hf
      exact .loaded hg hf
    | none =>
      rw [hg] at hf
      exact .unloaded hf
  case dbGet.error id request report =>
    subst h
    exact .unloaded hf
  case metadataClient.ok connection request =>
    subst h
    cases List.mem_singleton.mp hf
    exact .metadata
  case metadataClient.error connection request report =>
    rw [Option.ite_none_left_eq_some, Option.some.injEq] at h
    exact .noMetadata (h.2 ▸ hf)
  case adminClient.ok connection request =>
    subst h
    cases List.mem_singleton.mp hf
    exact .admin
  case adminClient.error connection request report =>
    rw [Option.ite_none_left_eq_some, Option.some.injEq] at h
    exact .noAdmin (h.2 ▸ hf)
  case broker.ok connection request =>
    subst h
    exact .answered hf
  case broker.error connection request report =>
    subst h
    exact .failed hf
  case broker.panicked connection request =>
    obtain ⟨text, -, rfl⟩ := Option.map_eq_some_iff.mp h
    exact .panicked hf
  case isConnected connection call =>
    subst h
    cases List.mem_singleton.mp hf
    exact .connected
  case writeDenied connection call connected =>
    subst h
    cases hr : publishRefusal connected connection.allowPublishing
        (s.connections.writeDeniedReason connection.id call.topic) with
    | some refusal =>
      rw [hr] at hf
      cases List.mem_singleton.mp hf
      exact .responds
    | none =>
      rw [hr] at hf
      cases he : encodeMessages decoders call.messages
          (PublishLimits.forMaxMessageSize call.maxMessageSizeBytes) with
      | error report =>
        rw [he] at hf
        cases List.mem_singleton.mp hf
        exact .responds
      | ok records =>
        rw [he] at hf
        cases List.mem_singleton.mp hf
        exact .encoded hr he
  case produce.outcome connection call records outcome =>
    subst h
    rcases List.mem_append.mp hf with hf | hf
    · exact .published hf
    · cases List.mem_singleton.mp hf
      exact .responds
  case dbCreate.ok connection =>
    rw [Option.ite_none_right_eq_some, Option.some.injEq] at h
    cases List.mem_singleton.mp (h.2 ▸ hf)
    exact .responds
  case dbUpdate.stamp id new now =>
    subst h
    split_ifs at hf with hg
    · cases List.mem_singleton.mp hf
      exact .updated hg
    · cases List.mem_singleton.mp hf
      exact .responds
  case dbGetUpdated.ok id =>
    subst h
    split_ifs at hf with hg
    · rcases List.mem_append.mp hf with hf | hf
      · exact .reread (List.mem_append_left _ hf)
      · rcases List.mem_cons.mp hf with rfl | hf
        · exact .reread (List.mem_append_right _ (List.mem_singleton_self _))
        · cases List.mem_singleton.mp hf
          exact .responds
    · cases List.mem_singleton.mp hf
      exact .responds
  case dbDelete.ok id =>
    subst h
    split_ifs at hf with hg
    · cases List.mem_singleton.mp hf
      exact .deleted hg
    · cases List.mem_singleton.mp hf
      exact .responds
  case dbDeleteSchemas.ok id =>
    subst h
    rcases List.mem_append.mp hf with hf | hf
    · exact .forgotten (List.mem_append_left _ hf)
    · rcases List.mem_cons.mp hf with rfl | hf
      · exact .forgotten (List.mem_append_right _ (List.mem_singleton_self _))
      · cases List.mem_singleton.mp hf
        exact .responds
  -- what is left are errors that a command only reports
  all_goals
    subst h
    cases List.mem_singleton.mp hf
    exact .responds

end

/-! ## The connection of an operation -/

/-- The connection that an operation is about. -/
def Op.on : Op → Option String
  | .connectedInsert id | .connectedRemove id | .authFailuresRecord id _ | .authFailuresRemove id
  | .writeDenialsInsert id _ _ | .writeDenialsRetain id | .metadataClientsRemove id
  | .adminClientsRemove id | .schemaRegistryRelease id | .ownersInsert _ id | .flagsEntry _ id
  | .ownersOf id | .authBlockReason id _ | .dbGet id _ | .dbUpdate id _ | .dbGetUpdated id
  | .dbDelete id | .dbDeleteSchemas id => some id
  | .metadataClient connection _ | .adminClient connection _ | .broker connection _
  | .isConnected connection _ | .writeDenied connection _ _ | .produce connection _ _ =>
    some connection.id
  | .flagsCancel _ | .flagsRemove _ | .ownersRemove _ | .dbCreate _ | .respond _ => none

section

variable {decoders : Decoders} {s : AppState} {op f : Op} {input : Input} {id : String}
  {request : Request}

theorem on_of_mem_markDisconnected (hf : f ∈ markDisconnected id) : f.on = some id := by
  simp only [markDisconnected, List.mem_cons, List.not_mem_nil, or_false] at hf
  rcases hf with rfl | rfl <;> rfl

theorem on_of_mem_clearAuthFailures (hf : f ∈ clearAuthFailures id) : f.on = some id := by
  simp only [clearAuthFailures, List.mem_cons, List.not_mem_nil, or_false] at hf
  rcases hf with rfl | rfl <;> rfl

theorem on_of_mem_release (hf : f ∈ release id) : f.on = some id := by
  simp only [release, dropPooledClient, List.mem_cons, List.not_mem_nil, or_false] at hf
  rcases hf with rfl | rfl <;> rfl

theorem on_of_mem_finish {requestId : String} (hf : f ∈ finish requestId) : f.on = none := by
  simp only [finish, List.mem_cons, List.not_mem_nil, or_false] at hf
  rcases hf with rfl | rfl <;> rfl

theorem on_of_mem_settle {result : Except Report Unit} (hf : f ∈ settle id request result) :
    f.on = none ∨ f.on = some id := by
  rcases of_mem_settle hf with ⟨requestId, flag, -, hf⟩ | hf | ⟨-, -, rfl⟩ | rfl
  · exact Or.inl (on_of_mem_finish hf)
  · rcases of_mem_record hf with ⟨-, hf⟩ | ⟨report, -, -, ⟨-, hf⟩ | hf⟩
    · exact Or.inr (on_of_mem_clearAuthFailures hf)
    · cases List.mem_singleton.mp hf
      exact Or.inr rfl
    · exact Or.inr (on_of_mem_release hf)
  · exact Or.inr rfl
  · rcases result with report | ⟨⟩ <;> exact Or.inl rfl

theorem on_of_mem_fail {report : Report} (hf : f ∈ fail id request report) :
    f.on = none ∨ f.on = some id := by
  rcases of_mem_fail hf with hf | hf
  · exact Or.inr (on_of_mem_release hf)
  · exact on_of_mem_settle hf

theorem on_of_mem_refuse {message : String} (hf : f ∈ refuse request message) : f.on = none := by
  rcases of_mem_refuse hf with ⟨requestId, flag, -, hf⟩ | rfl
  · exact on_of_mem_finish hf
  · rfl

/-- **A command stays with its connection.** -/
theorem Leads.on_eq (h : Leads decoders s op input f) : f.on = none ∨ f.on = op.on := by
  cases h with
  | blocks hb hf => exact Or.inr (on_of_mem_markDisconnected hf)
  | refused hb hf => exact Or.inl (on_of_mem_refuse hf)
  | unloaded hf => exact Or.inl (on_of_mem_refuse hf)
  | loaded hg hf =>
    rw [← Database.id_of_get hg]
    rcases of_mem_useConnection hf with ⟨call, -, rfl⟩ | rfl | rfl <;> exact Or.inr rfl
  | noMetadata hf => exact on_of_mem_fail hf
  | noAdmin hf => exact on_of_mem_fail hf
  | failed hf => exact on_of_mem_fail hf
  | answered hf => exact on_of_mem_settle hf
  | panicked hf => exact on_of_mem_settle hf
  | published hf =>
    rcases of_mem_recordPublishOutcome hf with ⟨-, hf⟩ | ⟨failure, -, ⟨-, rfl⟩ | ⟨-, hf | hf⟩⟩
    · exact Or.inr (on_of_mem_clearAuthFailures hf)
    · exact Or.inr rfl
    · cases List.mem_singleton.mp hf
      exact Or.inr rfl
    · exact Or.inr (on_of_mem_release hf)
  | reread hf =>
    rcases of_mem_reread hf with hf | hf | rfl
    · exact Or.inr (on_of_mem_clearAuthFailures hf)
    · exact Or.inr (on_of_mem_release hf)
    · exact Or.inr rfl
  | forgotten hf =>
    rcases of_mem_forget hf with hf | hf | hf | rfl
    · exact Or.inr (on_of_mem_markDisconnected hf)
    · exact Or.inr (on_of_mem_clearAuthFailures hf)
    · exact Or.inr (on_of_mem_release hf)
    · exact Or.inr rfl
  | cancels | responds => exact Or.inl rfl
  | _ => exact Or.inr rfl

end

/-! ## Stages -/

/-- The stages of a command; the other operations are the short steps between them. -/
def Op.isStage : Op → Bool
  | .flagsEntry _ _ | .authBlockReason _ _ | .dbGet _ _ | .metadataClient _ _ | .adminClient _ _
  | .broker _ _ | .isConnected _ _ | .writeDenied _ _ _ | .produce _ _ _ | .dbCreate _
  | .dbUpdate _ _ | .dbGetUpdated _ | .dbDelete _ | .dbDeleteSchemas _ => true
  | _ => false

/-- From one stage of a command to the next. -/
inductive Stages (decoders : Decoders) (s : AppState) : Op → Op → Prop where
  | begun {requestId id flag} : Stages decoders s (.flagsEntry requestId id)
      (.authBlockReason id (.fetchMessages requestId flag))
  | admitted {id request} (hb : s.connections.authBlockReason id = none) :
      Stages decoders s (.authBlockReason id request) (.dbGet id request)
  | loaded {id request connection f} (hg : s.db.get id = some connection)
      (hf : f ∈ useConnection connection request) : Stages decoders s (.dbGet id request) f
  | metadata {connection request} :
      Stages decoders s (.metadataClient connection request) (.broker connection request)
  | admin {connection request} :
      Stages decoders s (.adminClient connection request) (.broker connection request)
  | connected {connection call connected} : Stages decoders s (.isConnected connection call)
      (.writeDenied connection call connected)
  | encoded {connection call connected records}
      (hr : publishRefusal connected connection.allowPublishing
        (s.connections.writeDeniedReason connection.id call.topic) = none) :
      Stages decoders s (.writeDenied connection call connected) (.produce connection call records)
  | updated {id new} : Stages decoders s (.dbUpdate id new) (.dbGetUpdated id)
  | deleted {id} : Stages decoders s (.dbDelete id) (.dbDeleteSchemas id)

section

variable {decoders : Decoders} {s : AppState} {op f : Op} {input : Input} {id : String}
  {request : Request}

theorem not_stage_of_mem_markDisconnected (hf : f ∈ markDisconnected id) : f.isStage = false := by
  simp only [markDisconnected, List.mem_cons, List.not_mem_nil, or_false] at hf
  rcases hf with rfl | rfl <;> rfl

theorem not_stage_of_mem_clearAuthFailures (hf : f ∈ clearAuthFailures id) :
    f.isStage = false := by
  simp only [clearAuthFailures, List.mem_cons, List.not_mem_nil, or_false] at hf
  rcases hf with rfl | rfl <;> rfl

theorem not_stage_of_mem_release (hf : f ∈ release id) : f.isStage = false := by
  simp only [release, dropPooledClient, List.mem_cons, List.not_mem_nil, or_false] at hf
  rcases hf with rfl | rfl <;> rfl

theorem not_stage_of_mem_finish {requestId : String} (hf : f ∈ finish requestId) :
    f.isStage = false := by
  simp only [finish, List.mem_cons, List.not_mem_nil, or_false] at hf
  rcases hf with rfl | rfl <;> rfl

theorem not_stage_of_mem_settle {result : Except Report Unit} (hf : f ∈ settle id request result) :
    f.isStage = false := by
  rcases of_mem_settle hf with ⟨requestId, flag, -, hf⟩ | hf | ⟨-, -, rfl⟩ | rfl
  · exact not_stage_of_mem_finish hf
  · rcases of_mem_record hf with ⟨-, hf⟩ | ⟨report, -, -, ⟨-, hf⟩ | hf⟩
    · exact not_stage_of_mem_clearAuthFailures hf
    · cases List.mem_singleton.mp hf
      rfl
    · exact not_stage_of_mem_release hf
  · rfl
  · rcases result with report | ⟨⟩ <;> rfl

theorem not_stage_of_mem_fail {report : Report} (hf : f ∈ fail id request report) :
    f.isStage = false := by
  rcases of_mem_fail hf with hf | hf
  · exact not_stage_of_mem_release hf
  · exact not_stage_of_mem_settle hf

theorem not_stage_of_mem_refuse {message : String} (hf : f ∈ refuse request message) :
    f.isStage = false := by
  rcases of_mem_refuse hf with ⟨requestId, flag, -, hf⟩ | rfl
  · exact not_stage_of_mem_finish hf
  · rfl

/-- **A command reaches a stage only from the one before it.** -/
theorem Leads.stages (h : Leads decoders s op input f) :
    f.isStage = false ∨ Stages decoders s op f := by
  cases h with
  | blocks hb hf => exact Or.inl (not_stage_of_mem_markDisconnected hf)
  | refused hb hf => exact Or.inl (not_stage_of_mem_refuse hf)
  | unloaded hf => exact Or.inl (not_stage_of_mem_refuse hf)
  | noMetadata hf | noAdmin hf | failed hf => exact Or.inl (not_stage_of_mem_fail hf)
  | answered hf => exact Or.inl (not_stage_of_mem_settle hf)
  | panicked hf => exact Or.inl (not_stage_of_mem_settle hf)
  | published hf =>
    rcases of_mem_recordPublishOutcome hf with ⟨-, hf⟩ | ⟨failure, -, ⟨-, rfl⟩ | ⟨-, hf | hf⟩⟩
    · exact Or.inl (not_stage_of_mem_clearAuthFailures hf)
    · exact Or.inl rfl
    · cases List.mem_singleton.mp hf
      exact Or.inl rfl
    · exact Or.inl (not_stage_of_mem_release hf)
  | reread hf =>
    rcases of_mem_reread hf with hf | hf | rfl
    · exact Or.inl (not_stage_of_mem_clearAuthFailures hf)
    · exact Or.inl (not_stage_of_mem_release hf)
    · exact Or.inl rfl
  | forgotten hf =>
    rcases of_mem_forget hf with hf | hf | hf | rfl
    · exact Or.inl (not_stage_of_mem_markDisconnected hf)
    · exact Or.inl (not_stage_of_mem_clearAuthFailures hf)
    · exact Or.inl (not_stage_of_mem_release hf)
    · exact Or.inl rfl
  | cancels hr => exact Or.inl rfl
  | responds => exact Or.inl rfl
  | begun => exact Or.inr .begun
  | admitted hb => exact Or.inr (.admitted hb)
  | loaded hg hf => exact Or.inr (.loaded hg hf)
  | metadata => exact Or.inr .metadata
  | admin => exact Or.inr .admin
  | connected => exact Or.inr .connected
  | encoded hr he => exact Or.inr (.encoded hr)
  | updated hg => exact Or.inr .updated
  | deleted hg => exact Or.inr .deleted

end

/-! ## The verdict of the broker -/

/-- The credentials of `c` are taken, as far as the input of an operation says so. -/
def accepts (c : String) : Op → Input → Bool
  | .broker connection _, .ok => connection.id = c
  | .produce connection _ _, .outcome outcome => connection.id = c && !outcome.delivered.isEmpty
  | _, _ => false

/-- The credentials of `c` are rejected, and that counts against the connection. -/
def rejects (c : String) : Op → Input → Bool
  | .broker connection request, .error report
  | .metadataClient connection request, .error report
  | .adminClient connection request, .error report =>
    connection.id = c && request.counts && report.error = .authentication
  | .produce connection _ _, .outcome outcome =>
    connection.id = c && outcome.failure.any fun failure => failure.kind = .authentication
  | _, _ => false

end OffsetExplorer.Session
