import OffsetExplorer.Session.Effect

/-!
# The steps of a fetch

Which steps belong to the fetch of a request, who performs them and in which order.

* `Op.fetchId`, `label_of_mem_script`: the steps of a fetch are those of the command that was started for
  its request.
* `Op.serves`, `entry_of_mem_script`: whoever holds a flag has registered for it.
* `not_begun`: a fetch registers once.
* `owes_next`: a fetch that has registered will be forgotten.
-/

namespace OffsetExplorer.Session

/-- The id under which a request is registered, if it is a fetch. -/
def Request.fetchId : Request → Option String
  | .fetchMessages requestId _ => some requestId
  | _ => none

/-- The id under which a command is registered, if it is a fetch. -/
def Command.fetchId : Command → Option String
  | .fetchMessages _ requestId => some requestId
  | _ => none

/-- The request whose fetch an operation is a step of. -/
def Op.fetchId : Op → Option String
  | .ownersInsert requestId _ | .flagsEntry requestId _ | .flagsRemove requestId
  | .ownersRemove requestId => some requestId
  | .authBlockReason _ request | .dbGet _ request | .metadataClient _ request
  | .adminClient _ request | .broker _ request => request.fetchId
  | _ => none

/-- The operation is a step of the fetch of a request, which holds `flag`. -/
def Op.serves (requestId : String) (flag : ℕ) : Op → Bool
  | .authBlockReason _ request | .dbGet _ request | .metadataClient _ request
  | .adminClient _ request | .broker _ request => request = .fetchMessages requestId flag
  | _ => false

/-- The operation registers a fetch for its flag. -/
def Op.enters (requestId : String) : Op → Bool
  | .flagsEntry r _ => r = requestId
  | _ => false

/-- The requests for which fetches are started. -/
def fetchIds (es : List Event) : List String := (Script.labels es).filterMap Command.fetchId

variable {decoders : Decoders} {requestId : String} {flag : ℕ}

section

variable {s : AppState} {op f : Op} {input : Input} {id : String} {request : Request}

theorem fetchId_of_mem_finish (hf : f ∈ finish requestId) : f.fetchId = some requestId := by
  simp only [finish, List.mem_cons, List.not_mem_nil, or_false] at hf
  rcases hf with rfl | rfl <;> rfl

theorem fetchId_of_mem_clearAuthFailures (hf : f ∈ clearAuthFailures id) : f.fetchId = none := by
  simp only [clearAuthFailures, List.mem_cons, List.not_mem_nil, or_false] at hf
  rcases hf with rfl | rfl <;> rfl

theorem fetchId_of_mem_markDisconnected (hf : f ∈ markDisconnected id) : f.fetchId = none := by
  simp only [markDisconnected, List.mem_cons, List.not_mem_nil, or_false] at hf
  rcases hf with rfl | rfl <;> rfl

theorem fetchId_of_mem_release (hf : f ∈ release id) : f.fetchId = none := by
  simp only [release, dropPooledClient, List.mem_cons, List.not_mem_nil, or_false] at hf
  rcases hf with rfl | rfl <;> rfl

theorem fetchId_of_mem_settle {result : Except Report Unit} (hf : f ∈ settle id request result) :
    f.fetchId = none ∨ f.fetchId = request.fetchId := by
  rcases of_mem_settle hf with ⟨r, flag, rfl, hfinish⟩ | hf | ⟨-, -, rfl⟩ | rfl
  · exact Or.inr (fetchId_of_mem_finish hfinish)
  · rcases of_mem_record hf with ⟨-, hf⟩ | ⟨report, -, -, ⟨-, hf⟩ | hf⟩
    · exact Or.inl (fetchId_of_mem_clearAuthFailures hf)
    · cases List.mem_singleton.mp hf
      exact Or.inl rfl
    · exact Or.inl (fetchId_of_mem_release hf)
  · exact Or.inl rfl
  · rcases result with report | ⟨⟩ <;> exact Or.inl rfl

theorem fetchId_of_mem_fail {report : Report} (hf : f ∈ fail id request report) :
    f.fetchId = none ∨ f.fetchId = request.fetchId := by
  rcases of_mem_fail hf with hf | hf
  · exact Or.inl (fetchId_of_mem_release hf)
  · exact fetchId_of_mem_settle hf

theorem fetchId_of_mem_refuse {message : String} (hf : f ∈ refuse request message) :
    f.fetchId = none ∨ f.fetchId = request.fetchId := by
  rcases of_mem_refuse hf with ⟨r, flag, rfl, hfinish⟩ | rfl
  · exact Or.inr (fetchId_of_mem_finish hfinish)
  · exact Or.inl rfl

/-- **A command stays with its fetch.** -/
theorem Leads.fetchId (h : Leads decoders s op input f) :
    f.fetchId = none ∨ f.fetchId = op.fetchId := by
  cases h with
  | blocks hb hf => exact Or.inl (fetchId_of_mem_markDisconnected hf)
  | refused hb hf => exact fetchId_of_mem_refuse hf
  | unloaded hf => exact fetchId_of_mem_refuse hf
  | loaded hg hf =>
    rcases of_mem_useConnection hf with ⟨call, -, rfl⟩ | rfl | rfl
    · exact Or.inl rfl
    · exact Or.inr rfl
    · exact Or.inr rfl
  | noMetadata hf | noAdmin hf | failed hf => exact fetchId_of_mem_fail hf
  | answered hf => exact fetchId_of_mem_settle hf
  | panicked hf => exact fetchId_of_mem_settle hf
  | published hf =>
    rcases of_mem_recordPublishOutcome hf with ⟨-, hf⟩ | ⟨failure, -, ⟨-, rfl⟩ | ⟨-, hf | hf⟩⟩
    · exact Or.inl (fetchId_of_mem_clearAuthFailures hf)
    · exact Or.inl rfl
    · cases List.mem_singleton.mp hf
      exact Or.inl rfl
    · exact Or.inl (fetchId_of_mem_release hf)
  | reread hf =>
    rcases of_mem_reread hf with hf | hf | rfl
    · exact Or.inl (fetchId_of_mem_clearAuthFailures hf)
    · exact Or.inl (fetchId_of_mem_release hf)
    · exact Or.inl rfl
  | forgotten hf =>
    rcases of_mem_forget hf with hf | hf | hf | rfl
    · exact Or.inl (fetchId_of_mem_markDisconnected hf)
    · exact Or.inl (fetchId_of_mem_clearAuthFailures hf)
    · exact Or.inl (fetchId_of_mem_release hf)
    · exact Or.inl rfl
  | cancels | responds => exact Or.inl rfl
  | begun | admitted | metadata | admin => exact Or.inr rfl
  | _ => exact Or.inl rfl

theorem fetchId_of_mem_script {command : Command} (hf : f ∈ command.script) :
    f.fetchId = none ∨ f.fetchId = command.fetchId := by
  cases command with
  | fetchMessages id r =>
    rcases List.mem_cons.mp hf with rfl | hf
    · exact Or.inr rfl
    · cases List.mem_singleton.mp hf
      exact Or.inr rfl
  | _ =>
    left
    revert f
    simp [Command.script, clearAuthFailures, connectionForRequest, markDisconnected,
      cancelAllForConnection, release, dropPooledClient, Op.fetchId, Request.fetchId]

/-! ## The flag of a fetch -/

theorem stage_of_serves (h : op.serves requestId flag = true) : op.isStage = true := by
  cases op <;> first | rfl | exact absurd h Bool.false_ne_true

theorem fetchId_of_serves (h : op.serves requestId flag = true) : op.fetchId = some requestId := by
  cases op <;> first
    | exact absurd h Bool.false_ne_true
    | (unfold Op.fetchId
       rw [show _ = Request.fetchMessages requestId flag from of_decide_eq_true h]
       rfl)

/-- A step holds the flag of a fetch because the one before it did, or has registered for it. -/
theorem Leads.serves (h : Leads decoders s op input f) (hf : f.serves requestId flag = true) :
    op.serves requestId flag = true ∨ (∃ id, op = .flagsEntry requestId id) ∧
      flag = (s.fetchCancellations.entry requestId).2 := by
  have no : f.isStage = false → op.serves requestId flag = true ∨
      (∃ id, op = .flagsEntry requestId id) ∧ flag = (s.fetchCancellations.entry requestId).2 := by
    intro hno
    rw [stage_of_serves hf] at hno
    cases hno
  cases h with
  | begun =>
    cases (of_decide_eq_true hf :)
    exact Or.inr ⟨⟨_, rfl⟩, rfl⟩
  | admitted | metadata | admin => exact Or.inl hf
  | loaded hg hm =>
    rcases of_mem_useConnection hm with ⟨call, rfl, rfl⟩ | rfl | rfl
    · cases hf
    · exact Or.inl hf
    · exact Or.inl hf
  | blocks hb hm => exact no (not_stage_of_mem_markDisconnected hm)
  | refused hb hm => exact no (not_stage_of_mem_refuse hm)
  | unloaded hm => exact no (not_stage_of_mem_refuse hm)
  | noMetadata hm | noAdmin hm | failed hm => exact no (not_stage_of_mem_fail hm)
  | answered hm => exact no (not_stage_of_mem_settle hm)
  | panicked hm => exact no (not_stage_of_mem_settle hm)
  | published hm =>
    rcases of_mem_recordPublishOutcome hm with ⟨-, hm⟩ | ⟨failure, -, ⟨-, rfl⟩ | ⟨-, hm | hm⟩⟩
    · exact no (not_stage_of_mem_clearAuthFailures hm)
    · cases hf
    · cases List.mem_singleton.mp hm
      cases hf
    · exact no (not_stage_of_mem_release hm)
  | reread hm =>
    rcases of_mem_reread hm with hm | hm | rfl
    · exact no (not_stage_of_mem_clearAuthFailures hm)
    · exact no (not_stage_of_mem_release hm)
    · cases hf
  | forgotten hm =>
    rcases of_mem_forget hm with hm | hm | hm | rfl
    · exact no (not_stage_of_mem_markDisconnected hm)
    · exact no (not_stage_of_mem_clearAuthFailures hm)
    · exact no (not_stage_of_mem_release hm)
    · cases hf
  | _ => cases hf

theorem owes_next {ops : List Op} {removal : Op} (hremoval : removal ∈ finish requestId)
    (h : next decoders s op input = some ops) (hop : op.serves requestId flag = true) :
    ∃ f ∈ ops, f = removal ∨ f.serves requestId flag = true := by
  have hsettle : ∀ id result, removal ∈ settle id (.fetchMessages requestId flag) result := by
    intro id result
    simp [settle, hremoval]
  have hfail : ∀ id report, removal ∈ fail id (.fetchMessages requestId flag) report :=
    fun id report => List.mem_append_right _ (hsettle id _)
  have hrefuse : ∀ message, removal ∈ refuse (.fetchMessages requestId flag) message :=
    fun message => List.mem_append_left _ hremoval
  cases op <;> try (exact absurd hop Bool.false_ne_true)
  all_goals
    have hrequest := (of_decide_eq_true hop :)
    subst hrequest
    cases input <;> simp only [next, reduceCtorEq, Option.some.injEq] at h
  case authBlockReason.ok id =>
    subst h
    split
    · exact ⟨removal, hrefuse _, Or.inl rfl⟩
    · exact ⟨_, List.mem_singleton_self _, Or.inr hop⟩
  case dbGet.ok id =>
    subst h
    split
    · exact ⟨_, List.mem_singleton_self _, Or.inr hop⟩
    · exact ⟨removal, hrefuse _, Or.inl rfl⟩
  case dbGet.error id report =>
    subst h
    exact ⟨removal, hrefuse _, Or.inl rfl⟩
  case metadataClient.ok connection =>
    subst h
    exact ⟨_, List.mem_singleton_self _, Or.inr hop⟩
  case metadataClient.error connection report =>
    rw [Option.ite_none_left_eq_some, Option.some.injEq] at h
    exact ⟨removal, h.2 ▸ hfail _ _, Or.inl rfl⟩
  case adminClient.ok connection =>
    subst h
    exact ⟨_, List.mem_singleton_self _, Or.inr hop⟩
  case adminClient.error connection report =>
    rw [Option.ite_none_left_eq_some, Option.some.injEq] at h
    exact ⟨removal, h.2 ▸ hfail _ _, Or.inl rfl⟩
  case broker.ok connection =>
    subst h
    exact ⟨removal, hsettle _ _, Or.inl rfl⟩
  case broker.error connection report =>
    subst h
    exact ⟨removal, hfail _ _, Or.inl rfl⟩
  case broker.panicked connection =>
    obtain ⟨text, -, rfl⟩ := Option.map_eq_some_iff.mp h
    exact ⟨removal, hsettle _ _, Or.inl rfl⟩

/-- The operation registers a fetch. -/
def Op.begins : Op → Bool
  | .ownersInsert _ _ | .flagsEntry _ _ => true
  | _ => false

theorem begins_of_mem_script {command : Command} (hf : f ∈ command.script)
    (hid : f.fetchId = some requestId) : f.begins = true := by
  cases command with
  | fetchMessages id r =>
    rcases List.mem_cons.mp hf with rfl | hf
    · rfl
    · cases List.mem_singleton.mp hf
      rfl
  | _ =>
    rcases fetchId_of_mem_script hf with h | h
    · rw [hid] at h
      cases h
    · rw [hid] at h
      cases h

theorem Leads.registered (h : Leads decoders s op input f) (hf : f.fetchId = some requestId) :
    op.enters requestId = true ∨ op.fetchId = some requestId ∧ op.begins = false := by
  have hop : op.fetchId = some requestId := by
    rcases h.fetchId with hno | heq
    · rw [hf] at hno
      cases hno
    · rw [← heq, hf]
  cases op with
  | flagsEntry r id => exact Or.inl (decide_eq_true (Option.some.inj hop))
  | ownersInsert r id =>
    cases h with
    | responds => cases hf
  | _ => exact Or.inr ⟨hop, rfl⟩

theorem Leads.not_enters (h : Leads decoders s op input f) : f.enters requestId = false := by
  rcases h.stages with hno | hst
  · cases f <;> first | rfl | exact absurd hno (by simp [Op.isStage])
  · cases hst with
    | loaded hg hm => rcases of_mem_useConnection hm with ⟨call, -, rfl⟩ | rfl | rfl <;> rfl
    | _ => rfl

theorem countP_enters_script (command : Command) :
    command.script.countP (Op.enters requestId) ≤ 1 := by
  cases command with
  | fetchMessages id r =>
    show List.countP _ [Op.ownersInsert r id, Op.flagsEntry r id] ≤ 1
    rw [List.countP_cons_of_neg (by exact Bool.false_ne_true), List.countP_singleton]
    split_ifs <;> omega
  | _ => exact Nat.zero_le 1

end

/-! ## Runs -/

section

variable {s : AppState} {w : World} {es : List Event} {t u : ℕ} {op : Op} {input : Input}

theorem label_of_mem_script (hrun : Machine.run (Script.step (session decoders)) (.start s) es = some w)
    (hop : op ∈ w.script t) (hid : op.fetchId = some requestId) :
    ∃ label, (Script.labels es)[t]? = some label ∧ label.fetchId = some requestId := by
  obtain ⟨task, ht, hop⟩ := Script.task_of_mem_script hop
  have hconfined := Script.run_confined (Q := fun _ => True) (S := session decoders)
    (P := fun _ label op => op.fetchId = none ∨ op.fetchId = Command.fetchId label)
    (C := fun _ _ => True) (fun w label _ op hop => fetchId_of_mem_script hop)
    (fun w t label op input s next _ _ hP hp => ⟨trivial, fun f hf => by
      rcases (leads_of_mem_next (perform_eq_some.mp hp).1 hf).fetchId with hno | heq
      · exact Or.inl hno
      · rw [heq]
        exact hP⟩)
    (Machine.allSteps_of_forall (fun _ _ => trivial) _ _)
    ⟨trivial, fun t task ht => by cases ht⟩ hrun
  refine ⟨task.label, Script.label_of_run hrun ht, ?_⟩
  rcases hconfined.1.pending t task ht op hop with hno | heq
  · rw [hid] at hno
    cases hno
  · rw [← heq, hid]

theorem unique_task (hunique : (fetchIds es).Nodup) {a b : Command}
    (ht : (Script.labels es)[t]? = some a) (hu : (Script.labels es)[u]? = some b)
    (ha : a.fetchId = some requestId) (hb : b.fetchId = some requestId) : t = u := by
  have hpairs := List.pairwise_filterMap.mp hunique
  rw [List.pairwise_iff_getElem] at hpairs
  obtain ⟨hlt, rfl⟩ := List.getElem?_eq_some_iff.mp ht
  obtain ⟨hltu, rfl⟩ := List.getElem?_eq_some_iff.mp hu
  rcases Nat.lt_trichotomy t u with h | h | h
  · exact absurd rfl (hpairs t u hlt hltu h _ ha _ hb)
  · exact h
  · exact absurd rfl (hpairs u t hltu hlt h _ hb _ ha)

theorem entry_of_mem_script
    (hrun : Machine.run (Script.step (session decoders)) (.start s) es = some w)
    (hop : op ∈ w.script t) (hid : op.fetchId = some requestId) (hbegins : op.begins = false) :
    ∃ f i, f.enters requestId = true ∧ .act t f i ∈ es := by
  refine Script.run_preceded (K := fun f => f.enters requestId = true)
    (L := fun f => f.fetchId = some requestId ∧ f.begins = false) ?_ ?_ hrun t op hop ⟨hid, hbegins⟩
  · rintro command f hf ⟨hid, hbegins⟩
    rw [begins_of_mem_script hf hid] at hbegins
    cases hbegins
  · rintro s op input s' next hp f hf ⟨hid, -⟩
    exact (leads_of_mem_next (perform_eq_some.mp hp).1 hf).registered hid

/-- **A fetch registers once.** Before it does, nothing of its request has happened that comes after. -/
theorem not_begun (hunique : (fetchIds es).Nodup)
    (hrun : Machine.run (Script.step (session decoders)) (.start s) es = some w) {id : String}
    (hentry : .flagsEntry requestId id ∈ w.script t) :
    (∀ u op, op ∈ w.script u → op.fetchId = some requestId → op.begins = true) ∧
      ∀ u op i, .act u op i ∈ es → op.fetchId = some requestId → op.begins = true := by
  obtain ⟨a, ht, ha⟩ := label_of_mem_script hrun hentry rfl
  -- whoever has registered is this command, which has its registration still to do
  have hnone : ∀ u f i, f.enters requestId = true → .act u f i ∈ es → False := by
    intro u f i hf hmem
    obtain ⟨pre, post, v, rfl, hv, hpending⟩ := Script.exists_of_mem hrun hmem
    have hid : f.fetchId = some requestId := by
      cases f <;> first | exact absurd hf Bool.false_ne_true | exact congrArg some (of_decide_eq_true hf)
    obtain ⟨b, hu, hb⟩ := label_of_mem_script hv hpending hid
    have htu := unique_task hunique ht (Script.label_append hu) ha hb
    subst htu
    have hone := (Script.run_once (K := Op.enters requestId) countP_enters_script
      (fun s op input s' next hp f hf =>
        (leads_of_mem_next (perform_eq_some.mp hp).1 hf).not_enters) hrun t).2
    have hdone : 0 < (pre ++ .act t f i :: post).countP (Script.performs (Op.enters requestId) t) :=
      List.countP_pos_iff.mpr ⟨_, hmem, by simp [Script.performs, hf]⟩
    have htodo : 0 < (w.script t).countP (Op.enters requestId) :=
      List.countP_pos_iff.mpr ⟨_, hentry, decide_eq_true rfl⟩
    omega
  refine ⟨fun u op hop hid => ?_, fun u op i hmem hid => ?_⟩
  · by_contra hbegins
    obtain ⟨f, i, hf, hmem⟩ := entry_of_mem_script hrun hop hid (Bool.not_eq_true _ ▸ hbegins)
    exact hnone u f i hf hmem
  · by_contra hbegins
    obtain ⟨pre, post, v, rfl, hv, hpending⟩ := Script.exists_of_mem hrun hmem
    obtain ⟨f, j, hf, hpre⟩ := entry_of_mem_script hv hpending hid (Bool.not_eq_true _ ▸ hbegins)
    exact hnone u f j hf (List.mem_append_left _ hpre)

end

end OffsetExplorer.Session
