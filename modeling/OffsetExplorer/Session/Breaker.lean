import OffsetExplorer.Session.Verdict

/-!
# The credential breaker

Commands that run one after another, and what the breaker makes of the answers of the broker.

* `Counts`, **`counts_run`**: the count of the registry is no less than that of the answers, and a blocked
  connection is not connected.
* `Op.bystands`, **`Shut.run`**: while a connection is blocked no command asks Kafka for it.
* `attempts_le`: only rejections raise the count.
* **`breaker_gate`**: the breaker over whole runs.
* `serial_run_session`: a run of commands one after another is a run of the interleaved session.
-/

namespace OffsetExplorer.Session

section

variable {decoders : Decoders} {s : AppState} {op : Op} {input : Input} {ops rest : List Op}
  {c id : String} {request : Request} {v : ℕ × Bool}

/-! ## The count over a run -/

/-- The registry has counted `n` attempts, up to the bound, and a blocked connection is not connected. -/
def Counts (n : ℕ) (v : ℕ × Bool) : Prop :=
  min n maxAuthAttempts ≤ v.1 ∧ (maxAuthAttempts ≤ v.1 → v.2 = false)

theorem Counts.zero {b : Bool} : Counts 0 (0, b) :=
  ⟨Nat.zero_le _, fun h => absurd h (Nat.not_succ_le_zero 1)⟩

theorem Counts.le {m n : ℕ} (h : Counts n v) (hmn : m ≤ n) : Counts m v :=
  ⟨Nat.le_trans (by omega) h.1, h.2⟩

theorem Counts.reject {n : ℕ} (h : Counts n v) : Counts (n + 1) (reject v) := by
  have h1 := h.1
  refine ⟨?_, fun hmax => if_pos hmax⟩
  show min (n + 1) maxAuthAttempts ≤ min (v.1 + 1) (2 ^ 32 - 1)
  rw [maxAuthAttempts] at h1 ⊢
  omega

/-- **The answers and the registry.** One answer keeps the count. -/
theorem Counts.stage {n : ℕ} (hv : Counts n v) (hedits : op.edits c = true → n = 0)
    (h : next decoders s op input = some ops) (hop : op.isStage = true) :
    Counts (account c n (op, input)) (ops.foldl (Op.foresee c) v) := by
  obtain ⟨v', hv', heq⟩ := stage_foresee (c := c) (v := v) h hop
  have hcount : Counts (if accepts c op input = true then 0 else n) v' := by
    rcases hv' with rfl | ⟨h0, hacc | hed⟩
    · refine hv.le ?_
      split_ifs <;> omega
    · rw [if_pos hacc, show v' = (0, v'.2) from Prod.ext h0 rfl]
      exact Counts.zero
    · rw [hedits hed, ite_self, show v' = (0, v'.2) from Prod.ext h0 rfl]
      exact Counts.zero
  rw [heq]
  show Counts ((if accepts c op input = true then 0 else n) +
    if rejects c op input = true then 1 else 0) _
  by_cases hrej : rejects c op input = true
  · rw [if_pos hrej, if_pos hrej]
    exact hcount.reject
  · rw [if_neg hrej, if_neg hrej]
    exact hcount

theorem account_of_not_stage {n : ℕ} (hop : op.isStage = false) : account c n (op, input) = n := by
  cases op <;> first | rfl | exact absurd hop (by simp [Op.isStage])

theorem account_of_edits {n : ℕ} (hop : op.edits c = true) : account c n (op, input) = n := by
  cases op <;> first | rfl | exact absurd hop Bool.false_ne_true

theorem Leads.edits {f : Op} (h : Leads decoders s op input f) (hf : f.edits c = true) :
    op.edits c = true := by
  have hstage : f.isStage = true := by
    cases f <;> first | rfl | exact absurd hf Bool.false_ne_true
  rcases h.stages with hno | hst
  · rw [hstage] at hno
    cases hno
  · cases hst with
    | updated | deleted => exact hf
    | loaded hg hm =>
      rcases of_mem_useConnection hm with ⟨call, -, rfl⟩ | rfl | rfl <;> cases hf
    | _ => cases hf

/-- What holds of a count, the state and the rest of a script. -/
def Running (c : String) (n : ℕ) (s : AppState) (script : List Op) : Prop :=
  Staged script ∧ Counts n (verdict c s script) ∧ ∀ f ∈ script, f.edits c = true → n = 0

theorem Running.step {n : ℕ} {t : AppState} (hI : Running c n s (op :: rest))
    (hp : (session decoders).perform s op input = some (t, ops)) :
    Running c (account c n (op, input)) t (ops ++ rest) := by
  obtain ⟨hstaged, hcounts, hedits⟩ := hI
  obtain ⟨hnext, rfl⟩ := perform_eq_some.mp hp
  have hop := hedits op List.mem_cons_self
  refine ⟨hstaged.next hnext, ?_, ?_⟩
  · by_cases hstage : op.isStage = true
    · have hrest := hstaged.nil_of_stage hstage
      subst hrest
      rw [List.append_nil, verdict, standing_of_stage hstage]
      refine Counts.stage ?_ hop hnext hstage
      rw [verdict] at hcounts
      cases op <;> first | exact absurd hstage Bool.false_ne_true | exact hcounts
    · have hstage : op.isStage = false := Bool.not_eq_true _ ▸ hstage
      rw [account_of_not_stage hstage, verdict_step hnext hstage]
      exact hcounts
  · intro f hf hed
    rcases List.mem_append.mp hf with hf | hf
    · have hed' := (leads_of_mem_next hnext hf).edits hed
      rw [account_of_edits hed']
      exact hop hed'
    · have hstage : op.isStage = false := by
        by_contra hstage
        rw [hstaged.nil_of_stage (Bool.not_eq_false _ ▸ hstage)] at hf
        cases hf
      rw [account_of_not_stage hstage]
      exact hedits f (List.mem_cons_of_mem op hf) hed

theorem staged_script {command : Command} : Staged command.script := by
  cases command <;> simp [Staged, Command.script, clearAuthFailures, connectionForRequest,
    markDisconnected, cancelAllForConnection, release, dropPooledClient, beginForConnection,
    Op.isStage]

theorem Running.start {n : ℕ} {command : Command} {trace : List (Op × Input)}
    (h : Counts n (standing c s))
    (hedits : ∀ f ∈ command.script, f.edits c = true → restarts c (command, trace) = true) :
    Running c (if restarts c (command, trace) then 0 else n) s command.script := by
  refine ⟨staged_script, ?_, fun f hf hed => by rw [hedits f hf hed]; rfl⟩
  · have hle : Counts (if restarts c (command, trace) then 0 else n) (standing c s) :=
      h.le (by split_ifs <;> omega)
    cases command with
    | connect id =>
      show Counts _ ((clearAuthFailures id ++ connectionForRequest id .connect).foldl _ _)
      by_cases hid : id = c
      · simp [restarts, clearAuthFailures, connectionForRequest, Op.foresee, hid, Counts.zero]
      · simpa [clearAuthFailures, connectionForRequest, Op.foresee, hid] using hle
    | disconnect id =>
      by_cases hid : id = c
      · refine ⟨?_, fun _ => ?_⟩
        · simpa [verdict, Command.script, markDisconnected, cancelAllForConnection, release,
            dropPooledClient, Op.foresee, hid] using hle.1
        · simp [verdict, Command.script, markDisconnected, cancelAllForConnection, release,
            dropPooledClient, Op.foresee, hid]
      · simpa [verdict, Command.script, markDisconnected, cancelAllForConnection, release,
          dropPooledClient, Op.foresee, hid] using hle
    | _ => exact hle

/-- The operation is a database step of an edit of `c`, or the answer of one that fails. -/
def Op.editsOrFails (c : String) (op : Op) : Prop :=
  op.edits c = true ∨ ∃ message, op = .respond (.error message)

theorem edit_fails {t : AppState} {script : List Op} {trace : List (Op × Input)}
    (hscript : ∀ f ∈ script, f.editsOrFails c)
    (hfail : ∀ entry ∈ trace, entry.1 ≠ .respond (.ok ()))
    (he : Script.exec (session decoders) s script trace = some t) :
    t.connections = s.connections ∧ ∀ entry ∈ trace, entry.1.editsOrFails c := by
  refine Script.exec_confined (Q := fun u => u.connections = s.connections)
    (X := fun f => f ≠ .respond (.ok ())) ?_ hfail rfl hscript he
  intro u op input u' next hQ hop hX hp
  obtain ⟨hnext, rfl⟩ := perform_eq_some.mp hp
  have hkept : (effect u op input).connections = u.connections := by
    rcases hop with hop | ⟨message, rfl⟩
    · cases op <;> first | exact absurd hop Bool.false_ne_true | (cases input <;> rfl)
    · rfl
  refine ⟨hkept.trans hQ, fun f hf => ?_⟩
  rcases hop with hop | ⟨message, rfl⟩
  · cases op <;> try (exact absurd hop Bool.false_ne_true)
    case dbUpdate id new =>
      cases input <;> simp only [Session.next, reduceCtorEq, Option.some.injEq] at hnext <;>
        subst hnext
      · exact Or.inr ⟨_, List.mem_singleton.mp hf⟩
      · split_ifs at hf
        · exact Or.inl (List.mem_singleton.mp hf ▸ hop)
        · exact Or.inr ⟨_, List.mem_singleton.mp hf⟩
    case dbGetUpdated id =>
      cases input <;> simp only [Session.next, reduceCtorEq, Option.some.injEq] at hnext <;>
        subst hnext
      · split_ifs at hf hX
        · exact absurd rfl (hX (.respond (.ok ())) (by simp))
        · exact Or.inr ⟨_, List.mem_singleton.mp hf⟩
      · exact Or.inr ⟨_, List.mem_singleton.mp hf⟩
    case dbDelete id =>
      cases input <;> simp only [Session.next, reduceCtorEq, Option.some.injEq] at hnext <;>
        subst hnext
      · split_ifs at hf
        · exact Or.inl (List.mem_singleton.mp hf ▸ hop)
        · exact Or.inr ⟨_, List.mem_singleton.mp hf⟩
      · exact Or.inr ⟨_, List.mem_singleton.mp hf⟩
    case dbDeleteSchemas id =>
      cases input <;> simp only [Session.next, reduceCtorEq, Option.some.injEq] at hnext <;>
        subst hnext
      · exact absurd rfl (hX (.respond (.ok ())) (by simp))
      · exact Or.inr ⟨_, List.mem_singleton.mp hf⟩
  · cases input <;> simp only [Session.next, reduceCtorEq, Option.some.injEq] at hnext
    subst hnext
    cases hf

/-- The command is an update or a delete of `c`. -/
def Command.edits (c : String) : Command → Bool
  | .update id _ | .delete id => id = c
  | _ => false

theorem edits_of_mem_script {command : Command} {f : Op} (hf : f ∈ command.script)
    (hed : f.edits c = true) : command.edits c = true := by
  cases command with
  | update id new | delete id =>
    cases List.mem_singleton.mp hf
    exact hed
  | _ =>
    exfalso
    cases f <;> first | exact absurd hed Bool.false_ne_true | skip
    all_goals
      simp [Command.script, clearAuthFailures, connectionForRequest, markDisconnected,
        cancelAllForConnection, release, dropPooledClient, beginForConnection] at hf

/-- A call that edits `c` and starts no new count has failed, and has changed nothing. -/
theorem edit_call_fails {t : AppState} {call : Call} (hed : call.1.edits c = true)
    (hno : restarts c call = false)
    (hcall : Script.serialStep (session decoders) s call = some t) :
    t.connections = s.connections ∧ ∀ entry ∈ call.2, entry.1.editsOrFails c := by
  obtain ⟨command, trace⟩ := call
  have hscript : ∀ f ∈ command.script, f.editsOrFails c := by
    intro f hf
    refine Or.inl ?_
    cases command <;> first | exact absurd hed Bool.false_ne_true | skip
    all_goals
      cases List.mem_singleton.mp hf
      exact hed
  refine edit_fails hscript (fun entry hmem heq => ?_) hcall
  have hok : (trace.any fun entry => entry.1 = .respond (.ok ())) = true :=
    List.any_eq_true.mpr ⟨entry, hmem, decide_eq_true heq⟩
  · cases command <;> first | exact absurd hed Bool.false_ne_true | skip
    all_goals
      rw [restarts, hok, Bool.and_true] at hno
      exact absurd (hno.symm.trans hed) Bool.false_ne_true

theorem foldl_account_of_fails {trace : List (Op × Input)} {n : ℕ}
    (h : ∀ entry ∈ trace, entry.1.editsOrFails c) : trace.foldl (account c) n = n := by
  induction trace with
  | nil => rfl
  | cons entry trace ih =>
    have hentry : account c n entry = n := by
      rcases h entry List.mem_cons_self with hed | ⟨message, heq⟩
      · exact account_of_edits hed
      · exact account_of_not_stage (by rw [heq]; rfl)
    rw [List.foldl_cons, hentry]
    exact ih fun e hmem => h e (List.mem_cons_of_mem entry hmem)

/-- **One call.** The count of the registry keeps up with the answers. -/
theorem Counts.call {n : ℕ} {t : AppState} {call : Call} (h : Counts n (standing c s))
    (hcall : Script.serialStep (session decoders) s call = some t) :
    Counts (countRejections c n call) (standing c t) := by
  by_cases hfails : call.1.edits c = true ∧ restarts c call = false
  · obtain ⟨hconn, htrace⟩ := edit_call_fails hfails.1 hfails.2 hcall
    rw [countRejections, foldl_account_of_fails htrace, hfails.2, standing, hconn]
    exact h
  · obtain ⟨command, trace⟩ := call
    have hstart : Running c (if restarts c (command, trace) then 0 else n) s command.script := by
      refine Running.start h fun f hf hed => ?_
      by_contra hno
      exact hfails ⟨edits_of_mem_script hf hed, Bool.not_eq_true _ ▸ hno⟩
    have hend := Script.exec_induction (S := session decoders) (I := Running c) (f := account c)
      (fun n s op rest input t next hI hp => hI.step hp) hstart hcall
    exact hend.2.1

/-- **The count of the registry keeps up with the answers.** -/
theorem counts_run {calls : List Call} {n : ℕ} {t : AppState} (h : Counts n (standing c s))
    (hrun : Machine.run (Script.serialStep (session decoders)) s calls = some t) :
    Counts (calls.foldl (countRejections c) n) (standing c t) := by
  induction calls generalizing n s with
  | nil =>
    cases hrun
    exact h
  | cons call calls ih =>
    obtain ⟨u, hu, hr⟩ := Machine.run_cons_some _ hrun
    exact ih (h.call hu) hr

/-! ## The gate -/

/-- What a command can do with a blocked connection. -/
def Op.bystands (c : String) : Op → Bool
  | .connectedInsert id | .authFailuresRecord id _ | .authFailuresRemove id | .dbGet id _
  | .dbUpdate id _ | .dbGetUpdated id | .dbDelete id | .dbDeleteSchemas id => id ≠ c
  | .metadataClient connection _ | .adminClient connection _ | .broker connection _
  | .isConnected connection _ | .writeDenied connection _ _ | .produce connection _ _ =>
    connection.id ≠ c
  | _ => true

theorem bystands_of_on {f : Op} (h : f.on ≠ some c) : f.bystands c = true := by
  cases f <;> first | rfl | exact decide_eq_true fun hid => h (congrArg some hid)

/-- **The gate.** While `c` is blocked, a command comes to nothing that would ask Kafka for it or clear the
breaker. -/
theorem Leads.bystands {f : Op} (h : Leads decoders s op input f) (hop : op.bystands c = true)
    (hblocked : maxAuthAttempts ≤ s.connections.attempts c) : f.bystands c = true := by
  by_cases hon : f.on = some c
  · have hopon : op.on = some c := by
      rcases h.on_eq with hno | heq
      · rw [hon] at hno
        cases hno
      · rw [← heq, hon]
    cases h with
    | blocks hb hf =>
      cases hopon
      exact absurd hop (by simp [Op.bystands])
    | admitted hb =>
      cases hopon
      have hsome := ConnectionRegistry.authBlockReason_isSome.mpr hblocked
      rw [hb] at hsome
      cases hsome
    | refused hb hf =>
      rw [on_of_mem_refuse hf] at hon
      cases hon
    | begun => rfl
    | cancels hr => rfl
    | responds => rfl
    | _ =>
      have hid := Option.some.inj hopon
      exact absurd hid (of_decide_eq_true hop)
  · exact bystands_of_on hon

/-- The breaker blocks `c`, and it is not connected. -/
def Shut (c : String) (s : AppState) : Prop :=
  maxAuthAttempts ≤ s.connections.attempts c ∧ s.connections.connected c = false

theorem Shut.effect (h : Shut c s) (hop : op.bystands c = true) : Shut c (effect s op input) := by
  refine ⟨?_, ?_⟩
  · rw [effect_attempts]
    cases op with
    | authFailuresRecord id reason | authFailuresRemove id =>
      rw [Op.countFailures, if_neg (of_decide_eq_true hop)]
      exact h.1
    | _ => exact h.1
  · rw [effect_connected]
    split_ifs with h1 h2
    · rw [h1] at hop
      exact absurd rfl (of_decide_eq_true hop)
    · rfl
    · exact h.2

theorem bystands_of_mem_script {command : Command} {trace : List (Op × Input)} {f : Op}
    (hno : restarts c (command, trace) = false) (hed : command.edits c = false)
    (hf : f ∈ command.script) : f.bystands c = true := by
  by_contra hby
  have hon : f.on = some c := not_not.mp fun hon => hby (bystands_of_on hon)
  cases command with
  | connect id =>
    have hid : ¬ id = c := of_decide_eq_false hno
    simp only [Command.script, clearAuthFailures, connectionForRequest, List.mem_append,
      List.mem_cons, List.not_mem_nil, or_false] at hf
    rcases hf with (rfl | rfl) | rfl <;> exact hid (Option.some.inj hon)
  | update id new | delete id =>
    cases List.mem_singleton.mp hf
    exact of_decide_eq_false hed (Option.some.inj hon)
  | _ =>
    cases f <;> first | exact hby rfl | skip
    all_goals
      simp [Command.script, connectionForRequest, markDisconnected, cancelAllForConnection, release,
        dropPooledClient, beginForConnection] at hf

/-- **One call at a shut gate.** -/
theorem Shut.call {t : AppState} {call : Call} (h : Shut c s) (hno : restarts c call = false)
    (hcall : Script.serialStep (session decoders) s call = some t) :
    Shut c t ∧ ∀ entry ∈ call.2, entry.1.asksKafka c = false := by
  obtain ⟨command, trace⟩ := call
  by_cases hed : command.edits c = true
  · obtain ⟨hconn, htrace⟩ := edit_call_fails hed hno hcall
    refine ⟨by rw [Shut, hconn]; exact h, fun entry hmem => ?_⟩
    rcases htrace entry hmem with hop | ⟨message, hop⟩
    · revert hop
      cases entry.1 <;> first | exact fun _ => rfl | exact fun hop => absurd hop Bool.false_ne_true
    · rw [hop]
      rfl
  · have hend := Script.exec_confined (Q := Shut c) (P := fun op => op.bystands c = true)
      (X := fun _ => True) ?_ (fun _ _ => trivial) h
      (fun f hf => bystands_of_mem_script hno (Bool.not_eq_true _ ▸ hed) hf) hcall
    · refine ⟨hend.1, fun entry hmem => ?_⟩
      have hby := hend.2 entry hmem
      revert hby
      cases entry.1 <;> first
        | exact fun _ => rfl
        | exact fun hby => decide_eq_false (of_decide_eq_true hby)
    · intro s op input t next hQ hop _ hp
      obtain ⟨hnext, rfl⟩ := perform_eq_some.mp hp
      exact ⟨hQ.effect hop, fun f hf => (leads_of_mem_next hnext hf).bystands hop hQ.1⟩

/-- **The gate stays shut** until a call that opens it. -/
theorem Shut.run {t : AppState} {calls : List Call} (h : Shut c s)
    (hno : ∀ call ∈ calls, restarts c call = false)
    (hrun : Machine.run (Script.serialStep (session decoders)) s calls = some t) :
    Shut c t ∧ ∀ call ∈ calls, ∀ entry ∈ call.2, entry.1.asksKafka c = false := by
  induction calls generalizing s with
  | nil =>
    cases hrun
    exact ⟨h, fun call hmem => absurd hmem List.not_mem_nil⟩
  | cons call calls ih =>
    obtain ⟨u, hu, hr⟩ := Machine.run_cons_some _ hrun
    obtain ⟨hshut, hcall⟩ := h.call (hno call List.mem_cons_self) hu
    obtain ⟨ht, hcalls⟩ := ih hshut (fun e he => hno e (List.mem_cons_of_mem call he)) hr
    exact ⟨ht, List.forall_mem_cons.mpr ⟨hcall, hcalls⟩⟩

/-! ## What does not count -/

/-- The input says that credentials are rejected. -/
def Input.deniesCredentials : Input → Bool
  | .error report => report.error = .authentication
  | .outcome o => o.failure.any fun failure => failure.kind = .authentication
  | _ => false

/-- The operation belongs to a request that does not count, or to none. -/
def Op.uncounted : Op → Bool
  | .authBlockReason _ request | .dbGet _ request | .metadataClient _ request
  | .adminClient _ request | .broker _ request =>
    request = .query .listConsumerGroups || request = .query .fetchConsumerGroupLag
  | .flagsEntry _ _ | .isConnected _ _ | .writeDenied _ _ _ | .produce _ _ _ => false
  | _ => true

theorem not_rejects_of_input (h : input.deniesCredentials = false) :
    rejects c op input = false := by
  cases op <;> cases input <;> first | rfl | skip
  all_goals exact (congrArg (_ && ·) h).trans (Bool.and_false _)

theorem not_rejects_of_uncounted (h : op.uncounted = true) : rejects c op input = false := by
  have hcounts : ∀ request : Request, (request = .query .listConsumerGroups ||
      request = .query .fetchConsumerGroupLag) = true → request.counts = false := by
    intro request hr
    simp only [Bool.or_eq_true, decide_eq_true_eq] at hr
    rcases hr with rfl | rfl <;> rfl
  cases op with
  | metadataClient connection request | adminClient connection request
  | broker connection request =>
    cases input <;> first | rfl | skip
    show (decide (connection.id = c) && request.counts && _) = false
    rw [hcounts request h, Bool.and_false, Bool.false_and]
  | _ => first | rfl | exact absurd h Bool.false_ne_true

theorem Leads.uncounted {f : Op} (h : Leads decoders s op input f) (hop : op.uncounted = true) :
    f.uncounted = true := by
  rcases h.stages with hno | hst
  · cases f <;> first | rfl | exact absurd hno (by simp [Op.isStage])
  · cases hst with
    | loaded hg hm =>
      simp only [Op.uncounted, Bool.or_eq_true, decide_eq_true_eq] at hop
      rcases hop with rfl | rfl
      · cases List.mem_singleton.mp hm
        rfl
      · cases List.mem_singleton.mp hm
        rfl
    | begun | encoded | connected => exact absurd hop Bool.false_ne_true
    | updated | deleted => rfl
    | _ => exact hop

/-- The rejections of `c` in a trace. -/
def addRejection (c : String) (n : ℕ) (entry : Op × Input) : ℕ :=
  n + if rejects c entry.1 entry.2 then 1 else 0

theorem stage_le (h : next decoders s op input = some ops) (hop : op.isStage = true) :
    (ops.foldl (Op.foresee c) v).1 ≤ v.1 + if rejects c op input then 1 else 0 := by
  obtain ⟨v', hv', heq⟩ := stage_foresee (c := c) (v := v) h hop
  have hle : v'.1 ≤ v.1 := by
    rcases hv' with rfl | ⟨h0, -⟩
    · exact Nat.le_refl _
    · rw [h0]
      exact Nat.zero_le _
  rw [heq]
  split_ifs
  · exact Nat.le_trans (Nat.min_le_left _ _) (Nat.succ_le_succ hle)
  · exact hle

theorem verdict_script_le {command : Command} :
    (verdict c s command.script).1 ≤ s.connections.attempts c := by
  cases command with
  | connect id =>
    simp only [verdict, Command.script, clearAuthFailures, connectionForRequest, List.cons_append,
      List.nil_append, List.foldl_cons, List.foldl_nil, Op.foresee, standing]
    split_ifs
    · exact Nat.zero_le _
    · exact Nat.le_refl _
  | disconnect id =>
    simp only [verdict, Command.script, markDisconnected, cancelAllForConnection, release,
      dropPooledClient, List.cons_append, List.nil_append, List.foldl_cons, List.foldl_nil,
      Op.foresee, standing]
    split_ifs <;> exact Nat.le_refl _
  | _ => exact Nat.le_refl _

/-- **The count of a call is raised by rejections only.** -/
theorem attempts_le {t : AppState} {call : Call}
    (hcall : Script.serialStep (session decoders) s call = some t) :
    t.connections.attempts c ≤ call.2.foldl (addRejection c) (s.connections.attempts c) := by
  have hend := Script.exec_induction (S := session decoders) (f := addRejection c)
    (I := fun n s script => Staged script ∧ (verdict c s script).1 ≤ n) ?_
    ⟨staged_script, verdict_script_le⟩ hcall
  · exact hend.2
  · rintro n s op rest input t next ⟨hstaged, hle⟩ hp
    obtain ⟨hnext, rfl⟩ := perform_eq_some.mp hp
    refine ⟨hstaged.next hnext, ?_⟩
    by_cases hstage : op.isStage = true
    · have hrest := hstaged.nil_of_stage hstage
      subst hrest
      rw [List.append_nil, verdict, standing_of_stage hstage]
      refine Nat.le_trans (stage_le hnext hstage) (Nat.add_le_add_right ?_ _)
      cases op <;> first | exact absurd hstage Bool.false_ne_true | exact hle
    · rw [verdict_step hnext (Bool.not_eq_true _ ▸ hstage)]
      exact Nat.le_trans hle (Nat.le_add_right _ _)

theorem foldl_addRejection {trace : List (Op × Input)} {n : ℕ}
    (h : ∀ entry ∈ trace, rejects c entry.1 entry.2 = false) :
    trace.foldl (addRejection c) n = n := by
  induction trace with
  | nil => rfl
  | cons entry trace ih =>
    rw [List.foldl_cons, addRejection, h entry List.mem_cons_self]
    exact ih fun e hmem => h e (List.mem_cons_of_mem entry hmem)

end

/-- A command that lists consumer groups or fetches their lag. -/
def Command.ofGroups : Command → Bool
  | .query _ .listConsumerGroups | .query _ .fetchConsumerGroupLag => true
  | _ => false

theorem not_rejects_of_groups {decoders : Decoders} {c : String} {s t : AppState} {call : Call}
    (hgroups : call.1.ofGroups = true)
    (hcall : Script.serialStep (session decoders) s call = some t) :
    ∀ entry ∈ call.2, rejects c entry.1 entry.2 = false := by
  obtain ⟨command, trace⟩ := call
  have hscript : ∀ f ∈ command.script, f.uncounted = true := by
    intro f hf
    unfold Command.ofGroups at hgroups
    split at hgroups
    · rename_i heq
      rw [show command = _ from heq] at hf
      cases List.mem_singleton.mp hf
      rfl
    · rename_i heq
      rw [show command = _ from heq] at hf
      cases List.mem_singleton.mp hf
      rfl
    · cases hgroups
  have hend := Script.exec_confined (Q := fun _ => True) (P := fun op => op.uncounted = true)
    (X := fun _ => True) ?_ (fun _ _ => trivial) trivial hscript hcall
  · exact fun entry hmem => not_rejects_of_uncounted (hend.2 entry hmem)
  · intro s op input t next _ hop _ hp
    exact ⟨trivial, fun f hf => (leads_of_mem_next (perform_eq_some.mp hp).1 hf).uncounted hop⟩

/-! ## Whole runs -/

/-- **The credential breaker.** Commands run one after another from the start of the app. Once `c` has had
`maxAuthAttempts` rejections since its last success, connect, update or delete, no command asks Kafka for
anything of `c` before the next connect, update or delete of it, and it is not connected. And no failure of
a group command, and no failure of any command other than a rejection of credentials, raises the count. -/
theorem breaker_gate (decoders : Decoders) (c : String) {s₀ s : AppState} {calls : List Call}
    (hstart : s₀.connections = {})
    (hrun : Machine.run (Script.serialStep (session decoders)) s₀ calls = some s) :
    (maxAuthAttempts ≤ calls.foldl (countRejections c) 0 →
      (s.connections.authBlockReason c).isSome = true ∧
        ∀ later t, Machine.run (Script.serialStep (session decoders)) s later = some t →
          (∀ call ∈ later, restarts c call = false) →
            t.connections.isConnected c = false ∧
              ∀ call ∈ later, ∀ entry ∈ call.2, entry.1.asksKafka c = false) ∧
      ∀ call t, Script.serialStep (session decoders) s call = some t →
        (call.1.ofGroups = true ∨ ∀ entry ∈ call.2, entry.2.deniesCredentials = false) →
          t.connections.attempts c ≤ s.connections.attempts c := by
  refine ⟨fun hmax => ?_, fun call t hcall hno => ?_⟩
  · have hcounts : Counts (calls.foldl (countRejections c) 0) (standing c s) := by
      refine counts_run ?_ hrun
      rw [standing, hstart]
      exact Counts.zero
    have hattempts : maxAuthAttempts ≤ s.connections.attempts c := by
      have := hcounts.1
      rwa [Nat.min_eq_right hmax] at this
    refine ⟨ConnectionRegistry.authBlockReason_isSome.mpr hattempts, fun later t hlater hno => ?_⟩
    obtain ⟨hshut, hasks⟩ := Shut.run ⟨hattempts, hcounts.2 hattempts⟩ hno hlater
    exact ⟨hshut.2, hasks⟩
  · have hrejects : ∀ entry ∈ call.2, rejects c entry.1 entry.2 = false := by
      rcases hno with hgroups | hinput
      · exact not_rejects_of_groups hgroups hcall
      · exact fun entry hmem => not_rejects_of_input (hinput entry hmem)
    have hle := attempts_le (c := c) hcall
    rwa [foldl_addRejection hrejects] at hle

/-- Two listings whose credentials are rejected. -/
def rejectedCalls : List Call :=
  [(.query "c1" .listBrokers, loadTrace ++ rejectedTrace ordersConnection false),
    (.query "c1" .listBrokers, loadTrace ++ rejectedTrace ordersConnection true)]

/-- A listing that is refused after them, and an update that fails. -/
def refusedCalls : List Call :=
  [(.query "c1" .listBrokers, [(.authBlockReason "c1" (.query .listBrokers), .ok),
      (.respond (.error (blockedText "wrong password")), .ok)]),
    (.update "c1" ordersConnection.toNewConnection,
      [(.dbUpdate "c1" ordersConnection.toNewConnection, .error ⟨.db, []⟩),
        (.respond (.error (formatReport ⟨.db, []⟩)), .ok)])]

theorem breaker_gate_two : ∃ s t,
    Machine.run (Script.serialStep (session plainDecoders)) ordersState rejectedCalls = some s ∧
      Machine.run (Script.serialStep (session plainDecoders)) s refusedCalls = some t ∧
        (s.connections.authBlockReason "c1").isSome = true ∧
          t.connections.isConnected "c1" = false ∧
            ∀ call ∈ refusedCalls, ∀ entry ∈ call.2, entry.1.asksKafka "c1" = false := by
  have hsome : (Machine.run (Script.serialStep (session plainDecoders)) ordersState
      (rejectedCalls ++ refusedCalls)).isSome = true := by decide +kernel
  obtain ⟨t, hrun⟩ := Option.isSome_iff_exists.mp hsome
  rw [Machine.run_append] at hrun
  obtain ⟨s, hs, ht⟩ := Option.bind_eq_some_iff.mp hrun
  have hgate := breaker_gate plainDecoders "c1" rfl hs
  obtain ⟨hblocked, hlater⟩ := hgate.1 (by decide +kernel)
  exact ⟨s, t, hs, ht, hblocked, hlater refusedCalls t ht (by decide +kernel)⟩

/-- **Commands one after another** are a run of the interleaved session. -/
theorem serial_run_session {decoders : Decoders} {s t : AppState} {calls : List Call}
    (hrun : Machine.run (Script.serialStep (session decoders)) s calls = some t) :
    ∃ w : World, Machine.run (Script.step (session decoders)) (.start s)
      (Script.serialEvents 0 calls) = some w ∧ w.shared = t :=
  ⟨_, Script.run_serialEvents hrun, rfl⟩

end OffsetExplorer.Session
