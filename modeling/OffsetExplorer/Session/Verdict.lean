import OffsetExplorer.Session.Effect

/-!
# The verdict of the broker

What the answers of a broker say about the credentials of a connection, and what the registry makes of
them.

* `countRejections`: the rejected attempts of a call since the last success, connect, update or delete.
* `Op.foresee`, `verdict`: the count and the mark of a connection once a script has come to its end;
  `verdict_step`: a short step does what its script foresees.
* **`stage_foresee`**: what the script that an answer leads to does to the count.
* `Staged`: a stage is the last that a script has.
-/

namespace OffsetExplorer.Session

/-! ## The answers of the broker -/

/-- A command, and what it has performed and with which inputs. -/
abbrev Call : Type := Command × List (Op × Input)

/-- The rejected attempts on `c` after an answer, from those before. -/
def account (c : String) (n : ℕ) (entry : Op × Input) : ℕ :=
  (if accepts c entry.1 entry.2 then 0 else n) + if rejects c entry.1 entry.2 then 1 else 0

/-- A connect of `c`, or an update or a delete of it that succeeds. -/
def restarts (c : String) : Call → Bool
  | (.connect id, _) => id = c
  | (.update id _, trace) | (.delete id, trace) =>
    id = c && trace.any fun entry => entry.1 = .respond (.ok ())
  | _ => false

/-- The rejected attempts on `c` after a call, from those before. -/
def countRejections (c : String) (n : ℕ) (call : Call) : ℕ :=
  call.2.foldl (account c) (if restarts c call then 0 else n)

/-- The operation asks the Kafka client for something of `c`. -/
def Op.asksKafka (c : String) : Op → Bool
  | .metadataClient connection _ | .adminClient connection _ | .broker connection _
  | .produce connection _ _ => connection.id = c
  | _ => false

/-- The operation is a database step of an update or a delete of `c`. -/
def Op.edits (c : String) : Op → Bool
  | .dbUpdate id _ | .dbGetUpdated id | .dbDelete id | .dbDeleteSchemas id => id = c
  | _ => false

/-! ## What a script comes to -/

/-- One more rejection: the count, and whether the connection is still connected. -/
def reject (v : ℕ × Bool) : ℕ × Bool :=
  let n := min (v.1 + 1) (2 ^ 32 - 1)
  (n, if maxAuthAttempts ≤ n then false else v.2)

/-- The count and the mark of `c` after an operation and what it leads to. -/
def Op.foresee (c : String) (v : ℕ × Bool) : Op → ℕ × Bool
  | .authFailuresRecord id _ => if id = c then reject v else v
  | .authFailuresRemove id => if id = c then (0, v.2) else v
  | .connectedInsert id => if id = c then (v.1, true) else v
  | .connectedRemove id => if id = c then (v.1, false) else v
  | _ => v

/-- The count and the mark of `c`. -/
def standing (c : String) (s : AppState) : ℕ × Bool :=
  (s.connections.attempts c, s.connections.connected c)

/-- The count and the mark of `c` when a script has come to its end. -/
def verdict (c : String) (s : AppState) (script : List Op) : ℕ × Bool :=
  script.foldl (Op.foresee c) (standing c s)

section

variable {decoders : Decoders} {s : AppState} {op : Op} {input : Input} {ops rest : List Op}
  {c id : String} {request : Request} {v : ℕ × Bool}

theorem standing_effect : standing c (effect s op input) =
    (op.countFailures c (s.connections.attempts c),
      if op = .connectedInsert c then true
      else if op = .connectedRemove c then false else s.connections.connected c) := by
  rw [standing, effect_attempts, effect_connected]

theorem foresee_blocks {n : ℕ} {b : Bool} {p : Prop} [Decidable p] :
    (if p then markDisconnected id else []).foldl (Op.foresee id) (n, b) =
      (n, if p then false else b) := by
  by_cases h : p
  · rw [if_pos h, if_pos h]
    simp [markDisconnected, Op.foresee]
  · rw [if_neg h, if_neg h]
    rfl

theorem verdict_step (h : next decoders s op input = some ops) (hop : op.isStage = false) :
    verdict c (effect s op input) (ops ++ rest) = verdict c s (op :: rest) := by
  have hstep : ops.foldl (Op.foresee c) (standing c (effect s op input)) =
      op.foresee c (standing c s) := by
    rw [standing_effect]
    cases op with
    | authFailuresRecord id reason =>
      cases input <;> simp only [next, reduceCtorEq, Option.some.injEq] at h
      subst h
      by_cases hid : id = c
      · subst hid
        show List.foldl _ (_, s.connections.connected id) _ = _
        rw [Op.foresee, if_pos rfl, Op.countFailures, if_pos rfl,
          ConnectionRegistry.attempts_countAuthFailure, foresee_blocks]
        rfl
      · by_cases hmax : maxAuthAttempts ≤ (s.connections.countAuthFailure id reason).attempts id
        · rw [if_pos hmax]
          simp [markDisconnected, Op.foresee, Op.countFailures, standing, hid]
        · rw [if_neg hmax]
          simp [Op.foresee, Op.countFailures, standing, hid]
    | ownersOf id =>
      cases input <;> simp only [next, reduceCtorEq] at h
      rw [Option.ite_none_right_eq_some] at h
      obtain ⟨-, h⟩ := h
      cases h
      rename_i requestIds
      have hid : ∀ v, (requestIds.map Op.flagsCancel).foldl (Op.foresee c) v = v := by
        intro v
        induction requestIds with
        | nil => rfl
        | cons r rs ih => exact ih
      rw [hid]
      simp [Op.foresee, Op.countFailures, standing]
    | flagsEntry | authBlockReason | dbGet | metadataClient | adminClient | broker | isConnected
    | writeDenied | produce | dbCreate | dbUpdate | dbGetUpdated | dbDelete | dbDeleteSchemas =>
      cases hop
    | _ =>
      cases input <;> simp only [next, reduceCtorEq, Option.some.injEq] at h
      subst h
      simp only [List.foldl_nil, Op.foresee, Op.countFailures, standing, eq_comm,
        Op.connectedInsert.injEq, Op.connectedRemove.injEq, reduceCtorEq, if_false]
      try split_ifs <;> rfl
  rw [verdict, verdict, List.foldl_append, hstep, List.foldl_cons]

theorem standing_of_stage (hop : op.isStage = true) :
    standing c (effect s op input) = standing c s := by
  rw [standing_effect]
  cases op <;> first | exact absurd hop Bool.false_ne_true | rfl

theorem foresee_refuse {message : String} :
    (refuse request message).foldl (Op.foresee c) v = v := by
  cases request <;> rfl

theorem foresee_settle_error {report : Report} :
    (settle id request (.error report)).foldl (Op.foresee c) v =
      if id = c ∧ request.counts = true ∧ report.error = .authentication then reject v else v := by
  by_cases hr : report.error = .authentication
  · rcases request with _ | q | _ | _
    · simp [settle, record, recordAuthOutcome, recordAuthFailure, release, dropPooledClient, answer,
        hr, Op.foresee, Request.counts]
    · cases q <;> simp [settle, record, recordAuthOutcome, recordAuthSuccessOnly, recordAuthFailure,
        release, dropPooledClient, answer, hr, Op.foresee, Request.counts]
    · simp [settle, record, recordAuthOutcome, recordAuthFailure, release, dropPooledClient, answer,
        finish, hr, Op.foresee, Request.counts]
    · simp [settle, record, answer, Op.foresee, Request.counts]
  · rcases request with _ | q | _ | _
    · simp [settle, record, recordAuthOutcome, answer, hr, Op.foresee]
    · cases q <;> simp [settle, record, recordAuthOutcome, recordAuthSuccessOnly, answer, hr,
        Op.foresee]
    · simp [settle, record, recordAuthOutcome, answer, finish, hr, Op.foresee]
    · simp [settle, record, answer, Op.foresee, hr]

theorem foresee_fail {report : Report} : (fail id request report).foldl (Op.foresee c) v =
    if id = c ∧ request.counts = true ∧ report.error = .authentication then reject v else v := by
  rw [fail, List.foldl_append, foresee_settle_error]
  split_ifs <;> rfl

theorem foresee_settle_ok : (settle id request (.ok ())).foldl (Op.foresee c) v = v ∨
    id = c ∧ ((settle id request (.ok ())).foldl (Op.foresee c) v).1 = 0 := by
  rcases request with _ | q | _ | _
  · by_cases hid : id = c <;> simp [settle, record, recordAuthOutcome, recordAuthSuccess,
      clearAuthFailures, answer, Op.foresee, hid]
  · by_cases hid : id = c <;> cases q <;> simp [settle, record, recordAuthOutcome,
      recordAuthSuccessOnly, recordAuthSuccess, clearAuthFailures, answer, Op.foresee, hid]
  · by_cases hid : id = c <;> simp [settle, record, recordAuthOutcome, recordAuthSuccess,
      clearAuthFailures, answer, finish, Op.foresee, hid]
  · exact Or.inl rfl

theorem foresee_recordPublishOutcome {topic : String} {outcome : PublishOutcome} :
    (recordPublishOutcome id topic outcome).foldl (Op.foresee c) v =
      let v' := if id = c ∧ outcome.delivered.isEmpty = false then (0, v.2) else v
      if id = c ∧ (outcome.failure.any fun failure => failure.kind = .authentication) = true
      then reject v' else v' := by
  rw [recordPublishOutcome, List.foldl_append]
  have hd : (if outcome.delivered.isEmpty = true then [] else recordAuthSuccess id).foldl
      (Op.foresee c) v = if id = c ∧ outcome.delivered.isEmpty = false then (0, v.2) else v := by
    cases outcome.delivered.isEmpty <;>
      simp [recordAuthSuccess, clearAuthFailures, Op.foresee]
  rw [hd]
  rcases outcome.failure with _ | ⟨index, kind, reason⟩
  · simp
  · cases kind <;>
      simp [recordAuthFailure, release, dropPooledClient, Op.foresee]

/-- **One stage.** Its answer clears the count where it accepts the credentials or belongs to an edit, and
adds one where it rejects them. -/
theorem stage_foresee (h : next decoders s op input = some ops) (hop : op.isStage = true) :
    ∃ v', (v' = v ∨ v'.1 = 0 ∧ (accepts c op input = true ∨ op.edits c = true)) ∧
      ops.foldl (Op.foresee c) v = if rejects c op input then reject v' else v' := by
  cases op <;> try (exact absurd hop Bool.false_ne_true)
  case flagsEntry a b | isConnected a b =>
    cases input <;> simp only [next, reduceCtorEq, Option.some.injEq] at h
    subst h
    exact ⟨v, Or.inl rfl, rfl⟩
  case authBlockReason id request =>
    cases input <;> simp only [next, reduceCtorEq, Option.some.injEq] at h
    subst h
    refine ⟨v, Or.inl rfl, ?_⟩
    split
    · exact foresee_refuse
    · rfl
  case dbGet id request =>
    refine ⟨v, Or.inl rfl, ?_⟩
    cases input <;> simp only [next, reduceCtorEq, Option.some.injEq] at h <;> subst h
    · split
      · rcases request with _ | q | _ | _ <;> try rfl
        cases q <;> rfl
      · exact foresee_refuse
    · exact foresee_refuse
  case metadataClient connection request | adminClient connection request =>
    refine ⟨v, Or.inl rfl, ?_⟩
    cases input <;> simp only [next, reduceCtorEq, Option.some.injEq] at h
    · subst h
      rfl
    · rw [Option.ite_none_left_eq_some, Option.some.injEq] at h
      rw [← h.2, foresee_fail]
      simp [rejects, and_assoc]
  case broker connection request =>
    cases input <;> simp only [next, reduceCtorEq, Option.some.injEq] at h
    · subst h
      refine ⟨_, ?_, rfl⟩
      rcases @foresee_settle_ok c connection.id request v with
        h | ⟨hid, h⟩
      · exact Or.inl h
      · exact Or.inr ⟨h, Or.inl (decide_eq_true hid)⟩
    · refine ⟨v, Or.inl rfl, ?_⟩
      subst h
      rw [foresee_fail]
      simp [rejects, and_assoc]
    · refine ⟨v, Or.inl rfl, ?_⟩
      obtain ⟨text, -, rfl⟩ := Option.map_eq_some_iff.mp h
      rw [foresee_settle_error, if_neg (by simp)]
      rfl
  case produce connection call records =>
    cases input <;> simp only [next, reduceCtorEq, Option.some.injEq] at h <;> subst h
    · exact ⟨v, Or.inl rfl, rfl⟩
    · rw [List.foldl_append, foresee_recordPublishOutcome]
      refine ⟨_, ?_, by simp only [rejects, Bool.and_eq_true, decide_eq_true_eq]; rfl⟩
      split_ifs with hd
      · exact Or.inr ⟨rfl, Or.inl (by simp [accepts, hd.1, hd.2])⟩
      · exact Or.inl rfl
  case dbUpdate id new =>
    refine ⟨v, Or.inl rfl, ?_⟩
    cases input <;> simp only [next, reduceCtorEq, Option.some.injEq] at h <;> subst h
    · rfl
    · rw [apply_ite (List.foldl (Op.foresee c) v)]
      exact ite_self _
  case dbGetUpdated id =>
    cases input <;> simp only [next, reduceCtorEq, Option.some.injEq] at h <;> subst h
    · split
      · refine ⟨_, ?_, rfl⟩
        by_cases hid : id = c
        · exact Or.inr ⟨by simp [release, dropPooledClient, Op.foresee, hid],
            Or.inr (decide_eq_true hid)⟩
        · exact Or.inl (by simp [release, dropPooledClient, Op.foresee, hid])
      · exact ⟨v, Or.inl rfl, rfl⟩
    · exact ⟨v, Or.inl rfl, rfl⟩
  case writeDenied connection call connected =>
    cases input <;> simp only [next, reduceCtorEq, Option.some.injEq] at h
    subst h
    refine ⟨v, Or.inl rfl, ?_⟩
    split
    · rfl
    · split <;> rfl
  case dbCreate connection =>
    refine ⟨v, Or.inl rfl, ?_⟩
    cases input <;> simp only [next, reduceCtorEq, Option.some.injEq] at h
    · rw [Option.ite_none_right_eq_some, Option.some.injEq] at h
      rw [← h.2]
      rfl
    · subst h
      rfl
  case dbDelete id =>
    refine ⟨v, Or.inl rfl, ?_⟩
    cases input <;> simp only [next, reduceCtorEq, Option.some.injEq] at h <;> subst h
    · rw [apply_ite (List.foldl (Op.foresee c) v)]
      exact ite_self _
    · rfl
  case dbDeleteSchemas id =>
    cases input <;> simp only [next, reduceCtorEq, Option.some.injEq] at h <;> subst h
    · refine ⟨_, ?_, rfl⟩
      by_cases hid : id = c
      · exact Or.inr ⟨by simp [clearAuthFailures, release, dropPooledClient,
          Op.foresee, hid], Or.inr (decide_eq_true hid)⟩
      · exact Or.inl (by simp [clearAuthFailures, release, dropPooledClient,
          Op.foresee, hid])
    · exact ⟨v, Or.inl rfl, rfl⟩

/-- A stage is the last that a script has. -/
def Staged (script : List Op) : Prop := script.Pairwise fun op _ => op.isStage = false

theorem staged_of_not_stage (h : ∀ f ∈ ops, f.isStage = false) : Staged ops :=
  List.pairwise_of_forall_mem_list fun f hf _ _ => h f hf

theorem staged_of_length_le_one {script : List Op} (h : script.length ≤ 1) : Staged script := by
  cases script with
  | nil => exact List.Pairwise.nil
  | cons f fs =>
    cases fs with
    | nil => exact List.pairwise_singleton _ f
    | cons g gs => simp at h

theorem Staged.nil_of_stage (h : Staged (op :: rest)) (hop : op.isStage = true) : rest = [] := by
  cases rest with
  | nil => rfl
  | cons f fs =>
    rw [(List.pairwise_cons.mp h).1 f List.mem_cons_self] at hop
    cases hop

theorem Staged.next (h : Staged (op :: rest)) (hnext : next decoders s op input = some ops) :
    Staged (ops ++ rest) := by
  have hleads : ∀ f ∈ ops, f.isStage = false ∨ Stages decoders s op f :=
    fun f hf => (leads_of_mem_next hnext hf).stages
  by_cases hno : ∀ f ∈ ops, f.isStage = false
  · exact List.pairwise_append.mpr ⟨staged_of_not_stage hno, (List.pairwise_cons.mp h).2,
      fun f hf _ _ => hno f hf⟩
  · simp only [not_forall, exists_prop] at hno
    obtain ⟨f, hf, hstage⟩ := hno
    have hst := (hleads f hf).resolve_left hstage
    have hop : op.isStage = true := by
      cases hst <;> rfl
    have hlen : ops.length ≤ 1 := by
      cases hst with
      | loaded hg hm =>
        cases input <;> simp only [Session.next, reduceCtorEq, Option.some.injEq] at hnext
        · rename_i request _
          rw [hg] at hnext
          rw [← hnext]
          rcases request with _ | q | _ | _ <;> try exact Nat.le_refl _
          cases q <;> exact Nat.le_refl _
        · rw [← hnext] at hf
          exact absurd (not_stage_of_mem_refuse hf) hstage
      | admitted hb =>
        cases input <;> simp only [Session.next, reduceCtorEq, Option.some.injEq] at hnext
        rw [hb] at hnext
        rw [← hnext]
        exact Nat.le_refl _
      | encoded hr =>
        cases input <;> simp only [Session.next, reduceCtorEq, Option.some.injEq] at hnext
        rw [hr] at hnext
        rw [← hnext]
        dsimp only
        split <;> exact Nat.le_refl _
      | begun | connected =>
        cases input <;> simp only [Session.next, reduceCtorEq, Option.some.injEq] at hnext
        rw [← hnext]
        exact Nat.le_refl _
      | metadata | admin =>
        cases input <;> simp only [Session.next, reduceCtorEq, Option.some.injEq] at hnext
        · rw [← hnext]
          exact Nat.le_refl _
        · rw [Option.ite_none_left_eq_some, Option.some.injEq] at hnext
          exact absurd (not_stage_of_mem_fail (hnext.2 ▸ hf)) hstage
      | updated =>
        cases input <;> simp only [Session.next, reduceCtorEq, Option.some.injEq] at hnext <;>
          rw [← hnext]
        · exact Nat.le_refl _
        · split <;> exact Nat.le_refl _
      | deleted =>
        cases input <;> simp only [Session.next, reduceCtorEq, Option.some.injEq] at hnext <;>
          rw [← hnext]
        · split <;> exact Nat.le_refl _
        · exact Nat.le_refl _
    rw [h.nil_of_stage hop, List.append_nil]
    exact staged_of_length_le_one hlen

end

end OffsetExplorer.Session
