import OffsetExplorer.Session.Effect

/-!
# Blocked and connected

Whether a connection that the credential breaker has blocked can be shown as connected. The count and the
connected set are under locks of their own.

* `Marks`: a step that marks a connection connected finds it not blocked.
* `blocked_step`: a blocked connection that is connected has its removal ahead.
* **`blocked_not_connected`**: in runs of such steps no blocked connection is connected, once no command
  has a removal to do.
* **`connect_marks_blocked`**: a connect marks a connection that was blocked after its success.
-/

namespace OffsetExplorer.Session

/-- A connection that is marked connected is not blocked at that time. -/
def Marks (c : String) (w : World) : Event → Prop
  | .invoke _ => True
  | .act _ op _ => op = .connectedInsert c → w.shared.connections.authBlockReason c = none

/-- A blocked connection that is connected has its removal ahead. -/
def Covered (c : String) (w : World) : Prop :=
  (w.shared.connections.authBlockReason c).isSome = true →
    w.shared.connections.isConnected c = true → ∃ t, .connectedRemove c ∈ w.script t

variable {decoders : Decoders} {c : String}

theorem countFailures_lt {op : Op} {n : ℕ} (hop : ∀ reason, op ≠ .authFailuresRecord c reason)
    (h : maxAuthAttempts ≤ op.countFailures c n) : maxAuthAttempts ≤ n := by
  cases op with
  | authFailuresRecord id reason =>
    have hid : ¬ id = c := by
      rintro rfl
      exact hop reason rfl
    rwa [Op.countFailures, if_neg hid] at h
  | authFailuresRemove id =>
    rw [Op.countFailures] at h
    split_ifs at h
    · cases h
    · exact h
  | _ => exact h

theorem blocked_step {w w' : World} {e : Event} (hmarks : Marks c w e) (hw : Covered c w)
    (hstep : Script.step (session decoders) w e = some w') : Covered c w' := by
  intro hblocked hconnected
  have ahead : ∀ t, .connectedRemove c ∈ w.script t → (∀ input, e ≠ .act t (.connectedRemove c) input) →
      ∃ t, .connectedRemove c ∈ w'.script t := fun t ht hne =>
    ⟨t, (Script.mem_script_of_step hstep ht).resolve_right fun ⟨input, h⟩ => hne input h⟩
  cases e with
  | invoke command =>
    rw [(Script.step_invoke_script hstep).1] at hblocked hconnected
    obtain ⟨t, ht⟩ := hw hblocked hconnected
    exact ahead t ht (by rintro input ⟨⟩)
  | act t op input =>
    obtain ⟨rest, next, -, hp, hnew, -⟩ := Script.step_act_script hstep
    obtain ⟨hnext, hshared⟩ := perform_eq_some.mp hp
    rw [ConnectionRegistry.authBlockReason_isSome, hshared, effect_attempts] at hblocked
    rw [hshared] at hconnected
    have hconnected : (effect w.shared op input).connections.connected c = true := hconnected
    rw [effect_connected] at hconnected
    by_cases hrecord : ∃ reason, op = .authFailuresRecord c reason
    · -- the rejection that blocks the connection puts its removal next
      obtain ⟨reason, rfl⟩ := hrecord
      rw [Op.countFailures, if_pos rfl,
        ← ConnectionRegistry.attempts_countAuthFailure reason] at hblocked
      refine ⟨t, ?_⟩
      cases input <;> simp only [Session.next, reduceCtorEq] at hnext
      rw [if_pos hblocked, Option.some.injEq] at hnext
      rw [hnew, ← hnext]
      simp [markDisconnected]
    · have hwas : maxAuthAttempts ≤ w.shared.connections.attempts c :=
        countFailures_lt (fun reason h => hrecord ⟨reason, h⟩) hblocked
      have hblocked := ConnectionRegistry.authBlockReason_isSome.mpr hwas
      split_ifs at hconnected with h1 h2
      · rw [hmarks h1] at hblocked
        cases hblocked
      · obtain ⟨u, hu⟩ := hw hblocked hconnected
        exact ahead u hu (by rintro i ⟨⟩; exact h2 rfl)

/-- **A blocked connection is not connected.** In a run from the start of the app in which no step marks a
connection connected that is blocked, a blocked connection is not connected whenever no command has its
removal to do, and so whenever no command is between its steps. -/
theorem blocked_not_connected (decoders : Decoders) {c : String} {s : AppState} {w : World}
    {es : List Event} (hstart : s.connections = {})
    (hmarks : Machine.AllSteps (Script.step (session decoders)) (Marks c) (.start s) es)
    (hrun : Machine.run (Script.step (session decoders)) (.start s) es = some w)
    (hquiet : ∀ task ∈ w.tasks, .connectedRemove c ∉ task.script)
    (hblocked : (w.shared.connections.authBlockReason c).isSome = true) :
    w.shared.connections.isConnected c = false := by
  have hcovered : Covered c w := by
    refine Machine.run_induction (fun w e w' hC hI hs => blocked_step hC hI hs) hmarks ?_ hrun
    intro hblocked
    rw [show (Script.World.start s : World).shared.connections = {} from hstart] at hblocked
    cases hblocked
  by_contra hconnected
  obtain ⟨t, ht⟩ := hcovered hblocked (Bool.not_eq_false _ ▸ hconnected)
  obtain ⟨task, htask, hop⟩ := Script.mem_script ht
  exact hquiet task htask hop

instance (c : String) (w : World) : ∀ e, Decidable (Marks c w e)
  | .invoke _ => inferInstanceAs (Decidable True)
  | .act _ op _ =>
    inferInstanceAs (Decidable (op = .connectedInsert c → w.shared.connections.authBlockReason c = none))

/-! ## Two rejections around a connect -/

/-- Two listings that are rejected, as the calls `t` and `t + 1`. -/
def twoRejected (t : ℕ) : List Event :=
  .invoke (.query "c1" .listBrokers) :: loadEvents t ++ rejectedEvents t ordersConnection false ++
    .invoke (.query "c1" .listBrokers) :: loadEvents (t + 1) ++
      rejectedEvents (t + 1) ordersConnection true

/-- The connection is blocked after the connect has come to its end. -/
theorem blocked_not_connected_after :
    let w := Machine.after (Script.step (session plainDecoders)) (.start ordersState)
      (.invoke (.connect "c1") :: eventsOf 0 connectTrace ++ twoRejected 1) (by decide +kernel)
    w.shared.connections.isConnected "c1" = false := by
  intro w
  exact blocked_not_connected plainDecoders rfl (by decide +kernel) (Machine.run_after _ _
    (.invoke (.connect "c1") :: eventsOf 0 connectTrace ++ twoRejected 1) _)
    (by decide +kernel) (by decide +kernel)

/-- **A connect marks a blocked connection.** Both listings are rejected between the record of its success
and the mark. All commands have come to their end. -/
theorem connect_marks_blocked :
    let w := Machine.after (Script.step (session plainDecoders)) (.start ordersState)
      (.invoke (.connect "c1") :: eventsOf 0 (connectTrace.take 8) ++ twoRejected 1 ++
        eventsOf 0 (connectTrace.drop 8)) (by decide +kernel)
    (∀ task ∈ w.tasks, task.script = []) ∧
      (w.shared.connections.authBlockReason "c1").isSome = true ∧
        w.shared.connections.isConnected "c1" = true := by
  decide +kernel

end OffsetExplorer.Session
