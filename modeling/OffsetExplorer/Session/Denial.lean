import OffsetExplorer.Session.Effect

/-!
# Write denials

How long the verdict of a broker on one topic is remembered.

* `Until c`: nothing that is meant to end a verdict happens to `c`: no connect, update, disconnect or
  delete of it starts, and the credential breaker does not trip on it.
* `NoSuccess c`: no broker call on `c` succeeds.
* **`denial_persists`**: over runs of such steps a denial stays, and later publishes to its topic are
  answered from memory.
* **`listing_forgets_denial`**: one listing that succeeds makes the app forget it.
-/

namespace OffsetExplorer.Session

/-- The operations that clear the denials of `c`, and the database steps that lead to them. -/
def Op.clears (c : String) : Op → Bool
  | .writeDenialsRetain id | .dbUpdate id _ | .dbGetUpdated id | .dbDelete id
  | .dbDeleteSchemas id => id = c
  | _ => false

/-- The commands that are meant to end the verdicts on `c`. -/
def Command.ends (c : String) : Command → Bool
  | .connect id | .update id _ | .delete id | .disconnect id => id = c
  | _ => false

/-- The operation counts a rejected attempt on `c`. -/
def Op.recordsFailure (c : String) : Op → Bool
  | .authFailuresRecord id _ => id = c
  | _ => false

/-- No command ends the denials of `c`, and no rejection trips the breaker. -/
def Until (c : String) (w : World) : Event → Prop
  | .invoke command => command.ends c = false
  | .act _ op _ => op.recordsFailure c = true →
    min (w.shared.connections.attempts c + 1) (2 ^ 32 - 1) < maxAuthAttempts

/-- No broker accepts the credentials. -/
def NoSuccess (c : String) : Event → Prop
  | .invoke _ => True
  | .act _ op input => accepts c op input = false

/-- No command has yet to clear the denials of `c`. -/
def Settled (c : String) (w : World) : Prop :=
  ∀ task ∈ w.tasks, ∀ op ∈ task.script, op.clears c = false

/-- The operation sends records to a topic of `c`. -/
def Op.sendsTo (c topic : String) : Op → Prop
  | .produce connection call _ => connection.id = c ∧ call.topic = topic
  | _ => False

section

variable {decoders : Decoders} {s : AppState} {op f : Op} {input : Input} {c id topic : String}
  {request : Request}

theorem on_of_clears (h : f.clears c = true) : f.on = some c := by
  cases f <;> simp_all [Op.clears, Op.on]

theorem not_clears_of_mem_release (hf : f ∈ release id) : f.clears c = false := by
  simp only [release, dropPooledClient, List.mem_cons, List.not_mem_nil, or_false] at hf
  rcases hf with rfl | rfl <;> rfl

theorem clears_of_mem_settle {result : Except Report Unit} (hf : f ∈ settle id request result)
    (hc : f.clears c = true) : id = c ∧ result = .ok () := by
  have hid : id = c := by
    rcases on_of_mem_settle hf with hon | hon
    · exact absurd (hon.symm.trans (on_of_clears hc)) (by simp)
    · exact Option.some.inj (hon.symm.trans (on_of_clears hc))
  refine ⟨hid, ?_⟩
  rcases of_mem_settle hf with ⟨requestId, flag, -, hf⟩ | hf | ⟨-, -, rfl⟩ | rfl
  · exact absurd ((on_of_mem_finish hf).symm.trans (on_of_clears hc)) (by simp)
  · rcases of_mem_record hf with ⟨hr, -⟩ | ⟨report, -, -, ⟨-, hf⟩ | hf⟩
    · exact hr
    · cases List.mem_singleton.mp hf
      cases hc
    · rw [not_clears_of_mem_release hf] at hc
      cases hc
  · cases hc
  · rcases result with report | ⟨⟩ <;> cases hc

theorem not_clears_of_mem_fail {report : Report} (hf : f ∈ fail id request report) :
    f.clears c = false := by
  rcases of_mem_fail hf with hf | hf
  · exact not_clears_of_mem_release hf
  · by_contra hc
    have := (clears_of_mem_settle hf (Bool.not_eq_false _ ▸ hc)).2
    cases this

/-- **What leads to a clearing of the denials**: another step on the way to one, a success, or the
breaker that trips. -/
theorem Leads.clears (h : Leads decoders s op input f) (hc : f.clears c = true) :
    op.clears c = true ∨ accepts c op input = true ∨ ∃ reason,
      op = .authFailuresRecord c reason ∧
        maxAuthAttempts ≤ (s.connections.countAuthFailure c reason).attempts c := by
  cases h with
  | blocks hb hf =>
    cases (on_of_mem_markDisconnected hf).symm.trans (on_of_clears hc)
    exact Or.inr (Or.inr ⟨_, rfl, hb⟩)
  | refused hb hf => exact absurd ((on_of_mem_refuse hf).symm.trans (on_of_clears hc)) (by simp)
  | unloaded hf => exact absurd ((on_of_mem_refuse hf).symm.trans (on_of_clears hc)) (by simp)
  | loaded hg hf =>
    rcases of_mem_useConnection hf with ⟨call, -, rfl⟩ | rfl | rfl <;> cases hc
  | noMetadata hf | noAdmin hf | failed hf =>
    rw [not_clears_of_mem_fail hf] at hc
    cases hc
  | panicked hf => cases (clears_of_mem_settle hf hc).2
  | answered hf => exact Or.inr (Or.inl (decide_eq_true (clears_of_mem_settle hf hc).1))
  | published hf =>
    rcases of_mem_recordPublishOutcome hf with ⟨hd, hf⟩ | ⟨failure, -, ⟨-, rfl⟩ | ⟨-, hf | hf⟩⟩
    · cases (on_of_mem_clearAuthFailures hf).symm.trans (on_of_clears hc)
      exact Or.inr (Or.inl (by simp [accepts, hd]))
    · cases hc
    · cases List.mem_singleton.mp hf
      cases hc
    · rw [not_clears_of_mem_release hf] at hc
      cases hc
  | reread hf =>
    rcases (Leads.reread hf : Leads decoders s _ .ok f).on_eq with hon | hon
    · exact absurd (hon.symm.trans (on_of_clears hc)) (by simp)
    · cases hon.symm.trans (on_of_clears hc)
      exact Or.inl (decide_eq_true rfl)
  | forgotten hf =>
    rcases (Leads.forgotten hf : Leads decoders s _ .ok f).on_eq with hon | hon
    · exact absurd (hon.symm.trans (on_of_clears hc)) (by simp)
    · cases hon.symm.trans (on_of_clears hc)
      exact Or.inl (decide_eq_true rfl)
  | updated hg => exact Or.inl hc
  | deleted hg => exact Or.inl hc
  | _ => cases hc

theorem Leads.sendsTo (h : Leads decoders s op input f) (hf : f.sendsTo c topic) :
    s.connections.writeDeniedReason c topic = none := by
  rcases h.stages with hstage | hstage
  · cases f <;> first | exact hf.elim | cases hstage
  · cases hstage with
    | encoded hr =>
      obtain ⟨rfl, rfl⟩ := hf
      exact (publishRefusal_eq_none.mp hr).2.2
    | loaded hg hm =>
      rcases of_mem_useConnection hm with ⟨call, -, rfl⟩ | rfl | rfl <;> exact hf.elim
    | _ => exact hf.elim

theorem not_clears_of_mem_script {command : Command} (h : command.ends c = false)
    (hf : f ∈ command.script) : f.clears c = false := by
  cases command with
  | update id new | delete id =>
    cases List.mem_singleton.mp hf
    exact h
  | connect id =>
    rcases List.mem_append.mp hf with hf | hf
    · by_contra hc
      cases (on_of_mem_clearAuthFailures hf).symm.trans (on_of_clears (Bool.not_eq_false _ ▸ hc))
      exact absurd h (by simp [Command.ends])
    · cases List.mem_singleton.mp hf
      rfl
  | disconnect id =>
    have hid : ¬ id = c := of_decide_eq_false h
    simp only [Command.script, markDisconnected, cancelAllForConnection, release, dropPooledClient,
      List.mem_append, List.mem_cons, List.not_mem_nil, or_false] at hf
    rcases hf with (((rfl | rfl) | rfl) | rfl | rfl) | rfl | rfl <;> simp [Op.clears, hid]
  | fetchMessages id requestId | cancelFetch requestId =>
    rcases List.mem_cons.mp hf with rfl | hf
    · rfl
    · cases List.mem_singleton.mp hf
      rfl
  | create connection | query id q | publish id call =>
    cases List.mem_singleton.mp hf
    rfl

theorem not_sendsTo_of_mem_script {command : Command} (hf : f ∈ command.script) :
    ¬ f.sendsTo c topic := by
  intro hs
  cases f <;> first | exact hs | skip
  cases command <;>
    simp [Command.script, clearAuthFailures, connectionForRequest, markDisconnected,
      cancelAllForConnection, release, dropPooledClient, beginForConnection] at hf

end

/-! ## Persistence -/

variable {decoders : Decoders} {c topic : String}

theorem denial_step {w : World} {t : ℕ} {op : Op} {input : Input} {s : AppState} {ops : List Op}
    (huntil : Until c w (.act t op input)) (hsuccess : NoSuccess c (.act t op input))
    (hd : (w.shared.connections.writeDeniedReason c topic).isSome = true)
    (hclears : op.clears c = false)
    (hp : (session decoders).perform w.shared op input = some (s, ops)) :
    (s.connections.writeDeniedReason c topic).isSome = true ∧
      ∀ f ∈ ops, f.clears c = false ∧ ¬ f.sendsTo c topic := by
  obtain ⟨hnext, rfl⟩ := perform_eq_some.mp hp
  refine ⟨effect_writeDenied _ op input c topic ?_ hd, fun f hf => ⟨?_, ?_⟩⟩
  · rintro rfl
    simp [Op.clears] at hclears
  · by_contra hc
    rcases (leads_of_mem_next hnext hf).clears (Bool.not_eq_false _ ▸ hc) with
      hop | hacc | ⟨reason, rfl, hb⟩
    · rw [hclears] at hop
      cases hop
    · rw [show accepts c op input = false from hsuccess] at hacc
      cases hacc
    · rw [ConnectionRegistry.attempts_countAuthFailure] at hb
      exact absurd (huntil (decide_eq_true rfl)) (Nat.not_lt.mpr hb)
  · intro hs
    rw [(leads_of_mem_next hnext hf).sendsTo hs] at hd
    cases hd

/-- **A denial persists.** A publish to `topic` of `c` has been refused by the broker. As long as
nothing is meant to end the verdict and no broker call on `c` succeeds, it stays on record, and no
publish that starts later sends anything to the topic. -/
theorem denial_persists (decoders : Decoders) {c topic reason : String} {w₀ w w' : World} {i : ℕ}
    {es : List Event}
    (hdenied : Script.step (session decoders) w₀
      (.act i (.writeDenialsInsert c topic reason) .ok) = some w)
    (hsettled : Settled c w)
    (huntil : Machine.AllSteps (Script.step (session decoders)) (Until c) w es)
    (hsuccess : ∀ e ∈ es, NoSuccess c e)
    (hrun : Machine.run (Script.step (session decoders)) w es = some w') :
    (w'.shared.connections.writeDeniedReason c topic).isSome = true ∧
      ∀ t op input, .act t op input ∈ es → w.tasks.length ≤ t → ¬ op.sendsTo c topic := by
  have hd : (w.shared.connections.writeDeniedReason c topic).isSome = true := by
    obtain ⟨rest, ops, -, hp, -⟩ := Script.step_act_script hdenied
    rw [(perform_eq_some.mp hp).2]
    show ((w₀.shared.connections.recordWriteDenied c topic reason).writeDeniedReason c
      topic).isSome = true
    rw [ConnectionRegistry.writeDeniedReason_recordWriteDenied]
    rfl
  have hstart : Script.Confined
      (fun s => (s.connections.writeDeniedReason c topic).isSome = true)
      (fun t _ op => op.clears c = false ∧ (w.tasks.length ≤ t → ¬ op.sendsTo c topic)) w := by
    refine ⟨hd, fun t task ht op hop => ⟨?_, fun hlt => ?_⟩⟩
    · exact hsettled task (List.mem_of_getElem? ht) op hop
    · exact absurd (Script.tasks_lt ht) (Nat.not_lt.mpr hlt)
  obtain ⟨hend, hacts⟩ := Script.run_confined
    (fun w command hC op hop =>
      ⟨not_clears_of_mem_script hC.1 hop, fun _ => not_sendsTo_of_mem_script hop⟩)
    (fun w t command op input s ops hC hQ hP hp =>
      have ⟨hQ', hops⟩ := denial_step hC.1 hC.2 hQ hP.1 hp
      ⟨hQ', fun f hf => ⟨(hops f hf).1, fun _ => (hops f hf).2⟩⟩)
    (huntil.and (Machine.allSteps_of_mem hsuccess)) hstart hrun
  refine ⟨hend.shared, fun t op input hmem hlt => ?_⟩
  obtain ⟨command, -, hop⟩ := hacts t op input hmem
  exact hop hlt

/-! ## A denial that is forgotten -/

instance (c : String) (w : World) : ∀ e, Decidable (Until c w e)
  | .invoke command => inferInstanceAs (Decidable (command.ends c = false))
  | .act _ op _ => inferInstanceAs (Decidable (op.recordsFailure c = true → _))

instance (c : String) : ∀ e, Decidable (NoSuccess c e)
  | .invoke _ => inferInstanceAs (Decidable True)
  | .act _ op input => inferInstanceAs (Decidable (accepts c op input = false))

instance (c : String) (w : World) : Decidable (Settled c w) :=
  inferInstanceAs (Decidable (∀ task ∈ w.tasks, ∀ op ∈ task.script, op.clears c = false))

/-- A connect, and a publish that the broker has refused. -/
def deniedEvents : List Event :=
  Script.serialEvents 0
    [(.connect "c1", connectTrace),
      (.publish "c1" ordersCall, publishTrace ++
        [(.produce ordersConnection ordersCall [ordersRecord], .outcome
          { failure := some { index := 0, kind := .authorization, reason := "no access" } })])]

/-- A broker denies writing to a topic. -/
def recordDenial : Event := .act 1 (.writeDenialsInsert "c1" "orders" "no access") .ok

/-- The app behind that. -/
def deniedWorld : World :=
  (Script.step (session plainDecoders) (Machine.after (Script.step (session plainDecoders))
    (.start ordersState) deniedEvents (by decide)) recordDenial).get (by decide)

/-- Another publish, which the registry refuses. -/
def refusedEvents : List Event :=
  Script.serialEvents 2 [(.publish "c1" ordersCall, publishTrace ++
    [(.respond (.error (AppError.authorization.text ++ ": " ++
      (PublishRefusal.brokerDenied "no access").message "orders")), .ok)])]

/-- A listing that succeeds, and then another publish. -/
def listingEvents : List Event :=
  Script.serialEvents 2
    [(.query "c1" .listTopics,
      [(.authBlockReason "c1" (.query .listTopics), .ok), (.dbGet "c1" (.query .listTopics), .ok),
        (.metadataClient ordersConnection (.query .listTopics), .ok),
        (.broker ordersConnection (.query .listTopics), .ok), (.authFailuresRemove "c1", .ok),
        (.writeDenialsRetain "c1", .ok), (.respond (.ok ()), .ok)]),
      (.publish "c1" ordersCall, publishTrace ++
        [(.produce ordersConnection ordersCall [ordersRecord], .outcome {})])]

theorem denial_persists_refused :
    let w := Machine.after (Script.step (session plainDecoders)) deniedWorld refusedEvents (by decide)
    (w.shared.connections.writeDeniedReason "c1" "orders").isSome = true ∧
      ∀ t op input, .act t op input ∈ refusedEvents → deniedWorld.tasks.length ≤ t →
        ¬ op.sendsTo "c1" "orders" := by
  have huntil : Machine.AllSteps (Script.step (session plainDecoders)) (Until "c1") deniedWorld
      refusedEvents := by decide +kernel
  exact denial_persists plainDecoders (Option.some_get _).symm (by decide +kernel) huntil
    (by decide +kernel) (Machine.run_after _ _ refusedEvents _)

/-- **A listing that succeeds makes the app forget a denial.** None of the commands that are meant to
end a verdict starts, the breaker counts nothing, and the next publish to the denied topic reaches
the producer. -/
theorem listing_forgets_denial :
    Settled "c1" deniedWorld ∧
      (deniedWorld.shared.connections.writeDeniedReason "c1" "orders").isSome = true ∧
        Machine.AllSteps (Script.step (session plainDecoders)) (Until "c1") deniedWorld
          listingEvents ∧
        ((Machine.after (Script.step (session plainDecoders)) deniedWorld listingEvents
          (by decide)).shared.connections.writeDeniedReason "c1" "orders") = none ∧
        .act 3 (.produce ordersConnection ordersCall [ordersRecord]) (.outcome {}) ∈
          listingEvents := by
  decide +kernel

end OffsetExplorer.Session
