import OffsetExplorer.Session.Effect

/-!
# The end of a session

What a disconnect or a delete of a connection leaves behind, while other commands on it are still on
their way.

* `Awaits`: the ending command has a removal still to do.
* `Calm`: a step that undoes nothing that the ending command has done.
* `ends_step`: what one removal establishes, calm steps keep.
* **`disconnect_final`**: after a run of calm steps the connection is not connected, has no pooled client
  and its fetches are cancelled.
* **`disconnect_resurrected`**: a connect or a fetch that was on its way breaks this.
-/

namespace OffsetExplorer.Session

/-- The call `d` has `removal` to do, or the database steps that come before it. -/
def Awaits (c : String) (d : ℕ) (removal : Op) (w : World) : Prop :=
  ∃ op ∈ w.script d, op = removal ∨ op = .dbDelete c ∨ op = .dbDeleteSchemas c

/-- The removal that an operation undoes. -/
def Op.undoes (c : String) : Op → Input → Option Op
  | .connectedInsert id, _ => if id = c then some (.connectedRemove c) else none
  | .metadataClient connection _, .ok =>
    if connection.id = c then some (.metadataClientsRemove c) else none
  | .adminClient connection _, .ok =>
    if connection.id = c then some (.adminClientsRemove c) else none
  | _, _ => none

/-- The request that an operation takes off the fetches of `c`. -/
def Op.drops (c : String) : Op → Option String
  | .flagsRemove requestId | .ownersRemove requestId => some requestId
  | .ownersInsert requestId id => if id = c then none else some requestId
  | _ => none

/-- The fetch `requestId` is registered for `c` and holds `flag`. -/
def Registered (c requestId : String) (flag : ℕ) (s : AppState) : Prop :=
  s.fetchCancellations.owners.get? requestId = some c ∧
    s.fetchCancellations.flags.get? requestId = some flag

/-- Every registered fetch of `c` is told to stop. -/
def FetchesStopped (c : String) (s : AppState) : Prop :=
  ∀ requestId flag, Registered c requestId flag s → s.fetchCancellations.heap flag = true

/-- The call `d` has the cancellation of a fetch of `c` to do. -/
def CancelAhead (c : String) (d : ℕ) (requestId : String) (w : World) : Prop :=
  .ownersOf c ∈ w.script d ∨ .flagsCancel requestId ∈ w.script d

/-- A database step of a delete that deletes nothing. -/
def Op.deletesNothing (s : AppState) : Op → Input → Prop
  | .dbDelete id, input => ¬ (input = .ok ∧ (s.db.get id).isSome = true)
  | .dbDeleteSchemas _, input => ¬ input = .ok
  | _, _ => False

/-- A step undoes nothing that the ending call `d` of `c` has done, takes no fetch of `c` out of its
reach, and is no failure of the call itself. -/
def Calm (c : String) (d : ℕ) (w : World) : Event → Prop
  | .invoke _ => True
  | .act t op input =>
    (∀ removal ∈ op.undoes c input, Awaits c d removal w) ∧
      (∀ requestId ∈ op.drops c, w.shared.fetchCancellations.owners.get? requestId = some c →
        ¬ CancelAhead c d requestId w) ∧
      (t = d → ¬ op.deletesNothing w.shared input)

variable {decoders : Decoders} {c : String} {d : ℕ}

/-! ## Removals -/

/-- The removals of a command that ends a session. -/
def removals (c : String) : List Op :=
  [.connectedRemove c, .metadataClientsRemove c, .adminClientsRemove c]

theorem Awaits.act {w w' : World} {removal op : Op} {input : Input}
    (hremoval : removal ∈ removals c)
    (hstep : Script.step (session decoders) w (.act d op input) = some w')
    (hop : op = removal ∨ op = .dbDelete c ∨ op = .dbDeleteSchemas c)
    (hcalm : ¬ op.deletesNothing w.shared input) : op = removal ∨ Awaits c d removal w' := by
  obtain ⟨rest, next, -, hp, hnew, -⟩ := Script.step_act_script hstep
  have hnext := (perform_eq_some.mp hp).1
  have reach : ∀ f ∈ next, f = removal ∨ f = .dbDelete c ∨ f = .dbDeleteSchemas c →
      Awaits c d removal w' := fun f hf h => ⟨f, hnew ▸ List.mem_append_left rest hf, h⟩
  rcases hop with rfl | rfl | rfl
  · exact Or.inl rfl
  · obtain ⟨rfl, hrow⟩ := not_not.mp hcalm
    rw [Session.next, if_pos hrow, Option.some.injEq] at hnext
    subst hnext
    exact Or.inr (reach _ (List.mem_singleton_self _) (Or.inr (Or.inr rfl)))
  · cases not_not.mp hcalm
    rw [Session.next, Option.some.injEq] at hnext
    subst hnext
    refine Or.inr (reach removal ?_ (Or.inl rfl))
    simp only [removals, List.mem_cons, List.not_mem_nil, or_false] at hremoval
    rcases hremoval with rfl | rfl | rfl <;>
      simp [markDisconnected, clearAuthFailures, release, dropPooledClient]

/-- **One removal.** What it establishes, and only an operation that undoes it takes away, holds from then
on, as long as the steps are calm. -/
theorem ends_step {removal : Op} {E : AppState → Prop} (hremoval : removal ∈ removals c)
    (hmade : ∀ s input, E (effect s removal input))
    (hkept : ∀ s op input, E s → removal ∉ op.undoes c input → E (effect s op input))
    {w w' : World} {e : Event} (hcalm : Calm c d w e)
    (hI : Awaits c d removal w ∨ E w.shared)
    (hstep : Script.step (session decoders) w e = some w') :
    Awaits c d removal w' ∨ E w'.shared := by
  by_cases haw : Awaits c d removal w
  · obtain ⟨op, hop, hor⟩ := haw
    rcases Script.mem_script_of_step hstep hop with hop' | ⟨input, rfl⟩
    · exact Or.inl ⟨op, hop', hor⟩
    · rcases Awaits.act hremoval hstep hor (hcalm.2.2 rfl) with rfl | haw'
      · obtain ⟨rest, next, -, hp, -⟩ := Script.step_act_script hstep
        rw [(perform_eq_some.mp hp).2]
        exact Or.inr (hmade _ _)
      · exact Or.inl haw'
  · have hE : E w.shared := hI.resolve_left haw
    right
    cases e with
    | invoke command =>
      rw [(Script.step_invoke_script hstep).1]
      exact hE
    | act t op input =>
      obtain ⟨rest, next, -, hp, -⟩ := Script.step_act_script hstep
      rw [(perform_eq_some.mp hp).2]
      exact hkept _ op input hE fun hmem => haw (hcalm.1 removal hmem)

/-! ## Fetches -/

theorem owners_onFetches {f : FetchCancellations} {op : Op} {requestId : String}
    (hop : requestId ∉ op.drops c) (h : f.owners.get? requestId = some c) :
    (op.onFetches f).owners.get? requestId = some c := by
  cases op with
  | flagsEntry r _ | flagsCancel r =>
    show (f.entry r).1.owners.get? requestId = some c
    rw [FetchCancellations.entry_owners, h]
  | ownersInsert r id =>
    show (f.owners.set r id).get? requestId = some c
    rw [Record.get?_set]
    split_ifs with hr
    · by_contra hid
      have hid : ¬ id = c := fun heq => hid (heq ▸ rfl)
      exact hop (by rw [Op.drops, if_neg hid, hr]; rfl)
    · exact h
  | ownersRemove r =>
    show (f.owners.erase r).get? requestId = some c
    rw [Record.get?_erase_ne _ (by rintro rfl; exact hop rfl), h]
  | _ => exact h

/-- **One fetch.** It is cancelled, or still registered with its cancellation ahead. -/
theorem cancels_step (requestId : String) (flag : ℕ) {w w' : World} {e : Event}
    (hcalm : Calm c d w e)
    (hI : flag < w.shared.fetchCancellations.allocated ∧
      (w.shared.fetchCancellations.heap flag = true ∨
        Registered c requestId flag w.shared ∧ CancelAhead c d requestId w))
    (hstep : Script.step (session decoders) w e = some w') :
    flag < w'.shared.fetchCancellations.allocated ∧
      (w'.shared.fetchCancellations.heap flag = true ∨
        Registered c requestId flag w'.shared ∧ CancelAhead c d requestId w') := by
  obtain ⟨hlt, hI⟩ := hI
  cases e with
  | invoke command =>
    rw [(Script.step_invoke_script hstep).1]
    refine ⟨hlt, hI.imp_right fun ⟨hreg, hahead⟩ => ⟨hreg, ?_⟩⟩
    have keep : ∀ {op}, op ∈ w.script d → op ∈ w'.script d := fun hop =>
      (Script.mem_script_of_step hstep hop).resolve_right (by rintro ⟨input, h⟩; cases h)
    exact hahead.imp keep keep
  | act t op input =>
    obtain ⟨rest, next, hscript, hp, hnew, -⟩ := Script.step_act_script hstep
    obtain ⟨hnext, hshared⟩ := perform_eq_some.mp hp
    unfold Registered
    rw [hshared, effect_fetchCancellations]
    refine ⟨Nat.lt_of_lt_of_le hlt (allocated_onFetches _), ?_⟩
    rcases hI with hheap | ⟨⟨howner, hflag⟩, hahead⟩
    · exact Or.inl (heap_onFetches hlt hheap)
    have hdrop : requestId ∉ op.drops c := fun hmem => hcalm.2.1 requestId hmem howner hahead
    have hreg : (op.onFetches w.shared.fetchCancellations).owners.get? requestId = some c ∧
        (op.onFetches w.shared.fetchCancellations).flags.get? requestId = some flag :=
      ⟨owners_onFetches hdrop howner, flags_onFetches (by rintro rfl; exact hdrop rfl) hflag⟩
    rcases hahead with hahead | hahead
    · rcases Script.mem_script_of_step hstep hahead with hahead | ⟨i, heq⟩
      · exact Or.inr ⟨hreg, Or.inl hahead⟩
      · -- the snapshot has the fetch in it
        cases heq
        refine Or.inr ⟨hreg, Or.inr ?_⟩
        rw [hnew]
        exact List.mem_append_left _ (cancels_of_owner hnext howner)
    · rcases Script.mem_script_of_step hstep hahead with hahead | ⟨i, heq⟩
      · exact Or.inr ⟨hreg, Or.inr hahead⟩
      · cases heq
        exact Or.inl (heap_cancel hflag)

/-! ## The end of a session -/

/-- **Disconnect is final.** Command `d` disconnects or deletes `c`, and has come to its end after a run of
calm steps; when a delete started, every registered fetch of `c` was told to stop already. Then `c` is not
connected, no client of it is pooled, and every fetch of it that was registered at the start has its flag set. -/
theorem disconnect_final (decoders : Decoders) {c : String} {command : Command} {w₀ w : World}
    {es : List Event} (hcommand : command = .disconnect c ∨ command = .delete c)
    (hfetches : command = .delete c → FetchesStopped c w₀.shared)
    (hrun : Machine.run (Script.step (session decoders)) w₀ (.invoke command :: es) = some w)
    (hcalm : Machine.AllSteps (Script.step (session decoders)) (Calm c w₀.tasks.length) w₀
      (.invoke command :: es)) (hdone : w.script w₀.tasks.length = []) :
    w.shared.connections.isConnected c = false ∧ w.shared.kafka.metadataClients c = none ∧
      w.shared.kafka.adminClients c = none ∧
        ∀ requestId flag, Registered c requestId flag w₀.shared →
          w.shared.fetchCancellations.heap flag = true := by
  obtain ⟨w₁, hinvoke, hrun⟩ := Machine.run_cons_some _ hrun
  obtain ⟨hshared, hscript, -⟩ := Script.step_invoke_script hinvoke
  have hcalm := hcalm.2 w₁ hinvoke
  have removed : ∀ (removal : Op) (E : AppState → Prop), removal ∈ removals c →
      (∀ s input, E (effect s removal input)) →
      (∀ s op input, E s → removal ∉ op.undoes c input → E (effect s op input)) →
      E w.shared := by
    intro removal E hremoval hmade hkept
    have hstart : Awaits c w₀.tasks.length removal w₁ := by
      rcases hcommand with rfl | rfl
      · refine ⟨removal, ?_, Or.inl rfl⟩
        rw [hscript]
        simp only [removals, List.mem_cons, List.not_mem_nil, or_false] at hremoval
        rcases hremoval with rfl | rfl | rfl <;>
          simp [session, Command.script, markDisconnected, release, dropPooledClient]
      · exact ⟨.dbDelete c, hscript ▸ List.mem_singleton_self _, Or.inr (Or.inl rfl)⟩
    have hend := Machine.run_induction (fun w e w' hC hI hs => ends_step hremoval hmade hkept hC hI hs)
      hcalm (Or.inl hstart) hrun
    refine hend.resolve_left ?_
    rintro ⟨op, hop, -⟩
    rw [hdone] at hop
    cases hop
  refine ⟨?_, ?_, ?_, ?_⟩
  · refine removed (.connectedRemove c) (fun s => s.connections.connected c = false)
      (by simp [removals]) (fun s input => ?_) (fun s op input hs hop => ?_)
    · rw [effect_connected, if_neg (by simp), if_pos rfl]
    · rw [effect_connected, if_neg (by rintro rfl; exact hop (by simp [Op.undoes])), hs]
      exact ite_self _
  · refine removed (.metadataClientsRemove c) (fun s => s.kafka.metadataClients c = none)
      (by simp [removals]) (fun s input => ?_)
      (fun s op input hs hop => ?_)
    · exact Function.update_self ..
    · rw [effect_metadataClients _ _ _ _ (fun connection request => ?_), hs]
      · exact ite_self _
      · rintro rfl rfl hid
        exact hop (by rw [Op.undoes, if_pos hid]; rfl)
  · refine removed (.adminClientsRemove c) (fun s => s.kafka.adminClients c = none)
      (by simp [removals]) (fun s input => ?_)
      (fun s op input hs hop => ?_)
    · exact Function.update_self ..
    · rw [effect_adminClients _ _ _ _ (fun connection request => ?_), hs]
      · exact ite_self _
      · rintro rfl rfl hid
        exact hop (by rw [Op.undoes, if_pos hid]; rfl)
  · intro requestId flag hreg
    have hlt := w₀.shared.fetchCancellations.flag_lt requestId flag hreg.2
    have hahead : w₀.shared.fetchCancellations.heap flag = true ∨
        Registered c requestId flag w₀.shared ∧ CancelAhead c w₀.tasks.length requestId w₁ := by
      rcases hcommand with rfl | rfl
      · refine Or.inr ⟨hreg, Or.inl ?_⟩
        rw [hscript]
        simp [session, Command.script, markDisconnected, cancelAllForConnection]
      · exact Or.inl (hfetches rfl requestId flag hreg)
    have hend := Machine.run_induction
      (fun w e w' hC hI hs => cancels_step requestId flag hC hI hs) hcalm
      ⟨hshared ▸ hlt, by rw [hshared]; exact hahead⟩ hrun
    refine hend.2.resolve_right ?_
    rintro ⟨-, h | h⟩ <;> rw [hdone] at h <;> cases h

instance (c : String) (d : ℕ) (removal : Op) (w : World) : Decidable (Awaits c d removal w) :=
  inferInstanceAs (Decidable (∃ op ∈ w.script d, _))

instance (c : String) (d : ℕ) (requestId : String) (w : World) :
    Decidable (CancelAhead c d requestId w) :=
  inferInstanceAs (Decidable (_ ∨ _))

instance (s : AppState) (op : Op) (input : Input) : Decidable (op.deletesNothing s input) := by
  unfold Op.deletesNothing
  split <;> infer_instance

instance (c : String) (d : ℕ) (w : World) : ∀ e, Decidable (Calm c d w e)
  | .invoke _ => inferInstanceAs (Decidable True)
  | .act _ _ _ => inferInstanceAs (Decidable (_ ∧ _ ∧ _))

/-! ## Runs with a disconnect and a delete -/

/-- A delete that goes through. -/
def deleteTrace : List (Op × Input) :=
  [(.dbDelete "c1", .ok), (.dbDeleteSchemas "c1", .ok), (.connectedRemove "c1", .ok),
    (.writeDenialsRetain "c1", .ok), (.authFailuresRemove "c1", .ok),
    (.writeDenialsRetain "c1", .ok), (.metadataClientsRemove "c1", .ok),
    (.adminClientsRemove "c1", .ok), (.schemaRegistryRelease "c1", .ok), (.respond (.ok ()), .ok)]

/-- A connected app with a fetch in its poll loop. -/
def fetchingWorld : World :=
  Machine.after (Script.step (session plainDecoders)) (.start ordersState)
    (.invoke (.connect "c1") :: eventsOf 0 connectTrace ++
      .invoke (.fetchMessages "c1" "r1") :: eventsOf 1 fetchTrace) (by decide +kernel)

/-- A disconnect while a fetch is running, which then ends. -/
theorem disconnect_final_fetch :
    let w := Machine.after (Script.step (session plainDecoders)) fetchingWorld
      (.invoke (.disconnect "c1") :: (eventsOf 2 (disconnectTrace ["r1"]) ++ eventsOf 1 fetchedTrace))
      (by decide +kernel)
    w.shared.connections.isConnected "c1" = false ∧ w.shared.kafka.metadataClients "c1" = none ∧
      w.shared.kafka.adminClients "c1" = none ∧
        ∀ requestId flag, Registered "c1" requestId flag fetchingWorld.shared →
          w.shared.fetchCancellations.heap flag = true := by
  intro w
  exact disconnect_final plainDecoders (Or.inl rfl) (fun h => by cases h)
    (Machine.run_after _ _ _ _) (by decide +kernel) (by decide +kernel)

/-- **What was on its way outlives the session.** A connect that had loaded its connection marks it
connected after a disconnect, with a pooled client; and a delete leaves a fetch running. In both runs all
commands have come to their end. -/
theorem disconnect_resurrected :
    (let w := Machine.after (Script.step (session plainDecoders)) (.start ordersState)
        (.invoke (.connect "c1") :: eventsOf 0 (connectTrace.take 4) ++
          .invoke (.disconnect "c1") :: (eventsOf 1 (disconnectTrace []) ++
            eventsOf 0 (connectTrace.drop 4))) (by decide +kernel);
      (∀ task ∈ w.tasks, task.script = []) ∧ w.shared.connections.isConnected "c1" = true ∧
        (w.shared.kafka.metadataClients "c1").isSome = true) ∧
      (let w := Machine.after (Script.step (session plainDecoders)) fetchingWorld
          (.invoke (.delete "c1") :: (eventsOf 2 deleteTrace ++ eventsOf 1 fetchedTrace))
          (by decide +kernel);
        fetchingWorld.shared.fetchCancellations.owners.get? "r1" = some "c1" ∧
          fetchingWorld.shared.fetchCancellations.flags.get? "r1" = some 0 ∧
            (∀ task ∈ w.tasks, task.script = []) ∧
              w.shared.fetchCancellations.heap 0 = false) := by
  decide +kernel

end OffsetExplorer.Session
