import OffsetExplorer.Session.Disconnect

/-!
# The deletion of a connection

`connection_delete` takes a connection off two tables, the registry of sessions and three pools, one
after another and without a transaction.

* `Unchanged`, `Gone`: a connection is as it was, and nothing of it is left.
* `delete_runs`: the three ways that a delete can take, by where its database steps fail.
* `AllOrNothing`: what the answer of a delete should mean.
* **`delete_all_or_nothing_iff`**: it does unless the schemas cannot be deleted once the row is gone, or a
  fetch of the connection is running.
-/

namespace OffsetExplorer.Session

/-- What a call has answered. -/
def answered (trace : List (Op × Input)) : Option (Except String Unit) :=
  trace.findSome? fun entry =>
    match entry.1 with
    | .respond result => some result
    | _ => none

/-- The rows, the session and the fetches of `c` are as they were. -/
structure Unchanged (c : String) (s s' : AppState) : Prop where
  row : s'.db.connections.filter (·.id = c) = s.db.connections.filter (·.id = c)
  schemas : s'.db.topicSchemas.filter (·.1 = c) = s.db.topicSchemas.filter (·.1 = c)
  connected : s'.connections.connected c = s.connections.connected c
  authFailures : s'.connections.authFailures c = s.connections.authFailures c
  writeDenials : ∀ topic, s'.connections.writeDenials (c, topic) = s.connections.writeDenials (c, topic)
  metadataClient : s'.kafka.metadataClients c = s.kafka.metadataClients c
  adminClient : s'.kafka.adminClients c = s.kafka.adminClients c
  schemaRegistry : s'.schemaRegistry c = s.schemaRegistry c
  fetches : s'.fetchCancellations = s.fetchCancellations

/-- Nothing of `c` is left. -/
structure Gone (c : String) (s : AppState) : Prop where
  row : ∀ row ∈ s.db.connections, row.id ≠ c
  schemas : ∀ schema ∈ s.db.topicSchemas, schema.1 ≠ c
  connected : s.connections.connected c = false
  authFailures : s.connections.authFailures c = none
  writeDenials : ∀ topic, s.connections.writeDenials (c, topic) = none
  metadataClient : s.kafka.metadataClients c = none
  adminClient : s.kafka.adminClients c = none
  schemaRegistry : s.schemaRegistry c = false
  fetches : FetchesStopped c s

/-- An error leaves the connection as it was, or for a retry to delete; a success leaves nothing of it. -/
structure AllOrNothing (decoders : Decoders) (c : String) (s : AppState) (trace : List (Op × Input))
    (s' : AppState) : Prop where
  error : ∀ message, answered trace = some (.error message) → Unchanged c s s' ∨
    ∃ again t, Script.serialStep (session decoders) s' (.delete c, again) = some t ∧
      answered again = some (.ok ()) ∧ Gone c t
  ok : answered trace = some (.ok ()) → Gone c s'

/-- What a delete does once both tables are cleared. -/
def forget (c : String) : List Op :=
  markDisconnected c ++ clearAuthFailures c ++ release c ++ [.schemaRegistryRelease c]

/-- The state after a delete that has gone through. -/
def deleted (c : String) (s : AppState) : AppState :=
  (forget c).foldl (fun s op => effect s op .ok)
    { s with db := (s.db.delete c).deleteAllForConnection c }

variable {decoders : Decoders} {c : String} {s s' : AppState} {trace : List (Op × Input)}

theorem unchanged_refl : Unchanged c s s :=
  ⟨rfl, rfl, rfl, rfl, fun _ => rfl, rfl, rfl, rfl, rfl⟩

/-! ## The ways of a delete -/

/-- The first operation of a script: what it meets, what it leads to, and the rest. -/
theorem exec_first {op : Op} {rest : List Op}
    (h : Script.exec (session decoders) s (op :: rest) trace = some s') :
    ∃ input ops after, trace = (op, input) :: after ∧ next decoders s op input = some ops ∧
      Script.exec (session decoders) (effect s op input) (ops ++ rest) after = some s' := by
  cases trace with
  | nil => cases h
  | cons entry after =>
    obtain ⟨o, input⟩ := entry
    obtain ⟨rfl, u, ops, hp, he⟩ := Script.exec_cons.mp h
    obtain ⟨hnext, rfl⟩ := perform_eq_some.mp hp
    exact ⟨input, ops, after, rfl, hnext, he⟩

theorem exec_respond {result : Except String Unit}
    (h : Script.exec (session decoders) s [.respond result] trace = some s') :
    trace = [(.respond result, .ok)] ∧ s' = s := by
  obtain ⟨input, ops, after, rfl, hnext, he⟩ := exec_first h
  cases input with
  | ok =>
    cases hnext
    cases after with
    | nil =>
      cases he
      exact ⟨rfl, rfl⟩
    | cons entry after => cases he
  | _ => cases hnext

theorem exec_plain {ops rest : List Op}
    (hplain : ∀ op ∈ ops, ∀ s input after, next decoders s op input = some after →
      input = .ok ∧ after = [])
    (h : Script.exec (session decoders) s (ops ++ rest) trace = some s') :
    ∃ after, trace = ops.map (·, .ok) ++ after ∧
      Script.exec (session decoders) (ops.foldl (fun s op => effect s op .ok) s) rest after = some s' := by
  induction ops generalizing s trace with
  | nil => exact ⟨trace, rfl, h⟩
  | cons op ops ih =>
    obtain ⟨input, leads, tail, rfl, hnext, he⟩ := exec_first h
    obtain ⟨rfl, rfl⟩ := hplain _ List.mem_cons_self _ _ _ hnext
    obtain ⟨after, rfl, hafter⟩ := ih (fun o ho => hplain o (List.mem_cons_of_mem _ ho)) he
    exact ⟨after, rfl, hafter⟩

theorem plain_of_mem_forget : ∀ op ∈ forget c, ∀ s input after,
    next decoders s op input = some after → input = .ok ∧ after = [] := by
  intro op hop s input after hnext
  simp only [forget, markDisconnected, clearAuthFailures, release, dropPooledClient, List.cons_append,
    List.nil_append, List.mem_cons, List.not_mem_nil, or_false] at hop
  rcases hop with rfl | rfl | rfl | rfl | rfl | rfl | rfl <;> cases input <;> cases hnext <;>
    exact ⟨rfl, rfl⟩

/-- **The ways of a delete.** The row is not deleted; or the row is and the schemas are not; or both are,
and all the rest is forgotten. -/
theorem delete_runs (h : Script.serialStep (session decoders) s (.delete c, trace) = some s') :
    (∃ input message, trace = [(.dbDelete c, input), (.respond (.error message), .ok)] ∧ s' = s ∧
        (input = .ok → s.db.get c = none)) ∨
      (∃ report message, trace = [(.dbDelete c, .ok), (.dbDeleteSchemas c, .error report),
          (.respond (.error message), .ok)] ∧ s' = { s with db := s.db.delete c } ∧
        (s.db.get c).isSome = true) ∨
      (trace = (.dbDelete c, .ok) :: (.dbDeleteSchemas c, .ok) ::
          ((forget c).map (·, .ok) ++ [(.respond (.ok ()), .ok)]) ∧ s' = deleted c s ∧
        (s.db.get c).isSome = true) := by
  have hexec : Script.exec (session decoders) s [.dbDelete c] trace = some s' := h
  obtain ⟨input, ops, trace, rfl, hnext, he⟩ := exec_first hexec
  cases input with
  | error report =>
    cases hnext
    obtain ⟨rfl, rfl⟩ := exec_respond he
    exact Or.inl ⟨_, _, rfl, rfl, nofun⟩
  | ok =>
    by_cases hrow : (s.db.get c).isSome = true
    · rw [next, if_pos hrow, Option.some.injEq] at hnext
      subst hnext
      right
      obtain ⟨input, ops, trace, rfl, hnext, he⟩ := exec_first he
      cases input with
      | error report =>
        cases hnext
        obtain ⟨rfl, rfl⟩ := exec_respond he
        exact Or.inl ⟨_, _, rfl, rfl, hrow⟩
      | ok =>
        cases hnext
        have he : Script.exec (session decoders)
            { s with db := (s.db.delete c).deleteAllForConnection c }
            (forget c ++ [.respond (.ok ())]) trace = some s' := he
        obtain ⟨after, rfl, hafter⟩ := exec_plain plain_of_mem_forget he
        obtain ⟨rfl, rfl⟩ := exec_respond hafter
        exact Or.inr ⟨rfl, rfl, hrow⟩
      | _ => cases hnext
    · rw [next, if_neg hrow, Option.some.injEq] at hnext
      subst hnext
      obtain ⟨rfl, rfl⟩ := exec_respond he
      have hnone : s.db.get c = none := Option.not_isSome_iff_eq_none.mp hrow
      have hsame : s.db.delete c = s.db := by
        rw [Database.delete, List.filter_eq_self.mpr]
        intro row hmem
        exact decide_eq_true fun hid => absurd (decide_eq_true hid) (List.find?_eq_none.mp hnone row hmem)
      refine Or.inl ⟨_, _, rfl, ?_, fun _ => hnone⟩
      show { s with db := s.db.delete c } = s
      rw [hsame]
  | _ => cases hnext

/-! ## What is left -/

theorem get_delete : (s.db.delete c).get c = none :=
  List.find?_eq_none.mpr fun _ hmem heq =>
    of_decide_eq_true (List.mem_filter.mp hmem).2 (of_decide_eq_true heq)

theorem gone_deleted (hfetches : FetchesStopped c s) : Gone c (deleted c s) where
  row := fun _ hmem => of_decide_eq_true (List.mem_filter.mp hmem).2
  schemas := fun _ hmem => of_decide_eq_true (List.mem_filter.mp hmem).2
  connected := Function.update_self ..
  authFailures := Function.update_self ..
  writeDenials := fun _ => if_pos rfl
  metadataClient := Function.update_self ..
  adminClient := Function.update_self ..
  schemaRegistry := Function.update_self ..
  fetches := hfetches

theorem not_retried {again : List (Op × Input)} {t : AppState} (hrow : s.db.get c = none)
    (h : Script.serialStep (session decoders) s (.delete c, again) = some t) :
    answered again ≠ some (.ok ()) := by
  rcases delete_runs h with ⟨input, message, rfl, -⟩ | ⟨report, message, rfl, -⟩ | ⟨-, -, hsome⟩
  · nofun
  · nofun
  · rw [hrow] at hsome
    cases hsome

/-- A delete that stops between its two tables can be neither taken back nor completed. -/
theorem not_allOrNothing_of_half {report : Report} {message : String}
    (hrow : (s.db.get c).isSome = true) :
    ¬ AllOrNothing decoders c s [(.dbDelete c, .ok), (.dbDeleteSchemas c, .error report),
      (.respond (.error message), .ok)] { s with db := s.db.delete c } := by
  intro h
  rcases h.error message rfl with hsame | ⟨again, t, hretry, hok, -⟩
  · obtain ⟨row, hget⟩ := Option.isSome_iff_exists.mp hrow
    have hmem : row ∈ s.db.connections.filter (·.id = c) :=
      List.mem_filter.mpr ⟨List.mem_of_find?_eq_some hget, decide_eq_true (Database.id_of_get hget)⟩
    rw [← hsame.row, List.mem_filter] at hmem
    exact of_decide_eq_true (List.mem_filter.mp hmem.1).2 (of_decide_eq_true hmem.2)
  · exact not_retried get_delete hretry hok

theorem fetchesStopped_of_allOrNothing
    (h : Script.serialStep (session decoders) s (.delete c, trace) = some s')
    (hok : answered trace = some (.ok ())) (hall : AllOrNothing decoders c s trace s') :
    FetchesStopped c s := by
  rcases delete_runs h with ⟨input, message, rfl, -⟩ | ⟨report, message, rfl, -⟩ | ⟨rfl, rfl, -⟩
  · cases hok
  · cases hok
  · exact (hall.ok hok).fetches

/-- **A delete is all or nothing** if and only if, where it deletes a row, it also deletes the schemas,
and every registered fetch of the connection was told to stop before. -/
theorem delete_all_or_nothing_iff (decoders : Decoders) (c : String) (s s' : AppState)
    (trace : List (Op × Input))
    (h : Script.serialStep (session decoders) s (.delete c, trace) = some s') :
    AllOrNothing decoders c s trace s' ↔
      ((s.db.get c).isSome = true → (.dbDelete c, .ok) ∈ trace →
        (.dbDeleteSchemas c, .ok) ∈ trace ∧ FetchesStopped c s) := by
  rcases delete_runs h with ⟨input, message, rfl, rfl, hnone⟩ | ⟨report, message, rfl, rfl, hrow⟩ |
    ⟨rfl, rfl, hrow⟩
  · refine ⟨fun _ hrow hmem => ?_, fun _ => ⟨fun _ _ => Or.inl unchanged_refl, nofun⟩⟩
    have hinput : input = .ok := by simpa [eq_comm] using hmem
    rw [hnone hinput] at hrow
    cases hrow
  · refine ⟨fun hall => absurd hall (not_allOrNothing_of_half hrow), fun hcond => ?_⟩
    have hmem := (hcond hrow List.mem_cons_self).1
    simp at hmem
  · have hok : answered ((.dbDelete c, .ok) :: (.dbDeleteSchemas c, .ok) ::
        ((forget c).map (·, .ok) ++ [(.respond (.ok ()), .ok)])) = some (.ok ()) := rfl
    refine ⟨fun hall _ _ => ⟨by simp, fetchesStopped_of_allOrNothing h hok hall⟩, fun hcond =>
      ⟨fun message herror => ?_, fun _ => gone_deleted (hcond hrow List.mem_cons_self).2⟩⟩
    rw [hok] at herror
    cases herror

/-- A delete of a connection that no fetch reads from. -/
theorem delete_all_or_nothing_iff_orders :
    let s' := (Script.serialStep (session plainDecoders) ordersState (.delete "c1", deleteTrace)).get
      (by decide +kernel)
    AllOrNothing plainDecoders "c1" ordersState deleteTrace s' ↔
      ((ordersState.db.get "c1").isSome = true → (.dbDelete "c1", .ok) ∈ deleteTrace →
        (.dbDeleteSchemas "c1", .ok) ∈ deleteTrace ∧ FetchesStopped "c1" ordersState) := by
  intro s'
  exact delete_all_or_nothing_iff plainDecoders "c1" ordersState s' deleteTrace (Option.some_get _).symm

/-! ## Two deletes -/

/-- A connection with a saved schema. -/
def schemaState : AppState :=
  { ordersState with
    db := { connections := [ordersConnection], topicSchemas := [("c1", "orders", "avro")] } }

/-- An error of the database. -/
def lockedReport : Report :=
  ⟨.db, ["database is locked", "failed to delete topic schemas for connection c1"]⟩

/-- A delete whose second statement fails. -/
def halfTrace : List (Op × Input) :=
  [(.dbDelete "c1", .ok), (.dbDeleteSchemas "c1", .error lockedReport),
    (.respond (.error (formatReport lockedReport)), .ok)]

/-- **Two deletes that leave something.** One stops after the row, with the saved schema and no retry that
deletes it; the other goes through while a fetch of the connection is polling, and does not stop it. -/
theorem delete_leaves :
    (∃ s', Script.serialStep (session plainDecoders) schemaState (.delete "c1", halfTrace) = some s' ∧
        ¬ AllOrNothing plainDecoders "c1" schemaState halfTrace s') ∧
      ∃ s', Script.serialStep (session plainDecoders) fetchingWorld.shared (.delete "c1", deleteTrace) =
          some s' ∧
        ¬ AllOrNothing plainDecoders "c1" fetchingWorld.shared deleteTrace s' := by
  constructor
  · exact ⟨{ schemaState with db := schemaState.db.delete "c1" }, rfl,
      not_allOrNothing_of_half (by decide)⟩
  · have hrun : (Script.serialStep (session plainDecoders) fetchingWorld.shared
        (.delete "c1", deleteTrace)).isSome = true := by decide +kernel
    refine ⟨_, (Option.some_get hrun).symm, fun h => ?_⟩
    have hstopped := fetchesStopped_of_allOrNothing (Option.some_get hrun).symm rfl h
    have hreg : Registered "c1" "r1" 0 fetchingWorld.shared := by
      unfold Registered
      decide +kernel
    exact absurd (hstopped "r1" 0 hreg) (by decide +kernel)

end OffsetExplorer.Session
