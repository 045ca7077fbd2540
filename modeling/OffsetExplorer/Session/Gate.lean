import OffsetExplorer.Session.Effect
import OffsetExplorer.Publish.Batch

/-!
# The gates of a publish

A publish goes through five gates, one after the other: the breaker, the saved row, the connected set,
the denials and validation. Each reads the state as it finds it.

* `Admitted`: what the five gates have read, each at its own time.
* `Passed`, `Leads.passed`: how far a publish is, and that an operation takes it one gate further.
* **`publish_gate`**: a publish that produces was admitted, and one that does not has changed nothing;
  alone and among other commands.
-/

namespace OffsetExplorer.Session

/-- All five gates are open to a call; `reads op P` says that `op` has found a state that satisfies `P`. -/
structure Admitted (reads : Op → (AppState → Prop) → Prop) (decoders : Decoders) (id : String)
    (call : PublishCall) (connection : Connection) (records : List EncodedRecord) : Prop where
  notBlocked : reads (.authBlockReason id (.publish call)) fun s =>
    s.connections.authBlockReason id = none
  row : reads (.dbGet id (.publish call)) fun s => s.db.get id = some connection
  connected : reads (.isConnected connection call) fun s => s.connections.isConnected id = true
  allowed : connection.allowPublishing = true
  notDenied : reads (.writeDenied connection call true) fun s =>
    s.connections.writeDeniedReason id call.topic = none
  valid : ValidBatch decoders call.maxMessageSizeBytes call.messages records

/-- The gates that a call has passed when this operation is its next. -/
def Passed (reads : Op → (AppState → Prop) → Prop) (decoders : Decoders) (id : String)
    (call : PublishCall) : Op → Prop
  | .authBlockReason c request => c = id ∧ request = .publish call
  | .dbGet c request => c = id ∧ request = .publish call ∧
    reads (.authBlockReason id (.publish call)) fun s => s.connections.authBlockReason id = none
  | .isConnected connection k => k = call ∧ connection.id = id ∧
    (reads (.authBlockReason id (.publish call)) fun s => s.connections.authBlockReason id = none) ∧
      reads (.dbGet id (.publish call)) fun s => s.db.get id = some connection
  | .writeDenied connection k connected => k = call ∧ connection.id = id ∧
    (reads (.authBlockReason id (.publish call)) fun s => s.connections.authBlockReason id = none) ∧
      (reads (.dbGet id (.publish call)) fun s => s.db.get id = some connection) ∧
        reads (.isConnected connection call) fun s => s.connections.isConnected id = connected
  | .produce connection k records => k = call ∧ connection.id = id ∧
    Admitted reads decoders id call connection records
  | .respond _ => True
  | _ => False

/-- The operation records what a publish has come to. -/
def Op.concludes : Op → Bool
  | .authFailuresRemove _ | .writeDenialsRetain _ | .writeDenialsInsert _ _ _ | .authFailuresRecord _ _
  | .connectedRemove _ | .metadataClientsRemove _ | .adminClientsRemove _ | .respond _ => true
  | _ => false

/-- The operation hands records to the producer. -/
def Op.produces : Op → Bool
  | .produce _ _ _ => true
  | _ => false

variable {reads reads' : Op → (AppState → Prop) → Prop} {decoders : Decoders} {id : String}
  {call : PublishCall} {s : AppState} {op f : Op} {input : Input}

theorem Passed.mono (hreads : ∀ op P, reads op P → reads' op P) (h : Passed reads decoders id call op) :
    Passed reads' decoders id call op := by
  cases op with
  | authBlockReason | respond => exact h
  | dbGet => exact ⟨h.1, h.2.1, hreads _ _ h.2.2⟩
  | isConnected => exact ⟨h.1, h.2.1, hreads _ _ h.2.2.1, hreads _ _ h.2.2.2⟩
  | writeDenied =>
    exact ⟨h.1, h.2.1, hreads _ _ h.2.2.1, hreads _ _ h.2.2.2.1, hreads _ _ h.2.2.2.2⟩
  | produce =>
    obtain ⟨hk, hid, h⟩ := h
    exact ⟨hk, hid, hreads _ _ h.notBlocked, hreads _ _ h.row, hreads _ _ h.connected, h.allowed,
      hreads _ _ h.notDenied, h.valid⟩
  | _ => exact h.elim

theorem Passed.effect (h : Passed reads decoders id call op) : effect s op input = s := by
  cases op <;> first | exact h.elim | cases input <;> rfl

theorem concludes_of_mem_clearAuthFailures (hf : f ∈ clearAuthFailures id) : f.concludes = true := by
  simp only [clearAuthFailures, List.mem_cons, List.not_mem_nil, or_false] at hf
  rcases hf with rfl | rfl <;> rfl

theorem concludes_of_mem_release (hf : f ∈ release id) : f.concludes = true := by
  simp only [release, dropPooledClient, List.mem_cons, List.not_mem_nil, or_false] at hf
  rcases hf with rfl | rfl <;> rfl

theorem concludes_of_published {topic : String} {outcome : PublishOutcome}
    (hf : f ∈ recordPublishOutcome id topic outcome) : f.concludes = true := by
  rcases of_mem_recordPublishOutcome hf with ⟨-, hf⟩ | ⟨failure, -, ⟨-, rfl⟩ | ⟨-, hf | hf⟩⟩
  · exact concludes_of_mem_clearAuthFailures hf
  · rfl
  · cases List.mem_singleton.mp hf
    rfl
  · exact concludes_of_mem_release hf

/-- **An operation takes a publish one gate further**, or to the record of what it has come to. -/
theorem Leads.passed (hnow : ∀ P : AppState → Prop, P s → reads op P)
    (h : Passed reads decoders id call op) (hl : Leads decoders s op input f) :
    Passed reads decoders id call f ∨ op.produces = true ∧ f.concludes = true := by
  cases hl with
  | responds => exact Or.inl trivial
  | refused hb hf =>
    obtain ⟨rfl, rfl⟩ := h
    cases List.mem_singleton.mp hf
    exact Or.inl trivial
  | admitted hb =>
    obtain ⟨rfl, rfl⟩ := h
    exact Or.inl ⟨rfl, rfl, hnow _ hb⟩
  | loaded hg hf =>
    obtain ⟨rfl, rfl, hblock⟩ := h
    cases List.mem_singleton.mp hf
    exact Or.inl ⟨rfl, Database.id_of_get hg, hblock, hnow _ hg⟩
  | unloaded hf =>
    obtain ⟨rfl, rfl, -⟩ := h
    cases List.mem_singleton.mp hf
    exact Or.inl trivial
  | connected =>
    obtain ⟨rfl, hid, hblock, hrow⟩ := h
    exact Or.inl ⟨rfl, hid, hblock, hrow, hnow _ (congrArg _ hid.symm)⟩
  | encoded hr he =>
    obtain ⟨rfl, hid, hblock, hrow, hconnected⟩ := h
    obtain ⟨rfl, hallowed, hdenied⟩ := publishRefusal_eq_none.mp hr
    rw [hid] at hdenied
    exact Or.inl ⟨rfl, hid, hblock, hrow, hconnected, hallowed, hnow _ hdenied,
      encodeMessages_eq_ok.mp he⟩
  | published hf => exact Or.inr ⟨rfl, concludes_of_published hf⟩
  | _ => exact h.elim

theorem Leads.concludes (h : op.concludes = true) (hl : Leads decoders s op input f) :
    f.concludes = true := by
  cases hl with
  | blocks hb hf =>
    simp only [markDisconnected, List.mem_cons, List.not_mem_nil, or_false] at hf
    rcases hf with rfl | rfl <;> rfl
  | responds => rfl
  | _ => cases h

theorem Passed.admitted {connection : Connection} {k : PublishCall} {records : List EncodedRecord}
    (h : Passed reads decoders id call (.produce connection k records)) :
    k = call ∧ Admitted reads decoders id call connection records :=
  ⟨h.1, h.2.2⟩

/-! ## Among other commands -/

/-- Call `t` has performed `op` in a state that satisfies `P`. -/
def Reads (decoders : Decoders) (s : AppState) (es : List Event) (t : ℕ) (op : Op)
    (P : AppState → Prop) : Prop :=
  ∃ pre input post w, es = pre ++ .act t op input :: post ∧
    Machine.run (Script.step (session decoders)) (.start s) pre = some w ∧ P w.shared

variable {w w' : World} {es : List Event} {t : ℕ}

theorem Reads.append {fs : List Event} {P : AppState → Prop} (h : Reads decoders s es t op P) :
    Reads decoders s (es ++ fs) t op P := by
  obtain ⟨pre, input, post, w, rfl, hw, hP⟩ := h
  exact ⟨pre, input, post ++ fs, w, by simp, hw, hP⟩

/-- Call `t` has handed records to the producer. -/
def Produced (es : List Event) (t : ℕ) : Prop :=
  ∃ op input, .act t op input ∈ es ∧ op.produces = true

/-- How far a publish is among other commands. -/
def Gated (decoders : Decoders) (s : AppState) (es : List Event) (w : World) : Prop :=
  ∀ t id call, (Script.labels es)[t]? = some (.publish id call) → ∀ op ∈ w.script t,
    Passed (Reads decoders s es t) decoders id call op ∨ Produced es t ∧ op.concludes = true

theorem Gated.step {e : Event} (h : Gated decoders s es w)
    (hrun : Machine.run (Script.step (session decoders)) (.start s) es = some w)
    (hstep : Script.step (session decoders) w e = some w') : Gated decoders s (es ++ [e]) w' := by
  have hlen : (Script.labels es).length = w.tasks.length := by
    rw [← Script.labels_of_run hrun, List.length_map]
  have later : ∀ {t id call op}, (Passed (Reads decoders s es t) decoders id call op ∨
      Produced es t ∧ op.concludes = true) → Passed (Reads decoders s (es ++ [e]) t) decoders id call op ∨
        Produced (es ++ [e]) t ∧ op.concludes = true := by
    rintro t id call op (hpassed | ⟨⟨o, i, hmem, ho⟩, hop⟩)
    · exact Or.inl (hpassed.mono fun _ _ => Reads.append)
    · exact Or.inr ⟨⟨o, i, List.mem_append_left _ hmem, ho⟩, hop⟩
  cases e with
  | invoke command =>
    obtain ⟨-, hnew, hother⟩ := Script.step_invoke_script hstep
    intro t id call ht op hop
    rcases Script.label_of_invoke ht with ht | ⟨rfl, rfl⟩
    · have hlt := (List.getElem?_eq_some_iff.mp ht).1
      rw [hother t (by omega)] at hop
      exact later (h t id call ht op hop)
    · rw [hlen, hnew] at hop
      cases List.mem_singleton.mp hop
      exact Or.inl ⟨rfl, rfl⟩
  | act u o input =>
    obtain ⟨rest, next, hscript, hp, hnew, hother⟩ := Script.step_act_script hstep
    have hlabels := Script.labels_act es u o input
    intro t id call ht op hop
    rw [hlabels] at ht
    by_cases htu : t = u
    · subst htu
      rw [hnew] at hop
      rcases List.mem_append.mp hop with hop | hop
      · have hl := leads_of_mem_next (perform_eq_some.mp hp).1 hop
        rcases h t id call ht o (hscript ▸ List.mem_cons_self) with hpassed | ⟨⟨p, i, hmem, hp⟩, ho⟩
        · have hnow : ∀ P : AppState → Prop, P w.shared →
              Reads decoders s (es ++ [.act t o input]) t o P := fun P hP =>
            ⟨es, input, [], w, rfl, hrun, hP⟩
          rcases hl.passed hnow (hpassed.mono fun _ _ => Reads.append) with hpassed | ⟨ho, hop⟩
          · exact Or.inl hpassed
          · exact Or.inr ⟨⟨o, input, List.mem_append_right _ (List.mem_singleton_self _), ho⟩, hop⟩
        · exact Or.inr ⟨⟨p, i, List.mem_append_left _ hmem, hp⟩, hl.concludes ho⟩
      · exact later (h t id call ht op (hscript ▸ List.mem_cons_of_mem o hop))
    · exact later (h t id call ht op (hother t htu ▸ hop))

theorem gated_run (hrun : Machine.run (Script.step (session decoders)) (.start s) es = some w) :
    Gated decoders s es w := by
  have hboth := Machine.run_history (P := fun _ => True)
    (I := fun es w => Machine.run (Script.step (session decoders)) (.start s) es = some w ∧
      Gated decoders s es w) ?_ ?_ (fun _ _ => trivial) hrun
  · exact hboth.2
  · exact ⟨rfl, fun t id call ht => by cases ht⟩
  · rintro es w e w' - ⟨hrun, hgated⟩ hstep
    refine ⟨?_, hgated.step hrun hstep⟩
    rw [Machine.run_snoc, hrun]
    exact hstep

theorem admitted_of_mem {connection : Connection} {k : PublishCall} {records : List EncodedRecord}
    (hrun : Machine.run (Script.step (session decoders)) (.start s) es = some w)
    (hlabel : (Script.labels es)[t]? = some (.publish id call))
    (hmem : .act t (.produce connection k records) input ∈ es) :
    k = call ∧ Admitted (Reads decoders s es t) decoders id call connection records := by
  obtain ⟨pre, post, v, rfl, hv, hpending⟩ := Script.exists_of_mem hrun hmem
  have hlt : t < (Script.labels pre).length := by
    rw [← Script.labels_of_run hv, List.length_map]
    exact Script.lt_of_mem_script hpending
  rw [Script.labels_append, List.getElem?_append_left hlt] at hlabel
  have hpassed := (gated_run hv t id call hlabel _ hpending).resolve_right fun h => nomatch h.2
  exact (hpassed.mono fun _ _ => Reads.append).admitted

theorem shared_of_step (hrun : Machine.run (Script.step (session decoders)) (.start s) es = some w)
    (hlabel : (Script.labels es)[t]? = some (.publish id call)) (hnot : ¬ Produced es t)
    (hstep : Script.step (session decoders) w (.act t op input) = some w') : w'.shared = w.shared := by
  obtain ⟨rest, next, hscript, hp, -⟩ := Script.step_act_script hstep
  have hpassed := (gated_run hrun t id call hlabel op (hscript ▸ List.mem_cons_self)).resolve_right
    fun h => hnot h.1
  rw [(perform_eq_some.mp hp).2, hpassed.effect]

/-! ## Alone -/

theorem length_next {ops : List Op} (h : Passed reads decoders id call op)
    (hop : op.produces = false) (hnext : next decoders s op input = some ops) : ops.length ≤ 1 := by
  cases op <;> first | exact h.elim | (cases hop; done) | skip
  all_goals cases input <;> simp only [next, reduceCtorEq, Option.some.injEq] at hnext
  all_goals subst hnext
  case authBlockReason.ok =>
    obtain ⟨rfl, rfl⟩ := h
    split <;> exact Nat.le_refl 1
  case dbGet.ok =>
    obtain ⟨rfl, rfl, -⟩ := h
    split <;> exact Nat.le_refl 1
  case dbGet.error =>
    obtain ⟨rfl, rfl, -⟩ := h
    exact Nat.le_refl 1
  case isConnected.ok => exact Nat.le_refl 1
  case writeDenied.ok =>
    split
    · exact Nat.le_refl 1
    · split <;> exact Nat.le_refl 1
  case respond.ok => exact Nat.zero_le 1

theorem Leads.concludes_of_produces (h : op.produces = true) (hl : Leads decoders s op input f) :
    f.concludes = true := by
  cases hl with
  | published hf => exact concludes_of_published hf
  | responds => rfl
  | _ => cases h

/-- How far a publish is that runs alone, from its trace so far. -/
def GatedAlone (decoders : Decoders) (s₀ : AppState) (id : String) (call : PublishCall)
    (trace : List (Op × Input)) (s : AppState) (script : List Op) : Prop :=
  (∀ connection k records input, (.produce connection k records, input) ∈ trace →
    k = call ∧ Admitted (fun _ P => P s₀) decoders id call connection records) ∧
    (((∀ entry ∈ trace, entry.1.produces = false) ∧ s = s₀ ∧ script.length ≤ 1 ∧
      ∀ op ∈ script, Passed (fun _ P => P s₀) decoders id call op) ∨
      ((∃ entry ∈ trace, entry.1.produces = true) ∧ ∀ op ∈ script, op.concludes = true))

theorem GatedAlone.step {s₀ : AppState} {trace : List (Op × Input)} {rest ops : List Op}
    (h : GatedAlone decoders s₀ id call trace s (op :: rest))
    (hnext : next decoders s op input = some ops) :
    GatedAlone decoders s₀ id call (trace ++ [(op, input)]) (effect s op input) (ops ++ rest) := by
  obtain ⟨hadmitted, ⟨hno, rfl, hlen, hpassed⟩ | ⟨⟨entry, hentry, hproduces⟩, hconcludes⟩⟩ := h
  · have hrest : rest = [] := List.eq_nil_of_length_eq_zero (by rw [List.length_cons] at hlen; omega)
    subst hrest
    have hop := hpassed op List.mem_cons_self
    rw [List.append_nil]
    constructor
    · intro connection k records i hmem
      rcases List.mem_append.mp hmem with hmem | hmem
      · exact hadmitted connection k records i hmem
      · cases List.mem_singleton.mp hmem
        exact hop.admitted
    · cases hproduces : op.produces with
      | true =>
        refine Or.inr ⟨⟨(op, input), by simp, hproduces⟩, fun f hf => ?_⟩
        exact (leads_of_mem_next hnext hf).concludes_of_produces hproduces
      | false =>
        refine Or.inl ⟨?_, hop.effect, length_next hop hproduces hnext, fun f hf => ?_⟩
        · intro entry hmem
          rcases List.mem_append.mp hmem with hmem | hmem
          · exact hno entry hmem
          · cases List.mem_singleton.mp hmem
            exact hproduces
        · refine ((leads_of_mem_next hnext hf).passed (fun P hP => hP) hop).resolve_right ?_
          rintro ⟨htrue, -⟩
          rw [hproduces] at htrue
          cases htrue
  · have hop := hconcludes op List.mem_cons_self
    constructor
    · intro connection k records i hmem
      rcases List.mem_append.mp hmem with hmem | hmem
      · exact hadmitted connection k records i hmem
      · cases List.mem_singleton.mp hmem
        cases hop
    · refine Or.inr ⟨⟨entry, List.mem_append_left _ hentry, hproduces⟩, fun f hf => ?_⟩
      rcases List.mem_append.mp hf with hf | hf
      · exact (leads_of_mem_next hnext hf).concludes hop
      · exact hconcludes f (List.mem_cons_of_mem op hf)

theorem gatedAlone_exec {t : AppState} {trace : List (Op × Input)}
    (h : Script.serialStep (session decoders) s (.publish id call, trace) = some t) :
    GatedAlone decoders s id call trace t [] := by
  refine Script.exec_history (I := GatedAlone decoders s id call) ?_ ?_ h
  · intro trace u op rest input v next hgated hp
    obtain ⟨hnext, rfl⟩ := perform_eq_some.mp hp
    exact hgated.step hnext
  · refine ⟨fun _ _ _ _ h => absurd h List.not_mem_nil, Or.inl ⟨?_, rfl, Nat.le_refl 1, ?_⟩⟩
    · exact fun entry h => absurd h List.not_mem_nil
    · intro op hop
      cases List.mem_singleton.mp hop
      exact ⟨rfl, rfl⟩

theorem exists_of_produces (h : op.produces = true) :
    ∃ connection k records, op = .produce connection k records := by
  cases op with
  | produce connection k records => exact ⟨connection, k, records, rfl⟩
  | _ => cases h

/-- **The gates of a publish.** Alone, a publish reaches the producer only when its connection is not
blocked and connected, its row allows publishing, no denial of its topic is recorded and the batch is
valid; and if it does not reach the producer, nothing has changed. Among other commands, each gate holds
of the state that the call has read at it, and a call that has not reached the producer changes
nothing. -/
theorem publish_gate (decoders : Decoders) (id : String) (call : PublishCall) (s : AppState) :
    (∀ trace t, Script.serialStep (session decoders) s (.publish id call, trace) = some t →
      (∀ connection k records input, (.produce connection k records, input) ∈ trace →
        k = call ∧ Admitted (fun _ P => P s) decoders id call connection records) ∧
        ((∀ connection k records input, (.produce connection k records, input) ∉ trace) → t = s)) ∧
      ∀ es w t, Machine.run (Script.step (session decoders)) (.start s) es = some w →
        (Script.labels es)[t]? = some (.publish id call) →
          (∀ connection k records input, .act t (.produce connection k records) input ∈ es →
            k = call ∧ Admitted (Reads decoders s es t) decoders id call connection records) ∧
            ((∀ connection k records input, .act t (.produce connection k records) input ∉ es) →
              ∀ op input w', Script.step (session decoders) w (.act t op input) = some w' →
                w'.shared = w.shared) := by
  constructor
  · intro trace t h
    obtain ⟨hadmitted, hrest⟩ := gatedAlone_exec h
    refine ⟨hadmitted, fun hno => ?_⟩
    rcases hrest with ⟨-, heq, -⟩ | ⟨⟨⟨op, input⟩, hmem, hproduces⟩, -⟩
    · exact heq
    · obtain ⟨connection, k, records, rfl⟩ := exists_of_produces hproduces
      exact absurd hmem (hno connection k records input)
  · intro es w t hrun hlabel
    refine ⟨fun _ _ _ _ => admitted_of_mem hrun hlabel, fun hno op input w' hstep => ?_⟩
    refine shared_of_step hrun hlabel ?_ hstep
    rintro ⟨o, i, hmem, hproduces⟩
    obtain ⟨connection, k, records, rfl⟩ := exists_of_produces hproduces
    exact hno connection k records i hmem

/-- An app that is connected. -/
def connectedState : AppState :=
  { ordersState with connections := ({} : ConnectionRegistry).insertConnected "c1" }

/-- A publish that the broker takes nothing of. -/
def publishedTrace : List (Op × Input) :=
  publishTrace ++ [(.produce ordersConnection ordersCall [ordersRecord], .outcome {}),
    (.respond (.ok ()), .ok)]

theorem publish_gate_orders :
    Admitted (fun _ P => P connectedState) plainDecoders "c1" ordersCall ordersConnection
        [ordersRecord] ∧
      Admitted (Reads plainDecoders connectedState
          (.invoke (.publish "c1" ordersCall) :: eventsOf 0 publishedTrace) 0)
        plainDecoders "c1" ordersCall ordersConnection [ordersRecord] := by
  obtain ⟨halone, hrun⟩ := publish_gate plainDecoders "c1" ordersCall connectedState
  constructor
  · refine ((halone publishedTrace _ (Option.some_get (by decide)).symm).1 _ ordersCall _ (.outcome {}) ?_).2
    decide
  · refine ((hrun _ _ 0 (Machine.run_after _ _ _ (by decide)) rfl).1 _ ordersCall _ (.outcome {}) ?_).2
    decide

end OffsetExplorer.Session
