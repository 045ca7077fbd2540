import OffsetExplorer.Session.Cancel

/-!
# What the registry of fetches keeps

A fetch is recorded when it begins and forgotten when it is done. A cancel records a flag as well, for a
fetch that has yet to begin.

* `lasting_onFetches`: an entry is there where what has made it came after the last removal of it.
* `Op.owes`, `owes_run`: a fetch that has begun forgets itself before it ends.
* **`registry_empty_iff`**: when no fetch is under way, the registry is empty exactly if every cancel was
  followed by the end of its fetch.
-/

namespace OffsetExplorer.Session

/-- The event is an operation that meets `K`. -/
def Acts (K : Op → Prop) (e : Event) : Prop := ∃ t op input, e = .act t op input ∧ K op

variable {decoders : Decoders} {requestId : String} {s : AppState} {v w : World} {es : List Event}
  {removal : Op} {t : ℕ}

theorem acts_act {K : Op → Prop} {op : Op} {input : Input} : Acts K (.act t op input) ↔ K op := by
  constructor
  · rintro ⟨u, f, i, heq, hf⟩
    cases heq
    exact hf
  · exact fun h => ⟨t, op, input, rfl, h⟩

/-! ## Entries -/

theorem isSome_flags_onFetches (f : FetchCancellations) (op : Op) :
    ((op.onFetches f).flags.get? requestId).isSome = true ↔
      (op = .flagsCancel requestId ∨ ∃ id, op = .flagsEntry requestId id) ∨
        (f.flags.get? requestId).isSome = true ∧ op ≠ .flagsRemove requestId := by
  have hentry : ∀ r, ((f.entry r).1.flags.get? requestId).isSome = true ↔
      r = requestId ∨ (f.flags.get? requestId).isSome = true := by
    intro r
    rw [FetchCancellations.get?_entry]
    split_ifs with h
    · simp [h]
    · simp [Ne.symm h]
  cases op with
  | flagsEntry r id | flagsCancel r =>
    show ((f.entry r).1.flags.get? requestId).isSome = true ↔ _
    rw [hentry r]
    simp
  | flagsRemove r =>
    show ((f.flags.erase r).get? requestId).isSome = true ↔ _
    rw [Record.get?_erase]
    split_ifs with h
    · simp [h]
    · simp [Ne.symm h]
  | _ => simp [Op.onFetches, FetchCancellations.insertOwner, FetchCancellations.removeOwner]

theorem isSome_owners_onFetches (f : FetchCancellations) (op : Op) :
    ((op.onFetches f).owners.get? requestId).isSome = true ↔
      (∃ id, op = .ownersInsert requestId id) ∨
        (f.owners.get? requestId).isSome = true ∧ op ≠ .ownersRemove requestId := by
  cases op with
  | flagsEntry r id | flagsCancel r =>
    show ((f.entry r).1.owners.get? requestId).isSome = true ↔ _
    simp
  | ownersInsert r id =>
    show ((f.owners.set r id).get? requestId).isSome = true ↔ _
    rw [Record.get?_set]
    split_ifs with h
    · simp [h]
    · simp [Ne.symm h]
  | ownersRemove r =>
    show ((f.owners.erase r).get? requestId).isSome = true ↔ _
    rw [Record.get?_erase]
    split_ifs with h
    · simp [h]
    · simp [Ne.symm h]
  | _ => simp [Op.onFetches, FetchCancellations.removeFlag]

/-- **What an operation adds and another removes is there where the addition lasts.** -/
theorem lasting_onFetches {P : FetchCancellations → Prop} {adds : Op → Prop}
    (h₀ : ¬ P {}) (h : ∀ f op, P (op.onFetches f) ↔ adds op ∨ P f ∧ op ≠ removal)
    (hstart : s.fetchCancellations = {})
    (hrun : Machine.run (Script.step (session decoders)) (.start s) es = some w) :
    P w.shared.fetchCancellations ↔ Machine.Lasting (Acts adds) (Acts (· = removal)) es := by
  refine Machine.run_lasting (I := fun w => P w.shared.fetchCancellations) ?_ ?_ hrun
  · show ¬ P s.fetchCancellations
    rw [hstart]
    exact h₀
  · intro w e w' hstep
    cases e with
    | invoke command =>
      rw [(Script.step_invoke_script hstep).1]
      have hno : ∀ K, ¬ Acts K (.invoke command) := by
        rintro K ⟨t, op, i, heq, -⟩
        cases heq
      exact ⟨fun hp => Or.inr ⟨hp, hno _⟩, fun hp => (hp.resolve_left (hno _)).1⟩
    | act u op input =>
      obtain ⟨rest, next, -, hp, -⟩ := Script.step_act_script hstep
      rw [(perform_eq_some.mp hp).2, effect_fetchCancellations, h, acts_act, acts_act]

/-! ## What a fetch owes -/

/-- The operation will lead to `removal`, the end of the fetch of a request. -/
def Op.owes (f : Op) (requestId : String) (removal : Op) : Prop :=
  f = removal ∨ (∃ id, f = .flagsEntry requestId id) ∨ ∃ flag, f.serves requestId flag = true

theorem Op.owes.fetchId {f : Op} (hremoval : removal ∈ finish requestId)
    (h : f.owes requestId removal) : f.fetchId = some requestId := by
  rcases h with rfl | ⟨id, rfl⟩ | ⟨flag, hs⟩
  · exact fetchId_of_mem_finish hremoval
  · rfl
  · exact fetchId_of_serves hs

theorem Op.owes.next {f : Op} {input : Input} {ops : List Op} (hremoval : removal ∈ finish requestId)
    (h : f.owes requestId removal) (hnot : f ≠ removal)
    (hnext : next decoders s f input = some ops) : ∃ g ∈ ops, g.owes requestId removal := by
  rcases h with rfl | ⟨id, rfl⟩ | ⟨flag, hs⟩
  · exact absurd rfl hnot
  · cases input <;> simp only [Session.next, reduceCtorEq, Option.some.injEq] at hnext
    subst hnext
    exact ⟨_, List.mem_singleton_self _, Or.inr (Or.inr ⟨_, decide_eq_true rfl⟩)⟩
  · obtain ⟨g, hg, h⟩ := owes_next hremoval hnext hs
    exact ⟨g, hg, h.imp_right fun h => Or.inr ⟨flag, h⟩⟩

/-- **A fetch pays what it owes** in a run, or still owes it. -/
theorem owes_run (hremoval : removal ∈ finish requestId)
    (hrun : Machine.run (Script.step (session decoders)) v es = some w)
    (h : ∃ op ∈ v.script t, op.owes requestId removal) :
    (∃ op ∈ w.script t, op.owes requestId removal) ∨ ∃ e ∈ es, Acts (· = removal) e := by
  induction es generalizing v with
  | nil =>
    cases hrun
    exact Or.inl h
  | cons e es ih =>
    obtain ⟨v', hstep, hrun⟩ := Machine.run_cons_some _ hrun
    have later : (∃ op ∈ v'.script t, op.owes requestId removal) →
        (∃ op ∈ w.script t, op.owes requestId removal) ∨ ∃ f ∈ e :: es, Acts (· = removal) f :=
      fun h => (ih hrun h).imp_right fun ⟨f, hf, hacts⟩ => ⟨f, List.mem_cons_of_mem e hf, hacts⟩
    obtain ⟨op, hop, howes⟩ := h
    cases e with
    | invoke command =>
      refine later ⟨op, ?_, howes⟩
      rw [(Script.step_invoke_script hstep).2.2 t (Nat.ne_of_lt (Script.lt_of_mem_script hop))]
      exact hop
    | act u o input =>
      obtain ⟨rest, next, hscript, hp, hnew, hother⟩ := Script.step_act_script hstep
      by_cases htu : t = u
      · subst htu
        rw [hscript] at hop
        rcases List.mem_cons.mp hop with rfl | hop
        · by_cases heq : op = removal
          · exact Or.inr ⟨_, List.mem_cons_self, acts_act.mpr heq⟩
          · obtain ⟨g, hg, howes⟩ := howes.next hremoval heq (perform_eq_some.mp hp).1
            exact later ⟨g, hnew ▸ List.mem_append_left _ hg, howes⟩
        · exact later ⟨op, hnew ▸ List.mem_append_right _ hop, howes⟩
      · exact later ⟨op, (hother t htu).symm ▸ hop, howes⟩

theorem script_of_ownersInsert {id : String}
    (hrun : Machine.run (Script.step (session decoders)) (.start s) es = some w)
    (hop : .ownersInsert requestId id ∈ w.script t) : w.script t = beginForConnection id requestId := by
  refine Machine.run_invariant (I := fun w : World => ∀ t, .ownersInsert requestId id ∈ w.script t →
    w.script t = beginForConnection id requestId) ?_ (fun t h => by cases h) hrun t hop
  intro w e w' hinv hstep t hop
  cases e with
  | invoke command =>
    obtain ⟨-, hnew, hother⟩ := Script.step_invoke_script hstep
    by_cases ht : t = w.tasks.length
    · rw [ht, hnew] at hop ⊢
      have hlabel : (Op.ownersInsert requestId id).belongsTo [] command := belongsTo_of_mem_script hop
      rw [show command = .fetchMessages id requestId from hlabel]
      rfl
    · rw [hother t ht] at hop ⊢
      exact hinv t hop
  | act u o input =>
    obtain ⟨rest, next, hscript, hp, hnew, hother⟩ := Script.step_act_script hstep
    by_cases htu : t = u
    · subst htu
      exfalso
      rw [hnew] at hop
      rcases List.mem_append.mp hop with hop | hop
      · rcases (leads_of_mem_next (perform_eq_some.mp hp).1 hop).owns with hno | ⟨c, r, -, heq, -⟩
        · cases hno
        · cases heq
      · have hbegin := hinv t (hscript ▸ List.mem_cons_of_mem o hop)
        rw [hscript] at hbegin
        cases hbegin
        cases List.mem_singleton.mp hop
    · rw [hother t htu] at hop ⊢
      exact hinv t hop

/-- The operation records the fetch of a request. -/
def Op.records (requestId : String) (f : Op) : Prop :=
  (∃ id, f = .ownersInsert requestId id) ∨ ∃ id, f = .flagsEntry requestId id

/-- **A fetch forgets itself.** Whatever it has recorded it removes before it ends. -/
theorem removed_of_records {pre post : List Event} {op : Op} {input : Input}
    (hremoval : removal ∈ finish requestId) (hop : op.records requestId)
    (hrun : Machine.run (Script.step (session decoders)) (.start s) (pre ++ .act t op input :: post) =
      some w)
    (hended : ∀ op ∈ w.script t, op.fetchId = none) : ∃ e ∈ post, Acts (· = removal) e := by
  rw [Machine.run_append] at hrun
  obtain ⟨v, hv, hrun⟩ := Option.bind_eq_some_iff.mp hrun
  obtain ⟨v', hstep, hrun⟩ := Machine.run_cons_some _ hrun
  obtain ⟨rest, next, hscript, hp, hnew, -⟩ := Script.step_act_script hstep
  have howes : ∃ f ∈ v'.script t, f.owes requestId removal := by
    rcases hop with ⟨id, rfl⟩ | hentry
    · have hbegin := script_of_ownersInsert hv (hscript ▸ List.mem_cons_self)
      rw [hscript] at hbegin
      cases hbegin
      exact ⟨.flagsEntry requestId id, hnew ▸ List.mem_append_right _ (List.mem_singleton_self _),
        Or.inr (Or.inl ⟨id, rfl⟩)⟩
    · have hne : op ≠ removal := by
        obtain ⟨id, rfl⟩ := hentry
        rintro rfl
        simp [finish] at hremoval
      obtain ⟨g, hg, howes⟩ := Op.owes.next hremoval (Or.inr (Or.inl hentry)) hne
        (perform_eq_some.mp hp).1
      exact ⟨g, hnew ▸ List.mem_append_left _ hg, howes⟩
  refine (owes_run hremoval hrun howes).resolve_left ?_
  rintro ⟨f, hf, howes⟩
  have hid := howes.fetchId hremoval
  rw [hended f hf] at hid
  cases hid

/-! ## The registry -/

theorem removed_iff : Removed requestId es ↔ ∃ e ∈ es, Acts (· = .flagsRemove requestId) e := by
  constructor
  · rintro ⟨u, i, hmem⟩
    exact ⟨_, hmem, acts_act.mpr rfl⟩
  · rintro ⟨e, hmem, u, op, i, rfl, rfl⟩
    exact ⟨u, i, hmem⟩

/-- **What the registry keeps.** The app starts with an empty registry. When no fetch has a step to do, no
connection is recorded for any request, and no flag exactly if every cancel of a request, by itself or by a
disconnect, was followed by the end of the fetch. -/
theorem registry_empty_iff (decoders : Decoders) {s : AppState} {w : World} {es : List Event}
    (hstart : s.fetchCancellations = {})
    (hrun : Machine.run (Script.step (session decoders)) (.start s) es = some w)
    (hended : ∀ t, ∀ op ∈ w.script t, op.fetchId = none) :
    (w.shared.fetchCancellations.flags = ∅ ∧ w.shared.fetchCancellations.owners = ∅) ↔
      ∀ pre t requestId input post, es = pre ++ .act t (.flagsCancel requestId) input :: post →
        Removed requestId post := by
  have hflags := fun r => lasting_onFetches (P := fun f => (f.flags.get? r).isSome = true)
    Bool.false_ne_true isSome_flags_onFetches hstart hrun
  have howners := fun r => lasting_onFetches (P := fun f => (f.owners.get? r).isSome = true)
    Bool.false_ne_true isSome_owners_onFetches hstart hrun
  constructor
  · rintro ⟨hempty, -⟩ pre t requestId input post heq
    by_contra hnot
    refine Record.eq_empty_iff.mp hempty requestId ((hflags requestId).mpr ?_)
    refine ⟨pre, _, post, heq, acts_act.mpr (Or.inl rfl), fun f hf hacts => hnot ?_⟩
    exact removed_iff.mpr ⟨f, hf, hacts⟩
  · intro hcancels
    constructor
    · refine Record.eq_empty_iff.mpr fun requestId hsome => ?_
      obtain ⟨pre, e, post, rfl, ⟨t, op, i, rfl, hop⟩, hlast⟩ := (hflags requestId).mp hsome
      have hremoved : ∃ e ∈ post, Acts (· = .flagsRemove requestId) e := by
        rcases hop with rfl | hentry
        · exact removed_iff.mp (hcancels pre t requestId i post rfl)
        · exact removed_of_records (by simp [finish]) (Or.inr hentry) hrun (hended t)
      obtain ⟨f, hf, hacts⟩ := hremoved
      exact hlast f hf hacts
    · refine Record.eq_empty_iff.mpr fun requestId hsome => ?_
      obtain ⟨pre, e, post, rfl, ⟨t, op, i, rfl, hop⟩, hlast⟩ := (howners requestId).mp hsome
      have hremoval : .ownersRemove requestId ∈ finish requestId := by simp [finish]
      obtain ⟨f, hf, hacts⟩ := removed_of_records hremoval (Or.inl hop) hrun (hended t)
      exact hlast f hf hacts

/-- A fetch from its start to its end. -/
def fetchEvents : List Event :=
  .invoke (.fetchMessages "c1" "r1") :: eventsOf 0 (fetchTrace ++ fetchedTrace)

/-- A cancel of the request of that fetch, as the call `t`. -/
def cancelEvents (t : ℕ) : List Event :=
  [.invoke (.cancelFetch "r1"), .act t (.flagsCancel "r1") .ok, .act t (.respond (.ok ())) .ok]

/-- A fetch that is cancelled while it polls. -/
def stoppedEvents : List Event :=
  .invoke (.fetchMessages "c1" "r1") :: eventsOf 0 fetchTrace ++ cancelEvents 1 ++
    eventsOf 0 fetchedTrace

theorem registry_empty_stopped :
    let w := Machine.after (Script.step (session plainDecoders)) (.start ordersState) stoppedEvents
      (by decide +kernel)
    w.shared.fetchCancellations.flags = ∅ ∧ w.shared.fetchCancellations.owners = ∅ := by
  intro w
  have hended : ∀ task ∈ w.tasks, task.script = [] := by decide +kernel
  refine (registry_empty_iff plainDecoders (w := w) rfl (Machine.run_after _ _ stoppedEvents _)
    fun t op hop => ?_).mpr fun pre t r input post heq => ?_
  · obtain ⟨task, htask, hop⟩ := Script.mem_script hop
    rw [hended task htask] at hop
    cases hop
  · have hmem : .act t (.flagsCancel r) input ∈ stoppedEvents :=
      heq ▸ List.mem_append_right _ List.mem_cons_self
    obtain ⟨rfl, rfl, rfl⟩ : t = 1 ∧ r = "r1" ∧ input = .ok := by
      simpa [stoppedEvents, eventsOf, fetchTrace, fetchedTrace, cancelEvents] using hmem
    have hlater : ∀ n < stoppedEvents.length, stoppedEvents[n]? = some (.act 1 (.flagsCancel "r1") .ok) →
        .act 0 (.flagsRemove "r1") .ok ∈ stoppedEvents.drop (n + 1) := by decide +kernel
    refine ⟨0, .ok, ?_⟩
    have hpost := hlater pre.length (by simp [heq]) (by simp [heq])
    rw [heq] at hpost
    simpa using hpost

/-- **A late cancel leaks.** A Stop that comes after the fetch has come to its end leaves a flag. All
commands have come to their end. -/
theorem late_cancel_leaks :
    let w := Machine.after (Script.step (session plainDecoders)) (.start ordersState)
      (fetchEvents ++ cancelEvents 1) (by decide +kernel)
    (fetchIds (fetchEvents ++ cancelEvents 1)).Nodup ∧ (∀ task ∈ w.tasks, task.script = []) ∧
      w.shared.fetchCancellations.flags.keys = ["r1"] := by
  decide +kernel

end OffsetExplorer.Session
