import OffsetExplorer.Session.Fetches

/-!
# Cancelling fetches

A cancel may come before, while or after the fetch that it is for registers. The flags and the
connections of the fetches are under locks of their own, and the cancellation of all fetches of a
connection works from a snapshot.

* `Holds`: a fetch has a flag, which its poll loop reads.
* `Kept`, `Kept.step`: the flag of a fetch is registered until it is removed, and set from the time of a
  cancel on.
* `disconnects_only`: a disconnect cancels requests that were begun for its connection.
* **`no_cancel_lost`**: no cancel is lost, and none hits a fetch of another connection.
-/

namespace OffsetExplorer.Session

/-- The fetch of a request holds `flag`: one of its steps after the registration does. -/
def Holds (requestId : String) (flag : ℕ) (es : List Event) (w : World) : Prop :=
  (∃ t, ∃ op ∈ w.script t, op.serves requestId flag = true) ∨
    ∃ t op input, .act t op input ∈ es ∧ op.serves requestId flag = true

/-- The flag of a request was taken off the registry. -/
def Removed (requestId : String) (es : List Event) : Prop :=
  ∃ u input, .act u (.flagsRemove requestId) input ∈ es

/-- A cancel of a request came before its flag was taken off the registry. -/
def Cancelled (requestId : String) (es : List Event) : Prop :=
  ∃ pre t input post, es = pre ++ .act t (.flagsCancel requestId) input :: post ∧
    ¬ Removed requestId pre

variable {decoders : Decoders} {requestId : String} {flag : ℕ} {s : AppState} {w w' : World}
  {es : List Event} {e : Event}

theorem removed_concat : Removed requestId (es ++ [e]) ↔
    Removed requestId es ∨ ∃ u input, e = .act u (.flagsRemove requestId) input := by
  simp only [Removed, List.mem_append, List.mem_singleton, exists_or, eq_comm]

theorem cancelled_concat (h : Cancelled requestId (es ++ [e])) : Cancelled requestId es ∨
    (∃ t input, e = .act t (.flagsCancel requestId) input) ∧ ¬ Removed requestId es := by
  obtain ⟨pre, t, input, post, heq, hpre⟩ := h
  rcases List.eq_nil_or_concat post with rfl | ⟨post, e', rfl⟩
  · obtain ⟨rfl, he⟩ := List.append_inj' heq rfl
    cases he
    exact Or.inr ⟨⟨t, input, rfl⟩, hpre⟩
  · rw [List.concat_eq_append, ← List.cons_append, ← List.append_assoc] at heq
    obtain ⟨rfl, -⟩ := List.append_inj' heq rfl
    exact Or.inl ⟨pre, t, input, post, rfl, hpre⟩

theorem holds_of_step (hstep : Script.step (session decoders) w e = some w')
    (h : Holds requestId flag (es ++ [e]) w') : Holds requestId flag es w ∨
      (∃ t id input, e = .act t (.flagsEntry requestId id) input) ∧
        flag = (w.shared.fetchCancellations.entry requestId).2 := by
  have pending : ∀ t op, op ∈ w.script t → op.serves requestId flag = true →
      Holds requestId flag es w := fun t op hop hs => Or.inl ⟨t, op, hop, hs⟩
  cases e with
  | invoke command =>
    obtain ⟨-, hnew, hother⟩ := Script.step_invoke_script hstep
    rcases h with ⟨t, op, hop, hs⟩ | ⟨t, op, i, hmem, hs⟩
    · by_cases ht : t = w.tasks.length
      · rw [ht, hnew] at hop
        have hbegins := begins_of_mem_script hop (fetchId_of_serves hs)
        cases op <;> first | cases hs | cases hbegins
      · exact Or.inl (pending t op (hother t ht ▸ hop) hs)
    · simp only [List.mem_append, List.mem_singleton, reduceCtorEq, or_false] at hmem
      exact Or.inl (Or.inr ⟨t, op, i, hmem, hs⟩)
  | act u o input =>
    obtain ⟨rest, next, hscript, hp, hnew, hother⟩ := Script.step_act_script hstep
    rcases h with ⟨t, op, hop, hs⟩ | ⟨t, op, i, hmem, hs⟩
    · by_cases ht : t = u
      · subst ht
        rw [hnew] at hop
        rcases List.mem_append.mp hop with hop | hop
        · rcases (leads_of_mem_next (perform_eq_some.mp hp).1 hop).serves hs with
            ho | ⟨⟨id, rfl⟩, rfl⟩
          · exact Or.inl (pending t o (hscript ▸ List.mem_cons_self) ho)
          · exact Or.inr ⟨⟨t, id, input, rfl⟩, rfl⟩
        · exact Or.inl (pending t op (hscript ▸ List.mem_cons_of_mem o hop) hs)
      · exact Or.inl (pending t op (hother t ht ▸ hop) hs)
    · rcases List.mem_append.mp hmem with hmem | hmem
      · exact Or.inl (Or.inr ⟨t, op, i, hmem, hs⟩)
      · cases List.mem_singleton.mp hmem
        exact Or.inl (pending u o (hscript ▸ List.mem_cons_self) hs)

/-! ## The flag of a request -/

/-- A flag that was allocated is registered for a request only where it was so before. -/
theorem flags_of_onFetches {f : FetchCancellations} (op : Op) (hlt : flag < f.allocated)
    (h : (op.onFetches f).flags.get? requestId = some flag) : f.flags.get? requestId = some flag := by
  have hentry : ∀ r, (f.entry r).1.flags.get? requestId = some flag →
      f.flags.get? requestId = some flag := by
    intro r hr
    unfold FetchCancellations.entry at hr
    split at hr
    · exact hr
    · have hr : (f.flags.set r f.allocated).get? requestId = some flag := hr
      rw [Record.get?_set] at hr
      split_ifs at hr
      · cases hr
        exact absurd hlt (Nat.lt_irrefl _)
      · exact hr
  cases op with
  | flagsEntry r _ | flagsCancel r => exact hentry r h
  | flagsRemove r =>
    have h : (f.flags.erase r).get? requestId = some flag := h
    rw [Record.get?_erase] at h
    split_ifs at h
    exact h
  | _ => exact h

/-- What holds of a request after a history. -/
structure Kept (requestId : String) (es : List Event) (w : World) : Prop where
  held : ∀ flag, Holds requestId flag es w → flag < w.shared.fetchCancellations.allocated ∧
    (∀ q, w.shared.fetchCancellations.flags.get? q = some flag → q = requestId) ∧
      (Removed requestId es ∨ w.shared.fetchCancellations.flags.get? requestId = some flag)
  cancelled : Cancelled requestId es →
    (¬ Removed requestId es ∧ ∃ flag,
      w.shared.fetchCancellations.flags.get? requestId = some flag ∧
        w.shared.fetchCancellations.heap flag = true) ∨
      (Removed requestId es ∧ ∀ flag, Holds requestId flag es w →
        w.shared.fetchCancellations.heap flag = true)

theorem Kept.other {t : ℕ} {op : Op} {input : Input} (h : Kept requestId es w)
    (hstep : Script.step (session decoders) w (.act t op input) = some w')
    (hentry : ∀ id, op ≠ .flagsEntry requestId id) (hremove : op ≠ .flagsRemove requestId) :
    Kept requestId (es ++ [.act t op input]) w' := by
  obtain ⟨rest, next, hscript, hp, -⟩ := Script.step_act_script hstep
  have hfetches : w'.shared.fetchCancellations = op.onFetches w.shared.fetchCancellations := by
    rw [(perform_eq_some.mp hp).2, effect_fetchCancellations]
  have hholds : ∀ flag, Holds requestId flag (es ++ [.act t op input]) w' →
      Holds requestId flag es w := fun flag hf =>
    (holds_of_step hstep hf).resolve_right (by rintro ⟨⟨u, id, i, heq⟩, -⟩; cases heq; exact hentry id rfl)
  have hremoved : Removed requestId (es ++ [.act t op input]) ↔ Removed requestId es := by
    rw [removed_concat]
    exact or_iff_left (by rintro ⟨u, i, heq⟩; cases heq; exact hremove rfl)
  constructor
  · intro flag hf
    obtain ⟨hlt, huniq, hreg⟩ := h.held flag (hholds flag hf)
    rw [hremoved, hfetches]
    exact ⟨Nat.lt_of_lt_of_le hlt (allocated_onFetches _),
      fun q hq => huniq q (flags_of_onFetches op hlt hq), hreg.imp_right (flags_onFetches hremove)⟩
  · intro hcancelled
    rw [hremoved, hfetches]
    rcases cancelled_concat hcancelled with hbefore | ⟨⟨u, i, heq⟩, hno⟩
    · rcases h.cancelled hbefore with ⟨hno, flag, hflag, hheap⟩ | ⟨hyes, hall⟩
      · exact Or.inl ⟨hno, flag, flags_onFetches hremove hflag,
          heap_onFetches (w.shared.fetchCancellations.flag_lt _ _ hflag) hheap⟩
      · exact Or.inr ⟨hyes, fun flag hf =>
          heap_onFetches (h.held flag (hholds flag hf)).1 (hall flag (hholds flag hf))⟩
    · -- the cancel itself
      cases heq
      refine Or.inl ⟨hno, (w.shared.fetchCancellations.entry requestId).2, ?_, ?_⟩
      · exact (FetchCancellations.get?_entry requestId).trans (if_pos rfl)
      · exact (FetchCancellations.cancel_heap _).trans (if_pos rfl)

theorem Kept.remove {t : ℕ} {input : Input} (h : Kept requestId es w)
    (hstep : Script.step (session decoders) w (.act t (.flagsRemove requestId) input) = some w') :
    Kept requestId (es ++ [.act t (.flagsRemove requestId) input]) w' := by
  obtain ⟨rest, next, hscript, hp, -⟩ := Script.step_act_script hstep
  have hfetches : w'.shared.fetchCancellations =
      w.shared.fetchCancellations.removeFlag requestId := by
    rw [(perform_eq_some.mp hp).2, effect_fetchCancellations]
    rfl
  have hholds : ∀ flag, Holds requestId flag (es ++ [.act t (.flagsRemove requestId) input]) w' →
      Holds requestId flag es w := fun flag hf =>
    (holds_of_step hstep hf).resolve_right (by rintro ⟨⟨u, id, i, heq⟩, -⟩; cases heq)
  have hremoved : Removed requestId (es ++ [.act t (.flagsRemove requestId) input]) :=
    removed_concat.mpr (Or.inr ⟨t, input, rfl⟩)
  constructor
  · intro flag hf
    obtain ⟨hlt, huniq, -⟩ := h.held flag (hholds flag hf)
    rw [hfetches]
    refine ⟨hlt, fun q hq => huniq q ?_, Or.inl hremoved⟩
    exact flags_of_onFetches (.flagsRemove requestId) hlt hq
  · intro hcancelled
    refine Or.inr ⟨hremoved, fun flag hf => ?_⟩
    rw [hfetches]
    show w.shared.fetchCancellations.heap flag = true
    rcases cancelled_concat hcancelled with hbefore | ⟨⟨u, i, heq⟩, -⟩
    · rcases h.cancelled hbefore with ⟨hno, g, hg, hheap⟩ | ⟨-, hall⟩
      · have hreg := (h.held flag (hholds flag hf)).2.2.resolve_left hno
        rw [hg] at hreg
        cases hreg
        exact hheap
      · exact hall flag (hholds flag hf)
    · cases heq

theorem Kept.entry {t : ℕ} {id : String} {input : Input} (h : Kept requestId es w)
    (hunique : (fetchIds es).Nodup)
    (hrun : Machine.run (Script.step (session decoders)) (.start s) es = some w)
    (hstep : Script.step (session decoders) w (.act t (.flagsEntry requestId id) input) = some w') :
    Kept requestId (es ++ [.act t (.flagsEntry requestId id) input]) w' := by
  obtain ⟨rest, next, hscript, hp, -⟩ := Script.step_act_script hstep
  obtain ⟨hpending, hdone⟩ := not_begun hunique hrun (hscript ▸ List.mem_cons_self)
  have hfetches : w'.shared.fetchCancellations = (w.shared.fetchCancellations.entry requestId).1 := by
    rw [(perform_eq_some.mp hp).2, effect_fetchCancellations]
    rfl
  have hnone : ∀ flag, ¬ Holds requestId flag es w := by
    have hbegins : ∀ {flag} {op : Op}, op.serves requestId flag = true → op.begins = true → False := by
      intro flag op hs hb
      cases op <;> first | cases hs | cases hb
    rintro flag (⟨u, op, hop, hs⟩ | ⟨u, op, i, hmem, hs⟩)
    · exact hbegins hs (hpending u op hop (fetchId_of_serves hs))
    · exact hbegins hs (hdone u op i hmem (fetchId_of_serves hs))
  have hnot : ¬ Removed requestId (es ++ [.act t (.flagsEntry requestId id) input]) := by
    rw [removed_concat]
    rintro (⟨u, i, hmem⟩ | ⟨u, i, heq⟩)
    · cases hdone u _ i hmem rfl
    · cases heq
  have hflag : w'.shared.fetchCancellations.flags.get? requestId =
      some (w.shared.fetchCancellations.entry requestId).2 := by
    rw [hfetches, FetchCancellations.get?_entry, if_pos rfl]
  constructor
  · intro flag hf
    obtain ⟨-, rfl⟩ := (holds_of_step hstep hf).resolve_left (hnone flag)
    exact ⟨w'.shared.fetchCancellations.flag_lt _ _ hflag,
      fun q hq => w'.shared.fetchCancellations.flag_inj _ _ _ hq hflag, Or.inr hflag⟩
  · intro hcancelled
    refine Or.inl ⟨hnot, ?_⟩
    have hbefore := (cancelled_concat hcancelled).resolve_right (by rintro ⟨⟨u, i, heq⟩, -⟩; cases heq)
    have hnot' : ¬ Removed requestId es := fun hyes => hnot (removed_concat.mpr (Or.inl hyes))
    obtain ⟨-, flag, hget, hheap⟩ := (h.cancelled hbefore).resolve_right fun h => hnot' h.1
    have hlt := w.shared.fetchCancellations.flag_lt _ _ hget
    refine ⟨flag, ?_, ?_⟩
    · rw [hfetches]
      show ((Op.flagsEntry requestId id).onFetches _).flags.get? requestId = some flag
      exact flags_onFetches (by simp) hget
    · rw [hfetches]
      show ((Op.flagsEntry requestId id).onFetches _).heap flag = true
      exact heap_onFetches hlt hheap

/-- **One step.** A history of unique requests keeps the flag of each. -/
theorem Kept.step (h : Kept requestId es w) (hunique : (fetchIds es).Nodup)
    (hrun : Machine.run (Script.step (session decoders)) (.start s) es = some w)
    (hstep : Script.step (session decoders) w e = some w') : Kept requestId (es ++ [e]) w' := by
  cases e with
  | invoke command =>
    have hshared := (Script.step_invoke_script hstep).1
    have hholds : ∀ flag, Holds requestId flag (es ++ [.invoke command]) w' →
        Holds requestId flag es w := fun flag hf =>
      (holds_of_step hstep hf).resolve_right (by rintro ⟨⟨u, id, i, heq⟩, -⟩; cases heq)
    have hremoved : Removed requestId (es ++ [.invoke command]) ↔ Removed requestId es := by
      rw [removed_concat]
      exact or_iff_left (by rintro ⟨u, i, heq⟩; cases heq)
    constructor
    · intro flag hf
      rw [hremoved, hshared]
      exact h.held flag (hholds flag hf)
    · intro hcancelled
      rw [hremoved, hshared]
      have hbefore := (cancelled_concat hcancelled).resolve_right
        (by rintro ⟨⟨u, i, heq⟩, -⟩; cases heq)
      exact (h.cancelled hbefore).imp_right fun ⟨hyes, hall⟩ =>
        ⟨hyes, fun flag hf => hall flag (hholds flag hf)⟩
  | act t op input =>
    by_cases hentry : ∃ id, op = .flagsEntry requestId id
    · obtain ⟨id, rfl⟩ := hentry
      exact h.entry hunique hrun hstep
    · by_cases hremove : op = .flagsRemove requestId
      · subst hremove
        exact h.remove hstep
      · exact h.other hstep (fun id heq => hentry ⟨id, heq⟩) hremove

theorem nodup_of_concat (h : (fetchIds (es ++ [e])).Nodup) : (fetchIds es).Nodup := by
  rw [fetchIds, Script.labels_append, List.filterMap_append] at h
  exact h.of_append_left

theorem kept_run (hunique : (fetchIds es).Nodup)
    (hrun : Machine.run (Script.step (session decoders)) (.start s) es = some w) :
    Kept requestId es w := by
  have hboth := Machine.run_history (P := fun _ => True)
    (I := fun es w => Machine.run (Script.step (session decoders)) (.start s) es = some w ∧
      ((fetchIds es).Nodup → Kept requestId es w)) ?_ ?_ (fun _ _ => trivial) hrun
  · exact hboth.2 hunique
  · refine ⟨rfl, fun _ => ⟨fun flag hf => ?_, fun hc => ?_⟩⟩
    · rcases hf with ⟨t, op, hop, -⟩ | ⟨t, op, i, hmem, -⟩
      · cases hop
      · cases hmem
    · obtain ⟨pre, t, i, post, heq, -⟩ := hc
      exact absurd heq.symm (List.append_ne_nil_of_right_ne_nil pre (List.cons_ne_nil _ _))
  · rintro es w e w' - ⟨hrun, hkept⟩ hstep
    refine ⟨?_, fun hnodup => ?_⟩
    · rw [Machine.run_snoc, hrun]
      exact hstep
    · exact (hkept (nodup_of_concat hnodup)).step (nodup_of_concat hnodup) hrun hstep

/-! ## The fetches of a connection -/

theorem owners_of_onFetches {f : FetchCancellations} {op : Op} {c : String}
    (h : (op.onFetches f).owners.get? requestId = some c) :
    op = .ownersInsert requestId c ∨ f.owners.get? requestId = some c := by
  cases op with
  | ownersInsert r id =>
    have h : (f.owners.set r id).get? requestId = some c := h
    rw [Record.get?_set] at h
    split_ifs at h with hr
    · cases h
      rw [hr]
      exact Or.inl rfl
    · exact Or.inr h
  | ownersRemove r =>
    have h : (f.owners.erase r).get? requestId = some c := h
    rw [Record.get?_erase] at h
    split_ifs at h
    exact Or.inr h
  | flagsEntry r _ | flagsCancel r =>
    refine Or.inr ?_
    have h : (f.entry r).1.owners.get? requestId = some c := h
    rwa [FetchCancellations.entry_owners] at h
  | _ => exact Or.inr h

/-- Which command an operation on the owners or a cancel belongs to. -/
def Op.belongsTo (started : List Command) (label : Command) : Op → Prop
  | .ownersInsert requestId c => label = .fetchMessages c requestId
  | .ownersOf c => label = .disconnect c
  | .flagsCancel requestId => label = .cancelFetch requestId ∨
    ∃ c, label = .disconnect c ∧ .fetchMessages c requestId ∈ started
  | _ => True

theorem Op.belongsTo.mono {started later : List Command} {label : Command} {op : Op}
    (h : op.belongsTo started label) : op.belongsTo (started ++ later) label := by
  cases op with
  | flagsCancel r =>
    exact h.imp_right fun ⟨c, hlabel, hmem⟩ => ⟨c, hlabel, List.mem_append_left _ hmem⟩
  | _ => exact h

theorem belongsTo_of_mem_script {command : Command} {started : List Command} {op : Op}
    (hop : op ∈ command.script) : op.belongsTo started command := by
  cases op <;> first | trivial | skip
  all_goals
    cases command <;> simp [Command.script, clearAuthFailures, connectionForRequest,
      markDisconnected, cancelAllForConnection, release, dropPooledClient, beginForConnection] at hop
  all_goals simp [Op.belongsTo, hop]

/-- The operation records an owner, looks owners up or cancels. -/
def Op.owns : Op → Bool
  | .ownersInsert _ _ | .ownersOf _ | .flagsCancel _ => true
  | _ => false

theorem belongsTo_of_not_owns {op : Op} {started : List Command} {label : Command}
    (h : op.owns = false) : op.belongsTo started label := by
  cases op <;> trivial

theorem not_owns_of_mem_clearAuthFailures {f : Op} {id : String} (hf : f ∈ clearAuthFailures id) :
    f.owns = false := by
  simp only [clearAuthFailures, List.mem_cons, List.not_mem_nil, or_false] at hf
  rcases hf with rfl | rfl <;> rfl

theorem not_owns_of_mem_markDisconnected {f : Op} {id : String} (hf : f ∈ markDisconnected id) :
    f.owns = false := by
  simp only [markDisconnected, List.mem_cons, List.not_mem_nil, or_false] at hf
  rcases hf with rfl | rfl <;> rfl

theorem not_owns_of_mem_release {f : Op} {id : String} (hf : f ∈ release id) : f.owns = false := by
  simp only [release, dropPooledClient, List.mem_cons, List.not_mem_nil, or_false] at hf
  rcases hf with rfl | rfl <;> rfl

theorem not_owns_of_mem_finish {f : Op} (hf : f ∈ finish requestId) : f.owns = false := by
  simp only [finish, List.mem_cons, List.not_mem_nil, or_false] at hf
  rcases hf with rfl | rfl <;> rfl

theorem not_owns_of_mem_settle {f : Op} {id : String} {request : Request}
    {result : Except Report Unit} (hf : f ∈ settle id request result) : f.owns = false := by
  rcases of_mem_settle hf with ⟨r, flag, -, hf⟩ | hf | ⟨-, -, rfl⟩ | rfl
  · exact not_owns_of_mem_finish hf
  · rcases of_mem_record hf with ⟨-, hf⟩ | ⟨report, -, -, ⟨-, hf⟩ | hf⟩
    · exact not_owns_of_mem_clearAuthFailures hf
    · cases List.mem_singleton.mp hf
      rfl
    · exact not_owns_of_mem_release hf
  · rfl
  · rcases result with report | ⟨⟩ <;> rfl

theorem not_owns_of_mem_fail {f : Op} {id : String} {request : Request} {report : Report}
    (hf : f ∈ fail id request report) : f.owns = false := by
  rcases of_mem_fail hf with hf | hf
  · exact not_owns_of_mem_release hf
  · exact not_owns_of_mem_settle hf

/-- The only such operations that a command comes to on its way are the cancels of a snapshot. -/
theorem Leads.owns {op f : Op} {input : Input} (h : Leads decoders s op input f) :
    f.owns = false ∨ ∃ c r, op = .ownersOf c ∧ f = .flagsCancel r ∧
      s.fetchCancellations.owners.get? r = some c := by
  cases h with
  | cancels hr => exact Or.inr ⟨_, _, rfl, rfl, FetchCancellations.mem_requestsOf.mp hr⟩
  | blocks hb hf => exact Or.inl (not_owns_of_mem_markDisconnected hf)
  | refused hb hf | unloaded hf =>
    rcases of_mem_refuse hf with ⟨r, flag, -, hf⟩ | rfl
    · exact Or.inl (not_owns_of_mem_finish hf)
    · exact Or.inl rfl
  | loaded hg hf => rcases of_mem_useConnection hf with ⟨call, -, rfl⟩ | rfl | rfl <;> exact Or.inl rfl
  | noMetadata hf | noAdmin hf | failed hf => exact Or.inl (not_owns_of_mem_fail hf)
  | answered hf | panicked hf => exact Or.inl (not_owns_of_mem_settle hf)
  | published hf =>
    rcases of_mem_recordPublishOutcome hf with ⟨-, hf⟩ | ⟨failure, -, ⟨-, rfl⟩ | ⟨-, hf | hf⟩⟩
    · exact Or.inl (not_owns_of_mem_clearAuthFailures hf)
    · exact Or.inl rfl
    · cases List.mem_singleton.mp hf
      exact Or.inl rfl
    · exact Or.inl (not_owns_of_mem_release hf)
  | reread hf =>
    rcases of_mem_reread hf with hf | hf | rfl
    · exact Or.inl (not_owns_of_mem_clearAuthFailures hf)
    · exact Or.inl (not_owns_of_mem_release hf)
    · exact Or.inl rfl
  | forgotten hf =>
    rcases of_mem_forget hf with hf | hf | hf | rfl
    · exact Or.inl (not_owns_of_mem_markDisconnected hf)
    · exact Or.inl (not_owns_of_mem_clearAuthFailures hf)
    · exact Or.inl (not_owns_of_mem_release hf)
    · exact Or.inl rfl
  | _ => exact Or.inl rfl

/-- The owner of a fetch is the connection that it was started for, and a disconnect cancels the fetches of
its connection. -/
structure Owned (es : List Event) (w : World) : Prop where
  owners : ∀ requestId c, w.shared.fetchCancellations.owners.get? requestId = some c →
    .fetchMessages c requestId ∈ Script.labels es
  pending : ∀ t label, (Script.labels es)[t]? = some label → ∀ op ∈ w.script t,
    op.belongsTo (Script.labels es) label

theorem Owned.step (h : Owned es w) (hlen : (Script.labels es).length = w.tasks.length)
    (hstep : Script.step (session decoders) w e = some w') : Owned (es ++ [e]) w' := by
  cases e with
  | invoke command =>
    obtain ⟨hshared, hnew, hother⟩ := Script.step_invoke_script hstep
    constructor
    · intro r c howner
      rw [hshared] at howner
      rw [Script.labels_append]
      exact List.mem_append_left _ (h.owners r c howner)
    · intro t label ht op hop
      rcases Script.label_of_invoke ht with ht | ⟨rfl, rfl⟩
      · have hlt := (List.getElem?_eq_some_iff.mp ht).1
        rw [hother t (by omega)] at hop
        rw [Script.labels_append]
        exact (h.pending t label ht op hop).mono
      · rw [hlen, hnew] at hop
        rw [Script.labels_append]
        exact belongsTo_of_mem_script hop
  | act u o input =>
    obtain ⟨rest, next, hscript, hp, hnew, hother⟩ := Script.step_act_script hstep
    obtain ⟨hnext, hshared⟩ := perform_eq_some.mp hp
    have hlabels := Script.labels_act es u o input
    have hu : u < (Script.labels es).length :=
      hlen ▸ Script.lt_of_mem_script (hscript ▸ List.mem_cons_self)
    have hpending := h.pending u _ (List.getElem?_eq_getElem hu)
    have ho := hpending o (hscript ▸ List.mem_cons_self)
    constructor
    · intro r c howner
      rw [hlabels]
      rw [hshared, effect_fetchCancellations] at howner
      rcases owners_of_onFetches howner with rfl | hbefore
      · rw [← show _ = Command.fetchMessages c r from ho]
        exact List.getElem_mem hu
      · exact h.owners r c hbefore
    · intro t label ht op hop
      rw [hlabels] at ht ⊢
      by_cases htu : t = u
      · subst htu
        rw [List.getElem?_eq_getElem hu] at ht
        cases ht
        rw [hnew] at hop
        rcases List.mem_append.mp hop with hop | hop
        · rcases (leads_of_mem_next hnext hop).owns with hno | ⟨c, r, rfl, rfl, howner⟩
          · exact belongsTo_of_not_owns hno
          · exact Or.inr ⟨c, ho, h.owners r c howner⟩
        · exact hpending op (hscript ▸ List.mem_cons_of_mem o hop)
      · exact h.pending t label ht op (hother t htu ▸ hop)

theorem owned_run (hstart : s.fetchCancellations = {})
    (hrun : Machine.run (Script.step (session decoders)) (.start s) es = some w) : Owned es w := by
  have hboth := Machine.run_history (P := fun _ => True)
    (I := fun es w => Machine.run (Script.step (session decoders)) (.start s) es = some w ∧
      Owned es w) ?_ ?_ (fun _ _ => trivial) hrun
  · exact hboth.2
  · refine ⟨rfl, ⟨fun r c h => ?_, fun t label h => by cases h⟩⟩
    rw [show (Script.World.start s : World).shared.fetchCancellations = {} from hstart] at h
    cases h
  · rintro es w e w' - ⟨hrun, howned⟩ hstep
    have hlen : (Script.labels es).length = w.tasks.length := by
      rw [← Script.labels_of_run hrun, List.length_map]
    refine ⟨?_, howned.step hlen hstep⟩
    rw [Machine.run_snoc, hrun]
    exact hstep

/-! ## No cancel is lost -/

/-- **No cancel is lost.** The app starts with an empty registry, and request ids are unique. A cancel of a
request, by itself or by the disconnect of a connection, that comes before the flag of the request is taken
off sets the flag that the fetch holds, now or later. The snapshot of a disconnect has every request that is
recorded for its connection, and its cancels leave the flags of all fetches of other connections alone. -/
theorem no_cancel_lost (decoders : Decoders) {s : AppState} {w : World} {es : List Event}
    (hstart : s.fetchCancellations = {}) (hunique : (fetchIds es).Nodup)
    (hrun : Machine.run (Script.step (session decoders)) (.start s) es = some w) :
    (∀ requestId flag, Cancelled requestId es → Holds requestId flag es w →
      w.shared.fetchCancellations.heap flag = true) ∧
      (∀ t c input w' requestId,
        Script.step (session decoders) w (.act t (.ownersOf c) input) = some w' →
          w.shared.fetchCancellations.owners.get? requestId = some c →
            .flagsCancel requestId ∈ w'.script t) ∧
      ∀ t c r input w', (Script.labels es)[t]? = some (.disconnect c) →
        Script.step (session decoders) w (.act t (.flagsCancel r) input) = some w' →
          ∀ requestId c' flag, .fetchMessages c' requestId ∈ Script.labels es → c' ≠ c →
            (Holds requestId flag es w ∨
              w.shared.fetchCancellations.flags.get? requestId = some flag) →
              w'.shared.fetchCancellations.heap flag = w.shared.fetchCancellations.heap flag := by
  refine ⟨fun requestId flag hcancelled hholds => ?_, fun t c input w' r hstep howner => ?_, ?_⟩
  · have hkept : Kept requestId es w := kept_run hunique hrun
    rcases hkept.cancelled hcancelled with ⟨hno, g, hg, hheap⟩ | ⟨-, hall⟩
    · have hreg := (hkept.held flag hholds).2.2.resolve_left hno
      rw [hg] at hreg
      cases hreg
      exact hheap
    · exact hall flag hholds
  · obtain ⟨rest, next, -, hp, hnew, -⟩ := Script.step_act_script hstep
    have hnext := (perform_eq_some.mp hp).1
    rw [hnew]
    exact List.mem_append_left _ (cancels_of_owner hnext howner)
  · intro t c r input w' hlabel hstep requestId c' flag hstarted hne hflag
    obtain ⟨rest, next, hscript, hp, -⟩ := Script.step_act_script hstep
    have howned := owned_run hstart hrun
    have hkept : Kept requestId es w := kept_run hunique hrun
    have hr : .fetchMessages c r ∈ Script.labels es := by
      rcases howned.pending t _ hlabel _ (hscript ▸ List.mem_cons_self) with heq | ⟨c₀, heq, hmem⟩
      · cases heq
      · cases heq
        exact hmem
    have hrne : r ≠ requestId := by
      rintro rfl
      obtain ⟨i, hi⟩ := List.getElem?_of_mem hr
      obtain ⟨j, hj⟩ := List.getElem?_of_mem hstarted
      have hij := unique_task hunique hi hj rfl rfl
      subst hij
      rw [hi] at hj
      cases hj
      exact hne rfl
    have hlt : flag < w.shared.fetchCancellations.allocated := by
      rcases hflag with hf | hf
      · exact (hkept.held flag hf).1
      · exact w.shared.fetchCancellations.flag_lt _ _ hf
    have hnot : flag ≠ (w.shared.fetchCancellations.entry r).2 := by
      rintro rfl
      have hget : w.shared.fetchCancellations.flags.get? r =
          some (w.shared.fetchCancellations.entry r).2 := by
        refine flags_of_onFetches (.flagsCancel r) hlt ?_
        exact (FetchCancellations.get?_entry r).trans (if_pos rfl)
      rcases hflag with hf | hf
      · exact hrne ((hkept.held _ hf).2.1 r hget)
      · exact hrne (w.shared.fetchCancellations.flag_inj _ _ _ hget hf)
    rw [(perform_eq_some.mp hp).2, effect_fetchCancellations]
    show (w.shared.fetchCancellations.cancel r).heap flag = _
    rw [FetchCancellations.cancel_heap, if_neg hnot, FetchCancellations.entry_heap hlt]

/-- A cancel that comes before its fetch. -/
def earlyCancelEvents : List Event :=
  .invoke (.cancelFetch "r1") :: .act 0 (.flagsCancel "r1") .ok :: .act 0 (.respond (.ok ())) .ok ::
    .invoke (.fetchMessages "c1" "r1") :: eventsOf 1 fetchTrace

/-- The world after it. -/
def earlyCancelWorld : World :=
  Machine.after (Script.step (session plainDecoders)) (.start ordersState) earlyCancelEvents
    (by decide +kernel)

theorem no_cancel_lost_early : earlyCancelWorld.shared.fetchCancellations.heap 0 = true := by
  have hlost := no_cancel_lost plainDecoders (s := ordersState) (w := earlyCancelWorld) rfl
    (by decide +kernel) (Machine.run_after _ _ earlyCancelEvents _)
  refine hlost.1 "r1" 0 ⟨[.invoke (.cancelFetch "r1")], 0, .ok, _, rfl, ?_⟩ (Or.inr ?_)
  · rintro ⟨u, input, hmem⟩
    cases List.mem_singleton.mp hmem
  · exact ⟨1, .dbGet "c1" (.fetchMessages "r1" 0), .ok, by decide +kernel, rfl⟩

end OffsetExplorer.Session
