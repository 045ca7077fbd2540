import OffsetExplorer.Session.Effect

/-!
# An edit of the credentials

What the credential breaker counts after an update of a connection, while requests that have read the
old row are still on their way.

* `attempts_run`: the breaker counts the records that its connection gets, whoever makes them.
* `loaded_of_mem`: whoever records a rejection has read the row before.
* **`clean_slate`**: where no request with the old row records its outcome after the update has cleared
  the history, the breaker counts the requests with the new row and no others.
* **`old_rejections_block`**: two requests with the old row block a connection that was edited.
-/

namespace OffsetExplorer.Session

/-- The call `t` has read the row of `c`. -/
def loaded (c : String) (es : List Event) (t : ℕ) : Bool :=
  es.any fun
    | .act u (.dbGet id _) _ => u = t && id = c
    | _ => false

/-- The rejections of `new` calls on record, where a success of any but the `old` calls clears them. -/
def countNew (c : String) (old new : ℕ → Bool) (n : ℕ) : Event → ℕ
  | .act t (.authFailuresRecord id _) _ => if id = c && new t then n + 1 else n
  | .act t (.authFailuresRemove id) _ => if id = c && !old t then 0 else n
  | _ => n

/-- The operation puts an outcome of `c` on record. -/
def Op.recordsOutcome (c : String) : Op → Bool
  | .authFailuresRecord id _ | .authFailuresRemove id => id = c
  | _ => false

/-- None of the `old` calls puts an outcome of `c` on record. -/
def Unrecorded (c : String) (old : ℕ → Bool) : Event → Prop
  | .invoke _ => True
  | .act t op _ => op.recordsOutcome c = true → old t = false

/-- What a request does from the time when it has its connection up to the record of a rejection. -/
def Op.afterLoad : Op → Bool
  | .metadataClient _ _ | .adminClient _ _ | .broker _ _ | .isConnected _ _ | .writeDenied _ _ _
  | .produce _ _ _ | .authFailuresRecord _ _ => true
  | _ => false

/-! ## The count of the registry -/

/-- The rejected attempts on `c` after an event, from those before. -/
def countAll (c : String) (n : ℕ) : Event → ℕ
  | .act _ op _ => op.countFailures c n
  | .invoke _ => n

variable {decoders : Decoders} {c : String}

theorem attempts_run {w w' : World} {es : List Event}
    (hrun : Machine.run (Script.step (session decoders)) w es = some w') :
    w'.shared.connections.attempts c = es.foldl (countAll c) (w.shared.connections.attempts c) := by
  induction es generalizing w with
  | nil =>
    cases hrun
    rfl
  | cons e es ih =>
    obtain ⟨u, hu, hr⟩ := Machine.run_cons_some _ hrun
    rw [ih hr, List.foldl_cons]
    congr 1
    cases e with
    | invoke command => rw [(Script.step_invoke_script hu).1, countAll]
    | act t op input =>
      obtain ⟨rest, next, -, hp, -⟩ := Script.step_act_script hu
      rw [(perform_eq_some.mp hp).2, effect_attempts, countAll]

/-- Where the `old` calls record nothing and all rejections are those of `new` calls, the registry counts
the `new` calls. -/
theorem foldl_countAll {old new : ℕ → Bool} {es : List Event}
    (hold : ∀ e ∈ es, Unrecorded c old e)
    (hnew : ∀ t reason input, .act t (.authFailuresRecord c reason) input ∈ es → new t = true)
    (n : ℕ) : es.foldl (countAll c) (min n (2 ^ 32 - 1)) =
      min (es.foldl (countNew c old new) n) (2 ^ 32 - 1) := by
  induction es generalizing n with
  | nil => rfl
  | cons e es ih =>
    have step : countAll c (min n (2 ^ 32 - 1)) e = min (countNew c old new n e) (2 ^ 32 - 1) := by
      cases e with
      | invoke command => rfl
      | act t op input =>
        cases op with
        | authFailuresRecord id reason =>
          simp only [countAll, Op.countFailures, countNew]
          by_cases hid : id = c
          · subst hid
            rw [hnew t reason input List.mem_cons_self]
            simp
            omega
          · simp [hid]
        | authFailuresRemove id =>
          simp only [countAll, Op.countFailures, countNew]
          by_cases hid : id = c
          · subst hid
            rw [hold _ List.mem_cons_self (decide_eq_true rfl)]
            simp
          · simp [hid]
        | _ => rfl
    rw [List.foldl_cons, List.foldl_cons, step]
    exact ih (fun f h => hold f (List.mem_cons_of_mem e h))
      (fun t reason input h => hnew t reason input (List.mem_cons_of_mem e h)) _

/-! ## Who records a rejection -/

theorem not_afterLoad_of_mem_refuse {f : Op} {request : Request} {message : String}
    (hf : f ∈ refuse request message) : f.afterLoad = false := by
  rcases of_mem_refuse hf with ⟨requestId, flag, -, hf⟩ | rfl
  · simp only [finish, List.mem_cons, List.not_mem_nil, or_false] at hf
    rcases hf with rfl | rfl <;> rfl
  · rfl

theorem not_afterLoad_of_mem_forget {f : Op} {id : String}
    (hf : f ∈ markDisconnected id ++ (clearAuthFailures id ++ release id ++
      [.schemaRegistryRelease id])) : f.afterLoad = false := by
  revert f
  simp [markDisconnected, clearAuthFailures, release, dropPooledClient, Op.afterLoad]

theorem Leads.afterLoad {s : AppState} {op f : Op} {input : Input}
    (h : Leads decoders s op input f) (hf : f.afterLoad = true) :
    (∃ id request, op = .dbGet id request) ∨ op.afterLoad = true := by
  cases h with
  | loaded | unloaded => exact Or.inl ⟨_, _, rfl⟩
  | refused hb hm =>
    rw [not_afterLoad_of_mem_refuse hm] at hf
    cases hf
  | reread hm =>
    rw [not_afterLoad_of_mem_forget (List.mem_append_right _ hm)] at hf
    cases hf
  | forgotten hm =>
    rw [List.append_assoc, List.append_assoc, ← List.append_assoc (clearAuthFailures _)] at hm
    rw [not_afterLoad_of_mem_forget hm] at hf
    cases hf
  | begun | admitted | cancels | updated | deleted | responds => cases hf
  | _ => exact Or.inr rfl

theorem not_afterLoad_of_mem_script {command : Command} {f : Op} (hf : f ∈ command.script) :
    f.afterLoad = false := by
  revert f
  cases command <;>
    simp [Command.script, clearAuthFailures, connectionForRequest, markDisconnected,
      cancelAllForConnection, release, dropPooledClient, beginForConnection, Op.afterLoad]

/-- **Whoever records a rejection of `c` has read the row of `c` before.** -/
theorem loaded_of_step {s : AppState} {w w' : World} {es : List Event} {t : ℕ} {reason : String}
    {input : Input} (hrun : Machine.run (Script.step (session decoders)) (.start s) es = some w)
    (hstep : Script.step (session decoders) w (.act t (.authFailuresRecord c reason) input) =
      some w') : ∃ request i, .act t (.dbGet c request) i ∈ es := by
  obtain ⟨rest, next, hscript, -⟩ := Script.step_act_script hstep
  have hpreceded := Script.run_preceded
    (K := fun op => ∃ request, op = .dbGet c request)
    (L := fun op => op.afterLoad = true ∧ op.on = some c) ?_ ?_ hrun t
    (.authFailuresRecord c reason) (hscript ▸ List.mem_cons_self) ⟨rfl, rfl⟩
  · obtain ⟨f, i, ⟨request, rfl⟩, hmem⟩ := hpreceded
    exact ⟨request, i, hmem⟩
  · rintro command op hop ⟨hL, -⟩
    have hscript : op ∈ command.script := hop
    rw [not_afterLoad_of_mem_script hscript] at hL
    cases hL
  · rintro s op input s' next hp f hf ⟨hL, hon⟩
    have hleads := leads_of_mem_next (perform_eq_some.mp hp).1 hf
    have hop : op.on = some c := by
      rcases hleads.on_eq with h | h
      · exact absurd (h.symm.trans hon) (by simp)
      · exact h.symm.trans hon
    rcases hleads.afterLoad hL with ⟨id, request, rfl⟩ | h
    · exact Or.inl ⟨request, by rw [Option.some.inj (show some id = some c from hop)]⟩
    · exact Or.inr ⟨h, hop⟩

theorem loaded_of_mem {es : List Event} {t : ℕ} {request : Request} {input : Input}
    (h : .act t (.dbGet c request) input ∈ es) : loaded c es t = true :=
  List.any_eq_true.mpr ⟨_, h, by simp⟩

/-! ## A clean slate -/

/-- **A clean slate.** Call `u` writes the new row of `c` after `pre`, and clears the history after `mid`.
Where no call that has read the row in `pre` puts an outcome on record in `post`, the breaker counts the
rejections of the calls that read the row after the write, since the last success of one of them or the
last clearing by the user. -/
theorem clean_slate (decoders : Decoders) {c now : String} {new : NewConnection} {u : ℕ}
    {s : AppState} {w : World} {pre mid post : List Event}
    (hrun : Machine.run (Script.step (session decoders)) (.start s)
      (pre ++ .act u (.dbUpdate c new) (.stamp now) :: mid ++
        .act u (.authFailuresRemove c) .ok :: post) = some w)
    (hold : ∀ e ∈ post, Unrecorded c (loaded c pre) e) :
    let count := post.foldl (countNew c (loaded c pre) (loaded c (mid ++ post))) 0
    w.shared.connections.attempts c = min count (2 ^ 32 - 1) ∧
      ((w.shared.connections.authBlockReason c).isSome = true ↔ maxAuthAttempts ≤ count) := by
  intro count
  have hattempts : w.shared.connections.attempts c = min count (2 ^ 32 - 1) := by
    obtain ⟨v, hv, hpost⟩ := Option.bind_eq_some_iff.mp (Machine.run_append _ _ _ _ ▸ hrun)
    obtain ⟨v', hclear, hpost⟩ := Machine.run_cons_some _ hpost
    have hzero : v'.shared.connections.attempts c = min 0 (2 ^ 32 - 1) := by
      obtain ⟨rest, next, -, hp, -⟩ := Script.step_act_script hclear
      rw [(perform_eq_some.mp hp).2, effect_attempts]
      simp [Op.countFailures]
    rw [attempts_run hpost, hzero]
    refine foldl_countAll hold (fun t reason input hmem => ?_) 0
    -- the call has read the row before its record, and not in `pre`
    obtain ⟨before, after, rfl⟩ := List.append_of_mem hmem
    obtain ⟨x, hx, hafter⟩ := Option.bind_eq_some_iff.mp (Machine.run_append _ _ _ _ ▸ hpost)
    obtain ⟨y, hy, -⟩ := Machine.run_cons_some _ hafter
    have hbefore : Machine.run (Script.step (session decoders)) (.start s)
        ((pre ++ .act u (.dbUpdate c new) (.stamp now) :: mid) ++
          .act u (.authFailuresRemove c) .ok :: before) = some x := by
      rw [Machine.run_append, hv, Option.bind_some, Machine.run_cons, hclear]
      exact hx
    obtain ⟨request, i, hload⟩ := loaded_of_step hbefore hy
    have hpre : loaded c pre t = false := hold _ hmem (decide_eq_true rfl)
    have hnot : ¬ .act t (.dbGet c request) i ∈ pre := by
      intro h
      rw [loaded_of_mem h] at hpre
      cases hpre
    have hlater : .act t (.dbGet c request) i ∈ mid ++ (before ++
        .act t (.authFailuresRecord c reason) input :: after) := by
      simp only [List.mem_append, List.mem_cons, reduceCtorEq, Script.Event.act.injEq, and_false,
        false_and, false_or, hnot] at hload ⊢
      grind
    exact loaded_of_mem hlater
  refine ⟨hattempts, ?_⟩
  rw [ConnectionRegistry.authBlockReason_isSome, hattempts, maxAuthAttempts]
  omega

instance (c : String) (old : ℕ → Bool) : ∀ e, Decidable (Unrecorded c old e)
  | .invoke _ => inferInstanceAs (Decidable True)
  | .act t op _ => inferInstanceAs (Decidable (op.recordsOutcome c = true → old t = false))

/-! ## Two runs with an update -/

/-- The connection with another password. -/
def editedConnection : Connection :=
  { ordersConnection with saslPassword := some "secret", updatedAt := "2026-02-01T00:00:00Z" }

/-- The update has written its row. -/
def writeRow (u : ℕ) : Event :=
  .act u (.dbUpdate "c1" editedConnection.toNewConnection) (.stamp "2026-02-01T00:00:00Z")

/-- What is left of the update after it has cleared the history. -/
def releaseEvents (u : ℕ) : List Event :=
  [.act u (.writeDenialsRetain "c1") .ok, .act u (.metadataClientsRemove "c1") .ok,
    .act u (.adminClientsRemove "c1") .ok, .act u (.schemaRegistryRelease "c1") .ok,
    .act u (.respond (.ok ())) .ok]

/-- A connection is edited. -/
def updateCommand : Command := .update "c1" editedConnection.toNewConnection

/-- The request with the old password is rejected before the update clears the history, and two with the
new one after it. -/
theorem clean_slate_two :
    let pre := .invoke (.query "c1" .listBrokers) :: loadEvents 0 ++ [.invoke updateCommand]
    let mid := rejectedEvents 0 ordersConnection false ++ [.act 1 (.dbGetUpdated "c1") .ok]
    let post := releaseEvents 1 ++ .invoke (.query "c1" .listBrokers) :: loadEvents 2 ++
      rejectedEvents 2 editedConnection false ++ .invoke (.query "c1" .listBrokers) ::
        loadEvents 3 ++ rejectedEvents 3 editedConnection true
    let w := Machine.after (Script.step (session plainDecoders)) (.start ordersState)
      (pre ++ writeRow 1 :: mid ++ .act 1 (.authFailuresRemove "c1") .ok :: post)
      (by decide +kernel)
    let count := post.foldl (countNew "c1" (loaded "c1" pre) (loaded "c1" (mid ++ post))) 0
    w.shared.connections.attempts "c1" = min count (2 ^ 32 - 1) ∧
      ((w.shared.connections.authBlockReason "c1").isSome = true ↔ maxAuthAttempts ≤ count) := by
  intro pre mid post w
  exact clean_slate plainDecoders (Machine.run_after _ _ _ _) (by decide +kernel)

/-- **Two requests with the old password block the edited connection.** No request has read the new row. -/
theorem old_rejections_block :
    let pre := .invoke (.query "c1" .listBrokers) :: .invoke (.query "c1" .listBrokers) ::
      loadEvents 0 ++ loadEvents 1 ++ [.invoke updateCommand]
    let mid := [.act 2 (.dbGetUpdated "c1") .ok]
    let post := releaseEvents 2 ++ rejectedEvents 0 ordersConnection false ++
      rejectedEvents 1 ordersConnection true
    let w := Machine.after (Script.step (session plainDecoders)) (.start ordersState)
      (pre ++ writeRow 2 :: mid ++ .act 2 (.authFailuresRemove "c1") .ok :: post)
      (by decide +kernel)
    (w.shared.connections.authBlockReason "c1").isSome = true ∧
      (∀ t < 3, loaded "c1" (mid ++ post) t = false) ∧
        post.foldl (countNew "c1" (loaded "c1" pre) (loaded "c1" (mid ++ post))) 0 = 0 := by
  decide +kernel

end OffsetExplorer.Session
