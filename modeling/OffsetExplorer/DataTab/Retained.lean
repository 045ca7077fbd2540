import OffsetExplorer.DataTab.Window

/-!
# The byte counter and the rows it stands for

* `Accounted`: the counter of every view is what its rows hold; `Accounted.total`: so is the sum
  that the ceiling is compared with.
* `Accounted.step`: every step of the component keeps it so: rows are counted as they are appended,
  and the counter goes with the rows that are cleared or evicted.
* `accounted_patch`: a row fetch keeps it so exactly when it finds its row.
* **`payload_accounting`**: the runs that keep it so throughout are those where every row fetch does.
-/

namespace OffsetExplorer.DataTab

open Machine

/-! ## Bytes of rows -/

theorem rowBytes_eq (m : TopicMessage) :
    (m.payloadBase64.map base64DecodedLength).getD 0 = rowBytes m := by
  rw [rowBytes]
  cases m.payloadBase64 with
  | none => simp [base64DecodedLength]
  | some payload => rfl

@[simp] theorem retainedPayloadBytes_nil : retainedPayloadBytes [] = 0 := rfl

theorem retainedPayloadBytes_append (rows rest : List TopicMessage) :
    retainedPayloadBytes (rows ++ rest) =
      retainedPayloadBytes rows + retainedPayloadBytes rest := by
  have hfold : ∀ (ms : List TopicMessage) (total : ℤ),
      ms.foldl (fun total m => total + (m.payloadBase64.map base64DecodedLength).getD 0) total =
        total + retainedPayloadBytes ms := by
    intro ms
    induction ms with
    | nil => simp
    | cons m ms ih =>
      intro total
      have hms : retainedPayloadBytes (m :: ms) =
          0 + (m.payloadBase64.map base64DecodedLength).getD 0 + retainedPayloadBytes ms := ih _
      rw [List.foldl_cons, ih, hms]
      omega
  rw [retainedPayloadBytes, List.foldl_append, hfold, hfold]
  simp

@[simp] theorem retainedPayloadBytes_cons (m : TopicMessage) (rows : List TopicMessage) :
    retainedPayloadBytes (m :: rows) = rowBytes m + retainedPayloadBytes rows := by
  have hone : retainedPayloadBytes [m] = rowBytes m := by
    rw [← rowBytes_eq]
    exact zero_add _
  rw [← hone, ← retainedPayloadBytes_append, List.singleton_append]

theorem retainedPayloadBytes_replace (p : TopicMessage → Bool) (new : TopicMessage)
    (rows : List TopicMessage) :
    retainedPayloadBytes (rows.map fun m => if p m then new else m) =
      retainedPayloadBytes rows - retainedPayloadBytes (rows.filter p) +
        (rows.filter p).length * rowBytes new := by
  induction rows with
  | nil => simp
  | cons m rows ih =>
    rw [List.map_cons, retainedPayloadBytes_cons, ih, List.filter_cons, retainedPayloadBytes_cons]
    split_ifs
    · rw [retainedPayloadBytes_cons, List.length_cons, Int.natCast_succ, Int.add_mul]
      omega
    · omega

/-! ## The counter of a view -/

namespace TabDataState

variable {state : TabDataState} {tabId k : String}

/-- `payloadBytesByTab[tabId] ?? 0`. -/
def payloadBytes (state : TabDataState) (tabId : String) : ℤ :=
  (state.payloadBytesByTab.get? tabId).getD 0

/-- The counter of a view is what its rows hold. -/
def AccountedAt (state : TabDataState) (tabId : String) : Prop :=
  state.payloadBytes tabId = retainedPayloadBytes (state.messages tabId)

/-- The counter of every view is what its rows hold. -/
def Accounted (state : TabDataState) : Prop := ∀ tabId, state.AccountedAt tabId

/-- What the grids hold in all. -/
def retainedByGrids (state : TabDataState) : ℤ :=
  state.messagesByTab.values.foldl (fun total rows => total + retainedPayloadBytes rows) 0

theorem accounted_empty : Accounted {} := fun _ => rfl

/-- **The total that is compared with the ceiling is what the grids hold.** -/
theorem Accounted.total (h : state.Accounted) :
    totalRetainedPayloadBytes state.payloadBytesByTab = state.retainedByGrids := by
  have hsum : (state.payloadBytesByTab.values.map id).sum =
      (state.messagesByTab.values.map retainedPayloadBytes).sum := by
    refine Record.sum_values_congr fun tabId => ?_
    have hk := h tabId
    rw [AccountedAt, payloadBytes, messages] at hk
    rw [Option.map_id_fun, id_eq, hk]
    cases state.messagesByTab.get? tabId <;> rfl
  rw [List.map_id, List.sum_eq_foldl, List.sum_eq_foldl, List.foldl_map] at hsum
  exact hsum

theorem accountedAt_congr {state' : TabDataState}
    (hbytes : state'.payloadBytes tabId = state.payloadBytes tabId)
    (hrows : state'.messages tabId = state.messages tabId) :
    state'.AccountedAt tabId ↔ state.AccountedAt tabId := by
  rw [AccountedAt, AccountedAt, hbytes, hrows]

theorem accountedAt_of_none (hbytes : state.payloadBytesByTab.get? tabId = none)
    (hrows : state.messagesByTab.get? tabId = none) : state.AccountedAt tabId := by
  rw [AccountedAt, payloadBytes, messages, hbytes, hrows]
  rfl

theorem payloadBytes_addTabPayloadBytes (bytes : ℤ) :
    (state.addTabPayloadBytes tabId bytes).payloadBytes k =
      state.payloadBytes k + if k = tabId then bytes else 0 := by
  rw [payloadBytes, addTabPayloadBytes, Record.get?_set]
  split_ifs with h
  · rw [h, payloadBytes, Option.getD_some]
  · rw [add_zero, payloadBytes]

theorem messages_appendTabMessages_ne (h : k ≠ tabId) (rows : List TopicMessage) (now : ℕ) :
    (state.appendTabMessages tabId rows now).messages k = state.messages k := by
  rw [appendTabMessages]
  split_ifs
  · rfl
  · rw [messages, Record.get?_set_ne _ h, messages]

theorem payloadBytes_appendTabMessages (rows : List TopicMessage) (now : ℕ) :
    (state.appendTabMessages tabId rows now).payloadBytes k = state.payloadBytes k := by
  rw [appendTabMessages]
  split_ifs <;> rfl

theorem messages_setTabMessages (rows : List TopicMessage) (now : ℕ) :
    (state.setTabMessages tabId rows now).messages k =
      if k = tabId then rows else state.messages k := by
  rw [messages, setTabMessages, Record.get?_set]
  split_ifs <;> rfl

theorem Accounted.append (h : state.Accounted) (rows : List TopicMessage) (now : ℕ) :
    ((state.appendTabMessages tabId rows now).addTabPayloadBytes tabId
      (retainedPayloadBytes rows)).Accounted := by
  intro k
  rw [AccountedAt, payloadBytes_addTabPayloadBytes, payloadBytes_appendTabMessages,
    messages_addTabPayloadBytes, h k]
  by_cases hk : k = tabId
  · rw [if_pos hk, hk, messages_appendTabMessages, retainedPayloadBytes_append]
  · rw [if_neg hk, add_zero, messages_appendTabMessages_ne hk]

theorem Accounted.clear (h : state.Accounted) (tabId : String) :
    (state.clearTabMessages tabId).Accounted := by
  intro k
  by_cases hk : k = tabId
  · apply accountedAt_of_none
    · rw [clearTabMessages, hk, Record.get?_erase_self]
    · rw [clearTabMessages, hk, Record.get?_erase_self]
  · refine (accountedAt_congr ?_ ?_).mpr (h k)
    · rw [payloadBytes, clearTabMessages, Record.get?_erase_ne _ hk, payloadBytes]
    · rw [messages, clearTabMessages, Record.get?_erase_ne _ hk, messages]

theorem Accounted.keep (h : state.Accounted) (p : String → Bool) : (state.keep p).Accounted := by
  intro k
  by_cases hp : p k = true
  · refine (accountedAt_congr ?_ ?_).mpr (h k)
    · rw [payloadBytes, TabDataState.keep, Record.get?_keep, if_pos hp, payloadBytes]
    · rw [messages, TabDataState.keep, Record.get?_keep, if_pos hp, messages]
  · apply accountedAt_of_none
    · rw [TabDataState.keep, Record.get?_keep, if_neg hp]
    · rw [TabDataState.keep, Record.get?_keep, if_neg hp]

theorem AccountedAt.evict (h : state.AccountedAt k) (tabId : String) :
    (state.evict tabId).AccountedAt k := by
  by_cases hk : k = tabId
  · apply accountedAt_of_none
    · rw [TabDataState.evict, hk, Record.get?_erase_self]
    · rw [TabDataState.evict, hk, Record.get?_erase_self]
  · refine (accountedAt_congr ?_ ?_).mpr h
    · rw [payloadBytes, TabDataState.evict, Record.get?_erase_ne _ hk, payloadBytes]
    · rw [messages, TabDataState.evict, Record.get?_erase_ne _ hk, messages]

theorem evictLoop_induction {I : TabDataState → Prop} {limitBytes : ℤ}
    (hI : ∀ state key, state.coldest tabId = some key → I state → I (state.evict key)) (turns : ℕ)
    (h : I state) : I (evictLoop limitBytes tabId turns state).1 := by
  induction turns generalizing state with
  | zero => exact h
  | succ turns ih =>
    rw [evictLoop]
    split_ifs
    · exact h
    · cases hc : state.coldest tabId with
      | none => exact h
      | some key => exact ih (hI state key hc h)

theorem AccountedAt.evictToFit (h : state.AccountedAt k) (limitBytes : ℤ) (tabId : String) :
    (state.evictToFit limitBytes tabId).1.AccountedAt k :=
  evictLoop_induction (I := fun s => s.AccountedAt k) (fun _ key _ hs => hs.evict key) _ h

theorem payloadBytes_evictToFit (limitBytes : ℤ) :
    (state.evictToFit limitBytes tabId).1.payloadBytes tabId = state.payloadBytes tabId := by
  apply evictLoop_induction (I := fun s => s.payloadBytes tabId = state.payloadBytes tabId)
  · intro s key hc hs
    rw [← hs, payloadBytes, TabDataState.evict, Record.get?_erase_ne _ (coldest_ne hc).symm,
      payloadBytes]
  · rfl

theorem accountedAt_evictToFit (limitBytes : ℤ) :
    (state.evictToFit limitBytes tabId).1.AccountedAt tabId ↔ state.AccountedAt tabId :=
  accountedAt_congr (payloadBytes_evictToFit limitBytes) (evictToFit_messages limitBytes)

end TabDataState

/-! ## The component -/

section Component

variable {a b : App}

theorem accounted_enforceRetentionLimit (h : a.store.Accounted) (tabKey : String) :
    (a.enforceRetentionLimit tabKey).store.Accounted :=
  fun k => (h k).evictToFit a.maxTotalFetchBytes tabKey

theorem accounted_flush (h : a.store.Accounted) (now : ℕ) : (a.flush now).store.Accounted := by
  unfold App.flush
  dsimp only
  split_ifs
  · exact h
  · apply accounted_enforceRetentionLimit
    exact h.append a.view.streamBuffer now

theorem accounted_appendRest (h : a.store.Accounted) (tabKey : String)
    (rows : List TopicMessage) (now : ℕ) : (a.appendRest tabKey rows now).store.Accounted := by
  rw [App.appendRest]
  split_ifs
  · exact h
  · exact h.append rows now

theorem accounted_complete (h : a.store.Accounted) (tabKey : String)
    (result : MessageFetchResult) (now elapsedMs : ℕ) :
    (a.complete tabKey result now elapsedMs).store.Accounted := by
  apply accounted_enforceRetentionLimit
  exact accounted_appendRest (accounted_flush h now) tabKey result.messages now

theorem settle_store (id : String) (retiredHere : Bool) :
    (a.settle id retiredHere).store = a.store := by
  rw [App.settle]
  split_ifs <;> rfl

theorem accounted_handleAnswer (h : a.store.Accounted) (id tabKey : String)
    (answer : Except String MessageFetchResult) (now elapsedMs : ℕ) :
    (a.handleAnswer id tabKey answer now elapsedMs).store.Accounted := by
  unfold App.handleAnswer
  split_ifs
  · cases answer with
    | error err =>
      rw [settle_store]
      exact h
    | ok result =>
      rw [settle_store]
      exact accounted_complete h tabKey result now elapsedMs
  · rw [settle_store]
    exact h

theorem onBatch_store (id : String) (messages : List TopicMessage) :
    (a.onBatch id messages).store = a.store := by
  rw [App.onBatch]
  split_ifs <;> rfl

/-- **No step of the component breaks the counters.** -/
theorem accounted_step {e : Event} (h : a.store.Accounted) (hst : step a e = some b) :
    b.store.Accounted := by
  cases e with
  | play id =>
    obtain ⟨-, -, rfl⟩ := step_play.mp hst
    exact h.clear a.view.tabKey
  | reject error =>
    obtain ⟨-, rfl⟩ := step_reject.mp hst
    exact h
  | stop =>
    obtain ⟨-, rfl⟩ := step_stop.mp hst
    exact h
  | retarget tabKey now =>
    obtain ⟨-, rfl⟩ := step_retarget.mp hst
    exact h
  | emitBatch id messages =>
    obtain ⟨-, rfl⟩ := step_emitBatch.mp hst
    exact h
  | respond id answer =>
    obtain ⟨-, rfl⟩ := step_respond.mp hst
    exact h
  | deliverEvent id messages =>
    obtain ⟨events, -, rfl⟩ := step_deliverEvent.mp hst
    rw [onBatch_store]
    exact h
  | deliverResponse id now elapsedMs =>
    obtain ⟨call, answer, -, -, rfl⟩ := step_deliverResponse.mp hst
    exact accounted_handleAnswer (a := a.setStatus id .settled) h id call.tabKey answer now elapsedMs
  | timer now =>
    obtain ⟨-, rfl⟩ := step_timer.mp hst
    exact accounted_flush (a := { a with timers := a.timers - 1 }) h now

/-! ## A row fetch comes back -/

/-- The rows a view holds let `updated` in: it replaces exactly one of them; or it replaces none and
weighs nothing; or the copies beyond the first weigh what as many copies of it do. -/
def TakesPayload (rows : List TopicMessage) (row updated : TopicMessage) : Prop :=
  match rows.filter (sameRow row) with
  | [] => rowBytes updated = 0
  | _ :: others => others.length * rowBytes updated = retainedPayloadBytes others

instance (rows : List TopicMessage) (row updated : TopicMessage) :
    Decidable (TakesPayload rows row updated) :=
  match h : rows.filter (sameRow row) with
  | [] => decidable_of_iff (rowBytes updated = 0) (by rw [TakesPayload, h])
  | _ :: others =>
    decidable_of_iff (others.length * rowBytes updated = retainedPayloadBytes others)
      (by rw [TakesPayload, h])

/-- The store before eviction: the change is charged, the rows are replaced. -/
def patched (store : TabDataState) (tabKey : String) (row updated : TopicMessage) (now : ℕ) :
    TabDataState :=
  (store.addTabPayloadBytes tabKey
    (rowBytes updated - (((store.messages tabKey).find? (sameRow row)).map rowBytes).getD
      (base64DecodedLength ""))).setTabMessages tabKey
    ((store.messages tabKey).map fun m => if sameRow row m then updated else m) now

theorem patchRow_store {result : MessageFetchResult} {row updated : TopicMessage}
    (h : result.messages.find? (sameRow row) = some updated) (tabKey : String) (now : ℕ) :
    (a.patchRow tabKey row result now).store =
      ((patched a.store tabKey row updated now).evictToFit a.maxTotalFetchBytes tabKey).1 := by
  rw [App.patchRow, h]
  rfl

/-- The charge is the change of what the rows hold exactly when they let the row in. -/
theorem charge_eq_iff (rows : List TopicMessage) (row updated : TopicMessage) :
    retainedPayloadBytes rows + (rowBytes updated -
        ((rows.find? (sameRow row)).map rowBytes).getD (base64DecodedLength "")) =
      retainedPayloadBytes (rows.map fun m => if sameRow row m then updated else m) ↔
      TakesPayload rows row updated := by
  have hempty : base64DecodedLength "" = 0 := by simp [base64DecodedLength]
  rw [retainedPayloadBytes_replace, TakesPayload, ← List.head?_filter, hempty]
  cases rows.filter (sameRow row) with
  | nil => simp
  | cons first others =>
    rw [List.head?_cons, Option.map_some, Option.getD_some, retainedPayloadBytes_cons,
      List.length_cons, Int.natCast_succ, Int.add_mul]
    dsimp only
    omega

theorem accountedAt_patched_self {store : TabDataState} {tabKey : String}
    (h : store.Accounted) (row updated : TopicMessage) (now : ℕ) :
    (patched store tabKey row updated now).AccountedAt tabKey ↔
      TakesPayload (store.messages tabKey) row updated := by
  rw [← charge_eq_iff, ← h tabKey, TabDataState.AccountedAt, patched,
    TabDataState.messages_setTabMessages, if_pos rfl]
  refine Eq.congr_left (Eq.trans (TabDataState.payloadBytes_addTabPayloadBytes _) ?_)
  rw [if_pos rfl]

theorem accountedAt_patched_ne {store : TabDataState} {tabKey k : String} (hk : k ≠ tabKey)
    (h : store.Accounted) (row updated : TopicMessage) (now : ℕ) :
    (patched store tabKey row updated now).AccountedAt k := by
  refine (TabDataState.accountedAt_congr ?_ ?_).mpr (h k)
  · refine Eq.trans (TabDataState.payloadBytes_addTabPayloadBytes _) ?_
    rw [if_neg hk, add_zero]
  · rw [patched, TabDataState.messages_setTabMessages, if_neg hk,
      TabDataState.messages_addTabPayloadBytes]

/-- **A row fetch keeps the counters exactly when the rows let its message in.** -/
theorem accounted_patchRow (h : a.store.Accounted) (tabKey : String) (row : TopicMessage)
    (result : MessageFetchResult) (now : ℕ) :
    (a.patchRow tabKey row result now).store.Accounted ↔
      ∀ updated, result.messages.find? (sameRow row) = some updated →
        TakesPayload (a.store.messages tabKey) row updated := by
  cases hfind : result.messages.find? (sameRow row) with
  | none => simpa [App.patchRow, hfind] using h
  | some updated =>
    simp only [Option.some.injEq, forall_eq']
    rw [patchRow_store hfind]
    constructor
    · intro ht
      have hself := (TabDataState.accountedAt_evictToFit _).mp (ht tabKey)
      exact (accountedAt_patched_self h row updated now).mp hself
    · intro htakes k
      by_cases hk : k = tabKey
      · rw [hk, TabDataState.accountedAt_evictToFit]
        exact (accountedAt_patched_self h row updated now).mpr htakes
      · exact (accountedAt_patched_ne hk h row updated now).evictToFit _ _

end Component

/-! ## The window -/

namespace Window

variable {w t : Window}

theorem app_store {i : ℕ} {a : App} (h : w.app i = some a) : a.store = w.store := by
  obtain ⟨tab, -, rfl⟩ := Option.map_eq_some_iff.mp h
  rfl

/-- The row fetch that comes back finds rows that let its message in. -/
def PatchFits (w : Window) : Action → Prop
  | .payloadAnswer j (.ok result) _ =>
    ∀ call ∈ w.rowFetches[j]?, ∀ updated ∈ result.messages.find? (sameRow call.row),
      TakesPayload (w.store.messages call.tabKey) call.row updated
  | _ => True

instance (w : Window) : ∀ e, Decidable (PatchFits w e)
  | .payloadAnswer j (.ok result) _ =>
    inferInstanceAs (Decidable (∀ call ∈ w.rowFetches[j]?,
      ∀ updated ∈ result.messages.find? (sameRow call.row),
        TakesPayload (w.store.messages call.tabKey) call.row updated))
  | .payloadAnswer _ (.error _) _ | .mount .. | .unmount _ | .view .. | .fetchPayload ..
  | .clearAllMessagesForTab _ | .clearForConnection _ | .setMaxTotalFetchBytes _ =>
    inferInstanceAs (Decidable True)

theorem accounted_payloadAnswer (h : w.store.Accounted) {j now : ℕ}
    {answer : Except String MessageFetchResult}
    (hst : step w (.payloadAnswer j answer now) = some t) :
    t.store.Accounted ↔ PatchFits w (.payloadAnswer j answer now) := by
  obtain ⟨call, hcall, hmap⟩ := Option.bind_eq_some_iff.mp hst
  obtain ⟨a, ha, rfl⟩ := Option.map_eq_some_iff.mp hmap
  have hstore : a.store = w.store := app_store ha
  cases answer with
  | error err =>
    refine iff_of_true ?_ trivial
    show a.store.Accounted
    rwa [hstore]
  | ok result =>
    show (a.patchRow call.tabKey call.row result now).store.Accounted ↔ _
    rw [accounted_patchRow (hstore ▸ h), hstore]
    constructor
    · intro hfits call' hcall'
      cases hcall.symm.trans hcall'
      exact hfits
    · intro hfits
      exact hfits call hcall

/-- **A step keeps the counters exactly when it is no row fetch that misses its row.** -/
theorem accounted_step_iff {e : Action} (h : w.store.Accounted) (hst : step w e = some t) :
    t.store.Accounted ↔ PatchFits w e := by
  cases e with
  | mount tabKey now =>
    cases hst
    exact iff_of_true h trivial
  | unmount i =>
    obtain ⟨-, hmap⟩ := Option.ite_none_right_eq_some.mp hst
    obtain ⟨a, ha, rfl⟩ := Option.map_eq_some_iff.mp hmap
    refine iff_of_true ?_ trivial
    show a.store.Accounted
    rwa [app_store ha]
  | view i event =>
    obtain ⟨-, hbind⟩ := Option.ite_none_right_eq_some.mp hst
    obtain ⟨a, ha, hmap⟩ := Option.bind_eq_some_iff.mp hbind
    obtain ⟨b, hb, rfl⟩ := Option.map_eq_some_iff.mp hmap
    have hstore : a.store.Accounted := (app_store ha).symm ▸ h
    exact iff_of_true (accounted_step hstore hb) trivial
  | fetchPayload i row =>
    obtain ⟨-, hmap⟩ := Option.ite_none_right_eq_some.mp hst
    obtain ⟨a, -, rfl⟩ := Option.map_eq_some_iff.mp hmap
    exact iff_of_true h trivial
  | payloadAnswer j answer now => exact accounted_payloadAnswer h hst
  | clearAllMessagesForTab activeTabId =>
    cases hst
    exact iff_of_true (h.keep _) trivial
  | clearForConnection connectionId =>
    cases hst
    exact iff_of_true (h.keep _) trivial
  | setMaxTotalFetchBytes bytes =>
    cases hst
    exact iff_of_true h trivial

/-- The counters are what the rows hold, and so is the total that the ceiling is about. -/
def Counted (w : Window) : Prop :=
  w.store.Accounted ∧
    totalRetainedPayloadBytes w.store.payloadBytesByTab = w.store.retainedByGrids

theorem counted_iff : w.Counted ↔ w.store.Accounted :=
  ⟨And.left, fun h => ⟨h, h.total⟩⟩

/-- **Main result.** The counters are right in every state of a run if and only if every row fetch
that comes back finds the row it is for. -/
theorem payload_accounting {maxTotalFetchBytes : ℤ} {es : List Action}
    (h : run step (opened maxTotalFetchBytes) es = some t) :
    Always step Counted (opened maxTotalFetchBytes) es ↔
      AllSteps step PatchFits (opened maxTotalFetchBytes) es := by
  refine always_iff_allSteps ?_ (counted_iff.mpr TabDataState.accounted_empty) h
  intro w e t hw hst
  rw [counted_iff]
  exact accounted_step_iff (counted_iff.mp hw) hst

/-! ## A row that is gone -/

/-- A row as a fetch without payloads leaves it, and as its own fetch brings it back. -/
def bareRow : TopicMessage := { partition := 0, offset := 7 }

/-- A row with a payload of three bytes. -/
def fullRow : TopicMessage := { bareRow with payloadBase64 := some "AAAA" }

/-- A fetch streams one row, and "Fetch payload" is clicked on it. -/
def clickPayload : List Action :=
  [.mount "tab:conn:orders:all" 0, .view 0 (.play "r"), .view 0 (.emitBatch "r" [bareRow]),
    .view 0 (.respond "r" (.ok { totalMatching := 1 })), .view 0 (.deliverEvent "r" [bareRow]),
    .view 0 (.deliverResponse "r" 1 5), .fetchPayload 0 bareRow]

/-- The answer to that click. -/
def payloadArrives : Action := .payloadAnswer 0 (.ok { messages := [fullRow] }) 2

theorem payload_accounting_click :
    Always step Counted (opened 1000) (clickPayload ++ [payloadArrives]) := by
  have hrun : (run step (opened 1000) (clickPayload ++ [payloadArrives])).isSome = true := by
    decide +kernel
  exact (payload_accounting (run_after step _ _ hrun)).mpr (by decide +kernel)

/-- "Clear memory" is clicked before the answer lands: three bytes are counted that no row holds. -/
theorem late_payload_uncovered :
    ∃ w, run step (opened 1000)
        (clickPayload ++ [.clearAllMessagesForTab (some "tab"), payloadArrives]) = some w ∧
      w.store.messages "tab:conn:orders:all" = [] ∧
      w.store.payloadBytes "tab:conn:orders:all" = 3 ∧ ¬ w.store.Accounted := by
  have hrun : (run step (opened 1000)
      (clickPayload ++ [.clearAllMessagesForTab (some "tab"), payloadArrives])).map (fun w =>
        (w.store.messages "tab:conn:orders:all", w.store.payloadBytes "tab:conn:orders:all")) =
      some ([], 3) := by decide +kernel
  obtain ⟨w, hw, hview⟩ := Option.map_eq_some_iff.mp hrun
  obtain ⟨hrows, hbytes⟩ := Prod.mk.injEq .. ▸ hview
  refine ⟨w, hw, hrows, hbytes, fun h => ?_⟩
  have hk := h "tab:conn:orders:all"
  rw [TabDataState.AccountedAt, hrows, hbytes] at hk
  cases hk

end Window

end OffsetExplorer.DataTab
