import OffsetExplorer.DataTab.Evict
import OffsetExplorer.Lib.Digits

/-!
# The keys of the views

A key joins a workspace tab, a connection, a topic and a partition with colons, and the store reads the
first two back. The ids of tabs and connections have no colon; the name of a topic may have any
character.

* `DataView`, `DataView.key`: what a Data tab shows, and where the store keeps what it has cached.
* `Reached`: the states that the store comes to when it is used with the keys of views.
* `Absent`, `RemovesExactly`: what a state has nothing of, and what a clearing removes.
* **`views_apart`**: no two views share a key, and a clearing removes what it is asked to.
-/

namespace OffsetExplorer.DataTab

/-- The active tab of the workspace, if there is one; its id is not the placeholder for none. -/
@[ext]
structure ActiveTab where
  id : Option String
  plain : ∀ tab ∈ id, ':' ∉ tab.toList ∧ tab ≠ "unassigned"

/-- What a Data tab shows: a topic, or one partition of it. -/
@[ext]
structure DataView where
  tab : ActiveTab
  connectionId : String
  topicName : String
  partitionId : Option ℤ
  plain : ':' ∉ connectionId.toList

/-- The key under which the view's rows are cached. -/
def DataView.key (view : DataView) : String :=
  dataTabCacheKey view.tab.id view.connectionId view.topicName view.partitionId

/-! ## Texts -/

/-- The last segment of a key. -/
def partitionText (partitionId : Option ℤ) : String := (partitionId.map toString).getD "all"

theorem toList_dataTabCacheKey (activeTabId : Option String) (connectionId topicName : String)
    (partitionId : Option ℤ) :
    (dataTabCacheKey activeTabId connectionId topicName partitionId).toList =
      (tabDataKey activeTabId).toList ++ ':' :: (connectionId.toList ++ ':' ::
        (topicName.toList ++ ':' :: (partitionText partitionId).toList)) := by
  simp [dataTabCacheKey, partitionText, toString]

theorem toList_tabDataPrefix (activeTabId : Option String) :
    (tabDataPrefix activeTabId).toList = (tabDataKey activeTabId).toList ++ [':'] := by
  simp [tabDataPrefix, toString]

theorem colon_notMem_tabDataKey (tab : ActiveTab) : ':' ∉ (tabDataKey tab.id).toList := by
  rcases tab with ⟨_ | id, plain⟩
  · show ':' ∉ "unassigned".toList
    decide
  · exact (plain id rfl).1

theorem tabDataKey_injective {tab tab' : ActiveTab} (h : tabDataKey tab.id = tabDataKey tab'.id) :
    tab = tab' := by
  rcases tab with ⟨_ | id, plain⟩ <;> rcases tab' with ⟨_ | id', plain'⟩
  · rfl
  · exact absurd h.symm (plain' id' rfl).2
  · exact absurd h (plain id rfl).2
  · cases (h : id = id')
    rfl

theorem isDigit_of_mem_repr {n : ℕ} {c : Char} (h : c ∈ n.repr.toList) : c.isDigit = true :=
  Digits.digital_toDigits n c (Nat.toList_repr ▸ h)

theorem mem_partitionText_some {n : ℤ} {c : Char} (h : c ∈ (partitionText (some n)).toList) :
    c = '-' ∨ c.isDigit = true := by
  change c ∈ n.repr.toList at h
  rw [Int.repr_eq_if] at h
  split_ifs at h
  · exact Or.inr (isDigit_of_mem_repr h)
  · rw [String.toList_append, List.mem_append] at h
    exact h.imp List.mem_singleton.mp isDigit_of_mem_repr

theorem colon_notMem_partitionText (partitionId : Option ℤ) :
    ':' ∉ (partitionText partitionId).toList := by
  cases partitionId with
  | none => decide
  | some n =>
    intro h
    rcases mem_partitionText_some h with h | h
    · exact absurd h (by decide)
    · exact absurd h (by decide)

theorem partitionText_some_ne (n : ℤ) : partitionText (some n) ≠ partitionText none := by
  intro h
  have hmem : 'a' ∈ (partitionText (some n)).toList := h ▸ by decide
  rcases mem_partitionText_some hmem with h | h
  · exact absurd h (by decide)
  · exact absurd h (by decide)

theorem sign_notMem_repr {n m : ℕ} : n.repr ≠ "-" ++ m.repr := by
  intro h
  have hmem : '-' ∈ n.repr.toList := by simp [h]
  exact absurd (isDigit_of_mem_repr hmem) (by decide)

theorem intRepr_injective {n m : ℤ} (h : n.repr = m.repr) : n = m := by
  rw [Int.repr_eq_if, Int.repr_eq_if] at h
  split_ifs at h with hn hm hm
  · have := Digits.repr_injective h
    omega
  · exact absurd h sign_notMem_repr
  · exact absurd h.symm sign_notMem_repr
  · rw [← String.toList_inj, String.toList_append, String.toList_append, List.append_cancel_left_eq,
      String.toList_inj] at h
    have := Digits.repr_injective h
    omega

theorem partitionText_injective : Function.Injective partitionText := by
  intro p p' h
  cases p with
  | none =>
    cases p' with
    | none => rfl
    | some n => exact absurd h.symm (partitionText_some_ne n)
  | some n =>
    cases p' with
    | none => exact absurd h (partitionText_some_ne n)
    | some m => exact congrArg some (intRepr_injective h)

/-! ## Keys -/

theorem append_cons_inj {α : Type*} {c : α} {a b r s : List α} (ha : c ∉ a) (hb : c ∉ b)
    (h : a ++ c :: r = b ++ c :: s) : a = b ∧ r = s := by
  induction a generalizing b with
  | nil =>
    cases b with
    | nil => exact ⟨rfl, (List.cons.inj h).2⟩
    | cons y b =>
      cases (List.cons.inj h).1
      exact absurd List.mem_cons_self hb
  | cons x a ih =>
    rw [List.mem_cons, not_or] at ha
    cases b with
    | nil => exact absurd (List.cons.inj h).1.symm ha.1
    | cons y b =>
      rw [List.mem_cons, not_or] at hb
      obtain ⟨rfl, hrest⟩ := List.cons.inj h
      obtain ⟨rfl, rfl⟩ := ih ha.2 hb.2 hrest
      exact ⟨rfl, rfl⟩

theorem append_cons_inj_last {α : Type*} {c : α} {a b r s : List α} (hr : c ∉ r) (hs : c ∉ s)
    (h : a ++ c :: r = b ++ c :: s) : a = b ∧ r = s := by
  have hreverse := congrArg List.reverse h
  simp only [List.reverse_append, List.reverse_cons, List.append_assoc, List.singleton_append]
    at hreverse
  obtain ⟨hrs, hab⟩ := append_cons_inj (by simpa using hr) (by simpa using hs) hreverse
  exact ⟨List.reverse_injective hab, List.reverse_injective hrs⟩

/-- **No two views share a key.** -/
theorem key_injective : Function.Injective DataView.key := by
  intro view view' h
  have h := congrArg String.toList h
  simp only [DataView.key, toList_dataTabCacheKey] at h
  obtain ⟨htab, h⟩ := append_cons_inj (colon_notMem_tabDataKey _) (colon_notMem_tabDataKey _) h
  obtain ⟨hconnection, h⟩ := append_cons_inj view.plain view'.plain h
  obtain ⟨htopic, hpartition⟩ :=
    append_cons_inj_last (colon_notMem_partitionText _) (colon_notMem_partitionText _) h
  apply DataView.ext
  · exact tabDataKey_injective (String.toList_inj.mp htab)
  · exact String.toList_inj.mp hconnection
  · exact String.toList_inj.mp htopic
  · exact partitionText_injective (String.toList_inj.mp hpartition)

theorem dataTabKeyBelongsTo_key (view : DataView) (connectionId : String) :
    dataTabKeyBelongsTo view.key connectionId = true ↔ view.connectionId = connectionId := by
  have hsplit : (view.key.toList.splitOn ':')[1]? = some view.connectionId.toList := by
    rw [DataView.key, toList_dataTabCacheKey,
      List.splitOn_append_cons_self_of_not_mem (colon_notMem_tabDataKey _),
      List.splitOn_append_cons_self_of_not_mem view.plain]
    rfl
  rw [dataTabKeyBelongsTo, decide_eq_true_iff, hsplit, Option.some.injEq, String.toList_inj]

theorem prefix_key_iff (view : DataView) (tab : ActiveTab) :
    (tabDataPrefix tab.id).toList.isPrefixOf view.key.toList = true ↔ view.tab = tab := by
  rw [List.isPrefixOf_iff_prefix, DataView.key, toList_dataTabCacheKey, toList_tabDataPrefix]
  constructor
  · rintro ⟨rest, h⟩
    rw [List.append_assoc] at h
    have htab := (append_cons_inj (colon_notMem_tabDataKey _) (colon_notMem_tabDataKey _) h).1
    exact (tabDataKey_injective (String.toList_inj.mp htab)).symm
  · rintro rfl
    exact ⟨_, List.append_assoc ..⟩

/-! ## Clearing -/

namespace TabDataState

/-- A state has nothing of a key. -/
structure Absent (state : TabDataState) (key : String) : Prop where
  messages : state.messagesByTab.get? key = none
  totalMatching : state.totalMatchingByTab.get? key = none
  fetchDuration : state.fetchDurationMsByTab.get? key = none
  payloadBytes : state.payloadBytesByTab.get? key = none
  lastUsed : state.lastUsedByTab.get? key = none
  evicted : state.evictedTabs.get? key = none

/-- The keys that satisfy `P` are gone from every record, and the others are as they were. -/
structure RemovesExactly (state final : TabDataState) (P : String → Prop) : Prop where
  gone : ∀ key, P key → final.Absent key
  kept : ∀ key, ¬ P key → state.SameView final key

/-- The states that the store comes to when its actions are called with the keys of views. -/
inductive Reached : TabDataState → Prop where
  | start : Reached {}
  | setTabMessages {state} (h : Reached state) (view : DataView) (messages : List TopicMessage)
    (now : ℕ) : Reached (state.setTabMessages view.key messages now)
  | setTabPayloadBytes {state} (h : Reached state) (view : DataView) (bytes : ℤ) :
    Reached (state.setTabPayloadBytes view.key bytes)
  | addTabPayloadBytes {state} (h : Reached state) (view : DataView) (bytes : ℤ) :
    Reached (state.addTabPayloadBytes view.key bytes)
  | setTabTotalMatching {state} (h : Reached state) (view : DataView) (totalMatching : ℕ) :
    Reached (state.setTabTotalMatching view.key totalMatching)
  | setTabFetchDurationMs {state} (h : Reached state) (view : DataView) (durationMs : ℕ) :
    Reached (state.setTabFetchDurationMs view.key durationMs)
  | appendTabMessage {state} (h : Reached state) (view : DataView) (message : TopicMessage) :
    Reached (state.appendTabMessage view.key message)
  | appendTabMessages {state} (h : Reached state) (view : DataView) (messages : List TopicMessage)
    (now : ℕ) : Reached (state.appendTabMessages view.key messages now)
  | clearTabMessages {state} (h : Reached state) (view : DataView) :
    Reached (state.clearTabMessages view.key)
  | clearAllMessagesForTab {state} (h : Reached state) (tab : ActiveTab) :
    Reached (state.clearAllMessagesForTab tab.id)
  | clearForConnection {state} (h : Reached state) (connectionId : String) :
    Reached (state.clearForConnection connectionId)
  | touchTab {state} (h : Reached state) (view : DataView) (now : ℕ) :
    Reached (state.touchTab view.key now)
  | evictToFit {state} (h : Reached state) (limitBytes : ℤ) (view : DataView) :
    Reached (state.evictToFit limitBytes view.key).1

variable {state final : TabDataState} {key tabId : String}

theorem Absent.of_same (h : state.Absent key) (hsame : state.SameView final key) :
    final.Absent key where
  messages := hsame.messages.trans h.messages
  totalMatching := hsame.totalMatching.trans h.totalMatching
  fetchDuration := hsame.fetchDuration.trans h.fetchDuration
  payloadBytes := hsame.payloadBytes.trans h.payloadBytes
  lastUsed := hsame.lastUsed.trans h.lastUsed
  evicted := hsame.evicted.trans h.evicted

theorem sameView_keep {p : String → Bool} (h : p key = true) : state.SameView (state.keep p) key := by
  constructor <;> exact (Record.get?_keep ..).trans (if_pos h)

theorem absent_keep {p : String → Bool} (h : p key = false) : (state.keep p).Absent key := by
  constructor <;> exact (Record.get?_keep ..).trans (if_neg (by simp [h]))

theorem sameView_clearTabMessages (h : key ≠ tabId) :
    state.SameView (state.clearTabMessages tabId) key := by
  constructor <;> exact Record.get?_erase_ne _ h

theorem Absent.keep (h : state.Absent key) (p : String → Bool) : (state.keep p).Absent key := by
  cases hp : p key with
  | true => exact h.of_same (sameView_keep hp)
  | false => exact absent_keep hp

/-- A view that loses its rows is marked: nothing else is put into the store by the eviction. -/
theorem Absent.evictToFit (h : state.Absent key) (limitBytes : ℤ) (tabId : String) :
    (state.evictToFit limitBytes tabId).1.Absent key := by
  refine evictLoop_induction (I := fun s => s.Absent key) (fun s coldest hcoldest hs => ?_) _ h
  refine hs.of_same (sameView_evict ?_)
  rintro rfl
  have hmem : key ∈ s.evictable tabId := List.mem_of_mem_head? hcoldest
  have hbytes := (mem_evictable.mp hmem).2
  rw [TabDataState.payloadBytes, hs.payloadBytes] at hbytes
  exact absurd hbytes (Int.lt_irrefl 0)

theorem Reached.absent (h : Reached state) (hkey : ∀ view, DataView.key view ≠ key) :
    state.Absent key := by
  have ne : ∀ view, key ≠ DataView.key view := fun view => (hkey view).symm
  induction h with
  | start => exact ⟨rfl, rfl, rfl, rfl, rfl, rfl⟩
  | setTabMessages _ view _ now ih =>
    exact ih.of_same ⟨Record.get?_set_ne _ (ne view) _, rfl, rfl, rfl,
      Record.get?_set_ne _ (ne view) now, rfl⟩
  | setTabPayloadBytes _ view _ ih | addTabPayloadBytes _ view _ ih =>
    exact ih.of_same ⟨rfl, rfl, rfl, Record.get?_set_ne _ (ne view) _, rfl, rfl⟩
  | setTabTotalMatching _ view _ ih =>
    exact ih.of_same ⟨rfl, Record.get?_set_ne _ (ne view) _, rfl, rfl, rfl, rfl⟩
  | setTabFetchDurationMs _ view _ ih =>
    exact ih.of_same ⟨rfl, rfl, Record.get?_set_ne _ (ne view) _, rfl, rfl, rfl⟩
  | appendTabMessage _ view _ ih =>
    exact ih.of_same ⟨Record.get?_set_ne _ (ne view) _, rfl, rfl, rfl, rfl, rfl⟩
  | appendTabMessages _ view _ now ih =>
    unfold TabDataState.appendTabMessages
    split_ifs
    · exact ih
    · exact ih.of_same ⟨Record.get?_set_ne _ (ne view) _, rfl, rfl, rfl,
        Record.get?_set_ne _ (ne view) now, rfl⟩
  | clearTabMessages _ view ih => exact ih.of_same (sameView_clearTabMessages (ne view))
  | clearAllMessagesForTab _ _ ih | clearForConnection _ _ ih => exact ih.keep _
  | touchTab _ view now ih =>
    exact ih.of_same ⟨rfl, rfl, rfl, rfl, Record.get?_set_ne _ (ne view) now, rfl⟩
  | evictToFit _ limitBytes view ih => exact ih.evictToFit limitBytes _

/-- A clearing that decides by the view removes the keys of the views that it decides against. -/
theorem removesExactly_keep (h : Reached state) {p : String → Bool} {P : DataView → Prop}
    (hp : ∀ view, p view.key = false ↔ P view) :
    state.RemovesExactly (state.keep p) fun key => ∃ view, P view ∧ view.key = key where
  gone := by
    rintro key ⟨view, hview, rfl⟩
    exact absent_keep ((hp view).mpr hview)
  kept := by
    intro key hkey
    by_cases hview : ∃ view, DataView.key view = key
    · obtain ⟨view, rfl⟩ := hview
      refine sameView_keep ?_
      rw [← Bool.not_eq_false, hp view]
      exact fun hP => hkey ⟨view, hP, rfl⟩
    · have habsent := h.absent fun view heq => hview ⟨view, heq⟩
      have hfinal := habsent.keep p
      exact ⟨hfinal.messages.trans habsent.messages.symm,
        hfinal.totalMatching.trans habsent.totalMatching.symm,
        hfinal.fetchDuration.trans habsent.fetchDuration.symm,
        hfinal.payloadBytes.trans habsent.payloadBytes.symm,
        hfinal.lastUsed.trans habsent.lastUsed.symm, hfinal.evicted.trans habsent.evicted.symm⟩

/-- **Views are kept apart.** No two views share a key. In every state that the store comes to, clearing a
connection removes exactly what was cached for views of it, and clearing a tab exactly what was cached for
views in it. -/
theorem views_apart :
    Function.Injective DataView.key ∧ ∀ state, Reached state →
      (∀ connectionId, state.RemovesExactly (state.clearForConnection connectionId) fun key =>
        ∃ view : DataView, view.connectionId = connectionId ∧ view.key = key) ∧
      ∀ tab : ActiveTab, state.RemovesExactly (state.clearAllMessagesForTab tab.id) fun key =>
        ∃ view : DataView, view.tab = tab ∧ view.key = key := by
  refine ⟨key_injective, fun state h => ⟨fun connectionId => ?_, fun tab => ?_⟩⟩
  · refine removesExactly_keep h fun view => ?_
    rw [Bool.not_eq_false', dataTabKeyBelongsTo_key]
  · refine removesExactly_keep h fun view => ?_
    rw [Bool.not_eq_false', prefix_key_iff]

/-- A tab with an id of its own. -/
def plainTab (id : String) (h : ':' ∉ id.toList ∧ id ≠ "unassigned") : ActiveTab :=
  ⟨some id, fun _ hid => Option.some.inj hid ▸ h⟩

/-- The tab of two of the views below. -/
def firstTab : ActiveTab := plainTab "tab-1" (by decide)

/-- The orders topic of one connection in the first tab, and a partition of it in the second. -/
def ordersView : DataView := ⟨firstTab, "c1", "orders:all", none, by decide⟩

/-- One partition of that topic, in the second tab. -/
def partitionView : DataView := ⟨plainTab "tab-2" (by decide), "c1", "orders:all", some 3, by decide⟩

/-- The topic of that name at another connection. -/
def stagingView : DataView := ⟨firstTab, "c2", "orders:all", none, by decide⟩

/-- A store with something of each of the three views. -/
def sameTopic : TabDataState :=
  (((({} : TabDataState).setTabPayloadBytes ordersView.key 5).setTabTotalMatching partitionView.key 8).setTabPayloadBytes
    stagingView.key 7).touchTab stagingView.key 1

theorem reached_sameTopic : Reached sameTopic :=
  .touchTab (.setTabPayloadBytes (.setTabTotalMatching (.setTabPayloadBytes .start ordersView 5) partitionView 8)
    stagingView 7) stagingView 1

theorem views_apart_cleared :
    (sameTopic.RemovesExactly (sameTopic.clearForConnection "c1") fun key =>
      ∃ view : DataView, view.connectionId = "c1" ∧ view.key = key) ∧
    (sameTopic.RemovesExactly (sameTopic.clearAllMessagesForTab (some "tab-1")) fun key =>
      ∃ view : DataView, view.tab = firstTab ∧ view.key = key) ∧
    (sameTopic.clearForConnection "c1").payloadBytesByTab.get? stagingView.key = some 7 ∧
    (sameTopic.clearAllMessagesForTab (some "tab-1")).totalMatchingByTab.get? partitionView.key = some 8 := by
  obtain ⟨hconnection, htab⟩ := views_apart.2 _ reached_sameTopic
  exact ⟨hconnection "c1", htab firstTab, by decide, by decide⟩

end TabDataState

end OffsetExplorer.DataTab
