import OffsetExplorer.Error
import OffsetExplorer.Lib.Machine
import Mathlib.Data.List.Nodup
import Mathlib.Data.List.Perm.Basic
import Mathlib.Data.Int.Notation

/-!
# The table of tabs

The bar keeps its tabs in a list, the database in rows with a position. Each call of the bar is begun, has
its effect on the table, and is answered; other calls come in between. At a launch the tabs are listed and, if
there are none, a first one is created; either may fail, and the bar can be used in the meantime.

* `create`, `rename`, `reorder`, `delete`, `Listed`: the table, and what the database may list of it.
* `Load`: how far `loadTabs` has come; `TabsState.step`: the bar, what is in flight and the table.
* `Kept`, `Loading`, `Sound`: what is answered is in the table and in the bar, once the tabs are loaded.
* **`table_has_bar`**: the table has the tabs of the bar, where no tab was added while the tabs were loaded.
-/

namespace OffsetExplorer.TabTable

open Machine

/-! ## The table -/

/-- A row of the table. -/
structure Tab where
  id : String
  name : String
  position : ℤ
  deriving DecidableEq

/-- What is seen of a tab. -/
def Tab.label (tab : Tab) : String × String := (tab.id, tab.name)

/-- `COALESCE(MAX(position), -1) + 1`. -/
def nextPosition (rows : List Tab) : ℤ := (rows.map Tab.position).max?.getD (-1) + 1

/-- The row that is inserted, under a fresh id. -/
def newTab (rows : List Tab) (id name : String) : Tab := { id, name, position := nextPosition rows }

/-- The new row has the next position. -/
def create (rows : List Tab) (id name : String) : List Tab := rows ++ [newTab rows id name]

/-- The error of a statement that finds no row. -/
def notFound (id : String) : Report := ⟨.notFound, [s!"tab {id} not found"]⟩

/-- The row of the id under a new name. -/
def setName (id name : String) (tab : Tab) : Tab := if tab.id = id then { tab with name } else tab

/-- A row that is not there is an error. -/
def rename (rows : List Tab) (id name : String) : Except Report (List Tab) :=
  if id ∈ rows.map Tab.id then .ok (rows.map (setName id name)) else .error (notFound id)

/-- The row of the id at a new position. -/
def setPosition (id : String) (position : ℤ) (tab : Tab) : Tab :=
  if tab.id = id then { tab with position } else tab

/-- Every id is given its place in the list as a position, from `position` on. -/
def reorderFrom (position : ℕ) (rows : List Tab) : List String → List Tab
  | [] => rows
  | id :: ids => reorderFrom (position + 1) (rows.map (setPosition id position)) ids

/-- The rows get their places in the list as positions. -/
def reorder (rows : List Tab) (ids : List String) : List Tab := reorderFrom 0 rows ids

/-- A row that is not there is an error. -/
def delete (rows : List Tab) (id : String) : Except Report (List Tab) :=
  if id ∈ rows.map Tab.id then .ok (rows.filter (·.id ≠ id)) else .error (notFound id)

/-- `SELECT … ORDER BY position ASC`, which leaves open what comes first of two in one position. -/
structure Listed (rows listed : List Tab) : Prop where
  perm : listed.Perm rows
  sorted : listed.Pairwise fun a b => a.position ≤ b.position

instance (rows listed : List Tab) : Decidable (Listed rows listed) :=
  decidable_of_iff (listed.Perm rows ∧ listed.Pairwise fun a b => a.position ≤ b.position)
    ⟨fun h => ⟨h.1, h.2⟩, fun h => ⟨h.perm, h.sorted⟩⟩

/-! ## The bar and its calls -/

/-- `draggedId` goes to where `overId` is. -/
def moveTab (tabs : List Tab) (draggedId overId : String) : List Tab :=
  if draggedId = overId then tabs
  else match tabs.findIdx? (·.id = draggedId), tabs.findIdx? (·.id = overId) with
    | some fromIndex, some toIndex =>
      match tabs[fromIndex]? with
      | some dragged => (tabs.eraseIdx fromIndex).insertIdx toIndex dragged
      | none => tabs
    | _, _ => tabs

/-- A call of the back end. A new order comes with the number of moves that it has in it. -/
inductive Call where
  | create (name : String)
  | rename (id name : String)
  | delete (id : String)
  | reorder (ids : List String) (moves : ℕ)
  deriving DecidableEq

/-- What comes back of a call. -/
inductive Answer where
  | created (tab : Tab)
  | renamed (id name : String)
  | deleted (id : String)
  | reordered
  /-- The tab was not found, or the database failed. -/
  | refused
  deriving DecidableEq

/-- What the bar does with an answer. -/
def settle (tabs : List Tab) : Answer → List Tab
  | .created tab => tabs ++ [tab]
  | .renamed id name => tabs.map (setName id name)
  | .deleted id => tabs.filter (·.id ≠ id)
  | .reordered => tabs
  | .refused => tabs

/-- How far `loadTabs` has come since the app was started. -/
inductive Load where
  | listing
  | listed (tabs : List Tab)
  /-- There are none, and the first is to be created. -/
  | creating
  | created (tab : Tab)
  /-- One of the two calls has failed, and the bar does not know. -/
  | refused
  | loaded
  /-- The bar shows an error in place of the tabs. -/
  | failed
  deriving DecidableEq

/-- `loadTabs` is not under way any more. -/
def Load.ended : Load → Bool
  | .loaded | .failed => true
  | _ => false

/-- The table, the bar, and what is in flight between them. -/
structure TabsState where
  rows : List Tab := []
  tabs : List Tab := []
  load : Load := .listing
  /-- The calls that have not reached the table. -/
  calls : List Call := []
  /-- What has been done to the table, and the bar does not know. -/
  answers : List Answer := []
  /-- How often a tab was moved since the launch, and how many of the moves are in the table. -/
  moves : ℕ := 0
  saved : ℕ := 0
  /-- Every id that has been given out. -/
  used : List String := []
  deriving DecidableEq

/-- What the launches, the bar, the database and the answers do. -/
inductive Event where
  /-- The app is started again, the back end with it: what was in flight is gone. -/
  | launch
  /-- The listing of `loadTabs` is made. -/
  | list (listed : List Tab)
  /-- The first tab is created, under the id. -/
  | createFirst (created : String)
  /-- The call that `loadTabs` waits for fails. -/
  | failLoad
  /-- What `loadTabs` waits for arrives. -/
  | answerLoad
  | addTab (name : String)
  | renameTab (id name : String)
  | deleteTab (id : String)
  | moveTab (draggedId overId : String)
  | commitTabOrder
  /-- A call takes effect; a new tab gets the id. -/
  | execute (call : ℕ) (created : String)
  /-- The database fails, and a transaction is rolled back. -/
  | fail (call : ℕ)
  | answer (answer : ℕ)

namespace TabsState

variable (s : TabsState)

/-- The table and the answer after a call. -/
def effect (created : String) : Call → TabsState × Answer
  | .create name =>
    ({ s with rows := TabTable.create s.rows created name, used := created :: s.used },
      .created (newTab s.rows created name))
  | .rename id name =>
    match TabTable.rename s.rows id name with
    | .ok rows => ({ s with rows }, .renamed id name)
    | .error _ => (s, .refused)
  | .delete id =>
    match TabTable.delete s.rows id with
    | .ok rows => ({ s with rows }, .deleted id)
    | .error _ => (s, .refused)
  | .reorder ids moves => ({ s with rows := TabTable.reorder s.rows ids, saved := moves }, .reordered)

/-- One step. What cannot happen is `none`. -/
def step : Event → Option TabsState
  | .launch => some { s with tabs := [], load := .listing, calls := [], answers := [], moves := 0, saved := 0 }
  | .list listed =>
    if s.load = .listing ∧ Listed s.rows listed then some { s with load := .listed listed } else none
  | .createFirst created =>
    if s.load = .creating ∧ created ∉ s.used then
      some { s with
        rows := TabTable.create s.rows created "Tab 1"
        load := .created (newTab s.rows created "Tab 1")
        used := created :: s.used }
    else none
  | .failLoad =>
    match s.load with
    | .listing | .creating => some { s with load := .refused }
    | _ => none
  | .answerLoad =>
    match s.load with
    | .listed [] => some { s with load := .creating }
    | .listed (tab :: tabs) => some { s with tabs := tab :: tabs, load := .loaded }
    | .created tab => some { s with tabs := [tab], load := .loaded }
    | .refused => some { s with load := .failed }
    | _ => none
  | .addTab name => some { s with calls := s.calls ++ [.create name] }
  | .renameTab id name =>
    if id ∈ s.tabs.map Tab.id then some { s with calls := s.calls ++ [.rename id name] } else none
  | .deleteTab id =>
    if id ∈ s.tabs.map Tab.id then some { s with calls := s.calls ++ [.delete id] } else none
  | .moveTab draggedId overId =>
    let tabs := TabTable.moveTab s.tabs draggedId overId
    some { s with tabs, moves := if tabs = s.tabs then s.moves else s.moves + 1 }
  | .commitTabOrder => some { s with calls := s.calls ++ [.reorder (s.tabs.map Tab.id) s.moves] }
  | .execute call created =>
    match s.calls[call]? with
    | some c =>
      if created ∈ s.used then none
      else
        let (t, a) := s.effect created c
        some { t with calls := s.calls.eraseIdx call, answers := s.answers ++ [a] }
    | none => none
  | .fail call =>
    if call < s.calls.length then
      some { s with calls := s.calls.eraseIdx call, answers := s.answers ++ [.refused] }
    else none
  | .answer answer =>
    match s.answers[answer]? with
    | some a => some { s with tabs := settle s.tabs a, answers := s.answers.eraseIdx answer }
    | none => none

end TabsState

/-- A launch that nothing comes in between of. A table without tabs gets a first. -/
def launched (listed : List Tab) (created : String) : List Event :=
  .launch :: .list listed :: .answerLoad :: if listed = [] then [.createFirst created, .answerLoad] else []

example : (run TabsState.step {} (launched [] "a" ++ [.addTab "b", .execute 0 "b", .answer 0, .moveTab "b" "a",
    .commitTabOrder, .execute 0 "c", .answer 0])).map (fun s => (s.rows.map Tab.position, s.tabs.map Tab.id)) =
      some ([1, 0], ["b", "a"]) := by decide +kernel

/-- A tab that is added while the tabs are listed can be lost from the bar. -/
example : (run TabsState.step {} [.list [], .answerLoad, .addTab "b", .createFirst "a", .execute 0 "b", .answer 0,
    .answerLoad]).map (fun s => (s.rows.map Tab.id, s.tabs.map Tab.id)) = some (["a", "b"], ["a"]) := by decide +kernel

/-! ## The ids of the table and of the bar -/

variable {rows tabs listed : List Tab} {id name : String} {answers : List Answer} {s t : TabsState}

@[simp] theorem map_id_setName (rows : List Tab) (id name : String) :
    (rows.map (setName id name)).map Tab.id = rows.map Tab.id := by
  rw [List.map_map]
  refine List.map_congr_left fun tab _ => ?_
  rw [Function.comp_apply, setName]
  split_ifs <;> rfl

@[simp] theorem map_id_setPosition (rows : List Tab) (id : String) (position : ℤ) :
    (rows.map (setPosition id position)).map Tab.id = rows.map Tab.id := by
  rw [List.map_map]
  refine List.map_congr_left fun tab _ => ?_
  rw [Function.comp_apply, setPosition]
  split_ifs <;> rfl

@[simp] theorem map_id_reorderFrom (position : ℕ) (rows : List Tab) (ids : List String) :
    (reorderFrom position rows ids).map Tab.id = rows.map Tab.id := by
  induction ids generalizing position rows with
  | nil => rfl
  | cons id ids ih => rw [reorderFrom, ih, map_id_setPosition]

@[simp] theorem map_id_reorder (rows : List Tab) (ids : List String) :
    (reorder rows ids).map Tab.id = rows.map Tab.id := map_id_reorderFrom 0 rows ids

@[simp] theorem map_id_create (rows : List Tab) (id name : String) :
    (create rows id name).map Tab.id = rows.map Tab.id ++ [id] := by
  rw [create, List.map_append]
  rfl

theorem mem_map_id_filter {x : String} :
    x ∈ (tabs.filter (·.id ≠ id)).map Tab.id ↔ x ∈ tabs.map Tab.id ∧ x ≠ id := by
  simp only [List.mem_map, List.mem_filter, decide_eq_true_eq]
  constructor
  · rintro ⟨tab, ⟨htab, hne⟩, rfl⟩
    exact ⟨⟨tab, htab, rfl⟩, hne⟩
  · rintro ⟨⟨tab, htab, rfl⟩, hne⟩
    exact ⟨tab, ⟨htab, hne⟩, rfl⟩

/-- **A move** changes the order and nothing else. -/
theorem moveTab_perm (tabs : List Tab) (draggedId overId : String) :
    (moveTab tabs draggedId overId).Perm tabs := by
  unfold moveTab
  split_ifs
  · exact List.Perm.refl _
  split
  · rename_i fromIndex toIndex hfrom hto
    split
    · rename_i dragged hdragged
      obtain ⟨hlt, rfl⟩ := List.getElem?_eq_some_iff.mp hdragged
      have hto' := (List.findIdx?_eq_some_iff_getElem.mp hto).1
      have hlength : (tabs.eraseIdx fromIndex).length = tabs.length - 1 := List.length_eraseIdx_of_lt hlt
      exact (List.perm_insertIdx _ _ (by omega)).trans (List.getElem_cons_eraseIdx_perm hlt)
    · exact List.Perm.refl _
  · exact List.Perm.refl _

theorem exists_split {α : Type} {l : List α} {i : ℕ} {a : α} (h : l[i]? = some a) :
    ∃ front back, l = front ++ a :: back ∧ l.eraseIdx i = front ++ back := by
  obtain ⟨hlt, rfl⟩ := List.getElem?_eq_some_iff.mp h
  refine ⟨l.take i, l.drop (i + 1), ?_, List.eraseIdx_eq_take_drop_succ l i⟩
  rw [← List.drop_eq_getElem_cons, List.take_append_drop]

/-! ## What is answered is in the table and in the bar -/

/-- The tab that an answer brings. -/
def Answer.createdId : Answer → Option String
  | .created tab => some tab.id
  | _ => none

/-- The tab that an answer takes away. -/
def Answer.deletedId : Answer → Option String
  | .deleted id => some id
  | _ => none

/-- The tabs that were created, and the bar does not know. -/
def createdIds (answers : List Answer) : List String := answers.filterMap Answer.createdId

/-- The tabs that were deleted, and the bar still has. -/
def deletedIds (answers : List Answer) : List String := answers.filterMap Answer.deletedId

/-- A tab is in the table if it is in the bar or was created for it, and was not deleted. -/
structure Kept (s : TabsState) : Prop where
  rows : (s.rows.map Tab.id).Nodup
  tabs : (s.tabs.map Tab.id ++ createdIds s.answers).Nodup
  mem : ∀ id, id ∈ s.rows.map Tab.id ↔
    (id ∈ s.tabs.map Tab.id ∨ id ∈ createdIds s.answers) ∧ id ∉ deletedIds s.answers
  deleting : ∀ id, .delete id ∈ s.calls ∨ id ∈ deletedIds s.answers →
    id ∉ createdIds s.answers ∧ id ∈ s.used
  used : ∀ id, id ∈ s.tabs.map Tab.id ∨ id ∈ createdIds s.answers → id ∈ s.used

theorem Kept.rows_used (h : Kept s) (hid : id ∈ s.rows.map Tab.id) : id ∈ s.used :=
  h.used id ((h.mem id).mp hid).1

theorem Kept.of_ids (h : Kept s) (hrows : t.rows.map Tab.id = s.rows.map Tab.id)
    (htabs : (t.tabs.map Tab.id).Perm (s.tabs.map Tab.id))
    (hcreated : createdIds t.answers = createdIds s.answers)
    (hdeleted : deletedIds t.answers = deletedIds s.answers)
    (hcalls : ∀ id, .delete id ∈ t.calls → .delete id ∈ s.calls ∨ id ∈ s.tabs.map Tab.id)
    (hused : t.used = s.used) : Kept t where
  rows := hrows ▸ h.rows
  tabs := by
    rw [hcreated]
    exact (htabs.append_right _).nodup_iff.mpr h.tabs
  mem := fun id => by rw [hrows, hcreated, hdeleted, htabs.mem_iff, h.mem]
  deleting := by
    intro id hid
    rw [hcreated, hused]
    rw [hdeleted] at hid
    rcases hid with hcall | hanswer
    · rcases hcalls id hcall with hold | htab
      · exact h.deleting id (Or.inl hold)
      · exact ⟨fun hnew => (List.nodup_append.mp h.tabs).2.2 id htab id hnew rfl, h.used id (Or.inl htab)⟩
    · exact h.deleting id (Or.inr hanswer)
  used := fun id hid => by
    rw [htabs.mem_iff, hcreated] at hid
    exact hused ▸ h.used id hid

theorem createdIds_append (answers more : List Answer) :
    createdIds (answers ++ more) = createdIds answers ++ createdIds more := List.filterMap_append

theorem deletedIds_append (answers more : List Answer) :
    deletedIds (answers ++ more) = deletedIds answers ++ deletedIds more := List.filterMap_append

/-- An answer that gives out no id and takes none away changes none of the lists. -/
theorem ids_of_neutral {a : Answer} (hcreated : a.createdId = none) (hdeleted : a.deletedId = none)
    (front back : List Answer) : createdIds (front ++ a :: back) = createdIds (front ++ back) ∧
      deletedIds (front ++ a :: back) = deletedIds (front ++ back) := by
  simp only [createdIds, deletedIds, List.filterMap_append, List.filterMap_cons_none hcreated,
    List.filterMap_cons_none hdeleted, and_self]

/-- **A tab is created.** -/
theorem Kept.created (h : Kept s) (hfresh : id ∉ s.used) (hrows : t.rows.map Tab.id = s.rows.map Tab.id ++ [id])
    (htabs : t.tabs = s.tabs) (hcalls : ∀ x, .delete x ∈ t.calls → .delete x ∈ s.calls)
    (hcreated : createdIds t.answers = createdIds s.answers ++ [id])
    (hdeleted : deletedIds t.answers = deletedIds s.answers) (hused : t.used = id :: s.used) : Kept t where
  rows := by
    rw [hrows, List.nodup_append]
    refine ⟨h.rows, List.nodup_singleton id, fun x hx y hy => ?_⟩
    rw [List.mem_singleton.mp hy]
    exact fun heq => hfresh (heq ▸ h.rows_used hx)
  tabs := by
    rw [htabs, hcreated, ← List.append_assoc, List.nodup_append]
    refine ⟨h.tabs, List.nodup_singleton id, fun x hx y hy => ?_⟩
    rw [List.mem_singleton.mp hy]
    exact fun heq => hfresh (heq ▸ h.used x (List.mem_append.mp hx))
  mem := by
    intro x
    rw [hrows, htabs, hcreated, hdeleted, List.mem_append, List.mem_append, List.mem_singleton, h.mem, ← or_assoc]
    have hnew : x = id → x ∉ deletedIds s.answers := fun heq hx => hfresh (heq ▸ (h.deleting x (Or.inr hx)).2)
    tauto
  deleting := by
    intro x hx
    rw [hdeleted] at hx
    obtain ⟨hold, hmem⟩ := h.deleting x (hx.imp_left (hcalls x))
    rw [hcreated, hused, List.mem_append, List.mem_singleton]
    refine ⟨?_, List.mem_cons_of_mem id hmem⟩
    rintro (hcr | rfl)
    · exact hold hcr
    · exact hfresh hmem
  used := by
    intro x hx
    rw [htabs, hcreated, List.mem_append, List.mem_singleton, ← or_assoc] at hx
    rw [hused]
    rcases hx with hx | rfl
    · exact List.mem_cons_of_mem id (h.used x hx)
    · exact List.mem_cons_self

/-- **An answer arrives** and is settled in the bar. -/
theorem Kept.answered (h : Kept s) {front back : List Answer} {a : Answer} (hanswers : s.answers = front ++ a :: back) :
    Kept { s with tabs := settle s.tabs a, answers := front ++ back } := by
  cases a with
  | created tab =>
    have hids : createdIds s.answers = createdIds front ++ tab.id :: createdIds back := by
      rw [hanswers, createdIds_append]
      rfl
    have hrest : createdIds (front ++ back) = createdIds front ++ createdIds back := createdIds_append front back
    have hdeleted : deletedIds s.answers = deletedIds (front ++ back) := by
      rw [hanswers, deletedIds_append, deletedIds_append]
      rfl
    have hperm : ((s.tabs ++ [tab]).map Tab.id ++ createdIds (front ++ back)).Perm
        (s.tabs.map Tab.id ++ createdIds s.answers) := by
      rw [List.map_append, List.append_assoc, hids, hrest]
      show (s.tabs.map Tab.id ++ (tab.id :: (createdIds front ++ createdIds back))).Perm _
      exact List.Perm.append_left _ List.perm_middle.symm
    have hmem : ∀ x, x ∈ (s.tabs ++ [tab]).map Tab.id ∨ x ∈ createdIds (front ++ back) ↔
        x ∈ s.tabs.map Tab.id ∨ x ∈ createdIds s.answers := fun x => by
      rw [← List.mem_append, hperm.mem_iff, List.mem_append]
    refine ⟨h.rows, hperm.nodup_iff.mpr h.tabs, fun x => ?_, fun x hx => ?_, fun x hx => h.used x ((hmem x).mp hx)⟩
    · show x ∈ s.rows.map Tab.id ↔ (x ∈ (s.tabs ++ [tab]).map Tab.id ∨ _) ∧ _
      rw [hmem, h.mem, hdeleted]
    · obtain ⟨hnew, hused⟩ := h.deleting x (hdeleted ▸ hx)
      rw [hids] at hnew
      refine ⟨fun hx' => hnew ?_, hused⟩
      rw [hrest, List.mem_append] at hx'
      exact List.mem_append.mpr (hx'.imp_right (List.mem_cons_of_mem _))
  | deleted id =>
    have hcreated : createdIds s.answers = createdIds (front ++ back) := by
      rw [hanswers, createdIds_append, createdIds_append]
      rfl
    have hdeleted : ∀ x, x ∈ deletedIds s.answers ↔ x = id ∨ x ∈ deletedIds (front ++ back) := fun x => by
      have hids : deletedIds s.answers = deletedIds front ++ id :: deletedIds back := by
        rw [hanswers, deletedIds_append]
        rfl
      rw [hids, deletedIds_append, List.mem_append, List.mem_cons, List.mem_append]
      tauto
    have hgone : id ∉ createdIds (front ++ back) :=
      hcreated ▸ (h.deleting id (Or.inr ((hdeleted id).mpr (Or.inl rfl)))).1
    refine ⟨h.rows, ?_, fun x => ?_, fun x hx => ?_, fun x hx => ?_⟩
    · refine List.Nodup.sublist ?_ h.tabs
      rw [hcreated]
      exact (List.filter_sublist.map _).append_right _
    · show x ∈ s.rows.map Tab.id ↔ (x ∈ (s.tabs.filter (·.id ≠ id)).map Tab.id ∨ _) ∧ _
      rw [mem_map_id_filter, h.mem, hdeleted, hcreated]
      have hne : x = id → x ∉ createdIds (front ++ back) := fun heq => heq ▸ hgone
      tauto
    · rw [← hcreated]
      exact h.deleting x (hx.imp_right fun hx => (hdeleted x).mpr (Or.inr hx))
    · refine h.used x ?_
      rw [hcreated]
      exact hx.imp_left fun hx => (mem_map_id_filter.mp hx).1
  | renamed id name =>
    obtain ⟨hcreated, hdeleted⟩ := ids_of_neutral (a := .renamed id name) rfl rfl front back
    refine h.of_ids rfl (List.Perm.of_eq (map_id_setName s.tabs id name)) ?_ ?_ (fun x hx => Or.inl hx) rfl
    · rw [hanswers, hcreated]
    · rw [hanswers, hdeleted]
  | reordered =>
    obtain ⟨hcreated, hdeleted⟩ := ids_of_neutral (a := .reordered) rfl rfl front back
    refine h.of_ids rfl (List.Perm.refl _) ?_ ?_ (fun x hx => Or.inl hx) rfl
    · rw [hanswers, hcreated]
    · rw [hanswers, hdeleted]
  | refused =>
    obtain ⟨hcreated, hdeleted⟩ := ids_of_neutral (a := .refused) rfl rfl front back
    refine h.of_ids rfl (List.Perm.refl _) ?_ ?_ (fun x hx => Or.inl hx) rfl
    · rw [hanswers, hcreated]
    · rw [hanswers, hdeleted]

/-- **A call takes effect.** -/
theorem Kept.executed (h : Kept s) {call : ℕ} {c : Call} {created : String} (hcall : s.calls[call]? = some c)
    (hfresh : created ∉ s.used) : Kept { (s.effect created c).1 with
      calls := s.calls.eraseIdx call
      answers := s.answers ++ [(s.effect created c).2] } := by
  have hcalls : ∀ x, .delete x ∈ s.calls.eraseIdx call → .delete x ∈ s.calls := fun x hx =>
    List.mem_of_mem_eraseIdx hx
  -- an answer that gives out no id, with a table of the same ids
  have hneutral : ∀ (rows : List Tab) (saved : ℕ) (a : Answer), rows.map Tab.id = s.rows.map Tab.id →
      a.createdId = none → a.deletedId = none → Kept { s with
        rows, saved, calls := s.calls.eraseIdx call, answers := s.answers ++ [a] } := by
    intro rows saved a hrows hcreated hdeleted
    obtain ⟨hc, hd⟩ := ids_of_neutral hcreated hdeleted s.answers []
    rw [List.append_nil] at hc hd
    exact h.of_ids hrows (List.Perm.refl _) hc hd (fun x hx => Or.inl (hcalls x hx)) rfl
  cases c with
  | create name =>
    refine h.created hfresh (map_id_create _ _ _) rfl hcalls ?_ ?_ rfl
    · exact createdIds_append _ _
    · show deletedIds (s.answers ++ [_]) = _
      rw [deletedIds_append]
      exact List.append_nil _
  | rename id name =>
    by_cases hid : id ∈ s.rows.map Tab.id
    · simp only [TabsState.effect, TabTable.rename, if_pos hid]
      exact hneutral _ s.saved _ (map_id_setName _ _ _) rfl rfl
    · simp only [TabsState.effect, TabTable.rename, if_neg hid]
      exact hneutral s.rows s.saved .refused rfl rfl rfl
  | reorder ids moves => exact hneutral _ moves .reordered (map_id_reorder _ _) rfl rfl
  | delete id =>
    by_cases hid : id ∈ s.rows.map Tab.id
    · simp only [TabsState.effect, TabTable.delete, if_pos hid]
      have hcreated : createdIds (s.answers ++ [.deleted id]) = createdIds s.answers := by
        rw [createdIds_append]
        exact List.append_nil _
      have hdeleted : ∀ x, x ∈ deletedIds (s.answers ++ [.deleted id]) ↔ x ∈ deletedIds s.answers ∨ x = id :=
        fun x => by
          rw [deletedIds_append, List.mem_append]
          exact or_congr_right List.mem_singleton
      refine ⟨?_, ?_, fun x => ?_, fun x hx => ?_, fun x hx => ?_⟩
      · exact h.rows.sublist (List.filter_sublist.map _)
      · exact hcreated.symm ▸ h.tabs
      · show x ∈ (s.rows.filter (·.id ≠ id)).map Tab.id ↔ (_ ∨ x ∈ createdIds _) ∧ x ∉ deletedIds _
        rw [mem_map_id_filter, h.mem, hcreated, hdeleted]
        tauto
      · show x ∉ createdIds _ ∧ _
        rw [hcreated]
        rw [hdeleted] at hx
        rcases hx with hx | hx | rfl
        · exact h.deleting x (Or.inl (hcalls x hx))
        · exact h.deleting x (Or.inr hx)
        · exact h.deleting x (Or.inl (List.mem_of_getElem? hcall))
      · rw [hcreated] at hx
        exact h.used x hx
    · simp only [TabsState.effect, TabTable.delete, if_neg hid]
      exact hneutral s.rows s.saved .refused rfl rfl rfl

/-! ## Before the tabs are loaded -/

/-- Every row has an id of its own, and one that was given out. -/
structure Given (rows : List Tab) (used : List String) : Prop where
  nodup : (rows.map Tab.id).Nodup
  mem_used : ∀ id ∈ rows.map Tab.id, id ∈ used

variable {rows' : List Tab} {used : List String}

theorem Given.of_ids (h : Given rows used) (hrows : (rows'.map Tab.id).Sublist (rows.map Tab.id)) :
    Given rows' used where
  nodup := h.nodup.sublist hrows
  mem_used := fun id hid => h.mem_used id (hrows.subset hid)

theorem Given.create (h : Given rows used) (hfresh : id ∉ used) (name : String) :
    Given (create rows id name) (id :: used) where
  nodup := by
    rw [map_id_create, List.nodup_append]
    refine ⟨h.nodup, List.nodup_singleton id, fun x hx y hy => ?_⟩
    rw [List.mem_singleton.mp hy]
    exact fun heq => hfresh (heq ▸ h.mem_used x hx)
  mem_used := by
    intro x hx
    rw [map_id_create, List.mem_append, List.mem_singleton] at hx
    rcases hx with hx | rfl
    · exact List.mem_cons_of_mem id (h.mem_used x hx)
    · exact List.mem_cons_self

theorem sublist_of_eq {α : Type} {l l' : List α} (h : l = l') : l.Sublist l' := h ▸ List.Sublist.refl l

theorem Given.effect (h : Given s.rows s.used) {created : String} (hfresh : created ∉ s.used) (c : Call) :
    Given (s.effect created c).1.rows (s.effect created c).1.used := by
  cases c with
  | create name => exact h.create hfresh name
  | rename id name =>
    by_cases hid : id ∈ s.rows.map Tab.id
    · simp only [TabsState.effect, TabTable.rename, if_pos hid]
      exact h.of_ids (sublist_of_eq (map_id_setName s.rows id name))
    · simp only [TabsState.effect, TabTable.rename, if_neg hid]
      exact h
  | delete id =>
    by_cases hid : id ∈ s.rows.map Tab.id
    · simp only [TabsState.effect, TabTable.delete, if_pos hid]
      exact h.of_ids (List.filter_sublist.map _)
    · simp only [TabsState.effect, TabTable.delete, if_neg hid]
      exact h
  | reorder ids moves => exact h.of_ids (sublist_of_eq (map_id_reorder s.rows ids))

theorem load_effect (s : TabsState) (created : String) (c : Call) : (s.effect created c).1.load = s.load := by
  cases c <;> simp only [TabsState.effect]
  all_goals split <;> rfl

/-- While the tabs are loaded the bar has none, and nothing is in flight but orders of no tabs. -/
structure Loading (s : TabsState) : Prop where
  tabs : s.tabs = []
  calls : ∀ c ∈ s.calls, ∃ moves, c = .reorder [] moves
  answers : ∀ a ∈ s.answers, a = .reordered ∨ a = .refused
  listed : ∀ tabs, s.load = .listed tabs → Listed s.rows tabs
  creating : s.load = .creating → s.rows = []
  created : ∀ tab, s.load = .created tab → s.rows = [tab]

/-- No tab is added while the tabs are loaded. -/
def Unhurried (s : TabsState) : Event → Prop
  | .addTab _ => s.load.ended = true
  | _ => True

instance (s : TabsState) (e : Event) : Decidable (Unhurried s e) := by
  unfold Unhurried
  split <;> infer_instance

theorem loading_launch (s : TabsState) :
    Loading { s with tabs := [], load := .listing, calls := [], answers := [], moves := 0, saved := 0 } where
  tabs := rfl
  calls := fun _ h => absurd h List.not_mem_nil
  answers := fun _ h => absurd h List.not_mem_nil
  listed := nofun
  creating := nofun
  created := nofun

theorem Loading.advance (h : Loading s) {load : Load} {rows : List Tab} {used : List String}
    (hlisted : ∀ tabs, load = .listed tabs → Listed rows tabs) (hcreating : load = .creating → rows = [])
    (hcreated : ∀ tab, load = .created tab → rows = [tab]) : Loading { s with rows, load, used } where
  tabs := h.tabs
  calls := h.calls
  answers := h.answers
  listed := hlisted
  creating := hcreating
  created := hcreated

theorem Loading.of_calls (h : Loading s) (hrows : t.rows = s.rows) (htabs : t.tabs = s.tabs) (hload : t.load = s.load)
    (hcalls : ∀ c ∈ t.calls, ∃ moves, c = .reorder [] moves)
    (hanswers : ∀ a ∈ t.answers, a = .reordered ∨ a = .refused) : Loading t where
  tabs := htabs.trans h.tabs
  calls := hcalls
  answers := hanswers
  listed := by
    rw [hload, hrows]
    exact h.listed
  creating := by
    rw [hload, hrows]
    exact h.creating
  created := by
    rw [hload, hrows]
    exact h.created

/-- **A call is answered** while the tabs are loaded. -/
theorem Loading.answered (h : Loading s) (call : ℕ) {a : Answer} {saved : ℕ} (ha : a = .reordered ∨ a = .refused) :
    Loading { s with calls := s.calls.eraseIdx call, answers := s.answers ++ [a], saved } := by
  refine h.of_calls rfl rfl rfl (fun c hc => h.calls c (List.mem_of_mem_eraseIdx hc)) fun b hb => ?_
  rcases List.mem_append.mp hb with hb | hb
  · exact h.answers b hb
  · rw [List.mem_singleton.mp hb]
    exact ha

/-- **The tabs are loaded**: they are those of the table. -/
theorem Loading.kept (h : Loading s) (hgiven : Given s.rows s.used) (hperm : listed.Perm s.rows) :
    Kept { s with tabs := listed, load := .loaded } := by
  have hcreated : createdIds s.answers = [] := by
    rw [createdIds, List.filterMap_eq_nil_iff]
    intro a ha
    rcases h.answers a ha with rfl | rfl <;> rfl
  have hdeleted : deletedIds s.answers = [] := by
    rw [deletedIds, List.filterMap_eq_nil_iff]
    intro a ha
    rcases h.answers a ha with rfl | rfl <;> rfl
  have hids : (listed.map Tab.id).Perm (s.rows.map Tab.id) := hperm.map Tab.id
  refine ⟨hgiven.nodup, ?_, fun id => ?_, fun id hid => ?_, fun id hid => ?_⟩
  · rw [hcreated, List.append_nil]
    exact hids.nodup_iff.mpr hgiven.nodup
  · rw [hcreated, hdeleted, hids.mem_iff]
    simp
  · rw [hdeleted] at hid
    rcases hid with hcall | hanswer
    · obtain ⟨moves, hmoves⟩ := h.calls _ hcall
      cases hmoves
    · cases hanswer
  · rw [hcreated, hids.mem_iff] at hid
    rcases hid with hrow | hanswer
    · exact hgiven.mem_used id hrow
    · cases hanswer

/-! ## Runs -/

/-- The ids of the table are in order, nothing can go wrong while the tabs are loaded, and from then on the table
has what is in the bar. -/
structure Sound (s : TabsState) : Prop where
  given : Given s.rows s.used
  loading : s.load.ended = false → Loading s
  loaded : s.load = .loaded → Kept s

theorem sound_start : Sound {} where
  given := ⟨List.nodup_nil, fun _ h => absurd h List.not_mem_nil⟩
  loading := fun _ => loading_launch {}
  loaded := nofun

theorem sound_of_loading (hgiven : Given s.rows s.used) (hload : s.load ≠ .loaded) (h : Loading s) : Sound s :=
  ⟨hgiven, fun _ => h, fun hloaded => absurd hloaded hload⟩

theorem sound_of_loaded (hgiven : Given s.rows s.used) (hload : s.load = .loaded) (h : Kept s) : Sound s where
  given := hgiven
  loading := by
    rw [hload]
    exact nofun
  loaded := fun _ => h

/-- **A step of `loadTabs`.** -/
theorem Sound.answeredLoad (h : Sound s) (hstep : s.step .answerLoad = some t) : Sound t := by
  simp only [TabsState.step] at hstep
  split at hstep
  · rename_i hload
    have hloading := h.loading (by rw [hload]; rfl)
    have hrows : s.rows = [] := List.nil_perm.mp (hloading.listed [] hload).perm
    cases hstep
    exact sound_of_loading h.given nofun (hloading.advance nofun (fun _ => hrows) nofun)
  · rename_i tab tabs hload
    have hloading := h.loading (by rw [hload]; rfl)
    cases hstep
    exact sound_of_loaded h.given rfl (hloading.kept h.given (hloading.listed _ hload).perm)
  · rename_i tab hload
    have hloading := h.loading (by rw [hload]; rfl)
    cases hstep
    exact sound_of_loaded h.given rfl (hloading.kept h.given (List.Perm.of_eq (hloading.created _ hload).symm))
  · cases hstep
    exact ⟨h.given, nofun, nofun⟩
  · cases hstep

/-- **A step keeps this up.** -/
theorem Sound.step {e : Event} (h : Sound s) (hunhurried : Unhurried s e) (hstep : s.step e = some t) : Sound t := by
  -- a call that deletes nothing is begun by a bar that has its tabs
  have hbegun : ∀ call : Call, (∀ x, .delete x = call → x ∈ s.tabs.map Tab.id) →
      Kept s → Kept { s with calls := s.calls ++ [call] } := fun call hcall hkept =>
    hkept.of_ids rfl (List.Perm.refl _) rfl rfl (fun x hx => (List.mem_append.mp hx).imp_right fun hx =>
      hcall x (List.mem_singleton.mp hx)) rfl
  -- a bar that is loading has no tab to rename or to delete
  have hempty : ∀ {id : String} {P : Prop}, id ∈ s.tabs.map Tab.id → s.load.ended = false → P := fun hid hload => by
    rw [(h.loading hload).tabs] at hid
    cases hid
  cases e with
  | launch =>
    cases hstep
    exact sound_of_loading h.given nofun (loading_launch s)
  | list listed =>
    simp only [TabsState.step] at hstep
    split_ifs at hstep with hguard
    cases hstep
    have hloading := h.loading (by rw [hguard.1]; rfl)
    refine sound_of_loading h.given nofun (hloading.advance (fun tabs htabs => ?_) nofun nofun)
    cases htabs
    exact hguard.2
  | createFirst created =>
    simp only [TabsState.step] at hstep
    split_ifs at hstep with hguard
    cases hstep
    have hloading := h.loading (by rw [hguard.1]; rfl)
    refine sound_of_loading (h.given.create hguard.2 _) nofun (hloading.advance nofun nofun fun tab htab => ?_)
    cases htab
    rw [create, hloading.creating hguard.1, List.nil_append]
  | failLoad =>
    simp only [TabsState.step] at hstep
    split at hstep
    case h_3 => cases hstep
    all_goals
      rename_i hload
      have hloading := h.loading (by rw [hload]; rfl)
      cases hstep
      exact sound_of_loading h.given nofun (hloading.advance nofun nofun nofun)
  | answerLoad => exact h.answeredLoad hstep
  | addTab name =>
    cases hstep
    refine ⟨h.given, fun hload => ?_, fun hload => hbegun _ (fun x hx => by cases hx) (h.loaded hload)⟩
    exact absurd (hunhurried.symm.trans hload) (Ne.symm Bool.false_ne_true)
  | renameTab id name =>
    simp only [TabsState.step] at hstep
    split_ifs at hstep with hid
    cases hstep
    exact ⟨h.given, hempty hid, fun hload => hbegun _ (fun x hx => by cases hx) (h.loaded hload)⟩
  | deleteTab id =>
    simp only [TabsState.step] at hstep
    split_ifs at hstep with hid
    cases hstep
    exact ⟨h.given, hempty hid, fun hload => hbegun _ (fun x hx => by cases hx; exact hid) (h.loaded hload)⟩
  | moveTab draggedId overId =>
    cases hstep
    have hperm := moveTab_perm s.tabs draggedId overId
    refine ⟨h.given, fun hload => ?_, fun hload => ?_⟩
    · have hloading := h.loading hload
      have htabs : moveTab s.tabs draggedId overId = s.tabs := by
        rw [hloading.tabs] at hperm ⊢
        exact List.perm_nil.mp hperm
      exact hloading.of_calls rfl htabs rfl hloading.calls hloading.answers
    · exact (h.loaded hload).of_ids rfl (hperm.map Tab.id) rfl rfl (fun x hx => Or.inl hx) rfl
  | commitTabOrder =>
    cases hstep
    refine ⟨h.given, fun hload => ?_, fun hload => hbegun _ (fun x hx => by cases hx) (h.loaded hload)⟩
    have hloading := h.loading hload
    refine hloading.of_calls rfl rfl rfl (fun c hc => ?_) hloading.answers
    rcases List.mem_append.mp hc with hc | hc
    · exact hloading.calls c hc
    · refine ⟨s.moves, ?_⟩
      rw [List.mem_singleton.mp hc, hloading.tabs]
      rfl
  | execute call created =>
    simp only [TabsState.step] at hstep
    split at hstep
    · rename_i c hcall
      split_ifs at hstep with hfresh
      cases hstep
      have hgiven := h.given.effect hfresh c
      refine ⟨hgiven, fun hload => ?_, fun hload => ?_⟩
      · have hloading := h.loading ((load_effect s created c) ▸ hload)
        obtain ⟨moves, rfl⟩ := hloading.calls c (List.mem_of_getElem? hcall)
        exact hloading.answered call (Or.inl rfl)
      · exact (h.loaded ((load_effect s created c) ▸ hload)).executed hcall hfresh
    · cases hstep
  | fail call =>
    simp only [TabsState.step] at hstep
    split_ifs at hstep
    cases hstep
    refine ⟨h.given, fun hload => ?_, fun hload => ?_⟩
    · exact (h.loading hload).answered call (Or.inr rfl)
    · obtain ⟨hcreated, hdeleted⟩ := ids_of_neutral (a := .refused) rfl rfl s.answers []
      rw [List.append_nil] at hcreated hdeleted
      exact (h.loaded hload).of_ids rfl (List.Perm.refl _) hcreated hdeleted
        (fun x hx => Or.inl (List.mem_of_mem_eraseIdx hx)) rfl
  | answer answer =>
    simp only [TabsState.step] at hstep
    split at hstep
    · rename_i a ha
      cases hstep
      refine ⟨h.given, fun hload => ?_, fun hload => ?_⟩
      · have hloading := h.loading hload
        have htabs : settle s.tabs a = s.tabs := by
          rcases hloading.answers a (List.mem_of_getElem? ha) with rfl | rfl <;> rfl
        exact hloading.of_calls rfl htabs rfl hloading.calls fun a ha => hloading.answers a (List.mem_of_mem_eraseIdx ha)
      · obtain ⟨front, back, hanswers, herase⟩ := exists_split ha
        rw [herase]
        exact (h.loaded hload).answered hanswers
    · cases hstep

theorem sound_run {es : List Event} (hunhurried : AllSteps TabsState.step Unhurried {} es)
    (h : run TabsState.step {} es = some s) : Sound s :=
  run_induction (fun _ _ _ hC hI hstep => hI.step hC hstep) hunhurried sound_start h

theorem load_of_launched {created : String} (h : run TabsState.step s (launched listed created) = some t) :
    Listed s.rows listed ∧ t.load = .loaded ∧
      t.tabs = if listed = [] then [newTab s.rows created "Tab 1"] else listed := by
  obtain ⟨u, hu, h⟩ := run_cons_some _ h
  cases hu
  obtain ⟨v, hv, h⟩ := run_cons_some _ h
  simp only [TabsState.step, true_and] at hv
  split_ifs at hv with hlisted
  cases hv
  obtain ⟨w, hw, h⟩ := run_cons_some _ h
  cases listed with
  | nil =>
    cases hw
    obtain ⟨x, hx, h⟩ := run_cons_some _ h
    simp only [TabsState.step, true_and] at hx
    split_ifs at hx
    cases hx
    cases h
    exact ⟨hlisted, rfl, (if_pos rfl).symm⟩
  | cons tab tabs =>
    cases hw
    cases h
    exact ⟨hlisted, rfl, (if_neg (List.cons_ne_nil tab tabs)).symm⟩

/-- **The table has the bar.** However the calls of the bar, their effects and their answers come one after
another, and whichever of them fail, where no tab is added while the tabs are loaded: once they are loaded and
every answer has arrived, the table has the tabs of the bar and no others, and the next launch that lists them
shows them all. -/
theorem table_has_bar {es : List Event} (h : run TabsState.step {} es = some s)
    (hunhurried : AllSteps TabsState.step Unhurried {} es) (hloaded : s.load = .loaded) (hanswers : s.answers = []) :
    (s.rows.map Tab.id).Perm (s.tabs.map Tab.id) ∧
      ∀ listed created t, run TabsState.step s (launched listed created) = some t → s.tabs ≠ [] →
        (t.tabs.map Tab.id).Perm (s.tabs.map Tab.id) := by
  have hkept := (sound_run hunhurried h).loaded hloaded
  have hperm : (s.rows.map Tab.id).Perm (s.tabs.map Tab.id) := by
    have htabs := hkept.tabs
    have hmem := hkept.mem
    rw [hanswers] at htabs hmem
    simp only [createdIds, deletedIds, List.filterMap_nil, List.append_nil, List.not_mem_nil, or_false,
      not_false_eq_true, and_true] at htabs hmem
    exact (List.perm_ext_iff_of_nodup hkept.rows htabs).mpr hmem
  refine ⟨hperm, fun listed created t hlaunch htabs => ?_⟩
  obtain ⟨hlisted, -, hshown⟩ := load_of_launched hlaunch
  have hids : (listed.map Tab.id).Perm (s.tabs.map Tab.id) := (hlisted.perm.map Tab.id).trans hperm
  have hne : listed ≠ [] := by
    rintro rfl
    exact htabs (List.map_eq_nil_iff.mp (List.nil_perm.mp hids))
  rw [hshown, if_neg hne]
  exact hids

/-- Two tabs, of which one is deleted while the other gets a name; the answers come in the other order. -/
def deletedTab : List Event :=
  launched [] "a" ++ [.addTab "Orders", .execute 0 "b", .answer 0, .deleteTab "a", .renameTab "b" "Billing",
    .execute 1 "c", .execute 0 "c", .answer 1, .answer 0]

/-- One tab is left. -/
def deletedTabState : TabsState where
  rows := [⟨"b", "Billing", 1⟩]
  tabs := [⟨"b", "Billing", 1⟩]
  load := .loaded
  used := ["b", "a"]

theorem deletedTab_kept : (deletedTabState.rows.map Tab.id).Perm (deletedTabState.tabs.map Tab.id) := by
  have hrun : run TabsState.step {} deletedTab = some deletedTabState := by decide +kernel
  exact (table_has_bar hrun (by decide +kernel) rfl rfl).1

end OffsetExplorer.TabTable
