import OffsetExplorer.Lib.Digits
import OffsetExplorer.PublishTab.InFlight

/-!
# Rows that are marked as published

After a publish the tab marks the rows at the places of the messages that were delivered, whatever these
rows have become. A publish that is answered at once is followed by edits and by visits to other partitions.

* `Edit.apply_cases`: what an edit does to the rows.
* `Counted`: no two rows of a draft have one id, and a new row has an id of its own.
* `MarkedRight`: the rows that are marked are those that the publish has delivered, and no others.
* `Behind`: an edit that keeps the delivered rows at their places; `Meets`: so does a step.
* **`markedRight_of_allSteps`**: after such steps the marks are right, where the publish has failed at a
  message.
-/

namespace OffsetExplorer.PublishTab

/-! ## Ids of rows -/

/-- The counter has given the id to a row. -/
def Given (nextId : ℕ) (id : String) : Prop := ∃ n < nextId, id = localId "message" n

theorem localId_injective {kind : String} {n m : ℕ} (h : localId kind n = localId kind m) : n = m := by
  have hparts : ∀ n, localId kind n = kind ++ "-" ++ (n + 1).repr := fun _ => rfl
  rw [hparts, hparts, String.append_right_inj] at h
  have := Digits.repr_injective h
  omega

theorem not_given_localId (nextId : ℕ) : ¬ Given nextId (localId "message" nextId) := by
  rintro ⟨n, hn, heq⟩
  rw [localId_injective heq] at hn
  exact Nat.lt_irrefl n hn

/-- The rows have different ids, and all of them were given out. -/
structure RowsGiven (nextId : ℕ) (rows : List DraftMessage) : Prop where
  nodup : (rows.map (·.id)).Nodup
  given : ∀ m ∈ rows, Given nextId m.id

theorem RowsGiven.mono {n n' : ℕ} {rows : List DraftMessage} (h : RowsGiven n rows) (hn : n ≤ n') :
    RowsGiven n' rows :=
  ⟨h.nodup, fun m hm => (h.given m hm).imp fun _ hk => ⟨Nat.lt_of_lt_of_le hk.1 hn, hk.2⟩⟩

theorem rowsGiven_emptyMessage (nextId : ℕ) : RowsGiven (nextId + 1) [emptyMessage nextId] := by
  refine ⟨List.nodup_singleton _, fun m hm => ?_⟩
  cases List.mem_singleton.mp hm
  exact ⟨nextId, Nat.lt_succ_self nextId, rfl⟩

theorem RowsGiven.insert {nextId nextId' : ℕ} {front back : List DraftMessage} {row : DraftMessage}
    (h : RowsGiven nextId (front ++ back)) (hrow : row.id = localId "message" nextId)
    (hnext : nextId < nextId') : RowsGiven nextId' (front ++ row :: back) := by
  have hperm : (front ++ row :: back).Perm (row :: (front ++ back)) := List.perm_middle
  refine ⟨(hperm.map _).nodup_iff.mpr (List.nodup_cons.mpr ⟨fun hmem => ?_, h.nodup⟩), fun m hm => ?_⟩
  · obtain ⟨m, hm, hid⟩ := List.mem_map.mp hmem
    have hgiven := h.given m hm
    rw [hid.trans hrow] at hgiven
    exact not_given_localId nextId hgiven
  · rcases List.mem_cons.mp (hperm.mem_iff.mp hm) with rfl | hm
    · exact ⟨nextId, hnext, hrow⟩
    · exact (h.mono (Nat.le_of_lt hnext)).given m hm

theorem RowsGiven.sublist {nextId : ℕ} {rows rows' : List DraftMessage} (h : RowsGiven nextId rows)
    (hsub : rows'.Sublist rows) : RowsGiven nextId rows' :=
  ⟨h.nodup.sublist (hsub.map _), fun m hm => h.given m (hsub.subset hm)⟩

/-- **What an edit does** to the rows: it changes them in place, removes some, or puts one in. -/
theorem Edit.apply_cases {e : Edit} {rows rows' : List DraftMessage} {nextId nextId' : ℕ}
    (h : e.apply rows nextId = some (rows', nextId')) :
    (∃ id patch, e = .update id patch ∧ nextId' = nextId ∧
      rows' = rows.map fun m => if m.id = id then m.patch patch else m) ∨
    (∃ id, e = .remove id ∧ nextId' = nextId ∧ rows' = rows.filter (·.id ≠ id)) ∨
    ∃ place row, (e = .add ∧ place = rows.length ∨ ∃ index, e = .duplicate index ∧ place = index + 1) ∧
      place ≤ rows.length ∧ nextId < nextId' ∧ row.id = localId "message" nextId ∧
      rows' = rows.take place ++ row :: rows.drop place := by
  cases e with
  | update id patch =>
    simp only [Edit.apply] at h
    split_ifs at h
    cases h
    exact .inl ⟨id, patch, rfl, rfl, rfl⟩
  | remove id =>
    simp only [Edit.apply] at h
    split_ifs at h
    cases h
    exact .inr (.inl ⟨id, rfl, rfl, rfl⟩)
  | duplicate index =>
    simp only [Edit.apply] at h
    obtain ⟨message, hmessage, heq⟩ := Option.map_eq_some_iff.mp h
    cases heq
    obtain ⟨hindex, -⟩ := List.getElem?_eq_some_iff.mp hmessage
    exact .inr (.inr ⟨index + 1, duplicateMessage nextId message, .inr ⟨index, rfl, rfl⟩, hindex,
      by omega, rfl, rfl⟩)
  | add =>
    simp only [Edit.apply] at h
    split_ifs at h
    cases h
    refine .inr (.inr ⟨rows.length, emptyMessage nextId, .inl ⟨rfl, rfl⟩, Nat.le_refl _,
      Nat.lt_succ_self _, rfl, ?_⟩)
    rw [List.take_length, List.drop_length]

/-- **An edit** leaves rows under ids of their own. -/
theorem RowsGiven.edit {nextId nextId' : ℕ} {rows rows' : List DraftMessage} {e : Edit}
    (h : RowsGiven nextId rows) (hedit : e.apply rows nextId = some (rows', nextId')) :
    RowsGiven nextId' rows' ∧ nextId ≤ nextId' := by
  rcases Edit.apply_cases hedit with ⟨id, patch, -, rfl, rfl⟩ | ⟨id, -, rfl, rfl⟩ |
    ⟨place, row, -, -, hnext, hrow, rfl⟩
  · have hids : (rows.map fun m => if m.id = id then m.patch patch else m).map (·.id) = rows.map (·.id) := by
      rw [List.map_map]
      refine List.map_congr_left fun m _ => ?_
      rw [Function.comp_apply]
      split_ifs <;> rfl
    refine ⟨⟨hids ▸ h.nodup, fun m hm => ?_⟩, Nat.le_refl _⟩
    have hid : m.id ∈ rows.map (·.id) := hids ▸ List.mem_map_of_mem hm
    obtain ⟨m', hm', heq⟩ := List.mem_map.mp hid
    exact heq ▸ h.given m' hm'
  · exact ⟨h.sublist List.filter_sublist, Nat.le_refl _⟩
  · refine ⟨RowsGiven.insert ?_ hrow hnext, Nat.le_of_lt hnext⟩
    rw [List.take_append_drop]
    exact h

/-! ## The drafts of every state -/

variable {browser : Browser} {maxMessageSizeBytes : ℕ} {w w' : Workspace}

/-- The rows of every draft have been given ids, and every publish in flight has been counted. -/
structure Counted (w : Workspace) : Prop where
  drafts : ∀ key rows, w.drafts.get? key = some rows → RowsGiven w.nextId rows
  blank : ∀ t ∈ w.tab, RowsGiven w.nextId t.blank
  calls : ∀ m ∈ w.mutations, m.id < w.calls

theorem Counted.messages (h : Counted w) {t : View} (ht : w.tab = some t) :
    RowsGiven w.nextId (w.messages t) := by
  unfold Workspace.messages
  cases hkey : w.drafts.get? t.target.draftKey with
  | none => exact h.blank t ht
  | some rows => exact h.drafts _ rows hkey

/-- The edit of the draft `rows` that an event of the form makes. -/
def Event.editOf (rows : List DraftMessage) : Event → Option Edit
  | .edit e => some e
  | .commitSelector slot encoding => slot.edit rows encoding
  | _ => none

/-- **What the form can do**: the component keeps its target and its blank row, and, unless a new publish
begins, the outcome of the last; the draft changes by an edit only. -/
theorem stepForm_cases {t : View} {e : Event} (ht : w.tab = some t)
    (h : stepForm browser maxMessageSizeBytes w t e = some w') :
    (∃ t', w'.tab = some t' ∧ t'.target = t.target ∧ t'.blank = t.blank ∧
      (e ≠ .publish → t'.outcome = t.outcome)) ∧
    (w.calls ≤ w'.calls ∧ ∀ m ∈ w'.mutations, m ∈ w.mutations ∨ m.id < w'.calls) ∧
    (w'.drafts = w.drafts ∧ w'.nextId = w.nextId ∨
      ∃ edit rows, e.editOf (w.messages t) = some edit ∧
        edit.apply (w.messages t) w.nextId = some (rows, w'.nextId) ∧
        w'.drafts = w.drafts.set t.target.draftKey rows) := by
  cases e with
  | edit e =>
    simp only [stepForm] at h
    split_ifs at h
    obtain ⟨⟨rows, nextId⟩, happly, rfl⟩ := Option.map_eq_some_iff.mp h
    exact ⟨⟨t, ht, rfl, rfl, fun _ => rfl⟩, ⟨Nat.le_refl _, fun _ hm => .inl hm⟩, .inr ⟨e, rows, rfl, happly, rfl⟩⟩
  | commitSelector slot encoding =>
    simp only [stepForm] at h
    split_ifs at h
    obtain ⟨edit, hedit, h⟩ := Option.bind_eq_some_iff.mp h
    obtain ⟨⟨rows, nextId⟩, happly, rfl⟩ := Option.map_eq_some_iff.mp h
    exact ⟨⟨_, rfl, rfl, rfl, fun _ => rfl⟩, ⟨Nat.le_refl _, fun _ hm => .inl hm⟩,
      .inr ⟨edit, rows, hedit, happly, rfl⟩⟩
  | toggleSelector slot =>
    simp only [stepForm] at h
    split_ifs at h
    all_goals
      cases h
      exact ⟨⟨_, rfl, rfl, rfl, fun _ => rfl⟩, ⟨Nat.le_refl _, fun _ hm => .inl hm⟩, .inl ⟨rfl, rfl⟩⟩
  | closeSelector slot =>
    cases h
    exact ⟨⟨_, rfl, rfl, rfl, fun _ => rfl⟩, ⟨Nat.le_refl _, fun _ hm => .inl hm⟩, .inl ⟨rfl, rfl⟩⟩
  | publish =>
    simp only [stepForm] at h
    split_ifs at h
    cases h
    exact ⟨⟨_, rfl, rfl, rfl, fun hne => absurd rfl hne⟩, ⟨Nat.le_refl _, fun _ hm => .inl hm⟩, .inl ⟨rfl, rfl⟩⟩
  | cancel =>
    simp only [stepForm] at h
    split_ifs at h
    cases h
    exact ⟨⟨_, rfl, rfl, rfl, fun _ => rfl⟩, ⟨Nat.le_refl _, fun _ hm => .inl hm⟩, .inl ⟨rfl, rfl⟩⟩
  | confirm =>
    simp only [stepForm] at h
    split_ifs at h
    cases h
    refine ⟨⟨_, rfl, rfl, rfl, fun _ => rfl⟩, ⟨Nat.le_succ _, fun m hm => ?_⟩, .inl ⟨rfl, rfl⟩⟩
    refine (List.mem_append.mp hm).imp_right fun hm => ?_
    cases List.mem_singleton.mp hm
    exact Nat.lt_succ_self w.calls
  | _ => cases h

theorem Counted.set (h : Counted w) {key : String} {rows : List DraftMessage} {nextId : ℕ}
    (hrows : RowsGiven nextId rows) (hnext : w.nextId ≤ nextId) {drafts : DraftStore}
    (hdrafts : drafts = w.drafts.set key rows) :
    ∀ key rows, drafts.get? key = some rows → RowsGiven nextId rows := by
  intro key' rows' hkey
  rw [hdrafts, Record.get?_set] at hkey
  split_ifs at hkey
  · cases hkey
    exact hrows
  · exact (h.drafts key' rows' hkey).mono hnext

theorem blank_updateOwner {m : Mutation} {f : View → View} (hf : ∀ t, (f t).blank = t.blank) :
    ∀ t' ∈ (w.updateOwner m f).tab, ∃ t ∈ w.tab, t'.blank = t.blank := by
  intro t' ht'
  obtain ⟨t, ht, rfl⟩ := Option.map_eq_some_iff.mp ht'
  refine ⟨t, ht, ?_⟩
  split_ifs
  · exact hf t
  · rfl

theorem blank_settle (m : Mutation) (answer : Except String PublishOutcome) :
    ∀ t' ∈ (w.settle m answer).tab, ∃ t ∈ w.tab, t'.blank = t.blank := by
  have htwice : ∃ f g : View → View, (∀ t, (f t).blank = t.blank) ∧ (∀ t, (g t).blank = t.blank) ∧
      (w.settle m answer).tab = ((w.updateOwner m f).updateOwner m g).tab := by
    cases answer with
    | error message =>
      exact ⟨fun t => { t with confirming := false }, fun t => { t with publish := .error message },
        fun _ => rfl, fun _ => rfl, rfl⟩
    | ok result =>
      refine ⟨fun t => { t with confirming := false, outcome := some result },
        fun t => { t with publish := .success }, fun _ => rfl, fun _ => rfl, ?_⟩
      simp only [Workspace.settle, Workspace.onSuccess]
      split_ifs <;> rfl
  obtain ⟨f, g, hf, hg, heq⟩ := htwice
  intro t' ht'
  rw [heq] at ht'
  obtain ⟨u, hu, hblank⟩ := blank_updateOwner hg t' ht'
  obtain ⟨t, ht, hsame⟩ := blank_updateOwner hf u hu
  exact ⟨t, ht, hblank.trans hsame⟩

theorem Counted.settle (h : Counted w) (m : Mutation) (answer : Except String PublishOutcome) :
    Counted (w.settle m answer) := by
  obtain ⟨hrest, -, hcalls⟩ := settle_mutations (w := w) m answer
  have hdrafts : (w.settle m answer).drafts = w.drafts ∧ (w.settle m answer).nextId = w.nextId ∨
      (w.settle m answer).drafts = w.drafts.set m.optionsKey [emptyMessage w.nextId] ∧
        (w.settle m answer).nextId = w.nextId + 1 := by
    rcases answer with message | ⟨delivered, _ | failure, notAttempted⟩
    · exact .inl ⟨rfl, rfl⟩
    · exact .inr ⟨rfl, rfl⟩
    · exact .inl ⟨rfl, rfl⟩
  have hnext : w.nextId ≤ (w.settle m answer).nextId := by
    rcases hdrafts with ⟨-, hnext⟩ | ⟨-, hnext⟩ <;> omega
  refine ⟨?_, fun t' ht' => ?_, fun n hn => ?_⟩
  · rcases hdrafts with ⟨hsame, hnext⟩ | ⟨hset, hnext⟩
    · rw [hsame, hnext]
      exact h.drafts
    · rw [hnext]
      exact h.set (rowsGiven_emptyMessage w.nextId) (Nat.le_succ _) hset
  · obtain ⟨t, ht, hsame⟩ := blank_settle m answer t' ht'
    rw [hsame]
    exact (h.blank t ht).mono hnext
  · rw [hrest] at hn
    rw [hcalls]
    exact h.calls n (List.mem_of_mem_filter hn)

theorem Counted.step {e : Event} (h : Counted w)
    (hs : step browser maxMessageSizeBytes w e = some w') : Counted w' := by
  have form : ∀ t, w.tab = some t → stepForm browser maxMessageSizeBytes w t e = some w' →
      Counted w' := by
    intro t ht hf
    obtain ⟨⟨t', ht', -, hblank, -⟩, ⟨hcalls, hmutations⟩, hdrafts⟩ := stepForm_cases ht hf
    have hrows : w.nextId ≤ w'.nextId ∧ ∀ key rows, w'.drafts.get? key = some rows →
        RowsGiven w'.nextId rows := by
      rcases hdrafts with ⟨hsame, hnext⟩ | ⟨edit, rows, -, happly, hset⟩
      · rw [hsame, hnext]
        exact ⟨Nat.le_refl _, h.drafts⟩
      · obtain ⟨hrows, hnext⟩ := (h.messages ht).edit happly
        exact ⟨hnext, h.set hrows hnext hset⟩
    refine ⟨hrows.2, fun u hu => ?_, fun m hm => ?_⟩
    · rw [ht', Option.mem_some_iff] at hu
      rw [← hu, hblank]
      exact (h.blank t ht).mono hrows.1
    · exact (hmutations m hm).elim (fun hm => Nat.lt_of_lt_of_le (h.calls m hm) hcalls) id
  cases e with
  | mount target =>
    simp only [PublishTab.step] at hs
    split_ifs at hs
    cases hs
    refine ⟨fun key rows hkey => (h.drafts key rows hkey).mono (Nat.le_succ _), fun t ht => ?_, h.calls⟩
    cases ht
    exact rowsGiven_emptyMessage w.nextId
  | unmount =>
    simp only [PublishTab.step] at hs
    split_ifs at hs
    cases hs
    refine ⟨h.drafts, fun t ht => ?_, h.calls⟩
    cases ht
  | retarget target =>
    simp only [PublishTab.step] at hs
    obtain ⟨t, ht, hs⟩ := Option.bind_eq_some_iff.mp hs
    split_ifs at hs
    cases hs
    have hnext : w.nextId ≤ (w.retarget t target).nextId := by
      simp only [Workspace.retarget]
      split_ifs <;> omega
    refine ⟨fun key rows hkey => (h.drafts key rows hkey).mono hnext, fun u hu => ?_, fun m hm => ?_⟩
    · cases hu
      simp only [Workspace.retarget]
      split_ifs
      · exact h.blank t ht
      · exact rowsGiven_emptyMessage w.nextId
    · obtain ⟨n, hn, rfl⟩ := List.mem_map.mp hm
      split_ifs
      · exact h.calls n hn
      · exact h.calls n hn
  | gate gates =>
    cases hs
    refine ⟨h.drafts, fun t' ht' => ?_, h.calls⟩
    obtain ⟨t, ht, rfl⟩ := Option.map_eq_some_iff.mp ht'
    split_ifs
    · exact h.blank t ht
    · exact h.blank t ht
  | settle id answer =>
    obtain ⟨m, -, rfl⟩ := Option.map_eq_some_iff.mp hs
    exact h.settle m answer
  | clearForConnection connectionId =>
    cases hs
    refine ⟨fun key rows hkey => ?_, h.blank, h.calls⟩
    simp only [DraftStore.clearForConnection, Record.get?_keep] at hkey
    split_ifs at hkey
    exact h.drafts key rows hkey
  | edit _ | toggleSelector _ | closeSelector _ | commitSelector _ _ | publish | cancel | confirm =>
    obtain ⟨t, ht, hf⟩ := Option.bind_eq_some_iff.mp hs
    rw [Option.ite_none_right_eq_some] at hf
    exact form t ht hf.2

/-! ## Marks -/

/-- The row at a place is shown as published. -/
def View.delivered (t : View) (index : ℕ) : Bool :=
  (t.outcome.map fun outcome => outcome.delivered.any fun d => d.index == index).getD false

/-- A publish that has been answered: what was sent where, and how many of these rows were delivered. -/
structure Publication where
  target : Target
  rows : List DraftMessage
  delivered : ℕ

namespace Publication

/-- The rows in front, of which the broker has taken the records. -/
def taken (p : Publication) : List DraftMessage := p.rows.take p.delivered

/-- Their ids. -/
def ids (p : Publication) : List String := p.taken.map (·.id)

end Publication

/-- A row is shown as published exactly if it is, as it was sent, one that the publish has delivered to the
partition that is shown. -/
def MarkedRight (p : Publication) (w : Workspace) : Prop :=
  ∀ t ∈ w.tab, ∀ index m, (w.messages t)[index]? = some m →
    (t.delivered index = true ↔ t.target = p.target ∧ m ∈ p.taken)

/-- The edit changes, copies, removes or adds rows after the first `k` only; the last of these may be copied,
and each may be removed once no others are left. -/
def Edit.Behind (k : ℕ) (rows : List DraftMessage) : Edit → Prop
  | .update id patch => ∀ m ∈ rows.take k, m.id = id → m.patch patch = m
  | .duplicate index => k ≤ index + 1
  | .remove id => rows.length ≤ k ∨ ∀ m ∈ rows.take k, m.id ≠ id
  | .add => k ≤ rows.length

/-- No row of the draft is one that was delivered. -/
def Publication.Gone (p : Publication) (w : Workspace) (target : Target) : Prop :=
  target.draftKey = p.target.draftKey →
    ∀ rows ∈ w.drafts.get? target.draftKey, ∀ m ∈ rows, m.id ∉ p.ids

/-- What a step has to meet. -/
def Meets (p : Publication) (w : Workspace) : Event → Prop
  | .mount target => p.Gone w target
  | .retarget target => (∀ t ∈ w.tab, t.outcome = none ∨ p.delivered = 0) ∧ p.Gone w target
  | e => ∀ t ∈ w.tab, t.outcome ≠ none → ∀ edit ∈ e.editOf (w.messages t),
      edit.Behind p.delivered (w.messages t)

instance (k : ℕ) (rows : List DraftMessage) : DecidablePred (Edit.Behind k rows)
  | .update id patch => inferInstanceAs (Decidable (∀ m ∈ rows.take k, m.id = id → m.patch patch = m))
  | .duplicate index => inferInstanceAs (Decidable (k ≤ index + 1))
  | .remove id => inferInstanceAs (Decidable (rows.length ≤ k ∨ ∀ m ∈ rows.take k, m.id ≠ id))
  | .add => inferInstanceAs (Decidable (k ≤ rows.length))

instance (p : Publication) (w : Workspace) (target : Target) : Decidable (p.Gone w target) :=
  inferInstanceAs (Decidable (_ = _ → ∀ rows ∈ w.drafts.get? target.draftKey, ∀ m ∈ rows, m.id ∉ p.ids))

instance (p : Publication) (w : Workspace) : DecidablePred (Meets p w)
  | .mount target => inferInstanceAs (Decidable (p.Gone w target))
  | .retarget target =>
    inferInstanceAs (Decidable ((∀ t ∈ w.tab, t.outcome = none ∨ _) ∧ p.Gone w target))
  | .edit _ | .commitSelector _ _ | .unmount | .gate _ | .toggleSelector _ | .closeSelector _ | .publish
  | .cancel | .confirm | .settle _ _ | .clearForConnection _ =>
    inferInstanceAs (Decidable (∀ t ∈ w.tab, t.outcome ≠ none → ∀ edit ∈ _, Edit.Behind _ _ edit))

/-- The edits of a draft, and what brings another draft into view. -/
def Event.later : Event → Bool
  | .mount _ | .unmount | .retarget _ | .edit _ | .toggleSelector _ | .closeSelector _
  | .commitSelector _ _ => true
  | _ => false

/-! ## Edits of a draft -/

/-- An edit makes no row that is not one of the draft by its id, but under the next id. -/
theorem Edit.id_of_apply {e : Edit} {rows rows' : List DraftMessage} {nextId nextId' : ℕ}
    (h : e.apply rows nextId = some (rows', nextId')) :
    ∀ m ∈ rows', (∃ m' ∈ rows, m'.id = m.id) ∨ m.id = localId "message" nextId := by
  intro m hm
  rcases Edit.apply_cases h with ⟨id, patch, -, -, rfl⟩ | ⟨id, -, -, rfl⟩ | ⟨place, row, -, -, -, hrow, rfl⟩
  · obtain ⟨m', hm', rfl⟩ := List.mem_map.mp hm
    refine .inl ⟨m', hm', ?_⟩
    split_ifs <;> rfl
  · exact .inl ⟨m, List.mem_of_mem_filter hm, rfl⟩
  · rcases List.mem_cons.mp (List.perm_middle.mem_iff.mp hm) with rfl | hm
    · exact .inr hrow
    · rw [List.take_append_drop] at hm
      exact .inl ⟨m, hm, rfl⟩

/-- What a list has after its first `k` elements, where `row` is put in at `k` or later. -/
theorem take_insert {α : Type} {rows : List α} (row : α) {k index : ℕ} (hk : k ≤ index)
    (hindex : index ≤ rows.length) :
    (rows.take index ++ row :: rows.drop index).take k = rows.take k ∧
      ∀ m ∈ (rows.take index ++ row :: rows.drop index).drop k, m ∈ rows.drop k ∨ m = row := by
  have hlength : k ≤ (rows.take index).length := by
    rw [List.length_take]
    omega
  rw [List.take_append_of_le_length hlength, List.drop_append_of_le_length hlength, List.take_take,
    Nat.min_eq_left hk]
  refine ⟨rfl, fun m hm => ?_⟩
  have hsplit : (rows.take index).drop k ++ rows.drop index = rows.drop k := by
    rw [← List.drop_append_of_le_length hlength, List.take_append_drop]
  rw [← hsplit]
  rcases List.mem_append.mp hm with hm | hm
  · exact .inl (List.mem_append_left _ hm)
  · exact (List.mem_cons.mp hm).symm.imp_left (List.mem_append_right _)

/-- **An edit behind the first rows** leaves them, and takes none of the others among them. -/
theorem Edit.Behind.apply {e : Edit} {k : ℕ} {rows rows' : List DraftMessage} {nextId nextId' : ℕ}
    (hbehind : e.Behind k rows) (h : e.apply rows nextId = some (rows', nextId')) :
    (∀ m ∈ rows'.take k, m ∈ rows.take k) ∧
      ∀ m ∈ rows'.drop k, (∃ m' ∈ rows.drop k, m'.id = m.id) ∨ m.id = localId "message" nextId := by
  rcases Edit.apply_cases h with ⟨id, patch, rfl, -, rfl⟩ | ⟨id, rfl, -, rfl⟩ |
    ⟨place, row, hform, hplace, -, hrow, rfl⟩
  · rw [← List.map_take, ← List.map_drop]
    constructor
    · intro m hm
      obtain ⟨m', hm', rfl⟩ := List.mem_map.mp hm
      split_ifs with hid
      · rw [hbehind m' hm' hid]
        exact hm'
      · exact hm'
    · intro m hm
      obtain ⟨m', hm', rfl⟩ := List.mem_map.mp hm
      refine .inl ⟨m', hm', ?_⟩
      split_ifs <;> rfl
  · by_cases hall : rows.length ≤ k
    · -- all rows are among the first, and none is left behind them
      rw [List.take_of_length_le hall, List.drop_of_length_le]
      · exact ⟨fun m hm => List.mem_of_mem_filter (List.mem_of_mem_take hm), fun _ => nofun⟩
      · exact Nat.le_trans (List.length_filter_le _ _) hall
    · have hnone := hbehind.resolve_left hall
      have hfirst : (rows.take k).filter (·.id ≠ id) = rows.take k :=
        List.filter_eq_self.mpr fun m hm => decide_eq_true (hnone m hm)
      have hsplit : rows.filter (·.id ≠ id) = rows.take k ++ (rows.drop k).filter (·.id ≠ id) := by
        nth_rewrite 1 [← List.take_append_drop k rows]
        rw [List.filter_append, hfirst]
      have hlength : (rows.take k).length = k := List.length_take_of_le (by omega)
      rw [hsplit, List.take_left' hlength, List.drop_left' hlength]
      exact ⟨fun m hm => hm, fun m hm => .inl ⟨m, List.mem_of_mem_filter hm, rfl⟩⟩
  · have hk : k ≤ place := by
      rcases hform with ⟨rfl, rfl⟩ | ⟨index, rfl, rfl⟩ <;> exact hbehind
    obtain ⟨htake, hdrop⟩ := take_insert row hk hplace
    refine ⟨fun m hm => htake ▸ hm, fun m hm => ?_⟩
    rcases hdrop m hm with hm | rfl
    · exact .inl ⟨m, hm, rfl⟩
    · exact .inr hrow

/-! ## Edits and visits -/

/-- The rows that are shown are not marked, and have not been delivered. -/
structure Unmarked (p : Publication) (w : Workspace) (t : View) : Prop where
  delivered : ∀ index, t.delivered index = false
  ids : t.target.draftKey = p.target.draftKey → ∀ m ∈ w.messages t, m.id ∉ p.ids

/-- The first rows are marked and have been delivered, and none of the others. -/
structure Marked (p : Publication) (w : Workspace) (t : View) : Prop where
  outcome : t.outcome ≠ none
  delivered : ∀ index, t.delivered index = true ↔ index < p.delivered
  target : t.target = p.target
  first : ∀ m ∈ (w.messages t).take p.delivered, m ∈ p.taken
  others : ∀ m ∈ (w.messages t).drop p.delivered, m.id ∉ p.ids

/-- The ids of the publication were given out, and the rows are all marked or none of them is. -/
structure Placed (p : Publication) (w : Workspace) : Prop where
  given : ∀ id ∈ p.ids, Given w.nextId id
  tab : ∀ t ∈ w.tab, Unmarked p w t ∨ Marked p w t

variable {p : Publication}

theorem Placed.markedRight (h : Placed p w) : MarkedRight p w := by
  intro t ht index m hm
  rcases h.tab t ht with hunmarked | hmarked
  · rw [hunmarked.delivered index]
    refine iff_of_false Bool.false_ne_true ?_
    rintro ⟨htarget, htaken⟩
    exact hunmarked.ids (htarget ▸ rfl) m (List.mem_of_getElem? hm) (List.mem_map_of_mem htaken)
  · rw [hmarked.delivered, and_iff_right hmarked.target]
    refine ⟨fun hlt => hmarked.first m ?_, fun htaken => ?_⟩
    · exact List.mem_of_getElem? ((List.getElem?_take_of_lt hlt).trans hm)
    · by_contra hge
      have hdrop : ((w.messages t).drop p.delivered)[index - p.delivered]? = some m := by
        rw [List.getElem?_drop, ← hm]
        congr 1
        omega
      exact hmarked.others m (List.mem_of_getElem? hdrop) (List.mem_map_of_mem htaken)

theorem Placed.same (h : Placed p w) {t t' : View} (ht : w.tab = some t) (ht' : w'.tab = some t')
    (htarget : t'.target = t.target) (hmessages : w'.messages t' = w.messages t)
    (houtcome : t'.outcome = t.outcome) (hnext : w'.nextId = w.nextId) : Placed p w' := by
  have hdelivered : ∀ index, t'.delivered index = t.delivered index := fun _ => by
    rw [View.delivered, houtcome, View.delivered]
  refine ⟨hnext ▸ h.given, fun u hu => ?_⟩
  rw [ht', Option.mem_some_iff] at hu
  subst hu
  rcases h.tab t ht with hunmarked | hmarked
  · refine .inl ⟨fun index => (hdelivered index).trans (hunmarked.delivered index), ?_⟩
    rw [htarget, hmessages]
    exact hunmarked.ids
  · refine .inr ⟨houtcome ▸ hmarked.outcome, fun index => ?_, htarget.trans hmarked.target, ?_, ?_⟩
    · rw [hdelivered]
      exact hmarked.delivered index
    · rw [hmessages]
      exact hmarked.first
    · rw [hmessages]
      exact hmarked.others

theorem messages_set {t t' : View} {rows : List DraftMessage} (htarget : t'.target = t.target)
    (hdrafts : w'.drafts = w.drafts.set t.target.draftKey rows) : w'.messages t' = rows := by
  rw [Workspace.messages, hdrafts, htarget, Record.get?_set_self]
  rfl

theorem Placed.edit (h : Placed p w) {t t' : View} (ht : w.tab = some t) (ht' : w'.tab = some t')
    (htarget : t'.target = t.target) (houtcome : t'.outcome = t.outcome) {edit : Edit}
    {rows : List DraftMessage} (hbehind : t.outcome ≠ none → edit.Behind p.delivered (w.messages t))
    (happly : edit.apply (w.messages t) w.nextId = some (rows, w'.nextId)) (hnext : w.nextId ≤ w'.nextId)
    (hdrafts : w'.drafts = w.drafts.set t.target.draftKey rows) : Placed p w' := by
  have hnew : localId "message" w.nextId ∉ p.ids := fun hmem => not_given_localId _ (h.given _ hmem)
  have hdelivered : ∀ index, t'.delivered index = t.delivered index := fun _ => by
    rw [View.delivered, houtcome, View.delivered]
  refine ⟨fun id hid => (h.given id hid).imp fun n hn => ⟨Nat.lt_of_lt_of_le hn.1 hnext, hn.2⟩,
    fun u hu => ?_⟩
  rw [ht', Option.mem_some_iff] at hu
  subst hu
  rcases h.tab t ht with hunmarked | hmarked
  · refine .inl ⟨fun index => (hdelivered index).trans (hunmarked.delivered index), fun hkey m hm => ?_⟩
    rw [messages_set htarget hdrafts] at hm
    rcases Edit.id_of_apply happly m hm with ⟨m', hm', hid⟩ | hid
    · rw [← hid]
      exact hunmarked.ids (htarget ▸ hkey) m' hm'
    · rw [hid]
      exact hnew
  · obtain ⟨hfirst, hothers⟩ := (hbehind hmarked.outcome).apply happly
    refine .inr ⟨houtcome ▸ hmarked.outcome, fun index => ?_, htarget.trans hmarked.target, ?_, ?_⟩
    · rw [hdelivered]
      exact hmarked.delivered index
    · rw [messages_set htarget hdrafts]
      exact fun m hm => hmarked.first m (hfirst m hm)
    · rw [messages_set htarget hdrafts]
      intro m hm
      rcases hothers m hm with ⟨m', hm', hid⟩ | hid
      · rw [← hid]
        exact hmarked.others m' hm'
      · rw [hid]
        exact hnew

theorem Placed.visit (h : Placed p w) {target : Target} (hgone : p.Gone w target) {t' : View}
    (ht' : w'.tab = some t') (htarget : t'.target = target) (hdrafts : w'.drafts = w.drafts)
    (hnext : w.nextId ≤ w'.nextId) (hdelivered : ∀ index, t'.delivered index = false)
    (hblank : target.draftKey = p.target.draftKey → w.drafts.get? target.draftKey = none →
      ∀ m ∈ t'.blank, m.id ∉ p.ids) : Placed p w' := by
  refine ⟨fun id hid => (h.given id hid).imp fun n hn => ⟨Nat.lt_of_lt_of_le hn.1 hnext, hn.2⟩,
    fun u hu => .inl ?_⟩
  rw [ht', Option.mem_some_iff] at hu
  subst hu
  refine ⟨hdelivered, fun hkey m hm => ?_⟩
  rw [htarget] at hkey
  rw [Workspace.messages, hdrafts, htarget] at hm
  cases hrows : w.drafts.get? target.draftKey with
  | none =>
    rw [hrows] at hm
    exact hblank hkey hrows m hm
  | some rows =>
    rw [hrows] at hm
    exact hgone hkey rows hrows m hm

theorem Placed.blank (h : Placed p w) : ∀ m ∈ [emptyMessage w.nextId], m.id ∉ p.ids := by
  intro m hm hmem
  cases List.mem_singleton.mp hm
  exact not_given_localId _ (h.given _ hmem)

/-- **A step that meets the condition** keeps the marks at the rows that were delivered. -/
theorem Placed.step {e : Event} (h : Placed p w) (hcounted : Counted w) (hlater : e.later = true)
    (hmeets : Meets p w e) (hs : step browser maxMessageSizeBytes w e = some w') : Placed p w' := by
  have form : ∀ t, w.tab = some t → e ≠ .publish → stepForm browser maxMessageSizeBytes w t e = some w' →
      (t.outcome ≠ none → ∀ edit ∈ e.editOf (w.messages t), edit.Behind p.delivered (w.messages t)) →
      Placed p w' := by
    intro t ht hpublish hf hbehind
    obtain ⟨⟨t', ht', htarget, hblank, houtcome⟩, -, hdrafts⟩ := stepForm_cases ht hf
    rcases hdrafts with ⟨hsame, hnext⟩ | ⟨edit, rows, hedit, happly, hset⟩
    · refine h.same ht ht' htarget ?_ (houtcome hpublish) hnext
      rw [Workspace.messages, Workspace.messages, hsame, htarget, hblank]
    · exact h.edit ht ht' htarget (houtcome hpublish) (fun hne => hbehind hne edit hedit) happly
        ((hcounted.messages ht).edit happly).2 hset
  cases e with
  | mount target =>
    simp only [PublishTab.step] at hs
    split_ifs at hs
    cases hs
    exact h.visit hmeets rfl rfl rfl (Nat.le_succ _) (fun _ => rfl) fun _ _ => h.blank
  | unmount =>
    simp only [PublishTab.step] at hs
    split_ifs at hs
    cases hs
    refine ⟨h.given, fun t ht => ?_⟩
    cases ht
  | retarget target =>
    simp only [PublishTab.step] at hs
    obtain ⟨t, ht, hs⟩ := Option.bind_eq_some_iff.mp hs
    split_ifs at hs
    cases hs
    obtain ⟨hnone, hgone⟩ := hmeets
    have hids : p.delivered = 0 → p.ids = [] := fun hzero => by
      rw [Publication.ids, Publication.taken, hzero]
      rfl
    have hunmarked : (∀ index, t.delivered index = false) ∧
        (t.target.draftKey = p.target.draftKey → ∀ m ∈ w.messages t, m.id ∉ p.ids) := by
      rcases h.tab t ht with hunmarked | hmarked
      · exact ⟨hunmarked.delivered, hunmarked.ids⟩
      · have hzero := (hnone t ht).resolve_left hmarked.outcome
        refine ⟨fun index => Bool.eq_false_iff.mpr fun heq => ?_, fun _ m _ => ?_⟩
        · have := (hmarked.delivered index).mp heq
          omega
        · rw [hids hzero]
          exact List.not_mem_nil
    have hnext : w.nextId ≤ (w.retarget t target).nextId := by
      simp only [Workspace.retarget]
      split_ifs <;> omega
    refine h.visit hgone rfl rfl rfl hnext hunmarked.1 fun hkey hrows => ?_
    simp only [decide_eq_true_eq]
    split_ifs with hsame
    · -- the blank row stays, and is what was shown
      intro m hm
      refine hunmarked.2 (hsame ▸ hkey) m ?_
      rw [Workspace.messages, ← hsame, hrows]
      exact hm
    · exact h.blank
  | edit _ | toggleSelector _ | closeSelector _ | commitSelector _ _ =>
    obtain ⟨t, ht, hf⟩ := Option.bind_eq_some_iff.mp hs
    rw [Option.ite_none_right_eq_some] at hf
    refine form t ht (fun hpublish => ?_) hf.2 (hmeets t ht)
    cases hpublish
  | gate _ | publish | cancel | confirm | settle _ _ | clearForConnection _ => cases hlater

/-! ## After a publish -/

theorem counted_start (gates : Gates) : Counted { gates } where
  drafts _ _ h := by cases h
  blank _ ht := by cases ht
  calls _ hm := by cases hm

/-- **The answer of a publish** that is still shown. -/
theorem settled_of_run (h : Counted w) {t : View} (ht : w.tab = some t) {result : PublishOutcome}
    (hrun : Machine.run (step browser maxMessageSizeBytes) w [.confirm, .settle w.calls (.ok result)] =
      some w') :
    (∃ t', w'.tab = some t' ∧ t'.target = t.target ∧ t'.blank = t.blank ∧ t'.outcome = some result) ∧
      (result.failure = none → w'.drafts = w.drafts.set t.target.draftKey [emptyMessage w.nextId]) ∧
      (result.failure ≠ none → w'.drafts = w.drafts ∧ w'.nextId = w.nextId) := by
  obtain ⟨u, hu, hrun⟩ := Machine.run_cons_some _ hrun
  obtain ⟨v, hv, hrun⟩ := Machine.run_cons_some _ hrun
  cases hrun
  -- the publish is the last in flight, and the only one of its number
  obtain ⟨t₀, ht₀, hu⟩ := Option.bind_eq_some_iff.mp hu
  cases ht.symm.trans ht₀
  rw [Option.ite_none_right_eq_some, stepForm, Option.ite_none_right_eq_some] at hu
  obtain ⟨-, -, hu⟩ := hu
  cases hu
  obtain ⟨m, hm, rfl⟩ := Option.map_eq_some_iff.mp hv
  have hnot : w.mutations.find? (·.id = w.calls) = none := by
    rw [List.find?_eq_none]
    intro m hm
    rw [decide_eq_true_eq]
    exact Nat.ne_of_lt (h.calls m hm)
  simp only [Workspace.mutate, List.find?_append, hnot, Option.none_or] at hm
  rw [List.find?_cons_of_pos (by simp)] at hm
  cases hm
  rcases result with ⟨delivered, _ | failure, notAttempted⟩
  · refine ⟨⟨{ t with publish := .success, confirming := false, outcome := some _ }, ?_, rfl, rfl, rfl⟩,
      fun _ => rfl, fun hne => absurd rfl hne⟩
    simp [Workspace.settle, Workspace.onSuccess, Workspace.updateOwner, Workspace.resetMessages,
      Workspace.mutate]
  · refine ⟨⟨{ t with publish := .success, confirming := false, outcome := some _ }, ?_, rfl, rfl, rfl⟩,
      fun hnone => absurd hnone (Option.some_ne_none failure), fun _ => ⟨rfl, rfl⟩⟩
    simp [Workspace.settle, Workspace.onSuccess, Workspace.updateOwner, Workspace.mutate]

theorem delivered_of_outcome {t : View} {result : PublishOutcome} (houtcome : t.outcome = some result)
    {k : ℕ} (hindexes : result.delivered.map (·.index) = List.range k) (index : ℕ) :
    t.delivered index = true ↔ index < k := by
  rw [View.delivered, houtcome, Option.map_some, Option.getD_some, List.any_eq_true, ← List.mem_range,
    ← hindexes, List.mem_map]
  simp only [beq_iff_eq]

theorem RowsGiven.not_mem_of_mem_drop {nextId k : ℕ} {rows : List DraftMessage} (h : RowsGiven nextId rows) :
    ∀ m ∈ rows.drop k, m.id ∉ (rows.take k).map (·.id) := by
  intro m hm hid
  have hnodup := h.nodup
  rw [← List.take_append_drop k rows, List.map_append] at hnodup
  exact List.disjoint_of_nodup_append hnodup hid (List.mem_map_of_mem hm)

/-- Right after a publish that has failed at a message the marks are at the rows that were delivered. -/
theorem placed_of_answer (h : Counted w) {t : View} (ht : w.tab = some t) {result : PublishOutcome} {k : ℕ}
    (hrun : Machine.run (step browser maxMessageSizeBytes) w [.confirm, .settle w.calls (.ok result)] =
      some w')
    (hindexes : result.delivered.map (·.index) = List.range k) (hfailure : result.failure ≠ none) :
    Placed ⟨t.target, w.messages t, k⟩ w' := by
  obtain ⟨⟨t', ht', htarget, hblank, houtcome⟩, -, hkept⟩ := settled_of_run h ht hrun
  obtain ⟨hdrafts, hnext⟩ := hkept hfailure
  have hrows := h.messages ht
  have hmessages : w'.messages t' = w.messages t := by
    rw [Workspace.messages, Workspace.messages, hdrafts, htarget, hblank]
  refine ⟨fun id hid => ?_, fun u hu => ?_⟩
  · obtain ⟨m, hm, rfl⟩ := List.mem_map.mp hid
    rw [hnext]
    exact hrows.given m (List.mem_of_mem_take hm)
  · rw [ht', Option.mem_some_iff] at hu
    subst hu
    refine .inr ⟨houtcome ▸ nofun, delivered_of_outcome houtcome hindexes, htarget, ?_, ?_⟩
    · rw [hmessages]
      exact fun m hm => hm
    · rw [hmessages]
      exact hrows.not_mem_of_mem_drop

/-- **After a clean publish** the marks are wrong at once: the row that is left is a blank one. -/
theorem not_markedRight_of_clean (h : Counted w) {t : View} (ht : w.tab = some t) {result : PublishOutcome}
    {k : ℕ}
    (hrun : Machine.run (step browser maxMessageSizeBytes) w [.confirm, .settle w.calls (.ok result)] =
      some w')
    (hindexes : result.delivered.map (·.index) = List.range k) (hclean : result.failure = none)
    (hk : 0 < k) : ¬ MarkedRight ⟨t.target, w.messages t, k⟩ w' := by
  obtain ⟨⟨t', ht', htarget, -, houtcome⟩, hreset, -⟩ := settled_of_run h ht hrun
  intro hright
  have hmessages : w'.messages t' = [emptyMessage w.nextId] := messages_set htarget (hreset hclean)
  obtain ⟨-, htaken⟩ := (hright t' ht' 0 (emptyMessage w.nextId) (by rw [hmessages]; rfl)).mp
    ((delivered_of_outcome houtcome hindexes 0).mpr hk)
  exact not_given_localId _ ((h.messages ht).given _ (List.mem_of_mem_take htaken))

/-- **Marks after a publish.** A publish that fails at a message is followed by edits of the draft and visits
to other partitions. Where all of them keep the delivered rows at their places, while these are marked, and
show no marks elsewhere, nor delivered rows without marks, the rows that are marked are always those that
were delivered. -/
theorem markedRight_of_allSteps {gates : Gates} {before later : List Event} {t : View}
    {result : PublishOutcome} {k : ℕ}
    (hbefore : Machine.run (step browser maxMessageSizeBytes) { gates } before = some w)
    (ht : w.tab = some t)
    (hpublish : Machine.run (step browser maxMessageSizeBytes) w [.confirm, .settle w.calls (.ok result)] =
      some w')
    (hindexes : result.delivered.map (·.index) = List.range k) (hlater : ∀ e ∈ later, e.later = true)
    (hfailure : result.failure ≠ none)
    (hmeets : Machine.AllSteps (step browser maxMessageSizeBytes) (Meets ⟨t.target, w.messages t, k⟩) w'
      later) :
    Machine.Always (step browser maxMessageSizeBytes) (MarkedRight ⟨t.target, w.messages t, k⟩) w' later := by
  have hcounted : Counted w := Machine.run_invariant (fun _ _ _ h hs => h.step hs) (counted_start gates)
    hbefore
  have hcounted' : Counted w' := Machine.run_invariant (fun _ _ _ h hs => h.step hs) hcounted hpublish
  have hplaced := placed_of_answer hcounted ht hpublish hindexes hfailure
  refine Machine.always_of_allSteps
    (I := fun v => Counted v ∧ Placed ⟨t.target, w.messages t, k⟩ v) (fun v e v' hC hI hs => ?_)
    (fun v hI => hI.2.markedRight) (hmeets.and (Machine.allSteps_of_mem hlater)) ⟨hcounted', hplaced⟩
  exact ⟨hI.1.step hs, hI.2.step hI.1 hC.2 hC.1 hs⟩

/-- Two rows are about to be published. -/
def twoRows : List Event := [.mount (ordersPartition 0), .edit .add, .publish]

/-- The first is delivered and the second fails. -/
def failedAtSecond : PublishOutcome where
  delivered := [⟨0, 0, 7⟩]
  failure := some ⟨1, .transient, "timed out"⟩

/-- The delivered row is copied, and one is added. -/
theorem markedRight_copied : ∃ t w', (afterEvents twoRows (by decide)).tab = some t ∧
    Machine.run (step plainBrowser 1000) (afterEvents twoRows (by decide))
      [.confirm, .settle 0 (.ok failedAtSecond)] = some w' ∧
    Machine.Always (step plainBrowser 1000)
      (MarkedRight ⟨t.target, (afterEvents twoRows (by decide)).messages t, 1⟩) w'
      [.edit (.duplicate 0), .edit .add] := by
  refine ⟨_, _, rfl, rfl, markedRight_of_allSteps (run_afterEvents twoRows (by decide)) rfl rfl rfl
    (by decide) nofun ?_⟩
  decide +kernel

/-- One blank row is about to be published. -/
def oneRow : List Event := [.mount (ordersPartition 0), .publish]

/-- It is delivered, and the row that takes its place is marked. -/
theorem blank_row_marked : ∃ t w', (afterEvents oneRow (by decide)).tab = some t ∧
    Machine.run (step plainBrowser 1000) (afterEvents oneRow (by decide))
      [.confirm, .settle 0 (.ok { delivered := [⟨0, 0, 7⟩] })] = some w' ∧
    ¬ MarkedRight ⟨t.target, (afterEvents oneRow (by decide)).messages t, 1⟩ w' := by
  refine ⟨_, _, rfl, rfl, ?_⟩
  have hcounted : Counted (afterEvents oneRow (by decide)) :=
    Machine.run_invariant (fun _ _ _ h hs => h.step hs) (counted_start openWorkspace.gates)
      (run_afterEvents oneRow (by decide))
  exact not_markedRight_of_clean hcounted rfl
    (rfl : Machine.run (step plainBrowser 1000) _ [.confirm, .settle 0 (.ok { delivered := [⟨0, 0, 7⟩] })] =
      some _) rfl rfl Nat.one_pos

end OffsetExplorer.PublishTab
