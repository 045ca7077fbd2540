import OffsetExplorer.Lib.JsonText
import OffsetExplorer.Lib.Record
import Mathlib.Data.List.Forall2
import Mathlib.Data.List.Perm.Basic
import Mathlib.Data.List.Nodup
import Mathlib.Logic.Function.Basic

/-!
# Reading a record

The fields of a record are the members of an object under the names that are known; members under other
names are passed over. A field that stands there twice is an error.

* `gather`, `pairs`: the fields as they are come upon, and all of them at once.
* **`gather_eq_some_iff`**: which objects have their fields read, and as what.
* `gather_perm`: the order does not matter.
* `Respelled`, `Blind`: strings with other escapes, and readers that do not see the difference; `Named`: a member
  under a name, however it is spelled.
-/

namespace Json

variable {ι : Type} [DecidableEq ι] (known : List Char → Option ι)

/-- The fields of the members, after those that were read before. -/
def gatherFrom : List (List Item × Tree) → (ι → Option Tree) → Option (ι → Option Tree)
  | [], fields => some fields
  | (name, value) :: members, fields =>
    match unescape name with
    | none => none
    | some text =>
      match known text with
      | none => gatherFrom members fields
      | some field =>
        if (fields field).isSome then none
        else gatherFrom members (Function.update fields field (some value))

/-- The fields of an object, by the names that are known. -/
def gather (members : List (List Item × Tree)) : Option (ι → Option Tree) := gatherFrom known members fun _ => none

omit [DecidableEq ι] in
/-- The field that a member is under a known name. -/
def pair (member : List Item × Tree) : Option (ι × Tree) :=
  ((unescape member.1).bind known).map fun field => (field, member.2)

omit [DecidableEq ι] in
/-- The members of known names. -/
def pairs (members : List (List Item × Tree)) : List (ι × Tree) := members.filterMap (pair known)

variable {known} {members : List (List Item × Tree)} {fields : ι → Option Tree}

omit [DecidableEq ι] in
theorem pairs_cons_of_some {member : List Item × Tree} {p : ι × Tree} (h : pair known member = some p) :
    pairs known (member :: members) = p :: pairs known members := List.filterMap_cons_some h

omit [DecidableEq ι] in
theorem pairs_cons_of_none {member : List Item × Tree} (h : pair known member = none) :
    pairs known (member :: members) = pairs known members := List.filterMap_cons_none h

theorem update_eq_some_iff {before : ι → Option Tree} {field : ι} (hnone : before field = none) (value : Tree)
    (other : ι) (tree : Tree) : Function.update before field (some value) other = some tree ↔
      before other = some tree ∨ (other, tree) = (field, value) := by
  by_cases h : other = field
  · subst h
    rw [Function.update_self, hnone]
    simp [eq_comm]
  · rw [Function.update_of_ne h]
    simp [h]

theorem gatherFrom_eq_some_iff {before : ι → Option Tree} :
    gatherFrom known members before = some fields ↔
      (∀ m ∈ members, (unescape m.1).isSome = true) ∧ ((pairs known members).map Prod.fst).Nodup ∧
      (∀ field ∈ (pairs known members).map Prod.fst, before field = none) ∧
      ∀ field value, fields field = some value ↔ before field = some value ∨ (field, value) ∈ pairs known members := by
  induction members generalizing before with
  | nil =>
    simp only [gatherFrom, pairs, List.filterMap_nil, List.not_mem_nil, List.map_nil, List.nodup_nil, or_false,
      Option.some.injEq, false_imp_iff, implies_true, true_and]
    constructor
    · rintro rfl field value
      exact Iff.rfl
    · intro h
      funext field
      ext value
      exact (h field value).symm
  | cons member members ih =>
    obtain ⟨name, value⟩ := member
    rw [gatherFrom, List.forall_mem_cons]
    cases hname : unescape name with
    | none => simp
    | some text =>
      dsimp only
      cases hknown : known text with
      | none =>
        have hpair : pair known (name, value) = none := by
          simp only [pair, hname, Option.bind_some, hknown, Option.map_none]
        simp only [pairs_cons_of_none hpair, ih, Option.isSome_some, true_and]
      | some field =>
        have hpair : pair known (name, value) = some (field, value) := by
          simp only [pair, hname, Option.bind_some, hknown, Option.map_some]
        rw [pairs_cons_of_some hpair, List.map_cons, List.nodup_cons, List.forall_mem_cons]
        dsimp only
        cases hbefore : before field with
        | some tree => simp
        | none =>
          rw [Option.isSome_none, if_neg Bool.false_ne_true, ih]
          have hnone : (∀ other ∈ (pairs known members).map Prod.fst,
              Function.update before field (some value) other = none) ↔
              field ∉ (pairs known members).map Prod.fst ∧ ∀ other ∈ (pairs known members).map Prod.fst,
                before other = none := by
            have hupdate : ∀ other, Function.update before field (some value) other = none ↔
                other ≠ field ∧ before other = none := by
              intro other
              by_cases h : other = field
              · subst h
                simp
              · simp [h]
            simp only [hupdate]
            exact ⟨fun h => ⟨fun hmem => (h field hmem).1 rfl, fun other hmem => (h other hmem).2⟩,
              fun h other hmem => ⟨fun heq => h.1 (heq ▸ hmem), h.2 other hmem⟩⟩
          have hmem : ∀ other tree, (other, tree) ∈ (field, value) :: pairs known members ↔
              (other, tree) = (field, value) ∨ (other, tree) ∈ pairs known members := fun other tree => List.mem_cons
          simp only [hnone, hmem, update_eq_some_iff hbefore, or_assoc, Option.isSome_some, true_and]
          tauto

/-- **Which objects have their fields read**: those whose names are all texts, with no field there twice. -/
theorem gather_eq_some_iff : gather known members = some fields ↔
    (∀ m ∈ members, (unescape m.1).isSome = true) ∧ ((pairs known members).map Prod.fst).Nodup ∧
      ∀ field value, fields field = some value ↔ (field, value) ∈ pairs known members := by
  rw [gather, gatherFrom_eq_some_iff]
  simp

theorem gather_perm {others : List (List Item × Tree)} (h : members.Perm others) :
    gather known members = gather known others := by
  have hpairs : (pairs known members).Perm (pairs known others) := h.filterMap _
  ext fields
  rw [gather_eq_some_iff, gather_eq_some_iff]
  simp only [h.mem_iff, (hpairs.map Prod.fst).nodup_iff, hpairs.mem_iff]

theorem gather_of_nodup (hnames : ∀ m ∈ members, (unescape m.1).isSome = true)
    (hnodup : ((pairs known members).map Prod.fst).Nodup) :
    gather known members = some (Record.get? ⟨pairs known members, hnodup⟩) := by
  refine gather_eq_some_iff.mpr ⟨hnames, hnodup, fun field value => ⟨fun h => ?_, fun h => ?_⟩⟩
  · exact Record.mem_entries_of_get? h
  · exact Record.get?_of_mem_entries h

/-- A name that no field has. -/
def Unknown (known : List Char → Option ι) (member : List Item × Tree) : Prop :=
  ∃ text, unescape member.1 = some text ∧ known text = none

/-- **Fields in any order, among others**, are read as they are. -/
theorem gather_rearranged {entries : List (ι × Tree)} {written others : List (List Item × Tree)}
    (hperm : members.Perm (written ++ others)) (hwritten : written.map (pair known) = entries.map some)
    (hnodup : (entries.map Prod.fst).Nodup) (hothers : ∀ member ∈ others, Unknown known member) :
    ∃ fields, gather known members = some fields ∧ ∀ field value, fields field = some value ↔ (field, value) ∈ entries := by
  have hpairs : pairs known (written ++ others) = entries := by
    have hnone : others.filterMap (pair known) = [] := by
      rw [List.filterMap_eq_nil_iff]
      intro member hmember
      obtain ⟨text, htext, hknown⟩ := hothers member hmember
      simp only [pair, htext, Option.bind_some, hknown, Option.map_none]
    have hsome : written.filterMap (pair known) = entries := by
      have h := congrArg (List.filterMap id) hwritten
      simpa [List.filterMap_map] using h
    rw [pairs, List.filterMap_append, hsome, hnone, List.append_nil]
  have hnames : ∀ member ∈ written ++ others, (unescape member.1).isSome = true := by
    intro member hmember
    rcases List.mem_append.mp hmember with hmember | hmember
    · have hpair : pair known member ∈ entries.map some := hwritten ▸ List.mem_map_of_mem hmember
      obtain ⟨entry, -, hentry⟩ := List.mem_map.mp hpair
      by_contra hnone
      rw [Bool.not_eq_true, Option.isSome_eq_false_iff, Option.isNone_iff_eq_none] at hnone
      simp [pair, hnone] at hentry
    · obtain ⟨text, htext, -⟩ := hothers member hmember
      rw [htext]
      rfl
  have hgather := gather_of_nodup hnames (hpairs.symm ▸ hnodup)
  refine ⟨_, (gather_perm hperm).trans hgather, fun field value => ?_⟩
  exact ((gather_eq_some_iff.mp hgather).2.2 field value).trans (iff_of_eq (congrArg _ hpairs))

/-! ## Spellings -/

/-- The same tree, or the same string with other escapes. -/
inductive Respelled : Tree → Tree → Prop
  | refl (tree : Tree) : Respelled tree tree
  | string {items items' : List Item} {text : List Char} : unescape items = some text → unescape items' = some text →
      Respelled (.string items) (.string items')

/-- The reader does not see how a string is spelled. -/
def Blind {α : Type} (read : Tree → Option α) : Prop := ∀ ⦃tree tree'⦄, Respelled tree tree' → read tree' = read tree

theorem blind_of_string {α : Type} {read : Tree → Option α}
    (h : ∀ {items items'}, unescape items' = unescape items → read (.string items') = read (.string items)) :
    Blind read := by
  intro tree tree' hspelled
  cases hspelled with
  | refl => rfl
  | string hitems hitems' => exact h (hitems'.trans hitems.symm)

/-- The member has the name and the value, however they are spelled. -/
def Named (written : List Char × Tree) (member : List Item × Tree) : Prop :=
  unescape member.1 = some written.1 ∧ Respelled written.2 member.2

omit [DecidableEq ι] in
/-- **Fields under their names.** Members of known names are read as the fields of these names. -/
theorem exists_pairs {written : List (List Char × Tree)} {entries : List (ι × Tree)}
    {named : List (List Item × Tree)} (hnamed : List.Forall₂ Named written named)
    (hfields : List.Forall₂ (fun w e => known w.1 = some e.1 ∧ w.2 = e.2) written entries) :
    ∃ actual : List (ι × Tree), named.map (pair known) = actual.map some ∧ actual.map Prod.fst = entries.map Prod.fst ∧
      ∀ e ∈ entries, ∃ tree, (e.1, tree) ∈ actual ∧ Respelled e.2 tree := by
  induction hnamed generalizing entries with
  | nil =>
    cases hfields
    exact ⟨[], rfl, rfl, fun _ h => absurd h List.not_mem_nil⟩
  | @cons w member _ _ hfirst _ ih =>
    cases hfields with
    | @cons _ e _ _ hentry hfields =>
      obtain ⟨actual, hpairs, hnames, hfound⟩ := ih hfields
      obtain ⟨hname, hvalue⟩ := hfirst
      obtain ⟨hknown, htree⟩ := hentry
      have hpair : pair known member = some (e.1, member.2) := by
        simp only [pair, hname, Option.bind_some, hknown, Option.map_some]
      refine ⟨(e.1, member.2) :: actual, ?_, ?_, List.forall_mem_cons.mpr ⟨⟨member.2, List.mem_cons_self, ?_⟩, ?_⟩⟩
      · rw [List.map_cons, List.map_cons, hpair, hpairs]
      · rw [List.map_cons, List.map_cons, hnames]
      · exact htree ▸ hvalue
      · intro e he
        obtain ⟨tree, htree, hspelled⟩ := hfound e he
        exact ⟨tree, List.mem_cons_of_mem _ htree, hspelled⟩

end Json
