import Mathlib.Data.List.Basic
import Mathlib.Data.List.Nodup
import Mathlib.Algebra.BigOperators.Group.Finset.Basic

/-!
# Records in insertion order

A dictionary object of a scripting language: entries in the order in which their keys were first
set, one for each key. Setting a key that is there replaces its value in place.

* `Record`: the entries, with the proof that no key repeats.
* `get?`, `set`, `erase`, `keep`, `mapValues`, `keys`: reading, writing and removing keys.
* `get?_set_self`, `get?_set_ne`, `get?_erase_self`, `get?_erase_ne`, `get?_keep`, `get?_mapValues`: what they
  do to a lookup.
* `Lacks`: there is nothing under the keys that satisfy a test.
* `sum_values`, `sum_values_congr`: the sum over the values, from the lookups.
-/

/-- A dictionary whose entries keep the order in which their keys were first set. -/
structure Record (κ α : Type*) where
  entries : List (κ × α)
  nodup : (entries.map Prod.fst).Nodup

namespace Record

variable {κ α : Type*} [DecidableEq κ]

/-- No key has a value. -/
def empty : Record κ α := ⟨[], List.nodup_nil⟩

instance : EmptyCollection (Record κ α) := ⟨empty⟩

/-- The keys, in the order in which they were set first. -/
def keys (r : Record κ α) : List κ := r.entries.map Prod.fst

/-- The values, in the order of their keys. -/
def values (r : Record κ α) : List α := r.entries.map Prod.snd

/-- The value of a key. -/
def get? (r : Record κ α) (k : κ) : Option α :=
  (r.entries.find? fun e => e.1 = k).map Prod.snd

/-- Entries with the value of a key replaced, or appended when the key is new. -/
def setEntries (k : κ) (v : α) : List (κ × α) → List (κ × α)
  | [] => [(k, v)]
  | e :: es => if e.1 = k then (k, v) :: es else e :: setEntries k v es

theorem mem_keys_setEntries {k j : κ} {v : α} {es : List (κ × α)} :
    j ∈ (setEntries k v es).map Prod.fst ↔ j = k ∨ j ∈ es.map Prod.fst := by
  induction es with
  | nil => simp [setEntries]
  | cons e es ih =>
    rw [setEntries]
    split_ifs with h
    · simp [h]
    · rw [List.map_cons, List.mem_cons, ih, List.map_cons, List.mem_cons]
      exact or_left_comm

theorem nodup_setEntries {k : κ} {v : α} {es : List (κ × α)} (h : (es.map Prod.fst).Nodup) :
    ((setEntries k v es).map Prod.fst).Nodup := by
  induction es with
  | nil => simp [setEntries]
  | cons e es ih =>
    rw [List.map_cons, List.nodup_cons] at h
    rw [setEntries]
    split_ifs with hk
    · rw [List.map_cons, List.nodup_cons]
      exact ⟨hk ▸ h.1, h.2⟩
    · rw [List.map_cons, List.nodup_cons, mem_keys_setEntries, not_or]
      exact ⟨⟨hk, h.1⟩, ih h.2⟩

theorem mem_setEntries {k : κ} {v : α} {e : κ × α} {es : List (κ × α)} (h : e ∈ setEntries k v es) :
    e = (k, v) ∨ e ∈ es := by
  induction es with
  | nil => exact .inl (List.mem_singleton.mp h)
  | cons d es ih =>
    rw [setEntries] at h
    split_ifs at h with hk
    · rcases List.mem_cons.mp h with rfl | hrest
      · exact .inl rfl
      · exact .inr (List.mem_cons_of_mem d hrest)
    · rcases List.mem_cons.mp h with rfl | hrest
      · exact .inr List.mem_cons_self
      · exact (ih hrest).imp_right (List.mem_cons_of_mem d)

/-- `{ ...r, [k]: v }`. -/
def set (r : Record κ α) (k : κ) (v : α) : Record κ α :=
  ⟨setEntries k v r.entries, nodup_setEntries r.nodup⟩

/-- `Object.fromEntries(Object.entries(r).filter(…))` with a condition on the key. -/
def keep (r : Record κ α) (p : κ → Bool) : Record κ α where
  entries := r.entries.filter fun e => p e.1
  nodup := r.nodup.sublist ((List.filter_sublist).map _)

/-- `delete r[k]`. -/
def erase (r : Record κ α) (k : κ) : Record κ α where
  entries := r.entries.filter fun e => e.1 ≠ k
  nodup := r.nodup.sublist ((List.filter_sublist).map _)

/-- A function of every value. -/
def mapValues {β : Type*} (f : α → β) (r : Record κ α) : Record κ β where
  entries := r.entries.map fun e => (e.1, f e.2)
  nodup := by
    rw [List.map_map]
    exact r.nodup

theorem find?_setEntries (k j : κ) (v : α) (es : List (κ × α)) :
    ((setEntries k v es).find? fun e => e.1 = j).map Prod.snd =
      if j = k then some v else (es.find? fun e => e.1 = j).map Prod.snd := by
  induction es with
  | nil =>
    by_cases h : j = k
    · simp [setEntries, h]
    · simp [setEntries, h, Ne.symm h]
  | cons e es ih =>
    rw [setEntries]
    by_cases he : e.1 = k
    · rw [if_pos he]
      by_cases h : j = k
      · simp [h]
      · have h1 : ¬ k = j := Ne.symm h
        have h2 : ¬ e.1 = j := he ▸ h1
        simp [h, h1, h2]
    · rw [if_neg he]
      by_cases h : e.1 = j
      · have hj : ¬ j = k := h ▸ he
        simp [h, hj]
      · simpa [List.find?_cons, h] using ih

@[simp] theorem get?_set_self (r : Record κ α) (k : κ) (v : α) : (r.set k v).get? k = some v := by
  rw [get?, set, find?_setEntries, if_pos rfl]

theorem get?_set_ne (r : Record κ α) {k j : κ} (h : j ≠ k) (v : α) :
    (r.set k v).get? j = r.get? j := by
  rw [get?, set, find?_setEntries, if_neg h, get?]

@[simp] theorem get?_erase_self (r : Record κ α) (k : κ) : (r.erase k).get? k = none := by
  rw [get?, erase, Option.map_eq_none_iff, List.find?_eq_none]
  intro e he hk
  have := (List.mem_filter.mp he).2
  simp_all

theorem find?_filter_ne {k j : κ} (h : j ≠ k) (es : List (κ × α)) :
    ((es.filter fun e => e.1 ≠ k).find? fun e => e.1 = j) = es.find? fun e => e.1 = j := by
  induction es with
  | nil => rfl
  | cons e es ih =>
    by_cases he : e.1 = k
    · have hj : ¬ e.1 = j := fun hj => h (hj.symm.trans he)
      rw [List.filter_cons_of_neg (by simp [he]), List.find?_cons_of_neg (by simp [hj]), ih]
    · rw [List.filter_cons_of_pos (by simp [he]), List.find?_cons, List.find?_cons, ih]

theorem get?_erase_ne (r : Record κ α) {k j : κ} (h : j ≠ k) : (r.erase k).get? j = r.get? j := by
  rw [get?, erase, find?_filter_ne h, get?]

theorem get?_set (r : Record κ α) (k j : κ) (v : α) :
    (r.set k v).get? j = if j = k then some v else r.get? j := by
  split_ifs with h
  · rw [h, get?_set_self]
  · exact get?_set_ne r h v

theorem get?_erase (r : Record κ α) (k j : κ) :
    (r.erase k).get? j = if j = k then none else r.get? j := by
  split_ifs with h
  · rw [h, get?_erase_self]
  · exact get?_erase_ne r h

theorem get?_keep (r : Record κ α) (p : κ → Bool) (k : κ) :
    (r.keep p).get? k = if p k then r.get? k else none := by
  have hfind : ((r.entries.filter fun e => p e.1).find? fun e => e.1 = k) =
      if p k then r.entries.find? fun e => e.1 = k else none := by
    induction r.entries with
    | nil => simp
    | cons e es ih =>
      by_cases he : e.1 = k
      · subst he
        by_cases hp : p e.1 = true
        · simp [hp]
        · simpa [List.filter_cons, hp] using ih
      · rw [List.find?_cons_of_neg (by simpa using he), ← ih, List.filter_cons]
        split_ifs
        · rw [List.find?_cons_of_neg (by simpa using he)]
        · rfl
  rw [get?, keep, hfind, get?]
  split_ifs <;> rfl

theorem get?_mapValues {β : Type*} (f : α → β) (r : Record κ α) (k : κ) :
    (r.mapValues f).get? k = (r.get? k).map f := by
  rw [get?, mapValues, List.find?_map, Option.map_map, get?, Option.map_map]
  rfl

theorem get?_of_mem_entries {r : Record κ α} {k : κ} {v : α} (h : (k, v) ∈ r.entries) :
    r.get? k = some v := by
  have hfind : ∀ es : List (κ × α), (es.map Prod.fst).Nodup → (k, v) ∈ es →
      (es.find? fun e => e.1 = k) = some (k, v) := by
    intro es hnodup hmem
    induction es with
    | nil => cases hmem
    | cons e es ih =>
      rw [List.map_cons, List.nodup_cons] at hnodup
      rcases List.mem_cons.mp hmem with rfl | hmem
      · simp
      · have hne : ¬ e.1 = k := fun heq => hnodup.1 (heq ▸ List.mem_map_of_mem hmem)
        rw [List.find?_cons_of_neg (by simpa using hne)]
        exact ih hnodup.2 hmem
  rw [get?, hfind r.entries r.nodup h, Option.map_some]

theorem mem_entries_set {r : Record κ α} {k : κ} {v : α} {e : κ × α} (h : e ∈ (r.set k v).entries) :
    e = (k, v) ∨ e ∈ r.entries := mem_setEntries h

theorem mem_entries_of_get? {r : Record κ α} {k : κ} {v : α} (h : r.get? k = some v) :
    (k, v) ∈ r.entries := by
  obtain ⟨e, he, rfl⟩ := Option.map_eq_some_iff.mp h
  rw [← show e.1 = k from of_decide_eq_true (List.find?_some he :)]
  exact List.mem_of_find?_eq_some he

theorem eq_empty_iff {r : Record κ α} : r = ∅ ↔ ∀ k, (r.get? k).isSome ≠ true := by
  constructor
  · rintro rfl k hk
    cases hk
  · intro h
    rcases r with ⟨_ | ⟨⟨k, v⟩, es⟩, hnodup⟩
    · rfl
    · refine absurd ?_ (h k)
      rw [get?_of_mem_entries List.mem_cons_self]
      rfl

/-- The sum of a measure over the values is its sum over any set of keys that has them all. -/
theorem sum_values {M : Type*} [AddCommMonoid M] (r : Record κ α) (f : α → M) {S : Finset κ}
    (hS : ∀ k ∈ r.keys, k ∈ S) :
    (r.values.map f).sum = ∑ k ∈ S, ((r.get? k).map f).getD 0 := by
  have hkeys : ∑ k ∈ S, ((r.get? k).map f).getD 0 =
      ∑ k ∈ r.keys.toFinset, ((r.get? k).map f).getD 0 := by
    refine (Finset.sum_subset (fun k hk => hS k (List.mem_toFinset.mp hk)) ?_).symm
    intro k _ hk
    cases h : r.get? k with
    | none => rfl
    | some v => exact absurd (List.mem_toFinset.mpr (List.mem_map_of_mem (mem_entries_of_get? h))) hk
  rw [hkeys, keys, List.sum_toFinset _ r.nodup, List.map_map, values, List.map_map]
  refine congrArg List.sum (List.map_congr_left fun e he => ?_)
  simp [get?_of_mem_entries (show (e.1, e.2) ∈ r.entries from he)]

theorem sum_values_congr {β M : Type*} [AddCommMonoid M] {r : Record κ α} {s : Record κ β}
    {f : α → M} {g : β → M}
    (h : ∀ k, ((r.get? k).map f).getD 0 = ((s.get? k).map g).getD 0) :
    (r.values.map f).sum = (s.values.map g).sum := by
  have hr : ∀ k ∈ r.keys, k ∈ r.keys.toFinset ∪ s.keys.toFinset := by simp +contextual
  have hs : ∀ k ∈ s.keys, k ∈ r.keys.toFinset ∪ s.keys.toFinset := by simp +contextual
  rw [sum_values r f hr, sum_values s g hs]
  exact Finset.sum_congr rfl fun k _ => h k

/-! ## What a record lacks -/

/-- No key that satisfies `p` has a value. -/
def Lacks (r : Record κ α) (p : κ → Bool) : Prop := ∀ k, p k = true → r.get? k = none

variable {r : Record κ α} {p : κ → Bool}

theorem lacks_keep (r : Record κ α) (p : κ → Bool) : (r.keep fun k => !p k).Lacks p := by
  intro k hk
  rw [get?_keep, hk]
  rfl

theorem Lacks.keep (h : r.Lacks p) (q : κ → Bool) : (r.keep q).Lacks p := by
  intro k hk
  rw [get?_keep, h k hk]
  exact ite_self _

theorem Lacks.set (h : r.Lacks p) {k : κ} (hk : p k = false) (v : α) : (r.set k v).Lacks p := by
  intro j hj
  have hne : j ≠ k := by
    rintro rfl
    exact Bool.false_ne_true (hk.symm.trans hj)
  rw [get?_set_ne r hne]
  exact h j hj

theorem get?_keep_not (r : Record κ α) {k : κ} (hk : p k = false) :
    (r.keep fun k => !p k).get? k = r.get? k := by
  rw [get?_keep, hk]
  rfl

end Record
