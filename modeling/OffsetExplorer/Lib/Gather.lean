import OffsetExplorer.Lib.Record
import Mathlib.Algebra.BigOperators.Group.Finset.Basic
import Mathlib.Algebra.Ring.Nat
import Mathlib.Logic.Embedding.Basic

/-!
# Gathering a stream by key

A stream of values with keys is put into a record: each key holds all its values, in their order.

* `mapKeys`: a function of every key; it and `mapValues` commute with setting a key.
* `push`: a value behind those that its key has; `gather`: a whole stream.
* **`get?_gather`**: a key holds the values that came with it, in their order.
* **`pairwise_keys_gather`**: the keys are in the order of their first values.
* **`sum_length_gather`**: every value of the stream is there once.
-/

namespace Record

variable {κ ι α β : Type*} [DecidableEq κ] [DecidableEq ι]

omit [DecidableEq κ] in
theorem eq_of_entries {r s : Record κ α} (h : r.entries = s.entries) : r = s := by
  cases r
  cases s
  simpa using h

theorem mem_keys_of_get? {r : Record κ α} {k : κ} {v : α} (h : r.get? k = some v) : k ∈ r.keys :=
  List.mem_map_of_mem (mem_entries_of_get? h)

theorem mem_keys_iff {r : Record κ α} {k : κ} : k ∈ r.keys ↔ ∃ v, r.get? k = some v := by
  constructor
  · intro h
    obtain ⟨⟨j, v⟩, hentry, rfl⟩ := List.mem_map.mp h
    exact ⟨v, get?_of_mem_entries hentry⟩
  · rintro ⟨v, h⟩
    exact mem_keys_of_get? h

theorem keys_set (r : Record κ α) (k : κ) (v : α) :
    (r.set k v).keys = if k ∈ r.keys then r.keys else r.keys ++ [k] := by
  have hentries : ∀ es : List (κ × α), (setEntries k v es).map Prod.fst =
      if k ∈ es.map Prod.fst then es.map Prod.fst else es.map Prod.fst ++ [k] := by
    intro es
    induction es with
    | nil => simp [setEntries]
    | cons e es ih =>
      rw [setEntries]
      by_cases he : e.1 = k
      · simp [he]
      · have hne : ¬ k = e.1 := Ne.symm he
        rw [if_neg he, List.map_cons, ih, List.map_cons]
        by_cases hk : k ∈ es.map Prod.fst
        · rw [if_pos hk, if_pos (List.mem_cons_of_mem _ hk)]
        · rw [if_neg hk, if_neg (by simp [hne, hk]), List.cons_append]
  exact hentries r.entries

/-! ## A function of every value -/

theorem mapValues_set (f : α → β) (r : Record κ α) (k : κ) (v : α) :
    (r.set k v).mapValues f = (r.mapValues f).set k (f v) := by
  have hentries : ∀ es : List (κ × α), (setEntries k v es).map (fun e => (e.1, f e.2)) =
      setEntries k (f v) (es.map fun e => (e.1, f e.2)) := by
    intro es
    induction es with
    | nil => rfl
    | cons e es ih =>
      rw [setEntries, List.map_cons, setEntries]
      by_cases he : e.1 = k
      · rw [if_pos he, if_pos he, List.map_cons]
      · rw [if_neg he, if_neg he, List.map_cons, ih]
  exact eq_of_entries (hentries r.entries)

/-! ## Other keys -/

omit [DecidableEq κ] [DecidableEq ι] in
/-- The same values under other keys. -/
def mapKeys (g : κ ↪ ι) (r : Record κ α) : Record ι α where
  entries := r.entries.map fun e => (g e.1, e.2)
  nodup := by
    rw [List.map_map, show Prod.fst ∘ (fun e : κ × α => (g e.1, e.2)) = g ∘ Prod.fst from rfl,
      ← List.map_map]
    exact r.nodup.map g.injective

theorem get?_mapKeys (g : κ ↪ ι) (r : Record κ α) (k : κ) :
    (r.mapKeys g).get? (g k) = r.get? k := by
  rw [get?, mapKeys, List.find?_map, Option.map_map, get?]
  simp only [Function.comp_def, g.injective.eq_iff]

theorem mapKeys_set (g : κ ↪ ι) (r : Record κ α) (k : κ) (v : α) :
    (r.set k v).mapKeys g = (r.mapKeys g).set (g k) v := by
  have hentries : ∀ es : List (κ × α), (setEntries k v es).map (fun e => (g e.1, e.2)) =
      setEntries (g k) v (es.map fun e => (g e.1, e.2)) := by
    intro es
    induction es with
    | nil => rfl
    | cons e es ih =>
      rw [setEntries, List.map_cons, setEntries]
      by_cases he : e.1 = k
      · rw [if_pos he, if_pos (congrArg g he), List.map_cons]
      · rw [if_neg he, if_neg fun h => he (g.injective h), List.map_cons, ih]
  exact eq_of_entries (hentries r.entries)

/-! ## Gathering -/

/-- A value behind those that its key has. -/
def push (r : Record κ (List α)) (k : κ) (v : α) : Record κ (List α) :=
  r.set k ((r.get? k).getD [] ++ [v])

/-- Every key of the stream, with its values. -/
def gather (stream : List (κ × α)) : Record κ (List α) :=
  stream.foldl (fun r e => r.push e.1 e.2) ∅

/-- The values that came with a key. -/
def valuesOf (k : κ) (stream : List (κ × α)) : List α :=
  (stream.filter fun e => e.1 = k).map Prod.snd

theorem gather_concat (stream : List (κ × α)) (e : κ × α) :
    gather (stream ++ [e]) = (gather stream).push e.1 e.2 := by
  simp [gather]

theorem valuesOf_concat (k : κ) (stream : List (κ × α)) (e : κ × α) :
    valuesOf k (stream ++ [e]) = valuesOf k stream ++ if e.1 = k then [e.2] else [] := by
  by_cases h : e.1 = k <;> simp [valuesOf, h]

theorem length_valuesOf (k : κ) (stream : List (κ × α)) :
    (valuesOf k stream).length = (stream.map Prod.fst).count k := by
  rw [valuesOf, List.length_map, List.count, List.countP_map, List.countP_eq_length_filter]
  congr 2

/-- **A key holds its values**, in their order. -/
theorem get?_gather (stream : List (κ × α)) (k : κ) :
    (gather stream).get? k =
      if valuesOf k stream = [] then none else some (valuesOf k stream) := by
  induction stream using List.reverseRecOn with
  | nil => rfl
  | append_singleton stream e ih =>
    rw [gather_concat, push, get?_set, valuesOf_concat]
    by_cases h : k = e.1
    · subst h
      rw [if_pos rfl, if_pos rfl, if_neg (by simp), ih]
      by_cases hnone : valuesOf e.1 stream = [] <;> simp [hnone]
    · rw [if_neg h, if_neg (Ne.symm h), List.append_nil, ih]

theorem eq_valuesOf_of_mem {stream : List (κ × α)} {k : κ} {vs : List α}
    (h : (k, vs) ∈ (gather stream).entries) : vs = valuesOf k stream ∧ vs ≠ [] := by
  have hget := get?_of_mem_entries h
  rw [get?_gather] at hget
  split_ifs at hget with hempty
  obtain rfl := Option.some.inj hget
  exact ⟨rfl, hempty⟩

theorem mem_keys_gather {stream : List (κ × α)} {k : κ} :
    k ∈ (gather stream).keys ↔ k ∈ stream.map Prod.fst := by
  have hempty : valuesOf k stream = [] ↔ k ∉ stream.map Prod.fst := by
    rw [← List.length_eq_zero_iff, length_valuesOf, List.count_eq_zero]
  rw [mem_keys_iff, get?_gather]
  by_cases h : valuesOf k stream = []
  · simp only [if_pos h, reduceCtorEq, exists_false, false_iff]
    exact hempty.mp h
  · simp only [if_neg h, Option.some.injEq, exists_eq', true_iff]
    exact not_not.mp fun hk => h (hempty.mpr hk)

/-- **The keys** are in the order of their first values. -/
theorem pairwise_keys_gather (stream : List (κ × α)) :
    (gather stream).keys.Pairwise fun j k =>
      (stream.map Prod.fst).idxOf j < (stream.map Prod.fst).idxOf k := by
  induction stream using List.reverseRecOn with
  | nil => exact List.Pairwise.nil
  | append_singleton stream e ih =>
    -- what was first before is first at the same place
    have hsame : ∀ k ∈ (gather stream).keys,
        ((stream ++ [e]).map Prod.fst).idxOf k = (stream.map Prod.fst).idxOf k := by
      intro k hk
      rw [List.map_append, List.idxOf_append_of_mem (mem_keys_gather.mp hk)]
    have hbefore : (gather stream).keys.Pairwise fun j k =>
        ((stream ++ [e]).map Prod.fst).idxOf j < ((stream ++ [e]).map Prod.fst).idxOf k := by
      refine ih.imp_of_mem fun {j k} hj hk hlt => ?_
      rwa [hsame j hj, hsame k hk]
    rw [gather_concat, push, keys_set]
    split_ifs with hkey
    · exact hbefore
    · rw [List.pairwise_append]
      refine ⟨hbefore, List.pairwise_singleton _ _, fun j hj k hk => ?_⟩
      obtain rfl := List.mem_singleton.mp hk
      have hnew : e.1 ∉ stream.map Prod.fst := fun h => hkey (mem_keys_gather.mpr h)
      rw [hsame j hj, List.map_append, List.idxOf_append_of_notMem hnew]
      have hlt := List.idxOf_lt_length_of_mem (mem_keys_gather.mp hj)
      omega

/-- **Every value** of the stream is there once. -/
theorem sum_length_gather (stream : List (κ × α)) :
    ((gather stream).values.map List.length).sum = stream.length := by
  have hkeys : ∀ k ∈ (gather stream).keys, k ∈ (stream.map Prod.fst).toFinset := fun k hk =>
    List.mem_toFinset.mpr (mem_keys_gather.mp hk)
  have hcount : ∀ k, (((gather stream).get? k).map List.length).getD 0 =
      (stream.map Prod.fst).count k := by
    intro k
    rw [get?_gather, ← length_valuesOf]
    by_cases h : valuesOf k stream = [] <;> simp [h]
  rw [sum_values _ _ hkeys, Finset.sum_congr rfl fun k _ => hcount k,
    List.sum_toFinset_count_eq_length, List.length_map]

end Record
