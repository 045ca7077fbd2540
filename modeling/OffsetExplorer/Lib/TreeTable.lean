import Mathlib.Algebra.BigOperators.Group.Finset.Piecewise
import Mathlib.Data.Finset.Dedup

/-!
# Sorted maps as tables of a function

A program that builds a sorted map by going over a list of keys makes the table of a function on a
finite set. Facts about such maps are stated about the function.

* `Tabulates m S g`: the keys of `m` are `S`, and each `k` has the value `g k`.
* `Tabulates.ofList`, `Tabulates.map`, `Tabulates.insert`: the operations on maps, on tables.
* `Tabulates.toList_eq`, **`Tabulates.sum_toList`**: a sum over the entries is a sum over `S`.
-/

namespace TreeTable

open Std

variable {κ α β : Type*} [Ord κ] [DecidableEq κ]

/-- `m` holds exactly the keys in `S`, each with its value under `g`. -/
def Tabulates (m : TreeMap κ α) (S : Finset κ) (g : κ → α) : Prop :=
  ∀ k, m[k]? = if k ∈ S then some (g k) else none

namespace Tabulates

variable {m : TreeMap κ α} {S : Finset κ} {g : κ → α} {k : κ}

theorem get_mem (h : Tabulates m S g) (hk : k ∈ S) : m[k]? = some (g k) := by
  rw [h k, if_pos hk]

theorem get_not_mem (h : Tabulates m S g) (hk : k ∉ S) : m[k]? = none := by
  rw [h k, if_neg hk]

theorem congr {f : κ → α} (h : Tabulates m S g) (hfg : ∀ k ∈ S, g k = f k) :
    Tabulates m S f := by
  intro k
  by_cases hk : k ∈ S
  · rw [h.get_mem hk, if_pos hk, hfg k hk]
  · rw [h.get_not_mem hk, if_neg hk]

variable [TransOrd κ]

theorem mem_iff (h : Tabulates m S g) : k ∈ m ↔ k ∈ S := by
  rw [TreeMap.mem_iff_isSome_getElem?, h k]
  split_ifs with hk <;> simp [hk]

variable [LawfulEqOrd κ]

theorem map (h : Tabulates m S g) (f : κ → α → β) :
    Tabulates (m.map f) S fun k => f k (g k) := by
  intro k
  rw [TreeMap.getElem?_map, h k]
  split_ifs <;> rfl

theorem insert (h : Tabulates m S g) (k : κ) (v : α) :
    Tabulates (m.insert k v) (Insert.insert k S) (Function.update g k v) := by
  intro j
  rw [TreeMap.getElem?_insert]
  by_cases hj : j = k
  · rw [hj, if_pos compare_self, if_pos (Finset.mem_insert_self k S), Function.update_self]
  · rw [if_neg (by simpa using fun h => hj h.symm), h j, Function.update_of_ne hj]
    simp [hj]

theorem insert_mem (h : Tabulates m S g) (hk : k ∈ S) (v : α) :
    Tabulates (m.insert k v) S (Function.update g k v) := by
  have := h.insert k v
  rwa [Finset.insert_eq_of_mem hk] at this

theorem insertMany (h : Tabulates m S g) (l : List κ) :
    Tabulates (m.insertMany (l.map fun k => (k, g k))) (S ∪ l.toFinset) g := by
  induction l generalizing m S with
  | nil => simpa using h
  | cons k l ih =>
    rw [List.map_cons, TreeMap.insertMany_cons, List.toFinset_cons, Finset.union_insert,
      ← Finset.insert_union]
    refine ih ((h.insert k (g k)).congr fun j _ => ?_)
    rw [Function.update_eq_self]

omit [LawfulEqOrd κ] in
theorem empty : Tabulates (∅ : TreeMap κ α) ∅ g := by
  intro k
  rw [TreeMap.getElem?_emptyc, if_neg (Finset.notMem_empty k)]

/-- Listing keys with their values, repetitions included, gives the table on these keys. -/
theorem ofList (l : List κ) (g : κ → α) :
    Tabulates (TreeMap.ofList (l.map fun k => (k, g k))) l.toFinset g := by
  have := (empty (g := g)).insertMany l
  rwa [Finset.empty_union] at this

theorem self (m : TreeMap κ α) (d : α) :
    Tabulates m m.keys.toFinset fun k => m[k]?.getD d := by
  intro k
  have hmem : k ∈ m.keys.toFinset ↔ m[k]?.isSome := by
    rw [List.mem_toFinset, TreeMap.mem_keys, TreeMap.mem_iff_isSome_getElem?]
  cases hk : m[k]? with
  | none => rw [if_neg (by simp [hmem, hk])]
  | some v =>
    rw [if_pos (by simp [hmem, hk])]
    simp [hk]

theorem toList_eq (h : Tabulates m S g) : m.toList = m.keys.map fun k => (k, g k) := by
  rw [← TreeMap.map_fst_toList_eq_keys, List.map_map]
  refine (List.map_id' _).symm.trans (List.map_congr_left fun e he => ?_)
  have hget := TreeMap.mem_toList_iff_getElem?_eq_some.mp he
  have hmem : e.1 ∈ S := by
    by_contra hn
    rw [h.get_not_mem hn] at hget
    cases hget
  rw [h.get_mem hmem] at hget
  exact Prod.ext rfl (Option.some.inj hget).symm

theorem keys_toFinset (h : Tabulates m S g) : m.keys.toFinset = S := by
  ext k
  rw [List.mem_toFinset, TreeMap.mem_keys, h.mem_iff]

/-- **A sum over the entries is a sum over the keys.** -/
theorem sum_toList {M : Type*} [AddCommMonoid M] (h : Tabulates m S g) (f : κ × α → M) :
    (m.toList.map f).sum = ∑ k ∈ S, f (k, g k) := by
  rw [h.toList_eq, List.map_map, ← h.keys_toFinset, List.sum_toFinset _ TreeMap.nodup_keys]
  rfl

theorem countP_toList (h : Tabulates m S g) (p : κ × α → Bool) :
    m.toList.countP p = (S.filter fun k => p (k, g k)).card := by
  rw [h.toList_eq, List.countP_map, ← h.keys_toFinset, List.countP_eq_length_filter,
    ← List.toFinset_filter, List.toFinset_card_of_nodup (TreeMap.nodup_keys.filter _)]
  rfl

end Tabulates

end TreeTable
