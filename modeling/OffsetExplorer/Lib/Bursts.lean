import OffsetExplorer.Lib.Chunks
import Mathlib.Data.List.SplitBy

/-!
# Bursts of a list

A list is split wherever a relation of neighbours fails, and each burst is cut into pieces of one length.

* `groups`: the pieces of the bursts.
* `groups_append_of_full`, `groups_append_of_gap`, `groups_of_partial`: they can be read off from the front, a
  piece ending where it is full, where the relation fails, or with the list.
* `flatten_groups`: joined again, they are the list.
-/

namespace Chunks

variable {α : Type*}

theorem toChunksAux_append_length (n : ℕ) (b xs : List α) :
    List.toChunksAux n (b ++ xs) b.length = (b ++ (List.toChunksAux n xs 0).1, (List.toChunksAux n xs 0).2) := by
  induction b with
  | nil => rfl
  | cons x b ih =>
    rw [List.cons_append, List.length_cons, List.toChunksAux, ih]
    rfl

theorem chunks_append_of_full {size : ℕ} (hsize : 0 < size) {b : List α} (hb : b.length = size) (xs : List α) :
    chunks size (b ++ xs) = b :: chunks size xs := by
  obtain ⟨x, b, rfl⟩ := List.exists_cons_of_length_pos (hb ▸ hsize)
  rw [← hb, chunks, List.cons_append, List.length_cons, Nat.add_sub_cancel, List.toChunksAux,
    toChunksAux_append_length, toChunksAux_zero_fst, List.append_nil, chunks]
  rfl

theorem toChunksAux_of_length_le {n i : ℕ} {xs : List α} (h : xs.length ≤ i) :
    List.toChunksAux n xs i = (xs, []) := by
  induction xs generalizing i with
  | nil => rfl
  | cons x xs ih =>
    obtain ⟨i, rfl⟩ := Nat.exists_eq_add_one_of_ne_zero (Nat.ne_of_gt (Nat.lt_of_lt_of_le (Nat.succ_pos _) h))
    rw [List.toChunksAux, ih (Nat.le_of_succ_le_succ h)]

theorem chunks_of_length_le {size : ℕ} {b : List α} (hb : b ≠ []) (h : b.length ≤ size) : chunks size b = [b] := by
  obtain ⟨x, b, rfl⟩ := List.exists_cons_of_ne_nil hb
  rw [chunks, List.toChunksAux, toChunksAux_of_length_le (Nat.le_sub_one_of_lt h)]

/-! ## Pieces of bursts -/

variable (size : ℕ) (r : α → α → Bool)

/-- Runs of related elements, in pieces of a size. -/
def groups (xs : List α) : List (List α) := (xs.splitBy r).flatMap (chunks size)

theorem groups_nil : groups size r [] = [] := rfl

theorem flatten_groups (xs : List α) : (groups size r xs).flatten = xs := by
  have hparts : ∀ parts : List (List α), (parts.flatMap (chunks size)).flatten = parts.flatten := by
    intro parts
    induction parts with
    | nil => rfl
    | cons part parts ih =>
      rw [List.flatMap_cons, List.flatten_append, flatten_chunks, ih, List.flatten_cons]
  rw [groups, hparts, List.flatten_splitBy]

variable {size r}

theorem groups_of_partial {b : List α} (hb : b ≠ []) (hchain : b.IsChain fun x y => r x y) (h : b.length ≤ size) :
    groups size r b = [b] := by
  rw [groups, List.splitBy_of_isChain hb hchain, List.flatMap_singleton, chunks_of_length_le hb h]

theorem groups_append_of_gap {b xs : List α} {x : α} (hb : b ≠ []) (hchain : b.IsChain fun x y => r x y)
    (h : b.length ≤ size) (hgap : ∀ y ∈ b.getLast?, r y x = false) :
    groups size r (b ++ x :: xs) = b :: groups size r (x :: xs) := by
  rw [groups, List.splitBy_append_cons xs hgap, List.splitBy_of_isChain hb hchain, List.singleton_append,
    List.flatMap_cons, chunks_of_length_le hb h]
  rfl

theorem splitBy_append_of_join {b : List α} {x : α} (xs : List α) (hb : b ≠ []) (hchain : b.IsChain fun x y => r x y)
    (hjoin : ∀ y ∈ b.getLast?, r y x = true) :
    ∃ burst bursts, (x :: xs).splitBy r = burst :: bursts ∧
      (b ++ x :: xs).splitBy r = (b ++ burst) :: bursts := by
  obtain ⟨burst, bursts, hsplit⟩ :=
    List.exists_cons_of_ne_nil (List.splitBy_ne_nil.mpr (List.cons_ne_nil x xs) : (x :: xs).splitBy r ≠ [])
  refine ⟨burst, bursts, hsplit, ?_⟩
  obtain ⟨hflat, hnil, hchains, hbreaks⟩ := List.splitBy_eq_iff.mp hsplit
  rw [List.mem_cons, not_or] at hnil
  have hburst : burst ≠ [] := Ne.symm hnil.1
  have hhead : burst.head? = some x := by
    rw [← List.head?_append_of_ne_nil burst hburst, ← List.flatten_cons, ← hflat]
    rfl
  refine List.splitBy_eq_iff.mpr ⟨?_, ?_, ?_, ?_⟩
  · rw [hflat, List.flatten_cons, List.flatten_cons, List.append_assoc]
  · rw [List.mem_cons, not_or]
    exact ⟨fun heq => hb (List.append_eq_nil_iff.mp heq.symm).1, hnil.2⟩
  · intro m hm
    rcases List.mem_cons.mp hm with rfl | hm
    · refine List.isChain_append.mpr ⟨hchain, hchains burst List.mem_cons_self, fun y hy z hz => ?_⟩
      rw [hhead] at hz
      cases hz
      exact hjoin y hy
    · exact hchains m (List.mem_cons_of_mem burst hm)
  · rw [List.isChain_cons] at hbreaks ⊢
    refine ⟨fun next hnext => ?_, hbreaks.2⟩
    obtain ⟨hlast, hne, hfalse⟩ := hbreaks.1 next hnext
    refine ⟨List.append_ne_nil_of_left_ne_nil hb burst, hne, ?_⟩
    rwa [List.getLast_append_of_ne_nil _ hburst]

theorem groups_append_of_full (hsize : 0 < size) {b : List α} (hchain : b.IsChain fun x y => r x y)
    (h : b.length = size) (xs : List α) : groups size r (b ++ xs) = b :: groups size r xs := by
  have hb : b ≠ [] := List.ne_nil_of_length_pos (h ▸ hsize)
  cases xs with
  | nil => rw [List.append_nil, groups_of_partial hb hchain (Nat.le_of_eq h), groups_nil]
  | cons x xs =>
    by_cases hjoin : r (b.getLast hb) x = true
    · have hlast : ∀ y ∈ b.getLast?, r y x = true := fun y hy => List.getLast_of_mem_getLast? hy ▸ hjoin
      obtain ⟨burst, bursts, hrest, hall⟩ := splitBy_append_of_join xs hb hchain hlast
      rw [groups, hall, groups, hrest, List.flatMap_cons, List.flatMap_cons, chunks_append_of_full hsize h]
      rfl
    · refine groups_append_of_gap hb hchain (Nat.le_of_eq h) fun y hy => ?_
      rw [← List.getLast_of_mem_getLast? hy]
      exact eq_false_of_ne_true hjoin

end Chunks
