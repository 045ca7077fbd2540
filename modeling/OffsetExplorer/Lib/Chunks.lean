import Mathlib.Algebra.Ring.Nat
import Mathlib.Data.List.Defs
import Mathlib.Data.Nat.Notation

/-!
# Pieces of a list

A list is cut into pieces of one length from the front; the last one may be shorter.

* `chunks`: the pieces.
* `flatten_chunks`: joined again, they are the list.
* `length_le_of_mem_chunks`: how long a piece is.
* **`length_chunks_le`**: how many pieces a share for each of so many leaves.
-/

namespace Chunks

variable {α : Type*}

/-- The pieces of length `size`, which is positive. -/
def chunks (size : ℕ) (xs : List α) : List (List α) := (List.toChunksAux (size - 1) xs 0).2

theorem append_flatten_toChunksAux (n : ℕ) (xs : List α) (i : ℕ) :
    (List.toChunksAux n xs i).1 ++ (List.toChunksAux n xs i).2.flatten = xs := by
  induction xs generalizing i with
  | nil => rfl
  | cons x xs ih =>
    cases i with
    | zero => exact congrArg (x :: ·) (ih n)
    | succ i => exact congrArg (x :: ·) (ih i)

theorem toChunksAux_zero_fst (n : ℕ) (xs : List α) : (List.toChunksAux n xs 0).1 = [] := by
  cases xs <;> rfl

/-- **Nothing is lost and nothing added.** -/
theorem flatten_chunks (size : ℕ) (xs : List α) : (chunks size xs).flatten = xs := by
  have h := append_flatten_toChunksAux (size - 1) xs 0
  rwa [toChunksAux_zero_fst, List.nil_append] at h

theorem length_le_of_toChunksAux (n : ℕ) (xs : List α) (i : ℕ) :
    (List.toChunksAux n xs i).1.length ≤ i ∧
      ∀ piece ∈ (List.toChunksAux n xs i).2, piece.length ≤ n + 1 := by
  induction xs generalizing i with
  | nil => exact ⟨Nat.zero_le i, fun piece h => absurd h List.not_mem_nil⟩
  | cons x xs ih =>
    cases i with
    | zero =>
      refine ⟨Nat.zero_le 0, fun piece h => ?_⟩
      rcases List.mem_cons.mp h with rfl | h
      · exact Nat.succ_le_succ (ih n).1
      · exact (ih n).2 piece h
    | succ i => exact ⟨Nat.succ_le_succ (ih i).1, (ih i).2⟩

theorem length_le_of_mem_chunks {size : ℕ} (hsize : 0 < size) {xs piece : List α}
    (h : piece ∈ chunks size xs) : piece.length ≤ size := by
  have hle := (length_le_of_toChunksAux (size - 1) xs 0).2 piece h
  omega

theorem length_toChunksAux (n : ℕ) (xs : List α) (i : ℕ) :
    (n + 1) * (List.toChunksAux n xs i).2.length ≤ (xs.length - i) + n := by
  induction xs generalizing i with
  | nil => exact Nat.zero_le _
  | cons x xs ih =>
    cases i with
    | zero =>
      show (n + 1) * ((List.toChunksAux n xs n).2.length + 1) ≤ (xs.length + 1 - 0) + n
      have hrest := ih n
      rw [Nat.mul_succ]
      by_cases hlen : n ≤ xs.length
      · omega
      · -- the rest fits into the piece that has just begun
        have hnone : (List.toChunksAux n xs n).2.length = 0 := by
          by_contra hne
          have hone := Nat.mul_le_mul_left (n + 1) (Nat.pos_of_ne_zero hne)
          omega
        rw [hnone]
        omega
    | succ i =>
      have hrest := ih i
      show (n + 1) * (List.toChunksAux n xs i).2.length ≤ (xs.length + 1 - (i + 1)) + n
      omega

/-- **A share for each.** Pieces of the length of a share, rounded up, are no more than the shares. -/
theorem length_chunks_le {size shares : ℕ} (hsize : 0 < size) {xs : List α}
    (h : xs.length ≤ shares * size) : (chunks size xs).length ≤ shares := by
  obtain ⟨n, rfl⟩ := Nat.exists_eq_succ_of_ne_zero (Nat.ne_of_gt hsize)
  have hbound := length_toChunksAux n xs 0
  by_contra hmore
  have hmul := Nat.mul_le_mul_left (n + 1) (Nat.not_le.mp hmore)
  rw [Nat.mul_succ, Nat.mul_comm (n + 1) shares] at hmul
  have hchunks : (n + 1) * (chunks (n + 1) xs).length ≤ (xs.length - 0) + n := hbound
  simp only [Nat.succ_eq_add_one] at h hmul
  omega

end Chunks
