import Mathlib.Data.List.Basic
import Mathlib.Data.Nat.Notation
import Mathlib.Algebra.Ring.Nat

/-!
# Numbers in bytes, highest first

* `toBe`, `fromBe`: a number in so many bytes, and the number of bytes.
* `fromBe_toBe`: a number with room enough comes back.
-/

namespace Bytes

/-- The number of bytes in network order. -/
def fromBe (bytes : List UInt8) : ℕ := bytes.foldl (fun n b => n * 256 + b.toNat) 0

/-- A number in so many bytes in network order. -/
def toBe : ℕ → ℕ → List UInt8
  | 0, _ => []
  | width + 1, n => toBe width (n / 256) ++ [.ofNat (n % 256)]

@[simp] theorem length_toBe (width n : ℕ) : (toBe width n).length = width := by
  induction width generalizing n with
  | zero => rfl
  | succ width ih => rw [toBe, List.length_append, ih, List.length_singleton]

theorem fromBe_toBe {width n : ℕ} (h : n < 256 ^ width) : fromBe (toBe width n) = n := by
  induction width generalizing n with
  | zero =>
    rw [Nat.pow_zero] at h
    change 0 = n
    omega
  | succ width ih =>
    rw [Nat.pow_succ, Nat.mul_comm] at h
    have hlast : (UInt8.ofNat (n % 256)).toNat = n % 256 := by
      rw [UInt8.toNat_ofNat']
      omega
    have hhigh := ih (Nat.div_lt_of_lt_mul h)
    unfold fromBe at hhigh ⊢
    rw [toBe, List.foldl_append, hhigh, List.foldl_cons, List.foldl_nil, hlast]
    omega

end Bytes
