import Mathlib.Algebra.Ring.Nat
import Mathlib.Data.List.TakeWhile

/-!
# Numbers in decimal digits

* `takeWhile_isDigit`: the digits in front of a character that is none.
* `ofDigitChars_append`, `ofDigitChars_leftpad`: digits in two parts, and zeros in front.
* `eq_zero_of_head`: a number that is not zero is written without a zero in front.
* `toDigits_injective`, `repr_injective`: two numbers have two texts.
-/

namespace Digits

variable {l : List Char} {n m width : ℕ}

/-- All characters are digits. -/
def Digital (l : List Char) : Prop := ∀ c ∈ l, c.isDigit = true

theorem digital_toDigits (n : ℕ) : Digital (Nat.toDigits 10 n) := fun _ hc =>
  Nat.isDigit_of_mem_toDigits (by omega) (by omega) hc

theorem Digital.take (h : Digital l) (k : ℕ) : Digital (l.take k) := fun c hc =>
  h c (List.mem_of_mem_take hc)

theorem Digital.drop (h : Digital l) (k : ℕ) : Digital (l.drop k) := fun c hc =>
  h c (List.mem_of_mem_drop hc)

theorem Digital.leftpad (h : Digital l) (width : ℕ) : Digital (l.leftpad width '0') := by
  intro c hc
  rcases List.mem_append.mp hc with hzero | hl
  · rw [List.eq_of_mem_replicate hzero]
    decide
  · exact h c hl

theorem takeWhile_isDigit {c : Char} (h : Digital l) (hc : c.isDigit = false) (rest : List Char) :
    (l ++ c :: rest).takeWhile Char.isDigit = l := by
  rw [List.takeWhile_append_of_pos h, List.takeWhile_cons_of_neg (by simp [hc]), List.append_nil]

/-! ## Values -/

theorem ofDigitChars_append (l m : List Char) :
    Nat.ofDigitChars 10 (l ++ m) 0 =
      10 ^ m.length * Nat.ofDigitChars 10 l 0 + Nat.ofDigitChars 10 m 0 := by
  rw [Nat.ofDigitChars_append, Nat.ofDigitChars_eq_ofDigitChars_zero]

theorem eq_zero_of_head (h : (Nat.toDigits 10 n).head? = some '0') : n = 0 := by
  induction n using Nat.strongRecOn with
  | ind n ih =>
    by_cases hn : n < 10
    · rw [Nat.toDigits_of_lt_base hn, List.head?_singleton, Option.some.injEq] at h
      have hdigit := Nat.toNat_digitChar_sub_48_of_lt_ten hn
      rw [h] at hdigit
      exact hdigit.symm
    · rw [Nat.toDigits_of_base_le (by omega) (by omega),
        List.head?_append, List.head?_eq_some_head Nat.toDigits_ne_nil, Option.some_or,
        ← List.head?_eq_some_head] at h
      have htens := ih (n / 10) (by omega) h
      omega

theorem ofDigitChars_leftpad (width : ℕ) (l : List Char) :
    Nat.ofDigitChars 10 (l.leftpad width '0') 0 = Nat.ofDigitChars 10 l 0 := by
  rw [List.leftpad, Nat.ofDigitChars_append, Nat.ofDigitChars_replicate_zero, Nat.mul_zero]

theorem toDigits_injective (h : Nat.toDigits 10 n = Nat.toDigits 10 m) : n = m := by
  rw [← Nat.ofDigitChars_ten_toDigits (n := n), h, Nat.ofDigitChars_ten_toDigits]

theorem repr_injective (h : n.repr = m.repr) : n = m :=
  toDigits_injective (by rw [← Nat.toList_repr, ← Nat.toList_repr, h])

end Digits
