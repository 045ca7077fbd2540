import OffsetExplorer.Avro.ToJson
import OffsetExplorer.Lib.Numeral
import Mathlib.Algebra.Order.Ring.Cast

/-!
# What a decimal shows

`format_decimal` writes the number that the unscaled integer and the scale mean, and nothing else.

* `decimalNumeral`: what it writes, as a numeral.
* **`formatDecimal_exact`**: its text is that of one numeral only, of the number, with as many digits
  behind the point as the scale says.
-/

namespace OffsetExplorer.Avro

open Digits

/-- The digits of the number without its sign. -/
def unscaledDigits (unscaled : ℤ) : List Char := Nat.toDigits 10 unscaled.natAbs

/-- The digits in front of the point: a zero, where all of them are needed behind it. -/
def wholeDigits (unscaled : ℤ) (scale : ℕ) : List Char :=
  if scale < (unscaledDigits unscaled).length then
    (unscaledDigits unscaled).take ((unscaledDigits unscaled).length - scale)
  else ['0']

/-- The digits behind the point, filled up in front to the scale. -/
def fractionDigits (unscaled : ℤ) (scale : ℕ) : List Char :=
  if scale < (unscaledDigits unscaled).length then
    (unscaledDigits unscaled).drop ((unscaledDigits unscaled).length - scale)
  else padZeros scale (unscaledDigits unscaled)

variable (unscaled : ℤ) (scale : ℕ)

theorem digital_unscaledDigits : Digital (unscaledDigits unscaled) := digital_toDigits _

theorem length_unscaledDigits_pos : 0 < (unscaledDigits unscaled).length := Nat.length_toDigits_pos

/-- The text of `formatDecimal` as a numeral. -/
def decimalNumeral : Numeral where
  negative := decide (unscaled < 0)
  whole := wholeDigits unscaled scale
  fraction := fractionDigits unscaled scale
  nonempty := by
    have hpos := length_unscaledDigits_pos unscaled
    unfold wholeDigits
    split_ifs with h
    · rw [← List.length_pos_iff, List.length_take]
      omega
    · exact List.cons_ne_nil _ _
  digital := by
    unfold wholeDigits
    split_ifs
    · exact (digital_unscaledDigits unscaled).take _
    · simp [Digital]
  digital' := by
    unfold fractionDigits
    split_ifs
    · exact (digital_unscaledDigits unscaled).drop _
    · exact (digital_unscaledDigits unscaled).leftpad _

theorem length_fractionDigits : (fractionDigits unscaled scale).length = scale := by
  unfold fractionDigits
  split_ifs with h
  · rw [List.length_drop]
    omega
  · rw [padZeros, List.length_leftpad]
    omega

theorem wholeDigits_append (h : scale < (unscaledDigits unscaled).length) :
    wholeDigits unscaled scale ++ fractionDigits unscaled scale = unscaledDigits unscaled := by
  rw [wholeDigits, fractionDigits, if_pos h, if_pos h, List.take_append_drop]

theorem ofDigitChars_parts :
    10 ^ scale * Nat.ofDigitChars 10 (wholeDigits unscaled scale) 0 +
      Nat.ofDigitChars 10 (fractionDigits unscaled scale) 0 = unscaled.natAbs := by
  by_cases h : scale < (unscaledDigits unscaled).length
  · have hparts := ofDigitChars_append (wholeDigits unscaled scale) (fractionDigits unscaled scale)
    rw [wholeDigits_append unscaled scale h, length_fractionDigits] at hparts
    rw [← hparts]
    exact Nat.ofDigitChars_ten_toDigits
  · rw [wholeDigits, fractionDigits, if_neg h, if_neg h, padZeros, ofDigitChars_leftpad]
    have hzero : Nat.ofDigitChars 10 ['0'] 0 = 0 := rfl
    rw [hzero, Nat.mul_zero, Nat.zero_add]
    exact Nat.ofDigitChars_ten_toDigits

theorem value_decimalNumeral :
    (decimalNumeral unscaled scale).value = (unscaled : ℚ) / 10 ^ scale := by
  have hparts := congrArg (Nat.cast (R := ℚ)) (ofDigitChars_parts unscaled scale)
  push_cast at hparts
  have hpow : (10 : ℚ) ^ scale ≠ 0 := pow_ne_zero _ (by norm_num)
  have habs : ((unscaled.natAbs : ℕ) : ℚ) = |(unscaled : ℚ)| := by
    rw [← Int.cast_natCast, Int.natCast_natAbs, Int.cast_abs]
  change (if decide (unscaled < 0) = true then (-1 : ℚ) else 1) *
    (Nat.ofDigitChars 10 (wholeDigits unscaled scale) 0 +
      Nat.ofDigitChars 10 (fractionDigits unscaled scale) 0 /
        10 ^ (fractionDigits unscaled scale).length) = _
  have hsum : (Nat.ofDigitChars 10 (wholeDigits unscaled scale) 0 : ℚ) +
      Nat.ofDigitChars 10 (fractionDigits unscaled scale) 0 / 10 ^ scale =
        |(unscaled : ℚ)| / 10 ^ scale := by
    rw [← habs, ← hparts]
    field_simp
  rw [length_fractionDigits, hsum]
  by_cases hneg : unscaled < 0
  · have hcast : (unscaled : ℚ) < 0 := by exact_mod_cast hneg
    rw [if_pos (by simpa using hneg), abs_of_neg hcast]
    ring
  · have hcast : 0 ≤ (unscaled : ℚ) := by exact_mod_cast not_lt.mp hneg
    rw [if_neg (by simpa using hneg), abs_of_nonneg hcast, one_mul]

theorem canonical_decimalNumeral : (decimalNumeral unscaled scale).Canonical := by
  change (wholeDigits unscaled scale).head? = some '0' → wholeDigits unscaled scale = ['0']
  unfold wholeDigits
  split_ifs with h
  · intro hhead
    have hpos : (unscaledDigits unscaled).length - scale ≠ 0 := by omega
    rw [List.head?_take, if_neg hpos] at hhead
    have hzero : unscaled.natAbs = 0 := eq_zero_of_head hhead
    have hdigits : unscaledDigits unscaled = ['0'] := by
      rw [unscaledDigits, hzero]
      rfl
    rw [hdigits] at h ⊢
    obtain rfl : scale = 0 := by simpa using h
    rfl
  · exact fun _ => rfl

theorem toList_toString_int :
    (toString unscaled).toList = (if unscaled < 0 then ['-'] else []) ++ unscaledDigits unscaled := by
  change unscaled.repr.toList = _
  rw [Int.repr_eq_if, unscaledDigits, ← Nat.toList_repr]
  by_cases h : 0 ≤ unscaled
  · have habs : unscaled.toNat = unscaled.natAbs := by omega
    rw [if_pos h, if_neg (by omega), habs]
    rfl
  · have habs : (-unscaled).toNat = unscaled.natAbs := by omega
    rw [if_neg h, if_pos (by omega), habs, String.toList_append]
    rfl

/-- **What is written** is the numeral. -/
theorem text_decimalNumeral :
    (decimalNumeral unscaled scale).text = (formatDecimal unscaled scale).toList := by
  have hsign : (if decide (unscaled < 0) = true then ['-'] else []) =
      (if unscaled < 0 then "-" else "").toList := by
    by_cases h : unscaled < 0 <;> simp [h]
  have hdigits : (toString unscaled.natAbs).toList = unscaledDigits unscaled := Nat.toList_repr
  change (if decide (unscaled < 0) = true then ['-'] else []) ++ (wholeDigits unscaled scale ++
    if fractionDigits unscaled scale = [] then [] else '.' :: fractionDigits unscaled scale) = _
  rw [formatDecimal]
  by_cases hscale : scale = 0
  · subst hscale
    have hpos := length_unscaledDigits_pos unscaled
    have hwhole : wholeDigits unscaled 0 = unscaledDigits unscaled := by
      rw [wholeDigits, if_pos hpos, Nat.sub_zero, List.take_length]
    have hempty : fractionDigits unscaled 0 = [] :=
      List.length_eq_zero_iff.mp (length_fractionDigits unscaled 0)
    rw [if_pos rfl, hwhole, hempty, if_pos rfl, List.append_nil, toList_toString_int]
    simp
  · have hsome : fractionDigits unscaled scale ≠ [] := by
      rw [← List.length_pos_iff, length_fractionDigits]
      omega
    rw [if_neg hscale, if_neg hsome, hsign]
    simp only [hdigits]
    by_cases h : scale < (unscaledDigits unscaled).length
    · rw [wholeDigits, fractionDigits, if_pos h, if_pos h, if_pos h]
      simp
    · rw [wholeDigits, fractionDigits, if_neg h, if_neg h, if_neg h]
      simp

/-- **Decimals are shown exactly**: the text is that of one numeral only; it is the number that is
meant, with so many digits behind the point, a point where there are any, a sign for what is less than
zero, and no zero in front of another digit. -/
theorem formatDecimal_exact (unscaled : ℤ) (scale : ℕ) :
    ∃ numeral : Numeral,
      (∀ other : Numeral, other.text = (formatDecimal unscaled scale).toList ↔ other = numeral) ∧
      numeral.value = (unscaled : ℚ) / 10 ^ scale ∧
      numeral.fraction.length = scale ∧
      ('.' ∈ (formatDecimal unscaled scale).toList ↔ scale ≠ 0) ∧
      ('-' ∈ (formatDecimal unscaled scale).toList ↔ unscaled < 0) ∧
      numeral.Canonical := by
  have htext := text_decimalNumeral unscaled scale
  refine ⟨decimalNumeral unscaled scale, fun other => ⟨fun h => ?_, fun h => ?_⟩,
    value_decimalNumeral unscaled scale, length_fractionDigits unscaled scale, ?_, ?_,
    canonical_decimalNumeral unscaled scale⟩
  · exact Numeral.text_injective (h.trans htext.symm)
  · rw [h, htext]
  · rw [← htext, Numeral.point_mem_text_iff]
    change fractionDigits unscaled scale ≠ [] ↔ _
    rw [← List.length_pos_iff, length_fractionDigits, Nat.pos_iff_ne_zero]
  · rw [← htext, Numeral.minus_mem_text_iff]
    exact decide_eq_true_iff

end OffsetExplorer.Avro
