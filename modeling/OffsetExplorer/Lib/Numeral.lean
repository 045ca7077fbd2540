import OffsetExplorer.Lib.Digits
import Mathlib.Data.Rat.Cast.Defs
import Mathlib.Algebra.Order.Field.Rat
import Mathlib.Tactic.FieldSimp
import Mathlib.Tactic.Ring

/-!
# Numerals with a decimal point

* `Numeral`: a sign, digits in front of the point, and digits behind it.
* `Numeral.text`, `Numeral.value`: how it is written, and the number that it is.
* `Numeral.Canonical`: no zero in front of another digit.
* **`Numeral.text_injective`**: a text is one numeral at most.
-/

namespace Digits

/-- A number in decimal digits, with at least one in front of the point. -/
structure Numeral where
  negative : Bool
  whole : List Char
  fraction : List Char
  nonempty : whole ≠ []
  digital : Digital whole
  digital' : Digital fraction

namespace Numeral

variable {a b : Numeral}

/-- The point, where there is something behind it. -/
def tail (a : Numeral) : List Char := if a.fraction = [] then [] else '.' :: a.fraction

/-- The numeral as it is written. -/
def text (a : Numeral) : List Char := (if a.negative then ['-'] else []) ++ (a.whole ++ a.tail)

/-- The number that it stands for. -/
def value (a : Numeral) : ℚ :=
  (if a.negative then -1 else 1) *
    (Nat.ofDigitChars 10 a.whole 0 + Nat.ofDigitChars 10 a.fraction 0 / 10 ^ a.fraction.length)

/-- A zero stands in front of the point only alone. -/
def Canonical (a : Numeral) : Prop := a.whole.head? = some '0' → a.whole = ['0']

theorem ne_of_isDigit {c d : Char} (hc : c.isDigit = true) (hd : d.isDigit = false) : c ≠ d := by
  rintro rfl
  rw [hc] at hd
  cases hd

theorem notMem_of_digital {l : List Char} {c : Char} (h : Digital l) (hc : c.isDigit = false) :
    c ∉ l := fun hmem => ne_of_isDigit (h c hmem) hc rfl

theorem takeWhile_body (a : Numeral) : (a.whole ++ a.tail).takeWhile Char.isDigit = a.whole := by
  unfold tail
  split_ifs
  · rw [List.append_nil]
    exact List.takeWhile_eq_self_iff.mpr a.digital
  · exact takeWhile_isDigit a.digital (by decide) _

theorem minus_notMem_body (a : Numeral) : '-' ∉ a.whole ++ a.tail := by
  rw [List.mem_append, not_or]
  refine ⟨notMem_of_digital a.digital (by decide), ?_⟩
  unfold tail
  split_ifs
  · exact List.not_mem_nil
  · rw [List.mem_cons, not_or]
    exact ⟨by decide, notMem_of_digital a.digital' (by decide)⟩

theorem minus_mem_text_iff (a : Numeral) : '-' ∈ a.text ↔ a.negative = true := by
  rw [text, List.mem_append]
  have hbody := a.minus_notMem_body
  cases a.negative <;> simp [hbody]

theorem point_mem_text_iff (a : Numeral) : '.' ∈ a.text ↔ a.fraction ≠ [] := by
  have hwhole : '.' ∉ a.whole := notMem_of_digital a.digital (by decide)
  rw [text, List.mem_append, List.mem_append, tail]
  by_cases h : a.fraction = [] <;> cases a.negative <;> simp [h, hwhole]

/-- **A text** is one numeral at most. -/
theorem text_injective (h : a.text = b.text) : a = b := by
  have hsign : a.negative = b.negative := by
    rw [Bool.eq_iff_iff, ← minus_mem_text_iff, ← minus_mem_text_iff, h]
  have hbody : a.whole ++ a.tail = b.whole ++ b.tail := by
    rw [text, text, hsign] at h
    exact List.append_cancel_left h
  have hwhole : a.whole = b.whole := by
    rw [← a.takeWhile_body, hbody, takeWhile_body]
  have htail : a.tail = b.tail := by
    rw [hwhole] at hbody
    exact List.append_cancel_left hbody
  have hfraction : a.fraction = b.fraction := by
    unfold tail at htail
    split_ifs at htail with ha hb hb
    · rw [ha, hb]
    · exact (List.cons.inj htail).2
  cases a
  cases b
  simp_all

end Numeral

end Digits
