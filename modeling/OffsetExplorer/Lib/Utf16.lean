import Mathlib.Data.List.Basic
import Mathlib.Data.Nat.Notation
import Mathlib.Tactic.SplitIfs

/-!
# UTF-16 that need not be well formed

A text is a list of code units. Two halves of a surrogate pair are one character; a half without the other
is none, and a lossy decoder puts the replacement character in its place.

* `unitChar`: the character of a code unit that stands alone; `decodeLossy`: the characters of a text.
* **`map_unitChar_of_decodeLossy`**: a text of plain characters has one code unit for each.
-/

namespace Utf16

/-- The first half of a surrogate pair. -/
def isHigh (u : UInt16) : Bool := 0xD800 ≤ u.toNat && u.toNat < 0xDC00

/-- The second half. -/
def isLow (u : UInt16) : Bool := 0xDC00 ≤ u.toNat && u.toNat < 0xE000

/-- What stands for a code unit that is none of a text. -/
def replacement : Char := Char.ofNat 0xFFFD

/-- The character with this code. Half a surrogate pair has none, and becomes that of code zero. -/
def unitChar (u : UInt16) : Char := Char.ofNat u.toNat

/-- The character of a surrogate pair. -/
def pairChar (high low : UInt16) : Char :=
  Char.ofNat (0x10000 + (high.toNat - 0xD800) * 0x400 + (low.toNat - 0xDC00))

/-- The character of a code unit on its own. -/
def loneChar (u : UInt16) : Char := if isHigh u || isLow u then replacement else unitChar u

/-- The characters from a place on, where the first half of a pair may have come before. -/
def decodeFrom : Option UInt16 → List UInt16 → List Char
  | none, [] => []
  | some _, [] => [replacement]
  | none, u :: rest =>
    if isHigh u then decodeFrom (some u) rest else loneChar u :: decodeFrom none rest
  | some high, u :: rest =>
    if isLow u then pairChar high u :: decodeFrom none rest
    else replacement ::
      (if isHigh u then decodeFrom (some u) rest else loneChar u :: decodeFrom none rest)

/-- The characters of a text. -/
def decodeLossy (units : List UInt16) : List Char := decodeFrom none units

theorem unitChar_eq_iff {u v : UInt16} (hv : v.toNat < 0xD800) (hpos : 0 < v.toNat) :
    unitChar u = unitChar v ↔ u = v := by
  have hvalid : v.toNat.isValidChar := Or.inl hv
  refine ⟨fun h => ?_, fun h => h ▸ rfl⟩
  have hcode := congrArg Char.toNat h
  rw [unitChar, unitChar, Char.ofNat, Char.ofNat, dif_pos hvalid] at hcode
  by_cases hu : u.toNat.isValidChar
  · rw [dif_pos hu] at hcode
    exact UInt16.toNat.inj hcode
  · rw [dif_neg hu] at hcode
    exact absurd (show 0 = v.toNat from hcode) (by omega)

/-- A character that takes one code unit, and is not put in the place of another. -/
def Plain (c : Char) : Prop := c.toNat < 0x10000 ∧ c ≠ replacement

theorem toNat_pairChar {u v : UInt16} (hu : isHigh u = true) (hv : isLow v = true) :
    0x10000 ≤ (pairChar u v).toNat := by
  simp only [isHigh, isLow, Bool.and_eq_true, decide_eq_true_eq] at hu hv
  have hvalid : (0x10000 + (u.toNat - 0xD800) * 0x400 + (v.toNat - 0xDC00)).isValidChar := by
    unfold Nat.isValidChar
    omega
  rw [pairChar, Char.ofNat, dif_pos hvalid]
  exact Nat.le_trans (Nat.le_add_right _ _) (Nat.le_add_right _ _)

theorem unitChar_of_plain {u : UInt16} (h : Plain (loneChar u)) : unitChar u = loneChar u := by
  unfold loneChar at h ⊢
  split_ifs at h ⊢ with hhalf
  · exact absurd rfl h.2
  · rfl

theorem exists_not_plain {high : UInt16} (hhigh : isHigh high = true) (units : List UInt16) :
    ∃ c ∈ decodeFrom (some high) units, ¬ Plain c := by
  cases units with
  | nil => exact ⟨replacement, List.mem_cons_self, fun h => h.2 rfl⟩
  | cons u rest =>
    rw [decodeFrom]
    split_ifs with hlow
    · refine ⟨_, List.mem_cons_self, fun h => ?_⟩
      have hle := toNat_pairChar hhigh hlow
      have hlt := h.1
      omega
    · exact ⟨replacement, List.mem_cons_self, fun h => h.2 rfl⟩
    · exact ⟨replacement, List.mem_cons_self, fun h => h.2 rfl⟩

/-- **A text of plain characters has one code unit for each.** -/
theorem map_unitChar_of_decodeLossy {units : List UInt16} (h : ∀ c ∈ decodeLossy units, Plain c) :
    units.map unitChar = decodeLossy units := by
  induction units with
  | nil => rfl
  | cons u rest ih =>
    rw [decodeLossy, decodeFrom] at h ⊢
    split_ifs at h ⊢ with hhigh
    · obtain ⟨c, hc, hplain⟩ := exists_not_plain hhigh rest
      exact absurd (h c hc) hplain
    · rw [List.map_cons, unitChar_of_plain (h _ List.mem_cons_self),
        ih fun c hc => h c (List.mem_cons_of_mem _ hc)]
      rfl

end Utf16
