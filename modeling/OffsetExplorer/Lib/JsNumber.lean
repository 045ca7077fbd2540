import OffsetExplorer.Lib.Binary64
import OffsetExplorer.Lib.Digits
import Mathlib.Data.Rat.Cast.Order

/-!
# Numbers of a script

The numbers of a scripting language with doubles only: how they are read from text, what a few of its
operations give, and how they are written as JSON. The sign of zero, which none of this shows, is left
out.

* `JsNumber`: a finite double, an infinity or no number; `ofRat`: a rational rounded.
* `ofLiteral`: what a trimmed text is as a number.
* `min`, `max`, `floor`, `trunc`, `Le`: as the language has them.
* `shortest`: the digits of an integer; `integerLiteral`: the integer that is written for a number.
* **`integerLiteral_iff`**: which numbers are written as an integer of a given range; `isU32_iff`,
  `isI32_iff`, `isU64_iff`, `isI64_iff`: of those of fixed width.
* `ofRat_mono`: rounding keeps the order, also past the largest double.
* `ofLiteral_toString`, **`ofRat_of_integerLiteral`**: what is written as an integer is read as the same number.
-/

open Binary64 Digits

/-- A number of the language. There is one zero only. -/
inductive JsNumber where
  | nan
  | infinity (negative : Bool)
  | finite (value : Double)
  deriving DecidableEq

namespace JsNumber

/-- A rational, rounded; past the largest double it is infinite. -/
def ofRat (q : ℚ) : JsNumber :=
  if h : |nearest q| < 2 ^ 1024 then .finite ⟨nearest q, nearest_nearest q, h⟩
  else .infinity (q < 0)

instance (n : ℕ) : OfNat JsNumber n := ⟨ofRat n⟩

/-! ## Reading a text -/

/-- The value of digits in a base, if there are some and all are digits of it. -/
def digits (base : ℕ) (l : List Char) : Option ℕ :=
  let digit (c : Char) : Option ℕ :=
    if c.isDigit then some (c.toNat - 48)
    else if 'a' ≤ c ∧ c ≤ 'z' then some (c.toNat - 87)
    else if 'A' ≤ c ∧ c ≤ 'Z' then some (c.toNat - 55)
    else none
  if l.isEmpty then none
  else l.foldl (fun n c => do
    let n ← n
    let d ← digit c
    if d < base then some (n * base + d) else none) (some 0)

/-- The exponent that ends a decimal literal. -/
def exponentPart : List Char → Option ℤ
  | [] => some 0
  | c :: rest =>
    if c = 'e' ∨ c = 'E' then
      match rest with
      | '+' :: rest => (digits 10 rest).map fun n => (n : ℤ)
      | '-' :: rest => (digits 10 rest).map fun n => -(n : ℤ)
      | rest => (digits 10 rest).map fun n => (n : ℤ)
    else none

/-- A decimal literal: digits with a point somewhere, and an exponent. -/
def decimal (l : List Char) : Option ℚ := do
  let whole := l.takeWhile Char.isDigit
  let rest := l.dropWhile Char.isDigit
  let fraction := if rest.head? = some '.' then rest.tail.takeWhile Char.isDigit else []
  let rest := if rest.head? = some '.' then rest.tail.dropWhile Char.isDigit else rest
  let mantissa ← digits 10 (whole ++ fraction)
  let exponent ← exponentPart rest
  return mantissa * 10 ^ (exponent - fraction.length)

/-- A literal after its sign. -/
def unsigned (negative : Bool) (l : List Char) : JsNumber :=
  if l = "Infinity".toList then .infinity negative
  else
    match decimal l with
    | some q => ofRat (if negative then -q else q)
    | none => .nan

/-- What a text is as a number, once it is trimmed. -/
def ofLiteral : List Char → JsNumber
  | [] => 0
  | '0' :: 'b' :: rest | '0' :: 'B' :: rest => ((digits 2 rest).map fun n => ofRat n).getD .nan
  | '0' :: 'o' :: rest | '0' :: 'O' :: rest => ((digits 8 rest).map fun n => ofRat n).getD .nan
  | '0' :: 'x' :: rest | '0' :: 'X' :: rest => ((digits 16 rest).map fun n => ofRat n).getD .nan
  | '+' :: rest => unsigned false rest
  | '-' :: rest => unsigned true rest
  | l => unsigned false l

/-- The number, unless it is infinite or none. -/
def toFinite : JsNumber → Option Double
  | .finite v => some v
  | _ => none

/-! ## Operations -/

/-- `a < b`; nothing is less or more than what is no number. -/
def lt : JsNumber → JsNumber → Bool
  | .finite a, .finite b => a.value < b.value
  | .infinity a, .infinity b => a && !b
  | .infinity a, .finite _ => a
  | .finite _, .infinity b => !b
  | _, _ => false

/-- `a <= b`. -/
def Le (a b : JsNumber) : Prop := a ≠ .nan ∧ b ≠ .nan ∧ lt b a = false

instance (a b : JsNumber) : Decidable (Le a b) := inferInstanceAs (Decidable (_ ∧ _))

/-- The smaller number, or none if one of them is none. -/
def min (a b : JsNumber) : JsNumber :=
  if a = .nan ∨ b = .nan then .nan else if lt b a then b else a

/-- The larger number, or none if one of them is none. -/
def max (a b : JsNumber) : JsNumber :=
  if a = .nan ∨ b = .nan then .nan else if lt a b then b else a

/-- An operation on finite numbers that keeps the others. -/
def mapFinite (f : ℚ → ℚ) : JsNumber → JsNumber
  | .finite v => ofRat (f v.value)
  | x => x

/-- The largest integer that is not above. -/
def floor : JsNumber → JsNumber := mapFinite fun q => ⌊q⌋

/-- The number without its fraction. -/
def trunc : JsNumber → JsNumber := mapFinite fun q => if 0 ≤ q then ⌊q⌋ else ⌈q⌉

/-- `a * b` of finite numbers. -/
def mul (a b : ℚ) : JsNumber := ofRat (a * b)

/-- `a / b` of a finite number; `b` is not zero. -/
def quotient (a : ℚ) : JsNumber → JsNumber
  | .finite b => ofRat (a / b.value)
  | .infinity _ => 0
  | .nan => .nan

/-! ## Writing JSON -/

/-- The nearest multiple of a power of ten. -/
def multipleNear (n p : ℕ) : ℕ := (2 * n + 10 ^ p) / (2 * 10 ^ p) * 10 ^ p

/-- The digits of an integer below `10 ^ 21`: as many zeros at the end as still read as the same. -/
def shortest (n : ℕ) : ℕ :=
  (((List.range 21).reverse.map (multipleNear n)).find? fun s : ℕ => nearest s = n).getD n

/-- The integer that is written for a number, if it is written as one. -/
def integerLiteral (v : Double) : Option ℤ :=
  if v.value.den = 1 ∧ |v.value| < 10 ^ 21 then
    some (v.value.num.sign * shortest v.value.num.natAbs)
  else none

variable {n B L M H : ℕ} {q r : ℚ}

theorem nearest_shortest (h : nearest n = n) : nearest (shortest n) = n := by
  have hself : multipleNear n 0 = n := by
    unfold multipleNear
    omega
  have hmem : n ∈ (List.range 21).reverse.map (multipleNear n) :=
    List.mem_map.mpr ⟨0, by simp, hself⟩
  unfold shortest
  cases hfind : ((List.range 21).reverse.map (multipleNear n)).find? fun s : ℕ => nearest s = n with
  | none => exact absurd (decide_eq_true h) (List.find?_eq_none.mp hfind n hmem)
  | some s =>
    have hs := List.find?_some hfind
    exact of_decide_eq_true hs

theorem nearest_natCast_mono {m n : ℕ} (h : m ≤ n) : nearest m ≤ nearest n :=
  nearest_mono (Nat.cast_nonneg m) (Nat.cast_le.mpr h)

/-- A double that is written with no less than its value bounds what is written for those below. -/
theorem shortest_lt_iff (hB : nearest B = B) (hs : B ≤ shortest B) (hn : nearest n = n) :
    shortest n < B ↔ n < B := by
  have hread := nearest_shortest hn
  constructor
  · intro h
    have hle := nearest_natCast_mono h.le
    rw [hread, hB, Nat.cast_le] at hle
    refine hle.lt_of_ne fun heq => ?_
    rw [heq] at h
    omega
  · intro h
    by_contra hge
    have hle := nearest_natCast_mono (Nat.le_of_not_lt hge)
    rw [hread, hB, Nat.cast_le] at hle
    omega

theorem shortest_le_iff (hB : nearest B = B) (hs : B < shortest B) (hn : nearest n = n) :
    shortest n ≤ B ↔ n < B := by
  refine ⟨fun h => ?_, fun h => ((shortest_lt_iff hB hs.le hn).mpr h).le⟩
  have hle := nearest_natCast_mono h
  rw [nearest_shortest hn, hB, Nat.cast_le] at hle
  refine hle.lt_of_ne fun heq => ?_
  rw [heq] at h
  omega

theorem shortest_eq (h : n < 2 ^ 53) : shortest n = n := by
  have hB : nearest ((2 ^ 53 : ℕ) : ℚ) = (2 ^ 53 : ℕ) := by decide +kernel
  have hs : 2 ^ 53 ≤ shortest (2 ^ 53) := by decide +kernel
  have hn := nearest_natCast h
  have hlt := (shortest_lt_iff hB hs hn).mpr h
  have hread := nearest_shortest hn
  rw [nearest_natCast hlt] at hread
  exact_mod_cast hread

/-- An integer of a range. -/
def Within (a b : ℤ) (v : Double) : Prop := ∃ z : ℤ, v.value = z ∧ a ≤ z ∧ z ≤ b

theorem nearest_natAbs {v : Double} {z : ℤ} (hz : v.value = z) :
    nearest z.natAbs = z.natAbs := by
  have hv := v.nearest_value
  rw [hz] at hv
  rcases Int.natAbs_eq z with h | h
  · rwa [h, Int.cast_natCast] at hv
  · rwa [h, Int.cast_neg, nearest_neg, neg_inj, Int.cast_natCast] at hv

theorem integerLiteral_of_int {v : Double} {z : ℤ} (hz : v.value = z) (hlt : |z| < 10 ^ 21) :
    integerLiteral v = some (z.sign * shortest z.natAbs) := by
  have hcond : v.value.den = 1 ∧ |v.value| < 10 ^ 21 := by
    rw [hz]
    exact ⟨rfl, by exact_mod_cast hlt⟩
  rw [integerLiteral, if_pos hcond, hz]
  rfl

theorem integerLiteral_of_abs_lt {v : Double} {z : ℤ} (hz : v.value = z) (h : |z| < 2 ^ 53) :
    integerLiteral v = some z := by
  have habs : z.natAbs < 2 ^ 53 := by
    rw [Int.abs_eq_natAbs] at h
    exact_mod_cast h
  rw [integerLiteral_of_int hz (by omega), shortest_eq habs, Int.sign_mul_natAbs]

theorem integerLiteral_natCast {v : Double} (hv : v.value = n) (hn : n < 2 ^ 53) :
    integerLiteral v = some (n : ℤ) := by
  refine integerLiteral_of_abs_lt (by exact_mod_cast hv) ?_
  rw [abs_of_nonneg (Int.natCast_nonneg n)]
  exact_mod_cast hn

/-- **What is written as an integer of a range.** `L` bounds what is written for negative numbers, and
`M` these numbers themselves. -/
theorem integerLiteral_iff (v : Double)
    (hneg : ∀ n : ℕ, 0 < n → nearest n = n → (shortest n ≤ L ↔ n ≤ M))
    (hpos : ∀ n : ℕ, nearest n = n → (shortest n ≤ H ↔ n ≤ H)) (hL : M < 10 ^ 21)
    (hH : H < 10 ^ 21) :
    (∃ k ∈ integerLiteral v, -(L : ℤ) ≤ k ∧ k ≤ H) ↔ Within (-M) H v := by
  have hrange : ∀ z : ℤ, v.value = z → (-(L : ℤ) ≤ z.sign * shortest z.natAbs ∧
      z.sign * shortest z.natAbs ≤ H ↔ -(M : ℤ) ≤ z ∧ z ≤ H) := by
    intro z hz
    have hnearest := nearest_natAbs hz
    rcases lt_or_ge z 0 with h | h
    · have := hneg z.natAbs (by omega) hnearest
      rw [Int.sign_eq_neg_one_of_neg h]
      omega
    · have := hpos z.natAbs hnearest
      rcases h.eq_or_lt with rfl | h
      · simp
      · rw [Int.sign_eq_one_of_pos h]
        omega
  constructor
  · rintro ⟨k, hk, hkrange⟩
    have hcond : v.value.den = 1 ∧ |v.value| < 10 ^ 21 := by
      by_contra hnot
      rw [integerLiteral, if_neg hnot] at hk
      cases hk
    have hz : v.value = v.value.num := (Rat.den_eq_one_iff _).mp hcond.1 |>.symm
    have hlt : |v.value.num| < 10 ^ 21 := by
      have := hcond.2
      rw [hz] at this
      exact_mod_cast this
    rw [integerLiteral_of_int hz hlt] at hk
    cases hk
    exact ⟨v.value.num, hz, (hrange _ hz).mp hkrange⟩
  · rintro ⟨z, hz, hzrange⟩
    have hlt : |z| < 10 ^ 21 := by
      rw [abs_lt]
      omega
    exact ⟨_, integerLiteral_of_int hz hlt, (hrange z hz).mpr hzrange⟩

theorem shortest_le_pred_iff (hB : nearest B = B) (hs : B ≤ shortest B) (hpos : 0 < B)
    (hn : nearest n = n) : shortest n ≤ B - 1 ↔ n ≤ B - 1 := by
  have := shortest_lt_iff hB hs hn
  omega

theorem not_shortest_le_zero (hpos : 0 < n) (hn : nearest n = n) : shortest n ≤ 0 ↔ n ≤ 0 := by
  refine iff_of_false (fun h => ?_) (by omega)
  have hread := nearest_shortest hn
  rw [Nat.le_zero.mp h, Nat.cast_zero, nearest_zero] at hread
  have := Nat.cast_eq_zero.mp hread.symm
  omega

theorem isU32_iff (v : Double) :
    (∃ k ∈ integerLiteral v, 0 ≤ k ∧ k ≤ 2 ^ 32 - 1) ↔ Within 0 (2 ^ 32 - 1) v :=
  integerLiteral_iff (L := 0) (M := 0) (H := 2 ^ 32 - 1) v
    (fun _ hpos hn => not_shortest_le_zero hpos hn)
    (fun _ hn => shortest_le_pred_iff (by decide +kernel) (by decide +kernel) (by norm_num) hn)
    (by norm_num) (by norm_num)

theorem isI32_iff (v : Double) :
    (∃ k ∈ integerLiteral v, -2 ^ 31 ≤ k ∧ k ≤ 2 ^ 31 - 1) ↔ Within (-2 ^ 31) (2 ^ 31 - 1) v :=
  integerLiteral_iff (L := 2 ^ 31) (M := 2 ^ 31) (H := 2 ^ 31 - 1) v
    (fun _ _ hn => shortest_le_pred_iff (B := 2 ^ 31 + 1) (by decide +kernel) (by decide +kernel)
      (by norm_num) hn)
    (fun _ hn => shortest_le_pred_iff (by decide +kernel) (by decide +kernel) (by norm_num) hn)
    (by norm_num) (by norm_num)

theorem isU64_iff (v : Double) :
    (∃ k ∈ integerLiteral v, 0 ≤ k ∧ k ≤ 2 ^ 64 - 1) ↔ Within 0 (2 ^ 64 - 1) v :=
  integerLiteral_iff (L := 0) (M := 0) (H := 2 ^ 64 - 1) v
    (fun _ hpos hn => not_shortest_le_zero hpos hn)
    (fun _ hn => shortest_le_pred_iff (by decide +kernel) (by decide +kernel) (by norm_num) hn)
    (by norm_num) (by norm_num)

/-- The least integer of 64 bits is a double, but what is written for it is less. -/
theorem isI64_iff (v : Double) :
    (∃ k ∈ integerLiteral v, -2 ^ 63 ≤ k ∧ k ≤ 2 ^ 63 - 1) ↔
      Within (-(2 ^ 63 - 1)) (2 ^ 63 - 1) v := by
  refine integerLiteral_iff (L := 2 ^ 63) (M := 2 ^ 63 - 1) (H := 2 ^ 63 - 1) v
    (fun n _ hn => ?_)
    (fun _ hn => shortest_le_pred_iff (by decide +kernel) (by decide +kernel) (by norm_num) hn)
    (by norm_num) (by norm_num)
  have := shortest_le_iff (B := 2 ^ 63) (by decide +kernel) (by decide +kernel) hn
  omega

/-! ## The order -/

theorem ofRat_natCast (h : n < 2 ^ 53) : ∃ v : Double, ofRat n = .finite v ∧ v.value = n := by
  have hn := nearest_natCast h
  have hlt : |nearest n| < 2 ^ 1024 := by
    rw [hn, Nat.abs_cast]
    calc (n : ℚ) < 2 ^ 53 := by exact_mod_cast h
      _ ≤ 2 ^ 1024 := pow_le_pow_right₀ one_le_two (by norm_num)
  exact ⟨⟨nearest n, nearest_nearest n, hlt⟩, dif_pos hlt, hn⟩

theorem exists_ofRat_intCast {z : ℤ} (h : |z| ≤ 2 ^ 63) :
    ∃ v : Double, ofRat z = .finite v ∧ v.value = nearest z ∧ ∃ k : ℤ, v.value = k ∧ |k| ≤ 2 ^ 63 := by
  have hz : |(z : ℚ)| ≤ 2 ^ (63 : ℤ) := by exact_mod_cast h
  have hle := abs_nearest_le (by norm_num) hz
  have hlt : |nearest z| < 2 ^ 1024 := by
    refine hle.trans_lt ?_
    rw [zpow_ofNat]
    exact pow_lt_pow_right₀ one_lt_two (by norm_num)
  obtain ⟨k, hk⟩ := exists_nearest_intCast z
  refine ⟨⟨nearest z, nearest_nearest z, hlt⟩, dif_pos hlt, rfl, k, hk, ?_⟩
  rw [hk] at hle
  exact_mod_cast hle

/-- **Rounding keeps the order**, also past the largest double. -/
theorem ofRat_mono (hq : 0 ≤ q) (h : q ≤ r) : Le (ofRat q) (ofRat r) := by
  have hle := nearest_mono hq h
  have hr : 0 ≤ r := hq.trans h
  have hqn : decide (q < 0) = false := decide_eq_false (not_lt.mpr hq)
  have hrn : decide (r < 0) = false := decide_eq_false (not_lt.mpr hr)
  have habs : |nearest q| ≤ |nearest r| := by
    rwa [abs_of_nonneg (nearest_nonneg hq), abs_of_nonneg (nearest_nonneg hr)]
  unfold ofRat Le
  rw [hqn, hrn]
  by_cases hbig : |nearest r| < 2 ^ 1024
  · rw [dif_pos hbig, dif_pos (habs.trans_lt hbig)]
    refine ⟨JsNumber.noConfusion, JsNumber.noConfusion, ?_⟩
    exact decide_eq_false (not_lt.mpr hle)
  · rw [dif_neg hbig]
    split_ifs
    · exact ⟨JsNumber.noConfusion, JsNumber.noConfusion, rfl⟩
    · exact ⟨JsNumber.noConfusion, JsNumber.noConfusion, rfl⟩

theorem max_of_lt {a b : JsNumber} (ha : a ≠ .nan) (hb : b ≠ .nan) (h : lt a b = true) :
    max a b = b := by
  rw [max, if_neg (not_or.mpr ⟨ha, hb⟩), if_pos h]

theorem max_of_not_lt {a b : JsNumber} (ha : a ≠ .nan) (hb : b ≠ .nan) (h : lt a b = false) :
    max a b = a := by
  rw [max, if_neg (not_or.mpr ⟨ha, hb⟩), h, if_neg Bool.false_ne_true]

theorem min_of_lt {a b : JsNumber} (ha : a ≠ .nan) (hb : b ≠ .nan) (h : lt b a = true) :
    min a b = b := by
  rw [min, if_neg (not_or.mpr ⟨ha, hb⟩), if_pos h]

theorem min_of_not_lt {a b : JsNumber} (ha : a ≠ .nan) (hb : b ≠ .nan) (h : lt b a = false) :
    min a b = a := by
  rw [min, if_neg (not_or.mpr ⟨ha, hb⟩), h, if_neg Bool.false_ne_true]

theorem ofRat_ne_nan (q : ℚ) : ofRat q ≠ .nan := by
  unfold ofRat
  split_ifs
  · exact JsNumber.noConfusion
  · exact JsNumber.noConfusion

theorem min_eq_or {a b : JsNumber} (ha : a ≠ .nan) (hb : b ≠ .nan) : min a b = a ∨ min a b = b := by
  by_cases h : lt b a = true
  · exact .inr (min_of_lt ha hb h)
  · exact .inl (min_of_not_lt ha hb (Bool.eq_false_iff.mpr h))

theorem quotient_ofRat {a m : ℕ} (ha : a < 2 ^ 53) (hm : 0 < m) :
    ∃ v : Double, quotient a (ofRat m) = .finite v ∧
      (v.value = 0 ∨ v.value = nearest (a / nearest m)) := by
  by_cases h : |nearest (m : ℚ)| < 2 ^ 1024
  · have hone : (1 : ℚ) ≤ nearest m := by
      have hle := nearest_natCast_mono (m := 1) (n := m) hm
      rwa [nearest_natCast (by norm_num), Nat.cast_one] at hle
    have hnonneg : (0 : ℚ) ≤ a / nearest m := div_nonneg (Nat.cast_nonneg a) (zero_le_one.trans hone)
    have hle := nearest_mono hnonneg (div_le_self (Nat.cast_nonneg a) hone)
    rw [nearest_natCast ha] at hle
    have hlt : |nearest (a / nearest m)| < 2 ^ 1024 := by
      rw [abs_of_nonneg (nearest_nonneg hnonneg)]
      calc nearest (a / nearest m) ≤ a := hle
        _ < 2 ^ 53 := by exact_mod_cast ha
        _ ≤ 2 ^ 1024 := pow_le_pow_right₀ one_le_two (by norm_num)
    rw [ofRat, dif_pos h]
    exact ⟨⟨_, nearest_nearest _, hlt⟩, dif_pos hlt, .inr rfl⟩
  · obtain ⟨zero, hzero, hvalue⟩ := ofRat_natCast (n := 0) (by norm_num)
    rw [ofRat, dif_neg h]
    exact ⟨zero, hzero, .inl (hvalue.trans Nat.cast_zero)⟩

theorem lt_ofRat_of_nonpos (n : ℕ) (hn : n < 2 ^ 53) (hq : q ≤ 0) : lt (ofRat n) (ofRat q) = false := by
  obtain ⟨v, hv, hvn⟩ := ofRat_natCast hn
  have hnonneg : 0 ≤ nearest (-q) := nearest_nonneg (neg_nonneg.mpr hq)
  rw [nearest_neg] at hnonneg
  rw [hv, ofRat]
  split_ifs with h
  · refine decide_eq_false (not_lt.mpr ?_)
    rw [hvn]
    exact (neg_nonneg.mp hnonneg).trans (Nat.cast_nonneg n)
  · have hne : q ≠ 0 := by
      rintro rfl
      rw [nearest_zero, abs_zero] at h
      exact h (by positivity)
    have hlt : decide (q < 0) = true := decide_eq_true (hq.lt_of_ne hne)
    rw [hlt]
    rfl

theorem finite_eq_ofRat {v : Double} (hv : v.value = n) (hn : n < 2 ^ 53) : finite v = ofRat n := by
  obtain ⟨w, hw, hwn⟩ := ofRat_natCast hn
  rw [hw, Double.ext (hv.trans hwn.symm)]

theorem ofRat_floor (v : Double) (h : 0 ≤ v.value) :
    ∃ w : Double, ofRat ⌊v.value⌋ = .finite w ∧ w.value = ⌊v.value⌋ := by
  have hfloor := v.nearest_floor h
  have hle : |(⌊v.value⌋ : ℚ)| ≤ |v.value| := by
    rw [abs_of_nonneg (by exact_mod_cast Int.floor_nonneg.mpr h), abs_of_nonneg h]
    exact Int.floor_le v.value
  have hlt : |nearest ⌊v.value⌋| < 2 ^ 1024 := by
    rw [hfloor]
    exact hle.trans_lt v.abs_lt
  exact ⟨⟨nearest ⌊v.value⌋, nearest_nearest _, hlt⟩, dif_pos hlt, hfloor⟩

theorem lt_ofRat_floor_iff (hn : n < 2 ^ 53) (v : Double) :
    lt (ofRat n) (ofRat ⌊v.value⌋) = true ↔ (n : ℤ) < ⌊v.value⌋ := by
  rcases lt_or_ge v.value 0 with hneg | hpos
  · have hfloor : ⌊v.value⌋ < 0 := Int.floor_lt.mpr (by rwa [Int.cast_zero])
    rw [lt_ofRat_of_nonpos n hn (by exact_mod_cast hfloor.le)]
    exact iff_of_false Bool.false_ne_true (by omega)
  · obtain ⟨a, ha, han⟩ := ofRat_natCast hn
    obtain ⟨w, hw, hwv⟩ := ofRat_floor v hpos
    rw [ha, hw]
    show decide (a.value < w.value) = true ↔ _
    rw [decide_eq_true_iff, han, hwv]
    exact_mod_cast Iff.rfl

theorem ofRat_floor_lt_iff (hn : n < 2 ^ 53) (v : Double) (h : 0 ≤ v.value) :
    lt (ofRat ⌊v.value⌋) (ofRat n) = true ↔ ⌊v.value⌋ < n := by
  obtain ⟨a, ha, han⟩ := ofRat_natCast hn
  obtain ⟨w, hw, hwv⟩ := ofRat_floor v h
  rw [ha, hw]
  show decide (w.value < a.value) = true ↔ _
  rw [decide_eq_true_iff, han, hwv]
  exact_mod_cast Iff.rfl

/-! ## What is written is read back -/

/-- The sum of the digits at their places, whatever `digit` makes of other characters. -/
theorem foldl_digits_ten {digit : Char → Option ℕ} (hdigit : ∀ c, c.isDigit = true → digit c = some (c.toNat - 48))
    {l : List Char} (h : Digital l) (m : ℕ) :
    (l.foldl (fun n c => do
      let n ← n
      let d ← digit c
      if d < 10 then some (n * 10 + d) else none) (some m)) = some (Nat.ofDigitChars 10 l m) := by
  induction l generalizing m with
  | nil => rw [Nat.ofDigitChars_nil, List.foldl_nil]
  | cons c l ih =>
    have hc : c.isDigit = true := h c List.mem_cons_self
    have hlt : c.toNat - 48 < 10 := by
      have hrange : 48 ≤ c.toNat ∧ c.toNat ≤ 57 := Char.isDigit_iff_toNat.mp hc
      omega
    rw [List.foldl_cons, Nat.ofDigitChars_cons, Nat.mul_comm,
      ← ih (fun d hd => h d (List.mem_cons_of_mem c hd))]
    simp only [hdigit c hc, Option.bind_eq_bind, Option.bind_some, hlt, if_true]
    rfl

theorem digits_ten {l : List Char} (hne : l ≠ []) (h : Digital l) :
    digits 10 l = some (Nat.ofDigitChars 10 l 0) := by
  rw [digits, if_neg (by simpa using hne)]
  exact foldl_digits_ten (fun c hc => if_pos hc) h 0

theorem decimal_toDigits (n : ℕ) : decimal (Nat.toDigits 10 n) = some (n : ℚ) := by
  have hdigital := digital_toDigits n
  have htake : (Nat.toDigits 10 n).takeWhile Char.isDigit = Nat.toDigits 10 n :=
    List.takeWhile_eq_self_iff.mpr hdigital
  have hdrop : (Nat.toDigits 10 n).dropWhile Char.isDigit = [] := List.dropWhile_eq_nil_iff.mpr hdigital
  have hread := digits_ten Nat.toDigits_ne_nil hdigital
  rw [Nat.ofDigitChars_ten_toDigits] at hread
  simp only [decimal, htake, hdrop, List.head?_nil, reduceCtorEq, if_false, List.append_nil, hread,
    exponentPart, Option.bind_eq_bind, Option.bind_some, List.length_nil]
  norm_num

theorem unsigned_toDigits (negative : Bool) (n : ℕ) :
    unsigned negative (Nat.toDigits 10 n) = ofRat (if negative then -n else n) := by
  have hne : Nat.toDigits 10 n ≠ "Infinity".toList := fun heq => by
    have hdigit := digital_toDigits n 'I' (heq ▸ by decide)
    revert hdigit
    decide
  rw [unsigned, if_neg hne, decimal_toDigits]

theorem ofLiteral_of_digital {l : List Char} (hne : l ≠ []) (h : Digital l) :
    ofLiteral l = unsigned false l := by
  unfold ofLiteral
  split
  case h_1 => exact absurd rfl hne
  case h_10 => rfl
  -- the other forms have a letter or a sign
  all_goals simp [Digital] at h

theorem ofLiteral_toDigits (n : ℕ) : ofLiteral (Nat.toDigits 10 n) = ofRat n := by
  rw [ofLiteral_of_digital Nat.toDigits_ne_nil (digital_toDigits n)]
  exact unsigned_toDigits false n

theorem toList_toString_natCast (n : ℕ) : (toString (n : ℤ)).toList = Nat.toDigits 10 n :=
  Nat.toList_repr

theorem toList_toString_neg (n : ℕ) : (toString (-(n + 1 : ℕ) : ℤ)).toList = '-' :: Nat.toDigits 10 (n + 1) := by
  have htext : toString (-(n + 1 : ℕ) : ℤ) = "-" ++ (n + 1).repr := rfl
  rw [htext, String.toList_append, Nat.toList_repr]
  rfl

theorem ofLiteral_toString (k : ℤ) : ofLiteral (toString k).toList = ofRat k := by
  cases k with
  | ofNat n =>
    rw [Int.ofNat_eq_natCast, toList_toString_natCast, ofLiteral_toDigits, Int.cast_natCast]
  | negSucc n =>
    rw [Int.negSucc_eq, ← Int.natCast_succ, toList_toString_neg]
    refine (unsigned_toDigits true (n + 1)).trans ?_
    rw [if_pos rfl, Int.cast_neg, Int.cast_natCast]

/-- **What is written as an integer is read as the same number.** -/
theorem ofRat_of_integerLiteral {v : Double} {k : ℤ} (h : integerLiteral v = some k) : ofRat k = .finite v := by
  rw [integerLiteral, Option.ite_none_right_eq_some] at h
  obtain ⟨⟨hden, -⟩, hk⟩ := h
  cases hk
  have hz : v.value = v.value.num := (Rat.den_eq_one_iff _).mp hden |>.symm
  have hread := nearest_shortest (nearest_natAbs hz)
  have hnearest : nearest ((v.value.num.sign * shortest v.value.num.natAbs : ℤ) : ℚ) = v.value := by
    rcases lt_trichotomy v.value.num 0 with hneg | hzero | hpos
    · rw [Int.sign_eq_neg_one_of_neg hneg, neg_one_mul, Int.cast_neg, Int.cast_natCast, nearest_neg, hread]
      nth_rewrite 2 [hz]
      rw [← Int.cast_natCast, ← Int.cast_neg, Int.ofNat_natAbs_of_nonpos hneg.le, neg_neg]
    · rw [hzero, Int.sign_zero, zero_mul, Int.cast_zero, nearest_zero, hz, hzero, Int.cast_zero]
    · rw [Int.sign_eq_one_of_pos hpos, one_mul, Int.cast_natCast, hread]
      nth_rewrite 2 [hz]
      rw [← Int.cast_natCast, Int.natAbs_of_nonneg hpos.le]
  have hlt : |nearest ((v.value.num.sign * shortest v.value.num.natAbs : ℤ) : ℚ)| < 2 ^ 1024 := by
    rw [hnearest]
    exact v.abs_lt
  rw [ofRat, dif_pos hlt]
  exact congrArg _ (Double.ext hnearest)

end JsNumber
