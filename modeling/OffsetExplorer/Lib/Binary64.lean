import Mathlib.Algebra.Order.Field.Power
import Mathlib.Algebra.Order.Ring.Int
import Mathlib.Algebra.Ring.Nat
import Mathlib.Data.Int.Log
import Mathlib.Data.Rat.Floor
import Mathlib.Tactic.FieldSimp
import Mathlib.Tactic.Linarith
import Mathlib.Tactic.NormNum
import Mathlib.Tactic.Ring

/-!
# Rounding to double precision

A finite double is a rational number. Rounding takes a rational to the nearest double, to the even one
of two, as long as it is in the range of the format.

* `roundHalfEven`: the nearest integer.
* `exponent`, `nearest`: the exponent of the last place, and the nearest multiple of its unit.
* **`nearest_mono`**: rounding keeps the order.
* **`nearest_scaled`**: a number of at most 53 bits stays as it is; `nearest_natCast`: so do counts.
* `exists_nearest_intCast`, `abs_nearest_le`: an integer stays one, and no power of two is passed.
* `Double`: a finite double, with its rounding as an invariant; `nearest_nearest`: there is one nearest to
  each number in range.
-/

namespace Binary64

/-! ## The nearest integer -/

/-- The nearest integer, and of two the even one. -/
def roundHalfEven (q : ℚ) : ℤ :=
  if q - ⌊q⌋ < 1 / 2 then ⌊q⌋
  else if 1 / 2 < q - ⌊q⌋ then ⌊q⌋ + 1
  else if ⌊q⌋ % 2 = 0 then ⌊q⌋
  else ⌊q⌋ + 1

variable {q r : ℚ}

theorem floor_le_roundHalfEven (q : ℚ) : ⌊q⌋ ≤ roundHalfEven q := by
  unfold roundHalfEven
  split_ifs <;> omega

theorem roundHalfEven_le (q : ℚ) : roundHalfEven q ≤ ⌊q⌋ + 1 := by
  unfold roundHalfEven
  split_ifs <;> omega

@[simp] theorem roundHalfEven_intCast (n : ℤ) : roundHalfEven n = n := by
  simp [roundHalfEven]

theorem roundHalfEven_mono (h : q ≤ r) : roundHalfEven q ≤ roundHalfEven r := by
  rcases (Int.floor_mono h).lt_or_eq with hlt | heq
  · calc roundHalfEven q ≤ ⌊q⌋ + 1 := roundHalfEven_le q
      _ ≤ ⌊r⌋ := hlt
      _ ≤ roundHalfEven r := floor_le_roundHalfEven r
  · unfold roundHalfEven
    rw [heq]
    split_ifs <;> first | omega | (exfalso; linarith)

theorem roundHalfEven_neg (q : ℚ) : roundHalfEven (-q) = -roundHalfEven q := by
  by_cases hint : q = ⌊q⌋
  · rw [hint, ← Int.cast_neg, roundHalfEven_intCast, roundHalfEven_intCast]
  · -- between two integers the distances to them change places
    have hfloor : ⌊-q⌋ = -⌊q⌋ - 1 := by
      have hlt : (⌊q⌋ : ℚ) < q := (Int.floor_le q).lt_of_ne fun h => hint h.symm
      have hlt' := Int.lt_floor_add_one q
      rw [Int.floor_eq_iff]
      push_cast
      constructor <;> linarith
    unfold roundHalfEven
    rw [hfloor]
    push_cast
    split_ifs <;> first | omega | (exfalso; linarith)

/-! ## The unit of the last place -/

/-- The exponent of the last of 53 bits; below it there is only the smallest of the format. -/
def exponent (q : ℚ) : ℤ := max (Int.log 2 |q| - 52) (-1074)

/-- The double nearest to a number, where the format has one. -/
def nearest (q : ℚ) : ℚ := roundHalfEven (q / 2 ^ exponent q) * 2 ^ exponent q

theorem two_zpow_pos (e : ℤ) : (0 : ℚ) < 2 ^ e := zpow_pos two_pos e

theorem two_zpow_le {e f : ℤ} (h : e ≤ f) : (2 : ℚ) ^ e ≤ 2 ^ f := zpow_le_zpow_right₀ one_le_two h

theorem lt_two_zpow_exponent (q : ℚ) : |q| < 2 ^ (exponent q + 53) := by
  have hlog : |q| < 2 ^ (Int.log 2 |q| + 1) := Int.lt_zpow_succ_log_self one_lt_two |q|
  refine hlog.trans_le (two_zpow_le ?_)
  have := le_max_left (Int.log 2 |q| - 52) (-1074)
  unfold exponent
  omega

theorem exponent_le {e : ℤ} (he : -1074 ≤ e) (hq : q ≠ 0) (h : |q| < 2 ^ (e + 53)) :
    exponent q ≤ e := by
  have hlog := (Int.lt_zpow_iff_log_lt one_lt_two (abs_pos.mpr hq)).mp h
  exact max_le (by omega) he

theorem exponent_mono (hq : 0 < q) (h : q ≤ r) : exponent q ≤ exponent r := by
  have hlog : Int.log 2 |q| ≤ Int.log 2 |r| := by
    rw [abs_of_pos hq, abs_of_pos (hq.trans_le h)]
    exact Int.log_mono_right hq h
  exact max_le_max_right _ (by omega)

@[simp] theorem exponent_neg (q : ℚ) : exponent (-q) = exponent q := by
  rw [exponent, abs_neg, exponent]

theorem two_zpow_exponent_le (hq : 0 < q) (h : -1074 < exponent q) :
    2 ^ (exponent q + 52) ≤ q := by
  have hlog : exponent q + 52 = Int.log 2 |q| := by
    unfold exponent at h ⊢
    omega
  rw [hlog]
  have := Int.zpow_log_le_self (R := ℚ) one_lt_two (abs_pos.mpr hq.ne')
  rwa [abs_of_pos hq] at this ⊢

/-! ## Rounding -/

@[simp] theorem nearest_zero : nearest 0 = 0 := by
  have hzero : roundHalfEven (0 : ℚ) = 0 := roundHalfEven_intCast 0
  rw [nearest, zero_div, hzero, Int.cast_zero, zero_mul]

theorem nearest_of_dvd {m e : ℤ} (h : exponent (m * 2 ^ e) ≤ e) : nearest (m * 2 ^ e) = m * 2 ^ e := by
  obtain ⟨k, hk⟩ := Int.eq_ofNat_of_zero_le (sub_nonneg.mpr h)
  rw [nearest]
  generalize exponent (m * 2 ^ e) = f at hk
  have hsplit : (m * 2 ^ e : ℚ) / 2 ^ f = ((m * 2 ^ k : ℤ) : ℚ) := by
    rw [mul_div_assoc, ← zpow_sub₀ two_ne_zero, hk]
    push_cast
    rw [zpow_natCast]
  rw [hsplit, roundHalfEven_intCast, ← hsplit, div_mul_cancel₀ _ (two_zpow_pos f).ne']

/-- **A number of at most 53 bits is a double.** -/
theorem nearest_scaled {m e : ℤ} (hm : |m| < 2 ^ 53) (he : -1074 ≤ e) :
    nearest (m * 2 ^ e) = m * 2 ^ e := by
  by_cases h0 : m = 0
  · rw [h0, Int.cast_zero, zero_mul, nearest_zero]
  · refine nearest_of_dvd (exponent_le he ?_ ?_)
    · exact mul_ne_zero (Int.cast_ne_zero.mpr h0) (two_zpow_pos e).ne'
    · rw [abs_mul, abs_of_pos (two_zpow_pos e), add_comm, zpow_add₀ two_ne_zero]
      refine mul_lt_mul_of_pos_right ?_ (two_zpow_pos e)
      exact_mod_cast hm

theorem nearest_intCast {n : ℤ} (h : |n| < 2 ^ 53) : nearest n = n := by
  have := nearest_scaled (e := 0) h (by norm_num)
  rwa [zpow_zero, mul_one] at this

theorem nearest_natCast {n : ℕ} (h : n < 2 ^ 53) : nearest n = n := by
  have habs : |(n : ℤ)| < 2 ^ 53 := by
    rw [abs_of_nonneg (Int.natCast_nonneg n)]
    exact_mod_cast h
  exact_mod_cast nearest_intCast habs

theorem nearest_neg (q : ℚ) : nearest (-q) = -nearest q := by
  rw [nearest, exponent_neg, neg_div, roundHalfEven_neg, Int.cast_neg, neg_mul, nearest]

theorem exists_nearest_intCast (n : ℤ) : ∃ k : ℤ, nearest n = k := by
  by_cases hsmall : |n| < 2 ^ 53
  · exact ⟨n, nearest_intCast hsmall⟩
  · have hexponent : 0 ≤ exponent n := by
      by_contra hneg
      have hlt := (lt_two_zpow_exponent n).trans_le (two_zpow_le (by omega : exponent n + 53 ≤ 53))
      exact hsmall (by exact_mod_cast hlt)
    obtain ⟨e, he⟩ := Int.eq_ofNat_of_zero_le hexponent
    refine ⟨roundHalfEven (n / 2 ^ exponent n) * 2 ^ e, ?_⟩
    rw [nearest, he, zpow_natCast]
    push_cast
    rfl

theorem nearest_le_mul {n : ℤ} (h : q ≤ n * 2 ^ exponent q) : nearest q ≤ n * 2 ^ exponent q := by
  have hround := roundHalfEven_mono ((div_le_iff₀ (two_zpow_pos _)).mpr h)
  rw [roundHalfEven_intCast] at hround
  exact mul_le_mul_of_nonneg_right (Int.cast_le.mpr hround) (two_zpow_pos _).le

theorem mul_le_nearest {n : ℤ} (h : n * 2 ^ exponent q ≤ q) : n * 2 ^ exponent q ≤ nearest q := by
  have hround := roundHalfEven_mono ((le_div_iff₀ (two_zpow_pos _)).mpr h)
  rw [roundHalfEven_intCast] at hround
  exact mul_le_mul_of_nonneg_right (Int.cast_le.mpr hround) (two_zpow_pos _).le

theorem nearest_nonneg (h : 0 ≤ q) : 0 ≤ nearest q := by
  have hle := mul_le_nearest (q := q) (n := 0) (by rwa [Int.cast_zero, zero_mul])
  rwa [Int.cast_zero, zero_mul] at hle

theorem nearest_le_two_zpow (h : 0 ≤ q) : nearest q ≤ 2 ^ (exponent q + 53) := by
  have hlt := lt_two_zpow_exponent q
  rw [abs_of_nonneg h] at hlt
  have hsplit : (2 : ℚ) ^ (exponent q + 53) = ((2 ^ 53 : ℤ) : ℚ) * 2 ^ exponent q := by
    rw [add_comm, zpow_add₀ two_ne_zero]
    norm_cast
  rw [hsplit] at hlt ⊢
  exact nearest_le_mul hlt.le

theorem two_zpow_le_nearest (hq : 0 < q) (h : -1074 < exponent q) :
    2 ^ (exponent q + 52) ≤ nearest q := by
  have hle := two_zpow_exponent_le hq h
  have hsplit : (2 : ℚ) ^ (exponent q + 52) = ((2 ^ 52 : ℤ) : ℚ) * 2 ^ exponent q := by
    rw [add_comm, zpow_add₀ two_ne_zero]
    norm_cast
  rw [hsplit] at hle ⊢
  exact mul_le_nearest hle

/-- **Rounding keeps the order** of numbers that are not negative. -/
theorem nearest_mono (hq : 0 ≤ q) (h : q ≤ r) : nearest q ≤ nearest r := by
  rcases hq.eq_or_lt with rfl | hpos
  · rw [nearest_zero]
    exact nearest_nonneg h
  rcases (exponent_mono hpos h).lt_or_eq with hlt | heq
  · have hsmall : -1074 < exponent r := (le_max_right _ _).trans_lt hlt
    calc nearest q ≤ 2 ^ (exponent q + 53) := nearest_le_two_zpow hq
      _ ≤ 2 ^ (exponent r + 52) := two_zpow_le (by omega)
      _ ≤ nearest r := two_zpow_le_nearest (hpos.trans_le h) hsmall
  · rw [nearest, nearest, heq]
    refine mul_le_mul_of_nonneg_right ?_ (two_zpow_pos _).le
    exact_mod_cast roundHalfEven_mono (div_le_div_of_nonneg_right h (two_zpow_pos _).le)

theorem abs_nearest_le {e : ℤ} (he : -1074 ≤ e) (h : |q| ≤ 2 ^ e) : |nearest q| ≤ 2 ^ e := by
  have hpower : nearest (2 ^ e) = 2 ^ e := by
    have hone := nearest_scaled (by decide : |(1 : ℤ)| < 2 ^ 53) he
    rwa [Int.cast_one, one_mul] at hone
  have hnonneg : ∀ {r : ℚ}, 0 ≤ r → r ≤ 2 ^ e → |nearest r| ≤ 2 ^ e := by
    intro r hr hle
    rw [abs_of_nonneg (nearest_nonneg hr), ← hpower]
    exact nearest_mono hr hle
  rcases le_total 0 q with hq | hq
  · exact hnonneg hq (by rwa [abs_of_nonneg hq] at h)
  · rw [← abs_neg, ← nearest_neg]
    exact hnonneg (neg_nonneg.mpr hq) (by rwa [abs_of_nonpos hq] at h)

/-- **A rounded quotient does not promise too much.** The multiples of a count up to it are within what is
divided, where the two counts together have no more than the 53 bits. -/
theorem mul_le_of_le_nearest_div {a m p k : ℕ} (hm : 0 < m) (hmk : m ≤ 2 ^ k) (hk : k ≤ 1074)
    (hpk : p * 2 ^ k < 2 ^ 53) (h : (p : ℚ) ≤ nearest (a / m)) : p * m ≤ a := by
  by_contra hlt
  have hpos : (0 : ℚ) < m := Nat.cast_pos.mpr hm
  have hp : 0 < p := Nat.pos_of_ne_zero fun h0 => by simp [h0] at hlt
  have hone : 1 ≤ p * 2 ^ k := Nat.mul_pos hp (Nat.two_pow_pos k)
  -- the last double below `p` that has the unit `2 ^ -k`
  have hpred : (a / m : ℚ) ≤ ((p * 2 ^ k - 1 : ℕ) : ℤ) * 2 ^ (-(k : ℤ)) := by
    have hunit : (1 : ℚ) / 2 ^ k ≤ 1 / m :=
      one_div_le_one_div_of_le hpos (by exact_mod_cast hmk)
    have ha : (a : ℚ) + 1 ≤ p * m := by exact_mod_cast Nat.not_le.mp hlt
    rw [Int.cast_natCast, Nat.cast_sub hone, zpow_neg, zpow_natCast, ← div_eq_mul_inv]
    push_cast
    rw [sub_div, mul_div_cancel_right₀ _ (pow_ne_zero k two_ne_zero)]
    calc (a / m : ℚ) ≤ p - 1 / m := by
          rw [div_le_iff₀ hpos, sub_mul, one_div, inv_mul_cancel₀ hpos.ne']
          linarith
      _ ≤ p - 1 / 2 ^ k := by linarith
  have hround := nearest_mono (div_nonneg (Nat.cast_nonneg a) hpos.le) hpred
  have hbits : |((p * 2 ^ k - 1 : ℕ) : ℤ)| < 2 ^ 53 := by
    rw [Nat.abs_cast]
    exact_mod_cast (Nat.sub_le _ _).trans_lt hpk
  rw [nearest_scaled hbits (by omega)] at hround
  have hlast : ((p * 2 ^ k - 1 : ℕ) : ℤ) * (2 : ℚ) ^ (-(k : ℤ)) < p := by
    rw [Int.cast_natCast, zpow_neg, zpow_natCast, ← div_eq_mul_inv, div_lt_iff₀ (by positivity)]
    exact_mod_cast Nat.sub_lt hone one_pos
  linarith

/-! ## Doubles -/

theorem abs_roundHalfEven_le {n : ℤ} (h : |q| ≤ n) : |roundHalfEven q| ≤ n := by
  obtain ⟨hlow, hhigh⟩ := abs_le.mp h
  have hl := roundHalfEven_mono (q := (-n : ℤ)) (by push_cast; exact hlow)
  have hh := roundHalfEven_mono hhigh
  rw [roundHalfEven_intCast] at hl hh
  exact abs_le.mpr ⟨hl, hh⟩

/-- **Rounding rounds to a double.** -/
theorem nearest_nearest (q : ℚ) : nearest (nearest q) = nearest q := by
  have hexp : -1074 ≤ exponent q := le_max_right _ _
  have hlt := lt_two_zpow_exponent q
  rw [add_comm, zpow_add₀ two_ne_zero] at hlt
  have hdiv : |q / 2 ^ exponent q| ≤ ((2 ^ 53 : ℤ) : ℚ) := by
    rw [abs_div, abs_of_pos (two_zpow_pos _), div_le_iff₀ (two_zpow_pos _)]
    exact_mod_cast hlt.le
  rcases (abs_roundHalfEven_le hdiv).lt_or_eq with h | h
  · exact nearest_scaled h hexp
  · -- the mantissa has 54 bits, of which the last is zero
    obtain ⟨m, hm⟩ : ∃ m : ℤ, roundHalfEven (q / 2 ^ exponent q) = 2 * m := by
      rcases (abs_eq (by norm_num)).mp h with h | h
      · exact ⟨2 ^ 52, h⟩
      · exact ⟨-2 ^ 52, h⟩
    have habs : |m| < 2 ^ 53 := by
      rw [hm, abs_mul] at h
      norm_num at h ⊢
      omega
    have hcarry : nearest q = m * 2 ^ (exponent q + 1) := by
      rw [nearest, hm, zpow_add_one₀ two_ne_zero]
      push_cast
      ring
    rw [hcarry]
    exact nearest_scaled habs (by omega)

/-- A finite double. -/
@[ext] structure Double where
  value : ℚ
  nearest_value : nearest value = value
  abs_lt : |value| < 2 ^ 1024

instance : DecidableEq Double := fun _ _ => decidable_of_iff _ Double.ext_iff.symm

theorem Double.exists_int (v : Double) (h : 2 ^ 52 ≤ v.value) : ∃ n : ℤ, v.value = n := by
  have hpos : 0 < v.value := lt_of_lt_of_le (by norm_num) h
  have hlog : (52 : ℤ) ≤ Int.log 2 |v.value| := by
    refine (Int.zpow_le_iff_le_log one_lt_two (abs_pos.mpr hpos.ne')).mp ?_
    rw [abs_of_pos hpos]
    exact_mod_cast h
  obtain ⟨k, hk⟩ := Int.eq_ofNat_of_zero_le (show 0 ≤ exponent v.value by unfold exponent; omega)
  refine ⟨roundHalfEven (v.value / 2 ^ exponent v.value) * 2 ^ k, ?_⟩
  calc v.value = roundHalfEven (v.value / 2 ^ exponent v.value) * 2 ^ exponent v.value :=
        v.nearest_value.symm
    _ = _ := by
      push_cast
      rw [hk, zpow_natCast]

theorem Double.nearest_floor (v : Double) (h : 0 ≤ v.value) : nearest ⌊v.value⌋ = ⌊v.value⌋ := by
  rcases lt_or_ge v.value (2 ^ 52) with hlt | hge
  · refine nearest_intCast ?_
    have hfloor : ⌊v.value⌋ < 2 ^ 52 := Int.floor_lt.mpr (by exact_mod_cast hlt)
    rw [abs_of_nonneg (Int.floor_nonneg.mpr h)]
    omega
  · obtain ⟨n, hn⟩ := v.exists_int hge
    have hnearest := v.nearest_value
    rw [hn] at hnearest ⊢
    rwa [Int.floor_intCast]

end Binary64
