import OffsetExplorer.Avro.ToJson
import OffsetExplorer.Lib.Digits
import Mathlib.Tactic.NormNum
import Mathlib.Tactic.Ring

/-!
# What dates and times show

The same functions with the arithmetic of the machine, where an operation that overflows has no
result, and a reader of what they write.

* `divEuclid`, `remEuclid`, `i64`, `u32`: the operations; `naiveTime`, `fromTimestamp`: what chrono
  makes of seconds and nanoseconds.
* `Temporal`: the dates and times; `Temporal.checked`: what the machine renders.
* `readClock`, `Format.read`: the reader, in the resolution of a format.
* **`temporal_faithful`**: nothing overflows, what is rendered is read back, and two values of a type
  are rendered differently.
-/

namespace OffsetExplorer.Avro

open Digits

/-! ## The arithmetic of the machine -/

/-- A result of an operation on `i64`, unless it overflows. -/
def i64 (n : ℤ) : Option ℤ := if -2 ^ 63 ≤ n ∧ n < 2 ^ 63 then some n else none

/-- A result of an operation on `u32`, unless it overflows. -/
def u32 (n : ℤ) : Option ℕ := if 0 ≤ n ∧ n < 2 ^ 32 then some n.toNat else none

/-- A divisor that makes a division overflow. -/
def BadDivisor (a b : ℤ) : Prop := b = 0 ∨ a = -2 ^ 63 ∧ b = -1

instance (a b : ℤ) : Decidable (BadDivisor a b) := inferInstanceAs (Decidable (_ ∨ _))

/-- `i64::div_euclid`, which panics for a bad divisor. -/
def divEuclid (a b : ℤ) : Option ℤ := if BadDivisor a b then none else some (a / b)

/-- `i64::rem_euclid`, which panics for a bad divisor. -/
def remEuclid (a b : ℤ) : Option ℤ := if BadDivisor a b then none else some (a % b)

/-- `/` on `i64`, toward zero. -/
def divide (a b : ℤ) : Option ℤ := if BadDivisor a b then none else some (a.tdiv b)

/-! ## The calendar -/

/-- `NaiveTime::from_num_seconds_from_midnight_opt`. -/
def naiveTime (seconds nanos : ℕ) : Option (ℕ × ℕ) :=
  if 86400 ≤ seconds ∨ 2000000000 ≤ nanos ∨ 1000000000 ≤ nanos ∧ seconds % 60 ≠ 59 then none
  else some (seconds, nanos)

variable (renderers : Renderers)

/-- `DateTime::from_timestamp`: the text of the date, and the time of day. -/
def fromTimestamp (seconds : ℤ) (nanos : ℕ) : Option (String × ℕ × ℕ) :=
  (renderers.date seconds).bind fun date =>
    (naiveTime (seconds % 86400).toNat nanos).map fun time => (date, time)

/-! ## The functions -/

/-- `render_time` with every check that Rust makes; `none` is a panic. -/
def renderTimeChecked (time : ℕ × ℕ) (fractionDigits : ℕ) : Option String :=
  (u32 (9 - fractionDigits)).bind fun exponent =>
    (u32 (10 ^ exponent)).bind fun scale =>
      if scale = 0 then none
      else some (twoDigits (time.1 / 3600) ++ ":" ++ twoDigits (time.1 / 60 % 60) ++ ":" ++
        twoDigits (time.1 % 60) ++ "." ++
        String.ofList (padZeros fractionDigits (toString (time.2 / scale)).toList))

/-- `format_date` with every check that Rust makes. -/
def formatDateChecked (days : Int32) : Option Json :=
  (i64 (days.toInt * 86400)).map fun seconds =>
    ((fromTimestamp renderers seconds 0).map fun found => JsonTree.string found.1).getD
      (.number (.int days.toInt))

/-- The seconds and the nanoseconds of a value. -/
def splitChecked (value perSecond : ℤ) : Option (ℤ × ℤ) :=
  (divEuclid value perSecond).bind fun seconds =>
    (remEuclid value perSecond).bind fun rest =>
      (divide 1000000000 perSecond).bind fun unit =>
        (i64 (rest * unit)).map fun nanos => (seconds, nanos)

/-- What is rendered, if the calendar has the value; else the raw number. -/
def renderedOr {α : Type} (value : ℤ) (render : α → Option String) : Option α → Option Json
  | some found => (render found).map JsonTree.string
  | none => some (.number (.int value))

/-- `format_time` with every check that Rust makes. -/
def formatTimeChecked (value perSecond : ℤ) (fractionDigits : ℕ) : Option Json :=
  (splitChecked value perSecond).bind fun split =>
    renderedOr value (fun time => renderTimeChecked time fractionDigits)
      ((u32 split.1).bind fun seconds => (u32 split.2).bind fun nanos => naiveTime seconds nanos)

/-- `format_timestamp` with every check that Rust makes. -/
def formatTimestampChecked (value perSecond : ℤ) (fractionDigits : ℕ) (utc : Bool) : Option Json :=
  (splitChecked value perSecond).bind fun split =>
    renderedOr value (fun found => (renderTimeChecked found.2 fractionDigits).map fun time =>
        found.1 ++ "T" ++ time ++ if utc then "Z" else "")
      ((u32 split.2).bind fun nanos => fromTimestamp renderers split.1 nanos)

/-! ## Nothing overflows -/

section

variable {value perSecond : ℤ} {fractionDigits seconds nanos : ℕ}

theorem i64_eq_some {n : ℤ} (h : -2 ^ 63 ≤ n) (h' : n < 2 ^ 63) : i64 n = some n := if_pos ⟨h, h'⟩

theorem u32_eq_some {n : ℤ} (h : 0 ≤ n) (h' : n < 2 ^ 32) : u32 n = some n.toNat := if_pos ⟨h, h'⟩

theorem not_badDivisor (h : 0 < perSecond) (a : ℤ) : ¬ BadDivisor a perSecond := by
  rintro (h' | ⟨-, h'⟩) <;> omega

theorem nanos_bounds (h : 0 < perSecond) (h' : perSecond ≤ 1000000000) (value : ℤ) :
    0 ≤ value % perSecond * (1000000000 / perSecond) ∧
      value % perSecond * (1000000000 / perSecond) < 1000000000 := by
  have hrest := Int.emod_nonneg value h.ne'
  have hless := Int.emod_lt_of_pos value h
  have hunit : 0 < 1000000000 / perSecond := Int.le_ediv_of_mul_le h (by omega)
  refine ⟨Int.mul_nonneg hrest hunit.le, ?_⟩
  calc value % perSecond * (1000000000 / perSecond)
      < perSecond * (1000000000 / perSecond) := Int.mul_lt_mul_of_pos_right hless hunit
    _ ≤ 1000000000 := Int.mul_ediv_self_le h.ne'

theorem splitChecked_eq (h : 0 < perSecond) (h' : perSecond ≤ 1000000000) (value : ℤ) :
    splitChecked value perSecond =
      some (value / perSecond, value % perSecond * (1000000000 / perSecond)) := by
  obtain ⟨hnonneg, hless⟩ := nanos_bounds h h' value
  have hdiv : (1000000000 : ℤ).tdiv perSecond = 1000000000 / perSecond :=
    Int.tdiv_eq_ediv_of_nonneg (by omega)
  rw [splitChecked, divEuclid, remEuclid, divide, if_neg (not_badDivisor h _),
    if_neg (not_badDivisor h _), if_neg (not_badDivisor h _), hdiv]
  simp only [Option.bind_some]
  rw [i64_eq_some (by omega) (by omega)]
  rfl

theorem renderTimeChecked_eq (h : fractionDigits ≤ 9) (time : ℕ × ℕ) :
    renderTimeChecked time fractionDigits = some (renderTime time.1 time.2 fractionDigits) := by
  have hexponent : u32 (9 - fractionDigits) = some (9 - fractionDigits) := by
    rw [u32_eq_some (by omega) (by omega)]
    congr 1
    omega
  have hpow : 10 ^ (9 - fractionDigits) ≤ 10 ^ 9 := Nat.pow_le_pow_right (by omega) (by omega)
  have hscale : u32 (10 ^ (9 - fractionDigits)) = some (10 ^ (9 - fractionDigits)) := by
    have hcast : (10 : ℤ) ^ (9 - fractionDigits) = (10 ^ (9 - fractionDigits) : ℕ) := by simp
    rw [hcast, u32_eq_some (Int.natCast_nonneg _) (by omega), Int.toNat_natCast]
  have hpos : ¬ 10 ^ (9 - fractionDigits) = 0 := by positivity
  rw [renderTimeChecked, hexponent, Option.bind_some, hscale, Option.bind_some, if_neg hpos]
  rfl

theorem naiveTime_eq (h : nanos < 1000000000) :
    naiveTime seconds nanos = if seconds < 86400 then some (seconds, nanos) else none := by
  unfold naiveTime
  split_ifs <;> first | rfl | omega

theorem formatTimeChecked_eq (h : 0 < perSecond) (h' : perSecond ≤ 1000000000)
    (hdigits : fractionDigits ≤ 9) (value : ℤ) :
    formatTimeChecked value perSecond fractionDigits =
      some (formatTime value perSecond fractionDigits) := by
  obtain ⟨hnonneg, hless⟩ := nanos_bounds h h' value
  rw [formatTimeChecked, splitChecked_eq h h', Option.bind_some, formatTime]
  dsimp only
  rw [u32_eq_some hnonneg (by omega)]
  simp only [Option.bind_some]
  by_cases hday : 0 ≤ value / perSecond ∧ value / perSecond < 86400
  · rw [if_pos hday, u32_eq_some hday.1 (by omega), Option.bind_some, naiveTime_eq (by omega),
      if_pos (by omega), renderedOr, renderTimeChecked_eq hdigits]
    rfl
  · have hnone : ((u32 (value / perSecond)).bind fun seconds =>
        naiveTime seconds (value % perSecond * (1000000000 / perSecond)).toNat) = none := by
      unfold u32
      split_ifs with hfits
      · rw [Option.bind_some, naiveTime_eq (by omega), if_neg (by omega)]
      · rfl
    rw [if_neg hday, hnone, renderedOr]

theorem fromTimestamp_eq (h : nanos < 1000000000) (seconds : ℤ) :
    fromTimestamp renderers seconds nanos =
      (renderers.date seconds).map fun date => (date, (seconds % 86400).toNat, nanos) := by
  have hday : (seconds % 86400).toNat < 86400 := by omega
  rw [fromTimestamp, naiveTime_eq h, if_pos hday]
  cases renderers.date seconds <;> rfl

theorem formatTimestampChecked_eq (h : 0 < perSecond) (h' : perSecond ≤ 1000000000)
    (hdigits : fractionDigits ≤ 9) (value : ℤ) (utc : Bool) :
    formatTimestampChecked renderers value perSecond fractionDigits utc =
      some (formatTimestamp renderers value perSecond fractionDigits utc) := by
  obtain ⟨hnonneg, hless⟩ := nanos_bounds h h' value
  rw [formatTimestampChecked, splitChecked_eq h h', Option.bind_some, formatTimestamp]
  dsimp only
  rw [u32_eq_some hnonneg (by omega), Option.bind_some, fromTimestamp_eq renderers (by omega)]
  cases renderers.date (value / perSecond) with
  | none => rfl
  | some date =>
    rw [Option.map_some, renderedOr, renderTimeChecked_eq hdigits]
    rfl

theorem formatDateChecked_eq (days : Int32) :
    formatDateChecked renderers days = some (formatDate renderers days) := by
  have hle := days.le_toInt
  have hlt := days.toInt_lt
  rw [formatDateChecked, i64_eq_some (by omega) (by omega), Option.map_some,
    fromTimestamp_eq renderers (by omega), formatDate]
  cases renderers.date (days.toInt * 86400) <;> rfl

end

/-! ## Reading a time of day -/

/-- The number at two places of a text. -/
def pairAt (l : List Char) (k : ℕ) : ℕ := Nat.ofDigitChars 10 ((l.drop k).take 2) 0

/-- `HH:MM:SS.fff`, in units of its last digit. -/
def readClock (digits : ℕ) (l : List Char) : Option ℕ :=
  if l.length = 9 + digits ∧ l[2]? = some ':' ∧ l[5]? = some ':' ∧ l[8]? = some '.' then
    some ((pairAt l 0 * 3600 + pairAt l 3 * 60 + pairAt l 6) * 10 ^ digits +
      Nat.ofDigitChars 10 (l.drop 9) 0)
  else none

section

variable {n digits : ℕ}

theorem length_padZeros (hpos : 0 < digits) (h : n < 10 ^ digits) :
    (padZeros digits (toString n).toList).length = digits := by
  change ((n.repr.toList).leftpad digits '0').length = digits
  have hle := (Nat.length_toDigits_le_iff (b := 10) (by omega) hpos).mpr h
  rw [List.length_leftpad, Nat.toList_repr]
  omega

theorem ofDigitChars_padZeros (digits n : ℕ) :
    Nat.ofDigitChars 10 (padZeros digits (toString n).toList) 0 = n := by
  change Nat.ofDigitChars 10 ((n.repr.toList).leftpad digits '0') 0 = n
  rw [ofDigitChars_leftpad, Nat.toList_repr, Nat.ofDigitChars_ten_toDigits]

theorem exists_twoDigits (h : n < 100) :
    ∃ a b, (twoDigits n).toList = [a, b] ∧ Nat.ofDigitChars 10 [a, b] 0 = n := by
  obtain ⟨a, b, hpair⟩ := List.length_eq_two.mp (length_padZeros (by omega : 0 < 2) h)
  refine ⟨a, b, ?_, ?_⟩
  · rw [twoDigits, String.toList_ofList, hpair]
  · rw [← hpair, ofDigitChars_padZeros]

/-- **A time of day** is read back. -/
theorem readClock_renderTime (seconds nanos : ℕ) (hseconds : seconds < 86400) (hpos : 0 < digits)
    (hnanos : nanos / 10 ^ (9 - digits) < 10 ^ digits) :
    (renderTime seconds nanos digits).toList.length = 9 + digits ∧
      readClock digits (renderTime seconds nanos digits).toList =
        some (seconds * 10 ^ digits + nanos / 10 ^ (9 - digits)) := by
  obtain ⟨h₁, h₂, hhours, hhours'⟩ := exists_twoDigits (by omega : seconds / 3600 < 100)
  obtain ⟨m₁, m₂, hminutes, hminutes'⟩ := exists_twoDigits (by omega : seconds / 60 % 60 < 100)
  obtain ⟨s₁, s₂, hrest, hrest'⟩ := exists_twoDigits (by omega : seconds % 60 < 100)
  obtain ⟨fraction, hfraction⟩ :
      ∃ fraction, fraction = padZeros digits (toString (nanos / 10 ^ (9 - digits))).toList := ⟨_, rfl⟩
  have hlength : fraction.length = digits := hfraction ▸ length_padZeros hpos hnanos
  have hvalue : Nat.ofDigitChars 10 fraction 0 = nanos / 10 ^ (9 - digits) :=
    hfraction ▸ ofDigitChars_padZeros digits _
  have htext : (renderTime seconds nanos digits).toList =
      [h₁, h₂, ':', m₁, m₂, ':', s₁, s₂, '.'] ++ fraction := by
    rw [renderTime, ← hfraction]
    simp [String.toList_append, hhours, hminutes, hrest]
  have hlong : (renderTime seconds nanos digits).toList.length = 9 + digits := by
    rw [htext, List.length_append, hlength]
    rfl
  refine ⟨hlong, ?_⟩
  rw [readClock, hlong, htext]
  have hpairs : pairAt ([h₁, h₂, ':', m₁, m₂, ':', s₁, s₂, '.'] ++ fraction) 0 = seconds / 3600 ∧
      pairAt ([h₁, h₂, ':', m₁, m₂, ':', s₁, s₂, '.'] ++ fraction) 3 = seconds / 60 % 60 ∧
      pairAt ([h₁, h₂, ':', m₁, m₂, ':', s₁, s₂, '.'] ++ fraction) 6 = seconds % 60 :=
    ⟨hhours', hminutes', hrest'⟩
  rw [if_pos ⟨rfl, rfl, rfl, rfl⟩, hpairs.1, hpairs.2.1, hpairs.2.2]
  have hsum : seconds / 3600 * 3600 + seconds / 60 % 60 * 60 + seconds % 60 = seconds := by omega
  rw [hsum]
  exact congrArg some (congrArg _ hvalue)

/-! ## Reading what is shown -/

/-- How a value is written: a date, or a time of day with so many digits behind the point. -/
inductive Format where
  | date
  | time (digits : ℕ)
  | timestamp (digits : ℕ) (utc : Bool)
  deriving DecidableEq

/-- A date, `T`, and a time of day: the units since the epoch. -/
def readInstant (readDate : String → Option ℤ) (digits : ℕ) (l : List Char) : Option ℤ :=
  let before := l.take (l.length - (9 + digits))
  if before.getLast? = some 'T' then
    (readDate (String.ofList before.dropLast)).bind fun day =>
      (readClock digits (l.drop (l.length - (9 + digits)))).map fun (time : ℕ) =>
        day * 86400 * 10 ^ digits + time
  else none

/-- The value that a text tells, in the resolution of its format; `readDate` reads a date as a count of
days. -/
def Format.read (readDate : String → Option ℤ) : Format → String → Option ℤ
  | .date, text => readDate text
  | .time digits, text => (readClock digits text.toList).map Int.ofNat
  | .timestamp digits true, text =>
    if text.toList.getLast? = some 'Z' then readInstant readDate digits text.toList.dropLast else none
  | .timestamp digits false, text => readInstant readDate digits text.toList

/-- The value that the JSON tells: a text, or the raw number. -/
def readBack (readDate : String → Option ℤ) (format : Format) : Json → Option ℤ
  | .string text => format.read readDate text
  | .number (.int n) => some n
  | _ => none

theorem nanos_of_unit (h : digits ≤ 9) (value : ℤ) :
    (value % 10 ^ digits * (1000000000 / 10 ^ digits)).toNat / 10 ^ (9 - digits) =
      (value % 10 ^ digits).toNat := by
  have hpos : (0 : ℤ) < 10 ^ digits := by positivity
  have hunit : (1000000000 : ℤ) / 10 ^ digits = (10 ^ (9 - digits) : ℕ) := by
    have hsplit : (1000000000 : ℤ) = 10 ^ digits * (10 ^ (9 - digits) : ℕ) := by
      rw [Nat.cast_pow, Nat.cast_ofNat, ← pow_add, Nat.add_sub_cancel' h]
      norm_num
    rw [hsplit, Int.mul_ediv_cancel_left _ hpos.ne']
  rw [hunit, Int.toNat_mul (Int.emod_nonneg _ hpos.ne') (Int.natCast_nonneg _), Int.toNat_natCast]
  exact Nat.mul_div_cancel _ (by positivity)

theorem rest_lt (value : ℤ) : (value % 10 ^ digits).toNat < 10 ^ digits := by
  have hpos : (0 : ℤ) < 10 ^ digits := by positivity
  have hlt := Int.emod_lt_of_pos value hpos
  rw [Int.toNat_lt (Int.emod_nonneg _ hpos.ne')]
  exact_mod_cast hlt

theorem seconds_add_rest (digits : ℕ) (value : ℤ) :
    value / 10 ^ digits * 10 ^ digits + ((value % 10 ^ digits).toNat : ℤ) = value := by
  have hpos : (0 : ℤ) < 10 ^ digits := by positivity
  rw [Int.toNat_of_nonneg (Int.emod_nonneg _ hpos.ne')]
  exact Int.ediv_mul_add_emod _ _

variable {readDate : String → Option ℤ}

theorem readBack_formatTime (digits : ℕ) (hpos : 0 < digits) (h : digits ≤ 9) (value : ℤ) :
    readBack readDate (.time digits) (formatTime value (10 ^ digits) digits) = some value := by
  rw [formatTime]
  split_ifs with hday
  · obtain ⟨-, hread⟩ := readClock_renderTime (value / 10 ^ digits).toNat
      (value % 10 ^ digits * (1000000000 / 10 ^ digits)).toNat (by omega) hpos
      (by rw [nanos_of_unit h]; exact rest_lt value)
    rw [readBack, Format.read, hread, nanos_of_unit h, Option.map_some, Option.some.injEq]
    have hsum := seconds_add_rest digits value
    rw [← Int.toNat_of_nonneg hday.1] at hsum
    exact_mod_cast hsum
  · rfl

/-- What chrono's dates promise: the text of a date says which day it is. -/
def ReadsDates (renderers : Renderers) (readDate : String → Option ℤ) : Prop :=
  ∀ seconds text, renderers.date seconds = some text → readDate text = some (seconds / 86400)

variable {renderers : Renderers} (hdates : ReadsDates renderers readDate)

include hdates in
theorem readBack_formatDate (days : Int32) :
    readBack readDate .date (formatDate renderers days) = some days.toInt := by
  rw [formatDate]
  split
  · rename_i text hdate
    rw [readBack, Format.read, hdates _ _ hdate, Int.mul_ediv_cancel _ (by omega)]
  · rfl

include hdates in
theorem readBack_formatTimestamp (digits : ℕ) (hpos : 0 < digits) (h : digits ≤ 9) (value : ℤ) (utc : Bool) :
    readBack readDate (.timestamp digits utc) (formatTimestamp renderers value (10 ^ digits) digits utc) =
      some value := by
  rw [formatTimestamp]
  cases hdate : renderers.date (value / 10 ^ digits) with
  | none => rfl
  | some date =>
    obtain ⟨clock, hclock⟩ : ∃ clock, clock = renderTime (value / 10 ^ digits % 86400).toNat
      (value % 10 ^ digits * (1000000000 / 10 ^ digits)).toNat digits := ⟨_, rfl⟩
    obtain ⟨hlength, hread⟩ := readClock_renderTime (value / 10 ^ digits % 86400).toNat
      (value % 10 ^ digits * (1000000000 / 10 ^ digits)).toNat (by omega) hpos
      (by rw [nanos_of_unit h]; exact rest_lt value)
    rw [← hclock] at hlength hread
    have hinstant : readInstant readDate digits ((date.toList ++ ['T']) ++ clock.toList) = some value := by
      have hbefore : ((date.toList ++ ['T']) ++ clock.toList).length - (9 + digits) =
          (date.toList ++ ['T']).length := by
        rw [List.length_append, hlength, Nat.add_sub_cancel]
      rw [readInstant, hbefore, List.take_left, List.drop_left, if_pos List.getLast?_concat,
        List.dropLast_concat, String.ofList_toList, hdates _ _ hdate, hread, nanos_of_unit h,
        Option.bind_some, Option.map_some, Option.some.injEq]
      have hsum := seconds_add_rest digits value
      have hday : (value / 10 ^ digits / 86400) * 86400 +
          ((value / 10 ^ digits % 86400).toNat : ℤ) = value / 10 ^ digits := by omega
      push_cast
      calc value / 10 ^ digits / 86400 * 86400 * 10 ^ digits +
            (((value / 10 ^ digits % 86400).toNat : ℤ) * 10 ^ digits +
              ((value % 10 ^ digits).toNat : ℤ))
          = (value / 10 ^ digits / 86400 * 86400 + ((value / 10 ^ digits % 86400).toNat : ℤ)) *
              10 ^ digits + ((value % 10 ^ digits).toNat : ℤ) := by ring
        _ = value := by rw [hday, hsum]
    dsimp only
    rw [← hclock, readBack]
    cases utc with
    | true =>
      have htext : (date ++ "T" ++ clock ++ if true = true then "Z" else "").toList =
          ((date.toList ++ ['T']) ++ clock.toList) ++ ['Z'] := by simp
      rw [Format.read, htext, if_pos List.getLast?_concat, List.dropLast_concat, hinstant]
    | false =>
      have htext : (date ++ "T" ++ clock ++ if false = true then "Z" else "").toList =
          (date.toList ++ ['T']) ++ clock.toList := by simp
      rw [Format.read, htext, hinstant]

end

/-! ## Dates and times -/

/-- The units of a timestamp. -/
inductive Resolution where
  | millis
  | micros
  | nanos
  deriving DecidableEq

/-- How many digits behind the point a unit takes. -/
def Resolution.digits : Resolution → ℕ
  | .millis => 3
  | .micros => 6
  | .nanos => 9

theorem Resolution.digits_injective {r s : Resolution} (h : r.digits = s.digits) : r = s := by
  cases r <;> cases s <;> first | rfl | exact absurd h (by decide)

/-- The values of the logical types with a date or a time. -/
inductive Temporal where
  | date (days : Int32)
  | timeMillis (millis : Int32)
  | timeMicros (micros : Int64)
  | timestamp (resolution : Resolution) (utc : Bool) (value : Int64)
  deriving DecidableEq

namespace Temporal

/-- The Avro value. -/
def value : Temporal → Value
  | .date days => .date days
  | .timeMillis millis => .timeMillis millis
  | .timeMicros micros => .timeMicros micros
  | .timestamp .millis true n => .timestampMillis n
  | .timestamp .micros true n => .timestampMicros n
  | .timestamp .nanos true n => .timestampNanos n
  | .timestamp .millis false n => .localTimestampMillis n
  | .timestamp .micros false n => .localTimestampMicros n
  | .timestamp .nanos false n => .localTimestampNanos n

/-- The number that is in the payload. -/
def raw : Temporal → ℤ
  | .date days => days.toInt
  | .timeMillis millis => millis.toInt
  | .timeMicros micros => micros.toInt
  | .timestamp _ _ n => n.toInt

/-- The text that the type asks for. -/
def format : Temporal → Format
  | .date _ => .date
  | .timeMillis _ => .time 3
  | .timeMicros _ => .time 6
  | .timestamp resolution utc _ => .timestamp resolution.digits utc

/-- What the machine renders. -/
def checked (renderers : Renderers) : Temporal → Option Json
  | .date days => formatDateChecked renderers days
  | .timeMillis millis => formatTimeChecked millis.toInt 1000 3
  | .timeMicros micros => formatTimeChecked micros.toInt 1000000 6
  | .timestamp .millis utc n => formatTimestampChecked renderers n.toInt 1000 3 utc
  | .timestamp .micros utc n => formatTimestampChecked renderers n.toInt 1000000 6 utc
  | .timestamp .nanos utc n => formatTimestampChecked renderers n.toInt 1000000000 9 utc

variable (names : Names) (schema : Option Schema)

theorem checked_eq (t : Temporal) :
    t.checked renderers = some (toJsonValue renderers names t.value schema) := by
  cases t with
  | date days => exact formatDateChecked_eq renderers days
  | timeMillis millis => exact formatTimeChecked_eq (by decide) (by decide) (by decide) _
  | timeMicros micros => exact formatTimeChecked_eq (by decide) (by decide) (by decide) _
  | timestamp resolution utc n =>
    cases resolution <;> cases utc <;>
      exact formatTimestampChecked_eq renderers (by decide) (by decide) (by decide) _ _

theorem readBack_toJsonValue {readDate : String → Option ℤ} (hdates : ReadsDates renderers readDate)
    (t : Temporal) :
    readBack readDate t.format (toJsonValue renderers names t.value schema) = some t.raw := by
  cases t with
  | date days => exact readBack_formatDate hdates days
  | timeMillis millis => exact readBack_formatTime 3 (by decide) (by decide) _
  | timeMicros micros => exact readBack_formatTime 6 (by decide) (by decide) _
  | timestamp resolution utc n =>
    cases resolution <;> cases utc <;>
      exact readBack_formatTimestamp hdates (Resolution.digits _) (by decide) (by decide) _ _

theorem eq_of_raw {t u : Temporal} (hformat : t.format = u.format) (hraw : t.raw = u.raw) : t = u := by
  cases t <;> cases u <;> simp_all [format, raw, Int32.toInt_inj, Int64.toInt_inj]
  exact Resolution.digits_injective hformat.1

end Temporal

/-- **Dates and times**: no operation overflows, what is rendered is read back in the resolution of its
format, and two values of a type are rendered differently. -/
theorem temporal_faithful (renderers : Renderers) (readDate : String → Option ℤ)
    (hdates : ReadsDates renderers readDate) (names : Names) (schema : Option Schema) (t : Temporal) :
    t.checked renderers = some (toJsonValue renderers names t.value schema) ∧
      (∀ text, toJsonValue renderers names t.value schema = .string text →
        t.format.read readDate text = some t.raw) ∧
      ∀ u : Temporal, u.format = t.format → toJsonValue renderers names u.value schema =
        toJsonValue renderers names t.value schema → u = t := by
  have hback := Temporal.readBack_toJsonValue renderers names schema hdates t
  refine ⟨Temporal.checked_eq renderers names schema t, fun text htext => ?_, fun u hformat hjson => ?_⟩
  · rwa [htext] at hback
  · have hother := Temporal.readBack_toJsonValue renderers names schema hdates u
    rw [hformat, hjson, hback, Option.some.injEq] at hother
    exact Temporal.eq_of_raw hformat hother.symm

/-- The days around the epoch. -/
def epochRenderers : Renderers where
  base64 := fun _ => ""
  widen := fun _ => 0
  date := fun seconds =>
    if seconds / 86400 = 0 then some "1970-01-01"
    else if seconds / 86400 = -1 then some "1969-12-31"
    else none

/-- A reader of two dates. -/
def readEpochDate (text : String) : Option ℤ :=
  if text = "1970-01-01" then some 0 else if text = "1969-12-31" then some (-1) else none

theorem readsDates_epoch : ReadsDates epochRenderers readEpochDate := by
  intro seconds text htext
  unfold epochRenderers at htext
  dsimp only at htext
  split_ifs at htext with hfirst hsecond
  · obtain rfl := Option.some.inj htext
    rw [hfirst]
    rfl
  · obtain rfl := Option.some.inj htext
    rw [hsecond]
    rfl

/-- A millisecond before the epoch. -/
theorem temporal_faithful_before :
    Format.read readEpochDate (.timestamp 3 true) "1969-12-31T23:59:59.999Z" = some (-1) :=
  (temporal_faithful epochRenderers readEpochDate readsDates_epoch (fun _ => none) none
    (.timestamp .millis true (-1))).2.1 _ rfl

end OffsetExplorer.Avro
