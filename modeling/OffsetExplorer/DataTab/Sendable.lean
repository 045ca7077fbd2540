import OffsetExplorer.DataTab.Request
import OffsetExplorer.Lib.MapM
import Mathlib.Data.List.Induction

/-!
# What the Data tab can send

The form and the settings take many numbers that the parameters of a fetch do not.

* `readU32_isSome_iff` and the like: which numbers a parameter takes.
* `TypedWithin`, `PartsWithin`: the entered numbers are whole and of a range.
* `inlinePayloadBytesFor_spec`: the size of a preview is always taken.
* `held_heldSettings`: the settings are positive whole numbers, or infinite.
* `Sendable`: whole numbers, each in the range of its parameter.
* **`sendable_iff`**: a request is taken exactly if its numbers are sendable.
-/

namespace OffsetExplorer.DataTab

open Binary64

/-! ## What is taken -/

theorem isSome_bind_iff {α β : Type} {x : Option α} {f : α → Option β} {p : Prop}
    (h : ∀ a, x = some a → ((f a).isSome = true ↔ p)) :
    (x >>= f).isSome = true ↔ x.isSome = true ∧ p := by
  cases x with
  | none => simp
  | some a => simpa using h a rfl

theorem readOption_isSome_iff {α β : Type} {read : α → Option β} {x : Option α} :
    (readOption read x).isSome = true ↔ ∀ a, x = some a → (read a).isSome = true := by
  cases x <;> simp [readOption]

theorem readInteger_isSome_iff {low high : ℤ} {v : Double} :
    (readInteger low high v).isSome = true ↔
      ∃ k ∈ JsNumber.integerLiteral v, low ≤ k ∧ k ≤ high := by
  rw [readInteger, Option.isSome_filter, Option.any_eq_true]
  simp

theorem readI32_isSome_iff (v : Double) :
    (readI32 v).isSome = true ↔ JsNumber.Within (-2 ^ 31) (2 ^ 31 - 1) v :=
  readInteger_isSome_iff.trans (JsNumber.isI32_iff v)

theorem readI64_isSome_iff (v : Double) :
    (readI64 v).isSome = true ↔ JsNumber.Within (-(2 ^ 63 - 1)) (2 ^ 63 - 1) v :=
  readInteger_isSome_iff.trans (JsNumber.isI64_iff v)

theorem readU32_isSome_iff (v : Double) :
    (readU32 v).isSome = true ↔ JsNumber.Within 0 (2 ^ 32 - 1) v := by
  rw [readU32, Option.isSome_map]
  exact readInteger_isSome_iff.trans (JsNumber.isU32_iff v)

theorem readU64_isSome_iff (v : Double) :
    (readU64 v).isSome = true ↔ JsNumber.Within 0 (2 ^ 64 - 1) v := by
  rw [readU64, Option.isSome_map]
  exact readInteger_isSome_iff.trans (JsNumber.isU64_iff v)

theorem readI64_toDouble_isSome (t : TimeValue) : (readI64 t.toDouble).isSome = true := by
  obtain ⟨hlow, hhigh⟩ := abs_le.mp t.inRange
  exact (readI64_isSome_iff _).mpr ⟨t.ms, rfl, by omega, by omega⟩

/-! ## The numbers of the form -/

/-- The number of an entered text, if it has a finite one, is whole and of a range. -/
def TypedWithin (a b : ℤ) (text : String) : Prop :=
  (jsTrim text).isEmpty = false → ∀ v, (number (jsTrim text)).toFinite = some v →
    JsNumber.Within a b v

/-- So are those between the commas. -/
def PartsWithin (a b : ℤ) (text : String) : Prop :=
  (jsTrim text).isEmpty = false → ∀ part ∈ parts (jsTrim text), ∀ v,
    (number (jsTrim part)).toFinite = some v → JsNumber.Within a b v

theorem typedWithin_iff {a b : ℤ} {text : String} :
    TypedWithin a b text ↔ ∀ v, parsePositiveInt text = some v → JsNumber.Within a b v := by
  unfold TypedWithin parsePositiveInt
  cases h : (jsTrim text).isEmpty <;> simp [h]

theorem partsWithin_iff {a b : ℤ} {text : String} :
    PartsWithin a b text ↔ ∀ l, parsePartitions text = some l → ∀ v ∈ l, JsNumber.Within a b v := by
  unfold PartsWithin parsePartitions
  cases h : (jsTrim text).isEmpty with
  | true => simp [h]
  | false =>
    simp only [h, Bool.false_eq_true, if_false, true_imp_iff]
    constructor
    · intro hall l hl v hv
      split_ifs at hl
      obtain rfl := Option.some.inj hl
      obtain ⟨part, hpart, hfinite⟩ := List.mem_filterMap.mp hv
      exact hall part hpart v hfinite
    · intro hall part hpart v hv
      have hmem : v ∈ (parts (jsTrim text)).filterMap fun part =>
          (number (jsTrim part)).toFinite := List.mem_filterMap.mpr ⟨part, hpart, hv⟩
      refine hall _ (if_neg ?_) v hmem
      intro hempty
      rw [List.isEmpty_iff.mp hempty] at hmem
      cases hmem

/-! ## The size of a preview -/

theorem cut_floor (v : Double) : ∃ n : ℕ,
    JsNumber.min (.ofRat maxInlinePayloadBytes) (.max (.ofRat valuePreviewBytes) (.ofRat ⌊v.value⌋)) =
      .ofRat n ∧ valuePreviewBytes ≤ n ∧ n ≤ maxInlinePayloadBytes ∧
        (n = valuePreviewBytes ∨ n ≤ v.value) := by
  have hbounds : JsNumber.min (.ofRat maxInlinePayloadBytes) (.ofRat valuePreviewBytes) =
      .ofRat valuePreviewBytes := by decide +kernel
  have hne := JsNumber.ofRat_ne_nan
  by_cases hlow : JsNumber.lt (.ofRat valuePreviewBytes) (.ofRat ⌊v.value⌋) = true
  · have hlow' := (JsNumber.lt_ofRat_floor_iff (by decide) v).mp hlow
    have hnonneg : 0 ≤ ⌊v.value⌋ := by omega
    obtain ⟨k, hk⟩ := Int.eq_ofNat_of_zero_le hnonneg
    have hshare : (k : ℚ) ≤ v.value := by
      have hfloor := Int.floor_le v.value
      rwa [hk, Int.cast_natCast] at hfloor
    rw [JsNumber.max_of_lt (hne _) (hne _) hlow]
    by_cases hhigh : JsNumber.lt (.ofRat ⌊v.value⌋) (.ofRat maxInlinePayloadBytes) = true
    · have hhigh' := (JsNumber.ofRat_floor_lt_iff (by decide) v (Int.floor_nonneg.mp hnonneg)).mp hhigh
      rw [JsNumber.min_of_lt (hne _) (hne _) hhigh, hk, Int.cast_natCast]
      exact ⟨k, rfl, by omega, by omega, .inr hshare⟩
    · have hhigh' := mt (JsNumber.ofRat_floor_lt_iff (by decide) v (Int.floor_nonneg.mp hnonneg)).mpr hhigh
      rw [JsNumber.min_of_not_lt (hne _) (hne _) (Bool.eq_false_iff.mpr hhigh)]
      have hge : maxInlinePayloadBytes ≤ k := by omega
      exact ⟨_, rfl, by decide, le_rfl, .inr ((Nat.cast_le.mpr hge).trans hshare)⟩
  · rw [JsNumber.max_of_not_lt (hne _) (hne _) (Bool.eq_false_iff.mpr hlow), hbounds]
    exact ⟨_, rfl, le_rfl, by decide, .inl rfl⟩

/-- **The size of a preview** of a number of rows is a whole number between its bounds; above the lower
one it is at most the share of a row in the budget. -/
theorem inlinePayloadBytesFor_spec (rows : Option JsNumber) :
    rows = some .nan ∨ ∃ n : ℕ, inlinePayloadBytesFor rows = .ofRat n ∧
      valuePreviewBytes ≤ n ∧ n ≤ maxInlinePayloadBytes ∧ (rows = none → n = valuePreviewBytes) ∧
      ∀ x, rows = some x → (x.Le 0 → n = valuePreviewBytes) ∧
        ∀ v : Double, JsNumber.quotient payloadRetentionBudgetBytes x = .finite v →
          n = valuePreviewBytes ∨ n ≤ v.value := by
  cases rows with
  | none => exact .inr ⟨_, rfl, le_rfl, by decide, fun _ => rfl, fun x hx => by cases hx⟩
  | some x =>
    rw [inlinePayloadBytesFor]
    by_cases hx : x.Le 0
    · rw [if_pos hx]
      refine .inr ⟨_, rfl, le_rfl, by decide, fun _ => rfl, fun y _ => ⟨fun _ => rfl, fun _ _ => ?_⟩⟩
      exact .inl rfl
    · rw [if_neg hx]
      cases hq : JsNumber.quotient payloadRetentionBudgetBytes x with
      | nan =>
        left
        cases x with
        | nan => rfl
        | infinity negative => exact absurd hq (JsNumber.ofRat_ne_nan _)
        | finite v => exact absurd hq (JsNumber.ofRat_ne_nan _)
      | infinity negative =>
        have hcut : ∀ b : Bool, JsNumber.min (.ofRat maxInlinePayloadBytes)
            (.max (.ofRat valuePreviewBytes) (JsNumber.floor (.infinity b))) =
              .ofRat (if b then valuePreviewBytes else maxInlinePayloadBytes : ℕ) := by
          decide +kernel
        refine .inr ⟨_, hcut negative, ?_, ?_, fun h => (by cases h), fun y hy => ?_⟩
        · cases negative <;> decide
        · cases negative <;> decide
        · cases hy
          refine ⟨fun h => absurd h hx, fun v hv => ?_⟩
          rw [hq] at hv
          cases hv
      | finite w =>
        obtain ⟨n, hn, hlow, hhigh, hshare⟩ := cut_floor w
        refine .inr ⟨n, hn, hlow, hhigh, fun h => (by cases h), fun y hy => ?_⟩
        cases hy
        refine ⟨fun h => absurd h hx, fun v hv => ?_⟩
        rw [hq] at hv
        cases hv
        exact hshare

theorem readOption_preview_isSome (rows : Option JsNumber) :
    (readOption readU32 (inlinePayloadBytesFor rows).toFinite).isSome = true := by
  rw [readOption_isSome_iff]
  intro v hv
  rcases inlinePayloadBytesFor_spec rows with h | ⟨n, h, -, hhigh, -⟩
  · have hnan : inlinePayloadBytesFor (some .nan) = .nan := by decide +kernel
    rw [h, hnan] at hv
    cases hv
  · have hn : n < 2 ^ 53 := hhigh.trans_lt (by decide)
    obtain ⟨w, hw, hwv⟩ := JsNumber.ofRat_natCast hn
    rw [h, hw] at hv
    cases hv
    have hmax : maxInlinePayloadBytes ≤ 2 ^ 32 - 1 := by decide
    exact (readU32_isSome_iff v).mpr ⟨n, hwv, by omega, by omega⟩

/-! ## What the settings hold -/

/-- A whole positive number, or no bound at all. -/
def Held (x : JsNumber) : Prop :=
  x = .infinity false ∨ ∃ v : Double, ∃ n : ℕ, x = .finite v ∧ v.value = n ∧ 0 < n

theorem held_ofRat {n : ℕ} (hpos : 0 < n) (h : n < 2 ^ 53) : Held (.ofRat n) := by
  obtain ⟨v, hv, hvn⟩ := JsNumber.ofRat_natCast h
  exact .inr ⟨v, n, hv, hvn, hpos⟩

/-- **The guard of the setters** keeps to positive whole numbers, and to infinity. -/
theorem held_clampPositiveInt (x : JsNumber) : Held (clampPositiveInt x) := by
  rw [clampPositiveInt]
  split_ifs with hpos
  · cases x with
    | nan =>
      have hnot : JsNumber.lt 0 (JsNumber.trunc .nan) = false := by decide +kernel
      rw [hnot] at hpos
      cases hpos
    | infinity negative =>
      cases negative with
      | false => exact .inl rfl
      | true =>
        have hnot : JsNumber.lt 0 (JsNumber.trunc (.infinity true)) = false := by decide +kernel
        rw [hnot] at hpos
        cases hpos
    | finite v =>
      by_cases hv : 0 ≤ v.value
      · have htrunc : JsNumber.trunc (.finite v) = .ofRat ⌊v.value⌋ := by
          rw [JsNumber.trunc, JsNumber.mapFinite, if_pos hv]
        rw [htrunc] at hpos
        have hlt := (JsNumber.lt_ofRat_floor_iff (n := 0) (by norm_num) v).mp hpos
        obtain ⟨k, hk⟩ := Int.eq_ofNat_of_zero_le hlt.le
        obtain ⟨w, hw, hwv⟩ := JsNumber.ofRat_floor v hv
        rw [htrunc, hw]
        rw [hk, Int.cast_natCast] at hwv
        exact .inr ⟨w, k, rfl, hwv, by omega⟩
      · have htrunc : JsNumber.trunc (.finite v) = .ofRat ⌈v.value⌉ := by
          rw [JsNumber.trunc, JsNumber.mapFinite, if_neg hv]
        have hceil : (⌈v.value⌉ : ℚ) ≤ 0 := by
          exact_mod_cast Int.ceil_le.mpr (by exact_mod_cast (not_le.mp hv).le)
        rw [htrunc, show (0 : JsNumber) = .ofRat (0 : ℕ) from rfl,
          JsNumber.lt_ofRat_of_nonpos 0 (by norm_num) hceil] at hpos
        cases hpos
  · exact held_ofRat (n := 1) one_pos (by norm_num)

/-- Every setting that a fetch sends is held. -/
structure HeldSettings (s : GeneralSettings) : Prop where
  brokerReadTimeoutMs : Held s.brokerReadTimeoutMs
  maxMessageSizeBytes : Held s.maxMessageSizeBytes
  maxTotalFetchBytes : Held s.maxTotalFetchBytes

theorem held_set {s : GeneralSettings} (h : HeldSettings s) (call : Setter) :
    HeldSettings (s.set call) := by
  cases call with
  | zookeeperTimeoutMs ms => exact ⟨h.1, h.2, h.3⟩
  | brokerReadTimeoutMs ms => exact ⟨held_clampPositiveInt ms, h.2, h.3⟩
  | maxMessageSizeBytes bytes => exact ⟨h.1, held_clampPositiveInt bytes, h.3⟩
  | maxTotalFetchBytes bytes => exact ⟨h.1, h.2, held_clampPositiveInt bytes⟩

theorem held_defaults : HeldSettings .defaults where
  brokerReadTimeoutMs := held_ofRat (n := 10000) (by norm_num) (by norm_num)
  maxMessageSizeBytes := held_ofRat (n := 1048576) (by norm_num) (by norm_num)
  maxTotalFetchBytes := held_ofRat (n := 536870912) (by norm_num) (by norm_num)

/-- **The store** holds such settings after any calls. -/
theorem held_heldSettings (calls : List Setter) : HeldSettings (heldSettings calls) := by
  induction calls using List.reverseRecOn with
  | nil => exact held_defaults
  | append_singleton calls call ih =>
    rw [heldSettings, List.foldl_concat]
    exact held_set ih call

theorem held_within_iff {x : JsNumber} (h : Held x) {B : ℕ} (hB : nearest B = B)
    (hle : B ≤ 2 ^ 64) : (∃ v, x.toFinite = some v ∧ JsNumber.Within 0 (B - 1) v) ↔
      JsNumber.lt x (.ofRat B) = true := by
  obtain ⟨b, hb, hbv⟩ : ∃ b : Double, JsNumber.ofRat B = .finite b ∧ b.value = B := by
    have habs : |nearest B| < 2 ^ 1024 := by
      rw [hB, Nat.abs_cast]
      calc (B : ℚ) ≤ 2 ^ 64 := by exact_mod_cast hle
        _ < 2 ^ 1024 := pow_lt_pow_right₀ one_lt_two (by norm_num)
    exact ⟨⟨nearest B, nearest_nearest B, habs⟩, dif_pos habs, hB⟩
  rw [hb]
  rcases h with rfl | ⟨v, n, rfl, hvn, hpos⟩
  · refine iff_of_false ?_ Bool.false_ne_true
    rintro ⟨v, hv, -⟩
    cases hv
  · have hltiff : JsNumber.lt (.finite v) (.finite b) = true ↔ n < B := by
      show decide (v.value < b.value) = true ↔ _
      rw [decide_eq_true_iff, hvn, hbv, Nat.cast_lt]
    rw [hltiff]
    constructor
    · rintro ⟨w, hw, z, hz, -, hle⟩
      cases hw
      rw [hvn] at hz
      have hzn : (n : ℤ) = z := by exact_mod_cast hz
      omega
    · intro hn
      exact ⟨v, rfl, n, hvn, by omega, by omega⟩

section Taken

variable {α : Type} {read : Double → Option α} {x : JsNumber} {B : ℕ}

theorem Held.bind_isSome_iff (h : Held x) (hB : nearest B = B) (hle : B ≤ 2 ^ 64)
    (hread : ∀ v, (read v).isSome = true ↔ JsNumber.Within 0 (B - 1) v) :
    (x.toFinite.bind read).isSome = true ↔ JsNumber.lt x (.ofRat B) = true := by
  rw [← held_within_iff h hB hle]
  simp only [← hread]
  cases x.toFinite <;> simp

theorem Held.readOption_isSome_iff (h : Held x) (hB : nearest B = B) (hle : B ≤ 2 ^ 64)
    (hread : ∀ v, (read v).isSome = true ↔ JsNumber.Within 0 (B - 1) v) :
    (readOption read x.toFinite).isSome = true ↔
      x = .infinity false ∨ JsNumber.lt x (.ofRat B) = true := by
  rw [← h.bind_isSome_iff hB hle hread]
  rcases h with rfl | ⟨v, n, rfl, -, -⟩
  · exact iff_of_true rfl (.inl rfl)
  · rw [or_iff_right JsNumber.noConfusion]
    exact Bool.eq_iff_iff.mp Option.isSome_map

end Taken

/-! ## The request -/

/-- Whole numbers in the form, each in the range of its parameter, and settings below their bounds. The
least offset of 64 bits is left out: it is written as a lesser number. -/
structure Sendable (form : FilterFormState) (settings : GeneralSettings) : Prop where
  partitions : PartsWithin (-2 ^ 31) (2 ^ 31 - 1) form.partitions
  maxMessagesPerPartition : TypedWithin 0 (2 ^ 32 - 1) form.maxMessagesPerPartition
  maxTotalMessages : TypedWithin 0 (2 ^ 32 - 1) form.maxTotalMessages
  offset : TypedWithin (-(2 ^ 63 - 1)) (2 ^ 63 - 1) form.offset
  brokerReadTimeoutMs : JsNumber.lt settings.brokerReadTimeoutMs (.ofRat (2 ^ 64 : ℕ)) = true
  maxMessageSizeBytes : JsNumber.lt settings.maxMessageSizeBytes (.ofRat (2 ^ 32 : ℕ)) = true
  maxTotalFetchBytes : settings.maxTotalFetchBytes = .infinity false ∨
    JsNumber.lt settings.maxTotalFetchBytes (.ofRat (2 ^ 64 : ℕ)) = true

theorem readOption_typed_iff {α : Type} {read : Double → Option α} {a b : ℤ} {text : String}
    (h : ∀ v, (read v).isSome = true ↔ JsNumber.Within a b v) :
    (readOption read (parsePositiveInt text)).isSome = true ↔ TypedWithin a b text := by
  rw [readOption_isSome_iff, typedWithin_iff]
  simp only [h]

theorem readOption_parts_iff (text : String) :
    (readOption (List.mapM readI32) (parsePartitions text)).isSome = true ↔
      PartsWithin (-2 ^ 31) (2 ^ 31 - 1) text := by
  rw [readOption_isSome_iff, partsWithin_iff]
  simp only [MapM.mapM_isSome_iff, readI32_isSome_iff]

theorem readOption_date_isSome (date : Option TimeValue) :
    (readOption readI64 (date.map TimeValue.toDouble)).isSome = true := by
  rw [readOption_isSome_iff]
  intro v hv
  obtain ⟨t, -, rfl⟩ := Option.map_eq_some_iff.mp hv
  exact readI64_toDouble_isSome t

variable {getTime : String → Option TimeValue} {form : FilterFormState} {settings : GeneralSettings}

theorem deserializeFilter_isSome_iff :
    (deserializeFilter (toMessageFilter getTime form)).isSome = true ↔
      PartsWithin (-2 ^ 31) (2 ^ 31 - 1) form.partitions ∧
        TypedWithin 0 (2 ^ 32 - 1) form.maxMessagesPerPartition ∧
        TypedWithin 0 (2 ^ 32 - 1) form.maxTotalMessages ∧
        TypedWithin (-(2 ^ 63 - 1)) (2 ^ 63 - 1) form.offset := by
  rw [← readOption_parts_iff, ← readOption_typed_iff readU32_isSome_iff,
    ← readOption_typed_iff readU32_isSome_iff, ← readOption_typed_iff readI64_isSome_iff]
  have hfrom := readOption_date_isSome (parseDate getTime form.fromDate)
  have hto := readOption_date_isSome (parseDate getTime form.toDate)
  have hpreview := readOption_preview_isSome (estimatedFetchRows form)
  rw [deserializeFilter]
  dsimp only [toMessageFilter]
  rw [isSome_bind_iff fun _ _ => isSome_bind_iff fun _ _ => isSome_bind_iff fun _ _ =>
    isSome_bind_iff fun _ _ => isSome_bind_iff fun _ _ => isSome_bind_iff fun _ _ =>
    isSome_bind_iff fun _ _ => iff_true_intro rfl]
  simp only [hfrom, hto, hpreview, true_and, and_true]

/-- **What the back end takes.** Whatever is entered in the form and set in the settings, the arguments
of the fetch are taken exactly if their numbers are sendable. -/
theorem sendable_iff (getTime : String → Option TimeValue) (form : FilterFormState)
    (calls : List Setter) :
    (deserialize (fetchMessages (toMessageFilter getTime form) (heldSettings calls))).isSome = true ↔
      Sendable form (heldSettings calls) := by
  have hheld := held_heldSettings calls
  generalize heldSettings calls = settings at hheld
  have htimeout := hheld.brokerReadTimeoutMs.bind_isSome_iff (B := 2 ^ 64) (by decide +kernel)
    (by norm_num) readU64_isSome_iff
  have hsize := hheld.maxMessageSizeBytes.bind_isSome_iff (B := 2 ^ 32) (by decide +kernel)
    (by norm_num) readU32_isSome_iff
  have htotal := hheld.maxTotalFetchBytes.readOption_isSome_iff (B := 2 ^ 64) (by decide +kernel)
    (by norm_num) readU64_isSome_iff
  rw [deserialize]
  dsimp only [fetchMessages]
  rw [isSome_bind_iff fun _ _ => isSome_bind_iff fun _ _ => isSome_bind_iff fun _ _ =>
    isSome_bind_iff fun _ _ => iff_true_intro rfl, and_true, deserializeFilter_isSome_iff]
  constructor
  · rintro ⟨⟨hparts, hper, hmax, hoffset⟩, ht, hs, hb⟩
    exact ⟨hparts, hper, hmax, hoffset, htimeout.mp ht, hsize.mp hs, htotal.mp hb⟩
  · intro h
    exact ⟨⟨h.partitions, h.maxMessagesPerPartition, h.maxTotalMessages, h.offset⟩,
      htimeout.mpr h.brokerReadTimeoutMs, hsize.mpr h.maxMessageSizeBytes,
      htotal.mpr h.maxTotalFetchBytes⟩

/-- The form as it starts, with half a message more. -/
def fractionForm : FilterFormState := { emptyFilterForm with maxTotalMessages := "100.5" }

/-- It passes both checks, and its fetch is refused for the number; so is the form as it starts, once the
largest message may have `2 ^ 32` bytes. -/
theorem fraction_not_taken :
    validateMaxMessagesPerPartition fractionForm = none ∧
      validateDateRange (fun _ => none) fractionForm = none ∧
      (deserialize (fetchMessages (toMessageFilter (fun _ => none) fractionForm)
        (heldSettings []))).isSome = false ∧
      (deserialize (fetchMessages (toMessageFilter (fun _ => none) emptyFilterForm)
        (heldSettings [.maxMessageSizeBytes (.ofRat (2 ^ 32 : ℕ))]))).isSome = false := by
  decide +kernel

end OffsetExplorer.DataTab
