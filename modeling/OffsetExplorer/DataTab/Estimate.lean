import OffsetExplorer.DataTab.Sendable
import OffsetExplorer.Fetch.Account

/-!
# The estimate of a fetch

The front end estimates the rows of a fetch from the texts of the form, and prices the previews from the
estimate. The back end makes its limits from the numbers that it reads.

* `deserializeFilter_eq_some`: the numbers on both sides are the same.
* `estimate_spec`: the estimate is the total, or the cap for each of the partitions.
* `preview_spec`: the previews of so many rows are within the budget, unless they are the least.
* `carried`: the bytes of a payload that its row carries.
* **`estimate_bounds_retained`**: the estimate bounds the rows, and the budget what they carry.
-/

namespace OffsetExplorer.DataTab

open Binary64 Fetch Machine

variable {form : FilterFormState} {getTime : String → Option TimeValue}

/-! ## The numbers on both sides -/

theorem readOption_eq_some {α β : Type} {read : α → Option β} {x : Option α} {y : Option β}
    (h : readOption read x = some y) : ∀ a, x = some a → ∃ b, y = some b ∧ read a = some b := by
  rintro a rfl
  obtain ⟨b, hb, rfl⟩ := Option.map_eq_some_iff.mp h
  exact ⟨b, rfl, hb⟩

theorem readU32_eq_some {v : Double} {n : UInt32} (h : readU32 v = some n) : v.value = n.toNat := by
  obtain ⟨z, hz, hlow, hhigh⟩ := (readU32_isSome_iff v).mp (Option.isSome_of_eq_some h)
  obtain ⟨k, rfl⟩ := Int.eq_ofNat_of_zero_le hlow
  have hk : k < 2 ^ 32 := by omega
  have hliteral := JsNumber.integerLiteral_natCast (n := k) hz (by omega)
  have hfilter : readInteger 0 (2 ^ 32 - 1) v = some (k : ℤ) := by
    rw [readInteger, hliteral]
    exact Option.filter_some_pos (decide_eq_true ⟨hlow, hhigh⟩)
  rw [readU32, hfilter, Option.map_some, Int.toNat_natCast] at h
  cases h
  rw [hz, UInt32.toNat_ofNat_of_lt' hk, Int.cast_natCast]

theorem deserializeFilter_eq_some {sent : WireFilter} {filter : MessageFilter}
    (h : deserializeFilter sent = some filter) :
    readOption (List.mapM readI32) sent.partitions = some filter.partitions ∧
      readOption readU32 sent.maxMessagesPerPartition = some filter.maxMessagesPerPartition ∧
      readOption readU32 sent.maxTotalMessages = some filter.maxTotalMessages ∧
      readOption readU32 sent.maxPayloadPreviewBytes.toFinite =
        some filter.maxPayloadPreviewBytes := by
  simp only [deserializeFilter, Option.bind_eq_bind, Option.bind_eq_some_iff] at h
  obtain ⟨_, hpartitions, _, hcap, _, htotal, _, _, _, _, _, _, _, hpreview, h⟩ := h
  cases h
  exact ⟨hpartitions, hcap, htotal, hpreview⟩

/-! ## The estimate -/

theorem estimatedFetchRows_eq_some {rows : JsNumber} (h : estimatedFetchRows form = some rows) :
    (∃ total, parsePositiveInt form.maxTotalMessages = some total ∧ rows = .finite total) ∨
      ∃ cap l, parsePositiveInt form.maxMessagesPerPartition = some cap ∧
        parsePartitions form.partitions = some l ∧ rows = .mul cap.value l.length := by
  rw [estimatedFetchRows] at h
  generalize parsePositiveInt form.maxTotalMessages = total at h ⊢
  generalize parsePositiveInt form.maxMessagesPerPartition = cap at h ⊢
  generalize parsePartitions form.partitions = partitions at h ⊢
  cases total with
  | none =>
    cases cap with
    | none => cases h
    | some cap =>
      cases partitions with
      | none => cases h
      | some l => exact .inr ⟨cap, l, rfl, rfl, (Option.some.inj h).symm⟩
  | some total =>
    cases cap with
    | none => exact .inl ⟨total, rfl, (Option.some.inj h).symm⟩
    | some cap =>
      cases partitions with
      | none => exact .inl ⟨total, rfl, (Option.some.inj h).symm⟩
      | some l =>
        have hmin : JsNumber.min (.finite total) (.mul cap.value l.length) = rows :=
          Option.some.inj h
        rcases JsNumber.min_eq_or (a := .finite total) JsNumber.noConfusion
          (JsNumber.ofRat_ne_nan (cap.value * l.length)) with hle | hle
        · exact .inl ⟨total, rfl, hmin.symm.trans hle⟩
        · exact .inr ⟨cap, l, rfl, rfl, hmin.symm.trans hle⟩

/-- **The estimate** is a count: the total of the filter, or its cap for each of its partitions. -/
theorem estimate_spec {filter : MessageFilter} {rows : JsNumber}
    (h : deserializeFilter (toMessageFilter getTime form) = some filter)
    (hrows : estimatedFetchRows form = some rows) :
    ∃ m : ℕ, rows = .ofRat m ∧ ((∃ t, filter.maxTotalMessages = some t ∧ m = t.toNat) ∨
      ∃ u l, filter.maxMessagesPerPartition = some u ∧ filter.partitions = some l ∧
        m = u.toNat * l.length) := by
  obtain ⟨hpartitions, hcap, htotal, -⟩ := deserializeFilter_eq_some h
  simp only [toMessageFilter] at hpartitions hcap htotal
  rcases estimatedFetchRows_eq_some hrows with ⟨v, hv, rfl⟩ | ⟨v, l, hv, hl, rfl⟩
  · obtain ⟨t, ht, hread⟩ := readOption_eq_some htotal v hv
    have hlt : t.toNat < 2 ^ 53 := t.toNat_lt.trans (by norm_num)
    exact ⟨_, JsNumber.finite_eq_ofRat (readU32_eq_some hread) hlt, .inl ⟨t, ht, rfl⟩⟩
  · obtain ⟨u, hu, hread⟩ := readOption_eq_some hcap v hv
    obtain ⟨l', hl', hmap⟩ := readOption_eq_some hpartitions l hl
    refine ⟨u.toNat * l'.length, ?_, .inr ⟨u, l', hu, hl', rfl⟩⟩
    have hlength := (MapM.mapM_eq_some_iff.mp hmap).length_eq
    rw [JsNumber.mul, readU32_eq_some hread, ← hlength, Nat.cast_mul]

theorem totalTarget_le_estimate {c : Loop} {b : Broker} {rows : JsNumber}
    (h : deserializeFilter (toMessageFilter getTime form) = some c.filter)
    (hplan : planFetch b c.filter = .ok c.plan) (hrows : estimatedFetchRows form = some rows) :
    ∃ m : ℕ, rows = .ofRat m ∧ c.totalTarget ≤ m := by
  obtain ⟨htotal, hcap⟩ := totalTarget_le hplan
  obtain ⟨m, hm, ⟨t, ht, rfl⟩ | ⟨u, l, hu, hl, rfl⟩⟩ := estimate_spec h hrows
  · exact ⟨_, hm, htotal t ht⟩
  · refine ⟨_, hm, ?_⟩
    rwa [hu, Broker.targetPartitions, hl] at hcap

/-! ## The previews -/

/-- A share of no less than the least preview is one of few enough rows for the estimate to be exact. -/
theorem few_of_share {m : ℕ}
    (h : (valuePreviewBytes : ℚ) ≤ nearest (payloadRetentionBudgetBytes / nearest m)) : m < 2 ^ 15 := by
  by_contra hmany
  have hrows := JsNumber.nearest_natCast_mono (Nat.not_lt.mp hmany)
  rw [nearest_natCast (n := 2 ^ 15) (by norm_num)] at hrows
  have hpos : (0 : ℚ) < nearest m := lt_of_lt_of_le (by norm_num) hrows
  have hshare : (payloadRetentionBudgetBytes / nearest m : ℚ) ≤ (2048 : ℕ) := by
    rw [div_le_iff₀ hpos]
    calc (payloadRetentionBudgetBytes : ℚ) = (2048 : ℕ) * (2 ^ 15 : ℕ) := by decide +kernel
      _ ≤ (2048 : ℕ) * nearest m := mul_le_mul_of_nonneg_left hrows (Nat.cast_nonneg _)
  have hround := nearest_mono (div_nonneg (Nat.cast_nonneg _) hpos.le) hshare
  rw [nearest_natCast (n := 2048) (by norm_num)] at hround
  exact absurd (h.trans hround) (by decide +kernel)

/-- **The previews** of so many rows are within the budget, unless they are the least. -/
theorem preview_spec {rows : Option JsNumber} (h : ∀ x, rows = some x → ∃ m : ℕ, x = .ofRat m) :
    ∃ p : ℕ, inlinePayloadBytesFor rows = .ofRat p ∧ p < 2 ^ 53 ∧ (p = valuePreviewBytes ∨
      ∃ x, rows = some x ∧ ∀ m : ℕ, x = .ofRat m → p * m ≤ payloadRetentionBudgetBytes) := by
  rcases inlinePayloadBytesFor_spec rows with hnan | ⟨p, hp, hlow, hhigh, hnone, hshare⟩
  · obtain ⟨m, hm⟩ := h _ hnan
    exact absurd hm.symm (JsNumber.ofRat_ne_nan _)
  refine ⟨p, hp, hhigh.trans_lt (by decide), or_iff_not_imp_left.mpr fun hne => ?_⟩
  cases rows with
  | none => exact absurd (hnone rfl) hne
  | some x =>
    refine ⟨x, rfl, fun m hm => ?_⟩
    obtain ⟨hzero, hshare⟩ := hshare x rfl
    rw [hm] at hzero hshare
    have hpos : 0 < m := by
      refine Nat.pos_of_ne_zero fun h0 => hne (hzero ?_)
      rw [h0]
      decide +kernel
    obtain ⟨v, hv, hvalue⟩ :=
      JsNumber.quotient_ofRat (a := payloadRetentionBudgetBytes) (by decide) hpos
    have hle : (p : ℚ) ≤ v.value := (hshare v hv).resolve_left hne
    have hp4096 : (valuePreviewBytes : ℚ) ≤ p := Nat.cast_le.mpr hlow
    rcases hvalue with h0 | hvalue
    · rw [h0] at hle
      exact absurd (hp4096.trans hle) (by decide +kernel)
    rw [hvalue] at hle
    have hfew := few_of_share (hp4096.trans hle)
    rw [nearest_natCast (hfew.trans (by norm_num))] at hle
    refine mul_le_of_le_nearest_div hpos hfew.le (by norm_num) ?_ hle
    calc p * 2 ^ 15 ≤ maxInlinePayloadBytes * 2 ^ 15 := Nat.mul_le_mul_right _ hhigh
      _ < 2 ^ 53 := by decide

/-! ## The fetch -/

/-- The bytes of a payload that its row carries. -/
def carried (c : Loop) (m : BorrowedMessage) : Bytes :=
  if c.filter.includePayload then
    payloadPreviewSlice (m.payload.getD []) c.filter.maxPayloadPreviewBytes
  else []

theorem row_payloadBase64 (c : Loop) (m : BorrowedMessage) : (c.row m).payloadBase64 =
    if c.filter.includePayload then some (c.encode (carried c m)) else none := by
  unfold Loop.row carried
  dsimp only
  split_ifs <;> rfl

theorem length_carried_le {c : Loop} {n : UInt32} (h : c.filter.maxPayloadPreviewBytes = some n)
    (m : BorrowedMessage) : (carried c m).length ≤ n.toNat := by
  unfold carried
  split_ifs
  · rw [h, payloadPreviewSlice, List.length_take]
    omega
  · exact Nat.zero_le _

/-- **The estimate bounds what a fetch retains.** Whatever the form, the topic and the broker: where the
filter of the form is taken, a fetch by its plan never has more rows than the estimate, and what they
carry of the payloads, the estimate known or not, is within the budget or what the least previews of so
many rows come to. Counts below `2 ^ 53` are numbers of the language as they are. -/
theorem estimate_bounds_retained {c : Loop} {b : Broker} {es : List Iteration} {s : PollState}
    (h : deserializeFilter (toMessageFilter getTime form) = some c.filter)
    (hplan : planFetch b c.filter = .ok c.plan)
    (hrun : run (Fetch.step c) (Fetch.start c) es = some s) :
    (∀ rows, estimatedFetchRows form = some rows →
        (JsNumber.ofRat (Fetch.result c s).messages.length).Le rows) ∧
      ∃ taken : List BorrowedMessage, taken.Sublist (messagesOf es) ∧
        (Fetch.result c s).messages = taken.map c.row ∧
        (taken.map fun m => (carried c m).length).sum ≤ max payloadRetentionBudgetBytes
          ((Fetch.result c s).messages.length * valuePreviewBytes) := by
  have hmessages : (Fetch.result c s).messages = s.collected := rfl
  rw [hmessages]
  have hist := history_run (planFetch_limits_nonneg hplan) hrun
  obtain ⟨r, hr⟩ := hist.ledger
  have htarget := hr.collected_le_target
  have hrows : ∀ rows, estimatedFetchRows form = some rows →
      ∃ m : ℕ, rows = .ofRat m ∧ s.collected.length ≤ m := by
    intro rows hrows
    obtain ⟨m, hm, hle⟩ := totalTarget_le_estimate h hplan hrows
    exact ⟨m, hm, by omega⟩
  constructor
  · intro rows hknown
    obtain ⟨m, rfl, hle⟩ := hrows rows hknown
    exact JsNumber.ofRat_mono (Nat.cast_nonneg _) (Nat.cast_le.mpr hle)
  · obtain ⟨taken, hsub, htaken⟩ := List.sublist_map_iff.mp hist.rows
    refine ⟨taken, hsub, htaken, ?_⟩
    have hlength : s.collected.length = taken.length := by rw [htaken, List.length_map]
    obtain ⟨p, hp, hlt, hsize⟩ :=
      preview_spec fun rows hknown => (hrows rows hknown).imp fun _ => And.left
    obtain ⟨v, hv, hvp⟩ := JsNumber.ofRat_natCast hlt
    obtain ⟨-, -, -, hpreview⟩ := deserializeFilter_eq_some h
    obtain ⟨n, hn, hread⟩ := readOption_eq_some hpreview v (by rw [toMessageFilter, hp, hv]; rfl)
    have hnp : n.toNat = p := Nat.cast_injective ((readU32_eq_some hread).symm.trans hvp)
    have hsum : (taken.map fun m => (carried c m).length).sum ≤ taken.length * p := by
      have := List.sum_le_card_nsmul (taken.map fun m => (carried c m).length) p fun k hk => by
        obtain ⟨m, -, rfl⟩ := List.mem_map.mp hk
        exact hnp ▸ length_carried_le hn m
      rwa [List.length_map, nsmul_eq_mul] at this
    rw [hlength]
    refine hsum.trans ?_
    rcases hsize with rfl | ⟨rows, hknown, hbudget⟩
    · exact le_max_right _ _
    · obtain ⟨m, hm, hle⟩ := hrows rows hknown
      calc taken.length * p ≤ m * p := Nat.mul_le_mul_right p (hlength ▸ hle)
        _ = p * m := Nat.mul_comm m p
        _ ≤ payloadRetentionBudgetBytes := hbudget m hm
        _ ≤ _ := le_max_left _ _

/-- The form as it starts, with payloads. -/
def payloadForm : FilterFormState := { emptyFilterForm with includePayload := true }

/-- A filter that asks for whole payloads of up to 256 KiB. -/
def payloadFilter : MessageFilter where
  maxMessagesPerPartition := some 100
  maxTotalMessages := some 100
  includePayload := true
  maxPayloadPreviewBytes := some 262144

/-- Its fetch from a topic with two messages. -/
def payloadFetch : Loop where
  filter := payloadFilter
  plan := (planFetch (uniformTopic [0] 0 2) payloadFilter).toOption.getD ⟨0, ∅, ∅, ∅⟩
  maxMessageSizeBytes := 1048576
  maxTotalPayloadBytes := none
  encode _ := ""

theorem payloadFetch_bounded :
    ∃ s, run (Fetch.step payloadFetch) (Fetch.start payloadFetch)
        [polledMessage 0 0, polledMessage 0 1] = some s ∧
      (JsNumber.ofRat (Fetch.result payloadFetch s).messages.length).Le (.ofRat 100) := by
  obtain ⟨s, hs⟩ : ∃ s, run (Fetch.step payloadFetch) (Fetch.start payloadFetch)
      [polledMessage 0 0, polledMessage 0 1] = some s :=
    Option.isSome_iff_exists.mp (by decide +kernel)
  have hform : deserializeFilter (toMessageFilter (fun _ => none) payloadForm) =
      some payloadFetch.filter := by decide +kernel
  have hplan : planFetch (uniformTopic [0] 0 2) payloadFetch.filter = .ok payloadFetch.plan := rfl
  have hrows : estimatedFetchRows payloadForm = some (.ofRat 100) := by decide +kernel
  exact ⟨s, hs, (estimate_bounds_retained hform hplan hs).1 _ hrows⟩

end OffsetExplorer.DataTab
