import OffsetExplorer.Fetch.Budget
import Mathlib.Data.Int.Interval
import Mathlib.Data.Int.ConditionallyCompleteOrder
import Mathlib.Algebra.BigOperators.Intervals

/-!
# The plan reads the slice the filter asks for

* `Matches`, `matchingIn`, `matchingPairs`: what the filter asks for, from the watermarks and the
  times as the broker resolves them; `newest`: the newest offsets of a set.
* `matchingIn_eq`: in each partition that is the interval from `filterStart` to `filterEnd`.
* **`plan_reads_slice`**: the plan counts exactly these pairs, and reads ranges of them within the
  caps.
-/

namespace OffsetExplorer.Fetch

open Std TreeTable

/-- The offset a partition resolves to at a time. -/
def Broker.resolvedAt (b : Broker) (ms p : ℤ) : Option ℤ :=
  match b.offsetsForTimes ms with
  | .ok answer => (answer.rawOffset p).filter fun offset => 0 ≤ offset
  | .error _ => none

/-- The offset `o` of partition `p`, with watermarks `low` and `high`, matches the filter. -/
def Matches (b : Broker) (filter : MessageFilter) (low high p o : ℤ) : Prop :=
  low ≤ o ∧ o < high ∧ (∀ offset ∈ filter.offset, offset ≤ o) ∧
    (∀ ms ∈ filter.fromTimestampMs, ∃ r ∈ b.resolvedAt ms p, r ≤ o) ∧
    ∀ ms ∈ filter.toTimestampMs, ∀ r ∈ b.resolvedAt ms p, o < r

instance (b : Broker) (filter : MessageFilter) (low high p o : ℤ) :
    Decidable (Matches b filter low high p o) := inferInstanceAs (Decidable (_ ∧ _))

/-- The matching offsets of one partition. -/
noncomputable def matchingIn (b : Broker) (filter : MessageFilter) (low high : ℤ → ℤ) (p : ℤ) : Finset ℤ :=
  (Finset.Ico (low p) (high p)).filter (Matches b filter (low p) (high p) p)

/-- The matching pairs of a partition and an offset. -/
noncomputable def matchingPairs (b : Broker) (filter : MessageFilter) (low high : ℤ → ℤ) :
    Finset (Σ _ : ℤ, ℤ) :=
  (b.targetPartitions filter).toFinset.sigma (matchingIn b filter low high)

/-- The newest `n` offsets of `s`: those with fewer than `n` newer ones. -/
def newest (s : Finset ℤ) (n : ℤ) : Finset ℤ :=
  s.filter fun o => ((s.filter (o < ·)).card : ℤ) < n

/-- The broker answers the questions of the plan, with watermarks in order and every resolved
offset between them. -/
structure Broker.Answers (b : Broker) (filter : MessageFilter) (low high : ℤ → ℤ) : Prop where
  watermarks : ∀ p ∈ b.targetPartitions filter, b.fetchWatermarks p = .ok (low p, high p)
  ordered : ∀ p ∈ b.targetPartitions filter, 0 ≤ low p ∧ low p ≤ high p ∧ high p ≤ i64Max
  times : ∀ ms, filter.fromTimestampMs = some ms ∨ filter.toTimestampMs = some ms →
    (∃ answer, b.offsetsForTimes ms = .ok answer) ∧
      ∀ p ∈ b.targetPartitions filter, ∀ r ∈ b.resolvedAt ms p, low p ≤ r ∧ r ≤ high p

/-! ## One partition -/

/-- Where the filter puts the start of a partition. -/
def filterStart (b : Broker) (filter : MessageFilter) (low high p : ℤ) : ℤ :=
  (combinedStartOffset (filter.offset.map fun offset => clampOffset offset low high)
    (filter.fromTimestampMs.map fun ms => (b.resolvedAt ms p).getD high)).getD low

/-- Where the filter puts its end. -/
def filterEnd (b : Broker) (filter : MessageFilter) (high p : ℤ) : ℤ :=
  (filter.toTimestampMs.bind fun ms => b.resolvedAt ms p).getD high

theorem clampOffset_mem (offset : ℤ) {low high : ℤ} (h : low ≤ high) :
    low ≤ clampOffset offset low high ∧ clampOffset offset low high ≤ high := by
  unfold clampOffset
  split_ifs <;> omega

theorem clampOffset_le_iff {offset low high o : ℤ} (hlow : low ≤ o) (hhigh : o < high) :
    clampOffset offset low high ≤ o ↔ offset ≤ o := by
  unfold clampOffset
  split_ifs <;> omega

section Partition

variable {b : Broker} {filter : MessageFilter} {low high : ℤ → ℤ} {p : ℤ}

theorem resolved_mem (h : b.Answers filter low high) (hp : p ∈ b.targetPartitions filter) {ms : ℤ}
    (hms : filter.fromTimestampMs = some ms ∨ filter.toTimestampMs = some ms) :
    low p ≤ (b.resolvedAt ms p).getD (high p) ∧ (b.resolvedAt ms p).getD (high p) ≤ high p := by
  obtain ⟨_, hlh, _⟩ := h.ordered p hp
  cases hr : b.resolvedAt ms p with
  | none => exact ⟨hlh, le_rfl⟩
  | some r => exact (h.times ms hms).2 p hp r hr

theorem filterStart_mem (h : b.Answers filter low high) (hp : p ∈ b.targetPartitions filter) :
    low p ≤ filterStart b filter (low p) (high p) p ∧
      filterStart b filter (low p) (high p) p ≤ high p := by
  obtain ⟨_, hlh, _⟩ := h.ordered p hp
  unfold filterStart
  cases ho : filter.offset with
  | none =>
    cases hf : filter.fromTimestampMs with
    | none => exact ⟨le_rfl, hlh⟩
    | some ms => exact resolved_mem h hp (.inl hf)
  | some offset =>
    have hc := clampOffset_mem offset hlh
    cases hf : filter.fromTimestampMs with
    | none => exact hc
    | some ms =>
      have hr := resolved_mem h hp (.inl hf)
      exact ⟨hc.1.trans (le_max_left _ _), max_le hc.2 hr.2⟩

theorem filterEnd_mem (h : b.Answers filter low high) (hp : p ∈ b.targetPartitions filter) :
    low p ≤ filterEnd b filter (high p) p ∧ filterEnd b filter (high p) p ≤ high p := by
  obtain ⟨_, hlh, _⟩ := h.ordered p hp
  unfold filterEnd
  cases ht : filter.toTimestampMs with
  | none => exact ⟨hlh, le_rfl⟩
  | some ms => exact resolved_mem h hp (.inr ht)

/-- An offset below the high watermark is at or after the resolved start exactly when the
partition is resolved, and no later than there. -/
theorem resolved_le_iff {r : Option ℤ} {high o : ℤ} (ho : o < high) :
    r.getD high ≤ o ↔ ∃ x ∈ r, x ≤ o := by
  cases r with
  | none => simp [ho]
  | some x => simp

theorem filterStart_le_iff {o : ℤ} (hlow : low p ≤ o) (hhigh : o < high p) :
    filterStart b filter (low p) (high p) p ≤ o ↔
      (∀ offset ∈ filter.offset, offset ≤ o) ∧
        ∀ ms ∈ filter.fromTimestampMs, ∃ r ∈ b.resolvedAt ms p, r ≤ o := by
  unfold filterStart
  cases filter.offset with
  | none =>
    cases filter.fromTimestampMs with
    | none => simpa [combinedStartOffset] using hlow
    | some ms => simp [combinedStartOffset, resolved_le_iff hhigh]
  | some offset =>
    cases filter.fromTimestampMs with
    | none => simp [combinedStartOffset, clampOffset_le_iff hlow hhigh]
    | some ms =>
      simp [combinedStartOffset, clampOffset_le_iff hlow hhigh, resolved_le_iff hhigh]

theorem lt_filterEnd_iff {o : ℤ} (hhigh : o < high p) :
    o < filterEnd b filter (high p) p ↔
      ∀ ms ∈ filter.toTimestampMs, ∀ r ∈ b.resolvedAt ms p, o < r := by
  unfold filterEnd
  cases filter.toTimestampMs with
  | none => simpa using hhigh
  | some ms => cases hr : b.resolvedAt ms p <;> simp [hr, hhigh]

/-- **The matching offsets of a partition are an interval.** -/
theorem matchingIn_eq (h : b.Answers filter low high) (hp : p ∈ b.targetPartitions filter) :
    matchingIn b filter low high p =
      Finset.Ico (filterStart b filter (low p) (high p) p) (filterEnd b filter (high p) p) := by
  have hs := filterStart_mem h hp
  have he := filterEnd_mem h hp
  ext o
  rw [matchingIn, Finset.mem_filter, Finset.mem_Ico, Finset.mem_Ico]
  constructor
  · rintro ⟨⟨hlow, hhigh⟩, _, _, hoff, hfrom, hto⟩
    exact ⟨(filterStart_le_iff hlow hhigh).mpr ⟨hoff, hfrom⟩, (lt_filterEnd_iff hhigh).mpr hto⟩
  · rintro ⟨hstart, hend⟩
    have hlow : low p ≤ o := hs.1.trans hstart
    have hhigh : o < high p := hend.trans_le he.2
    obtain ⟨hoff, hfrom⟩ := (filterStart_le_iff hlow hhigh).mp hstart
    exact ⟨⟨hlow, hhigh⟩, hlow, hhigh, hoff, hfrom, (lt_filterEnd_iff hhigh).mp hend⟩

end Partition

theorem newest_Ico {s e n : ℤ} (hn : n ≤ e - s) :
    newest (Finset.Ico s e) n = Finset.Ico (e - n) e := by
  ext o
  rw [newest, Finset.mem_filter, Finset.mem_Ico, Finset.mem_Ico]
  have hcard (hs : s ≤ o) : (Finset.Ico s e).filter (o < ·) = Finset.Ico (o + 1) e := by
    ext q
    rw [Finset.mem_filter, Finset.mem_Ico, Finset.mem_Ico]
    omega
  constructor
  · rintro ⟨⟨hs, he⟩, hlt⟩
    rw [hcard hs, Int.card_Ico] at hlt
    omega
  · rintro ⟨hlow, he⟩
    have hs : s ≤ o := by omega
    refine ⟨⟨hs, he⟩, ?_⟩
    rw [hcard hs, Int.card_Ico]
    omega

/-! ## The maps of the plan -/

variable {targets : List ℤ}

section Maps

variable {b : Broker} {filter : MessageFilter} {low high : ℤ → ℤ}
  {watermarks : ℤ → Except Report (ℤ × ℤ)}

theorem watermarks_ok (h : b.Answers filter low high) :
    ∃ m, b.watermarksForPartitions (b.targetPartitions filter) = .ok m ∧
      ∀ p ∈ b.targetPartitions filter, b.watermarks m p = .ok (low p, high p) := by
  obtain ⟨m, hm, htab⟩ := collectOffsets_ok (f := b.lookupWatermarks)
    (g := fun p => (low p, high p)) fun p hp => by
      rw [Broker.lookupWatermarks, h.watermarks p hp]
  refine ⟨m, hm, fun p hp => ?_⟩
  rw [Broker.watermarks, htab.get_mem (List.mem_toFinset.mpr hp)]

theorem offsetsAt_ok (hw : ∀ p ∈ targets, watermarks p = .ok (low p, high p)) {ms : ℤ}
    (hms : ∃ answer, b.offsetsForTimes ms = .ok answer) :
    ∃ m, offsetsAt targets watermarks b.offsetsForTimes ms = .ok m ∧
      Tabulates m targets.toFinset fun p => (b.resolvedAt ms p).getD (high p) := by
  obtain ⟨answer, ha⟩ := hms
  rw [offsetsAt, ha]
  refine collectOffsets_ok fun p hp => ?_
  rw [Broker.resolvedAt, ha]
  dsimp only
  cases (answer.rawOffset p).filter fun offset => 0 ≤ offset with
  | none => rw [hw p hp]; rfl
  | some r => rfl

variable (filter) in
theorem explicitStartOffsets_ok (hw : ∀ p ∈ targets, watermarks p = .ok (low p, high p)) :
    ∃ o, explicitStartOffsets filter targets watermarks = .ok o ∧
      o.isSome = filter.offset.isSome ∧ ∀ p ∈ targets, o.bind (·[p]?) =
        filter.offset.map fun offset => clampOffset offset (low p) (high p) := by
  unfold explicitStartOffsets
  cases filter.offset with
  | none => exact ⟨none, rfl, rfl, fun _ _ => rfl⟩
  | some offset =>
    obtain ⟨m, hm, htab⟩ := collectOffsets_ok (f := explicitStart watermarks offset)
      (g := fun p => clampOffset offset (low p) (high p)) fun p hp => by
        rw [explicitStart, hw p hp]
        rfl
    refine ⟨some m, ?_, rfl, fun p hp => htab.get_mem (List.mem_toFinset.mpr hp)⟩
    dsimp only
    rw [hm]
    rfl

variable (b filter) in
theorem fromTimestampStartOffsets_ok
    (hw : ∀ p ∈ targets, watermarks p = .ok (low p, high p))
    (ht : ∀ ms, filter.fromTimestampMs = some ms → ∃ answer, b.offsetsForTimes ms = .ok answer) :
    ∃ o, fromTimestampStartOffsets filter targets watermarks b.offsetsForTimes = .ok o ∧
      o.isSome = filter.fromTimestampMs.isSome ∧ ∀ p ∈ targets, o.bind (·[p]?) =
        filter.fromTimestampMs.map fun ms => (b.resolvedAt ms p).getD (high p) := by
  unfold fromTimestampStartOffsets
  cases hms : filter.fromTimestampMs with
  | none => exact ⟨none, rfl, rfl, fun _ _ => rfl⟩
  | some ms =>
    obtain ⟨m, hm, htab⟩ := offsetsAt_ok hw (ht ms hms)
    refine ⟨some m, ?_, rfl, fun p hp => htab.get_mem (List.mem_toFinset.mpr hp)⟩
    dsimp only
    rw [hm]
    rfl

theorem filterStartOffsets_ok (hw : ∀ p ∈ targets, watermarks p = .ok (low p, high p))
    {explicit fromTimestamp : Option (PartitionMap ℤ)}
    (he : explicit.isSome = filter.offset.isSome)
    (hf : fromTimestamp.isSome = filter.fromTimestampMs.isSome)
    (hep : ∀ p ∈ targets, explicit.bind (·[p]?) =
      filter.offset.map fun offset => clampOffset offset (low p) (high p))
    (hfp : ∀ p ∈ targets, fromTimestamp.bind (·[p]?) =
      filter.fromTimestampMs.map fun ms => (b.resolvedAt ms p).getD (high p)) :
    ∃ m, filterStartOffsets targets watermarks explicit fromTimestamp = .ok m ∧
      Tabulates m targets.toFinset fun p => filterStart b filter (low p) (high p) p := by
  unfold filterStartOffsets
  by_cases hpin : explicit.isSome || fromTimestamp.isSome
  · rw [if_pos hpin]
    refine ⟨_, rfl, (Tabulates.ofList targets _).congr fun p hp => ?_⟩
    have hp := List.mem_toFinset.mp hp
    rw [hep p hp, hfp p hp, filterStart]
    rw [he, hf] at hpin
    cases ho : filter.offset <;> cases hm : filter.fromTimestampMs <;> simp_all [combinedStartOffset]
  · rw [if_neg hpin]
    refine collectOffsets_ok fun p hp => ?_
    rw [he, hf, Bool.or_eq_true, not_or] at hpin
    rw [hw p hp, filterStart, Option.not_isSome_iff_eq_none.mp hpin.1,
      Option.not_isSome_iff_eq_none.mp hpin.2]
    rfl

variable (b filter) in
theorem filterEndOffsets_ok (hw : ∀ p ∈ targets, watermarks p = .ok (low p, high p))
    (ht : ∀ ms, filter.toTimestampMs = some ms → ∃ answer, b.offsetsForTimes ms = .ok answer) :
    ∃ m, filterEndOffsets filter targets watermarks b.offsetsForTimes = .ok m ∧
      Tabulates m targets.toFinset fun p => filterEnd b filter (high p) p := by
  unfold filterEndOffsets filterEnd
  cases hms : filter.toTimestampMs with
  | none =>
    refine collectOffsets_ok fun p hp => ?_
    rw [hw p hp]
    rfl
  | some ms => exact offsetsAt_ok hw (ht ms hms)

theorem newestFirstStartOffsets_ok (hw : ∀ p ∈ targets, watermarks p = .ok (low p, high p))
    {ends limits : PartitionMap ℤ} {e n : ℤ → ℤ} (he : Tabulates ends targets.toFinset e)
    (hn : Tabulates limits targets.toFinset n) :
    ∃ m, newestFirstStartOffsets targets watermarks ends limits = .ok m ∧
      Tabulates m targets.toFinset fun p => newestFirstStartOffset (low p) (e p) (n p) := by
  refine collectOffsets_ok fun p hp => ?_
  have hmem := List.mem_toFinset.mpr hp
  rw [hw p hp, he.get_mem hmem, hn.get_mem hmem]
  rfl

end Maps

theorem partitionLimits_tabulates {starts ends : PartitionMap ℤ} {S : Finset ℤ} {s e : ℤ → ℤ}
    (hs : Tabulates starts S s) (he : Tabulates ends S e) (cap : Option UInt32) :
    Tabulates (partitionLimits starts ends cap) S fun p =>
      min (max (i64Sub (e p) (s p)) 0) (cap.elim i64Max fun cap => cap.toNat) := by
  refine (hs.map _).congr fun p hp => ?_
  rw [he.get_mem hp]
  rfl

/-! ## The plan -/

section Plan

variable {b : Broker} {filter : MessageFilter} {low high : ℤ → ℤ}

theorem i64Sub_eq {x y : ℤ} (hx : 0 ≤ x) (hx' : x ≤ i64Max) (hy : 0 ≤ y) (hy' : y ≤ i64Max) :
    i64Sub x y = x - y := by
  unfold i64Max at hx' hy'
  exact Int.bmod_eq_of_le (by omega) (by omega)

theorem available_eq (h : b.Answers filter low high) {p : ℤ}
    (hp : p ∈ b.targetPartitions filter) :
    i64Sub (filterEnd b filter (high p) p) (filterStart b filter (low p) (high p) p) =
        filterEnd b filter (high p) p - filterStart b filter (low p) (high p) p := by
  obtain ⟨h0, _, hmax⟩ := h.ordered p hp
  have hs := filterStart_mem h hp
  have he := filterEnd_mem h hp
  exact i64Sub_eq (h0.trans he.1) (he.2.trans hmax) (h0.trans hs.1) (hs.2.trans hmax)

theorem card_matchingPairs (h : b.Answers filter low high) :
    (matchingPairs b filter low high).card = ∑ p ∈ (b.targetPartitions filter).toFinset,
      (filterEnd b filter (high p) p - filterStart b filter (low p) (high p) p).toNat := by
  rw [matchingPairs, Finset.card_sigma]
  refine Finset.sum_congr rfl fun p hp => ?_
  rw [matchingIn_eq h (List.mem_toFinset.mp hp), Int.card_Ico]

theorem sumAvailable_eq (h : b.Answers filter low high) {starts ends : PartitionMap ℤ}
    (hs : Tabulates starts (b.targetPartitions filter).toFinset fun p =>
      filterStart b filter (low p) (high p) p)
    (he : Tabulates ends (b.targetPartitions filter).toFinset fun p =>
      filterEnd b filter (high p) p) :
    sumAvailable (partitionLimits starts ends none) =
      (matchingPairs b filter low high).card % 2 ^ 64 := by
  rw [sumAvailable, (partitionLimits_tabulates hs he none).sum_toList, card_matchingPairs h]
  congr 1
  refine Finset.sum_congr rfl fun p hp => ?_
  have hp := List.mem_toFinset.mp hp
  have hs := filterStart_mem h hp
  have he := filterEnd_mem h hp
  obtain ⟨h0, _, hmax⟩ := h.ordered p hp
  rw [available_eq h hp, Option.elim_none]
  omega

/-- What a plan may read of a partition: at most the cap, from the matching offsets only, and the
newest of them unless the filter pins the start. -/
def ReadsSlice (b : Broker) (filter : MessageFilter) (low high start limit : ℤ → ℤ) (p : ℤ) :
    Prop :=
  0 ≤ limit p ∧ limit p ≤ (filter.maxMessagesPerPartition.getD 100).toNat ∧
    Finset.Ico (start p) (start p + limit p) ⊆ matchingIn b filter low high p ∧
    (filter.offset = none → filter.fromTimestampMs = none →
      Finset.Ico (start p) (start p + limit p) = newest (matchingIn b filter low high p) (limit p))

/-- A limit within the window of a partition reads a slice of it from the filter's start. -/
theorem readsSlice_pinned (h : b.Answers filter low high) {start limit : ℤ → ℤ} {p : ℤ}
    (hp : p ∈ b.targetPartitions filter)
    (hpin : filter.offset.isSome || filter.fromTimestampMs.isSome)
    (hstart : start p = filterStart b filter (low p) (high p) p) (h0 : 0 ≤ limit p)
    (hcap : limit p ≤ (filter.maxMessagesPerPartition.getD 100).toNat)
    (hav : limit p ≤ max (filterEnd b filter (high p) p - start p) 0) :
    ReadsSlice b filter low high start limit p := by
  refine ⟨h0, hcap, ?_, fun ho hf => ?_⟩
  · rw [matchingIn_eq h hp, ← hstart]
    intro o ho
    rw [Finset.mem_Ico] at ho ⊢
    omega
  · rw [ho, hf] at hpin
    cases hpin

theorem readsSlice_newest (h : b.Answers filter low high) {start limit : ℤ → ℤ} {p : ℤ}
    (hp : p ∈ b.targetPartitions filter)
    (hlow : filterStart b filter (low p) (high p) p = low p)
    (hstart : start p = newestFirstStartOffset (low p) (filterEnd b filter (high p) p) (limit p))
    (h0 : 0 ≤ limit p) (hcap : limit p ≤ (filter.maxMessagesPerPartition.getD 100).toNat)
    (hav : limit p ≤ max (filterEnd b filter (high p) p - low p) 0) :
    ReadsSlice b filter low high start limit p := by
  have he := filterEnd_mem h hp
  obtain ⟨hl0, _, hmax⟩ := h.ordered p hp
  have hsub : i64Sub (filterEnd b filter (high p) p) (limit p) =
      filterEnd b filter (high p) p - limit p :=
    i64Sub_eq (by omega) (by omega) h0 (by omega)
  have hs : start p = filterEnd b filter (high p) p - limit p := by
    rw [hstart, newestFirstStartOffset, hsub]
    omega
  have hrange : Finset.Ico (start p) (start p + limit p) =
      newest (matchingIn b filter low high p) (limit p) := by
    rw [matchingIn_eq h hp, hlow, newest_Ico (by omega), hs, sub_add_cancel]
  exact ⟨h0, hcap, hrange ▸ Finset.filter_subset _ _, fun _ _ => hrange⟩

/-- **The plan reads the slice the filter asks for.** Whatever the targets, the watermarks, the
filter and the resolved times: the plan counts the matching pairs (on 64 bits), reads from every
partition a range of matching offsets within the cap, the newest ones when the filter pins no
start, and keeps to the total budget. -/
theorem plan_reads_slice (h : b.Answers filter low high) :
    ∃ plan start limit, planFetch b filter = .ok plan ∧
      plan.totalMatching = (matchingPairs b filter low high).card % 2 ^ 64 ∧
      Tabulates plan.startOffsets (b.targetPartitions filter).toFinset start ∧
      Tabulates plan.limits (b.targetPartitions filter).toFinset limit ∧
      (∀ p ∈ b.targetPartitions filter, ReadsSlice b filter low high start limit p) ∧
      ∀ t, filter.maxTotalMessages = some t →
        ∑ p ∈ (b.targetPartitions filter).toFinset, limit p ≤ t.toNat := by
  obtain ⟨found, hfound, hw⟩ := watermarks_ok h
  obtain ⟨explicit, hexp, hei, hep⟩ := explicitStartOffsets_ok filter hw
  obtain ⟨fromTs, hfrom, hfi, hfp⟩ := fromTimestampStartOffsets_ok b filter hw
    fun ms hms => (h.times ms (.inl hms)).1
  obtain ⟨starts, hstarts, hs⟩ := filterStartOffsets_ok hw hei hfi hep hfp
  obtain ⟨ends, hends, he⟩ := filterEndOffsets_ok b filter hw
    fun ms hms => (h.times ms (.inr hms)).1
  have hwin := partitionLimits_tabulates hs he
    (some (effectiveMaxMessagesPerPartition filter.maxMessagesPerPartition))
  obtain ⟨limit, hlimit, hle, hbudget⟩ := distributeTotalBudget_spec hwin
    (fun p _ => le_min (le_max_right _ _) (by simp)) filter.maxTotalMessages
  have hbound (p : ℤ) (hp : p ∈ b.targetPartitions filter) : 0 ≤ limit p ∧
      limit p ≤ (filter.maxMessagesPerPartition.getD 100).toNat ∧
      limit p ≤ max (filterEnd b filter (high p) p - filterStart b filter (low p) (high p) p) 0 := by
    obtain ⟨h0, hmin⟩ := hle p (List.mem_toFinset.mpr hp)
    rw [available_eq h hp] at hmin
    exact ⟨h0, hmin.trans (min_le_right _ _), hmin.trans (min_le_left _ _)⟩
  by_cases hpin : explicit.isSome || fromTs.isSome
  · refine ⟨⟨_, _, starts, ends⟩, _, limit, ?_, sumAvailable_eq h hs he, hs, hlimit,
      fun p hp => ?_, hbudget⟩
    · simp only [planFetch, hfound, hexp, hfrom, hstarts, hends, bind, Except.bind, hpin]
      rfl
    · obtain ⟨h0, hcap, hav⟩ := hbound p hp
      exact readsSlice_pinned h hp (by rwa [hei, hfi] at hpin) rfl h0 hcap hav
  · obtain ⟨newestStarts, hnew, hn⟩ := newestFirstStartOffsets_ok hw he hlimit
    refine ⟨⟨_, _, newestStarts, ends⟩, _, limit, ?_, sumAvailable_eq h hs he, hn, hlimit,
      fun p hp => ?_, hbudget⟩
    · simp only [planFetch, hfound, hexp, hfrom, hstarts, hends, hnew, bind, Except.bind, hpin]
      rfl
    · obtain ⟨h0, hcap, hav⟩ := hbound p hp
      have hlow : filterStart b filter (low p) (high p) p = low p := by
        rw [hei, hfi, Bool.or_eq_true, not_or] at hpin
        rw [filterStart, Option.not_isSome_iff_eq_none.mp hpin.1,
          Option.not_isSome_iff_eq_none.mp hpin.2]
        rfl
      rw [hlow] at hav
      exact readsSlice_newest h hp hlow rfl h0 hcap hav

end Plan

/-- A topic of two partitions; at time `500` only the first has a message at or after it. -/
def ordersTopic : Broker where
  topic := "orders"
  partitionIds := [0, 1]
  fetchWatermarks p := .ok (if p = 0 then (0, 250) else (40, 43))
  offsetsForTimes _ := .ok [(0, some 100), (1, some (-1))]

theorem ordersTopic_answers :
    ordersTopic.Answers { fromTimestampMs := some 500 } (fun p => if p = 0 then 0 else 40)
      fun p => if p = 0 then 250 else 43 where
  watermarks p _ := by
    show Except.ok _ = Except.ok _
    split_ifs <;> rfl
  ordered := by decide
  times ms hms := by
    rcases hms with h | h <;> cases h
    exact ⟨⟨_, rfl⟩, by decide⟩

/-- From time `500` on: at most a hundred messages of the first partition. -/
theorem ordersTopic_plan :
    ∃ plan start limit, planFetch ordersTopic { fromTimestampMs := some 500 } = .ok plan ∧
      Tabulates plan.startOffsets {0, 1} start ∧ Tabulates plan.limits {0, 1} limit ∧
      Finset.Ico (start 0) (start 0 + limit 0) ⊆ matchingIn ordersTopic
        { fromTimestampMs := some 500 } (fun p => if p = 0 then 0 else 40)
        (fun p => if p = 0 then 250 else 43) 0 := by
  obtain ⟨plan, start, limit, hplan, _, hs, hl, hread, _⟩ := plan_reads_slice ordersTopic_answers
  exact ⟨plan, start, limit, hplan, hs, hl, (hread 0 (by decide)).2.2.1⟩

/-- A topic whose partitions all have the same watermarks. -/
def uniformTopic (partitionIds : List ℤ) (low high : ℤ) : Broker where
  topic := "orders"
  partitionIds
  fetchWatermarks _ := .ok (low, high)
  offsetsForTimes _ := .ok []

/-- The count is a 64-bit sum, which three full partitions exceed, of 64-bit differences, which a
negative low watermark exceeds. -/
theorem total_matching_wraps :
    (∃ plan, planFetch (uniformTopic [0, 1, 2] 0 i64Max) {} = .ok plan ∧ plan.totalMatching ≠
      (matchingPairs (uniformTopic [0, 1, 2] 0 i64Max) {} (fun _ => 0) fun _ => i64Max).card) ∧
    ∃ plan, planFetch (uniformTopic [0] (-1) i64Max) {} = .ok plan ∧ plan.totalMatching ≠
      (matchingPairs (uniformTopic [0] (-1) i64Max) {} (fun _ => -1) fun _ => i64Max).card := by
  constructor
  · have h : (uniformTopic [0, 1, 2] 0 i64Max).Answers {} (fun _ => 0) fun _ => i64Max :=
      ⟨fun _ _ => rfl, by decide, fun ms hms => by rcases hms with h | h <;> cases h⟩
    refine ⟨_, rfl, ?_⟩
    rw [card_matchingPairs h]
    decide
  · refine ⟨_, rfl, fun heq => ?_⟩
    have hmem : (⟨0, 0⟩ : Σ _ : ℤ, ℤ) ∈
        matchingPairs (uniformTopic [0] (-1) i64Max) {} (fun _ => -1) fun _ => i64Max := by
      rw [matchingPairs, Finset.mem_sigma, matchingIn, Finset.mem_filter, Finset.mem_Ico]
      decide
    have hpos := Finset.card_pos.mpr ⟨_, hmem⟩
    rw [← heq] at hpos
    exact absurd hpos (by decide)

end OffsetExplorer.Fetch
