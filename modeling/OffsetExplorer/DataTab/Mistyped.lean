import OffsetExplorer.DataTab.Filters

/-!
# Mistyped filters

The parsers of the form answer `null` both for a blank field and for one that they cannot read, and an
empty piece between commas reads as zero.

* `Blank`, `Denotes`, `Dates`: a field with nothing in it, and the number or the time of a text.
* `AsEntered`: the filter has what the fields stand for, and leaves out what stands for nothing.
* **`toMessageFilter_asEntered`**: so it is for every form.
* `Unwidened`: the filter leaves out what is blank only, and names no partition that was not entered.
* `Readable`: every field that is not blank can be read, and no empty piece adds a partition.
* **`unwidened_iff`**: of the forms that pass the validation, the readable ones are not widened.
* `mistyped_widened`: forms that are.
-/

namespace OffsetExplorer.DataTab

open Binary64

/-- There is nothing but blanks in the text. -/
def Blank (text : String) : Prop := (jsTrim text).isEmpty = true

/-- A text that is not blank is the number `v`. -/
def Denotes (text : String) (v : Double) : Prop :=
  ¬ Blank text ∧ (number (jsTrim text)).toFinite = some v

/-- The text of a date as the browser is given it. -/
def dateText (text : String) : String :=
  if isDateOnly (jsTrim text).toList then jsTrim text ++ "T00:00" else jsTrim text

/-- A text that is not blank is the time `t`. -/
def Dates (getTime : String → Option TimeValue) (text : String) (t : TimeValue) : Prop :=
  ¬ Blank text ∧ getTime (dateText text) = some t

/-- Each component is what its field stands for, and is left out where that is nothing. The partitions are
the numbers of the pieces, where no piece is blank; all are read for a blank field, or if no piece is a
number. -/
structure AsEntered (getTime : String → Option TimeValue) (form : FilterFormState)
    (filter : WireFilter) : Prop where
  maxMessagesPerPartition : ∀ v,
    filter.maxMessagesPerPartition = some v ↔ Denotes form.maxMessagesPerPartition v
  maxTotalMessages : ∀ v, filter.maxTotalMessages = some v ↔ Denotes form.maxTotalMessages v
  offset : ∀ v, filter.offset = some v ↔ Denotes form.offset v
  fromTimestampMs : ∀ t, filter.fromTimestampMs = some t ↔ Dates getTime form.fromDate t
  toTimestampMs : ∀ t, filter.toTimestampMs = some t ↔ Dates getTime form.toDate t
  partitions : filter.partitions = none → Blank form.partitions ∨
    ∀ piece ∈ parts (jsTrim form.partitions), ∀ v, ¬ Denotes piece v
  entered : (∀ piece ∈ parts (jsTrim form.partitions), ¬ Blank piece) → ∀ l,
    filter.partitions = some l → ∀ n, n ∈ l ↔ ∃ piece ∈ parts (jsTrim form.partitions), Denotes piece n

/-- A component is left out for a blank field only, and each partition was entered. -/
structure Unwidened (form : FilterFormState) (filter : WireFilter) : Prop where
  partitions : filter.partitions = none → Blank form.partitions
  maxMessagesPerPartition : filter.maxMessagesPerPartition = none → Blank form.maxMessagesPerPartition
  maxTotalMessages : filter.maxTotalMessages = none → Blank form.maxTotalMessages
  fromTimestampMs : filter.fromTimestampMs = none → Blank form.fromDate
  toTimestampMs : filter.toTimestampMs = none → Blank form.toDate
  offset : filter.offset = none → Blank form.offset
  entered : ∀ l, filter.partitions = some l →
    ∀ n ∈ l, ∃ piece ∈ parts (jsTrim form.partitions), Denotes piece n

/-- Every field that is not blank is a number or a date. In a list of partitions some piece is a number,
and one is zero where a piece is blank. -/
structure Readable (getTime : String → Option TimeValue) (form : FilterFormState) : Prop where
  maxMessagesPerPartition : ∃ v, Denotes form.maxMessagesPerPartition v
  maxTotalMessages : Blank form.maxTotalMessages ∨ ∃ v, Denotes form.maxTotalMessages v
  offset : Blank form.offset ∨ ∃ v, Denotes form.offset v
  fromDate : Blank form.fromDate ∨ ∃ t, getTime (dateText form.fromDate) = some t
  toDate : Blank form.toDate ∨ ∃ t, getTime (dateText form.toDate) = some t
  partitions : Blank form.partitions ∨
    (∃ piece ∈ parts (jsTrim form.partitions), ∃ v, Denotes piece v) ∧
      ((∃ piece ∈ parts (jsTrim form.partitions), Blank piece) →
        ∃ piece ∈ parts (jsTrim form.partitions), ∃ v, Denotes piece v ∧ v.value = 0)

variable {getTime : String → Option TimeValue} {form : FilterFormState} {text : String}

/-! ## The parsers -/

theorem parsePositiveInt_of_blank (h : Blank text) : parsePositiveInt text = none := by
  unfold parsePositiveInt
  exact if_pos h

theorem parsePositiveInt_of_not_blank (h : ¬ Blank text) :
    parsePositiveInt text = (number (jsTrim text)).toFinite := by
  unfold parsePositiveInt
  exact if_neg h

theorem parseDate_of_blank (h : Blank text) : parseDate getTime text = none := by
  unfold parseDate
  exact if_pos h

theorem parseDate_of_not_blank (h : ¬ Blank text) :
    parseDate getTime text = getTime (dateText text) := by
  unfold parseDate
  exact if_neg h

theorem parsePartitions_of_blank (h : Blank text) : parsePartitions text = none := by
  unfold parsePartitions
  exact if_pos h

theorem parsePartitions_of_not_blank (h : ¬ Blank text) : parsePartitions text =
    if ((parts (jsTrim text)).filterMap fun part => (number (jsTrim part)).toFinite).isEmpty then none
    else some ((parts (jsTrim text)).filterMap fun part => (number (jsTrim part)).toFinite) := by
  unfold parsePartitions
  exact if_neg h

theorem parsePositiveInt_eq_some {v : Double} : parsePositiveInt text = some v ↔ Denotes text v := by
  by_cases hblank : Blank text
  · rw [parsePositiveInt_of_blank hblank]
    exact iff_of_false (Option.some_ne_none v).symm fun h => h.1 hblank
  · rw [parsePositiveInt_of_not_blank hblank]
    exact (and_iff_right hblank).symm

theorem parseDate_eq_some {t : TimeValue} : parseDate getTime text = some t ↔ Dates getTime text t := by
  by_cases hblank : Blank text
  · rw [parseDate_of_blank hblank]
    exact iff_of_false (Option.some_ne_none t).symm fun h => h.1 hblank
  · rw [parseDate_of_not_blank hblank]
    exact (and_iff_right hblank).symm

theorem parsePositiveInt_faithful :
    (parsePositiveInt text = none → Blank text) ↔ Blank text ∨ ∃ v, Denotes text v := by
  by_cases hblank : Blank text
  · exact iff_of_true (fun _ => hblank) (Or.inl hblank)
  · simp only [← parsePositiveInt_eq_some, hblank, imp_false, false_or]
    exact Option.ne_none_iff_exists'

theorem parseDate_faithful :
    (parseDate getTime text = none → Blank text) ↔
      Blank text ∨ ∃ t, getTime (dateText text) = some t := by
  by_cases hblank : Blank text
  · exact iff_of_true (fun _ => hblank) (Or.inl hblank)
  · simp only [parseDate_of_not_blank hblank, hblank, imp_false, false_or]
    exact Option.ne_none_iff_exists'

theorem toFinite_of_blank (h : Blank text) :
    ∃ v, (number (jsTrim text)).toFinite = some v ∧ v.value = 0 := by
  obtain ⟨v, hv, hzero⟩ := JsNumber.ofRat_natCast (n := 0) (by decide)
  refine ⟨v, ?_, by simpa using hzero⟩
  rw [String.isEmpty_iff.mp h]
  exact congrArg JsNumber.toFinite hv

theorem parsePartitions_cases (hblank : ¬ Blank text) :
    (parsePartitions text = none ∧
        ∀ piece ∈ parts (jsTrim text), (number (jsTrim piece)).toFinite = none) ∨
      ∃ l, parsePartitions text = some l ∧ l ≠ [] ∧
        ∀ n, n ∈ l ↔ ∃ piece ∈ parts (jsTrim text), (number (jsTrim piece)).toFinite = some n := by
  rw [parsePartitions_of_not_blank hblank]
  split_ifs with hempty
  · exact Or.inl ⟨rfl, List.filterMap_eq_nil_iff.mp (List.isEmpty_iff.mp hempty)⟩
  · exact Or.inr ⟨_, rfl, fun h => hempty (List.isEmpty_iff.mpr h), fun _ => List.mem_filterMap⟩

theorem parsePartitions_faithful (hblank : ¬ Blank text) :
    (parsePartitions text ≠ none ∧ ∀ l, parsePartitions text = some l →
      ∀ n ∈ l, ∃ piece ∈ parts (jsTrim text), Denotes piece n) ↔
    (∃ piece ∈ parts (jsTrim text), ∃ v, Denotes piece v) ∧
      ((∃ piece ∈ parts (jsTrim text), Blank piece) →
        ∃ piece ∈ parts (jsTrim text), ∃ v, Denotes piece v ∧ v.value = 0) := by
  rcases parsePartitions_cases hblank with ⟨hnone, hunread⟩ | ⟨l, hsome, hne, hmem⟩
  · refine iff_of_false (fun h => h.1 hnone) ?_
    rintro ⟨⟨piece, hpiece, v, -, hread⟩, -⟩
    rw [hunread piece hpiece] at hread
    cases hread
  rw [hsome]
  constructor
  · rintro ⟨-, hentered⟩
    have hentered := hentered l rfl
    constructor
    · obtain ⟨n, hn⟩ := List.exists_mem_of_ne_nil l hne
      obtain ⟨piece, hpiece, hdenotes⟩ := hentered n hn
      exact ⟨piece, hpiece, n, hdenotes⟩
    · rintro ⟨blank, hpart, hempty⟩
      obtain ⟨v, hv, hzero⟩ := toFinite_of_blank hempty
      obtain ⟨piece, hpiece, hdenotes⟩ := hentered v ((hmem v).mpr ⟨blank, hpart, hv⟩)
      exact ⟨piece, hpiece, v, hdenotes, hzero⟩
  · rintro ⟨-, hzero⟩
    refine ⟨Option.some_ne_none l, ?_⟩
    rintro _ ⟨⟩ n hn
    obtain ⟨part, hpart, hread⟩ := (hmem n).mp hn
    by_cases hempty : Blank part
    · obtain ⟨zero, hzeroPiece, w, hw, hvalue⟩ := hzero ⟨part, hpart, hempty⟩
      obtain ⟨u, hu, huvalue⟩ := toFinite_of_blank hempty
      obtain rfl := Option.some.inj (hread.symm.trans hu)
      rw [show n = w from Double.ext (huvalue.trans hvalue.symm)]
      exact ⟨zero, hzeroPiece, hw⟩
    · exact ⟨part, hpart, hempty, hread⟩

theorem parsePartitions_eq_none (hnone : parsePartitions text = none) :
    Blank text ∨ ∀ piece ∈ parts (jsTrim text), ∀ v, ¬ Denotes piece v := by
  by_cases hblank : Blank text
  · exact Or.inl hblank
  · rcases parsePartitions_cases hblank with ⟨-, hunread⟩ | ⟨l, hsome, -⟩
    · refine Or.inr fun piece hpiece v hdenotes => ?_
      have hread := hdenotes.2
      rw [hunread piece hpiece] at hread
      cases hread
    · rw [hsome] at hnone
      cases hnone

theorem parsePartitions_eq_some (hpieces : ∀ piece ∈ parts (jsTrim text), ¬ Blank piece)
    {l : List Double} (hl : parsePartitions text = some l) (n : Double) :
    n ∈ l ↔ ∃ piece ∈ parts (jsTrim text), Denotes piece n := by
  have hblank : ¬ Blank text := fun hblank => by
    rw [parsePartitions_of_blank hblank] at hl
    cases hl
  rcases parsePartitions_cases hblank with ⟨hnone, -⟩ | ⟨found, hsome, -, hmem⟩
  · rw [hnone] at hl
    cases hl
  · obtain rfl := Option.some.inj (hsome.symm.trans hl)
    rw [hmem]
    exact exists_congr fun piece => and_congr_right fun hpiece =>
      (and_iff_right (hpieces piece hpiece)).symm

/-! ## The filter of a form -/

/-- **What is sent is what was entered**, as far as it can be read. -/
theorem toMessageFilter_asEntered (getTime : String → Option TimeValue) (form : FilterFormState) :
    AsEntered getTime form (toMessageFilter getTime form) := by
  rw [toMessageFilter]
  constructor <;> dsimp only
  case partitions => exact parsePartitions_eq_none
  case entered => exact fun hpieces l hl n => parsePartitions_eq_some hpieces hl n
  case fromTimestampMs | toTimestampMs => exact fun t => parseDate_eq_some
  all_goals exact fun v => parsePositiveInt_eq_some

theorem unwidened_mk {partitions : Option (List Double)} {per total offset : Option Double}
    {fromMs toMs : Option TimeValue} {includePayload : Bool} {preview : JsNumber} :
    Unwidened form ⟨partitions, per, total, fromMs, toMs, offset, includePayload, preview⟩ ↔
      ((partitions = none → Blank form.partitions) ∧ ∀ l, partitions = some l →
        ∀ n ∈ l, ∃ piece ∈ parts (jsTrim form.partitions), Denotes piece n) ∧
      (per = none → Blank form.maxMessagesPerPartition) ∧
      (total = none → Blank form.maxTotalMessages) ∧ (fromMs = none → Blank form.fromDate) ∧
      (toMs = none → Blank form.toDate) ∧ (offset = none → Blank form.offset) := by
  constructor
  · rintro ⟨hpartitions, hper, htotal, hfrom, hto, hoffset, hentered⟩
    exact ⟨⟨hpartitions, hentered⟩, hper, htotal, hfrom, hto, hoffset⟩
  · rintro ⟨⟨hpartitions, hentered⟩, hper, htotal, hfrom, hto, hoffset⟩
    exact ⟨hpartitions, hper, htotal, hfrom, hto, hoffset, hentered⟩

/-- **What is not widened.** Of the forms that pass the validation, the filter of a form leaves out blank
fields only and names the entered partitions only exactly if the form is readable. The check of the dates
does not matter for this. -/
theorem unwidened_iff (getTime : String → Option TimeValue) {form : FilterFormState}
    (hrequired : validateMaxMessagesPerPartition form = none) :
    Unwidened form (toMessageFilter getTime form) ↔ Readable getTime form := by
  have hrequired : ¬ Blank form.maxMessagesPerPartition := fun hblank => by
    have hsome : validateMaxMessagesPerPartition form =
      some "\"Max messages per partition\" is required" := if_pos hblank
    rw [hrequired] at hsome
    cases hsome
  rw [toMessageFilter, unwidened_mk]
  constructor
  · rintro ⟨hlist, hper, htotal, hfrom, hto, hoffset⟩
    refine ⟨(parsePositiveInt_faithful.mp hper).resolve_left hrequired,
      parsePositiveInt_faithful.mp htotal, parsePositiveInt_faithful.mp hoffset,
      parseDate_faithful.mp hfrom, parseDate_faithful.mp hto, ?_⟩
    by_cases hblank : Blank form.partitions
    · exact Or.inl hblank
    · exact Or.inr ((parsePartitions_faithful hblank).mp
        ⟨fun h => hblank (hlist.1 h), hlist.2⟩)
  · rintro ⟨hper, htotal, hoffset, hfrom, hto, hpartitions⟩
    have hlist : (parsePartitions form.partitions = none → Blank form.partitions) ∧
        ∀ l, parsePartitions form.partitions = some l →
          ∀ n ∈ l, ∃ piece ∈ parts (jsTrim form.partitions), Denotes piece n := by
      by_cases hblank : Blank form.partitions
      · refine ⟨fun _ => hblank, fun l hl => ?_⟩
        rw [parsePartitions_of_blank hblank] at hl
        cases hl
      · obtain ⟨hsome, hentered⟩ :=
          (parsePartitions_faithful hblank).mpr (hpartitions.resolve_left hblank)
        exact ⟨fun h => absurd h hsome, hentered⟩
    exact ⟨hlist, parsePositiveInt_faithful.mpr (Or.inr hper),
      parsePositiveInt_faithful.mpr htotal, parseDate_faithful.mpr hfrom,
      parseDate_faithful.mpr hto, parsePositiveInt_faithful.mpr hoffset⟩

/-- **A typing error widens a filter**: a date that is none and the letter O in place of a zero lift a
limit, and a comma too many adds partition zero. All three forms pass the validation. -/
theorem mistyped_widened :
    (let form := { emptyFilterForm with fromDate := "not a date" };
      validateMaxMessagesPerPartition form = none ∧ validateDateRange (fun _ => none) form = none ∧
        ¬ Unwidened form (toMessageFilter (fun _ => none) form)) ∧
      (let form := { emptyFilterForm with maxTotalMessages := "1O0" };
        validateMaxMessagesPerPartition form = none ∧ validateDateRange (fun _ => none) form = none ∧
          ¬ Unwidened form (toMessageFilter (fun _ => none) form)) ∧
      (let form := { emptyFilterForm with partitions := "1,,2" };
        validateMaxMessagesPerPartition form = none ∧ validateDateRange (fun _ => none) form = none ∧
          ¬ Unwidened form (toMessageFilter (fun _ => none) form)) := by
  refine ⟨⟨by decide +kernel, by decide +kernel, fun h => ?_⟩,
    ⟨by decide +kernel, by decide +kernel, fun h => ?_⟩,
    ⟨by decide +kernel, by decide +kernel, fun h => ?_⟩⟩
  · have hblank : (jsTrim "not a date").isEmpty = true := h.fromTimestampMs (by decide +kernel)
    exact absurd hblank (by decide +kernel)
  · have hblank : (jsTrim "1O0").isEmpty = true := h.maxTotalMessages (by decide +kernel)
    exact absurd hblank (by decide +kernel)
  · have hpartitions : parsePartitions "1,,2" = some ((parts "1,,2").filterMap fun part =>
        (number (jsTrim part)).toFinite) := by decide +kernel
    obtain ⟨v, hv, hzero⟩ := toFinite_of_blank (show (jsTrim "").isEmpty = true by decide +kernel)
    have hmem : v ∈ (parts "1,,2").filterMap fun part => (number (jsTrim part)).toFinite :=
      List.mem_filterMap.mpr ⟨"", by decide +kernel, hv⟩
    obtain ⟨piece, hpiece, hblank, hread⟩ := h.entered _ hpartitions v hmem
    have hall : ∀ piece ∈ parts (jsTrim "1,,2"), Blank piece ∨
        (number (jsTrim piece)).toFinite.map Double.value ≠ some 0 := by
      unfold Blank
      decide +kernel
    refine (hall piece hpiece).elim hblank fun hne => hne ?_
    rw [hread, Option.map_some, hzero]

end OffsetExplorer.DataTab
