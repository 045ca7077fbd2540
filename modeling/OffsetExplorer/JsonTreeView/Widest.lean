import OffsetExplorer.JsonTreeView.Lines
import OffsetExplorer.Lib.TopK
import Mathlib.Algebra.Order.Field.Rat
import Mathlib.Data.Prod.Lex
import Mathlib.Tactic.Positivity

/-!
# How wide the tree is

Three rows stand for all of them when the width of the document is worked out: those that would be the
widest if a character were 8 pixels wide.

* `renderedWidth`, `contentExtent`: the width of a row, and of the widest of some rows.
* `place`, `RanksBefore`: which of two rows is kept; rows of one estimate are kept by their place.
* **`mem_widest_iff`**: the code keeps the first three in this order.
* `contentExtent_eq_iff`: when some rows are as wide as all.
* **`widest_measured_iff`**: when the widest row is measured.
-/

namespace OffsetExplorer.JsonTreeView

open TopK (keepTop above TopOf)

variable {ν : Type}

/-- The indent, the box in front and the text, in pixels. The width of a character is taken as the exact
rational that the font has, and the sum is not rounded. -/
def renderedWidth (charWidth : ℚ) (line : JsonLine ν) : ℚ :=
  line.depth * 14 + 14 + line.weight * charWidth

/-- The loop of `JsonTreeView`: the width of the widest row. -/
def contentExtent (charWidth : ℚ) (lines : List (JsonLine ν)) : ℚ :=
  lines.foldl (fun widest line => max widest (renderedWidth charWidth line)) 0

/-- The rows that are measured are as wide as all rows. -/
def Measured (charWidth : ℚ) (tree : FlattenedJsonTree ν) : Prop :=
  contentExtent charWidth tree.widestLines = contentExtent charWidth tree.lines

/-- Which row of an estimate is kept: the third one, the second, the first, and then the others. -/
def place (i : ℕ) : ℕ := if i < 3 then 2 - i else i

/-- The row at `j` is kept rather than the one at `i`: it has a larger estimate, or the same and an
earlier place. -/
def RanksBefore (lines : List (JsonLine ν)) (i j : Fin lines.length) : Prop :=
  estimatedWidth (lines.get i) < estimatedWidth (lines.get j) ∨
    estimatedWidth (lines.get i) = estimatedWidth (lines.get j) ∧ place j < place i

instance (lines : List (JsonLine ν)) (i j : Fin lines.length) : Decidable (RanksBefore lines i j) :=
  inferInstanceAs (Decidable (_ ∨ _))

/-- One of the widest rows has fewer than three rows before it. -/
def WidestRanked (charWidth : ℚ) (lines : List (JsonLine ν)) : Prop :=
  ∃ i : Fin lines.length,
    (∀ j, renderedWidth charWidth (lines.get j) ≤ renderedWidth charWidth (lines.get i)) ∧
      (List.finRange lines.length).countP (fun j => decide (RanksBefore lines i j)) < 3

/-! ## The rows that are kept -/

variable (lines : List (JsonLine ν))

/-- The order in which rows are kept. -/
def rankKey (i : Fin lines.length) : ℕ ×ₗ ℕᵒᵈ :=
  toLex (estimatedWidth (lines.get i), OrderDual.toDual (place i))

variable {lines}

theorem rankKey_lt_iff {i j : Fin lines.length} :
    rankKey lines i < rankKey lines j ↔ RanksBefore lines i j := by
  rw [rankKey, rankKey, Prod.Lex.toLex_lt_toLex]
  rfl

theorem place_injective {i j : ℕ} (h : place i = place j) : i = j := by
  unfold place at h
  split_ifs at h <;> omega

theorem rankKey_injective (lines : List (JsonLine ν)) : Function.Injective (rankKey lines) := by
  intro i j h
  have hpair := congrArg (fun k => OrderDual.ofDual (ofLex k).2) h
  exact Fin.ext (place_injective hpair)

theorem rankKey_lt_iff_le {i j : Fin lines.length} (hji : j < i) (hi : i.val < 3) :
    rankKey lines j < rankKey lines i ↔
      estimatedWidth (lines.get j) ≤ estimatedWidth (lines.get i) := by
  have hplace : place i < place j := by
    unfold place
    split_ifs <;> omega
  rw [rankKey_lt_iff, RanksBefore, le_iff_lt_or_eq]
  simp only [hplace, and_true]

theorem rankKey_lt_iff_lt {i j : Fin lines.length} (hji : j < i) (hi : 3 ≤ i.val) :
    rankKey lines j < rankKey lines i ↔
      estimatedWidth (lines.get j) < estimatedWidth (lines.get i) := by
  have hplace : ¬ place i < place j := by
    unfold place
    split_ifs <;> omega
  rw [rankKey_lt_iff, RanksBefore]
  simp only [hplace, and_false, or_false]

theorem pairwise_width {best : List (Fin lines.length)}
    (h : best.Pairwise fun i j => rankKey lines i < rankKey lines j) :
    (best.map lines.get).Pairwise fun a b => estimatedWidth a ≤ estimatedWidth b := by
  rw [List.pairwise_map]
  refine h.imp fun hlt => ?_
  rcases rankKey_lt_iff.mp hlt with hless | ⟨heq, -⟩
  · exact hless.le
  · exact heq.le

/-- **One round** of the search. -/
theorem widestStep_map {best : List (Fin lines.length)} {i : Fin lines.length}
    (hsorted : best.Pairwise fun j k => rankKey lines j < rankKey lines k)
    (hbefore : ∀ j ∈ best, j < i) (hlength : best.length = min 3 i.val) :
    widestStep (best.map lines.get) (lines.get i) =
      (keepTop (rankKey lines) 3 best i).map lines.get := by
  have hmap : ∀ p : JsonLine ν → Bool, ∀ l : List (Fin lines.length),
      (l.map lines.get).takeWhile p ++ lines.get i :: (l.map lines.get).dropWhile p =
        (l.takeWhile (p ∘ lines.get) ++ i :: l.dropWhile (p ∘ lines.get)).map lines.get := by
    intro p l
    rw [List.takeWhile_map, List.dropWhile_map, List.map_append, List.map_cons]
  unfold widestStep keepTop
  rw [List.length_map]
  by_cases hroom : best.length < 3
  · have hi : i.val < 3 := by omega
    rw [if_pos hroom, if_pos hroom, sortByWidth,
      TopK.mergeSort_concat estimatedWidth (pairwise_width hsorted), hmap]
    refine congrArg (List.map lines.get) (TopK.insertBy_eq fun j hj => ?_).symm
    exact decide_eq_decide.mpr (rankKey_lt_iff_le (hbefore j hj) hi)
  · have hi : 3 ≤ i.val := by omega
    rw [if_neg hroom, if_neg hroom]
    rcases best with _ | ⟨first, rest⟩
    · rfl
    · have hskip : estimatedWidth (lines.get i) ≤ estimatedWidth (lines.get first) ↔
          rankKey lines i ≤ rankKey lines first := by
        rw [← not_lt, ← not_lt, rankKey_lt_iff_lt (hbefore first List.mem_cons_self) hi]
      simp only [List.map_cons, hskip]
      split_ifs
      · rfl
      · rw [sortByWidth, TopK.mergeSort_cons_sorted estimatedWidth (pairwise_width hsorted.of_cons),
          hmap]
        refine congrArg (List.map lines.get) (TopK.insertBy_eq fun j hj => ?_).symm
        exact decide_eq_decide.mpr
          (rankKey_lt_iff_lt (hbefore j (List.mem_cons_of_mem first hj)) hi)

theorem foldl_widestStep {l : List (Fin lines.length)} (hl : l.map Fin.val = List.range l.length) :
    (l.map lines.get).foldl widestStep [] =
      (l.foldl (keepTop (rankKey lines) 3) []).map lines.get := by
  induction l using List.reverseRecOn with
  | nil => rfl
  | append_singleton l i ih =>
    rw [List.map_append, List.length_append, List.length_singleton, List.range_succ,
      List.map_singleton] at hl
    obtain ⟨hfront, hlast⟩ := List.append_inj' hl rfl
    have hi : i.val = l.length := List.head_eq_of_cons_eq hlast
    have hless : ∀ j ∈ l, j < i := by
      intro j hj
      have hmem : j.val ∈ List.range l.length := hfront ▸ List.mem_map_of_mem hj
      rw [List.mem_range, ← hi] at hmem
      exact hmem
    have hnodup : l.Nodup := List.Nodup.of_map Fin.val (hfront ▸ List.nodup_range)
    have htop : TopOf (rankKey lines) 3 l (l.foldl (keepTop (rankKey lines) 3) []) :=
      TopK.topOf_foldl (hnodup.map (rankKey_injective lines))
    rw [List.map_append, List.foldl_append, ih hfront, List.foldl_append]
    refine widestStep_map htop.pairwise (fun j hj => hless j ((htop.mem_iff j).mp hj).1) ?_
    rw [htop.length, hi]

/-- **The rows that are kept** are the first three in the order. -/
theorem mem_widest_iff {line : JsonLine ν} :
    line ∈ widest lines ↔ ∃ i, lines.get i = line ∧
      (List.finRange lines.length).countP (fun j => decide (RanksBefore lines i j)) < 3 := by
  have hall : (List.finRange lines.length).map lines.get = lines := by
    rw [← List.ofFn_eq_map, List.ofFn_get]
  have hrange : (List.finRange lines.length).map Fin.val =
      List.range (List.finRange lines.length).length := by simp
  have hfold := foldl_widestStep hrange
  rw [hall] at hfold
  have habove : ∀ i, above (rankKey lines) (List.finRange lines.length) i =
      (List.finRange lines.length).countP fun j => decide (RanksBefore lines i j) := by
    intro i
    refine List.countP_congr fun j _ => ?_
    rw [decide_eq_true_eq, decide_eq_true_eq, rankKey_lt_iff]
  have hnodup := (List.nodup_finRange lines.length).map (rankKey_injective lines)
  rw [widest, List.mem_reverse, hfold, List.mem_map]
  refine exists_congr fun i => ?_
  rw [TopK.mem_foldl_keepTop hnodup, habove, and_comm]
  simp

/-! ## The widest of them -/

section

variable {charWidth : ℚ} {kept : List (JsonLine ν)}

theorem foldl_max_le_iff {start bound : ℚ} :
    lines.foldl (fun widest line => max widest (renderedWidth charWidth line)) start ≤ bound ↔
      start ≤ bound ∧ ∀ line ∈ lines, renderedWidth charWidth line ≤ bound := by
  induction lines generalizing start with
  | nil => simp
  | cons line lines ih =>
    rw [List.foldl_cons, ih, max_le_iff, List.forall_mem_cons, and_assoc]

theorem foldl_max_attained (charWidth : ℚ) (lines : List (JsonLine ν)) (start : ℚ) :
    lines.foldl (fun widest line => max widest (renderedWidth charWidth line)) start = start ∨
      ∃ line ∈ lines, renderedWidth charWidth line =
        lines.foldl (fun widest line => max widest (renderedWidth charWidth line)) start := by
  induction lines generalizing start with
  | nil => exact .inl rfl
  | cons line lines ih =>
    rw [List.foldl_cons]
    rcases ih (max start (renderedWidth charWidth line)) with hstart | ⟨other, hother, heq⟩
    · rcases max_choice start (renderedWidth charWidth line) with hmax | hmax
      · exact .inl (hstart.trans hmax)
      · exact .inr ⟨line, List.mem_cons_self, (hstart.trans hmax).symm⟩
    · exact .inr ⟨other, List.mem_cons_of_mem line hother, heq⟩

theorem renderedWidth_pos (hpos : 0 < charWidth) (line : JsonLine ν) :
    0 < renderedWidth charWidth line := by
  unfold renderedWidth
  positivity

theorem contentExtent_eq_iff (hpos : 0 < charWidth) (hsub : kept ⊆ lines) (hne : lines ≠ []) :
    contentExtent charWidth kept = contentExtent charWidth lines ↔
      ∃ line ∈ kept, ∀ other ∈ lines, renderedWidth charWidth other ≤ renderedWidth charWidth line := by
  have hbound : ∀ {rows : List (JsonLine ν)} {bound : ℚ}, contentExtent charWidth rows ≤ bound ↔
      0 ≤ bound ∧ ∀ line ∈ rows, renderedWidth charWidth line ≤ bound := foldl_max_le_iff
  have hall := (hbound.mp (le_refl (contentExtent charWidth lines))).2
  constructor
  · intro heq
    obtain ⟨first, hfirst⟩ := List.exists_mem_of_ne_nil lines hne
    have hwide : 0 < contentExtent charWidth lines :=
      (renderedWidth_pos hpos first).trans_le (hall first hfirst)
    rcases foldl_max_attained charWidth kept 0 with hzero | ⟨line, hline, hmax⟩
    · exact absurd (heq.symm.trans hzero) hwide.ne'
    · refine ⟨line, hline, fun other hother => ?_⟩
      rw [hmax]
      exact (hall other hother).trans heq.ge
  · rintro ⟨line, hline, hwidest⟩
    have hkept := (hbound.mp (le_refl (contentExtent charWidth kept))).2
    refine le_antisymm (hbound.mpr ⟨?_, fun other hother => hall other (hsub hother)⟩)
      (hbound.mpr ⟨?_, fun other hother => (hwidest other hother).trans (hkept line hline)⟩)
    · exact ((renderedWidth_pos hpos line).le).trans (hall line (hsub hline))
    · exact ((renderedWidth_pos hpos line).le).trans (hkept line hline)

theorem measured_widest_iff (hpos : 0 < charWidth) (hne : lines ≠ []) :
    contentExtent charWidth (widest lines) = contentExtent charWidth lines ↔
      WidestRanked charWidth lines := by
  have hsub : widest lines ⊆ lines := by
    intro line hline
    obtain ⟨i, rfl, -⟩ := mem_widest_iff.mp hline
    exact List.get_mem lines i
  rw [contentExtent_eq_iff hpos hsub hne]
  constructor
  · rintro ⟨line, hline, hmax⟩
    obtain ⟨i, rfl, hrank⟩ := mem_widest_iff.mp hline
    exact ⟨i, fun j => hmax _ (List.get_mem lines j), hrank⟩
  · rintro ⟨i, hmax, hrank⟩
    refine ⟨lines.get i, mem_widest_iff.mpr ⟨i, rfl, hrank⟩, fun other hother => ?_⟩
    obtain ⟨j, rfl⟩ := List.get_of_mem hother
    exact hmax j

end

theorem walk_ne_nil (numberText : ν → JsString) (overrides : JsonTreeOverrides)
    (node : JsonTree JsString ν) (label : Option JsString) (depth : ℕ) (path : JsString) :
    walk numberText overrides node label depth path ≠ [] := by
  cases node <;> exact List.cons_ne_nil _ _

/-- **When the widest row is measured**: for every document, whatever is open, and every width of a
character, exactly when one of the widest rows has fewer than three rows before it in the order in which
rows are kept. -/
theorem widest_measured_iff (numberText : ν → JsString) (value : JsonTree JsString ν)
    (overrides : JsonTreeOverrides) {charWidth : ℚ} (hpos : 0 < charWidth) :
    Measured charWidth (flattenJsonTree numberText value overrides) ↔
      WidestRanked charWidth (flattenJsonTree numberText value overrides).lines :=
  measured_widest_iff hpos (walk_ne_nil numberText overrides value none 0 [])

/-- Three texts, and a short one at the end of five lists. -/
def shortAndDeep : JsonTree JsString Unit :=
  .object [js "a", js "b", js "c", js "d"] (by decide) fun i =>
    if i.val < 3 then .string (js "0123456789")
    else .array 1 fun _ => .array 1 fun _ => .array 1 fun _ => .array 1 fun _ => .array 1 fun _ =>
      .string (js "y")

/-- With characters of a whole number of pixels, the rows are compared as numbers of pixels. -/
theorem renderedWidth_le_iff {line other : JsonLine ν} (pixels : ℕ) :
    renderedWidth (pixels : ℚ) line ≤ renderedWidth (pixels : ℚ) other ↔
      line.depth * 14 + line.weight * pixels ≤ other.depth * 14 + other.weight * pixels := by
  have hcast : ∀ row : JsonLine ν, renderedWidth (pixels : ℚ) row =
      ((row.depth * 14 + row.weight * pixels + 14 : ℕ) : ℚ) := by
    intro row
    unfold renderedWidth
    push_cast
    exact add_right_comm _ _ _
  rw [hcast, hcast, Nat.cast_le, Nat.add_le_add_iff_right]

/-- With characters of 7 pixels the deep text is the widest, and is not measured. -/
theorem widest_not_measured :
    ¬ Measured 7 (flattenJsonTree (fun _ => []) shortAndDeep fun _ => none) := by
  intro h
  obtain ⟨i, hwidest, hrank⟩ :=
    (measured_widest_iff (by decide) (walk_ne_nil _ _ shortAndDeep none 0 [])).mp h
  have hpixels := fun j => (renderedWidth_le_iff 7).mp (hwidest j)
  clear hwidest h
  revert i
  decide

/-- With characters of 8 pixels the three texts are the widest rows of the sixteen. -/
theorem widest_measured_eight : Measured 8 (flattenJsonTree (fun _ => []) shortAndDeep fun _ => none) := by
  refine (widest_measured_iff (fun _ => []) shortAndDeep _ (by decide)).mpr ⟨⟨1, by decide⟩, fun j => ?_, by decide⟩
  refine (renderedWidth_le_iff 8).mpr ?_
  revert j
  decide

end OffsetExplorer.JsonTreeView
