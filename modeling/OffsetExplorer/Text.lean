import Mathlib.Data.List.DropRight

/-!
# Blank text

What trimming removes, on both sides of the app: the back end trims the Unicode `White_Space`
characters, the front end those of its own language, and the two sets differ.
-/

namespace OffsetExplorer

/-- Remove the characters that satisfy `p` from both ends. -/
def trimWhere (p : Char → Bool) (s : String) : String :=
  String.ofList (((s.toList.dropWhile p).reverse.dropWhile p).reverse)

/-- The blanks that both languages trim. -/
def isCommonBlank (c : Char) : Bool :=
  (9 ≤ c.toNat && c.toNat ≤ 13) || c.toNat = 0x20 || c.toNat = 0xA0 || c.toNat = 0x1680 ||
    (0x2000 ≤ c.toNat && c.toNat ≤ 0x200A) || c.toNat = 0x2028 || c.toNat = 0x2029 ||
    c.toNat = 0x202F || c.toNat = 0x205F || c.toNat = 0x3000

/-- `str::trim` of the back end; it counts NEL as a blank. -/
def rustTrim : String → String := trimWhere fun c => isCommonBlank c || c.toNat = 0x85

/-- `String.prototype.trim` of the front end; it counts the byte order mark as a blank. -/
def jsTrim : String → String := trimWhere fun c => isCommonBlank c || c.toNat = 0xFEFF

theorem dropWhile_congr {p q : Char → Bool} {l : List Char} (h : ∀ c ∈ l, p c = q c) :
    l.dropWhile p = l.dropWhile q := by
  induction l with
  | nil => rfl
  | cons c rest ih =>
    rw [List.dropWhile_cons, List.dropWhile_cons, h c List.mem_cons_self,
      ih fun d hd => h d (List.mem_cons_of_mem c hd)]

theorem mem_dropWhile {p : Char → Bool} {l : List Char} {c : Char} (hc : c ∈ l) (hp : p c = false) :
    c ∈ l.dropWhile p := by
  induction l with
  | nil => cases hc
  | cons d rest ih =>
    rw [List.dropWhile_cons]
    split
    · rename_i hd
      rcases List.mem_cons.mp hc with rfl | hc
      · rw [hp] at hd
        cases hd
      · exact ih hc
    · exact hc

theorem mem_trimWhere {p : Char → Bool} {s : String} {c : Char} (hc : c ∈ s.toList)
    (hp : p c = false) : c ∈ (trimWhere p s).toList := by
  rw [trimWhere, String.toList_ofList]
  exact List.mem_reverse.mpr (mem_dropWhile (List.mem_reverse.mpr (mem_dropWhile hc hp)) hp)

theorem trimWhere_congr {p q : Char → Bool} {s : String} (h : ∀ c ∈ s.toList, p c = q c) :
    trimWhere p s = trimWhere q s := by
  have hreverse : ∀ c ∈ (s.toList.dropWhile q).reverse, p c = q c := fun c hc =>
    h c (List.dropWhile_subset q (List.mem_reverse.mp hc))
  rw [trimWhere, trimWhere, dropWhile_congr h, dropWhile_congr hreverse]

theorem trimWhere_of_forall {p : Char → Bool} {s : String} (h : ∀ c ∈ s.toList, p c = false) :
    trimWhere p s = s := by
  have hself : ∀ l : List Char, (∀ c ∈ l, p c = false) → l.dropWhile p = l := by
    intro l hl
    cases l with
    | nil => rfl
    | cons c l => exact List.dropWhile_cons_of_neg (by simp [hl c List.mem_cons_self])
  rw [trimWhere, hself _ h, hself _ fun c hc => h c (List.mem_reverse.mp hc), List.reverse_reverse,
    String.ofList_toList]

theorem toList_trimWhere (p : Char → Bool) (s : String) :
    (trimWhere p s).toList = (s.toList.dropWhile p).rdropWhile p := String.toList_ofList

theorem trimWhere_trimWhere (p : Char → Bool) (s : String) : trimWhere p (trimWhere p s) = trimWhere p s := by
  refine String.toList_inj.mp ?_
  rw [toList_trimWhere, toList_trimWhere]
  -- what is left begins with no blank, also without its end
  have hhead : ((s.toList.dropWhile p).rdropWhile p).dropWhile p =
      (s.toList.dropWhile p).rdropWhile p := by
    have hfront := List.dropWhile_eq_self_iff.mp (List.dropWhile_idempotent p s.toList)
    refine List.dropWhile_eq_self_iff.mpr fun hpos => ?_
    rw [(List.rdropWhile_prefix p _).getElem hpos]
    exact hfront _
  rw [hhead, List.rdropWhile_idempotent]

end OffsetExplorer
