import Mathlib.Data.List.Induction
import Mathlib.Data.List.Nodup
import Mathlib.Data.List.Perm.Subperm
import Mathlib.Data.List.TakeWhile
import Mathlib.Order.Basic
import Mathlib.Order.Lattice

/-!
# The greatest of a stream

A list of at most `k` elements, the least of them in front, goes through a stream: a new element comes
in while there is room, and then in place of the first one where it is greater. Elements are compared by
keys, all different.

* `insertBy`: an element at its place; `keepTop`: one round.
* `above`: how many elements of a list are greater.
* `TopOf`: the greatest `k` of a list, in order; **`TopOf.concat`**: one round keeps it.
* **`mem_foldl_keepTop`**: what is there after the stream.
* `mergeSort_concat`, `mergeSort_cons_sorted`: sorting a sorted list with one more element.
-/

namespace TopK

variable {α κ : Type*} [LinearOrder κ] (key : α → κ) (k : ℕ)

/-- An element behind those that are less. -/
def insertBy (x : α) (l : List α) : List α :=
  l.takeWhile (fun a => decide (key a < key x)) ++ x :: l.dropWhile fun a => decide (key a < key x)

/-- One round, with the least in front. -/
def keepTop (best : List α) (x : α) : List α :=
  if best.length < k then insertBy key x best
  else
    match best with
    | [] => []
    | first :: rest => if key x ≤ key first then first :: rest else insertBy key x rest

/-- How many elements are greater. -/
def above (l : List α) (x : α) : ℕ := l.countP fun y => decide (key x < key y)

variable {key k} {l best : List α} {x y : α}

/-! ## Inserting -/

theorem mem_insertBy : y ∈ insertBy key x l ↔ y = x ∨ y ∈ l := by
  rw [insertBy, List.mem_append, List.mem_cons, or_left_comm, ← List.mem_append,
    List.takeWhile_append_dropWhile]

theorem length_insertBy : (insertBy key x l).length = l.length + 1 := by
  have hsplit := congrArg List.length (List.takeWhile_append_dropWhile
    (p := fun a => decide (key a < key x)) (l := l))
  rw [List.length_append] at hsplit
  rw [insertBy, List.length_append, List.length_cons]
  omega

theorem lt_of_mem_takeWhile (h : y ∈ l.takeWhile fun a => decide (key a < key x)) : key y < key x :=
  of_decide_eq_true (List.mem_takeWhile_imp (p := fun a => decide (key a < key x)) h)

theorem le_of_mem_dropWhile (hl : l.Pairwise fun a b => key a < key b)
    (h : y ∈ l.dropWhile fun a => decide (key a < key x)) : key x ≤ key y := by
  induction l with
  | nil => cases h
  | cons a l ih =>
    rw [List.dropWhile_cons] at h
    split at h
    · exact ih hl.of_cons h
    · rename_i ha
      have hxa : key x ≤ key a := not_lt.mp fun hlt => ha (decide_eq_true hlt)
      rcases List.mem_cons.mp h with rfl | hmem
      · exact hxa
      · exact hxa.trans (List.rel_of_pairwise_cons hl hmem).le

theorem pairwise_insertBy (hl : l.Pairwise fun a b => key a < key b) (hx : ∀ a ∈ l, key a ≠ key x) :
    (insertBy key x l).Pairwise fun a b => key a < key b := by
  have hback : ∀ y ∈ l.dropWhile (fun a => decide (key a < key x)), key x < key y := fun y hy =>
    lt_of_le_of_ne (le_of_mem_dropWhile hl hy) (hx y (List.dropWhile_subset _ hy)).symm
  rw [insertBy, List.pairwise_append, List.pairwise_cons]
  refine ⟨hl.sublist (List.takeWhile_sublist _), ⟨hback, hl.sublist (List.dropWhile_sublist _)⟩, ?_⟩
  intro a ha b hb
  have hax := lt_of_mem_takeWhile ha
  rcases List.mem_cons.mp hb with rfl | hb
  · exact hax
  · exact hax.trans (hback b hb)

theorem insertBy_eq {p : α → Bool} (h : ∀ a ∈ l, decide (key a < key x) = p a) :
    insertBy key x l = l.takeWhile p ++ x :: l.dropWhile p := by
  have hsame : l.takeWhile (fun a => decide (key a < key x)) = l.takeWhile p ∧
      l.dropWhile (fun a => decide (key a < key x)) = l.dropWhile p := by
    induction l with
    | nil => exact ⟨rfl, rfl⟩
    | cons a l ih =>
      have hrest := ih fun b hb => h b (List.mem_cons_of_mem a hb)
      simp only [List.takeWhile_cons, List.dropWhile_cons, h a List.mem_cons_self, hrest.1, hrest.2,
        and_self]
  rw [insertBy, hsame.1, hsame.2]

/-! ## Counting -/

theorem above_concat (l : List α) (x y : α) :
    above key (l ++ [x]) y = above key l y + if key y < key x then 1 else 0 := by
  rw [above, List.countP_append, List.countP_singleton]
  simp [above]

theorem above_le_above (h : key x ≤ key y) : above key l y ≤ above key l x :=
  List.countP_mono_left fun _ _ hz => decide_eq_true (h.trans_lt (of_decide_eq_true hz))

theorem above_lt_above (hy : y ∈ l) (h : key x < key y) : above key l y < above key l x := by
  obtain ⟨s, t, rfl⟩ := List.append_of_mem hy
  have hs : above key s y ≤ above key s x := above_le_above h.le
  have ht : above key t y ≤ above key t x := above_le_above h.le
  unfold above at *
  rw [List.countP_append, List.countP_append, List.countP_cons, List.countP_cons]
  simp only [lt_irrefl, h, decide_true, decide_false, if_true, Bool.false_eq_true, if_false]
  omega

theorem length_le_above (hbest : best.Nodup) (hsub : best ⊆ l) (h : ∀ y ∈ best, key x < key y) :
    best.length ≤ above key l x := by
  have hall : best.countP (fun y => decide (key x < key y)) = best.length :=
    List.countP_eq_length.mpr fun y hy => decide_eq_true (h y hy)
  rw [← hall]
  exact (List.subperm_of_subset hbest hsub).countP_le _

theorem above_lt_length (key : α → κ) (hx : x ∈ l) : above key l x < l.length := by
  obtain ⟨s, t, rfl⟩ := List.append_of_mem hx
  unfold above
  have hs := List.countP_le_length (p := fun y => decide (key x < key y)) (l := s)
  have ht := List.countP_le_length (p := fun y => decide (key x < key y)) (l := t)
  rw [List.countP_append, List.countP_cons, List.length_append, List.length_cons]
  simp only [lt_irrefl, decide_false, Bool.false_eq_true, if_false]
  omega

/-! ## The greatest -/

variable (key k) in
/-- The greatest `k` elements, the least of them in front. -/
structure TopOf (l best : List α) : Prop where
  pairwise : best.Pairwise fun a b => key a < key b
  mem_iff : ∀ x, x ∈ best ↔ x ∈ l ∧ above key l x < k
  length : best.length = min k l.length

theorem TopOf.nodup (h : TopOf key k l best) : best.Nodup :=
  h.pairwise.imp fun hlt heq => (heq ▸ hlt).ne rfl

theorem topOf_nil : TopOf key k ([] : List α) [] :=
  ⟨List.Pairwise.nil, by simp, by simp⟩

/-- **One round** keeps the greatest. -/
theorem TopOf.concat (h : TopOf key k l best) (hx : ∀ a ∈ l, key a ≠ key x) :
    TopOf key k (l ++ [x]) (keepTop key k best x) := by
  have hsub : best ⊆ l := fun y hy => ((h.mem_iff y).mp hy).1
  have hlength := h.length
  have hmem : ∀ y, y ∈ l ++ [x] ↔ y ∈ l ∨ y = x := by simp
  unfold keepTop
  by_cases hroom : best.length < k
  · -- all elements are among the greatest
    have hshort : l.length < k := by omega
    rw [if_pos hroom]
    refine ⟨pairwise_insertBy h.pairwise fun a ha => hx a (hsub ha), fun y => ?_, ?_⟩
    · have hall : ∀ z ∈ l ++ [x], above key (l ++ [x]) z < k := by
        intro z hz
        have hlt := above_lt_length key hz
        rw [List.length_append, List.length_singleton] at hlt
        omega
      have hbest : y ∈ best ↔ y ∈ l := by
        rw [h.mem_iff]
        refine and_iff_left_of_imp fun hy => ?_
        have hlt := above_lt_length key hy
        omega
      rw [mem_insertBy, hbest, hmem, or_comm]
      exact ⟨fun hy => ⟨hy, hall y ((hmem y).mpr hy)⟩, fun hy => hy.1⟩
    · rw [length_insertBy, List.length_append, List.length_singleton]
      omega
  · rw [if_neg hroom]
    have hfull : best.length = k := by omega
    rcases best with _ | ⟨first, rest⟩
    · have hzero : k = 0 := by simpa using hfull.symm
      subst hzero
      exact ⟨List.Pairwise.nil, by simp, by simp⟩
    · have hfirst : first ∈ l := hsub List.mem_cons_self
      have hnext : ∀ y ∈ rest, key first < key y := fun y hy =>
        List.rel_of_pairwise_cons h.pairwise hy
      have hrest : rest ⊆ l := fun y hy => hsub (List.mem_cons_of_mem first hy)
      have hlong : rest.length + 1 = k := hfull
      dsimp only
      split_ifs with hless
      · -- the new element is not among them, and no other falls out
        have hlt : key x < key first := lt_of_le_of_ne hless (hx first hfirst).symm
        have hover : ∀ y ∈ first :: rest, key x < key y := by
          intro y hy
          rcases List.mem_cons.mp hy with rfl | hy
          · exact hlt
          · exact hlt.trans (hnext y hy)
        refine ⟨h.pairwise, fun y => ?_, ?_⟩
        · rw [h.mem_iff, hmem, above_concat]
          constructor
          · rintro ⟨hy, hlow⟩
            have hxy := hover y ((h.mem_iff y).mpr ⟨hy, hlow⟩)
            rw [if_neg (not_lt.mpr hxy.le)]
            exact ⟨.inl hy, hlow⟩
          · rintro ⟨hy | rfl, hlow⟩
            · exact ⟨hy, by omega⟩
            · have hmany := length_le_above h.nodup hsub hover
              omega
        · rw [List.length_append, List.length_singleton]
          omega
      · -- the least one falls out, and the new one comes in
        have hlt : key first < key x := not_le.mp hless
        have hmost : above key l first < k := ((h.mem_iff first).mp List.mem_cons_self).2
        have hleast : rest.length ≤ above key l first :=
          length_le_above h.nodup.of_cons hrest hnext
        refine ⟨pairwise_insertBy h.pairwise.of_cons fun a ha => hx a (hrest ha), fun y => ?_, ?_⟩
        · rw [mem_insertBy, hmem, above_concat]
          constructor
          · rintro (rfl | hy)
            · have hle := above_le_above (l := l) hlt.le
              rw [if_neg (lt_irrefl _)]
              exact ⟨.inr rfl, by omega⟩
            · have hless := above_lt_above (hrest hy) (hnext y hy)
              refine ⟨.inl (hrest hy), ?_⟩
              split_ifs <;> omega
          · rintro ⟨hy | hy, hlow⟩
            · have hold : y ∈ first :: rest := (h.mem_iff y).mpr ⟨hy, by omega⟩
              rcases List.mem_cons.mp hold with rfl | hy
              · rw [if_pos hlt] at hlow
                omega
              · exact .inr hy
            · exact .inl hy
        · rw [length_insertBy, List.length_append, List.length_singleton]
          omega

theorem topOf_foldl (hl : (l.map key).Nodup) : TopOf key k l (l.foldl (keepTop key k) []) := by
  induction l using List.reverseRecOn with
  | nil => exact topOf_nil
  | append_singleton l x ih =>
    rw [List.map_append, List.map_singleton, List.nodup_append] at hl
    rw [List.foldl_append, List.foldl_cons, List.foldl_nil]
    refine (ih hl.1).concat fun a ha => ?_
    exact hl.2.2 (key a) (List.mem_map_of_mem ha) (key x) (List.mem_singleton_self _)

/-- **After the stream** an element is there when fewer than `k` are greater. -/
theorem mem_foldl_keepTop (hl : (l.map key).Nodup) :
    x ∈ l.foldl (keepTop key k) [] ↔ x ∈ l ∧ above key l x < k :=
  (topOf_foldl hl).mem_iff x

/-! ## Sorting a sorted list with one more element -/

section

variable (measure : α → κ)

theorem takeWhile_append_of_not {p : α → Bool} (l₁ l₂ : List α) (h₁ : ∀ a ∈ l₁, p a = true)
    (h₂ : ∀ a ∈ l₂, p a = false) :
    (l₁ ++ l₂).takeWhile p = l₁ ∧ (l₁ ++ l₂).dropWhile p = l₂ := by
  rw [List.takeWhile_append_of_pos h₁, List.dropWhile_append_of_pos h₁]
  cases l₂ with
  | nil => simp
  | cons a l₂ =>
    have ha := h₂ a List.mem_cons_self
    simp [ha]

theorem measure_trans (a b c : α) (hab : decide (measure a ≤ measure b) = true)
    (hbc : decide (measure b ≤ measure c) = true) : decide (measure a ≤ measure c) = true :=
  decide_eq_true ((of_decide_eq_true hab).trans (of_decide_eq_true hbc))

theorem measure_total (a b : α) :
    (decide (measure a ≤ measure b) || decide (measure b ≤ measure a)) = true := by
  simpa using le_total (measure a) (measure b)

theorem pairwise_sorted (l : List α) :
    (l.mergeSort fun a b => decide (measure a ≤ measure b)).Pairwise
      fun a b => measure a ≤ measure b :=
  (List.pairwise_mergeSort (measure_trans measure) (measure_total measure) l).imp of_decide_eq_true

theorem sorted_eq (hl : l.Pairwise fun a b => measure a ≤ measure b) :
    l.mergeSort (fun a b => decide (measure a ≤ measure b)) = l :=
  List.mergeSort_of_pairwise (hl.imp decide_eq_true)

theorem mergeSort_cons_sorted (hl : l.Pairwise fun a b => measure a ≤ measure b) (x : α) :
    (x :: l).mergeSort (fun a b => decide (measure a ≤ measure b)) =
      l.takeWhile (fun a => decide (measure a < measure x)) ++
        x :: l.dropWhile fun a => decide (measure a < measure x) := by
  obtain ⟨l₁, l₂, hsorted, hrest, hless⟩ :=
    List.mergeSort_cons (measure_trans measure) (measure_total measure) x l
  rw [sorted_eq measure hl] at hrest
  have hpair := pairwise_sorted measure (x :: l)
  rw [hsorted, List.pairwise_append] at hpair
  have hsplit := takeWhile_append_of_not (p := fun a => decide (measure a < measure x))
    l₁ l₂ (fun a ha => by simpa using hless a ha) fun a ha => by
      simpa using List.rel_of_pairwise_cons hpair.2.1 ha
  rw [hsorted, hrest, hsplit.1, hsplit.2]

theorem mergeSort_concat (hl : l.Pairwise fun a b => measure a ≤ measure b) (x : α) :
    (l ++ [x]).mergeSort (fun a b => decide (measure a ≤ measure b)) =
      l.takeWhile (fun a => decide (measure a ≤ measure x)) ++
        x :: l.dropWhile fun a => decide (measure a ≤ measure x) := by
  induction l with
  | nil => simp
  | cons a l ih =>
    obtain ⟨l₁, l₂, hsorted, hrest, hless⟩ :=
      List.mergeSort_cons (measure_trans measure) (measure_total measure) a (l ++ [x])
    have hnext : ∀ b ∈ l, measure a ≤ measure b := fun b hb => List.rel_of_pairwise_cons hl hb
    have hfront : ∀ b ∈ l₁, measure b < measure a := fun b hb => by simpa using hless b hb
    have hfrom : ∀ b ∈ l₁, b ∈ l ++ [x] := by
      intro b hb
      have hperm := List.mergeSort_perm (l ++ [x]) fun a b => decide (measure a ≤ measure b)
      rw [hrest] at hperm
      exact hperm.subset (List.mem_append_left l₂ hb)
    have hold : ∀ b ∈ l₁, b = x := by
      intro b hb
      rcases List.mem_append.mp (hfrom b hb) with hmem | hmem
      · exact absurd (hfront b hb) (not_lt.mpr (hnext b hmem))
      · exact List.mem_singleton.mp hmem
    rw [List.cons_append, hsorted]
    by_cases hax : measure a ≤ measure x
    · have hnone : l₁ = [] := by
        refine List.eq_nil_iff_forall_not_mem.mpr fun b hb => ?_
        have hlt := hfront b hb
        rw [hold b hb] at hlt
        exact absurd hlt (not_lt.mpr hax)
      rw [hnone, List.nil_append] at hrest ⊢
      rw [← hrest, ih hl.of_cons, List.takeWhile_cons_of_pos (by simpa using hax),
        List.dropWhile_cons_of_pos (by simpa using hax), List.cons_append]
    · have hxa : measure x < measure a := not_le.mp hax
      have hnot : ∀ b ∈ l, decide (measure b ≤ measure x) = false := fun b hb =>
        decide_eq_false (not_le.mpr (hxa.trans_le (hnext b hb)))
      have hsplit := takeWhile_append_of_not (p := fun b => decide (measure b ≤ measure x))
        [] l (by simp) hnot
      rw [List.nil_append] at hsplit
      rw [ih hl.of_cons, hsplit.1, hsplit.2, List.nil_append] at hrest
      have hpair := pairwise_sorted measure (a :: (l ++ [x]))
      rw [hsorted] at hpair
      rcases l₁ with _ | ⟨b, l₁⟩
      · rw [List.nil_append] at hrest hpair
        rw [← hrest] at hpair
        exact absurd (List.rel_of_pairwise_cons hpair List.mem_cons_self) hax
      · obtain ⟨rfl, htail⟩ := List.cons.inj hrest
        have hnone : l₁ = [] := by
          refine List.eq_nil_iff_forall_not_mem.mpr fun c hc => ?_
          have hmem : c ∈ l := htail ▸ List.mem_append_left l₂ hc
          exact absurd (hfront c (List.mem_cons_of_mem x hc)) (not_lt.mpr (hnext c hmem))
        subst hnone
        have hsame : l = l₂ := htail
        rw [← hsame, List.takeWhile_cons_of_neg (by simpa using hxa),
          List.dropWhile_cons_of_neg (by simpa using hxa)]
        rfl

end

end TopK
