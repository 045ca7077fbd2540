import Mathlib.Data.List.Perm.Basic
import Mathlib.Logic.Relation

/-!
# Lists in which some elements follow others

An element may have an anchor, the element that it is to follow. A list is put together by inserting one
element after the other, each right after its anchor if that is already there.

* `insertAfter`, `merge`: one insertion, and all of them.
* `Beside`: an element follows its anchor, with only elements between that hang on the same anchor.
* `merge_perm`, `sublist_merge`: nothing is lost, and what was there keeps its order.
* **`settled_merge`**: if no element comes before its anchor, each is beside its anchor in the end.
-/

namespace Anchored

variable {α : Type*} {anchor : α → Option α} {a x y : α}

/-- `x` hangs on `a`: its anchor is `a`, or hangs on `a`. -/
def HangsOn (anchor : α → Option α) (a x : α) : Prop :=
  Relation.TransGen (fun x b => anchor x = some b) x a

/-- Between the two stands only what hangs on the first. -/
def Beside (anchor : α → Option α) (l : List α) (a x : α) : Prop :=
  ∃ front between back, l = front ++ a :: (between ++ x :: back) ∧ ∀ y ∈ between, HangsOn anchor a y

/-- Every element whose anchor is in the list is beside it. -/
def Settled (anchor : α → Option α) (l : List α) : Prop :=
  ∀ x ∈ l, ∀ a ∈ l, anchor x = some a → Beside anchor l a x

/-- No element comes before its anchor. -/
def InOrder (anchor : α → Option α) (xs : List α) : Prop := xs.Pairwise fun x y => anchor x ≠ some y

theorem InOrder.sublist {anchor' : α → Option α} {xs ys : List α} (h : InOrder anchor xs)
    (hsub : ys.Sublist xs) (hanchor : ∀ x ∈ ys, anchor' x = anchor x ∨ anchor' x = none) :
    InOrder anchor' ys := by
  refine (List.Pairwise.sublist hsub h).imp_of_mem fun {x y} hx _ hxy => ?_
  rcases hanchor x hx with heq | heq
  · rwa [heq]
  · rw [heq]
    exact nofun

theorem Beside.concat {l : List α} (h : Beside anchor l a y) (x : α) : Beside anchor (l ++ [x]) a y := by
  obtain ⟨front, between, back, rfl, hbetween⟩ := h
  exact ⟨front, between, back ++ [x], by simp, hbetween⟩

/-- What is inserted hangs on `a`, if it comes between `a` and an element beside `a`. -/
theorem Beside.insert {p q : List α} (h : Beside anchor (p ++ q) a y)
    (hx : ∀ front between, p = front ++ a :: between → (∀ z ∈ between, HangsOn anchor a z) →
      HangsOn anchor a x) :
    Beside anchor (p ++ x :: q) a y := by
  obtain ⟨front, between, back, hsplit, hbetween⟩ := h
  rcases List.append_eq_append_iff.mp hsplit with ⟨f, rfl, rfl⟩ | ⟨c, rfl, hrest⟩
  · exact ⟨p ++ x :: f, between, back, by simp, hbetween⟩
  · rcases c with _ | ⟨b, c⟩
    · exact ⟨front ++ [x], between, back, by simpa using hrest.symm, hbetween⟩
    · rw [List.cons_append] at hrest
      obtain ⟨rfl, htail⟩ := List.cons.inj hrest
      rcases List.append_eq_append_iff.mp htail with ⟨d, rfl, hback⟩ | ⟨d, rfl, rfl⟩
      · rcases d with _ | ⟨e, d⟩
        · refine ⟨front, between ++ [x], back, by simpa using hback.symm,
            List.forall_mem_append.mpr ⟨hbetween, ?_⟩⟩
          rw [List.append_nil] at hx
          exact List.forall_mem_singleton.mpr (hx front between rfl hbetween)
        · obtain ⟨rfl, rfl⟩ := List.cons.inj hback
          exact ⟨front, between, d ++ x :: q, by simp, hbetween⟩
      · obtain ⟨hc, hd⟩ := List.forall_mem_append.mp hbetween
        refine ⟨front, c ++ x :: d, back, by simp, List.forall_mem_append.mpr ⟨hc, ?_⟩⟩
        exact List.forall_mem_cons.mpr ⟨hx front c rfl hc, hd⟩

theorem insertIdx_length (front back : List α) (x : α) :
    (front ++ back).insertIdx front.length x = front ++ x :: back := by
  induction front with
  | nil => rfl
  | cons c front ih => exact congrArg (c :: ·) ih

variable [DecidableEq α]

/-- The list with `x` right after its anchor, or at the end if the anchor is not there. -/
def insertAfter (l : List α) (anchor : Option α) (x : α) : List α :=
  match anchor with
  | some a => if a ∈ l then l.insertIdx (l.idxOf a + 1) x else l ++ [x]
  | none => l ++ [x]

/-- The elements are put behind their anchors, one after another. -/
def merge (anchor : α → Option α) (base xs : List α) : List α :=
  xs.foldl (fun l x => insertAfter l (anchor x) x) base

variable {l base xs : List α}

/-! ## One insertion -/

theorem insertAfter_of_mem (h : a ∈ l) (x : α) :
    ∃ front back, l = front ++ a :: back ∧ insertAfter l (some a) x = front ++ a :: x :: back := by
  obtain ⟨front, back, rfl, ha⟩ := List.eq_append_cons_of_mem h
  refine ⟨front, back, rfl, ?_⟩
  have hindex : (front ++ a :: back).idxOf a + 1 = (front ++ [a]).length := by
    rw [List.idxOf_append_of_notMem ha, List.idxOf_cons_self, List.length_append, List.length_singleton,
      Nat.add_zero]
  have hsplit : front ++ a :: back = (front ++ [a]) ++ back := List.append_cons front a back
  rw [insertAfter, if_pos h, hindex, hsplit, insertIdx_length, List.append_assoc, List.singleton_append]

theorem insertAfter_cases (l : List α) (anchor : Option α) (x : α) :
    (∃ a front back, anchor = some a ∧ l = front ++ a :: back ∧
      insertAfter l anchor x = front ++ a :: x :: back) ∨
    (∀ a ∈ l, anchor ≠ some a) ∧ insertAfter l anchor x = l ++ [x] := by
  rcases anchor with _ | a
  · exact .inr ⟨fun _ _ => nofun, rfl⟩
  · by_cases h : a ∈ l
    · obtain ⟨front, back, hl, hinsert⟩ := insertAfter_of_mem h x
      exact .inl ⟨a, front, back, rfl, hl, hinsert⟩
    · refine .inr ⟨fun b hb heq => h (Option.some.inj heq ▸ hb), if_neg h⟩

theorem insertAfter_perm (l : List α) (anchor : Option α) (x : α) :
    (insertAfter l anchor x).Perm (l ++ [x]) := by
  rcases insertAfter_cases l anchor x with ⟨a, front, back, -, rfl, hinsert⟩ | ⟨-, hinsert⟩
  · rw [hinsert, List.append_cons, List.append_cons front a back]
    exact List.perm_middle.trans (List.perm_append_singleton x _).symm
  · rw [hinsert]

theorem sublist_insertAfter (l : List α) (anchor : Option α) (x : α) :
    l.Sublist (insertAfter l anchor x) := by
  rcases insertAfter_cases l anchor x with ⟨a, front, back, -, rfl, hinsert⟩ | ⟨-, hinsert⟩
  · rw [hinsert]
    exact (List.Sublist.refl front).append ((List.sublist_cons_self x back).cons_cons a)
  · rw [hinsert]
    exact List.sublist_append_left l [x]

/-- **One insertion** of an element that is no anchor of the others leaves each beside its anchor. -/
theorem settled_insertAfter (h : Settled anchor l) (hx : ∀ y ∈ l, anchor y ≠ some x)
    (hself : anchor x ≠ some x) : Settled anchor (insertAfter l (anchor x) x) := by
  have hmem : ∀ y, y ∈ insertAfter l (anchor x) x ↔ y ∈ l ∨ y = x := by
    intro y
    rw [(insertAfter_perm l (anchor x) x).mem_iff, List.mem_append, List.mem_singleton]
  intro y hy b hb hanchor
  rw [hmem] at hy hb
  have hbl : b ∈ l := by
    rcases hb with hb | rfl
    · exact hb
    · rcases hy with hy | rfl
      · exact absurd hanchor (hx y hy)
      · exact absurd hanchor hself
  rcases insertAfter_cases l (anchor x) x with ⟨a, front, back, ha, rfl, hinsert⟩ | ⟨hnone, hinsert⟩
  · rw [hinsert]
    rcases hy with hy | rfl
    · have hbeside := h y hy b hbl hanchor
      rw [List.append_cons] at hbeside ⊢
      -- what hangs on `b` up to the place of `x` hangs on it with the anchor of `x`
      refine hbeside.insert fun f between hfront hbetween => ?_
      rcases List.eq_nil_or_concat' between with rfl | ⟨between, z, rfl⟩
      · obtain rfl : a = b := List.head_eq_of_cons_eq (List.append_inj' hfront rfl).2
        exact .single ha
      · rw [← List.cons_append, ← List.append_assoc] at hfront
        obtain rfl : a = z := List.head_eq_of_cons_eq (List.append_inj' hfront rfl).2
        exact .head ha (hbetween a (List.mem_append_right between List.mem_cons_self))
    · obtain rfl : a = b := Option.some.inj (ha.symm.trans hanchor)
      exact ⟨front, [], back, rfl, List.forall_mem_nil _⟩
  · rw [hinsert]
    rcases hy with hy | rfl
    · exact (h y hy b hbl hanchor).concat x
    · exact absurd hanchor (hnone b hbl)

/-! ## All insertions -/

theorem merge_perm (anchor : α → Option α) (base xs : List α) :
    (merge anchor base xs).Perm (base ++ xs) := by
  induction xs generalizing base with
  | nil => rw [List.append_nil]; rfl
  | cons x xs ih =>
    rw [List.append_cons]
    exact (ih _).trans ((insertAfter_perm base (anchor x) x).append_right xs)

theorem sublist_merge (anchor : α → Option α) (base xs : List α) : base.Sublist (merge anchor base xs) := by
  induction xs generalizing base with
  | nil => exact List.Sublist.refl base
  | cons x xs ih => exact (sublist_insertAfter base (anchor x) x).trans (ih _)

/-- **All insertions**: elements in an order in which none comes before its anchor end up beside it. -/
theorem settled_merge (hself : ∀ x, anchor x ≠ some x) (h : Settled anchor base)
    (hlater : ∀ y ∈ base, ∀ x ∈ xs, anchor y ≠ some x) (horder : InOrder anchor xs) :
    Settled anchor (merge anchor base xs) := by
  induction xs generalizing base with
  | nil => exact h
  | cons x xs ih =>
    obtain ⟨hx, hpairs⟩ := List.pairwise_cons.mp horder
    refine ih (settled_insertAfter h (fun y hy => hlater y hy x List.mem_cons_self) (hself x)) ?_ hpairs
    intro y hy z hz
    rw [(insertAfter_perm base (anchor x) x).mem_iff, List.mem_append, List.mem_singleton] at hy
    rcases hy with hy | rfl
    · exact hlater y hy z (List.mem_cons_of_mem x hz)
    · exact hx z hz

end Anchored
