import Mathlib.Computability.Language

/-!
# Words that show where they end

An input is read word by word without marks between the words when no word of the language begins
another one.

* `PrefixFree`: no word begins another.
* `PrefixFree.append_mem_kstar`: a word in front changes nothing for what follows.
* `ReadsAt`: what a reader does at a place of its input; `ReadsAt.mul`, `ReadsAt.mem_kstar`: two
  readers after each other, and a reader that goes on to the end.
-/

namespace Framing

open Computability

variable {α : Type*} {L M : Language α} {x y s t input : List α}

/-- No word begins another one. -/
def PrefixFree (L : Language α) : Prop :=
  ∀ ⦃x y s t : List α⦄, x ∈ L → y ∈ L → x ++ s = y ++ t → x = y

theorem PrefixFree.append_inj (hL : PrefixFree L) (hx : x ∈ L) (hy : y ∈ L) (h : x ++ s = y ++ t) :
    x = y ∧ s = t := by
  have hxy : x = y := hL hx hy h
  subst hxy
  exact ⟨rfl, List.append_cancel_left h⟩

/-- All words of one length. -/
def exactly (n : ℕ) : Language α := {word | word.length = n}

theorem prefixFree_exactly (n : ℕ) : PrefixFree (exactly (α := α) n) := by
  intro x y s t hx hy h
  exact (List.append_inj h (Eq.trans hx (Eq.symm hy))).1

/-! ## Repetition -/

theorem append_mem_kstar (hx : x ∈ L) (hs : s ∈ L∗) : x ++ s ∈ L∗ :=
  mul_kstar_le_kstar (a := L) (Language.append_mem_mul hx hs)

theorem exists_of_mem_kstar (h : input ∈ L∗) (hne : input ≠ []) :
    ∃ x ∈ L, ∃ s ∈ L∗, input = x ++ s := by
  obtain ⟨words, rfl, hwords⟩ := Language.mem_kstar.mp h
  induction words with
  | nil => exact absurd rfl hne
  | cons x words ih =>
    refine ⟨x, hwords x List.mem_cons_self, words.flatten, ?_, rfl⟩
    exact Language.join_mem_kstar fun y hy => hwords y (List.mem_cons_of_mem x hy)

/-- **A word in front changes nothing** for what follows. -/
theorem PrefixFree.append_mem_kstar (hL : PrefixFree L) (hnil : [] ∉ L) (hx : x ∈ L) :
    x ++ s ∈ L∗ ↔ s ∈ L∗ := by
  refine ⟨fun h => ?_, Framing.append_mem_kstar hx⟩
  have hne : x ++ s ≠ [] := by
    intro hempty
    exact hnil ((List.append_eq_nil_iff.mp hempty).1 ▸ hx)
  obtain ⟨y, hy, t, ht, hsplit⟩ := exists_of_mem_kstar h hne
  rwa [(hL.append_inj hx hy hsplit).2]

theorem PrefixFree.kstar_append_mem_kstar (hL : PrefixFree L) (hnil : [] ∉ L) (hx : x ∈ L∗) :
    x ++ s ∈ L∗ ↔ s ∈ L∗ := by
  obtain ⟨words, rfl, hwords⟩ := Language.mem_kstar.mp hx
  induction words with
  | nil => rfl
  | cons y words ih =>
    have hrest : ∀ z ∈ words, z ∈ L := fun z hz => hwords z (List.mem_cons_of_mem y hz)
    rw [List.flatten_cons, List.append_assoc,
      hL.append_mem_kstar hnil (hwords y List.mem_cons_self)]
    exact ih hrest (Language.join_mem_kstar hrest)

/-! ## Readers -/

/-- What a reader of `L` gives at a place of its input: the place behind the word that is there, or
nothing when no word is. -/
inductive ReadsAt (L : Language α) (input : List α) (index : ℕ) : Option ℕ → Prop
  | found {x s : List α} : x ∈ L → input.drop index = x ++ s →
      ReadsAt L input index (some (index + x.length))
  | absent : (∀ x ∈ L, ∀ s, input.drop index ≠ x ++ s) → ReadsAt L input index none

variable {index next : ℕ} {result : Option ℕ}

theorem drop_behind (h : input.drop index = x ++ s) : input.drop (index + x.length) = s := by
  rw [← List.drop_drop, h, List.drop_left]

/-- **Two readers after each other.** -/
theorem ReadsAt.mul (hL : PrefixFree L) (hx : x ∈ L) (hsplit : input.drop index = x ++ s)
    (h : ReadsAt M input (index + x.length) result) : ReadsAt (L * M) input index result := by
  have hrest : input.drop (index + x.length) = s := drop_behind hsplit
  cases h with
  | @found y t hy hbehind =>
    rw [Nat.add_assoc, ← List.length_append]
    apply ReadsAt.found (s := t) (Language.append_mem_mul hx hy)
    rw [hsplit, ← hrest, hbehind, List.append_assoc]
  | absent hnone =>
    apply ReadsAt.absent
    rintro _ ⟨x', hx', y, hy, rfl⟩ t hwhole
    rw [hsplit, List.append_assoc] at hwhole
    apply hnone y hy t
    rw [hrest, (hL.append_inj hx hx' hwhole).2]

theorem readsAt_exactly (input : List α) (n : ℕ) (hindex : index ≤ input.length) :
    ReadsAt (exactly n) input index
      (if input.length < index + n then none else some (index + n)) := by
  split_ifs with h
  · apply ReadsAt.absent
    intro x hx s hsplit
    have hword : x.length = n := hx
    have hlength := congrArg List.length hsplit
    rw [List.length_drop, List.length_append] at hlength
    omega
  · have hword : ((input.drop index).take n).length = n := by
      rw [List.length_take, List.length_drop]
      omega
    have hread : ReadsAt (exactly n) input index (some (index + ((input.drop index).take n).length)) :=
      .found hword (List.take_append_drop n _).symm
    rwa [hword] at hread

theorem ReadsAt.le (hindex : index ≤ input.length) (h : ReadsAt L input index (some next)) :
    next ≤ input.length := by
  cases h with
  | found hx hsplit =>
    have hlength := congrArg List.length hsplit
    rw [List.length_drop, List.length_append] at hlength
    omega

theorem ReadsAt.lt (hnil : [] ∉ L) (h : ReadsAt L input index (some next)) : index < next := by
  cases h with
  | found hx hsplit =>
    have := List.length_pos_iff.mpr fun hempty => hnil (hempty ▸ hx)
    omega

/-- **Reading on**: what is left is a repetition exactly when it was one before the word. -/
theorem ReadsAt.mem_kstar (hL : PrefixFree L) (hnil : [] ∉ L)
    (h : ReadsAt L input index (some next)) : input.drop index ∈ L∗ ↔ input.drop next ∈ L∗ := by
  cases h with
  | found hx hsplit => rw [drop_behind hsplit, hsplit, hL.append_mem_kstar hnil hx]

theorem ReadsAt.notMem_kstar (h : ReadsAt L input index none) (hindex : index < input.length) :
    input.drop index ∉ L∗ := by
  cases h with
  | absent hnone =>
    intro hmem
    have hne : input.drop index ≠ [] := by
      rw [Ne, List.drop_eq_nil_iff]
      omega
    obtain ⟨x, hx, s, -, hsplit⟩ := exists_of_mem_kstar hmem hne
    exact hnone x hx s hsplit

end Framing
