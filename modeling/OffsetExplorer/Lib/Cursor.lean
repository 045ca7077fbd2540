import Mathlib.Data.List.Basic
import Mathlib.Data.Nat.Notation
import Mathlib.Data.Int.Notation

/-!
# Reading through a cursor

A reader takes slices off an input, one behind the other, and stops at the first that is not there.

* `Cursor`, `Reader`, `take`, `fail`: a place in an input, with the number of reads so far.
* `Reads`: what is at the place is read as a value.
* `Stable`: more input behind changes nothing; **`Reads.error_of_short`**: and less is an error.
* `Frugal`: how many reads the input allows.
-/

/-- A place in an input, and how often the input was read from. -/
structure Cursor (α : Type) where
  input : List α
  pos : ℕ
  reads : ℕ

/-- A computation that reads, or fails where it stands. -/
def Reader (α ε β : Type) : Type := Cursor α → Cursor α × Except ε β

namespace Reader

variable {α ε β γ : Type}

instance : Monad (Reader α ε) where
  pure v := fun c => (c, .ok v)
  bind r f := fun c =>
    match r c with
    | (c, .ok v) => f v c
    | (c, .error e) => (c, .error e)

/-- The reader fails where it is. -/
def fail (e : ε) : Reader α ε β := fun c => (c, .error e)

/-- The next `n` elements, or an error if there are less. -/
def take (n : ℕ) (e : ε) : Reader α ε (List α) := fun c =>
  if c.input.length < c.pos + n then ({ c with reads := c.reads + 1 }, .error e)
  else ({ c with pos := c.pos + n, reads := c.reads + 1 }, .ok ((c.input.drop c.pos).take n))

theorem bind_apply (r : Reader α ε β) (f : β → Reader α ε γ) (c : Cursor α) :
    (r >>= f) c =
      match r c with
      | (c, .ok v) => f v c
      | (c, .error e) => (c, .error e) := rfl

theorem bind_of_ok {r : Reader α ε β} {f : β → Reader α ε γ} {c c' : Cursor α} {v : β}
    (h : r c = (c', .ok v)) : (r >>= f) c = f v c' := by rw [bind_apply, h]

theorem exists_of_bind {r : Reader α ε β} {f : β → Reader α ε γ} {c c' : Cursor α} {w : γ}
    (h : (r >>= f) c = (c', .ok w)) : ∃ c₁ v, r c = (c₁, .ok v) ∧ f v c₁ = (c', .ok w) := by
  rw [bind_apply] at h
  split at h
  · rename_i c₁ v hr
    exact ⟨c₁, v, hr, h⟩
  · cases h

/-! ## Words -/

/-- The word, wherever it is, is read as the value. -/
def Reads (r : Reader α ε β) (word : List α) (v : β) : Prop :=
  ∀ (c : Cursor α) (rest : List α), c.pos ≤ c.input.length → c.input.drop c.pos = word ++ rest →
    ∃ reads, r c = (⟨c.input, c.pos + word.length, reads⟩, .ok v)

theorem reads_pure (v : β) : Reads (pure v : Reader α ε β) [] v := fun c _ _ _ => ⟨c.reads, rfl⟩

theorem length_of_drop {c : Cursor α} {word rest : List α} (hpos : c.pos ≤ c.input.length)
    (hword : c.input.drop c.pos = word ++ rest) : c.pos + word.length ≤ c.input.length := by
  have hlength := congrArg List.length hword
  rw [List.length_drop, List.length_append] at hlength
  omega

/-- **Two words behind each other.** -/
theorem Reads.bind {r : Reader α ε β} {f : β → Reader α ε γ} {word word' : List α} {v : β} {w : γ}
    (hr : Reads r word v) (hf : Reads (f v) word' w) : Reads (r >>= f) (word ++ word') w := by
  intro c rest hpos hword
  rw [List.append_assoc] at hword
  obtain ⟨reads, hfirst⟩ := hr c _ hpos hword
  have hbehind : c.input.drop (c.pos + word.length) = word' ++ rest := by
    rw [← List.drop_drop, hword, List.drop_left]
  obtain ⟨reads', hsecond⟩ :=
    hf ⟨c.input, c.pos + word.length, reads⟩ rest (length_of_drop hpos hword) hbehind
  refine ⟨reads', ?_⟩
  rw [bind_of_ok hfirst, hsecond, List.length_append, Nat.add_assoc]

theorem Reads.bind_pure {r : Reader α ε β} {f : β → Reader α ε γ} {word : List α} {v : β} {w : γ}
    (hr : Reads r word v) (hf : f v = pure w) : Reads (r >>= f) word w := by
  have hboth := hr.bind (hf ▸ reads_pure w)
  rwa [List.append_nil] at hboth

theorem reads_take (word : List α) (e : ε) : Reads (take word.length e) word word := by
  intro c rest hpos hword
  have hlength := length_of_drop hpos hword
  refine ⟨c.reads + 1, ?_⟩
  rw [take, if_neg (by omega), hword, List.take_left]

/-! ## Less and more input -/

/-- More input behind changes nothing in what was read. -/
def Stable (r : Reader α ε β) : Prop :=
  ∀ (c c' : Cursor α) (v : β), c.pos ≤ c.input.length → r c = (c', .ok v) →
    c'.input = c.input ∧ c'.pos ≤ c.input.length ∧
      ∀ more, r ⟨c.input ++ more, c.pos, c.reads⟩ = (⟨c.input ++ more, c'.pos, c'.reads⟩, .ok v)

theorem stable_pure (v : β) : Stable (pure v : Reader α ε β) := by
  intro c c' w hpos h
  obtain ⟨rfl, hv⟩ := Prod.mk.inj h
  obtain rfl := Except.ok.inj hv
  exact ⟨rfl, hpos, fun _ => rfl⟩

theorem stable_fail (e : ε) : Stable (fail e : Reader α ε β) := fun _ _ _ _ h => nomatch h

theorem stable_take (n : ℕ) (e : ε) : Stable (take n e : Reader α ε (List α)) := by
  intro c c' v hpos h
  rw [take] at h
  split_ifs at h with hshort
  · cases h
  · obtain ⟨rfl, hv⟩ := Prod.mk.inj h
    obtain rfl := Except.ok.inj hv
    have hstop : c.pos + n ≤ c.input.length := by omega
    refine ⟨rfl, hstop, fun more => ?_⟩
    have hmore : ¬ (c.input ++ more).length < c.pos + n := by
      rw [List.length_append]
      omega
    rw [take, if_neg hmore, List.drop_append_of_le_length hpos, List.take_append_of_le_length]
    rw [List.length_drop]
    omega

theorem Stable.bind {r : Reader α ε β} {f : β → Reader α ε γ} (hr : Stable r)
    (hf : ∀ v, Stable (f v)) : Stable (r >>= f) := by
  intro c c' w hpos h
  obtain ⟨c₁, v, hfirst, hsecond⟩ := exists_of_bind h
  obtain ⟨hinput, hpos₁, hmore⟩ := hr c c₁ v hpos hfirst
  obtain ⟨hinput', hpos', hmore'⟩ := hf v c₁ c' w (hinput ▸ hpos₁) hsecond
  refine ⟨hinput'.trans hinput, hinput ▸ hpos', fun more => ?_⟩
  rw [bind_of_ok (hmore more), ← hinput]
  exact hmore' more

/-- **Less is an error**: a word that ends too early is not read as anything. -/
theorem Reads.error_of_short {r : Reader α ε β} {word : List α} {v : β} (hr : Reads r word v)
    (hstable : Stable r) {n : ℕ} (hn : n < word.length) :
    ∃ e, (r ⟨word.take n, 0, 0⟩).2 = .error e := by
  cases h : r ⟨word.take n, 0, 0⟩ with
  | mk c' result =>
    cases result with
    | error e => exact ⟨e, rfl⟩
    | ok w =>
      -- the same would be read from the whole word, which is read to its end
      obtain ⟨-, hpos, hmore⟩ := hstable _ c' w (Nat.zero_le _) h
      have hwhole := hmore (word.drop n)
      simp only [List.take_append_drop] at hwhole
      obtain ⟨reads, hend⟩ := hr ⟨word, 0, 0⟩ [] (Nat.zero_le _) (List.append_nil word).symm
      have hplace := congrArg (fun out => out.1.pos) (hwhole.symm.trans hend)
      simp only [List.length_take] at hplace hpos
      omega

/-! ## How much is read -/

/-- The reads are `debt` more than the elements that they took at most, and one more where it fails. -/
def Frugal (debt : ℤ) (r : Reader α ε β) : Prop :=
  ∀ (c c' : Cursor α) (result : Except ε β), c.pos ≤ c.input.length → r c = (c', result) →
    c'.input = c.input ∧ c'.pos ≤ c.input.length ∧
      (c'.reads : ℤ) + c.pos ≤ c.reads + c'.pos + (if result.isOk then debt else 1)

theorem frugal_pure (v : β) : Frugal 0 (pure v : Reader α ε β) := by
  intro c c' result hpos h
  obtain ⟨rfl, rfl⟩ := Prod.mk.inj h
  exact ⟨rfl, hpos, by simp [Except.isOk, Except.toBool]⟩

theorem frugal_fail (e : ε) : Frugal 0 (fail e : Reader α ε β) := by
  intro c c' result hpos h
  obtain ⟨rfl, rfl⟩ := Prod.mk.inj h
  refine ⟨rfl, hpos, ?_⟩
  simp only [Except.isOk, Except.toBool]
  omega

theorem frugal_take (n : ℕ) (e : ε) : Frugal (1 - n) (take n e : Reader α ε (List α)) := by
  intro c c' result hpos h
  rw [take] at h
  split_ifs at h with hshort
  · obtain ⟨rfl, rfl⟩ := Prod.mk.inj h
    exact ⟨rfl, hpos, by simp [Except.isOk, Except.toBool]; omega⟩
  · obtain ⟨rfl, rfl⟩ := Prod.mk.inj h
    have hstop : c.pos + n ≤ c.input.length := by omega
    refine ⟨rfl, hstop, ?_⟩
    simp only [Except.isOk, Except.toBool, if_true]
    omega

theorem Frugal.mono {debt debt' : ℤ} {r : Reader α ε β} (h : Frugal debt r) (hle : debt ≤ debt') :
    Frugal debt' r := by
  intro c c' result hpos hr
  obtain ⟨hinput, hpos', hreads⟩ := h c c' result hpos hr
  refine ⟨hinput, hpos', ?_⟩
  split_ifs at hreads ⊢ <;> omega

/-- **What the first part saved** is there for the second. -/
theorem Frugal.bind {debt debt' : ℤ} {r : Reader α ε β} {f : β → Reader α ε γ} (hr : Frugal debt r)
    (hdebt : debt ≤ 0) (hf : ∀ v, Frugal debt' (f v)) : Frugal (debt + debt') (r >>= f) := by
  intro c c' result hpos h
  rw [bind_apply] at h
  split at h
  · rename_i c₁ v hfirst
    obtain ⟨hinput, hpos₁, hreads⟩ := hr c c₁ _ hpos hfirst
    obtain ⟨hinput', hpos', hreads'⟩ := hf v c₁ c' result (hinput ▸ hpos₁) h
    refine ⟨hinput'.trans hinput, hinput ▸ hpos', ?_⟩
    simp only [Except.isOk, Except.toBool, if_true] at hreads
    split_ifs at hreads' ⊢ <;> omega
  · rename_i c₁ e hfirst
    obtain ⟨hinput, hpos₁, hreads⟩ := hr c c₁ _ hpos hfirst
    obtain ⟨rfl, rfl⟩ := Prod.mk.inj h
    exact ⟨hinput, hpos₁, by simpa [Except.isOk, Except.toBool] using hreads⟩

theorem Frugal.bind_free {debt : ℤ} {r : Reader α ε β} {f : β → Reader α ε γ} (hr : Frugal debt r)
    (hdebt : debt ≤ 1) (hf : ∀ v c, (f v c).1 = c) : Frugal debt (r >>= f) := by
  intro c c' result hpos h
  rw [bind_apply] at h
  split at h
  · rename_i c₁ v hfirst
    obtain ⟨hinput, hpos₁, hreads⟩ := hr c c₁ _ hpos hfirst
    have hsame : c₁ = c' := (hf v c₁).symm.trans (congrArg Prod.fst h)
    subst hsame
    refine ⟨hinput, hpos₁, ?_⟩
    simp only [Except.isOk, Except.toBool, if_true] at hreads
    split_ifs <;> omega
  · rename_i c₁ e hfirst
    obtain ⟨hinput, hpos₁, hreads⟩ := hr c c₁ _ hpos hfirst
    obtain ⟨rfl, rfl⟩ := Prod.mk.inj h
    exact ⟨hinput, hpos₁, by simpa [Except.isOk, Except.toBool] using hreads⟩

/-- **All reads** of an input are one more than its elements at most. -/
theorem Frugal.reads_le {r : Reader α ε β} (hr : Frugal 0 r) (input : List α) :
    (r ⟨input, 0, 0⟩).1.reads ≤ input.length + 1 := by
  obtain ⟨hinput, hpos, hreads⟩ := hr ⟨input, 0, 0⟩ _ _ (Nat.zero_le _) rfl
  dsimp only at hpos hreads
  split_ifs at hreads <;> omega

end Reader
