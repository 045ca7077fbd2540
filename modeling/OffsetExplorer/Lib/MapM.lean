import Mathlib.Data.List.Forall2

/-!
# Lists of results

A list is mapped by a function that may fail. The map fails if the function does for one of its elements.

* **`mapM_eq_some_iff`**: of optional results, the list has one for each element.
* `mapM_isSome_iff`: there are all if there is each.
* `mapM_ok`, `exists_of_mapM_ok`: the same for results with an error.
* `exists_mapM_ok`, `mem_iff_of_forall₂`, `map_eq_of_forall₂`: the list of the results, and what is in it.
-/

namespace MapM

section Option

variable {α β : Type*} {f : α → Option β} {l : List α} {l' : List β}

theorem mapM_eq_some_iff : l.mapM f = some l' ↔ List.Forall₂ (fun a b => f a = some b) l l' := by
  induction l generalizing l' with
  | nil => rw [List.mapM_nil, List.forall₂_nil_left_iff, Option.pure_def, Option.some.injEq, eq_comm]
  | cons a l ih =>
    rw [List.mapM_cons, List.forall₂_cons_left_iff]
    constructor
    · intro h
      obtain ⟨b, hb, h⟩ := Option.bind_eq_some_iff.mp h
      obtain ⟨bs, hbs, h⟩ := Option.bind_eq_some_iff.mp h
      cases h
      exact ⟨b, bs, hb, ih.mp hbs, rfl⟩
    · rintro ⟨b, bs, hb, hbs, rfl⟩
      rw [hb, ih.mpr hbs]
      rfl

theorem exists_of_mapM_some (h : l.mapM f = some l') : ∀ b ∈ l', ∃ a ∈ l, f a = some b := by
  have hforall := mapM_eq_some_iff.mp h
  clear h
  induction hforall with
  | nil => exact fun b hb => absurd hb List.not_mem_nil
  | cons hfirst _ ih =>
    intro b hb
    rcases List.mem_cons.mp hb with rfl | hb
    · exact ⟨_, List.mem_cons_self, hfirst⟩
    · obtain ⟨a, ha, hab⟩ := ih b hb
      exact ⟨a, List.mem_cons_of_mem _ ha, hab⟩

theorem mapM_isSome_iff : (l.mapM f).isSome = true ↔ ∀ a ∈ l, (f a).isSome = true := by
  induction l with
  | nil => simp
  | cons a l ih =>
    rw [List.mapM_cons, List.forall_mem_cons, ← ih]
    cases f a with
    | none => simp
    | some b => cases l.mapM f <;> simp

end Option

section Except

variable {α β ε : Type*} {f : α → Except ε β} {l : List α}

theorem mapM_ok {g : α → β} (h : ∀ a ∈ l, f a = .ok (g a)) : l.mapM f = .ok (l.map g) := by
  induction l with
  | nil => rfl
  | cons a l ih =>
    rw [List.mapM_cons, h a List.mem_cons_self, ih fun b hb => h b (List.mem_cons_of_mem a hb)]
    rfl

theorem exists_of_mapM_ok {l' : List β} (h : l.mapM f = .ok l') : ∀ a ∈ l, ∃ b, f a = .ok b := by
  induction l generalizing l' with
  | nil => exact fun a ha => absurd ha List.not_mem_nil
  | cons a l ih =>
    rw [List.mapM_cons] at h
    cases hfirst : f a with
    | error e =>
      rw [hfirst] at h
      cases h
    | ok b =>
      cases hrest : l.mapM f with
      | error e =>
        rw [hfirst, hrest] at h
        cases h
      | ok bs => exact List.forall_mem_cons.mpr ⟨⟨b, hfirst⟩, ih hrest⟩

theorem exists_mapM_ok (h : ∀ a ∈ l, ∃ b, f a = .ok b) :
    ∃ l', l.mapM f = .ok l' ∧ List.Forall₂ (fun a b => f a = .ok b) l l' := by
  induction l with
  | nil => exact ⟨[], rfl, .nil⟩
  | cons a l ih =>
    obtain ⟨⟨b, hb⟩, hrest⟩ := List.forall_mem_cons.mp h
    obtain ⟨l', hl', hforall⟩ := ih hrest
    refine ⟨b :: l', ?_, .cons hb hforall⟩
    rw [List.mapM_cons, hb, hl']
    rfl

theorem mem_iff_of_forall₂ {l' : List β} (h : List.Forall₂ (fun a b => f a = .ok b) l l') {b : β} :
    b ∈ l' ↔ ∃ a ∈ l, f a = .ok b := by
  induction h with
  | nil => simp
  | cons hfirst _ ih =>
    rw [List.mem_cons, ih]
    simp [hfirst, eq_comm]

end Except

theorem map_eq_of_forall₂ {α β γ : Type*} {r : α → β → Prop} {f : α → γ} {g : β → γ} {l : List α} {l' : List β}
    (h : List.Forall₂ r l l') (hr : ∀ a b, r a b → f a = g b) : l.map f = l'.map g := by
  induction h with
  | nil => rfl
  | cons hfirst _ ih => rw [List.map_cons, List.map_cons, hr _ _ hfirst, ih]

end MapM
