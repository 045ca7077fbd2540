import OffsetExplorer.Lib.Record

/-!
# Slots with a mirror of the current one

A slot for each key, a key that is current, and a copy of what the current slot shows. The copy is kept by
hand: each operation writes it beside the slots.

* `Mirrored.Op`, `Mirrored.step`: switching, writing, and emptying slots, one or many of them.
* `InStep`: the copy shows the current slot; `inStep_init`, **`InStep.step`**.
* `Touches`: the slots that an operation is for; **`get?_step_of_not_touches`**: it changes no other.
* `get?_forgetWhere`: which slots are emptied.
* `Op.Meets`, `slot_step_of_meets`: what holds of all that is written holds of every slot.
* `ClearOf`, **`ClearOf.step`**: what has been emptied stays empty until it is written.
-/

/-- A slot for each key, and what is shown of the current one. -/
structure Mirrored (κ α γ : Type*) where
  shown : γ
  current : Option κ
  slots : Record κ (Option α)

namespace Mirrored

variable {κ α γ ι : Type*} [DecidableEq κ]

/-- What the slot of a key holds; there need not be one. -/
def slot (s : Mirrored κ α γ) (k : κ) : Option α := (s.slots.get? k).join

/-- The current key, if slots are kept for it. -/
def active (live : κ → Bool) (s : Mirrored κ α γ) : Option κ := s.current.filter live

/-! ## Operations -/

section

variable (live : κ → Bool) (view : Option α → γ)

/-- The current slot is written, and shown. -/
def write (v : Option α) (s : Mirrored κ α γ) : Mirrored κ α γ :=
  { s with
    shown := view v
    slots := match s.active live with
      | some k => s.slots.set k v
      | none => s.slots }

/-- Another slot becomes the current one. -/
def switch (k : Option κ) (s : Mirrored κ α γ) : Mirrored κ α γ :=
  { s with
    shown := view ((k.filter live).bind s.slot)
    current := k }

/-- Writes what `f` makes of the current slot, if it holds anything. -/
def revise (f : α → α) (s : Mirrored κ α γ) : Mirrored κ α γ :=
  match (s.active live).bind s.slot with
  | some v => s.write live view (some (f v))
  | none => s

/-- Empties the slot of a key, or else the current one. -/
def forget (k : Option κ) (s : Mirrored κ α γ) : Mirrored κ α γ :=
  match (k.or s.current).filter live with
  | some target =>
    { s with
      shown := if s.current = some target then view none else s.shown
      slots := s.slots.set target none }
  | none => s

/-- Empties the slots that belong to `c`. What is shown is told by itself whether it belongs to `c`. -/
def forgetWhere (belongs : ι → Option α → Bool) (shownBelongs : ι → γ → Bool) (c : ι)
    (s : Mirrored κ α γ) : Mirrored κ α γ :=
  { s with
    shown := if shownBelongs c s.shown then view none else s.shown
    slots := s.slots.mapValues fun v => if belongs c v then none else v }

end

/-- The operations of such a store. -/
inductive Op (κ α ι : Type*) where
  | switch (k : Option κ)
  | write (v : Option α)
  | revise (f : α → α)
  | forget (k : Option κ)
  | forgetWhere (c : ι)

/-- How slots are kept: for which keys, what is shown of one, and what belongs to what. -/
structure Kind (κ α γ ι : Type*) where
  live : κ → Bool
  view : Option α → γ
  belongs : ι → Option α → Bool
  shownBelongs : ι → γ → Bool
  /-- An empty slot belongs to nothing. -/
  empty : ∀ c, belongs c none = false
  /-- It shows of a slot whether that belongs to `c`. -/
  shows : ∀ c v, shownBelongs c (view v) = belongs c v

/-- There are no slots yet. -/
def init (kind : Kind κ α γ ι) : Mirrored κ α γ where
  shown := kind.view none
  current := none
  slots := ∅

/-- What an operation does. -/
def step (kind : Kind κ α γ ι) (s : Mirrored κ α γ) : Op κ α ι → Mirrored κ α γ
  | .switch k => s.switch kind.live kind.view k
  | .write v => s.write kind.live kind.view v
  | .revise f => s.revise kind.live kind.view f
  | .forget k => s.forget kind.live kind.view k
  | .forgetWhere c => s.forgetWhere kind.view kind.belongs kind.shownBelongs c

variable {kind : Kind κ α γ ι}

/-! ## The slots after an operation -/

theorem get?_write (live : κ → Bool) (view : Option α → γ) (s : Mirrored κ α γ) (v : Option α) (k : κ) :
    (s.write live view v).slots.get? k =
      if s.active live = some k then some v else s.slots.get? k := by
  unfold write
  cases hactive : s.active live with
  | none => rfl
  | some key =>
    simp only [Option.some.injEq]
    rw [Record.get?_set]
    exact if_congr eq_comm rfl rfl

theorem get?_forgetWhere (kind : Kind κ α γ ι) (s : Mirrored κ α γ) (c : ι) (k : κ) :
    (s.step kind (.forgetWhere c)).slots.get? k =
      if kind.belongs c (s.slot k) then some none else s.slots.get? k := by
  rw [step, forgetWhere, Record.get?_mapValues, slot]
  cases s.slots.get? k with
  | none => simp [kind.empty c]
  | some v =>
    rw [Option.map_some, Option.join_some]
    split_ifs <;> rfl

/-- The slots that an operation is for: the current one, the one that is named, or those that belong to `c`. -/
def Touches (kind : Kind κ α γ ι) (s : Mirrored κ α γ) : Op κ α ι → κ → Prop
  | .switch _, _ => False
  | .write _, k | .revise _, k => s.active kind.live = some k
  | .forget k?, k => (k?.or s.current).filter kind.live = some k
  | .forgetWhere c, k => kind.belongs c (s.slot k)

/-- **No other slot changes.** -/
theorem get?_step_of_not_touches {s : Mirrored κ α γ} {op : Op κ α ι} {k : κ}
    (h : ¬ s.Touches kind op k) : (s.step kind op).slots.get? k = s.slots.get? k := by
  cases op with
  | switch key => rfl
  | write v =>
    rw [step, get?_write]
    exact if_neg h
  | revise f =>
    rw [step, revise]
    split
    · rw [get?_write]
      exact if_neg h
    · rfl
  | forget key =>
    rw [step, forget]
    split
    · rename_i target htarget
      exact Record.get?_set_ne _ (fun heq => h (htarget.trans (congrArg some heq.symm))) _
    · rfl
  | forgetWhere c =>
    rw [get?_forgetWhere]
    exact if_neg h

theorem slot_forgetWhere (kind : Kind κ α γ ι) (s : Mirrored κ α γ) (c : ι) (k : κ) :
    (s.step kind (.forgetWhere c)).slot k = if kind.belongs c (s.slot k) then none else s.slot k := by
  rw [slot, get?_forgetWhere]
  split_ifs <;> rfl

/-- What an operation writes into a slot has the property `P`. -/
def Op.Meets (kind : Kind κ α γ ι) (s : Mirrored κ α γ) (P : κ → α → Prop) : Op κ α ι → Prop
  | .write v => ∀ k ∈ s.active kind.live, ∀ w ∈ v, P k w
  | .revise f => ∀ k ∈ s.active kind.live, ∀ w ∈ s.slot k, P k (f w)
  | .switch _ | .forget _ | .forgetWhere _ => True

theorem slot_write_of_meets {P : κ → α → Prop} {s : Mirrored κ α γ} (h : ∀ k, ∀ w ∈ s.slot k, P k w)
    {live : κ → Bool} {v : Option α} (hv : ∀ k ∈ s.active live, ∀ w ∈ v, P k w) (view : Option α → γ) :
    ∀ k, ∀ w ∈ (s.write live view v).slot k, P k w := by
  intro k w hw
  rw [slot, get?_write] at hw
  split_ifs at hw with hactive
  · exact hv k hactive w hw
  · exact h k w hw

theorem slot_step_of_meets {P : κ → α → Prop} {s : Mirrored κ α γ} (h : ∀ k, ∀ w ∈ s.slot k, P k w)
    {op : Op κ α ι} (hop : op.Meets kind s P) : ∀ k, ∀ w ∈ (s.step kind op).slot k, P k w := by
  cases op with
  | switch key => exact h
  | write v => exact slot_write_of_meets h hop kind.view
  | revise f =>
    rw [step, revise]
    split
    · rename_i v hv
      obtain ⟨key, hkey, hslot⟩ := Option.bind_eq_some_iff.mp hv
      refine slot_write_of_meets h (fun k hk w hw => ?_) kind.view
      cases hw
      cases hkey.symm.trans hk
      exact hop key hkey v hslot
    · exact h
  | forget key =>
    rw [step, forget]
    split
    · intro k w hw
      rw [slot, Record.get?_set] at hw
      split_ifs at hw
      · cases hw
      · exact h k w hw
    · exact h
  | forgetWhere c =>
    intro k w hw
    rw [slot_forgetWhere] at hw
    split_ifs at hw
    · cases hw
    · exact h k w hw

/-! ## What is shown after an operation -/

/-- What is shown is what the current slot holds. -/
def InStep (kind : Kind κ α γ ι) (s : Mirrored κ α γ) : Prop :=
  ∀ k ∈ s.active kind.live, s.shown = kind.view (s.slot k)

theorem inStep_init (kind : Kind κ α γ ι) : InStep kind (init kind) := fun _ => nofun

theorem inStep_write (kind : Kind κ α γ ι) (s : Mirrored κ α γ) (v : Option α) :
    InStep kind (s.write kind.live kind.view v) := by
  intro k hk
  have hactive : s.active kind.live = some k := hk
  rw [slot, get?_write, if_pos hactive]
  rfl

/-- **An operation keeps the copy in step.** -/
theorem InStep.step {s : Mirrored κ α γ} (h : InStep kind s) (op : Op κ α ι) :
    InStep kind (s.step kind op) := by
  cases op with
  | switch key =>
    intro k hk
    change kind.view ((key.filter kind.live).bind s.slot) = _
    rw [show key.filter kind.live = some k from hk]
    rfl
  | write v => exact inStep_write kind s v
  | revise f =>
    rw [Mirrored.step, revise]
    split
    · exact inStep_write kind s _
    · exact h
  | forget key =>
    rw [Mirrored.step, forget]
    split
    · rename_i target htarget
      intro k hk
      have hcurrent : s.current = some k := (Option.filter_eq_some_iff.mp hk).1
      by_cases heq : target = k
      · subst heq
        simp [slot, hcurrent]
      · have hne : s.current ≠ some target := fun h' => heq (Option.some.inj (h'.symm.trans hcurrent))
        rw [slot, Record.get?_set_ne _ (Ne.symm heq)]
        exact (if_neg hne).trans (h k hk)
    · exact h
  | forgetWhere c =>
    intro k hk
    have hshown := h k hk
    rw [slot_forgetWhere]
    change (if kind.shownBelongs c s.shown then kind.view none else s.shown) = _
    rw [hshown, kind.shows]
    split_ifs <;> rfl

/-! ## What is cleared -/

/-- Neither a slot nor the copy belongs to `c`. -/
structure ClearOf (kind : Kind κ α γ ι) (c : ι) (s : Mirrored κ α γ) : Prop where
  slots : ∀ k, kind.belongs c (s.slot k) = false
  shown : kind.shownBelongs c s.shown = false

/-- What an operation writes does not belong to `c`. -/
def Op.Avoids (kind : Kind κ α γ ι) (c : ι) : Op κ α ι → Prop
  | .write v => kind.belongs c v = false
  | .revise f => ∀ v, kind.belongs c (some v) = false → kind.belongs c (some (f v)) = false
  | .switch _ | .forget _ | .forgetWhere _ => True

theorem clearOf_forgetWhere (kind : Kind κ α γ ι) (s : Mirrored κ α γ) (c : ι) :
    ClearOf kind c (s.step kind (.forgetWhere c)) where
  slots := by
    intro k
    rw [slot_forgetWhere]
    split_ifs with h
    · exact kind.empty c
    · exact Bool.eq_false_of_not_eq_true h
  shown := by
    change kind.shownBelongs c (if kind.shownBelongs c s.shown then kind.view none else s.shown) = false
    split_ifs with h
    · exact (kind.shows c none).trans (kind.empty c)
    · exact Bool.eq_false_of_not_eq_true h

theorem ClearOf.write {c : ι} {s : Mirrored κ α γ} (h : ClearOf kind c s) {v : Option α}
    (hv : kind.belongs c v = false) : ClearOf kind c (s.write kind.live kind.view v) where
  slots := by
    intro k
    rw [slot, get?_write]
    split_ifs
    · exact hv
    · exact h.slots k
  shown := (kind.shows c v).trans hv

/-- **What is cleared stays so** until something is written that belongs to `c`. -/
theorem ClearOf.step {c : ι} {s : Mirrored κ α γ} (h : ClearOf kind c s) {op : Op κ α ι}
    (hop : op.Avoids kind c) : ClearOf kind c (s.step kind op) := by
  cases op with
  | switch key =>
    refine ⟨h.slots, ?_⟩
    change kind.shownBelongs c (kind.view ((key.filter kind.live).bind s.slot)) = false
    rw [kind.shows]
    cases key.filter kind.live with
    | none => exact kind.empty c
    | some k => exact h.slots k
  | write v => exact h.write hop
  | revise f =>
    rw [Mirrored.step, revise]
    split
    · rename_i v hv
      obtain ⟨k, -, hslot⟩ := Option.bind_eq_some_iff.mp hv
      exact h.write (hop v (hslot ▸ h.slots k))
    · exact h
  | forget key =>
    rw [Mirrored.step, forget]
    split
    · rename_i target _
      refine ⟨fun k => ?_, ?_⟩
      · rw [slot, Record.get?_set]
        split_ifs
        · exact kind.empty c
        · exact h.slots k
      · change kind.shownBelongs c (if s.current = some target then kind.view none else s.shown) = false
        split_ifs
        · exact (kind.shows c none).trans (kind.empty c)
        · exact h.shown
    · exact h
  | forgetWhere d =>
    refine ⟨fun k => ?_, ?_⟩
    · rw [slot_forgetWhere]
      split_ifs
      · exact kind.empty c
      · exact h.slots k
    · change kind.shownBelongs c (if kind.shownBelongs d s.shown then kind.view none else s.shown) = false
      split_ifs
      · exact (kind.shows c none).trans (kind.empty c)
      · exact h.shown

end Mirrored
