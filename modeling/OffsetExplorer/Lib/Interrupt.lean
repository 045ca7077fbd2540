import Mathlib.Data.Option.Basic

/-!
# Computations that can be cut short

A computation on a state performs named operations, one after another. At most one of them is cut
short: with an error, which the computation passes on to its caller, or by a crash, which nobody
survives. An operation that is cut short leaves a residue.

* `Prog`: such computations, a monad; `perform`, `ask`: its operations and its questions.
* `bind_of_ok`, `bind_of_error`: how two computations compose.
* `Keeps`: what holds wherever a computation stops; `Keeps.bind`, `Keeps.perform`: its rules.
-/

namespace Interrupt

/-- How a computation stops early. -/
inductive Stop where
  | error
  | crash
  deriving DecidableEq

/-- The operation that is cut short, and the residue it leaves. A computation runs under one `Cut` or
none, so at most one of its operations goes wrong. -/
structure Cut (ι ρ : Type*) where
  op : ι
  stop : Stop
  left : ρ

/-- A computation on `σ` with operations `ι` and residues `ρ`. -/
def Prog (ι ρ σ α : Type*) := Option (Cut ι ρ) → σ → Except Stop α × σ

namespace Prog

universe u

variable {ι ρ σ : Type*} {α β : Type u}

/-- Nothing is performed. -/
protected def pure (a : α) : Prog ι ρ σ α := fun _ s => (.ok a, s)

/-- What stops the first computation stops both. -/
protected def bind (p : Prog ι ρ σ α) (f : α → Prog ι ρ σ β) : Prog ι ρ σ β := fun cut s =>
  match p cut s with
  | (.ok a, t) => f a cut t
  | (.error stop, t) => (.error stop, t)

instance : Monad (Prog ι ρ σ) where
  pure := Prog.pure
  bind := Prog.bind

/-- The cut does not fall on an operation. -/
def Spares (cut : Option (Cut ι ρ)) (op : ι) : Prop := ∀ c ∈ cut, c.op ≠ op

variable [DecidableEq ι]

/-- An operation: what it does, and what it leaves when it is cut short. -/
def perform (op : ι) (act : σ → σ) (cutShort : ρ → σ → σ) : Prog ι ρ σ Unit := fun cut s =>
  match cut.filter fun c => c.op = op with
  | none => (.ok (), act s)
  | some c => (.error c.stop, cutShort c.left s)

/-- A question about the state: an error reads as the answer no. -/
def ask (op : ι) (question : σ → Bool) : Prog ι ρ σ Bool := fun cut s =>
  match (cut.filter fun c => c.op = op).map Cut.stop with
  | none => (.ok (question s), s)
  | some .error => (.ok false, s)
  | some .crash => (.error .crash, s)

/-! ## How computations run -/

variable {p : Prog ι ρ σ α} {f : α → Prog ι ρ σ β} {cut : Option (Cut ι ρ)} {c : Cut ι ρ} {s t : σ}

omit [DecidableEq ι] in
theorem bind_of_ok {a : α} (h : p cut s = (.ok a, t)) : (p >>= f) cut s = f a cut t := by
  show Prog.bind p f cut s = _
  rw [Prog.bind, h]

omit [DecidableEq ι] in
theorem bind_of_error {stop : Stop} (h : p cut s = (.error stop, t)) :
    (p >>= f) cut s = (.error stop, t) := by
  show Prog.bind p f cut s = _
  rw [Prog.bind, h]

omit [DecidableEq ι] in
theorem spares_some {op : ι} (h : c.op ≠ op) : Spares (some c) op := by
  rintro _ ⟨⟩
  exact h

omit [DecidableEq ι] in
theorem spares_or (cut : Option (Cut ι ρ)) (op : ι) :
    Spares cut op ∨ (∃ c ∈ cut, c.op = op ∧ c.stop = .error) ∨
      ∃ c ∈ cut, c.op = op ∧ c.stop = .crash := by
  cases cut with
  | none => exact .inl nofun
  | some c =>
    by_cases hop : c.op = op
    · cases hstop : c.stop with
      | error => exact .inr (.inl ⟨c, rfl, hop, hstop⟩)
      | crash => exact .inr (.inr ⟨c, rfl, hop, hstop⟩)
    · exact .inl (spares_some hop)

theorem filter_of_spares {op : ι} (h : Spares cut op) :
    (cut.filter fun c => c.op = op) = none := by
  rw [Option.filter_eq_none_iff]
  intro c hc
  simpa using h c hc

theorem filter_of_op {op : ι} (h : c.op = op) : ((some c).filter fun d => d.op = op) = some c :=
  Option.filter_some_pos (by simp [h])

theorem perform_of_spares {op : ι} {act : σ → σ} {cutShort : ρ → σ → σ} (h : Spares cut op) :
    perform op act cutShort cut s = (.ok (), act s) := by
  rw [perform, filter_of_spares h]

theorem perform_cut {op : ι} {act : σ → σ} {cutShort : ρ → σ → σ} (h : c.op = op) :
    perform op act cutShort (some c) s = (.error c.stop, cutShort c.left s) := by
  rw [perform, filter_of_op h]

theorem ask_of_spares {op : ι} {question : σ → Bool} (h : Spares cut op) :
    (ask op question : Prog ι ρ σ Bool) cut s = (.ok (question s), s) := by
  rw [ask, filter_of_spares h]
  rfl

theorem ask_error {op : ι} {question : σ → Bool} (h : c.op = op) (hstop : c.stop = .error) :
    (ask op question : Prog ι ρ σ Bool) (some c) s = (.ok false, s) := by
  rw [ask, filter_of_op h, Option.map_some, hstop]

theorem ask_crash {op : ι} {question : σ → Bool} (h : c.op = op) (hstop : c.stop = .crash) :
    (ask op question : Prog ι ρ σ Bool) (some c) s = (.error .crash, s) := by
  rw [ask, filter_of_op h, Option.map_some, hstop]

/-! ## What holds wherever a computation stops -/

/-- Whether the computation ends or is cut short, and where, `I` still holds. -/
def Keeps (I : σ → Prop) (p : Prog ι ρ σ α) : Prop := ∀ cut s, I s → I (p cut s).2

variable {I : σ → Prop}

omit [DecidableEq ι] in
theorem Keeps.pure (a : α) : Keeps I (Pure.pure a : Prog ι ρ σ α) := fun _ _ h => h

omit [DecidableEq ι] in
theorem Keeps.bind (hp : Keeps I p) (hf : ∀ a, Keeps I (f a)) : Keeps I (p >>= f) := by
  intro cut s h
  have ht := hp cut s h
  cases hrun : p cut s with
  | mk outcome t =>
    rw [hrun] at ht
    cases outcome with
    | ok a => rw [bind_of_ok hrun]; exact hf a cut t ht
    | error stop => rw [bind_of_error hrun]; exact ht

theorem Keeps.perform {op : ι} {act : σ → σ} {cutShort : ρ → σ → σ} (hact : ∀ s, I s → I (act s))
    (hcut : ∀ r s, I s → I (cutShort r s)) : Keeps I (perform op act cutShort) := by
  intro cut s h
  rw [Prog.perform]
  cases cut.filter fun c => c.op = op with
  | none => exact hact s h
  | some c => exact hcut c.left s h

theorem Keeps.ask (op : ι) (question : σ → Bool) :
    Keeps I (ask op question : Prog ι ρ σ Bool) := by
  intro cut s h
  rw [Prog.ask]
  split <;> exact h

end Prog

end Interrupt
