import Mathlib.Data.List.Basic
import Mathlib.Data.List.Induction

/-!
# Runs of a partial step function

A machine is a function `step : σ → ε → Option σ`: in state `s` the event `e` can happen exactly
when `step s e` is `some`, and then leads to that state. A run is a list of events.

* `run`, `run_append`, `run_snoc`: the state after a list of events; `after`: that state, where the
  events are known to be possible.
* `AllSteps C s es`: every step of the run meets `C`, a condition on the state before it and on
  its event; `run_induction`: what such steps preserve, such runs preserve; `run_history`: the same
  for a relation of the state to the events before it; `run_history_of_allSteps`: both.
* `Always I s es`: every state of the run meets `I`; `always_and_allSteps_iff`, `always_iff_allSteps`: which
  runs do.
* `each`: a machine for each index; `each_invariant`.
* `Lasting`, `run_lasting`: what some events bring about and others undo holds where one of the former
  came after the last of the latter.
* `run_length_le`: a measure that every step lowers bounds the length of a run.
-/

namespace Machine

variable {σ ε : Type*} (step : σ → ε → Option σ)

/-- The state after the events `es`, when all of them can happen in this order. -/
def run : σ → List ε → Option σ
  | s, [] => some s
  | s, e :: es => (step s e).bind fun t => run t es

@[simp] theorem run_nil (s : σ) : run step s [] = some s := rfl

@[simp] theorem run_cons (s : σ) (e : ε) (es : List ε) :
    run step s (e :: es) = (step s e).bind fun t => run step t es := rfl

theorem run_cons_some {s t : σ} {e : ε} {es : List ε} (h : run step s (e :: es) = some t) :
    ∃ u, step s e = some u ∧ run step u es = some t :=
  Option.bind_eq_some_iff.mp h

theorem run_append (s : σ) (es fs : List ε) :
    run step s (es ++ fs) = (run step s es).bind fun t => run step t fs := by
  induction es generalizing s with
  | nil => rfl
  | cons e es ih =>
    rw [List.cons_append, run_cons, run_cons, Option.bind_assoc]
    exact congrArg _ (funext ih)

theorem run_snoc (s : σ) (es : List ε) (e : ε) :
    run step s (es ++ [e]) = (run step s es).bind fun t => step t e := by
  simp only [run_append, run_cons, run_nil, Option.bind_fun_some]

/-- The state after events that can happen in this order. -/
def after (s : σ) (es : List ε) (h : (run step s es).isSome = true) : σ := (run step s es).get h

theorem run_after (s : σ) (es : List ε) (h : (run step s es).isSome = true) :
    run step s es = some (after step s es h) :=
  (Option.some_get h).symm

/-- Every step of the run of `es` from `s` meets `C`. -/
def AllSteps (C : σ → ε → Prop) : σ → List ε → Prop
  | _, [] => True
  | s, e :: es => C s e ∧ ∀ t, step s e = some t → AllSteps C t es

/-- Whether every step of a run meets a decidable condition is decided by running it. -/
instance AllSteps.decidable (C : σ → ε → Prop) [∀ s e, Decidable (C s e)] :
    ∀ s es, Decidable (AllSteps step C s es)
  | _, [] => inferInstanceAs (Decidable True)
  | s, e :: es =>
    haveI := fun t => AllSteps.decidable C t es
    inferInstanceAs (Decidable (C s e ∧ ∀ t ∈ step s e, AllSteps step C t es))

/-- Every state that the run of `es` from `s` comes through meets `I`. -/
def Always (I : σ → Prop) : σ → List ε → Prop
  | s, [] => I s
  | s, e :: es => I s ∧ ∀ t, step s e = some t → Always I t es

instance Always.decidable (I : σ → Prop) [∀ s, Decidable (I s)] : ∀ s es, Decidable (Always step I s es)
  | s, [] => inferInstanceAs (Decidable (I s))
  | s, e :: es =>
    haveI := fun t => Always.decidable I t es
    inferInstanceAs (Decidable (I s ∧ ∀ t ∈ step s e, Always step I t es))

variable {step}

theorem AllSteps.mono {C D : σ → ε → Prop} (hCD : ∀ s e, C s e → D s e) {s : σ} {es : List ε}
    (h : AllSteps step C s es) : AllSteps step D s es := by
  induction es generalizing s with
  | nil => trivial
  | cons e es ih => exact ⟨hCD _ _ h.1, fun t ht => ih (h.2 t ht)⟩

theorem AllSteps.and {C D : σ → ε → Prop} {s : σ} {es : List ε} (hC : AllSteps step C s es)
    (hD : AllSteps step D s es) : AllSteps step (fun s e => C s e ∧ D s e) s es := by
  induction es generalizing s with
  | nil => trivial
  | cons e es ih => exact ⟨⟨hC.1, hD.1⟩, fun t ht => ih (hC.2 t ht) (hD.2 t ht)⟩

theorem allSteps_of_forall {C : σ → ε → Prop} (hC : ∀ s e, C s e) (s : σ) (es : List ε) :
    AllSteps step C s es := by
  induction es generalizing s with
  | nil => trivial
  | cons e es ih => exact ⟨hC _ _, fun t _ => ih t⟩

theorem allSteps_of_mem {P : ε → Prop} {s : σ} {es : List ε} (h : ∀ e ∈ es, P e) :
    AllSteps step (fun _ e => P e) s es := by
  induction es generalizing s with
  | nil => trivial
  | cons e es ih =>
    exact ⟨h e List.mem_cons_self, fun t _ => ih fun f hf => h f (List.mem_cons_of_mem e hf)⟩

/-- **Run induction.** What every step meeting `C` preserves, every run of such steps preserves. -/
theorem run_induction {C : σ → ε → Prop} {I : σ → Prop}
    (hI : ∀ s e t, C s e → I s → step s e = some t → I t) {s t : σ} {es : List ε}
    (hC : AllSteps step C s es) (hs : I s) (h : run step s es = some t) : I t := by
  induction es generalizing s with
  | nil => cases h; exact hs
  | cons e es ih =>
    obtain ⟨u, hu, hr⟩ := run_cons_some step h
    exact ih (hC.2 u hu) (hI s e u hC.1 hs hu) hr

/-- What every step meeting `C` preserves holds throughout every run of such steps. -/
theorem always_of_allSteps {C : σ → ε → Prop} {I J : σ → Prop}
    (hI : ∀ s e t, C s e → I s → step s e = some t → I t) (hJ : ∀ s, I s → J s) {s : σ}
    {es : List ε} (hC : AllSteps step C s es) (hs : I s) : Always step J s es := by
  induction es generalizing s with
  | nil => exact hJ s hs
  | cons e es ih => exact ⟨hJ s hs, fun t ht => ih (hC.2 t ht) (hI s e t hC.1 hs ht)⟩

/-- Where steps that meet `C` preserve `I`, and one from a state of `I` meets `D`, a run of such steps
meets `D` throughout. -/
theorem AllSteps.of_invariant {C D : σ → ε → Prop} {I : σ → Prop}
    (hI : ∀ s e t, C s e → I s → step s e = some t → I t) (hD : ∀ s e, C s e → I s → D s e) {s : σ}
    {es : List ε} (hC : AllSteps step C s es) (hs : I s) : AllSteps step D s es := by
  induction es generalizing s with
  | nil => trivial
  | cons e es ih => exact ⟨hD s e hC.1 hs, fun t ht => ih (hC.2 t ht) (hI s e t hC.1 hs ht)⟩

theorem Always.last {I : σ → Prop} {s t : σ} {es : List ε} (h : Always step I s es)
    (hrun : run step s es = some t) : I t := by
  induction es generalizing s with
  | nil => cases hrun; exact h
  | cons e es ih =>
    obtain ⟨u, hu, hr⟩ := run_cons_some step hrun
    exact ih (h.2 u hu) hr

theorem run_invariant {I : σ → Prop} (hI : ∀ s e t, I s → step s e = some t → I t) {s t : σ}
    {es : List ε} (hs : I s) (h : run step s es = some t) : I t :=
  run_induction (C := fun _ _ => True) (fun s e t _ => hI s e t)
    (allSteps_of_forall (fun _ _ => trivial) s es) hs h

/-- Where a step keeps `I` and meets `K` exactly when it meets `C`, the runs that keep `I` throughout
and whose steps all meet `K` are those whose steps all meet `C`. -/
theorem always_and_allSteps_iff {C K : σ → ε → Prop} {I : σ → Prop}
    (hI : ∀ s e t, I s → step s e = some t → (I t ∧ K s e ↔ C s e)) {s t : σ} {es : List ε}
    (hs : I s) (h : run step s es = some t) :
    Always step I s es ∧ AllSteps step K s es ↔ AllSteps step C s es := by
  induction es generalizing s with
  | nil => exact iff_of_true ⟨hs, trivial⟩ trivial
  | cons e es ih =>
    obtain ⟨u, hu, hr⟩ := run_cons_some step h
    have hstep := hI s e u hs hu
    constructor
    · rintro ⟨hA, hK⟩
      have hIu : I u := by
        have hAu := hA.2 u hu
        cases es with
        | nil => exact hAu
        | cons f fs => exact hAu.1
      refine ⟨hstep.mp ⟨hIu, hK.1⟩, fun v hv => ?_⟩
      cases hu.symm.trans hv
      exact (ih hIu hr).mp ⟨hA.2 u hu, hK.2 u hu⟩
    · intro hC
      obtain ⟨hIu, hKu⟩ := hstep.mpr hC.1
      obtain ⟨hA, hK⟩ := (ih hIu hr).mpr (hC.2 u hu)
      refine ⟨⟨hs, fun v hv => ?_⟩, hKu, fun v hv => ?_⟩
      · cases hu.symm.trans hv
        exact hA
      · cases hu.symm.trans hv
        exact hK

/-- Where a step keeps `I` exactly when it meets `C`, the runs that keep `I` throughout are those all
of whose steps meet `C`. -/
theorem always_iff_allSteps {C : σ → ε → Prop} {I : σ → Prop}
    (hI : ∀ s e t, I s → step s e = some t → (I t ↔ C s e)) {s t : σ} {es : List ε} (hs : I s)
    (h : run step s es = some t) : Always step I s es ↔ AllSteps step C s es := by
  have hK : ∀ s e t, I s → step s e = some t → (I t ∧ True ↔ C s e) := by
    intro s e t hs hst
    rw [and_true, hI s e t hs hst]
  rw [← always_and_allSteps_iff (K := fun _ _ => True) hK hs h]
  exact (and_iff_left (allSteps_of_forall (fun _ _ => trivial) s es)).symm

/-- What every step preserves holds throughout, whatever else is asked of the states. -/
theorem always_and_iff {I J : σ → Prop} (hJ : ∀ s e t, J s → step s e = some t → J t) {s : σ}
    {es : List ε} (hs : J s) : Always step (fun s => J s ∧ I s) s es ↔ Always step I s es := by
  induction es generalizing s with
  | nil => exact and_iff_right hs
  | cons e es ih =>
    refine and_congr (and_iff_right hs) (forall_congr' fun t => forall_congr' fun ht => ?_)
    exact ih (hJ s e t hs ht)

theorem always_iff_allSteps_of_invariant {C : σ → ε → Prop} {I J : σ → Prop}
    (hJ : ∀ s e t, J s → step s e = some t → J t)
    (hI : ∀ s e t, J s → I s → step s e = some t → (I t ↔ C s e)) {s t : σ} {es : List ε} (hs : J s)
    (hs' : I s) (h : run step s es = some t) : Always step I s es ↔ AllSteps step C s es := by
  rw [← always_and_iff hJ hs]
  refine always_iff_allSteps (fun s e t hs hst => ?_) ⟨hs, hs'⟩ h
  rw [and_iff_right (hJ s e t hs.1 hst), hI s e t hs.1 hs.2 hst]

/-- **History induction.** A relation of the events so far to the state, which every step of an
event that meets `P` carries over to the longer history, holds after every run of such events. -/
theorem run_history {P : ε → Prop} {I : List ε → σ → Prop} {s₀ : σ} (h₀ : I [] s₀)
    (hI : ∀ es s e t, P e → I es s → step s e = some t → I (es ++ [e]) t) {t : σ} {es : List ε}
    (hP : ∀ e ∈ es, P e) (h : run step s₀ es = some t) : I es t := by
  induction es using List.reverseRecOn generalizing t with
  | nil => cases h; exact h₀
  | append_singleton es e ih =>
    rw [run_snoc] at h
    obtain ⟨s, hs, hst⟩ := Option.bind_eq_some_iff.mp h
    have hes : ∀ f ∈ es, P f := fun f hf => hP f (List.mem_append_left _ hf)
    exact hI es s e t (hP e (by simp)) (ih hes hs) hst

theorem run_history_of_allSteps {C : σ → ε → Prop} {I : List ε → σ → Prop} {s₀ : σ} (h₀ : I [] s₀)
    (hI : ∀ es s e t, C s e → I es s → step s e = some t → I (es ++ [e]) t) {t : σ} {es : List ε}
    (hC : AllSteps step C s₀ es) (h : run step s₀ es = some t) : I es t := by
  suffices hall : ∀ before s, I before s → AllSteps step C s es → run step s es = some t →
      I (before ++ es) t from hall [] s₀ h₀ hC h
  clear h₀ hC h
  induction es with
  | nil =>
    intro before s hs _ h
    cases h
    rwa [List.append_nil]
  | cons e es ih =>
    intro before s hs hC h
    obtain ⟨u, hu, hr⟩ := run_cons_some step h
    have hend := ih (before ++ [e]) u (hI before s e u hC.1 hs hu) (hC.2 u hu) hr
    rwa [List.append_assoc] at hend

/-! ## Many of one kind -/

section Each

variable {ι : Type*} [DecidableEq ι]

/-- A machine for each index, of which an event steps one. -/
def each (step : σ → ε → Option σ) (s : ι → σ) (e : ι × ε) : Option (ι → σ) :=
  (step (s e.1) e.2).map (Function.update s e.1)

theorem each_invariant {C : σ → ε → Prop} {I : σ → Prop}
    (hI : ∀ s e t, C s e → I s → step s e = some t → I t) {s t : ι → σ} {e : ι × ε}
    (hC : C (s e.1) e.2) (hs : ∀ i, I (s i)) (h : each step s e = some t) (i : ι) : I (t i) := by
  obtain ⟨u, hu, rfl⟩ := Option.map_eq_some_iff.mp h
  rcases eq_or_ne i e.1 with rfl | hi
  · rw [Function.update_self]
    exact hI _ _ _ hC (hs _) hu
  · rw [Function.update_of_ne hi]
    exact hs i

end Each

/-! ## What lasts -/

/-- One event of the history has brought something about, and none after it has undone it. -/
def Lasting (adds removes : ε → Prop) (es : List ε) : Prop :=
  ∃ pre e post, es = pre ++ e :: post ∧ adds e ∧ ∀ f ∈ post, ¬ removes f

theorem lasting_concat {adds removes : ε → Prop} {es : List ε} {e : ε} :
    Lasting adds removes (es ++ [e]) ↔ adds e ∨ Lasting adds removes es ∧ ¬ removes e := by
  constructor
  · rintro ⟨pre, f, post, heq, hadds, hpost⟩
    rcases List.eq_nil_or_concat post with rfl | ⟨post, g, rfl⟩
    · obtain ⟨-, he⟩ := List.append_inj' heq rfl
      cases he
      exact Or.inl hadds
    · rw [List.concat_eq_append, ← List.cons_append, ← List.append_assoc] at heq
      obtain ⟨rfl, he⟩ := List.append_inj' heq rfl
      cases he
      refine Or.inr ⟨⟨pre, f, post, rfl, hadds, fun g hg => hpost g ?_⟩, hpost e ?_⟩ <;> simp [*]
  · rintro (hadds | ⟨⟨pre, f, post, rfl, hadds, hpost⟩, hnot⟩)
    · exact ⟨es, e, [], rfl, hadds, fun f hf => absurd hf List.not_mem_nil⟩
    · refine ⟨pre, f, post ++ [e], by simp, hadds, fun g hg => ?_⟩
      rcases List.mem_append.mp hg with hg | hg
      · exact hpost g hg
      · cases List.mem_singleton.mp hg
        exact hnot

/-- What every step adds, removes or leaves as it was holds after a run where an addition lasts. -/
theorem run_lasting {adds removes : ε → Prop} {I : σ → Prop} {s₀ : σ} (h₀ : ¬ I s₀)
    (hI : ∀ s e t, step s e = some t → (I t ↔ adds e ∨ I s ∧ ¬ removes e)) {t : σ} {es : List ε}
    (h : run step s₀ es = some t) : I t ↔ Lasting adds removes es := by
  refine run_history (P := fun _ => True) (I := fun es s => I s ↔ Lasting adds removes es) ?_ ?_
    (fun _ _ => trivial) h
  · refine iff_of_false h₀ ?_
    rintro ⟨pre, e, post, heq, -⟩
    exact List.append_ne_nil_of_right_ne_nil pre (List.cons_ne_nil _ _) heq.symm
  · intro es s e t _ hes hst
    rw [hI s e t hst, lasting_concat, hes]

/-! ## Measures -/

theorem run_length_le {P : ε → Prop} {I : σ → Prop} {m : σ → ℕ}
    (hI : ∀ s e t, P e → I s → step s e = some t → I t ∧ m t < m s) {s t : σ} {es : List ε}
    (hP : ∀ e ∈ es, P e) (hs : I s) (h : run step s es = some t) : m t + es.length ≤ m s := by
  induction es generalizing s with
  | nil => cases h; simp
  | cons e es ih =>
    obtain ⟨u, hu, hr⟩ := run_cons_some step h
    obtain ⟨hIu, hlt⟩ := hI s e u (hP e List.mem_cons_self) hs hu
    have := ih (fun f hf => hP f (List.mem_cons_of_mem e hf)) hIu hr
    rw [List.length_cons]
    omega

/-- Where the measure is positive some event lowers it, so some run brings it to zero. -/
theorem exists_run_to_zero {P : ε → Prop} {I : σ → Prop} {m : σ → ℕ}
    (hstep : ∀ s, I s → 0 < m s → ∃ e t, P e ∧ step s e = some t ∧ I t ∧ m t < m s) {s : σ}
    (hs : I s) : ∃ es t, (∀ e ∈ es, P e) ∧ run step s es = some t ∧ I t ∧ m t = 0 := by
  induction hn : m s using Nat.strongRecOn generalizing s with
  | ind n ih =>
    rcases Nat.eq_zero_or_pos (m s) with h0 | hpos
    · exact ⟨[], s, by simp, rfl, hs, h0⟩
    · obtain ⟨e, t, hPe, ht, hIt, hlt⟩ := hstep s hs hpos
      obtain ⟨es, u, hPs, hu, hIu, h0⟩ := ih (m t) (by omega) hIt rfl
      refine ⟨e :: es, u, ?_, ?_, hIu, h0⟩
      · intro f hf
        rcases List.mem_cons.mp hf with rfl | hf
        · exact hPe
        · exact hPs f hf
      · rw [run_cons, ht]
        exact hu

end Machine
