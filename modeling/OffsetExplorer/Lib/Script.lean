import OffsetExplorer.Lib.Machine
import Mathlib.Algebra.Ring.Nat

/-!
# Scripts over a shared state

A system runs calls concurrently. A call is a script, a list of operations that each act on the
shared state at once, in one critical section or one answer from outside; between two operations of
one call the operations of other calls may run. Performing an operation says what the call does next,
before the rest of its script.

* `System`, `World`, `step`: the machine that starts calls and performs their operations in any order.
* `World.pending`, `pending_act`: how many operations of a kind are yet to do.
* `Confined`, `run_confined`: what the operations keep of the shared state, and what operations a call
  can come to, in every run; `run_preceded`: what a call must have done before.
* `exec`, `serialStep`: a call run alone from its start to its end, and calls run one after another.
* `run_serialEvents`: such a run is one of the runs of the machine.
-/

namespace Script

/-- The calls of a system and its operations: `script` is what a call starts with, and `perform` what
an operation with an input does to the shared state, and what its call does next. -/
structure System (σ κ ι υ : Type*) where
  script : κ → List ι
  perform : σ → ι → υ → Option (σ × List ι)

/-- A call and what it has yet to do. -/
structure Task (κ ι : Type*) where
  label : κ
  script : List ι

/-- The shared state and every call so far, in the order in which they were started. -/
structure World (σ κ ι : Type*) where
  shared : σ
  tasks : List (Task κ ι)

/-- A call starts, or call `t` performs its next operation. -/
inductive Event (κ ι υ : Type*) where
  | invoke (label : κ)
  | act (t : ℕ) (op : ι) (input : υ)
  deriving DecidableEq

variable {σ κ ι υ : Type*}

/-- A state in which no call was started. -/
def World.start (s : σ) : World σ κ ι := ⟨s, []⟩

/-- What call `t` has yet to do. -/
def World.script (w : World σ κ ι) (t : ℕ) : List ι := ((w.tasks[t]?).map Task.script).getD []

variable [DecidableEq ι] (S : System σ κ ι υ)

/-- A task is added, or one of them runs the first operation of its script. -/
def step (w : World σ κ ι) : Event κ ι υ → Option (World σ κ ι)
  | .invoke label => some { w with tasks := w.tasks ++ [⟨label, S.script label⟩] }
  | .act t op input =>
    match w.tasks[t]? with
    | some ⟨label, o :: rest⟩ =>
      if o = op then
        (S.perform w.shared op input).map fun (shared, next) =>
          ⟨shared, w.tasks.set t ⟨label, next ++ rest⟩⟩
      else none
    | _ => none

/-- A script run alone, with the operations it performs and their inputs. -/
def exec : σ → List ι → List (ι × υ) → Option σ
  | s, [], [] => some s
  | s, op :: rest, (o, input) :: trace =>
    if op = o then (S.perform s op input).bind fun (t, next) => exec t (next ++ rest) trace else none
  | _, _, _ => none

/-- A call run from its start to its end. -/
def serialStep (s : σ) : κ × List (ι × υ) → Option σ
  | (label, trace) => exec S s (S.script label) trace

variable {S}

/-! ## Steps -/

theorem step_act {w w' : World σ κ ι} {t : ℕ} {op : ι} {input : υ} :
    step S w (.act t op input) = some w' ↔
      ∃ label rest shared next, w.tasks[t]? = some ⟨label, op :: rest⟩ ∧
        S.perform w.shared op input = some (shared, next) ∧
        w' = ⟨shared, w.tasks.set t ⟨label, next ++ rest⟩⟩ := by
  rw [step]
  split
  · rename_i label o rest ht
    rw [Option.ite_none_right_eq_some, Option.map_eq_some_iff]
    constructor
    · rintro ⟨rfl, ⟨shared, next⟩, hp, rfl⟩
      exact ⟨label, rest, shared, next, ht, hp, rfl⟩
    · rintro ⟨label', rest', shared, next, ht', hp, rfl⟩
      rw [ht] at ht'
      cases ht'
      exact ⟨rfl, (shared, next), hp, rfl⟩
  · rename_i hno
    refine ⟨fun h => (by cases h), ?_⟩
    rintro ⟨label, rest, shared, next, ht, -⟩
    exact absurd ht (hno label op rest)

omit [DecidableEq ι] in
theorem tasks_lt {w : World σ κ ι} {t : ℕ} {task : Task κ ι} (h : w.tasks[t]? = some task) :
    t < w.tasks.length :=
  (List.getElem?_eq_some_iff.mp h).1

omit [DecidableEq ι] in
theorem getElem?_tasks_set {tasks : List (Task κ ι)} {t u : ℕ} {task : Task κ ι}
    (ht : t < tasks.length) :
    (tasks.set t task)[u]? = if u = t then some task else tasks[u]? := by
  rw [List.getElem?_set]
  by_cases h : t = u
  · rw [if_pos h, if_pos (h ▸ ht), if_pos h.symm]
  · rw [if_neg h, if_neg (Ne.symm h)]

theorem step_act_script {w w' : World σ κ ι} {t : ℕ} {op : ι} {input : υ}
    (h : step S w (.act t op input) = some w') :
    ∃ rest next, w.script t = op :: rest ∧
      S.perform w.shared op input = some (w'.shared, next) ∧ w'.script t = next ++ rest ∧
        ∀ u ≠ t, w'.script u = w.script u := by
  obtain ⟨label, rest, shared, next, ht, hp, rfl⟩ := step_act.mp h
  refine ⟨rest, next, by rw [World.script, ht]; rfl, hp, ?_, ?_⟩
  · rw [World.script, getElem?_tasks_set (tasks_lt ht), if_pos rfl]
    rfl
  · intro u hu
    rw [World.script, getElem?_tasks_set (tasks_lt ht), if_neg hu, World.script]

theorem step_invoke_script {w w' : World σ κ ι} {label : κ}
    (h : step S w (.invoke label) = some w') :
    w'.shared = w.shared ∧ w'.script w.tasks.length = S.script label ∧
      ∀ u ≠ w.tasks.length, w'.script u = w.script u := by
  cases h
  refine ⟨rfl, ?_, ?_⟩
  · rw [World.script, List.getElem?_concat_length]
    rfl
  · intro u hu
    rw [World.script, World.script]
    rcases Nat.lt_or_gt_of_ne hu with hlt | hgt
    · rw [List.getElem?_append_left hlt]
    · have hlen : (w.tasks ++ [Task.mk label (S.script label)]).length ≤ u := by
        rw [List.length_append, List.length_singleton]
        omega
      rw [List.getElem?_eq_none hlen, List.getElem?_eq_none (Nat.le_of_lt hgt)]

omit [DecidableEq ι] in
theorem task_of_mem_script {w : World σ κ ι} {t : ℕ} {op : ι} (h : op ∈ w.script t) :
    ∃ task, w.tasks[t]? = some task ∧ op ∈ task.script := by
  unfold World.script at h
  cases ht : w.tasks[t]? with
  | none => rw [ht] at h; cases h
  | some task =>
    rw [ht] at h
    exact ⟨task, rfl, h⟩

omit [DecidableEq ι] in
theorem mem_script {w : World σ κ ι} {t : ℕ} {op : ι} (h : op ∈ w.script t) :
    ∃ task ∈ w.tasks, op ∈ task.script := by
  obtain ⟨task, ht, hop⟩ := task_of_mem_script h
  exact ⟨task, List.mem_of_getElem? ht, hop⟩

omit [DecidableEq ι] in
theorem lt_of_mem_script {w : World σ κ ι} {t : ℕ} {op : ι} (h : op ∈ w.script t) :
    t < w.tasks.length := by
  by_contra hlt
  rw [World.script, List.getElem?_eq_none (Nat.not_lt.mp hlt)] at h
  cases h

/-- What a call has to do, it has still to do after any step but this operation of it. -/
theorem mem_script_of_step {w w' : World σ κ ι} {e : Event κ ι υ} {t : ℕ} {op : ι}
    (hstep : step S w e = some w') (hop : op ∈ w.script t) :
    op ∈ w'.script t ∨ ∃ input, e = .act t op input := by
  cases e with
  | invoke label =>
    rw [(step_invoke_script hstep).2.2 t (Nat.ne_of_lt (lt_of_mem_script hop))]
    exact Or.inl hop
  | act u o input =>
    obtain ⟨rest, next, hscript, -, hnew, hother⟩ := step_act_script hstep
    by_cases ht : t = u
    · subst ht
      rw [hscript] at hop
      rcases List.mem_cons.mp hop with rfl | hop
      · exact Or.inr ⟨input, rfl⟩
      · exact Or.inl (hnew ▸ List.mem_append_right next hop)
    · exact Or.inl (hother t ht ▸ hop)

/-! ## What is yet to do -/

/-- How many operations of this kind the calls have yet to do. -/
def World.pending (p : ι → Bool) (w : World σ κ ι) : ℕ := (w.tasks.map fun task => task.script.countP p).sum

section Pending

variable {p : ι → Bool} {w w' : World σ κ ι}

theorem pending_invoke {label : κ} (h : step S w (.invoke label) = some w') :
    w'.pending p = w.pending p + (S.script label).countP p := by
  cases h
  rw [World.pending, World.pending, List.map_append, List.sum_append]
  rfl

omit [DecidableEq ι] in
theorem sum_map_set {tasks : List (Task κ ι)} {t : ℕ} {task : Task κ ι} (ht : tasks[t]? = some task)
    (new : Task κ ι) (f : Task κ ι → ℕ) : ((tasks.set t new).map f).sum + f task = (tasks.map f).sum + f new := by
  induction tasks generalizing t with
  | nil => cases ht
  | cons first tasks ih =>
    cases t with
    | zero =>
      cases ht
      simp only [List.set_cons_zero, List.map_cons, List.sum_cons]
      omega
    | succ t =>
      have hrest := ih (show tasks[t]? = some task from ht)
      simp only [List.set_cons_succ, List.map_cons, List.sum_cons]
      omega

/-- An operation that is performed is not pending any more, and those that it leads to are. -/
theorem pending_act {t : ℕ} {op : ι} {input : υ} (h : step S w (.act t op input) = some w') :
    ∃ next, S.perform w.shared op input = some (w'.shared, next) ∧
      w'.pending p + (if p op then 1 else 0) = w.pending p + next.countP p := by
  obtain ⟨label, rest, shared, next, ht, hp, rfl⟩ := step_act.mp h
  refine ⟨next, hp, ?_⟩
  have hset := sum_map_set ht ⟨label, next ++ rest⟩ fun task => task.script.countP p
  rw [List.countP_cons, List.countP_append] at hset
  simp only [World.pending]
  omega

omit [DecidableEq ι] in
theorem pending_mono {q : ι → Bool} (h : ∀ op, p op = true → q op = true) : w.pending p ≤ w.pending q := by
  unfold World.pending
  induction w.tasks with
  | nil => exact Nat.le_refl _
  | cons task tasks ih =>
    rw [List.map_cons, List.map_cons, List.sum_cons, List.sum_cons]
    exact Nat.add_le_add (List.countP_mono_left fun op _ => h op) ih

end Pending

/-! ## What every run keeps -/

/-- The shared state satisfies `Q`, and each call has only operations that `P` allows it. -/
structure Confined (Q : σ → Prop) (P : ℕ → κ → ι → Prop) (w : World σ κ ι) : Prop where
  shared : Q w.shared
  pending : ∀ t task, w.tasks[t]? = some task → ∀ op ∈ task.script, P t task.label op

variable {Q : σ → Prop} {P : ℕ → κ → ι → Prop}

theorem Confined.invoke {w w' : World σ κ ι} {label : κ} (h : Confined Q P w)
    (hP : ∀ op ∈ S.script label, P w.tasks.length label op)
    (hs : step S w (.invoke label) = some w') : Confined Q P w' := by
  cases hs
  refine ⟨h.shared, ?_⟩
  intro t task ht
  rcases Nat.lt_or_ge t w.tasks.length with hlt | hge
  · rw [List.getElem?_append_left hlt] at ht
    exact h.pending t task ht
  · rw [List.getElem?_append_right hge, List.getElem?_singleton] at ht
    split_ifs at ht with h0
    cases ht
    rw [show t = w.tasks.length by omega]
    exact hP

theorem Confined.act {w w' : World σ κ ι} {t : ℕ} {op : ι} {input : υ} (h : Confined Q P w)
    (hP : ∀ label s next, P t label op → S.perform w.shared op input = some (s, next) →
      Q s ∧ ∀ f ∈ next, P t label f)
    (hs : step S w (.act t op input) = some w') :
    Confined Q P w' ∧ ∃ label, P t label op := by
  obtain ⟨label, rest, shared, next, ht, hp, rfl⟩ := step_act.mp hs
  have hop := h.pending t _ ht
  obtain ⟨hQ, hnext⟩ := hP label shared next (hop op List.mem_cons_self) hp
  refine ⟨⟨hQ, ?_⟩, label, hop op List.mem_cons_self⟩
  intro u task hu f hf
  rw [getElem?_tasks_set (tasks_lt ht)] at hu
  split_ifs at hu with hut
  · cases hu
    rw [hut]
    rcases List.mem_append.mp hf with hf | hf
    · exact hnext f hf
    · exact hop f (List.mem_cons_of_mem op hf)
  · exact h.pending u task hu f hf

/-- **Confinement.** Where the calls that start have allowed operations only, and an allowed operation
keeps `Q` and goes on to allowed ones, every run keeps `Q` and performs allowed operations only. -/
theorem run_confined {C : World σ κ ι → Event κ ι υ → Prop}
    (hinvoke : ∀ w label, C w (.invoke label) → ∀ op ∈ S.script label, P w.tasks.length label op)
    (hact : ∀ w t label op input s next, C w (.act t op input) → Q w.shared → P t label op →
      S.perform w.shared op input = some (s, next) → Q s ∧ ∀ f ∈ next, P t label f)
    {w w' : World σ κ ι} {es : List (Event κ ι υ)} (hC : Machine.AllSteps (step S) C w es)
    (h : Confined Q P w) (hrun : Machine.run (step S) w es = some w') :
    Confined Q P w' ∧ ∀ t op input, Event.act t op input ∈ es → ∃ label, P t label op := by
  induction es generalizing w with
  | nil =>
    cases hrun
    exact ⟨h, fun t op input hmem => absurd hmem List.not_mem_nil⟩
  | cons e es ih =>
    obtain ⟨u, hu, hr⟩ := Machine.run_cons_some _ hrun
    cases e with
    | invoke label =>
      obtain ⟨hw', hes⟩ := ih (hC.2 u hu) (h.invoke (hinvoke w label hC.1) hu) hr
      refine ⟨hw', fun t op input hmem => ?_⟩
      rcases List.mem_cons.mp hmem with heq | hmem
      · cases heq
      · exact hes t op input hmem
    | act t op input =>
      obtain ⟨hcu, hop⟩ := h.act (fun label s next hp hs =>
        hact w t label op input s next hC.1 h.shared hp hs) hu
      obtain ⟨hw', hes⟩ := ih (hC.2 u hu) hcu hr
      refine ⟨hw', fun t' op' input' hmem => ?_⟩
      rcases List.mem_cons.mp hmem with heq | hmem
      · cases heq
        exact hop
      · exact hes t' op' input' hmem

/-- **Precedence.** Where no call starts with an operation of `L`, and only one of `K` or of `L` leads to
one of `L`, a call that has one of `L` to do has performed one of `K`. -/
theorem run_preceded {K L : ι → Prop} (hinvoke : ∀ label, ∀ op ∈ S.script label, ¬ L op)
    (hact : ∀ s op input t next, S.perform s op input = some (t, next) →
      ∀ f ∈ next, L f → K op ∨ L op)
    {s : σ} {w : World σ κ ι} {es : List (Event κ ι υ)}
    (hrun : Machine.run (step S) (.start s) es = some w) :
    ∀ t, ∀ op ∈ w.script t, L op → ∃ f input, K f ∧ .act t f input ∈ es := by
  refine Machine.run_history (P := fun _ => True)
    (I := fun es w => ∀ t, ∀ op ∈ w.script t, L op → ∃ f input, K f ∧ .act t f input ∈ es)
    ?_ ?_ (fun _ _ => trivial) hrun
  · intro t op hop
    cases hop
  · intro es w e w' _ ih hstep t op hop hL
    have earlier : op ∈ w.script t → ∃ f input, K f ∧ .act t f input ∈ es ++ [e] := by
      intro hop
      obtain ⟨f, input, hK, hmem⟩ := ih t op hop hL
      exact ⟨f, input, hK, List.mem_append_left _ hmem⟩
    cases e with
    | invoke label =>
      obtain ⟨-, hnew, hother⟩ := step_invoke_script hstep
      by_cases ht : t = w.tasks.length
      · rw [ht, hnew] at hop
        exact absurd hL (hinvoke label op hop)
      · rw [hother t ht] at hop
        exact earlier hop
    | act u o input =>
      obtain ⟨rest, next, hscript, hp, hnew, hother⟩ := step_act_script hstep
      by_cases ht : t = u
      · subst ht
        rw [hnew] at hop
        rcases List.mem_append.mp hop with hop | hop
        · rcases hact _ _ _ _ _ hp op hop hL with hK | hL'
          · exact ⟨o, input, hK, List.mem_append_right _ (List.mem_singleton_self _)⟩
          · obtain ⟨f, i, hK, hmem⟩ := ih t o (hscript ▸ List.mem_cons_self) hL'
            exact ⟨f, i, hK, List.mem_append_left _ hmem⟩
        · exact earlier (hscript ▸ List.mem_cons_of_mem o hop)
      · rw [hother t ht] at hop
        exact earlier hop

/-- The calls that are started in a list of events. -/
def labels (es : List (Event κ ι υ)) : List κ :=
  es.filterMap fun
    | .invoke label => some label
    | .act _ _ _ => none

omit [DecidableEq ι] in
theorem labels_append {es fs : List (Event κ ι υ)} : labels (es ++ fs) = labels es ++ labels fs :=
  List.filterMap_append

theorem labels_of_step {w w' : World σ κ ι} {e : Event κ ι υ} (hstep : step S w e = some w') :
    w'.tasks.map Task.label = w.tasks.map Task.label ++ labels [e] := by
  cases e with
  | invoke label =>
    cases hstep
    rw [List.map_append]
    rfl
  | act t op input =>
    obtain ⟨label, rest, shared, next, ht, -, rfl⟩ := step_act.mp hstep
    show (w.tasks.set t ⟨label, next ++ rest⟩).map Task.label = w.tasks.map Task.label ++ []
    rw [List.map_set, List.append_nil]
    refine List.ext_getElem? fun i => ?_
    rw [List.getElem?_set]
    split_ifs with hi hlt
    · rw [← hi, List.getElem?_map, ht]
      rfl
    · rw [← hi, List.getElem?_eq_none (Nat.not_lt.mp hlt)]
    · rfl

theorem labels_of_run {s : σ} {w : World σ κ ι} {es : List (Event κ ι υ)}
    (hrun : Machine.run (step S) (.start s) es = some w) : w.tasks.map Task.label = labels es := by
  refine Machine.run_history (P := fun _ => True) (I := fun es w => w.tasks.map Task.label = labels es)
    rfl (fun es w e w' _ ih hstep => ?_) (fun _ _ => trivial) hrun
  rw [labels_of_step hstep, ih, labels_append]

theorem label_of_run {s : σ} {w : World σ κ ι} {es : List (Event κ ι υ)} {t : ℕ} {task : Task κ ι}
    (hrun : Machine.run (step S) (.start s) es = some w) (ht : w.tasks[t]? = some task) :
    (labels es)[t]? = some task.label := by
  rw [← labels_of_run hrun, List.getElem?_map, ht]
  rfl

omit [DecidableEq ι] in
theorem label_append {es fs : List (Event κ ι υ)} {t : ℕ} {label : κ}
    (h : (labels es)[t]? = some label) : (labels (es ++ fs))[t]? = some label := by
  rw [labels_append, List.getElem?_append_left (List.getElem?_eq_some_iff.mp h).1]
  exact h

omit [DecidableEq ι] in
theorem labels_act (es : List (Event κ ι υ)) (t : ℕ) (op : ι) (input : υ) :
    labels (es ++ [.act t op input]) = labels es := by
  rw [labels_append]
  exact List.append_nil _

omit [DecidableEq ι] in
theorem label_of_invoke {es : List (Event κ ι υ)} {t : ℕ} {label new : κ}
    (h : (labels (es ++ [.invoke new]))[t]? = some label) :
    (labels es)[t]? = some label ∨ t = (labels es).length ∧ new = label := by
  have hnew : labels [(.invoke new : Event κ ι υ)] = [new] := rfl
  rw [labels_append, hnew, List.getElem?_append] at h
  split_ifs at h with hlt
  · exact .inl h
  · obtain ⟨hlast, heq⟩ := List.getElem?_eq_some_iff.mp h
    rw [List.length_singleton] at hlast
    rw [List.getElem_singleton] at heq
    exact .inr ⟨by omega, heq⟩

theorem exists_of_mem {s : σ} {w : World σ κ ι} {es : List (Event κ ι υ)} {t : ℕ} {op : ι} {input : υ}
    (hrun : Machine.run (step S) (.start s) es = some w) (hmem : .act t op input ∈ es) :
    ∃ pre post v, es = pre ++ .act t op input :: post ∧
      Machine.run (step S) (.start s) pre = some v ∧ op ∈ v.script t := by
  obtain ⟨pre, post, rfl⟩ := List.append_of_mem hmem
  rw [Machine.run_append] at hrun
  obtain ⟨v, hv, hrun⟩ := Option.bind_eq_some_iff.mp hrun
  obtain ⟨v', hstep, -⟩ := Machine.run_cons_some _ hrun
  obtain ⟨rest, next, hscript, -⟩ := step_act_script hstep
  exact ⟨pre, post, v, rfl, hv, hscript ▸ List.mem_cons_self⟩

/-- Whether an event is an operation of `K` by call `t`. -/
def performs (K : ι → Bool) (t : ℕ) : Event κ ι υ → Bool
  | .invoke _ => false
  | .act u op _ => u = t && K op

/-- **Once.** Where a call starts with at most one operation of `K`, and none leads to one, it has at most
one of them to do or done. -/
theorem run_once {K : ι → Bool} (hinvoke : ∀ label, (S.script label).countP K ≤ 1)
    (hact : ∀ s op input t next, S.perform s op input = some (t, next) → ∀ f ∈ next, K f = false)
    {s : σ} {w : World σ κ ι} {es : List (Event κ ι υ)}
    (hrun : Machine.run (step S) (.start s) es = some w) :
    ∀ t, (w.tasks.length ≤ t → es.countP (performs K t) = 0) ∧
      (w.script t).countP K + es.countP (performs K t) ≤ 1 := by
  refine Machine.run_history (P := fun _ => True)
    (I := fun es w => ∀ t, (w.tasks.length ≤ t → es.countP (performs K t) = 0) ∧
      (w.script t).countP K + es.countP (performs K t) ≤ 1) ?_ ?_ (fun _ _ => trivial) hrun
  · exact fun t => ⟨fun _ => rfl, Nat.zero_le _⟩
  · intro es w e w' _ ih hstep t
    rw [List.countP_append, List.countP_singleton]
    cases e with
    | invoke label =>
      obtain ⟨-, hnew, hother⟩ := step_invoke_script hstep
      have hlen : w'.tasks.length = w.tasks.length + 1 := by
        cases hstep
        exact List.length_append
      refine ⟨fun hle => (ih t).1 (by omega), ?_⟩
      by_cases ht : t = w.tasks.length
      · rw [ht, hnew, (ih _).1 (Nat.le_refl _)]
        exact hinvoke label
      · rw [hother t ht]
        exact (ih t).2
    | act u op input =>
      obtain ⟨rest, next, hscript, hp, hnew, hother⟩ := step_act_script hstep
      have hu : u < w.tasks.length := lt_of_mem_script (hscript ▸ List.mem_cons_self)
      have hlen : w'.tasks.length = w.tasks.length := by
        obtain ⟨label, r, sh, n, -, -, rfl⟩ := step_act.mp hstep
        exact List.length_set
      have hnone : next.countP K = 0 :=
        List.countP_eq_zero.mpr fun f hf => by rw [hact _ _ _ _ _ hp f hf]; exact Bool.false_ne_true
      by_cases ht : t = u
      · subst ht
        have hcount := (ih t).2
        rw [hscript, List.countP_cons] at hcount
        refine ⟨fun hle => by omega, ?_⟩
        rw [hnew, List.countP_append, hnone]
        simp only [performs, decide_true, Bool.true_and]
        omega
      · have hne : performs K t (.act u op input : Event κ ι υ) = false := by
          simp [performs, Ne.symm ht]
        rw [hne, hother t ht]
        exact ⟨fun hle => (ih t).1 (by omega), (ih t).2⟩

/-! ## One call after another -/

theorem exec_cons {s t : σ} {op o : ι} {rest : List ι} {input : υ} {trace : List (ι × υ)} :
    exec S s (op :: rest) ((o, input) :: trace) = some t ↔
      op = o ∧ ∃ u next, S.perform s op input = some (u, next) ∧
        exec S u (next ++ rest) trace = some t := by
  rw [exec, Option.ite_none_right_eq_some, Option.bind_eq_some_iff]
  constructor
  · rintro ⟨h, ⟨u, next⟩, hp, he⟩
    exact ⟨h, u, next, hp, he⟩
  · rintro ⟨h, u, next, hp, he⟩
    exact ⟨h, (u, next), hp, he⟩

/-- **Execution induction.** A relation of an account of the trace, the state and what is left to do,
which every operation carries over, holds at the end. -/
theorem exec_induction {α : Type*} {I : α → σ → List ι → Prop} {f : α → ι × υ → α}
    (hI : ∀ a s op rest input t next, I a s (op :: rest) → S.perform s op input = some (t, next) →
      I (f a (op, input)) t (next ++ rest)) {a : α} {s t : σ} {script : List ι}
    {trace : List (ι × υ)} (h : I a s script) (he : exec S s script trace = some t) :
    I (trace.foldl f a) t [] := by
  induction trace generalizing a s script with
  | nil =>
    cases script with
    | nil => cases he; exact h
    | cons op rest => cases he
  | cons entry trace ih =>
    cases script with
    | nil => cases he
    | cons op rest =>
      obtain ⟨rfl, u, next, hp, he⟩ := exec_cons.mp he
      exact ih (hI a s _ rest _ u next h hp) he

theorem exec_history {I : List (ι × υ) → σ → List ι → Prop}
    (hI : ∀ trace s op rest input t next, I trace s (op :: rest) →
      S.perform s op input = some (t, next) → I (trace ++ [(op, input)]) t (next ++ rest)) {s t : σ}
    {script : List ι} {trace : List (ι × υ)} (h : I [] s script) (he : exec S s script trace = some t) :
    I trace t [] := by
  have hfold : ∀ after before : List (ι × υ),
      after.foldl (fun before entry => before ++ [entry]) before = before ++ after := by
    intro after
    induction after with
    | nil => exact fun before => (List.append_nil before).symm
    | cons entry after ih => exact fun before => by rw [List.foldl_cons, ih, List.append_assoc]; rfl
  have hend := exec_induction (f := fun before entry => before ++ [entry]) hI h he
  rwa [hfold] at hend

theorem mem_of_exec {s t : σ} {script : List ι} {trace : List (ι × υ)}
    (he : exec S s script trace = some t) : ∀ op ∈ script, ∃ entry ∈ trace, entry.1 = op := by
  induction trace generalizing s script with
  | nil =>
    cases script with
    | nil => exact fun op hop => absurd hop List.not_mem_nil
    | cons op rest => cases he
  | cons entry trace ih =>
    cases script with
    | nil => exact fun op hop => absurd hop List.not_mem_nil
    | cons op rest =>
      obtain ⟨rfl, u, next, hp, he⟩ := exec_cons.mp he
      intro op hop
      rcases List.mem_cons.mp hop with rfl | hop
      · exact ⟨_, List.mem_cons_self, rfl⟩
      · obtain ⟨e, hmem, heq⟩ := ih he op (List.mem_append_right next hop)
        exact ⟨e, List.mem_cons_of_mem _ hmem, heq⟩

/-- Confinement of a call that runs alone, where all that it performs satisfies `X`. -/
theorem exec_confined {P X : ι → Prop}
    (hact : ∀ s op input t next, Q s → P op → (∀ f ∈ next, X f) →
      S.perform s op input = some (t, next) → Q t ∧ ∀ f ∈ next, P f) {s t : σ} {script : List ι}
    {trace : List (ι × υ)} (hX : ∀ entry ∈ trace, X entry.1) (hs : Q s) (hP : ∀ op ∈ script, P op)
    (he : exec S s script trace = some t) : Q t ∧ ∀ entry ∈ trace, P entry.1 := by
  induction trace generalizing s script with
  | nil =>
    cases script with
    | nil => cases he; exact ⟨hs, fun entry hmem => absurd hmem List.not_mem_nil⟩
    | cons op rest => cases he
  | cons entry trace ih =>
    cases script with
    | nil => cases he
    | cons op rest =>
      obtain ⟨rfl, u, next, hp, he⟩ := exec_cons.mp he
      have hXtrace : ∀ e ∈ trace, X e.1 := fun e hmem => hX e (List.mem_cons_of_mem _ hmem)
      have hXnext : ∀ f ∈ next, X f := by
        intro f hf
        obtain ⟨e, hmem, rfl⟩ := mem_of_exec he f (List.mem_append_left rest hf)
        exact hXtrace e hmem
      obtain ⟨hu, hnext⟩ := hact s _ _ u next hs (hP _ List.mem_cons_self) hXnext hp
      have hall : ∀ f ∈ next ++ rest, P f := by
        intro f hf
        rcases List.mem_append.mp hf with hf | hf
        · exact hnext f hf
        · exact hP f (List.mem_cons_of_mem _ hf)
      obtain ⟨ht, htrace⟩ := ih hXtrace hu hall he
      exact ⟨ht, List.forall_mem_cons.mpr ⟨hP _ List.mem_cons_self, htrace⟩⟩

/-- The events of calls that run one after another, when `n` calls were started before them. -/
def serialEvents : ℕ → List (κ × List (ι × υ)) → List (Event κ ι υ)
  | _, [] => []
  | n, (label, trace) :: calls =>
    .invoke label :: trace.map (fun entry => .act n entry.1 entry.2) ++ serialEvents (n + 1) calls

theorem run_exec {s t : σ} {label : κ} {script : List ι} {trace : List (ι × υ)}
    {tasks : List (Task κ ι)} (he : exec S s script trace = some t) :
    Machine.run (step S) ⟨s, tasks ++ [⟨label, script⟩]⟩
      (trace.map fun entry => .act tasks.length entry.1 entry.2) =
        some ⟨t, tasks ++ [⟨label, []⟩]⟩ := by
  induction trace generalizing s script with
  | nil =>
    cases script with
    | nil => cases he; rfl
    | cons op rest => cases he
  | cons entry trace ih =>
    cases script with
    | nil => cases he
    | cons op rest =>
      obtain ⟨rfl, u, next, hp, he⟩ := exec_cons.mp he
      have hstep : step S ⟨s, tasks ++ [⟨label, entry.1 :: rest⟩]⟩
          (.act tasks.length entry.1 entry.2) = some ⟨u, tasks ++ [⟨label, next ++ rest⟩]⟩ := by
        refine step_act.mpr ⟨label, rest, u, next, ?_, hp, ?_⟩
        · rw [List.getElem?_concat_length]
        · rw [List.set_append_right _ _ (Nat.le_refl _), Nat.sub_self, List.set_cons_zero]
      rw [List.map_cons, Machine.run_cons, hstep]
      exact ih he

/-- **A serial run is a run of the machine.** -/
theorem run_serialEvents {s t : σ} {calls : List (κ × List (ι × υ))} {tasks : List (Task κ ι)}
    (h : Machine.run (serialStep S) s calls = some t) :
    Machine.run (step S) ⟨s, tasks⟩ (serialEvents tasks.length calls) =
      some ⟨t, tasks ++ calls.map fun call => ⟨call.1, []⟩⟩ := by
  induction calls generalizing s tasks with
  | nil =>
    cases h
    rw [List.map_nil, List.append_nil]
    rfl
  | cons call calls ih =>
    obtain ⟨label, trace⟩ := call
    obtain ⟨u, hu, hr⟩ := Machine.run_cons_some _ h
    have hrest := @ih u (tasks ++ [⟨label, []⟩]) hr
    rw [List.length_append, List.length_singleton, List.append_assoc] at hrest
    rw [serialEvents, List.cons_append, Machine.run_cons, step, Option.bind_some,
      Machine.run_append, run_exec hu, Option.bind_some]
    exact hrest

end Script
