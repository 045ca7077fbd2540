import Mathlib.Data.Nat.Notation
import Mathlib.Logic.Function.Basic
import Mathlib.Tactic.SplitIfs

/-!
# Pools of what was built from a version

A pool keeps one client for each key, with the version of the settings that it was built from. A client is
handed out for that version only; another version builds another client in its place.

* `Pool`, `getOrBuild`, `release`: the pool and its two operations.
* `Backed B pool`: each client stands in a relation `B` to its key and its version; `Backed.getOrBuild`,
  `Backed.release`: the operations keep it.
* **`getOrBuild_keeps`**: what else may be asked of a pool while a client stays in it.
-/

namespace VersionedPool

variable {κ ν γ ε : Type*}

/-- A client with the version that it was built from. -/
structure Pooled (ν γ : Type*) where
  version : ν
  client : γ

/-- At most one client for each key. -/
abbrev Pool (κ ν γ : Type*) := κ → Option (Pooled ν γ)

variable [DecidableEq κ] [DecidableEq ν]

/-- The client of a key, if it is of this version. -/
def current (pool : Pool κ ν γ) (key : κ) (version : ν) : Option γ :=
  ((pool key).filter fun pooled => pooled.version = version).map Pooled.client

/-- The current client, or the one that is built and put in its place. -/
def getOrBuild (pool : Pool κ ν γ) (key : κ) (version : ν) (build : Except ε γ) :
    Except ε γ × Pool κ ν γ :=
  match current pool key version with
  | some client => (.ok client, pool)
  | none =>
    match build with
    | .ok client => (.ok client, Function.update pool key (some ⟨version, client⟩))
    | .error err => (.error err, pool)

/-- Nothing is pooled for the key any more. -/
def release (pool : Pool κ ν γ) (key : κ) : Pool κ ν γ := Function.update pool key none

/-- Each client stands in `B` to its key and its version. -/
def Backed (B : κ → ν → γ → Prop) (pool : Pool κ ν γ) : Prop :=
  ∀ key pooled, pool key = some pooled → B key pooled.version pooled.client

variable {pool : Pool κ ν γ} {key : κ} {version : ν} {client : γ} {build : Except ε γ}
  {B C : κ → ν → γ → Prop}

omit [DecidableEq κ] in
theorem current_eq_some :
    current pool key version = some client ↔ pool key = some ⟨version, client⟩ := by
  unfold current
  rw [Option.map_eq_some_iff]
  constructor
  · rintro ⟨⟨v, c⟩, h, rfl⟩
    obtain ⟨hget, hversion⟩ := Option.filter_eq_some_iff.mp h
    rw [hget, ← of_decide_eq_true hversion]
  · exact fun h => ⟨⟨version, client⟩, Option.filter_eq_some_iff.mpr ⟨h, decide_eq_true rfl⟩, rfl⟩

theorem getOrBuild_of_current (h : pool key = some ⟨version, client⟩) :
    getOrBuild pool key version build = (.ok client, pool) := by
  unfold getOrBuild
  rw [current_eq_some.mpr h]

theorem pooled_of_getOrBuild (h : (getOrBuild pool key version build).1 = .ok client) :
    (getOrBuild pool key version build).2 key = some ⟨version, client⟩ := by
  unfold getOrBuild at h ⊢
  cases hcurrent : current pool key version with
  | some c =>
    simp only [hcurrent] at h ⊢
    cases h
    exact current_eq_some.mp hcurrent
  | none =>
    simp only [hcurrent] at h ⊢
    cases build with
    | ok c =>
      cases h
      exact Function.update_self ..
    | error err => cases h

/-- **A build that fails leaves the pool as it was.** -/
theorem getOrBuild_of_error {err : ε} (h : (getOrBuild pool key version build).1 = .error err) :
    (getOrBuild pool key version build).2 = pool := by
  unfold getOrBuild at h ⊢
  cases hcurrent : current pool key version with
  | some c =>
    simp only [hcurrent] at h
    cases h
  | none =>
    cases build with
    | ok c =>
      simp only [hcurrent] at h
      cases h
    | error e => rfl

theorem build_of_error {err : ε} (h : (getOrBuild pool key version build).1 = .error err) :
    build = .error err := by
  unfold getOrBuild at h
  cases hcurrent : current pool key version with
  | some c =>
    rw [hcurrent] at h
    cases h
  | none =>
    rw [hcurrent] at h
    cases build with
    | error _ =>
      cases h
      rfl
    | ok c => cases h

/-- **A client stays** while its key is asked for in its version only. -/
theorem getOrBuild_keeps {k : κ} {v : ν} {c : γ} (h : pool k = some ⟨v, c⟩)
    (hsame : key = k → version = v) : (getOrBuild pool key version build).2 k = some ⟨v, c⟩ := by
  by_cases hkey : key = k
  · obtain rfl := hkey
    obtain rfl := hsame rfl
    rw [getOrBuild_of_current h]
    exact h
  · unfold getOrBuild
    cases current pool key version with
    | some _ => exact h
    | none =>
      cases build with
      | ok _ => exact (Function.update_of_ne (Ne.symm hkey) _ _).trans h
      | error _ => exact h

omit [DecidableEq ν] in
theorem release_keeps {k : κ} (hkey : key ≠ k) : release pool key k = pool k :=
  Function.update_of_ne (Ne.symm hkey) _ _

omit [DecidableEq κ] [DecidableEq ν] in
theorem Backed.mono (h : Backed B pool) (hBC : ∀ key version client, B key version client →
    C key version client) : Backed C pool :=
  fun key pooled hget => hBC _ _ _ (h key pooled hget)

omit [DecidableEq κ] [DecidableEq ν] in
theorem backed_empty : Backed B (fun _ => none : Pool κ ν γ) := fun _ _ h => by cases h

omit [DecidableEq ν] in
theorem Backed.release (h : Backed B pool) (key : κ) : Backed B (release pool key) := by
  intro k pooled hget
  rw [VersionedPool.release, Function.update_apply] at hget
  split_ifs at hget
  exact h k pooled hget

/-- **A request keeps the clients backed**, if what it builds is. -/
theorem Backed.getOrBuild (h : Backed B pool)
    (hbuild : ∀ client, build = .ok client → B key version client) :
    Backed B (getOrBuild pool key version build).2 := by
  unfold VersionedPool.getOrBuild
  cases current pool key version with
  | some _ => exact h
  | none =>
    cases build with
    | error _ => exact h
    | ok c =>
      intro k pooled hget
      simp only [Function.update_apply] at hget
      split_ifs at hget with hkey
      · cases hget
        rw [hkey]
        exact hbuild c rfl
      · exact h k pooled hget

end VersionedPool
