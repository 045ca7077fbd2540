import OffsetExplorer.Lib.Machine
import OffsetExplorer.Protobuf.Resolve
import Mathlib.Data.List.Nodup

/-!
# The cache of compiled schemas

`compile` in `lib.rs` of the protobuf crate, called by any number of threads: it looks into the cache
under the lock, compiles without it, and takes the lock again to put the pool there.

* `lookup`, `insert`: what a call does under the lock.
* `State`, `Event`, `step`: the cache, and where each caller is; the events are the sections of a call.
* `Good`: every entry is what its text compiles to; `good_step`.
* **`compile_transparent`**: after any interleaving.
-/

namespace OffsetExplorer.Protobuf

/-- `SCHEMA_CACHE_ENTRIES`. -/
def schemaCacheEntries : ℕ := 8

/-- The schemas that were compiled, by their texts. -/
abbrev SchemaCache := List (String × DescriptorPool)

/-- The first section under the lock. -/
def SchemaCache.lookup (cache : SchemaCache) (protoText : String) : Option DescriptorPool :=
  (cache.find? fun entry => entry.1 = protoText).map Prod.snd

/-- The second section under the lock; the oldest entry makes room. -/
def SchemaCache.insert (cache : SchemaCache) (protoText : String) (pool : DescriptorPool) : SchemaCache :=
  if cache.any fun entry => entry.1 = protoText then cache
  else (if schemaCacheEntries ≤ cache.length then cache.eraseIdx 0 else cache) ++ [(protoText, pool)]

/-- Where a caller is. -/
inductive Phase where
  | idle
  | called (protoText : String)
  | compiling (protoText : String)
  | compiled (protoText : String) (pool : DescriptorPool)

/-- What a call has returned, to whom and for which text. -/
structure Return where
  caller : ℕ
  protoText : String
  result : Except Report DescriptorPool

/-- The cache, how far each caller is, and what has been returned. -/
structure State where
  cache : SchemaCache
  phase : ℕ → Phase
  returned : List Return

/-- The steps of a call. The cache is locked in two of them, one at a time. -/
inductive Event where
  | call (caller : ℕ) (protoText : String)
  | lookup (caller : ℕ)
  | compile (caller : ℕ)
  | insert (caller : ℕ)

/-- Nothing is cached, and nobody has called. -/
def State.start : State := ⟨[], fun _ => .idle, []⟩

/-- A caller comes to its next phase. -/
def State.goTo (s : State) (caller : ℕ) (phase : Phase) : State :=
  { s with phase := Function.update s.phase caller phase }

/-- The call is over. -/
def State.finish (s : State) (caller : ℕ) (protoText : String) (result : Except Report DescriptorPool) :
    State :=
  { s.goTo caller .idle with returned := s.returned ++ [⟨caller, protoText, result⟩] }

theorem State.phase_goTo (s : State) (caller other : ℕ) (phase : Phase) :
    (s.goTo caller phase).phase other = if other = caller then phase else s.phase other :=
  Function.update_apply s.phase caller phase other

theorem State.phase_finish (s : State) (caller other : ℕ) (protoText : String)
    (result : Except Report DescriptorPool) :
    (s.finish caller protoText result).phase other = if other = caller then .idle else s.phase other :=
  s.phase_goTo caller other .idle

/-- One section of a call; `compileUncached` is the compiler. -/
def step (compileUncached : String → Except Report DescriptorPool) (s : State) : Event → Option State
  | .call caller protoText =>
    match s.phase caller with
    | .idle => some (s.goTo caller (.called protoText))
    | _ => none
  | .lookup caller =>
    match s.phase caller with
    | .called protoText =>
      match SchemaCache.lookup s.cache protoText with
      | some pool => some (s.finish caller protoText (.ok pool))
      | none => some (s.goTo caller (.compiling protoText))
    | _ => none
  | .compile caller =>
    match s.phase caller with
    | .compiling protoText =>
      match compileUncached protoText with
      | .error report => some (s.finish caller protoText (.error report))
      | .ok pool => some (s.goTo caller (.compiled protoText pool))
    | _ => none
  | .insert caller =>
    match s.phase caller with
    | .compiled protoText pool =>
      some { s.finish caller protoText (.ok pool) with
        cache := SchemaCache.insert s.cache protoText pool }
    | _ => none

variable {compileUncached : String → Except Report DescriptorPool} {cache : SchemaCache}
  {protoText : String} {pool : DescriptorPool} {s t : State} {e : Event} {caller : ℕ}

/-! ## The sections -/

/-- Every entry is what its text compiles to, no text is there twice, and the cache is not too large. -/
structure Sound (compileUncached : String → Except Report DescriptorPool) (cache : SchemaCache) :
    Prop where
  compiled : ∀ entry ∈ cache, compileUncached entry.1 = .ok entry.2
  bounded : cache.length ≤ schemaCacheEntries
  nodup : (cache.map Prod.fst).Nodup

theorem Sound.lookup (h : Sound compileUncached cache)
    (hlookup : SchemaCache.lookup cache protoText = some pool) :
    compileUncached protoText = .ok pool := by
  obtain ⟨entry, hentry, rfl⟩ := Option.map_eq_some_iff.mp hlookup
  have htext : entry.1 = protoText := of_decide_eq_true (List.find?_some hentry :)
  rw [← htext]
  exact h.compiled entry (List.mem_of_find?_eq_some hentry)

theorem Sound.insert (h : Sound compileUncached cache)
    (hpool : compileUncached protoText = .ok pool) :
    Sound compileUncached (SchemaCache.insert cache protoText pool) := by
  unfold SchemaCache.insert
  split
  · exact h
  · rename_i hnew
    obtain ⟨kept, hkept⟩ : ∃ kept, kept =
      if schemaCacheEntries ≤ cache.length then cache.eraseIdx 0 else cache := ⟨_, rfl⟩
    have hsub : kept.Sublist cache := by
      rw [hkept]
      split_ifs
      · exact List.eraseIdx_sublist cache 0
      · exact List.Sublist.refl cache
    have hroom : kept.length + 1 ≤ schemaCacheEntries := by
      have hbound := h.bounded
      rw [hkept]
      split_ifs with hfull
      · rw [List.length_eraseIdx_of_lt (by unfold schemaCacheEntries at hfull; omega)]
        unfold schemaCacheEntries at *
        omega
      · omega
    have habsent : protoText ∉ kept.map Prod.fst := by
      intro hmem
      obtain ⟨entry, hentry, htext⟩ := List.mem_map.mp hmem
      exact hnew (List.any_eq_true.mpr ⟨entry, hsub.subset hentry, decide_eq_true htext⟩)
    rw [← hkept]
    refine ⟨fun entry hentry => ?_, ?_, ?_⟩
    · rcases List.mem_append.mp hentry with hold | hlast
      · exact h.compiled entry (hsub.subset hold)
      · rw [List.mem_singleton.mp hlast]
        exact hpool
    · rw [List.length_append]
      exact hroom
    · rw [List.map_append, List.map_singleton, ← List.concat_eq_append]
      exact (h.nodup.sublist (hsub.map Prod.fst)).concat habsent

/-- What a step does, section by section. -/
inductive Moves (compileUncached : String → Except Report DescriptorPool) (s : State) :
    Event → State → Prop
  | call {caller : ℕ} (protoText : String) : s.phase caller = .idle →
      Moves compileUncached s (.call caller protoText) (s.goTo caller (.called protoText))
  | hit {caller : ℕ} {protoText : String} {pool : DescriptorPool} :
      s.phase caller = .called protoText → SchemaCache.lookup s.cache protoText = some pool →
      Moves compileUncached s (.lookup caller) (s.finish caller protoText (.ok pool))
  | miss {caller : ℕ} {protoText : String} : s.phase caller = .called protoText →
      SchemaCache.lookup s.cache protoText = none →
      Moves compileUncached s (.lookup caller) (s.goTo caller (.compiling protoText))
  | fail {caller : ℕ} {protoText : String} {report : Report} :
      s.phase caller = .compiling protoText → compileUncached protoText = .error report →
      Moves compileUncached s (.compile caller) (s.finish caller protoText (.error report))
  | compile {caller : ℕ} {protoText : String} {pool : DescriptorPool} :
      s.phase caller = .compiling protoText → compileUncached protoText = .ok pool →
      Moves compileUncached s (.compile caller) (s.goTo caller (.compiled protoText pool))
  | insert {caller : ℕ} {protoText : String} {pool : DescriptorPool} :
      s.phase caller = .compiled protoText pool →
      Moves compileUncached s (.insert caller)
        { s.finish caller protoText (.ok pool) with
          cache := SchemaCache.insert s.cache protoText pool }

theorem step_eq_some_iff : step compileUncached s e = some t ↔ Moves compileUncached s e t := by
  constructor
  · intro h
    cases e with
    | call caller protoText =>
      cases hphase : s.phase caller <;> simp only [step, hphase, reduceCtorEq] at h
      obtain rfl := Option.some.inj h
      exact .call protoText hphase
    | lookup caller =>
      cases hphase : s.phase caller <;> simp only [step, hphase, reduceCtorEq] at h
      rename_i protoText
      cases hlookup : SchemaCache.lookup s.cache protoText with
      | none =>
        simp only [hlookup] at h
        obtain rfl := Option.some.inj h
        exact .miss hphase hlookup
      | some pool =>
        simp only [hlookup] at h
        obtain rfl := Option.some.inj h
        exact .hit hphase hlookup
    | compile caller =>
      cases hphase : s.phase caller <;> simp only [step, hphase, reduceCtorEq] at h
      rename_i protoText
      cases hcompile : compileUncached protoText with
      | error report =>
        simp only [hcompile] at h
        obtain rfl := Option.some.inj h
        exact .fail hphase hcompile
      | ok pool =>
        simp only [hcompile] at h
        obtain rfl := Option.some.inj h
        exact .compile hphase hcompile
    | insert caller =>
      cases hphase : s.phase caller <;> simp only [step, hphase, reduceCtorEq] at h
      obtain rfl := Option.some.inj h
      exact .insert hphase
  · intro h
    cases h with
    | call protoText hphase => simp only [step, hphase]
    | hit hphase hlookup => simp only [step, hphase, hlookup]
    | miss hphase hlookup => simp only [step, hphase, hlookup]
    | fail hphase hcompile => simp only [step, hphase, hcompile]
    | compile hphase hcompile => simp only [step, hphase, hcompile]
    | insert hphase => simp only [step, hphase]

/-! ## Every run -/

/-- What every run keeps. -/
structure Good (compileUncached : String → Except Report DescriptorPool) (s : State) : Prop where
  sound : Sound compileUncached s.cache
  compiled : ∀ caller protoText pool, s.phase caller = .compiled protoText pool →
    compileUncached protoText = .ok pool
  returned : ∀ r ∈ s.returned, r.result = compileUncached r.protoText

theorem good_start : Good compileUncached .start :=
  ⟨⟨by simp [State.start], Nat.zero_le _, List.nodup_nil⟩, nofun, by simp [State.start]⟩

theorem Good.goTo (h : Good compileUncached s) {phase : Phase}
    (hphase : ∀ protoText pool, phase = .compiled protoText pool →
      compileUncached protoText = .ok pool) : Good compileUncached (s.goTo caller phase) := by
  refine ⟨h.sound, fun other protoText pool hother => ?_, h.returned⟩
  rw [State.phase_goTo] at hother
  split_ifs at hother
  · exact hphase protoText pool hother
  · exact h.compiled other protoText pool hother

theorem Good.finish (h : Good compileUncached s) {result : Except Report DescriptorPool}
    (hresult : result = compileUncached protoText) :
    Good compileUncached (s.finish caller protoText result) := by
  have hidle : Good compileUncached (s.goTo caller .idle) := h.goTo nofun
  refine ⟨h.sound, hidle.compiled, fun r hr => ?_⟩
  rcases List.mem_append.mp hr with hold | hlast
  · exact h.returned r hold
  · rw [List.mem_singleton.mp hlast]
    exact hresult

/-- **A section keeps it**, whatever the other callers have done since the section before. -/
theorem good_step (h : Good compileUncached s) (hst : step compileUncached s e = some t) :
    Good compileUncached t := by
  cases step_eq_some_iff.mp hst with
  | call protoText hphase => exact h.goTo nofun
  | hit hphase hlookup => exact h.finish (h.sound.lookup hlookup).symm
  | miss hphase hlookup => exact h.goTo nofun
  | fail hphase hcompile => exact h.finish hcompile.symm
  | compile hphase hcompile =>
    refine h.goTo fun protoText pool heq => ?_
    cases heq
    exact hcompile
  | @insert caller protoText pool hphase =>
    have hpool := h.compiled caller protoText pool hphase
    have hdone : Good compileUncached (s.finish caller protoText (.ok pool)) := h.finish hpool.symm
    exact ⟨h.sound.insert hpool, hdone.compiled, hdone.returned⟩

/-- The texts that a caller has asked for. -/
def textsCalled (caller : ℕ) (events : List Event) : List String :=
  events.filterMap fun e =>
    match e with
    | .call other protoText => if other = caller then some protoText else none
    | _ => none

/-- The texts that its calls have returned for. -/
def State.textsReturned (s : State) (caller : ℕ) : List String :=
  (s.returned.filter fun r => r.caller = caller).map Return.protoText

/-- The text of the call that is under way. -/
def Phase.pending : Phase → List String
  | .idle => []
  | .called protoText => [protoText]
  | .compiling protoText => [protoText]
  | .compiled protoText _ => [protoText]

theorem textsCalled_concat (caller : ℕ) (events : List Event) (e : Event) :
    textsCalled caller (events ++ [e]) = textsCalled caller events ++ textsCalled caller [e] :=
  List.filterMap_append

theorem textsReturned_finish (s : State) (caller other : ℕ) (protoText : String)
    (result : Except Report DescriptorPool) :
    (s.finish caller protoText result).textsReturned other =
      s.textsReturned other ++ if other = caller then [protoText] else [] := by
  by_cases h : other = caller
  · subst h
    simp [State.textsReturned, State.finish]
  · have hne : ¬ caller = other := Ne.symm h
    simp [State.textsReturned, State.finish, State.goTo, h, hne]

/-- **Every call returns once**, in the order of the calls. -/
theorem textsCalled_step {events : List Event}
    (h : ∀ caller, textsCalled caller events = s.textsReturned caller ++ (s.phase caller).pending)
    (hst : step compileUncached s e = some t) (caller : ℕ) :
    textsCalled caller (events ++ [e]) = t.textsReturned caller ++ (t.phase caller).pending := by
  rw [textsCalled_concat, h]
  -- a call that goes on keeps its text; one that ends returns for it
  have hgoes : ∀ {other : ℕ} {phase : Phase}, (s.phase other).pending = phase.pending →
      s.textsReturned caller ++ (s.phase caller).pending =
        (s.goTo other phase).textsReturned caller ++ ((s.goTo other phase).phase caller).pending := by
    intro other phase hsame
    rw [State.phase_goTo]
    split_ifs with hcaller
    · rw [hcaller, hsame]
      rfl
    · rfl
  have hends : ∀ {other : ℕ} {protoText : String} {result : Except Report DescriptorPool},
      (s.phase other).pending = [protoText] →
      s.textsReturned caller ++ (s.phase caller).pending =
        (s.finish other protoText result).textsReturned caller ++
          ((s.finish other protoText result).phase caller).pending := by
    intro other protoText result hpending
    rw [textsReturned_finish, State.phase_finish]
    split_ifs with hcaller
    · rw [hcaller, hpending]
      simp [Phase.pending]
    · rw [List.append_nil]
  cases step_eq_some_iff.mp hst with
  | @call other protoText hphase =>
    rw [State.phase_goTo]
    by_cases hcaller : caller = other
    · subst hcaller
      simp [hphase, Phase.pending, textsCalled, State.textsReturned, State.goTo]
    · have hne : ¬ other = caller := Ne.symm hcaller
      simp [textsCalled, hcaller, hne, State.textsReturned, State.goTo]
  | hit hphase hlookup =>
    exact (List.append_nil _).trans (hends (by rw [hphase]; rfl))
  | miss hphase hlookup =>
    exact (List.append_nil _).trans (hgoes (by rw [hphase]; rfl))
  | fail hphase hcompile =>
    exact (List.append_nil _).trans (hends (by rw [hphase]; rfl))
  | compile hphase hcompile =>
    exact (List.append_nil _).trans (hgoes (by rw [hphase]; rfl))
  | insert hphase =>
    exact (List.append_nil _).trans (hends (by rw [hphase]; rfl))

/-- The sections of a call. -/
def sections (caller : ℕ) : List Event := [.lookup caller, .compile caller, .insert caller]

/-- A call that is under way ends with sections of its own, whatever is in the cache. -/
theorem exists_sections (compileUncached : String → Except Report DescriptorPool) (s : State)
    (caller : ℕ) : ∃ events, events.Sublist (sections caller) ∧
      ∃ t, Machine.run (step compileUncached) s events = some t ∧ t.phase caller = .idle := by
  have hinsert : ∀ u : State, (∃ protoText pool, u.phase caller = .compiled protoText pool) →
      ∃ t, step compileUncached u (.insert caller) = some t ∧ t.phase caller = .idle := by
    rintro u ⟨protoText, pool, hphase⟩
    refine ⟨_, step_eq_some_iff.mpr (.insert hphase), ?_⟩
    change (u.finish caller protoText (.ok pool)).phase caller = .idle
    rw [State.phase_finish, if_pos rfl]
  have hcompile : ∀ u : State, (∃ protoText, u.phase caller = .compiling protoText) →
      ∃ events, events.Sublist [.compile caller, .insert caller] ∧
        ∃ t, Machine.run (step compileUncached) u events = some t ∧ t.phase caller = .idle := by
    rintro u ⟨protoText, hphase⟩
    cases hresult : compileUncached protoText with
    | error report =>
      refine ⟨[.compile caller], by simp, u.finish caller protoText (.error report), ?_, ?_⟩
      · rw [Machine.run_cons, step_eq_some_iff.mpr (.fail hphase hresult)]
        rfl
      · rw [State.phase_finish, if_pos rfl]
    | ok pool =>
      obtain ⟨t, ht, hidle⟩ := hinsert (u.goTo caller (.compiled protoText pool))
        ⟨protoText, pool, by rw [State.phase_goTo, if_pos rfl]⟩
      refine ⟨_, List.Sublist.refl _, t, ?_, hidle⟩
      rw [Machine.run_cons, step_eq_some_iff.mpr (.compile hphase hresult), Option.bind_some,
        Machine.run_cons, ht]
      rfl
  cases hphase : s.phase caller with
  | idle => exact ⟨[], List.nil_sublist _, s, rfl, hphase⟩
  | compiled protoText pool =>
    obtain ⟨t, ht, hidle⟩ := hinsert s ⟨protoText, pool, hphase⟩
    refine ⟨[.insert caller], by simp [sections], t, ?_, hidle⟩
    rw [Machine.run_cons, ht]
    rfl
  | compiling protoText =>
    obtain ⟨events, hsub, hrest⟩ := hcompile s ⟨protoText, hphase⟩
    exact ⟨events, hsub.cons _, hrest⟩
  | called protoText =>
    cases hlookup : SchemaCache.lookup s.cache protoText with
    | some pool =>
      refine ⟨[.lookup caller], by simp [sections], s.finish caller protoText (.ok pool), ?_, ?_⟩
      · rw [Machine.run_cons, step_eq_some_iff.mpr (.hit hphase hlookup)]
        rfl
      · rw [State.phase_finish, if_pos rfl]
    | none =>
      obtain ⟨events, hsub, t, hrun, hidle⟩ := hcompile (s.goTo caller (.compiling protoText))
        ⟨protoText, by rw [State.phase_goTo, if_pos rfl]⟩
      refine ⟨.lookup caller :: events, hsub.cons_cons _, t, ?_, hidle⟩
      rw [Machine.run_cons, step_eq_some_iff.mpr (.miss hphase hlookup)]
      exact hrun

/-- **The cache is not seen**: after any interleaving of calls, every call has returned, or returns with
sections of its own, what its text compiles to; the cache holds so many entries at most, no text twice,
and a text that does not compile leaves it as it was. -/
theorem compile_transparent (compileUncached : String → Except Report DescriptorPool)
    {events : List Event} {s : State}
    (h : Machine.run (step compileUncached) .start events = some s) :
    (∀ r ∈ s.returned, r.result = compileUncached r.protoText) ∧
      (∀ caller, textsCalled caller events =
        s.textsReturned caller ++ (s.phase caller).pending) ∧
      (∀ caller, ∃ more, more.Sublist (sections caller) ∧
        ∃ t, Machine.run (step compileUncached) s more = some t ∧ t.phase caller = .idle) ∧
      s.cache.length ≤ schemaCacheEntries ∧ (s.cache.map Prod.fst).Nodup ∧
      ∀ caller protoText report t, s.phase caller = .compiling protoText →
        compileUncached protoText = .error report →
        step compileUncached s (.compile caller) = some t → t.cache = s.cache := by
  have hgood : Good compileUncached s :=
    Machine.run_invariant (fun _ _ _ => good_step) good_start h
  have htexts : ∀ caller, textsCalled caller events =
      s.textsReturned caller ++ (s.phase caller).pending :=
    Machine.run_history (P := fun _ => True)
      (I := fun es u => ∀ caller, textsCalled caller es =
        u.textsReturned caller ++ (u.phase caller).pending)
      (fun _ => rfl) (fun _ _ _ _ _ hes hst => textsCalled_step hes hst) (fun _ _ => trivial) h
  refine ⟨hgood.returned, htexts, exists_sections compileUncached s, hgood.sound.bounded,
    hgood.sound.nodup, fun caller protoText report t hphase herror hst => ?_⟩
  cases step_eq_some_iff.mp hst with
  | fail hphase' _ => rfl
  | compile hphase' hok => rfl

/-- Two callers compile one text; the slower one finds that it is in the cache by now. -/
def twoCallers : List Event :=
  [.call 0 "a", .call 1 "a", .lookup 0, .lookup 1, .compile 1, .insert 1, .compile 0, .insert 0]

theorem compile_transparent_two :
    ∃ s, Machine.run (step fun _ => .ok ⟨[]⟩) .start twoCallers = some s ∧
      s.cache.length ≤ schemaCacheEntries ∧ (s.cache.map Prod.fst).Nodup := by
  have hsome : (Machine.run (step fun _ => .ok ⟨[]⟩) .start twoCallers).isSome = true := rfl
  obtain ⟨s, hs⟩ := Option.isSome_iff_exists.mp hsome
  obtain ⟨-, -, -, hbounded, hnodup, -⟩ := compile_transparent (fun _ => .ok ⟨[]⟩) hs
  exact ⟨s, hs, hbounded, hnodup⟩

end OffsetExplorer.Protobuf
