import OffsetExplorer.DataMigration.Attempt

/-!
# Launch after launch

* `Sound`: an adopted database has exactly the legacy sidecars of its time beside it, no other
  database has copied ones, and after a failed attempt the next one can still adopt.
* `Kept`: what a launch must leave alone.
* `Calm`: which launches these survive.
* **`adoption_iff`**: the runs in which every state is sound and every launch keeps what it must are
  those whose launches are all calm.
-/

namespace OffsetExplorer.DataMigration

open Interrupt Interrupt.Prog Machine

variable {C : Type} {dataDir legacyDir : Path} {d e : Disk C} {P : Path → Prop}
  {cut : Option (Cut Op (Option C))} {c : Cut Op (Option C)} {empty content : C} {creates : Bool}

/-! ## The guards of an attempt -/

/-- The attempt cannot tell that there is a database. -/
def Fooled (cut : Option (Cut Op (Option C))) : Prop :=
  ∃ c ∈ cut, c.op = .databaseExists ∧ c.stop = .error

/-- The launch dies before it knows that there is no legacy database. -/
def Dies (dataDir : Path) (cut : Option (Cut Op (Option C))) : Prop :=
  ∃ c ∈ cut, c.stop = .crash ∧
    (c.op = .databaseExists ∨ c.op = .legacyIsFile ∧ (legacyDirFor dataDir).isSome)

theorem hasLegacy_iff : hasLegacy dataDir d = true ↔ ∃ legacyDir content,
    legacyDirFor dataDir = some legacyDir ∧ d.files (join legacyDir legacyDbFile) = some content := by
  rw [hasLegacy, legacyDatabase, Option.isSome_iff_exists]
  simp only [Option.bind_eq_some_iff]
  exact exists_comm

theorem adopt_present (h : (d.files (join dataDir dbFile)).isSome) (hfooled : ¬ Fooled cut) :
    ∃ outcome, adoptLegacyAppData dataDir cut d = (outcome, d) := by
  rcases spares_or cut .databaseExists with hspares | herror | ⟨c, hc, hop, hstop⟩
  · have hrun := isFile_of_spares hspares (join dataDir dbFile) d
    rw [h] at hrun
    exact ⟨_, bind_of_ok hrun⟩
  · exact absurd herror hfooled
  · cases hc
    exact ⟨_, bind_of_error (ask_crash hop hstop)⟩

theorem adopt_crash (hop : c.op = .databaseExists) (hstop : c.stop = .crash) :
    adoptLegacyAppData dataDir (some c) d = (.error .crash, d) :=
  bind_of_error (ask_crash hop hstop)

theorem adopt_missing (h : d.files (join dataDir dbFile) = none ∨ Fooled cut)
    (hcrash : ∀ c ∈ cut, c.op = .databaseExists → c.stop ≠ .crash) :
    adoptLegacyAppData dataDir cut d = adoptMissing dataDir cut d := by
  rcases spares_or cut .databaseExists with hspares | ⟨c, hc, hop, hstop⟩ | ⟨c, hc, hop, hstop⟩
  · have hnot : ¬ Fooled cut := fun ⟨c, hc, hop, _⟩ => hspares c hc hop
    have hrun := isFile_of_spares hspares (join dataDir dbFile) d
    rw [h.resolve_right hnot] at hrun
    exact bind_of_ok hrun
  · cases hc
    exact bind_of_ok (ask_error hop hstop)
  · exact absurd hstop (hcrash c hc hop)

theorem adoptMissing_found (hl : legacyDirFor dataDir = some legacyDir)
    (hdb : d.files (join legacyDir legacyDbFile) = some content)
    (hspares : Spares cut .legacyIsFile) :
    adoptMissing dataDir cut d = copyLegacy dataDir legacyDir cut d := by
  have hrun := isFile_of_spares hspares (join legacyDir legacyDbFile) d
  rw [hdb] at hrun
  rw [adoptMissing, hl]
  exact bind_of_ok hrun

/-- **Nothing is done where there is nothing to adopt.** -/
theorem adopt_nothing (cut : Option (Cut Op (Option C))) (h : hasLegacy dataDir d = false)
    (hseen : d.files (join dataDir dbFile) = none ∨ Fooled cut) :
    ∃ outcome, adoptLegacyAppData dataDir cut d = (outcome, d) ∧
      (outcome = .error .crash ↔ Dies dataDir cut) := by
  by_cases hcrash : ∃ c ∈ cut, c.op = .databaseExists ∧ c.stop = .crash
  · obtain ⟨c, hc, hop, hstop⟩ := hcrash
    cases hc
    exact ⟨_, adopt_crash hop hstop, iff_of_true rfl ⟨c, rfl, hstop, .inl hop⟩⟩
  · push Not at hcrash
    rw [adopt_missing hseen hcrash, adoptMissing]
    cases hl : legacyDirFor dataDir with
    | none =>
      refine ⟨_, rfl, iff_of_false nofun ?_⟩
      rintro ⟨c, hc, hstop, hop | ⟨-, hsome⟩⟩
      · exact hcrash c hc hop hstop
      · rw [hl] at hsome
        cases hsome
    | some legacyDir =>
      have habsent : d.files (join legacyDir legacyDbFile) = none := by
        rw [hasLegacy, legacyDatabase_eq hl] at h
        exact Option.not_isSome_iff_eq_none.mp (Bool.not_eq_true _ ▸ h)
      rcases spares_or cut .legacyIsFile with hspares | ⟨c, hc, hop, hstop⟩ | ⟨c, hc, hop, hstop⟩
      · have hrun := isFile_of_spares hspares (join legacyDir legacyDbFile) d
        rw [habsent] at hrun
        refine ⟨_, bind_of_ok hrun, iff_of_false nofun ?_⟩
        rintro ⟨c, hc, hstop, hop | ⟨hop, -⟩⟩
        · exact hcrash c hc hop hstop
        · exact hspares c hc hop
      · cases hc
        refine ⟨_, bind_of_ok (ask_error hop hstop), iff_of_false nofun ?_⟩
        rintro ⟨_, ⟨⟩, hstop', -⟩
        cases hstop.symm.trans hstop'
      · cases hc
        refine ⟨_, bind_of_error (ask_crash hop hstop), iff_of_true rfl ?_⟩
        exact ⟨c, rfl, hstop, .inr ⟨hop, by rw [hl]; rfl⟩⟩

section Legacy

variable (hl : legacyDirFor dataDir = some legacyDir)
  (hdb : d.files (join legacyDir legacyDbFile) = some content)

include hl hdb

/-- **A stopped attempt has not put a database in place.** -/
theorem adopt_stopped (habsent : d.files (join dataDir dbFile) = none)
    (hstops : Stops dataDir d c) :
    ∃ outcome e, adoptLegacyAppData dataDir (some c) d = (outcome, e) ∧
      (outcome = .error .crash ↔ c.stop = .crash) ∧ Untouched (join dataDir dbFile) d e := by
  by_cases hexists : c.op = .databaseExists
  · have hstop : c.stop = .crash := by
      rw [Stops, hexists] at hstops
      exact hstops
    exact ⟨_, d, adopt_crash hexists hstop, iff_of_true rfl hstop, rfl, rfl⟩
  · rw [adopt_missing (.inl habsent) (by rintro _ ⟨⟩ hop; exact absurd hop hexists)]
    by_cases hfile : c.op = .legacyIsFile
    · rw [adoptMissing, hl]
      cases hstop : c.stop with
      | error =>
        have hiff : (.ok none : Except Stop (Option AdoptedData)) = .error .crash ↔
            Stop.error = Stop.crash := by simp
        exact ⟨_, d, bind_of_ok (ask_error hfile hstop), hiff, rfl, rfl⟩
      | crash =>
        exact ⟨_, d, bind_of_error (ask_crash hfile hstop), iff_of_true rfl rfl, rfl, rfl⟩
    · rw [adoptMissing_found hl hdb (spares_some hfile)]
      obtain ⟨e, he, huntouched⟩ := copyLegacy_stopped hl hdb hstops ⟨hexists, hfile⟩
      refine ⟨_, e, he, ?_, huntouched⟩
      rw [Except.error.injEq]

/-- **An attempt that nothing stops puts the legacy database in place.** -/
theorem adopt_adopts (cut : Option (Cut Op (Option C)))
    (hseen : d.files (join dataDir dbFile) = none ∨ Fooled cut)
    (hcut : ∀ c ∈ cut, ¬ Stops dataDir d c) :
    ∃ outcome e, adoptLegacyAppData dataDir cut d = (outcome, e) ∧
      (cut = none → ∃ data, outcome = .ok (some data)) ∧
      e.files (join dataDir dbFile) = some content ∧
      e.written.count (join dataDir dbFile) = d.written.count (join dataDir dbFile) + 1 ∧
      ∀ suffix ∈ sidecarSuffixes,
        SidecarCopied (join legacyDir legacyDbFile) (join dataDir dbFile) cut d e suffix := by
  have hcrash : ∀ c ∈ cut, c.op = .databaseExists → c.stop ≠ .crash := by
    intro c hc hop hstop
    exact hcut c hc (by rw [Stops, hop]; exact hstop)
  have hspares : Spares cut .legacyIsFile := by
    intro c hc hop
    exact hcut c hc (by simp [Stops, hop])
  rw [adopt_missing hseen hcrash, adoptMissing_found hl hdb hspares]
  exact copyLegacy_adopts hl hdb hcut

end Legacy

/-! ## What an attempt leaves alone -/

theorem adopt_keeps (hP : ∀ name, P (join dataDir name)) :
    Keeps (AgreesOutside P d) (adoptLegacyAppData dataDir) := by
  have hcopy : ∀ legacyDir, Keeps (AgreesOutside P d) (copyLegacy dataDir legacyDir) := by
    intro legacyDir
    refine Keeps.bind (Keeps.perform (fun _ h => h) fun _ _ h => h) fun _ => ?_
    refine Keeps.bind (copySidecars_keeps fun suffix _ => ?_) fun _ => ?_
    · rw [withSuffix_join]
      exact hP _
    · refine Keeps.bind (copyFile_keeps _ _ (hP _)) fun _ => ?_
      exact Keeps.bind (renameFile_keeps (hP _) (hP _)) fun _ => Keeps.pure _
  refine Keeps.bind (Keeps.ask _ _) fun there => ?_
  cases there with
  | true => exact Keeps.pure _
  | false =>
    show Keeps _ (adoptMissing dataDir)
    rw [adoptMissing]
    cases legacyDirFor dataDir with
    | none => exact Keeps.pure _
    | some legacyDir =>
      refine Keeps.bind (Keeps.ask _ _) fun there => ?_
      cases there with
      | true => exact hcopy legacyDir
      | false => exact Keeps.pure _

theorem openDatabase_files_ne {path : Path} (h : path ≠ join dataDir dbFile) :
    (openDatabase dataDir empty creates d).files path = d.files path := by
  rw [openDatabase]
  split_ifs
  · exact Function.update_of_ne h _ _
  · rfl

theorem openDatabase_present (h : (d.files (join dataDir dbFile)).isSome) :
    openDatabase dataDir empty creates d = d := by
  rw [openDatabase, if_neg]
  simp [Option.isSome_iff_ne_none.mp h]

theorem launch_crash (h : adoptLegacyAppData dataDir cut d = (.error .crash, e)) :
    launch dataDir empty cut creates d = e := by
  rw [launch, h]

theorem launch_open {outcome : Except Stop (Option AdoptedData)}
    (h : adoptLegacyAppData dataDir cut d = (outcome, e)) (hne : outcome ≠ .error .crash) :
    launch dataDir empty cut creates d = openDatabase dataDir empty creates e := by
  rw [launch, h]
  split
  · rename_i heq
    exact absurd (congrArg Prod.fst heq) hne
  · rename_i heq
    cases heq
    rfl

theorem launch_present {outcome : Except Stop (Option AdoptedData)}
    (h : adoptLegacyAppData dataDir cut d = (outcome, e))
    (he : (e.files (join dataDir dbFile)).isSome) : launch dataDir empty cut creates d = e := by
  by_cases hcrash : outcome = .error .crash
  · rw [hcrash] at h
    exact launch_crash h
  · rw [launch_open h hcrash, openDatabase_present he]

/-- **No launch touches a file of the legacy directory.** -/
theorem launch_legacy (hl : legacyDirFor dataDir = some legacyDir) {path : Path}
    (hpath : legacyDir <+: path) :
    (launch dataDir empty cut creates d).files path = d.files path := by
  have hkeeps := adopt_keeps (P := (dataDir <+: ·)) (fun name => inside_join dataDir name) cut d
    (AgreesOutside.refl _ d) path (legacy_not_inside hl hpath)
  cases hrun : adoptLegacyAppData dataDir cut d with
  | mk outcome e =>
    rw [hrun] at hkeeps
    by_cases hcrash : outcome = .error .crash
    · rw [hcrash] at hrun
      rw [launch_crash hrun]
      exact hkeeps.1
    · rw [launch_open hrun hcrash, openDatabase_files_ne]
      · exact hkeeps.1
      · rintro rfl
        exact legacy_not_inside hl hpath (inside_join dataDir _)

/-! ## Runs of launches -/

/-- What must hold of a disk on which launches have run. -/
structure Sound (dataDir : Path) (s : Install C) : Prop where
  /-- An adopted database and its sidecars are the legacy ones as of the adoption. -/
  faithful : ∀ snapshot, s.adopted = some snapshot →
    (s.disk.files (join dataDir dbFile)).isSome ∧
      database s.disk (join dataDir dbFile) = snapshot
  /-- No copied sidecar lies beside a database that was not adopted. -/
  unmixed : (s.disk.files (join dataDir dbFile)).isSome → s.adopted = none →
    ∀ suffix ∈ sidecarSuffixes, withSuffix (join dataDir dbFile) suffix ∉ s.disk.written
  /-- After a failed attempt, one that nothing stops adopts the legacy database. -/
  retry : s.failed = true → s.disk.files (join dataDir dbFile) = none ∧
    (hasLegacy dataDir s.disk = true →
      ∃ data, (adoptLegacyAppData dataDir none s.disk).1 = .ok (some data))

/-- What a launch must leave alone: the legacy files, and a database that is there. -/
structure Kept (dataDir : Path) (s t : Install C) : Prop where
  legacy : ∀ legacyDir path, legacyDirFor dataDir = some legacyDir → legacyDir <+: path →
    t.disk.files path = s.disk.files path
  database : (s.disk.files (join dataDir dbFile)).isSome →
    Untouched (join dataDir dbFile) s.disk t.disk

/-- Every launch leaves alone what it must. -/
def LaunchKeeps (dataDir : Path) (empty : C) (s : Install C) : Event C → Prop
  | .launch cut creates =>
    ∀ t, step dataDir empty s (.launch cut creates) = some t → Kept dataDir s t
  | .legacy .. => True

/-- A launch that the databases survive. -/
structure CalmLaunch (dataDir : Path) (s : Install C) (cut : Option (Cut Op (Option C)))
    (creates : Bool) : Prop where
  /-- The attempt is not fooled into adopting over a database that is there. -/
  unfooled : (s.disk.files (join dataDir dbFile)).isSome → hasLegacy dataDir s.disk = true →
    ¬ Fooled cut
  /-- No error stops an adoption, unless the launch ends before it creates a database. -/
  unbroken : s.disk.files (join dataDir dbFile) = none → hasLegacy dataDir s.disk = true →
    ∀ c ∈ cut, Stops dataDir s.disk c → c.stop = .error → creates = false
  /-- When an adoption goes through, the sidecars it does not replace are as the legacy ones. -/
  matched : s.disk.files (join dataDir dbFile) = none → hasLegacy dataDir s.disk = true →
    (∀ c ∈ cut, ¬ Stops dataDir s.disk c) → ∀ suffix ∈ sidecarSuffixes,
      Hides cut suffix ∨ legacySidecar dataDir s.disk suffix = none →
        s.disk.files (withSuffix (join dataDir dbFile) suffix) =
          legacySidecar dataDir s.disk suffix
  /-- When an empty database is created, no copied sidecar lies about. -/
  clean : s.disk.files (join dataDir dbFile) = none → hasLegacy dataDir s.disk = false →
    creates = true → ¬ Dies dataDir cut → ∀ suffix ∈ sidecarSuffixes,
      withSuffix (join dataDir dbFile) suffix ∉ s.disk.written

theorem calmLaunch_adopting {s : Install C} (habsent : s.disk.files (join dataDir dbFile) = none)
    (hlegacy : hasLegacy dataDir s.disk = true)
    (hunbroken : ∀ c ∈ cut, Stops dataDir s.disk c → c.stop = .error → creates = false)
    (hmatched : (∀ c ∈ cut, ¬ Stops dataDir s.disk c) → ∀ suffix ∈ sidecarSuffixes,
      Hides cut suffix ∨ legacySidecar dataDir s.disk suffix = none →
        s.disk.files (withSuffix (join dataDir dbFile) suffix) =
          legacySidecar dataDir s.disk suffix) : CalmLaunch dataDir s cut creates where
  unfooled hsome := by
    rw [habsent] at hsome
    cases hsome
  unbroken _ _ := hunbroken
  matched _ _ := hmatched
  clean _ hnone := by
    rw [hlegacy] at hnone
    cases hnone

/-- The launches of a run are calm; the legacy app may do as it likes. -/
def Calm (dataDir : Path) (s : Install C) : Event C → Prop
  | .launch cut creates => CalmLaunch dataDir s cut creates
  | .legacy .. => True

theorem retry_adopts (habsent : d.files (join dataDir dbFile) = none)
    (h : hasLegacy dataDir d = true) :
    ∃ data, (adoptLegacyAppData dataDir none d).1 = .ok (some data) := by
  obtain ⟨legacyDir, content, hl, hdb⟩ := hasLegacy_iff.mp h
  obtain ⟨outcome, e, hrun, hok, -⟩ := adopt_adopts hl hdb none (.inl habsent) nofun
  rw [hrun]
  exact hok rfl

variable {s t : Install C}

theorem sound_installed {files : Path → Option C} (h : files (join dataDir dbFile) = none) :
    Sound dataDir (installed files) where
  faithful := nofun
  unmixed hsome := by
    have hfiles : (files (join dataDir dbFile)).isSome = true := hsome
    rw [h] at hfiles
    cases hfiles
  retry := nofun

theorem Sound.not_adopted (hs : Sound dataDir s)
    (h : s.disk.files (join dataDir dbFile) = none) : s.adopted = none := by
  cases ha : s.adopted with
  | none => rfl
  | some snapshot =>
    have hsome := (hs.faithful snapshot ha).1
    rw [h] at hsome
    cases hsome

/-! ## One launch -/

theorem step_launch {outcome : Except Stop (Option AdoptedData)}
    (hrun : adoptLegacyAppData dataDir cut s.disk = (outcome, e))
    (hst : step dataDir empty s (.launch cut creates) = some t) :
    t.disk = launch dataDir empty cut creates s.disk ∧
      t.adopted = (if e.written.count (join dataDir dbFile) =
        s.disk.written.count (join dataDir dbFile) then s.adopted
        else some (legacyDatabase dataDir s.disk)) ∧
      t.failed = ((e.files (join dataDir dbFile)).isNone && hasLegacy dataDir s.disk) := by
  cases hst
  dsimp only
  rw [hrun]
  exact ⟨rfl, rfl, rfl⟩

theorem kept_legacy (hst : step dataDir empty s (.launch cut creates) = some t) (legacyDir path : Path)
    (hl : legacyDirFor dataDir = some legacyDir) (hpath : legacyDir <+: path) :
    t.disk.files path = s.disk.files path := by
  cases hst
  exact launch_legacy hl hpath

theorem sound_idle (hs : Sound dataDir s) (hpresent : (s.disk.files (join dataDir dbFile)).isSome)
    {outcome : Except Stop (Option AdoptedData)}
    (hrun : adoptLegacyAppData dataDir cut s.disk = (outcome, s.disk))
    (hst : step dataDir empty s (.launch cut creates) = some t) :
    Sound dataDir t ∧ Kept dataDir s t := by
  obtain ⟨hdisk, hadopted, hfailed⟩ := step_launch hrun hst
  rw [launch_present hrun hpresent] at hdisk
  rw [if_pos rfl] at hadopted
  have hnot : t.failed = false := by
    rw [hfailed, Option.isNone_eq_false_iff.mpr hpresent, Bool.false_and]
  refine ⟨⟨?_, ?_, ?_⟩, ⟨kept_legacy hst, fun _ => ?_⟩⟩
  · rw [hadopted, hdisk]
    exact hs.faithful
  · rw [hadopted, hdisk]
    exact hs.unmixed
  · rw [hnot]
    exact nofun
  · rw [hdisk]
    exact ⟨rfl, rfl⟩

theorem not_kept_fooled (hlegacy : hasLegacy dataDir s.disk = true) (hfooled : Fooled cut)
    (hpresent : (s.disk.files (join dataDir dbFile)).isSome)
    (hst : step dataDir empty s (.launch cut creates) = some t) : ¬ Kept dataDir s t := by
  obtain ⟨legacyDir, content, hl, hdb⟩ := hasLegacy_iff.mp hlegacy
  have hcut : ∀ c ∈ cut, ¬ Stops dataDir s.disk c := by
    obtain ⟨c, hc, hop, hstop⟩ := hfooled
    cases hc
    rintro _ ⟨⟩ hstops
    rw [Stops, hop] at hstops
    cases hstop.symm.trans hstops
  obtain ⟨outcome, e, hrun, -, hfiles, hcount, -⟩ := adopt_adopts hl hdb cut (.inr hfooled) hcut
  obtain ⟨hdisk, -, -⟩ := step_launch hrun hst
  rw [launch_present hrun (by rw [hfiles]; rfl)] at hdisk
  intro hkept
  have := (hkept.database hpresent).2
  rw [hdisk, hcount] at this
  omega

/-- A launch with nothing to adopt is sound unless it creates a database among copied sidecars. -/
theorem sound_nothing (hs : Sound dataDir s) (habsent : s.disk.files (join dataDir dbFile) = none)
    (hlegacy : hasLegacy dataDir s.disk = false)
    (hst : step dataDir empty s (.launch cut creates) = some t) :
    Sound dataDir t ↔ (creates = true → ¬ Dies dataDir cut → ∀ suffix ∈ sidecarSuffixes,
      withSuffix (join dataDir dbFile) suffix ∉ s.disk.written) := by
  obtain ⟨outcome, hrun, hdies⟩ := adopt_nothing cut hlegacy (.inl habsent)
  obtain ⟨hdisk, hadopted, hfailed⟩ := step_launch hrun hst
  rw [if_pos rfl, hs.not_adopted habsent] at hadopted
  rw [hlegacy, Bool.and_false] at hfailed
  have hsound : Sound dataDir t ↔ ((t.disk.files (join dataDir dbFile)).isSome →
      ∀ suffix ∈ sidecarSuffixes, withSuffix (join dataDir dbFile) suffix ∉ t.disk.written) := by
    constructor
    · exact fun h hsome => h.unmixed hsome hadopted
    · intro h
      refine ⟨?_, fun hsome _ => h hsome, ?_⟩
      · rw [hadopted]
        exact nofun
      · rw [hfailed]
        exact nofun
  rw [hsound]
  by_cases hcreate : creates = true ∧ ¬ Dies dataDir cut
  · have hopen : t.disk = { s.disk with
        files := Function.update s.disk.files (join dataDir dbFile) (some empty) } := by
      rw [hdisk, launch_open hrun (fun h => hcreate.2 (hdies.mp h)), openDatabase, if_pos]
      simp [hcreate.1, habsent]
    rw [hopen]
    simp [hcreate.1, hcreate.2]
  · have hsame : t.disk = s.disk := by
      rw [hdisk]
      by_cases hcrash : outcome = .error .crash
      · rw [hcrash] at hrun
        exact launch_crash hrun
      · have hnot : creates = false := by
          by_contra hne
          exact hcreate ⟨Bool.not_eq_false _ ▸ hne, fun h => hcrash (hdies.mpr h)⟩
        rw [launch_open hrun hcrash, openDatabase, hnot, Bool.false_and, if_neg nofun]
    rw [hsame, habsent]
    refine iff_of_true nofun fun hc hd => absurd ⟨hc, hd⟩ hcreate

/-- A launch whose attempt is stopped is sound unless it creates a database all the same. -/
theorem sound_stopped (hs : Sound dataDir s) (habsent : s.disk.files (join dataDir dbFile) = none)
    (hlegacy : hasLegacy dataDir s.disk = true) (hstops : Stops dataDir s.disk c)
    (hst : step dataDir empty s (.launch (some c) creates) = some t) :
    Sound dataDir t ↔ (c.stop = .error → creates = false) := by
  obtain ⟨legacyDir, content, hl, hdb⟩ := hasLegacy_iff.mp hlegacy
  obtain ⟨outcome, e, hrun, hcrash, huntouched⟩ := adopt_stopped hl hdb habsent hstops
  obtain ⟨hdisk, hadopted, hfailed⟩ := step_launch hrun hst
  rw [if_pos huntouched.2, hs.not_adopted habsent] at hadopted
  have he : e.files (join dataDir dbFile) = none := huntouched.1.trans habsent
  rw [he, hlegacy] at hfailed
  have hsound : Sound dataDir t ↔ t.disk.files (join dataDir dbFile) = none := by
    constructor
    · exact fun h => (h.retry hfailed).1
    · intro h
      refine ⟨?_, ?_, fun _ => ⟨h, retry_adopts h⟩⟩
      · rw [hadopted]
        exact nofun
      · rw [h]
        exact nofun
  rw [hsound, hdisk]
  cases hstop : c.stop with
  | crash =>
    rw [hcrash.mpr hstop] at hrun
    rw [launch_crash hrun]
    exact iff_of_true he nofun
  | error =>
    rw [launch_open hrun (fun h => nomatch hstop.symm.trans (hcrash.mp h)), openDatabase, he]
    cases creates with
    | true => simp
    | false => simp [he]

/-- A launch that adopts is sound exactly when the sidecars it does not replace match. -/
theorem sound_adopted (habsent : s.disk.files (join dataDir dbFile) = none)
    (hlegacy : hasLegacy dataDir s.disk = true) (hcut : ∀ c ∈ cut, ¬ Stops dataDir s.disk c)
    (hst : step dataDir empty s (.launch cut creates) = some t) :
    Sound dataDir t ↔ ∀ suffix ∈ sidecarSuffixes,
      Hides cut suffix ∨ legacySidecar dataDir s.disk suffix = none →
        s.disk.files (withSuffix (join dataDir dbFile) suffix) =
          legacySidecar dataDir s.disk suffix := by
  obtain ⟨legacyDir, content, hl, hdb⟩ := hasLegacy_iff.mp hlegacy
  obtain ⟨outcome, e, hrun, -, hfiles, hcount, hcopied⟩ := adopt_adopts hl hdb cut (.inl habsent) hcut
  obtain ⟨hdisk, hadopted, hfailed⟩ := step_launch hrun hst
  rw [launch_present hrun (by rw [hfiles]; rfl)] at hdisk
  rw [if_neg (by omega)] at hadopted
  rw [hfiles] at hfailed
  have hmatch : database e (join dataDir dbFile) = legacyDatabase dataDir s.disk ↔
      ∀ suffix ∈ sidecarSuffixes, e.files (withSuffix (join dataDir dbFile) suffix) =
        legacySidecar dataDir s.disk suffix := by
    rw [database, Prod.ext_iff, legacyDatabase_eq hl, hdb, legacyDatabase]
    simp only [hfiles, true_and, List.map_inj_left]
  have hsound : Sound dataDir t ↔
      database e (join dataDir dbFile) = legacyDatabase dataDir s.disk := by
    constructor
    · intro h
      rw [← hdisk]
      exact (h.faithful _ hadopted).2
    · intro h
      refine ⟨fun snapshot hsnapshot => ?_, ?_, ?_⟩
      · cases hadopted.symm.trans hsnapshot
        rw [hdisk, hfiles]
        exact ⟨rfl, h⟩
      · rw [hadopted]
        simp
      · rw [hfailed]
        simp
  rw [hsound, hmatch]
  refine forall₂_congr fun suffix hs => ?_
  obtain ⟨hhidden, hseen⟩ := hcopied suffix hs
  rw [← legacySidecar_eq hl] at hseen
  by_cases hhides : Hides cut suffix
  · rw [hhidden hhides]
    simp [hhides]
  · rw [hseen hhides]
    cases legacySidecar dataDir s.disk suffix with
    | none => simp
    | some sidecar => simp [hhides]

/-- **A launch is sound and keeps what it must exactly when it is calm.** -/
theorem launch_iff (hs : Sound dataDir s)
    (hst : step dataDir empty s (.launch cut creates) = some t) :
    Sound dataDir t ∧ Kept dataDir s t ↔ CalmLaunch dataDir s cut creates := by
  by_cases hpresent : (s.disk.files (join dataDir dbFile)).isSome = true
  · have hne := Option.isSome_iff_ne_none.mp hpresent
    have hcalm : CalmLaunch dataDir s cut creates ↔
        (hasLegacy dataDir s.disk = true → ¬ Fooled cut) :=
      ⟨fun h => h.unfooled hpresent, fun h => ⟨fun _ => h, fun h => absurd h hne,
        fun h => absurd h hne, fun h => absurd h hne⟩⟩
    rw [hcalm]
    by_cases hfooled : Fooled cut
    · cases hlegacy : hasLegacy dataDir s.disk with
      | false =>
        obtain ⟨outcome, hrun, -⟩ := adopt_nothing cut hlegacy (.inr hfooled)
        exact iff_of_true (sound_idle hs hpresent hrun hst) nofun
      | true =>
        refine iff_of_false (fun h => ?_) fun h => h rfl hfooled
        exact not_kept_fooled hlegacy hfooled hpresent hst h.2
    · obtain ⟨outcome, hrun⟩ := adopt_present hpresent hfooled
      exact iff_of_true (sound_idle hs hpresent hrun hst) fun _ => hfooled
  · have habsent := Option.not_isSome_iff_eq_none.mp hpresent
    have hkept : Kept dataDir s t := ⟨kept_legacy hst, fun h => absurd h hpresent⟩
    rw [and_iff_left hkept]
    cases hlegacy : hasLegacy dataDir s.disk with
    | false =>
      have hnot : ¬ hasLegacy dataDir s.disk = true := by simp [hlegacy]
      rw [sound_nothing hs habsent hlegacy hst]
      exact ⟨fun h => ⟨fun h => absurd h hpresent, fun _ h => absurd h hnot,
        fun _ h => absurd h hnot, fun _ _ => h⟩, fun h => h.clean habsent hlegacy⟩
    | true =>
      have hnot : ¬ hasLegacy dataDir s.disk = false := by simp [hlegacy]
      by_cases hstops : ∃ c ∈ cut, Stops dataDir s.disk c
      · obtain ⟨c, hc, hstops⟩ := hstops
        cases hc
        rw [sound_stopped hs habsent hlegacy hstops hst]
        constructor
        · intro h
          refine ⟨fun h => absurd h hpresent, ?_, fun _ _ h => absurd hstops (h c rfl),
            fun _ h => absurd h hnot⟩
          rintro - - _ ⟨⟩ -
          exact h
        · exact fun h => h.unbroken habsent hlegacy c rfl hstops
      · have hcut : ∀ c ∈ cut, ¬ Stops dataDir s.disk c := fun c hc h => hstops ⟨c, hc, h⟩
        rw [sound_adopted habsent hlegacy hcut hst]
        exact ⟨fun h => ⟨fun h => absurd h hpresent, fun _ _ c hc h => absurd h (hcut c hc),
          fun _ _ _ => h, fun _ h => absurd h hnot⟩, fun h => h.matched habsent hlegacy hcut⟩

/-! ## The legacy app at work -/

theorem writeLegacy_files (hl : legacyDirFor dataDir = some legacyDir) (database : Option C)
    (sidecars : String → Option C) {path : Path} (hpath : dataDir <+: path) :
    (writeLegacy legacyDir database sidecars d).files path = d.files path := by
  have hne : ∀ name, path ≠ join legacyDir name := by
    rintro name rfl
    exact legacy_not_inside hl (inside_join legacyDir name) hpath
  simp only [writeLegacy, sidecarSuffixes, List.foldl_cons, List.foldl_nil, withSuffix_join]
  rw [Function.update_of_ne (hne _), Function.update_of_ne (hne _), Function.update_of_ne (hne _)]

theorem sound_legacy {content : Option C} {sidecars : String → Option C} (hs : Sound dataDir s)
    (hst : step dataDir empty s (.legacy content sidecars) = some t) : Sound dataDir t := by
  obtain ⟨legacyDir, hl, rfl⟩ := Option.map_eq_some_iff.mp hst
  have hfiles : ∀ name, (writeLegacy legacyDir content sidecars s.disk).files (join dataDir name) =
      s.disk.files (join dataDir name) :=
    fun name => writeLegacy_files hl content sidecars (inside_join dataDir name)
  have hdatabase : database (writeLegacy legacyDir content sidecars s.disk) (join dataDir dbFile) =
      database s.disk (join dataDir dbFile) := by
    simp only [database, withSuffix_join, hfiles]
  refine ⟨?_, ?_, fun hfailed => ?_⟩
  · dsimp only
    rw [hfiles, hdatabase]
    exact hs.faithful
  · dsimp only
    rw [hfiles]
    exact hs.unmixed
  · have habsent := (hs.retry hfailed).1
    rw [← hfiles] at habsent
    exact ⟨habsent, retry_adopts habsent⟩

/-- **Main result.** From a disk without the new database, the runs that stay sound and whose
launches keep what they must are exactly those whose launches are all calm. -/
theorem adoption_iff {files : Path → Option C} {es : List (Event C)}
    (h₀ : files (join dataDir dbFile) = none)
    (h : run (step dataDir empty) (installed files) es = some t) :
    Always (step dataDir empty) (Sound dataDir) (installed files) es ∧
        AllSteps (step dataDir empty) (LaunchKeeps dataDir empty) (installed files) es ↔
      AllSteps (step dataDir empty) (Calm dataDir) (installed files) es := by
  refine always_and_allSteps_iff (fun s e t hs hst => ?_) (sound_installed h₀) h
  cases e with
  | legacy content sidecars => exact iff_of_true ⟨sound_legacy hs hst, trivial⟩ trivial
  | launch cut creates =>
    show _ ↔ CalmLaunch dataDir s cut creates
    rw [← launch_iff hs hst]
    refine and_congr_right fun _ => ⟨fun hkeeps => hkeeps t hst, fun hkept t' ht' => ?_⟩
    cases hst.symm.trans ht'
    exact hkept

/-! ## One machine -/

/-- The data directory of a machine, and its legacy database with a write-ahead log. -/
def homeDir : Path := ["home", "dev.salty.app"]

/-- The directory of the app under its former name. -/
def oldDir : Path := ["home", "dev.kafkaoxide.app"]

/-- The files in it. -/
def oldFiles : Path → Option String :=
  Function.update (Function.update (fun _ => none) (join oldDir legacyDbFile) (some "db"))
    (join oldDir "kafkaoxide.sqlite-wal") (some "wal")

/-- The first launch dies at the copy of the database, the legacy app goes on and writes both of its
files anew, and the next launch adopts them. -/
def crashedRun : List (Event String) :=
  [.launch (some ⟨.copyDatabase, .crash, some "d"⟩) true,
    .legacy (some "new") fun suffix => if suffix = "-wal" then some "log" else none,
    .launch none true]

theorem adoption_iff_crashed :
    (run (step homeDir "") (installed oldFiles) crashedRun).map Install.adopted =
        some (some (some "new", [some "log", none])) ∧
      Always (step homeDir "") (Sound homeDir) (installed oldFiles) crashedRun ∧
      AllSteps (step homeDir "") (LaunchKeeps homeDir "") (installed oldFiles) crashedRun := by
  refine ⟨by decide, (adoption_iff (by decide) rfl).mpr ⟨?_, ?_⟩⟩
  · refine calmLaunch_adopting (by decide) (by decide) ?_ fun hcut => ?_
    · rintro _ ⟨⟩ - herror
      cases herror
    · exact (hcut _ rfl trivial).elim
  · rintro t ⟨⟩
    refine ⟨trivial, ?_⟩
    rintro t ⟨⟩
    refine ⟨calmLaunch_adopting (by decide) (by decide) (fun _ h => nomatch h) fun _ suffix hs hmissing => ?_,
      fun _ _ => trivial⟩
    -- The log that the first launch copied has been written over, so only "-shm" is left to compare.
    replace hmissing := hmissing.resolve_left fun ⟨_, hc, _⟩ => nomatch hc
    revert suffix
    decide

/-- The copy of the database fails: the launch creates an empty one, beside the log that was copied,
and the next launch adopts nothing. Or the launch dies there, the legacy app closes its log, and the
next launch adopts the database beside the log that was copied before. -/
theorem adoption_breaks :
    (∃ t, run (step homeDir "") (installed oldFiles)
        [.launch (some ⟨.copyDatabase, .error, none⟩) true, .launch none true] = some t ∧
      t.disk.files (join homeDir dbFile) = some "" ∧
      t.disk.files (join homeDir "salty.sqlite-wal") = some "wal" ∧ t.adopted = none ∧
      ¬ Sound homeDir t) ∧
    ∃ t, run (step homeDir "") (installed oldFiles)
        [.launch (some ⟨.copyDatabase, .crash, none⟩) true, .legacy (some "new") fun _ => none,
          .launch none true] = some t ∧
      t.adopted = some (some "new", [none, none]) ∧
      t.disk.files (join homeDir "salty.sqlite-wal") = some "wal" ∧ ¬ Sound homeDir t := by
  constructor
  · refine ⟨_, rfl, ?_, ?_, ?_, fun h => ?_⟩
    · decide
    · decide
    · decide
    · exact h.unmixed (by decide) (by decide) "-wal" (by decide) (by decide)
  · refine ⟨_, rfl, ?_, ?_, fun h => ?_⟩
    · decide
    · decide
    · have := h.faithful (some "new", [none, none]) (by decide)
      revert this
      decide

end OffsetExplorer.DataMigration
