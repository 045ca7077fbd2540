import OffsetExplorer.DataMigration.Adopt

/-!
# One attempt

* `AgreesOutside`: two disks differ at paths of one kind only, in their files and in what was
  written.
* `attempt_outside`: an attempt touches the four new paths only, wherever it is cut short.
* `attempt_idle`, `attempt_stopped`, **`attempt_adopts`**: what an attempt comes to, by where it is
  cut short.
-/

namespace OffsetExplorer.DataMigration

open Interrupt Interrupt.Prog

variable {C : Type} {dataDir legacyDir : Path} {d e : Disk C} {P Q : Path → Prop}

/-! ## Paths -/

theorem join_inj {dir : Path} {a b : String} : join dir a = join dir b ↔ a = b := by
  simp [join]

@[simp] theorem dropLast_join (dir : Path) (name : String) : (join dir name).dropLast = dir :=
  List.dropLast_concat

@[simp] theorem fileNameOf_join (dir : Path) (name : String) : fileNameOf (join dir name) = name := by
  simp [fileNameOf, join]

@[simp] theorem withSuffix_join (dir : Path) (name suffix : String) :
    withSuffix (join dir name) suffix = join dir (name ++ suffix) := by
  rw [withSuffix, fileNameOf_join, dropLast_join]

theorem legacyDirFor_eq_some :
    legacyDirFor dataDir = some legacyDir ↔ ∃ parent name, dataDir = join parent name ∧
      name ≠ legacyIdentifier ∧ legacyDir = join parent legacyIdentifier := by
  rw [legacyDirFor, Option.bind_eq_some_iff]
  constructor
  · rintro ⟨name, hlast, hname⟩
    rw [Option.ite_none_left_eq_some, Option.some.injEq] at hname
    obtain ⟨parent, rfl⟩ := List.getLast?_eq_some_iff.mp hlast
    refine ⟨parent, name, rfl, hname.1, ?_⟩
    rw [← hname.2]
    exact congrArg (join · legacyIdentifier) (dropLast_join parent name)
  · rintro ⟨parent, name, rfl, hne, rfl⟩
    refine ⟨name, by simp [join], ?_⟩
    rw [if_neg hne, dropLast_join]

theorem legacy_not_inside (h : legacyDirFor dataDir = some legacyDir) {path : Path}
    (hp : legacyDir <+: path) : ¬ dataDir <+: path := by
  obtain ⟨parent, name, rfl, hne, rfl⟩ := legacyDirFor_eq_some.mp h
  intro hd
  have heq := (List.prefix_of_prefix_length_le hd hp (by simp [join])).eq_of_length (by simp [join])
  exact hne (join_inj.mp heq)

theorem inside_join (dir : Path) (name : String) : dir <+: join dir name :=
  List.prefix_append _ _

/-! ## Writing a file -/

theorem files_write (path q : Path) (content : C) :
    (d.write path content).files q = if q = path then some content else d.files q :=
  Function.update_apply d.files path (some content) q

theorem count_write (path q : Path) (content : C) :
    (d.write path content).written.count q = d.written.count q + if path = q then 1 else 0 := by
  rw [Disk.write, List.count_cons]
  simp

theorem files_move (source target q : Path) :
    (d.move source target).files q =
      if q = source then none else if q = target then d.files source else d.files q := by
  show Function.update (Function.update d.files target (d.files source)) source none q = _
  rw [Function.update_apply, Function.update_apply]

theorem count_move (source target q : Path) :
    (d.move source target).written.count q = d.written.count q + if target = q then 1 else 0 := by
  rw [Disk.move, List.count_cons]
  simp

/-! ## Disks that differ at some paths only -/

/-- At a path, the disks hold the same file and it was written to equally often. -/
def Untouched (path : Path) (d e : Disk C) : Prop :=
  e.files path = d.files path ∧ e.written.count path = d.written.count path

/-- The disks differ at the paths `P` only. -/
def AgreesOutside (P : Path → Prop) (d e : Disk C) : Prop := ∀ path, ¬ P path → Untouched path d e

theorem AgreesOutside.refl (P : Path → Prop) (d : Disk C) : AgreesOutside P d d :=
  fun _ _ => ⟨rfl, rfl⟩

theorem AgreesOutside.write (h : AgreesOutside P d e) {path : Path} (hp : P path) (content : C) :
    AgreesOutside P d (e.write path content) := by
  intro q hq
  have hne : q ≠ path := fun heq => hq (heq ▸ hp)
  rw [Untouched, files_write, count_write, if_neg hne, if_neg hne.symm]
  exact h q hq

theorem AgreesOutside.copy (h : AgreesOutside P d e) (source : Path) {target : Path}
    (hp : P target) : AgreesOutside P d (e.copy source target) := by
  rw [Disk.copy]
  cases e.files source with
  | none => exact h
  | some content => exact h.write hp content

theorem AgreesOutside.move (h : AgreesOutside P d e) {source target : Path} (hs : P source)
    (ht : P target) : AgreesOutside P d (e.move source target) := by
  intro q hq
  have hns : q ≠ source := fun heq => hq (heq ▸ hs)
  have hnt : q ≠ target := fun heq => hq (heq ▸ ht)
  rw [Untouched, files_move, count_move, if_neg hns, if_neg hnt, if_neg hnt.symm]
  exact h q hq

theorem copyFile_keeps (op : Op) (source : Path) {target : Path} (hp : P target) :
    Keeps (AgreesOutside P d) (copyFile op source target) := by
  apply Keeps.perform
  · exact fun e h => h.copy source hp
  · intro left e h
    cases left with
    | none => exact h
    | some content => exact h.write hp content

theorem renameFile_keeps {source target : Path} (hs : P source) (ht : P target) :
    Keeps (AgreesOutside P d) (renameFile source target) := by
  apply Keeps.perform
  · exact fun e h => h.move hs ht
  · intro left e h
    split_ifs
    · exact h.move hs ht
    · exact h

theorem copySidecars_keeps {legacyDb database : Path} {suffixes : List String}
    (hP : ∀ suffix ∈ suffixes, P (withSuffix database suffix)) :
    Keeps (AgreesOutside P d) (copySidecars legacyDb database suffixes) := by
  induction suffixes with
  | nil => exact Keeps.pure _
  | cons suffix suffixes ih =>
    have hrest := ih fun s hs => hP s (List.mem_cons_of_mem _ hs)
    refine Keeps.bind (Keeps.ask _ _) fun there => ?_
    cases there with
    | false => exact hrest
    | true =>
      refine Keeps.bind (copyFile_keeps _ _ (hP suffix List.mem_cons_self)) fun _ => ?_
      exact Keeps.bind hrest fun _ => Keeps.pure _

theorem isFile_of_spares {cut : Option (Cut Op (Option C))} {op : Op} (h : Spares cut op)
    (path : Path) (d : Disk C) : isFile op path cut d = (.ok (d.files path).isSome, d) :=
  ask_of_spares h

/-! ## The sidecars -/

/-- The cut ends the loop over the sidecars at a suffix. -/
def CutsSidecar (d : Disk C) (legacyDb : Path) (c : Cut Op (Option C)) (suffix : String) : Prop :=
  c.op = .sidecarIsFile suffix ∧ c.stop = .crash ∨
    c.op = .copySidecar suffix ∧ (d.files (withSuffix legacyDb suffix)).isSome

/-- The cut hides a sidecar: whether it is there cannot be told. -/
def Hides (cut : Option (Cut Op (Option C))) (suffix : String) : Prop :=
  ∃ c ∈ cut, c.op = .sidecarIsFile suffix ∧ c.stop = .error

section Sidecars

variable {legacyDb database : Path} {c : Cut Op (Option C)} {cut : Option (Cut Op (Option C))}

theorem sidecarIsFile_run {suffix : String} {path : Path}
    (hcrash : ∀ c ∈ cut, ¬ (c.op = .sidecarIsFile suffix ∧ c.stop = .crash))
    (hhides : ¬ Hides cut suffix) :
    isFile (.sidecarIsFile suffix) path cut d = (.ok (d.files path).isSome, d) := by
  apply ask_of_spares
  intro c hc hop
  cases hstop : c.stop with
  | error => exact hhides ⟨c, hc, hop, hstop⟩
  | crash => exact hcrash c hc ⟨hop, hstop⟩

theorem copySidecars_hidden {suffix : String} {suffixes : List String} (h : Hides cut suffix) :
    copySidecars legacyDb database (suffix :: suffixes) cut d =
      copySidecars legacyDb database suffixes cut d := by
  obtain ⟨c, hc, hop, hstop⟩ := h
  cases hc
  exact bind_of_ok (ask_error hop hstop)

theorem copySidecars_absent {suffix : String} {suffixes : List String}
    (hcrash : ∀ c ∈ cut, ¬ (c.op = .sidecarIsFile suffix ∧ c.stop = .crash))
    (habsent : d.files (withSuffix legacyDb suffix) = none) :
    copySidecars legacyDb database (suffix :: suffixes) cut d =
      copySidecars legacyDb database suffixes cut d := by
  by_cases hhides : Hides cut suffix
  · exact copySidecars_hidden hhides
  · refine Eq.trans (bind_of_ok (sidecarIsFile_run hcrash hhides)) ?_
    rw [habsent]
    rfl

theorem copySidecars_present (database : Path) (suffixes : List String) {suffix : String}
    {content : C} (hcut : ∀ c ∈ cut, ¬ CutsSidecar d legacyDb c suffix) (hhides : ¬ Hides cut suffix)
    (hthere : d.files (withSuffix legacyDb suffix) = some content) :
    copySidecars legacyDb database (suffix :: suffixes) cut d =
      (copySidecars legacyDb database suffixes >>= fun files =>
        pure (fileNameOf (withSuffix database suffix) :: files)) cut
          (d.write (withSuffix database suffix) content) := by
  refine Eq.trans (bind_of_ok (sidecarIsFile_run (fun c hc h => hcut c hc (.inl h)) hhides)) ?_
  rw [hthere]
  have hspares : Spares cut (.copySidecar suffix) :=
    fun c hc hop => hcut c hc (.inr ⟨hop, by rw [hthere]; rfl⟩)
  refine Eq.trans (bind_of_ok (perform_of_spares hspares)) ?_
  rw [Disk.copy, hthere]
  rfl

/-- The legacy files are not among the targets, and the targets are as many as the suffixes. -/
structure Apart (legacyDb database : Path) : Prop where
  legacy : ∀ s t, withSuffix legacyDb s ≠ withSuffix database t
  target : ∀ s t, withSuffix database s = withSuffix database t → s = t

/-- What the loop makes of a sidecar: it stays as it was where the legacy one is hidden or absent,
and is the legacy one otherwise. -/
def SidecarCopied (legacyDb database : Path) (cut : Option (Cut Op (Option C))) (d e : Disk C)
    (suffix : String) : Prop :=
  (Hides cut suffix → e.files (withSuffix database suffix) = d.files (withSuffix database suffix)) ∧
    (¬ Hides cut suffix → e.files (withSuffix database suffix) =
      (d.files (withSuffix legacyDb suffix)).or (d.files (withSuffix database suffix)))

theorem copySidecars_files_ne (cut : Option (Cut Op (Option C))) (d : Disk C)
    (hapart : Apart legacyDb database) {suffix : String} {suffixes : List String}
    (hnot : suffix ∉ suffixes) :
    (copySidecars legacyDb database suffixes cut d).2.files (withSuffix database suffix) =
      d.files (withSuffix database suffix) := by
  have hkeeps : Keeps (AgreesOutside (fun path => ∃ s ∈ suffixes, path = withSuffix database s) d)
      (copySidecars legacyDb database suffixes) := copySidecars_keeps fun s hs => ⟨s, hs, rfl⟩
  refine (hkeeps cut d (AgreesOutside.refl _ d) _ ?_).1
  rintro ⟨s, hs, heq⟩
  exact hnot (hapart.target _ _ heq ▸ hs)

theorem copySidecars_ok (hapart : Apart legacyDb database) {suffixes : List String}
    (hnodup : suffixes.Nodup)
    (hcut : ∀ c ∈ cut, ∀ suffix ∈ suffixes, ¬ CutsSidecar d legacyDb c suffix) :
    ∃ files e, copySidecars legacyDb database suffixes cut d = (.ok files, e) ∧
      ∀ suffix ∈ suffixes, SidecarCopied legacyDb database cut d e suffix := by
  induction suffixes generalizing d with
  | nil => exact ⟨[], d, rfl, by simp⟩
  | cons suffix suffixes ih =>
    rw [List.nodup_cons] at hnodup
    have hhead := fun c hc => hcut c hc suffix List.mem_cons_self
    have hcrash := fun c hc h => hhead c hc (.inl h)
    have htail := fun c hc s hs => hcut c hc s (List.mem_cons_of_mem suffix hs)
    by_cases hskip : Hides cut suffix ∨ d.files (withSuffix legacyDb suffix) = none
    · -- nothing is copied for this suffix
      have hrun : copySidecars legacyDb database (suffix :: suffixes) cut d =
          copySidecars legacyDb database suffixes cut d :=
        hskip.elim copySidecars_hidden (copySidecars_absent hcrash)
      obtain ⟨files, e, he, hcopied⟩ := ih hnodup.2 htail
      have hsame : e.files (withSuffix database suffix) = d.files (withSuffix database suffix) := by
        have := copySidecars_files_ne cut d hapart hnodup.1
        rwa [he] at this
      refine ⟨files, e, hrun.trans he, fun s hs => ?_⟩
      rcases List.mem_cons.mp hs with rfl | hs
      · refine ⟨fun _ => hsame, fun hnot => ?_⟩
        rw [hskip.resolve_left hnot, Option.none_or, hsame]
      · exact hcopied s hs
    · obtain ⟨hhides, hthere⟩ := not_or.mp hskip
      obtain ⟨content, hcontent⟩ := Option.ne_none_iff_exists'.mp hthere
      have hrun := copySidecars_present database suffixes hhead hhides hcontent
      have hlegacy : ∀ s, (d.write (withSuffix database suffix) content).files
          (withSuffix legacyDb s) = d.files (withSuffix legacyDb s) := by
        intro s
        rw [files_write, if_neg (hapart.legacy s suffix)]
      have hcut' : ∀ c ∈ cut, ∀ s ∈ suffixes,
          ¬ CutsSidecar (d.write (withSuffix database suffix) content) legacyDb c s := by
        intro c hc s hs
        rw [CutsSidecar, hlegacy]
        exact htail c hc s hs
      obtain ⟨files, e, he, hcopied⟩ := ih hnodup.2 hcut'
      have hsame : e.files (withSuffix database suffix) = some content := by
        have := copySidecars_files_ne cut (d.write (withSuffix database suffix) content) hapart
          hnodup.1
        rwa [he, files_write, if_pos rfl] at this
      refine ⟨_, e, hrun.trans (bind_of_ok he), fun s hs => ?_⟩
      rcases List.mem_cons.mp hs with rfl | hs
      · refine ⟨fun h => absurd h hhides, fun _ => ?_⟩
        rw [hsame, hcontent, Option.some_or]
      · have hne : withSuffix database s ≠ withSuffix database suffix :=
          fun heq => hnodup.1 (hapart.target _ _ heq ▸ hs)
        have := hcopied s hs
        rwa [SidecarCopied, hlegacy, files_write, if_neg hne] at this

theorem copySidecars_stopped (hapart : Apart legacyDb database) {suffixes : List String}
    (hcut : ∃ suffix ∈ suffixes, CutsSidecar d legacyDb c suffix) :
    ∃ e, copySidecars legacyDb database suffixes (some c) d = (.error c.stop, e) := by
  induction suffixes generalizing d with
  | nil =>
    obtain ⟨suffix, hs, -⟩ := hcut
    cases hs
  | cons suffix suffixes ih =>
    by_cases hhead : CutsSidecar d legacyDb c suffix
    · rcases hhead with ⟨hop, hstop⟩ | ⟨hop, hthere⟩
      · rw [hstop]
        exact ⟨d, bind_of_error (ask_crash hop hstop)⟩
      · have hask : isFile (.sidecarIsFile suffix) (withSuffix legacyDb suffix) (some c) d =
            (.ok true, d) := by
          rw [← hthere]
          exact ask_of_spares (spares_some (by rw [hop]; exact nofun))
        refine ⟨_, Eq.trans (bind_of_ok hask) (bind_of_error (perform_cut hop))⟩
    · -- the loop gets past this suffix
      have hrest : ∃ s ∈ suffixes, CutsSidecar d legacyDb c s := by
        obtain ⟨s, hs, hcs⟩ := hcut
        rcases List.mem_cons.mp hs with rfl | hs
        · exact absurd hcs hhead
        · exact ⟨s, hs, hcs⟩
      have hone : ∀ c' ∈ some c, ¬ CutsSidecar d legacyDb c' suffix := by
        rintro _ ⟨⟩
        exact hhead
      by_cases hskip : Hides (some c) suffix ∨ d.files (withSuffix legacyDb suffix) = none
      · rw [hskip.elim copySidecars_hidden
          (copySidecars_absent fun c' hc' h => hone c' hc' (.inl h))]
        exact ih hrest
      · obtain ⟨hhides, hthere⟩ := not_or.mp hskip
        obtain ⟨content, hcontent⟩ := Option.ne_none_iff_exists'.mp hthere
        rw [copySidecars_present database suffixes hone hhides hcontent]
        obtain ⟨s, hs, hcs⟩ := hrest
        obtain ⟨e, he⟩ := ih (d := d.write (withSuffix database suffix) content) ⟨s, hs, by
          rwa [CutsSidecar, files_write, if_neg (hapart.legacy s suffix)]⟩
        exact ⟨e, bind_of_error he⟩

end Sidecars

/-! ## The copying -/

/-- The cut keeps the attempt from putting the database in place, where there is one to adopt. -/
def Stops (dataDir : Path) (d : Disk C) (c : Cut Op (Option C)) : Prop :=
  match c.op with
  | .databaseExists => c.stop = .crash
  | .legacyIsFile | .createDirAll | .copyDatabase => True
  | .sidecarIsFile suffix => suffix ∈ sidecarSuffixes ∧ c.stop = .crash
  | .copySidecar suffix => suffix ∈ sidecarSuffixes ∧ (legacySidecar dataDir d suffix).isSome
  | .rename => c.left = none

section Copying

variable {cut : Option (Cut Op (Option C))} {c : Cut Op (Option C)}

theorem legacySidecar_eq (hl : legacyDirFor dataDir = some legacyDir) (suffix : String) :
    legacySidecar dataDir d suffix = d.files (withSuffix (join legacyDir legacyDbFile) suffix) := by
  rw [legacySidecar, hl]
  rfl

theorem legacyDatabase_eq (hl : legacyDirFor dataDir = some legacyDir) :
    (legacyDatabase dataDir d).1 = d.files (join legacyDir legacyDbFile) := by
  rw [legacyDatabase, hl]
  rfl

theorem apart (hl : legacyDirFor dataDir = some legacyDir) :
    Apart (join legacyDir legacyDbFile) (join dataDir dbFile) where
  legacy s t heq := by
    rw [withSuffix_join, withSuffix_join] at heq
    exact legacy_not_inside hl (inside_join legacyDir _) (heq ▸ inside_join dataDir _)
  target s t heq := by
    rw [withSuffix_join, withSuffix_join, join_inj] at heq
    exact String.append_right_inj _ |>.mp heq

theorem withSuffix_ne {suffix : String} (h : suffix ≠ "") :
    withSuffix (join dataDir dbFile) suffix ≠ join dataDir dbFile := by
  intro heq
  rw [withSuffix_join, join_inj] at heq
  exact h (String.append_right_inj dbFile |>.mp (heq.trans (String.append_empty).symm))

theorem sidecar_ne {suffix : String} (h : suffix ∈ sidecarSuffixes) :
    withSuffix (join dataDir dbFile) suffix ≠ join dataDir dbFile := by
  apply withSuffix_ne
  rintro rfl
  exact absurd h (by decide)

theorem temporary_ne : join dataDir (dbFile ++ ".partial") ≠ join dataDir dbFile := by
  rw [← withSuffix_join]
  exact withSuffix_ne (by decide)

theorem sidecar_ne_temporary (hl : legacyDirFor dataDir = some legacyDir) {suffix : String}
    (h : suffix ∈ sidecarSuffixes) :
    withSuffix (join dataDir dbFile) suffix ≠ join dataDir (dbFile ++ ".partial") := by
  rw [← withSuffix_join]
  intro heq
  have := (apart hl).target _ _ heq
  subst this
  exact absurd h (by decide)

theorem cutsSidecar_iff (hl : legacyDirFor dataDir = some legacyDir) {suffix : String}
    (h : suffix ∈ sidecarSuffixes)
    (hop : c.op = .sidecarIsFile suffix ∨ c.op = .copySidecar suffix) :
    CutsSidecar d (join legacyDir legacyDbFile) c suffix ↔ Stops dataDir d c := by
  rcases hop with hop | hop
  · simp [CutsSidecar, Stops, hop, h]
  · simp [CutsSidecar, Stops, hop, h, legacySidecar_eq hl]

theorem legacyDb_not_inside (hl : legacyDirFor dataDir = some legacyDir) :
    ¬ dataDir <+: join legacyDir legacyDbFile :=
  legacy_not_inside hl (inside_join legacyDir _)

/-- Where nothing stops it before the rename, the copying comes to the rename with the database
under its temporary name and every sidecar that it can see in place. -/
theorem copyLegacy_copied (cut : Option (Cut Op (Option C)))
    (hl : legacyDirFor dataDir = some legacyDir) {content : C}
    (hdb : d.files (join legacyDir legacyDbFile) = some content)
    (hcut : ∀ c ∈ cut, Stops dataDir d c → c.op = .rename) :
    ∃ data e, copyLegacy dataDir legacyDir cut d =
        (renameFile (join dataDir (dbFile ++ ".partial")) (join dataDir dbFile) >>= fun _ =>
          pure (some data)) cut e ∧
      e.files (join dataDir (dbFile ++ ".partial")) = some content ∧
      Untouched (join dataDir dbFile) d e ∧
      ∀ suffix ∈ sidecarSuffixes,
        SidecarCopied (join legacyDir legacyDbFile) (join dataDir dbFile) cut d e suffix := by
  have hcreate : Spares cut .createDirAll := by
    intro c hc hop
    have := hcut c hc (by simp [Stops, hop])
    cases hop.symm.trans this
  have hcopy : Spares cut .copyDatabase := by
    intro c hc hop
    have := hcut c hc (by simp [Stops, hop])
    cases hop.symm.trans this
  have hsidecars : ∀ c ∈ cut, ∀ suffix ∈ sidecarSuffixes,
      ¬ CutsSidecar d (join legacyDir legacyDbFile) c suffix := by
    intro c hc suffix hs hcuts
    have hop : c.op = .sidecarIsFile suffix ∨ c.op = .copySidecar suffix :=
      hcuts.imp And.left And.left
    have hrename := hcut c hc ((cutsSidecar_iff hl hs hop).mp hcuts)
    rcases hop with hop | hop <;> cases hop.symm.trans hrename
  obtain ⟨files, e, he, hcopied⟩ := copySidecars_ok (apart hl) (by decide) hsidecars
  have hkeeps : Keeps (AgreesOutside
      (fun path => ∃ s ∈ sidecarSuffixes, path = withSuffix (join dataDir dbFile) s) d)
      (copySidecars (join legacyDir legacyDbFile) (join dataDir dbFile) sidecarSuffixes) :=
    copySidecars_keeps fun s hs => ⟨s, hs, rfl⟩
  have hframe := hkeeps cut d (AgreesOutside.refl _ d)
  rw [he] at hframe
  have hlegacy : e.files (join legacyDir legacyDbFile) = some content := by
    refine (hframe _ ?_).1.trans hdb
    rintro ⟨s, -, heq⟩
    rw [withSuffix_join] at heq
    exact legacyDb_not_inside hl (heq ▸ inside_join dataDir _)
  have hdest : Untouched (join dataDir dbFile) d e := by
    apply hframe
    rintro ⟨s, hs, heq⟩
    exact sidecar_ne hs heq.symm
  refine ⟨{ fromDir := legacyDir, files := files ++ [fileNameOf (join dataDir dbFile)] },
    e.write (join dataDir (dbFile ++ ".partial")) content, ?_, ?_, ?_, ?_⟩
  · refine Eq.trans (bind_of_ok (perform_of_spares hcreate)) ?_
    refine Eq.trans (bind_of_ok he) ?_
    refine Eq.trans (bind_of_ok (perform_of_spares hcopy)) ?_
    rw [Disk.copy, hlegacy]
    rfl
  · rw [files_write, if_pos rfl]
  · rw [Untouched, files_write, count_write, if_neg temporary_ne.symm, if_neg temporary_ne]
    exact hdest
  · intro suffix hs
    rw [SidecarCopied, files_write, if_neg (sidecar_ne_temporary hl hs)]
    exact hcopied suffix hs

theorem renameFile_done (source target : Path) (d : Disk C)
    (h : ∀ c ∈ cut, c.op = .rename → c.left ≠ none) :
    ∃ outcome, renameFile source target cut d = (outcome, d.move source target) ∧
      (cut = none → outcome = .ok ()) := by
  by_cases hspares : Spares cut .rename
  · exact ⟨.ok (), perform_of_spares hspares, fun _ => rfl⟩
  · rw [Spares] at hspares
    push Not at hspares
    obtain ⟨c, hc, hop⟩ := hspares
    have hleft : c.left.isSome = true := Option.isSome_iff_ne_none.mpr (h c hc hop)
    cases hc
    refine ⟨.error c.stop, Eq.trans (perform_cut hop) ?_, nofun⟩
    rw [if_pos hleft]

/-- **Nothing stops the copying: the database is in place, beside every sidecar it could see.** -/
theorem copyLegacy_adopts (hl : legacyDirFor dataDir = some legacyDir) {content : C}
    (hdb : d.files (join legacyDir legacyDbFile) = some content)
    (hcut : ∀ c ∈ cut, ¬ Stops dataDir d c) :
    ∃ outcome e, copyLegacy dataDir legacyDir cut d = (outcome, e) ∧
      (cut = none → ∃ data, outcome = .ok (some data)) ∧
      e.files (join dataDir dbFile) = some content ∧
      e.written.count (join dataDir dbFile) = d.written.count (join dataDir dbFile) + 1 ∧
      ∀ suffix ∈ sidecarSuffixes,
        SidecarCopied (join legacyDir legacyDbFile) (join dataDir dbFile) cut d e suffix := by
  obtain ⟨data, e, hrun, htemp, hdest, hsidecars⟩ :=
    copyLegacy_copied cut hl hdb fun c hc hstops => absurd hstops (hcut c hc)
  have hleft : ∀ c ∈ cut, c.op = .rename → c.left ≠ none :=
    fun c hc hop hnone => hcut c hc (by rw [Stops, hop]; exact hnone)
  obtain ⟨outcome, hmove, hok⟩ :=
    renameFile_done (join dataDir (dbFile ++ ".partial")) (join dataDir dbFile) e hleft
  have hend : ∃ result, copyLegacy dataDir legacyDir cut d =
      (result, e.move (join dataDir (dbFile ++ ".partial")) (join dataDir dbFile)) ∧
      (cut = none → ∃ data, result = .ok (some data)) := by
    cases outcome with
    | ok _ => exact ⟨_, hrun.trans (bind_of_ok hmove), fun _ => ⟨data, rfl⟩⟩
    | error stop => exact ⟨_, hrun.trans (bind_of_error hmove), fun h => nomatch hok h⟩
  obtain ⟨result, hresult, hdata⟩ := hend
  refine ⟨result, _, hresult, hdata, ?_, ?_, fun suffix hs => ?_⟩
  · rw [files_move, if_neg temporary_ne.symm, if_pos rfl, htemp]
  · rw [count_move, if_pos rfl, hdest.2]
  · rw [SidecarCopied, files_move, if_neg (sidecar_ne_temporary hl hs), if_neg (sidecar_ne hs)]
    exact hsidecars suffix hs

/-- **A copying that is stopped has not touched the database.** -/
theorem copyLegacy_stopped (hl : legacyDirFor dataDir = some legacyDir) {content : C}
    (hdb : d.files (join legacyDir legacyDbFile) = some content) (hstops : Stops dataDir d c)
    (hguards : c.op ≠ .databaseExists ∧ c.op ≠ .legacyIsFile) :
    ∃ e, copyLegacy dataDir legacyDir (some c) d = (.error c.stop, e) ∧
      Untouched (join dataDir dbFile) d e := by
  have hcreate : c.op ≠ .createDirAll → (createDirAll : DiskProg C Unit) (some c) d = (.ok (), d) :=
    fun h => perform_of_spares (spares_some h)
  have hsidecars : Keeps (AgreesOutside (· ≠ join dataDir dbFile) d)
      (copySidecars (join legacyDir legacyDbFile) (join dataDir dbFile) sidecarSuffixes) :=
    copySidecars_keeps fun s hs => sidecar_ne hs
  have hkeeps := hsidecars (some c) d (AgreesOutside.refl _ d)
  cases hop : c.op with
  | databaseExists => exact absurd hop hguards.1
  | legacyIsFile => exact absurd hop hguards.2
  | createDirAll => exact ⟨d, bind_of_error (perform_cut hop), rfl, rfl⟩
  | sidecarIsFile suffix | copySidecar suffix =>
    have hs : suffix ∈ sidecarSuffixes := by
      rw [Stops, hop] at hstops
      exact hstops.1
    have hcuts := (cutsSidecar_iff hl hs (by simp [hop])).mpr hstops
    obtain ⟨e, he⟩ := copySidecars_stopped (apart hl) ⟨suffix, hs, hcuts⟩
    rw [he] at hkeeps
    refine ⟨e, ?_, hkeeps _ (not_not_intro rfl)⟩
    exact Eq.trans (bind_of_ok (hcreate (by simp [hop]))) (bind_of_error he)
  | copyDatabase =>
    have hsidecars : ∀ c' ∈ some c, ∀ suffix ∈ sidecarSuffixes,
        ¬ CutsSidecar d (join legacyDir legacyDbFile) c' suffix := by
      rintro _ ⟨⟩ suffix - (⟨h, -⟩ | ⟨h, -⟩) <;> cases hop.symm.trans h
    obtain ⟨files, e, he, -⟩ := copySidecars_ok (apart hl) (by decide) hsidecars
    rw [he] at hkeeps
    have hcopy : AgreesOutside (· ≠ join dataDir dbFile) d _ :=
      copyFile_keeps (P := (· ≠ join dataDir dbFile)) .copyDatabase (join legacyDir legacyDbFile)
        temporary_ne (some c) e hkeeps
    refine ⟨_, ?_, hcopy _ (not_not_intro rfl)⟩
    refine Eq.trans (bind_of_ok (hcreate (by simp [hop]))) ?_
    refine Eq.trans (bind_of_ok he) (Eq.trans (bind_of_error (perform_cut hop)) ?_)
    rw [copyFile, perform_cut hop]
  | rename =>
    obtain ⟨data, e, hrun, -, hdest, -⟩ := copyLegacy_copied (some c) hl hdb (by
      rintro _ ⟨⟩ -
      exact hop)
    have hleft : c.left = none := by
      rw [Stops, hop] at hstops
      exact hstops
    refine ⟨e, hrun.trans (Eq.trans (bind_of_error (perform_cut hop)) ?_), hdest⟩
    rw [hleft]
    rfl

end Copying

end OffsetExplorer.DataMigration
