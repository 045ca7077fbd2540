import OffsetExplorer.Core.Connection
import OffsetExplorer.Error
import Mathlib.Data.List.Basic
import Mathlib.Data.List.Nodup
import Mathlib.Data.Nat.Notation

/-!
# Importing connections

`connection_export` and the command over it: the entries of an export file whose names are not taken yet
are created, one row after another.

* `ConnectionExportFile.parse`, `selectForExport`, `partitionImportable`: the file and what goes into and
  out of it.
* `connectionsImport`: the command; what it meets outside is in `Outside`.
* `NoNewDuplicates`: no name is shared that was not shared before.
* **`import_sound_iff`**: an import that goes through makes no duplicates exactly if the new names of its
  file are all different.
-/

namespace OffsetExplorer.Core

/-! ## The file -/

/-- Files of later versions are refused. -/
def currentExportVersion : ℕ := 1

/-- The document of an export. -/
structure ConnectionExportFile where
  saltyConnectionsVersion : ℕ
  connections : List PortableConnection
  deriving DecidableEq

/-- The file of a text; whether the text is JSON of that shape is decided by `fromJson`. -/
def ConnectionExportFile.parse (fromJson : String → Option ConnectionExportFile) (text : String) :
    Except Report ConnectionExportFile :=
  match fromJson text with
  | none => .error ⟨.validation, ["not a valid salty connections export file"]⟩
  | some file =>
    if file.saltyConnectionsVersion ≠ currentExportVersion then
      .error ⟨.validation, [s!"unsupported connections export file version " ++
        s!"{file.saltyConnectionsVersion} (expected {currentExportVersion})"]⟩
    else .ok file

/-- The connections that an export includes: all, or those of the ids. -/
def selectForExport (all : List Connection) : Option (List String) → List PortableConnection
  | none => all.map .ofConnection
  | some ids => (all.filter fun connection => connection.id ∈ ids).map .ofConnection

/-- The entries that no existing connection has the name of, and the number of the others. -/
def partitionImportable (entries : List PortableConnection) (existingNames : List String) :
    List PortableConnection × ℕ :=
  entries.foldl (fun (importable, skipped) entry =>
    if entry.name ∈ existingNames then (importable, skipped + 1)
    else (importable ++ [entry], skipped)) ([], 0)

/-! ## The command -/

/-- What becomes of an `INSERT` and of reading the row back. -/
inductive Insert where
  | inserted (id now : String)
  | unread (id now : String) (report : Report)
  | failed (report : Report)

/-- What the command meets outside: files, JSON, and the database. -/
structure Outside where
  readToString : String → Option String
  fromJson : String → Option ConnectionExportFile
  list : Except Report Unit
  insert : ℕ → Insert

/-- What an import reports. -/
structure ImportSummary where
  imported : ℕ
  skipped : ℕ
  deriving DecidableEq

variable (outside : Outside)

/-- The row of an imported entry. -/
def importedRow (portable : PortableConnection) (id now : String) : Connection :=
  { portable.toNewConnection with id, createdAt := now, updatedAt := now }

/-- The rows after the entries were created, from the `k`-th `INSERT` on. -/
def createEach : ℕ → List PortableConnection → List Connection →
    List Connection × Except Report Unit
  | _, [], rows => (rows, .ok ())
  | k, portable :: rest, rows =>
    match outside.insert k with
    | .inserted id now => createEach (k + 1) rest (rows ++ [importedRow portable id now])
    | .unread id now report => (rows ++ [importedRow portable id now], .error report)
    | .failed report => (rows, .error report)

/-- The file that is imported. -/
def importFile (path : String) : Except Report ConnectionExportFile :=
  match outside.readToString path with
  | none => .error ⟨.validation, ["failed to read the connections export file"]⟩
  | some text => ConnectionExportFile.parse outside.fromJson text

/-- The command `connections_import`, with the rows that it leaves behind. -/
def connectionsImport (path : String) (rows : List Connection) :
    List Connection × Except Report ImportSummary :=
  match importFile outside path with
  | .error report => (rows, .error report)
  | .ok file =>
    match outside.list with
    | .error report => (rows, .error report)
    | .ok () =>
      let (importable, skipped) := partitionImportable file.connections (rows.map (·.name))
      let (rows, created) := createEach outside 0 importable rows
      (rows, created.map fun _ => { imported := importable.length, skipped })

/-- Two connections share a name only if two did before. -/
def NoNewDuplicates (before after : List Connection) : Prop :=
  ∀ name, 1 < (after.map (·.name)).count name → 1 < (before.map (·.name)).count name

/-- The names of the entries that no connection has yet. -/
def newNames (entries : List PortableConnection) (rows : List Connection) : List String :=
  (entries.filter fun entry => entry.name ∉ rows.map (·.name)).map (·.name)

variable {outside} {path : String} {entries : List PortableConnection} {rows after : List Connection}

/-! ## What is created -/

theorem partitionImportable_eq (entries : List PortableConnection) (existingNames : List String) :
    partitionImportable entries existingNames =
      (entries.filter fun entry => entry.name ∉ existingNames,
        (entries.filter fun entry => entry.name ∈ existingNames).length) := by
  have hfold : ∀ (entries importable : List PortableConnection) (skipped : ℕ),
      entries.foldl (fun (importable, skipped) entry =>
        if entry.name ∈ existingNames then (importable, skipped + 1)
        else (importable ++ [entry], skipped)) (importable, skipped) =
      (importable ++ entries.filter fun entry => entry.name ∉ existingNames,
        skipped + (entries.filter fun entry => entry.name ∈ existingNames).length) := by
    intro entries
    induction entries with
    | nil => simp
    | cons entry rest ih =>
      intro importable skipped
      by_cases hname : entry.name ∈ existingNames
      · simp only [List.foldl_cons, hname, if_true, ih]
        simp [hname]
        omega
      · simp only [List.foldl_cons, hname, if_false, ih]
        simp [hname]
  exact (hfold entries [] 0).trans (by simp)

theorem partitionImportable_length (entries : List PortableConnection) (existingNames : List String) :
    (partitionImportable entries existingNames).1.length +
      (partitionImportable entries existingNames).2 = entries.length := by
  rw [partitionImportable_eq]
  induction entries with
  | nil => rfl
  | cons entry rest ih =>
    by_cases hname : entry.name ∈ existingNames
    · simp [hname] at ih ⊢
      omega
    · simp [hname] at ih ⊢
      omega

/-- Rows are added for a part of the entries from the front, and for all of them if nothing fails. -/
theorem createEach_names (k : ℕ) (entries : List PortableConnection) (rows : List Connection) :
    ∃ names, (createEach outside k entries rows).1.map (·.name) = rows.map (·.name) ++ names ∧
      names <+: entries.map (·.name) ∧
      ((createEach outside k entries rows).2 = .ok () → names = entries.map (·.name)) := by
  induction entries generalizing k rows with
  | nil => exact ⟨[], by simp [createEach], List.nil_prefix, fun _ => rfl⟩
  | cons portable rest ih =>
    rw [createEach]
    cases outside.insert k with
    | inserted id now =>
      obtain ⟨names, hnames, hstart, hall⟩ := ih (k + 1) (rows ++ [importedRow portable id now])
      refine ⟨portable.name :: names, ?_, (List.prefix_cons_inj _).mpr hstart, fun h => ?_⟩
      · rw [hnames]
        simp [importedRow, PortableConnection.toNewConnection]
      · rw [List.map_cons, hall h]
    | unread id now report =>
      refine ⟨[portable.name], ?_, (List.prefix_cons_inj _).mpr List.nil_prefix, nofun⟩
      simp [importedRow, PortableConnection.toNewConnection]
      | failed report => exact ⟨[], by simp, List.nil_prefix, nofun⟩

/-! ## Duplicates -/

theorem noNewDuplicates_refl : NoNewDuplicates rows rows := fun _ h => h

theorem count_eq_zero_of_newNames {name : String} {names : List String}
    (hsub : names.Sublist (newNames entries rows)) (hname : name ∈ rows.map (·.name)) :
    names.count name = 0 := by
  rw [List.count_eq_zero]
  intro hmem
  obtain ⟨entry, hentry, rfl⟩ := List.mem_map.mp (hsub.subset hmem)
  exact of_decide_eq_true (List.mem_filter.mp hentry).2 hname

theorem noNewDuplicates_of_nodup {names : List String}
    (hafter : after.map (·.name) = rows.map (·.name) ++ names)
    (hsub : names.Sublist (newNames entries rows)) (hnodup : (newNames entries rows).Nodup) :
    NoNewDuplicates rows after := by
  intro name hshared
  rw [hafter, List.count_append] at hshared
  by_cases hname : name ∈ rows.map (·.name)
  · rwa [count_eq_zero_of_newNames hsub hname, Nat.add_zero] at hshared
  · have hbefore : (rows.map (·.name)).count name = 0 := List.count_eq_zero.mpr hname
    have hnew : names.count name ≤ 1 := List.nodup_iff_count_le_one.mp (hnodup.sublist hsub) name
    omega

theorem nodup_of_noNewDuplicates
    (hafter : after.map (·.name) = rows.map (·.name) ++ newNames entries rows)
    (h : NoNewDuplicates rows after) : (newNames entries rows).Nodup := by
  rw [List.nodup_iff_count_le_one]
  intro name
  by_contra hcount
  have hnew : name ∉ rows.map (·.name) := fun hname => by
    rw [count_eq_zero_of_newNames (List.Sublist.refl _) hname] at hcount
    omega
  have hshared := h name
  rw [hafter, List.count_append, List.count_eq_zero.mpr hnew] at hshared
  omega

/-- Once every entry has its name among the connections, there is nothing to import. -/
theorem connectionsImport_again {again : Outside} {file : ConnectionExportFile}
    (hfile : importFile again path = .ok file) (hlist : again.list = .ok ())
    (hnames : ∀ entry ∈ file.connections, entry.name ∈ after.map (·.name)) :
    connectionsImport again path after = (after, .ok ⟨0, file.connections.length⟩) := by
  have himportable : (file.connections.filter fun entry => entry.name ∉ after.map (·.name)) = [] := by
    rw [List.filter_eq_nil_iff]
    intro entry hentry
    simpa using hnames entry hentry
  have hskipped : (file.connections.filter fun entry => entry.name ∈ after.map (·.name)) =
      file.connections := by
    rw [List.filter_eq_self]
    intro entry hentry
    exact decide_eq_true (hnames entry hentry)
  simp only [connectionsImport, hfile, hlist, partitionImportable_eq, himportable, hskipped]
  rfl

/-- **What an import does.** An import that goes through makes no two connections share a name, accounts
for every entry and leaves nothing to a second import exactly if the new names of its file are all
different; and if they are, one that fails on its way makes no duplicates either. -/
theorem import_sound_iff (outside : Outside) {path : String} {file : ConnectionExportFile}
    {rows after : List Connection} {result : Except Report ImportSummary}
    (hfile : importFile outside path = .ok file)
    (h : connectionsImport outside path rows = (after, result)) :
    (∀ summary, result = .ok summary →
      ((NoNewDuplicates rows after ∧
        summary.imported + summary.skipped = file.connections.length ∧
        ∀ again : Outside, importFile again path = .ok file → again.list = .ok () →
          connectionsImport again path after = (after, .ok ⟨0, file.connections.length⟩)) ↔
        (newNames file.connections rows).Nodup)) ∧
      ((newNames file.connections rows).Nodup → NoNewDuplicates rows after) := by
  simp only [connectionsImport, hfile] at h
  cases hlist : outside.list with
  | error report =>
    rw [hlist] at h
    obtain ⟨rfl, rfl⟩ := Prod.mk.inj h
    exact ⟨nofun, fun _ => noNewDuplicates_refl⟩
  | ok _ =>
    rw [hlist] at h
    obtain ⟨rfl, rfl⟩ := Prod.mk.inj h
    obtain ⟨names, hnames, hstart, hall⟩ := @createEach_names outside 0
      (partitionImportable file.connections (rows.map (·.name))).1 rows
    have hnew : (partitionImportable file.connections (rows.map (·.name))).1.map (·.name) =
        newNames file.connections rows := by
      rw [partitionImportable_eq, newNames]
    rw [hnew] at hstart hall
    refine ⟨fun summary hsummary => ?_, noNewDuplicates_of_nodup hnames hstart.sublist⟩
    cases hcreated : (createEach outside 0
        (partitionImportable file.connections (rows.map (·.name))).1 rows).2 with
    | error report =>
      rw [hcreated] at hsummary
      cases hsummary
    | ok _ =>
      rw [hcreated] at hsummary
      cases hsummary
      rw [hall hcreated] at hnames
      refine ⟨fun hsound => nodup_of_noNewDuplicates hnames hsound.1, fun hnodup =>
        ⟨noNewDuplicates_of_nodup hnames (List.Sublist.refl _) hnodup,
          partitionImportable_length _ _, fun again hfile hlist => ?_⟩⟩
      refine connectionsImport_again hfile hlist fun entry hentry => ?_
      rw [hnames, List.mem_append]
      by_cases hname : entry.name ∈ rows.map (·.name)
      · exact Or.inl hname
      · exact Or.inr (List.mem_map_of_mem (List.mem_filter.mpr ⟨hentry, decide_eq_true hname⟩))

/-! ## A file with one name twice -/

/-- An export of clusters with the given names. -/
def exportOf (names : List String) : ConnectionExportFile where
  saltyConnectionsVersion := currentExportVersion
  connections := names.map fun name =>
    { name, bootstrapServers := "localhost:9092", kafkaVersion := "3.7" }

/-- A world in which the file is there and nothing fails. -/
def smoothly (file : ConnectionExportFile) : Outside where
  readToString _ := some ""
  fromJson _ := some file
  list := .ok ()
  insert k := .inserted s!"id-{k}" "2026-01-01T00:00:00Z"

theorem import_sound_iff_two :
    let file := exportOf ["Prod", "Staging"]
    let done := connectionsImport (smoothly file) "export.json" []
    (∀ summary, done.2 = .ok summary →
      ((NoNewDuplicates [] done.1 ∧ summary.imported + summary.skipped = file.connections.length ∧
        ∀ again : Outside, importFile again "export.json" = .ok file → again.list = .ok () →
          connectionsImport again "export.json" done.1 =
            (done.1, .ok ⟨0, file.connections.length⟩)) ↔
        (newNames file.connections []).Nodup)) ∧
      ((newNames file.connections []).Nodup → NoNewDuplicates [] done.1) :=
  import_sound_iff (smoothly (exportOf ["Prod", "Staging"])) (by decide +kernel) rfl

/-- **A name that stands in the file twice is created twice.** -/
theorem name_imported_twice :
    let done := connectionsImport (smoothly (exportOf ["Prod", "Prod"])) "export.json" []
    done.2 = .ok ⟨2, 0⟩ ∧ ¬ NoNewDuplicates [] done.1 := by
  refine ⟨by decide +kernel, fun h => ?_⟩
  exact absurd (h "Prod" (by decide +kernel)) (by decide +kernel)

end OffsetExplorer.Core
