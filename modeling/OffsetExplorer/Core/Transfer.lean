import OffsetExplorer.Core.ExportText
import Mathlib.Logic.Function.Basic

/-!
# Connections on another machine

An export writes the chosen connections to a file, and an import on another machine makes connections of it.

* `connectionsExport`: the command; what becomes of the write is in `Written`.
* **`export_moves`**: what is there after an import of what was exported here.
-/

namespace OffsetExplorer.Core

/-- What becomes of `fs::write`; one that fails may leave anything in the place of the file. -/
inductive Written where
  | written
  | failed (left : Option String)

/-- The text of each file, by its path. -/
abbrev Files := String → Option String

/-- `connections_export`, with the outcome of reading the rows. -/
def connectionsExport (list : Except Report Unit) (outcome : Written) (rows : List Connection)
    (ids : Option (List String)) (path : String) (files : Files) : Files × Except Report Unit :=
  match list with
  | .error report => (files, .error report)
  | .ok () =>
    let json := (ConnectionExportFile.new (selectForExport rows ids)).toJsonPretty
    match outcome with
    | .written => (Function.update files path (some json), .ok ())
    | .failed left =>
      (Function.update files path left, .error ⟨.validation, ["failed to write the connections export file"]⟩)

/-- The ports of the rows are `i64`. -/
def RowsFit (rows : List Connection) : Prop := ∀ row ∈ rows, (PortableConnection.ofConnection row).Fits

variable {outside : Outside} {rows there after : List Connection} {ids : Option (List String)} {path : String}

theorem mem_selectForExport {portable : PortableConnection} (h : portable ∈ selectForExport rows ids) :
    ∃ row ∈ rows, PortableConnection.ofConnection row = portable := by
  cases ids with
  | none => exact List.mem_map.mp h
  | some ids =>
    obtain ⟨row, hrow, rfl⟩ := List.mem_map.mp h
    exact ⟨row, List.mem_of_mem_filter hrow, rfl⟩

/-- A row without secrets, that may not publish. -/
def Plain (row : Connection) : Prop :=
  row.toNewConnection = (PortableConnection.ofConnection row).toNewConnection

theorem plain_importedRow (portable : PortableConnection) (id now : String) : Plain (importedRow portable id now) := rfl

theorem ofConnection_importedRow (portable : PortableConnection) (id now : String) :
    PortableConnection.ofConnection (importedRow portable id now) = portable := rfl

theorem createEach_rows (k : ℕ) (entries : List PortableConnection) (rows : List Connection) :
    ∃ added, (createEach outside k entries rows).1 = rows ++ added ∧ (∀ row ∈ added, Plain row) ∧
      added.map .ofConnection <+: entries ∧
      ((createEach outside k entries rows).2 = .ok () → added.map .ofConnection = entries) := by
  induction entries generalizing k rows with
  | nil => exact ⟨[], (List.append_nil _).symm, fun _ h => absurd h List.not_mem_nil, List.nil_prefix, fun _ => rfl⟩
  | cons portable entries ih =>
    rw [createEach]
    cases outside.insert k with
    | inserted id now =>
      obtain ⟨added, hrows, hplain, hstart, hall⟩ := ih (k + 1) (rows ++ [importedRow portable id now])
      refine ⟨importedRow portable id now :: added, ?_, List.forall_mem_cons.mpr ⟨plain_importedRow _ _ _, hplain⟩,
        ?_, fun h => ?_⟩
      · dsimp only
        rw [hrows, List.append_assoc, List.singleton_append]
      · rw [List.map_cons, ofConnection_importedRow]
        exact (List.prefix_cons_inj _).mpr hstart
      · rw [List.map_cons, ofConnection_importedRow, hall h]
    | unread id now report =>
      refine ⟨[importedRow portable id now], rfl, List.forall_mem_singleton.mpr (plain_importedRow _ _ _), ?_,
        fun h => by cases h⟩
      exact (List.prefix_cons_inj _).mpr List.nil_prefix
    | failed report =>
      exact ⟨[], (List.append_nil _).symm, fun _ h => absurd h List.not_mem_nil, List.nil_prefix,
        fun h => by cases h⟩

theorem createEach_ok (hinsert : ∀ k, ∃ id now, outside.insert k = .inserted id now) (k : ℕ)
    (entries : List PortableConnection) (rows : List Connection) :
    (createEach outside k entries rows).2 = .ok () := by
  induction entries generalizing k rows with
  | nil => rfl
  | cons portable entries ih =>
    obtain ⟨id, now, h⟩ := hinsert k
    rw [createEach, h]
    exact ih _ _

theorem files_of_export {files files' : Files} {list : Except Report Unit} {outcome : Written}
    (h : connectionsExport list outcome rows ids path files = (files', .ok ())) :
    files' path = some (ConnectionExportFile.new (selectForExport rows ids)).toJsonPretty := by
  cases list with
  | error report => cases h
  | ok _ =>
    cases outcome with
    | failed left => cases h
    | written =>
      cases h
      exact Function.update_self ..

theorem importFile_of_export {selected : List PortableConnection} (hports : ∀ portable ∈ selected, portable.Fits)
    (hread : outside.readToString path = some (ConnectionExportFile.new selected).toJsonPretty)
    (hjson : outside.fromJson = fromJson) : importFile outside path = .ok (.new selected) := by
  rw [importFile, hread, hjson]
  exact parse_eq_ok_iff.mpr ⟨fromJson_toJsonPretty (fits_new hports), rfl⟩

/-- The exported connections whose names are not taken there. -/
def moved (rows : List Connection) (ids : Option (List String)) (there : List Connection) : List PortableConnection :=
  (selectForExport rows ids).filter fun portable => portable.name ∉ there.map (·.name)

/-- **Connections move to another machine.** What was exported here is never refused there. After the import
the connections there are those of before, and behind them the exported ones whose names were not taken: with
every setting that they had, but without a secret and not allowed to publish. One that fails on its way has a part
of them from the front. -/
theorem export_moves {files files' : Files} {list : Except Report Unit} {outcome : Written} {path' : String}
    {result : Except Report ImportSummary} (hports : RowsFit rows)
    (hexport : connectionsExport list outcome rows ids path files = (files', .ok ()))
    (hread : outside.readToString path' = files' path) (hjson : outside.fromJson = fromJson)
    (himport : connectionsImport outside path' there = (after, result)) :
    ∃ added, after = there ++ added ∧ (∀ row ∈ added, Plain row) ∧ added.map .ofConnection <+: moved rows ids there ∧
      (∀ summary, result = .ok summary → added.map .ofConnection = moved rows ids there ∧
        summary.imported = added.length ∧
        summary.imported + summary.skipped = (selectForExport rows ids).length) ∧
      (outside.list = .ok () → (∀ k, ∃ id now, outside.insert k = .inserted id now) →
        ∃ summary, result = .ok summary) := by
  have hselected : ∀ portable ∈ selectForExport rows ids, portable.Fits := fun portable h => by
    obtain ⟨row, hrow, rfl⟩ := mem_selectForExport h
    exact hports row hrow
  have hfile := importFile_of_export hselected (hread.trans (files_of_export hexport)) hjson
  simp only [connectionsImport, hfile] at himport
  cases hlist : outside.list with
  | error report =>
    rw [hlist] at himport
    cases himport
    exact ⟨[], (List.append_nil _).symm, fun _ h => absurd h List.not_mem_nil, List.nil_prefix,
      fun _ h => (by cases h), fun h => by cases h⟩
  | ok _ =>
    rw [hlist] at himport
    dsimp only at himport
    have hcount := partitionImportable_length (selectForExport rows ids) (there.map (·.name))
    have hmoved : (partitionImportable (selectForExport rows ids) (there.map (·.name))).1 = moved rows ids there := by
      rw [partitionImportable_eq, moved]
    rw [hmoved] at hcount
    simp only [ConnectionExportFile.new, hmoved] at himport
    obtain ⟨added, hrows, hplain, hstart, hall⟩ := @createEach_rows outside 0 (moved rows ids there) there
    obtain ⟨rfl, rfl⟩ := Prod.mk.inj himport
    refine ⟨added, hrows, hplain, hstart, fun summary hsummary => ?_, fun _ hinsert => ?_⟩
    · cases hcreated : (createEach outside 0 (moved rows ids there) there).2 with
      | error report =>
        rw [hcreated] at hsummary
        cases hsummary
      | ok _ =>
        rw [hcreated] at hsummary
        cases hsummary
        have hadded := hall hcreated
        refine ⟨hadded, ?_, hcount⟩
        rw [← hadded, List.length_map]
    · rw [createEach_ok hinsert]
      exact ⟨_, rfl⟩

/-- A cluster that may be written to, with its password. -/
def production : Connection where
  id := "1"
  name := "Production"
  bootstrapServers := "kafka:9092"
  kafkaVersion := "3.7"
  securityProtocol := .saslSsl
  saslMechanism := some .scramSha512
  saslUsername := some "alice"
  saslPassword := some "secret"
  allowPublishing := true
  createdAt := "2026-01-01T00:00:00Z"
  updatedAt := "2026-01-01T00:00:00Z"

/-- A cluster of this machine, and one of the same name there. -/
def localhost (id bootstrapServers : String) : Connection where
  id := id
  name := "Local"
  bootstrapServers := bootstrapServers
  kafkaVersion := "3.7"
  createdAt := "2026-01-02T00:00:00Z"
  updatedAt := "2026-01-02T00:00:00Z"

/-- What one machine exports. -/
def exported : List Connection := [production, localhost "2" "localhost:9092"]

/-- What the other machine has: a connection under a name of the first. -/
def elsewhere : List Connection := [localhost "7" "localhost:29092"]

/-- The machine that they are taken to, where nothing fails. -/
def otherMachine : Outside where
  readToString _ := some (ConnectionExportFile.new (selectForExport exported none)).toJsonPretty
  fromJson := fromJson
  list := .ok ()
  insert k := .inserted s!"id-{k}" "2026-02-01T00:00:00Z"

/-- The cluster whose name is taken there stays where it is. -/
theorem production_moved : ∃ added, (connectionsImport otherMachine "clusters.json" elsewhere).1 = elsewhere ++ added ∧
    (∀ row ∈ added, Plain row) ∧
      added.map PortableConnection.ofConnection = [.ofConnection production] := by
  have hports : RowsFit exported := by
    intro row hrow port hport
    rcases List.mem_pair.mp hrow with rfl | rfl <;> cases hport
  let files : Files := Function.update (fun _ => none) "clusters.json" (otherMachine.readToString "clusters.json")
  have hexport : connectionsExport (.ok ()) .written exported none "clusters.json" (fun _ => none) =
    (files, .ok ()) := rfl
  have hread : otherMachine.readToString "clusters.json" = files "clusters.json" := by
    rw [show files "clusters.json" = otherMachine.readToString "clusters.json" from Function.update_self ..]
  have himport : connectionsImport otherMachine "clusters.json" elsewhere =
    ((connectionsImport otherMachine "clusters.json" elsewhere).1,
      (connectionsImport otherMachine "clusters.json" elsewhere).2) := Prod.mk.eta.symm
  obtain ⟨added, hafter, hplain, -, hall, hok⟩ := export_moves hports hexport hread rfl himport
  obtain ⟨summary, hsummary⟩ := hok rfl fun k => ⟨_, _, rfl⟩
  refine ⟨added, hafter, hplain, (hall summary hsummary).1.trans ?_⟩
  decide +kernel

end OffsetExplorer.Core
