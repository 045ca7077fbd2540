import OffsetExplorer.Lib.Interrupt
import OffsetExplorer.Lib.Machine

/-!
# Adopting the database of the app's former name

`adopt_legacy_app_data` on a disk of files, as a computation that a crash or an I/O error can cut
short at any of its operations, and the launches around it.

* `Disk`: what is at each path, with a record of the paths written to, which only statements read.
* `adoptLegacyAppData`: sidecars first, then the database under a temporary name, then the rename.
* `launch`: the attempt, and the opening of the database whatever became of it.
* `Install`, `Event`, `step`: launches, and the legacy app at work between them.
-/

namespace OffsetExplorer.DataMigration

open Interrupt Interrupt.Prog

/-! ## Paths -/

/-- The identifier of the app under its former name. -/
def legacyIdentifier : String := "dev.kafkaoxide.app"

/-- Its database. -/
def legacyDbFile : String := "kafkaoxide.sqlite"

/-- The database of the app. -/
def dbFile : String := "salty.sqlite"

/-- The write-ahead log of SQLite and its index. -/
def sidecarSuffixes : List String := ["-wal", "-shm"]

/-- A path by its components. -/
abbrev Path := List String

/-- A file in a directory. -/
def join (dir : Path) (name : String) : Path := dir ++ [name]

/-- The last component of a path. -/
def fileNameOf (path : Path) : String := path.getLast?.getD ""

/-- A path with something behind its file name. -/
def withSuffix (path : Path) (suffix : String) : Path :=
  join path.dropLast (fileNameOf path ++ suffix)

/-- The old identifier's directory, as a sibling of the current one. -/
def legacyDirFor (dataDir : Path) : Option Path :=
  dataDir.getLast?.bind fun name =>
    if name = legacyIdentifier then none else some (join dataDir.dropLast legacyIdentifier)

/-! ## The disk -/

/-- The files, and the targets of the copies and renames so far, the last one first. -/
structure Disk (C : Type*) where
  files : Path → Option C
  written : List Path := []

namespace Disk

variable {C : Type*}

/-- A file is written, and its path recorded. -/
def write (d : Disk C) (path : Path) (content : C) : Disk C where
  files := Function.update d.files path (some content)
  written := path :: d.written

/-- Copy a file that is there. -/
def copy (d : Disk C) (source target : Path) : Disk C := (d.files source).elim d (d.write target)

/-- The target is replaced by the source, which is gone. -/
def move (d : Disk C) (source target : Path) : Disk C where
  files := Function.update (Function.update d.files target (d.files source)) source none
  written := target :: d.written

end Disk

/-- The operations of an attempt. -/
inductive Op where
  | databaseExists
  | legacyIsFile
  | createDirAll
  | sidecarIsFile (suffix : String)
  | copySidecar (suffix : String)
  | copyDatabase
  | rename
  deriving DecidableEq

/-- Computations on a disk. The residue is what a copy that is cut short leaves at its target, if it
has got there; for a rename, whether it took effect. -/
abbrev DiskProg (C α : Type) := Prog Op (Option C) (Disk C) α

variable {C : Type}

/-- `exists` and `is_file`: both answer no where they cannot tell. -/
def isFile (op : Op) (path : Path) : DiskProg C Bool := ask op fun d => (d.files path).isSome

/-- No other operation depends on the directory. -/
def createDirAll : DiskProg C Unit := perform .createDirAll id fun _ d => d

/-- A copy. One that is cut short leaves what it has got. -/
def copyFile (op : Op) (source target : Path) : DiskProg C Unit :=
  perform op (fun d => d.copy source target) fun left d => left.elim d (d.write target)

/-- A rename happens as a whole or not at all. -/
def renameFile (source target : Path) : DiskProg C Unit :=
  perform .rename (fun d => d.move source target) fun left d =>
    if left.isSome then d.move source target else d

/-! ## The attempt -/

/-- What the attempt reports for the log. -/
structure AdoptedData where
  fromDir : Path
  files : List String

/-- The loop over the sidecars; it returns the names of the files it has copied. -/
def copySidecars (legacyDb database : Path) : List String → DiskProg C (List String)
  | [] => pure []
  | suffix :: suffixes => do
    if ← isFile (.sidecarIsFile suffix) (withSuffix legacyDb suffix) then
      let target := withSuffix database suffix
      copyFile (.copySidecar suffix) (withSuffix legacyDb suffix) target
      let files ← copySidecars legacyDb database suffixes
      return fileNameOf target :: files
    else copySidecars legacyDb database suffixes

/-- The copying: sidecars first, the database last and under a temporary name. -/
def copyLegacy (dataDir legacyDir : Path) : DiskProg C (Option AdoptedData) := do
  let legacyDb := join legacyDir legacyDbFile
  let destination := join dataDir dbFile
  let temporary := join dataDir (dbFile ++ ".partial")
  createDirAll
  let files ← copySidecars legacyDb destination sidecarSuffixes
  copyFile .copyDatabase legacyDb temporary
  renameFile temporary destination
  return some { fromDir := legacyDir, files := files ++ [fileNameOf destination] }

/-- Past the guard: nothing is done where there is no legacy database. -/
def adoptMissing (dataDir : Path) : DiskProg C (Option AdoptedData) :=
  match legacyDirFor dataDir with
  | none => return none
  | some legacyDir => do
    if ← isFile .legacyIsFile (join legacyDir legacyDbFile) then copyLegacy dataDir legacyDir
    else return none

/-- The attempt: a database that is there is never overwritten. -/
def adoptLegacyAppData (dataDir : Path) : DiskProg C (Option AdoptedData) := do
  if ← isFile .databaseExists (join dataDir dbFile) then return none
  else adoptMissing dataDir

/-! ## Launches -/

/-- Open the database with `mode=rwc`: an empty one is created where there is none, unless the
launch ends before. -/
def openDatabase (dataDir : Path) (empty : C) (creates : Bool) (d : Disk C) : Disk C :=
  if creates && (d.files (join dataDir dbFile)).isNone then
    { d with files := Function.update d.files (join dataDir dbFile) (some empty) }
  else d

/-- A launch goes on to open the database whether the attempt failed or not; a crash ends it. -/
def launch (dataDir : Path) (empty : C) (cut : Option (Cut Op (Option C))) (creates : Bool)
    (d : Disk C) : Disk C :=
  match adoptLegacyAppData dataDir cut d with
  | (.error .crash, d) => d
  | (_, d) => openDatabase dataDir empty creates d

/-- A database with its sidecars, each if it is there. -/
def database (d : Disk C) (path : Path) : Option C × List (Option C) :=
  (d.files path, sidecarSuffixes.map fun suffix => d.files (withSuffix path suffix))

/-- A sidecar of the legacy database; there is none where there is no legacy directory. -/
def legacySidecar (dataDir : Path) (d : Disk C) (suffix : String) : Option C :=
  (legacyDirFor dataDir).bind fun legacyDir =>
    d.files (withSuffix (join legacyDir legacyDbFile) suffix)

/-- The legacy database with its sidecars. -/
def legacyDatabase (dataDir : Path) (d : Disk C) : Option C × List (Option C) :=
  ((legacyDirFor dataDir).bind fun legacyDir => d.files (join legacyDir legacyDbFile),
    sidecarSuffixes.map (legacySidecar dataDir d))

/-- The disk with what the launches so far have come to: the legacy files as of the attempt that
brought the database here, and whether the last attempt left a legacy database behind. -/
structure Install (C : Type) where
  disk : Disk C
  adopted : Option (Option C × List (Option C)) := none
  failed : Bool := false

/-- What can happen next. -/
inductive Event (C : Type) where
  /-- A launch. The attempt is cut short where `cut` says; `creates` says whether the launch gets as
  far as to create a database. -/
  | launch (cut : Option (Cut Op (Option C))) (creates : Bool)
  /-- The legacy app leaves its database and sidecars like this. -/
  | legacy (database : Option C) (sidecars : String → Option C)

/-- The legacy app writes its files. -/
def writeLegacy (legacyDir : Path) (content : Option C) (sidecars : String → Option C)
    (d : Disk C) : Disk C :=
  let legacyDb := join legacyDir legacyDbFile
  { d with
    files := sidecarSuffixes.foldl
      (fun files suffix => Function.update files (withSuffix legacyDb suffix) (sidecars suffix))
      (Function.update d.files legacyDb content) }

/-- Whether there is a legacy database that has not been adopted. -/
def hasLegacy (dataDir : Path) (d : Disk C) : Bool := (legacyDatabase dataDir d).1.isSome

/-- A launch, or the legacy app at work, which needs the legacy directory to be another one. -/
def step (dataDir : Path) (empty : C) (s : Install C) : Event C → Option (Install C)
  | .launch cut creates =>
    let attempt := (adoptLegacyAppData dataDir cut s.disk).2
    let destination := join dataDir dbFile
    some {
      disk := launch dataDir empty cut creates s.disk
      adopted :=
        if attempt.written.count destination = s.disk.written.count destination then s.adopted
        else some (legacyDatabase dataDir s.disk)
      failed := (attempt.files destination).isNone && hasLegacy dataDir s.disk }
  | .legacy content sidecars =>
    (legacyDirFor dataDir).map fun legacyDir =>
      { s with disk := writeLegacy legacyDir content sidecars s.disk }

/-- A disk on which nothing has been launched yet. -/
def installed (files : Path → Option C) : Install C where
  disk := { files }

end OffsetExplorer.DataMigration
