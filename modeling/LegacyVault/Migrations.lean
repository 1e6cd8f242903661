import LegacyVault.Database
import LegacyVault.Library.CodeUnitOrder
import LegacyVault.Library.Workers

/-!
# Schema migrations

Deployments run `runMigrations` against one database, several at a time and
from different directories of SQL files. A run is a session of queries: it
waits for an advisory lock, goes over its files in order, and applies each file
that `schema_migrations` does not name, in a transaction of its own. Any query
may fail, and a session may end at any point; its transaction and its lock end
with it.

What the statements of a file do is a parameter.
-/

namespace LegacyVault

open CodeUnitOrder Workers

/-- A file of a migration directory. -/
structure MigrationFile where
  name : String
  sql : String
  deriving DecidableEq

/-- A migration directory, in the order `readdir` lists it. -/
structure MigrationDirectory where
  entries : List MigrationFile
  /-- No two files have the same name. -/
  distinct : (entries.map MigrationFile.name).Nodup
  deriving DecidableEq

/-- `entry.endsWith(".sql")`. -/
def MigrationFile.isSql (file : MigrationFile) : Bool :=
  ".sql".toList.isSuffixOf file.name.toList

/-- The migrations of a directory, in the order of their names. -/
def MigrationDirectory.migrations (directory : MigrationDirectory) : List MigrationFile :=
  sortByName MigrationFile.name (directory.entries.filter MigrationFile.isSql)

/-- A `schema_migrations` row. -/
structure SchemaMigrationRow where
  name : String
  sha256 : String
  deriving DecidableEq

/-- The database of the deployments. -/
structure MigratedDatabase (Tables : Type) where
  /-- All that the files work on. -/
  tables : Tables
  /-- `schema_migrations`, once it is there, in the order its rows were inserted. -/
  schemaMigrations : Option (List SchemaMigrationRow)
  /-- The session that holds the advisory lock. -/
  lock : Option Nat

/-- The rows of `schema_migrations`. -/
def MigratedDatabase.recorded {Tables : Type} (db : MigratedDatabase Tables) :
    List SchemaMigrationRow :=
  db.schemaMigrations.getD []

/-- The advisory lock of a session that ends is free. -/
def MigratedDatabase.release {Tables : Type} (db : MigratedDatabase Tables) (session : Nat) :
    MigratedDatabase Tables :=
  { db with lock := db.lock.filter (· ≠ session) }

/-- What the runs rely on. -/
structure MigrationEnvironment (Tables : Type) where
  sha256 : Sha256
  /-- The tables that the statements of a file leave, or the message of the one that fails. -/
  execute : String → Tables → Except String Tables
  /-- The directories that are deployed. -/
  deployed : MigrationDirectory → Prop

/-- Why a run fails. -/
inductive MigrationError where
  | checksumMismatch (name : String)
  | uniqueViolation (name : String)
  | query (message : String)
  deriving DecidableEq

/-- The message of an error. -/
def MigrationError.message : MigrationError → String
  | checksumMismatch name => "migration checksum mismatch: " ++ name
  | uniqueViolation _ =>
    "duplicate key value violates unique constraint \"schema_migrations_pkey\""
  | query message => message

/-- The query that a run awaits. In its transaction it has the tables it would commit. -/
inductive MigrationControl (Tables : Type) where
  | locking
  | creating
  | scanning (rest : List MigrationFile)
  | beginning (file : MigrationFile) (rest : List MigrationFile)
  | executing (file : MigrationFile) (rest : List MigrationFile)
  | recording (file : MigrationFile) (rest : List MigrationFile) (staged : Tables)
  | committing (file : MigrationFile) (rest : List MigrationFile) (staged : Tables)
  | rollingBack (error : MigrationError)
  | unlocking (result : Option MigrationError)
  | ended (result : Option MigrationError)
  | stopped
  deriving DecidableEq

/-- The database, the runs, and the files that were applied, latest first. -/
abbrev Migrators (Tables : Type) :=
  Workers (MigratedDatabase Tables) MigrationDirectory (MigrationControl Tables) MigrationFile

variable {Tables : Type}

/-- The row that records a file. -/
def MigrationEnvironment.row (env : MigrationEnvironment Tables) (file : MigrationFile) :
    SchemaMigrationRow :=
  ⟨file.name, env.sha256.digest file.sql⟩

/-- The tables after some files, one after the other. -/
def MigrationEnvironment.executeAll (env : MigrationEnvironment Tables)
    (files : List MigrationFile) (tables : Tables) : Except String Tables :=
  files.foldlM (fun tables file => env.execute file.sql tables) tables

/-- What a query of a run leaves: the database, the next query, and the file it applies. -/
structure MigrationProgress (Tables : Type) where
  db : MigratedDatabase Tables
  control : MigrationControl Tables
  applied : List MigrationFile

/-- The next query of a run, if it is answered. The lock is not given while a session holds it. -/
def runMigrations (env : MigrationEnvironment Tables) (session : Nat)
    (directory : MigrationDirectory) (db : MigratedDatabase Tables) :
    MigrationControl Tables → Option (MigrationProgress Tables)
  | .locking =>
    if db.lock = none then some ⟨{ db with lock := some session }, .creating, []⟩ else none
  | .creating =>
    some ⟨{ db with schemaMigrations := some db.recorded }, .scanning directory.migrations, []⟩
  | .scanning [] => some ⟨db, .unlocking none, []⟩
  | .scanning (file :: rest) =>
    match db.recorded.find? (·.name = file.name) with
    | some row =>
      if row.sha256 ≠ env.sha256.digest file.sql then
        some ⟨db, .unlocking (some (.checksumMismatch file.name)), []⟩
      else some ⟨db, .scanning rest, []⟩
    | none => some ⟨db, .beginning file rest, []⟩
  | .beginning file rest => some ⟨db, .executing file rest, []⟩
  | .executing file rest =>
    match env.execute file.sql db.tables with
    | .ok staged => some ⟨db, .recording file rest staged, []⟩
    | .error message => some ⟨db, .rollingBack (.query message), []⟩
  | .recording file rest staged =>
    if db.recorded.any (·.name = file.name) then
      some ⟨db, .rollingBack (.uniqueViolation file.name), []⟩
    else some ⟨db, .committing file rest staged, []⟩
  | .committing file rest staged =>
    some ⟨{ db with tables := staged, schemaMigrations := some (db.recorded ++ [env.row file]) },
      .scanning rest, [file]⟩
  | .rollingBack error => some ⟨db, .unlocking (some error), []⟩
  | .unlocking result => some ⟨db.release session, .ended result, []⟩
  | .ended _ => none
  | .stopped => none

/-- Where a run goes on when its query fails. -/
def MigrationControl.failed (error : MigrationError) :
    MigrationControl Tables → Option (MigrationControl Tables)
  | locking | creating | scanning _ | beginning _ _ | rollingBack _ =>
    some (unlocking (some error))
  | executing _ _ | recording _ _ _ | committing _ _ _ => some (rollingBack error)
  | unlocking _ | ended _ | stopped => none

/-- A query left this. -/
def Migrators.proceed (s : Migrators Tables) (session : Nat) (directory : MigrationDirectory)
    (progress : MigrationProgress Tables) : Migrators Tables :=
  ((s.withRows progress.db).observe progress.applied).enter session directory progress.control

/-- One query of one run, or the end of its session. -/
inductive MigrationStep (env : MigrationEnvironment Tables) :
    Migrators Tables → Migrators Tables → Prop
  /-- A deployment connects. -/
  | connect {s : Migrators Tables} (session : Nat) (directory : MigrationDirectory)
      (hfree : s.executions session = none) (hdeployed : env.deployed directory) :
      MigrationStep env s (s.enter session directory .locking)
  /-- A query is answered. -/
  | query {s : Migrators Tables} {session : Nat} {directory : MigrationDirectory}
      {control : MigrationControl Tables} {progress : MigrationProgress Tables}
      (hcontrol : s.executions session = some (directory, control))
      (hquery : runMigrations env session directory s.rows control = some progress) :
      MigrationStep env s (Migrators.proceed s session directory progress)
  /-- A query fails. -/
  | fail {s : Migrators Tables} {session : Nat} {directory : MigrationDirectory}
      {control next : MigrationControl Tables} (message : String)
      (hcontrol : s.executions session = some (directory, control))
      (hnext : control.failed (.query message) = some next) :
      MigrationStep env s (s.enter session directory next)
  /-- A file is committed, and the run does not learn of it. -/
  | unanswered {s : Migrators Tables} {session : Nat} {directory : MigrationDirectory}
      {file : MigrationFile} {rest : List MigrationFile} {staged : Tables}
      {progress : MigrationProgress Tables} (message : String)
      (hcontrol : s.executions session = some (directory, .committing file rest staged))
      (hquery : runMigrations env session directory s.rows (.committing file rest staged) =
        some progress) :
      MigrationStep env s (Migrators.proceed s session directory
        { progress with control := .rollingBack (.query message) })
  /-- A session ends, and its lock with it. -/
  | stop {s : Migrators Tables} {session : Nat} {directory : MigrationDirectory}
      {control : MigrationControl Tables}
      (hcontrol : s.executions session = some (directory, control))
      (hgoes : ∀ result, control ≠ .ended result) :
      MigrationStep env s
        ((s.withRows (s.rows.release session)).enter session directory .stopped)

/-- The runs some steps later. -/
def MigrationsLater (env : MigrationEnvironment Tables) :
    Migrators Tables → Migrators Tables → Prop :=
  Relation.ReflTransGen (MigrationStep env)

/-- A database that no migration has touched. -/
def unmigrated (tables : Tables) : Migrators Tables := Workers.idle ⟨tables, none, none⟩

/-! ## What one step does -/

section Steps

variable {env : MigrationEnvironment Tables} {s s' : Migrators Tables}

/-- The files that were applied, in that order. -/
def Migrators.applied (s : Migrators Tables) : List MigrationFile := s.events.reverse

/-- The run is between its lock and its unlock. -/
def MigrationControl.inside : MigrationControl Tables → Bool
  | locking | unlocking _ | ended _ | stopped => false
  | _ => true

/-- The files of a directory before some of them are recorded. -/
def ScannedTo (env : MigrationEnvironment Tables) (directory : MigrationDirectory)
    (recorded : List SchemaMigrationRow) (rest : List MigrationFile) : Prop :=
  ∃ done, directory.migrations = done ++ rest ∧ ∀ file ∈ done, env.row file ∈ recorded

/-- What is known of a run that ends so. -/
def EndsWith (env : MigrationEnvironment Tables) (directory : MigrationDirectory)
    (recorded : List SchemaMigrationRow) : Option MigrationError → Prop
  | none => ScannedTo env directory recorded []
  | some (.checksumMismatch name) => ∃ file ∈ directory.migrations, file.name = name ∧
      ∃ row ∈ recorded, row.name = name ∧ row.sha256 ≠ env.sha256.digest file.sql
  | some (.uniqueViolation _) => False
  | some (.query _) => True

/-- What is known of the database while a run awaits a query. -/
def MigrationControl.Knows (env : MigrationEnvironment Tables) (directory : MigrationDirectory)
    (db : MigratedDatabase Tables) : MigrationControl Tables → Prop
  | locking | stopped | creating => True
  | scanning rest => ScannedTo env directory db.recorded rest
  | beginning file rest | executing file rest =>
    ScannedTo env directory db.recorded (file :: rest) ∧ ∀ row ∈ db.recorded, row.name ≠ file.name
  | recording file rest staged | committing file rest staged =>
    (ScannedTo env directory db.recorded (file :: rest) ∧
      ∀ row ∈ db.recorded, row.name ≠ file.name) ∧ env.execute file.sql db.tables = .ok staged
  | rollingBack error => EndsWith env directory db.recorded (some error)
  | unlocking result | ended result => EndsWith env directory db.recorded result

/-- Where a run may stand. -/
structure MayAwait (env : MigrationEnvironment Tables) (db : MigratedDatabase Tables)
    (_applied : List MigrationFile) (session : Nat) (directory : MigrationDirectory)
    (control : MigrationControl Tables) : Prop where
  deployed : env.deployed directory
  holds : control.inside = true → db.lock = some session
  knows : control.Knows env directory db

/-- What is recorded stays recorded. -/
theorem ScannedTo.later {directory : MigrationDirectory} {recorded recorded' : List SchemaMigrationRow}
    {rest : List MigrationFile} (h : ScannedTo env directory recorded rest)
    (hgrows : recorded <+: recorded') : ScannedTo env directory recorded' rest := by
  obtain ⟨done, hfiles, hdone⟩ := h
  exact ⟨done, hfiles, fun file hfile => hgrows.subset (hdone file hfile)⟩

/-- The next file is recorded. -/
theorem ScannedTo.next {directory : MigrationDirectory} {recorded : List SchemaMigrationRow}
    {file : MigrationFile} {rest : List MigrationFile}
    (h : ScannedTo env directory recorded (file :: rest)) (hrow : env.row file ∈ recorded) :
    ScannedTo env directory recorded rest := by
  obtain ⟨done, hfiles, hdone⟩ := h
  refine ⟨done ++ [file], by rw [hfiles, List.append_assoc, List.singleton_append], ?_⟩
  intro other hother
  rcases List.mem_append.mp hother with hold | hnew
  · exact hdone other hold
  · exact List.mem_singleton.mp hnew ▸ hrow

theorem EndsWith.later {directory : MigrationDirectory} {recorded recorded' : List SchemaMigrationRow}
    {result : Option MigrationError} (h : EndsWith env directory recorded result)
    (hgrows : recorded <+: recorded') : EndsWith env directory recorded' result := by
  match result, h with
  | none, h => exact ScannedTo.later h hgrows
  | some (.checksumMismatch _), ⟨file, hfile, hname, row, hrow, hdiffers⟩ =>
    exact ⟨file, hfile, hname, row, hgrows.subset hrow, hdiffers⟩
  | some (.query _), _ => trivial

/-- Runs are not disturbed by others while they hold the lock, nor by new records without it. -/
theorem MayAwait.later {db db' : MigratedDatabase Tables} {applied applied' : List MigrationFile}
    {session : Nat} {directory : MigrationDirectory} {control : MigrationControl Tables}
    (h : MayAwait env db applied session directory control)
    (hkept : db.lock = some session →
      db'.lock = some session ∧ db'.tables = db.tables ∧ db'.recorded = db.recorded)
    (hgrows : db.recorded <+: db'.recorded) : MayAwait env db' applied' session directory control := by
  refine ⟨h.deployed, fun hinside => (hkept (h.holds hinside)).1, ?_⟩
  have hknows := h.knows
  cases control with
  | locking | stopped | creating => trivial
  | unlocking | ended => exact EndsWith.later hknows hgrows
  | scanning | beginning | executing | recording | committing | rollingBack =>
    obtain ⟨-, htables, hrecorded⟩ := hkept (h.holds rfl)
    simpa only [MigrationControl.Knows, htables, hrecorded] using hknows

/-- The step leaves what is recorded, and the tables. -/
structure SameMigrations (db db' : MigratedDatabase Tables) : Prop where
  tables : db'.tables = db.tables
  recorded : db'.recorded = db.recorded

/-- The step commits a file. -/
structure CommitsFile (env : MigrationEnvironment Tables) (directory : MigrationDirectory)
    (file : MigrationFile) (rest : List MigrationFile) (db db' : MigratedDatabase Tables) :
    Prop where
  scanned : ScannedTo env directory db.recorded (file :: rest)
  fresh : ∀ row ∈ db.recorded, row.name ≠ file.name
  tables : env.execute file.sql db.tables = .ok db'.tables
  recorded : db'.recorded = db.recorded ++ [env.row file]

/-- What an answered query does. -/
structure QueryDoes (env : MigrationEnvironment Tables) (session : Nat)
    (directory : MigrationDirectory) (db : MigratedDatabase Tables)
    (progress : MigrationProgress Tables) : Prop where
  stands : MayAwait env progress.db [] session directory progress.control
  /-- A session that holds the lock still does, and its transaction sees no change. -/
  others : ∀ other, other ≠ session → db.lock = some other →
    progress.db.lock = some other ∧ SameMigrations db progress.db
  effect : (progress.applied = [] ∧ SameMigrations db progress.db) ∨
    ∃ file rest, progress.applied = [file] ∧ CommitsFile env directory file rest db progress.db

/-- A query that leaves the database and lets its run go on. -/
theorem QueryDoes.reads {session : Nat} {directory : MigrationDirectory}
    {db : MigratedDatabase Tables} {control : MigrationControl Tables}
    (hstands : MayAwait env db [] session directory control) :
    QueryDoes env session directory db ⟨db, control, []⟩ :=
  ⟨hstands, fun _ _ hlock => ⟨hlock, rfl, rfl⟩, Or.inl ⟨rfl, rfl, rfl⟩⟩

theorem runMigrations_does {session : Nat} {directory : MigrationDirectory}
    {db : MigratedDatabase Tables} {control : MigrationControl Tables}
    {progress : MigrationProgress Tables} (h : MayAwait env db [] session directory control)
    (hquery : runMigrations env session directory db control = some progress) :
    QueryDoes env session directory db progress := by
  have hdeployed := h.deployed
  cases control with
  | locking =>
    by_cases hlock : db.lock = none
    · obtain rfl : _ = progress := by simpa [runMigrations, hlock] using hquery
      exact ⟨⟨hdeployed, fun _ => rfl, trivial⟩,
        fun other _ hother => absurd (hlock.symm.trans hother) (by simp),
        Or.inl ⟨rfl, rfl, rfl⟩⟩
    · exact absurd hquery (by simp [runMigrations, hlock])
  | creating =>
    obtain rfl : _ = progress := by simpa [runMigrations] using hquery
    refine ⟨⟨hdeployed, fun _ => h.holds rfl, [], rfl, by simp⟩, ?_, Or.inl ⟨rfl, rfl, rfl⟩⟩
    exact fun other _ hother => ⟨hother, rfl, rfl⟩
  | scanning files =>
    have hscanned : ScannedTo env directory db.recorded files := h.knows
    cases files with
    | nil =>
      obtain rfl : _ = progress := by simpa [runMigrations] using hquery
      exact .reads ⟨hdeployed, by simp [MigrationControl.inside], hscanned⟩
    | cons file rest =>
      rw [runMigrations] at hquery
      cases hfind : db.recorded.find? (·.name = file.name) with
      | none =>
        obtain rfl : _ = progress := by simpa [hfind] using hquery
        have hfresh : ∀ row ∈ db.recorded, row.name ≠ file.name := by
          simpa using List.find?_eq_none.mp hfind
        exact .reads ⟨hdeployed, fun _ => h.holds rfl, hscanned, hfresh⟩
      | some row =>
        have hrow : row ∈ db.recorded := List.mem_of_find?_eq_some hfind
        have hname : row.name = file.name := by simpa using List.find?_some hfind
        by_cases hsame : row.sha256 = env.sha256.digest file.sql
        · obtain rfl : _ = progress := by simpa [hfind, hsame] using hquery
          have hrecorded : env.row file = row := by
            rw [MigrationEnvironment.row, ← hname, ← hsame]
          exact .reads ⟨hdeployed, fun _ => h.holds rfl, hscanned.next (hrecorded ▸ hrow)⟩
        · obtain rfl : _ = progress := by simpa [hfind, hsame] using hquery
          obtain ⟨done, hfiles, -⟩ := hscanned
          have hfile : file ∈ directory.migrations := by simp [hfiles]
          exact .reads ⟨hdeployed, by simp [MigrationControl.inside], file, hfile, rfl, row, hrow,
            hname, hsame⟩
  | beginning file rest =>
    obtain rfl : _ = progress := by simpa [runMigrations] using hquery
    exact .reads ⟨hdeployed, fun _ => h.holds rfl, h.knows⟩
  | executing file rest =>
    cases hexecute : env.execute file.sql db.tables with
    | ok staged =>
      obtain rfl : _ = progress := by simpa [runMigrations, hexecute] using hquery
      exact .reads ⟨hdeployed, fun _ => h.holds rfl, h.knows, hexecute⟩
    | error message =>
      obtain rfl : _ = progress := by simpa [runMigrations, hexecute] using hquery
      exact .reads ⟨hdeployed, fun _ => h.holds rfl, trivial⟩
  | recording file rest staged =>
    -- the scan found no row of this name, and no other session has inserted one since
    have hfresh : ∀ row ∈ db.recorded, row.name ≠ file.name := h.knows.1.2
    have hnone : db.recorded.any (·.name = file.name) = false := by simpa using hfresh
    rw [runMigrations, if_neg (by simp [hnone])] at hquery
    obtain rfl := Option.some.inj hquery
    exact .reads ⟨hdeployed, fun _ => h.holds rfl, h.knows⟩
  | committing file rest staged =>
    obtain rfl : _ = progress := by simpa [runMigrations] using hquery
    have hlock : db.lock = some session := h.holds rfl
    obtain ⟨⟨hscanned, hfresh⟩, hexecute⟩ := h.knows
    have hrest : ScannedTo env directory (db.recorded ++ [env.row file]) rest :=
      (hscanned.later (List.prefix_append _ _)).next (by simp)
    refine ⟨⟨hdeployed, fun _ => hlock, hrest⟩, ?_,
      Or.inr ⟨file, rest, rfl, hscanned, hfresh, hexecute, rfl⟩⟩
    intro other hne hother
    exact absurd (Option.some.inj (hother.symm.trans hlock)) hne
  | rollingBack error =>
    obtain rfl : _ = progress := by simpa [runMigrations] using hquery
    exact .reads ⟨hdeployed, by simp [MigrationControl.inside], h.knows⟩
  | unlocking result =>
    obtain rfl : _ = progress := by simpa [runMigrations] using hquery
    refine ⟨⟨hdeployed, by simp [MigrationControl.inside], h.knows⟩, ?_, Or.inl ⟨rfl, rfl, rfl⟩⟩
    intro other hne hother
    exact ⟨by simp [MigratedDatabase.release, hother, hne], rfl, rfl⟩
  | ended | stopped => exact absurd hquery (by simp [runMigrations])

/-- A run whose query fails stands where it may. -/
theorem MayAwait.failed {db : MigratedDatabase Tables} {applied : List MigrationFile}
    {session : Nat} {directory : MigrationDirectory} {control next : MigrationControl Tables}
    {message : String} (h : MayAwait env db applied session directory control)
    (hnext : control.failed (.query message) = some next) :
    MayAwait env db applied session directory next := by
  have hdeployed := h.deployed
  cases control with
  | locking | creating | scanning | beginning | rollingBack =>
    obtain rfl : _ = next := by simpa [MigrationControl.failed] using hnext
    exact ⟨hdeployed, by simp [MigrationControl.inside], trivial⟩
  | executing | recording | committing =>
    obtain rfl : _ = next := by simpa [MigrationControl.failed] using hnext
    exact ⟨hdeployed, fun _ => h.holds rfl, trivial⟩
  | unlocking | ended | stopped => exact absurd hnext (by simp [MigrationControl.failed])

end Steps

/-! ## All runs -/

section Runs

variable {env : MigrationEnvironment Tables} {init : Tables} {s s' : Migrators Tables}

/-- The records and the tables come from the applied files, each applied once. -/
structure MigrationInvariant (env : MigrationEnvironment Tables) (init : Tables)
    (s : Migrators Tables) : Prop where
  standing : Standing (MayAwait env) s
  recorded : s.rows.recorded = s.applied.map env.row
  distinct : (s.applied.map MigrationFile.name).Nodup
  tables : env.executeAll s.applied init = .ok s.rows.tables

/-- What a step does to what was applied. -/
inductive Extends (env : MigrationEnvironment Tables) (s s' : Migrators Tables) : Prop
  | same (happlied : s'.applied = s.applied) (hrows : SameMigrations s.rows s'.rows)
  | commits (directory : MigrationDirectory) (hdeployed : env.deployed directory)
      (file : MigrationFile) (rest : List MigrationFile)
      (happlied : s'.applied = s.applied ++ [file])
      (hcommits : CommitsFile env directory file rest s.rows s'.rows)

/-- A query of one run leaves the others where they may stand. -/
theorem QueryDoes.standing {session : Nat} {directory : MigrationDirectory}
    {progress : MigrationProgress Tables} {next : MigrationControl Tables}
    (h : QueryDoes env session directory s.rows progress) (hstanding : Standing (MayAwait env) s)
    (hnext : MayAwait env progress.db [] session directory next) :
    Standing (MayAwait env) (s.proceed session directory { progress with control := next }) := by
  have hgrows : s.rows.recorded <+: progress.db.recorded := by
    rcases h.effect with ⟨-, hsame⟩ | ⟨file, rest, -, hcommits⟩
    · rw [hsame.recorded]
    · rw [hcommits.recorded]
      exact List.prefix_append _ _
  refine hstanding.moved ⟨hnext.deployed, hnext.holds, hnext.knows⟩ ?_
  intro other directory' control' hne hother
  refine hother.later (fun hlock => ?_) hgrows
  obtain ⟨hkept, hsame⟩ := h.others other hne hlock
  exact ⟨hkept, hsame.tables, hsame.recorded⟩

theorem QueryDoes.extends {session : Nat} {directory : MigrationDirectory}
    {progress : MigrationProgress Tables} (next : MigrationControl Tables)
    (h : QueryDoes env session directory s.rows progress) :
    Extends env s (s.proceed session directory { progress with control := next }) := by
  have happlied : (s.proceed session directory { progress with control := next }).applied =
      s.applied ++ progress.applied.reverse := by
    simp [Migrators.proceed, Migrators.applied, Workers.observe, Workers.withRows, Workers.enter]
  rcases h.effect with ⟨hnone, hsame⟩ | ⟨file, rest, hfile, hcommits⟩
  · exact .same (by rw [happlied, hnone, List.reverse_nil, List.append_nil]) hsame
  · exact .commits directory h.stands.deployed file rest
      (by rw [happlied, hfile, List.reverse_singleton]) hcommits

/-- Each step leaves what was applied or commits one more file, and every run stands where it may. -/
theorem MigrationStep.extends (hstanding : Standing (MayAwait env) s)
    (hstep : MigrationStep env s s') : Standing (MayAwait env) s' ∧ Extends env s s' := by
  cases hstep with
  | connect session directory _ hdeployed =>
    exact ⟨hstanding.enter ⟨hdeployed, by simp [MigrationControl.inside], trivial⟩,
      .same rfl ⟨rfl, rfl⟩⟩
  | @query session directory control progress hcontrol hquery =>
    have hstands := hstanding session directory control hcontrol
    have hdoes := runMigrations_does ⟨hstands.deployed, hstands.holds, hstands.knows⟩ hquery
    exact ⟨hdoes.standing hstanding hdoes.stands, hdoes.extends progress.control⟩
  | fail _ hcontrol hnext =>
    exact ⟨hstanding.enter ((hstanding _ _ _ hcontrol).failed hnext), .same rfl ⟨rfl, rfl⟩⟩
  | @unanswered session directory file rest staged progress message hcontrol hquery =>
    have hstands := hstanding session directory _ hcontrol
    have hdoes := runMigrations_does ⟨hstands.deployed, hstands.holds, hstands.knows⟩ hquery
    obtain rfl : _ = progress := by simpa [runMigrations] using hquery
    exact ⟨hdoes.standing hstanding ⟨hstands.deployed, fun _ => hstands.holds rfl, trivial⟩,
      hdoes.extends _⟩
  | @stop session directory control hcontrol _ =>
    have hstands := hstanding session directory control hcontrol
    refine ⟨Standing.moved (E := []) hstanding ⟨hstands.deployed,
      by simp [MigrationControl.inside], trivial⟩ ?_, .same rfl ⟨rfl, rfl⟩⟩
    intro other directory' control' hne hother
    refine hother.later (fun hlock => ⟨?_, rfl, rfl⟩) (List.prefix_refl _)
    simp [hlock, hne]

theorem executeAll_append {files : List MigrationFile} {file : MigrationFile}
    {tables tables' tables'' : Tables} (hfiles : env.executeAll files tables = .ok tables')
    (hfile : env.execute file.sql tables' = .ok tables'') :
    env.executeAll (files ++ [file]) tables = .ok tables'' := by
  rw [MigrationEnvironment.executeAll, List.foldlM_append]
  rw [MigrationEnvironment.executeAll] at hfiles
  rw [hfiles]
  change [file].foldlM (fun tables file => env.execute file.sql tables) tables' = .ok tables''
  rw [List.foldlM_cons, hfile]
  rfl

theorem MigrationInvariant.step (h : MigrationInvariant env init s)
    (hstep : MigrationStep env s s') : MigrationInvariant env init s' := by
  obtain ⟨hstanding, hextends⟩ := hstep.extends h.standing
  cases hextends with
  | same happlied hrows =>
    refine ⟨hstanding, ?_, ?_, ?_⟩
    · rw [hrows.recorded, happlied, h.recorded]
    · rw [happlied]
      exact h.distinct
    · rw [hrows.tables, happlied]
      exact h.tables
  | commits directory _ file rest happlied hcommits =>
    refine ⟨hstanding, ?_, ?_, ?_⟩
    · rw [hcommits.recorded, happlied, h.recorded, List.map_append, List.map_singleton]
    · rw [happlied, List.map_append, List.map_singleton]
      refine List.nodup_append.mpr ⟨h.distinct, List.nodup_singleton _, ?_⟩
      intro name hname other hother
      obtain rfl := List.mem_singleton.mp hother
      obtain ⟨before, hbefore, rfl⟩ := List.mem_map.mp hname
      refine hcommits.fresh (env.row before) ?_
      rw [h.recorded]
      exact List.mem_map_of_mem hbefore
    · rw [happlied]
      exact executeAll_append h.tables hcommits.tables

theorem migrationInvariant (h : MigrationsLater env (unmigrated init) s) :
    MigrationInvariant env init s := by
  induction h with
  | refl => exact ⟨standing_idle _, rfl, List.nodup_nil, rfl⟩
  | tail _ hstep ih => exact ih.step hstep

theorem migrationInvariant_later (h : MigrationInvariant env init s)
    (hlater : MigrationsLater env s s') : MigrationInvariant env init s' ∧ s.applied <+: s'.applied := by
  induction hlater with
  | refl => exact ⟨h, List.prefix_refl _⟩
  | tail _ hstep ih =>
    obtain ⟨hbefore, hbegins⟩ := ih
    refine ⟨hbefore.step hstep, hbegins.trans ?_⟩
    cases (hstep.extends hbefore.standing).2 with
    | same happlied _ => rw [happlied]
    | commits _ _ file _ happlied _ =>
      rw [happlied]
      exact List.prefix_append _ _

/-- The database is what some files have left. Each was applied once and is recorded with its
digest, in the order in which they were applied. -/
structure MigratedBy (env : MigrationEnvironment Tables) (init : Tables)
    (files : List MigrationFile) (db : MigratedDatabase Tables) : Prop where
  recorded : db.recorded = files.map env.row
  distinct : (files.map MigrationFile.name).Nodup
  tables : env.executeAll files init = .ok db.tables

theorem MigrationInvariant.migratedBy (h : MigrationInvariant env init s) :
    MigratedBy env init s.applied s.rows :=
  ⟨h.recorded, h.distinct, h.tables⟩

/-- A recorded file was applied: no other file of its name has its digest. -/
theorem MigratedBy.mem_of_row {files : List MigrationFile} {db : MigratedDatabase Tables}
    {file : MigrationFile} (h : MigratedBy env init files db) (hrow : env.row file ∈ db.recorded) :
    file ∈ files := by
  rw [h.recorded] at hrow
  obtain ⟨applied, happlied, hsame⟩ := List.mem_map.mp hrow
  obtain ⟨hname, hdigest⟩ := SchemaMigrationRow.mk.inj hsame
  have hsql : applied.sql = file.sql := env.sha256.collisionFree hdigest
  have hfile : applied = file := by
    cases applied
    cases file
    simp_all
  exact hfile ▸ happlied

/-- However many deployments run at once, and wherever they stop, the tables are what a list of
files leaves, each applied once and recorded with its digest; later states extend the list. No two
runs are between their lock and their unlock together. A run that succeeds has all files of its
directory in the list, and none fails because another run has recorded its file. -/
theorem migrations_applied_once (h : MigrationsLater env (unmigrated init) s)
    (hlater : MigrationsLater env s s') :
    ∃ files files', files <+: files' ∧ MigratedBy env init files s.rows ∧
      MigratedBy env init files' s'.rows ∧
      (∀ session directory result, s.executions session = some (directory, .ended result) →
        (result = none → ∀ file ∈ directory.migrations, file ∈ files) ∧
        ∀ name, result ≠ some (.uniqueViolation name)) ∧
      ∀ session other directory directory' control control',
        s.executions session = some (directory, control) → control.inside = true →
        s.executions other = some (directory', control') → control'.inside = true →
          session = other := by
  have hinvariant := migrationInvariant h
  obtain ⟨hinvariant', hbegins⟩ := migrationInvariant_later hinvariant hlater
  refine ⟨s.applied, s'.applied, hbegins, hinvariant.migratedBy, hinvariant'.migratedBy, ?_, ?_⟩
  · intro session directory result hended
    have hends : EndsWith env directory s.rows.recorded result :=
      (hinvariant.standing session directory _ hended).knows
    constructor
    · rintro rfl file hfile
      obtain ⟨done, hfiles, hdone⟩ := hends
      rw [hfiles, List.append_nil] at hfile
      exact hinvariant.migratedBy.mem_of_row (hdone file hfile)
    · rintro name rfl
      exact hends
  · intro session other directory directory' control control' hsession hinside hother hinside'
    have hlock := (hinvariant.standing session directory control hsession).holds hinside
    have hlock' := (hinvariant.standing other directory' control' hother).holds hinside'
    exact Option.some.inj (hlock.symm.trans hlock')

end Runs

/-! ## Deployments that only add migrations -/

section History

variable {env : MigrationEnvironment Tables} {init : Tables} {s s' : Migrators Tables}

/-- The later directory has the files of this one, and migrations that are named after its own. -/
def MigrationDirectory.Precedes (directory latest : MigrationDirectory) : Prop :=
  ∃ later, latest.entries.Perm (directory.entries ++ later) ∧
    ∀ file ∈ directory.entries.filter MigrationFile.isSql,
      ∀ added ∈ later.filter MigrationFile.isSql, codeUnits file.name < codeUnits added.name

theorem MigrationDirectory.migrations_nodup (directory : MigrationDirectory) :
    (directory.migrations.map MigrationFile.name).Nodup := by
  have hsorted : directory.migrations.Perm (directory.entries.filter MigrationFile.isSql) :=
    sortByName_perm _
  have hperm := hsorted.map MigrationFile.name
  have hsublist : (directory.entries.filter MigrationFile.isSql).Sublist directory.entries :=
    List.filter_sublist
  exact hperm.nodup_iff.mpr (directory.distinct.sublist (hsublist.map _))

/-- The later directory begins with the migrations of this one. -/
theorem MigrationDirectory.Precedes.migrations_begin {directory latest : MigrationDirectory}
    (h : directory.Precedes latest) : directory.migrations <+: latest.migrations := by
  obtain ⟨later, hperm, hlater⟩ := h
  have hfiltered : (latest.entries.filter MigrationFile.isSql).Perm
      (directory.entries.filter MigrationFile.isSql ++ later.filter MigrationFile.isSql) := by
    rw [← List.filter_append]
    exact hperm.filter _
  have hnodup : ((latest.entries.filter MigrationFile.isSql).map MigrationFile.name).Nodup :=
    latest.distinct.sublist (List.filter_sublist.map _)
  exact ⟨_, (sortByName_append hfiltered hnodup hlater).symm⟩

/-- What has been applied and the next file of a run make a longer beginning of the history. -/
theorem prefix_next {α β : Type} {name : α → β} {history applied done rest : List α} {next : α}
    (hdistinct : (history.map name).Nodup) (happlied : applied <+: history)
    (hnext : done ++ next :: rest <+: history)
    (hdone : ∀ a ∈ done, name a ∈ applied.map name)
    (hfresh : ∀ a ∈ applied, name a ≠ name next) : applied ++ [next] <+: history := by
  obtain ⟨remaining, rfl⟩ := happlied
  obtain ⟨behind, hsplit⟩ := hnext
  rw [List.append_assoc] at hsplit
  have hboth : applied = done ∧ remaining = (next :: rest) ++ behind := by
    rcases List.append_eq_append_iff.mp hsplit with ⟨extra, rfl, hextra⟩ | ⟨extra, rfl, hextra⟩
    · -- more is applied than this run has gone over
      cases extra with
      | nil => exact ⟨List.append_nil _, by simpa using hextra.symm⟩
      | cons other extra =>
        obtain rfl : next = other := by simpa using congrArg List.head? hextra
        exact absurd rfl (hfresh next (by simp))
    · -- the run has gone over more than is applied
      cases extra with
      | nil => exact ⟨(List.append_nil _).symm, by simpa using hextra⟩
      | cons other extra =>
        have hother : name other ∈ applied.map name := hdone other (by simp)
        rw [List.map_append, List.nodup_append] at hdistinct
        have hin : name other ∈ remaining.map name := by simp [hextra]
        exact absurd rfl (hdistinct.2.2 _ hother _ hin)
  rw [hboth.2]
  exact ⟨rest ++ behind, by simp⟩

variable {latest : MigrationDirectory}

theorem Extends.follows (hhistory : ∀ directory, env.deployed directory → directory.Precedes latest)
    (hinvariant : MigrationInvariant env init s) (h : s.applied <+: latest.migrations)
    (hextends : Extends env s s') : s'.applied <+: latest.migrations := by
  cases hextends with
  | same happlied _ => exact happlied ▸ h
  | commits directory hdeployed file rest happlied hcommits =>
    obtain ⟨done, hfiles, hdone⟩ := hcommits.scanned
    have hbegins := (hhistory directory hdeployed).migrations_begin
    rw [hfiles] at hbegins
    rw [happlied]
    refine prefix_next latest.migrations_nodup h hbegins (fun before hbefore => ?_)
      (fun before hbefore => ?_)
    · exact List.mem_map_of_mem (hinvariant.migratedBy.mem_of_row (hdone before hbefore))
    · refine hcommits.fresh (env.row before) ?_
      rw [hinvariant.recorded]
      exact List.mem_map_of_mem hbefore

theorem applied_prefix (hhistory : ∀ directory, env.deployed directory → directory.Precedes latest)
    (h : MigrationsLater env (unmigrated init) s) : s.applied <+: latest.migrations := by
  induction h with
  | refl => exact List.nil_prefix
  | tail hbefore hstep ih =>
    have hinvariant := migrationInvariant hbefore
    exact (hstep.extends hinvariant.standing).2.follows hhistory hinvariant ih

/-- When every deployment has a beginning of one history, the database is always at a version of
it: it records the first migrations and has the tables that these leave in their order. A run that
succeeds has reached its own version, and no run finds another digest for its file. -/
theorem migrations_follow_history
    (hhistory : ∀ directory, env.deployed directory → directory.Precedes latest)
    (h : MigrationsLater env (unmigrated init) s) :
    ∃ version, s.rows.recorded = (latest.migrations.take version).map env.row ∧
      env.executeAll (latest.migrations.take version) init = .ok s.rows.tables ∧
      ∀ session directory result, s.executions session = some (directory, .ended result) →
        (result = none → directory.migrations <+: latest.migrations.take version) ∧
        ∀ name, result ≠ some (.checksumMismatch name) := by
  have hinvariant := migrationInvariant h
  have hbegins := applied_prefix hhistory h
  have htake : s.applied = latest.migrations.take s.applied.length :=
    List.prefix_iff_eq_take.mp hbegins
  refine ⟨s.applied.length, ?_, ?_, ?_⟩
  · rw [← htake]
    exact hinvariant.recorded
  · rw [← htake]
    exact hinvariant.tables
  rw [← htake]
  intro session directory result hended
  have hstands := hinvariant.standing session directory _ hended
  have hends : EndsWith env directory s.rows.recorded result := hstands.knows
  have hdirectory := (hhistory directory hstands.deployed).migrations_begin
  constructor
  · rintro rfl
    obtain ⟨done, hfiles, hdone⟩ := hends
    rw [List.append_nil] at hfiles
    rcases List.prefix_or_prefix_of_prefix hdirectory hbegins with hreached | ⟨extra, hmore⟩
    · exact hreached
    · -- what goes beyond the applied files is recorded, hence applied
      cases extra with
      | nil => exact ⟨[], by simpa using hmore.symm⟩
      | cons file extra =>
        have hfile : file ∈ s.applied :=
          hinvariant.migratedBy.mem_of_row (hdone file (by rw [← hfiles, ← hmore]; simp))
        have hnodup := directory.migrations_nodup.of_map
        rw [← hmore, List.nodup_append] at hnodup
        exact absurd rfl (hnodup.2.2 file hfile file (by simp))
  · rintro name rfl
    obtain ⟨file, hfile, hname, row, hrow, hrowName, hdiffers⟩ := hends
    rw [hinvariant.recorded] at hrow
    obtain ⟨applied, happlied, rfl⟩ := List.mem_map.mp hrow
    have hsame : applied = file := List.inj_on_of_nodup_map latest.migrations_nodup
      (hbegins.subset happlied) (hdirectory.subset hfile) (hrowName.trans hname.symm)
    exact hdiffers (by rw [← hsame]; rfl)

end History

/-! ## Two deployments at once -/

section Example

/-- The next query of a session, answered. -/
def Migrators.answered (env : MigrationEnvironment Tables) (s : Migrators Tables) (session : Nat) :
    Option (Migrators Tables) :=
  (s.executions session).bind fun run =>
    (runMigrations env session run.1 s.rows run.2).map (s.proceed session run.1)

theorem migrationsLater_answered {env : MigrationEnvironment Tables} {s s' : Migrators Tables}
    {sessions : List Nat} (h : sessions.foldlM (Migrators.answered env) s = some s') :
    MigrationsLater env s s' := by
  induction sessions generalizing s with
  | nil =>
    obtain rfl : s = s' := by simpa using h
    exact .refl
  | cons session sessions ih =>
    rw [List.foldlM_cons] at h
    obtain ⟨next, hnext, hrest⟩ := Option.bind_eq_some_iff.mp h
    obtain ⟨⟨directory, control⟩, hcontrol, hanswer⟩ := Option.bind_eq_some_iff.mp hnext
    obtain ⟨progress, hquery, rfl⟩ := Option.map_eq_some_iff.mp hanswer
    exact .head (.query hcontrol hquery) (ih hrest)

/-- The directory of a first deployment. -/
def exampleFirst : MigrationDirectory := ⟨[⟨"README", ""⟩, ⟨"01.sql", "a"⟩], by decide⟩

/-- The directory of a second deployment. -/
def exampleSecond : MigrationDirectory :=
  ⟨[⟨"02.sql", "b"⟩, ⟨"README", ""⟩, ⟨"01.sql", "a"⟩], by decide⟩

/-- Files that add their text to the tables. -/
def exampleMigrations : MigrationEnvironment (List String) where
  sha256 := .transparent
  execute := fun sql tables => .ok (tables ++ [sql])
  deployed := fun directory => directory = exampleFirst ∨ directory = exampleSecond

/-- Both deployments have connected. -/
def exampleConnected : Migrators (List String) :=
  ((unmigrated []).enter 0 exampleFirst .locking).enter 1 exampleSecond .locking

/-- The order in which they are answered: the second waits while the first has the lock. -/
def exampleAnswers : List Nat :=
  [0, 0, 0, 0, 0, 0, 0, 0, 0, 1, 1, 1, 1, 1, 1, 1, 1, 1, 1]

theorem exampleConnected_later :
    MigrationsLater exampleMigrations (unmigrated []) exampleConnected :=
  .tail (.single (.connect 0 exampleFirst rfl (Or.inl rfl)))
    (.connect 1 exampleSecond rfl (Or.inr rfl))

/-- Both succeed, and the first file is applied once. -/
theorem exampleAnswers_migrate :
    ∃ s, MigrationsLater exampleMigrations (unmigrated []) s ∧ s.rows.tables = ["a", "b"] ∧
      s.executions 0 = some (exampleFirst, .ended none) ∧
      s.executions 1 = some (exampleSecond, .ended none) := by
  have hrun : (exampleAnswers.foldlM (Migrators.answered exampleMigrations)
      exampleConnected).map (fun s => (s.rows.tables, s.executions 0, s.executions 1)) =
        some (["a", "b"], some (exampleFirst, .ended none),
          some (exampleSecond, .ended none)) := rfl
  obtain ⟨s, hs, hsame⟩ := Option.map_eq_some_iff.mp hrun
  simp only [Prod.mk.injEq] at hsame
  exact ⟨s, exampleConnected_later.trans (migrationsLater_answered hs), hsame⟩

theorem migrations_applied_once_example :
    ∃ s files, MigrationsLater exampleMigrations (unmigrated []) s ∧ s.rows.tables = ["a", "b"] ∧
      MigratedBy exampleMigrations [] files s.rows ∧
      ∀ file ∈ exampleSecond.migrations, file ∈ files := by
  obtain ⟨s, hlater, htables, -, hsecond⟩ := exampleAnswers_migrate
  obtain ⟨files, -, -, hmigrated, -, hended, -⟩ := migrations_applied_once hlater .refl
  exact ⟨s, files, hlater, htables, hmigrated, (hended 1 exampleSecond none hsecond).1 rfl⟩

theorem migrations_follow_history_example :
    ∃ s version, MigrationsLater exampleMigrations (unmigrated []) s ∧
      s.rows.tables = ["a", "b"] ∧
      s.rows.recorded = (exampleSecond.migrations.take version).map exampleMigrations.row ∧
      exampleFirst.migrations <+: exampleSecond.migrations.take version := by
  obtain ⟨s, hlater, htables, hfirst, -⟩ := exampleAnswers_migrate
  have hhistory : ∀ directory, exampleMigrations.deployed directory →
      directory.Precedes exampleSecond := by
    rintro directory (rfl | rfl)
    · exact ⟨[⟨"02.sql", "b"⟩], by decide, by decide⟩
    · exact ⟨[], by simp, by simp⟩
  obtain ⟨version, hrecorded, -, hended⟩ := migrations_follow_history hhistory hlater
  exact ⟨s, version, hlater, htables, hrecorded, (hended 0 exampleFirst none hfirst).1 rfl⟩

end Example

end LegacyVault
