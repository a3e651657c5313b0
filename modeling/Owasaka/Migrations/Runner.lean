import Owasaka.Foundation.Bolt
import Owasaka.Foundation.Bytes

/-! # Schema migrations (`migrations/migrations.go`, `migrations/runner.go`)

    A migration is a change of the database inside a write transaction, with a
    number.  The highest number that was applied is kept in a bucket of its own,
    written in the same transaction as the change.  `RunUp` applies what is
    pending, each migration in its transaction; `RunDown` reverts the last one;
    `CheckBoot` refuses to start with pending migrations, or applies them.

    Every transaction may fail; a `CallEnv` says which do. -/

namespace Owasaka.Migrations

open Bolt

/-! ## Section 1: The registry -/

def bucketSchema : String := "schema_version"
def keyAppliedID : Bytes := "applied".toUTF8.toList
def keyAppliedAt : Bytes := "applied_at".toUTF8.toList

/-- The change that a migration makes inside its transaction. -/
abbrev Change : Type := Db → Except String Db

structure Migration where
  id : UInt32
  description : String
  up : Option Change
  /-- `none` is a migration that cannot be reverted. -/
  down : Option Change

/-- `All`: the registered migrations sorted by their IDs. -/
def all (registry : List Migration) : List Migration :=
  registry.mergeSort fun m n => decide (m.id ≤ n.id)

def availableID (registry : List Migration) : UInt32 :=
  match (all registry).getLast? with
  | none => 0
  | some m => m.id

/-! ## Section 2: The applied ID -/

inductive MigrationError where
  | bolt (cause : String)
  | wrongLength (length : Nat)
  | pendingMigrations (pending : List (UInt32 × String))
  | downgradeDetected
  | unknownMigration (id : UInt32)
  | noUp (id : UInt32) (description : String)
  | up (id : UInt32) (cause : String)
  | nothingApplied
  | irreversible (id : UInt32) (description : String)
  | down (id : UInt32) (cause : String)
  deriving DecidableEq

/-- The errors that a call meets: of the transaction that creates the bucket, of
    the read of the applied ID, and of the change and of the commit by ID. -/
structure CallEnv where
  ensure : Option String
  view : Option String
  change : UInt32 → Option String
  commit : UInt32 → Option String

def appliedID (fault : Option String) (db : Db) : Except MigrationError UInt32 :=
  match fault with
  | some e => .error (.bolt e)
  | none =>
    match db[bucketSchema]? with
    | none => .ok 0
    | some b =>
      match b[keyAppliedID]? with
      | none => .ok 0
      | some raw =>
        if raw.length ≠ 4 then .error (.wrongLength raw.length)
        else .ok (UInt32.ofNat (Bytes.ofBigEndian raw))

structure Status where
  applied : UInt32
  available : UInt32
  pending : List Migration

def currentStatus (registry : List Migration) (fault : Option String) (db : Db) :
    Except MigrationError Status :=
  match appliedID fault db with
  | .error e => .error e
  | .ok applied =>
    .ok ⟨applied, availableID registry, (all registry).filter fun m => decide (applied < m.id)⟩

def ensureBucket (fault : Option String) (db : Db) : Except MigrationError Unit × Db :=
  update (fault.map .bolt) (fun tx => .ok ((), createBucketIfNotExists bucketSchema tx)) db

def writeAppliedID (id : UInt32) (tx : Db) : Db :=
  let b := tx[bucketSchema]?.getD ∅
  tx.insert bucketSchema
    ((b.insert keyAppliedAt []).insert keyAppliedID (Bytes.bigEndian 4 id.toNat))

/-! ## Section 3: The runner -/

/-- The transaction of one change: the change, then its number. -/
def commitChange (env : CallEnv) (change : Change) (id newApplied : UInt32)
    (error : String → MigrationError) (db : Db) : Except MigrationError Unit × Db :=
  update ((env.commit id).map .bolt)
    (fun tx =>
      match env.change id with
      | some e => .error (error e)
      | none =>
        match change tx with
        | .error e => .error (error e)
        | .ok tx => .ok ((), writeAppliedID newApplied tx))
    db

/-- The loop of `RunUp` over the pending migrations. -/
def upLoop (env : CallEnv) : List Migration → UInt32 → Db → (UInt32 × Option MigrationError) × Db
  | [], lastApplied, db => ((lastApplied, none), db)
  | m :: pending, lastApplied, db =>
    match m.up with
    | none => ((lastApplied, some (.noUp m.id m.description)), db)
    | some up =>
      match commitChange env up m.id m.id (.up m.id) db with
      | (.error e, db) => ((lastApplied, some e), db)
      | (.ok _, db) => upLoop env pending m.id db

def runUp (registry : List Migration) (env : CallEnv) (db : Db) :
    (UInt32 × Option MigrationError) × Db :=
  match ensureBucket env.ensure db with
  | (.error e, db) => ((0, some e), db)
  | (.ok _, db) =>
    match currentStatus registry env.view db with
    | .error e => ((0, some e), db)
    | .ok status =>
      if status.available < status.applied then ((0, some .downgradeDetected), db)
      else if status.pending.length = 0 then ((status.applied, none), db)
      else upLoop env status.pending 0 db

/-- The highest ID below that of the target, or 0. -/
def predecessorID (target : UInt32) (ms : List Migration) : UInt32 :=
  ms.foldl (fun newApplied m => if m.id < target ∧ newApplied < m.id then m.id else newApplied) 0

def runDown (registry : List Migration) (env : CallEnv) (db : Db) :
    (UInt32 × Option MigrationError) × Db :=
  match currentStatus registry env.view db with
  | .error e => ((0, some e), db)
  | .ok status =>
    if status.applied = 0 then ((0, some .nothingApplied), db)
    else
      match (all registry).find? fun m => decide (m.id = status.applied) with
      | none => ((status.applied, some (.unknownMigration status.applied)), db)
      | some target =>
        match target.down with
        | none => ((status.applied, some (.irreversible target.id target.description)), db)
        | some down =>
          let newApplied := predecessorID target.id (all registry)
          match commitChange env down target.id newApplied (.down target.id) db with
          | (.error e, db) => ((status.applied, some e), db)
          | (.ok _, db) => ((newApplied, none), db)

/-- `CheckBoot`; `upEnv` is what the call of `RunUp` inside it meets. -/
def checkBoot (registry : List Migration) (env upEnv : CallEnv) (autoMigrate : Bool) (db : Db) :
    Option MigrationError × Db :=
  match ensureBucket env.ensure db with
  | (.error e, db) => (some e, db)
  | (.ok _, db) =>
    match currentStatus registry env.view db with
    | .error e => (some e, db)
    | .ok status =>
      if status.available < status.applied then (some .downgradeDetected, db)
      else if status.pending.length = 0 then (none, db)
      else if !autoMigrate then
        (some (.pendingMigrations (status.pending.map fun m => (m.id, m.description))), db)
      else
        let (result, db) := runUp registry upEnv db
        (result.2, db)

/-! ## Section 4: The migration that ships (`migrations/0001_initial.go`) -/

def initialBuckets : List String :=
  ["assets", "events", "auth.revoked", "audit.api.access", "transparency.leaves",
    "transparency.nodes", "transparency.sth", "transparency.sth.history"]

def initialMigration : Migration where
  id := 1
  description := "initial schema — events, assets, identity, transparency log"
  up := some fun tx => .ok (initialBuckets.foldl (fun tx name => createBucketIfNotExists name tx) tx)
  down := none

end Owasaka.Migrations
