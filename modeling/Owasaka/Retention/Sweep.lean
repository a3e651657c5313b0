import Owasaka.Foundation.Bolt
import Owasaka.Foundation.Disk
import Owasaka.Foundation.Json

/-! # The retention engine

    `Sweep` prunes the events and the assets in two write transactions, then
    compacts the database when its freelist is long: it copies the database to a
    sibling file and renames the copy over the path.  The handle keeps the file
    it has open.

    This file defines:
    - `Config`, `Engine`: durations and thresholds
    - `shouldDropEvent`, `assetIsStale`: what has expired
    - `Store`: an open database, its path and its file on disk
    - `compact` and `sweep`, with a failure at every step -/

namespace Owasaka.Retention

open Bolt

/-! ## Section 1: Configuration -/

/-- Durations are in nanoseconds. -/
structure Config where
  eventsDefaultTTL : Int
  alertsTTL : Int
  assetsStaleTTL : Int
  sweepInterval : Int
  compactionFreelistThreshold : Int

/-- `24 * time.Hour`. -/
def day : Int := 24 * 3600 * 10 ^ 9

def Config.ensureDefaults (c : Config) : Config :=
  { c with
    eventsDefaultTTL := if c.eventsDefaultTTL = 0 then 90 * day else c.eventsDefaultTTL
    alertsTTL := if c.alertsTTL = 0 then 365 * day else c.alertsTTL
    assetsStaleTTL := if c.assetsStaleTTL = 0 then 30 * day else c.assetsStaleTTL
    sweepInterval := if c.sweepInterval = 0 then day else c.sweepInterval }

/-- The engine's database is passed along as a `Store`. -/
structure Engine where
  cfg : Config

/-! ## Section 2: What has expired -/

structure EventRecord where
  type : String
  timestamp : Int

/-- What `json.Unmarshal` reads from a stored value; `none` is its error. -/
structure Codec where
  event : Bytes → Option EventRecord
  /-- The `last_seen` of an asset. -/
  asset : Bytes → Option Int

/-- `t.Sub(u)`, which stops at the ends of `time.Duration`. -/
def timeSub (t u : Int) : Int := max (-2 ^ 63) (min (2 ^ 63 - 1) (t - u))

/-- The drop decision, and whether the event is an alert. -/
def Engine.shouldDropEvent (e : Engine) (codec : Codec) (raw : Bytes) (now : Int) : Bool × Bool :=
  match codec.event raw with
  -- what cannot be read is kept
  | none => (false, false)
  | some ev =>
    let isAlert := ev.type == "THREAT_ALERT"
    let ttl := if isAlert then e.cfg.alertsTTL else e.cfg.eventsDefaultTTL
    -- no limit, or no time to measure from
    if ttl = 0 ∨ ev.timestamp = zeroTime then (false, isAlert)
    else (decide (timeSub now ev.timestamp > ttl), isAlert)

def assetIsStale (codec : Codec) (raw : Bytes) (cutoff : Int) : Bool :=
  match codec.asset raw with
  | none => false
  | some lastSeen => if lastSeen = zeroTime then false else decide (lastSeen < cutoff)

/-- The keys that the events transaction deletes, each with `isAlert`. -/
def Engine.expiredEvents (e : Engine) (codec : Codec) (now : Int) (db : Db) :
    List (Bytes × Bool) :=
  match db["events"]? with
  | none => []
  | some b => b.toList.filterMap fun entry =>
      let drop := e.shouldDropEvent codec entry.2 now
      if drop.1 then some (entry.1, drop.2) else none

/-- The keys that the assets transaction deletes. -/
def Engine.staleAssets (e : Engine) (codec : Codec) (now : Int) (db : Db) : List Bytes :=
  match db["assets"]? with
  | none => []
  | some b =>
    -- the negation is that of `int64`
    let cutoff := now + (-e.cfg.assetsStaleTTL).bmod (2 ^ 64)
    b.toList.filterMap fun entry =>
      if assetIsStale codec entry.2 cutoff then some entry.1 else none

/-- The writes of the events transaction. -/
def Engine.eventsTx (e : Engine) (codec : Codec) (now : Int) (db : Db) :
    Except String (List Write) :=
  .ok ((e.expiredEvents codec now db).map fun entry => .delete "events" entry.1)

/-- The writes of the assets transaction. -/
def Engine.assetsTx (e : Engine) (codec : Codec) (now : Int) (db : Db) :
    Except String (List Write) :=
  .ok ((e.staleAssets codec now db).map (.delete "assets"))

/-! ## Section 3: The open database -/

/-- A database handle.  A file that is no complete database holds `none`. -/
structure Store where
  disk : Disk (Option Db)
  path : String
  /-- The file that the handle has open. -/
  file : Nat

namespace Store

/-- The database that the handle reads and writes. -/
def db (s : Store) : Db := (s.disk.files s.file).getD ∅

/-- The database in the file at the path. -/
def saved (s : Store) : Db := (s.disk.content s.path).join.getD ∅

/-- `path + ".compact"`. -/
def copyPath (s : Store) : String := s.path ++ ".compact"

end Store

/-- `bolt.Open(path)`: a missing file is created, an incomplete one refused. -/
def openStore (disk : Disk (Option Db)) (path : String) : Option Store :=
  match disk.names path with
  | none => some ⟨disk.createNew path (some ∅), path, disk.fresh⟩
  | some i =>
    match disk.files i with
    | none => none
    | some _ => some ⟨disk, path, i⟩

def newEngine (cfg : Config) (db : Option Store) : Except String Engine :=
  match db with
  | none => .error "retention: nil db"
  | some _ => .ok ⟨cfg.ensureDefaults⟩

/-- Where a write transaction fails outside its function. -/
inductive TxFault where
  | start (msg : String)
  | commit (msg : String)

/-- Whether the transaction's function is run. -/
def TxFault.runs : Option TxFault → Bool
  | some (.start _) => false
  | _ => true

/-- `db.Update(fn)` for a function given by the writes it makes.  Success
    returns these writes and the handle after the commit. -/
def Store.update (s : Store) (fault : Option TxFault) (fn : Db → Except String (List Write)) :
    Except String (List Write × Store) :=
  match fault with
  | some (.start msg) => .error msg
  | some (.commit msg) => fn s.db >>= fun _ => .error msg
  | none => do
    let ws ← fn s.db
    match writeAll ws s.db with
    | none => .error "bucket not found"
    | some db => .ok (ws, { s with disk := s.disk.write s.file (some db) })

/-- Where `tx.CopyFile` fails: before it writes, partway, or when it closes the
    complete copy. -/
inductive CopyFault where
  | start (msg : String)
  | partway (msg : String)
  | close (msg : String)

/-- `tx.CopyFile` to the sibling path, with its error. -/
def Store.copyFile (s : Store) : Option CopyFault → Option String × Store
  | some (.start msg) => (some msg, s)
  | some (.partway msg) => (some msg, { s with disk := s.disk.create s.copyPath none })
  | some (.close msg) => (some msg, { s with disk := s.disk.create s.copyPath (some s.db) })
  | none => (none, { s with disk := s.disk.create s.copyPath (some s.db) })

/-- `atomicRename(dst, path)`, with its error. -/
def Store.atomicRename (s : Store) : Option String → Option String × Store
  | some msg => (some msg, s)
  | none =>
    match s.disk.rename s.copyPath s.path with
    | none => (some "no such file or directory", s)
    | some disk => (none, { s with disk := disk })

def Store.compact (s : Store) (copyFault : Option CopyFault) (renameFault : Option String) :
    Option String × Store :=
  match s.copyFile copyFault with
  | (some msg, s) => (some ("compact: write copy: " ++ msg), s)
  | (none, s) =>
    match s.atomicRename renameFault with
    | (some msg, s) => (some ("compact: rename: " ++ msg), s)
    | (none, s) => (none, s)

/-! ## Section 4: The sweep -/

structure Report where
  eventsRemoved : Nat := 0
  alertsRemoved : Nat := 0
  assetsRemoved : Nat := 0
  compactionRan : Bool := false
  freelistPagesAfter : Int := 0
  startedAt : Int := zeroTime
  finishedAt : Int := zeroTime

/-- The events transaction.  The counters are those of the function, also when
    the commit fails. -/
def Engine.sweepEvents (e : Engine) (codec : Codec) (now : Int) (fault : Option TxFault)
    (rep : Report) (s : Store) : Report × Except String (List Write × Store) :=
  let expired := e.expiredEvents codec now s.db
  let rep' := { rep with
    eventsRemoved := rep.eventsRemoved + expired.countP (fun entry => !entry.2)
    alertsRemoved := rep.alertsRemoved + expired.countP (fun entry => entry.2) }
  (if TxFault.runs fault then rep' else rep,
    s.update fault (e.eventsTx codec now))

/-- The assets transaction. -/
def Engine.sweepAssets (e : Engine) (codec : Codec) (now : Int) (fault : Option TxFault)
    (rep : Report) (s : Store) : Report × Except String (List Write × Store) :=
  let stale := e.staleAssets codec now s.db
  let rep' := { rep with assetsRemoved := rep.assetsRemoved + stale.length }
  (if TxFault.runs fault then rep' else rep,
    s.update fault (e.assetsTx codec now))

/-- What a sweep meets: the context's error, the clock, the failures of its
    transactions and of the compaction, and the freelist's length. -/
structure SweepEnv where
  ctxErr : Option String
  now : Int
  eventsFault : Option TxFault
  assetsFault : Option TxFault
  freelistPageCount : Int
  copyFault : Option CopyFault
  renameFault : Option String
  finishedAt : Int

/-- Whether a freelist of `pages` pages makes the sweep compact. -/
def Engine.compacts (e : Engine) (pages : Int) : Bool :=
  decide (e.cfg.compactionFreelistThreshold > 0)
    && decide (pages > e.cfg.compactionFreelistThreshold)

/-- The compaction trigger.  A failed compaction is logged and dropped. -/
def Engine.sweepCompact (e : Engine) (env : SweepEnv) (rep : Report) (s : Store) :
    Report × Store :=
  let rep := if e.cfg.compactionFreelistThreshold > 0 then
      { rep with freelistPagesAfter := env.freelistPageCount }
    else rep
  if e.compacts env.freelistPageCount then
    match s.compact env.copyFault env.renameFault with
    -- the copy may be left beside the database
    | (some _, s) => (rep, s)
    | (none, s) => ({ rep with compactionRan := true }, s)
  else (rep, s)

/-- The report, the error and the handle after the sweep. -/
def Engine.sweep (e : Engine) (codec : Codec) (env : SweepEnv) (s : Store) :
    Report × Option String × Store :=
  match env.ctxErr with
  | some msg => ({}, some msg, s)
  | none =>
    match e.sweepEvents codec env.now env.eventsFault { startedAt := env.now } s with
    | (rep, .error msg) => (rep, some ("retention: events sweep: " ++ msg), s)
    | (rep, .ok (_, s)) =>
      match e.sweepAssets codec env.now env.assetsFault rep s with
      | (rep, .error msg) => (rep, some ("retention: assets sweep: " ++ msg), s)
      | (rep, .ok (_, s)) =>
        let (rep, s) := e.sweepCompact env rep s
        ({ rep with finishedAt := env.finishedAt }, none, s)

/-! ## Section 5: What the operations do to the disk -/

variable {s : Store}

/-- **What a committed transaction is**: no fault, the writes of its function, and the open
    file with their result for its contents. -/
theorem Store.update_cases {fault : Option TxFault} {fn : Db → Except String (List Write)}
    {ws : List Write} {s' : Store} (hok : s.update fault fn = .ok (ws, s')) :
    fault = none ∧ fn s.db = .ok ws
      ∧ ∃ db, writeAll ws s.db = some db ∧ s' = { s with disk := s.disk.write s.file (some db) } := by
  unfold update at hok
  cases fault with
  | some fault =>
    cases fault with
    | start msg => contradiction
    | commit msg => cases hfn : fn s.db <;> simp [hfn, bind, Except.bind] at hok
  | none =>
    cases hfn : fn s.db with
    | error msg => simp [hfn, bind, Except.bind] at hok
    | ok ws' =>
      cases hall : writeAll ws' s.db with
      | none => simp [hfn, hall, bind, Except.bind] at hok
      | some db =>
        simp only [hfn, hall, bind, Except.bind, Except.ok.injEq, Prod.mk.injEq] at hok
        obtain ⟨rfl, rfl⟩ := hok
        exact ⟨rfl, rfl, db, hall, rfl⟩

/-- A committed transaction replaces the contents of the open file. -/
theorem Store.update_ok {fault : Option TxFault} {fn : Db → Except String (List Write)}
    {ws : List Write} {s' : Store} (hok : s.update fault fn = .ok (ws, s')) :
    ∃ db, writeAll ws s.db = some db ∧ s' = { s with disk := s.disk.write s.file (some db) } :=
  (Store.update_cases hok).2.2

/-- After a commit the handle reads what was committed. -/
@[simp] theorem Store.db_write (s : Store) (db : Db) :
    Store.db { s with disk := s.disk.write s.file (some db) } = db := by
  simp [Store.db]

theorem Store.copyPath_ne_path (s : Store) : s.copyPath ≠ s.path := by
  intro heq
  have hlen := congrArg String.length heq
  simp [copyPath] at hlen

/-! ## Section 6: The open file -/

variable {s' : Store}

/-- The open file is in use, and the copy that a compaction makes is another one. -/
structure Store.Sound (s : Store) : Prop where
  file_lt : s.file < s.disk.fresh
  copy_ne : s.disk.names s.copyPath ≠ some s.file

/-- Opening a path gives the file behind it, a complete database. -/
theorem openStore_spec {disk : Disk (Option Db)} {path : String} {store : Store}
    (hopen : openStore disk path = some store) :
    store.disk.names store.path = some store.file ∧ ∃ db, store.disk.files store.file = some db := by
  unfold openStore at hopen
  split at hopen
  · cases hopen
    simp [Disk.createNew]
  · rename_i i hi
    split at hopen
    · contradiction
    · rename_i db hdb
      cases hopen
      exact ⟨hi, db, hdb⟩

theorem Store.Sound.of_openStore {disk : Disk (Option Db)} {path : String}
    (hopen : openStore disk path = some s) : s.Sound := by
  obtain ⟨hname, _⟩ := openStore_spec hopen
  refine ⟨s.disk.lt_fresh _ _ hname, ?_⟩
  intro hcopy
  exact s.copyPath_ne_path (s.disk.inj _ _ _ hcopy hname)

theorem Store.Sound.write (hsound : s.Sound) (content : Option Db) :
    Store.Sound { s with disk := s.disk.write s.file content } :=
  ⟨hsound.file_lt, hsound.copy_ne⟩

theorem Store.Sound.update (hsound : s.Sound) {fault : Option TxFault}
    {fn : Db → Except String (List Write)} {ws : List Write} (hok : s.update fault fn = .ok (ws, s')) :
    s'.Sound := by
  obtain ⟨db, _, rfl⟩ := Store.update_ok hok
  exact hsound.write (some db)

/-- Making the copy, complete or not. -/
theorem Store.Sound.create (hsound : s.Sound) (content : Option Db) :
    Store.Sound { s with disk := s.disk.create s.copyPath content }
      ∧ Store.db { s with disk := s.disk.create s.copyPath content } = s.db := by
  refine ⟨⟨?_, ?_⟩, ?_⟩
  · exact Nat.lt_of_lt_of_le hsound.file_lt Disk.fresh_le_create
  · exact Disk.names_create_self_ne hsound.file_lt hsound.copy_ne
  · unfold Store.db
    rw [show ({ s with disk := s.disk.create s.copyPath content } : Store).file = s.file from rfl,
      Disk.files_create_of_ne hsound.file_lt hsound.copy_ne]

theorem Store.Sound.copyFile (hsound : s.Sound) (fault : Option CopyFault) :
    (s.copyFile fault).2.Sound ∧ (s.copyFile fault).2.db = s.db := by
  rcases fault with _ | (msg | msg | msg)
  · exact hsound.create (some s.db)
  · exact ⟨hsound, rfl⟩
  · exact hsound.create none
  · exact hsound.create (some s.db)

theorem Store.Sound.atomicRename (hsound : s.Sound) (fault : Option String) :
    (s.atomicRename fault).2.Sound ∧ (s.atomicRename fault).2.db = s.db := by
  unfold Store.atomicRename
  cases fault with
  | some msg => exact ⟨hsound, rfl⟩
  | none =>
    cases hname : s.disk.names s.copyPath with
    | none =>
      simp only [Disk.rename_eq_none _ hname]
      exact ⟨hsound, trivial⟩
    | some i =>
      obtain ⟨disk, hrename, hfiles, hfresh, hsrc, _⟩ := Disk.rename_spec s.copyPath_ne_path hname
      simp only [hrename]
      refine ⟨⟨?_, ?_⟩, ?_⟩
      · show s.file < disk.fresh
        rw [hfresh]
        exact hsound.file_lt
      · show disk.names s.copyPath ≠ some s.file
        simp [hsrc]
      · unfold Store.db
        simp only [hfiles]

/-- A compaction leaves the open database alone. -/
theorem Store.Sound.compact (hsound : s.Sound) (copyFault : Option CopyFault)
    (renameFault : Option String) :
    (s.compact copyFault renameFault).2.Sound ∧ (s.compact copyFault renameFault).2.db = s.db := by
  obtain ⟨hcopied, hdb⟩ := hsound.copyFile copyFault
  unfold Store.compact
  cases hcopy : s.copyFile copyFault with
  | mk err s₁ =>
    rw [hcopy] at hcopied hdb
    cases err with
    | some msg => exact ⟨hcopied, hdb⟩
    | none =>
      obtain ⟨hrenamed, hdb'⟩ := hcopied.atomicRename renameFault
      simp only
      cases hrename : s₁.atomicRename renameFault with
      | mk err' s₂ =>
        rw [hrename] at hrenamed hdb'
        cases err' with
        | some msg => exact ⟨hrenamed, hdb'.trans hdb⟩
        | none => exact ⟨hrenamed, hdb'.trans hdb⟩

theorem Store.Sound.sweepCompact (hsound : s.Sound) (e : Engine) (env : SweepEnv) (rep : Report) :
    (e.sweepCompact env rep s).2.Sound ∧ (e.sweepCompact env rep s).2.db = s.db := by
  have hcompact := hsound.compact env.copyFault env.renameFault
  unfold Engine.sweepCompact
  simp only
  split
  · split
    · rename_i heq
      rw [heq] at hcompact
      exact hcompact
    · rename_i heq
      rw [heq] at hcompact
      exact hcompact
  · exact ⟨hsound, rfl⟩

end Owasaka.Retention
