import Owasaka.Backup.Restore

/-! # Backups beside appends

    A call of `Run` takes its snapshot in a read transaction and reads the size
    and the root of the tree after it, each under the tree's lock.  Appends go
    on all the while: an `Append` holds the lock from before its transaction
    until its hash is in the cache, and a snapshot may fall between the two.  A
    source without a tree reads neither of them.

    The metadata describe the database inside the artifact in the runs in which
    the source has the tree and no append commits between the snapshot and the
    reading of the root. -/

namespace Owasaka.Backup

open Bolt Transparency

/-! ## Section 1: The system -/

/-- How far the call of `Run` has come. -/
inductive RunPhase where
  | idle
  | captured (c : Captured)
  | sized (c : Captured) (size : Nat)
  | returned (a : Artifact) (err : Option RunError)

structure BackupState where
  tree : Tree
  db : Db
  /-- The cache that an `Append` is about to publish: its transaction is
      committed, and it holds the lock. -/
  pending : Option Tree
  /-- The `Tree` of the source is this one; it may have none. -/
  hasTree : Bool
  run : RunPhase

inductive BackupAction where
  /-- An `Append` up to the end of its transaction. -/
  | commit (leaf : Leaf) (fault : Option String)
  /-- The rest of that `Append`. -/
  | publish
  | snapshot (env : RunEnv)
  | readSize
  /-- `sinks` are the sinks' names and the errors of their `Write`. -/
  | readRoot (sinks : List (String × Option String))
  /-- `BackupMetadata` of a source without a tree, and the sinks. -/
  | noMetadata (sinks : List (String × Option String))

/-- The cache that a call of `Append` publishes. -/
def published (t : Tree) : Except TreeError Nat → Option Tree
  | .ok _ => some t
  | .error _ => none

def afterCapture : Except RunError Captured → RunPhase
  | .error e => .returned .zero (some e)
  | .ok c => .captured c

/-- The handle is opened on a database whose leaves are a log. -/
def backupSystem (json : LeafJson) (file : BoltFile) (age : Age) (recipients : List Bytes) :
    System BackupState BackupAction where
  init := fun s =>
    (∃ db₀ log, Logged json db₀ log ∧ openTree json none db₀ = some (.ok s.tree, s.db))
      ∧ s.pending = none ∧ s.run = .idle
  step := fun s l s' =>
    match l with
    -- the lock is taken before the transaction and kept until `publish`
    | .commit leaf fault =>
      s.pending = none ∧ ∃ r t db, s.tree.append json fault leaf s.db = some (r, t, db)
        ∧ s' = { s with db := db, pending := published t r }
    | .publish => ∃ t, s.pending = some t ∧ s' = { s with tree := t, pending := none }
    | .snapshot env =>
      s.run = .idle ∧ s' = { s with run := afterCapture (capture file age recipients env s.db) }
    -- the two reads wait for the lock
    | .readSize =>
      s.hasTree = true ∧ s.pending = none
        ∧ ∃ c, s.run = .captured c ∧ s' = { s with run := .sized c s.tree.size }
    | .readRoot sinks =>
      s.pending = none ∧ ∃ c size, s.run = .sized c size
        ∧ s' = { s with run := .returned (assemble c (some (size, s.tree.root))) (writeSinks sinks) }
    | .noMetadata sinks =>
      s.hasTree = false ∧ ∃ c, s.run = .captured c
        ∧ s' = { s with run := .returned (assemble c none) (writeSinks sinks) }

/-! ## Section 2: What the metadata promise -/

/-- The files of `input` are those of the artifact, and its record is the
    artifact's tree size and root. -/
structure Journaled (a : Artifact) (identities : List Bytes) (input : RestoreInput)
    (d : Disk Bytes) : Prop where
  identities : input.identities = identities
  encrypted : d.content input.encryptedPath = some a.encrypted
  sidecar : d.content input.sidePath = some a.sidecar
  record : ∃ sth, input.expectedSTH = some sth ∧ sth.treeSize = a.treeSize
    ∧ Hex.encodeToString sth.rootHash = a.rootHashHex

/-- The metadata are what `inspectStaged` finds in the artifact, and their record
    passes the check of `Restore`. -/
structure Describes (json : LeafJson) (file : BoltFile) (age : Age) (identities : List Bytes)
    (a : Artifact) : Prop where
  staged : ∃ plain, decryptArtifact age identities a.encrypted = .ok plain
    ∧ ∀ env path d, env.Clear → d.content path = some plain →
      ∃ d', inspectStaged json file env path d
        = some (.ok (a.treeSize, a.rootHashHex, env.modTime), d')
  /-- Whichever call of `Restore` fails, the record is not refused. -/
  accepted : ∀ env input d report err d', Journaled a identities input d →
    restore json file age env input d = some (report, err, d') →
    (∀ note, err ≠ some (.sthMismatch note)) ∧ (err = none → report.sthMatch = true)
  /-- When none fails, the artifact is restored. -/
  restored : ∀ env input d, Journaled a identities input d → env.Clear →
    input.encryptedPath ≠ "" → input.targetPath ≠ "" → d.names env.stagingPath = none →
    env.stagingPath ≠ input.targetPath →
    ∃ report d', restore json file age env input d = some (report, none, d')

/-- The errors with which `Run` still returns an artifact: those of a sink. -/
def Produced (err : Option RunError) : Prop := ∀ e, err = some e → ∃ name cause, e = .sink name cause

/-- The call of `Run` is between its snapshot and its reading of the root. -/
def BackupState.reading (s : BackupState) : Prop :=
  match s.run with
  | .captured _ => True
  | .sized _ _ => True
  | _ => False

/-- No append commits between the snapshot and the reading of the root, and where there are
    metadata to give the source has a tree. -/
def Undisturbed (json : LeafJson) (s : BackupState) : BackupAction → Prop
  | .commit leaf fault => s.reading → fault = none → ∀ raw, json.marshal leaf ≠ .ok raw
  | .noMetadata _ => s.hasTree = true
  | _ => True

/-! ## Section 3: The invariant -/

variable {json : LeafJson} {file : BoltFile} {age : Age} {recipients identities : List Bytes}
  {s s' : BackupState} {log log' : List (Bytes × Leaf)}

/-- The artifact in the making carries a database that holds `log`. -/
def SnapshotOf (json : LeafJson) (file : BoltFile) (age : Age) (identities : List Bytes)
    (log : List (Bytes × Leaf)) (c : Captured) : Prop :=
  ∃ db, Carries file age identities c.encrypted c.sidecar db ∧ Logged json db log

/-- What the call of `Run` holds while `log` is the log. -/
def RunFits (json : LeafJson) (file : BoltFile) (age : Age) (identities : List Bytes)
    (log : List (Bytes × Leaf)) : RunPhase → Prop
  | .idle => True
  | .captured c => SnapshotOf json file age identities log c
  | .sized c size => SnapshotOf json file age identities log c ∧ size = log.length
  | .returned a err => Produced err → Describes json file age identities a

/-- The bucket and the cache that is, or is about to be, published are views of
    the list `log`. -/
structure Tracks (json : LeafJson) (file : BoltFile) (age : Age) (identities : List Bytes)
    (s : BackupState) (log : List (Bytes × Leaf)) : Prop where
  inStep : InStep json ⟨s.pending.getD s.tree, s.db⟩ log
  run : RunFits json file age identities log s.run

/-- **An artifact with the size and the root of the log inside it is described.** -/
theorem describes_assemble {c : Captured} (hids : identities ≠ [])
    (hsnap : SnapshotOf json file age identities log c) :
    Describes json file age identities (assemble c (some (log.length, logRoot log))) := by
  obtain ⟨db, hcarries, hlog⟩ := hsnap
  have hrecorded : ∀ input d,
      Journaled (assemble c (some (log.length, logRoot log))) identities input d →
        Recorded file age input d db log := by
    intro input d hj
    refine ⟨⟨c.encrypted, c.sidecar, hj.encrypted, hj.sidecar, ?_⟩, hj.record⟩
    rw [hj.identities]
    exact hcarries
  constructor
  case staged =>
    obtain ⟨_, plain, hplain, hopen⟩ := hcarries
    refine ⟨plain, hplain, ?_⟩
    intro env path d hclear hcontent
    obtain ⟨raw, hinspect⟩ := inspectStaged_clear hclear hlog hopen hcontent
    exact ⟨_, hinspect⟩
  case accepted =>
    intro env input d report err d' hj hres
    exact restore_accepts (hrecorded input d hj) hlog hres
  case restored =>
    intro env input d hj hclear hpath htarget hnew hne
    have hinput : input.identities ≠ [] := by rw [hj.identities]; exact hids
    exact restore_clear hclear (hrecorded input d hj) hlog hpath htarget hinput hnew hne

/-- Metadata that describe an artifact are the size and the root of the log inside it. -/
theorem Describes.metadata_eq {a : Artifact} (hdesc : Describes json file age identities a) {db : Db}
    (hcarries : Carries file age identities a.encrypted a.sidecar db) (hlog : Logged json db log) :
    (a.treeSize, a.rootHashHex) = backupMetadata (some (log.length, logRoot log)) := by
  obtain ⟨_, plain, hplain, hopen⟩ := hcarries
  obtain ⟨plain', hplain', hstaged⟩ := hdesc.staged
  rw [hplain, Except.ok.injEq] at hplain'
  subst hplain'
  have hclear : clearEnv.Clear := by constructor <;> rfl
  have hcontent : ((Disk.empty []).create "staged.db" plain).content "staged.db" = some plain :=
    Disk.content_create_self
  obtain ⟨d', hdescribed⟩ := hstaged clearEnv "staged.db" _ hclear hcontent
  obtain ⟨raw, hlogged⟩ := inspectStaged_clear hclear hlog hopen hcontent
  rw [hdescribed] at hlogged
  simp only [Option.some.injEq, Prod.mk.injEq, Except.ok.injEq] at hlogged
  exact Prod.ext hlogged.1.1 hlogged.1.2.1

/-- **The metadata of a source without a tree describe no backup**: the empty root is a text
    of 64 digits. -/
theorem not_describes_noTree {c : Captured} (hsnap : SnapshotOf json file age identities log c) :
    ¬ Describes json file age identities (assemble c none) := by
  intro hdesc
  obtain ⟨db, hcarries, hlog⟩ := hsnap
  have hroot : "" = Hex.encodeToString (logRoot log).toList :=
    congrArg Prod.snd (hdesc.metadata_eq hcarries hlog)
  refine Hex.encodeToString_ne_empty ?_ hroot.symm
  intro hnil
  have hlength := congrArg List.length hnil
  simp at hlength

/-- Outside of `reading`, what `Run` holds does not depend on the log. -/
theorem RunFits.of_not_reading (hfits : RunFits json file age identities log s.run)
    (hread : ¬ s.reading) : RunFits json file age identities log' s.run := by
  unfold BackupState.reading at hread
  cases hrun : s.run with
  | idle => trivial
  | captured c => simp [hrun] at hread
  | sized c size => simp [hrun] at hread
  | returned a err =>
    rw [hrun] at hfits
    exact hfits

/-- **Step lemma**: a step that disturbs no backup keeps the invariant. -/
theorem tracks_step (hjson : json.RoundTripsPayload) (hfile : file.RoundTrips)
    (hage : age.Inverts recipients identities) {l : BackupAction}
    (ht : Tracks json file age identities s log) (hgood : Undisturbed json s l)
    (hstep : (backupSystem json file age recipients).step s l s') :
    ∃ log', Tracks json file age identities s' log' := by
  have hin := ht.inStep
  have hfits := ht.run
  cases l with
  | commit leaf fault =>
    obtain ⟨hfree, r, t, db, happ, rfl⟩ := hstep
    rw [hfree, Option.getD_none] at hin
    rcases Tree.append_cases happ with ⟨e, _, rfl, rfl, rfl⟩ | ⟨raw, hfault, hmarshal, rfl, hhashes, rfl⟩
    · exact ⟨log, hin, hfits⟩
    · -- a leaf more in the bucket, and in the cache that is not yet published
      obtain ⟨leaf', _, hin'⟩ := hin.append hjson hmarshal hhashes
      refine ⟨_, hin', hfits.of_not_reading ?_⟩
      intro hread
      exact hgood hread hfault raw hmarshal
  | publish =>
    obtain ⟨t, hpending, rfl⟩ := hstep
    rw [hpending, Option.getD_some] at hin
    exact ⟨log, hin, hfits⟩
  | snapshot env =>
    obtain ⟨_, rfl⟩ := hstep
    refine ⟨log, hin, ?_⟩
    cases hcap : capture file age recipients env s.db with
    | error e =>
      -- none of the errors up to here is a sink's
      intro hprod
      obtain ⟨name, cause, rfl⟩ := hprod e rfl
      exact absurd hcap (capture_ne_sink name cause)
    -- the snapshot is of the log as it is now
    | ok c => exact ⟨s.db, capture_ok hfile hage hcap, hin.logged⟩
  | readSize =>
    obtain ⟨_, hfree, c, hrun, rfl⟩ := hstep
    rw [hfree, Option.getD_none] at hin
    rw [hrun] at hfits
    exact ⟨log, by simpa [hfree] using hin, hfits, hin.size_eq⟩
  | readRoot sinks =>
    obtain ⟨hfree, c, size, hrun, rfl⟩ := hstep
    rw [hfree, Option.getD_none] at hin
    rw [hrun] at hfits
    obtain ⟨hsnap, rfl⟩ := hfits
    refine ⟨log, by simpa [hfree] using hin, ?_⟩
    intro _
    -- the cache is still the log of the snapshot
    rw [root_eq_logRoot hin.cache]
    exact describes_assemble hage.nonempty hsnap
  | noMetadata sinks =>
    obtain ⟨hnone, _⟩ := hstep
    have htree : s.hasTree = true := hgood
    rw [hnone] at htree
    contradiction

/-- **Run lemma**: undisturbed runs keep the invariant. -/
theorem tracks_of_reachable (hjson : json.RoundTripsPayload) (hfile : file.RoundTrips)
    (hage : age.Inverts recipients identities)
    (hreach : ((backupSystem json file age recipients).restrict (Undisturbed json)).Reachable s) :
    ∃ log, Tracks json file age identities s log := by
  refine hreach.invariant (P := fun s => ∃ log, Tracks json file age identities s log) ?_ ?_
  · intro ⟨tree, db, pending, hasTree, run⟩ ⟨⟨db₀, log, hlog, hopen⟩, hpending, hrun⟩
    simp only at hpending hrun
    subst hpending hrun
    exact ⟨log, inStep_openTree hlog hopen, trivial⟩
  · intro s l s' ⟨log, ht⟩ ⟨hgood, hstep⟩
    exact tracks_step hjson hfile hage ht hgood hstep

/-- **The metadata of an undisturbed backup describe it.** -/
theorem backup_described (hjson : json.RoundTripsPayload) (hfile : file.RoundTrips)
    (hage : age.Inverts recipients identities)
    (hreach : ((backupSystem json file age recipients).restrict (Undisturbed json)).Reachable s)
    {a : Artifact} {err : Option RunError} (hrun : s.run = .returned a err) (hprod : Produced err) :
    Describes json file age identities a := by
  obtain ⟨log, ht⟩ := tracks_of_reachable hjson hfile hage hreach
  have hfits := ht.run
  rw [hrun] at hfits
  exact hfits hprod

/-! ## Section 4: Two runs -/

/-- The buckets of a database, one after the other. -/
def dump (db : Db) : Bytes :=
  db.toList.flatMap fun p => p.1.toUTF8.toList ++ 0x0a :: p.2.toList.flatMap fun e => e.1 ++ e.2

/-- Files of the database before and after its first append. -/
def backupFile : BoltFile where
  writeTo := fun _ db =>
    if db = bootstrap ∅ ∨ db = oneBackup.db then .ok (dump db) else .error "file too large"
  openFile := fun raw =>
    if raw = dump (bootstrap ∅) then .ok (bootstrap ∅)
    else if raw = dump oneBackup.db then .ok oneBackup.db
    else .error "invalid database"
  commit := fun _ db => dump db

def ageHeader : Bytes := "age-encryption.org/v1\n".toUTF8.toList

/-- An envelope with one fixed key. -/
def backupAge : Age where
  encrypt := fun _ recipients plain =>
    if recipients = [] then .error "no recipients specified"
    else .ok (ageHeader ++ plain.map (· ^^^ 0x5a))
  decrypt := fun _ enc =>
    if ageHeader <+: enc then .ok ((enc.drop ageHeader.length).map (· ^^^ 0x5a))
    else .error "failed to read header"

def backupRecipients : List Bytes := ["age1backup".toUTF8.toList]
def backupIdentities : List Bytes := ["AGE-SECRET-KEY-1BACKUP".toUTF8.toList]

theorem dump_ne : dump oneBackup.db ≠ dump (bootstrap ∅) := by decide +kernel

theorem backupFile_roundTrips : backupFile.RoundTrips := by
  intro layout db raw hwrite
  simp only [backupFile] at hwrite ⊢
  split at hwrite
  · next hdb =>
    cases hwrite
    rcases hdb with rfl | rfl
    · simp
    · simp [dump_ne]
  · contradiction

theorem backupAge_inverts : backupAge.Inverts backupRecipients backupIdentities where
  nonempty := by simp [backupIdentities]
  decrypt_encrypt := by
    intro nonce plain enc henc
    simp only [backupAge, backupRecipients, List.cons_ne_nil, if_false, Except.ok.injEq] at henc ⊢
    subst henc
    have hinv : ((fun c : UInt8 => c ^^^ 0x5a) ∘ fun c => c ^^^ 0x5a) = id := by
      funext c
      show (c ^^^ 0x5a) ^^^ 0x5a = c
      rw [UInt8.xor_assoc, UInt8.xor_self, UInt8.xor_zero]
    simp [hinv]

/-- A call of `Run` in which nothing fails. -/
def backupEnv : RunEnv := ⟨none, 0, none, [], []⟩

/-- What `Run` has after the snapshot of a database. -/
def capturedOf (db : Db) : Captured :=
  let encrypted := ageHeader ++ (dump db).map (· ^^^ 0x5a)
  ⟨0, encrypted, sidecarOf encrypted⟩

theorem capture_backup {db : Db} (hdb : db = bootstrap ∅ ∨ db = oneBackup.db) :
    capture backupFile backupAge backupRecipients backupEnv db = .ok (capturedOf db) := by
  simp [capture, writeTo, backupEnv, backupFile, backupAge, backupRecipients, capturedOf, hdb]

/-- The handle on an empty database. -/
def emptyTree : Tree := ⟨[], Tree.length_nil_lt⟩

theorem append_first : emptyTree.append backupJson none (backupLeaf 1) (bootstrap ∅)
    = some (.ok 0, oneBackup.tree, oneBackup.db) :=
  Tree.append_of_marshal (bucket_bootstrap ∅) (backupJson_marshal (Or.inl rfl)) _

/-- The system with these files and this envelope. -/
def backupRuns : System BackupState BackupAction :=
  backupSystem backupJson backupFile backupAge backupRecipients

theorem opened_init : backupRuns.init ⟨emptyTree, bootstrap ∅, none, true, .idle⟩ :=
  ⟨⟨∅, [], logged_empty backupJson, (logged_empty backupJson).openTree_none⟩, rfl, rfl⟩

/-- A snapshot between the transaction of an append and its publication. -/
theorem undisturbed_reachable : (backupRuns.restrict (Undisturbed backupJson)).Reachable
    ⟨oneBackup.tree, oneBackup.db, none, true,
      .returned (assemble (capturedOf oneBackup.db) (some (1, oneBackup.tree.root))) none⟩ := by
  have hopened : (backupRuns.restrict (Undisturbed backupJson)).Reachable
      ⟨emptyTree, bootstrap ∅, none, true, .idle⟩ := System.Reachable.init opened_init
  have hcommit : (backupRuns.restrict (Undisturbed backupJson)).Reachable
      ⟨emptyTree, oneBackup.db, some oneBackup.tree, true, .idle⟩ :=
    hopened.tail (l := .commit (backupLeaf 1) none)
      ⟨by intro hread; exact hread.elim, rfl, _, _, _, append_first, rfl⟩
  have hsnapshot : (backupRuns.restrict (Undisturbed backupJson)).Reachable
      ⟨emptyTree, oneBackup.db, some oneBackup.tree, true, .captured (capturedOf oneBackup.db)⟩ :=
    hcommit.tail (l := .snapshot backupEnv)
      ⟨trivial, rfl, by rw [capture_backup (Or.inr rfl)]; rfl⟩
  have hpublish : (backupRuns.restrict (Undisturbed backupJson)).Reachable
      ⟨oneBackup.tree, oneBackup.db, none, true, .captured (capturedOf oneBackup.db)⟩ :=
    hsnapshot.tail (l := .publish) ⟨trivial, _, rfl, rfl⟩
  have hsize : (backupRuns.restrict (Undisturbed backupJson)).Reachable
      ⟨oneBackup.tree, oneBackup.db, none, true, .sized (capturedOf oneBackup.db) 1⟩ :=
    hpublish.tail (l := .readSize) ⟨trivial, rfl, rfl, _, rfl, rfl⟩
  exact hsize.tail (l := .readRoot []) ⟨trivial, rfl, _, _, rfl, rfl⟩

theorem backup_described_oneBackup :
    (backupRuns.restrict (Undisturbed backupJson)).Reachable
      ⟨oneBackup.tree, oneBackup.db, none, true,
        .returned (assemble (capturedOf oneBackup.db) (some (1, oneBackup.tree.root))) none⟩
    ∧ Describes backupJson backupFile backupAge backupIdentities
        (assemble (capturedOf oneBackup.db) (some (1, oneBackup.tree.root))) :=
  ⟨undisturbed_reachable, backup_described backupJson_roundTrips backupFile_roundTrips
    backupAge_inverts undisturbed_reachable rfl (by intro e he; contradiction)⟩

/-- An append between the snapshot and the reading of the size. -/
theorem disturbed_reachable : backupRuns.Reachable
    ⟨oneBackup.tree, oneBackup.db, none, true,
      .returned (assemble (capturedOf (bootstrap ∅)) (some (1, oneBackup.tree.root))) none⟩ := by
  have hopened : backupRuns.Reachable ⟨emptyTree, bootstrap ∅, none, true, .idle⟩ :=
    System.Reachable.init opened_init
  have hsnapshot : backupRuns.Reachable
      ⟨emptyTree, bootstrap ∅, none, true, .captured (capturedOf (bootstrap ∅))⟩ :=
    hopened.tail (l := .snapshot backupEnv) ⟨rfl, by rw [capture_backup (Or.inl rfl)]; rfl⟩
  have hcommit : backupRuns.Reachable
      ⟨emptyTree, oneBackup.db, some oneBackup.tree, true, .captured (capturedOf (bootstrap ∅))⟩ :=
    hsnapshot.tail (l := .commit (backupLeaf 1) none) ⟨rfl, _, _, _, append_first, rfl⟩
  have hpublish : backupRuns.Reachable
      ⟨oneBackup.tree, oneBackup.db, none, true, .captured (capturedOf (bootstrap ∅))⟩ :=
    hcommit.tail (l := .publish) ⟨_, rfl, rfl⟩
  have hsize : backupRuns.Reachable
      ⟨oneBackup.tree, oneBackup.db, none, true, .sized (capturedOf (bootstrap ∅)) 1⟩ :=
    hpublish.tail (l := .readSize) ⟨rfl, rfl, _, rfl, rfl⟩
  exact hsize.tail (l := .readRoot []) ⟨rfl, _, _, rfl, rfl⟩

/-- The artifact holds an empty log and is recorded with one leaf. -/
theorem append_after_snapshot_misdescribes :
    backupRuns.Reachable
      ⟨oneBackup.tree, oneBackup.db, none, true,
        .returned (assemble (capturedOf (bootstrap ∅)) (some (1, oneBackup.tree.root))) none⟩
    ∧ ¬ Describes backupJson backupFile backupAge backupIdentities
        (assemble (capturedOf (bootstrap ∅)) (some (1, oneBackup.tree.root))) := by
  refine ⟨disturbed_reachable, ?_⟩
  intro hdesc
  have hcarries : Carries backupFile backupAge backupIdentities (capturedOf (bootstrap ∅)).encrypted
      (capturedOf (bootstrap ∅)).sidecar (bootstrap ∅) :=
    capture_ok backupFile_roundTrips backupAge_inverts (capture_backup (Or.inl rfl))
  have hsize := congrArg Prod.fst (hdesc.metadata_eq hcarries (logged_empty backupJson).bootstrap)
  contradiction

end Owasaka.Backup
