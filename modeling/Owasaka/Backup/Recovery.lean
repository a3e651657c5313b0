import Mathlib.Data.List.Induction
import Owasaka.Backup.Aside
import Owasaka.Backup.FailedWrites

/-! # Backups that restore (`api/admin_backup.go`, `backup`)

    `POST /api/admin/backup` copies the database of the running server into a directory,
    one call at a time.  Between the parts of a call the database is written to, every
    operation on a file may fail, removals without notice, and the process may die.

    ## Abstract view

    A file in the directory stands for the database as it was when its call took the
    snapshot.  `Restore` puts that database into place, with the buckets of the log, or
    leaves an error, and it needs nothing but the file, its sidecar and an identity. -/

namespace Owasaka.Backup

open Bolt Directory Transparency

/-! ## Section 1: The handler -/

structure AdminBackupHandler where
  /-- `h.DB != nil`. -/
  hasDB : Bool
  /-- `h.Tree != nil`; without it the server runs on. -/
  hasTree : Bool
  recipients : List Bytes
  sinkDir : String
  keepLast : Int

/-- What a request is answered with. -/
inductive AdminResponse where
  | refused (code : Nat) (text : String)
  | failed (code : Nat) (summary : String)
  | created (art : Artifact)

/-- The checks of `ServeHTTP`; `running` is the flag. -/
def AdminBackupHandler.check (h : AdminBackupHandler) (method : String) (running : Bool) :
    Option AdminResponse :=
  if method ≠ "POST" then some (.refused 405 "POST only")
  else if !h.hasDB then some (.refused 503 "backup unavailable (db not initialised)")
  else if h.recipients.length = 0 then some (.refused 503 "backup unconfigured (no age recipients)")
  else if h.sinkDir = "" then some (.refused 503 "backup unconfigured (no output dir)")
  else if running then some (.refused 409 "backup already in progress")
  else none

def deadlineExceeded : String := "context deadline exceeded"

/-- The answer when `Run` returns an error. -/
def runFailure : RunError → AdminResponse
  -- `Run` hides the cause of a canceled context
  | .canceled _ => .failed 500 "backup failed"
  | .encrypt _ => .failed 500 "backup failed"
  | .sourceWrite cause =>
    if cause = deadlineExceeded then .failed 504 "backup timed out" else .failed 500 "backup failed"
  | .sink _ cause =>
    if cause = deadlineExceeded then .failed 504 "backup timed out" else .failed 500 "backup failed"

/-- Where a call stands, with the database of its snapshot. -/
inductive AdminCall where
  | started
  | captured (c : Captured) (db : Db)
  | assembled (art : Artifact) (db : Db)

/-- An artifact that was handed to the sink, with the database of its snapshot. -/
structure Made where
  artifact : Artifact
  db : Db
  /-- What `Write` met; none if the process died in it. -/
  env : Option SinkEnv

/-- Both files of the artifact were written. -/
def Made.Stored (m : Made) : Prop := ∃ env, m.env = some env ∧ env.Writes

/-- The artifact may lie beside the sidecar of an earlier one of its name: the process died,
    or the sidecar failed and then the removal of the artifact. -/
def Made.Torn (m : Made) : Prop :=
  ∀ env, m.env = some env → env.FailsAtSidecar ∧ env.removeFails m.artifact.filename = true

structure AdminState where
  db : Db
  dir : Directory Bytes
  /-- The call that has set the flag. -/
  call : Option AdminCall
  answers : List AdminResponse
  /-- All artifacts, oldest first. -/
  made : List Made

/-- Where the process dies inside of `Write`, with what the unfinished file has got, if it
    was begun. -/
inductive CrashPoint where
  | encrypted (torn : Option Bytes)
  | sidecar (torn : Option Bytes)
  /-- After the artifact was removed because its sidecar failed. -/
  | removed (torn : Option Bytes)
  /-- Inside of `rotate`, after this many removals. -/
  | rotating (removeFails : String → Bool) (removals : Nat)

/-- A file that was not written to its end. -/
def unfinished (path : String) (d : Directory Bytes) : Option Bytes → Directory Bytes
  | none => d
  | some torn => d.writeFile (path ++ ".tmp") torn

/-- Both files are in place. -/
def placed (art : Artifact) (d : Directory Bytes) : Directory Bytes :=
  (atomicWrite (sidePath art.filename) art.sidecar none
    (atomicWrite art.filename art.encrypted none d).2).2

/-- The files that `rotate` is to remove, in its order. -/
def rotatedOut (keepLast : Nat) (d : Directory Bytes) : List String :=
  if keepLast = 0 ∨ (pairs d).length ≤ keepLast then []
  else
    let sorted := (pairs d).mergeSort fun a b => decide (a ≤ b)
    (sorted.take ((pairs d).length - keepLast)).flatMap fun base => [base, sidePath base]

/-- The directory that a crash leaves. -/
def crashed (keepLast : Nat) (art : Artifact) (d : Directory Bytes) : CrashPoint → Directory Bytes
  | .encrypted torn => unfinished art.filename d torn
  | .sidecar torn =>
    unfinished (sidePath art.filename) (atomicWrite art.filename art.encrypted none d).2 torn
  | .removed torn =>
    (unfinished (sidePath art.filename)
      (atomicWrite art.filename art.encrypted none d).2 torn).remove art.filename
  | .rotating removeFails removals =>
    ((rotatedOut keepLast (placed art d)).take removals).foldl (removeFile removeFails) (placed art d)

inductive AdminAction where
  /-- A write transaction of the server. -/
  | commit (db : Db)
  | request (method : String) (mkdirFails : Bool)
  | snapshot (env : RunEnv)
  /-- The answers of `Size` and `Root`, if there is a tree to ask. -/
  | metadata (size : Nat) (root : RootHash)
  /-- `cause` is the text of the error, if there is one. -/
  | write (env : SinkEnv) (cause : String)
  | crash (point : CrashPoint)

/-- The call is over: the deferred `running.Store(false)`, and the answer. -/
def AdminState.answer (s : AdminState) (r : AdminResponse) : AdminState :=
  { s with call := none, answers := s.answers ++ [r] }

variable (h : AdminBackupHandler) (file : BoltFile) (age : Age)

/-- One step; `none` where no call stands there. -/
def AdminState.act (s : AdminState) : AdminAction → Option AdminState
  | .commit db => some { s with db := db }
  | .request method mkdirFails =>
    match h.check method s.call.isSome with
    | some r => some { s with answers := s.answers ++ [r] }
    | none =>
      if mkdirFails then some (s.answer (.failed 500 "sink init"))
      else some { s with call := some .started }
  | .snapshot env =>
    match s.call with
    | some .started =>
      match capture file age h.recipients env s.db with
      | .error e => some (s.answer (runFailure e))
      | .ok c => some { s with call := some (.captured c s.db) }
    | _ => none
  | .metadata size root =>
    match s.call with
    | some (.captured c db) =>
      let tree := if h.hasTree then some (size, root) else none
      some { s with call := some (.assembled (assemble c tree) db) }
    | _ => none
  | .write env cause =>
    match s.call with
    | some (.assembled art db) =>
      match write h.keepLast.toNat art env s.dir with
      | (.ok _, dir) =>
        some { s.answer (.created art) with dir := dir, made := s.made ++ [⟨art, db, some env⟩] }
      | (.error _, dir) =>
        some { s.answer (runFailure (.sink ("local:" ++ h.sinkDir) cause)) with
          dir := dir, made := s.made ++ [⟨art, db, some env⟩] }
    | _ => none
  | .crash point =>
    match s.call with
    | some (.assembled art db) =>
      some { s with
        call := none, dir := crashed h.keepLast.toNat art s.dir point
        made := s.made ++ [⟨art, db, none⟩] }
    | _ => some { s with call := none }

/-- Any database, and an empty directory. -/
def adminSystem : System AdminState AdminAction where
  init := fun s => s.dir = ∅ ∧ s.call = none ∧ s.answers = [] ∧ s.made = []
  step := fun s a s' => s.act h file age a = some s'

/-- After the transaction that creates the buckets of the log, a file has them. -/
def BoltFile.Bootstraps (file : BoltFile) : Prop :=
  ∀ raw db, file.openFile raw = .ok db → file.openFile (file.commit raw (bootstrap db)) = .ok (bootstrap db)

/-- The journal record, if there is one, does not stand against the database. -/
def Admits (json : LeafJson) (input : RestoreInput) (db : Db) : Prop :=
  ∀ sth, input.expectedSTH = some sth → input.allowSTHMismatch = true
    ∨ ∃ log, Logged json db log ∧ sth.treeSize = (backupMetadata (some (log.length, logRoot log))).1
      ∧ Hex.encodeToString sth.rootHash = (backupMetadata (some (log.length, logRoot log))).2

/-- No call with this name was torn. -/
def NeverTorn (made : List Made) (name : String) : Prop :=
  ∀ m ∈ made, m.artifact.filename = name → ¬ m.Torn

/-! ## Section 2: What a call does to the files -/

section

variable {d d' d₁ d₂ : Directory Bytes} {name : String} {m : Made} {made : List Made} {keepLast : Nat}
  {art : Artifact} {env : SinkEnv} {fails : String → Bool}

/-- The backup of a name and its sidecar are as before. -/
def Same (d d' : Directory Bytes) (name : String) : Prop :=
  d'[name]? = d[name]? ∧ d'[sidePath name]? = d[sidePath name]?

/-- The backup of a name is as before, but its sidecar may be gone. -/
def Kept (d d' : Directory Bytes) (name : String) : Prop :=
  d'[name]? = d[name]? ∧ (d'[sidePath name]? = d[sidePath name]? ∨ d'[sidePath name]? = none)

/-- Files are taken away, and no other one is touched. -/
def Shrinks (d d' : Directory Bytes) : Prop :=
  ∀ name, IsBackupName name → d'[name]? = none ∨ Kept d d' name

/-- Of the backup with the name of the artifact nothing is left, or it is kept, or it is the
    artifact, with its own sidecar if with any; if the call was torn, with any sidecar. -/
def Own (m : Made) (d d' : Directory Bytes) : Prop :=
  d'[m.artifact.filename]? = none ∨ Kept d d' m.artifact.filename
    ∨ (d'[m.artifact.filename]? = some m.artifact.encrypted
      ∧ (m.Torn ∨ d'[sidePath m.artifact.filename]? = some m.artifact.sidecar
        ∨ d'[sidePath m.artifact.filename]? = none))

/-- What a call may do. -/
structure Touches (m : Made) (d d' : Directory Bytes) : Prop where
  own : Own m d d'
  others : ∀ name, IsBackupName name → name ≠ m.artifact.filename → d'[name]? = none ∨ Kept d d' name

theorem Same.kept (hsame : Same d d' name) : Kept d d' name := ⟨hsame.1, .inl hsame.2⟩

theorem Kept.trans (hkept : Kept d d₁ name) (hkept' : Kept d₁ d₂ name) : Kept d d₂ name := by
  refine ⟨hkept'.1.trans hkept.1, ?_⟩
  rcases hkept'.2 with hside | hnone
  · rw [hside]
    exact hkept.2
  · exact .inr hnone

theorem Shrinks.refl (d : Directory Bytes) : Shrinks d d := fun _ _ => .inr ⟨rfl, .inl rfl⟩

theorem Shrinks.trans (hshrinks : Shrinks d d₁) (hshrinks' : Shrinks d₁ d₂) : Shrinks d d₂ := by
  intro name hname
  rcases hshrinks' name hname with hnone | hkept'
  · exact .inl hnone
  · rcases hshrinks name hname with hnone | hkept
    · exact .inl (hkept'.1.trans hnone)
    · exact .inr (hkept.trans hkept')

/-- After a call the rotation may take away what it likes. -/
theorem Touches.shrink (htouches : Touches m d d₁) (hshrinks : Shrinks d₁ d₂)
    (hname : IsBackupName m.artifact.filename) : Touches m d d₂ := by
  constructor
  · rcases hshrinks _ hname with hnone | hkept
    · exact .inl hnone
    · rcases htouches.own with hnone | hkept' | ⟨henc, hside⟩
      · exact .inl (hkept.1.trans hnone)
      · exact .inr (.inl (hkept'.trans hkept))
      · refine .inr (.inr ⟨hkept.1.trans henc, ?_⟩)
        rcases hkept.2 with hsame | hnone
        · rw [hsame]
          exact hside
        · exact .inr (.inr hnone)
  · intro name hbackup hne
    rcases hshrinks name hbackup with hnone | hkept
    · exact .inl hnone
    · rcases htouches.others name hbackup hne with hnone | hkept'
      · exact .inl (hkept.1.trans hnone)
      · exact .inr (hkept'.trans hkept)

/-- Unfinished files are not looked at. -/
theorem same_of_eq (hname : IsBackupName name)
    (heq : ∀ name, ext name ≠ ".tmp" → d'[name]? = d[name]?) :
    Same d d' name :=
  ⟨heq name (ext_ne_tmp hname), heq _ (ext_sidePath_ne_tmp name)⟩

theorem touches_of_eq (hname : IsBackupName m.artifact.filename)
    (heq : ∀ name, ext name ≠ ".tmp" → d'[name]? = d[name]?) : Touches m d d' :=
  ⟨.inr (.inl (same_of_eq hname heq).kept), fun _ hbackup _ => .inr (same_of_eq hbackup heq).kept⟩

theorem touches_of_others (hown : Own m d d')
    (hothers : ∀ name, IsBackupName name → name ≠ m.artifact.filename → Same d d' name) : Touches m d d' :=
  ⟨hown, fun name hbackup hne => .inr (hothers name hbackup hne).kept⟩

/-- The files of an artifact are those of one name. -/
theorem touches_store (hname : IsBackupName m.artifact.filename)
    (hstore : ∀ name, ext name ≠ ".tmp" → d'[name]? = (store d m.artifact)[name]?) :
    Touches m d d' ∧ ∀ name, IsBackupName name → name ≠ m.artifact.filename → Same d d' name := by
  have hothers : ∀ name, IsBackupName name → name ≠ m.artifact.filename → Same d d' name := by
    intro name hbackup hne
    constructor
    · rw [hstore name (ext_ne_tmp hbackup), getElem?_store, if_neg (ne_sidePath hbackup _), if_neg hne]
    · rw [hstore _ (ext_sidePath_ne_tmp name), getElem?_store, if_neg fun heq => hne (sidePath_inj heq),
        if_neg (ne_sidePath hname name).symm]
  refine ⟨touches_of_others (.inr (.inr ⟨?_, .inr (.inl ?_)⟩)) hothers, hothers⟩
  · rw [hstore _ (ext_ne_tmp hname), getElem?_store, if_neg (ne_sidePath hname _), if_pos rfl]
  · rw [hstore _ (ext_sidePath_ne_tmp _), getElem?_store, if_pos rfl]

/-- Only the artifact was written or taken away; if it was left there, the call was torn. -/
theorem touches_artifact (hname : IsBackupName m.artifact.filename) {file : Option Bytes}
    (hfile : file = none ∨ (file = some m.artifact.encrypted ∧ m.Torn))
    (hget : ∀ name, ext name ≠ ".tmp" →
      d'[name]? = if name = m.artifact.filename then file else d[name]?) :
    Touches m d d' ∧ ∀ name, IsBackupName name → name ≠ m.artifact.filename → Same d d' name := by
  have hothers : ∀ name, IsBackupName name → name ≠ m.artifact.filename → Same d d' name := by
    intro name hbackup hne
    constructor
    · rw [hget name (ext_ne_tmp hbackup), if_neg hne]
    · rw [hget _ (ext_sidePath_ne_tmp name), if_neg (ne_sidePath hname name).symm]
  have hown : d'[m.artifact.filename]? = file := by
    rw [hget _ (ext_ne_tmp hname), if_pos rfl]
  refine ⟨touches_of_others ?_ hothers, hothers⟩
  rcases hfile with hnone | ⟨hsome, htorn⟩
  · exact .inl (hown.trans hnone)
  · exact .inr (.inr ⟨hown.trans hsome, .inl htorn⟩)

/-- Without rotation a call has to do with the files of its name only. -/
theorem touches_write_zero (hname : IsBackupName m.artifact.filename) (henv : m.env = some env)
    (d : Directory Bytes) : Touches m d (write 0 m.artifact env d).2
      ∧ ∀ name, IsBackupName name → name ≠ m.artifact.filename →
          Same d (write 0 m.artifact env d).2 name := by
  rcases write_cases m.artifact env d with ⟨_, _, _, heq⟩ | ⟨hfails, _, hgone⟩ | ⟨_, _, hstore⟩
  · exact ⟨touches_of_eq hname heq, fun name hbackup _ => same_of_eq hbackup heq⟩
  · -- the artifact is taken away again, or that fails too
    refine touches_artifact hname ?_ hgone
    cases hremove : env.removeFails m.artifact.filename with
    | false => exact .inl rfl
    | true =>
      refine .inr ⟨rfl, ?_⟩
      intro env' henv'
      rw [henv, Option.some.injEq] at henv'
      exact henv' ▸ ⟨hfails, hremove⟩
  · exact touches_store hname hstore

/-- A removal, of which the server does not learn whether it succeeds. -/
theorem removeFile_shrinks (fails : String → Bool) (d : Directory Bytes) (file : String) :
    Shrinks d (removeFile fails d file) := by
  intro name _
  by_cases hgone : name = file ∧ fails file = false
  · left
    rw [getElem?_removeFile, if_pos hgone]
  · right
    constructor
    · rw [getElem?_removeFile, if_neg hgone]
    · rw [getElem?_removeFile]
      by_cases hside : sidePath name = file ∧ fails file = false
      · exact .inr (if_pos hside)
      · exact .inl (if_neg hside)

theorem removals_shrink (fails : String → Bool) (files : List String) (d : Directory Bytes) :
    Shrinks d (files.foldl (removeFile fails) d) := by
  induction files generalizing d with
  | nil => exact Shrinks.refl d
  | cons file files ih => exact (removeFile_shrinks fails d file).trans (ih _)

/-- `rotate` removes the files of the list, one after the other. -/
theorem rotate_eq (hkeep : keepLast ≠ 0) (d : Directory Bytes) :
    rotate keepLast fails d = (rotatedOut keepLast d).foldl (removeFile fails) d := by
  have hfold : ∀ (bases : List String) (d : Directory Bytes), bases.foldl (removePair fails) d
      = (bases.flatMap fun base => [base, sidePath base]).foldl (removeFile fails) d := by
    intro bases
    induction bases with
    | nil => exact fun _ => rfl
    | cons base bases ih => exact fun d => ih (removePair fails d base)
  unfold rotate rotatedOut
  by_cases hfew : (pairs d).length ≤ keepLast
  · rw [if_pos hfew, if_pos (.inr hfew)]
    rfl
  · rw [if_neg hfew, if_neg (not_or.mpr ⟨hkeep, hfew⟩)]
    exact hfold _ d

theorem rotate_shrinks (hkeep : keepLast ≠ 0) (d : Directory Bytes) :
    Shrinks d (rotate keepLast fails d) := by
  rw [rotate_eq hkeep]
  exact removals_shrink fails _ d

/-- A call is one without rotation, and perhaps the rotation. -/
theorem write_eq (keepLast : Nat) (art : Artifact) (env : SinkEnv) (d : Directory Bytes) :
    (write keepLast art env d).2 = (write 0 art env d).2
      ∨ (keepLast ≠ 0
        ∧ (write keepLast art env d).2 = rotate keepLast env.removeFails (write 0 art env d).2) := by
  by_cases hkeep : keepLast = 0
  · subst hkeep
    exact .inl rfl
  · unfold write
    cases env.canceled with
    | true => exact .inl rfl
    | false =>
      obtain ⟨d₁, henc⟩ := exists_atomicWrite art.filename art.encrypted env.encrypted d
      obtain ⟨d₂, hside⟩ := exists_atomicWrite (sidePath art.filename) art.sidecar env.sidecar d₁
      simp only [Bool.false_eq_true, if_false, henc]
      cases env.encrypted with
      | some fault => exact .inl rfl
      | none =>
        simp only [hside]
        cases env.sidecar with
        | some fault => exact .inl rfl
        | none =>
          have hpos : keepLast > 0 := Nat.pos_of_ne_zero hkeep
          simp only [if_pos hpos]
          cases env.readDirFails with
          | true => exact .inl rfl
          | false => exact .inr ⟨hkeep, rfl⟩

/-- Nil is returned only when both files were written. -/
theorem write_ok_writes {u : Unit} (hok : (write keepLast art env d).1 = .ok u) : env.Writes := by
  unfold write at hok
  cases hcanceled : env.canceled with
  | true => simp [hcanceled] at hok
  | false =>
    obtain ⟨d₁, henc⟩ := exists_atomicWrite art.filename art.encrypted env.encrypted d
    obtain ⟨d₂, hside⟩ := exists_atomicWrite (sidePath art.filename) art.sidecar env.sidecar d₁
    simp only [hcanceled, henc, Bool.false_eq_true, if_false] at hok
    cases hencrypted : env.encrypted with
    | some fault => simp [hencrypted] at hok
    | none =>
      simp only [hencrypted, hside] at hok
      cases hsidecar : env.sidecar with
      | some fault => simp [hsidecar] at hok
      | none => exact ⟨hcanceled, hencrypted, hsidecar⟩

theorem touches_write (hname : IsBackupName m.artifact.filename) (henv : m.env = some env)
    (keepLast : Nat) (d : Directory Bytes) : Touches m d (write keepLast m.artifact env d).2 := by
  have htouches := (touches_write_zero hname henv d).1
  rcases write_eq keepLast m.artifact env d with heq | ⟨hkeep, heq⟩
  · rw [heq]
    exact htouches
  · rw [heq]
    exact htouches.shrink (rotate_shrinks hkeep _) hname

theorem placed_eq (art : Artifact) (d : Directory Bytes) {name : String} (hname : ext name ≠ ".tmp") :
    (placed art d)[name]? = (store d art)[name]? := by
  obtain ⟨d₁, henc⟩ := exists_atomicWrite art.filename art.encrypted none d
  obtain ⟨d₂, hside⟩ := exists_atomicWrite (sidePath art.filename) art.sidecar none d₁
  unfold placed
  rw [henc, hside]
  exact getElem?_bothWritten henc hside hname

theorem ne_tmp (base : String) (hname : ext name ≠ ".tmp") : name ≠ base ++ ".tmp" := by
  intro heq
  rw [heq] at hname
  exact hname (ext_tmp base)

theorem getElem?_unfinished {path : String} {torn : Option Bytes} (hname : ext name ≠ ".tmp") :
    (unfinished path d torn)[name]? = d[name]? := by
  cases torn with
  | none => rfl
  | some torn => exact (getElem?_writeFile ..).trans (if_neg (ne_tmp _ hname))

/-- The artifact is in place, and its sidecar is not. -/
theorem getElem?_beforeSidecar (art : Artifact) (d : Directory Bytes) (torn : Option Bytes) {name : String}
    (hname : ext name ≠ ".tmp") :
    (unfinished (sidePath art.filename) (atomicWrite art.filename art.encrypted none d).2 torn)[name]?
      = if name = art.filename then some art.encrypted else d[name]? := by
  rw [getElem?_unfinished hname, getElem?_atomicWrite, if_neg (ne_tmp art.filename hname)]

/-- A crash does no more than a call that is torn. -/
theorem touches_crashed (hname : IsBackupName m.artifact.filename) (htorn : m.Torn)
    (keepLast : Nat) (d : Directory Bytes) (point : CrashPoint) :
    Touches m d (crashed keepLast m.artifact d point)
      ∧ (keepLast = 0 → ∀ name, IsBackupName name → name ≠ m.artifact.filename →
          Same d (crashed keepLast m.artifact d point) name) := by
  cases point with
  | encrypted torn =>
    have heq : ∀ name, ext name ≠ ".tmp" →
        (crashed keepLast m.artifact d (.encrypted torn))[name]? = d[name]? :=
      fun name hext => getElem?_unfinished hext
    exact ⟨touches_of_eq hname heq, fun _ name hbackup _ => same_of_eq hbackup heq⟩
  | sidecar torn =>
    have hget : ∀ name, ext name ≠ ".tmp" → (crashed keepLast m.artifact d (.sidecar torn))[name]?
        = if name = m.artifact.filename then some m.artifact.encrypted else d[name]? :=
      fun name hext => getElem?_beforeSidecar m.artifact d torn hext
    obtain ⟨htouches, hothers⟩ := touches_artifact hname (.inr ⟨rfl, htorn⟩) hget
    exact ⟨htouches, fun _ => hothers⟩
  | removed torn =>
    have hget : ∀ name, ext name ≠ ".tmp" → (crashed keepLast m.artifact d (.removed torn))[name]?
        = if name = m.artifact.filename then none else d[name]? := by
      intro name hext
      unfold crashed
      rw [getElem?_remove, getElem?_beforeSidecar m.artifact d torn hext]
      by_cases hown : name = m.artifact.filename
      · rw [if_pos hown, if_pos hown]
      · rw [if_neg hown, if_neg hown, if_neg hown]
    obtain ⟨htouches, hothers⟩ := touches_artifact hname (.inl rfl) hget
    exact ⟨htouches, fun _ => hothers⟩
  | rotating fails removals =>
    obtain ⟨htouches, hothers⟩ := touches_store (d := d) (m := m) hname
      fun name hext => placed_eq m.artifact d hext
    refine ⟨htouches.shrink (removals_shrink fails _ _) hname, fun hkeep => ?_⟩
    -- without rotation nothing is removed
    have hnone : rotatedOut keepLast (placed m.artifact d) = [] := if_pos (.inl hkeep)
    have hall : crashed keepLast m.artifact d (.rotating fails removals) = placed m.artifact d := by
      show ((rotatedOut keepLast (placed m.artifact d)).take removals).foldl _ _ = _
      rw [hnone, List.take_nil]
      rfl
    rw [hall]
    exact hothers

end

/-! ## Section 3: What a restore puts into place -/

section

variable {json : LeafJson} {file : BoltFile} {age : Age} {env : RestoreEnv} {input : RestoreInput}
  {d d' d₁ : Disk Bytes} {db : Db} {encrypted plain : Bytes} {targetPath : String}

theorem renameFile_content {fault : Option String} {src dst : String}
    (hrename : renameFile fault src dst d = .ok d') : d'.content dst = d.content src := by
  unfold renameFile at hrename
  cases fault with
  | some e => contradiction
  | none =>
    cases hfile : d.names src with
    | none => simp [Disk.rename_eq_none dst hfile] at hrename
    | some i =>
      by_cases heq : src = dst
      · subst heq
        simp only [Disk.rename_self hfile, Except.ok.injEq] at hrename
        rw [hrename]
      · obtain ⟨d₂, hsome, hmoved⟩ := renameFile_moved heq hfile
        simp only [renameFile] at hsome
        rw [hsome, Except.ok.injEq] at hrename
        exact hrename ▸ hmoved.content

/-- A swap that succeeds puts the staging file into place. -/
theorem swap_placed {report₀ report : RestoreReport} (hbak : bakPath targetPath env.now ≠ env.stagingPath)
    (hswap : swap env targetPath report₀ d₁ = (report, none, d')) :
    d'.content targetPath = d₁.content env.stagingPath := by
  by_cases hlive : env.statTarget = none ∧ (d₁.names targetPath).isSome
  · have hne := (swap_ok_aside hlive.1 hlive.2 hswap).1
    unfold swap at hswap
    simp only [if_pos hlive,
      show targetPath ++ ".bak." ++ Civil.stamp env.now = bakPath targetPath env.now from rfl] at hswap
    cases haside : renameFile env.renameAside targetPath (bakPath targetPath env.now) d₁ with
    | error cause => simp [haside] at hswap
    | ok d₂ =>
      simp only [haside] at hswap
      cases hsecond : renameFile env.renameStaging env.stagingPath targetPath d₂ with
      | error cause => simp [hsecond] at hswap
      | ok d₃ =>
        simp only [hsecond, Prod.mk.injEq] at hswap
        obtain ⟨_, _, rfl⟩ := hswap
        rw [renameFile_content hsecond]
        exact (renameFile_ok haside).2 _ hne hbak.symm
  · unfold swap at hswap
    simp only [if_neg hlive] at hswap
    cases hsecond : renameFile env.renameStaging env.stagingPath targetPath d₁ with
    | error cause => simp [hsecond] at hswap
    | ok d₂ =>
      simp only [hsecond, Prod.mk.injEq] at hswap
      obtain ⟨_, _, rfl⟩ := hswap
      exact renameFile_content hsecond

/-- `Open` creates the buckets and writes nothing else. -/
theorem openTree_ok {fault : Option String} {t : Tree} {db' : Db}
    (hopen : openTree json fault db = some (.ok t, db')) : db' = bootstrap db := by
  unfold openTree update at hopen
  cases fault with
  | some e => simp at hopen
  | none =>
    simp only [Option.map_eq_some_iff, Prod.mk.injEq] at hopen
    obtain ⟨_, _, _, heq⟩ := hopen
    exact heq.symm

/-- An inspection that succeeds has committed the buckets of the log. -/
theorem inspectStaged_ok {path : String} (hopen : file.openFile plain = .ok db)
    (hcontent : d.content path = some plain) {out : UInt64 × String × Int}
    (hinspect : inspectStaged json file env path d = some (.ok out, d')) :
    d'.content path = some (file.commit plain (bootstrap db)) := by
  unfold inspectStaged at hinspect
  cases hstat : env.statStaging with
  | some e => simp [hstat] at hinspect
  | none =>
    cases hstaged : env.openStaged with
    | some e => simp [hstat, hcontent, hstaged] at hinspect
    | none =>
      cases htree : openTree json env.bootstrap db with
      | none => simp [hstat, hcontent, hstaged, hopen, htree] at hinspect
      | some res =>
        obtain ⟨t, db'⟩ := res
        simp only [hstat, hcontent, hstaged, hopen, htree] at hinspect
        cases t with
        | error e => simp at hinspect
        | ok t =>
          simp only [Option.some.injEq, Prod.mk.injEq] at hinspect
          rw [← hinspect.2, openTree_ok htree]
          exact Disk.content_create_self

/-- **A restore puts the database of the snapshot into place**, or it returns an error. -/
theorem restore_exact (hbootstraps : file.Bootstraps) (htemp : env.PicksTemp)
    (hcarries : ∃ plain, decryptArtifact age input.identities encrypted = .ok plain
      ∧ file.openFile plain = .ok db)
    (hfile : d.content input.encryptedPath = some encrypted)
    {report : RestoreReport} (hres : restore json file age env input d = some (report, none, d')) :
    ∃ raw, d'.content input.targetPath = some raw ∧ file.openFile raw = .ok (bootstrap db) := by
  obtain ⟨plain, hplain, hopen⟩ := hcarries
  rcases restore_cases hres with ⟨hne, _⟩ | ⟨_, _, _, hne, _⟩ | ⟨report₀, d₁, hreach, _, hswap⟩
  · contradiction
  · contradiction
  · obtain ⟨plain', size, rootHex, created, hread, _, hinspect, _⟩ := hreach
    obtain ⟨encrypted', hfile', hplain'⟩ := readArtifact_ok hread
    rw [hfile, Option.some.injEq] at hfile'
    subst hfile'
    rw [hplain, Except.ok.injEq] at hplain'
    subst hplain'
    refine ⟨file.commit plain (bootstrap db), ?_, hbootstraps plain db hopen⟩
    rw [swap_placed (bakPath_ne_staging htemp _ _) hswap]
    exact inspectStaged_ok hopen Disk.content_create_self hinspect

/-- A database has the hashes of one log. -/
theorem logHashes_unique {log log' : List (Bytes × Leaf)} (hlog : Logged json db log)
    (hlog' : Logged json db log') : logHashes log = logHashes log' := by
  have heq := hlog.openTree_none.symm.trans hlog'.openTree_none
  simp only [Option.some.injEq, Prod.mk.injEq, Except.ok.injEq, Tree.mk.injEq, and_true] at heq
  exact heq

/-- The check passes. -/
theorem Admits.passes (hadmits : Admits json input db) {log : List (Bytes × Leaf)}
    (hlog : Logged json db log) :
    (!(checkSTH input.expectedSTH (backupMetadata (some (log.length, logRoot log))).1
        (backupMetadata (some (log.length, logRoot log))).2).1 && !input.allowSTHMismatch) = false := by
  cases hexpected : input.expectedSTH with
  | none => rfl
  | some sth =>
    rcases hadmits sth hexpected with hallow | ⟨log', hlog', hsize, hroot⟩
    · rw [hallow, Bool.not_true, Bool.and_false]
    · have hhashes := logHashes_unique hlog hlog'
      have hlength : log.length = log'.length := by
        have hmap := congrArg List.length hhashes
        rwa [logHashes, logHashes, List.length_map, List.length_map] at hmap
      have hsame : logRoot log = logRoot log' := by
        unfold logRoot
        rw [hhashes]
      rw [hlength, hsame, checkSTH_record hsize hroot]
      rfl

/-- **A restore in which nothing fails succeeds**, given the sidecar of the artifact. -/
theorem restore_succeeds (hclear : env.Clear)
    (hplain : decryptArtifact age input.identities encrypted = .ok plain)
    (hopen : file.openFile plain = .ok db) {log : List (Bytes × Leaf)} (hlog : Logged json db log)
    (hadmits : Admits json input db)
    (hfile : d.content input.encryptedPath = some encrypted)
    (hside : d.content input.sidePath = some (sidecarOf encrypted)) (hpath : input.encryptedPath ≠ "")
    (htarget : input.targetPath ≠ "") (hids : input.identities ≠ [])
    (hnew : d.names env.stagingPath = none) (hne : env.stagingPath ≠ input.targetPath) :
    ∃ report d', restore json file age env input d = some (report, none, d') := by
  have hcontent : (d.create env.stagingPath plain).content env.stagingPath = some plain :=
    Disk.content_create_self
  obtain ⟨raw, hinspect⟩ := inspectStaged_clear hclear hlog hopen hcontent
  have hstaged : (((d.create env.stagingPath plain).create env.stagingPath raw).names
      env.stagingPath).isSome := by
    rw [← Option.isSome_map (f := (Disk.create _ env.stagingPath raw).files)]
    exact Option.isSome_of_eq_some Disk.content_create_self
  unfold restore
  simp only [readArtifact_clear hclear hpath htarget hids hfile hside hplain, stage_clear hclear hnew,
    hinspect, hadmits.passes hlog, Bool.false_eq_true, if_false]
  exact ⟨_, _, congrArg some (Prod.ext rfl (Prod.ext (swap_clear hclear _ hstaged hne) rfl))⟩

end

/-! ## Section 4: Whole runs -/

section

variable {json : LeafJson} {identities : List Bytes} {made : List Made} {m : Made} {d d' : Directory Bytes}

/-- The artifact holds the database, under a name of a backup. -/
structure Holds (file : BoltFile) (age : Age) (identities : List Bytes) (art : Artifact) (db : Db) :
    Prop where
  name : IsBackupName art.filename
  carries : Carries file age identities art.encrypted art.sidecar db

def CallOk (file : BoltFile) (age : Age) (identities : List Bytes) : Option AdminCall → Prop
  | some (.captured c db) => Carries file age identities c.encrypted c.sidecar db
  | some (.assembled art db) => Holds file age identities art db
  | _ => True

/-- Every backup in the directory is an artifact that was made, and unless a call with its
    name was torn, a sidecar beside it is its own. -/
def FilesOk (made : List Made) (d : Directory Bytes) : Prop :=
  ∀ name enc, IsBackupName name → d[name]? = some enc →
    ∃ m ∈ made, m.artifact.filename = name ∧ m.artifact.encrypted = enc
      ∧ (NeverTorn made name →
        d[sidePath name]? = some m.artifact.sidecar ∨ d[sidePath name]? = none)

/-- The last artifact of a name is in the directory if both of its files were written. -/
def LatestKept (made : List Made) (d : Directory Bytes) : Prop :=
  ∀ front m back, made = front ++ m :: back → m.Stored →
    (∀ m' ∈ back, m'.artifact.filename ≠ m.artifact.filename) →
    d[m.artifact.filename]? = some m.artifact.encrypted
      ∧ d[sidePath m.artifact.filename]? = some m.artifact.sidecar

/-- A backup that was there before the call. -/
theorem FilesOk.kept (hfiles : FilesOk made d) {name : String} {enc : Bytes} (hname : IsBackupName name)
    (hkept : Kept d d' name) (hget : d'[name]? = some enc) :
    ∃ m' ∈ made ++ [m], m'.artifact.filename = name ∧ m'.artifact.encrypted = enc
      ∧ (NeverTorn (made ++ [m]) name →
        d'[sidePath name]? = some m'.artifact.sidecar ∨ d'[sidePath name]? = none) := by
  obtain ⟨m', hm', hfilename, henc, hside⟩ := hfiles name enc hname (hkept.1.symm.trans hget)
  refine ⟨m', List.mem_append_left _ hm', hfilename, henc, fun hnever => ?_⟩
  rcases hkept.2 with hsame | hnone
  · rw [hsame]
    exact hside fun m'' hm'' => hnever m'' (List.mem_append_left _ hm'')
  · exact .inr hnone

/-- **Step**: a call adds its artifact. -/
theorem FilesOk.touch (hfiles : FilesOk made d) (htouches : Touches m d d') : FilesOk (made ++ [m]) d' := by
  intro name enc hname hget
  by_cases hown : name = m.artifact.filename
  · subst hown
    rcases htouches.own with hnone | hkept | ⟨henc, hside⟩
    · rw [hnone] at hget
      contradiction
    · exact hfiles.kept hname hkept hget
    · rw [henc, Option.some.injEq] at hget
      have hself : m ∈ made ++ [m] := List.mem_append_right _ (List.mem_singleton.mpr rfl)
      exact ⟨m, hself, rfl, hget, fun hnever => hside.resolve_left (hnever m hself rfl)⟩
  · rcases htouches.others name hname hown with hnone | hkept
    · rw [hnone] at hget
      contradiction
    · exact hfiles.kept hname hkept hget

theorem LatestKept.touch (hkept : LatestKept made d) (hmade : ∀ m ∈ made, IsBackupName m.artifact.filename)
    (hothers : ∀ name, IsBackupName name → name ≠ m.artifact.filename → Same d d' name)
    (hnew : m.Stored → d'[m.artifact.filename]? = some m.artifact.encrypted
      ∧ d'[sidePath m.artifact.filename]? = some m.artifact.sidecar) : LatestKept (made ++ [m]) d' := by
  intro front m' back heq hstored hback
  rcases List.eq_nil_or_concat back with rfl | ⟨back', last, rfl⟩
  · obtain ⟨_, hlast⟩ := List.append_inj' heq rfl
    rw [List.singleton_inj] at hlast
    rw [← hlast] at hstored ⊢
    exact hnew hstored
  · rw [List.concat_eq_append, ← List.cons_append, ← List.append_assoc] at heq
    obtain ⟨hfront, hlast⟩ := List.append_inj' heq rfl
    rw [List.singleton_inj] at hlast
    have hne : m'.artifact.filename ≠ m.artifact.filename := by
      rw [hlast]
      exact (hback last (by simp)).symm
    have hmem : m' ∈ made := by
      rw [hfront]
      simp
    have hsame := hothers _ (hmade m' hmem) hne
    rw [hsame.1, hsame.2]
    exact hkept front m' back' hfront hstored fun m'' hm'' => hback m'' (by simp [hm''])

/-- Both files are in place when both were written. -/
theorem write_stored (hname : IsBackupName m.artifact.filename) {env : SinkEnv} (hwrites : env.Writes) :
    (write 0 m.artifact env d).2[m.artifact.filename]? = some m.artifact.encrypted
      ∧ (write 0 m.artifact env d).2[sidePath m.artifact.filename]? = some m.artifact.sidecar := by
  rcases write_cases m.artifact env d with ⟨hnot, _⟩ | ⟨hfails, _⟩ | ⟨_, _, hstore⟩
  · exact absurd hwrites hnot
  · exact absurd hfails hwrites.not_failsAtSidecar
  · constructor
    · rw [hstore _ (ext_ne_tmp hname), getElem?_store, if_neg (ne_sidePath hname _), if_pos rfl]
    · rw [hstore _ (ext_sidePath_ne_tmp _), getElem?_store, if_pos rfl]

/-- What every run keeps. -/
structure AdminOk (h : AdminBackupHandler) (file : BoltFile) (age : Age) (identities : List Bytes)
    (s : AdminState) : Prop where
  call : CallOk file age identities s.call
  made : ∀ m ∈ s.made, Holds file age identities m.artifact m.db
  files : FilesOk s.made s.dir
  kept : h.keepLast ≤ 0 → LatestKept s.made s.dir
  answered : ∀ art, .created art ∈ s.answers → ∃ m ∈ s.made, m.artifact = art ∧ m.Stored

variable {h : AdminBackupHandler} {file : BoltFile} {age : Age} {s s' : AdminState} {a : AdminAction}

/-- An answer that is no success. -/
theorem AdminOk.refuse (hok : AdminOk h file age identities s) {r : AdminResponse}
    (hr : ∀ art, r ≠ .created art) {call : Option AdminCall} (hcall : CallOk file age identities call) :
    AdminOk h file age identities { s with call := call, answers := s.answers ++ [r] } := by
  refine ⟨hcall, hok.made, hok.files, hok.kept, ?_⟩
  intro art hmem
  rcases List.mem_append.mp hmem with hold | hnew
  · exact hok.answered art hold
  · exact absurd (List.mem_singleton.mp hnew).symm (hr art)

theorem AdminOk.goOn (hok : AdminOk h file age identities s) {call : Option AdminCall}
    (hcall : CallOk file age identities call) : AdminOk h file age identities { s with call := call } :=
  ⟨hcall, hok.made, hok.files, hok.kept, hok.answered⟩

/-- A call has come to the sink. -/
theorem AdminOk.hand (hok : AdminOk h file age identities s)
    (hholds : Holds file age identities m.artifact m.db) (htouches : Touches m s.dir d')
    (hothers : h.keepLast ≤ 0 → ∀ name, IsBackupName name → name ≠ m.artifact.filename →
      Same s.dir d' name)
    (hnew : h.keepLast ≤ 0 → m.Stored → d'[m.artifact.filename]? = some m.artifact.encrypted
      ∧ d'[sidePath m.artifact.filename]? = some m.artifact.sidecar)
    {answers : List AdminResponse}
    (hanswers : ∀ art, .created art ∈ answers →
      .created art ∈ s.answers ∨ (m.artifact = art ∧ m.Stored)) :
    AdminOk h file age identities ⟨s.db, d', none, answers, s.made ++ [m]⟩ := by
  constructor
  · trivial
  · intro m' hm'
    rcases List.mem_append.mp hm' with hold | hlast
    · exact hok.made m' hold
    · rw [List.mem_singleton.mp hlast]
      exact hholds
  · exact hok.files.touch htouches
  · intro hkeep
    exact (hok.kept hkeep).touch (fun m' hm' => (hok.made m' hm').name) (hothers hkeep) (hnew hkeep)
  · intro art hmem
    rcases hanswers art hmem with hold | hthis
    · obtain ⟨m', hm', hstored⟩ := hok.answered art hold
      exact ⟨m', List.mem_append_left _ hm', hstored⟩
    · exact ⟨m, List.mem_append_right _ (List.mem_singleton.mpr rfl), hthis⟩

theorem runFailure_ne_created (e : RunError) (art : Artifact) : runFailure e ≠ .created art := by
  cases e with
  | canceled cause => simp [runFailure]
  | encrypt cause => simp [runFailure]
  | sourceWrite cause => by_cases hcause : cause = deadlineExceeded <;> simp [runFailure, hcause]
  | sink name cause => by_cases hcause : cause = deadlineExceeded <;> simp [runFailure, hcause]

theorem check_ne_created {method : String} {running : Bool} {r : AdminResponse}
    (hcheck : h.check method running = some r) (art : Artifact) : r ≠ .created art := by
  unfold AdminBackupHandler.check at hcheck
  repeat' split at hcheck
  all_goals
    cases hcheck
  all_goals simp

/-- **Step**: every step keeps the invariant. -/
theorem AdminOk.step (hfile : file.RoundTrips) (hage : age.Inverts h.recipients identities)
    (hok : AdminOk h file age identities s) (hact : s.act h file age a = some s') : AdminOk h file age identities s' := by
  cases a with
  | commit db =>
    simp only [AdminState.act, Option.some.injEq] at hact
    subst hact
    exact ⟨hok.call, hok.made, hok.files, hok.kept, hok.answered⟩
  | request method mkdirFails =>
    cases hcheck : h.check method s.call.isSome with
    | some r =>
      simp only [AdminState.act, hcheck, Option.some.injEq] at hact
      subst hact
      exact hok.refuse (check_ne_created hcheck) hok.call
    | none =>
      cases mkdirFails with
      | true =>
        simp only [AdminState.act, hcheck, if_true, Option.some.injEq] at hact
        subst hact
        exact hok.refuse (by simp) trivial
      | false =>
        simp only [AdminState.act, hcheck, Bool.false_eq_true, if_false, Option.some.injEq] at hact
        subst hact
        exact hok.goOn trivial
  | snapshot env =>
    rcases hcall : s.call with _ | _ | ⟨c, db⟩ | ⟨art, db⟩
    · simp [AdminState.act, hcall] at hact
    · cases hcap : capture file age h.recipients env s.db with
      | error e =>
        simp only [AdminState.act, hcall, hcap, Option.some.injEq] at hact
        subst hact
        exact hok.refuse (runFailure_ne_created e) trivial
      | ok c =>
        simp only [AdminState.act, hcall, hcap, Option.some.injEq] at hact
        subst hact
        exact hok.goOn (capture_ok hfile hage hcap)
    · simp [AdminState.act, hcall] at hact
    · simp [AdminState.act, hcall] at hact
  | metadata size root =>
    rcases hcall : s.call with _ | _ | ⟨c, db⟩ | ⟨art, db⟩
    · simp [AdminState.act, hcall] at hact
    · simp [AdminState.act, hcall] at hact
    · simp only [AdminState.act, hcall, Option.some.injEq] at hact
      subst hact
      have hcaptured := hok.call
      rw [hcall] at hcaptured
      exact hok.goOn ⟨isBackupName_formatFilename _ _, hcaptured⟩
    · simp [AdminState.act, hcall] at hact
  | write env cause =>
    rcases hcall : s.call with _ | _ | ⟨c, db⟩ | ⟨art, db⟩
    · simp [AdminState.act, hcall] at hact
    · simp [AdminState.act, hcall] at hact
    · simp [AdminState.act, hcall] at hact
    · have hholds := hok.call
      rw [hcall] at hholds
      have hzero : h.keepLast ≤ 0 → h.keepLast.toNat = 0 := Int.toNat_of_nonpos
      have htouches := touches_write (m := ⟨art, db, some env⟩) hholds.name rfl h.keepLast.toNat s.dir
      have hothers : h.keepLast ≤ 0 → ∀ name, IsBackupName name → name ≠ art.filename →
          Same s.dir (write h.keepLast.toNat art env s.dir).2 name := by
        intro hkeep
        rw [hzero hkeep]
        exact (touches_write_zero (m := ⟨art, db, some env⟩) hholds.name rfl s.dir).2
      have hnew : h.keepLast ≤ 0 → Made.Stored ⟨art, db, some env⟩ →
          (write h.keepLast.toNat art env s.dir).2[art.filename]? = some art.encrypted
            ∧ (write h.keepLast.toNat art env s.dir).2[sidePath art.filename]? = some art.sidecar := by
        intro hkeep hstored
        obtain ⟨env', henv', hwrites⟩ := hstored
        rw [Option.some.injEq] at henv'
        rw [hzero hkeep, henv']
        exact write_stored (m := ⟨art, db, some env'⟩) hholds.name hwrites
      cases hwrite : write h.keepLast.toNat art env s.dir with
      | mk result dir =>
        have hdir : dir = (write h.keepLast.toNat art env s.dir).2 := by rw [hwrite]
        cases result with
        | error e =>
          simp only [AdminState.act, hcall, hwrite, Option.some.injEq] at hact
          subst hact
          rw [hdir]
          apply hok.hand (m := ⟨art, db, some env⟩) hholds htouches hothers hnew
          intro art' hmem
          rcases List.mem_append.mp hmem with hold | hlast
          · exact .inl hold
          · exact absurd (List.mem_singleton.mp hlast).symm (runFailure_ne_created _ art')
        | ok u =>
          have hwrites : env.Writes := write_ok_writes (by rw [hwrite])
          simp only [AdminState.act, hcall, hwrite, Option.some.injEq] at hact
          subst hact
          rw [hdir]
          apply hok.hand (m := ⟨art, db, some env⟩) hholds htouches hothers hnew
          intro art' hmem
          rcases List.mem_append.mp hmem with hold | hlast
          · exact .inl hold
          · cases List.mem_singleton.mp hlast
            exact .inr ⟨rfl, env, rfl, hwrites⟩
  | crash point =>
    rcases hcall : s.call with _ | _ | ⟨c, db⟩ | ⟨art, db⟩
    · simp only [AdminState.act, hcall, Option.some.injEq] at hact
      subst hact
      exact hok.goOn trivial
    · simp only [AdminState.act, hcall, Option.some.injEq] at hact
      subst hact
      exact hok.goOn trivial
    · simp only [AdminState.act, hcall, Option.some.injEq] at hact
      subst hact
      exact hok.goOn trivial
    · have hholds := hok.call
      rw [hcall] at hholds
      simp only [AdminState.act, hcall, Option.some.injEq] at hact
      subst hact
      have htorn : Made.Torn ⟨art, db, none⟩ := fun env henv => by cases henv
      obtain ⟨htouches, hothers⟩ := touches_crashed (m := ⟨art, db, none⟩) hholds.name htorn
        h.keepLast.toNat s.dir point
      apply hok.hand (m := ⟨art, db, none⟩) hholds htouches
      · exact fun hkeep => hothers (Int.toNat_of_nonpos hkeep)
      · intro _ hstored
        obtain ⟨env, henv, _⟩ := hstored
        cases henv
      · exact fun _ hmem => .inl hmem

/-- What an operator can count on. -/
structure Recovers (h : AdminBackupHandler) (json : LeafJson) (file : BoltFile) (age : Age)
    (identities : List Bytes) (s : AdminState) : Prop where
  /-- Every backup in the directory was made by a call. -/
  made : ∀ name enc, IsBackupName name → s.dir[name]? = some enc →
    ∃ m ∈ s.made, m.artifact.filename = name ∧ m.artifact.encrypted = enc
  /-- Whatever fails in a restore, it puts the database of the snapshot into place or it
      returns an error. -/
  exact : ∀ m ∈ s.made, ∀ env input d report d', env.PicksTemp → input.identities = identities →
    d.content input.encryptedPath = some m.artifact.encrypted →
    restore json file age env input d = some (report, none, d') →
    ∃ raw, d'.content input.targetPath = some raw ∧ file.openFile raw = .ok (bootstrap m.db)
  /-- With the two files of a backup a restore succeeds if nothing fails in it and the log of
      the snapshot can be read. -/
  ready : ∀ m ∈ s.made, s.dir[m.artifact.filename]? = some m.artifact.encrypted →
    (s.dir[sidePath m.artifact.filename]?).isSome → NeverTorn s.made m.artifact.filename →
    (∃ log, Logged json m.db log) →
    ∀ env input d, env.Clear → input.identities = identities → Admits json input m.db →
      d.content input.encryptedPath = s.dir[m.artifact.filename]? →
      d.content input.sidePath = s.dir[sidePath m.artifact.filename]? →
      input.encryptedPath ≠ "" → input.targetPath ≠ "" → d.names env.stagingPath = none →
      env.stagingPath ≠ input.targetPath →
      ∃ report d', restore json file age env input d = some (report, none, d')
  /-- Without rotation a backup stays until there is another one of its name. -/
  kept : h.keepLast ≤ 0 → LatestKept s.made s.dir
  /-- Created is answered only for a backup of which both files were written. -/
  answered : ∀ art, .created art ∈ s.answers → ∃ m ∈ s.made, m.artifact = art ∧ m.Stored

theorem AdminOk.recovers (hage : age.Inverts h.recipients identities) (hbootstraps : file.Bootstraps)
    (hok : AdminOk h file age identities s) : Recovers h json file age identities s := by
  constructor
  · intro name enc hname hget
    obtain ⟨m, hm, hfilename, henc, _⟩ := hok.files name enc hname hget
    exact ⟨m, hm, hfilename, henc⟩
  · intro m hm env input d report d' htemp hids hcontent hres
    obtain ⟨_, hcarries⟩ := (hok.made m hm).carries
    rw [← hids] at hcarries
    exact restore_exact hbootstraps htemp hcarries hcontent hres
  · intro m hm hget hsome hnever hlogged env input d hclear hids hadmits henc hside hpath htarget hnew hne
    obtain ⟨m', hm', hfilename, hsame, hsidecar⟩ :=
      hok.files _ _ (hok.made m hm).name hget
    obtain ⟨hside', _⟩ := (hok.made m' hm').carries
    have hown : s.dir[sidePath m.artifact.filename]? = some m'.artifact.sidecar := by
      rcases hsidecar hnever with hown | hnone
      · exact hown
      · rw [hnone] at hsome
        contradiction
    rw [hown, hside', hsame] at hside
    rw [hget] at henc
    obtain ⟨_, plain, hplain, hopen⟩ := (hok.made m hm).carries
    rw [← hids] at hplain
    obtain ⟨log, hlog⟩ := hlogged
    have hnonempty : input.identities ≠ [] := by rw [hids]; exact hage.nonempty
    exact restore_succeeds hclear hplain hopen hlog hadmits henc hside hpath htarget hnonempty hnew hne
  · exact hok.kept
  · exact hok.answered

theorem adminOk_init (hinit : (adminSystem h file age).init s) : AdminOk h file age identities s := by
  obtain ⟨hdir, hcall, hanswers, hmade⟩ := hinit
  constructor
  · rw [hcall]
    trivial
  · rw [hmade]
    exact fun m hm => absurd hm List.not_mem_nil
  · intro name enc _ hget
    rw [hdir] at hget
    simp at hget
  · intro _ front m back heq
    rw [hmade] at heq
    simp at heq
  · rw [hanswers]
    exact fun art hmem => absurd hmem List.not_mem_nil

/-- **Disaster recovery**: after any requests for backups, with any writes to the database
    between their parts, with any failing file operation, any rotation and any crash, every
    backup in the directory restores to the database of its snapshot. -/
theorem backups_restore (hfile : file.RoundTrips) (hbootstraps : file.Bootstraps)
    (hage : age.Inverts h.recipients identities) (hreach : (adminSystem h file age).Reachable s) :
    Recovers h json file age identities s := by
  have hok : AdminOk h file age identities s := by
    apply hreach.invariant
    · exact fun s₀ hinit => adminOk_init hinit
    · intro s₀ l s₁ hok₀ hstep
      exact hok₀.step hfile hage hstep
  exact hok.recovers hage hbootstraps

end

theorem backupFile_bootstraps : backupFile.Bootstraps := by
  have hfirst : bootstrap (bootstrap ∅) = bootstrap ∅ := by decide +kernel
  have hsecond : bootstrap oneBackup.db = oneBackup.db := by decide +kernel
  intro raw db hopen
  simp only [backupFile] at hopen ⊢
  split at hopen
  · cases hopen
    simp [hfirst]
  · split at hopen
    · cases hopen
      simp [hsecond, dump_ne]
    · contradiction

/-- The handler of a server that keeps all of its backups. -/
def backupHandler : AdminBackupHandler := ⟨true, true, backupRecipients, "/var/backups", 0⟩

/-- Nothing fails in the sink. -/
def quietSink : SinkEnv := ⟨false, none, none, false, fun _ => false⟩

def backupServer : System AdminState AdminAction := adminSystem backupHandler backupFile backupAge

/-- The artifacts of a new database and of the database with one leaf. -/
def firstArtifact : Artifact := assemble (capturedOf (bootstrap ∅)) (some (0, emptyRoot))
def secondArtifact : Artifact := assemble (capturedOf oneBackup.db) (some (1, oneBackup.tree.root))

def firstMade : Made := ⟨firstArtifact, bootstrap ∅, some quietSink⟩

/-- The directory after the first call. -/
def firstDir : Directory Bytes := (write 0 firstArtifact quietSink ∅).2

theorem write_first : write 0 firstArtifact quietSink ∅ = (.ok (), firstDir) := by
  rcases write_cases firstArtifact quietSink ∅ with ⟨hnot, _⟩ | ⟨hfails, _⟩ | ⟨_, hok, _⟩
  · exact absurd ⟨rfl, rfl, rfl⟩ hnot
  · exact absurd rfl hfails.2.2
  · exact Prod.ext hok rfl

/-- A call that comes to the sink. -/
theorem backupServer_call {s : AdminState} (hreach : backupServer.Reachable s)
    (hdb : s.db = bootstrap ∅ ∨ s.db = oneBackup.db) (hcall : s.call = none) (size : Nat) (root : RootHash) :
    backupServer.Reachable
      { s with call := some (.assembled (assemble (capturedOf s.db) (some (size, root))) s.db) } := by
  have hstarted : backupServer.Reachable { s with call := some .started } := by
    apply hreach.tail (l := .request "POST" false)
    show s.act backupHandler backupFile backupAge _ = _
    simp [AdminState.act, hcall, AdminBackupHandler.check, backupHandler, backupRecipients]
  have hcaptured : backupServer.Reachable { s with call := some (.captured (capturedOf s.db) s.db) } := by
    apply hstarted.tail (l := .snapshot backupEnv)
    show AdminState.act backupHandler backupFile backupAge _ _ = _
    simp [AdminState.act, backupHandler, capture_backup hdb]
  exact hcaptured.tail (l := .metadata size root) rfl

/-- A backup, a write to the database, and a backup in which the process dies between the
    two files. -/
theorem twoCalls_reachable : backupServer.Reachable
    ⟨oneBackup.db, crashed 0 secondArtifact firstDir (.sidecar none), none, [.created firstArtifact],
      [firstMade, ⟨secondArtifact, oneBackup.db, none⟩]⟩ := by
  have hstart : backupServer.Reachable ⟨bootstrap ∅, ∅, none, [], []⟩ :=
    System.Reachable.init ⟨rfl, rfl, rfl, rfl⟩
  have hassembled := backupServer_call hstart (.inl rfl) rfl 0 emptyRoot
  have hwritten : backupServer.Reachable
      ⟨bootstrap ∅, firstDir, none, [.created firstArtifact], [firstMade]⟩ := by
    apply hassembled.tail (l := .write quietSink "")
    show AdminState.act backupHandler backupFile backupAge _ _ = _
    simp only [AdminState.act]
    rw [show write backupHandler.keepLast.toNat (assemble (capturedOf (bootstrap ∅)) (some (0, emptyRoot)))
      quietSink ∅ = (.ok (), firstDir) from write_first]
    rfl
  have hcommitted : backupServer.Reachable
      ⟨oneBackup.db, firstDir, none, [.created firstArtifact], [firstMade]⟩ :=
    hwritten.tail (l := .commit oneBackup.db) rfl
  have hagain := backupServer_call hcommitted (.inr rfl) rfl 1 oneBackup.tree.root
  exact hagain.tail (l := .crash (.sidecar none)) rfl

theorem backups_restore_once : Recovers backupHandler backupJson backupFile backupAge backupIdentities
    ⟨oneBackup.db, crashed 0 secondArtifact firstDir (.sidecar none), none, [.created firstArtifact],
      [firstMade, ⟨secondArtifact, oneBackup.db, none⟩]⟩ :=
  backups_restore backupFile_roundTrips backupFile_bootstraps backupAge_inverts twoCalls_reachable

end Owasaka.Backup
