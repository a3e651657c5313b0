import Owasaka.Backup.Engine
import Owasaka.Foundation.Disk
import Owasaka.Transparency.Log
import Owasaka.Transparency.TreeHead

/-! # Restoring a backup (`backup/restore.go`)

    `Restore` checks the sidecar, decrypts into a staging file beside the target,
    opens that file to read the state of the transparency log, compares it with
    the journal record, and swaps the staging file into the target's place.
    Every call to the operating system may fail; a `RestoreEnv` says which do.

    The main result: a journal record with the tree size and the root of the
    database inside an artifact is accepted, whatever else goes wrong. -/

namespace Owasaka.Backup

open Bolt Transparency

/-! ## Section 1: Data -/

structure RestoreInput where
  encryptedPath : String
  sidecarPath : String
  identities : List Bytes
  targetPath : String
  expectedSTH : Option STH
  allowSTHMismatch : Bool

structure RestoreReport where
  backupCreatedAt : Int
  backupTreeSize : UInt64
  backupRootHex : String
  swappedAt : Int
  oldDBBackupPath : String
  newDBPath : String
  sthMatch : Bool
  sthMismatchNote : String

/-- The zero value `RestoreReport{}`. -/
def RestoreReport.zero : RestoreReport := ⟨zeroTime, 0, "", zeroTime, "", "", false, ""⟩

inductive InspectError where
  | stat (cause : String)
  | openFile (cause : String)
  | tree (e : TreeError)
  deriving DecidableEq

inductive RestoreError where
  | canceled (cause : String)
  | pathsRequired
  | noRecipients
  | readEncrypted (cause : String)
  | readSidecar (cause : String)
  | sidecarVerify (e : ReadError)
  | decrypt (e : ReadError)
  | createStaging (cause : String)
  | writeStaging (cause : String)
  | closeStaging (cause : String)
  | stagedInvalid (e : InspectError)
  /-- `ErrSTHMismatch`. -/
  | sthMismatch (note : String)
  | renameAside (cause : String)
  | renameStaging (cause : String)
  deriving DecidableEq

/-- What a call of `Restore` meets: the clock, the time of the staging file, the
    name of that file, and the error of each call that fails. -/
structure RestoreEnv where
  canceled : Option String
  readEncrypted : Option String
  readSidecar : Option String
  /-- The name that `os.CreateTemp` picks in the directory of the target. -/
  stagingPath : String
  createStaging : Option String
  /-- The bytes written before the error, and the error. -/
  writeStaging : Option (Nat × String)
  closeStaging : Option String
  statStaging : Option String
  modTime : Int
  openStaged : Option String
  /-- The error of the write transaction that creates the buckets. -/
  bootstrap : Option String
  now : Int
  statTarget : Option String
  renameAside : Option String
  renameStaging : Option String
  /-- The error of `os.Remove` on the staging file, which `Restore` ignores. -/
  removeStaging : Option String

/-- Every call succeeds. -/
structure RestoreEnv.Clear (env : RestoreEnv) : Prop where
  canceled : env.canceled = none
  readEncrypted : env.readEncrypted = none
  readSidecar : env.readSidecar = none
  createStaging : env.createStaging = none
  writeStaging : env.writeStaging = none
  closeStaging : env.closeStaging = none
  statStaging : env.statStaging = none
  openStaged : env.openStaged = none
  bootstrap : env.bootstrap = none
  renameAside : env.renameAside = none
  renameStaging : env.renameStaging = none

/-- A call at the epoch that meets no failure. -/
def clearEnv : RestoreEnv :=
  ⟨none, none, none, "restore-1.db", none, none, none, none, 0, none, none, 0, none, none, none, none⟩

/-! ## Section 2: `Restore` -/

def readFile (fault : Option String) (path : String) (d : Disk Bytes) : Except String Bytes :=
  match fault with
  | some e => .error e
  | none =>
    match d.content path with
    | none => .error ("open " ++ path ++ ": no such file or directory")
    | some b => .ok b

/-- The path of the sidecar; empty means beside the artifact. -/
def RestoreInput.sidePath (input : RestoreInput) : String :=
  if input.sidecarPath = "" then input.encryptedPath ++ ".sha256" else input.sidecarPath

/-- `Restore` up to the decryption, which changes no file. -/
def readArtifact (age : Age) (env : RestoreEnv) (input : RestoreInput) (d : Disk Bytes) :
    Except RestoreError Bytes :=
  match env.canceled with
  | some e => .error (.canceled e)
  | none =>
    -- the sidecar's path has a default, the other two have none
    if input.encryptedPath = "" ∨ input.targetPath = "" then .error .pathsRequired
    else if input.identities.length = 0 then .error .noRecipients
    else
      match readFile env.readEncrypted input.encryptedPath d with
      | .error e => .error (.readEncrypted e)
      | .ok enc =>
        match readFile env.readSidecar input.sidePath d with
        | .error e => .error (.readSidecar e)
        | .ok side =>
          match verifySidecar enc side with
          | .error e => .error (.sidecarVerify e)
          | .ok _ =>
            match decryptArtifact age input.identities enc with
            | .error e => .error (.decrypt e)
            | .ok plain => .ok plain

def removeStaging (env : RestoreEnv) (d : Disk Bytes) : Disk Bytes :=
  match env.removeStaging with
  | some _ => d
  | none => d.remove env.stagingPath

/-- The staging file: created under a new name, written and closed. -/
def stage (env : RestoreEnv) (plain : Bytes) (d : Disk Bytes) : Except RestoreError Unit × Disk Bytes :=
  match env.createStaging with
  | some e => (.error (.createStaging e), d)
  | none =>
    if (d.names env.stagingPath).isSome then (.error (.createStaging "file exists"), d)
    else
      match env.writeStaging with
      | some (n, e) =>
        (.error (.writeStaging e), removeStaging env (d.create env.stagingPath (plain.take n)))
      | none =>
        match env.closeStaging with
        | some e => (.error (.closeStaging e), removeStaging env (d.create env.stagingPath plain))
        | none => (.ok (), d.create env.stagingPath plain)

/-- `inspectStaged`: size, root and time of the file at `path`. -/
def inspectStaged (json : LeafJson) (file : BoltFile) (env : RestoreEnv) (path : String)
    (d : Disk Bytes) : Option (Except InspectError (UInt64 × String × Int) × Disk Bytes) :=
  match env.statStaging with
  | some e => some (.error (.stat e), d)
  | none =>
    match d.content path with
    | none => some (.error (.stat ("stat " ++ path ++ ": no such file or directory")), d)
    | some raw =>
      match env.openStaged with
      | some e => some (.error (.openFile e), d)
      | none =>
        match file.openFile raw with
        | .error e => some (.error (.openFile e), d)
        | .ok db =>
          match openTree json env.bootstrap db with
          | none => none
          -- the open is for writing: it creates the buckets that are missing
          | some (.error e, db') => some (.error (.tree e), d.create path (file.commit raw db'))
          | some (.ok tree, db') =>
            some (.ok (UInt64.ofNat tree.size, Hex.encodeToString tree.root.toList, env.modTime),
              d.create path (file.commit raw db'))

/-- The comparison with the journal record: whether it matches, and the note. -/
def checkSTH (expected : Option STH) (stagedTreeSize : UInt64) (stagedRootHex : String) :
    Bool × String :=
  match expected with
  | none =>
    (true, "no ExpectedSTH supplied — restored without journal-record comparison")
  | some sth =>
    let wantHex := Hex.encodeToString sth.rootHash
    if sth.treeSize = stagedTreeSize ∧ wantHex = stagedRootHex then (true, "")
    else (false, "journal expected size=" ++ toString sth.treeSize.toNat ++ " root=" ++ wantHex
      ++ ", backup carries size=" ++ toString stagedTreeSize.toNat ++ " root=" ++ stagedRootHex)

/-- `os.Rename`. -/
def renameFile (fault : Option String) (src dst : String) (d : Disk Bytes) :
    Except String (Disk Bytes) :=
  match fault with
  | some e => .error e
  | none =>
    match d.rename src dst with
    | none => .error ("rename " ++ src ++ " " ++ dst ++ ": no such file or directory")
    | some d' => .ok d'

/-- The live file aside, then the staging file into its place. -/
def swap (env : RestoreEnv) (targetPath : String) (report : RestoreReport) (d : Disk Bytes) :
    RestoreReport × Option RestoreError × Disk Bytes :=
  let report := { report with swappedAt := env.now }
  -- the second rename; the live file, if there was one, stays where the first put it
  let finish := fun (report : RestoreReport) (d : Disk Bytes) =>
    match renameFile env.renameStaging env.stagingPath targetPath d with
    | .error e => (report, some (.renameStaging e), removeStaging env d)
    | .ok d' => (report, none, d')
  if env.statTarget = none ∧ (d.names targetPath).isSome then
    -- named by the second: an older backup of that name is replaced
    let bakPath := targetPath ++ ".bak." ++ Civil.stamp env.now
    match renameFile env.renameAside targetPath bakPath d with
    | .error e => (report, some (.renameAside e), removeStaging env d)
    | .ok d' => finish { report with oldDBBackupPath := bakPath } d'
  else finish report d

/-- `Restore`: the report, the error and the files afterwards. -/
def restore (json : LeafJson) (file : BoltFile) (age : Age) (env : RestoreEnv) (input : RestoreInput)
    (d : Disk Bytes) : Option (RestoreReport × Option RestoreError × Disk Bytes) :=
  match readArtifact age env input d with
  | .error e => some (.zero, some e, d)
  | .ok plain =>
    match stage env plain d with
    | (.error e, d) => some (.zero, some e, d)
    | (.ok _, d) =>
      match inspectStaged json file env env.stagingPath d with
      | none => none
      | some (.error e, d) => some (.zero, some (.stagedInvalid e), removeStaging env d)
      | some (.ok (size, rootHex, created), d) =>
        let (sthMatch, note) := checkSTH input.expectedSTH size rootHex
        let report :=
          { RestoreReport.zero with
            backupCreatedAt := created, backupTreeSize := size, backupRootHex := rootHex,
            newDBPath := input.targetPath, sthMatch := sthMatch, sthMismatchNote := note }
        if !sthMatch && !input.allowSTHMismatch then
          some (report, some (.sthMismatch note), removeStaging env d)
        else some (swap env input.targetPath report d)

/-! ## Section 3: What is inside an artifact -/

/-- The bytes decrypt to a file that opens as `db`, and the sidecar is theirs. -/
def Carries (file : BoltFile) (age : Age) (identities : List Bytes) (encrypted sidecar : Bytes)
    (db : Db) : Prop :=
  sidecar = sidecarOf encrypted ∧ ∃ plain, decryptArtifact age identities encrypted = .ok plain
    ∧ file.openFile plain = .ok db

/-- The root of a log. -/
def logRoot (log : List (Bytes × Leaf)) : RootHash :=
  if (logHashes log).length = 0 then emptyRoot else merkleTreeHash (logHashes log)

variable {json : LeafJson} {file : BoltFile} {age : Age} {env : RestoreEnv} {input : RestoreInput}
  {d d' : Disk Bytes} {db : Db} {log : List (Bytes × Leaf)} {plain : Bytes}

theorem root_eq_logRoot {t : Tree} (hhashes : t.hashes = logHashes log) : t.root = logRoot log := by
  unfold Tree.root logRoot
  rw [hhashes]

theorem size_eq_length {t : Tree} (hhashes : t.hashes = logHashes log) : t.size = log.length := by
  rw [Tree.size, hhashes, logHashes, List.length_map]

/-- The inspection of a file that holds a log fails, or returns the log's size
    and root. -/
theorem inspectStaged_cases (hlog : Logged json db log) (hopen : file.openFile plain = .ok db)
    {path : String} (hcontent : d.content path = some plain)
    {r : Except InspectError (UInt64 × String × Int)}
    (hinspect : inspectStaged json file env path d = some (r, d')) :
    (∃ e, r = .error e) ∨ r = .ok ((backupMetadata (some (log.length, logRoot log))).1,
      (backupMetadata (some (log.length, logRoot log))).2, env.modTime) := by
  unfold inspectStaged at hinspect
  cases hstat : env.statStaging with
  | some e =>
    simp only [hstat, Option.some.injEq, Prod.mk.injEq] at hinspect
    exact Or.inl ⟨_, hinspect.1.symm⟩
  | none =>
    cases hstaged : env.openStaged with
    | some e =>
      simp only [hstat, hcontent, hstaged, Option.some.injEq, Prod.mk.injEq] at hinspect
      exact Or.inl ⟨_, hinspect.1.symm⟩
    | none =>
      cases htree : openTree json env.bootstrap db with
      | none => simp [hstat, hcontent, hstaged, hopen, htree] at hinspect
      | some res =>
        obtain ⟨t, db'⟩ := res
        simp only [hstat, hcontent, hstaged, hopen, htree] at hinspect
        -- `Open` reads the whole log back, or fails in creating the buckets
        rcases hlog.openTree_cases htree with ⟨e, _, rfl, _⟩ | ⟨t, _, rfl, hhashes, _⟩
        · simp only [Option.some.injEq, Prod.mk.injEq] at hinspect
          exact Or.inl ⟨_, hinspect.1.symm⟩
        · simp only [Option.some.injEq, Prod.mk.injEq] at hinspect
          rw [← hinspect.1, size_eq_length hhashes, root_eq_logRoot hhashes]
          exact Or.inr rfl

/-- Without a failing call it returns them. -/
theorem inspectStaged_clear (hclear : env.Clear) (hlog : Logged json db log)
    (hopen : file.openFile plain = .ok db) {path : String} (hcontent : d.content path = some plain) :
    ∃ raw, inspectStaged json file env path d
      = some (.ok ((backupMetadata (some (log.length, logRoot log))).1,
          (backupMetadata (some (log.length, logRoot log))).2, env.modTime), d.create path raw) := by
  refine ⟨file.commit plain (bootstrap db), ?_⟩
  unfold inspectStaged
  simp only [hclear.statStaging, hclear.openStaged, hclear.bootstrap, hcontent, hopen,
    hlog.openTree_none]
  rw [size_eq_length rfl, root_eq_logRoot rfl]
  rfl

/-! ## Section 4: The check against the journal record -/

theorem checkSTH_record {sth : STH} {size : UInt64} {rootHex : String} (hsize : sth.treeSize = size)
    (hroot : Hex.encodeToString sth.rootHash = rootHex) :
    checkSTH (some sth) size rootHex = (true, "") := by
  unfold checkSTH
  simp [hsize, hroot]

/-- Before the check, no error is a mismatch with the record. -/
theorem readArtifact_ne_sthMismatch {e : RestoreError} (hread : readArtifact age env input d = .error e)
    (note : String) : e ≠ .sthMismatch note := by
  rintro rfl
  unfold readArtifact at hread
  repeat' split at hread
  all_goals simp at hread

theorem stage_cases {r : Except RestoreError Unit} (hstage : stage env plain d = (r, d')) :
    (∃ e, r = .error e ∧ ∀ note, e ≠ .sthMismatch note)
      ∨ r = .ok () ∧ d' = d.create env.stagingPath plain := by
  unfold stage at hstage
  repeat' split at hstage
  all_goals
    simp only [Prod.mk.injEq] at hstage
    obtain ⟨rfl, rfl⟩ := hstage
    simp

/-- After the check, no error is a mismatch and its outcome stays in the report. -/
theorem swap_cases {targetPath : String} {report report' : RestoreReport}
    {err : Option RestoreError} (hswap : swap env targetPath report d = (report', err, d')) :
    (∀ note, err ≠ some (.sthMismatch note)) ∧ report'.sthMatch = report.sthMatch := by
  unfold swap at hswap
  simp only at hswap
  repeat' split at hswap
  all_goals
    simp only [Prod.mk.injEq] at hswap
    obtain ⟨rfl, rfl, _⟩ := hswap
    simp

theorem readFile_ok {fault : Option String} {path : String} {b : Bytes}
    (hread : readFile fault path d = .ok b) : d.content path = some b := by
  unfold readFile at hread
  cases fault with
  | some e => contradiction
  | none =>
    cases hcontent : d.content path with
    | none => simp [hcontent] at hread
    | some c => simpa [hcontent] using hread

/-- What is read is the decryption of the file at the path. -/
theorem readArtifact_ok (hread : readArtifact age env input d = .ok plain) :
    ∃ encrypted, d.content input.encryptedPath = some encrypted
      ∧ decryptArtifact age input.identities encrypted = .ok plain := by
  unfold readArtifact at hread
  cases henc : readFile env.readEncrypted input.encryptedPath d with
  | error e =>
    simp only [henc] at hread
    repeat' split at hread
    all_goals contradiction
  | ok encrypted =>
    refine ⟨encrypted, readFile_ok henc, ?_⟩
    simp only [henc] at hread
    repeat' split at hread
    all_goals simp_all

theorem readFile_clear {path : String} {b : Bytes} (hcontent : d.content path = some b) :
    readFile none path d = .ok b := by
  unfold readFile
  simp [hcontent]

/-- Without a failing call, an artifact with its sidecar is decrypted. -/
theorem readArtifact_clear {encrypted : Bytes} (hclear : env.Clear)
    (hpath : input.encryptedPath ≠ "") (htarget : input.targetPath ≠ "")
    (hids : input.identities ≠ []) (henc : d.content input.encryptedPath = some encrypted)
    (hside : d.content input.sidePath = some (sidecarOf encrypted))
    (hplain : decryptArtifact age input.identities encrypted = .ok plain) :
    readArtifact age env input d = .ok plain := by
  unfold readArtifact
  simp only [hclear.canceled, hclear.readEncrypted, hclear.readSidecar, readFile_clear henc,
    readFile_clear hside, verifySidecar_sidecarOf, hplain, hpath, htarget, or_self, if_false,
    List.length_eq_zero_iff, hids]

theorem stage_clear (hclear : env.Clear) (hnew : d.names env.stagingPath = none) :
    stage env plain d = (.ok (), d.create env.stagingPath plain) := by
  unfold stage
  simp [hclear.createStaging, hclear.writeStaging, hclear.closeStaging, hnew]

/-- A rename of a file that is there succeeds. -/
theorem renameFile_clear {src : String} (dst : String) (hsrc : (d.names src).isSome) :
    ∃ d', renameFile none src dst d = .ok d' ∧ (d'.names dst).isSome
      ∧ ∀ name, name ≠ src → (d.names name).isSome → (d'.names name).isSome := by
  obtain ⟨i, hi⟩ := Option.isSome_iff_exists.mp hsrc
  unfold renameFile
  by_cases heq : src = dst
  · subst heq
    exact ⟨d, by simp [Disk.rename_self hi], hsrc, fun _ _ h => h⟩
  · obtain ⟨d', hrename, _, _, _, hdst, hother⟩ := Disk.rename_spec heq hi
    refine ⟨d', by simp [hrename], by simp [hdst], ?_⟩
    intro name hname hsome
    by_cases hnd : name = dst
    · simp [hnd, hdst]
    · rw [hother name hname hnd]
      exact hsome

theorem swap_clear (hclear : env.Clear) {targetPath : String} (report : RestoreReport)
    (hstaged : (d.names env.stagingPath).isSome) (hne : env.stagingPath ≠ targetPath) :
    (swap env targetPath report d).2.1 = none := by
  unfold swap
  rw [hclear.renameAside, hclear.renameStaging]
  simp only
  split
  · -- the live file is moved first, and the staging file is still there
    next hlive =>
    obtain ⟨d', haside, _, hkept⟩ :=
      renameFile_clear (targetPath ++ ".bak." ++ Civil.stamp env.now) hlive.2
    obtain ⟨d'', hplace, _⟩ := renameFile_clear targetPath (hkept _ hne hstaged)
    simp [haside, hplace]
  · obtain ⟨d', hplace, _⟩ := renameFile_clear targetPath hstaged
    simp [hplace]

/-! ## Section 5: A record of the state inside the artifact -/

/-- The files of `input` are an artifact that carries `db`, and its journal
    record gives the size and the root of `log`. -/
structure Recorded (file : BoltFile) (age : Age) (input : RestoreInput) (d : Disk Bytes) (db : Db)
    (log : List (Bytes × Leaf)) : Prop where
  files : ∃ encrypted sidecar, d.content input.encryptedPath = some encrypted
    ∧ d.content input.sidePath = some sidecar
    ∧ Carries file age input.identities encrypted sidecar db
  record : ∃ sth, input.expectedSTH = some sth
    ∧ sth.treeSize = (backupMetadata (some (log.length, logRoot log))).1
    ∧ Hex.encodeToString sth.rootHash = (backupMetadata (some (log.length, logRoot log))).2

theorem Recorded.openFile (hrec : Recorded file age input d db log)
    (hread : readArtifact age env input d = .ok plain) : file.openFile plain = .ok db := by
  obtain ⟨encrypted, _, henc, _, _, plain', hplain', hopen⟩ := hrec.files
  obtain ⟨encrypted', henc', hplain⟩ := readArtifact_ok hread
  rw [henc, Option.some.injEq] at henc'
  subst henc'
  rw [hplain, Except.ok.injEq] at hplain'
  exact hplain' ▸ hopen

/-- **The check never refuses such a record**, whichever call fails. -/
theorem restore_accepts (hrec : Recorded file age input d db log) (hlog : Logged json db log)
    {report : RestoreReport} {err : Option RestoreError}
    (hres : restore json file age env input d = some (report, err, d')) :
    (∀ note, err ≠ some (.sthMismatch note)) ∧ (err = none → report.sthMatch = true) := by
  obtain ⟨sth, hexpected, hsize, hroot⟩ := hrec.record
  unfold restore at hres
  -- one case for each part of the call; the check comes after the inspection
  cases hread : readArtifact age env input d with
  | error e =>
    simp only [hread, Option.some.injEq, Prod.mk.injEq] at hres
    obtain ⟨_, rfl, _⟩ := hres
    simpa using readArtifact_ne_sthMismatch hread
  | ok plain =>
    simp only [hread] at hres
    cases hstage : stage env plain d with
    | mk r d₁ =>
      rw [hstage] at hres
      rcases stage_cases hstage with ⟨e, rfl, hne⟩ | ⟨rfl, rfl⟩
      · simp only [Option.some.injEq, Prod.mk.injEq] at hres
        obtain ⟨_, rfl, _⟩ := hres
        simpa using hne
      · cases hinspect : inspectStaged json file env env.stagingPath
            (d.create env.stagingPath plain) with
        | none => simp [hinspect] at hres
        | some out =>
          obtain ⟨r, d₂⟩ := out
          simp only [hinspect] at hres
          rcases inspectStaged_cases hlog (hrec.openFile hread) Disk.content_create_self hinspect with
            ⟨e, rfl⟩ | rfl
          · simp only [Option.some.injEq, Prod.mk.injEq] at hres
            obtain ⟨_, rfl, _⟩ := hres
            simp
          · -- the check passes, and the swap keeps its outcome
            simp only [hexpected, checkSTH_record hsize hroot, Bool.not_true, Bool.false_and,
              Bool.false_eq_true, if_false, Option.some.injEq] at hres
            obtain ⟨hne, hmatch⟩ := swap_cases hres
            exact ⟨hne, fun _ => hmatch⟩

/-- Without a failing call, an artifact whose record passes the check is restored. -/
theorem restore_clear (hclear : env.Clear) (hrec : Recorded file age input d db log)
    (hlog : Logged json db log) (hpath : input.encryptedPath ≠ "") (htarget : input.targetPath ≠ "")
    (hids : input.identities ≠ []) (hnew : d.names env.stagingPath = none)
    (hne : env.stagingPath ≠ input.targetPath) :
    ∃ report d', restore json file age env input d = some (report, none, d') := by
  obtain ⟨encrypted, sidecar, henc, hside, rfl, plain, hplain, hopen⟩ := hrec.files
  obtain ⟨sth, hexpected, hsize, hroot⟩ := hrec.record
  have hcontent : (d.create env.stagingPath plain).content env.stagingPath = some plain :=
    Disk.content_create_self
  obtain ⟨raw, hinspect⟩ := inspectStaged_clear hclear hlog hopen hcontent
  have hstaged : (((d.create env.stagingPath plain).create env.stagingPath raw).names
      env.stagingPath).isSome := by
    rw [← Option.isSome_map (f := (Disk.create _ env.stagingPath raw).files)]
    exact Option.isSome_of_eq_some Disk.content_create_self
  unfold restore
  simp only [readArtifact_clear hclear hpath htarget hids henc hside hplain, stage_clear hclear hnew,
    hinspect, hexpected, checkSTH_record hsize hroot, Bool.not_true, Bool.false_and,
    Bool.false_eq_true, if_false]
  exact ⟨_, _, congrArg some (Prod.ext rfl (Prod.ext (swap_clear hclear _ hstaged hne) rfl))⟩

end Owasaka.Backup
