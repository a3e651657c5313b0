import Owasaka.Backup.Swap
import Owasaka.Foundation.System

/-! # The databases that restores put aside

    A successful `Restore` moves the live file to a name that ends in the second
    of the swap.  A rename replaces what is under the new name, so two calls
    within one second leave one of the two databases.  Where the live file cannot
    be inspected, `Restore` takes it for absent and the staging file replaces it.

    The main result: in every run of restores and writes in which no two calls put
    a database aside within one second, and in which the inspection succeeds,
    every database that was live before a call stays under that call's
    `OldDBBackupPath`. -/

namespace Owasaka.Backup

open Transparency

/-! ## Section 1: Runs -/

/-- A database that was live just before a call. -/
structure Aside where
  /-- The call's `OldDBBackupPath`. -/
  path : String
  content : Bytes
  swappedAt : Int

structure RestoreState where
  disk : Disk Bytes
  clock : Int
  asides : List Aside

inductive RestoreAction where
  | write (content : Bytes)
  | restore (env : RestoreEnv) (input : RestoreInput)

/-- `os.CreateTemp(dir, "restore-*.db")`. -/
def RestoreEnv.PicksTemp (env : RestoreEnv) : Prop :=
  ∃ dir random : String, env.stagingPath = dir ++ "restore-" ++ random ++ ".db"

/-- The state after a successful call with this report. -/
def RestoreState.swapped (s : RestoreState) (targetPath : String) (now : Int) (report : RestoreReport)
    (disk : Disk Bytes) : RestoreState where
  disk := disk
  clock := now
  asides := match s.disk.content targetPath with
    | none => s.asides
    | some content => s.asides ++ [⟨report.oldDBBackupPath, content, now⟩]

/-- Successful restores to one target, at times that do not decrease, and writes
    to the live file between them. -/
def restoreSystem (json : LeafJson) (file : BoltFile) (age : Age) (targetPath : String) :
    System RestoreState RestoreAction where
  init := fun s => s.asides = []
  step := fun s l s' =>
    match l with
    | .write content => s' = { s with disk := s.disk.create targetPath content }
    | .restore env input =>
      input.targetPath = targetPath ∧ env.PicksTemp ∧ s.clock ≤ env.now
        ∧ ∃ report disk, restore json file age env input s.disk = some (report, none, disk)
          ∧ s' = s.swapped targetPath env.now report disk

/-- Every database that was live before a call is where the call put it. -/
def AllKept (s : RestoreState) : Prop :=
  ∀ a ∈ s.asides, s.disk.content a.path = some a.content

/-- A call that finds a live file can inspect it, and no earlier call put one
    aside within the same second. -/
def SecondFree (targetPath : String) (s : RestoreState) : RestoreAction → Prop
  | .write _ => True
  | .restore env _ => (s.disk.names targetPath).isSome → env.statTarget = none
      ∧ ∀ a ∈ s.asides, a.swappedAt / 1000000000 ≠ env.now / 1000000000

variable {json : LeafJson} {file : BoltFile} {age : Age} {env : RestoreEnv} {input : RestoreInput}
  {d d₁ d' : Disk Bytes} {targetPath : String} {s s' : RestoreState}

/-! ## Section 2: A successful swap -/

/-- The name aside ends in `Z`, the staging file's in `.db`. -/
theorem bakPath_ne_staging (htemp : env.PicksTemp) (targetPath : String) (now : Int) :
    bakPath targetPath now ≠ env.stagingPath := by
  obtain ⟨dir, random, hpath⟩ := htemp
  intro heq
  have hlast := congrArg (fun p => p.toList.getLast?) (heq.trans hpath)
  have hZ : "Z".toList = ['Z'] := rfl
  have hdb : ".db".toList = ['.', 'd', 'b'] := rfl
  simp [bakPath, Civil.stamp, hZ, hdb, ← List.append_assoc] at hlast

theorem bakPath_inj {now now' : Int} (heq : bakPath targetPath now = bakPath targetPath now') :
    now / 1000000000 = now' / 1000000000 := by
  apply Civil.stamp_inj
  have hlist := congrArg String.toList heq
  simp only [bakPath, String.toList_append, List.append_assoc] at hlist
  exact String.toList_inj.mp (List.append_cancel_left (List.append_cancel_left hlist))

/-- A rename that succeeds had a file to move, and leaves all other names. -/
theorem renameFile_ok {fault : Option String} {src dst : String}
    (hrename : renameFile fault src dst d = .ok d') :
    d.names src ≠ none
      ∧ ∀ name, name ≠ src → name ≠ dst → d'.content name = d.content name := by
  unfold renameFile at hrename
  cases fault with
  | some e => contradiction
  | none =>
    cases hfile : d.names src with
    | none => simp [Disk.rename_eq_none dst hfile] at hrename
    | some i =>
      refine ⟨by simp, ?_⟩
      intro name hsrc hdst
      by_cases heq : src = dst
      · subst heq
        simp only [Disk.rename_self hfile, Except.ok.injEq] at hrename
        rw [hrename]
      · obtain ⟨d₂, hsome, hmoved⟩ := renameFile_moved heq hfile
        simp only [renameFile] at hsome
        rw [hsome, Except.ok.injEq] at hrename
        exact hrename ▸ hmoved.content_of_ne hsrc hdst

/-- A swap that succeeds without putting the live file aside touches the target
    and the staging file only. -/
theorem swap_ok_kept {report₀ report : RestoreReport}
    (hlive : ¬ (env.statTarget = none ∧ (d₁.names targetPath).isSome))
    (hswap : swap env targetPath report₀ d₁ = (report, none, d')) :
    ∀ name, name ≠ env.stagingPath → name ≠ targetPath → d'.content name = d₁.content name := by
  unfold swap at hswap
  simp only [if_neg hlive] at hswap
  cases hsecond : renameFile env.renameStaging env.stagingPath targetPath d₁ with
  | error cause => simp [hsecond] at hswap
  | ok d₂ =>
    simp only [hsecond, Prod.mk.injEq] at hswap
    rw [← hswap.2.2]
    exact (renameFile_ok hsecond).2

/-- One that finds a live file puts it aside. -/
theorem swap_ok_aside {report₀ report : RestoreReport} (hstat : env.statTarget = none)
    (hfile : (d₁.names targetPath).isSome)
    (hswap : swap env targetPath report₀ d₁ = (report, none, d')) :
    env.stagingPath ≠ targetPath ∧ report.oldDBBackupPath = bakPath targetPath env.now
      ∧ (bakPath targetPath env.now ≠ env.stagingPath →
          d'.content (bakPath targetPath env.now) = d₁.content targetPath)
      ∧ ∀ name, name ≠ env.stagingPath → name ≠ targetPath → name ≠ bakPath targetPath env.now →
          d'.content name = d₁.content name := by
  unfold swap at hswap
  simp only [if_pos (And.intro hstat hfile),
    show targetPath ++ ".bak." ++ Civil.stamp env.now = bakPath targetPath env.now from rfl] at hswap
  cases haside : env.renameAside with
  | some cause => simp [haside, renameFile] at hswap
  | none =>
    obtain ⟨i, hi⟩ := Option.isSome_iff_exists.mp hfile
    obtain ⟨d₂, hrename, hmoved⟩ := renameFile_moved (bakPath_ne targetPath env.now).symm hi
    simp only [haside, hrename] at hswap
    cases hsecond : renameFile env.renameStaging env.stagingPath targetPath d₂ with
    | error cause => simp [hsecond] at hswap
    | ok d₃ =>
      simp only [hsecond, Prod.mk.injEq] at hswap
      obtain ⟨rfl, _, rfl⟩ := hswap
      obtain ⟨hstaged, hothers⟩ := renameFile_ok hsecond
      refine ⟨?_, rfl, ?_, ?_⟩
      · -- a staging file with the target's name would have been moved away
        intro hsame
        exact hstaged (hsame ▸ hmoved.gone)
      · intro hne
        rw [hothers _ hne (bakPath_ne _ _), hmoved.content]
      · intro name hstaging htarget hbak
        rw [hothers name hstaging htarget, hmoved.content_of_ne htarget hbak]

/-! ## Section 3: Runs in which every second is free -/

/-- **Invariant**: the databases are kept, each under the name of its second. -/
structure KeptByName (targetPath : String) (s : RestoreState) : Prop where
  kept : AllKept s
  paths : ∀ a ∈ s.asides, a.path = bakPath targetPath a.swappedAt

theorem KeptByName.write (hkept : KeptByName targetPath s) (content : Bytes) :
    KeptByName targetPath { s with disk := s.disk.create targetPath content } where
  kept := by
    intro a ha
    have hne : a.path ≠ targetPath := by
      rw [hkept.paths a ha]
      exact bakPath_ne _ _
    rw [Disk.content_create_of_ne hne]
    exact hkept.kept a ha
  paths := hkept.paths

/-- A kept database is under no name that is free for staging. -/
theorem KeptByName.path_ne (hkept : KeptByName targetPath s) {a : Aside} (ha : a ∈ s.asides)
    {staging : String} (hfree : s.disk.names staging = none) : a.path ≠ staging := by
  intro heq
  have hcontent := hkept.kept a ha
  rw [heq] at hcontent
  simp [Disk.content, hfree] at hcontent

/-- **Step lemma**: a call in a free second keeps what is aside, and adds the live
    file to it. -/
theorem KeptByName.restore (hkept : KeptByName targetPath s) (htarget : input.targetPath = targetPath)
    (htemp : env.PicksTemp) (hfree : SecondFree targetPath s (.restore env input))
    {report : RestoreReport} {disk : Disk Bytes}
    (hres : restore json file age env input s.disk = some (report, none, disk)) :
    KeptByName targetPath (s.swapped targetPath env.now report disk) := by
  rcases restore_cases hres with ⟨herr, _⟩ | ⟨_, _, _, herr, _⟩ | ⟨report₀, d₁, _, hst, hswap⟩
  · exact absurd rfl herr
  · exact absurd rfl herr
  rw [htarget] at hswap
  have hold : ∀ a ∈ s.asides, d₁.content a.path = some a.content := by
    intro a ha
    rw [(hst.unchanged (hkept.path_ne ha hst.free)).2]
    exact hkept.kept a ha
  have htargetne : ∀ a ∈ s.asides, a.path ≠ targetPath := by
    intro a ha
    rw [hkept.paths a ha]
    exact bakPath_ne _ _
  by_cases hlive : env.statTarget = none ∧ (d₁.names targetPath).isSome
  · obtain ⟨hne, hpath, hmoved, hothers⟩ := swap_ok_aside hlive.1 hlive.2 hswap
    have hbefore : (s.disk.names targetPath).isSome :=
      ((live_iff hst).mp hlive.2).resolve_right hne
    obtain ⟨_, hseconds⟩ := hfree hbefore
    obtain ⟨i, hi⟩ := Option.isSome_iff_exists.mp hbefore
    have hcontent : s.disk.content targetPath = some (s.disk.files i) := by simp [Disk.content, hi]
    have hasides : (s.swapped targetPath env.now report disk).asides
        = s.asides ++ [⟨report.oldDBBackupPath, s.disk.files i, env.now⟩] := by
      simp [RestoreState.swapped, hcontent]
    refine ⟨?_, ?_⟩
    · intro a ha
      rw [hasides, List.mem_append, List.mem_singleton] at ha
      rcases ha with ha | rfl
      · -- its second is another one, so its name is
        have hbak : a.path ≠ bakPath targetPath env.now := by
          rw [hkept.paths a ha]
          exact fun heq => hseconds a ha (bakPath_inj heq)
        exact (hothers _ (hkept.path_ne ha hst.free) (htargetne a ha) hbak).trans (hold a ha)
      · show disk.content report.oldDBBackupPath = some (s.disk.files i)
        rw [hpath, hmoved (bakPath_ne_staging htemp _ _), (hst.unchanged (Ne.symm hne)).2, hcontent]
    · intro a ha
      rw [hasides, List.mem_append, List.mem_singleton] at ha
      rcases ha with ha | rfl
      · exact hkept.paths a ha
      · exact hpath
  · have hnone : s.disk.names targetPath = none := by
      by_contra hsome
      have hbefore : (s.disk.names targetPath).isSome := Option.isSome_iff_ne_none.mpr hsome
      exact hlive ⟨(hfree hbefore).1, (live_iff hst).mpr (Or.inl hbefore)⟩
    have hasides : (s.swapped targetPath env.now report disk).asides = s.asides := by
      simp [RestoreState.swapped, Disk.content, hnone]
    have hothers := swap_ok_kept hlive hswap
    refine ⟨?_, ?_⟩
    · intro a ha
      rw [hasides] at ha
      exact (hothers _ (hkept.path_ne ha hst.free) (htargetne a ha)).trans (hold a ha)
    · intro a ha
      rw [hasides] at ha
      exact hkept.paths a ha

/-- **Restores keep the databases that they replace**, in every run in which each
    call that finds a live file can inspect it and has its second for itself. -/
theorem restores_keep_databases
    (hreach : ((restoreSystem json file age targetPath).restrict (SecondFree targetPath)).Reachable s) :
    AllKept s := by
  suffices hinv : KeptByName targetPath s from hinv.kept
  refine hreach.invariant ?_ ?_
  · intro s hinit
    have hnone : s.asides = [] := hinit
    exact ⟨by simp [AllKept, hnone], by simp [hnone]⟩
  · intro s l s' hkept ⟨hfree, hstep⟩
    cases l with
    | write content =>
      have hs' : s' = { s with disk := s.disk.create targetPath content } := hstep
      subst hs'
      exact hkept.write content
    | restore env input =>
      obtain ⟨htarget, htemp, _, report, disk, hres, rfl⟩ := hstep
      exact hkept.restore htarget htemp hfree hres

/-! ## Section 4: Two restores -/

def asideName : String := bakPath "owasaka.db" 0

/-- The call at this time whose staging file has this number. -/
def numberedEnv (number : String) (now : Int) : RestoreEnv :=
  { clearEnv with stagingPath := "" ++ "restore-" ++ number ++ ".db", now := now }

/-- A call with the backup at hand and a live file succeeds and puts that aside. -/
theorem restore_numbered (number : String) (now : Int) (hbackup : HasBackup d)
    (hfree : d.content (numberedEnv number now).stagingPath = none)
    {live : Bytes} (hlive : d.content "owasaka.db" = some live)
    (hne : (numberedEnv number now).stagingPath ≠ "owasaka.db") :
    ∃ report d', restore backupJson backupFile backupAge (numberedEnv number now) backupInput d
        = some (report, none, d')
      ∧ report.oldDBBackupPath = bakPath "owasaka.db" now
      ∧ ∀ name, name ≠ (numberedEnv number now).stagingPath → name ≠ "owasaka.db" → name ≠ bakPath "owasaka.db" now →
          d'.content name = d.content name := by
  have hclear : (numberedEnv number now).Clear := ⟨rfl, rfl, rfl, rfl, rfl, rfl, rfl, rfl, rfl, rfl, rfl⟩
  have hnone : d.names (numberedEnv number now).stagingPath = none := by
    simpa [Disk.content] using hfree
  have hsome : (d.names "owasaka.db").isSome := by
    rw [← Option.isSome_map (f := d.files)]
    exact Option.isSome_of_eq_some hlive
  obtain ⟨report₀, d₁, hst, _, hres⟩ := restore_backup hclear none hbackup hnone
  have hstaged : (d₁.names (numberedEnv number now).stagingPath).isSome := by simp [hst.file]
  obtain ⟨report, err, d', hswap⟩ : ∃ report err d',
      swap (numberedEnv number now) "owasaka.db" report₀ d₁ = (report, err, d') := ⟨_, _, _, rfl⟩
  have hok := swap_clear hclear report₀ hstaged hne
  rw [hswap] at hok
  cases hok
  obtain ⟨_, hpath, _, hothers⟩ :=
    swap_ok_aside rfl ((live_iff hst).mpr (Or.inl hsome)) hswap
  refine ⟨report, d', hres.trans (congrArg some hswap), hpath, ?_⟩
  intro name hstaging htarget hbak
  rw [hothers name hstaging htarget hbak, (hst.unchanged hstaging).2]

/-- The first call: the live file is put aside. -/
theorem restore_first : ∃ report d',
    restore backupJson backupFile backupAge (numberedEnv "1" 0) backupInput liveDisk
        = some (report, none, d')
      ∧ report.oldDBBackupPath = asideName ∧ HasBackup d' ∧ d'.content "restore-2.db" = none := by
  have hnone : liveDisk.content "restore-1.db" = none := by simp [Disk.content, liveDisk_free]
  obtain ⟨report, d', hres, hpath, hothers⟩ := restore_numbered "1" 0 liveDisk_hasBackup
    hnone Disk.content_create_self (by decide)
  refine ⟨report, d', hres, hpath, ⟨?_, ?_⟩, ?_⟩
  · rw [hothers _ (by decide) (by decide) (by decide +kernel), liveDisk_hasBackup.encrypted]
  · rw [hothers _ (by decide) (by decide) (by decide +kernel), liveDisk_hasBackup.sidecar]
  · rw [hothers _ (by decide) (by decide) (by decide +kernel)]
    unfold liveDisk backupFiles
    rw [Disk.content_create_of_ne (by decide), Disk.content_create_of_ne (by decide),
      Disk.content_create_of_ne (by decide)]
    rfl

/-- The restores to the live file's name with these files and this envelope. -/
def restoreRuns : System RestoreState RestoreAction :=
  restoreSystem backupJson backupFile backupAge "owasaka.db"

/-- Two restores over a live file, with a write to it between them. -/
theorem restore_twice {now : Int} (hnow : 0 ≤ now) : ∃ s : RestoreState,
    s.asides = [⟨asideName, [0x6c], 0⟩, ⟨bakPath "owasaka.db" now, [0x6d], now⟩]
      ∧ (restoreRuns.restrict fun s l =>
        0 ≠ now / 1000000000 → SecondFree "owasaka.db" s l).Reachable s := by
  obtain ⟨report, d', hres, hpath, hbackup, hfree⟩ := restore_first
  have hlive : liveDisk.content "owasaka.db" = some [0x6c] := Disk.content_create_self
  have hlive' : (d'.create "owasaka.db" [0x6d]).content "owasaka.db" = some [0x6d] :=
    Disk.content_create_self
  have hbackup' : HasBackup (d'.create "owasaka.db" [0x6d]) := by
    refine ⟨?_, ?_⟩
    · rw [Disk.content_create_of_ne (by decide), hbackup.encrypted]
    · rw [Disk.content_create_of_ne (by decide), hbackup.sidecar]
  have hfree' : (d'.create "owasaka.db" [0x6d]).content "restore-2.db" = none := by
    rw [Disk.content_create_of_ne (by decide), hfree]
  -- the second restore runs on the disk with the new live file
  obtain ⟨report', d₂, hres', hpath', _⟩ := restore_numbered "2" now hbackup' hfree'
    hlive' (show "" ++ "restore-" ++ "2" ++ ".db" ≠ "owasaka.db" by decide)
  have hinit : (restoreRuns.restrict fun s l =>
      0 ≠ now / 1000000000 → SecondFree "owasaka.db" s l).Reachable ⟨liveDisk, 0, []⟩ :=
    System.Reachable.init rfl
  have hfirst := hinit.tail (l := RestoreAction.restore (numberedEnv "1" 0) backupInput)
    ⟨fun _ _ => ⟨rfl, by simp⟩, rfl, ⟨"", "1", rfl⟩, Int.le_refl 0, report, d', hres, rfl⟩
  obtain ⟨s₁, hs₁, hasides⟩ : ∃ s₁ : RestoreState,
      s₁ = { RestoreState.swapped ⟨liveDisk, 0, []⟩ "owasaka.db" 0 report d' with
        disk := d'.create "owasaka.db" [0x6d] } ∧ s₁.asides = [⟨asideName, [0x6c], 0⟩] :=
    ⟨_, rfl, by simp [RestoreState.swapped, hlive, hpath, asideName]⟩
  have hwrite := hfirst.tail (l := RestoreAction.write [0x6d]) ⟨fun _ => trivial, hs₁⟩
  have hdisk : s₁.disk = d'.create "owasaka.db" [0x6d] := by rw [hs₁]
  have hclock : s₁.clock = 0 := by rw [hs₁]; rfl
  have hsecond := hwrite.tail (l := RestoreAction.restore (numberedEnv "2" now) backupInput)
    ⟨fun hseconds _ => ⟨rfl, by simpa [hasides, numberedEnv] using hseconds⟩, rfl, ⟨"", "2", rfl⟩,
      hclock.trans_le hnow, report', d₂, hdisk ▸ hres', rfl⟩
  exact ⟨_, by simp [RestoreState.swapped, hdisk, hlive', hpath', hasides, numberedEnv], hsecond⟩

/-- Two restores in different seconds. -/
theorem restores_keep_databases_twice : ∃ s : RestoreState,
    s.asides = [⟨asideName, [0x6c], 0⟩, ⟨bakPath "owasaka.db" 1000000000, [0x6d], 1000000000⟩]
      ∧ (restoreRuns.restrict (SecondFree "owasaka.db")).Reachable s ∧ AllKept s := by
  obtain ⟨s, hasides, hreach⟩ := restore_twice (show (0 : Int) ≤ 1000000000 by decide)
  have hfree := hreach.weaken fun _ _ hgood => hgood (by decide)
  exact ⟨s, hasides, hfree, restores_keep_databases hfree⟩

/-- Two restores within one second: the first database is lost. -/
theorem restore_replaces_aside : ∃ s,
    s.asides = [⟨asideName, [0x6c], 0⟩, ⟨asideName, [0x6d], 0⟩]
      ∧ restoreRuns.Reachable s ∧ ¬ AllKept s := by
  obtain ⟨s, hasides, hreach⟩ := restore_twice (Int.le_refl 0)
  refine ⟨s, hasides, hreach.of_restrict, ?_⟩
  intro hkept
  -- one name cannot hold both databases
  have hold := hkept ⟨asideName, [0x6c], 0⟩ (by simp [hasides])
  have hnew := hkept ⟨asideName, [0x6d], 0⟩ (by simp [hasides, asideName])
  have heq := hold.symm.trans hnew
  contradiction

end Owasaka.Backup
