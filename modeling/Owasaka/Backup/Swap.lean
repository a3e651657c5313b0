import Owasaka.Backup.Snapshot

/-! # The files around a restore

    `Restore` stages the decrypted database beside the target and then renames
    twice: the live file aside, under a name that ends in the second of the swap,
    and the staging file into its place.  Between the two there is no live file,
    and nothing puts the old one back.

    Main results:
    - a failed call leaves every file as it was exactly when the second rename
      does not fail after the first was made
    - the databases that successful calls put aside stay, as long as no two calls
      put one aside within one second and the live file can be inspected -/

namespace Owasaka.Backup

open Transparency

/-! ## Section 1: The staging file -/

/-- `d'` is `d` with a new file behind the name `staging`. -/
structure Staged (staging : String) (d d' : Disk Bytes) : Prop where
  free : d.names staging = none
  file : d'.names staging = some d.fresh
  names : ∀ name, name ≠ staging → d'.names name = d.names name
  files : ∀ i, i < d.fresh → d'.files i = d.files i

/-- The name is the same file, with the same contents. -/
def Unchanged (d d' : Disk Bytes) (name : String) : Prop :=
  d'.names name = d.names name ∧ d'.content name = d.content name

variable {json : LeafJson} {file : BoltFile} {age : Age} {env : RestoreEnv} {input : RestoreInput}
  {d d₁ d' : Disk Bytes} {staging name : String} {plain a : Bytes}

theorem Staged.create (hfree : d.names staging = none) : Staged staging d (d.create staging a) where
  free := hfree
  file := by simp [Disk.create, hfree, Disk.createNew]
  names := fun _ hne => Disk.names_create_of_ne hne
  files := fun i hi => Disk.files_create_of_ne hi (by simp [hfree])

/-- Writing the staging file again changes no other. -/
theorem Staged.rewrite (hst : Staged staging d d₁) : Staged staging d (d₁.create staging a) where
  free := hst.free
  file := by simp [Disk.create, hst.file]
  names := fun name hne => by rw [Disk.names_create_of_ne hne, hst.names name hne]
  files := fun i hi => by
    have hlt : i < d₁.fresh := Nat.lt_trans hi (d₁.lt_fresh _ _ hst.file)
    rw [Disk.files_create_of_ne hlt, hst.files i hi]
    rw [hst.file]
    simp only [ne_eq, Option.some.injEq]
    omega

/-- Every other name is as it was. -/
theorem Staged.unchanged (hst : Staged staging d d₁) (hne : name ≠ staging) :
    Unchanged d d₁ name := by
  have hnames := hst.names name hne
  refine ⟨hnames, ?_⟩
  unfold Disk.content
  rw [hnames]
  cases hfile : d.names name with
  | none => rfl
  | some i => simp [hst.files i (d.lt_fresh _ _ hfile)]

theorem Unchanged.refl (d : Disk Bytes) (name : String) : Unchanged d d name := ⟨rfl, rfl⟩

theorem names_removeStaging_of_ne (hne : name ≠ env.stagingPath) :
    (removeStaging env d).names name = d.names name := by
  unfold removeStaging
  split
  · rfl
  · simp [Disk.remove, Function.update_of_ne hne]

theorem unchanged_removeStaging (hne : name ≠ env.stagingPath) (hun : Unchanged d d₁ name) :
    Unchanged d (removeStaging env d₁) name := by
  obtain ⟨hnames, hcontent⟩ := hun
  have hsame : (removeStaging env d₁).names name = d₁.names name := names_removeStaging_of_ne hne
  refine ⟨hsame.trans hnames, ?_⟩
  rw [← hcontent]
  unfold Disk.content
  rw [hsame]
  unfold removeStaging
  split <;> rfl

theorem removeStaging_clear (hclear : env.removeStaging = none) (hst : Staged env.stagingPath d d₁) :
    Unchanged d (removeStaging env d₁) env.stagingPath := by
  have hnone : (removeStaging env d₁).names env.stagingPath = none := by
    simp [removeStaging, hclear, Disk.remove]
  refine ⟨by rw [hnone, hst.free], ?_⟩
  simp [Disk.content, hnone, hst.free]

/-! ## Section 2: How a call ends -/

/-- The staging file is created. -/
structure Creates (age : Age) (env : RestoreEnv) (input : RestoreInput) (d : Disk Bytes) : Prop where
  read : ∃ plain, readArtifact age env input d = .ok plain
  fault : env.createStaging = none
  free : d.names env.stagingPath = none

/-- Every part before the swap succeeds, with the files `d₁` after them. -/
def ReachesSwap (json : LeafJson) (file : BoltFile) (age : Age) (env : RestoreEnv)
    (input : RestoreInput) (d d₁ : Disk Bytes) : Prop :=
  ∃ plain size rootHex created, readArtifact age env input d = .ok plain
    ∧ stage env plain d = (.ok (), d.create env.stagingPath plain)
    ∧ inspectStaged json file env env.stagingPath (d.create env.stagingPath plain)
        = some (.ok (size, rootHex, created), d₁)
    ∧ ((checkSTH input.expectedSTH size rootHex).1 = true ∨ input.allowSTHMismatch = true)

/-- The inspection writes no file but the staging file. -/
theorem inspectStaged_staged (hst : Staged env.stagingPath d d₁)
    {r : Except InspectError (UInt64 × String × Int)}
    (hinspect : inspectStaged json file env env.stagingPath d₁ = some (r, d')) :
    Staged env.stagingPath d d' := by
  unfold inspectStaged at hinspect
  repeat' split at hinspect
  all_goals
    simp only [Option.some.injEq, Prod.mk.injEq, reduceCtorEq] at hinspect
    try
      obtain ⟨_, rfl⟩ := hinspect
      first
        | exact hst
        | exact hst.rewrite

/-- What the attempt to stage leaves. -/
theorem stage_staged {r : Except RestoreError Unit} (hstage : stage env plain d = (r, d')) :
    (∃ e, r = .error e ∧ d' = d ∧ ¬ (env.createStaging = none ∧ d.names env.stagingPath = none))
      ∨ env.createStaging = none
        ∧ ((∃ e d₁, r = .error e ∧ Staged env.stagingPath d d₁ ∧ d' = removeStaging env d₁)
          ∨ r = .ok () ∧ d' = d.create env.stagingPath plain ∧ Staged env.stagingPath d d') := by
  unfold stage at hstage
  cases hcreate : env.createStaging with
  | some e =>
    simp only [hcreate, Prod.mk.injEq] at hstage
    obtain ⟨rfl, rfl⟩ := hstage
    exact Or.inl ⟨_, rfl, rfl, by simp⟩
  | none =>
    cases hfree : d.names env.stagingPath with
    | some i =>
      simp only [hcreate, hfree, Option.isSome_some, if_true, Prod.mk.injEq] at hstage
      obtain ⟨rfl, rfl⟩ := hstage
      exact Or.inl ⟨_, rfl, rfl, by simp⟩
    | none =>
      simp only [hcreate, hfree, Option.isSome_none, Bool.false_eq_true, if_false] at hstage
      -- from here on there is a staging file
      cases hwrite : env.writeStaging with
      | some fault =>
        simp only [hwrite, Prod.mk.injEq] at hstage
        obtain ⟨rfl, rfl⟩ := hstage
        exact Or.inr ⟨rfl, Or.inl ⟨_, _, rfl, .create hfree, rfl⟩⟩
      | none =>
        cases hclose : env.closeStaging with
        | some e =>
          simp only [hwrite, hclose, Prod.mk.injEq] at hstage
          obtain ⟨rfl, rfl⟩ := hstage
          exact Or.inr ⟨rfl, Or.inl ⟨_, _, rfl, .create hfree, rfl⟩⟩
        | none =>
          simp only [hwrite, hclose, Prod.mk.injEq] at hstage
          obtain ⟨rfl, rfl⟩ := hstage
          exact Or.inr ⟨rfl, Or.inr ⟨rfl, rfl, .create hfree⟩⟩

theorem ReachesSwap.creates (hreach : ReachesSwap json file age env input d d₁) :
    Creates age env input d := by
  obtain ⟨plain, _, _, _, hread, hstage, _⟩ := hreach
  rcases stage_staged hstage with ⟨_, herr, _⟩ | ⟨hfault, ⟨_, _, herr, _⟩ | ⟨_, _, hst⟩⟩
  · contradiction
  · contradiction
  · exact ⟨⟨plain, hread⟩, hfault, hst.free⟩

/-- A call ends before there is a staging file, with the removal of that file, or
    with the swap. -/
theorem restore_cases {report : RestoreReport} {err : Option RestoreError}
    (hres : restore json file age env input d = some (report, err, d')) :
    (err ≠ none ∧ d' = d ∧ ¬ Creates age env input d)
      ∨ (∃ d₁, Creates age env input d ∧ Staged env.stagingPath d d₁ ∧ err ≠ none
          ∧ d' = removeStaging env d₁ ∧ ∀ d₂, ¬ ReachesSwap json file age env input d d₂)
      ∨ (∃ report₀ d₁, ReachesSwap json file age env input d d₁ ∧ Staged env.stagingPath d d₁
          ∧ swap env input.targetPath report₀ d₁ = (report, err, d')) := by
  unfold restore at hres
  cases hread : readArtifact age env input d with
  | error e =>
    simp only [hread, Option.some.injEq, Prod.mk.injEq] at hres
    obtain ⟨_, rfl, rfl⟩ := hres
    refine Or.inl ⟨by simp, rfl, ?_⟩
    intro hcreates
    obtain ⟨plain, hok⟩ := hcreates.read
    rw [hread] at hok
    contradiction
  | ok plain =>
    simp only [hread] at hres
    cases hstage : stage env plain d with
    | mk r d₁ =>
      rw [hstage] at hres
      rcases stage_staged hstage with
        ⟨e, rfl, rfl, hnot⟩ | ⟨hfault, ⟨e, d₂, rfl, hst, rfl⟩ | ⟨rfl, rfl, hst⟩⟩
      · simp only [Option.some.injEq, Prod.mk.injEq] at hres
        obtain ⟨_, rfl, rfl⟩ := hres
        exact Or.inl ⟨by simp, rfl, fun hcreates => hnot ⟨hcreates.fault, hcreates.free⟩⟩
      · simp only [Option.some.injEq, Prod.mk.injEq] at hres
        obtain ⟨_, rfl, rfl⟩ := hres
        refine Or.inr (Or.inl ⟨d₂, ⟨⟨plain, hread⟩, hfault, hst.free⟩, hst, by simp, rfl, ?_⟩)
        intro d₃ ⟨plain', _, _, _, hread', hstage', _⟩
        cases hread.symm.trans hread'
        rw [hstage] at hstage'
        simp at hstage'
      · cases hinspect : inspectStaged json file env env.stagingPath
            (d.create env.stagingPath plain) with
        | none => simp [hinspect] at hres
        | some out =>
          obtain ⟨r, d₂⟩ := out
          have hcreates : Creates age env input d := ⟨⟨plain, hread⟩, hfault, hst.free⟩
          have hst₂ := inspectStaged_staged hst hinspect
          simp only [hinspect] at hres
          -- a call that gets to the swap has this inspection behind it
          have hunique : ∀ d₃, ReachesSwap json file age env input d d₃ →
              ∃ size rootHex created, r = .ok (size, rootHex, created)
                ∧ ((checkSTH input.expectedSTH size rootHex).1 = true
                  ∨ input.allowSTHMismatch = true) := by
            intro d₃ ⟨plain', size, rootHex, created, hread', _, hinspect', hpass⟩
            cases hread.symm.trans hread'
            rw [hinspect, Option.some.injEq, Prod.mk.injEq] at hinspect'
            exact ⟨size, rootHex, created, hinspect'.1, hpass⟩
          cases r with
          | error e =>
            simp only [Option.some.injEq, Prod.mk.injEq] at hres
            obtain ⟨_, rfl, rfl⟩ := hres
            refine Or.inr (Or.inl ⟨d₂, hcreates, hst₂, by simp, rfl, ?_⟩)
            intro d₃ hreach
            obtain ⟨_, _, _, hok, _⟩ := hunique d₃ hreach
            contradiction
          | ok out =>
            obtain ⟨size, rootHex, created⟩ := out
            simp only at hres
            by_cases hpass : (checkSTH input.expectedSTH size rootHex).1 = true
                ∨ input.allowSTHMismatch = true
            · have hswap : (!(checkSTH input.expectedSTH size rootHex).1
                  && !input.allowSTHMismatch) = false := by
                rcases hpass with hp | hp <;> simp [hp]
              rw [if_neg (by simp [hswap]), Option.some.injEq] at hres
              exact Or.inr (Or.inr ⟨_, d₂, ⟨plain, size, rootHex, created, hread, hstage, hinspect,
                hpass⟩, hst₂, hres⟩)
            · have hrefuse : (!(checkSTH input.expectedSTH size rootHex).1
                  && !input.allowSTHMismatch) = true := by
                simpa [not_or] using hpass
              rw [if_pos hrefuse, Option.some.injEq, Prod.mk.injEq, Prod.mk.injEq] at hres
              obtain ⟨_, rfl, rfl⟩ := hres
              refine Or.inr (Or.inl ⟨d₂, hcreates, hst₂, by simp, rfl, ?_⟩)
              intro d₃ hreach
              obtain ⟨_, _, _, hok, hpass'⟩ := hunique d₃ hreach
              cases hok
              exact hpass hpass'

/-! ## Section 3: The two renames -/

/-- The name under which a live file is put aside. -/
def bakPath (targetPath : String) (now : Int) : String :=
  targetPath ++ ".bak." ++ Civil.stamp now

theorem bakPath_ne (targetPath : String) (now : Int) : bakPath targetPath now ≠ targetPath := by
  intro heq
  have hlen := congrArg String.length heq
  have hdot : ".bak.".length = 5 := rfl
  simp only [bakPath, String.length_append, hdot] at hlen
  omega

/-- `d'` is `d` with the file `i` moved from `src` to `dst`. -/
structure Moved (src dst : String) (i : Nat) (d d' : Disk Bytes) : Prop where
  old : d.names src = some i
  gone : d'.names src = none
  file : d'.names dst = some i
  names : ∀ name, name ≠ src → name ≠ dst → d'.names name = d.names name
  files : d'.files = d.files

theorem Moved.content {src dst : String} {i : Nat} (hmoved : Moved src dst i d d') :
    d'.content dst = d.content src := by
  simp [Disk.content, hmoved.old, hmoved.file, hmoved.files]

theorem Moved.content_of_ne {src dst : String} {i : Nat} (hmoved : Moved src dst i d d')
    (hsrc : name ≠ src) (hdst : name ≠ dst) : d'.content name = d.content name := by
  simp [Disk.content, hmoved.names name hsrc hdst, hmoved.files]

/-- `os.Rename` between two names moves the file, or fails without effect. -/
theorem renameFile_moved {src dst : String} {i : Nat} (hne : src ≠ dst)
    (hsrc : d.names src = some i) :
    ∃ d', renameFile none src dst d = .ok d' ∧ Moved src dst i d d' := by
  obtain ⟨d', hrename, hfiles, _, hgone, hdst, hothers⟩ := Disk.rename_spec hne hsrc
  exact ⟨d', by simp [renameFile, hrename], ⟨hsrc, hgone, hdst, hothers, hfiles⟩⟩

/-- The live file is put aside. -/
structure PutsAside (env : RestoreEnv) (targetPath : String) (d : Disk Bytes) : Prop where
  stat : env.statTarget = none
  live : (d.names targetPath).isSome
  rename : env.renameAside = none

/-- A swap that fails leaves its files, with the staging file removed, or moved
    the live file before the second rename failed. -/
theorem swap_failed {targetPath : String} {report₀ report : RestoreReport} {e : RestoreError}
    (hst : Staged env.stagingPath d d₁)
    (hswap : swap env targetPath report₀ d₁ = (report, some e, d')) :
    (¬ PutsAside env targetPath d₁ ∧ d' = removeStaging env d₁)
      ∨ (∃ i d₂, PutsAside env targetPath d₁ ∧ Moved targetPath (bakPath targetPath env.now) i d₁ d₂
          ∧ (env.renameStaging ≠ none ∨ env.stagingPath = targetPath)
          ∧ d' = removeStaging env d₂) := by
  unfold swap at hswap
  simp only at hswap
  by_cases hlive : env.statTarget = none ∧ (d₁.names targetPath).isSome
  · rw [if_pos hlive] at hswap
    cases haside : env.renameAside with
    | some cause =>
      simp only [haside, renameFile, Prod.mk.injEq] at hswap
      exact Or.inl ⟨fun hputs => by simp [hputs.rename] at haside, hswap.2.2.symm⟩
    | none =>
      obtain ⟨i, hi⟩ := Option.isSome_iff_exists.mp hlive.2
      obtain ⟨d₂, hrename, hmoved⟩ := renameFile_moved (bakPath_ne targetPath env.now).symm hi
      rw [haside, show targetPath ++ ".bak." ++ Civil.stamp env.now
        = bakPath targetPath env.now from rfl, hrename] at hswap
      simp only at hswap
      cases hsecond : renameFile env.renameStaging env.stagingPath targetPath d₂ with
      | ok d₃ => simp [hsecond] at hswap
      | error cause =>
        simp only [hsecond, Prod.mk.injEq] at hswap
        refine Or.inr ⟨i, d₂, ⟨hlive.1, hlive.2, haside⟩, hmoved, ?_, hswap.2.2.symm⟩
        -- the staging file is still there unless it was the one that was moved
        by_cases hsame : env.stagingPath = targetPath
        · exact Or.inr hsame
        · refine Or.inl ?_
          intro hnone
          have hhere : ∃ k, d₂.names env.stagingPath = some k := by
            by_cases hbak : env.stagingPath = bakPath targetPath env.now
            · exact ⟨i, hbak ▸ hmoved.file⟩
            · exact ⟨_, (hmoved.names _ hsame hbak).trans hst.file⟩
          obtain ⟨k, hk⟩ := hhere
          obtain ⟨d₃, hok, _⟩ := renameFile_moved hsame hk
          rw [hnone, hok] at hsecond
          contradiction
  · rw [if_neg hlive] at hswap
    cases hsecond : renameFile env.renameStaging env.stagingPath targetPath d₁ with
    | ok d₃ => simp [hsecond] at hswap
    | error cause =>
      simp only [hsecond, Prod.mk.injEq] at hswap
      exact Or.inl ⟨fun hputs => hlive ⟨hputs.stat, hputs.live⟩, hswap.2.2.symm⟩

/-! ## Section 4: A failed call -/

/-- The target and every other name are as they were before the call, up to a
    staging file that could not be removed. -/
def LeavesFiles (env : RestoreEnv) (input : RestoreInput) (d d' : Disk Bytes) : Prop :=
  Unchanged d d' input.targetPath
    ∧ ∀ name, name ≠ env.stagingPath ∨ env.removeStaging = none → Unchanged d d' name

/-- The second rename fails, after the first was made.  Where `os.CreateTemp`
    picked the name of the target itself, there is nothing left to rename. -/
structure SwapBreaks (json : LeafJson) (file : BoltFile) (age : Age) (env : RestoreEnv)
    (input : RestoreInput) (d : Disk Bytes) : Prop where
  reaches : ∃ d₁, ReachesSwap json file age env input d d₁
  stat : env.statTarget = none
  live : (d.names input.targetPath).isSome ∨ env.stagingPath = input.targetPath
  aside : env.renameAside = none
  place : env.renameStaging ≠ none ∨ env.stagingPath = input.targetPath

/-- The staging file has the name of the target and cannot be removed. -/
structure StagingStays (age : Age) (env : RestoreEnv) (input : RestoreInput) (d : Disk Bytes) :
    Prop where
  creates : Creates age env input d
  same : env.stagingPath = input.targetPath
  remove : env.removeStaging ≠ none

theorem live_iff (hst : Staged env.stagingPath d d₁) {target : String} :
    (d₁.names target).isSome ↔ (d.names target).isSome ∨ env.stagingPath = target := by
  by_cases hsame : env.stagingPath = target
  · simp [← hsame, hst.file]
  · simp [hst.names target (Ne.symm hsame), hsame]

/-- With the staging file removed, only one that has the target's name and stays
    is left to see. -/
theorem leavesFiles_removeStaging (hcreates : Creates age env input d)
    (hst : Staged env.stagingPath d d₁) :
    LeavesFiles env input d (removeStaging env d₁) ↔ ¬ StagingStays age env input d := by
  have hothers : ∀ name, name ≠ env.stagingPath → Unchanged d (removeStaging env d₁) name :=
    fun name hne => unchanged_removeStaging hne (hst.unchanged hne)
  cases hremove : env.removeStaging with
  | none =>
    have hall : ∀ name, Unchanged d (removeStaging env d₁) name := by
      intro name
      by_cases hname : name = env.stagingPath
      · exact hname ▸ removeStaging_clear hremove hst
      · exact hothers name hname
    exact iff_of_true ⟨hall _, fun name _ => hall name⟩ fun hstays => hstays.remove hremove
  | some e =>
    by_cases hsame : env.stagingPath = input.targetPath
    · -- the target is the staging file, which was not there before
      refine iff_of_false ?_ (not_not_intro ⟨hcreates, hsame, by simp [hremove]⟩)
      intro ⟨htarget, _⟩
      have hnames := htarget.1
      rw [← hsame, hst.free] at hnames
      simp [removeStaging, hremove, hst.file] at hnames
    · refine iff_of_true ⟨hothers _ (Ne.symm hsame), ?_⟩ fun hstays => hsame hstays.same
      intro name hname
      rcases hname with hne | hnone
      · exact hothers name hne
      · simp [hremove] at hnone

/-- The moved file is missed at the target, or found under the name aside. -/
theorem not_leavesFiles_moved {i : Nat} {d₂ : Disk Bytes} (hst : Staged env.stagingPath d d₁)
    (hmoved : Moved input.targetPath (bakPath input.targetPath env.now) i d₁ d₂) :
    ¬ LeavesFiles env input d (removeStaging env d₂) := by
  intro ⟨htarget, hnames⟩
  by_cases hsame : env.stagingPath = input.targetPath
  · have hbak : bakPath input.targetPath env.now ≠ env.stagingPath := by
      rw [hsame]
      exact bakPath_ne _ _
    -- the staging file was moved, and it is newer than every file of `d`
    have hfile := (hnames _ (Or.inl hbak)).1
    rw [names_removeStaging_of_ne hbak, hmoved.file] at hfile
    have hi : d.fresh = i := by
      have hold := hmoved.old
      rw [← hsame, hst.file, Option.some.injEq] at hold
      exact hold
    exact Nat.lt_irrefl _ (hi ▸ d.lt_fresh _ _ hfile.symm)
  · have hfile := htarget.1
    rw [names_removeStaging_of_ne (Ne.symm hsame), hmoved.gone,
      ← hst.names _ (Ne.symm hsame), hmoved.old] at hfile
    contradiction

/-- **A failed restore leaves the files as they were** exactly when the second
    rename does not fail after the first, and no staging file stays behind under
    the target's own name. -/
theorem failed_restore_leaves_iff {report : RestoreReport} {e : RestoreError}
    (hres : restore json file age env input d = some (report, some e, d')) :
    LeavesFiles env input d d' ↔
      ¬ SwapBreaks json file age env input d ∧ ¬ StagingStays age env input d := by
  rcases restore_cases hres with
    ⟨_, rfl, hnot⟩ | ⟨d₁, hcreates, hst, _, rfl, hnever⟩ | ⟨report₀, d₁, hreach, hst, hswap⟩
  · -- no staging file: nothing was written
    refine iff_of_true ⟨.refl _ _, fun name _ => .refl _ name⟩ ⟨?_, fun hstays => hnot hstays.creates⟩
    intro hbreaks
    obtain ⟨_, hreach⟩ := hbreaks.reaches
    exact hnot hreach.creates
  · rw [leavesFiles_removeStaging hcreates hst]
    refine (and_iff_right ?_).symm
    intro hbreaks
    obtain ⟨d₂, hreach⟩ := hbreaks.reaches
    exact hnever d₂ hreach
  · rcases swap_failed hst hswap with ⟨hkept, rfl⟩ | ⟨i, d₂, hputs, hmoved, hplace, rfl⟩
    · rw [leavesFiles_removeStaging hreach.creates hst]
      refine (and_iff_right ?_).symm
      intro hbreaks
      exact hkept ⟨hbreaks.stat, (live_iff hst).mpr hbreaks.live, hbreaks.aside⟩
    · refine iff_of_false (not_leavesFiles_moved hst hmoved) ?_
      intro ⟨hnever, _⟩
      exact hnever ⟨⟨d₁, hreach⟩, hputs.stat, (live_iff hst).mp hputs.live, hputs.rename, hplace⟩

/-! ## Section 5: A backup at hand -/

/-- A directory with a backup of the database with one leaf and its sidecar. -/
structure HasBackup (d : Disk Bytes) : Prop where
  encrypted : d.content "backup.db.age" = some (capturedOf oneBackup.db).encrypted
  sidecar : d.content "backup.db.age.sha256" = some (capturedOf oneBackup.db).sidecar

def backupInput : RestoreInput := ⟨"backup.db.age", "", backupIdentities, "owasaka.db", none, false⟩

/-- The same call with another outcome of its second rename. -/
def RestoreEnv.placed (env : RestoreEnv) (fault : Option String) : RestoreEnv :=
  { env with renameStaging := fault }

/-- The call stages the backup and gets to the swap. -/
theorem restore_backup (hclear : env.Clear) (fault : Option String) (hbackup : HasBackup d)
    (hfree : d.names env.stagingPath = none) :
    ∃ report₀ d₁, Staged env.stagingPath d d₁
      ∧ ReachesSwap backupJson backupFile backupAge (env.placed fault) backupInput d d₁
      ∧ restore backupJson backupFile backupAge (env.placed fault) backupInput d
        = some (swap (env.placed fault) "owasaka.db" report₀ d₁) := by
  obtain ⟨hside, plain, hplain, hopen⟩ := capture_ok backupFile_roundTrips backupAge_inverts
    (capture_backup (Or.inr rfl))
  obtain ⟨log, hin⟩ := inStep_of_reachable backupJson_roundTrips oneBackup_reachable
  obtain ⟨raw, hinspect⟩ := inspectStaged_clear hclear hin.logged hopen Disk.content_create_self
  have hread : readArtifact backupAge env backupInput d = .ok plain :=
    readArtifact_clear hclear (by decide) (by decide) backupAge_inverts.nonempty hbackup.encrypted
      (hside ▸ hbackup.sidecar) hplain
  have hstage : stage env plain d = (.ok (), d.create env.stagingPath plain) :=
    stage_clear hclear hfree
  -- nothing before the swap looks at the second rename
  have hread' : readArtifact backupAge (env.placed fault) backupInput d = .ok plain := hread
  have hstage' : stage (env.placed fault) plain d
      = (.ok (), d.create (env.placed fault).stagingPath plain) := hstage
  have hinspect' : inspectStaged backupJson backupFile (env.placed fault) (env.placed fault).stagingPath
      (d.create (env.placed fault).stagingPath plain) = _ := hinspect
  have hreach : ReachesSwap backupJson backupFile backupAge (env.placed fault) backupInput d _ :=
    ⟨plain, _, _, _, hread', hstage', hinspect', Or.inl rfl⟩
  obtain ⟨report₀, hres⟩ : ∃ report₀, restore backupJson backupFile backupAge (env.placed fault)
      backupInput d = some (swap (env.placed fault) "owasaka.db" report₀
        ((d.create env.stagingPath plain).create env.stagingPath raw)) := by
    unfold restore
    simp only [hread', hstage', hinspect']
    exact ⟨_, rfl⟩
  exact ⟨report₀, _, (Staged.create hfree).rewrite, hreach, hres⟩

/-- A swap whose second rename fails has moved the live file. -/
theorem swap_broken {targetPath : String} (cause : String) (report₀ : RestoreReport)
    (hputs : PutsAside env targetPath d₁) :
    ∃ report i d₂, Moved targetPath (bakPath targetPath env.now) i d₁ d₂
      ∧ swap (env.placed (some cause)) targetPath report₀ d₁
        = (report, some (.renameStaging cause), removeStaging env d₂) := by
  obtain ⟨i, hi⟩ := Option.isSome_iff_exists.mp hputs.live
  obtain ⟨d₂, hrename, hmoved⟩ := renameFile_moved (bakPath_ne targetPath env.now).symm hi
  refine ⟨{ report₀ with swappedAt := env.now, oldDBBackupPath := bakPath targetPath env.now }, i, d₂,
    hmoved, ?_⟩
  unfold swap
  simp only [RestoreEnv.placed, hputs.stat, hputs.live, hputs.rename, and_self, if_true]
  rw [show targetPath ++ ".bak." ++ Civil.stamp env.now = bakPath targetPath env.now from rfl, hrename]
  rfl

def backupFiles : Disk Bytes :=
  ((Disk.empty []).create "backup.db.age" (capturedOf oneBackup.db).encrypted).create
    "backup.db.age.sha256" (capturedOf oneBackup.db).sidecar

/-- The backup beside a live file. -/
def liveDisk : Disk Bytes := backupFiles.create "owasaka.db" [0x6c]

theorem liveDisk_hasBackup : HasBackup liveDisk where
  encrypted := by
    unfold liveDisk backupFiles
    rw [Disk.content_create_of_ne (by decide), Disk.content_create_of_ne (by decide),
      Disk.content_create_self]
  sidecar := by
    unfold liveDisk backupFiles
    rw [Disk.content_create_of_ne (by decide), Disk.content_create_self]

theorem liveDisk_free : liveDisk.names "restore-1.db" = none := by
  unfold liveDisk backupFiles
  rw [Disk.names_create_of_ne (by decide), Disk.names_create_of_ne (by decide),
    Disk.names_create_of_ne (by decide)]
  rfl

theorem clearEnv_clear : clearEnv.Clear := ⟨rfl, rfl, rfl, rfl, rfl, rfl, rfl, rfl, rfl, rfl, rfl⟩

/-- The call on these files in which the second rename fails. -/
theorem restore_broken : ∃ report i d₁ d₂, Staged "restore-1.db" liveDisk d₁
    ∧ Moved "owasaka.db" (bakPath "owasaka.db" 0) i d₁ d₂
    ∧ restore backupJson backupFile backupAge (clearEnv.placed (some "input/output error")) backupInput
        liveDisk = some (report, some (.renameStaging "input/output error"),
          removeStaging clearEnv d₂) := by
  obtain ⟨report₀, d₁, hst, _, hres⟩ := restore_backup clearEnv_clear (some "input/output error")
    liveDisk_hasBackup liveDisk_free
  have hlive : (liveDisk.names "owasaka.db").isSome := by
    rw [← Option.isSome_map (f := liveDisk.files)]
    exact Option.isSome_of_eq_some Disk.content_create_self
  have hputs : PutsAside clearEnv "owasaka.db" d₁ := ⟨rfl, (live_iff hst).mpr (Or.inl hlive), rfl⟩
  obtain ⟨report, i, d₂, hmoved, hswap⟩ := swap_broken "input/output error" report₀ hputs
  exact ⟨report, i, d₁, d₂, hst, hmoved, hres.trans (congrArg some hswap)⟩

theorem failed_restore_leaves_iff_broken : ∃ report d',
    restore backupJson backupFile backupAge (clearEnv.placed (some "input/output error")) backupInput
        liveDisk = some (report, some (.renameStaging "input/output error"), d')
      ∧ (LeavesFiles (clearEnv.placed (some "input/output error")) backupInput liveDisk d' ↔
        ¬ SwapBreaks backupJson backupFile backupAge (clearEnv.placed (some "input/output error"))
            backupInput liveDisk
          ∧ ¬ StagingStays backupAge (clearEnv.placed (some "input/output error")) backupInput
            liveDisk) := by
  obtain ⟨report, _, _, d₂, _, _, hres⟩ := restore_broken
  exact ⟨report, _, hres, failed_restore_leaves_iff hres⟩

/-- The live file is gone after the failed call. -/
theorem failed_restore_loses_live : ∃ report d',
    restore backupJson backupFile backupAge (clearEnv.placed (some "input/output error")) backupInput
        liveDisk = some (report, some (.renameStaging "input/output error"), d')
      ∧ liveDisk.content "owasaka.db" = some [0x6c] ∧ d'.content "owasaka.db" = none
      ∧ ¬ LeavesFiles (clearEnv.placed (some "input/output error")) backupInput liveDisk d' := by
  obtain ⟨report, i, d₁, d₂, hst, hmoved, hres⟩ := restore_broken
  refine ⟨report, _, hres, Disk.content_create_self, ?_, not_leavesFiles_moved hst hmoved⟩
  have hgone : (removeStaging clearEnv d₂).names "owasaka.db" = none :=
    (names_removeStaging_of_ne (by decide)).trans hmoved.gone
  simp [Disk.content, hgone]

end Owasaka.Backup
