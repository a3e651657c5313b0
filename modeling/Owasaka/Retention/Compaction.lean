import Owasaka.Foundation.System
import Owasaka.Retention.Sweep

/-! # Compaction and committed writes

    A compaction renames a copy of the database over the path, and the process
    goes on writing to the file it has open, which has no name any more.  What
    it commits from then on, or while the copy was on its way, is gone when the
    path is opened again.

    The runs here are those of one process after the other on one path: write
    transactions at any time, also between the steps of a sweep, sweeps with a
    failure at any step, and restarts at any time.  The main result: restarts
    lose no committed entry exactly when every entry put since the snapshot of
    the last compaction was in that snapshot already. -/

namespace Owasaka.Retention

open Bolt

/-! ## Section 1: The system -/

/-- How far the sweep of the process has come. -/
inductive Phase where
  | idle
  | eventsSwept (now : Int)
  | assetsSwept
  | copied
  deriving DecidableEq

structure RunState where
  store : Store
  phase : Phase
  /-- The entries committed through a handle and not deleted since. -/
  live : String → Bytes → Option Bytes
  /-- The writes committed since the last copy was made. -/
  sinceCopy : List Write
  /-- The writes committed to the open file since the one at the path was copied
      from it; none while they are the same file. -/
  unsaved : List Write

inductive RunAction where
  | write (fn : Db → Except String (List Write)) (fault : Option TxFault)
  | sweepEvents (now : Int) (fault : Option TxFault)
  | sweepAssets (fault : Option TxFault)
  | skipCompaction (pages : Int)
  | copyFile (pages : Int) (fault : Option CopyFault)
  | rename (fault : Option String)
  | restart

/-- The writes of a committed transaction, on record. -/
def RunState.record (s : RunState) (ws : List Write) (store : Store) : RunState :=
  { s with
    store := store
    live := fun bucket key => (lastEffect ws bucket key).getD (s.live bucket key)
    sinceCopy := s.sinceCopy ++ ws
    unsaved := if s.store.disk.names s.store.path = some s.store.file then s.unsaved
      else s.unsaved ++ ws }

@[simp] theorem RunState.record_store (s : RunState) (ws : List Write) (store : Store) :
    (s.record ws store).store = store := rfl

/-- One step; `none` where the action cannot happen. -/
def runStep (e : Engine) (codec : Codec) (s : RunState) : RunAction → Option RunState
  | .write fn fault =>
    match s.store.update fault fn with
    | .error _ => some s
    | .ok (ws, store) => some (s.record ws store)
  | .sweepEvents now fault =>
    if s.phase = .idle then
      match s.store.update fault (e.eventsTx codec now) with
      | .error _ => some s
      | .ok (ws, store) => some { s.record ws store with phase := .eventsSwept now }
    else none
  | .sweepAssets fault =>
    match s.phase with
    | .eventsSwept now =>
      match s.store.update fault (e.assetsTx codec now) with
      | .error _ => some { s with phase := .idle }
      | .ok (ws, store) => some { s.record ws store with phase := .assetsSwept }
    | _ => none
  | .skipCompaction pages =>
    if s.phase = .assetsSwept ∧ e.compacts pages = false then some { s with phase := .idle }
    else none
  | .copyFile pages fault =>
    if s.phase = .assetsSwept ∧ e.compacts pages = true then
      match s.store.copyFile fault with
      | (some _, store) => some { s with store := store, phase := .idle }
      | (none, store) => some { s with store := store, phase := .copied, sinceCopy := [] }
    else none
  | .rename fault =>
    if s.phase = .copied then
      match s.store.atomicRename fault with
      | (some _, store) => some { s with store := store, phase := .idle }
      -- the file at the path is now the copy
      | (none, store) => some { s with store := store, phase := .idle, unsaved := s.sinceCopy }
    else none
  | .restart =>
    (openStore s.store.disk s.store.path).map fun store =>
      { s with store := store, phase := .idle, sinceCopy := [], unsaved := [] }

/-- The first process opens any path on any disk. -/
def retentionSystem (e : Engine) (codec : Codec) : System RunState RunAction :=
  System.ofStep
    (fun s => ∃ disk path, openStore disk path = some s.store ∧ s.phase = .idle
      ∧ (s.live = fun _ _ => none) ∧ s.sinceCopy = [] ∧ s.unsaved = [])
    (runStep e codec)

@[simp] theorem retentionSystem_step {e : Engine} {codec : Codec} {s s' : RunState} {l : RunAction} :
    (retentionSystem e codec).step s l s' ↔ runStep e codec s l = some s' := Iff.rfl

/-- Every entry committed and not deleted since is in the open database. -/
def AllPresent (s : RunState) : Prop :=
  ∀ bucket key value, s.live bucket key = some value →
    lookup s.store.db bucket key = some value

/-- Every entry put since the snapshot that the path holds, and not changed
    later, was in that snapshot. -/
def Saved (s : RunState) : Prop :=
  ∀ bucket key value, lastEffect s.unsaved bucket key = some (some value) →
    lookup s.store.saved bucket key = some value

/-- The runs that restart the process only in states that meet `policy`. -/
def restartsWhen (e : Engine) (codec : Codec) (policy : RunState → Prop) :
    System RunState RunAction :=
  (retentionSystem e codec).restrict fun s l => l = .restart → policy s

/-- In these runs, every restart succeeds and has all entries. -/
def NoWriteLost (e : Engine) (codec : Codec) (policy : RunState → Prop) : Prop :=
  ∀ s, (restartsWhen e codec policy).Reachable s → policy s →
    ∃ s', runStep e codec s .restart = some s' ∧ AllPresent s'

variable {e : Engine} {codec : Codec} {s s' : RunState} {policy : RunState → Prop}

/-! ## Section 2: What a step does -/

/-- The changes of a step that is no restart. -/
inductive Change (s : RunState) : RunState → Prop where
  | phase (phase : Phase) (hphase : phase = .copied → s.phase = .copied) :
      Change s { s with phase := phase }
  | commit (ws : List Write) (db : Db) (phase : Phase) (hall : writeAll ws s.store.db = some db)
      (hphase : phase = .copied → s.phase = .copied) :
      Change s { s.record ws { s.store with disk := s.store.disk.write s.store.file (some db) } with
        phase := phase }
  | spoil (content : Option Db) :
      Change s { s with
        store := { s.store with disk := s.store.disk.create s.store.copyPath content }
        phase := .idle }
  | copy :
      Change s { s with
        store := { s.store with disk := s.store.disk.create s.store.copyPath (some s.store.db) }
        phase := .copied
        sinceCopy := [] }
  | rename (disk : Disk (Option Db)) (hphase : s.phase = .copied)
      (hrename : s.store.disk.rename s.store.copyPath s.store.path = some disk) :
      Change s { s with
        store := { s.store with disk := disk }
        phase := .idle
        unsaved := s.sinceCopy }

/-- A transaction, whoever runs it, fails or commits. -/
theorem change_of_update {fault : Option TxFault} {fn : Db → Except String (List Write)}
    {ws : List Write} {store : Store} {phase : Phase} (hok : s.store.update fault fn = .ok (ws, store))
    (hphase : phase = .copied → s.phase = .copied) :
    Change s { s.record ws store with phase := phase } := by
  obtain ⟨db, hall, rfl⟩ := Store.update_ok hok
  exact Change.commit ws db phase hall hphase

theorem change_of_step {l : RunAction} (hne : l ≠ .restart) (hstep : runStep e codec s l = some s') :
    Change s s' := by
  have hsame : Change s s := Change.phase s.phase id
  cases l with
  | write fn fault =>
    simp only [runStep] at hstep
    split at hstep
    · cases hstep
      exact hsame
    · rename_i ws store hok
      cases hstep
      exact @change_of_update s fault fn ws store s.phase hok id
  | sweepEvents now fault =>
    simp only [runStep] at hstep
    split at hstep
    · split at hstep
      · cases hstep
        exact hsame
      · rename_i ws store hok
        cases hstep
        exact change_of_update hok (by simp)
    · contradiction
  | sweepAssets fault =>
    simp only [runStep] at hstep
    split at hstep
    · split at hstep
      · cases hstep
        exact Change.phase .idle (by simp)
      · rename_i ws store hok
        cases hstep
        exact change_of_update hok (by simp)
    · contradiction
  | skipCompaction pages =>
    simp only [runStep] at hstep
    split at hstep
    · cases hstep
      exact Change.phase .idle (by simp)
    · contradiction
  | copyFile pages fault =>
    simp only [runStep] at hstep
    split at hstep
    · -- a failed copy leaves no file, half a file or a whole one
      rcases fault with _ | (msg | msg | msg) <;> cases hstep
      · exact Change.copy
      · exact Change.phase .idle (by simp)
      · exact Change.spoil none
      · exact Change.spoil (some s.store.db)
    · contradiction
  | rename fault =>
    simp only [runStep] at hstep
    split at hstep
    · rename_i hphase
      unfold Store.atomicRename at hstep
      cases fault with
      | some msg =>
        cases hstep
        exact Change.phase .idle (by simp)
      | none =>
        cases hren : s.store.disk.rename s.store.copyPath s.store.path with
        | none =>
          simp only [hren] at hstep
          cases hstep
          exact Change.phase .idle (by simp)
        | some disk =>
          simp only [hren] at hstep
          cases hstep
          exact Change.rename disk hphase hren
    · contradiction
  | restart => exact absurd rfl hne

/-- The compaction of a sweep is a run. -/
theorem sweepCompact_steps (hphase : s.phase = .assetsSwept) (env : SweepEnv) :
    ∃ s', (retentionSystem e codec).Steps s s'
      ∧ (∀ rep, s'.store = (e.sweepCompact env rep s.store).2) ∧ s'.phase = .idle := by
  have hstart : (retentionSystem e codec).Steps s s := System.Steps.refl s
  unfold Engine.sweepCompact Store.compact
  -- one case for each place at which the compaction can stop
  cases hcompacts : e.compacts env.freelistPageCount with
  | false =>
    exact ⟨_, hstart.tail (l := .skipCompaction env.freelistPageCount)
      (if_pos ⟨hphase, hcompacts⟩), fun _ => rfl, rfl⟩
  | true =>
    cases hcopy : s.store.copyFile env.copyFault with
    | mk err store =>
      cases err with
      | some msg =>
        exact ⟨{ s with store := store, phase := .idle },
          hstart.tail (l := .copyFile env.freelistPageCount env.copyFault)
            (by simp [runStep, hphase, hcompacts, hcopy]),
          fun _ => rfl, rfl⟩
      | none =>
        have hcopied := hstart.tail (l := .copyFile env.freelistPageCount env.copyFault)
          (u := { s with store := store, phase := .copied, sinceCopy := [] })
          (by simp [runStep, hphase, hcompacts, hcopy])
        cases hren : store.atomicRename env.renameFault with
        | mk err' store' =>
          cases err' with
          | some msg =>
            exact ⟨{ s with store := store', phase := .idle, sinceCopy := [] },
              hcopied.tail (l := .rename env.renameFault)
                (by simp [runStep, hren]),
              by simp [hren], rfl⟩
          | none =>
            exact ⟨{ s with store := store', phase := .idle, sinceCopy := [], unsaved := [] },
              hcopied.tail (l := .rename env.renameFault)
                (by simp [runStep, hren]),
              by simp [hren], rfl⟩

/-- **A sweep is a run**: its steps, with nothing in between. -/
theorem sweep_steps (hphase : s.phase = .idle) (env : SweepEnv) :
    ∃ s', (retentionSystem e codec).Steps s s' ∧ s'.store = (e.sweep codec env s.store).2.2
      ∧ s'.phase = .idle := by
  have hstart : (retentionSystem e codec).Steps s s := System.Steps.refl s
  unfold Engine.sweep Engine.sweepEvents Engine.sweepAssets
  cases hctx : env.ctxErr with
  | some msg => exact ⟨s, hstart, rfl, hphase⟩
  | none =>
    cases hevents : s.store.update env.eventsFault (e.eventsTx codec env.now) with
    | error msg => exact ⟨s, hstart, by simp, hphase⟩
    | ok events =>
      have hswept := hstart.tail (l := .sweepEvents env.now env.eventsFault)
        (u := { s.record events.1 events.2 with phase := .eventsSwept env.now })
        (by simp [runStep, hphase, hevents])
      cases hassets : events.2.update env.assetsFault (e.assetsTx codec env.now) with
      | error msg =>
        exact ⟨_, hswept.tail (l := .sweepAssets env.assetsFault)
          (by simp [runStep, hassets]; rfl),
          by simp [hassets], rfl⟩
      | ok assets =>
        have hboth := hswept.tail (l := .sweepAssets env.assetsFault)
          (by simp [runStep, hassets]; rfl)
        obtain ⟨s', hrun, hstore, hidle⟩ := @sweepCompact_steps e codec
          { (s.record events.1 events.2).record assets.1 assets.2 with phase := .assetsSwept } rfl env
        exact ⟨s', hboth.trans hrun, by simpa [hassets] using hstore _, hidle⟩

/-! ## Section 3: The invariant -/

/-- `db` is `db₀` after the writes `ws`, as far as reads tell. -/
def Follows (db₀ : Db) (ws : List Write) (db : Db) : Prop :=
  ∀ bucket key, lookup db bucket key = (lastEffect ws bucket key).getD (lookup db₀ bucket key)

theorem Follows.refl (db : Db) : Follows db [] db := fun _ _ => rfl

theorem Follows.writeAll {db₀ db db' : Db} {ws ws' : List Write} (hfol : Follows db₀ ws db)
    (hall : writeAll ws' db = some db') : Follows db₀ (ws ++ ws') db' := by
  intro bucket key
  rw [lookup_writeAll hall, lastEffect_append, hfol]
  cases lastEffect ws' bucket key <;> rfl

/-- The last of the writes to a key, if it was a put, is what is live there. -/
def Current (s : RunState) (ws : List Write) : Prop :=
  ∀ bucket key value, lastEffect ws bucket key = some (some value) →
    s.live bucket key = some value

theorem Current.record {ws : List Write} (hcur : Current s ws) (ws' : List Write) (store : Store) :
    Current (s.record ws' store) (ws ++ ws') := by
  intro bucket key value hlast
  rw [lastEffect_append] at hlast
  simp only [RunState.record]
  cases heff : lastEffect ws' bucket key with
  | none =>
    simp only [heff, Option.none_or] at hlast
    simpa using hcur bucket key value hlast
  | some effect =>
    simp only [heff, Option.some_or, Option.some.injEq] at hlast
    simpa using hlast

/-- The open file and the file at the path are complete databases, and the open
    one is ahead by the writes on record. -/
structure Tracked (s : RunState) : Prop where
  file_lt : s.store.file < s.store.disk.fresh
  copy_ne : s.store.disk.names s.store.copyPath ≠ some s.store.file
  opened : ∃ db, s.store.disk.files s.store.file = some db
  path : ∃ db, s.store.disk.content s.store.path = some (some db)
  own : s.store.disk.names s.store.path = some s.store.file → s.unsaved = []
  ahead : Follows s.store.saved s.unsaved s.store.db
  copied : s.phase = .copied → ∃ db, s.store.disk.content s.store.copyPath = some (some db)
    ∧ Follows db s.sinceCopy s.store.db
  unsaved : Current s s.unsaved
  sinceCopy : Current s s.sinceCopy

theorem Tracked.sound (ht : Tracked s) : s.store.Sound := ⟨ht.file_lt, ht.copy_ne⟩

theorem current_nil : Current s [] := by
  intro bucket key value hlast
  contradiction

/-- A process that has just opened the path. -/
theorem tracked_of_openStore {disk : Disk (Option Db)} {path : String}
    (hopen : openStore disk path = some s.store) (hphase : s.phase = .idle)
    (hsince : s.sinceCopy = []) (hunsaved : s.unsaved = []) : Tracked s := by
  obtain ⟨hname, db, hdb⟩ := openStore_spec hopen
  have hsound := Store.Sound.of_openStore hopen
  have hcontent : s.store.disk.content s.store.path = some (some db) := by
    simp [Disk.content, hname, hdb]
  have hsaved : s.store.saved = s.store.db := by simp [Store.saved, Store.db, hcontent, hdb]
  refine ⟨hsound.file_lt, hsound.copy_ne, ⟨db, hdb⟩, ⟨db, hcontent⟩, fun _ => hunsaved, ?_, ?_, ?_, ?_⟩
  · rw [hunsaved, hsaved]
    exact Follows.refl _
  · simp [hphase]
  · rw [hunsaved]
    exact current_nil
  · rw [hsince]
    exact current_nil

theorem Tracked.commit (ht : Tracked s) {ws : List Write} {db : Db} {phase : Phase}
    (hall : Bolt.writeAll ws s.store.db = some db) (hphase : phase = .copied → s.phase = .copied) :
    Tracked { s.record ws { s.store with disk := s.store.disk.write s.store.file (some db) } with
      phase := phase } := by
  obtain ⟨dbPath, hpath⟩ := ht.path
  -- everywhere two cases: the open file still has its name, or a copy has it
  refine ⟨ht.file_lt, ht.copy_ne, ⟨db, Disk.files_write_self⟩, ?_, ?_, ?_, ?_, ?_, ?_⟩
  · by_cases hown : s.store.disk.names s.store.path = some s.store.file
    · exact ⟨db, Disk.content_write_self hown⟩
    · exact ⟨dbPath, by rw [← hpath]; exact Disk.content_write_of_ne hown⟩
  · intro hown
    replace hown : s.store.disk.names s.store.path = some s.store.file := hown
    simp [RunState.record, hown, ht.own hown]
  · by_cases hown : s.store.disk.names s.store.path = some s.store.file
    · -- the write went to the file at the path as well
      have hsaved : ({ s.store with disk := s.store.disk.write s.store.file (some db) } : Store).saved
          = db := by
        simp [Store.saved, Disk.content_write_self hown]
      simp only [RunState.record, hown, if_true, ht.own hown, Store.db_write, hsaved]
      exact Follows.refl db
    · have hsaved : ({ s.store with disk := s.store.disk.write s.store.file (some db) } : Store).saved
          = s.store.saved := by
        simp [Store.saved, Disk.content_write_of_ne hown]
      simp only [RunState.record, hown, if_false, Store.db_write, hsaved]
      exact ht.ahead.writeAll hall
  · -- the copy on its way does not see the write
    intro hcopied
    obtain ⟨dbCopy, hcopy, hfollows⟩ := ht.copied (hphase hcopied)
    refine ⟨dbCopy, by rw [← hcopy]; exact Disk.content_write_of_ne ht.copy_ne, ?_⟩
    simp only [RunState.record, Store.db_write]
    exact hfollows.writeAll hall
  · by_cases hown : s.store.disk.names s.store.path = some s.store.file
    · simp only [RunState.record, hown, if_true, ht.own hown]
      exact current_nil
    · simp only [RunState.record, hown, if_false]
      exact ht.unsaved.record ws s.store
  · exact ht.sinceCopy.record ws s.store

/-- Making the copy, complete or not, leaves both databases alone. -/
theorem Tracked.create_frame (ht : Tracked s) (content : Option Db) :
    (s.store.disk.create s.store.copyPath content).files s.store.file
        = s.store.disk.files s.store.file
      ∧ (s.store.disk.create s.store.copyPath content).content s.store.path
        = s.store.disk.content s.store.path :=
  ⟨Disk.files_create_of_ne ht.file_lt ht.copy_ne,
    Disk.content_create_of_ne s.store.copyPath_ne_path.symm⟩

theorem Tracked.create (ht : Tracked s) (content : Option Db) {phase : Phase} {since : List Write}
    (hcurrent : Current s since)
    (hcopied : phase = .copied → ∃ db, content = some db ∧ Follows db since s.store.db) :
    Tracked { s with
      store := { s.store with disk := s.store.disk.create s.store.copyPath content }
      phase := phase
      sinceCopy := since } := by
  obtain ⟨hfile, hpath⟩ := ht.create_frame content
  obtain ⟨hsound, hdb⟩ := ht.sound.create content
  have hsaved : ({ s.store with disk := s.store.disk.create s.store.copyPath content } : Store).saved
      = s.store.saved := by
    simp [Store.saved, hpath]
  refine ⟨hsound.file_lt, hsound.copy_ne, ?_, ?_, ?_, ?_, ?_, ht.unsaved, hcurrent⟩
  · simpa [hfile] using ht.opened
  · simpa [hpath] using ht.path
  · intro hown
    apply ht.own
    simpa [Disk.names_create_of_ne s.store.copyPath_ne_path.symm] using hown
  · simpa only [hdb, hsaved] using ht.ahead
  · intro hphase
    obtain ⟨db, rfl, hfollows⟩ := hcopied hphase
    exact ⟨db, Disk.content_create_self, by simpa only [hdb] using hfollows⟩

/-- The rename moves the copy to the path and touches no contents. -/
theorem Tracked.rename_frame (ht : Tracked s) {disk : Disk (Option Db)} (hphase : s.phase = .copied)
    (hrename : s.store.disk.rename s.store.copyPath s.store.path = some disk) :
    disk.files = s.store.disk.files ∧ disk.fresh = s.store.disk.fresh
      ∧ disk.names s.store.copyPath = none
      ∧ disk.names s.store.path = s.store.disk.names s.store.copyPath := by
  obtain ⟨dbCopy, hcopy, _⟩ := ht.copied hphase
  obtain ⟨i, hname, _⟩ := Option.map_eq_some_iff.mp hcopy
  obtain ⟨disk', hren, hfiles, hfresh, hsrc, hdst, _⟩ :=
    Disk.rename_spec s.store.copyPath_ne_path hname
  have hdisk : disk' = disk := Option.some.inj (hren.symm.trans hrename)
  subst hdisk
  exact ⟨hfiles, hfresh, hsrc, hdst.trans hname.symm⟩

/-- After the rename the path is the copy, and the open file has no name. -/
theorem Tracked.rename (ht : Tracked s) {disk : Disk (Option Db)} (hphase : s.phase = .copied)
    (hrename : s.store.disk.rename s.store.copyPath s.store.path = some disk) :
    Tracked { s with
      store := { s.store with disk := disk }
      phase := .idle
      unsaved := s.sinceCopy } := by
  obtain ⟨dbCopy, hcopy, hfollows⟩ := ht.copied hphase
  obtain ⟨hfiles, hfresh, hsrc, hdst⟩ := ht.rename_frame hphase hrename
  have hcontent : disk.content s.store.path = some (some dbCopy) := by
    rw [← hcopy]
    simp [Disk.content, hdst, hfiles]
  have hdb : ({ s.store with disk := disk } : Store).db = s.store.db := by
    simp [Store.db, hfiles]
  have hsaved : ({ s.store with disk := disk } : Store).saved = dbCopy := by
    simp [Store.saved, hcontent]
  refine ⟨?_, ?_, ?_, ⟨dbCopy, hcontent⟩, ?_, ?_, ?_, ht.sinceCopy, ht.sinceCopy⟩
  · simpa only [hfresh] using ht.file_lt
  · simp only [Store.copyPath] at hsrc ⊢
    simp [hsrc]
  · simpa only [hfiles] using ht.opened
  · -- the open file is not the copy
    intro hown
    exact absurd (hdst.symm.trans hown) ht.copy_ne
  · simpa only [hdb, hsaved] using hfollows
  · simp

/-- **Step lemma**: every change keeps the invariant. -/
theorem Tracked.change (ht : Tracked s) (hchange : Change s s') : Tracked s' := by
  cases hchange with
  | phase phase hphase =>
    exact ⟨ht.file_lt, ht.copy_ne, ht.opened, ht.path, ht.own, ht.ahead,
      fun hcopied => ht.copied (hphase hcopied), ht.unsaved, ht.sinceCopy⟩
  | commit ws db phase hall hphase => exact ht.commit hall hphase
  | spoil content => exact ht.create content ht.sinceCopy (by simp)
  | copy =>
    exact ht.create (some s.store.db) current_nil fun _ => ⟨s.store.db, rfl, Follows.refl _⟩
  | rename disk hphase hrename => exact ht.rename hphase hrename

/-- A restart succeeds, and reads what was at the path. -/
theorem Tracked.restart (ht : Tracked s) (e : Engine) (codec : Codec) :
    ∃ s', runStep e codec s .restart = some s' ∧ Tracked s' ∧ s'.live = s.live
      ∧ s'.store.db = s.store.saved := by
  obtain ⟨dbPath, hpath⟩ := ht.path
  obtain ⟨i, hname, hi⟩ := Option.map_eq_some_iff.mp hpath
  have hopen : openStore s.store.disk s.store.path = some ⟨s.store.disk, s.store.path, i⟩ := by
    simp [openStore, hname, hi]
  refine ⟨⟨⟨s.store.disk, s.store.path, i⟩, .idle, s.live, [], []⟩, by simp [runStep, hopen],
    tracked_of_openStore hopen rfl rfl rfl, rfl, ?_⟩
  simp [Store.db, Store.saved, hpath, hi]

theorem Tracked.of_restart (ht : Tracked s) (hstep : runStep e codec s .restart = some s') :
    Tracked s' ∧ s'.live = s.live ∧ s'.store.db = s.store.saved := by
  obtain ⟨s₁, hs₁, hspec⟩ := ht.restart e codec
  have heq : s₁ = s' := Option.some.inj (hs₁.symm.trans hstep)
  exact heq ▸ hspec

/-- **Run lemma**: the invariant holds in every reachable state. -/
theorem tracked_of_reachable (hreach : (restartsWhen e codec policy).Reachable s) : Tracked s := by
  apply hreach.invariant (P := Tracked)
  · intro s ⟨disk, path, hopen, hphase, _, hsince, hunsaved⟩
    exact tracked_of_openStore hopen hphase hsince hunsaved
  · intro s l s' ht ⟨_, hstep⟩
    by_cases hrestart : l = .restart
    · subst hrestart
      exact (ht.of_restart hstep).1
    · exact ht.change (change_of_step hrestart hstep)

/-! ## Section 4: What restarts lose -/

/-- Whatever the process does, it sees every live entry that it saw. -/
theorem AllPresent.change (hall : AllPresent s) (ht : Tracked s) (hchange : Change s s') :
    AllPresent s' := by
  cases hchange with
  | phase phase hphase => exact hall
  | commit ws db phase hwrite hphase =>
    intro bucket key value hlive
    simp only [RunState.record, Store.db_write] at hlive ⊢
    rw [lookup_writeAll hwrite]
    -- database and live entries change at the same keys, in the same way
    cases heff : lastEffect ws bucket key with
    | none =>
      simp only [heff, Option.getD_none] at hlive ⊢
      exact hall bucket key value hlive
    | some effect => simpa [heff] using hlive
  | spoil content =>
    unfold AllPresent Store.db
    simp only [(ht.create_frame content).1]
    exact hall
  | copy =>
    unfold AllPresent Store.db
    simp only [(ht.create_frame _).1]
    exact hall
  | rename disk hphase hrename =>
    unfold AllPresent Store.db
    simp only [(ht.rename_frame hphase hrename).1]
    exact hall

/-- A live entry that the process sees is at the path, if the puts on record are. -/
theorem lookup_saved (hall : AllPresent s) (ht : Tracked s) (hsaved : Saved s) {bucket : String}
    {key value : Bytes} (hlive : s.live bucket key = some value) :
    lookup s.store.saved bucket key = some value := by
  have hopen := hall bucket key value hlive
  rw [ht.ahead bucket key] at hopen
  cases heff : lastEffect s.unsaved bucket key with
  -- untouched since the snapshot
  | none => simpa [heff] using hopen
  -- put since: a delete would not leave it in the open file
  | some effect =>
    simp only [heff, Option.getD_some] at hopen
    exact hsaved bucket key value (by rw [heff, hopen])

/-- **Step lemma**: a restart has all entries when the puts on record are saved. -/
theorem allPresent_of_restart (hall : AllPresent s) (ht : Tracked s) (hsaved : Saved s)
    (hstep : runStep e codec s .restart = some s') : AllPresent s' := by
  obtain ⟨_, hsame, hdb⟩ := ht.of_restart hstep
  intro bucket key value hlive
  rw [hdb]
  rw [hsame] at hlive
  exact lookup_saved hall ht hsaved hlive

/-- **Run lemma**: if restarts happen only when the puts on record are saved, the
    process always sees every live entry. -/
theorem allPresent_of_reachable
    (hsaved : ∀ s, (restartsWhen e codec policy).Reachable s → policy s → Saved s)
    (hreach : (restartsWhen e codec policy).Reachable s) : AllPresent s := by
  suffices hboth : (restartsWhen e codec policy).Reachable s ∧ AllPresent s from hboth.2
  apply hreach.invariant (P := fun s => (restartsWhen e codec policy).Reachable s ∧ AllPresent s)
  · intro s hinit
    refine ⟨System.Reachable.init hinit, ?_⟩
    obtain ⟨_, _, _, _, hlive, _⟩ := hinit
    intro bucket key value hsome
    rw [hlive] at hsome
    contradiction
  · intro s l s' ⟨hs, hall⟩ ⟨hgood, hstep⟩
    refine ⟨hs.tail ⟨hgood, hstep⟩, ?_⟩
    have ht := tracked_of_reachable hs
    by_cases hrestart : l = .restart
    · subst hrestart
      exact allPresent_of_restart hall ht (hsaved s hs (hgood rfl)) hstep
    · exact hall.change ht (change_of_step hrestart hstep)

/-- **Restarts lose no committed entry**, exactly when every entry put since the
    snapshot at the path was in it already. -/
theorem noWriteLost_iff_saved :
    NoWriteLost e codec policy
      ↔ ∀ s, (restartsWhen e codec policy).Reachable s → policy s → Saved s := by
  constructor
  · intro hno s hreach hpolicy bucket key value hlast
    have ht := tracked_of_reachable hreach
    obtain ⟨s', hstep, hall⟩ := hno s hreach hpolicy
    obtain ⟨_, hlive, hdb⟩ := ht.of_restart hstep
    rw [← hdb]
    apply hall
    rw [hlive]
    exact ht.unsaved bucket key value hlast
  · intro hsaved s hreach hpolicy
    have ht := tracked_of_reachable hreach
    obtain ⟨s', hstep, _⟩ := ht.restart e codec
    exact ⟨s', hstep, allPresent_of_restart (allPresent_of_reachable hsaved hreach) ht
      (hsaved s hreach hpolicy) hstep⟩

/-! ## Section 5: A write after a compaction -/

/-- An engine that compacts as soon as two pages are free. -/
def eager : Engine := ⟨(⟨0, 0, 0, 0, 1⟩ : Config).ensureDefaults⟩

/-- The stored values here are no JSON. -/
def noJson : Codec := ⟨fun _ => none, fun _ => none⟩

/-- A process that has opened `owasaka.db` on an empty disk. -/
def firstOpen : RunState where
  store := ⟨(Disk.empty none).createNew "owasaka.db" (some ∅), "owasaka.db", 0⟩
  phase := .idle
  live := fun _ _ => none
  sinceCopy := []
  unsaved := []

/-- An event is stored, a sweep compacts, a second event is stored. -/
def writeAfterCompaction : List RunAction :=
  [.write (fun _ => .ok [.createBucket "events", .put "events" [1] [10]]) none,
    .sweepEvents 0 none, .sweepAssets none, .copyFile 2 none, .rename none,
    .write (fun _ => .ok [.put "events" [2] [20]]) none]

/-- The second event is committed and not deleted, and not there after the restart. -/
theorem writeAfterCompaction_run :
    (writeAfterCompaction.foldlM (runStep eager noJson) firstOpen).map
        (fun s => (s.live "events" [2],
          (runStep eager noJson s .restart).map fun s' => lookup s'.store.db "events" [2]))
      = some (some [20], some none) := by
  decide +kernel

/-- The write after the compaction is lost. -/
theorem write_after_compaction_lost :
    (∃ s s', (restartsWhen eager noJson fun _ => True).Reachable s
      ∧ runStep eager noJson s .restart = some s' ∧ s.live "events" [2] = some [20]
      ∧ lookup s'.store.db "events" [2] = none)
    ∧ ¬ NoWriteLost eager noJson fun _ => True := by
  have hlost : ∃ s s', (restartsWhen eager noJson fun _ => True).Reachable s
      ∧ runStep eager noJson s .restart = some s' ∧ s.live "events" [2] = some [20]
      ∧ lookup s'.store.db "events" [2] = none := by
    obtain ⟨s, hrun, hread⟩ := Option.map_eq_some_iff.mp writeAfterCompaction_run
    obtain ⟨hlive, hrestart⟩ := Prod.mk.inj hread
    obtain ⟨s', hstep, hnone⟩ := Option.map_eq_some_iff.mp hrestart
    have hsteps : (retentionSystem eager noJson).Steps firstOpen s := System.Steps.of_foldlM hrun
    exact ⟨s, s', ⟨firstOpen, ⟨Disk.empty none, "owasaka.db", rfl, rfl, rfl, rfl, rfl⟩,
      hsteps.restrict fun _ _ _ => trivial⟩, hstep, hlive, hnone⟩
  refine ⟨hlost, fun hno => ?_⟩
  obtain ⟨s, s', hreach, hstep, hlive, hnone⟩ := hlost
  obtain ⟨s₁, hs₁, hall⟩ := hno s hreach trivial
  have heq : s₁ = s' := Option.some.inj (hs₁.symm.trans hstep)
  subst heq
  obtain ⟨_, hsame, _⟩ := (tracked_of_reachable hreach).of_restart hstep
  have hsome := hall "events" [2] [20] (by rw [hsame]; exact hlive)
  rw [hnone] at hsome
  contradiction

end Owasaka.Retention
