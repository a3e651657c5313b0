import Owasaka.Migrations.Versions

/-! # Migrations over several releases

    One database is started under one binary after another, and each binary
    registers what the one before it did and perhaps more.  A history keeps, beside
    the database, the migrations whose changes were committed, in their order.

    Only the highest applied ID is stored.  A migration that arrives at or below
    that ID is pending for no call, so a call under its registry returns nil
    without it; every other registered migration was committed once. -/

namespace Owasaka.Migrations

open Bolt

/-! ## Section 1: What a call commits -/

/-- The migrations of `upLoop` whose transactions are committed. -/
def upLoopCommitted (env : CallEnv) : List Migration → Db → List Migration
  | [], _ => []
  | m :: pending, db =>
    match m.up with
    | none => []
    | some up =>
      match commitChange env up m.id m.id (.up m.id) db with
      | (.error _, _) => []
      | (.ok _, db) => m :: upLoopCommitted env pending db

def runUpCommitted (registry : List Migration) (env : CallEnv) (db : Db) : List Migration :=
  match ensureBucket env.ensure db with
  | (.error _, _) => []
  | (.ok _, db) =>
    match currentStatus registry env.view db with
    | .error _ => []
    | .ok status =>
      if status.available < status.applied then []
      else if status.pending.length = 0 then []
      else upLoopCommitted env status.pending db

def checkBootCommitted (registry : List Migration) (env upEnv : CallEnv) (autoMigrate : Bool)
    (db : Db) : List Migration :=
  match ensureBucket env.ensure db with
  | (.error _, _) => []
  | (.ok _, db) =>
    match currentStatus registry env.view db with
    | .error _ => []
    | .ok status =>
      if status.available < status.applied then []
      else if status.pending.length = 0 then []
      else if !autoMigrate then []
      else runUpCommitted registry upEnv db

/-- The calls of a boot. -/
inductive BootCall where
  | runUp (env : CallEnv)
  | checkBoot (env upEnv : CallEnv) (autoMigrate : Bool)

/-- The error of a call, if it fails, and the database after it. -/
def runBoot (registry : List Migration) (db : Db) : BootCall → Option MigrationError × Db
  | .runUp env => ((runUp registry env db).1.2, (runUp registry env db).2)
  | .checkBoot env upEnv autoMigrate => checkBoot registry env upEnv autoMigrate db

def bootCommitted (registry : List Migration) (db : Db) : BootCall → List Migration
  | .runUp env => runUpCommitted registry env db
  | .checkBoot env upEnv autoMigrate => checkBootCommitted registry env upEnv autoMigrate db

/-- A call that found `pending` above `applied` commits `done` and leaves `db'`. -/
structure Commitment (pending : List Migration) (applied : UInt32) (done : List Migration) (db' : Db)
    (result : Option MigrationError) : Prop where
  front : done <+: pending
  applied : ∃ applied', appliedID none db' = .ok applied' ∧ applied ≤ applied'
    ∧ (∀ m ∈ done, m.id ≤ applied') ∧ ∀ m ∈ pending, m ∉ done → applied' < m.id
  all : result = none → done = pending

variable {registry pending done : List Migration} {db db' : Db} {applied : UInt32}

theorem Commitment.nothing {result : Option MigrationError}
    (happlied : appliedID none db = .ok applied) (habove : ∀ m ∈ pending, applied < m.id)
    (hresult : result = none → pending = []) : Commitment pending applied [] db result where
  front := List.nil_prefix
  applied := ⟨applied, happlied, UInt32.le_refl _, by simp, fun m hm _ => habove m hm⟩
  all := fun hnone => (hresult hnone).symm

theorem upLoop_commitment (env : CallEnv) (lastApplied : UInt32)
    (happlied : appliedID none db = .ok applied)
    (hsorted : pending.Pairwise fun m n => m.id < n.id) (habove : ∀ m ∈ pending, applied < m.id) :
    Commitment pending applied (upLoopCommitted env pending db) (upLoop env pending lastApplied db).2
      (upLoop env pending lastApplied db).1.2 := by
  induction pending generalizing lastApplied db applied with
  | nil => exact Commitment.nothing happlied habove fun _ => rfl
  | cons m pending ih =>
    unfold upLoop upLoopCommitted
    cases hup : m.up with
    | none => exact Commitment.nothing happlied habove (by simp)
    | some up =>
      rcases commitChange_cases env up m.id m.id (.up m.id) db with
        ⟨e, hres⟩ | ⟨tx, hchange, hres⟩
      · simp only [hres]
        exact Commitment.nothing happlied habove (by simp)
      · simp only [hres]
        obtain ⟨hm, hrest⟩ := List.pairwise_cons.mp hsorted
        -- the rest of the loop starts with this migration applied
        have hnext := ih m.id (appliedID_writeAppliedID m.id tx) hrest hm
        obtain ⟨applied', happlied', hle, hdone, hleft⟩ := hnext.applied
        have hlt : applied < m.id := habove m List.mem_cons_self
        refine ⟨?_, ⟨applied', happlied', ?_, ?_, ?_⟩, ?_⟩
        · exact (List.prefix_cons_inj m).mpr hnext.front
        · exact UInt32.le_trans (UInt32.le_of_lt hlt) hle
        · intro n hn
          rcases List.mem_cons.mp hn with rfl | hlater
          · exact hle
          · exact hdone n hlater
        · intro n hn hnot
          obtain ⟨hne, hnot⟩ := not_or.mp (List.mem_cons.not.mp hnot)
          exact hleft n (List.mem_of_ne_of_mem hne hn) hnot
        · intro hnone
          rw [hnext.all hnone]

theorem currentStatus_of_applied (registry : List Migration) (fault : Option String)
    (happlied : appliedID none db = .ok applied) :
    (∃ e, currentStatus registry fault db = .error e)
      ∨ currentStatus registry fault db = .ok ⟨applied, availableID registry, above registry applied⟩ := by
  cases fault with
  | some e => exact .inl ⟨.bolt e, rfl⟩
  | none =>
    right
    simp only [currentStatus, happlied]
    rfl

theorem above_sorted (hnodup : (registry.map Migration.id).Nodup) (applied : UInt32) :
    (above registry applied).Pairwise fun m n => m.id < n.id :=
  (all_sorted hnodup).filter _

theorem mem_above {m : Migration} : m ∈ above registry applied ↔ m ∈ registry ∧ applied < m.id := by
  simp [above, mem_all]

theorem above_lt : ∀ m ∈ above registry applied, applied < m.id := fun _ hm => (mem_above.mp hm).2

/-- What `RunUp` commits. -/
theorem runUp_commitment (hnodup : (registry.map Migration.id).Nodup) (env : CallEnv)
    (happlied : appliedID none db = .ok applied) :
    Commitment (above registry applied) applied (runUpCommitted registry env db)
      (runUp registry env db).2 (runUp registry env db).1.2 := by
  unfold runUp runUpCommitted
  rcases ensureBucket_cases env.ensure db with ⟨e, hensure⟩ | hensure
  · simp only [hensure]
    exact Commitment.nothing happlied above_lt (by simp)
  · simp only [hensure]
    rw [← appliedID_createBucket] at happlied
    rcases currentStatus_of_applied registry env.view happlied with ⟨e, hstatus⟩ | hstatus
    · simp only [hstatus]
      exact Commitment.nothing happlied above_lt (by simp)
    · simp only [hstatus]
      by_cases hdown : availableID registry < applied
      · simp only [if_pos hdown]
        exact Commitment.nothing happlied above_lt (by simp)
      · simp only [if_neg hdown]
        by_cases hnone : (above registry applied).length = 0
        · simp only [if_pos hnone]
          exact Commitment.nothing happlied above_lt fun _ => List.length_eq_zero_iff.mp hnone
        · simp only [if_neg hnone]
          exact upLoop_commitment env 0 happlied (above_sorted hnodup applied) above_lt

/-- What `CheckBoot` commits. -/
theorem checkBoot_commitment (hnodup : (registry.map Migration.id).Nodup) (env upEnv : CallEnv)
    (autoMigrate : Bool) (happlied : appliedID none db = .ok applied) :
    Commitment (above registry applied) applied
      (checkBootCommitted registry env upEnv autoMigrate db)
      (checkBoot registry env upEnv autoMigrate db).2
      (checkBoot registry env upEnv autoMigrate db).1 := by
  unfold checkBoot checkBootCommitted
  rcases ensureBucket_cases env.ensure db with ⟨e, hensure⟩ | hensure
  · simp only [hensure]
    exact Commitment.nothing happlied above_lt (by simp)
  · simp only [hensure]
    rw [← appliedID_createBucket] at happlied
    rcases currentStatus_of_applied registry env.view happlied with ⟨e, hstatus⟩ | hstatus
    · simp only [hstatus]
      exact Commitment.nothing happlied above_lt (by simp)
    · simp only [hstatus]
      by_cases hdown : availableID registry < applied
      · simp only [if_pos hdown]
        exact Commitment.nothing happlied above_lt (by simp)
      · simp only [if_neg hdown]
        by_cases hnone : (above registry applied).length = 0
        · simp only [if_pos hnone]
          exact Commitment.nothing happlied above_lt fun _ => List.length_eq_zero_iff.mp hnone
        · simp only [if_neg hnone]
          cases autoMigrate with
          | false => exact Commitment.nothing happlied above_lt (by simp)
          | true => exact runUp_commitment hnodup upEnv happlied

theorem boot_commitment (hnodup : (registry.map Migration.id).Nodup) (c : BootCall)
    (happlied : appliedID none db = .ok applied) :
    Commitment (above registry applied) applied (bootCommitted registry db c)
      (runBoot registry db c).2 (runBoot registry db c).1 := by
  cases c with
  | runUp env => exact runUp_commitment hnodup env happlied
  | checkBoot env upEnv autoMigrate => exact checkBoot_commitment hnodup env upEnv autoMigrate happlied

/-! ## Section 2: Histories -/

/-- A database, the registry of the binary that runs, and the migrations whose
    changes were committed so far. -/
structure History where
  registry : List Migration
  db : Db
  committed : List Migration

inductive Event where
  /-- The next binary; its registry keeps what was registered before. -/
  | release (registry : List Migration)
  | call (c : BootCall)

def History.after (s : History) (c : BootCall) : History :=
  ⟨s.registry, (runBoot s.registry s.db c).2, s.committed ++ bootCommitted s.registry s.db c⟩

/-- Releases and calls, from a database that no migration was applied to. -/
def historySystem : System History Event where
  init := fun s => s.registry = [] ∧ s.db[bucketSchema]? = none ∧ s.committed = []
  step := fun s e s' =>
    match e with
    | .release registry =>
      (registry.map Migration.id).Nodup ∧ (∀ m ∈ s.registry, m ∈ registry)
        ∧ s' = { s with registry := registry }
    | .call c => s' = s.after c

/-- Every registered migration was committed, and once. -/
def History.Complete (s : History) : Prop :=
  ∀ m ∈ s.registry, m ∈ s.committed ∧ (s.committed.map Migration.id).count m.id = 1

/-- What was not committed yet has an ID above the applied one. -/
def History.RestAbove (s : History) : Prop :=
  ∀ applied, appliedID none s.db = .ok applied → ∀ m ∈ s.registry, m ∉ s.committed → applied < m.id

/-- The invariant of a history. -/
structure History.Inv (s : History) : Prop where
  nodup : (s.registry.map Migration.id).Nodup
  registered : ∀ m ∈ s.committed, m ∈ s.registry
  once : (s.committed.map Migration.id).Nodup
  applied : ∃ applied, appliedID none s.db = .ok applied ∧ ∀ m ∈ s.committed, m.id ≤ applied

/-- **Step lemma**: a call keeps the invariant. -/
theorem History.Inv.after {s : History} (h : s.Inv) (c : BootCall) : (s.after c).Inv := by
  obtain ⟨applied, happlied, hle⟩ := h.applied
  have hcall := boot_commitment h.nodup c happlied
  obtain ⟨applied', happlied', hmono, hdone, _⟩ := hcall.applied
  have habove : ∀ m ∈ bootCommitted s.registry s.db c, m ∈ s.registry ∧ applied < m.id :=
    fun m hm => mem_above.mp (hcall.front.subset hm)
  have hsorted := (above_sorted h.nodup applied).sublist hcall.front.sublist
  refine ⟨h.nodup, ?_, ?_, ⟨applied', happlied', ?_⟩⟩
  · intro m hm
    rcases List.mem_append.mp hm with hbefore | hnew
    · exact h.registered m hbefore
    · exact (habove m hnew).1
  · show ((s.committed ++ bootCommitted s.registry s.db c).map Migration.id).Nodup
    rw [List.map_append, List.nodup_append]
    refine ⟨h.once, ?_, ?_⟩
    · exact List.pairwise_map.mpr (hsorted.imp fun hlt => UInt32.ne_of_lt hlt)
    · -- what was committed before is at most the applied ID, what is new above it
      intro i hi j hj
      obtain ⟨m, hm, rfl⟩ := List.mem_map.mp hi
      obtain ⟨n, hn, rfl⟩ := List.mem_map.mp hj
      exact UInt32.ne_of_lt (UInt32.lt_of_le_of_lt (hle m hm) (habove n hn).2)
  · intro m hm
    rcases List.mem_append.mp hm with hbefore | hnew
    · exact UInt32.le_trans (hle m hbefore) hmono
    · exact hdone m hnew

theorem History.Inv.release {s : History} (h : s.Inv) {registry : List Migration}
    (hnodup : (registry.map Migration.id).Nodup) (hgrow : ∀ m ∈ s.registry, m ∈ registry) :
    History.Inv { s with registry := registry } :=
  ⟨hnodup, fun m hm => hgrow m (h.registered m hm), h.once, h.applied⟩

/-- **Run lemma**: the invariant holds in every history. -/
theorem reachable_inv {s : History} (hreach : historySystem.Reachable s) : s.Inv := by
  refine System.Reachable.invariant (P := History.Inv) ?_ ?_ hreach
  · rintro s ⟨hregistry, hdb, hcommitted⟩
    refine ⟨by simp [hregistry], by simp [hcommitted], by simp [hcommitted], 0, ?_, by simp [hcommitted]⟩
    simp [appliedID, hdb]
  · intro s e s' h hstep
    cases e with
    | release registry =>
      obtain ⟨hnodup, hgrow, rfl⟩ := hstep
      exact h.release hnodup hgrow
    | call c =>
      obtain rfl := hstep
      exact h.after c

/-- Being committed once is being committed. -/
theorem History.Inv.complete_iff {s : History} (h : s.Inv) :
    s.Complete ↔ ∀ m ∈ s.registry, m ∈ s.committed := by
  constructor
  · exact fun hcomplete m hm => (hcomplete m hm).1
  · intro hmem m hm
    refine ⟨hmem m hm, ?_⟩
    exact List.count_eq_one_of_mem h.once (List.mem_map_of_mem (hmem m hm))

/-- After a call that returns nil, every registered migration was committed exactly
    when those not committed before the call had IDs above the applied one. -/
theorem History.Inv.after_complete_iff {s : History} (h : s.Inv) (c : BootCall)
    (hnil : (runBoot s.registry s.db c).1 = none) : (s.after c).Complete ↔ s.RestAbove := by
  obtain ⟨applied, happlied, _⟩ := h.applied
  have hcommitted : bootCommitted s.registry s.db c = above s.registry applied :=
    (boot_commitment h.nodup c happlied).all hnil
  rw [(h.after c).complete_iff]
  show (∀ m ∈ s.registry, m ∈ s.committed ++ bootCommitted s.registry s.db c) ↔ _
  rw [hcommitted]
  constructor
  · intro hall applied' happlied' m hm hnot
    obtain rfl : applied = applied' := Except.ok.inj (happlied.symm.trans happlied')
    rcases List.mem_append.mp (hall m hm) with hbefore | hnew
    · exact absurd hbefore hnot
    · exact (mem_above.mp hnew).2
  · intro hrest m hm
    by_cases hbefore : m ∈ s.committed
    · exact List.mem_append_left _ hbefore
    · exact List.mem_append_right _ (mem_above.mpr ⟨hm, hrest applied happlied m hm hbefore⟩)

/-- A release registers nothing new at or below the applied ID. -/
def NewAbove (s : History) (e : Event) : Prop :=
  ∀ registry, e = .release registry →
    ∀ applied, appliedID none s.db = .ok applied → ∀ m ∈ registry, m ∉ s.registry → applied < m.id

/-- A call leaves above the applied ID what it does not commit. -/
theorem History.Inv.restAbove_after {s : History} (h : s.Inv) (hrest : s.RestAbove) (c : BootCall) :
    (s.after c).RestAbove := by
  obtain ⟨applied, happlied, _⟩ := h.applied
  obtain ⟨applied', happlied', _, _, hleft⟩ := (boot_commitment h.nodup c happlied).applied
  intro applied'' happlied'' m hm hnot
  obtain rfl : applied' = applied'' := Except.ok.inj (happlied'.symm.trans happlied'')
  obtain ⟨hbefore, hnew⟩ := not_or.mp (List.mem_append.not.mp hnot)
  exact hleft m (mem_above.mpr ⟨hm, hrest applied happlied m hm hbefore⟩) hnew

/-- When every release adds its migrations above the applied ID, a call that returns
    nil has left no registered migration out, and none was committed twice. -/
theorem increasing_releases_complete {s : History}
    (hreach : (historySystem.restrict NewAbove).Reachable s) (c : BootCall)
    (hnil : (runBoot s.registry s.db c).1 = none) : (s.after c).Complete := by
  have hboth : s.Inv ∧ s.RestAbove := by
    refine System.Reachable.invariant (P := fun s => s.Inv ∧ s.RestAbove) ?_ ?_ hreach
    · intro s hinit
      refine ⟨reachable_inv (System.Reachable.init hinit), ?_⟩
      intro applied _ m hm
      simp [hinit.1] at hm
    · rintro s e s' ⟨h, hrest⟩ ⟨hnew, hstep⟩
      cases e with
      | release registry =>
        obtain ⟨hnodup, hgrow, rfl⟩ := hstep
        refine ⟨h.release hnodup hgrow, ?_⟩
        intro applied happlied m hm hnot
        by_cases hbefore : m ∈ s.registry
        · exact hrest applied happlied m hbefore hnot
        · exact hnew registry rfl applied happlied m hm hbefore
      | call c =>
        obtain rfl := hstep
        exact ⟨h.after c, h.restAbove_after hrest c⟩
  exact (hboth.1.after_complete_iff c hnil).mpr hboth.2

end Owasaka.Migrations
