import Mathlib.Data.List.Induction
import Mathlib.Data.List.Sort
import Owasaka.Foundation.System
import Owasaka.Migrations.Runner

/-! # The applied ID and the data

    Between calls, the applied ID and the data stay in step: the data are what the
    changes of all migrations up to the applied ID make of an empty database.  The
    proofs follow a split of the sorted registry into what was applied and what is
    pending; each committed transaction moves the split by one migration.

    The framework's own bucket is left out of the data.  What a change does to the
    data may depend on that bucket, so `ResultOf` is a relation; it has one result
    when the changes look at the data only. -/

namespace Owasaka.Migrations

open Bolt

/-! ## Section 1: Data -/

/-- The database without the bucket of the framework. -/
def dataOf (db : Db) : Db := db.erase bucketSchema

/-- The data after the changes of `ms`, in order, on an empty database. -/
inductive ResultOf : List Migration → Db → Prop where
  | nil : ResultOf [] ∅
  | snoc {ms : List Migration} {m : Migration} {up : Change} {db db' : Db} :
      ResultOf ms (dataOf db) → m.up = some up → up db = .ok db' → ResultOf (ms ++ [m]) (dataOf db')

/-- On the data that `ms` leave, `down` takes back what `up` did. -/
def Undoes (ms : List Migration) (up down : Change) : Prop :=
  ∀ db db₁ db₂ db₃, ResultOf ms (dataOf db) → up db = .ok db₁ → dataOf db₂ = dataOf db₁ →
    down db₂ = .ok db₃ → dataOf db₃ = dataOf db

/-- The registered migrations below an ID, in increasing order. -/
def below (registry : List Migration) (id : UInt32) : List Migration :=
  (all registry).filter fun m => decide (m.id < id)

/-- A registry with distinct positive IDs whose migrations undo what they did. -/
structure Registry where
  migrations : List Migration
  nodup : (migrations.map Migration.id).Nodup
  pos : ∀ m ∈ migrations, 0 < m.id
  undoes : ∀ m ∈ migrations, ∀ up down, m.up = some up → m.down = some down →
    Undoes (below migrations m.id) up down

/-- The change looks at the data only. -/
def Change.OnData (change : Change) : Prop :=
  ∀ db₁ db₂ db₁' db₂', dataOf db₁ = dataOf db₂ → change db₁ = .ok db₁' → change db₂ = .ok db₂' →
    dataOf db₁' = dataOf db₂'

variable {db db' : Db} {id : UInt32} {before after ms : List Migration} {registry : List Migration}

@[simp] theorem getElem?_dataOf (db : Db) (name : String) :
    (dataOf db)[name]? = if name = bucketSchema then none else db[name]? := by
  unfold dataOf
  rw [Std.ExtTreeMap.getElem?_erase]
  by_cases hname : name = bucketSchema
  · simp [hname]
  · simp [hname, Ne.symm hname]

/-- The last change of a result. -/
theorem ResultOf.last {m : Migration} {data : Db} (hres : ResultOf (ms ++ [m]) data) :
    ∃ up db db', ResultOf ms (dataOf db) ∧ m.up = some up ∧ up db = .ok db' ∧ data = dataOf db' := by
  generalize hlist : ms ++ [m] = l at hres
  cases hres with
  | nil => simp at hlist
  | snoc hbefore hup hchange =>
    obtain ⟨rfl, hlast⟩ := List.append_inj' hlist rfl
    cases hlast
    exact ⟨_, _, _, hbefore, hup, hchange, rfl⟩

theorem ResultOf.eq_empty {data : Db} (hres : ResultOf [] data) : data = ∅ := by
  generalize hlist : ([] : List Migration) = l at hres
  cases hres with
  | nil => rfl
  | snoc _ _ _ => simp at hlist

/-- With changes that look at the data only, there is one result. -/
theorem ResultOf.unique {data data' : Db} (hms : ∀ m ∈ ms, ∀ up, m.up = some up → Change.OnData up)
    (hres : ResultOf ms data) (hres' : ResultOf ms data') : data = data' := by
  induction hres generalizing data' with
  | nil => exact hres'.eq_empty.symm
  | snoc _ hup hchange ih =>
    obtain ⟨up', _, _, hbefore, hup', hchange', rfl⟩ := hres'.last
    rw [hup, Option.some.injEq] at hup'
    subst hup'
    have hsame := ih (fun m hm => hms m (List.mem_append_left _ hm)) hbefore
    exact hms _ (List.mem_append_right _ List.mem_cons_self) _ hup _ _ _ _ hsame hchange hchange'

theorem dataOf_writeAppliedID (id : UInt32) (tx : Db) : dataOf (writeAppliedID id tx) = dataOf tx := by
  apply Std.ExtTreeMap.ext_getElem?
  intro name
  simp only [getElem?_dataOf, writeAppliedID, getElem?_insert_ite]
  split <;> rfl

theorem dataOf_createBucket (db : Db) :
    dataOf (createBucketIfNotExists bucketSchema db) = dataOf db := by
  apply Std.ExtTreeMap.ext_getElem?
  intro name
  simp only [getElem?_dataOf, getElem?_createBucketIfNotExists]
  split <;> rfl

theorem appliedID_writeAppliedID (id : UInt32) (tx : Db) :
    appliedID none (writeAppliedID id tx) = .ok id := by
  have hbytes : Bytes.ofBigEndian (Bytes.bigEndian 4 id.toNat) = id.toNat :=
    Bytes.ofBigEndian_bigEndian id.toNat_lt
  simp [appliedID, writeAppliedID, hbytes]

theorem appliedID_createBucket (db : Db) :
    appliedID none (createBucketIfNotExists bucketSchema db) = appliedID none db := by
  unfold appliedID
  rw [getElem?_createBucketIfNotExists, if_pos rfl]
  cases hbucket : db[bucketSchema]? with
  | none => simp
  | some b => simp

/-! ## Section 2: A split of the registry -/

/-- The ID of the last migration of a list, or 0. -/
def lastID (ms : List Migration) : UInt32 :=
  match ms.getLast? with
  | none => 0
  | some m => m.id

@[simp] theorem lastID_nil : lastID [] = 0 := rfl

@[simp] theorem lastID_snoc (ms : List Migration) (m : Migration) : lastID (ms ++ [m]) = m.id := by
  simp [lastID]

theorem mem_all {m : Migration} : m ∈ all registry ↔ m ∈ registry := List.mem_mergeSort

/-- `All` is strictly sorted, in whatever order the migrations were registered. -/
theorem all_sorted (hnodup : (registry.map Migration.id).Nodup) :
    (all registry).Pairwise fun m n => m.id < n.id := by
  have hle : (all registry).Pairwise fun m n => decide (m.id ≤ n.id) = true := by
    apply List.pairwise_mergeSort
    · intro a b c hab hbc
      simp only [decide_eq_true_eq] at hab hbc ⊢
      exact UInt32.le_trans hab hbc
    · intro a b
      simp only [Bool.or_eq_true, decide_eq_true_eq]
      exact UInt32.le_total a.id b.id
  have hne : (all registry).Pairwise fun m n => m.id ≠ n.id := by
    have hperm : ((all registry).map Migration.id).Nodup :=
      ((List.mergeSort_perm registry _).map Migration.id).nodup_iff.mpr hnodup
    exact List.pairwise_map.mp hperm
  refine (hle.and hne).imp ?_
  intro m n hboth
  exact UInt32.lt_of_le_of_ne (by simpa using hboth.1) hboth.2

/-- In a strictly sorted list of positive IDs, a split is at the last ID of its front. -/
structure Split (ms before after : List Migration) : Prop where
  eq : ms = before ++ after
  sorted : ms.Pairwise fun m n => m.id < n.id
  pos : ∀ m ∈ ms, 0 < m.id

theorem Split.of_all (R : Registry) (heq : all R.migrations = before ++ after) :
    Split (all R.migrations) before after :=
  ⟨heq, all_sorted R.nodup, fun m hm => R.pos m (mem_all.mp hm)⟩

theorem Split.le_lastID (hsplit : Split ms before after) {m : Migration} (hm : m ∈ before) :
    m.id ≤ lastID before := by
  have hsorted := (List.pairwise_append.mp (hsplit.eq ▸ hsplit.sorted)).1
  rcases List.eq_nil_or_concat before with rfl | ⟨front, l, rfl⟩
  · simp at hm
  · rw [List.concat_eq_append] at hm hsorted ⊢
    rw [lastID_snoc]
    rcases List.mem_append.mp hm with hfront | hlast
    · exact UInt32.le_of_lt ((List.pairwise_append.mp hsorted).2.2 m hfront l (List.mem_singleton.mpr rfl))
    · rw [List.mem_singleton.mp hlast]
      exact UInt32.le_refl _

theorem Split.lastID_lt (hsplit : Split ms before after) {m : Migration} (hm : m ∈ after) :
    lastID before < m.id := by
  have hcross := (List.pairwise_append.mp (hsplit.eq ▸ hsplit.sorted)).2.2
  rcases List.eq_nil_or_concat before with rfl | ⟨front, l, rfl⟩
  · exact hsplit.pos m (hsplit.eq ▸ List.mem_append_right _ hm)
  · rw [List.concat_eq_append] at hcross ⊢
    rw [lastID_snoc]
    exact hcross l (List.mem_append_right _ (List.mem_singleton.mpr rfl)) m hm

/-- What `CurrentStatus` takes for pending is the back of the split. -/
theorem Split.pending_eq (hsplit : Split ms before after) :
    (ms.filter fun m => decide (lastID before < m.id)) = after := by
  have hbefore : (before.filter fun m => decide (lastID before < m.id)) = [] := by
    rw [List.filter_eq_nil_iff]
    intro m hm hlt
    exact UInt32.not_lt.mpr (hsplit.le_lastID hm) (by simpa using hlt)
  have hafter : (after.filter fun m => decide (lastID before < m.id)) = after := by
    rw [List.filter_eq_self]
    intro m hm
    simpa using hsplit.lastID_lt hm
  have heq := hsplit.eq
  rw [heq, List.filter_append, hbefore, hafter, List.nil_append]

theorem Split.upTo_eq (hsplit : Split ms before after) :
    (ms.filter fun m => decide (m.id ≤ lastID before)) = before := by
  have hbefore : (before.filter fun m => decide (m.id ≤ lastID before)) = before := by
    rw [List.filter_eq_self]
    intro m hm
    simpa using hsplit.le_lastID hm
  have hafter : (after.filter fun m => decide (m.id ≤ lastID before)) = [] := by
    rw [List.filter_eq_nil_iff]
    intro m hm hle
    exact UInt32.not_le.mpr (hsplit.lastID_lt hm) (by simpa using hle)
  have heq := hsplit.eq
  rw [heq, List.filter_append, hbefore, hafter, List.append_nil]

theorem Split.below_eq {m : Migration} (hsplit : Split ms (before ++ [m]) after) :
    (ms.filter fun n => decide (n.id < m.id)) = before := by
  have heq := hsplit.eq
  have hsorted := heq ▸ hsplit.sorted
  have hfront := List.pairwise_append.mp (List.pairwise_append.mp hsorted).1
  have hcross := (List.pairwise_append.mp hsorted).2.2
  have hbefore : (before.filter fun n => decide (n.id < m.id)) = before := by
    rw [List.filter_eq_self]
    intro n hn
    simpa using hfront.2.2 n hn m (List.mem_singleton.mpr rfl)
  have hafter : (after.filter fun n => decide (n.id < m.id)) = [] := by
    rw [List.filter_eq_nil_iff]
    intro n hn hlt
    have hgt := hcross m (List.mem_append_right _ (List.mem_singleton.mpr rfl)) n hn
    exact UInt32.lt_asymm hgt (by simpa using hlt)
  rw [heq, List.filter_append, List.filter_append, hbefore, hafter, List.append_nil]
  simp

theorem Split.lastID_le (hsplit : Split ms before after) : lastID before ≤ lastID ms := by
  have hwhole : Split ms ms [] := ⟨(List.append_nil ms).symm, hsplit.sorted, hsplit.pos⟩
  have heq := hsplit.eq
  rcases List.eq_nil_or_concat before with rfl | ⟨front, l, rfl⟩
  · exact UInt32.zero_le
  · rw [List.concat_eq_append] at heq ⊢
    rw [lastID_snoc]
    exact hwhole.le_lastID (by simp [heq])

/-- The migration that `RunDown` finds is the last of the front. -/
theorem Split.find?_lastID {m : Migration} (hsplit : Split ms (before ++ [m]) after) :
    (ms.find? fun n => decide (n.id = lastID (before ++ [m]))) = some m := by
  have heq := hsplit.eq
  have hsorted := (List.pairwise_append.mp (heq ▸ hsplit.sorted)).1
  rw [lastID_snoc, heq, List.append_assoc, List.find?_append, List.singleton_append,
    List.find?_cons_of_pos (by simp)]
  have hnone : (before.find? fun n => decide (n.id = m.id)) = none := by
    rw [List.find?_eq_none]
    intro n hn heqid
    have hlt := (List.pairwise_append.mp hsorted).2.2 n hn m (List.mem_singleton.mpr rfl)
    exact UInt32.ne_of_lt hlt (by simpa using heqid)
  rw [hnone]
  rfl

/-- The loop over migrations that are not below the target finds nothing. -/
theorem foldl_predecessor_of_le {target : UInt32} (n : UInt32) (hms : ∀ m ∈ ms, target ≤ m.id) :
    ms.foldl (fun newApplied m => if m.id < target ∧ newApplied < m.id then m.id else newApplied) n
      = n := by
  induction ms with
  | nil => rfl
  | cons m ms ih =>
    have hnot : ¬ (m.id < target ∧ n < m.id) := by
      intro hboth
      exact UInt32.not_le.mpr hboth.1 (hms m List.mem_cons_self)
    rw [List.foldl_cons, if_neg hnot]
    exact ih fun m' hm' => hms m' (List.mem_cons_of_mem _ hm')

/-- What `RunDown` computes for the new number is the last ID before its target. -/
theorem Split.predecessorID_eq {m : Migration} (hsplit : Split ms (before ++ [m]) after) :
    predecessorID m.id ms = lastID before := by
  have heq := hsplit.eq
  have hsorted := hsplit.sorted
  have hpos := hsplit.pos
  rw [heq, List.append_assoc] at hsorted hpos
  have hcross := (List.pairwise_append.mp hsorted).2.2
  have hback : ∀ n ∈ [m] ++ after, m.id ≤ n.id := by
    intro n hn
    rcases List.mem_cons.mp hn with rfl | hafter
    · exact UInt32.le_refl _
    · exact UInt32.le_of_lt
        ((List.pairwise_cons.mp (List.pairwise_append.mp hsorted).2.1).1 n hafter)
  -- the front is scanned upwards, each of its IDs replacing the one before
  have hfront : ∀ front : List Migration, (front.Pairwise fun a b => a.id < b.id) →
      (∀ a ∈ front, 0 < a.id ∧ a.id < m.id) → predecessorID m.id front = lastID front := by
    intro front
    induction front using List.reverseRecOn with
    | nil => exact fun _ _ => rfl
    | append_singleton front a ih =>
      intro hpair hbelow
      have hinit := ih (List.pairwise_append.mp hpair).1
        fun b hb => hbelow b (List.mem_append_left _ hb)
      have ha := hbelow a (List.mem_append_right _ (List.mem_singleton.mpr rfl))
      have hlt : lastID front < a.id :=
        Split.lastID_lt ⟨rfl, hpair, fun b hb => (hbelow b hb).1⟩ (List.mem_singleton.mpr rfl)
      unfold predecessorID at hinit ⊢
      rw [List.foldl_append, hinit, lastID_snoc]
      exact if_pos ⟨ha.2, hlt⟩
  have hbefore := hfront before (List.pairwise_append.mp hsorted).1 fun a ha =>
    ⟨hpos a (List.mem_append_left _ ha), hcross a ha m (List.mem_append_left _ (List.mem_singleton.mpr rfl))⟩
  unfold predecessorID at hbefore ⊢
  rw [heq, List.append_assoc, List.foldl_append, hbefore]
  exact foldl_predecessor_of_le _ hback

/-! ## Section 3: The invariant -/

/-- The migrations of the front were applied, those of the back were not. -/
structure Stands (registry : List Migration) (db : Db) (before after : List Migration) : Prop where
  split : Split (all registry) before after
  applied : appliedID none db = .ok (lastID before)
  data : ResultOf before (dataOf db)

/-- What the successful transactions of a loop of `RunUp` do. -/
inductive Commits : List Migration → Db → Db → Prop where
  | nil (db : Db) : Commits [] db db
  | cons {m : Migration} {ms : List Migration} {up : Change} {db tx db' : Db} :
      m.up = some up → up db = .ok tx → Commits ms (writeAppliedID m.id tx) db' →
      Commits (m :: ms) db db'

theorem commitChange_cases (env : CallEnv) (change : Change) (id newApplied : UInt32)
    (error : String → MigrationError) (db : Db) :
    (∃ e, commitChange env change id newApplied error db = (.error e, db))
      ∨ (∃ tx, change db = .ok tx ∧ commitChange env change id newApplied error db
        = (.ok (), writeAppliedID newApplied tx)) := by
  unfold commitChange update
  cases hfault : env.change id with
  | some e => exact .inl ⟨error e, rfl⟩
  | none =>
    cases hchange : change db with
    | error e => exact .inl ⟨error e, by simp [hchange]⟩
    | ok tx =>
      cases hcommit : env.commit id with
      | some e => exact .inl ⟨.bolt e, by simp [hchange]⟩
      | none => exact .inr ⟨tx, rfl, by simp [hchange]⟩

/-- **Step lemma**: the transaction of an `Up` moves the split by one migration. -/
theorem Stands.up {m : Migration} {up : Change} {tx : Db} (h : Stands registry db before (m :: after))
    (hup : m.up = some up) (hchange : up db = .ok tx) :
    Stands registry (writeAppliedID m.id tx) (before ++ [m]) after where
  split := ⟨by rw [h.split.eq, List.append_assoc, List.singleton_append], h.split.sorted, h.split.pos⟩
  applied := by rw [appliedID_writeAppliedID, lastID_snoc]
  data := by
    rw [dataOf_writeAppliedID]
    exact .snoc h.data hup hchange

/-- **Step lemma**: the transaction of a `Down` moves it back. -/
theorem Stands.down {m : Migration} {down : Change} {tx : Db}
    (hundoes : ∀ up, m.up = some up → Undoes before up down)
    (h : Stands registry db (before ++ [m]) after) (hchange : down db = .ok tx) :
    Stands registry (writeAppliedID (lastID before) tx) before (m :: after) where
  split := ⟨by rw [h.split.eq, List.append_assoc, List.singleton_append], h.split.sorted, h.split.pos⟩
  applied := appliedID_writeAppliedID _ _
  data := by
    obtain ⟨up, db₀, db₁, hbefore, hup, hdone, hdata⟩ := h.data.last
    rw [dataOf_writeAppliedID, hundoes up hup db₀ db₁ db tx hbefore hdone hdata hchange]
    exact hbefore

/-- What a registry promises of the last applied migration. -/
theorem Stands.undoes {R : Registry} {m : Migration} {up down : Change}
    (h : Stands R.migrations db (before ++ [m]) after) (hup : m.up = some up)
    (hdown : m.down = some down) : Undoes before up down := by
  have hm : m ∈ R.migrations := by
    rw [← mem_all, h.split.eq]
    simp
  have hundoes := R.undoes m hm up down hup hdown
  unfold below at hundoes
  rw [h.split.below_eq] at hundoes
  exact hundoes

theorem Stands.createBucket (h : Stands registry db before after) :
    Stands registry (createBucketIfNotExists bucketSchema db) before after where
  split := h.split
  applied := by rw [appliedID_createBucket, h.applied]
  data := by
    rw [dataOf_createBucket]
    exact h.data

theorem Stands.commits {done rest : List Migration} (h : Stands registry db before (done ++ rest))
    (hcommits : Commits done db db') : Stands registry db' (before ++ done) rest := by
  induction hcommits generalizing before with
  | nil db => simpa using h
  | cons hup hchange _ ih => simpa using ih (h.up hup hchange)

theorem Stands.empty (R : Registry) : Stands R.migrations ∅ [] (all R.migrations) where
  split := Split.of_all R rfl
  applied := rfl
  data := by
    have hempty : dataOf ∅ = ∅ := by simp [dataOf]
    rw [hempty]
    exact .nil

/-! ## Section 4: The calls -/

/-- The loop commits a front of what is pending, and all of it when it succeeds. -/
theorem upLoop_commits (env : CallEnv) (pending : List Migration) (lastApplied : UInt32) (db : Db) :
    ∃ done rest, pending = done ++ rest ∧ Commits done db (upLoop env pending lastApplied db).2
      ∧ ((upLoop env pending lastApplied db).1.2 = none → rest = []) := by
  induction pending generalizing lastApplied db with
  | nil => exact ⟨[], [], rfl, .nil db, fun _ => rfl⟩
  | cons m pending ih =>
    unfold upLoop
    cases hup : m.up with
    | none => exact ⟨[], m :: pending, rfl, .nil db, by simp⟩
    | some up =>
      rcases commitChange_cases env up m.id m.id (.up m.id) db with
        ⟨e, hres⟩ | ⟨tx, hchange, hres⟩
      · simp only [hres]
        exact ⟨[], m :: pending, rfl, .nil db, by simp⟩
      · simp only [hres]
        obtain ⟨done, rest, heq, hcommits, hall⟩ := ih m.id (writeAppliedID m.id tx)
        exact ⟨m :: done, rest, by rw [heq]; rfl, .cons hup hchange hcommits, hall⟩

theorem ensureBucket_cases (fault : Option String) (db : Db) :
    (∃ e, ensureBucket fault db = (.error e, db))
      ∨ ensureBucket fault db = (.ok (), createBucketIfNotExists bucketSchema db) := by
  cases fault with
  | some e => exact .inl ⟨.bolt e, rfl⟩
  | none => exact .inr rfl

theorem currentStatus_cases (h : Stands registry db before after) (fault : Option String) :
    (∃ e, currentStatus registry fault db = .error e)
      ∨ currentStatus registry fault db
        = .ok ⟨lastID before, lastID (all registry), after⟩ := by
  cases fault with
  | some e => exact .inl ⟨.bolt e, rfl⟩
  | none =>
    right
    simp only [currentStatus, h.applied, h.split.pending_eq]
    rfl

/-- The database with or without the framework's bucket. -/
def Ensured (db db₀ : Db) : Prop := db₀ = db ∨ db₀ = createBucketIfNotExists bucketSchema db

/-- The state after the last migration that a call committed, of those pending. -/
def AfterCommits (pending : List Migration) (db db' : Db) : Prop :=
  ∃ db₀ done, Ensured db db₀ ∧ done <+: pending ∧ Commits done db₀ db'

theorem AfterCommits.of_ensured (pending : List Migration) {db₀ : Db} (hdb₀ : Ensured db db₀) :
    AfterCommits pending db db₀ := ⟨db₀, [], hdb₀, List.nil_prefix, .nil db₀⟩

theorem Stands.ensured {db₀ : Db} (h : Stands registry db before after) (hdb₀ : Ensured db db₀) :
    Stands registry db₀ before after := by
  rcases hdb₀ with rfl | rfl
  · exact h
  · exact h.createBucket

/-- A migration list committed as far as it goes leaves a split. -/
theorem Stands.afterCommits (h : Stands registry db before after) (hdb' : AfterCommits after db db') :
    ∃ done rest, after = done ++ rest ∧ Stands registry db' (before ++ done) rest := by
  obtain ⟨db₀, done, hdb₀, ⟨rest, heq⟩, hcommits⟩ := hdb'
  refine ⟨done, rest, heq.symm, ?_⟩
  have h₀ := h.ensured hdb₀
  rw [← heq] at h₀
  exact h₀.commits hcommits

theorem ensured_ensured {db₀ db₁ : Db} (h₀ : Ensured db db₀) (h₁ : Ensured db₀ db₁) :
    Ensured db db₁ := by
  rcases h₀ with rfl | rfl
  · exact h₁
  · right
    rcases h₁ with rfl | rfl
    · rfl
    · apply Std.ExtTreeMap.ext_getElem?
      intro name
      simp only [getElem?_createBucketIfNotExists]
      by_cases hname : name = bucketSchema <;> simp [hname]

/-- What `RunUp` does from a split. -/
theorem runUp_spec (h : Stands registry db before after) (env : CallEnv) :
    AfterCommits after db (runUp registry env db).2
      ∧ ((runUp registry env db).1.2 = none →
        Stands registry (runUp registry env db).2 (before ++ after) []) := by
  unfold runUp
  rcases ensureBucket_cases env.ensure db with ⟨e, hensure⟩ | hensure
  · simp only [hensure]
    exact ⟨.of_ensured after (.inl rfl), by simp⟩
  · simp only [hensure]
    have h₀ := h.createBucket
    have hensured : Ensured db (createBucketIfNotExists bucketSchema db) := .inr rfl
    rcases currentStatus_cases h₀ env.view with ⟨e, hstatus⟩ | hstatus
    · simp only [hstatus]
      exact ⟨.of_ensured after hensured, by simp⟩
    · have hnot : ¬ lastID (all registry) < lastID before := UInt32.not_lt.mpr h.split.lastID_le
      simp only [hstatus, if_neg hnot]
      by_cases hnone : after.length = 0
      · rw [if_pos hnone]
        have hnil := List.length_eq_zero_iff.mp hnone
        subst hnil
        exact ⟨.of_ensured [] hensured, fun _ => by simpa using h₀⟩
      -- a loop that ran to its end has applied all that was pending
      · rw [if_neg hnone]
        obtain ⟨done, rest, heq, hcommits, hall⟩ :=
          upLoop_commits env after 0 (createBucketIfNotExists bucketSchema db)
        refine ⟨⟨_, done, hensured, ⟨rest, heq.symm⟩, hcommits⟩, ?_⟩
        intro hok
        have hrest := hall hok
        rw [hrest, List.append_nil] at heq
        subst heq
        rw [← List.append_nil after] at h₀
        exact h₀.commits hcommits

/-- A successful `RunDown` takes back one migration; a failing one changes nothing. -/
theorem runDown_spec (R : Registry) (h : Stands R.migrations db before after) (env : CallEnv) :
    ((∃ e, (runDown R.migrations env db).1.2 = some e) ∧ (runDown R.migrations env db).2 = db)
      ∨ ∃ front m down tx, before = front ++ [m] ∧ m.down = some down ∧ down db = .ok tx
        ∧ runDown R.migrations env db = ((lastID front, none), writeAppliedID (lastID front) tx) := by
  unfold runDown
  rcases currentStatus_cases h env.view with ⟨e, hstatus⟩ | hstatus
  · simp only [hstatus]
    exact .inl ⟨⟨e, rfl⟩, trivial⟩
  · simp only [hstatus]
    by_cases hzero : lastID before = 0
    · rw [if_pos hzero]
      exact .inl ⟨⟨_, rfl⟩, rfl⟩
    · rw [if_neg hzero]
      rcases List.eq_nil_or_concat before with rfl | ⟨front, m, rfl⟩
      · exact absurd rfl hzero
      · rw [List.concat_eq_append] at h ⊢
        simp only [h.split.find?_lastID]
        cases hdown : m.down with
        | none => exact .inl ⟨⟨_, rfl⟩, rfl⟩
        | some down =>
          simp only [h.split.predecessorID_eq]
          rcases commitChange_cases env down m.id (lastID front) (.down m.id) db with
            ⟨e, hres⟩ | ⟨tx, hchange, hres⟩
          · simp only [hres]
            exact .inl ⟨⟨e, rfl⟩, trivial⟩
          · simp only [hres]
            exact .inr ⟨front, m, down, tx, rfl, hdown, hchange, rfl⟩

/-- What `CheckBoot` does from a split. -/
theorem checkBoot_spec (h : Stands registry db before after) (env upEnv : CallEnv)
    (autoMigrate : Bool) :
    AfterCommits after db (checkBoot registry env upEnv autoMigrate db).2
      ∧ ((checkBoot registry env upEnv autoMigrate db).1 = none →
        Stands registry (checkBoot registry env upEnv autoMigrate db).2 (before ++ after) []) := by
  unfold checkBoot
  rcases ensureBucket_cases env.ensure db with ⟨e, hensure⟩ | hensure
  · simp only [hensure]
    exact ⟨.of_ensured after (.inl rfl), by simp⟩
  · simp only [hensure]
    have h₀ := h.createBucket
    have hensured : Ensured db (createBucketIfNotExists bucketSchema db) := .inr rfl
    rcases currentStatus_cases h₀ env.view with ⟨e, hstatus⟩ | hstatus
    · simp only [hstatus]
      exact ⟨.of_ensured after hensured, by simp⟩
    · have hnot : ¬ lastID (all registry) < lastID before := UInt32.not_lt.mpr h.split.lastID_le
      simp only [hstatus, if_neg hnot]
      by_cases hnone : after.length = 0
      · rw [if_pos hnone]
        have hnil := List.length_eq_zero_iff.mp hnone
        subst hnil
        exact ⟨.of_ensured [] hensured, fun _ => by simpa using h₀⟩
      · rw [if_neg hnone]
        cases autoMigrate with
        | false => exact ⟨.of_ensured after hensured, by simp⟩
        | true =>
          obtain ⟨⟨db₁, done, hdb₁, hpre, hcommits⟩, hok⟩ := runUp_spec h₀ upEnv
          exact ⟨⟨db₁, done, ensured_ensured hensured hdb₁, hpre, hcommits⟩, hok⟩

/-! ## Section 5: Runs -/

inductive Call where
  | runUp (env : CallEnv)
  | runDown (env : CallEnv)
  | checkBoot (env upEnv : CallEnv) (autoMigrate : Bool)

/-- The error of a call, if it fails, and the database after it. -/
def runCall (registry : List Migration) (db : Db) : Call → Option MigrationError × Db
  | .runUp env => ((runUp registry env db).1.2, (runUp registry env db).2)
  | .runDown env => ((runDown registry env db).1.2, (runDown registry env db).2)
  | .checkBoot env upEnv autoMigrate => checkBoot registry env upEnv autoMigrate db

/-- Any calls, in any order, from an empty database. -/
def migrationSystem (registry : List Migration) : System Db Call where
  init := fun db => db = ∅
  step := fun db c db' => db' = (runCall registry db c).2

/-- **Run lemma**: every reachable database has a split. -/
theorem reachable_stands (R : Registry) (hreach : (migrationSystem R.migrations).Reachable db) :
    ∃ before after, Stands R.migrations db before after := by
  refine System.Reachable.invariant (P := fun db => ∃ before after, Stands R.migrations db before after)
    ?_ ?_ hreach
  · rintro _ rfl
    exact ⟨[], all R.migrations, Stands.empty R⟩
  · rintro db c _ ⟨before, after, h⟩ rfl
    cases c with
    | runUp env =>
      obtain ⟨done, rest, _, hstands⟩ := h.afterCommits (runUp_spec h env).1
      exact ⟨_, _, hstands⟩
    | runDown env =>
      rcases runDown_spec R h env with ⟨_, hsame⟩ | ⟨front, m, down, tx, rfl, hdown, hchange, hres⟩
      · exact ⟨before, after, hsame.symm ▸ h⟩
      · simp only [runCall, hres]
        exact ⟨front, m :: after, h.down (fun _ hup => h.undoes hup hdown) hchange⟩
    | checkBoot env upEnv autoMigrate =>
      obtain ⟨done, rest, _, hstands⟩ := h.afterCommits (checkBoot_spec h env upEnv autoMigrate).1
      exact ⟨_, _, hstands⟩

/-- The registered migrations up to an ID, in increasing order. -/
def upTo (registry : List Migration) (id : UInt32) : List Migration :=
  (all registry).filter fun m => decide (m.id ≤ id)

/-- The registered migrations above an ID, in increasing order. -/
def above (registry : List Migration) (id : UInt32) : List Migration :=
  (all registry).filter fun m => decide (id < m.id)

/-- The applied ID and the data are in step. -/
structure InStep (registry : List Migration) (db : Db) (applied : UInt32) : Prop where
  appliedID : appliedID none db = .ok applied
  registered : applied = 0 ∨ ∃ m ∈ registry, m.id = applied
  data : ResultOf (upTo registry applied) (dataOf db)

/-- `RunDown` took back the migration of the applied ID and no other. -/
def RevertsHighest (registry : List Migration) (applied : UInt32) (db db' : Db) : Prop :=
  ∃ m ∈ registry, m.id = applied ∧ ∃ down tx, m.down = some down ∧ down db = .ok tx
    ∧ ∃ newApplied, db' = writeAppliedID newApplied tx ∧ InStep registry db' newApplied
      ∧ upTo registry applied = upTo registry newApplied ++ [m]

/-- What a call does to a database with this applied ID. -/
structure CallRight (registry : List Migration) (applied : UInt32) (db : Db) (c : Call) : Prop where
  inStep : ∃ applied', InStep registry (runCall registry db c).2 applied'
  up : ∀ env, c = .runUp env → (runCall registry db c).1 = none →
    ∃ status, currentStatus registry none (runCall registry db c).2 = .ok status ∧ status.pending = []
  down : ∀ env, c = .runDown env → (runCall registry db c).1 = none →
    RevertsHighest registry applied db (runCall registry db c).2
  failing : (runCall registry db c).1 ≠ none →
    AfterCommits (above registry applied) db (runCall registry db c).2
  failingDown : ∀ env, c = .runDown env → (runCall registry db c).1 ≠ none →
    (runCall registry db c).2 = db

theorem Stands.inStep (h : Stands registry db before after) : InStep registry db (lastID before) where
  appliedID := h.applied
  registered := by
    rcases List.eq_nil_or_concat before with rfl | ⟨front, m, rfl⟩
    · exact .inl rfl
    · rw [List.concat_eq_append] at h ⊢
      right
      refine ⟨m, ?_, (lastID_snoc front m).symm⟩
      rw [← mem_all, h.split.eq]
      simp
  data := by
    unfold upTo
    rw [h.split.upTo_eq]
    exact h.data

/-- In every run of `RunUp`, `RunDown` and `CheckBoot` calls, the applied ID and the
    data are in step, and every further call does what it says or stops after the last
    migration it committed. -/
theorem migrations_in_step (R : Registry) (hreach : (migrationSystem R.migrations).Reachable db) :
    ∃ applied, InStep R.migrations db applied ∧ ∀ c, CallRight R.migrations applied db c := by
  obtain ⟨before, after, h⟩ := reachable_stands R hreach
  refine ⟨lastID before, h.inStep, fun c => ?_⟩
  -- what is left to apply is what the split leaves after the applied part
  have habove : above R.migrations (lastID before) = after := h.split.pending_eq
  have hnext : (migrationSystem R.migrations).Reachable (runCall R.migrations db c).2 :=
    hreach.tail (l := c) rfl
  obtain ⟨before', after', h'⟩ := reachable_stands R hnext
  have hinStep : ∃ applied', InStep R.migrations (runCall R.migrations db c).2 applied' :=
    ⟨lastID before', h'.inStep⟩
  cases c with
  | runUp env =>
    obtain ⟨hcommits, hok⟩ := runUp_spec h env
    refine ⟨hinStep, ?_, by simp, fun _ => habove ▸ hcommits, by simp⟩
    intro _ _ hnone
    rcases currentStatus_cases (hok hnone) none with ⟨e, hstatus⟩ | hstatus
    · simp [currentStatus, (hok hnone).applied] at hstatus
    · exact ⟨_, hstatus, rfl⟩
  | runDown env =>
    rcases runDown_spec R h env with ⟨⟨e, herr⟩, hsame⟩ | ⟨front, m, down, tx, rfl, hdown, hchange, hres⟩
    -- the call stopped before its transaction, and the database is the same
    · refine ⟨hinStep, by simp, ?_, ?_, fun _ _ _ => hsame⟩
      · intro _ _ hnone
        exact absurd (herr.symm.trans hnone) (by simp)
      · intro _
        exact .of_ensured _ (.inl hsame)
    -- the last migration was taken back, and its ID was the greatest
    · have hnone : (runCall R.migrations db (.runDown env)).1 = none := by simp [runCall, hres]
      have hm : m ∈ R.migrations := by
        rw [← mem_all, h.split.eq]
        simp
      have hdb' := h.down (fun _ hup => h.undoes hup hdown) hchange
      refine ⟨hinStep, by simp, ?_, fun herr => absurd hnone herr, fun _ _ herr => absurd hnone herr⟩
      intro _ _ _
      refine ⟨m, hm, (lastID_snoc front m).symm, down, tx, hdown, hchange, lastID front, ?_, ?_, ?_⟩
      · simp [runCall, hres]
      · simpa [runCall, hres] using hdb'.inStep
      · unfold upTo
        rw [h.split.upTo_eq, hdb'.split.upTo_eq]
  | checkBoot env upEnv autoMigrate =>
    obtain ⟨hcommits, _⟩ := checkBoot_spec h env upEnv autoMigrate
    exact ⟨hinStep, by simp, by simp, fun _ => habove ▸ hcommits, by simp⟩

/-- A migration that adds a bucket and takes it away again. -/
def alphaMigration : Migration where
  id := 7
  description := "create alpha"
  up := some fun tx => .ok (createBucketIfNotExists "alpha" tx)
  down := some fun tx => .ok (tx.erase "alpha")

theorem getElem?_createBuckets {name : String} (names : List String) (db : Db) (hname : name ∉ names) :
    (names.foldl (fun tx n => createBucketIfNotExists n tx) db)[name]? = db[name]? := by
  induction names generalizing db with
  | nil => rfl
  | cons n names ih =>
    simp only [List.mem_cons, not_or] at hname
    rw [List.foldl_cons, ih _ hname.2, getElem?_createBucketIfNotExists, if_neg hname.1]

/-- The shipped migration does not touch the bucket of the other. -/
theorem alpha_of_initial {data : Db} (hres : ResultOf [initialMigration] data) :
    data["alpha"]? = none := by
  rw [← List.nil_append [initialMigration]] at hres
  obtain ⟨up, db, db', hbefore, hup, hchange, rfl⟩ := hres.last
  simp only [initialMigration, Option.some.injEq] at hup
  subst hup
  simp only [Except.ok.injEq] at hchange
  subst hchange
  have hempty : (dataOf db)["alpha"]? = none := by
    rw [hbefore.eq_empty]
    rfl
  rw [getElem?_dataOf, if_neg (by decide)] at hempty ⊢
  rw [getElem?_createBuckets _ _ (by decide), hempty]

/-- The shipped migration and one more, registered out of order.  Taking the bucket away
    undoes making it, since the shipped migration leaves none of that name. -/
def twoMigrations : Registry where
  migrations := [alphaMigration, initialMigration]
  nodup := by decide
  pos := by
    intro m hm
    simp only [List.mem_cons, List.not_mem_nil, or_false] at hm
    rcases hm with rfl | rfl <;> decide
  undoes := by
    intro m hm up down hup hdown
    simp only [List.mem_cons, List.not_mem_nil, or_false] at hm
    rcases hm with rfl | rfl
    · simp only [alphaMigration, Option.some.injEq] at hup hdown
      subst hup hdown
      have hbelow : below [alphaMigration, initialMigration] alphaMigration.id = [initialMigration] := by
        simp [below, all, List.mergeSort, alphaMigration, initialMigration]
      rw [hbelow]
      intro db db₁ db₂ db₃ hres hdone hdata hundone
      have halpha := alpha_of_initial hres
      simp only [Except.ok.injEq] at hdone hundone
      subst hdone hundone
      apply Std.ExtTreeMap.ext_getElem?
      intro name
      have hname := congrArg (·[name]?) hdata
      simp only [getElem?_dataOf, getElem?_createBucketIfNotExists, Std.ExtTreeMap.getElem?_erase]
        at halpha hname ⊢
      by_cases hsame : name = "alpha"
      · subst hsame
        simpa using halpha.symm
      · simp_all [Ne.symm hsame]
    · simp [initialMigration] at hdown

def quietEnv : CallEnv := ⟨none, none, fun _ => none, fun _ => none⟩

/-- After a first `RunUp`. -/
theorem migrations_in_step_two : ∃ applied,
    InStep twoMigrations.migrations (runCall twoMigrations.migrations ∅ (.runUp quietEnv)).2 applied
      ∧ ∀ c, CallRight twoMigrations.migrations applied
        (runCall twoMigrations.migrations ∅ (.runUp quietEnv)).2 c := by
  have hinit : (migrationSystem twoMigrations.migrations).Reachable ∅ := System.Reachable.init rfl
  exact migrations_in_step twoMigrations (hinit.tail (l := .runUp quietEnv) rfl)

end Owasaka.Migrations
