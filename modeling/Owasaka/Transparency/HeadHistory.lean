import Owasaka.Foundation.Ascii
import Owasaka.Transparency.Log
import Owasaka.Transparency.HeadAuthenticity

/-! # The stored tree heads (`transparency/sth.go`)

    `PersistSTH` keeps a head twice: as the latest one, and in a history under its
    tree size.  A run appends leaves and re-opens the log as before, and issues
    heads: it signs size and root of the handle and persists the head.

    ## Abstract view

    The two buckets stand for the list of the heads whose persisting succeeded,
    oldest first (`issued`).  No operation reads that list. -/

namespace Owasaka.Transparency

open Bolt Pki

/-! ## Section 1: Operations -/

/-- The key of the latest head. -/
def latestSTHKey : Bytes := Bytes.ascii "latest"

/-- `encoding/json` at the type `STH`. -/
structure STHJson where
  marshal : STH → Except String Bytes
  unmarshal : Bytes → Except String STH

/-- What is marshalled reads back. -/
def STHJson.RoundTrips (heads : STHJson) : Prop :=
  ∀ sth raw, heads.marshal sth = .ok raw → heads.unmarshal raw = .ok sth

/-- `PersistSTH`.  `fault` is the error of the write transaction, if it fails. -/
def persistSTH (heads : STHJson) (fault : Option String) (sth : STH) (db : Db) :
    Option (Except String Unit × Db) :=
  match heads.marshal sth with
  | .error e => some (.error ("transparency: marshal STH: " ++ e), db)
  | .ok raw =>
    match db[bucketSTH]?, db[bucketSTHHistory]? with
    | some latest, some history =>
      some (update fault (fun db =>
        let db := db.insert bucketSTH (latest.insert latestSTHKey raw)
        .ok ((), db.insert bucketSTHHistory
          (history.insert (encodeIndex sth.treeSize.toNat) raw))) db)
    | _, _ => none -- `Put` on a nil bucket

/-- What `LatestSTH` and `STHAt` make of the value under their key. -/
def readSTH (heads : STHJson) : Option Bytes → Except String (Option STH)
  | none => .ok none
  | some raw =>
    match heads.unmarshal raw with
    | .error e => .error e
    | .ok sth => .ok (some sth)

def latestSTH (heads : STHJson) (db : Db) : Option (Except String (Option STH)) :=
  match db[bucketSTH]? with
  | none => none -- `Get` on a nil bucket
  | some b => some (readSTH heads b[latestSTHKey]?)

def sthAt (heads : STHJson) (db : Db) (size : UInt64) : Option (Except String (Option STH)) :=
  match db[bucketSTHHistory]? with
  | none => none -- `Get` on a nil bucket
  | some b => some (readSTH heads b[encodeIndex size.toNat]?)

/-! ## Section 2: Runs that issue heads -/

structure ServiceState where
  log : LogState
  /-- The heads whose persisting succeeded, oldest first. -/
  issued : List STH

inductive ServiceAction where
  | log (a : LogAction)
  | issue (env : Env) (fault : Option String)

/-- The size of the handle, as the signer takes it. -/
def Tree.treeSize (t : Tree) : UInt64 := UInt64.ofNat t.size

/-- The state after a head was signed and `PersistSTH` returned. -/
def ServiceState.persisted (s : ServiceState) (sth : STH) (r : Except String Unit) (db : Db) :
    ServiceState where
  log := ⟨s.log.tree, db⟩
  issued := match r with
    | .ok _ => s.issued ++ [sth]
    | .error _ => s.issued

def serviceSystem (ed : SignatureScheme) (json : LeafJson) (heads : STHJson) :
    System ServiceState ServiceAction where
  init := fun s => (logSystem json).init s.log ∧ s.issued = []
  step := fun s a s' =>
    match a with
    | .log a => (logSystem json).step s.log a s'.log ∧ s'.issued = s.issued
    | .issue env fault =>
      match signSTH ed env s.log.tree.treeSize s.log.tree.root with
      | .error _ => s' = s
      | .ok sth => ∃ r db, persistSTH heads fault sth s.log.db = some (r, db)
          ∧ s' = s.persisted sth r db

/-! ## Section 3: The two buckets -/

/-- Both operations that read heads find the same in two databases. -/
def SameHeads (db db' : Db) : Prop :=
  db'[bucketSTH]? = db[bucketSTH]? ∧ db'[bucketSTHHistory]? = db[bucketSTHHistory]?

section

variable {heads : STHJson} {db db' : Db} {fault : Option String} {sth : STH}
  {r : Except String Unit} {size : UInt64}

theorem SameHeads.latestSTH (hsame : SameHeads db db') : latestSTH heads db' = latestSTH heads db := by
  rw [Transparency.latestSTH, Transparency.latestSTH, hsame.1]

theorem SameHeads.sthAt (hsame : SameHeads db db') : sthAt heads db' size = sthAt heads db size := by
  rw [Transparency.sthAt, Transparency.sthAt, hsame.2]

theorem sameHeads_insert_leaves (b : Bucket) : SameHeads db (db.insert bucketLeaves b) := by
  constructor
  · rw [getElem?_insert_ite, if_neg (by simp [bucketSTH, bucketLeaves])]
  · rw [getElem?_insert_ite, if_neg (by simp [bucketSTHHistory, bucketLeaves])]

theorem getElem?_bootstrap_heads (db : Db) :
    (bootstrap db)[bucketSTH]? = some (db[bucketSTH]?.getD ∅)
      ∧ (bootstrap db)[bucketSTHHistory]? = some (db[bucketSTHHistory]?.getD ∅) := by
  constructor <;> simp [bootstrap, getElem?_createBucketIfNotExists, bucketLeaves, bucketNodes,
    bucketSTH, bucketSTHHistory]

/-- Creating the buckets keeps those that are there. -/
theorem sameHeads_bootstrap {b h : Bucket} (hlatest : db[bucketSTH]? = some b)
    (hhistory : db[bucketSTHHistory]? = some h) : SameHeads db (bootstrap db) := by
  obtain ⟨hlatest', hhistory'⟩ := getElem?_bootstrap_heads db
  constructor
  · rw [hlatest', hlatest]
    rfl
  · rw [hhistory', hhistory]
    rfl

theorem encodeIndex_inj {i j : UInt64} : encodeIndex i.toNat = encodeIndex j.toNat ↔ i = j := by
  constructor
  · intro heq
    exact UInt64.toNat_inj.mp (Bytes.bigEndian_injOn (UInt64.toNat_lt i) (UInt64.toNat_lt j) heq)
  · intro heq
    rw [heq]

/-- `PersistSTH` either fails and changes nothing, or both reads find the head
    afterwards, and the history under other sizes stays. -/
theorem persistSTH_cases (hheads : heads.RoundTrips)
    (hpersist : persistSTH heads fault sth db = some (r, db')) :
    (∃ e, r = .error e ∧ db' = db)
    ∨ (r = .ok () ∧ (∀ name, name ≠ bucketSTH → name ≠ bucketSTHHistory → db'[name]? = db[name]?)
      ∧ latestSTH heads db' = some (.ok (some sth))
      ∧ ∀ size, sthAt heads db' size
        = if size = sth.treeSize then some (.ok (some sth)) else sthAt heads db size) := by
  unfold persistSTH at hpersist
  cases hmarshal : heads.marshal sth with
  | error e =>
    simp only [hmarshal, Option.some.injEq, Prod.mk.injEq] at hpersist
    exact Or.inl ⟨_, hpersist.1.symm, hpersist.2.symm⟩
  | ok raw =>
    simp only [hmarshal] at hpersist
    split at hpersist
    · next latest history hlatest hhistory =>
      have hread : readSTH heads (some raw) = .ok (some sth) := by
        simp only [readSTH, hheads sth raw hmarshal]
      simp only [update, Option.some.injEq] at hpersist
      cases fault with
      | some e =>
        cases hpersist
        exact Or.inl ⟨e, rfl, rfl⟩
      | none =>
        cases hpersist
        refine Or.inr ⟨rfl, ?_, ?_, ?_⟩
        · intro name hne hne'
          rw [getElem?_insert_ite, if_neg hne', getElem?_insert_ite, if_neg hne]
        · have hbucket : bucketSTH ≠ bucketSTHHistory := by simp [bucketSTH, bucketSTHHistory]
          simp only [latestSTH, getElem?_insert_ite, if_neg hbucket, if_true, hread]
        · intro size
          simp only [sthAt, getElem?_insert_ite, if_true, hhistory]
          by_cases hsize : size = sth.treeSize
          · rw [if_pos (encodeIndex_inj.mpr hsize), if_pos hsize, hread]
          · rw [if_neg fun heq => hsize (encodeIndex_inj.mp heq), if_neg hsize]
    · contradiction

end

/-! ## Section 4: The invariant -/

namespace Tree

variable {t t' : Tree}

theorem toNat_treeSize (t : Tree) : t.treeSize.toNat = t.size := by
  have hlt := t.length_lt
  rw [treeSize, UInt64.toNat_ofNat', Nat.mod_eq_of_lt]
  unfold size
  omega

theorem root_eq (t : Tree) : t.root = merkleTreeHash t.hashes := by
  unfold root
  cases hhashes : t.hashes with
  | nil => simp [merkleTreeHash]
  | cons a l => simp

theorem rootAt_ok_iff {k : Nat} {a : RootHash} :
    t.rootAt k = .ok a ↔ k ≤ t.size ∧ a = merkleTreeHash (t.hashes.take k) := by
  unfold rootAt size
  by_cases hgt : k > t.hashes.length
  · simp [hgt]
  · by_cases hzero : k = 0
    · simp [hzero, merkleTreeHash, eq_comm]
    · simp [hgt, hzero, Nat.le_of_not_gt hgt, eq_comm]

/-- What a handle answers about a size, one with more leaves answers too. -/
theorem rootAt_of_prefix (hpre : t.hashes <+: t'.hashes) {k : Nat} {a : RootHash}
    (hroot : t.rootAt k = .ok a) : t'.rootAt k = .ok a := by
  have hsame := answers_of_prefix hpre (rootAt_ok_iff.mp hroot).1
  rw [hsame.1, hroot]

theorem rootAt_size (t : Tree) : t.rootAt t.treeSize.toNat = .ok t.root := by
  rw [rootAt_ok_iff, toNat_treeSize, root_eq]
  exact ⟨Nat.le_refl _, by rw [size, List.take_length]⟩

end Tree

/-- The latest of the heads of one size. -/
def lastOfSize (issued : List STH) (size : UInt64) : Option STH :=
  (issued.filter fun h => h.treeSize = size).getLast?

/-- The stored heads are those issued, and each one is about a prefix of the log. -/
structure HeadsKept (heads : STHJson) (s : ServiceState) : Prop where
  latest : latestSTH heads s.log.db = some (.ok s.issued.getLast?)
  history : ∀ size, sthAt heads s.log.db size = some (.ok (lastOfSize s.issued size))
  roots : ∀ h ∈ s.issued, ∃ root, s.log.tree.rootAt h.treeSize.toNat = .ok root
    ∧ h.rootHash = root.toList
  sorted : s.issued.Pairwise fun h h' => h.treeSize ≤ h'.treeSize

variable {ed : SignatureScheme} {json : LeafJson} {heads : STHJson} {s s' : ServiceState}

/-- Steps of the log keep what is stored of the heads. -/
theorem sameHeads_of_log_step {s s' : LogState} {log : List (Bytes × Leaf)} {a : LogAction}
    {b h : Bucket} (hin : InStep json s log) (hlatest : s.db[bucketSTH]? = some b)
    (hhistory : s.db[bucketSTHHistory]? = some h) (hstep : (logSystem json).step s a s') :
    SameHeads s.db s'.db := by
  cases a with
  | append leaf fault =>
    obtain ⟨r, happ⟩ := hstep
    rcases Tree.append_cases happ with ⟨_, _, _, _, hdb⟩ | ⟨raw, _, _, _, _, hdb⟩
    · rw [hdb]
      exact ⟨rfl, rfl⟩
    · rw [hdb]
      exact sameHeads_insert_leaves _
  | reopen fault =>
    rcases hstep with hok | ⟨_, e, herr⟩
    · rcases hin.logged.openTree_cases hok with ⟨_, _, _, hdb⟩ | ⟨_, _, _, _, hdb⟩
      · rw [hdb]
        exact ⟨rfl, rfl⟩
      · rw [hdb]
        exact sameHeads_bootstrap hlatest hhistory
    · rw [openTree_error hin.logged herr]
      exact ⟨rfl, rfl⟩

/-- Writing the buckets of the heads keeps a handle in step. -/
theorem InStep.of_heads {t : Tree} {db db' : Db} {log : List (Bytes × Leaf)}
    (hin : InStep json ⟨t, db⟩ log) (hsame : db'[bucketLeaves]? = db[bucketLeaves]?) :
    InStep json ⟨t, db'⟩ log := by
  have hbucket : leavesBucket db' = leavesBucket db := by rw [leavesBucket, leavesBucket, hsame]
  obtain ⟨⟨htable, hdecodes, hlen⟩, hmem, hcache⟩ := hin
  refine ⟨⟨?_, hdecodes, hlen⟩, ?_, hcache⟩
  · rw [hbucket]
    exact htable
  · rw [hsame, hbucket]
    exact hmem

theorem exists_bucket_of_latestSTH {db : Db} {x : Except String (Option STH)}
    (hlatest : latestSTH heads db = some x) : ∃ b, db[bucketSTH]? = some b := by
  unfold latestSTH at hlatest
  split at hlatest
  · contradiction
  · next b hb => exact ⟨b, hb⟩

theorem exists_bucket_of_sthAt {db : Db} {size : UInt64} {x : Except String (Option STH)}
    (hat : sthAt heads db size = some x) : ∃ b, db[bucketSTHHistory]? = some b := by
  unfold sthAt at hat
  split at hat
  · contradiction
  · next b hb => exact ⟨b, hb⟩

/-- A step that keeps the stored heads and only adds leaves keeps the invariant. -/
theorem HeadsKept.of_grown (hkept : HeadsKept heads s) (hsame : SameHeads s.log.db s'.log.db)
    (hpre : s.log.tree.hashes <+: s'.log.tree.hashes) (hissued : s'.issued = s.issued) :
    HeadsKept heads s' := by
  constructor
  · rw [hsame.latestSTH, hissued]
    exact hkept.latest
  · intro size
    rw [hsame.sthAt, hissued]
    exact hkept.history size
  · intro h hh
    rw [hissued] at hh
    obtain ⟨root, hroot, heq⟩ := hkept.roots h hh
    exact ⟨root, Tree.rootAt_of_prefix hpre hroot, heq⟩
  · rw [hissued]
    exact hkept.sorted

theorem lastOfSize_concat (issued : List STH) (sth : STH) (size : UInt64) :
    lastOfSize (issued ++ [sth]) size
      = if size = sth.treeSize then some sth else lastOfSize issued size := by
  unfold lastOfSize
  rw [List.filter_append]
  by_cases hsize : size = sth.treeSize
  · simp [hsize]
  · simp [hsize, Ne.symm hsize]

/-- Issuing a head at the size and root of the handle keeps the invariant. -/
theorem HeadsKept.concat (hkept : HeadsKept heads s) {sth : STH} {db : Db}
    (hsize : sth.treeSize = s.log.tree.treeSize) (hroot : sth.rootHash = s.log.tree.root.toList)
    (hlatest : latestSTH heads db = some (.ok (some sth)))
    (hhistory : ∀ size, sthAt heads db size
      = if size = sth.treeSize then some (.ok (some sth)) else sthAt heads s.log.db size) :
    HeadsKept heads ⟨⟨s.log.tree, db⟩, s.issued ++ [sth]⟩ := by
  constructor
  case latest =>
    rw [List.getLast?_concat]
    exact hlatest
  case history =>
    intro size
    rw [lastOfSize_concat]
    show sthAt heads db size = _
    rw [hhistory]
    by_cases heq : size = sth.treeSize
    · rw [if_pos heq, if_pos heq]
    · rw [if_neg heq, if_neg heq]
      exact hkept.history size
  case roots =>
    intro h hh
    rcases List.mem_append.mp hh with hold | hnew
    · exact hkept.roots h hold
    · rw [List.mem_singleton] at hnew
      subst hnew
      exact ⟨s.log.tree.root, by rw [hsize]; exact s.log.tree.rootAt_size, hroot⟩
  case sorted =>
    rw [List.pairwise_append]
    refine ⟨hkept.sorted, List.pairwise_singleton _ _, ?_⟩
    -- a head issued before is about at most the leaves of the handle
    intro h hh h' hh'
    rw [List.mem_singleton] at hh'
    subst hh'
    obtain ⟨root, hat, _⟩ := hkept.roots h hh
    rw [hsize, UInt64.le_iff_toNat_le, Tree.toNat_treeSize]
    exact (Tree.rootAt_ok_iff.mp hat).1

/-- **Step lemma**: every step keeps the log in step with its handle and the
    stored heads with those issued, and only adds leaves and heads. -/
theorem serviceSystem_step (hjson : json.RoundTripsPayload) (hheads : heads.RoundTrips)
    (hin : ∃ log, InStep json s.log log) (hkept : HeadsKept heads s) {a : ServiceAction}
    (hstep : (serviceSystem ed json heads).step s a s') :
    ((∃ log, InStep json s'.log log) ∧ HeadsKept heads s')
      ∧ s.log.tree.hashes <+: s'.log.tree.hashes ∧ s.issued <+: s'.issued := by
  obtain ⟨log, hin⟩ := hin
  cases a with
  | log a =>
    obtain ⟨hlog, hissued⟩ := hstep
    obtain ⟨b, hb⟩ := exists_bucket_of_latestSTH hkept.latest
    obtain ⟨h, hh⟩ := exists_bucket_of_sthAt (hkept.history 0)
    have hpre := hashes_prefix_of_steps hjson hin ((System.Steps.refl s.log).tail hlog)
    obtain ⟨log', _, hin'⟩ := inStep_step hjson hin hlog
    have hkept' := hkept.of_grown (sameHeads_of_log_step hin hb hh hlog) hpre hissued
    have hsame : s.issued <+: s'.issued := by simp [hissued]
    exact ⟨⟨⟨log', hin'⟩, hkept'⟩, hpre, hsame⟩
  | issue env fault =>
    simp only [serviceSystem] at hstep
    cases hsign : signSTH ed env s.log.tree.treeSize s.log.tree.root with
    | error e =>
      rw [hsign] at hstep
      subst hstep
      exact ⟨⟨⟨log, hin⟩, hkept⟩, List.prefix_refl _, List.prefix_refl _⟩
    | ok sth =>
      rw [hsign] at hstep
      obtain ⟨r, db, hpersist, rfl⟩ := hstep
      obtain ⟨kp, _, hsth⟩ := signSTH_ok_iff.mp hsign
      rcases persistSTH_cases hheads hpersist with ⟨e, rfl, rfl⟩ | ⟨rfl, hframe, hlatest, hhistory⟩
      · exact ⟨⟨⟨log, hin⟩, hkept⟩, List.prefix_refl _, List.prefix_refl _⟩
      · have hleaves := hframe bucketLeaves (by simp [bucketLeaves, bucketSTH])
          (by simp [bucketLeaves, bucketSTHHistory])
        refine ⟨⟨⟨log, hin.of_heads hleaves⟩, ?_⟩, List.prefix_refl _, List.prefix_append _ _⟩
        exact hkept.concat (by rw [hsth]) (by rw [hsth]) hlatest hhistory

/-- **Run lemma**. -/
theorem kept_of_reachable (hjson : json.RoundTripsPayload) (hheads : heads.RoundTrips)
    (hreach : (serviceSystem ed json heads).Reachable s) :
    (∃ log, InStep json s.log log) ∧ HeadsKept heads s := by
  apply hreach.invariant
  · intro s ⟨hopen, hissued⟩
    have hin := inStep_openTree (logged_empty json) hopen
    rcases (logged_empty json).openTree_cases hopen with ⟨_, hfault, _⟩ | ⟨_, _, _, _, hdb⟩
    · contradiction
    · obtain ⟨hlatest, hhistory⟩ := getElem?_bootstrap_heads ∅
      refine ⟨⟨[], hin⟩, ?_, ?_, ?_, ?_⟩
      · rw [latestSTH, hdb, hlatest, hissued]
        simp [readSTH]
      · intro size
        rw [sthAt, hdb, hhistory, hissued]
        simp [readSTH, lastOfSize]
      · simp [hissued]
      · simp [hissued]
  · intro s a s' hinv hstep
    exact (serviceSystem_step hjson hheads hinv.1 hinv.2 hstep).1

/-- **Heads are kept**: in every run the two reads find the heads issued so far, the
    list of these only grows, and each root stays the answer about its size. -/
theorem heads_kept (hjson : json.RoundTripsPayload) (hheads : heads.RoundTrips)
    (hreach : (serviceSystem ed json heads).Reachable s)
    (hrun : (serviceSystem ed json heads).Steps s s') :
    HeadsKept heads s' ∧ s.issued <+: s'.issued
      ∧ ∀ k root, s.log.tree.rootAt k = .ok root → s'.log.tree.rootAt k = .ok root := by
  have hinv := kept_of_reachable hjson hheads hreach
  have hgrown : s.log.tree.hashes <+: s'.log.tree.hashes ∧ s.issued <+: s'.issued := by
    refine System.Steps.preserve
      (P := fun s => (∃ log, InStep json s.log log) ∧ HeadsKept heads s)
      (R := fun s s' => s.log.tree.hashes <+: s'.log.tree.hashes ∧ s.issued <+: s'.issued)
      ?_ ?_ ?_ ?_ hinv hrun
    · intro s a s' hinv hstep
      exact (serviceSystem_step hjson hheads hinv.1 hinv.2 hstep).1
    · exact fun s => ⟨List.prefix_refl _, List.prefix_refl _⟩
    · exact fun s t u hst htu => ⟨hst.1.trans htu.1, hst.2.trans htu.2⟩
    · intro s a s' hinv hstep
      exact (serviceSystem_step hjson hheads hinv.1 hinv.2 hstep).2
  have hreach' : (serviceSystem ed json heads).Reachable s' := by
    obtain ⟨s₀, hinit, hrun₀⟩ := hreach
    exact ⟨s₀, hinit, hrun₀.trans hrun⟩
  exact ⟨(kept_of_reachable hjson hheads hreach').2, hgrown.2,
    fun k root hroot => Tree.rootAt_of_prefix hgrown.1 hroot⟩

/-! ## Two heads -/

def firstSignature : Bytes := Bytes.bigEndian 64
  0x6303e424ce8914dab32b047beeca7bc051af6a24a9d58a4d84290b428ca6bed4c0f5efb8af54cfc885aa33c515f0b5e1144280bef5a5d619b43d22e45c3fcf00

def secondSignature : Bytes := Bytes.bigEndian 64
  0x45eea8c3d2491a4fda06ddfd084673fb00f2ceb6056e4f3607e0a540846b3ae2302892e1c24731f56202916361f8ef335af8364e0c8d71bafdb9284d4cd34f0d

/-- The root over the leaves `01` and `02`. -/
def secondRoot : RootHash := merkleTreeHash [hashLeaf [1], hashLeaf [2]]

def firstHead : STH := ⟨1, (hashLeaf [1]).toList, signTime, firstSignature, "log-key"⟩

def secondHead : STH := ⟨2, secondRoot.toList, signTime, secondSignature, "log-key"⟩

def headTable : List ((Bytes × Bytes) × Bytes) :=
  [((logPrivate.drop 32, canonicalSTHBytes 1 (hashLeaf [1]) signTime), firstSignature),
    ((logPrivate.drop 32, canonicalSTHBytes 2 secondRoot signTime), secondSignature)]

/-- Ed25519 on these two heads. -/
def headsScheme : SignatureScheme := .knownSized headTable

def firstRaw : Bytes := Bytes.ascii
  "\x7b\"tree_size\":1,\"root_hash\":\"tBP0fRPuL+bIRbLuFBr4HehY307FSaWLeXC7lmRbyNI=\",\"timestamp\":\"1970-01-01T01:00:00Z\",\"signature\":\"YwPkJM6JFNqzKwR77sp7wFGvaiSp1YpNhCkLQoymvtTA9e+4r1TPyIWqM8UV8LXhFEKAvvWl1hm0PSLkXD/PAA==\",\"signer_key_id\":\"log-key\"\x7d"

def secondRaw : Bytes := Bytes.ascii
  "\x7b\"tree_size\":2,\"root_hash\":\"a88OLpPgoY4ieJrull5lU/T76T8Kz8SnBdaRyDEcSWU=\",\"timestamp\":\"1970-01-01T01:00:00Z\",\"signature\":\"Re6ow9JJGk/aBt39CEZz+wDyzrYFbk82B+ClQIRrOuIwKJLhwkcx9WICkWNh+O8zWvg2TgyNcbr9uShNTNNPDQ==\",\"signer_key_id\":\"log-key\"\x7d"

/-- `encoding/json` on these two heads. -/
def headsJson : STHJson where
  marshal := fun sth =>
    if sth = firstHead then .ok firstRaw
    else if sth = secondHead then .ok secondRaw
    else .error "unsupported"
  unmarshal := fun raw =>
    if raw = firstRaw then .ok firstHead
    else if raw = secondRaw then .ok secondHead
    else .error "unsupported"

set_option maxRecDepth 4000 in
theorem secondRaw_ne : secondRaw ≠ firstRaw := by
  -- the characters of the two literals, which the kernel compares faster
  have hfirst : firstRaw = _ := Bytes.ascii_ofList _
  have hsecond : secondRaw = _ := Bytes.ascii_ofList _
  rw [hfirst, hsecond]
  decide +kernel

theorem secondHead_ne : secondHead ≠ firstHead := by
  intro heq
  have hsize := congrArg STH.treeSize heq
  contradiction

theorem headsJson_roundTrips : headsJson.RoundTrips := by
  intro sth raw hmarshal
  simp only [headsJson] at hmarshal ⊢
  split at hmarshal
  · next hfirst =>
    rw [if_pos (Except.ok.inj hmarshal).symm, hfirst]
  · split at hmarshal
    · next hsecond =>
      rw [← Except.ok.inj hmarshal, if_neg secondRaw_ne, if_pos rfl, hsecond]
    · contradiction

def headEnv : Env := quietEnv signTime [logKey] "" []

theorem headsScheme_sign {size : UInt64} {root : RootHash} {sig : Bytes}
    (hlookup : headTable.lookup (logPrivate.drop 32, canonicalSTHBytes size root signTime) = some sig) :
    signSTH headsScheme headEnv size root = .ok ⟨size, root.toList, signTime, sig, "log-key"⟩ := by
  rw [signSTH_ok_iff]
  refine ⟨logKey, rfl, ?_⟩
  have hsign : headsScheme.sign logPrivate (canonicalSTHBytes size root signTime) = sig := by
    show (headTable.lookup (logPrivate.drop 32, canonicalSTHBytes size root signTime)).getD _ = sig
    rw [hlookup]
    rfl
  show _ = (⟨size, root.toList, signTime,
    headsScheme.sign logPrivate (canonicalSTHBytes size root signTime), "log-key"⟩ : STH)
  rw [hsign]

theorem signSTH_first (t : Tree) (hhashes : t.hashes = [hashLeaf [1]]) :
    signSTH headsScheme headEnv t.treeSize t.root = .ok firstHead := by
  have hroot : t.root = hashLeaf [1] := by
    rw [t.root_eq, hhashes]
    simp [merkleTreeHash]
  have hsize : t.treeSize = 1 := by
    rw [Tree.treeSize, Tree.size, hhashes]
    rfl
  rw [hroot, hsize]
  exact headsScheme_sign List.lookup_cons_self

theorem signSTH_second (t : Tree) (hhashes : t.hashes = [hashLeaf [1], hashLeaf [2]]) :
    signSTH headsScheme headEnv t.treeSize t.root = .ok secondHead := by
  have hroot : t.root = secondRoot := by
    rw [t.root_eq, hhashes, secondRoot]
  have hsize : t.treeSize = 2 := by
    rw [Tree.treeSize, Tree.size, hhashes]
    rfl
  have hne : ((logPrivate.drop 32, canonicalSTHBytes 2 secondRoot signTime)
      == (logPrivate.drop 32, canonicalSTHBytes 1 (hashLeaf [1]) signTime)) = false := by
    rw [beq_eq_false_iff_ne]
    intro heq
    have htwo := (canonicalSTHBytes_inj.mp (Prod.mk.inj heq).2).1
    contradiction
  rw [hroot, hsize]
  apply headsScheme_sign
  rw [headTable, List.lookup_cons, hne]
  exact List.lookup_cons_self

/-- Without a fault, a head that is signed and marshals is issued. -/
theorem exists_issued (hjson : json.RoundTripsPayload) (hheads : heads.RoundTrips)
    (hreach : (serviceSystem ed json heads).Reachable s) {env : Env} {sth : STH} {raw : Bytes}
    (hsign : signSTH ed env s.log.tree.treeSize s.log.tree.root = .ok sth)
    (hmarshal : heads.marshal sth = .ok raw) :
    ∃ db, (serviceSystem ed json heads).Reachable ⟨⟨s.log.tree, db⟩, s.issued ++ [sth]⟩ := by
  have hkept := (kept_of_reachable hjson hheads hreach).2
  obtain ⟨latest, hlatest⟩ := exists_bucket_of_latestSTH hkept.latest
  obtain ⟨history, hhistory⟩ := exists_bucket_of_sthAt (hkept.history 0)
  have hpersist : ∃ db, persistSTH heads none sth s.log.db = some (.ok (), db) := by
    simp only [persistSTH, hmarshal, hlatest, hhistory, update]
    exact ⟨_, rfl⟩
  obtain ⟨db, hpersist⟩ := hpersist
  refine ⟨db, hreach.tail (l := .issue env none) ?_⟩
  simp only [serviceSystem, hsign]
  exact ⟨.ok (), db, hpersist, rfl⟩

/-- Without a fault and with room, a leaf that marshals is appended. -/
theorem exists_appended (hjson : json.RoundTripsPayload) (hheads : heads.RoundTrips)
    (hreach : (serviceSystem ed json heads).Reachable s) {leaf : Leaf} {raw : Bytes}
    (hmarshal : json.marshal leaf = .ok raw)
    (hroom : (s.log.tree.hashes ++ [hashLeaf leaf.payload]).length < 2 ^ 63) :
    ∃ db, (serviceSystem ed json heads).Reachable
      ⟨⟨⟨s.log.tree.hashes ++ [hashLeaf leaf.payload], hroom⟩, db⟩, s.issued⟩ := by
  obtain ⟨⟨log, hin⟩, _⟩ := kept_of_reachable hjson hheads hreach
  have happ := Tree.append_of_marshal hin.bucket hmarshal hroom
  exact ⟨_, hreach.tail (l := .log (.append leaf none)) ⟨⟨.ok s.log.tree.size, happ⟩, rfl⟩⟩

/-- Two leaves, with a head issued after each. -/
theorem exists_twoHeads : ∃ db,
    (serviceSystem headsScheme backupJson headsJson).Reachable ⟨⟨twoLeaves, db⟩, [firstHead, secondHead]⟩ := by
  have hinit : (serviceSystem headsScheme backupJson headsJson).init
      ⟨⟨⟨[], Tree.length_nil_lt⟩, bootstrap ∅⟩, []⟩ :=
    ⟨(logged_empty backupJson).openTree_none, rfl⟩
  obtain ⟨db, h1⟩ := exists_appended backupJson_roundTrips headsJson_roundTrips
    (System.Reachable.init hinit) (backupJson_marshal (Or.inl rfl)) (by simp)
  obtain ⟨db, h2⟩ := exists_issued backupJson_roundTrips headsJson_roundTrips h1
    (signSTH_first _ rfl) (show headsJson.marshal firstHead = .ok firstRaw by simp [headsJson])
  obtain ⟨db, h3⟩ := exists_appended backupJson_roundTrips headsJson_roundTrips h2
    (backupJson_marshal (Or.inr rfl)) (by simp)
  obtain ⟨db, h4⟩ := exists_issued backupJson_roundTrips headsJson_roundTrips h3
    (signSTH_second _ rfl)
    (show headsJson.marshal secondHead = .ok secondRaw by simp [headsJson, secondHead_ne])
  exact ⟨db, h4⟩

theorem heads_kept_two : ∃ s s' : ServiceState, s.issued = [] ∧ s'.issued = [firstHead, secondHead]
    ∧ HeadsKept headsJson s' ∧ s.issued <+: s'.issued
    ∧ ∀ k root, s.log.tree.rootAt k = .ok root → s'.log.tree.rootAt k = .ok root := by
  obtain ⟨db, s, hinit, hrun⟩ := exists_twoHeads
  exact ⟨s, _, hinit.2, rfl, heads_kept backupJson_roundTrips headsJson_roundTrips
    (System.Reachable.init hinit) hrun⟩

end Owasaka.Transparency
