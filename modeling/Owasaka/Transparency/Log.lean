import Owasaka.Transparency.Tree

/-! # Runs of one tree handle

    A run opens an empty database, appends leaves and re-opens, with the new
    handle in place of the old one; each transaction may fail.  The database
    and the cache stay in step (`InStep`): both are views of one list of
    leaves, which only grows at its end. -/

namespace Owasaka.Transparency

open Bolt

/-- The handle in use and the database it is attached to. -/
structure LogState where
  tree : Tree
  db : Db

/-- `fault` is the error of the call's transaction, if it fails. -/
inductive LogAction where
  | append (leaf : Leaf) (fault : Option String)
  | reopen (fault : Option String)

def logSystem (json : LeafJson) : System LogState LogAction where
  init := fun s => openTree json none ∅ = some (.ok s.tree, s.db)
  step := fun s l s' =>
    match l with
    | .append leaf fault =>
      ∃ r, s.tree.append json fault leaf s.db = some (r, s'.tree, s'.db)
    | .reopen fault =>
      openTree json fault s.db = some (.ok s'.tree, s'.db)
        -- a failed `Open` returns no handle: the old one stays
        ∨ (s'.tree = s.tree ∧ ∃ e, openTree json fault s.db = some (.error e, s'.db))

/-! ## Section 1: The invariant -/

/-- Bucket and cache are views of the list `log`. -/
structure InStep (json : LeafJson) (s : LogState) (log : List (Bytes × Leaf)) : Prop where
  logged : Logged json s.db log
  bucket : s.db[bucketLeaves]? = some (leavesBucket s.db)
  cache : s.tree.hashes = logHashes log

variable {json : LeafJson} {s s' : LogState} {log : List (Bytes × Leaf)}

theorem InStep.size_eq (hin : InStep json s log) : s.tree.size = log.length := by
  rw [Tree.size, hin.cache, logHashes, List.length_map]

theorem logged_empty (json : LeafJson) : Logged json ∅ [] where
  table := rfl
  decodes := by simp
  length_lt := by simp

theorem bucket_bootstrap (db : Db) :
    (bootstrap db)[bucketLeaves]? = some (leavesBucket (bootstrap db)) := by
  rw [getElem?_bootstrap, leavesBucket_bootstrap]

/-- A successful `Open` puts the new handle in step. -/
theorem inStep_openTree {db db' : Db} {fault : Option String} {t : Tree}
    (hlog : Logged json db log) (hopen : openTree json fault db = some (.ok t, db')) :
    InStep json ⟨t, db'⟩ log := by
  rcases hlog.openTree_cases hopen with ⟨e, _, herr, _⟩ | ⟨t', _, hok, hhashes, rfl⟩
  · contradiction
  · cases hok
    exact ⟨hlog.bootstrap, bucket_bootstrap db, hhashes⟩

/-- A failed `Open` changes nothing. -/
theorem openTree_error {db db' : Db} {fault : Option String} {e : TreeError}
    (hlog : Logged json db log) (hopen : openTree json fault db = some (.error e, db')) :
    db' = db := by
  rcases hlog.openTree_cases hopen with ⟨_, _, _, rfl⟩ | ⟨t', _, hok, _, _⟩
  · rfl
  · contradiction

/-- A successful `Append` of an up-to-date handle adds its leaf at the end. -/
theorem InStep.append (hjson : json.RoundTripsPayload) (hin : InStep json s log) {leaf : Leaf}
    {raw : Bytes} {t : Tree} (hmarshal : json.marshal leaf = .ok raw)
    (hhashes : t.hashes = s.tree.hashes ++ [hashLeaf leaf.payload]) :
    ∃ leaf', leaf'.payload = leaf.payload ∧
      InStep json
        ⟨t, s.db.insert bucketLeaves ((leavesBucket s.db).insert (encodeIndex s.tree.size) raw)⟩
        (log ++ [(raw, leaf')]) := by
  obtain ⟨leaf', hdec, hpayload⟩ := hjson leaf raw hmarshal
  have hlen : log.length + 1 < 2 ^ 63 := by
    rw [← hin.size_eq]
    exact Tree.size_succ_lt hhashes
  refine ⟨leaf', hpayload, ?_, ?_, ?_⟩
  · rw [hin.size_eq]
    exact hin.logged.concat hdec hlen
  · simp [leavesBucket_insert]
  · simp [hhashes, hin.cache, logHashes, hpayload]

/-- **Step lemma**: every step keeps bucket and cache in step and only adds
    leaves at the end of the list. -/
theorem inStep_step (hjson : json.RoundTripsPayload) {l : LogAction}
    (hin : InStep json s log) (hstep : (logSystem json).step s l s') :
    ∃ log', log <+: log' ∧ InStep json s' log' := by
  cases l with
  | append leaf fault =>
    obtain ⟨r, happ⟩ := hstep
    obtain ⟨t', db'⟩ := s'
    rcases Tree.append_cases happ with ⟨e, _, _, rfl, rfl⟩ | ⟨raw, _, hmarshal, _, hhashes, rfl⟩
    · exact ⟨log, List.prefix_refl log, hin⟩
    · obtain ⟨leaf', _, hin'⟩ := hin.append hjson hmarshal hhashes
      exact ⟨_, List.prefix_append log _, hin'⟩
  | reopen fault =>
    -- re-opening reads the list back and adds nothing to it
    refine ⟨log, List.prefix_refl log, ?_⟩
    rcases hstep with hok | ⟨htree, e, herr⟩
    · exact inStep_openTree hin.logged hok
    · have hdb := openTree_error hin.logged herr
      obtain ⟨t', db'⟩ := s'
      subst htree hdb
      exact hin

/-- **Run lemma**: in every reachable state bucket and cache are in step. -/
theorem inStep_of_reachable (hjson : json.RoundTripsPayload)
    (hreach : (logSystem json).Reachable s) : ∃ log, InStep json s log := by
  apply hreach.invariant
  · intro s hinit
    exact ⟨[], inStep_openTree (logged_empty json) hinit⟩
  · intro s l s' ⟨log, hin⟩ hstep
    obtain ⟨log', _, hin'⟩ := inStep_step hjson hin hstep
    exact ⟨log', hin'⟩

/-- The cache only grows at its end. -/
theorem hashes_prefix_of_steps (hjson : json.RoundTripsPayload) (hin : InStep json s log)
    (hrun : (logSystem json).Steps s s') : s.tree.hashes <+: s'.tree.hashes := by
  refine System.Steps.preserve (P := fun s => ∃ log, InStep json s log)
    (R := fun s s' => s.tree.hashes <+: s'.tree.hashes) ?_ ?_ ?_ ?_ ⟨log, hin⟩ hrun
  · intro s l s' ⟨log, hin⟩ hstep
    obtain ⟨log', _, hin'⟩ := inStep_step hjson hin hstep
    exact ⟨log', hin'⟩
  · exact fun s => List.prefix_refl _
  · exact fun s t u hst htu => hst.trans htu
  · intro s l s' ⟨log, hin⟩ hstep
    obtain ⟨log', hpre, hin'⟩ := inStep_step hjson hin hstep
    rw [hin.cache, hin'.cache]
    exact hpre.map _

/-! ## Section 2: Answers about old sizes -/

theorem take_eq_of_prefix {l l' : List RootHash} (hpre : l <+: l') {k : Nat}
    (hk : k ≤ l.length) : l'.take k = l.take k := by
  obtain ⟨m, rfl⟩ := hpre
  exact List.take_append_of_le_length hk

/-- What a handle answers about a size depends on that many hashes only. -/
theorem answers_of_prefix {t t' : Tree} (hpre : t.hashes <+: t'.hashes) {k : Nat}
    (hk : k ≤ t.size) :
    t'.rootAt k = t.rootAt k ∧ (∀ m, t'.inclusionProof m k = t.inclusionProof m k)
      ∧ ∀ j, t'.consistencyProof j k = t.consistencyProof j k := by
  have htake : t'.hashes.take k = t.hashes.take k := take_eq_of_prefix hpre hk
  have hle : ¬ k > t.hashes.length := Nat.not_lt.mpr hk
  have hle' : ¬ k > t'.hashes.length := Nat.not_lt.mpr (Nat.le_trans hk hpre.length_le)
  refine ⟨?_, ?_, ?_⟩
  · simp only [Tree.rootAt, htake, hle, hle']
  · intro m
    simp only [Tree.inclusionProof, htake, hle, hle']
  · intro j
    simp only [Tree.consistencyProof, htake, hle, hle']

/-! ## Section 3: The append-only store -/

/-- What the store promises in a state. -/
structure AppendOnly (json : LeafJson) (s : LogState) : Prop where
  keys : ∃ b, s.db[bucketLeaves]? = some b ∧ b.keys = (List.range s.tree.size).map encodeIndex
  cache : ∀ i < s.tree.size, ∃ leaf, s.tree.leafAt json s.db i = some (.ok leaf)
    ∧ s.tree.hashes[i]? = some (hashLeaf leaf.payload)
  append_ok : ∀ leaf fault idx t db, s.tree.append json fault leaf s.db = some (.ok idx, t, db) →
    idx = s.tree.size ∧ t.hashes = s.tree.hashes ++ [hashLeaf leaf.payload]
      ∧ (∀ i < s.tree.size, t.leafAt json db i = s.tree.leafAt json s.db i)
      ∧ ∃ leaf', t.leafAt json db idx = some (.ok leaf') ∧ leaf'.payload = leaf.payload
  append_error : ∀ leaf fault e t db,
    s.tree.append json fault leaf s.db = some (.error e, t, db) → t = s.tree ∧ db = s.db
  reopen_ok : ∃ db, openTree json none s.db = some (.ok s.tree, db)
    ∧ leavesBucket db = leavesBucket s.db
  reopen_error : ∀ fault e db, openTree json fault s.db = some (.error e, db) → db = s.db
  stable : ∀ s', (logSystem json).Steps s s' → ∀ k ≤ s.tree.size,
    s'.tree.rootAt k = s.tree.rootAt k
      ∧ (∀ m, s'.tree.inclusionProof m k = s.tree.inclusionProof m k)
      ∧ ∀ j, s'.tree.consistencyProof j k = s.tree.consistencyProof j k

theorem InStep.leafAt (hin : InStep json s log) {t : Tree} {i : Nat} (hi : i < log.length)
    (ht : i < t.size) : t.leafAt json s.db i = some (.ok (log[i]).2) :=
  hin.logged.leafAt ht (List.getElem?_eq_getElem hi)

/-- A successful `Open` of the database gives the handle that is there. -/
theorem InStep.reopen (hin : InStep json s log) :
    openTree json none s.db = some (.ok s.tree, bootstrap s.db) := by
  obtain ⟨⟨hashes, hlen⟩, db⟩ := s
  have hcache : hashes = logHashes log := hin.cache
  subst hcache
  exact hin.logged.openTree_none

/-- **Append-only store**: in every state of every run. -/
theorem appendOnly_of_reachable (hjson : json.RoundTripsPayload)
    (hreach : (logSystem json).Reachable s) : AppendOnly json s := by
  obtain ⟨log, hin⟩ := inStep_of_reachable hjson hreach
  have hsize := hin.size_eq
  constructor
  case keys =>
    exact ⟨_, hin.bucket, by rw [hin.logged.keys, hsize]⟩
  case cache =>
    intro i hi
    have hlt : i < log.length := hsize ▸ hi
    exact ⟨_, hin.leafAt hlt hi, by simp [hin.cache, logHashes, hlt]⟩
  case append_ok =>
    intro leaf fault idx t db happ
    rcases Tree.append_cases happ with ⟨e, _, herr, _, _⟩ | ⟨raw, _, hmarshal, hidx, hhashes, rfl⟩
    · contradiction
    · cases hidx
      obtain ⟨leaf', hpayload, hin'⟩ := hin.append hjson hmarshal hhashes
      have htsize : t.size = log.length + 1 := by simpa using hin'.size_eq
      refine ⟨rfl, hhashes, ?_, leaf', ?_, hpayload⟩
      · -- the old indices read from the common part of the two lists
        intro i hi
        have hlt : i < log.length := hsize ▸ hi
        rw [hin.leafAt hlt hi, hin'.leafAt (by simp; omega) (by omega)]
        simp [hlt]
      · rw [hin'.leafAt (by simp; omega) (by omega)]
        simp [hsize]
  case append_error =>
    intro leaf fault e t db happ
    rcases Tree.append_cases happ with ⟨_, _, _, ht, hdb⟩ | ⟨raw, _, _, hok, _, _⟩
    · exact ⟨ht, hdb⟩
    · contradiction
  case reopen_ok => exact ⟨bootstrap s.db, hin.reopen, leavesBucket_bootstrap s.db⟩
  case reopen_error =>
    intro fault e db hopen
    exact openTree_error hin.logged hopen
  case stable =>
    intro s' hrun k hk
    exact answers_of_prefix (hashes_prefix_of_steps hjson hin hrun) hk

/-- Two leaves of kind `backup` at the Unix epoch, with payloads `01` and `02`. -/
def backupLeaf (b : UInt8) : Leaf := ⟨"backup".toUTF8.toList, 0, [b]⟩

def backupText : UInt8 → String
  | 1 => "\x7b\"kind\":\"backup\",\"timestamp\":\"1970-01-01T00:00:00Z\",\"payload\":\"AQ==\"\x7d"
  | _ => "\x7b\"kind\":\"backup\",\"timestamp\":\"1970-01-01T00:00:00Z\",\"payload\":\"Ag==\"\x7d"

def backupRaw (b : UInt8) : Bytes := (backupText b).toUTF8.toList

/-- `encoding/json` on these two leaves. -/
def backupJson : LeafJson where
  marshal := fun leaf =>
    if leaf = backupLeaf 1 then .ok (backupRaw 1)
    else if leaf = backupLeaf 2 then .ok (backupRaw 2)
    else .error "unsupported"
  unmarshal := fun raw =>
    if raw = backupRaw 1 then .ok (backupLeaf 1)
    else if raw = backupRaw 2 then .ok (backupLeaf 2)
    else .error "unsupported"

theorem backupRaw_ne : backupRaw 2 ≠ backupRaw 1 := by decide +kernel

theorem backupJson_roundTrips : backupJson.RoundTripsPayload := by
  intro leaf raw hmarshal
  refine ⟨leaf, ?_, rfl⟩
  simp only [backupJson] at hmarshal ⊢
  split at hmarshal
  · cases hmarshal
    simp [*]
  · split at hmarshal
    · cases hmarshal
      simp [*, backupRaw_ne]
    · contradiction

theorem backupJson_marshal {b : UInt8} (hb : b = 1 ∨ b = 2) :
    backupJson.marshal (backupLeaf b) = .ok (backupRaw b) := by
  rcases hb with rfl | rfl <;> simp [backupJson, backupLeaf]

/-- The database after one append to an empty one. -/
def oneBackup : LogState :=
  ⟨⟨[hashLeaf [1]], by simp⟩, (bootstrap ∅).insert bucketLeaves
    ((leavesBucket (bootstrap ∅)).insert (encodeIndex 0) (backupRaw 1))⟩

theorem oneBackup_reachable : (logSystem backupJson).Reachable oneBackup := by
  have hinit : (logSystem backupJson).init ⟨⟨[], Tree.length_nil_lt⟩, bootstrap ∅⟩ :=
    (logged_empty backupJson).openTree_none
  refine (System.Reachable.init hinit).tail (l := .append (backupLeaf 1) none) ⟨.ok 0, ?_⟩
  exact Tree.append_of_marshal (bucket_bootstrap ∅) (backupJson_marshal (Or.inl rfl)) _

/-- The handle after both leaves. -/
def twoLeaves : Tree := ⟨[hashLeaf [1], hashLeaf [2]], by simp⟩

/-- The database after a second append, by a handle opened anew. -/
def twoBackups : LogState :=
  ⟨twoLeaves, (bootstrap oneBackup.db).insert bucketLeaves
    ((leavesBucket (bootstrap oneBackup.db)).insert (encodeIndex 1) (backupRaw 2))⟩

/-- One append, one that fails, an `Open` and another append. -/
theorem twoBackups_reachable : (logSystem backupJson).Reachable twoBackups := by
  obtain ⟨log, hin⟩ := inStep_of_reachable backupJson_roundTrips oneBackup_reachable
  have hfails : (logSystem backupJson).Reachable oneBackup := by
    refine oneBackup_reachable.tail (l := .append (backupLeaf 2) (some "disk full"))
      ⟨.error (.update "disk full"), ?_⟩
    unfold Tree.append update
    simp only [backupJson_marshal (.inr rfl), hin.bucket]
  have hreopened : (logSystem backupJson).Reachable ⟨oneBackup.tree, bootstrap oneBackup.db⟩ :=
    hfails.tail (l := .reopen none) (.inl hin.reopen)
  refine hreopened.tail (l := .append (backupLeaf 2) none) ⟨.ok 1, ?_⟩
  have hroom : (oneBackup.tree.hashes ++ [hashLeaf (backupLeaf 2).payload]).length < 2 ^ 63 := by
    simp [oneBackup]
  exact Tree.append_of_marshal (bucket_bootstrap oneBackup.db) (backupJson_marshal (.inr rfl)) hroom

theorem appendOnly_twoBackups :
    (logSystem backupJson).Reachable twoBackups ∧ AppendOnly backupJson twoBackups :=
  ⟨twoBackups_reachable, appendOnly_of_reachable backupJson_roundTrips twoBackups_reachable⟩

end Owasaka.Transparency
