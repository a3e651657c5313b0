import Owasaka.Foundation.Bolt
import Owasaka.Foundation.Json
import Owasaka.Foundation.System
import Owasaka.Transparency.Consistency

/-! # The append-only tree (`tree.go`)

    A `Tree` is a handle on the database with a private cache of leaf hashes.
    `Open` creates the buckets and rebuilds the cache from the leaves bucket;
    `Append` writes under the index that the cache's length gives.

    The database is shared, so every operation takes it and returns it.  An
    outcome `none` is a panic of the Go runtime: the process stops and there is
    no later state.

    ## Abstract view

    The leaves bucket stands for a list of leaves (`Logged`), and the cache of
    an up-to-date handle for their hashes. -/

namespace Owasaka.Transparency

open Bolt

/-! ## Section 1: Data -/

def bucketLeaves : String := "transparency.leaves"
def bucketNodes : String := "transparency.nodes"
def bucketSTH : String := "transparency.sth"
def bucketSTHHistory : String := "transparency.sth.history"

/-- `LeafKind` is a Go string: any bytes. -/
abbrev LeafKind : Type := Bytes

structure Leaf where
  kind : LeafKind
  /-- Nanoseconds since the Unix epoch. -/
  timestamp : Int
  payload : Bytes
  deriving DecidableEq

/-- The errors of the tree; `cause` is the text of a wrapped error. -/
inductive TreeError where
  | bootstrap (cause : String)
  | leafDecode (cause : String)
  | marshalLeaf (cause : String)
  /-- An error of the write transaction, passed on as it is. -/
  | update (cause : String)
  /-- An error of `json.Unmarshal`, passed on as it is. -/
  | unmarshal (cause : String)
  | treeSizeMismatch
  | leafIndexOutOfRange
  | consistencyRange
  deriving DecidableEq

def TreeError.message : TreeError → String
  | .bootstrap cause => "transparency: bootstrap: " ++ cause
  | .leafDecode cause =>
    "transparency: stored tree state is corrupt: leaf decode: " ++ cause
  | .marshalLeaf cause => "transparency: marshal leaf: " ++ cause
  | .update cause => cause
  | .unmarshal cause => cause
  | .treeSizeMismatch => "transparency: requested tree size larger than current"
  | .leafIndexOutOfRange => "transparency: leaf index out of range"
  | .consistencyRange =>
    "transparency: first must be ≤ second and both must be ≤ current size"

/-- `encoding/json` at the type `Leaf`. -/
structure LeafJson where
  marshal : Leaf → Except String Bytes
  unmarshal : Bytes → Except String Leaf

/-- What is marshalled reads back with the same payload bytes. -/
def LeafJson.RoundTripsPayload (json : LeafJson) : Prop :=
  ∀ leaf raw, json.marshal leaf = .ok raw →
    ∃ leaf', json.unmarshal raw = .ok leaf' ∧ leaf'.payload = leaf.payload

/-- A handle.  `hashes` is a Go slice: its length is an `int`. -/
structure Tree where
  hashes : List RootHash
  length_lt : hashes.length < 2 ^ 63

theorem Tree.length_nil_lt : ([] : List RootHash).length < 2 ^ 63 := by simp

/-- Big-endian 8 bytes. -/
def encodeIndex (idx : Nat) : Bytes := Bytes.bigEndian 8 idx

/-! ## Section 2: Operations -/

def bootstrap (db : Db) : Db :=
  [bucketLeaves, bucketNodes, bucketSTH, bucketSTHHistory].foldl
    (fun db b => createBucketIfNotExists b db) db

/-- The function passed to `ForEach`, over the entries in key order. -/
def rehydrateLoop (json : LeafJson) (hashes : List RootHash) :
    List (Bytes × Bytes) → Except TreeError (List RootHash)
  | [] => .ok hashes
  | (_, v) :: rest =>
    match json.unmarshal v with
    | .error e => .error (.leafDecode e)
    | .ok leaf => rehydrateLoop json (hashes ++ [hashLeaf leaf.payload]) rest

def rehydrate (json : LeafJson) (db : Db) : Option (Except TreeError Tree) :=
  match db[bucketLeaves]? with
  | none => none -- `ForEach` on a nil bucket
  | some b =>
    match rehydrateLoop json [] b.toList with
    | .error e => some (.error e)
    | .ok hashes => if h : hashes.length < 2 ^ 63 then some (.ok ⟨hashes, h⟩) else none

/-- `Open`.  `fault` is the error of the bootstrap transaction, if it fails. -/
def openTree (json : LeafJson) (fault : Option String) (db : Db) :
    Option (Except TreeError Tree × Db) :=
  match update fault (fun db => .ok ((), bootstrap db)) db with
  | (.error e, db') => some (.error (.bootstrap e), db')
  | (.ok _, db') => (rehydrate json db').map fun t => (t, db')

namespace Tree

/-- `Append`.  `fault` is the error of the write transaction, if it fails. -/
def append (json : LeafJson) (fault : Option String) (leaf : Leaf) (t : Tree) (db : Db) :
    Option (Except TreeError Nat × Tree × Db) :=
  let idx := t.hashes.length
  let key := encodeIndex idx
  match json.marshal leaf with
  | .error e => some (.error (.marshalLeaf e), t, db)
  | .ok payload =>
    match db[bucketLeaves]? with
    | none => none -- `Put` on a nil bucket
    | some b =>
      match update fault (fun db => .ok ((), db.insert bucketLeaves (b.insert key payload))) db with
      | (.error e, db') => some (.error (.update e), t, db')
      | (.ok _, db') =>
        -- a slice that cannot grow stops the process
        if h : (t.hashes ++ [hashLeaf leaf.payload]).length < 2 ^ 63 then
          some (.ok idx, ⟨t.hashes ++ [hashLeaf leaf.payload], h⟩, db')
        else none

def size (t : Tree) : Nat := t.hashes.length

def root (t : Tree) : RootHash :=
  if t.hashes.length = 0 then emptyRoot else merkleTreeHash t.hashes

def rootAt (t : Tree) (size : Nat) : Except TreeError RootHash :=
  if size > t.hashes.length then .error .treeSizeMismatch
  else if size = 0 then .ok emptyRoot
  else .ok (merkleTreeHash (t.hashes.take size))

def leafAt (json : LeafJson) (t : Tree) (db : Db) (idx : Nat) : Option (Except TreeError Leaf) :=
  if idx ≥ t.hashes.length then some (.error .leafIndexOutOfRange)
  else
    match db[bucketLeaves]? with
    | none => none -- `Get` on a nil bucket
    | some b =>
      match b[encodeIndex idx]? with
      | none => some (.error .leafIndexOutOfRange)
      | some raw =>
        match json.unmarshal raw with
        | .error e => some (.error (.unmarshal e))
        | .ok out => some (.ok out)

def inclusionProof (t : Tree) (m n : Nat) : Except TreeError (Option Proof) :=
  if n > t.hashes.length then .error .treeSizeMismatch
  else if m ≥ n then .error .leafIndexOutOfRange
  else .ok (Transparency.inclusionProof m (t.hashes.take n))

def consistencyProof (t : Tree) (first second : Nat) : Except TreeError (Option Proof) :=
  if second > t.hashes.length ∨ first > second ∨ first = 0 then .error .consistencyRange
  else .ok (Transparency.consistencyProof first second (t.hashes.take second))

/-- `AppendBytes`; `now` is the clock. -/
def appendBytes (json : LeafJson) (fault : Option String) (now : Int) (kind payload : Bytes)
    (timestamp : Int) (t : Tree) (db : Db) : Option (Except TreeError Unit × Tree × Db) :=
  let timestamp := if timestamp = zeroTime then now else timestamp
  (append json fault ⟨kind, timestamp, payload⟩ t db).map fun r => (r.1.map fun _ => (), r.2)

end Tree

/-! ## Section 3: The leaves bucket as a list -/

/-- The leaves bucket; a missing one reads as empty. -/
def leavesBucket (db : Db) : Bucket := db[bucketLeaves]?.getD ∅

theorem leavesBucket_insert (db : Db) (b : Bucket) :
    leavesBucket (db.insert bucketLeaves b) = b := by
  unfold leavesBucket
  simp

/-- The entries that hold the given values under the indices `0, 1, ...`. -/
def leafTable (raws : List Bytes) : List (Bytes × Bytes) :=
  raws.mapIdx fun i raw => (encodeIndex i, raw)

/-- The leaves bucket holds the values of `log` under the indices `0, 1, ...`,
    and each value decodes to the leaf beside it. -/
structure Logged (json : LeafJson) (db : Db) (log : List (Bytes × Leaf)) : Prop where
  table : (leavesBucket db).toList = leafTable (log.map Prod.fst)
  decodes : ∀ p ∈ log, json.unmarshal p.1 = .ok p.2
  length_lt : log.length < 2 ^ 63

/-- The leaf hashes of a log. -/
def logHashes (log : List (Bytes × Leaf)) : List RootHash := log.map fun p => hashLeaf p.2.payload

variable {json : LeafJson} {db : Db} {log : List (Bytes × Leaf)}

theorem compare_encodeIndex {i j : Nat} (hij : i < j) (hj : j < 2 ^ 63) :
    compare (encodeIndex i) (encodeIndex j) = .lt :=
  Bytes.compare_bigEndian_of_lt 8 i j hij (by omega)

theorem leafTable_concat (raws : List Bytes) (raw : Bytes) :
    leafTable (raws ++ [raw]) = leafTable raws ++ [(encodeIndex raws.length, raw)] := by
  simp [leafTable, List.mapIdx_append]

theorem map_fst_leafTable (raws : List Bytes) :
    (leafTable raws).map Prod.fst = (List.range raws.length).map encodeIndex := by
  apply List.ext_getElem?
  intro i
  by_cases hi : i < raws.length
  · simp [leafTable, hi]
  · simp [leafTable, Nat.not_lt.mp hi]

theorem Logged.keys (hlog : Logged json db log) :
    (leavesBucket db).keys = (List.range log.length).map encodeIndex := by
  rw [← Std.ExtTreeMap.map_fst_toList_eq_keys, hlog.table, map_fst_leafTable, List.length_map]

/-- The value under an index of the log. -/
theorem Logged.getElem? (hlog : Logged json db log) {i : Nat} {p : Bytes × Leaf}
    (hp : log[i]? = some p) : (leavesBucket db)[encodeIndex i]? = some p.1 := by
  rw [← Std.ExtTreeMap.mem_toList_iff_getElem?_eq_some, hlog.table]
  apply List.mem_of_getElem? (i := i)
  simp [leafTable, hp]

/-- The next index is above all keys of the bucket. -/
theorem Logged.keys_lt (hlog : Logged json db log) :
    ∀ k ∈ (leavesBucket db).keys, compare k (encodeIndex log.length) = .lt := by
  intro k hk
  rw [hlog.keys, List.mem_map] at hk
  obtain ⟨i, hi, rfl⟩ := hk
  exact compare_encodeIndex (List.mem_range.mp hi) hlog.length_lt

/-- A log with a leaf has its bucket. -/
theorem Logged.bucket (hlog : Logged json db log) (hne : log ≠ []) :
    db[bucketLeaves]? = some (leavesBucket db) := by
  have htable := hlog.table
  unfold leavesBucket at htable ⊢
  cases hb : db[bucketLeaves]? with
  | some b => rfl
  | none =>
    -- a missing bucket reads as empty, but the log is not
    rw [hb] at htable
    cases log with
    | nil => exact absurd rfl hne
    | cons p rest =>
      have hempty : (∅ : Bucket).toList = [] := rfl
      simp [hempty, leafTable] at htable

/-- Writing a value under the next index adds it at the end of the log. -/
theorem Logged.concat (hlog : Logged json db log) {raw : Bytes} {leaf : Leaf}
    (hdec : json.unmarshal raw = .ok leaf) (hlen : log.length + 1 < 2 ^ 63) :
    Logged json
      (db.insert bucketLeaves ((leavesBucket db).insert (encodeIndex log.length) raw))
      (log ++ [(raw, leaf)]) where
  table := by
    -- the encoding keeps the order, so the new key comes last in the iteration
    rw [leavesBucket_insert, toList_insert_of_forall_lt hlog.keys_lt, hlog.table, List.map_append,
      List.map_singleton, leafTable_concat, List.length_map]
  decodes := by
    intro p hp
    rcases List.mem_append.mp hp with hold | hnew
    · exact hlog.decodes p hold
    · rw [List.mem_singleton] at hnew
      subst hnew
      exact hdec
  length_lt := by simpa using hlen

/-! ## Section 4: What the operations do -/

theorem getElem?_bootstrap (db : Db) :
    (bootstrap db)[bucketLeaves]? = some (leavesBucket db) := by
  simp [bootstrap, getElem?_createBucketIfNotExists, leavesBucket, bucketLeaves, bucketNodes,
    bucketSTH, bucketSTHHistory]

theorem leavesBucket_bootstrap (db : Db) : leavesBucket (bootstrap db) = leavesBucket db := by
  rw [leavesBucket, getElem?_bootstrap]
  rfl

/-- The loop collects the hashes of the decoded leaves, in order. -/
theorem rehydrateLoop_ok : ∀ (entries : List (Bytes × Bytes)) (log : List (Bytes × Leaf))
    (hashes : List RootHash), entries.map Prod.snd = log.map Prod.fst →
    (∀ p ∈ log, json.unmarshal p.1 = .ok p.2) →
    rehydrateLoop json hashes entries = .ok (hashes ++ logHashes log) := by
  intro entries
  induction entries with
  | nil =>
    intro log hashes hmap _
    have hnil : log = [] := by simpa using hmap.symm
    subst hnil
    simp [rehydrateLoop, logHashes]
  | cons kv rest ih =>
    intro log hashes hmap hdec
    obtain ⟨k, v⟩ := kv
    cases log with
    | nil => simp at hmap
    | cons p log =>
      simp only [List.map_cons, List.cons.injEq] at hmap
      obtain ⟨rfl, hmap⟩ := hmap
      unfold rehydrateLoop
      rw [hdec p (by simp)]
      simp only
      rw [ih log _ hmap fun q hq => hdec q (by simp [hq])]
      simp [logHashes]

theorem map_snd_leafTable (raws : List Bytes) : (leafTable raws).map Prod.snd = raws := by
  apply List.ext_getElem?
  intro i
  cases h : raws[i]? <;> simp [leafTable, h]

/-- Rebuilding the cache reads the whole log. -/
theorem Logged.rehydrate (hlog : Logged json db log) (hmem : db[bucketLeaves]? = some (leavesBucket db)) :
    rehydrate json db = some (.ok ⟨logHashes log, by simpa [logHashes] using hlog.length_lt⟩) := by
  have hloop : rehydrateLoop json [] (leavesBucket db).toList = .ok (logHashes log) := by
    apply rehydrateLoop_ok _ log []
    · rw [hlog.table, map_snd_leafTable]
    · exact hlog.decodes
  have hlen : (logHashes log).length < 2 ^ 63 := by simpa [logHashes] using hlog.length_lt
  unfold Transparency.rehydrate
  simp only [hmem, hloop]
  exact dif_pos hlen

theorem Logged.bootstrap (hlog : Logged json db log) : Logged json (bootstrap db) log where
  table := by rw [leavesBucket_bootstrap]; exact hlog.table
  decodes := hlog.decodes
  length_lt := hlog.length_lt

/-- Without a fault, `Open` returns the handle whose cache is the log's hashes. -/
theorem Logged.openTree_none (hlog : Logged json db log) :
    openTree json none db = some (.ok ⟨logHashes log, by simpa [logHashes] using hlog.length_lt⟩,
      Transparency.bootstrap db) := by
  have hre := hlog.bootstrap.rehydrate (by rw [getElem?_bootstrap, leavesBucket_bootstrap])
  unfold openTree update
  simp [hre]

/-- `Open` either fails in its transaction and changes nothing, or returns the
    handle whose cache is the log's hashes. -/
theorem Logged.openTree_cases (hlog : Logged json db log) {fault : Option String}
    {r : Except TreeError Tree} {db' : Db} (hopen : openTree json fault db = some (r, db')) :
    (∃ e, fault = some e ∧ r = .error (.bootstrap e) ∧ db' = db)
      ∨ ∃ t, fault = none ∧ r = .ok t ∧ t.hashes = logHashes log
          ∧ db' = Transparency.bootstrap db := by
  cases fault with
  | some e =>
    unfold openTree update at hopen
    simp only [Option.some.injEq, Prod.mk.injEq] at hopen
    exact Or.inl ⟨e, rfl, hopen.1.symm, hopen.2.symm⟩
  | none =>
    rw [hlog.openTree_none] at hopen
    simp only [Option.some.injEq, Prod.mk.injEq] at hopen
    exact Or.inr ⟨_, rfl, hopen.1.symm, rfl, hopen.2.symm⟩

/-- `Append` either fails and changes nothing, or writes the marshalled leaf
    under the cache's length and adds its hash to the cache. -/
theorem Tree.append_cases {fault : Option String} {leaf : Leaf} {t t' : Tree} {db' : Db}
    {r : Except TreeError Nat} (happ : t.append json fault leaf db = some (r, t', db')) :
    (∃ e, (fault = none → ∀ raw, json.marshal leaf ≠ .ok raw) ∧ r = .error e ∧ t' = t ∧ db' = db)
      ∨ ∃ raw, fault = none ∧ json.marshal leaf = .ok raw ∧ r = .ok t.size
          ∧ t'.hashes = t.hashes ++ [hashLeaf leaf.payload]
          ∧ db' = db.insert bucketLeaves ((leavesBucket db).insert (encodeIndex t.size) raw) := by
  unfold append update at happ
  cases hmarshal : json.marshal leaf with
  | error e =>
    simp only [hmarshal, Option.some.injEq, Prod.mk.injEq] at happ
    exact Or.inl ⟨_, by simp, happ.1.symm, happ.2.1.symm, happ.2.2.symm⟩
  | ok raw =>
    cases hb : db[bucketLeaves]? with
    -- the panic has no result
    | none => simp [hmarshal, hb] at happ
    | some b =>
      have hleaves : leavesBucket db = b := by simp [leavesBucket, hb]
      cases fault with
      | some e =>
        simp only [hmarshal, hb, Option.some.injEq, Prod.mk.injEq] at happ
        exact Or.inl ⟨_, by simp, happ.1.symm, happ.2.1.symm, happ.2.2.symm⟩
      | none =>
        simp only [hmarshal, hb] at happ
        -- the slice grew, or the process stopped
        split at happ
        · simp only [Option.some.injEq, Prod.mk.injEq] at happ
          obtain ⟨rfl, rfl, rfl⟩ := happ
          exact Or.inr ⟨raw, rfl, rfl, rfl, rfl, by rw [hleaves]; rfl⟩
        · contradiction

/-- A cache with one more hash still fits. -/
theorem Tree.size_succ_lt {t t' : Tree} {a : RootHash} (hhashes : t'.hashes = t.hashes ++ [a]) :
    t.size + 1 < 2 ^ 63 := by
  have hlt := t'.length_lt
  rw [hhashes, List.length_append, List.length_singleton] at hlt
  exact hlt

/-- Without a fault and with room in the cache, a leaf that marshals is appended. -/
theorem Tree.append_of_marshal {t : Tree} {leaf : Leaf} {raw : Bytes}
    (hbucket : db[bucketLeaves]? = some (leavesBucket db)) (hmarshal : json.marshal leaf = .ok raw)
    (hroom : (t.hashes ++ [hashLeaf leaf.payload]).length < 2 ^ 63) :
    t.append json none leaf db = some (.ok t.size, ⟨t.hashes ++ [hashLeaf leaf.payload], hroom⟩,
      db.insert bucketLeaves ((leavesBucket db).insert (encodeIndex t.size) raw)) := by
  unfold append update
  simp only [hmarshal, hbucket]
  rw [dif_pos hroom]
  rfl

theorem Tree.appendBytes_of_append {fault : Option String} {t t' : Tree} {db' : Db} {idx : Nat}
    {now : Int} (leaf : Leaf) (htime : leaf.timestamp ≠ zeroTime)
    (happ : t.append json fault leaf db = some (.ok idx, t', db')) :
    t.appendBytes json fault now leaf.kind leaf.payload leaf.timestamp db = some (.ok (), t', db') := by
  rw [appendBytes, if_neg htime, happ]
  rfl

/-- A handle that covers an index of the log reads the leaf logged there. -/
theorem Logged.leafAt (hlog : Logged json db log) {t : Tree} {i : Nat} {p : Bytes × Leaf}
    (hi : i < t.size) (hp : log[i]? = some p) : t.leafAt json db i = some (.ok p.2) := by
  have hne : log ≠ [] := by
    rintro rfl
    simp at hp
  have hmem : p ∈ log := List.mem_of_getElem? hp
  unfold Tree.leafAt
  rw [if_neg (Nat.not_le.mpr (show i < t.hashes.length from hi))]
  simp [hlog.bucket hne, hlog.getElem? hp, hlog.decodes p hmem]

end Owasaka.Transparency
