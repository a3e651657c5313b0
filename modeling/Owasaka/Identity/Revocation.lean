import Std.Data.ExtTreeSet
import Owasaka.Foundation.Bolt
import Owasaka.Foundation.Json
import Owasaka.Foundation.System

/-! # The revocation denylist (`identity/revocation`)

    Revoked JTIs are kept in one bucket, with a cache of the bucket's keys in
    memory.  `Revoke` writes a record unless there is one, `GC` drops the records
    whose `ExpiresAt` has passed, `Open` primes the cache.

    Runs start with `Open` on an empty database.  Every transaction may fail, and
    a restart puts a new handle in place of the old one.  The main facts of one
    step: the cache holds the keys of the bucket, and a step changes the bucket
    by one new record, by dropping expired records, or not at all. -/

namespace Owasaka.Revocation

open Bolt

/-! ## Section 1: The store -/

def bucketName : String := "auth.revoked"

/-- A Go string holds any bytes: a JTI is the key that it is stored under. -/
structure Entry where
  jti : Bytes
  reason : String
  revokedAt : Int
  revokedBy : String
  expiresAt : Int
  deriving DecidableEq

/-- `encoding/json` on entries. -/
structure EntryJson where
  marshal : Entry → Except String Bytes
  unmarshal : Bytes → Except String Entry

inductive RevocationError where
  | jtiRequired
  | bootstrapCache (cause : String)
  | marshal (cause : String)
  | persist (cause : String)
  /-- An error of `GC`, passed on as it is. -/
  | other (cause : String)
  deriving DecidableEq

/-- A handle: the cached JTIs. -/
structure BoltStore where
  cache : Std.ExtTreeSet Bytes

/-- `Open`.  `fault` is the error of the transaction, if it fails. -/
def openStore (fault : Option String) (db : Db) : Except RevocationError BoltStore × Db :=
  update (fault.map .bootstrapCache)
    (fun db =>
      let db := createBucketIfNotExists bucketName db
      let bkt := db[bucketName]?.getD ∅
      .ok (⟨bkt.keys.foldl (fun cache k => cache.insert k) ∅⟩, db))
    db

/-- `RevokedAt` defaults to the current time. -/
def Entry.stamped (now : Int) (entry : Entry) : Entry :=
  if entry.revokedAt = zeroTime then { entry with revokedAt := now } else entry

/-- `!e.ExpiresAt.IsZero() && e.ExpiresAt.Before(now)`. -/
def Entry.collectable (now : Int) (entry : Entry) : Bool :=
  entry.expiresAt ≠ zeroTime && entry.expiresAt < now

namespace BoltStore

/-- `Revoke` at one reading of the clock.  `fault` is the error of the
    transaction, if it fails. -/
def revoke (json : EntryJson) (now : Int) (fault : Option String) (entry : Entry) (s : BoltStore)
    (db : Db) : Option (Except RevocationError Unit × BoltStore × Db) :=
  if entry.jti = [] then some (.error .jtiRequired, s, db)
  else
    let entry := entry.stamped now
    if entry.jti ∈ s.cache then some (.ok (), s, db)
    else
      match json.marshal entry with
      | .error e => some (.error (.marshal e), s, db)
      | .ok data =>
        match db[bucketName]? with
        | none => none -- `Get` on a nil bucket
        | some bkt =>
          match update (fault.map .persist)
              (fun db =>
                -- the first record is kept
                if entry.jti ∈ bkt then .ok ((), db)
                else .ok ((), db.insert bucketName (bkt.insert entry.jti data)))
              db with
          | (.error e, db') => some (.error e, s, db')
          | (.ok _, db') => some (.ok (), ⟨s.cache.insert entry.jti⟩, db')

def isRevoked (s : BoltStore) (jti : Bytes) : Except String Bool :=
  if jti = [] then .ok false else .ok (jti ∈ s.cache)

/-- The loop of `GC` over the records. -/
def collect (json : EntryJson) (now : Int) (toDelete : List Bytes) :
    List (Bytes × Bytes) → Except String (List Bytes)
  | [] => .ok toDelete
  | (k, v) :: rest =>
    match json.unmarshal v with
    | .error e => .error e
    | .ok e => collect json now (if e.collectable now then toDelete ++ [k] else toDelete) rest

/-- `GC`.  The two faults are the errors of the read and of the write
    transaction, if they fail. -/
def gc (json : EntryJson) (now : Int) (viewFault updateFault : Option String) (s : BoltStore)
    (db : Db) : Option (Except RevocationError Nat × BoltStore × Db) :=
  match db[bucketName]? with
  | none => none -- `ForEach` on a nil bucket
  | some bkt =>
    match viewFault with
    | some e => some (.error (.other e), s, db)
    | none =>
      match collect json now [] bkt.toList with
      | .error e => some (.error (.other e), s, db)
      | .ok toDelete =>
        if toDelete.length = 0 then some (.ok 0, s, db)
        else
          match update (updateFault.map .other)
              (fun db => .ok ((), db.insert bucketName (toDelete.foldl (fun b k => b.erase k) bkt)))
              db with
          | (.error e, db') => some (.error e, s, db')
          | (.ok _, db') =>
            some (.ok toDelete.length, ⟨toDelete.foldl (fun cache k => cache.erase k) s.cache⟩, db')

end BoltStore

/-! ## Section 2: Runs -/

/-- The handle in use, the database and the time of the last call. -/
structure RevocationState where
  store : BoltStore
  db : Db
  now : Int

inductive RevocationAction where
  | revoke (entry : Entry) (fault : Option String)
  | gc (viewFault updateFault : Option String)
  | reopen (fault : Option String)

/-- What one call does at the given time, with the error that it returns. -/
def RevocationAction.Call (json : EntryJson) (now : Int) (store : BoltStore) (db : Db)
    (store' : BoltStore) (db' : Db) : RevocationAction → Option RevocationError → Prop
  | .revoke entry fault, none => store.revoke json now fault entry db = some (.ok (), store', db')
  | .revoke entry fault, some e =>
    store.revoke json now fault entry db = some (.error e, store', db')
  | .gc viewFault updateFault, none =>
    ∃ n, store.gc json now viewFault updateFault db = some (.ok n, store', db')
  | .gc viewFault updateFault, some e =>
    store.gc json now viewFault updateFault db = some (.error e, store', db')
  | .reopen fault, none => openStore fault db = (.ok store', db')
  -- a failed `Open` returns no handle: the old one stays
  | .reopen fault, some e => store' = store ∧ openStore fault db = (.error e, db')

/-- A call, the time at which it is made and the error that it returns. -/
structure RevocationLabel where
  action : RevocationAction
  now : Int
  result : Option RevocationError

/-- The clock does not go back. -/
def revocationSystem (json : EntryJson) : System RevocationState RevocationLabel where
  init := fun s => openStore none ∅ = (.ok s.store, s.db)
  step := fun s l s' =>
    s.now ≤ l.now ∧ s'.now = l.now
      ∧ l.action.Call json l.now s.store s.db s'.store s'.db l.result

/-! ## Section 3: What a step can do -/

/-- The records. -/
def RevocationState.bucket (s : RevocationState) : Bucket := s.db[bucketName]?.getD ∅

/-- The bucket is there and the cache holds its keys. -/
structure InStep (s : RevocationState) : Prop where
  exists_bucket : s.db[bucketName]? = some s.bucket
  cache : ∀ k, k ∈ s.store.cache ↔ k ∈ s.bucket

/-- The changes of the records: none, one new record, or expired ones dropped. -/
inductive Change (json : EntryJson) (l : RevocationLabel) : Bucket → Bucket → Prop where
  | none (b : Bucket) : Change json l b b
  | added {b : Bucket} {entry : Entry} {fault : Option String} {data : Bytes} :
      l.action = .revoke entry fault → l.result = .none → entry.jti ∉ b →
      json.marshal (entry.stamped l.now) = .ok data → Change json l b (b.insert entry.jti data)
  | dropped {b b' : Bucket} :
      (∀ k v : Bytes, b'[k]? = some v → b[k]? = some v) →
      (∀ k v : Bytes, b[k]? = some v → b'[k]? = some v
        ∨ k ∉ b' ∧ ∃ e, json.unmarshal v = .ok e ∧ e.collectable l.now = true) →
      Change json l b b'

theorem mem_foldl_insert (ks : List Bytes) (cache : Std.ExtTreeSet Bytes) (k : Bytes) :
    k ∈ ks.foldl (fun cache k => cache.insert k) cache ↔ k ∈ cache ∨ k ∈ ks := by
  induction ks generalizing cache with
  | nil => simp
  | cons k' ks ih =>
    rw [List.foldl_cons, ih, Std.ExtTreeSet.mem_insert, Std.compare_eq_iff_eq, List.mem_cons]
    grind

theorem mem_foldl_erase (ks : List Bytes) (cache : Std.ExtTreeSet Bytes) (k : Bytes) :
    k ∈ ks.foldl (fun cache k => cache.erase k) cache ↔ k ∈ cache ∧ k ∉ ks := by
  induction ks generalizing cache with
  | nil => simp
  | cons k' ks ih =>
    rw [List.foldl_cons, ih, Std.ExtTreeSet.mem_erase, List.mem_cons, ne_eq, Std.compare_eq_iff_eq]
    grind

theorem getElem?_foldl_erase (ks : List Bytes) (b : Bucket) (k : Bytes) :
    (ks.foldl (fun b k => b.erase k) b)[k]? = if k ∈ ks then none else b[k]? := by
  induction ks generalizing b with
  | nil => simp
  | cons k' ks ih =>
    rw [List.foldl_cons, ih, Std.ExtTreeMap.getElem?_erase]
    by_cases hmem : k ∈ ks
    · simp [hmem]
    · by_cases heq : k' = k
      · simp [heq]
      · simp [hmem, heq, Ne.symm heq]

/-- `GC` collects the keys of the records that may go, and no others. -/
theorem mem_collect {json : EntryJson} {now : Int} {rest : List (Bytes × Bytes)} :
    ∀ {toDelete ks : List Bytes}, BoltStore.collect json now toDelete rest = .ok ks →
      ∀ k, k ∈ ks ↔ k ∈ toDelete
        ∨ ∃ v e, (k, v) ∈ rest ∧ json.unmarshal v = .ok e ∧ e.collectable now = true := by
  induction rest with
  | nil =>
    intro toDelete ks hok k
    cases hok
    simp
  | cons kv rest ih =>
    intro toDelete ks hok k
    obtain ⟨k', v⟩ := kv
    -- the keys collected so far are the accumulator of the loop
    unfold BoltStore.collect at hok
    cases hread : json.unmarshal v with
    | error e => simp [hread] at hok
    | ok e =>
      simp only [hread] at hok
      rw [ih hok k]
      by_cases hcol : e.collectable now = true
      · simp only [hcol, if_true, List.mem_append, List.mem_cons, List.not_mem_nil, or_false,
          Prod.mk.injEq]
        constructor
        · rintro ((hmem | rfl) | ⟨v', e', hmem, hrest⟩)
          · exact Or.inl hmem
          · exact Or.inr ⟨v, e, Or.inl ⟨rfl, rfl⟩, hread, hcol⟩
          · exact Or.inr ⟨v', e', Or.inr hmem, hrest⟩
        · rintro (hmem | ⟨v', e', ⟨rfl, rfl⟩ | hmem, hrest⟩)
          · exact Or.inl (Or.inl hmem)
          · exact Or.inl (Or.inr rfl)
          · exact Or.inr ⟨v', e', hmem, hrest⟩
      · simp only [hcol, List.mem_cons, Prod.mk.injEq]
        constructor
        · rintro (hmem | ⟨v', e', hmem, hrest⟩)
          · exact Or.inl hmem
          · exact Or.inr ⟨v', e', Or.inr hmem, hrest⟩
        · rintro (hmem | ⟨v', e', ⟨rfl, rfl⟩ | hmem, hread', hcol'⟩)
          · exact Or.inl hmem
          · rw [hread] at hread'
            cases hread'
            exact absurd hcol' hcol
          · exact Or.inr ⟨v', e', hmem, hread', hcol'⟩

variable {json : EntryJson} {s s' : RevocationState} {l : RevocationLabel}

/-- The records after the database's bucket was replaced. -/
theorem bucket_insert (store : BoltStore) (db : Db) (now : Int) (b : Bucket) :
    (⟨store, db.insert bucketName b, now⟩ : RevocationState).bucket = b := by
  simp [RevocationState.bucket]

theorem inStep_insert {store : BoltStore} {db : Db} {now : Int} {b : Bucket}
    (hcache : ∀ k, k ∈ store.cache ↔ k ∈ b) : InStep ⟨store, db.insert bucketName b, now⟩ := by
  refine ⟨?_, ?_⟩
  · rw [bucket_insert]
    simp
  · rw [bucket_insert]
    exact hcache

/-- A step that leaves handle and database alone. -/
theorem InStep.same (hin : InStep s) (hstore : s'.store = s.store) (hdb : s'.db = s.db) :
    InStep s' ∧ Change json l s.bucket s'.bucket := by
  have hbucket : s'.bucket = s.bucket := by simp only [RevocationState.bucket, hdb]
  refine ⟨⟨by rw [hdb, hbucket]; exact hin.exists_bucket, ?_⟩, hbucket ▸ .none _⟩
  rw [hbucket, hstore]
  exact hin.cache

theorem openStore_ok {fault : Option String} {db db' : Db} {store : BoltStore}
    (hok : openStore fault db = (.ok store, db')) :
    db'[bucketName]? = some (db[bucketName]?.getD ∅)
      ∧ ∀ k, k ∈ store.cache ↔ k ∈ db[bucketName]?.getD ∅ := by
  unfold openStore update at hok
  cases fault with
  | some e => simp at hok
  | none =>
    simp only [Option.map_none, Prod.mk.injEq, Except.ok.injEq] at hok
    obtain ⟨rfl, rfl⟩ := hok
    have hget : (createBucketIfNotExists bucketName db)[bucketName]?
        = some (db[bucketName]?.getD ∅) := by
      rw [getElem?_createBucketIfNotExists, if_pos rfl]
    refine ⟨hget, ?_⟩
    intro k
    rw [mem_foldl_insert, hget]
    simp

theorem inStep_reopen {fault : Option String}
    (hok : openStore fault s.db = (.ok s'.store, s'.db)) :
    InStep s' ∧ Change json l s.bucket s'.bucket := by
  obtain ⟨hget, hcache⟩ := openStore_ok hok
  have hbucket : s'.bucket = s.bucket := by
    simp only [RevocationState.bucket, hget, Option.getD_some]
  refine ⟨⟨by rw [hget, hbucket]; rfl, ?_⟩, hbucket ▸ .none _⟩
  rw [hbucket]
  exact hcache

@[simp] theorem stamped_jti (now : Int) (entry : Entry) : (entry.stamped now).jti = entry.jti := by
  unfold Entry.stamped
  split <;> rfl

/-- `Revoke` writes one new record and returns nil, or it changes nothing; it
    returns nil without a change only for a JTI in the cache. -/
theorem revoke_cases (hin : InStep s) {now : Int} {fault : Option String} {entry : Entry}
    {r : Except RevocationError Unit} {store' : BoltStore} {db' : Db}
    (hcall : s.store.revoke json now fault entry s.db = some (r, store', db')) :
    (store' = s.store ∧ db' = s.db ∧ (r = .ok () → entry.jti ∈ s.store.cache))
      ∨ (r = .ok () ∧ entry.jti ∉ s.bucket ∧ ∃ data, json.marshal (entry.stamped now) = .ok data
          ∧ store' = ⟨s.store.cache.insert entry.jti⟩
          ∧ db' = s.db.insert bucketName (s.bucket.insert entry.jti data)) := by
  unfold BoltStore.revoke at hcall
  split at hcall
  · cases hcall
    exact Or.inl ⟨rfl, rfl, by simp⟩
  · simp only [stamped_jti] at hcall
    split at hcall
    · rename_i hcached
      cases hcall
      exact Or.inl ⟨rfl, rfl, fun _ => hcached⟩
    · rename_i huncached
      cases hdata : json.marshal (entry.stamped now) with
      | error e =>
        simp only [hdata, Option.some.injEq, Prod.mk.injEq] at hcall
        obtain ⟨rfl, rfl, rfl⟩ := hcall
        exact Or.inl ⟨rfl, rfl, by simp⟩
      | ok data =>
        -- the cache holds the keys of the bucket, so the transaction does write
        have habsent : entry.jti ∉ s.bucket := by
          rwa [← hin.cache]
        simp only [hdata, hin.exists_bucket, update, if_neg habsent] at hcall
        cases fault with
        | some e =>
          simp only [Option.map_some, Option.some.injEq, Prod.mk.injEq] at hcall
          obtain ⟨rfl, rfl, rfl⟩ := hcall
          exact Or.inl ⟨rfl, rfl, by simp⟩
        | none =>
          simp only [Option.map_none, Option.some.injEq, Prod.mk.injEq] at hcall
          obtain ⟨rfl, rfl, rfl⟩ := hcall
          exact Or.inr ⟨rfl, habsent, data, rfl, rfl, rfl⟩

theorem InStep.revoke (hin : InStep s) {fault : Option String} {entry : Entry}
    {r : Except RevocationError Unit} (haction : l.action = .revoke entry fault)
    (hresult : r = .ok () → l.result = none)
    (hcall : s.store.revoke json l.now fault entry s.db = some (r, s'.store, s'.db)) :
    InStep s' ∧ Change json l s.bucket s'.bucket := by
  rcases revoke_cases hin hcall with ⟨hstore, hdb, _⟩ | ⟨hok, habsent, data, hdata, hstore, hdb⟩
  · exact hin.same hstore hdb
  · obtain ⟨store', db', now'⟩ := s'
    simp only at hstore hdb
    subst hstore hdb
    refine ⟨inStep_insert ?_, ?_⟩
    · intro k
      simp only [Std.ExtTreeSet.mem_insert, Std.ExtTreeMap.mem_insert, hin.cache]
    · rw [bucket_insert]
      exact .added haction (hresult hok) habsent hdata

/-- Deleting the collected keys drops records that are past their expiry. -/
theorem change_of_collect {b : Bucket} {ks : List Bytes}
    (hcollect : BoltStore.collect json l.now [] b.toList = .ok ks) :
    Change json l b (ks.foldl (fun b k => b.erase k) b) := by
  have hget := getElem?_foldl_erase ks b
  refine .dropped ?_ ?_
  · intro k v hv
    rw [hget] at hv
    split at hv
    · contradiction
    · exact hv
  · intro k v hv
    by_cases hmem : k ∈ ks
    · right
      rw [Std.ExtTreeMap.mem_iff_isSome_getElem?, hget, if_pos hmem]
      -- the collected record is the one at this key
      rcases (mem_collect hcollect k).mp hmem with hnil | ⟨v', e, hrec, hread, hcol⟩
      · contradiction
      · rw [Std.ExtTreeMap.mem_toList_iff_getElem?_eq_some, hv] at hrec
        cases hrec
        exact ⟨by simp, e, hread, hcol⟩
    · left
      rw [hget, if_neg hmem]
      exact hv

/-- `GC` drops records that may go, or it changes nothing. -/
theorem InStep.gc (hin : InStep s) {viewFault updateFault : Option String}
    {r : Except RevocationError Nat}
    (hcall : s.store.gc json l.now viewFault updateFault s.db = some (r, s'.store, s'.db)) :
    InStep s' ∧ Change json l s.bucket s'.bucket := by
  -- a transaction that fails leaves the bucket and the cache alone
  have hsame : ∀ r' : Except RevocationError Nat,
      some (r', s.store, s.db) = some (r, s'.store, s'.db) →
      InStep s' ∧ Change json l s.bucket s'.bucket := by
    intro r' heq
    simp only [Option.some.injEq, Prod.mk.injEq] at heq
    exact hin.same heq.2.1.symm heq.2.2.symm
  unfold BoltStore.gc at hcall
  rw [hin.exists_bucket] at hcall
  cases viewFault with
  | some e => exact hsame _ hcall
  | none =>
    cases hcollect : BoltStore.collect json l.now [] s.bucket.toList with
    | error e =>
      simp only [hcollect] at hcall
      exact hsame _ hcall
    | ok ks =>
      simp only [hcollect, update] at hcall
      split at hcall
      · exact hsame _ hcall
      · cases updateFault with
        | some e => exact hsame _ hcall
        | none =>
          simp only [Option.map_none, Option.some.injEq, Prod.mk.injEq] at hcall
          obtain ⟨store', db', now'⟩ := s'
          obtain ⟨_, rfl, rfl⟩ := hcall
          refine ⟨inStep_insert ?_, ?_⟩
          · intro k
            rw [mem_foldl_erase, hin.cache, Std.ExtTreeMap.mem_iff_isSome_getElem?,
              Std.ExtTreeMap.mem_iff_isSome_getElem?, getElem?_foldl_erase]
            by_cases hmem : k ∈ ks <;> simp [hmem]
          · rw [bucket_insert]
            exact change_of_collect hcollect

/-- **Step lemma**: cache and bucket stay in step, and the records change in one
    of the three ways. -/
theorem step_change (hin : InStep s) (hstep : (revocationSystem json).step s l s') :
    InStep s' ∧ Change json l s.bucket s'.bucket := by
  obtain ⟨_, _, hcall⟩ := hstep
  cases haction : l.action with
  | revoke entry fault =>
    cases hresult : l.result with
    | none =>
      rw [haction, hresult] at hcall
      exact hin.revoke haction (fun _ => hresult) hcall
    | some e =>
      rw [haction, hresult] at hcall
      exact hin.revoke haction (by simp) hcall
  | gc viewFault updateFault =>
    cases hresult : l.result with
    | none =>
      rw [haction, hresult] at hcall
      obtain ⟨n, hcall⟩ := hcall
      exact hin.gc hcall
    | some e =>
      rw [haction, hresult] at hcall
      exact hin.gc hcall
  | reopen fault =>
    cases hresult : l.result with
    | none =>
      rw [haction, hresult] at hcall
      exact inStep_reopen hcall
    | some e =>
      rw [haction, hresult] at hcall
      obtain ⟨hstore, hfail⟩ := hcall
      -- the open failed in its transaction, which is rolled back
      refine hin.same hstore ?_
      unfold openStore update at hfail
      cases fault <;> simp at hfail
      exact hfail.2.symm

theorem inStep_of_reachable (hreach : (revocationSystem json).Reachable s) : InStep s := by
  refine hreach.invariant (P := InStep) ?_ ?_
  · intro s hinit
    obtain ⟨hget, hcache⟩ := openStore_ok hinit
    have hbucket : s.bucket = (∅ : Db)[bucketName]?.getD ∅ := by
      simp only [RevocationState.bucket, hget, Option.getD_some]
    exact ⟨by rw [hget, hbucket], by rw [hbucket]; exact hcache⟩
  · intro s l s' hin hstep
    exact (step_change hin hstep).1

end Owasaka.Revocation
