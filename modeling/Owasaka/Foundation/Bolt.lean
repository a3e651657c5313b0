import Mathlib.Data.List.Sort
import Owasaka.Foundation.Bytes
import Owasaka.Foundation.Lookup

/-! # An embedded key/value store

    A database is a set of named buckets; a bucket maps byte strings to byte
    strings and is iterated in the byte order of its keys.  A write
    transaction runs on a copy, which replaces the database only when the
    transaction's function succeeds and the commit does.

    This file defines:
    - `Bucket`, `Db`: the stored data
    - `update`: a write transaction
    - `createBucketIfNotExists`
    - `Write`, `writeAll`: the changes that a transaction makes, one by one
    - `lastEffect`: what a list of writes leaves at one key
    and proves that a key above all others is put at the end of the iteration,
    and that a list of writes changes exactly the keys with an effect. -/

namespace Bolt

/-- A bucket.  `toList` is its iteration in key order (`ForEach`). -/
abbrev Bucket : Type := Std.ExtTreeMap Bytes Bytes

/-- The buckets of a database, by name. -/
abbrev Db : Type := Std.ExtTreeMap String Bucket

/-! ## Section 1: Transactions -/

/-- `db.Update(fn)`.  `fault` is the error with which the commit fails, if it does. -/
def update {ε α : Type} (fault : Option ε) (fn : Db → Except ε (α × Db)) (db : Db) :
    Except ε α × Db :=
  match fn db with
  | .error e => (.error e, db)
  | .ok (a, db') =>
    match fault with
    | some e => (.error e, db)
    | none => (.ok a, db')

/-! ## Section 2: Buckets -/

def createBucketIfNotExists (name : String) (db : Db) : Db :=
  if name ∈ db then db else db.insert name ∅

theorem getElem?_createBucketIfNotExists (name other : String) (db : Db) :
    (createBucketIfNotExists name db)[other]? =
      if other = name then some (db[name]?.getD ∅) else db[other]? := by
  unfold createBucketIfNotExists
  by_cases hmem : name ∈ db
  · rw [if_pos hmem]
    by_cases heq : other = name
    · subst heq
      simp [Std.ExtTreeMap.getElem?_eq_some_getElem hmem]
    · rw [if_neg heq]
  · rw [if_neg hmem, getElem?_insert_ite, Std.ExtTreeMap.getElem?_eq_none hmem]
    rfl

/-- Putting a key above all others adds it at the end of the iteration. -/
theorem toList_insert_of_forall_lt {b : Bucket} {k v : Bytes}
    (hlt : ∀ k' ∈ b.keys, compare k' k = .lt) : (b.insert k v).toList = b.toList ++ [(k, v)] := by
  have hsorted : List.Pairwise (fun x y : Bytes × Bytes => compare x.1 y.1 = .lt)
      (b.toList ++ [(k, v)]) := by
    rw [List.pairwise_append]
    refine ⟨Std.ExtTreeMap.ordered_keys_toList, List.pairwise_singleton _ _, ?_⟩
    intro x hx y hy
    rw [List.mem_singleton] at hy
    subst hy
    apply hlt
    rw [← Std.ExtTreeMap.map_fst_toList_eq_keys]
    exact List.mem_map_of_mem hx
  have : Std.Irrefl (fun x y : Bytes × Bytes => compare x.1 y.1 = .lt) :=
    ⟨fun x => by simp⟩
  have : Std.Antisymm (fun x y : Bytes × Bytes => compare x.1 y.1 = .lt) :=
    ⟨fun x y hxy hyx => by simp [Std.OrientedCmp.gt_of_lt hxy] at hyx⟩
  -- both lists are strictly sorted by key, so they agree when their members do
  refine List.Pairwise.eq_of_mem_iff Std.ExtTreeMap.ordered_keys_toList hsorted ?_
  intro ⟨k', v'⟩
  rw [Std.ExtTreeMap.mem_toList_iff_getElem?_eq_some, Std.ExtTreeMap.getElem?_insert,
    List.mem_append, Std.ExtTreeMap.mem_toList_iff_getElem?_eq_some, List.mem_singleton]
  by_cases heq : k = k'
  · subst heq
    have hnone : b[k]? = none := by
      apply Std.ExtTreeMap.getElem?_eq_none
      intro hmem
      have hself := hlt k (Std.ExtTreeMap.mem_keys.mpr hmem)
      simp at hself
    simp [hnone, eq_comm]
  · simp [heq, Ne.symm heq]

/-! ## Section 3: The writes of a transaction -/

/-- One change that a transaction makes. -/
inductive Write where
  | createBucket (bucket : String)
  | deleteBucket (bucket : String)
  | put (bucket : String) (key value : Bytes)
  | delete (bucket : String) (key : Bytes)

/-- The database after the write; `none` when there is no such bucket. -/
def Write.apply (db : Db) : Write → Option Db
  | .createBucket bucket => some (createBucketIfNotExists bucket db)
  | .deleteBucket bucket => if bucket ∈ db then some (db.erase bucket) else none
  | .put bucket key value => db[bucket]?.map fun b => db.insert bucket (b.insert key value)
  | .delete bucket key => db[bucket]?.map fun b => db.insert bucket (b.erase key)

def writeAll (ws : List Write) (db : Db) : Option Db := ws.foldlM Write.apply db

def lookup (db : Db) (bucket : String) (key : Bytes) : Option Bytes := db[bucket]?.bind (·[key]?)

/-- What the write leaves at a key: nothing of its own, no entry, or a value. -/
def Write.effect (bucket : String) (key : Bytes) : Write → Option (Option Bytes)
  | .createBucket _ => none
  | .deleteBucket b => if b = bucket then some none else none
  | .put b k v => if b = bucket ∧ k = key then some (some v) else none
  | .delete b k => if b = bucket ∧ k = key then some none else none

/-- The effect of the last write that has one. -/
def lastEffect (ws : List Write) (bucket : String) (key : Bytes) : Option (Option Bytes) :=
  (ws.filterMap (Write.effect bucket key)).getLast?

theorem lastEffect_append (ws ws' : List Write) (bucket : String) (key : Bytes) :
    lastEffect (ws ++ ws') bucket key
      = (lastEffect ws' bucket key).or (lastEffect ws bucket key) := by
  simp [lastEffect, List.getLast?_append]

theorem lookup_insert (db : Db) (name bucket : String) (b : Bucket) (key : Bytes) :
    lookup (db.insert name b) bucket key = if name = bucket then b[key]? else lookup db bucket key := by
  unfold lookup
  rw [getElem?_insert_ite]
  by_cases heq : name = bucket
  · simp [heq]
  · simp [heq, Ne.symm heq]

theorem lookup_apply {w : Write} {db db' : Db} (happly : w.apply db = some db') (bucket : String)
    (key : Bytes) : lookup db' bucket key = (w.effect bucket key).getD (lookup db bucket key) := by
  cases w with
  | createBucket name =>
    simp only [Write.apply, Option.some.injEq] at happly
    subst happly
    unfold lookup
    rw [getElem?_createBucketIfNotExists]
    by_cases heq : bucket = name
    · -- a new bucket has no entry, an old one the entries it had
      subst heq
      cases hold : db[bucket]? <;> simp [Write.effect]
    · simp [Write.effect, heq]
  | deleteBucket name =>
    simp only [Write.apply, Option.ite_none_right_eq_some, Option.some.injEq] at happly
    obtain ⟨_, rfl⟩ := happly
    unfold lookup
    rw [Std.ExtTreeMap.getElem?_erase]
    by_cases heq : name = bucket <;> simp [Write.effect, heq]
  | put name k v =>
    simp only [Write.apply, Option.map_eq_some_iff] at happly
    obtain ⟨b, hb, rfl⟩ := happly
    rw [lookup_insert]
    by_cases heq : name = bucket
    · subst heq
      rw [if_pos rfl, Std.ExtTreeMap.getElem?_insert]
      by_cases hkey : k = key <;> simp [Write.effect, lookup, hb, hkey]
    · simp [Write.effect, heq]
  | delete name k =>
    simp only [Write.apply, Option.map_eq_some_iff] at happly
    obtain ⟨b, hb, rfl⟩ := happly
    rw [lookup_insert]
    by_cases heq : name = bucket
    · subst heq
      rw [if_pos rfl, Std.ExtTreeMap.getElem?_erase]
      by_cases hkey : k = key <;> simp [Write.effect, lookup, hb, hkey]
    · simp [Write.effect, heq]

/-- A transaction changes the keys with an effect, and no others. -/
theorem lookup_writeAll {ws : List Write} {db db' : Db} (hall : writeAll ws db = some db')
    (bucket : String) (key : Bytes) :
    lookup db' bucket key = (lastEffect ws bucket key).getD (lookup db bucket key) := by
  induction ws generalizing db with
  | nil =>
    simp only [writeAll, List.foldlM_nil, Option.pure_def, Option.some.injEq] at hall
    subst hall
    rfl
  | cons w ws ih =>
    simp only [writeAll, List.foldlM_cons, Option.bind_eq_bind, Option.bind_eq_some_iff] at hall
    obtain ⟨db₁, happly, hrest⟩ := hall
    have happend := lastEffect_append [w] ws bucket key
    have hone : lastEffect [w] bucket key = w.effect bucket key := by
      cases heff : w.effect bucket key <;> simp [lastEffect, heff]
    rw [List.singleton_append, hone] at happend
    rw [ih hrest, lookup_apply happly, happend]
    cases lastEffect ws bucket key <;> rfl

/-! ## Section 4: Deleting some keys of a bucket -/

/-- What a transaction that only deletes keys of one bucket leaves. -/
structure Deletes (name : String) (keys : List Bytes) (db db' : Db) : Prop where
  lookup_eq : ∀ key, lookup db' name key = if key ∈ keys then none else lookup db name key
  others : ∀ other, other ≠ name → db'[other]? = db[other]?
  buckets : ∀ other, other ∈ db' ↔ other ∈ db

theorem deletes_of_writeAll {name : String} {keys : List Bytes} {db db' : Db}
    (hall : writeAll (keys.map (.delete name)) db = some db') : Deletes name keys db db' := by
  induction keys generalizing db with
  | nil =>
    simp only [writeAll, List.map_nil, List.foldlM_nil, Option.pure_def, Option.some.injEq] at hall
    subst hall
    exact ⟨fun key => by simp, fun _ _ => rfl, fun _ => Iff.rfl⟩
  | cons k keys ih =>
    simp only [writeAll, List.map_cons, List.foldlM_cons, Option.bind_eq_bind,
      Option.bind_eq_some_iff] at hall
    obtain ⟨db₁, happly, hrest⟩ := hall
    have hdeletes := ih hrest
    have hlookup := fun key => lookup_apply happly name key
    simp only [Write.apply, Option.map_eq_some_iff] at happly
    obtain ⟨b, hb, rfl⟩ := happly
    refine ⟨?_, ?_, ?_⟩
    · intro key
      rw [hdeletes.lookup_eq, hlookup]
      by_cases hkey : k = key
      · subst hkey
        simp [Write.effect]
      · simp [Write.effect, hkey, Ne.symm hkey]
    · intro other hne
      rw [hdeletes.others other hne, getElem?_insert_ite, if_neg hne]
    · intro other
      rw [hdeletes.buckets other, Std.ExtTreeMap.mem_insert]
      -- the bucket that is written back was there before
      constructor
      · rintro (heq | hmem)
        · obtain rfl := Std.LawfulEqCmp.eq_of_compare heq
          exact mem_of_getElem?_eq_some hb
        · exact hmem
      · exact .inr

theorem Deletes.eq_of_nil {name : String} {db db' : Db} (hdeletes : Deletes name [] db db') :
    db' = db := by
  apply Std.ExtTreeMap.ext_getElem?
  intro other
  by_cases hother : other = name
  · subst hother
    have hbuckets := hdeletes.buckets other
    rw [Std.ExtTreeMap.mem_iff_isSome_getElem?, Std.ExtTreeMap.mem_iff_isSome_getElem?] at hbuckets
    have hlookup := hdeletes.lookup_eq
    unfold lookup at hlookup
    cases hb : db[other]? with
    | none => simpa [hb] using hbuckets
    | some b =>
      cases hb' : db'[other]? with
      | none => simp [hb, hb'] at hbuckets
      | some b' =>
        simp only [hb, hb', Option.bind_some, List.not_mem_nil, if_false] at hlookup
        rw [Std.ExtTreeMap.ext_getElem? hlookup]
  · exact hdeletes.others other hother

/-- The keys of a bucket that is there can be deleted. -/
theorem exists_writeAll_deletes {name : String} {db : Db} (hmem : name ∈ db) (keys : List Bytes) :
    ∃ db', writeAll (keys.map (.delete name)) db = some db' := by
  induction keys generalizing db with
  | nil => exact ⟨db, rfl⟩
  | cons k keys ih =>
    obtain ⟨b, hb⟩ := exists_getElem?_of_mem hmem
    obtain ⟨db', hall⟩ := ih (show name ∈ db.insert name (b.erase k) by simp)
    refine ⟨db', ?_⟩
    simp only [writeAll, List.map_cons, List.foldlM_cons, Write.apply, hb, Option.map_some,
      Option.bind_eq_bind, Option.bind_some]
    exact hall

end Bolt
