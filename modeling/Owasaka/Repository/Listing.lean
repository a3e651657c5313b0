import Owasaka.Events.Stored
import Owasaka.Foundation.Newest
import Owasaka.Repository.Alerts

/-! # Listing alerts and events (`storage/db/repository.go`)

    `ListAlerts` and `ListEventsByType` go through a bucket from its last key to its
    first, skip what does not match, and stop at the limit.  They return the records
    with the greatest IDs.  Nothing makes the order of the IDs that of the times: the
    IDs are random, or come from the caller.

    The main result: a listing has the newest matching records, newest first, if and
    only if no record among those with the greatest IDs is older than a record with a
    lesser ID. -/

namespace Owasaka.Repository

open Bolt

/-! ## Section 1: Saving records -/

/-- How the records of a bucket are stored. -/
structure Codec (R : Type) where
  id : R → Bytes
  marshal : R → Option Bytes
  unmarshal : Bytes → Option R

namespace Codec

variable {R : Type} (c : Codec R)

/-- The transaction that saves a record; `none` is an error. -/
def save (b : Bucket) (r : R) : Option Bucket :=
  match c.marshal r with
  | none => none
  | some data =>
    if c.id r = [] ∨ 32768 < (c.id r).length ∨ 2 ^ 31 - 2 < data.length then none
    else some (b.insert (c.id r) data)

/-- The bucket after saving the records into an empty one. -/
def saveAll (saved : List R) : Option Bucket := saved.foldlM c.save ∅

/-- The record as it is read back from the database, under its key. -/
def entry (r : R) : Option (Bytes × R) :=
  ((c.marshal r).bind c.unmarshal).map fun r' => (c.id r, r')

/-- The matching records, under their keys. -/
def matching (keep : R → Bool) (saved : List R) : List (Bytes × R) :=
  (saved.filterMap c.entry).filter fun x => keep x.2

/-! ## Section 2: The reverse scan -/

/-- The loop over the cursor; `entries` are what is left of the bucket. -/
def scan (keep : R → Bool) (limit : Nat) : List (Bytes × Bytes) → List R → List R
  | [], out => out
  | (_, v) :: entries, out =>
    if limit ≤ out.length then out
    else
      match c.unmarshal v with
      | none => scan keep limit entries out
      | some r => if keep r then scan keep limit entries (out ++ [r]) else scan keep limit entries out

/-- From the last key to the first. -/
def list (keep : R → Bool) (limit : Nat) (b : Bucket) : List R := c.scan keep limit b.toList.reverse []

end Codec

def alertCodec : Codec Alert where
  id := Alert.id
  marshal := Alert.marshal
  unmarshal := unmarshalAlert

def eventCodec : Codec Events.Stored.NetworkEvent where
  id := Events.Stored.NetworkEvent.id
  marshal := Events.Stored.NetworkEvent.marshal
  unmarshal := Events.Stored.unmarshal

/-- `SaveAlert`. -/
def saveAlert (b : Bucket) (a : Alert) : Option Bucket := alertCodec.save b a

/-- `LogEvent` saves an event in the same way. -/
theorem logEvent_eq : Events.Stored.logEvent = eventCodec.save := rfl

structure AlertFilter where
  status : Bytes
  severity : Bytes
  limit : Int

def AlertFilter.count (f : AlertFilter) : Nat := if f.limit ≤ 0 then 50 else f.limit.toNat

/-- `equalFold` is `strings.EqualFold`. -/
def AlertFilter.keeps (equalFold : Bytes → Bytes → Bool) (f : AlertFilter) (a : Alert) : Bool :=
  (f.status = [] || a.status = f.status) && (f.severity = [] || equalFold a.severity f.severity)

def listAlerts (equalFold : Bytes → Bytes → Bool) (f : AlertFilter) (b : Bucket) : List Alert :=
  alertCodec.list (f.keeps equalFold) f.count b

/-- The arguments of `ListEventsByType`. -/
structure EventFilter where
  eventType : Bytes
  since : Rfc3339.Time
  limit : Int

def EventFilter.count (f : EventFilter) : Nat := if f.limit ≤ 0 then 100 else f.limit.toNat

/-- The zero time is no bound. -/
def EventFilter.keeps (f : EventFilter) (e : Events.Stored.NetworkEvent) : Bool :=
  (f.eventType = [] || e.type = f.eventType)
    && (f.since.instant = Rfc3339.zero.instant || !decide (e.timestamp.instant < f.since.instant))

def listEventsByType (f : EventFilter) (b : Bucket) : List Events.Stored.NetworkEvent :=
  eventCodec.list f.keeps f.count b

/-! ## Section 3: What a listing returns -/

/-- The first key is the greater one. -/
def Above (k k' : Bytes) : Prop := compare k' k = .lt

instance (k k' : Bytes) : Decidable (Above k k') := inferInstanceAs (Decidable (compare k' k = .lt))

theorem above_asymm (k k' : Bytes) (h : Above k k') : ¬ Above k' k := by
  intro h'
  unfold Above at h h'
  rw [Std.OrientedCmp.gt_of_lt h] at h'
  contradiction

namespace Codec

variable {R : Type} {c : Codec R} {keep : R → Bool} {saved : List R} {b : Bucket}

/-- What the scan makes of an entry of the bucket. -/
def readEntry (c : Codec R) (x : Bytes × Bytes) : Option (Bytes × R) :=
  (c.unmarshal x.2).map fun r => (x.1, r)

theorem scan_eq (limit : Nat) (entries : List (Bytes × Bytes)) (out : List R) :
    c.scan keep limit entries out = out
      ++ (((entries.filterMap c.readEntry).filter fun x => keep x.2).map Prod.snd).take
        (limit - out.length) := by
  induction entries generalizing out with
  | nil => simp [scan]
  | cons x entries ih =>
    obtain ⟨k, v⟩ := x
    unfold scan
    split
    · rename_i hfull
      rw [Nat.sub_eq_zero_of_le hfull, List.take_zero, List.append_nil]
    · rename_i hroom
      cases hread : c.unmarshal v with
      | none =>
        have hskip : c.readEntry (k, v) = none := by simp [readEntry, hread]
        rw [List.filterMap_cons_none hskip]
        exact ih out
      | some r =>
        have hentry : c.readEntry (k, v) = some (k, r) := by simp [readEntry, hread]
        rw [List.filterMap_cons_some hentry, List.filter_cons]
        simp only
        split
        · -- one more record, and one less to go
          obtain ⟨n, hn⟩ : ∃ n, limit - out.length = n + 1 := ⟨limit - out.length - 1, by omega⟩
          have hn' : limit - (out ++ [r]).length = n := by
            rw [List.length_append, List.length_singleton]
            omega
          rw [ih, hn, hn', List.map_cons, List.take_succ_cons, List.append_assoc, List.singleton_append]
        · exact ih out

theorem save_ok {b b' : Bucket} {r : R} (h : c.save b r = some b') :
    ∃ data, c.marshal r = some data ∧ b' = b.insert (c.id r) data := by
  unfold save at h
  split at h
  · contradiction
  · rename_i data hdata
    split at h
    · contradiction
    · exact ⟨data, hdata, (Option.some.inj h).symm⟩

/-- The bucket has exactly the texts of the saved records. -/
theorem getElem?_foldlM_save {b₀ : Bucket} (hids : (saved.map c.id).Nodup)
    (hnew : ∀ r ∈ saved, b₀[c.id r]? = none) (hsave : saved.foldlM c.save b₀ = some b) (k v : Bytes) :
    b[k]? = some v ↔ b₀[k]? = some v ∨ ∃ r ∈ saved, c.id r = k ∧ c.marshal r = some v := by
  induction saved generalizing b₀ with
  | nil =>
    simp only [List.foldlM_nil, Option.pure_def, Option.some.injEq] at hsave
    subst hsave
    simp
  | cons r saved ih =>
    simp only [List.foldlM_cons, Option.bind_eq_bind, Option.bind_eq_some_iff] at hsave
    obtain ⟨b₁, hfirst, hrest⟩ := hsave
    obtain ⟨data, hdata, rfl⟩ := save_ok hfirst
    rw [List.map_cons, List.nodup_cons] at hids
    have hfresh := hnew r List.mem_cons_self
    rw [ih hids.2 _ hrest, getElem?_insert_ite]
    · split
      · rename_i heq
        subst heq
        simp [hfresh, hdata]
      · rename_i hne
        simp [Ne.symm hne]
    · intro r' hr'
      rw [getElem?_insert_ite, if_neg]
      · exact hnew r' (List.mem_cons_of_mem _ hr')
      · intro heq
        exact hids.1 (heq ▸ List.mem_map_of_mem hr')

theorem map_fst_written (c : Codec R) (saved : List R) :
    ((saved.filterMap fun r => (c.marshal r).map fun data => (c.id r, data)).map Prod.fst).Sublist
      (saved.map c.id) := by
  induction saved with
  | nil => exact .slnil
  | cons r saved ih =>
    rw [List.map_cons]
    cases hdata : c.marshal r with
    | none =>
      rw [List.filterMap_cons_none (by rw [hdata]; rfl)]
      exact ih.cons _
    | some data =>
      rw [List.filterMap_cons_some (by rw [hdata]; rfl), List.map_cons]
      exact ih.cons_cons _

theorem toList_saveAll (hids : (saved.map c.id).Nodup) (hsave : c.saveAll saved = some b) :
    b.toList.Perm (saved.filterMap fun r => (c.marshal r).map fun data => (c.id r, data)) := by
  have hget := getElem?_foldlM_save hids (by simp) hsave
  have hkeys : (b.toList.map Prod.fst).Nodup := by
    rw [Std.ExtTreeMap.map_fst_toList_eq_keys]
    exact Std.ExtTreeMap.nodup_keys
  have hwritten : ((saved.filterMap fun r => (c.marshal r).map fun data => (c.id r, data)).map
      Prod.fst).Nodup := by
    exact hids.sublist (map_fst_written c saved)
  rw [List.perm_ext_iff_of_nodup hkeys.of_map hwritten.of_map]
  intro ⟨k, v⟩
  rw [Std.ExtTreeMap.mem_toList_iff_getElem?_eq_some, hget, List.mem_filterMap]
  constructor
  · rintro (hempty | ⟨r, hr, hid, hdata⟩)
    · simp at hempty
    · exact ⟨r, hr, by rw [hdata, ← hid]; rfl⟩
  · intro ⟨r, hr, hentry⟩
    obtain ⟨data, hdata, heq⟩ := Option.map_eq_some_iff.mp hentry
    cases heq
    exact Or.inr ⟨r, hr, rfl, hdata⟩

/-- The records that the scan finds are the matching ones. -/
theorem found_perm (hids : (saved.map c.id).Nodup) (hsave : c.saveAll saved = some b) :
    ((b.toList.reverse.filterMap c.readEntry).filter fun x => keep x.2).Perm (c.matching keep saved) := by
  have hread : (saved.filterMap fun r => (c.marshal r).map fun data => (c.id r, data)).filterMap
      c.readEntry = saved.filterMap c.entry := by
    rw [List.filterMap_filterMap]
    congr 1
    funext r
    unfold entry readEntry
    cases c.marshal r with
    | none => rfl
    | some data => rfl
  unfold matching
  rw [← hread]
  exact (((List.reverse_perm _).trans (toList_saveAll hids hsave)).filterMap _).filter _

/-- They come in the order of their keys, the greatest first. -/
theorem found_sorted (c : Codec R) (keep : R → Bool) (b : Bucket) :
    ((b.toList.reverse.filterMap c.readEntry).filter fun x => keep x.2).Pairwise
      fun x y => Above x.1 y.1 := by
  apply List.Pairwise.filter
  have hdesc : b.toList.reverse.Pairwise fun x y => Above x.1 y.1 := by
    rw [List.pairwise_reverse]
    exact Std.ExtTreeMap.ordered_keys_toList
  refine List.Pairwise.filterMap _ ?_ hdesc
  intro x y habove x' hx' y' hy'
  obtain ⟨r, _, rfl⟩ := Option.map_eq_some_iff.mp hx'
  obtain ⟨r', _, rfl⟩ := Option.map_eq_some_iff.mp hy'
  exact habove

/-- No matching record among those with the `limit` greatest IDs is older than a
    matching record with a lesser ID. -/
def IDsFollowTime (c : Codec R) (time : R → Int) (keep : R → Bool) (limit : Nat) (saved : List R) :
    Prop :=
  ∀ x ∈ c.matching keep saved, before Above (c.matching keep saved) x.1 < limit →
    ∀ y ∈ c.matching keep saved, Above x.1 y.1 → time y.2 ≤ time x.2

/-- **A listing** has the newest matching records exactly when the IDs follow the time. -/
theorem list_newest_iff {time : R → Int} {limit : Nat} (hids : (saved.map c.id).Nodup)
    (hsave : c.saveAll saved = some b) :
    Newest time limit ((c.matching keep saved).map Prod.snd) (c.list keep limit b) ↔
      c.IDsFollowTime time keep limit saved := by
  unfold list
  rw [scan_eq, List.nil_append, List.length_nil, Nat.sub_zero]
  exact newest_by_key_iff above_asymm (found_sorted c keep b) (found_perm hids hsave)

end Codec

/-- The alerts as they are read back from the database. -/
theorem alertCodec_entry {a : Alert} {b b' : Bucket} (hsave : saveAlert b a = some b') :
    alertCodec.entry a = some (a.id, a.readBack) := by
  obtain ⟨data, hdata, _⟩ := Codec.save_ok hsave
  unfold Codec.entry
  rw [hdata, Option.bind_some]
  show (unmarshalAlert data).map _ = _
  rw [unmarshalAlert_marshal hdata]
  rfl

/-- An alert that was saved matches as it is read back. -/
theorem matching_alerts {alerts : List Alert} {b₀ b : Bucket} (keep : Alert → Bool)
    (hsaved : alerts.foldlM saveAlert b₀ = some b) :
    alertCodec.matching keep alerts
      = (alerts.map fun a => (a.id, a.readBack)).filter fun x => keep x.2 := by
  unfold Codec.matching
  congr 1
  induction alerts generalizing b₀ with
  | nil => rfl
  | cons a alerts ih =>
    simp only [List.foldlM_cons, Option.bind_eq_bind, Option.bind_eq_some_iff] at hsaved
    obtain ⟨b₁, hfirst, hrest⟩ := hsaved
    rw [List.filterMap_cons_some (alertCodec_entry hfirst), List.map_cons, ih hrest]

/-! ## Section 4: Both listings -/

def triggered (a : Alert) : Int := a.triggeredAt.instant

def occurred (e : Events.Stored.NetworkEvent) : Int := e.timestamp.instant

/-- **Both listings** return the newest matching records, newest first, exactly when
    no matching record with one of the greatest IDs is older than one with a lesser ID. -/
theorem listings_newest_iff {alerts : List Alert} {events : List Events.Stored.NetworkEvent}
    {alertBucket eventBucket : Bucket} (halertIDs : (alerts.map Alert.id).Nodup)
    (hsaved : alerts.foldlM saveAlert ∅ = some alertBucket)
    (heventIDs : (events.map Events.Stored.NetworkEvent.id).Nodup)
    (hlogged : events.foldlM Events.Stored.logEvent ∅ = some eventBucket)
    (equalFold : Bytes → Bytes → Bool) (f : AlertFilter) (g : EventFilter) :
    (Newest triggered f.count ((alertCodec.matching (f.keeps equalFold) alerts).map Prod.snd)
        (listAlerts equalFold f alertBucket) ↔
      alertCodec.IDsFollowTime triggered (f.keeps equalFold) f.count alerts)
    ∧ (Newest occurred g.count ((eventCodec.matching g.keeps events).map Prod.snd)
        (listEventsByType g eventBucket) ↔
      eventCodec.IDsFollowTime occurred g.keeps g.count events) :=
  ⟨Codec.list_newest_iff halertIDs hsaved, Codec.list_newest_iff heventIDs hlogged⟩

/-! ## Section 5: Two alerts -/

/-- An alert of one second after the epoch. -/
def alertAt (id : String) (second : Int) : Alert :=
  { Alert.zero with
    id := Bytes.ascii id, status := Bytes.ascii "NEW", triggeredAt := ⟨second * 10 ^ 9, 0⟩ }

/-- One alert of any kind. -/
def latest : AlertFilter := ⟨[], [], 1⟩

/-- A query at the epoch. -/
def query : Events.Stored.NetworkEvent :=
  ⟨Bytes.ascii "e1", Bytes.ascii "DNS", [], [], none, ⟨0, 0⟩, [], []⟩

def queries : EventFilter := ⟨Bytes.ascii "DNS", Rfc3339.zero, 0⟩

theorem listings_newest_iff_two : ∃ alertBucket eventBucket,
    [alertAt "a" 0, alertAt "b" 10].foldlM saveAlert ∅ = some alertBucket
      ∧ [query].foldlM Events.Stored.logEvent ∅ = some eventBucket
      ∧ Newest triggered 1
        ((alertCodec.matching (latest.keeps fun _ _ => false) [alertAt "a" 0, alertAt "b" 10]).map Prod.snd)
        (listAlerts (fun _ _ => false) latest alertBucket)
      ∧ Newest occurred 100 ((eventCodec.matching queries.keeps [query]).map Prod.snd)
        (listEventsByType queries eventBucket) := by
  have halerts : ([alertAt "a" 0, alertAt "b" 10].foldlM saveAlert ∅).isSome = true := by
    decide +kernel
  have hevents : ([query].foldlM Events.Stored.logEvent ∅).isSome = true := by
    decide +kernel
  obtain ⟨alertBucket, hsaved⟩ := Option.isSome_iff_exists.mp halerts
  obtain ⟨eventBucket, hlogged⟩ := Option.isSome_iff_exists.mp hevents
  obtain ⟨hlistAlerts, hlistEvents⟩ := listings_newest_iff (by decide) hsaved (by decide) hlogged
    (fun _ _ => false) latest queries
  refine ⟨alertBucket, eventBucket, hsaved, hlogged, hlistAlerts.mpr ?_, hlistEvents.mpr ?_⟩
  · unfold Codec.IDsFollowTime
    decide +kernel
  · unfold Codec.IDsFollowTime
    decide +kernel

/-- The greatest ID is that of the older alert, and the listing has only this one. -/
theorem older_alert_listed : ∃ b,
    [alertAt "a" 10, alertAt "b" 0].foldlM saveAlert ∅ = some b
      ∧ listAlerts (fun _ _ => false) latest b = [alertAt "b" 0]
      ∧ ¬ Newest triggered 1
        ((alertCodec.matching (latest.keeps fun _ _ => false) [alertAt "a" 10, alertAt "b" 0]).map Prod.snd)
        (listAlerts (fun _ _ => false) latest b) := by
  have hlist : ([alertAt "a" 10, alertAt "b" 0].foldlM saveAlert ∅).map
      (listAlerts (fun _ _ => false) latest) = some [alertAt "b" 0] := by
    decide +kernel
  obtain ⟨b, hsaved, hlisted⟩ := Option.map_eq_some_iff.mp hlist
  refine ⟨b, hsaved, hlisted, ?_⟩
  intro hnewest
  have hfollow := (Codec.list_newest_iff (by decide) hsaved).mp hnewest
  unfold Codec.IDsFollowTime at hfollow
  revert hfollow
  decide +kernel

end Owasaka.Repository
