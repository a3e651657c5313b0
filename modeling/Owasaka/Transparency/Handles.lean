import Owasaka.Transparency.Log

/-! # Several handles on one database

    `Open` may be called any number of times against one database, and each
    handle keeps a cache of its own.  A handle takes the next index from its
    cache, so a handle that is behind the bucket writes over a leaf that
    another handle has acknowledged.

    The main result says which runs are safe: exactly those in which every
    append that commits goes through a handle whose cache is as long as the
    leaves bucket. -/

namespace Owasaka.Transparency

open Bolt

/-- A successful `Append`: the index it returned and its leaf. -/
structure Ack where
  idx : Nat
  leaf : Leaf
  deriving DecidableEq

structure HandlesState where
  db : Db
  handles : List Tree
  /-- The appends acknowledged so far, oldest first. -/
  acks : List Ack

/-- `h` is the handle's position in `handles`; `fault` is the error of the
    call's transaction, if it fails. -/
inductive HandlesAction where
  | openHandle (fault : Option String)
  | append (h : Nat) (leaf : Leaf) (fault : Option String)

/-- The acknowledgement of a call. -/
def ackOf (leaf : Leaf) : Except TreeError Nat → List Ack
  | .ok idx => [⟨idx, leaf⟩]
  | .error _ => []

def handlesSystem (json : LeafJson) : System HandlesState HandlesAction where
  init := fun s => s = ⟨∅, [], []⟩
  step := fun s l s' =>
    match l with
    | .openHandle fault =>
      s'.acks = s.acks ∧
      ((∃ t, openTree json fault s.db = some (.ok t, s'.db) ∧ s'.handles = s.handles ++ [t])
        ∨ ∃ e, openTree json fault s.db = some (.error e, s'.db) ∧ s'.handles = s.handles)
    | .append h leaf fault =>
      ∃ t t' r, s.handles[h]? = some t
        ∧ t.append json fault leaf s.db = some (r, t', s'.db)
        ∧ s'.handles = s.handles.set h t' ∧ s'.acks = s.acks ++ ackOf leaf r

/-- Every acknowledged leaf is read back under its index, through any handle
    that covers the index, and no index was acknowledged twice. -/
structure NoLeafLost (json : LeafJson) (s : HandlesState) : Prop where
  kept : ∀ a ∈ s.acks, ∃ raw leaf, json.marshal a.leaf = .ok raw
    ∧ json.unmarshal raw = .ok leaf ∧ leaf.payload = a.leaf.payload
    ∧ ∀ t : Tree, a.idx < t.size → t.leafAt json s.db a.idx = some (.ok leaf)
  distinct : (s.acks.map Ack.idx).Nodup

/-- An append that will commit goes through a handle whose cache is as long as
    the leaves bucket. -/
def UpToDate (json : LeafJson) (s : HandlesState) : HandlesAction → Prop
  | .openHandle _ => True
  | .append h leaf fault =>
    ∀ t raw, s.handles[h]? = some t → fault = none → json.marshal leaf = .ok raw →
      t.size = (leavesBucket s.db).size

/-! ## Section 1: The invariant of up-to-date runs -/

/-- The acknowledgements are the log, in order; every cache is a prefix of it. -/
structure Shared (json : LeafJson) (s : HandlesState) (log : List (Bytes × Leaf)) : Prop where
  logged : Logged json s.db log
  caches : ∀ t ∈ s.handles, t.hashes <+: logHashes log
  idxs : s.acks.map Ack.idx = List.range log.length
  leaves : List.Forall₂
    (fun a p => json.marshal a.leaf = .ok p.1 ∧ p.2.payload = a.leaf.payload) s.acks log

variable {json : LeafJson} {s s' : HandlesState} {log : List (Bytes × Leaf)}

theorem Logged.size_leavesBucket {db : Db} (hlog : Logged json db log) :
    (leavesBucket db).size = log.length := by
  rw [← Std.ExtTreeMap.length_keys, hlog.keys, List.length_map, List.length_range]

theorem Shared.noLeafLost (hsh : Shared json s log) : NoLeafLost json s where
  kept := by
    intro a ha
    obtain ⟨i, hi, rfl⟩ := List.getElem_of_mem ha
    have hlen := hsh.leaves.length_eq
    have hidx : (s.acks[i]).idx = i := by
      have hget : (s.acks.map Ack.idx)[i]? = some i := by
        rw [hsh.idxs, List.getElem?_range (hlen ▸ hi)]
      simpa [hi] using hget
    obtain ⟨hmarshal, hpayload⟩ := hsh.leaves.get hi (hlen ▸ hi)
    have hp : log[i]? = some log[i] := List.getElem?_eq_getElem _
    refine ⟨(log[i]).1, (log[i]).2, hmarshal, ?_, hpayload, ?_⟩
    · exact hsh.logged.decodes _ (List.getElem_mem _)
    · intro t ht
      rw [hidx] at ht ⊢
      exact hsh.logged.leafAt ht hp
  distinct := by
    rw [hsh.idxs]
    exact List.nodup_range

/-- A handle's cache never runs ahead of the log. -/
theorem Shared.size_le (hsh : Shared json s log) {h : Nat} {t : Tree}
    (ht : s.handles[h]? = some t) : t.size ≤ log.length := by
  have hpre := (hsh.caches t (List.mem_of_getElem? ht)).length_le
  simpa [logHashes, Tree.size] using hpre

/-- A commit through an up-to-date handle adds a leaf and its acknowledgement. -/
theorem Shared.commit (hjson : json.RoundTripsPayload) (hsh : Shared json s log) {h : Nat}
    {t t' : Tree} {leaf : Leaf} {raw : Bytes} (ht : s.handles[h]? = some t)
    (hfresh : t.size = log.length) (hmarshal : json.marshal leaf = .ok raw)
    (hhashes : t'.hashes = t.hashes ++ [hashLeaf leaf.payload]) :
    ∃ log', Shared json
      ⟨s.db.insert bucketLeaves ((leavesBucket s.db).insert (encodeIndex t.size) raw),
        s.handles.set h t', s.acks ++ [⟨t.size, leaf⟩]⟩ log' := by
  obtain ⟨leaf', hdec, hpayload⟩ := hjson leaf raw hmarshal
  -- a prefix of the log's length is the log
  have hcache : t.hashes = logHashes log := by
    apply (hsh.caches t (List.mem_of_getElem? ht)).eq_of_length
    simpa [logHashes, Tree.size] using hfresh
  have hlen : log.length + 1 < 2 ^ 63 := by
    rw [← hfresh]
    exact Tree.size_succ_lt hhashes
  have hgrow : logHashes (log ++ [(raw, leaf')]) = logHashes log ++ [hashLeaf leaf.payload] := by
    simp [logHashes, hpayload]
  refine ⟨log ++ [(raw, leaf')], ?_, ?_, ?_, ?_⟩
  · rw [hfresh]
    exact hsh.logged.concat hdec hlen
  · intro u hu
    rw [hgrow]
    -- the handle that wrote has the whole log, the others what they had
    rcases List.mem_or_eq_of_mem_set hu with hold | rfl
    · exact (hsh.caches u hold).trans (List.prefix_append _ _)
    · exact ⟨[], by rw [List.append_nil, hhashes, hcache]⟩
  · simp [hsh.idxs, hfresh, List.range_succ]
  · exact List.rel_append hsh.leaves (List.Forall₂.cons ⟨hmarshal, hpayload⟩ List.Forall₂.nil)

theorem Shared.openHandle (hsh : Shared json s log) {fault : Option String}
    (hstep : (handlesSystem json).step s (.openHandle fault) s') : Shared json s' log := by
  obtain ⟨hacks, ⟨t, hopen, hhandles⟩ | ⟨e, hopen, hhandles⟩⟩ := hstep
  · have hin := inStep_openTree hsh.logged hopen
    refine ⟨hin.logged, ?_, by rw [hacks]; exact hsh.idxs, by rw [hacks]; exact hsh.leaves⟩
    intro u hu
    rw [hhandles, List.mem_append, List.mem_singleton] at hu
    rcases hu with hold | rfl
    · exact hsh.caches u hold
    · exact ⟨[], by rw [List.append_nil, hin.cache]⟩
  · have hdb := openTree_error hsh.logged hopen
    obtain ⟨db', handles', acks'⟩ := s'
    subst hdb hacks hhandles
    exact hsh

/-! ## Section 2: One step -/

/-- An append either changes nothing or commits under the length of its
    handle's cache. -/
theorem handles_append_cases {h : Nat} {leaf : Leaf} {fault : Option String}
    (hstep : (handlesSystem json).step s (.append h leaf fault) s') :
    ((fault = none → ∀ raw, json.marshal leaf ≠ .ok raw) ∧ s' = s)
      ∨ ∃ t t' raw, s.handles[h]? = some t ∧ json.marshal leaf = .ok raw ∧ fault = none
      ∧ t'.hashes = t.hashes ++ [hashLeaf leaf.payload]
      ∧ s' = ⟨s.db.insert bucketLeaves ((leavesBucket s.db).insert (encodeIndex t.size) raw),
          s.handles.set h t', s.acks ++ [⟨t.size, leaf⟩]⟩ := by
  obtain ⟨t, t', r, ht, happ, hhandles, hacks⟩ := hstep
  obtain ⟨db', handles', acks'⟩ := s'
  simp only at hhandles hacks happ
  rcases Tree.append_cases happ with
    ⟨e, hfails, rfl, rfl, rfl⟩ | ⟨raw, hfault, hmarshal, rfl, hhashes, rfl⟩
  · refine Or.inl ⟨hfails, ?_⟩
    have hset : s.handles.set h t' = s.handles := by
      obtain ⟨hlt, rfl⟩ := List.getElem?_eq_some_iff.mp ht
      exact List.set_getElem_self hlt
    rw [hhandles, hacks, hset]
    simp [ackOf]
  · exact Or.inr ⟨t, t', raw, ht, hmarshal, hfault, hhashes, by rw [hhandles, hacks]; rfl⟩

/-- **Step lemma**: a step that meets the condition keeps the invariant. -/
theorem shared_step (hjson : json.RoundTripsPayload) {l : HandlesAction}
    (hsh : Shared json s log) (hgood : UpToDate json s l)
    (hstep : (handlesSystem json).step s l s') : ∃ log', Shared json s' log' := by
  cases l with
  | openHandle fault => exact ⟨log, hsh.openHandle hstep⟩
  | append h leaf fault =>
    rcases handles_append_cases hstep with
      ⟨_, rfl⟩ | ⟨t, t', raw, ht, hmarshal, hfault, hhashes, rfl⟩
    · exact ⟨log, hsh⟩
    · have hfresh := hgood t raw ht hfault hmarshal
      rw [hsh.logged.size_leavesBucket] at hfresh
      exact hsh.commit hjson ht hfresh hmarshal hhashes

/-- A step that does not meet the condition acknowledges an index again. -/
theorem not_distinct_of_stale {l : HandlesAction} (hsh : Shared json s log)
    (hbad : ¬ UpToDate json s l) (hstep : (handlesSystem json).step s l s') :
    ¬ (s'.acks.map Ack.idx).Nodup := by
  cases l with
  | openHandle fault => exact absurd trivial hbad
  | append h leaf fault =>
    simp only [UpToDate, not_forall] at hbad
    obtain ⟨u, raw, hu, hfault, hmarshal, hne⟩ := hbad
    rw [hsh.logged.size_leavesBucket] at hne
    rcases handles_append_cases hstep with ⟨hfails, _⟩ | ⟨t, t', raw', ht, _, _, _, rfl⟩
    · exact absurd hmarshal (hfails hfault raw)
    · have htu : t = u := by rw [ht] at hu; exact Option.some.inj hu
      subst htu
      -- the index below the log's end was acknowledged before
      have hlt : t.size < log.length := Nat.lt_of_le_of_ne (hsh.size_le ht) hne
      intro hnodup
      rw [List.map_append, hsh.idxs, List.nodup_append] at hnodup
      exact hnodup.2.2 t.size (List.mem_range.mpr hlt) t.size (by simp) rfl

/-- Acknowledgements are never taken back. -/
theorem acks_prefix_step {l : HandlesAction} (hstep : (handlesSystem json).step s l s') :
    s.acks <+: s'.acks := by
  cases l with
  | openHandle fault =>
    exact ⟨[], by rw [List.append_nil, hstep.1]⟩
  | append h leaf fault =>
    obtain ⟨t, t', r, _, _, _, hacks⟩ := hstep
    rw [hacks]
    exact List.prefix_append _ _

/-! ## Section 3: Whole runs -/

/-- The runs whose commits all go through an up-to-date handle. -/
def upToDateSystem (json : LeafJson) : System HandlesState HandlesAction :=
  (handlesSystem json).restrict (UpToDate json)

/-- **Run lemma**: up-to-date runs keep the invariant. -/
theorem shared_of_reachable (hjson : json.RoundTripsPayload)
    (hreach : (upToDateSystem json).Reachable s) : ∃ log, Shared json s log := by
  apply hreach.invariant
  · rintro s rfl
    refine ⟨[], logged_empty json, ?_, rfl, List.Forall₂.nil⟩
    intro t ht
    exact absurd ht List.not_mem_nil
  · intro s l s' ⟨log, hsh⟩ ⟨hgood, hstep⟩
    exact shared_step hjson hsh hgood hstep

/-- A run that leaves the up-to-date ones has acknowledged an index twice. -/
theorem upToDate_or_not_distinct (hjson : json.RoundTripsPayload)
    (hreach : (handlesSystem json).Reachable s) :
    (upToDateSystem json).Reachable s ∨ ¬ (s.acks.map Ack.idx).Nodup := by
  refine hreach.invariant
    (P := fun s => (upToDateSystem json).Reachable s ∨ ¬ (s.acks.map Ack.idx).Nodup) ?_ ?_
  · intro s hinit
    exact Or.inl (System.Reachable.init hinit)
  · rintro s l s' (hup | hdup) hstep
    · by_cases hgood : UpToDate json s l
      · exact Or.inl (hup.tail ⟨hgood, hstep⟩)
      · obtain ⟨log, hsh⟩ := shared_of_reachable hjson hup
        exact Or.inr (not_distinct_of_stale hsh hgood hstep)
    · -- an index acknowledged twice stays so
      refine Or.inr fun hnodup => hdup ?_
      exact hnodup.sublist ((acks_prefix_step hstep).map Ack.idx).sublist

/-- **No leaf is lost exactly in the up-to-date runs.** -/
theorem noLeafLost_iff_upToDate (hjson : json.RoundTripsPayload)
    (hreach : (handlesSystem json).Reachable s) :
    NoLeafLost json s ↔ (upToDateSystem json).Reachable s := by
  constructor
  · intro hkept
    rcases upToDate_or_not_distinct hjson hreach with hup | hdup
    · exact hup
    · exact absurd hkept.distinct hdup
  · intro hup
    obtain ⟨log, hsh⟩ := shared_of_reachable hjson hup
    exact hsh.noLeafLost

/-- Two handles opened on one empty database. -/
def twoHandles : HandlesState :=
  ⟨bootstrap (bootstrap ∅), [⟨[], Tree.length_nil_lt⟩, ⟨[], Tree.length_nil_lt⟩], []⟩

/-- ... after an append through the first. -/
def firstAppended : HandlesState :=
  ⟨twoHandles.db.insert bucketLeaves
      ((leavesBucket twoHandles.db).insert (encodeIndex 0) (backupRaw 1)),
    [oneBackup.tree, ⟨[], Tree.length_nil_lt⟩], [⟨0, backupLeaf 1⟩]⟩

/-- ... and one through the second. -/
def bothAppended : HandlesState :=
  ⟨firstAppended.db.insert bucketLeaves
      ((leavesBucket firstAppended.db).insert (encodeIndex 0) (backupRaw 2)),
    [oneBackup.tree, ⟨[hashLeaf [2]], by simp⟩],
    [⟨0, backupLeaf 1⟩, ⟨0, backupLeaf 2⟩]⟩

theorem twoHandles_reachable (json : LeafJson) : (handlesSystem json).Reachable twoHandles := by
  have hlog := logged_empty json
  have hnone : (handlesSystem json).Reachable ⟨∅, [], []⟩ := System.Reachable.init rfl
  have hone : (handlesSystem json).Reachable ⟨bootstrap ∅, [⟨[], Tree.length_nil_lt⟩], []⟩ :=
    hnone.tail (l := .openHandle none) ⟨rfl, Or.inl ⟨_, hlog.openTree_none, rfl⟩⟩
  exact hone.tail (l := .openHandle none)
    ⟨rfl, Or.inl ⟨_, hlog.bootstrap.openTree_none, rfl⟩⟩

theorem firstAppended_reachable : (handlesSystem backupJson).Reachable firstAppended := by
  have hbucket : twoHandles.db[bucketLeaves]? = some (leavesBucket twoHandles.db) :=
    bucket_bootstrap _
  refine (twoHandles_reachable backupJson).tail (l := .append 0 (backupLeaf 1) none)
    ⟨⟨[], Tree.length_nil_lt⟩, ⟨[hashLeaf [1]], by simp⟩, .ok 0, rfl, ?_, rfl, rfl⟩
  exact Tree.append_of_marshal hbucket (backupJson_marshal (Or.inl rfl)) _

theorem bothAppended_reachable : (handlesSystem backupJson).Reachable bothAppended := by
  have hbucket : firstAppended.db[bucketLeaves]? = some (leavesBucket firstAppended.db) := by
    simp [firstAppended, leavesBucket_insert]
  refine firstAppended_reachable.tail (l := .append 1 (backupLeaf 2) none)
    ⟨⟨[], Tree.length_nil_lt⟩, ⟨[hashLeaf [2]], by simp⟩, .ok 0, rfl, ?_, rfl, rfl⟩
  exact Tree.append_of_marshal hbucket (backupJson_marshal (Or.inr rfl)) _

theorem noLeafLost_iff_upToDate_firstAppended :
    (handlesSystem backupJson).Reachable firstAppended
      ∧ (NoLeafLost backupJson firstAppended ↔ (upToDateSystem backupJson).Reachable firstAppended) :=
  ⟨firstAppended_reachable,
    noLeafLost_iff_upToDate backupJson_roundTrips firstAppended_reachable⟩

/-- The second handle's append takes the index of the first one's and replaces
    its leaf. -/
theorem stale_handle_overwrites_leaf :
    (handlesSystem backupJson).Reachable bothAppended
      ∧ bothAppended.acks = [⟨0, backupLeaf 1⟩, ⟨0, backupLeaf 2⟩]
      ∧ (∀ t ∈ bothAppended.handles,
          t.leafAt backupJson bothAppended.db 0 = some (.ok (backupLeaf 2)))
      ∧ ¬ NoLeafLost backupJson bothAppended := by
  refine ⟨bothAppended_reachable, rfl, ?_, ?_⟩
  · intro t ht
    have hsize : ¬ t.hashes = [] := by
      simp only [bothAppended, List.mem_cons, List.not_mem_nil, or_false] at ht
      rcases ht with rfl | rfl <;> simp [oneBackup]
    simp [Tree.leafAt, bothAppended, backupJson, backupRaw_ne, hsize]
  · intro hkept
    have hdup := hkept.distinct
    simp [bothAppended] at hdup

end Owasaka.Transparency
