import Owasaka.Foundation.Ascii
import Owasaka.Retention.Sweep

/-! # What a sweep removes

    A sweep collects the keys of what has expired while it reads a bucket, and deletes
    them when it has read it.  The age of an event is a difference of times that stops at
    the ends of `time.Duration`; that of an asset is compared by a cutoff.  With positive
    limits below the greatest duration both say the same: older than the limit.

    A successful sweep without compaction removes exactly what has expired, changes
    nothing else, reports what it removed, and a second one at the same time finds
    nothing left. -/

namespace Owasaka.Retention

open Bolt

/-! ## Section 1: The specification -/

/-- Positive limits below the greatest `time.Duration`. -/
structure Config.InRange (cfg : Config) : Prop where
  events : 0 < cfg.eventsDefaultTTL ∧ cfg.eventsDefaultTTL < 2 ^ 63 - 1
  alerts : 0 < cfg.alertsTTL ∧ cfg.alertsTTL < 2 ^ 63 - 1
  assets : 0 < cfg.assetsStaleTTL ∧ cfg.assetsStaleTTL < 2 ^ 63 - 1

/-- An event that can be read, has a time and is older than the limit of its type. -/
def EventExpired (cfg : Config) (codec : Codec) (now : Int) (raw : Bytes) : Prop :=
  ∃ ev, codec.event raw = some ev ∧ ev.timestamp ≠ zeroTime
    ∧ now - ev.timestamp > if ev.type = "THREAT_ALERT" then cfg.alertsTTL else cfg.eventsDefaultTTL

def AssetExpired (cfg : Config) (codec : Codec) (now : Int) (raw : Bytes) : Prop :=
  ∃ lastSeen, codec.asset raw = some lastSeen ∧ lastSeen ≠ zeroTime
    ∧ now - lastSeen > cfg.assetsStaleTTL

def isAlert (codec : Codec) (raw : Bytes) : Bool :=
  match codec.event raw with
  | none => false
  | some ev => ev.type == "THREAT_ALERT"

/-- Exactly what has expired is gone. -/
structure RemovesExpired (cfg : Config) (codec : Codec) (now : Int) (before after : Db) : Prop where
  events : ∀ key raw, lookup after "events" key = some raw ↔
    lookup before "events" key = some raw ∧ ¬ EventExpired cfg codec now raw
  assets : ∀ key raw, lookup after "assets" key = some raw ↔
    lookup before "assets" key = some raw ∧ ¬ AssetExpired cfg codec now raw
  buckets : ∀ name, name ∈ after ↔ name ∈ before
  others : ∀ name, name ≠ "events" → name ≠ "assets" → after[name]? = before[name]?

/-- The number of entries that were removed from a bucket, of those with a property. -/
def removedFrom (before after : Db) (bucket : String) (p : Bytes → Bool) : Nat :=
  (before[bucket]?.getD ∅).toList.countP fun entry =>
    p entry.2 && (lookup after bucket entry.1).isNone

/-- The counts are those of the entries that were removed. -/
structure ReportsRemoved (codec : Codec) (before after : Db) (rep : Report) : Prop where
  events : rep.eventsRemoved = removedFrom before after "events" fun raw => !isAlert codec raw
  alerts : rep.alertsRemoved = removedFrom before after "events" (isAlert codec)
  assets : rep.assetsRemoved = removedFrom before after "assets" fun _ => true

/-! ## Section 2: The decisions -/

variable {e : Engine} {codec : Codec} {now : Int} {raw key : Bytes} {db db' : Db} {s s' : Store}
  {env : SweepEnv} {rep : Report}

theorem timeSub_gt_iff {t u ttl : Int} (hpos : 0 < ttl) (hlt : ttl < 2 ^ 63 - 1) :
    timeSub t u > ttl ↔ t - u > ttl := by
  unfold timeSub
  omega

theorem shouldDropEvent_alert (e : Engine) (codec : Codec) (raw : Bytes) (now : Int) :
    (e.shouldDropEvent codec raw now).2 = isAlert codec raw := by
  unfold Engine.shouldDropEvent isAlert
  cases codec.event raw with
  | none => rfl
  | some ev =>
    simp only
    split <;> split <;> rfl

/-- The limit of the event's type. -/
def Config.limitOf (cfg : Config) (codec : Codec) (raw : Bytes) : Int :=
  if isAlert codec raw then cfg.alertsTTL else cfg.eventsDefaultTTL

theorem shouldDropEvent_iff_of_limit (hpos : 0 < e.cfg.limitOf codec raw)
    (hlt : e.cfg.limitOf codec raw < 2 ^ 63 - 1) :
    (e.shouldDropEvent codec raw now).1 = true ↔ EventExpired e.cfg codec now raw := by
  unfold Config.limitOf isAlert at hpos hlt
  unfold Engine.shouldDropEvent EventExpired
  cases hread : codec.event raw with
  | none => simp
  | some ev =>
    -- the two kinds of events differ in their limit only
    have hlimit : ∀ ttl, 0 < ttl ∧ ttl < 2 ^ 63 - 1 →
        ((if ttl = 0 ∨ ev.timestamp = zeroTime then (false, ev.type == "THREAT_ALERT")
          else (decide (timeSub now ev.timestamp > ttl), ev.type == "THREAT_ALERT")).1 = true
          ↔ ev.timestamp ≠ zeroTime ∧ now - ev.timestamp > ttl) := by
      rintro ttl ⟨hpos, hlt⟩
      have hne : ttl ≠ 0 := by omega
      by_cases hzero : ev.timestamp = zeroTime
      · simp [hzero]
      · simp only [hne, hzero, or_self, if_false, decide_eq_true_eq, ne_eq, not_false_eq_true,
          true_and]
        exact timeSub_gt_iff hpos hlt
    simp only [hread] at hpos hlt
    simp only [Option.some.injEq, exists_eq_left']
    by_cases halert : ev.type = "THREAT_ALERT"
    · have hbeq : (ev.type == "THREAT_ALERT") = true := beq_iff_eq.mpr halert
      simp only [hbeq, if_true] at hlimit hpos hlt ⊢
      rw [if_pos halert]
      exact hlimit _ ⟨hpos, hlt⟩
    · have hbeq : (ev.type == "THREAT_ALERT") = false := beq_eq_false_iff_ne.mpr halert
      simp only [hbeq, Bool.false_eq_true, if_false] at hlimit hpos hlt ⊢
      rw [if_neg halert]
      exact hlimit _ ⟨hpos, hlt⟩

theorem Config.InRange.limitOf {cfg : Config} (hcfg : cfg.InRange) (codec : Codec) (raw : Bytes) :
    0 < cfg.limitOf codec raw ∧ cfg.limitOf codec raw < 2 ^ 63 - 1 := by
  unfold Config.limitOf
  split
  · exact hcfg.alerts
  · exact hcfg.events

theorem shouldDropEvent_iff (hcfg : e.cfg.InRange) :
    (e.shouldDropEvent codec raw now).1 = true ↔ EventExpired e.cfg codec now raw :=
  shouldDropEvent_iff_of_limit (hcfg.limitOf codec raw).1 (hcfg.limitOf codec raw).2

theorem assetIsStale_iff (hpos : 0 < e.cfg.assetsStaleTTL) (hlt : e.cfg.assetsStaleTTL < 2 ^ 63 - 1) :
    assetIsStale codec raw (now + (-e.cfg.assetsStaleTTL).bmod (2 ^ 64)) = true
      ↔ AssetExpired e.cfg codec now raw := by
  have hneg : (-e.cfg.assetsStaleTTL).bmod (2 ^ 64) = -e.cfg.assetsStaleTTL := by
    apply Int.bmod_eq_of_le <;> omega
  unfold assetIsStale AssetExpired
  rw [hneg]
  cases hread : codec.asset raw with
  | none => simp
  | some lastSeen =>
    simp only [Option.some.injEq, exists_eq_left']
    by_cases hzero : lastSeen = zeroTime
    · simp [hzero]
    · simp only [hzero, if_false, decide_eq_true_eq, ne_eq, not_false_eq_true, true_and]
      omega

/-! ## Section 3: The keys that are deleted -/

theorem mem_toList_bucket {name : String} {raw : Bytes} :
    (key, raw) ∈ (db[name]?.getD ∅).toList ↔ lookup db name key = some raw := by
  unfold lookup
  cases hb : db[name]? with
  | none => simp
  | some b =>
    simp only [Option.getD_some, Option.bind_some]
    exact Std.ExtTreeMap.mem_toList_iff_getElem?_eq_some

theorem expiredEvents_eq (e : Engine) (codec : Codec) (now : Int) (db : Db) :
    e.expiredEvents codec now db = (db["events"]?.getD ∅).toList.filterMap fun entry =>
      let drop := e.shouldDropEvent codec entry.2 now
      if drop.1 then some (entry.1, drop.2) else none := by
  unfold Engine.expiredEvents
  cases db["events"]? with
  | none => simp
  | some b => rfl

theorem staleAssets_eq (e : Engine) (codec : Codec) (now : Int) (db : Db) :
    e.staleAssets codec now db = (db["assets"]?.getD ∅).toList.filterMap fun entry =>
      if assetIsStale codec entry.2 (now + (-e.cfg.assetsStaleTTL).bmod (2 ^ 64)) then some entry.1
      else none := by
  unfold Engine.staleAssets
  cases db["assets"]? with
  | none => simp
  | some b => rfl

theorem mem_expiredEvents_iff :
    key ∈ (e.expiredEvents codec now db).map Prod.fst
      ↔ ∃ raw, lookup db "events" key = some raw ∧ (e.shouldDropEvent codec raw now).1 = true := by
  rw [expiredEvents_eq, List.mem_map]
  constructor
  · rintro ⟨⟨key', alert⟩, hmem, rfl⟩
    obtain ⟨⟨key, raw⟩, hentry, hdrop⟩ := List.mem_filterMap.mp hmem
    simp only [Option.ite_none_right_eq_some, Option.some.injEq, Prod.mk.injEq] at hdrop
    obtain ⟨hdrop, rfl, rfl⟩ := hdrop
    exact ⟨raw, mem_toList_bucket.mp hentry, hdrop⟩
  · rintro ⟨raw, hlookup, hdrop⟩
    refine ⟨(key, (e.shouldDropEvent codec raw now).2), ?_, rfl⟩
    exact List.mem_filterMap.mpr ⟨(key, raw), mem_toList_bucket.mpr hlookup, by simp [hdrop]⟩

theorem mem_staleAssets_iff :
    key ∈ e.staleAssets codec now db ↔ ∃ raw, lookup db "assets" key = some raw
      ∧ assetIsStale codec raw (now + (-e.cfg.assetsStaleTTL).bmod (2 ^ 64)) = true := by
  rw [staleAssets_eq, List.mem_filterMap]
  constructor
  · rintro ⟨⟨key', raw⟩, hentry, hdrop⟩
    simp only [Option.ite_none_right_eq_some, Option.some.injEq] at hdrop
    obtain ⟨hstale, rfl⟩ := hdrop
    exact ⟨raw, mem_toList_bucket.mp hentry, hstale⟩
  · rintro ⟨raw, hlookup, hstale⟩
    exact ⟨(key, raw), mem_toList_bucket.mpr hlookup, if_pos hstale⟩

theorem mem_expiredEvents (hcfg : e.cfg.InRange) :
    key ∈ (e.expiredEvents codec now db).map Prod.fst
      ↔ ∃ raw, lookup db "events" key = some raw ∧ EventExpired e.cfg codec now raw := by
  rw [mem_expiredEvents_iff]
  simp only [shouldDropEvent_iff hcfg]

theorem mem_staleAssets (hcfg : e.cfg.InRange) :
    key ∈ e.staleAssets codec now db
      ↔ ∃ raw, lookup db "assets" key = some raw ∧ AssetExpired e.cfg codec now raw := by
  rw [mem_staleAssets_iff]
  simp only [assetIsStale_iff hcfg.assets.1 hcfg.assets.2]

/-! ## Section 4: A sweep as two deletions -/

/-- A committed transaction that deletes keys of one bucket. -/
theorem deletes_of_update {fault : Option TxFault} {name : String} {keys : Db → List Bytes}
    {ws : List Write}
    (hok : s.update fault (fun db => .ok ((keys db).map (.delete name))) = .ok (ws, s')) :
    fault = none ∧ Deletes name (keys s.db) s.db s'.db := by
  obtain ⟨hfault, hws, db, hall, hs'⟩ := Store.update_cases hok
  obtain rfl := Except.ok.inj hws
  refine ⟨hfault, ?_⟩
  rw [hs', Store.db_write]
  exact deletes_of_writeAll hall

theorem eventsTx_eq (e : Engine) (codec : Codec) (now : Int) : e.eventsTx codec now
    = fun db => .ok (((e.expiredEvents codec now db).map Prod.fst).map (.delete "events")) := by
  funext db
  unfold Engine.eventsTx
  rw [List.map_map]
  rfl

/-- What a successful sweep without compaction does. -/
structure SweepsTwice (e : Engine) (codec : Codec) (now : Int) (before middle after : Db)
    (rep : Report) : Prop where
  events : Deletes "events" ((e.expiredEvents codec now before).map Prod.fst) before middle
  assets : Deletes "assets" (e.staleAssets codec now middle) middle after
  eventsRemoved : rep.eventsRemoved = (e.expiredEvents codec now before).countP fun entry => !entry.2
  alertsRemoved : rep.alertsRemoved = (e.expiredEvents codec now before).countP fun entry => entry.2
  assetsRemoved : rep.assetsRemoved = (e.staleAssets codec now middle).length

theorem sweepsTwice_of_sweep (hoff : e.cfg.compactionFreelistThreshold ≤ 0)
    (hsweep : e.sweep codec env s = (rep, none, s')) :
    ∃ middle, SweepsTwice e codec env.now s.db middle s'.db rep := by
  have hnot : ¬ e.cfg.compactionFreelistThreshold > 0 := by omega
  unfold Engine.sweep at hsweep
  cases hctx : env.ctxErr with
  | some msg => simp [hctx] at hsweep
  | none =>
    simp only [hctx, Engine.sweepEvents] at hsweep
    cases hevents : s.update env.eventsFault (e.eventsTx codec env.now) with
    | error msg => simp [hevents] at hsweep
    | ok result =>
      obtain ⟨ws, s₁⟩ := result
      simp only [hevents, Engine.sweepAssets] at hsweep
      cases hassets : s₁.update env.assetsFault (e.assetsTx codec env.now) with
      | error msg => simp [hassets] at hsweep
      | ok result' =>
        obtain ⟨ws', s₂⟩ := result'
        rw [eventsTx_eq] at hevents
        obtain ⟨hnone, hdeletes⟩ := deletes_of_update hevents
        obtain ⟨hnone', hdeletes'⟩ := deletes_of_update hassets
        simp only [hassets] at hsweep
        simp only [hnone, hnone', TxFault.runs, Engine.sweepCompact, Engine.compacts, hnot,
          decide_false, Bool.false_and, Bool.false_eq_true, if_false, if_true, Nat.zero_add,
          Prod.mk.injEq, true_and] at hsweep
        obtain ⟨rfl, rfl⟩ := hsweep
        exact ⟨s₁.db, hdeletes, hdeletes', rfl, rfl, rfl⟩

/-! ## Section 5: Exactly what has expired -/

theorem SweepsTwice.lookup_assets {middle : Db} (htwice : SweepsTwice e codec now db middle db' rep)
    (key : Bytes) : lookup middle "assets" key = lookup db "assets" key := by
  unfold lookup
  rw [htwice.events.others "assets" (by decide)]

theorem SweepsTwice.lookup_events {middle : Db} (htwice : SweepsTwice e codec now db middle db' rep)
    (key : Bytes) : lookup db' "events" key = lookup middle "events" key := by
  unfold lookup
  rw [htwice.assets.others "events" (by decide)]

/-- A key is left with its value when it is not among the deleted ones. -/
theorem lookup_left_iff {name : String} {keys : List Bytes} {Expired : Bytes → Prop}
    (hdeletes : Deletes name keys db db')
    (hkeys : ∀ key, key ∈ keys ↔ ∃ raw, lookup db name key = some raw ∧ Expired raw) :
    lookup db' name key = some raw ↔ lookup db name key = some raw ∧ ¬ Expired raw := by
  rw [hdeletes.lookup_eq]
  by_cases hmem : key ∈ keys
  · rw [if_pos hmem]
    obtain ⟨raw', hlookup, hexpired⟩ := (hkeys key).mp hmem
    constructor
    · intro h
      contradiction
    · rintro ⟨hraw, hnot⟩
      rw [hlookup, Option.some.injEq] at hraw
      exact absurd (hraw ▸ hexpired) hnot
  · rw [if_neg hmem]
    constructor
    · intro hlookup
      exact ⟨hlookup, fun hexpired => hmem ((hkeys key).mpr ⟨raw, hlookup, hexpired⟩)⟩
    · intro h
      exact h.1

theorem SweepsTwice.removesExpired (hcfg : e.cfg.InRange) {middle : Db}
    (htwice : SweepsTwice e codec now db middle db' rep) : RemovesExpired e.cfg codec now db db' := by
  refine ⟨?_, ?_, ?_, ?_⟩
  · intro key raw
    rw [htwice.lookup_events]
    exact lookup_left_iff htwice.events fun key => mem_expiredEvents hcfg
  · intro key raw
    rw [← htwice.lookup_assets]
    exact lookup_left_iff htwice.assets fun key => mem_staleAssets hcfg
  · intro name
    rw [htwice.assets.buckets, htwice.events.buckets]
  · intro name hevents hassets
    rw [htwice.assets.others name hassets, htwice.events.others name hevents]

/-- The entries removed are those at the deleted keys. -/
theorem removedFrom_eq {bucket : String} {p drop : Bytes → Bool}
    (hleft : ∀ key raw, lookup db bucket key = some raw →
      ((lookup db' bucket key).isNone = true ↔ drop raw = true)) :
    removedFrom db db' bucket p
      = (db[bucket]?.getD ∅).toList.countP fun entry => p entry.2 && drop entry.2 := by
  unfold removedFrom
  apply List.countP_congr
  rintro ⟨key, raw⟩ hentry
  have hiff := hleft key raw (mem_toList_bucket.mp hentry)
  simp only [Bool.and_eq_true, hiff]

theorem isNone_iff {name : String} {Expired : Bytes → Prop}
    (hleft : ∀ raw, lookup db' name key = some raw ↔ lookup db name key = some raw ∧ ¬ Expired raw)
    (hlookup : lookup db name key = some raw) :
    (lookup db' name key).isNone = true ↔ Expired raw := by
  rw [Option.isNone_iff_eq_none]
  constructor
  · intro hnone
    by_contra hnot
    have hkept := (hleft raw).mpr ⟨hlookup, hnot⟩
    rw [hnone] at hkept
    contradiction
  · intro hexpired
    rw [Option.eq_none_iff_forall_ne_some]
    intro raw' hkept
    obtain ⟨hlookup', hnot⟩ := (hleft raw').mp hkept
    rw [hlookup, Option.some.injEq] at hlookup'
    exact hnot (hlookup' ▸ hexpired)

theorem SweepsTwice.reportsRemoved (hcfg : e.cfg.InRange) {middle : Db}
    (htwice : SweepsTwice e codec now db middle db' rep) : ReportsRemoved codec db db' rep := by
  have hremoves := htwice.removesExpired hcfg
  have hevents : ∀ key raw, lookup db "events" key = some raw →
      ((lookup db' "events" key).isNone = true ↔ (e.shouldDropEvent codec raw now).1 = true) := by
    intro key raw hlookup
    rw [isNone_iff (hremoves.events key) hlookup, shouldDropEvent_iff hcfg]
  have hassets : ∀ key raw, lookup db "assets" key = some raw →
      ((lookup db' "assets" key).isNone = true
        ↔ assetIsStale codec raw (now + (-e.cfg.assetsStaleTTL).bmod (2 ^ 64)) = true) := by
    intro key raw hlookup
    rw [isNone_iff (hremoves.assets key) hlookup, assetIsStale_iff hcfg.assets.1 hcfg.assets.2]
  -- the second transaction finds the assets as the first call did
  have hsame : middle["assets"]? = db["assets"]? := htwice.events.others "assets" (by decide)
  refine ⟨?_, ?_, ?_⟩
  · rw [htwice.eventsRemoved, expiredEvents_eq, removedFrom_eq hevents, List.countP_filterMap]
    apply List.countP_congr
    rintro ⟨key, raw⟩ _
    rw [← shouldDropEvent_alert e codec raw now]
    cases hdrop : (e.shouldDropEvent codec raw now).1 <;> simp [hdrop]
  · rw [htwice.alertsRemoved, expiredEvents_eq, removedFrom_eq hevents, List.countP_filterMap]
    apply List.countP_congr
    rintro ⟨key, raw⟩ _
    rw [← shouldDropEvent_alert e codec raw now]
    cases hdrop : (e.shouldDropEvent codec raw now).1 <;> simp [hdrop]
  · rw [htwice.assetsRemoved, staleAssets_eq, removedFrom_eq hassets, hsame,
      List.length_filterMap_eq_countP]
    apply List.countP_congr
    rintro ⟨key, raw⟩ _
    cases assetIsStale codec raw (now + (-e.cfg.assetsStaleTTL).bmod (2 ^ 64)) <;> simp

/-! ## Section 6: A second sweep -/

theorem expiredEvents_eq_nil (hcfg : e.cfg.InRange)
    (hnone : ∀ key raw, lookup db "events" key = some raw → ¬ EventExpired e.cfg codec now raw) :
    e.expiredEvents codec now db = [] := by
  rw [← List.map_eq_nil_iff, List.eq_nil_iff_forall_not_mem]
  intro key hmem
  obtain ⟨raw, hlookup, hexpired⟩ := (mem_expiredEvents hcfg).mp hmem
  exact hnone key raw hlookup hexpired

theorem staleAssets_eq_nil (hcfg : e.cfg.InRange)
    (hnone : ∀ key raw, lookup db "assets" key = some raw → ¬ AssetExpired e.cfg codec now raw) :
    e.staleAssets codec now db = [] := by
  rw [List.eq_nil_iff_forall_not_mem]
  intro key hmem
  obtain ⟨raw, hlookup, hexpired⟩ := (mem_staleAssets hcfg).mp hmem
  exact hnone key raw hlookup hexpired

/-- Nothing is deleted, and nothing counted. -/
structure Idle (before after : Db) (rep : Report) : Prop where
  same : after = before
  eventsRemoved : rep.eventsRemoved = 0
  alertsRemoved : rep.alertsRemoved = 0
  assetsRemoved : rep.assetsRemoved = 0

/-- After a sweep, another one at the same time finds nothing to delete. -/
theorem SweepsTwice.idle (hcfg : e.cfg.InRange) {before middle : Db}
    (hremoves : RemovesExpired e.cfg codec now before db)
    (htwice : SweepsTwice e codec now db middle db' rep) : Idle db db' rep := by
  have hevents : e.expiredEvents codec now db = [] :=
    expiredEvents_eq_nil hcfg fun key raw hlookup => ((hremoves.events key raw).mp hlookup).2
  have hfirst : middle = db := by
    have hdeletes := htwice.events
    rw [hevents, List.map_nil] at hdeletes
    exact hdeletes.eq_of_nil
  have hassets : e.staleAssets codec now middle = [] := by
    rw [hfirst]
    exact staleAssets_eq_nil hcfg fun key raw hlookup => ((hremoves.assets key raw).mp hlookup).2
  have hsecond : db' = middle := by
    have hdeletes := htwice.assets
    rw [hassets] at hdeletes
    exact hdeletes.eq_of_nil
  refine ⟨hsecond.trans hfirst, ?_, ?_, ?_⟩
  · rw [htwice.eventsRemoved, hevents]
    rfl
  · rw [htwice.alertsRemoved, hevents]
    rfl
  · rw [htwice.assetsRemoved, hassets]
    rfl

/-- Keys of a bucket that is there can be deleted in a transaction of which nothing fails. -/
theorem exists_update (s : Store) {name : String} {keys : Db → List Bytes}
    (hmem : s.db[name]? = none → keys s.db = []) :
    ∃ ws s', s.update none (fun db => .ok ((keys db).map (.delete name))) = .ok (ws, s') := by
  obtain ⟨db, hall⟩ : ∃ db, writeAll ((keys s.db).map (.delete name)) s.db = some db := by
    cases hbucket : s.db[name]? with
    | none =>
      rw [hmem hbucket]
      exact ⟨s.db, rfl⟩
    | some b => exact exists_writeAll_deletes (mem_of_getElem?_eq_some hbucket) _
  refine ⟨(keys s.db).map (.delete name), { s with disk := s.disk.write s.file (some db) }, ?_⟩
  simp only [Store.update, bind, Except.bind, hall]

/-- A sweep of which nothing fails is successful. -/
theorem exists_sweep (e : Engine) (codec : Codec) (s : Store) (hctx : env.ctxErr = none)
    (hevents : env.eventsFault = none) (hassets : env.assetsFault = none) :
    ∃ rep s', e.sweep codec env s = (rep, none, s') := by
  have hnoEvents : ∀ db : Db, db["events"]? = none →
      (e.expiredEvents codec env.now db).map Prod.fst = [] := by
    intro db hbucket
    rw [expiredEvents_eq, hbucket]
    rfl
  have hnoAssets : ∀ db : Db, db["assets"]? = none → e.staleAssets codec env.now db = [] := by
    intro db hbucket
    rw [staleAssets_eq, hbucket]
    rfl
  obtain ⟨ws, s₁, hfirst⟩ := @exists_update s "events"
    (fun db => (e.expiredEvents codec env.now db).map Prod.fst) (hnoEvents s.db)
  obtain ⟨ws', s₂, hsecond⟩ := @exists_update s₁ "assets" (e.staleAssets codec env.now) (hnoAssets s₁.db)
  rw [← eventsTx_eq] at hfirst
  have hassetsTx : s₁.update none (e.assetsTx codec env.now) = .ok (ws', s₂) := hsecond
  unfold Engine.sweep
  simp only [hctx, hevents, hassets, Engine.sweepEvents, hfirst, Engine.sweepAssets, hassetsTx]
  exact ⟨_, _, rfl⟩

/-- A successful sweep without compaction removes exactly what has expired, changes nothing
    else and reports the numbers of what it removed; after it, a sweep at the same time
    deletes nothing. -/
theorem sweep_removes_exactly_expired (hcfg : e.cfg.InRange)
    (hoff : e.cfg.compactionFreelistThreshold ≤ 0)
    (hsweep : e.sweep codec env s = (rep, none, s')) :
    RemovesExpired e.cfg codec env.now s.db s'.db ∧ ReportsRemoved codec s.db s'.db rep
      ∧ ∀ env' rep' s'', env'.now = env.now → e.sweep codec env' s' = (rep', none, s'') →
        Idle s'.db s''.db rep' := by
  obtain ⟨middle, htwice⟩ := sweepsTwice_of_sweep hoff hsweep
  refine ⟨htwice.removesExpired hcfg, htwice.reportsRemoved hcfg, ?_⟩
  intro env' rep' s'' hnow hsweep'
  obtain ⟨middle', htwice'⟩ := sweepsTwice_of_sweep hoff hsweep'
  rw [hnow] at htwice'
  exact htwice'.idle hcfg (htwice.removesExpired hcfg)

/-- Every limit is a day, and there is no compaction. -/
def dayEngine : Engine := ⟨⟨day, day, day, day, 0⟩⟩

/-- A DNS event of the epoch. -/
def epochEvent : Bytes :=
  Bytes.ascii "\x7b\"type\":\"DNS\",\"timestamp\":\"1970-01-01T00:00:00Z\"\x7d"

/-- Reads this event, and nothing else. -/
def epochCodec : Codec where
  event raw := if raw = epochEvent then some ⟨"DNS", 0⟩ else none
  asset _ := none

def epochStore : Store where
  disk := (Disk.empty none).createNew "owasaka.db"
    (some ((∅ : Db).insert "events" ((∅ : Bucket).insert (Bytes.ascii "event-1") epochEvent)))
  path := "owasaka.db"
  file := 0

/-- Two days later, without failures. -/
def twoDaysLater : SweepEnv := ⟨none, 2 * day, none, none, 0, none, none, 2 * day⟩

theorem dayEngine_inRange : dayEngine.cfg.InRange := by
  have hday : 0 < day ∧ day < 2 ^ 63 - 1 := by decide
  exact ⟨hday, hday, hday⟩

theorem sweep_removes_exactly_expired_epoch : ∃ rep s',
    dayEngine.sweep epochCodec twoDaysLater epochStore = (rep, none, s')
      ∧ RemovesExpired dayEngine.cfg epochCodec twoDaysLater.now epochStore.db s'.db
      ∧ ReportsRemoved epochCodec epochStore.db s'.db rep
      ∧ ∀ env' rep' s'', env'.now = twoDaysLater.now →
        dayEngine.sweep epochCodec env' s' = (rep', none, s'') → Idle s'.db s''.db rep' := by
  obtain ⟨rep, s', hsweep⟩ := @exists_sweep twoDaysLater dayEngine epochCodec epochStore rfl rfl rfl
  exact ⟨rep, s', hsweep, sweep_removes_exactly_expired dayEngine_inRange (le_refl 0) hsweep⟩

end Owasaka.Retention
