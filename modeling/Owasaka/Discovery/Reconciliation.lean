import Mathlib.Algebra.Ring.Nat
import Owasaka.Discovery.Drift
import Owasaka.Foundation.KeyedReplay

/-! # The reconciliation loop (`discovery/reconciliation/engine.go`)

    The engine keeps the last listing of the assets.  At each tick it lists them again,
    pushes one alert for each change and one summary for all of them, and keeps the new
    listing.  A tick at which the listing fails changes nothing.

    ## Abstract view

    Somebody who saw the assets at the start and then reads nothing but the alerts knows
    address, hostname and system of every asset as of the last listing. -/

namespace Owasaka.Discovery

/-! ## Section 1: Events -/

/-- The values of the metadata that the engine writes. -/
inductive MetaValue where
  | text (s : String)
  | fields (f : Fields)
  | count (n : Nat)

abbrev Metadata : Type := Std.ExtTreeMap String MetaValue

/-- `models.NetworkEvent`, with what the engine sets. -/
structure DriftEvent where
  type : String
  source : String
  destination : String
  metadata : Metadata

def ChangeType.text : ChangeType → String
  | .added => "ASSET_ADDED"
  | .removed => "ASSET_REMOVED"
  | .modified => "ASSET_MODIFIED"

def countByType (changes : List Change) (ct : ChangeType) : Nat :=
  changes.countP fun c => c.type = ct

def severityFor : ChangeType → String
  | .removed => "high"
  | .modified => "medium"
  | .added => "low"

/-- The event for one change. -/
def alertEvent (ch : Change) : DriftEvent where
  type := "THREAT_ALERT"
  source := "reconciliation"
  destination := ch.assetID
  metadata :=
    (((Std.ExtTreeMap.insert ∅ "change_type" (.text ch.type.text)).insert
      "asset_id" (.text ch.assetID)).insert
      "fields" (.fields ch.fields)).insert
      "severity" (.text (severityFor ch.type))

/-- The event for all changes of a tick. -/
def summaryEvent (changes : List Change) (curr : List Asset) : DriftEvent where
  type := "VM"
  source := "reconciliation"
  destination := "drift-summary"
  metadata :=
    ((((Std.ExtTreeMap.insert ∅ "total_changes" (.count changes.length)).insert
      "added" (.count (countByType changes .added))).insert
      "removed" (.count (countByType changes .removed))).insert
      "modified" (.count (countByType changes .modified))).insert
      "total_assets" (.count curr.length)

/-! ## Section 2: The loop -/

/-- What `reconcile` reads of `ReconciliationConfig`. -/
structure ReconciliationConfig where
  alertOnChange : Bool
  trackHistory : Bool

/-- The last listing, and what was pushed into the pipeline. -/
structure Engine where
  prev : List Asset
  pushed : List DriftEvent

/-- What a tick finds: the listing or its error, and the orders of iteration. -/
structure Tick where
  listing : Except String (List Asset)
  current : Visit (String × Asset)
  previous : Visit (String × Asset)

/-- The baseline that the goroutine of `Start` captures. -/
def Engine.start (listing : Except String (List Asset)) : Engine :=
  match listing with
  | .ok assets => ⟨assets, []⟩
  | .error _ => ⟨[], []⟩

def Engine.reconcile (cfg : ReconciliationConfig) (e : Engine) (tick : Tick) : Engine :=
  match tick.listing with
  | .error _ => e
  | .ok curr =>
    let changes := diff tick.current tick.previous e.prev curr
    if changes.length = 0 then { e with prev := curr }
    else
      let alerts := if cfg.alertOnChange then changes.map alertEvent else []
      let summary := if cfg.trackHistory then [summaryEvent changes curr] else []
      ⟨curr, e.pushed ++ alerts ++ summary⟩

/-- The loop over the ticks. -/
def Engine.run (cfg : ReconciliationConfig) (e : Engine) (ticks : List Tick) : Engine :=
  ticks.foldl (Engine.reconcile cfg) e

/-! ## Section 3: What the alerts tell -/

/-- What the alerts tell about an asset. -/
structure KnownHost where
  ip : String
  hostname : String
  os : String
  deriving DecidableEq

abbrev Inventory : Type := String → Option KnownHost

/-- The inventory of a listing; the last asset with an ID counts. -/
def known (assets : List Asset) : Inventory := fun id =>
  ((indexAssets assets)[id]?).map fun a => ⟨a.ip, a.hostname, a.os⟩

def addedText (fields : Fields) (name : String) : String :=
  match fields[name]? with
  | some (.text s) => s
  | _ => ""

def newText (fields : Fields) (name old : String) : String :=
  match fields[name]? with
  | some (.texts _ new) => new
  | _ => old

/-- The asset that the event is about. -/
def alertKey (ev : DriftEvent) : Option String :=
  match ev.metadata["asset_id"]? with
  | some (.text id) => some id
  | _ => none

/-- What a reader of the event takes over. -/
def alertEffect (ev : DriftEvent) (host : Option KnownHost) : Option KnownHost :=
  match ev.metadata["change_type"]?, ev.metadata["fields"]? with
  | some (.text type), some (.fields fields) =>
    if type = "ASSET_ADDED" then
      some ⟨addedText fields "ip", addedText fields "hostname", addedText fields "os"⟩
    else if type = "ASSET_REMOVED" then none
    else host.map fun h =>
      ⟨newText fields "ip" h.ip, newText fields "hostname" h.hostname, newText fields "os" h.os⟩
  | _, _ => host

variable {cfg : ReconciliationConfig} {e : Engine} {tick : Tick} {ch : Change}
  {current previous : Visit (String × Asset)} {prev curr : List Asset} {p c : Asset} {id : String}

/-- What the event for a change says of it. -/
theorem metadata_alertEvent (ch : Change) :
    (alertEvent ch).metadata["change_type"]? = some (.text ch.type.text)
      ∧ (alertEvent ch).metadata["asset_id"]? = some (.text ch.assetID)
      ∧ (alertEvent ch).metadata["fields"]? = some (.fields ch.fields) := by
  simp only [alertEvent, getElem?_insert_ite, String.reduceEq, if_true, if_false, and_self]

theorem alertKey_alertEvent (ch : Change) : alertKey (alertEvent ch) = some ch.assetID := by
  simp only [alertKey, (metadata_alertEvent ch).2.1]

theorem alertKey_summaryEvent (changes : List Change) (curr : List Asset) :
    alertKey (summaryEvent changes curr) = none := by
  simp only [alertKey, summaryEvent, getElem?_insert_ite, String.reduceEq, if_false,
    Std.ExtTreeMap.getElem?_empty]

theorem alertEffect_alertEvent (ch : Change) (host : Option KnownHost) :
    alertEffect (alertEvent ch) host
      = if ch.type.text = "ASSET_ADDED" then
          some ⟨addedText ch.fields "ip", addedText ch.fields "hostname", addedText ch.fields "os"⟩
        else if ch.type.text = "ASSET_REMOVED" then none
        else host.map fun h => ⟨newText ch.fields "ip" h.ip, newText ch.fields "hostname" h.hostname,
          newText ch.fields "os" h.os⟩ := by
  obtain ⟨htype, _, hfields⟩ := metadata_alertEvent ch
  simp only [alertEffect, htype, hfields]

theorem alertEffect_added (id : String) (c : Asset) (host : Option KnownHost) :
    alertEffect (alertEvent (addition id c)) host = some ⟨c.ip, c.hostname, c.os⟩ := by
  simp only [alertEffect_alertEvent, addition, ChangeType.text, addedText, getElem?_insert_ite,
    String.reduceEq, if_true, if_false]

theorem alertEffect_removed (id : String) (host : Option KnownHost) :
    alertEffect (alertEvent ⟨.removed, id, ∅⟩) host = none := by
  simp only [alertEffect_alertEvent, ChangeType.text, String.reduceEq, if_true, if_false]

theorem getElem?_enterText (name key old new : String) (fields : Fields) :
    (enterText key old new fields)[name]?
      = if name = key ∧ old ≠ new then some (.texts old new) else fields[name]? := by
  unfold enterText
  by_cases hne : old ≠ new
  · rw [if_pos hne, getElem?_insert_ite]
    simp only [hne, ne_eq, not_false_eq_true, and_true]
  · rw [if_neg hne, if_neg fun h => hne h.2]

/-- A text that has changed is entered, and one that has not is the same. -/
theorem newText_diffAsset (p c : Asset) :
    newText (diffAsset p c) "ip" p.ip = c.ip
      ∧ newText (diffAsset p c) "hostname" p.hostname = c.hostname
      ∧ newText (diffAsset p c) "os" p.os = c.os := by
  have hports : ∀ name ≠ "ports", (diffAsset p c)[name]?
      = (enterText "os" p.os c.os (enterText "hostname" p.hostname c.hostname
          (enterText "mac" p.mac c.mac (enterText "ip" p.ip c.ip ∅))))[name]? := by
    intro name hne
    unfold diffAsset
    cases portsEqual p.ports c.ports with
    | true => rfl
    | false =>
      simp only [Bool.not_false, if_true, getElem?_insert_ite, if_neg hne]
  unfold newText
  rw [hports "ip" (by decide), hports "hostname" (by decide), hports "os" (by decide)]
  simp only [getElem?_enterText, String.reduceEq, false_and, true_and, if_false,
    Std.ExtTreeMap.getElem?_empty]
  refine ⟨?_, ?_, ?_⟩
  · by_cases hsame : p.ip = c.ip <;> simp [hsame]
  · by_cases hsame : p.hostname = c.hostname <;> simp [hsame]
  · by_cases hsame : p.os = c.os <;> simp [hsame]

theorem alertEffect_modified (id : String) (p c : Asset) :
    alertEffect (alertEvent ⟨.modified, id, diffAsset p c⟩) (some ⟨p.ip, p.hostname, p.os⟩)
      = some ⟨c.ip, c.hostname, c.os⟩ := by
  obtain ⟨hip, hhostname, hos⟩ := newText_diffAsset p c
  simp [alertEffect_alertEvent, ChangeType.text, hip, hhostname, hos]

/-! ## Section 4: The alerts of one tick -/

theorem mem_visit_iff (visit : Visit (String × Asset)) (m : Std.ExtTreeMap String Asset)
    (entry : String × Asset) : entry ∈ visit.list m.toList ↔ m[entry.1]? = some entry.2 := by
  rw [(visit.perm _).mem_iff, ← Std.ExtTreeMap.mem_toList_iff_getElem?_eq_some]

theorem assetID_of_currentChange {m : Std.ExtTreeMap String Asset} {entry : String × Asset}
    (hch : currentChange m entry = some ch) : ch.assetID = entry.1 := by
  unfold currentChange at hch
  split at hch
  · exact Option.some.inj hch ▸ rfl
  · simp only [Option.ite_none_right_eq_some] at hch
    exact Option.some.inj hch.2 ▸ rfl

theorem previousChange_cases {m : Std.ExtTreeMap String Asset} {entry : String × Asset}
    (hch : previousChange m entry = some ch) :
    m[entry.1]? = none ∧ ch = ⟨.removed, entry.1, ∅⟩ := by
  unfold previousChange at hch
  cases hget : m[entry.1]? with
  | none =>
    rw [hget] at hch
    exact ⟨rfl, (Option.some.inj hch).symm⟩
  | some a =>
    rw [hget] at hch
    contradiction

/-- No two changes of a tick have the same ID, also where the listings repeat IDs. -/
theorem nodup_diff (current previous : Visit (String × Asset)) (prev curr : List Asset) :
    ((diff current previous prev curr).map (·.assetID)).Nodup := by
  unfold diff
  rw [List.map_append, List.nodup_append]
  refine ⟨nodup_assetID_filterMap (nodup_keys_visit _ _) fun _ _ => assetID_of_currentChange,
    nodup_assetID_filterMap (nodup_keys_visit _ _) fun _ _ hch => by rw [(previousChange_cases hch).2],
    ?_⟩
  intro id hfirst id' hsecond heq
  obtain ⟨ch, hch, rfl⟩ := List.mem_map.mp hfirst
  obtain ⟨ch', hch', rfl⟩ := List.mem_map.mp hsecond
  obtain ⟨entry, hentry, hfound⟩ := List.mem_filterMap.mp hch
  obtain ⟨entry', _, hgone⟩ := List.mem_filterMap.mp hch'
  obtain ⟨habsent, rfl⟩ := previousChange_cases hgone
  -- the first loop is about current IDs, the second one about others
  have hsame : entry'.1 = entry.1 := heq.symm.trans (assetID_of_currentChange hfound)
  rw [hsame, (mem_visit_iff _ _ _).mp hentry] at habsent
  contradiction

theorem currentChange_mem (hcurr : (indexAssets curr)[id]? = some c)
    (hch : currentChange (indexAssets prev) (id, c) = some ch) :
    ch ∈ diff current previous prev curr :=
  List.mem_append_left _ (List.mem_filterMap.mpr ⟨(id, c), (mem_visit_iff _ _ _).mpr hcurr, hch⟩)

theorem removal_mem (hprev : (indexAssets prev)[id]? = some p)
    (hcurr : (indexAssets curr)[id]? = none) :
    ⟨.removed, id, ∅⟩ ∈ diff current previous prev curr := by
  apply List.mem_append_right
  apply List.mem_filterMap.mpr
  refine ⟨(id, p), (mem_visit_iff _ _ _).mpr hprev, ?_⟩
  simp only [previousChange, hcurr]

/-- Without a change of its ID, an asset is as it was, as far as it is known. -/
theorem known_eq_of_not_mem (hnone : ∀ ch ∈ diff current previous prev curr, ch.assetID ≠ id) :
    known curr id = known prev id := by
  unfold known
  cases hcurr : (indexAssets curr)[id]? with
  | none =>
    cases hprev : (indexAssets prev)[id]? with
    | none => rfl
    | some p => exact absurd rfl (hnone _ (removal_mem hprev hcurr))
  | some c =>
    cases hchange : currentChange (indexAssets prev) (id, c) with
    | some ch =>
      exact absurd (assetID_of_currentChange hchange) (hnone ch (currentChange_mem hcurr hchange))
    | none =>
      unfold currentChange at hchange
      cases hprev : (indexAssets prev)[id]? with
      | none => simp [hprev] at hchange
      | some p =>
        have hsize : ¬ (diffAsset p c).size > 0 := by
          intro hpos
          simp [hprev, hpos] at hchange
        have hempty : diffAsset p c = ∅ := by
          rw [Std.ExtTreeMap.eq_empty_iff_size_eq_zero]
          omega
        have htexts := newText_diffAsset p c
        simp only [hempty, newText, Std.ExtTreeMap.getElem?_empty] at htexts
        simp only [Option.map_some, htexts]

/-- The alert about an asset takes what is known of it to what it is now. -/
theorem alertEffect_of_mem (hch : ch ∈ diff current previous prev curr) :
    alertEffect (alertEvent ch) (known prev ch.assetID) = known curr ch.assetID := by
  unfold known
  rcases List.mem_append.mp hch with hfirst | hsecond
  · obtain ⟨⟨id, c⟩, hentry, hfound⟩ := List.mem_filterMap.mp hfirst
    have hcurr : (indexAssets curr)[id]? = some c := (mem_visit_iff _ _ _).mp hentry
    rw [assetID_of_currentChange hfound, hcurr, Option.map_some]
    unfold currentChange at hfound
    cases hprev : (indexAssets prev)[id]? with
    | none =>
      simp only [hprev, Option.some.injEq] at hfound
      rw [← hfound, alertEffect_added]
    | some p =>
      simp only [hprev, Option.ite_none_right_eq_some, Option.some.injEq] at hfound
      rw [← hfound.2, Option.map_some, alertEffect_modified]
  · obtain ⟨⟨id, p⟩, _, hgone⟩ := List.mem_filterMap.mp hsecond
    obtain ⟨hcurr, rfl⟩ := previousChange_cases hgone
    rw [alertEffect_removed, hcurr, Option.map_none]

/-- Whatever the orders of iteration, the alerts of a tick lead from the previous listing
    to the current one. -/
theorem replay_diff (current previous : Visit (String × Asset)) (prev curr : List Asset) :
    replay alertKey alertEffect ((diff current previous prev curr).map alertEvent) (known prev)
      = known curr := by
  funext id
  have hkeys : ((diff current previous prev curr).map alertEvent).filterMap alertKey
      = (diff current previous prev curr).map (·.assetID) := by
    rw [List.filterMap_map, ← List.filterMap_eq_map]
    apply List.filterMap_congr
    intro ch _
    exact alertKey_alertEvent ch
  by_cases hmem : ∃ ch ∈ diff current previous prev curr, ch.assetID = id
  · obtain ⟨ch, hch, rfl⟩ := hmem
    rw [replay_of_mem (hkeys ▸ nodup_diff current previous prev curr)
      (List.mem_map_of_mem hch) (alertKey_alertEvent ch)]
    exact alertEffect_of_mem hch
  · have hnone : ∀ ch ∈ diff current previous prev curr, ch.assetID ≠ id :=
      fun ch hch hid => hmem ⟨ch, hch, hid⟩
    rw [known_eq_of_not_mem hnone]
    apply replay_of_not_mem
    intro ev hev hkey
    obtain ⟨ch, hch, rfl⟩ := List.mem_map.mp hev
    exact hnone ch hch (Option.some.inj ((alertKey_alertEvent ch).symm.trans hkey))

theorem replay_summary (changes : List Change) (curr : List Asset) (inv : Inventory) :
    replay alertKey alertEffect [summaryEvent changes curr] inv = inv := by
  funext id
  apply replay_of_not_mem
  intro ev hev
  rw [List.mem_singleton.mp hev, alertKey_summaryEvent]
  exact Option.some_ne_none id |>.symm

/-! ## Section 5: Whole runs -/

/-- What a tick with a listing does. -/
theorem reconcile_ok (cfg : ReconciliationConfig) (e : Engine)
    (htick : tick.listing = .ok curr) :
    (e.reconcile cfg tick).prev = curr ∧ ∃ changes, changes = diff tick.current tick.previous e.prev curr
      ∧ (e.reconcile cfg tick).pushed = e.pushed
        ++ (if cfg.alertOnChange then changes.map alertEvent else [])
        ++ (if cfg.trackHistory ∧ changes ≠ [] then [summaryEvent changes curr] else []) := by
  unfold Engine.reconcile
  rw [htick]
  simp only [List.length_eq_zero_iff]
  by_cases hnil : diff tick.current tick.previous e.prev curr = []
  · rw [if_pos hnil]
    exact ⟨rfl, _, rfl, by simp [hnil]⟩
  · rw [if_neg hnil]
    exact ⟨rfl, _, rfl, by simp [hnil]⟩

theorem reconcile_error {err : String} (htick : tick.listing = .error err) :
    e.reconcile cfg tick = e := by
  unfold Engine.reconcile
  rw [htick]

/-- **Step lemma**: a tick keeps what a reader of the alerts knows in step. -/
theorem replay_reconcile (halert : cfg.alertOnChange = true) {inv : Inventory}
    (hknown : replay alertKey alertEffect e.pushed inv = known e.prev) (tick : Tick) :
    replay alertKey alertEffect (e.reconcile cfg tick).pushed inv
      = known (e.reconcile cfg tick).prev := by
  cases htick : tick.listing with
  | error err => rw [reconcile_error htick, hknown]
  | ok curr =>
    obtain ⟨hprev, changes, hchanges, hpushed⟩ := reconcile_ok cfg e htick
    rw [hpushed, hprev, if_pos halert, replay_append, replay_append, hknown, hchanges, replay_diff]
    split
    · exact replay_summary _ _ _
    · rfl

/-- **The alerts tell everything**: after any run of ticks, with failed listings and any
    orders of iteration, the alerts lead from the baseline to the last listing. -/
theorem alerts_replay (halert : cfg.alertOnChange = true) (listing : Except String (List Asset))
    (ticks : List Tick) :
    replay alertKey alertEffect ((Engine.start listing).run cfg ticks).pushed
        (known (Engine.start listing).prev)
      = known ((Engine.start listing).run cfg ticks).prev := by
  induction ticks using List.reverseRecOn with
  | nil =>
    unfold Engine.start Engine.run
    cases listing with
    | error err => rfl
    | ok assets => rfl
  | append_singleton ticks tick ih =>
    unfold Engine.run at ih ⊢
    rw [List.foldl_append, List.foldl_cons, List.foldl_nil]
    exact replay_reconcile halert ih tick

/-- A host gets another name, a listing fails, and the host is gone. -/
def renamedTicks : List Tick :=
  [⟨.ok [⟨"h", "10.0.0.5", "", "db2", "linux", [80], 1⟩], .sorted _, .sorted _⟩,
    ⟨.error "database not open", .sorted _, .sorted _⟩, ⟨.ok [], .sorted _, .sorted _⟩]

def renamedRun : Engine := (Engine.start (.ok [host [80]])).run ⟨true, true⟩ renamedTicks

theorem alerts_replay_renamed :
    renamedRun.pushed.map (·.destination) = ["h", "drift-summary", "h", "drift-summary"]
      ∧ replay alertKey alertEffect renamedRun.pushed (known [host [80]]) = known [] :=
  ⟨by decide +kernel, alerts_replay (show (⟨true, true⟩ : ReconciliationConfig).alertOnChange = true from rfl)
     (.ok [host [80]]) renamedTicks⟩

/-! ## Section 6: What the summaries add up to -/

/-- The number that the event gives under a name; an alert gives none. -/
def countOf (name : String) (ev : DriftEvent) : Nat :=
  match ev.metadata[name]? with
  | some (.count n) => n
  | _ => 0

def total (name : String) (events : List DriftEvent) : Nat := (events.map (countOf name)).sum

def isAlertOf (ct : ChangeType) (ev : DriftEvent) : Bool :=
  match ev.metadata["change_type"]? with
  | some (.text type) => type = ct.text
  | _ => false

/-- The number of alerts about a change of this type. -/
def alertsOf (ct : ChangeType) (events : List DriftEvent) : Nat := events.countP (isAlertOf ct)

def ChangeType.countName : ChangeType → String
  | .added => "added"
  | .removed => "removed"
  | .modified => "modified"

theorem countOf_alertEvent (ct : ChangeType) (ch : Change) :
    countOf ct.countName (alertEvent ch) = 0 := by
  cases ct with
  | _ =>
    simp only [countOf, alertEvent, ChangeType.countName, getElem?_insert_ite, String.reduceEq,
      if_false, Std.ExtTreeMap.getElem?_empty]

theorem countOf_summaryEvent (ct : ChangeType) (changes : List Change) (curr : List Asset) :
    countOf ct.countName (summaryEvent changes curr) = countByType changes ct := by
  cases ct with
  | _ =>
    simp only [countOf, summaryEvent, ChangeType.countName, getElem?_insert_ite, String.reduceEq,
      if_true, if_false]

theorem total_append (name : String) (events events' : List DriftEvent) :
    total name (events ++ events') = total name events + total name events' := by
  simp [total]

theorem total_alerts (ct : ChangeType) (changes : List Change) :
    total ct.countName (changes.map alertEvent) = 0 := by
  simp [total, Function.comp_def, countOf_alertEvent]

theorem isAlertOf_alertEvent (ct : ChangeType) (ch : Change) :
    isAlertOf ct (alertEvent ch) = decide (ch.type = ct) := by
  simp only [isAlertOf, (metadata_alertEvent ch).1]
  cases ch.type with
  | _ => cases ct with
    | _ => decide

theorem alertsOf_alerts (ct : ChangeType) (changes : List Change) :
    alertsOf ct (changes.map alertEvent) = countByType changes ct := by
  simp [alertsOf, countByType, List.countP_map, Function.comp_def, isAlertOf_alertEvent]

theorem alertsOf_summary (ct : ChangeType) (changes : List Change) (curr : List Asset) :
    alertsOf ct [summaryEvent changes curr] = 0 := by
  have hnot : isAlertOf ct (summaryEvent changes curr) = false := by
    simp only [isAlertOf, summaryEvent, getElem?_insert_ite, String.reduceEq, if_false,
      Std.ExtTreeMap.getElem?_empty]
  simp [alertsOf, hnot]

/-- The IDs that only the first listing has. -/
def onlyIn (m m' : Std.ExtTreeMap String Asset) : Nat :=
  m.toList.countP fun entry => m'[entry.1]?.isNone

theorem countByType_diff (current previous : Visit (String × Asset)) (prev curr : List Asset) :
    countByType (diff current previous prev curr) .added
        = onlyIn (indexAssets curr) (indexAssets prev)
      ∧ countByType (diff current previous prev curr) .removed
        = onlyIn (indexAssets prev) (indexAssets curr) := by
  have hcurrent : ∀ entry : String × Asset, ∀ ct : ChangeType,
      ((currentChange (indexAssets prev) entry).map fun c => decide (c.type = ct)).getD false
        = ((indexAssets prev)[entry.1]?.elim (decide (ct = .added))
            fun pa => decide ((diffAsset pa entry.2).size > 0 ∧ ct = .modified)) := by
    intro entry ct
    unfold currentChange
    cases (indexAssets prev)[entry.1]? with
    | none => simp [addition, eq_comm]
    | some pa =>
      by_cases hpos : (diffAsset pa entry.2).size > 0
      · simp [hpos, eq_comm]
      · simp [hpos]
  have hprevious : ∀ entry : String × Asset, ∀ ct : ChangeType,
      ((previousChange (indexAssets curr) entry).map fun c => decide (c.type = ct)).getD false
        = ((indexAssets curr)[entry.1]?.isNone && decide (ct = .removed)) := by
    intro entry ct
    unfold previousChange
    cases (indexAssets curr)[entry.1]? with
    | none => simp [eq_comm]
    | some ca => simp
  unfold countByType diff onlyIn
  simp only [List.countP_append, List.countP_filterMap, hcurrent, hprevious]
  constructor
  · rw [(current.perm _).countP_eq]
    have hnone : (previous.list (indexAssets prev).toList).countP
        (fun entry => (indexAssets curr)[entry.1]?.isNone && decide (ChangeType.added = .removed)) = 0 := by
      simp
    rw [hnone, Nat.add_zero]
    apply List.countP_congr
    intro entry _
    cases (indexAssets prev)[entry.1]? with
    | none => simp
    | some pa => simp
  · rw [(previous.perm _).countP_eq]
    have hnone : (current.list (indexAssets curr).toList).countP
        (fun entry => (indexAssets prev)[entry.1]?.elim (decide (ChangeType.removed = .added))
          fun pa => decide ((diffAsset pa entry.2).size > 0 ∧ ChangeType.removed = .modified)) = 0 := by
      rw [List.countP_eq_zero]
      intro entry _
      cases (indexAssets prev)[entry.1]? with
      | none => simp
      | some pa => simp
    rw [hnone, Nat.zero_add]
    simp

/-- As many entries of the one map are in the other as the other way round. -/
theorem countP_common (m m' : Std.ExtTreeMap String Asset) :
    m.toList.countP (fun entry => m'[entry.1]?.isSome)
      = m'.toList.countP fun entry => m[entry.1]?.isSome := by
  have hkeys : ∀ m m' : Std.ExtTreeMap String Asset,
      m.toList.countP (fun entry => m'[entry.1]?.isSome) = (m.keys.filter fun k => m'[k]?.isSome).length := by
    intro m m'
    rw [← Std.ExtTreeMap.map_fst_toList_eq_keys, ← List.countP_eq_length_filter, List.countP_map]
    rfl
  rw [hkeys, hkeys]
  apply List.Perm.length_eq
  rw [List.perm_ext_iff_of_nodup (Std.ExtTreeMap.nodup_keys.filter _) (Std.ExtTreeMap.nodup_keys.filter _)]
  intro k
  simp only [List.mem_filter, Std.ExtTreeMap.mem_keys, Std.ExtTreeMap.mem_iff_isSome_getElem?, and_comm]

theorem size_eq_onlyIn (m m' : Std.ExtTreeMap String Asset) :
    m.size = m.toList.countP (fun entry => m'[entry.1]?.isSome) + onlyIn m m' := by
  rw [← Std.ExtTreeMap.length_toList, onlyIn,
    List.length_eq_countP_add_countP fun entry : String × Asset => m'[entry.1]?.isSome]
  congr 1
  apply List.countP_congr
  intro entry _
  cases m'[entry.1]? with
  | none => simp
  | some a => simp

/-- A tick's additions and removals make up for the difference of the numbers of IDs. -/
theorem size_diff (current previous : Visit (String × Asset)) (prev curr : List Asset) :
    (indexAssets curr).size + countByType (diff current previous prev curr) .removed
      = (indexAssets prev).size + countByType (diff current previous prev curr) .added := by
  obtain ⟨hadded, hremoved⟩ := countByType_diff current previous prev curr
  have hcommon := countP_common (indexAssets curr) (indexAssets prev)
  have hcurr := size_eq_onlyIn (indexAssets curr) (indexAssets prev)
  have hprev := size_eq_onlyIn (indexAssets prev) (indexAssets curr)
  omega

/-- What the history adds up to, from the IDs of a first listing. -/
structure Balanced (cfg : ReconciliationConfig) (first : List Asset) (e : Engine) : Prop where
  /-- Every asset came with the first listing or a summary, and is there unless a summary
      has it removed. -/
  assets : (indexAssets e.prev).size + total "removed" e.pushed
    = (indexAssets first).size + total "added" e.pushed
  /-- The alerts are as many as the summaries say. -/
  alerts : cfg.alertOnChange = true → ∀ ct : ChangeType,
    alertsOf ct e.pushed = total ct.countName e.pushed

theorem Balanced.reconcile {first : List Asset} (hhistory : cfg.trackHistory = true)
    (hbalanced : Balanced cfg first e) (tick : Tick) : Balanced cfg first (e.reconcile cfg tick) := by
  cases htick : tick.listing with
  | error err =>
    rw [reconcile_error htick]
    exact hbalanced
  | ok curr =>
    obtain ⟨hprev, changes, hchanges, hpushed⟩ := reconcile_ok cfg e htick
    have hsize := size_diff tick.current tick.previous e.prev curr
    rw [← hchanges] at hsize
    -- what the summary of this tick says, also where there is none to push
    have hsummary : ∀ ct : ChangeType, total ct.countName
        (if cfg.trackHistory ∧ changes ≠ [] then [summaryEvent changes curr] else [])
          = countByType changes ct := by
      intro ct
      by_cases hnil : changes = []
      · simp [hnil, total, countByType]
      · rw [if_pos ⟨hhistory, hnil⟩]
        simp [total, countOf_summaryEvent]
    have htotal : ∀ ct : ChangeType, total ct.countName (e.reconcile cfg tick).pushed
        = total ct.countName e.pushed + countByType changes ct := by
      intro ct
      rw [hpushed, total_append, total_append, hsummary]
      by_cases halert : cfg.alertOnChange = true
      · rw [if_pos halert, total_alerts, Nat.add_zero]
      · rw [if_neg halert]
        rfl
    constructor
    · have hadded := htotal .added
      have hremoved := htotal .removed
      simp only [ChangeType.countName] at hadded hremoved
      have hbefore := hbalanced.assets
      rw [hprev, hadded, hremoved]
      omega
    · intro halert ct
      have hnew : alertsOf ct (if cfg.trackHistory ∧ changes ≠ [] then [summaryEvent changes curr] else [])
          = 0 := by
        split
        · exact alertsOf_summary ct changes curr
        · rfl
      have hold := hbalanced.alerts halert ct
      have halerts := alertsOf_alerts ct changes
      rw [htotal, hpushed, if_pos halert]
      unfold alertsOf at hnew hold halerts ⊢
      rw [List.countP_append, List.countP_append, hnew, hold, halerts, Nat.add_zero]

/-- **The history balances**: over any run of ticks, the summaries' additions and removals
    account for the assets, and the alerts agree with the summaries. -/
theorem history_balanced (hhistory : cfg.trackHistory = true)
    (listing : Except String (List Asset)) (ticks : List Tick) :
    Balanced cfg (Engine.start listing).prev ((Engine.start listing).run cfg ticks) := by
  induction ticks using List.reverseRecOn with
  | nil =>
    unfold Engine.start Engine.run
    cases listing with
    | error err => exact ⟨rfl, fun _ _ => rfl⟩
    | ok assets => exact ⟨rfl, fun _ _ => rfl⟩
  | append_singleton ticks tick ih =>
    unfold Engine.run at ih ⊢
    rw [List.foldl_append, List.foldl_cons, List.foldl_nil]
    exact ih.reconcile hhistory tick

theorem history_balanced_renamed :
    total "added" renamedRun.pushed = 0 ∧ total "removed" renamedRun.pushed = 1
      ∧ Balanced ⟨true, true⟩ [host [80]] renamedRun :=
  ⟨by decide +kernel, by decide +kernel,
    history_balanced (show (⟨true, true⟩ : ReconciliationConfig).trackHistory = true from rfl)
       (.ok [host [80]]) renamedTicks⟩

end Owasaka.Discovery
