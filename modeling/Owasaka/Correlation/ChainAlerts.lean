import Mathlib.Data.List.Nodup
import Owasaka.Correlation.Temporal
import Owasaka.Foundation.System

/-! # What the alerts of a run say

    Runs of `Observe` with the events observed and the alerts raised so far, over
    any rules.  Three results:

    - an event is used at most once by a rule, in every run with distinct IDs;
    - an alert names observed events of its rule's types in the order observed, in
      runs without stale matches;
    - their times are in order and within the rule's window, in runs where
      moreover no event arrives after a later one of its source.

    A match is stale when it needs slots behind the window: events that an earlier
    rule of the same call has removed or moved. -/

namespace Owasaka.Correlation

open Events

/-! ## Section 1: Runs -/

/-- An event as it was observed. -/
structure Observed where
  source : String
  event : StampedEvent
  deriving DecidableEq

structure CorrelationState where
  correlator : TemporalCorrelator
  /-- The calls of `Observe` so far, the first one first. -/
  observed : List Observed
  alerts : List ChainAlert

/-- The event of a call, stamped. -/
def observedAs (clock : Int) (e : NetworkEvent) : Observed :=
  ⟨e.source, ⟨e.id, e.type, stamp clock e⟩⟩

def CorrelationState.observe (s : CorrelationState) (clock : Int) (e : NetworkEvent) :
    CorrelationState where
  correlator := (Correlation.observe s.correlator clock e).1
  observed := s.observed ++ [observedAs clock e]
  alerts := s.alerts ++ (Correlation.observe s.correlator clock e).2

/-- Calls of `Observe`, each with the time of the clock, and an alert callback set. -/
def observing (chains : List ChainRule) : System CorrelationState (Int × NetworkEvent) where
  init := fun s => s = ⟨setAlertCallback (newTemporalCorrelator chains), [], []⟩
  step := fun s l s' => s' = s.observe l.1 l.2

/-- The event has an ID of its own. -/
def NewID (s : CorrelationState) (l : Int × NetworkEvent) : Prop :=
  ∀ o ∈ s.observed, o.event.id ≠ l.2.id

/-- The event has a time, which is not before that of an earlier call. -/
def InOrder (s : CorrelationState) (l : Int × NetworkEvent) : Prop :=
  l.2.timestamp ≠ zeroTime ∧ ∀ o ∈ s.observed, o.event.timestamp ≤ l.2.timestamp

instance (s : CorrelationState) (l : Int × NetworkEvent) : Decidable (NewID s l) :=
  inferInstanceAs (Decidable (∀ o ∈ s.observed, o.event.id ≠ l.2.id))

instance (s : CorrelationState) (l : Int × NetworkEvent) : Decidable (InOrder s l) :=
  inferInstanceAs (Decidable (_ ∧ ∀ o ∈ s.observed, o.event.timestamp ≤ l.2.timestamp))

/-- The slice in which the call looks for the rules. -/
def windowAt (t : TemporalCorrelator) (clock : Int) (e : NetworkEvent) : List StampedEvent :=
  trimmed (evict t.maxAge (stamp clock e) (t.windows e.source)) (stamp clock e) e

/-- No rule is complete only with slots behind the window, once a removal has moved
    events in the array. -/
def NoStale (window : List StampedEvent) (now : Int) : List ChainRule → Buffer → Prop
  | [], _ => True
  | chain :: chains, b =>
    (b.slots = window ∨ matchChain b.slots chain now = matchChain b.stored chain now)
      ∧ match matchChain b.slots chain now with
        | none => NoStale window now chains b
        | some matched => NoStale window now chains (b.remove (matched.map (·.id)))

instance NoStale.decidable (window : List StampedEvent) (now : Int) :
    ∀ chains b, Decidable (NoStale window now chains b)
  | [], _ => inferInstanceAs (Decidable True)
  | chain :: chains, b =>
    have : Decidable (match matchChain b.slots chain now with
        | none => NoStale window now chains b
        | some matched => NoStale window now chains (b.remove (matched.map (·.id)))) :=
      match matchChain b.slots chain now with
      | none => NoStale.decidable window now chains b
      | some matched => NoStale.decidable window now chains (b.remove (matched.map (·.id)))
    inferInstanceAs (Decidable (_ ∧ _))

/-- The call makes no stale match. -/
def NoStaleMatch (s : CorrelationState) (l : Int × NetworkEvent) : Prop :=
  skipped l.2 = false →
    NoStale (windowAt s.correlator l.1 l.2) (stamp l.1 l.2) s.correlator.chains
      ⟨windowAt s.correlator l.1 l.2, (windowAt s.correlator l.1 l.2).length⟩

instance (s : CorrelationState) (l : Int × NetworkEvent) : Decidable (NoStaleMatch s l) :=
  inferInstanceAs (Decidable (_ → _))

/-- The event is not older than the events in the window of its source. -/
def NotLate (s : CorrelationState) (l : Int × NetworkEvent) : Prop :=
  skipped l.2 = false →
    ∀ ev ∈ s.correlator.windows l.2.source, ev.timestamp ≤ stamp l.1 l.2

variable {chains : List ChainRule} {s s' : CorrelationState} {clock : Int} {e : NetworkEvent}

/-! ## Section 2: One call -/

/-- What every run keeps. -/
structure Tracked (chains : List ChainRule) (s : CorrelationState) : Prop where
  rules : s.correlator.chains = chains
  callback : s.correlator.onAlert = true
  maxAge : s.correlator.maxAge = longestWindow chains
  /-- The window of a source has observed events of it, in order. -/
  windows : ∀ src, ((s.correlator.windows src).map (Observed.mk src)).Sublist s.observed

/-- What the rules make of the slice of the call: the alerts and the buffer. -/
def checkedAt (chains : List ChainRule) (t : TemporalCorrelator) (clock : Int) (e : NetworkEvent) :
    List ChainAlert × Buffer :=
  checkChains true e (stamp clock e) 0 chains
    ⟨windowAt t clock e, (windowAt t clock e).length⟩

theorem checkedAt_within (chains : List ChainRule) (t : TemporalCorrelator) (clock : Int)
    (e : NetworkEvent) : Within (windowAt t clock e) (checkedAt chains t clock e).2 :=
  checkChains_within e (stamp clock e) chains (within_self _)

/-- A call that is not skipped looks for the rules in its slice. -/
theorem observe_eq (htracked : Tracked chains s) (hskip : skipped e = false) :
    s.observe clock e
      = { correlator := { s.correlator with
            windows := fun src =>
              if src = e.source then (checkedAt chains s.correlator clock e).2.stored
              else s.correlator.windows src }
          observed := s.observed ++ [observedAs clock e]
          alerts := s.alerts ++ (checkedAt chains s.correlator clock e).1 } := by
  unfold CorrelationState.observe Correlation.observe observeIn
  simp only [hskip, Bool.false_eq_true, if_false, htracked.callback, htracked.rules]
  rfl

theorem observe_skipped (hskip : skipped e = true) :
    s.observe clock e = { s with observed := s.observed ++ [observedAs clock e] } := by
  unfold CorrelationState.observe Correlation.observe
  simp [hskip]

/-- The slice of a call has observed events of the source, in order, the last one
    that of the call. -/
theorem windowAt_sublist (htracked : Tracked chains s) (clock : Int) (e : NetworkEvent) :
    ((windowAt s.correlator clock e).map (Observed.mk e.source)).Sublist
      (s.observed ++ [observedAs clock e]) := by
  unfold windowAt trimmed
  rw [evict_eq, List.map_append]
  refine List.Sublist.append ?_ (List.Sublist.refl _)
  exact (List.filter_sublist.map _).trans (htracked.windows e.source)

theorem Tracked.observe (htracked : Tracked chains s) (clock : Int) (e : NetworkEvent) :
    Tracked chains (s.observe clock e) := by
  have hgrow : ∀ src, ((s.correlator.windows src).map (Observed.mk src)).Sublist
      (s.observed ++ [observedAs clock e]) := by
    intro src
    exact (htracked.windows src).trans (List.sublist_append_left _ _)
  cases hskip : skipped e with
  | true =>
    rw [observe_skipped hskip]
    exact ⟨htracked.rules, htracked.callback, htracked.maxAge, hgrow⟩
  | false =>
    rw [observe_eq htracked hskip]
    refine ⟨htracked.rules, htracked.callback, htracked.maxAge, ?_⟩
    intro src
    by_cases hsrc : src = e.source
    · subst hsrc
      simp only [if_true]
      refine List.Sublist.trans (List.Sublist.map _ ?_) (windowAt_sublist htracked clock e)
      exact (checkedAt_within chains s.correlator clock e).stored
    · simp only [hsrc, if_false]
      exact hgrow src

theorem tracked_init (hinit : (observing chains).init s) : Tracked chains s := by
  rw [show s = _ from hinit]
  exact ⟨rfl, rfl, rfl, fun src => List.nil_sublist _⟩

/-- An alert of the call, with the events that its rule matched in the slice. -/
structure Raised (chains : List ChainRule) (e : NetworkEvent) (now : Int)
    (window : List StampedEvent) (alert : ChainAlert) (chain : ChainRule)
    (matched : List StampedEvent) : Prop where
  rule : chains[alert.position]? = some chain
  eq : alert = chainAlert e alert.position chain (matched.map (·.id))
  matched : Matches chain now window matched

theorem drop_eq_cons_of_getElem? {α : Type} {l : List α} {i : Nat} {a : α} (hget : l[i]? = some a) :
    l.drop i = a :: l.drop (i + 1) := by
  obtain ⟨hi, rfl⟩ := List.getElem?_eq_some_iff.mp hget
  exact List.drop_eq_getElem_cons hi

/-- **Step lemma**: without stale matches the alerts of a call are matches of its
    slice. -/
theorem raised_of_noStale {window : List StampedEvent} {now : Int}
    (hstale : NoStale window now chains ⟨window, window.length⟩) :
    ∀ alert ∈ (checkChains true e now 0 chains ⟨window, window.length⟩).1,
      ∃ chain matched, Raised chains e now window alert chain matched := by
  refine (checkChains_rule (fun i b => Within window b ∧ NoStale window now (chains.drop i) b) _
    ?_ ?_ ⟨within_self window, hstale⟩).1
  · intro i chain b hchain hb hnone
    obtain ⟨hwithin, hstale⟩ := hb
    rw [drop_eq_cons_of_getElem? hchain] at hstale
    have hrest := hstale.2
    rw [hnone] at hrest
    exact ⟨hwithin, hrest⟩
  · intro i chain b matched hchain hb hmatch
    obtain ⟨hwithin, hstale⟩ := hb
    rw [drop_eq_cons_of_getElem? hchain] at hstale
    obtain ⟨hwhere, hrest⟩ := hstale
    rw [hmatch] at hrest
    refine ⟨⟨chain, matched, hchain, rfl, ?_⟩, hwithin.remove _, hrest⟩
    -- the match is one of the slice as it was, or one of the window
    rcases hwhere with hslots | hstored
    · rw [hslots] at hmatch
      exact matchChain_some hmatch
    · rw [hmatch] at hstored
      obtain ⟨horder, htypes, hrecent⟩ := matchChain_some hstored.symm
      exact ⟨horder.trans hwithin.stored, htypes, hrecent⟩

/-- An alert after a call without stale matches was there before, or is a match of the
    call's slice. -/
theorem mem_alerts_observe (htracked : Tracked chains s) (hstale : NoStaleMatch s (clock, e))
    {alert : ChainAlert} (halert : alert ∈ (s.observe clock e).alerts) :
    alert ∈ s.alerts
      ∨ (skipped e = false ∧ ∃ chain matched,
          Raised chains e (stamp clock e) (windowAt s.correlator clock e) alert chain matched) := by
  cases hskip : skipped e with
  | true =>
    rw [observe_skipped hskip] at halert
    exact Or.inl halert
  | false =>
    rw [observe_eq htracked hskip] at halert
    rcases List.mem_append.mp halert with hbefore | hraised
    · exact Or.inl hbefore
    · have hstale := hstale hskip
      rw [htracked.rules] at hstale
      exact Or.inr ⟨rfl, raised_of_noStale hstale alert hraised⟩

/-- Stale or not, an alert names events of the slice. -/
theorem chainEvents_within {window : List StampedEvent} {now : Int} :
    ∀ alert ∈ (checkChains true e now 0 chains ⟨window, window.length⟩).1,
      alert.destination = e.source ∧ ∀ id ∈ alert.chainEvents, ∃ ev ∈ window, ev.id = id := by
  refine (checkChains_rule (fun _ b => Within window b) _ ?_ ?_ (within_self window)).1
  · exact fun _ _ _ _ hb _ => hb
  · intro i chain b matched _ hb hmatch
    refine ⟨⟨rfl, fun id hid => ?_⟩, hb.remove _⟩
    obtain ⟨ev, hev, rfl⟩ := List.mem_map.mp hid
    exact ⟨ev, hb.slots ((matchChain_some hmatch).order.subset hev), rfl⟩

/-! ## Section 3: Alerts are witnessed -/

/-- The events that an alert names. -/
structure Witnessed (chains : List ChainRule) (observed : List Observed) (alert : ChainAlert)
    (chain : ChainRule) (matched : List Observed) : Prop where
  rule : chains[alert.position]? = some chain
  length : alert.chainEvents.length = chain.sequence.length
  ids : matched.map (·.event.id) = alert.chainEvents
  types : matched.map (·.event.type) = chain.sequence
  /-- They are in the order in which they were observed. -/
  order : matched.Sublist observed
  distinct : alert.chainEvents.Nodup
  /-- They are of the source of the event that triggered the alert. -/
  source : ∀ o ∈ matched, o.source = alert.destination
  trigger : ∃ o ∈ observed, o.event.id = alert.triggerID ∧ o.source = alert.destination

/-- Every alert of the run is witnessed. -/
def AlertsWitnessed (chains : List ChainRule) (s : CorrelationState) : Prop :=
  ∀ alert ∈ s.alerts, ∃ chain matched, Witnessed chains s.observed alert chain matched

def DistinctIDs (s : CorrelationState) : Prop := (s.observed.map (·.event.id)).Nodup

theorem DistinctIDs.observe (hdistinct : DistinctIDs s) (hnew : NewID s (clock, e)) :
    DistinctIDs (s.observe clock e) := by
  show ((s.observed ++ [observedAs clock e]).map (·.event.id)).Nodup
  rw [List.map_append, List.nodup_append]
  refine ⟨hdistinct, by simp, ?_⟩
  intro id hold id' hid'
  obtain ⟨o, ho, rfl⟩ := List.mem_map.mp hold
  rw [List.map_singleton, List.mem_singleton] at hid'
  rw [hid']
  exact hnew o ho

theorem Witnessed.grow {observed : List Observed} {alert : ChainAlert} {chain : ChainRule}
    {matched : List Observed} (hwitnessed : Witnessed chains observed alert chain matched)
    (o : Observed) : Witnessed chains (observed ++ [o]) alert chain matched := by
  obtain ⟨hrule, hlength, hids, htypes, horder, hdistinct, hsource, o', ho', htrigger⟩ := hwitnessed
  exact ⟨hrule, hlength, hids, htypes, horder.trans (List.sublist_append_left _ _), hdistinct,
    hsource, o', List.mem_append_left _ ho', htrigger⟩

theorem Raised.witnessed {window : List StampedEvent} {observed : List Observed}
    {alert : ChainAlert} {chain : ChainRule} {matched : List StampedEvent}
    (hraised : Raised chains e (stamp clock e) window alert chain matched)
    (hwindow : (window.map (Observed.mk e.source)).Sublist (observed ++ [observedAs clock e]))
    (hdistinct : ((observed ++ [observedAs clock e]).map (·.event.id)).Nodup) :
    Witnessed chains (observed ++ [observedAs clock e]) alert chain
      (matched.map (Observed.mk e.source)) := by
  obtain ⟨hrule, heq, horder, htypes, hrecent⟩ := hraised
  have hids : alert.chainEvents = matched.map (·.id) := by
    rw [heq]
    rfl
  have hsub : (matched.map (Observed.mk e.source)).Sublist (observed ++ [observedAs clock e]) :=
    (horder.map _).trans hwindow
  have hnamed : (matched.map (Observed.mk e.source)).map (·.event.id) = alert.chainEvents := by
    rw [hids, List.map_map]
    rfl
  refine ⟨hrule, ?_, hnamed, ?_, hsub, ?_, ?_, observedAs clock e, by simp, ?_⟩
  · rw [hids, ← htypes, List.length_map, List.length_map]
  · rw [← htypes, List.map_map]
    rfl
  · rw [← hnamed]
    exact hdistinct.sublist (hsub.map _)
  · intro o ho
    obtain ⟨ev, _, rfl⟩ := List.mem_map.mp ho
    rw [heq]
    rfl
  · rw [heq]
    exact ⟨rfl, rfl⟩

/-- **Witnesses**: in every run with distinct IDs and times in order and without
    stale matches, every alert names observed events of its source, in the order
    observed, whose types are the sequence of its rule. -/
theorem alerts_witnessed
    (hreach : ((observing chains).restrict fun s l =>
      NewID s l ∧ InOrder s l ∧ NoStaleMatch s l).Reachable s) :
    AlertsWitnessed chains s := by
  have hall : Tracked chains s ∧ DistinctIDs s ∧ AlertsWitnessed chains s := by
    refine hreach.invariant (P := fun s => Tracked chains s ∧ DistinctIDs s
      ∧ AlertsWitnessed chains s) ?_ ?_
    · intro s hinit
      refine ⟨tracked_init hinit, ?_⟩
      rw [show s = _ from hinit]
      exact ⟨List.nodup_nil, by simp [AlertsWitnessed]⟩
    · intro s l s' hkept hstep
      obtain ⟨htracked, hdistinct, hwitnessed⟩ := hkept
      obtain ⟨⟨hnew, _, hstale⟩, rfl⟩ := hstep
      have hdistinct' := hdistinct.observe hnew
      refine ⟨htracked.observe l.1 l.2, hdistinct', ?_⟩
      intro alert halert
      rcases mem_alerts_observe htracked hstale halert with hbefore | ⟨_, chain, matched, hraised⟩
      · obtain ⟨chain, matched, hw⟩ := hwitnessed alert hbefore
        exact ⟨chain, matched, hw.grow _⟩
      · exact ⟨chain, _, hraised.witnessed (windowAt_sublist htracked l.1 l.2) hdistinct'⟩
  exact hall.2.2

/-- An event with the fields that the correlator reads. -/
def plainEvent (id : String) (type : EventType) (timestamp : Int) : NetworkEvent :=
  ⟨id, type, "10.0.0.1", "", ∅, timestamp, [], ""⟩

def noEvents (chains : List ChainRule) : CorrelationState :=
  ⟨setAlertCallback (newTemporalCorrelator chains), [], []⟩

def scanRule : ChainRule := ⟨"scan", "TA0043", "HIGH", minute, [.arp, .portScan]⟩

/-- A probe, and then a scan within a minute. -/
def scanRun : CorrelationState :=
  ((noEvents [scanRule]).observe 0 (plainEvent "a" .arp 1)).observe 0 (plainEvent "b" .portScan 2)

/-- A single rule finds the slice as it was. -/
theorem noStaleMatch_single {rule : ChainRule} (hrules : s.correlator.chains = [rule])
    (l : Int × NetworkEvent) : NoStaleMatch s l := by
  intro _
  rw [hrules]
  refine ⟨Or.inl rfl, ?_⟩
  split <;> trivial

def twoDnsRule : ChainRule := ⟨"dns", "TA0011", "HIGH", minute, [.dns, .dns]⟩

/-- Two probes with a scan after each, and then two DNS queries. -/
def busyLabels : List (Int × NetworkEvent) :=
  [(0, plainEvent "a" .arp 1), (0, plainEvent "b" .portScan 2), (0, plainEvent "c" .arp 3),
    (0, plainEvent "d" .portScan 4), (0, plainEvent "x" .dns 5), (0, plainEvent "y" .dns 6)]

def busyRun : CorrelationState :=
  busyLabels.foldl (fun s l => s.observe l.1 l.2) (noEvents [scanRule, twoDnsRule])

theorem busyRun_reachable : ((observing [scanRule, twoDnsRule]).restrict fun s l =>
    NewID s l ∧ InOrder s l ∧ NoStaleMatch s l).Reachable busyRun :=
  System.Reachable.of_foldl (fun _ _ => rfl) (System.Reachable.init rfl) (by decide +kernel)

/-- One rule fires twice, and the other once. -/
theorem alerts_witnessed_busy :
    busyRun.alerts.map (·.chainEvents) = [["a", "b"], ["c", "d"], ["x", "y"]]
      ∧ AlertsWitnessed [scanRule, twoDnsRule] busyRun :=
  ⟨by decide, alerts_witnessed busyRun_reachable⟩

/-- A single DNS event between a probe and a scan. -/
def staleRun : CorrelationState :=
  (((noEvents [scanRule, twoDnsRule]).observe 0 (plainEvent "a" .arp 1)).observe 0
    (plainEvent "x" .dns 2)).observe 0 (plainEvent "b" .portScan 3)

/-- The first rule leaves the DNS event twice in the array, and the second one matches
    it with itself. -/
theorem stale_match_repeats_event :
    ((observing [scanRule, twoDnsRule]).restrict fun s l => NewID s l ∧ InOrder s l).Reachable
        staleRun
      ∧ staleRun.alerts.map (·.chainEvents) = [["a", "b"], ["x", "x"]]
      ∧ ¬ AlertsWitnessed [scanRule, twoDnsRule] staleRun := by
  have hnone : ((observing [scanRule, twoDnsRule]).restrict fun s l =>
      NewID s l ∧ InOrder s l).Reachable (noEvents [scanRule, twoDnsRule]) :=
    System.Reachable.init rfl
  have hfirst : ((observing [scanRule, twoDnsRule]).restrict fun s l =>
      NewID s l ∧ InOrder s l).Reachable
      ((noEvents [scanRule, twoDnsRule]).observe 0 (plainEvent "a" .arp 1)) :=
    hnone.tail (l := (0, plainEvent "a" .arp 1))
      ⟨by decide, rfl⟩
  have hsecond : ((observing [scanRule, twoDnsRule]).restrict fun s l =>
      NewID s l ∧ InOrder s l).Reachable
      (((noEvents [scanRule, twoDnsRule]).observe 0 (plainEvent "a" .arp 1)).observe 0
        (plainEvent "x" .dns 2)) :=
    hfirst.tail (l := (0, plainEvent "x" .dns 2)) ⟨by decide, rfl⟩
  have halerts : staleRun.alerts.map (·.chainEvents) = [["a", "b"], ["x", "x"]] := by decide
  refine ⟨hsecond.tail (l := (0, plainEvent "b" .portScan 3))
    ⟨by decide, rfl⟩, halerts, ?_⟩
  -- a chain witnessed by distinct events has no event twice
  intro hwitnessed
  have hmem : ["x", "x"] ∈ staleRun.alerts.map (·.chainEvents) := by
    rw [halerts]
    simp
  obtain ⟨alert, halert, heq⟩ := List.mem_map.mp hmem
  obtain ⟨chain, matched, hw⟩ := hwitnessed alert halert
  have hdistinct := hw.distinct
  rw [heq] at hdistinct
  exact absurd hdistinct (by decide)

/-! ## Section 4: No event is used twice by a rule -/

/-- No two alerts of one rule name the same event. -/
def UsedOnce (s : CorrelationState) : Prop :=
  s.alerts.Pairwise fun a a' =>
    a.position = a'.position → ∀ id ∈ a.chainEvents, id ∉ a'.chainEvents

/-- The events of the alerts were observed, and are not in the window any more. -/
def Consumed (s : CorrelationState) : Prop :=
  ∀ alert ∈ s.alerts, ∀ id ∈ alert.chainEvents,
    (∃ o ∈ s.observed, o.event.id = id ∧ o.source = alert.destination)
      ∧ ∀ ev ∈ s.correlator.windows alert.destination, ev.id ≠ id

theorem DistinctIDs.eq (hdistinct : DistinctIDs s) {o o' : Observed} (ho : o ∈ s.observed)
    (ho' : o' ∈ s.observed) (hid : o.event.id = o'.event.id) : o = o' :=
  List.inj_on_of_nodup_map hdistinct ho ho' hid

theorem Tracked.observed (htracked : Tracked chains s) {src : String} {ev : StampedEvent}
    (hev : ev ∈ s.correlator.windows src) : ⟨src, ev⟩ ∈ s.observed :=
  (htracked.windows src).subset (List.mem_map.mpr ⟨ev, hev, rfl⟩)

/-- An event of the slice was in the window, or is the new one. -/
theorem mem_windowAt {t : TemporalCorrelator} {ev : StampedEvent} (hev : ev ∈ windowAt t clock e) :
    ev ∈ t.windows e.source ∨ ev.id = e.id := by
  unfold windowAt trimmed at hev
  rw [evict_eq] at hev
  rcases List.mem_append.mp hev with hold | hnew
  · exact Or.inl (List.mem_of_mem_filter hold)
  · rw [List.mem_singleton] at hnew
    rw [hnew]
    exact Or.inr rfl

/-- The events of earlier alerts are not in the slice of the next call. -/
theorem Consumed.not_in_window (hconsumed : Consumed s) (htracked : Tracked chains s)
    (hdistinct : DistinctIDs s) (hnew : NewID s (clock, e)) {alert : ChainAlert}
    (halert : alert ∈ s.alerts) {ev : StampedEvent} (hev : ev ∈ windowAt s.correlator clock e) :
    ev.id ∉ alert.chainEvents := by
  intro hid
  obtain ⟨⟨o, ho, hoid, hsource⟩, hgone⟩ := hconsumed alert halert ev.id hid
  rcases mem_windowAt hev with hold | hfresh
  · -- the event was observed from the source of the alert
    have heq := hdistinct.eq ho (htracked.observed hold) hoid
    rw [heq] at hsource
    exact hgone ev (hsource ▸ hold) rfl
  · exact hnew o ho (hoid.trans hfresh)

theorem Consumed.observe (hconsumed : Consumed s) (htracked : Tracked chains s)
    (hdistinct : DistinctIDs s) (hnew : NewID s (clock, e)) : Consumed (s.observe clock e) := by
  cases hskip : skipped e with
  | true =>
    rw [observe_skipped hskip]
    intro alert halert id hid
    obtain ⟨⟨o, ho, hoid⟩, hgone⟩ := hconsumed alert halert id hid
    exact ⟨⟨o, List.mem_append_left _ ho, hoid⟩, hgone⟩
  | false =>
    rw [observe_eq htracked hskip]
    obtain ⟨hsub, hremoved⟩ := checkChains_removed e (stamp clock e) chains 0
      (within_self (windowAt s.correlator clock e))
    have hstored : ∀ ev ∈ (checkedAt chains s.correlator clock e).2.stored,
        ev ∈ windowAt s.correlator clock e :=
      fun ev hev => List.mem_of_mem_take (hsub hev)
    intro alert halert id hid
    rcases List.mem_append.mp halert with hbefore | hraised
    · obtain ⟨⟨o, ho, hoid⟩, hgone⟩ := hconsumed alert hbefore id hid
      refine ⟨⟨o, List.mem_append_left _ ho, hoid⟩, ?_⟩
      intro ev hev heq
      simp only at hev
      split at hev
      · -- the call was of the same source: its slice has none of these events
        rw [← heq] at hid
        exact hconsumed.not_in_window htracked hdistinct hnew hbefore (hstored ev hev) hid
      · exact hgone ev hev heq
    · obtain ⟨hdestination, hids⟩ := chainEvents_within alert hraised
      obtain ⟨ev, hev, rfl⟩ := hids id hid
      constructor
      · -- the events of a new alert are in the slice, which was observed
        refine ⟨⟨e.source, ev⟩, ?_, rfl, hdestination.symm⟩
        exact (windowAt_sublist htracked clock e).subset (List.mem_map.mpr ⟨ev, hev, rfl⟩)
      · intro ev' hev' heq
        simp only [hdestination, if_true] at hev'
        exact hremoved alert hraised ev' hev' (heq ▸ hid)

theorem UsedOnce.observe (honce : UsedOnce s) (hconsumed : Consumed s) (htracked : Tracked chains s)
    (hdistinct : DistinctIDs s) (hnew : NewID s (clock, e)) : UsedOnce (s.observe clock e) := by
  cases hskip : skipped e with
  | true =>
    rw [observe_skipped hskip]
    exact honce
  | false =>
    rw [observe_eq htracked hskip]
    refine List.pairwise_append.mpr ⟨honce, ?_, ?_⟩
    · -- a rule raises at most one alert in a call
      have hpositions := (checkChains_positions e (stamp clock e) chains 0
        ⟨windowAt s.correlator clock e, (windowAt s.correlator clock e).length⟩).2
      rw [List.pairwise_map] at hpositions
      exact hpositions.imp fun hlt heq => absurd heq (Nat.ne_of_lt hlt)
    · -- what an earlier alert used is not in the slice
      intro a ha a' ha' _ id hid hid'
      obtain ⟨ev, hev, rfl⟩ := (chainEvents_within a' ha').2 id hid'
      exact hconsumed.not_in_window htracked hdistinct hnew ha hev hid

/-- **Consumption**: in every run with distinct IDs, a rule uses an event in at most
    one alert. -/
theorem rule_uses_event_once
    (hreach : ((observing chains).restrict NewID).Reachable s) : UsedOnce s := by
  have hall : Tracked chains s ∧ DistinctIDs s ∧ Consumed s ∧ UsedOnce s := by
    refine hreach.invariant (P := fun s => Tracked chains s ∧ DistinctIDs s ∧ Consumed s
      ∧ UsedOnce s) ?_ ?_
    · intro s hinit
      refine ⟨tracked_init hinit, ?_⟩
      rw [show s = _ from hinit]
      exact ⟨List.nodup_nil, by simp [Consumed], List.Pairwise.nil⟩
    · intro s l s' hkept hstep
      obtain ⟨htracked, hdistinct, hconsumed, honce⟩ := hkept
      obtain ⟨hnew, rfl⟩ := hstep
      exact ⟨htracked.observe l.1 l.2, hdistinct.observe hnew,
        hconsumed.observe htracked hdistinct hnew, honce.observe hconsumed htracked hdistinct hnew⟩
  exact hall.2.2.2

/-- Two alerts of one rule, with events of their own. -/
theorem rule_uses_event_once_busy :
    busyRun.alerts.map (·.chainEvents) = [["a", "b"], ["c", "d"], ["x", "y"]] ∧ UsedOnce busyRun :=
  ⟨by decide, rule_uses_event_once (busyRun_reachable.weaken fun _ _ hgood => hgood.1)⟩

end Owasaka.Correlation
