import Owasaka.Correlation.ChainAlerts

/-! # The times of the events in an alert

    A window keeps its events in the order of arrival, and the pipeline starts each
    `Observe` in a goroutine of its own.  The cutoff of a rule is computed from the
    time of the arriving event, and nothing bounds the events newer than it.

    The main result: the times along an alert are in order and within the window of
    its rule, in runs without stale matches in which no event arrives after a later
    one of its source that is still in the window. -/

namespace Owasaka.Correlation

open Events

variable {chains : List ChainRule} {s : CorrelationState} {clock : Int} {e : NetworkEvent}

/-! ## Section 1: Statement -/

/-- The events that an alert names, with their times. -/
structure Timely (chains : List ChainRule) (observed : List Observed) (alert : ChainAlert)
    (chain : ChainRule) (matched : List Observed) : Prop where
  rule : chains[alert.position]? = some chain
  ids : matched.map (·.event.id) = alert.chainEvents
  types : matched.map (·.event.type) = chain.sequence
  observed : matched ⊆ observed
  /-- The times do not decrease along the sequence. -/
  order : matched.Pairwise fun o o' => o.event.timestamp ≤ o'.event.timestamp
  /-- The last event is at most the window later than the first. -/
  window : ∀ first last, matched.head? = some first → matched.getLast? = some last →
    last.event.timestamp - first.event.timestamp ≤ chain.window

def AlertsTimely (chains : List ChainRule) (s : CorrelationState) : Prop :=
  ∀ alert ∈ s.alerts, ∃ chain matched, Timely chains s.observed alert chain matched

/-! ## Section 2: Windows in order of time -/

/-- The window of each source is in order of time. -/
def WindowsSorted (s : CorrelationState) : Prop :=
  ∀ src, (s.correlator.windows src).Pairwise fun ev ev' => ev.timestamp ≤ ev'.timestamp

/-- The slice of a call is in order of time when the event is not late. -/
theorem windowAt_sorted (hsorted : WindowsSorted s) (hskip : skipped e = false)
    (hlate : NotLate s (clock, e)) :
    (windowAt s.correlator clock e).Pairwise (fun ev ev' => ev.timestamp ≤ ev'.timestamp)
      ∧ ∀ ev ∈ windowAt s.correlator clock e, ev.timestamp ≤ stamp clock e := by
  have hold : ∀ ev ∈ (s.correlator.windows e.source).filter
      (fun ev => ev.timestamp > stamp clock e - s.correlator.maxAge), ev.timestamp ≤ stamp clock e :=
    fun ev hev => hlate hskip ev (List.mem_of_mem_filter hev)
  unfold windowAt trimmed
  rw [evict_eq]
  constructor
  · refine List.pairwise_append.mpr ⟨(hsorted e.source).filter _, List.pairwise_singleton _ _, ?_⟩
    intro ev hev ev' hev'
    rw [List.mem_singleton] at hev'
    rw [hev']
    exact hold ev hev
  · intro ev hev
    rcases List.mem_append.mp hev with hev | hnew
    · exact hold ev hev
    · rw [List.mem_singleton] at hnew
      rw [hnew]

theorem WindowsSorted.observe (hsorted : WindowsSorted s) (htracked : Tracked chains s)
    (hlate : NotLate s (clock, e)) : WindowsSorted (s.observe clock e) := by
  cases hskip : skipped e with
  | true =>
    rw [observe_skipped hskip]
    exact hsorted
  | false =>
    rw [observe_eq htracked hskip]
    intro src
    simp only
    split
    · refine (windowAt_sorted hsorted hskip hlate).1.sublist ?_
      exact (checkedAt_within chains s.correlator clock e).stored
    · exact hsorted src

/-! ## Section 3: Alerts in time -/

theorem Timely.grow {observed : List Observed} {alert : ChainAlert} {chain : ChainRule}
    {matched : List Observed} (htimely : Timely chains observed alert chain matched)
    (o : Observed) : Timely chains (observed ++ [o]) alert chain matched := by
  obtain ⟨hrule, hids, htypes, hobserved, horder, hwindow⟩ := htimely
  exact ⟨hrule, hids, htypes, List.subset_append_of_subset_left _ hobserved, horder, hwindow⟩

theorem Raised.timely {window : List StampedEvent} {observed : List Observed}
    {alert : ChainAlert} {chain : ChainRule} {matched : List StampedEvent}
    (hraised : Raised chains e (stamp clock e) window alert chain matched)
    (hwindow : (window.map (Observed.mk e.source)).Sublist observed)
    (hsorted : window.Pairwise fun ev ev' => ev.timestamp ≤ ev'.timestamp)
    (hbefore : ∀ ev ∈ window, ev.timestamp ≤ stamp clock e) :
    Timely chains observed alert chain (matched.map (Observed.mk e.source)) := by
  obtain ⟨hrule, heq, horder, htypes, hrecent⟩ := hraised
  refine ⟨hrule, ?_, ?_, ((horder.map _).trans hwindow).subset, ?_, ?_⟩
  · rw [heq, List.map_map]
    rfl
  · rw [← htypes, List.map_map]
    rfl
  · rw [List.pairwise_map]
    exact hsorted.sublist horder
  · intro first last hfirst hlast
    obtain ⟨f, hf, rfl⟩ := List.mem_map.mp (List.mem_of_head? hfirst)
    obtain ⟨l, hl, rfl⟩ := List.mem_map.mp (List.mem_of_getLast? hlast)
    -- the first is not before the cutoff, and the last not after the arriving event
    have hcutoff := hrecent f hf
    have hlast := hbefore l (horder.subset hl)
    show l.timestamp - f.timestamp ≤ chain.window
    omega

/-- **Times**: in every run without stale matches and late events, the times along an
    alert are in order and within the window of its rule. -/
theorem alerts_timely
    (hreach : ((observing chains).restrict fun s l => NoStaleMatch s l ∧ NotLate s l).Reachable s) :
    AlertsTimely chains s := by
  have hall : Tracked chains s ∧ WindowsSorted s ∧ AlertsTimely chains s := by
    refine hreach.invariant (P := fun s => Tracked chains s ∧ WindowsSorted s
      ∧ AlertsTimely chains s) ?_ ?_
    · intro s hinit
      refine ⟨tracked_init hinit, ?_⟩
      rw [show s = _ from hinit]
      exact ⟨fun src => List.Pairwise.nil, by simp [AlertsTimely]⟩
    · intro s l s' hkept hstep
      obtain ⟨htracked, hsorted, htimely⟩ := hkept
      obtain ⟨⟨hstale, hlate⟩, rfl⟩ := hstep
      refine ⟨htracked.observe l.1 l.2, hsorted.observe htracked hlate, ?_⟩
      intro alert halert
      rcases mem_alerts_observe htracked hstale halert with hbefore | ⟨hskip, chain, matched, hraised⟩
      · obtain ⟨chain, matched, ht⟩ := htimely alert hbefore
        exact ⟨chain, matched, ht.grow _⟩
      · obtain ⟨hinorder, hnotafter⟩ := windowAt_sorted hsorted hskip hlate
        exact ⟨chain, _, hraised.timely (windowAt_sublist htracked l.1 l.2) hinorder hnotafter⟩
  exact hall.2.2

theorem scanRun_timely_reachable : ((observing [scanRule]).restrict fun s l =>
    NoStaleMatch s l ∧ NotLate s l).Reachable scanRun := by
  have hnone : ((observing [scanRule]).restrict fun s l =>
      NoStaleMatch s l ∧ NotLate s l).Reachable (noEvents [scanRule]) := System.Reachable.init rfl
  have hfirst : ((observing [scanRule]).restrict fun s l =>
      NoStaleMatch s l ∧ NotLate s l).Reachable
      ((noEvents [scanRule]).observe 0 (plainEvent "a" .arp 1)) :=
    hnone.tail (l := (0, plainEvent "a" .arp 1))
      ⟨⟨noStaleMatch_single rfl _, fun _ => by decide⟩, rfl⟩
  exact hfirst.tail (l := (0, plainEvent "b" .portScan 2))
    ⟨⟨noStaleMatch_single rfl _, fun _ => by decide⟩, rfl⟩

theorem alerts_timely_scan :
    scanRun.alerts.map (·.chainEvents) = [["a", "b"]] ∧ AlertsTimely [scanRule] scanRun :=
  ⟨by decide, alerts_timely scanRun_timely_reachable⟩

/-- The probe arrives first, with the later time. -/
def lateRun : CorrelationState :=
  ((noEvents [scanRule]).observe 0 (plainEvent "a" .arp 10)).observe 0 (plainEvent "b" .portScan 5)

/-- The scan comes before the probe, and the alert says that it follows it. -/
theorem late_event_breaks_order :
    (observing [scanRule]).Reachable lateRun ∧ 0 < scanRule.window
      ∧ lateRun.alerts.map (·.chainEvents) = [["a", "b"]]
      ∧ ¬ AlertsTimely [scanRule] lateRun := by
  have hnone : (observing [scanRule]).Reachable (noEvents [scanRule]) := System.Reachable.init rfl
  have hfirst : (observing [scanRule]).Reachable
      ((noEvents [scanRule]).observe 0 (plainEvent "a" .arp 10)) :=
    hnone.tail (l := (0, plainEvent "a" .arp 10)) rfl
  have halerts : lateRun.alerts.map (·.chainEvents) = [["a", "b"]] := by decide
  refine ⟨hfirst.tail (l := (0, plainEvent "b" .portScan 5)) rfl, by decide, halerts, ?_⟩
  intro htimely
  have hmem : ["a", "b"] ∈ lateRun.alerts.map (·.chainEvents) := by
    rw [halerts]
    simp
  obtain ⟨alert, halert, heq⟩ := List.mem_map.mp hmem
  obtain ⟨chain, matched, ht⟩ := htimely alert halert
  have hids := ht.ids
  rw [heq] at hids
  -- only one observed event has each of the IDs
  have honly : ∀ o ∈ lateRun.observed,
      (o.event.id = "a" → o.event.timestamp = 10) ∧ (o.event.id = "b" → o.event.timestamp = 5) := by
    decide
  obtain ⟨o, rest, rfl, ho, hrest⟩ := List.map_eq_cons_iff.mp hids
  obtain ⟨o', rest', rfl, ho', _⟩ := List.map_eq_cons_iff.mp hrest
  have hfirst := (honly o (ht.observed (by simp))).1 ho
  have hsecond := (honly o' (ht.observed (by simp))).2 ho'
  have hle := List.rel_of_pairwise_cons ht.order List.mem_cons_self
  omega

end Owasaka.Correlation
