import Owasaka.Correlation.AlertTimes

/-! # Eviction against a correlator that keeps everything

    `Observe` evicts the events that are at least `maxAge` old, the longest window of
    the rules; a rule looks at the events that are not older than its own window.
    The two disagree on an event that is exactly `maxAge` old, which the rule with
    the longest window still counts.

    The main result is a simulation: the correlator that never evicts has, in front
    of each window, events that no rule looks at any more.  In runs where no event
    is on the boundary, both raise the same alerts. -/

namespace Owasaka.Correlation

open Events

/-! ## Section 1: The correlator that never evicts -/

/-- `Observe` without the eviction. -/
def observeKeeping (t : TemporalCorrelator) (clock : Int) (e : NetworkEvent) :
    TemporalCorrelator × List ChainAlert :=
  if skipped e then (t, []) else observeIn t (t.windows e.source) (stamp clock e) e

/-- The two correlators on the same events. -/
structure PairState where
  evicting : CorrelationState
  keeping : TemporalCorrelator
  keepingAlerts : List ChainAlert

def PairState.observe (p : PairState) (clock : Int) (e : NetworkEvent) : PairState where
  evicting := p.evicting.observe clock e
  keeping := (observeKeeping p.keeping clock e).1
  keepingAlerts := p.keepingAlerts ++ (observeKeeping p.keeping clock e).2

def sideBySide (chains : List ChainRule) : System PairState (Int × NetworkEvent) where
  init := fun p =>
    p = ⟨⟨setAlertCallback (newTemporalCorrelator chains), [], []⟩,
      setAlertCallback (newTemporalCorrelator chains), []⟩
  step := fun p l p' => p' = p.observe l.1 l.2

/-- The events have distinct IDs and times, in order. -/
def WellFed (p : PairState) (l : Int × NetworkEvent) : Prop :=
  NewID p.evicting l ∧ InOrder p.evicting l

instance (p : PairState) (l : Int × NetworkEvent) : Decidable (WellFed p l) :=
  inferInstanceAs (Decidable (_ ∧ _))

/-- No event in the window of the source is exactly `maxAge` older than the new one,
    or no rule has a window as long. -/
def OffBoundary (p : PairState) (l : Int × NetworkEvent) : Prop :=
  skipped l.2 = false →
    (∀ ev ∈ p.evicting.correlator.windows l.2.source,
      ev.timestamp ≠ stamp l.1 l.2 - p.evicting.correlator.maxAge)
    ∨ ∀ chain ∈ p.evicting.correlator.chains, chain.sequence ≠ [] →
      chain.window ≠ p.evicting.correlator.maxAge

instance (p : PairState) (l : Int × NetworkEvent) : Decidable (OffBoundary p l) :=
  inferInstanceAs (Decidable (_ → _ ∨ _))

/-! ## Section 2: Events that no rule looks at -/

variable {chains : List ChainRule} {now : Int} {old window : List StampedEvent}

/-- No rule looks at the event at this time. -/
def TooOld (chains : List ChainRule) (now : Int) (ev : StampedEvent) : Prop :=
  ∀ chain ∈ chains, chain.sequence ≠ [] → ev.timestamp < now - chain.window

theorem matchLoop_append {cutoff : Int} (hold : ∀ ev ∈ old, ev.timestamp < cutoff)
    (type : EventType) (seq : List EventType) :
    matchLoop cutoff (type :: seq) (old ++ window) = matchLoop cutoff (type :: seq) window := by
  induction old with
  | nil => rfl
  | cons ev old ih =>
    rw [List.forall_mem_cons] at hold
    rw [List.cons_append, matchLoop, if_pos hold.1]
    exact ih hold.2

theorem matchChain_append (hold : ∀ ev ∈ old, TooOld chains now ev) {chain : ChainRule}
    (hchain : chain ∈ chains) :
    matchChain (old ++ window) chain now = matchChain window chain now := by
  unfold matchChain
  cases hseq : chain.sequence with
  | nil => rfl
  | cons type seq =>
    rw [matchLoop_append]
    intro ev hev
    exact hold ev hev chain hchain (by simp [hseq])

/-- The buffer with events in front of it. -/
def Buffer.behind (old : List StampedEvent) (b : Buffer) : Buffer :=
  ⟨old ++ b.slots, old.length + b.len⟩

theorem stored_behind (old : List StampedEvent) (b : Buffer) :
    (b.behind old).stored = old ++ b.stored := by
  unfold Buffer.stored Buffer.behind
  exact List.take_length_add_append _

/-- A removal that names none of the events in front leaves them there. -/
theorem remove_behind {b : Buffer} (hlen : b.len ≤ b.slots.length) {ids : List String}
    (hids : ∀ ev ∈ old, ev.id ∉ ids) :
    (b.behind old).remove ids = (b.remove ids).behind old := by
  have hkeep : old.filter (fun ev => !ids.contains ev.id) = old := by
    rw [List.filter_eq_self]
    intro ev hev
    simp [hids ev hev]
  have hlen' : (b.behind old).len ≤ (b.behind old).slots.length := by
    simp [Buffer.behind, hlen]
  rw [remove_eq hlen', remove_eq hlen, stored_behind, List.filter_append, hkeep]
  unfold Buffer.behind
  simp only [List.length_append, List.append_assoc, List.drop_length_add_append]

/-- **Simulation** of the loop over the rules: events in front that no rule looks at
    change neither the alerts nor what happens behind them. -/
theorem checkChains_behind {e : NetworkEvent} (hdisjoint : ∀ ev ∈ old, ∀ ev' ∈ window, ev.id ≠ ev'.id)
    (i : Nat) {b : Buffer} (hwithin : Within window b) (hold : ∀ ev ∈ old, TooOld chains now ev) :
    checkChains true e now i chains (b.behind old)
      = ((checkChains true e now i chains b).1,
        (checkChains true e now i chains b).2.behind old) := by
  induction chains generalizing i b with
  | nil => rfl
  | cons chain chains ih =>
    have hrest : ∀ ev ∈ old, TooOld chains now ev :=
      fun ev hev chain' hchain' => hold ev hev chain' (List.mem_cons_of_mem _ hchain')
    unfold checkChains
    rw [show (b.behind old).slots = old ++ b.slots from rfl,
      matchChain_append hold List.mem_cons_self]
    cases hmatch : matchChain b.slots chain now with
    | none => exact ih (i + 1) hwithin hrest
    | some matched =>
      -- the matched events are of the slice, so the removal spares those in front
      have hids : ∀ ev ∈ old, ev.id ∉ matched.map (·.id) := by
        intro ev hev hid
        obtain ⟨ev', hev', heq⟩ := List.mem_map.mp hid
        exact hdisjoint ev hev ev' (hwithin.slots ((matchChain_some hmatch).order.subset hev'))
          heq.symm
      simp only [fireChainAlert, if_true]
      rw [remove_behind hwithin.len hids, ih (i + 1) (hwithin.remove _) hrest]

/-! ## Section 3: What is evicted -/

theorem le_longestWindow {chain : ChainRule} (hchain : chain ∈ chains) :
    chain.window ≤ longestWindow chains := by
  unfold longestWindow
  -- the fold only grows, and passes the window of the rule
  have hgrow : ∀ (cs : List ChainRule) (maxAge : Int),
      maxAge ≤ cs.foldl (fun maxAge c => if c.window > maxAge then c.window else maxAge) maxAge
        ∧ ∀ c ∈ cs, c.window
          ≤ cs.foldl (fun maxAge c => if c.window > maxAge then c.window else maxAge) maxAge := by
    intro cs
    induction cs with
    | nil => exact fun maxAge => ⟨Int.le_refl _, by simp⟩
    | cons c cs ih =>
      intro maxAge
      rw [List.foldl_cons, List.forall_mem_cons]
      obtain ⟨hmax, hall⟩ := ih (if c.window > maxAge then c.window else maxAge)
      have hstep : maxAge ≤ (if c.window > maxAge then c.window else maxAge)
          ∧ c.window ≤ (if c.window > maxAge then c.window else maxAge) := by
        split <;> omega
      exact ⟨Int.le_trans hstep.1 hmax, Int.le_trans hstep.2 hmax, hall⟩
  exact (hgrow chains minute).2 chain hchain

/-- In order of time, the evicted events are at the front. -/
theorem filter_append_filter_of_sorted {l : List StampedEvent}
    (hsorted : l.Pairwise fun ev ev' => ev.timestamp ≤ ev'.timestamp) (cutoff : Int) :
    l.filter (fun ev => ev.timestamp ≤ cutoff) ++ l.filter (fun ev => ev.timestamp > cutoff) = l := by
  induction l with
  | nil => rfl
  | cons ev l ih =>
    rw [List.pairwise_cons] at hsorted
    by_cases hold : ev.timestamp ≤ cutoff
    · have hnot : ¬ ev.timestamp > cutoff := by omega
      rw [List.filter_cons_of_pos (by simpa using hold), List.filter_cons_of_neg (by simpa using hnot),
        List.cons_append, ih hsorted.2]
    · -- the first one stays, and so do all later ones
      have hnone : (ev :: l).filter (fun ev => ev.timestamp ≤ cutoff) = [] := by
        rw [List.filter_eq_nil_iff, List.forall_mem_cons]
        refine ⟨by simpa using hold, fun ev' hev' => ?_⟩
        have hle := hsorted.1 ev' hev'
        simp only [decide_eq_true_eq]
        omega
      have hall : (ev :: l).filter (fun ev => ev.timestamp > cutoff) = ev :: l := by
        rw [List.filter_eq_self, List.forall_mem_cons]
        refine ⟨by simpa using hold, fun ev' hev' => ?_⟩
        have hle := hsorted.1 ev' hev'
        simp only [decide_eq_true_eq]
        omega
      rw [hnone, hall, List.nil_append]

/-! ## Section 4: Runs -/

variable {p : PairState} {clock : Int} {e : NetworkEvent}

/-- No rule looks at the event at the time of the last call, nor later. -/
def NeverAgain (chains : List ChainRule) (observed : List Observed) (ev : StampedEvent) : Prop :=
  ∀ now, (∀ o ∈ observed, o.event.timestamp ≤ now) → TooOld chains now ev

/-- The simulation between the two correlators. -/
structure Simulates (chains : List ChainRule) (p : PairState) : Prop where
  tracked : Tracked chains p.evicting
  distinct : DistinctIDs p.evicting
  sorted : WindowsSorted p.evicting
  rules : p.keeping.chains = chains
  callback : p.keeping.onAlert = true
  /-- The windows differ in events that no rule looks at any more. -/
  windows : ∀ src, ∃ old, p.keeping.windows src = old ++ p.evicting.correlator.windows src
    ∧ ∀ ev ∈ old, NeverAgain chains p.evicting.observed ev
  /-- The events that are kept were observed, in order. -/
  kept : ∀ src, ((p.keeping.windows src).map (Observed.mk src)).Sublist p.evicting.observed
  alerts : p.keepingAlerts = p.evicting.alerts

theorem InOrder.notLate {s : CorrelationState} (htracked : Tracked chains s)
    (horder : InOrder s (clock, e)) : NotLate s (clock, e) := by
  intro _ ev hev
  show ev.timestamp ≤ stamp clock e
  unfold stamp
  rw [if_neg horder.1]
  exact horder.2 _ (htracked.observed hev)

theorem NeverAgain.grow {observed : List Observed} {ev : StampedEvent}
    (hnever : NeverAgain chains observed ev) (o : Observed) :
    NeverAgain chains (observed ++ [o]) ev := by
  intro now hafter
  exact hnever now fun o' ho' => hafter o' (List.mem_append_left _ ho')

/-- What is evicted off the boundary, no rule looks at any more. -/
theorem neverAgain_of_evicted (hsim : Simulates chains p) (hskip : skipped e = false)
    (hboundary : OffBoundary p (clock, e)) {ev : StampedEvent}
    (hev : ev ∈ p.evicting.correlator.windows e.source)
    (hevicted : ev.timestamp ≤ stamp clock e - p.evicting.correlator.maxAge) :
    NeverAgain chains (p.evicting.observed ++ [observedAs clock e]) ev := by
  intro now hafter chain hchain hseq
  have hnow : stamp clock e ≤ now := hafter (observedAs clock e) (by simp)
  have hlongest := le_longestWindow hchain
  rw [← hsim.tracked.maxAge] at hlongest
  -- the event is older than `maxAge`, or the rule's window is shorter than it
  rcases hboundary hskip with hnone | hshorter
  · have hne : ev.timestamp ≠ stamp clock e - p.evicting.correlator.maxAge := hnone ev hev
    omega
  · have hne := hshorter chain (by rw [hsim.tracked.rules]; exact hchain) hseq
    omega

/-- The slice of the keeping correlator is that of the other one behind events that no
    rule looks at any more. -/
theorem Simulates.slice (hsim : Simulates chains p) (hskip : skipped e = false)
    (hboundary : OffBoundary p (clock, e)) :
    ∃ old, trimmed (p.keeping.windows e.source) (stamp clock e) e
        = old ++ windowAt p.evicting.correlator clock e
      ∧ ∀ ev ∈ old, NeverAgain chains (p.evicting.observed ++ [observedAs clock e]) ev := by
  obtain ⟨old, hold, hnever⟩ := hsim.windows e.source
  -- in front of the slice: what was in front of the window, and what is evicted now
  have hsplit := filter_append_filter_of_sorted (hsim.sorted e.source)
    (stamp clock e - p.evicting.correlator.maxAge)
  refine ⟨old ++ (p.evicting.correlator.windows e.source).filter
    (fun ev => ev.timestamp ≤ stamp clock e - p.evicting.correlator.maxAge), ?_, ?_⟩
  · unfold windowAt trimmed
    rw [hold, evict_eq, ← List.append_assoc, List.append_assoc old (List.filter _ _), hsplit]
  · intro ev hev
    rcases List.mem_append.mp hev with hev | hev
    · exact (hnever ev hev).grow _
    · obtain ⟨hmem, hevicted⟩ := List.mem_filter.mp hev
      exact neverAgain_of_evicted hsim hskip hboundary hmem (of_decide_eq_true hevicted)

theorem observedAs_last {s : CorrelationState} (horder : InOrder s (clock, e)) :
    ∀ o ∈ s.observed ++ [observedAs clock e], o.event.timestamp ≤ stamp clock e := by
  intro o ho
  rcases List.mem_append.mp ho with ho | ho
  · unfold stamp
    rw [if_neg horder.1]
    exact horder.2 o ho
  · rw [List.mem_singleton] at ho
    rw [ho]
    exact Int.le_refl _

/-- The events in front of the slice and those in it have different IDs. -/
theorem ids_disjoint {observed : List Observed} {src : String}
    (hsub : ((old ++ window).map (Observed.mk src)).Sublist observed)
    (hdistinct : (observed.map (·.event.id)).Nodup) :
    ∀ ev ∈ old, ∀ ev' ∈ window, ev.id ≠ ev'.id := by
  have hnodup : ((old ++ window).map (·.id)).Nodup := by
    have hmap := hdistinct.sublist (hsub.map (·.event.id))
    rw [List.map_map] at hmap
    exact hmap
  rw [List.map_append, List.nodup_append] at hnodup
  intro ev hev ev' hev'
  exact hnodup.2.2 ev.id (List.mem_map.mpr ⟨ev, hev, rfl⟩) ev'.id (List.mem_map.mpr ⟨ev', hev', rfl⟩)

theorem Simulates.observe_skipped (hsim : Simulates chains p)
    (htracked : Tracked chains (p.evicting.observe clock e))
    (hdistinct : DistinctIDs (p.evicting.observe clock e))
    (hsorted : WindowsSorted (p.evicting.observe clock e)) (hskip : skipped e = true) :
    Simulates chains (p.observe clock e) := by
  have hkeeping : observeKeeping p.keeping clock e = (p.keeping, []) := by
    unfold observeKeeping
    rw [if_pos hskip]
  unfold PairState.observe
  rw [hkeeping]
  rw [Correlation.observe_skipped hskip] at htracked hdistinct hsorted ⊢
  refine ⟨htracked, hdistinct, hsorted, hsim.rules, hsim.callback, ?_, ?_, ?_⟩
  · -- the windows stay, and there is one more time that lies behind
    intro src
    obtain ⟨old, hold, hnever⟩ := hsim.windows src
    exact ⟨old, hold, fun ev hev => (hnever ev hev).grow _⟩
  · intro src
    exact (hsim.kept src).trans (List.sublist_append_left _ _)
  · rw [List.append_nil]
    exact hsim.alerts

/-- The keeping correlator raises what the other one raises in its slice, and keeps
    the events in front of it. -/
theorem observeKeeping_eq (hsim : Simulates chains p) (hskip : skipped e = false)
    (hslice : trimmed (p.keeping.windows e.source) (stamp clock e) e
      = old ++ windowAt p.evicting.correlator clock e)
    (hdisjoint : ∀ ev ∈ old, ∀ ev' ∈ windowAt p.evicting.correlator clock e, ev.id ≠ ev'.id)
    (hold : ∀ ev ∈ old, TooOld chains (stamp clock e) ev) :
    observeKeeping p.keeping clock e
      = ({ p.keeping with windows := fun src =>
            if src = e.source then
              old ++ (checkedAt chains p.evicting.correlator clock e).2.stored
            else p.keeping.windows src },
          (checkedAt chains p.evicting.correlator clock e).1) := by
  have hcheck := checkChains_behind (e := e) hdisjoint 0 (within_self _) hold
  have hbehind : (⟨old ++ windowAt p.evicting.correlator clock e,
      (old ++ windowAt p.evicting.correlator clock e).length⟩ : Buffer)
      = Buffer.behind old ⟨windowAt p.evicting.correlator clock e,
          (windowAt p.evicting.correlator clock e).length⟩ := by
    simp [Buffer.behind]
  unfold observeKeeping observeIn checkedAt
  rw [if_neg (by simp [hskip]), hslice, hsim.callback, hsim.rules]
  simp only [hbehind, hcheck, stored_behind, hsim.callback, hsim.rules]

/-- **Step lemma**: a call off the boundary keeps the simulation. -/
theorem Simulates.observe (hsim : Simulates chains p) (hfed : WellFed p (clock, e))
    (hboundary : OffBoundary p (clock, e)) : Simulates chains (p.observe clock e) := by
  obtain ⟨hnew, horder⟩ := hfed
  have htracked := hsim.tracked.observe clock e
  have hdistinct := hsim.distinct.observe hnew
  have hsorted := hsim.sorted.observe hsim.tracked (horder.notLate hsim.tracked)
  cases hskip : skipped e with
  | true => exact hsim.observe_skipped htracked hdistinct hsorted hskip
  | false =>
    obtain ⟨old, hslice, hnever⟩ := hsim.slice hskip hboundary
    have hkept : ((old ++ windowAt p.evicting.correlator clock e).map (Observed.mk e.source)).Sublist
        (p.evicting.observed ++ [observedAs clock e]) := by
      rw [← hslice]
      unfold trimmed
      rw [List.map_append]
      exact (hsim.kept e.source).append (List.Sublist.refl _)
    have hkeeping := observeKeeping_eq hsim hskip hslice (ids_disjoint hkept hdistinct)
      (fun ev hev => hnever ev hev (stamp clock e) (observedAs_last horder))
    unfold PairState.observe
    rw [hkeeping]
    rw [observe_eq hsim.tracked hskip] at htracked hdistinct hsorted ⊢
    refine ⟨htracked, hdistinct, hsorted, hsim.rules, hsim.callback, ?_, ?_, ?_⟩
    · -- what lies in front of the window now lay in front of the slice
      intro src
      by_cases hsrc : src = e.source
      · exact ⟨old, by simp [hsrc], hnever⟩
      · obtain ⟨old', hold', hnever'⟩ := hsim.windows src
        exact ⟨old', by simp [hsrc, hold'], fun ev hev => (hnever' ev hev).grow _⟩
    · intro src
      by_cases hsrc : src = e.source
      · -- the rules only remove events from the slice
        subst hsrc
        simp only [if_true]
        refine List.Sublist.trans (List.Sublist.map _ ?_) hkept
        exact (List.Sublist.refl old).append (checkedAt_within _ _ _ _).stored
      · simp only [hsrc, if_false]
        exact (hsim.kept src).trans (List.sublist_append_left _ _)
    · simp only [hsim.alerts]

/-- **Eviction is unobservable** in every run with distinct IDs and times in order
    whose events are off the boundary: the correlator that never evicts raises the
    same alerts. -/
theorem eviction_unobservable
    (hreach : ((sideBySide chains).restrict fun p l => WellFed p l ∧ OffBoundary p l).Reachable p) :
    p.keepingAlerts = p.evicting.alerts := by
  have hsim : Simulates chains p := by
    refine hreach.invariant ?_ ?_
    · intro p hinit
      have htracked : Tracked chains p.evicting := tracked_init (by rw [show p = _ from hinit]; rfl)
      rw [show p = _ from hinit] at htracked ⊢
      exact ⟨htracked, List.nodup_nil, fun _ => List.Pairwise.nil, rfl, rfl,
        fun src => ⟨[], rfl, by simp⟩, fun src => List.nil_sublist _, rfl⟩
    · intro p l p' hsim hstep
      obtain ⟨⟨hfed, hboundary⟩, rfl⟩ := hstep
      exact hsim.observe hfed hboundary
  exact hsim.alerts

/-! ## Section 5: Events on and off the boundary -/

def noPair (chains : List ChainRule) : PairState :=
  ⟨noEvents chains, setAlertCallback (newTemporalCorrelator chains), []⟩

/-- An early probe, a second one two minutes later, and a scan. -/
def probesThenScan : List (Int × NetworkEvent) :=
  [(0, plainEvent "a" .arp 1), (0, plainEvent "b" .arp (1 + 2 * minute)),
    (0, plainEvent "c" .portScan (2 + 2 * minute))]

def evictedRun : PairState :=
  probesThenScan.foldl (fun p l => p.observe l.1 l.2) (noPair [scanRule])

/-- The early probe is evicted, and the alert is the same. -/
theorem eviction_unobservable_probes :
    (evictedRun.keeping.windows "10.0.0.1").map (·.id) = ["a"]
      ∧ evictedRun.evicting.correlator.windows "10.0.0.1" = []
      ∧ evictedRun.evicting.alerts.map (·.chainEvents) = [["b", "c"]]
      ∧ evictedRun.keepingAlerts = evictedRun.evicting.alerts := by
  have hreach : ((sideBySide [scanRule]).restrict fun p l => WellFed p l ∧ OffBoundary p l).Reachable
      evictedRun :=
    System.Reachable.of_foldl (fun _ _ => rfl) (System.Reachable.init rfl) (by decide +kernel)
  exact ⟨by decide, by decide, by decide, eviction_unobservable hreach⟩

/-- A probe, and a scan after the given time. -/
def probeThenScan (later : Int) : PairState :=
  ((noPair [scanRule]).observe 0 (plainEvent "a" .arp 1)).observe 0
    (plainEvent "b" .portScan (1 + later))

/-- The probe is exactly a minute older than the scan, and the rule's window is a
    minute: the probe is evicted, and only the keeping correlator raises the alert. -/
theorem boundary_event_evicted :
    ((sideBySide [scanRule]).restrict WellFed).Reachable (probeThenScan minute)
      ∧ (probeThenScan minute).evicting.alerts = []
      ∧ (probeThenScan minute).keepingAlerts.map (·.chainEvents) = [["a", "b"]]
      ∧ (probeThenScan minute).keepingAlerts ≠ (probeThenScan minute).evicting.alerts := by
  have hnone : ((sideBySide [scanRule]).restrict WellFed).Reachable (noPair [scanRule]) :=
    System.Reachable.init rfl
  have hfirst : ((sideBySide [scanRule]).restrict WellFed).Reachable
      ((noPair [scanRule]).observe 0 (plainEvent "a" .arp 1)) :=
    hnone.tail (l := (0, plainEvent "a" .arp 1)) ⟨by decide, rfl⟩
  exact ⟨hfirst.tail (l := (0, plainEvent "b" .portScan (1 + minute))) ⟨by decide, rfl⟩,
    by decide, by decide, by decide⟩

end Owasaka.Correlation
