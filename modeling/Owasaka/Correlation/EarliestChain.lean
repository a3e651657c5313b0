import Owasaka.Correlation.Temporal
import Owasaka.Foundation.Occurrence

/-! # The earliest chain (`analytics/correlation/temporal.go`)

    `matchChain` goes over the window once, with the position in the sequence and the
    IDs that it has collected.  `matchChainIDs` is this loop as it is written, and
    agrees with the recursion of `matchChain`.

    The main result: among the events that are not too old the loop finds the earliest
    occurrence of the sequence, position by position, and finds one whenever the
    sequence occurs at all. -/

namespace Owasaka.Correlation

open Events

/-! ## Section 1: The loop -/

/-- The loop over the window; `idx` is the position in the sequence. -/
def collectIDs (seq : List EventType) (cutoff : Int) :
    List String → Nat → List StampedEvent → Option (List String)
  | _, _, [] => none
  | ids, idx, ev :: window =>
    -- `continue`
    if ev.timestamp < cutoff then collectIDs seq cutoff ids idx window
    else if some ev.type = seq[idx]? then
      let ids := ids ++ [ev.id]
      let idx := idx + 1
      if idx = seq.length then some ids else collectIDs seq cutoff ids idx window
    else collectIDs seq cutoff ids idx window

/-- `matchChain`, which returns the IDs; `none` is the nil slice. -/
def matchChainIDs (window : List StampedEvent) (chain : ChainRule) (now : Int) :
    Option (List String) :=
  let seq := chain.sequence
  if seq.length = 0 then none
  else collectIDs seq (now - chain.window) [] 0 window

variable {cutoff now : Int} {seq : List EventType} {window : List StampedEvent} {chain : ChainRule}

theorem matchLoop_nil (cutoff : Int) (window : List StampedEvent) :
    matchLoop cutoff [] window = some [] := by
  cases window <;> rfl

/-- From a position within the sequence the loop adds what the recursion finds for
    the rest of it. -/
theorem collectIDs_eq (ids : List String) {idx : Nat} (hidx : idx < seq.length) :
    collectIDs seq cutoff ids idx window
      = (matchLoop cutoff (seq.drop idx) window).map fun matched => ids ++ matched.map (·.id) := by
  rw [List.drop_eq_getElem_cons hidx]
  induction window generalizing ids idx with
  | nil => rfl
  | cons ev window ih =>
    unfold collectIDs matchLoop
    simp only [List.getElem?_eq_getElem hidx, Option.some.injEq]
    by_cases hold : ev.timestamp < cutoff
    · rw [if_pos hold, if_pos hold, ih ids hidx]
    · rw [if_neg hold, if_neg hold]
      by_cases htype : ev.type = seq[idx]
      · rw [if_pos htype, if_pos htype]
        by_cases hlast : idx + 1 = seq.length
        · -- the sequence is complete
          rw [if_pos hlast, List.drop_of_length_le (by omega), matchLoop_nil]
          rfl
        · have hnext : idx + 1 < seq.length := by omega
          rw [if_neg hlast, ih _ hnext, ← List.drop_eq_getElem_cons hnext, Option.map_map]
          congr 1
          funext matched
          simp
      · rw [if_neg htype, if_neg htype, ih ids hidx]

/-- **The loop and the recursion** find the same events. -/
theorem matchChainIDs_eq (window : List StampedEvent) (chain : ChainRule) (now : Int) :
    matchChainIDs window chain now = (matchChain window chain now).map (·.map (·.id)) := by
  unfold matchChainIDs matchChain
  by_cases hempty : chain.sequence.length = 0
  · rw [if_pos hempty, if_pos hempty]
    rfl
  · rw [if_neg hempty, if_neg hempty, collectIDs_eq [] (Nat.pos_of_ne_zero hempty), List.drop_zero]
    rfl

/-! ## Section 2: Occurrences among the recent events -/

/-- The events that are not before the start of the rule's window. -/
def recentEvents (window : List StampedEvent) (chain : ChainRule) (now : Int) : List StampedEvent :=
  window.filter fun ev => ¬ ev.timestamp < now - chain.window

/-- The event has the type that the sequence asks for. -/
def HasType (type : EventType) (ev : StampedEvent) : Prop := ev.type = type

instance : DecidableRel HasType := fun type ev => inferInstanceAs (Decidable (ev.type = type))

/-- The events at some positions of a list. -/
def eventsAt (events : List StampedEvent) (positions : List Nat) : List (Option StampedEvent) :=
  positions.map fun i => events[i]?

theorem eventsAt_shift (ev : StampedEvent) (events : List StampedEvent) (positions : List Nat) :
    eventsAt (ev :: events) (positions.map (· + 1)) = eventsAt events positions := by
  unfold eventsAt
  rw [List.map_map]
  rfl

/-- The recursion is the pass for the earliest occurrence over the recent events. -/
theorem matchLoop_eq (cutoff : Int) (seq : List EventType) (window : List StampedEvent) :
    (matchLoop cutoff seq window).map (·.map some)
      = (earliest HasType seq (window.filter fun ev => ¬ ev.timestamp < cutoff)).map
          (eventsAt (window.filter fun ev => ¬ ev.timestamp < cutoff)) := by
  induction window generalizing seq with
  | nil => cases seq <;> rfl
  | cons ev window ih =>
    cases seq with
    | nil =>
      rw [matchLoop_nil, earliest]
      rfl
    | cons type seq =>
      unfold matchLoop
      by_cases hold : ev.timestamp < cutoff
      · rw [if_pos hold, List.filter_cons_of_neg (by simpa using hold)]
        exact ih (type :: seq)
      · rw [if_neg hold, List.filter_cons_of_pos (by simpa using hold), earliest]
        by_cases htype : ev.type = type
        · rw [if_pos htype, if_pos (show HasType type ev from htype)]
          have hrest := congrArg (Option.map (some ev :: ·)) (ih seq)
          rw [Option.map_map, Option.map_map] at hrest ⊢
          refine hrest.trans ?_
          congr 1
          funext positions
          exact congrArg (some ev :: ·) (eventsAt_shift ev _ positions).symm
        · rw [if_neg htype, if_neg (show ¬ HasType type ev from htype), Option.map_map, ih (type :: seq)]
          congr 1
          funext positions
          exact (eventsAt_shift ev _ positions).symm

/-- **Earliest chain**: the loop returns IDs if and only if the sequence is a subsequence
    of the types of the events that are not too old, and these are the IDs of its
    earliest occurrence among them. -/
theorem matchChain_earliest (window : List StampedEvent) (chain : ChainRule) (now : Int)
    (hsequence : chain.sequence ≠ []) :
    ((matchChainIDs window chain now).isSome ↔
        chain.sequence.Sublist ((recentEvents window chain now).map (·.type)))
      ∧ ∀ ids, matchChainIDs window chain now = some ids →
          ∃ positions, EarliestAt HasType chain.sequence (recentEvents window chain now) positions
            ∧ ids.map some = positions.map fun i => (recentEvents window chain now)[i]?.map (·.id) := by
  have hlength : chain.sequence.length ≠ 0 := by simpa using hsequence
  have hloop := matchLoop_eq (now - chain.window) chain.sequence window
  rw [matchChainIDs_eq, matchChain, if_neg hlength]
  constructor
  · rw [Option.isSome_map, ← earliest_isSome_iff]
    have hsome := congrArg Option.isSome hloop
    rw [Option.isSome_map, Option.isSome_map] at hsome
    rw [hsome]
    rfl
  · intro ids hids
    rw [Option.map_eq_some_iff] at hids
    obtain ⟨matched, hmatched, rfl⟩ := hids
    rw [hmatched, Option.map_some, eq_comm, Option.map_eq_some_iff] at hloop
    obtain ⟨positions, hpositions, hevents⟩ := hloop
    refine ⟨positions, earliestAt_of_earliest hpositions, ?_⟩
    -- the IDs of the events at these positions
    have hmap := congrArg (List.map (Option.map StampedEvent.id)) hevents
    rw [eventsAt, List.map_map, List.map_map] at hmap
    rw [List.map_map]
    exact hmap.symm

def probeRule : ChainRule := ⟨"probe", "TA0043", "HIGH", minute, [.arp, .portScan]⟩

/-- A probe that is too old, and two probes and two scans that are not. -/
def probes : List StampedEvent :=
  [⟨"a", .arp, 0⟩, ⟨"b", .arp, minute⟩, ⟨"c", .arp, minute + 1⟩, ⟨"d", .portScan, minute + 2⟩,
    ⟨"e", .portScan, minute + 3⟩]

theorem matchChain_earliest_probes :
    matchChainIDs probes probeRule (2 * minute) = some ["b", "d"]
      ∧ ∃ positions, EarliestAt HasType probeRule.sequence
            (recentEvents probes probeRule (2 * minute)) positions
          ∧ ["b", "d"].map some
            = positions.map fun i => (recentEvents probes probeRule (2 * minute))[i]?.map (·.id) := by
  have hids : matchChainIDs probes probeRule (2 * minute) = some ["b", "d"] := by decide
  exact ⟨hids, (matchChain_earliest probes probeRule (2 * minute) (by decide)).2 _ hids⟩

end Owasaka.Correlation
