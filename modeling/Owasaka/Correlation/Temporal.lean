import Owasaka.Events.Pipeline
import Owasaka.Foundation.InPlace

/-! # Kill chains (`analytics/correlation/temporal.go`)

    The correlator keeps, for each source, a window of the events observed so far
    and looks in it for the event types of each chain rule, in order and not older
    than the rule's window.  A rule that is complete raises an alert, and its events
    are removed from the window.

    Both the eviction of old events and this removal filter the window in place.
    `Observe` goes on matching the slice that it had before the first removal, which
    shares its array with the window: this is the `Buffer`.  Times and durations are
    nanoseconds, without overflow. -/

namespace Owasaka.Correlation

open Events

/-! ## Section 1: Rules and windows -/

structure ChainRule where
  name : String
  tactic : String
  severity : String
  window : Int
  sequence : List EventType

structure StampedEvent where
  id : String
  type : EventType
  timestamp : Int
  deriving DecidableEq

structure TemporalCorrelator where
  windows : String → List StampedEvent
  chains : List ChainRule
  /-- Whether an alert callback is set. -/
  onAlert : Bool
  maxAge : Int

def minute : Int := 60 * 10 ^ 9

def longestWindow (chains : List ChainRule) : Int :=
  chains.foldl (fun maxAge c => if c.window > maxAge then c.window else maxAge) minute

def newTemporalCorrelator (chains : List ChainRule) : TemporalCorrelator :=
  ⟨fun _ => [], chains, false, longestWindow chains⟩

def setAlertCallback (t : TemporalCorrelator) : TemporalCorrelator := { t with onAlert := true }

/-! ## Section 2: Matching -/

/-- The loop of `matchChain`: the events that match what is left of the sequence.
    The code collects their IDs. -/
def matchLoop (cutoff : Int) : List EventType → List StampedEvent → Option (List StampedEvent)
  | [], _ => some []
  | _ :: _, [] => none
  | type :: seq, ev :: window =>
    -- `continue`: an event that is too old, whatever its type
    if ev.timestamp < cutoff then matchLoop cutoff (type :: seq) window
    else if ev.type = type then (matchLoop cutoff seq window).map (ev :: ·)
    else matchLoop cutoff (type :: seq) window

def matchChain (window : List StampedEvent) (chain : ChainRule) (now : Int) :
    Option (List StampedEvent) :=
  if chain.sequence.length = 0 then none
  else matchLoop (now - chain.window) chain.sequence window

/-! ## Section 3: Alerts -/

/-- The slice that `Observe` matches, and the length of the window, which is the
    front of it. -/
structure Buffer where
  slots : List StampedEvent
  len : Nat

/-- The window proper. -/
def Buffer.stored (b : Buffer) : List StampedEvent := b.slots.take b.len

/-- The events with these IDs are removed from the window, in place. -/
def Buffer.remove (b : Buffer) (ids : List String) : Buffer :=
  let (slots, len) := filterInPlace (fun ev => !ids.contains ev.id) b.slots b.len
  ⟨slots, len⟩

/-- The alert, with the position of its rule in the list.  Its own ID and time are
    left out. -/
structure ChainAlert where
  position : Nat
  destination : String
  rule : String
  description : String
  severity : String
  mitreTactic : String
  chainEvents : List String
  triggerID : String
  window : Int
  deriving DecidableEq

def chainAlert (trigger : NetworkEvent) (position : Nat) (chain : ChainRule)
    (chainIDs : List String) : ChainAlert where
  position := position
  destination := trigger.source
  rule := chain.name
  description := "Kill-chain sequence detected: " ++ chain.name
  severity := if chain.severity = "" then "HIGH" else chain.severity
  mitreTactic := chain.tactic
  chainEvents := chainIDs
  triggerID := trigger.id
  window := chain.window

/-- `fireChainAlert`: without a callback nothing happens. -/
def fireChainAlert (onAlert : Bool) (trigger : NetworkEvent) (position : Nat) (chain : ChainRule)
    (chainIDs : List String) (b : Buffer) : Option ChainAlert × Buffer :=
  if onAlert then (some (chainAlert trigger position chain chainIDs), b.remove chainIDs)
  else (none, b)

/-- The loop over the rules: the alerts in order, and the buffer afterwards. -/
def checkChains (onAlert : Bool) (trigger : NetworkEvent) (now : Int) :
    Nat → List ChainRule → Buffer → List ChainAlert × Buffer
  | _, [], b => ([], b)
  | position, chain :: chains, b =>
    -- the whole slice, also what a removal has left behind the window
    match matchChain b.slots chain now with
    | none => checkChains onAlert trigger now (position + 1) chains b
    | some matched =>
      let fired := fireChainAlert onAlert trigger position chain (matched.map (·.id)) b
      let rest := checkChains onAlert trigger now (position + 1) chains fired.2
      (fired.1.toList ++ rest.1, rest.2)

/-! ## Section 4: `Observe` -/

/-- The time that an event is stamped with: its own, or that of the clock. -/
def stamp (clock : Int) (e : NetworkEvent) : Int :=
  if e.timestamp = zeroTime then clock else e.timestamp

def skipped (e : NetworkEvent) : Bool := e.source = "" || e.type = .alert

/-- The events of a window that are not too old, filtered in place. -/
def evict (maxAge now : Int) (existing : List StampedEvent) : List StampedEvent :=
  let (slots, len) :=
    filterInPlace (fun ev => ev.timestamp > now - maxAge) existing existing.length
  slots.take len

/-- The slice that `Observe` matches: the window with the new event. -/
def trimmed (existing : List StampedEvent) (now : Int) (e : NetworkEvent) : List StampedEvent :=
  existing ++ [⟨e.id, e.type, now⟩]

/-- `Observe` once the old events are evicted. -/
def observeIn (t : TemporalCorrelator) (existing : List StampedEvent) (now : Int)
    (e : NetworkEvent) : TemporalCorrelator × List ChainAlert :=
  let window := trimmed existing now e
  let checked := checkChains t.onAlert e now 0 t.chains ⟨window, window.length⟩
  ({ t with windows := fun src => if src = e.source then checked.2.stored else t.windows src },
    checked.1)

/-- `Observe`: the correlator afterwards, and the alerts in order. -/
def observe (t : TemporalCorrelator) (clock : Int) (e : NetworkEvent) :
    TemporalCorrelator × List ChainAlert :=
  -- an event without a source or an alert is not observed
  if skipped e then (t, [])
  else
    let now := stamp clock e
    observeIn t (evict t.maxAge now (t.windows e.source)) now e

/-! ## Section 5: What matching returns -/

variable {now : Int} {chain : ChainRule} {matched window : List StampedEvent}

/-- What it means to match a rule in a window. -/
structure Matches (chain : ChainRule) (now : Int) (window matched : List StampedEvent) :
    Prop where
  order : matched.Sublist window
  types : matched.map (·.type) = chain.sequence
  recent : ∀ ev ∈ matched, now - chain.window ≤ ev.timestamp

theorem matchLoop_some {cutoff : Int} {seq : List EventType}
    (hmatch : matchLoop cutoff seq window = some matched) :
    matched.Sublist window ∧ matched.map (·.type) = seq ∧ ∀ ev ∈ matched, cutoff ≤ ev.timestamp := by
  induction window generalizing seq matched with
  | nil =>
    cases seq with
    | nil =>
      cases hmatch
      exact ⟨.refl _, rfl, by simp⟩
    | cons type seq => contradiction
  | cons ev window ih =>
    cases seq with
    | nil =>
      cases hmatch
      exact ⟨List.nil_sublist _, rfl, by simp⟩
    | cons type seq =>
      -- an event that does not match is skipped
      have hskip : matchLoop cutoff (type :: seq) window = some matched → matched.Sublist (ev :: window)
          ∧ matched.map (·.type) = type :: seq ∧ ∀ ev ∈ matched, cutoff ≤ ev.timestamp := by
        intro hrest
        obtain ⟨hsub, htypes, hrecent⟩ := ih hrest
        exact ⟨hsub.cons ev, htypes, hrecent⟩
      unfold matchLoop at hmatch
      by_cases hold : ev.timestamp < cutoff
      · rw [if_pos hold] at hmatch
        exact hskip hmatch
      · rw [if_neg hold] at hmatch
        by_cases htype : ev.type = type
        · rw [if_pos htype, Option.map_eq_some_iff] at hmatch
          obtain ⟨rest, hrest, rfl⟩ := hmatch
          obtain ⟨hsub, htypes, hrecent⟩ := ih hrest
          refine ⟨hsub.cons_cons ev, by rw [List.map_cons, htype, htypes], ?_⟩
          rw [List.forall_mem_cons]
          exact ⟨Int.not_lt.mp hold, hrecent⟩
        · rw [if_neg htype] at hmatch
          exact hskip hmatch

theorem matchChain_some (hmatch : matchChain window chain now = some matched) :
    Matches chain now window matched := by
  unfold matchChain at hmatch
  split at hmatch
  · contradiction
  · obtain ⟨hsub, htypes, hrecent⟩ := matchLoop_some hmatch
    exact ⟨hsub, htypes, hrecent⟩

/-! ## Section 6: The buffer -/

theorem evict_eq (maxAge now : Int) (existing : List StampedEvent) :
    evict maxAge now existing = existing.filter fun ev => ev.timestamp > now - maxAge := by
  unfold evict
  rw [filterInPlace_eq _ (Nat.le_refl _), List.take_length]
  exact List.take_left

/-- The buffer lies within the slice that it began as. -/
structure Within (window : List StampedEvent) (b : Buffer) : Prop where
  len : b.len ≤ b.slots.length
  stored : b.stored.Sublist window
  slots : b.slots ⊆ window

theorem within_self (window : List StampedEvent) : Within window ⟨window, window.length⟩ := by
  refine ⟨Nat.le_refl _, ?_, List.Subset.refl _⟩
  unfold Buffer.stored
  rw [List.take_length]

variable {b : Buffer}

theorem remove_eq (hlen : b.len ≤ b.slots.length) (ids : List String) :
    b.remove ids
      = ⟨b.stored.filter (fun ev => !ids.contains ev.id)
            ++ b.slots.drop (b.stored.filter fun ev => !ids.contains ev.id).length,
          (b.stored.filter fun ev => !ids.contains ev.id).length⟩ := by
  unfold Buffer.remove
  rw [filterInPlace_eq _ hlen]
  rfl

theorem stored_remove (hlen : b.len ≤ b.slots.length) (ids : List String) :
    (b.remove ids).stored = b.stored.filter fun ev => !ids.contains ev.id := by
  rw [remove_eq hlen]
  exact List.take_left

theorem Within.remove (hwithin : Within window b) (ids : List String) :
    Within window (b.remove ids) := by
  refine ⟨?_, ?_, ?_⟩
  · rw [remove_eq hwithin.len]
    simp
  · rw [stored_remove hwithin.len]
    exact List.filter_sublist.trans hwithin.stored
  · rw [remove_eq hwithin.len]
    intro ev hev
    -- the events moved to the front, and the slots that still hold what they held
    rcases List.mem_append.mp hev with hkept | hbehind
    · exact hwithin.stored.subset (List.mem_of_mem_filter hkept)
    · exact hwithin.slots (List.mem_of_mem_drop hbehind)

/-! ## Section 7: The loop over the rules -/

variable {trigger : NetworkEvent} {chains : List ChainRule}

private theorem checkChains_rule_from {P : Nat → Buffer → Prop} {Q : ChainAlert → Prop}
    (hskip : ∀ i chain b, chains[i]? = some chain → P i b →
      matchChain b.slots chain now = none → P (i + 1) b)
    (hfire : ∀ i chain b matched, chains[i]? = some chain → P i b →
      matchChain b.slots chain now = some matched →
      Q (chainAlert trigger i chain (matched.map (·.id)))
        ∧ P (i + 1) (b.remove (matched.map (·.id))))
    (n : Nat) : ∀ i b, chains.length = i + n → P i b →
      (∀ alert ∈ (checkChains true trigger now i (chains.drop i) b).1, Q alert)
        ∧ P chains.length (checkChains true trigger now i (chains.drop i) b).2 := by
  -- `n` rules are left, the first of them at position `i`
  induction n with
  | zero =>
    intro i b hlen hb
    rw [List.drop_of_length_le (by omega)]
    exact ⟨by simp [checkChains], by rw [hlen]; exact hb⟩
  | succ n ih =>
    intro i b hlen hb
    have hi : i < chains.length := by omega
    have hchain : chains[i]? = some chains[i] := List.getElem?_eq_getElem hi
    rw [List.drop_eq_getElem_cons hi]
    unfold checkChains
    cases hmatch : matchChain b.slots chains[i] now with
    | none => exact ih (i + 1) b (by omega) (hskip i _ b hchain hb hmatch)
    | some matched =>
      obtain ⟨halert, hnext⟩ := hfire i _ b matched hchain hb hmatch
      obtain ⟨hrest, hend⟩ := ih (i + 1) _ (by omega) hnext
      refine ⟨?_, hend⟩
      intro alert hmem
      rcases List.mem_cons.mp hmem with rfl | hlater
      · exact halert
      · exact hrest alert hlater

/-- **Loop rule**: what the rules keep of the buffer from one to the next, and what
    holds of the alerts that they raise. -/
theorem checkChains_rule (P : Nat → Buffer → Prop) (Q : ChainAlert → Prop)
    (hskip : ∀ i chain b, chains[i]? = some chain → P i b →
      matchChain b.slots chain now = none → P (i + 1) b)
    (hfire : ∀ i chain b matched, chains[i]? = some chain → P i b →
      matchChain b.slots chain now = some matched →
      Q (chainAlert trigger i chain (matched.map (·.id)))
        ∧ P (i + 1) (b.remove (matched.map (·.id))))
    (hb : P 0 b) :
    (∀ alert ∈ (checkChains true trigger now 0 chains b).1, Q alert)
      ∧ P chains.length (checkChains true trigger now 0 chains b).2 :=
  checkChains_rule_from hskip hfire chains.length 0 b (by omega) hb

theorem checkChains_within (trigger : NetworkEvent) (now : Int) (chains : List ChainRule)
    (hwithin : Within window b) : Within window (checkChains true trigger now 0 chains b).2 := by
  refine (checkChains_rule (fun _ b => Within window b) (fun _ => True) ?_ ?_ hwithin).2
  · exact fun _ _ _ _ hb _ => hb
  · exact fun _ _ _ _ _ hb _ => ⟨trivial, hb.remove _⟩

/-- A rule raises at most one alert, in the order of the rules. -/
theorem checkChains_positions (trigger : NetworkEvent) (now : Int) (chains : List ChainRule)
    (i : Nat) (b : Buffer) :
    (∀ alert ∈ (checkChains true trigger now i chains b).1, i ≤ alert.position)
      ∧ ((checkChains true trigger now i chains b).1.map (·.position)).Pairwise (· < ·) := by
  induction chains generalizing i b with
  | nil => simp [checkChains]
  | cons chain chains ih =>
    unfold checkChains
    cases matchChain b.slots chain now with
    | none =>
      obtain ⟨hfrom, hsorted⟩ := ih (i + 1) b
      exact ⟨fun alert hmem => Nat.le_of_succ_le (hfrom alert hmem), hsorted⟩
    | some matched =>
      obtain ⟨hfrom, hsorted⟩ := ih (i + 1) (b.remove (matched.map (·.id)))
      constructor
      · intro alert hmem
        rcases List.mem_cons.mp hmem with rfl | hlater
        · exact Nat.le_refl i
        · exact Nat.le_of_succ_le (hfrom alert hlater)
      · refine List.pairwise_cons.mpr ⟨?_, hsorted⟩
        intro j hj
        obtain ⟨alert, hmem, rfl⟩ := List.mem_map.mp hj
        exact hfrom alert hmem

/-- The window only shrinks, and the events of an alert are not in it afterwards. -/
theorem checkChains_removed (trigger : NetworkEvent) (now : Int) (chains : List ChainRule)
    (i : Nat) (hwithin : Within window b) :
    (checkChains true trigger now i chains b).2.stored ⊆ b.stored
      ∧ ∀ alert ∈ (checkChains true trigger now i chains b).1,
          ∀ ev ∈ (checkChains true trigger now i chains b).2.stored, ev.id ∉ alert.chainEvents := by
  induction chains generalizing i b with
  | nil => simp [checkChains]
  | cons chain chains ih =>
    unfold checkChains
    cases matchChain b.slots chain now with
    | none => exact ih (i + 1) hwithin
    | some matched =>
      obtain ⟨hsub, hgone⟩ := ih (i + 1) (hwithin.remove (matched.map (·.id)))
      have hstored := stored_remove hwithin.len (matched.map (·.id))
      constructor
      · refine List.Subset.trans hsub ?_
        rw [hstored]
        exact List.filter_subset_self _
      · intro alert hmem ev hev
        rcases List.mem_cons.mp hmem with rfl | hlater
        · -- the removal of this alert's events, which later rules do not undo
          have hkept := hsub hev
          rw [hstored] at hkept
          show ev.id ∉ matched.map (·.id)
          simpa using (List.mem_filter.mp hkept).2
        · exact hgone alert hlater ev hev

end Owasaka.Correlation
