import Owasaka.Foundation.System
import Owasaka.Topology.Graph

/-! # What assets taught the topology

    `UpsertNode` lets every text win that is not empty.  `OnEvent` gives a node the IP for
    its label, and so takes a hostname or a MAC away that `OnAsset` had put there; the
    type `unknown`, which it gives as well, does not win.

    The main result: the nodes keep what the latest assets taught them, all along a run
    of calls, if and only if no event has an end whose latest asset had a name of its own.
    (An asset without any text does not take a label back either.) -/

namespace Owasaka.Topology

open Discovery Events

/-! ## Section 1: Runs -/

/-- A new builder, with a callback or without one. -/
def freshBuilder (callback : Bool) : Builder :=
  if callback then newBuilder.setOnChange else newBuilder

def run (callback : Bool) (calls : List Call) : Builder :=
  calls.foldl (fun b c => (b.call c).1) (freshBuilder callback)

/-- The asset of the latest `OnAsset` for an IP. -/
def latestAsset (calls : List Call) (ip : String) : Option Asset :=
  calls.foldl
    (fun latest c =>
      match c with
      | .onAsset _ a => if a.ip = ip then some a else latest
      | .onEvent _ _ => latest)
    none

variable {callback : Bool} {calls : List Call} {order : MapOrder} {a : Asset} {e : NetworkEvent}
  {ip : String}

theorem run_concat (c : Call) : run callback (calls ++ [c]) = ((run callback calls).call c).1 := by
  unfold run
  rw [List.foldl_append, List.foldl_cons, List.foldl_nil]

theorem latestAsset_concat_asset :
    latestAsset (calls ++ [.onAsset order a]) ip
      = if a.ip = ip then some a else latestAsset calls ip := by
  unfold latestAsset
  rw [List.foldl_append, List.foldl_cons, List.foldl_nil]

theorem latestAsset_concat_event :
    latestAsset (calls ++ [.onEvent order e]) ip = latestAsset calls ip := by
  unfold latestAsset
  rw [List.foldl_append, List.foldl_cons, List.foldl_nil]

theorem freshBuilder_nodes (callback : Bool) : (freshBuilder callback).graph = Graph.empty := by
  unfold freshBuilder
  split <;> rfl

/-! ## Section 2: What is kept -/

/-- The node carries what the latest asset for its IP taught it. -/
def Taught (callback : Bool) (calls : List Call) : Prop :=
  ∀ ip a, latestAsset calls ip = some a →
    ∃ n, (run callback calls).graph.nodes[ip]? = some n ∧ n.label = assetLabel a ∧ n.type = .host

/-- An event changes nothing of a node that an asset taught but when it was last seen. -/
def OnlySeen (callback : Bool) (calls : List Call) (c : Call) : Prop :=
  match c with
  | .onAsset _ _ => True
  | .onEvent _ _ => ∀ ip n, (latestAsset calls ip).isSome →
      (run callback calls).graph.nodes[ip]? = some n →
        ∃ t, (run callback (calls ++ [c])).graph.nodes[ip]? = some { n with lastSeen := t }

/-- The nodes carry what the assets taught them, and the last call, if it was an event,
    has not touched that. -/
structure Kept (callback : Bool) (calls : List Call) : Prop where
  taught : Taught callback calls
  last : ∀ done c, calls = done ++ [c] → OnlySeen callback done c

/-- What the call has to meet after the given ones. -/
def Respects (calls : List Call) : Call → Prop
  -- an asset without any text comes after none with one
  | .onAsset _ a => assetLabel a = "" → ∀ a', latestAsset calls a.ip = some a' → assetLabel a' = ""
  -- the ends of an event have no other name than the IP
  | .onEvent _ e => e.source ≠ "" → e.destination ≠ "" → ∀ ip a,
      ip = e.source ∨ ip = e.destination → latestAsset calls ip = some a → assetLabel a = ip

/-- Only assets make a node without an IP. -/
def NamelessTaught (callback : Bool) (calls : List Call) : Prop :=
  ∀ n, (run callback calls).graph.nodes[""]? = some n → ∃ a, latestAsset calls "" = some a

theorem namelessTaught (callback : Bool) (calls : List Call) : NamelessTaught callback calls := by
  induction calls using List.reverseRecOn with
  | nil =>
    intro n hget
    have hempty : (run callback []).graph = Graph.empty := freshBuilder_nodes callback
    rw [hempty] at hget
    simp [Graph.empty] at hget
  | append_singleton calls c ih =>
    intro n hget
    rw [run_concat] at hget
    cases c with
    | onAsset order a =>
      rw [latestAsset_concat_asset]
      by_cases hip : a.ip = ""
      · rw [if_pos hip]
        exact ⟨a, rfl⟩
      · rw [if_neg hip]
        rw [Builder.call, getElem?_onAsset, if_neg (fun heq => hip heq.symm)] at hget
        exact ih n hget
    | onEvent order e =>
      rw [latestAsset_concat_event]
      by_cases hends : e.source = "" ∨ e.destination = ""
      · rw [Builder.call, onEvent_skipped hends] at hget
        exact ih n hget
      · rw [not_or] at hends
        have hother : ¬ ("" = e.source ∨ "" = e.destination) :=
          not_or_intro (fun heq => hends.1 heq.symm) (fun heq => hends.2 heq.symm)
        rw [Builder.call, getElem?_onEvent _ _ hends.1 hends.2, if_neg hother] at hget
        exact ih n hget

/-! ## Section 3: One call -/

theorem kept_nil (callback : Bool) : Kept callback [] where
  taught := by
    intro ip a hlatest
    contradiction
  last := by
    intro done c heq
    simp at heq

theorem kept_concat_iff {c : Call} :
    Kept callback (calls ++ [c]) ↔ Taught callback (calls ++ [c]) ∧ OnlySeen callback calls c := by
  constructor
  · intro hkept
    exact ⟨hkept.taught, hkept.last calls c rfl⟩
  · intro ⟨htaught, hseen⟩
    refine ⟨htaught, ?_⟩
    intro done c' heq
    obtain ⟨rfl, rfl⟩ := List.append_singleton_inj.mp heq
    exact hseen

theorem getElem?_run_asset (ip : String) :
    (run callback (calls ++ [.onAsset order a])).graph.nodes[ip]?
      = if ip = a.ip then some (upserted (run callback calls).graph.nodes[ip]? (assetNode a))
        else (run callback calls).graph.nodes[ip]? := by
  rw [run_concat]
  exact getElem?_onAsset _ order a ip

theorem getElem?_run_event (hsource : e.source ≠ "") (hdestination : e.destination ≠ "")
    (ip : String) :
    (run callback (calls ++ [.onEvent order e])).graph.nodes[ip]?
      = if ip = e.source ∨ ip = e.destination
        then some (seenEnd (run callback calls).graph.nodes[ip]? ip e.timestamp)
        else (run callback calls).graph.nodes[ip]? := by
  rw [run_concat]
  exact getElem?_onEvent _ order hsource hdestination ip

theorem taught_asset_iff (htaught : Taught callback calls) :
    Taught callback (calls ++ [.onAsset order a]) ↔ Respects calls (.onAsset order a) := by
  constructor
  · intro htaught' hblank a' hlatest
    obtain ⟨n, hget, hlabel, _⟩ := htaught a.ip a' hlatest
    obtain ⟨n', hget', hlabel', _⟩ := htaught' a.ip a (by rw [latestAsset_concat_asset, if_pos rfl])
    -- the node has kept its label
    rw [getElem?_run_asset, if_pos rfl, hget, Option.some.injEq] at hget'
    rw [← hlabel, ← hblank, ← hlabel', ← hget', upserted, label_merge_assetNode, if_pos hblank]
  · intro hrespects ip a' hlatest
    rw [latestAsset_concat_asset] at hlatest
    rw [getElem?_run_asset]
    by_cases hip : a.ip = ip
    · subst hip
      rw [if_pos rfl, Option.some.injEq] at hlatest
      subst hlatest
      rw [if_pos rfl]
      cases hget : (run callback calls).graph.nodes[a.ip]? with
      | none => exact ⟨assetNode a, rfl, rfl, rfl⟩
      | some n =>
        refine ⟨n.merge (assetNode a), rfl, ?_, type_merge_assetNode n a⟩
        rw [label_merge_assetNode]
        split
        · -- nothing of the asset wins, so the label before must have been empty as well
          rename_i hblank
          have hempty := (assetLabel_eq_empty.mp hblank).2.2
          obtain ⟨a', ha'⟩ := namelessTaught callback calls n (hempty ▸ hget)
          rw [← hempty] at ha'
          obtain ⟨n', hget', hlabel, _⟩ := htaught a.ip a' ha'
          rw [hget, Option.some.injEq] at hget'
          rw [hget', hlabel, hrespects hblank a' ha', hblank]
        · rfl
    · rw [if_neg hip] at hlatest
      rw [if_neg fun heq => hip heq.symm]
      exact htaught ip a' hlatest

/-- A dropped event leaves everything as it was. -/
theorem kept_event_dropped (htaught : Taught callback calls)
    (hends : e.source = "" ∨ e.destination = "") :
    Kept callback (calls ++ [.onEvent order e]) := by
  have hsame : run callback (calls ++ [.onEvent order e]) = run callback calls := by
    rw [run_concat, Builder.call, onEvent_skipped hends]
  rw [kept_concat_iff]
  constructor
  · intro ip a hlatest
    rw [latestAsset_concat_event] at hlatest
    rw [hsame]
    exact htaught ip a hlatest
  · intro ip n _ hget
    rw [hsame]
    exact ⟨n.lastSeen, hget⟩

/-- Where the label of a taught end is its IP already, an event only changes the time. -/
theorem seenEnd_of_taught {n : Node} (htaught : Taught callback calls)
    (hlatest : latestAsset calls ip = some a) (hown : assetLabel a = ip)
    (hget : (run callback calls).graph.nodes[ip]? = some n) (timestamp : Int) :
    seenEnd (some n) ip timestamp = { n with lastSeen := timestamp } := by
  obtain ⟨n', hget', hlabel, _⟩ := htaught ip a hlatest
  rw [hget, Option.some.injEq] at hget'
  have hip : n.label = ip := by rw [hget', hlabel, hown]
  rw [seenEnd, Option.getD_some, ← hip]

theorem kept_event_iff (htaught : Taught callback calls) :
    Kept callback (calls ++ [.onEvent order e]) ↔ Respects calls (.onEvent order e) := by
  by_cases hends : e.source = "" ∨ e.destination = ""
  · refine iff_of_true (kept_event_dropped htaught hends) ?_
    intro hsource hdestination
    exact absurd hends (not_or_intro hsource hdestination)
  · obtain ⟨hsource, hdestination⟩ := not_or.mp hends
    rw [kept_concat_iff]
    constructor
    · intro ⟨htaught', _⟩ _ _ ip a hend hlatest
      obtain ⟨n, hget, hlabel, _⟩ := htaught' ip a (by rw [latestAsset_concat_event, hlatest])
      rw [getElem?_run_event hsource hdestination, if_pos hend, Option.some.injEq] at hget
      rw [← hlabel, ← hget, seenEnd]
    · intro hrespects
      constructor
      · intro ip a hlatest
        rw [latestAsset_concat_event] at hlatest
        obtain ⟨n, hget, hlabel, htype⟩ := htaught ip a hlatest
        rw [getElem?_run_event hsource hdestination, hget]
        split
        · rename_i hend
          have hown := hrespects hsource hdestination ip a hend hlatest
          rw [seenEnd_of_taught htaught hlatest hown hget]
          exact ⟨_, rfl, hlabel, htype⟩
        · exact ⟨n, rfl, hlabel, htype⟩
      · intro ip n hsome hget
        obtain ⟨a, hlatest⟩ := Option.isSome_iff_exists.mp hsome
        rw [getElem?_run_event hsource hdestination, hget]
        split
        · rename_i hend
          have hown := hrespects hsource hdestination ip a hend hlatest
          rw [seenEnd_of_taught htaught hlatest hown hget]
          exact ⟨e.timestamp, rfl⟩
        · exact ⟨n.lastSeen, rfl⟩

theorem kept_call_iff (hkept : Kept callback calls) (c : Call) :
    Kept callback (calls ++ [c]) ↔ Respects calls c := by
  cases c with
  | onAsset order a =>
    rw [kept_concat_iff, taught_asset_iff hkept.taught]
    exact and_iff_left trivial
  | onEvent order e => exact kept_event_iff hkept.taught

/-! ## Section 4: Whole runs -/

/-- **Topology keeps what assets taught it**, all along a run of calls, if and only if
    every call respects it. -/
theorem topology_keeps_iff (callback : Bool) (calls : List Call) :
    (∀ done, done <+: calls → Kept callback done)
      ↔ ∀ done c, done ++ [c] <+: calls → Respects done c :=
  prefixes_always_iff (kept_nil callback) (fun _ c hkept => kept_call_iff hkept c) calls

/-! ## Section 5: An event takes a label -/

/-- The database is discovered, and then talks to another host. -/
def databaseRun : List Call :=
  [.onAsset keyOrder database, .onEvent keyOrder (traffic "10.0.0.5" "10.0.0.9" 2)]

/-- The hostname is gone. -/
theorem event_takes_label :
    (run true databaseRun).graph.nodes["10.0.0.5"]?.map Node.label = some "10.0.0.5"
      ∧ assetLabel database = "db"
      ∧ ¬ ∀ done, done <+: databaseRun → Kept true done := by
  have hlabel : (run true databaseRun).graph.nodes["10.0.0.5"]?.map Node.label = some "10.0.0.5" := by
    decide +kernel
  refine ⟨hlabel, by decide, ?_⟩
  intro hkept
  obtain ⟨n, hget, hname, _⟩ := (hkept databaseRun (List.prefix_refl _)).taught "10.0.0.5" database rfl
  rw [hget, Option.map_some, hname] at hlabel
  exact absurd hlabel (by decide)

end Owasaka.Topology
