import Owasaka.Foundation.System
import Owasaka.Topology.Graph

/-! # What subscribers see of the topology

    The callback of a builder gets a snapshot whenever `OnAsset` has changed a node, and
    whenever `OnEvent` has made a new edge.  What `OnEvent` does to the nodes is dropped:
    it makes the nodes of its ends, and puts the IP in place of their labels.  Behind an
    edge that is there already, and behind an edge from a node to itself, which is not
    made, nobody hears of that.

    The main result: the last snapshot shows the graph all along a run of calls, up to
    counts and times, if and only if every event that makes no edge finds both ends as
    nodes that are labelled with their IPs. -/

namespace Owasaka.Topology

open Discovery Events

/-! ## Section 1: A callback that keeps the last snapshot -/

structure Watched where
  builder : Builder
  /-- The last snapshot that the callback got. -/
  last : Option GraphSnapshot

def Watched.call (s : Watched) (c : Call) : Watched :=
  let called := s.builder.call c
  ⟨called.1, called.2.or s.last⟩

def watchStart : Watched := ⟨newBuilder.setOnChange, none⟩

def watch (calls : List Call) : Watched := calls.foldl Watched.call watchStart

/-! ## Section 2: The same topology -/

/-- The node without the time at which it was seen. -/
def Node.timeless (n : Node) : Node := { n with lastSeen := 0 }

/-- The edge without its count. -/
def Edge.uncounted (e : Edge) : Edge := { e with count := 0 }

/-- The graphs agree up to counts and times. -/
structure SameTopology (g g' : Graph) : Prop where
  nodes : ∀ ip : String, (g.nodes[ip]?).map Node.timeless = (g'.nodes[ip]?).map Node.timeless
  edges : ∀ key : String, (g.edges[key]?).map Edge.uncounted = (g'.edges[key]?).map Edge.uncounted

/-- The snapshot lists the nodes and the edges of the graph, up to counts and times. -/
structure Shows (snap : GraphSnapshot) (g : Graph) : Prop where
  nodes : (snap.nodes.map Node.timeless).Perm ((valuesOf g.nodes).map Node.timeless)
  edges : (snap.edges.map Edge.uncounted).Perm ((valuesOf g.edges).map Edge.uncounted)

/-- The last snapshot shows the graph; before the first one, the graph is empty. -/
def Watched.UpToDate (s : Watched) : Prop := Shows (s.last.getD ⟨[], []⟩) s.builder.graph

variable {g g' g'' : Graph} {b : Builder} {order : MapOrder} {a : Asset} {e : NetworkEvent}

theorem SameTopology.refl (g : Graph) : SameTopology g g := ⟨fun _ => rfl, fun _ => rfl⟩

/-- A graph agrees with both of two that agree, or with neither. -/
theorem SameTopology.congr (hsame : SameTopology g g') :
    SameTopology g g'' ↔ SameTopology g' g'' := by
  constructor
  · intro h
    exact ⟨fun ip => (hsame.nodes ip).symm.trans (h.nodes ip),
      fun key => (hsame.edges key).symm.trans (h.edges key)⟩
  · intro h
    exact ⟨fun ip => (hsame.nodes ip).trans (h.nodes ip),
      fun key => (hsame.edges key).trans (h.edges key)⟩

/-- A snapshot of one graph shows the graphs with the same topology. -/
theorem shows_snapshot_iff (order : MapOrder) :
    Shows (g.snapshot order) g' ↔ SameTopology g g' := by
  have hnodes : (((g.snapshot order).nodes).map Node.timeless).Perm
      ((valuesOf g.nodes).map Node.timeless) := (order.nodes.perm _).map _
  have hedges : (((g.snapshot order).edges).map Edge.uncounted).Perm
      ((valuesOf g.edges).map Edge.uncounted) := (order.edges.perm _).map _
  have hnode_iff := map_valuesOf_perm_iff Node.timeless Node.id g.node_id g'.node_id
  have hedge_iff := map_valuesOf_perm_iff Edge.uncounted (fun e => edgeKey e.source e.target)
    g.edge_key g'.edge_key
  constructor
  · intro hshows
    exact ⟨hnode_iff.mp (hnodes.symm.trans hshows.nodes), hedge_iff.mp (hedges.symm.trans hshows.edges)⟩
  · intro hsame
    exact ⟨hnodes.trans (hnode_iff.mpr hsame.nodes), hedges.trans (hedge_iff.mpr hsame.edges)⟩

/-! ## Section 3: What a call tells -/

/-- The node is there and has its IP for a label. -/
def Graph.Plain (g : Graph) (ip : String) : Prop := ∃ n, g.nodes[ip]? = some n ∧ n.label = ip

/-- What the call has to meet in the graph before it. -/
def Graph.Notifies (g : Graph) : Call → Prop
  | .onAsset _ _ => True
  | .onEvent _ e =>
    -- it is dropped, or makes an edge, or leaves both ends as they are
    (e.source = "" ∨ e.destination = "")
      ∨ (e.source ≠ e.destination ∧ g.edges[edgeKey e.source e.destination]? = none)
      ∨ (g.Plain e.source ∧ g.Plain e.destination)

/-- What does not count as a change leaves the node as it was, but for the time. -/
theorem timeless_merge {existing n : Node} (hsame : existing.changedBy n = false) :
    (existing.merge n).timeless = existing.timeless := by
  simp only [Node.changedBy, Bool.or_eq_false_iff, Bool.and_eq_false_imp, decide_eq_true_eq,
    decide_eq_false_iff_not] at hsame
  obtain ⟨⟨⟨⟨hlabel, hmac⟩, hos⟩, hports⟩, htype⟩ := hsame
  have hkept : ¬ (n.type ≠ .unknown ∧ n.type ≠ existing.type) := fun h => htype h.1 h.2
  simp only [Node.merge, Node.timeless, hlabel, hmac, hos, if_neg hports, if_neg hkept,
    Bool.false_eq_true, if_false]

theorem sameTopology_upsertNode {n : Node} (hsame : (g.upsertNode n).2 = false) :
    SameTopology g (g.upsertNode n).1 where
  nodes := by
    intro ip
    rw [getElem?_upsertNode]
    split
    · rename_i hip
      unfold Graph.upsertNode at hsame
      rw [hip]
      cases hget : g.nodes[n.id]? with
      | none =>
        rw [hget] at hsame
        contradiction
      | some existing =>
        rw [hget] at hsame
        rw [upserted, Option.map_some, Option.map_some, timeless_merge hsame]
    · rfl
  edges := by
    intro key
    rw [edges_upsertNode]

/-- An edge is new, or only its count changes. -/
theorem upsertEdge_cases {src dst : String} (hsrc : src ≠ "") (hdst : dst ≠ "") (protocol : String) :
    (src ≠ dst ∧ g.edges[edgeKey src dst]? = none ∧ (g.upsertEdge src dst protocol).2 = true)
      ∨ (¬ (src ≠ dst ∧ g.edges[edgeKey src dst]? = none) ∧ (g.upsertEdge src dst protocol).2 = false
        ∧ ∀ key : String, ((g.upsertEdge src dst protocol).1.edges[key]?).map Edge.uncounted
            = (g.edges[key]?).map Edge.uncounted) := by
  unfold Graph.upsertEdge
  by_cases hself : src = dst
  · rw [if_pos (Or.inl hself)]
    exact Or.inr ⟨fun h => h.1 hself, rfl, fun _ => rfl⟩
  · rw [if_neg (not_or_intro hself (not_or_intro hsrc hdst))]
    cases hget : g.edges[edgeKey src dst]? with
    | none => exact Or.inl ⟨hself, rfl, rfl⟩
    | some e =>
      refine Or.inr ⟨fun h => absurd h.2 (by simp), rfl, ?_⟩
      intro key
      have hkey : edgeKey e.source e.target = edgeKey src dst := g.edge_key _ e hget
      show (((g.edges.insert (edgeKey e.source e.target) _)[key]?).map Edge.uncounted) = _
      rw [getElem?_insert_ite]
      split
      · rename_i heq
        rw [heq, hkey, hget]
        rfl
      · rfl

/-- An event leaves the nodes as they were, but for the time, exactly when both of its
    ends are there and have their IPs for labels. -/
theorem sameNodes_onEvent_iff (b : Builder) (order : MapOrder) (hsource : e.source ≠ "")
    (hdestination : e.destination ≠ "") :
    (∀ ip : String, (b.graph.nodes[ip]?).map Node.timeless
        = ((b.onEvent order e).1.graph.nodes[ip]?).map Node.timeless)
      ↔ b.graph.Plain e.source ∧ b.graph.Plain e.destination := by
  constructor
  · intro hsame
    have hplain : ∀ ip, ip = e.source ∨ ip = e.destination → b.graph.Plain ip := by
      intro ip hend
      have hnode := hsame ip
      rw [getElem?_onEvent _ _ hsource hdestination, if_pos hend, Option.map_some,
        Option.map_eq_some_iff] at hnode
      obtain ⟨n, hget, htimeless⟩ := hnode
      exact ⟨n, hget, congrArg Node.label htimeless⟩
    exact ⟨hplain _ (Or.inl rfl), hplain _ (Or.inr rfl)⟩
  · intro ⟨hsrc, hdst⟩ ip
    rw [getElem?_onEvent _ _ hsource hdestination]
    split
    · rename_i hend
      obtain ⟨n, hget, hlabel⟩ : b.graph.Plain ip := by
        rcases hend with heq | heq
        · rw [heq]
          exact hsrc
        · rw [heq]
          exact hdst
      rw [hget, Option.map_some, Option.map_some, seenEnd, Option.getD_some, ← hlabel]
      rfl
    · rfl

/-- **What a call tells**: a snapshot of the graph afterwards, or nothing; and then the
    graph is as it was, up to counts and times, if and only if the call notifies. -/
theorem call_cases (hcallback : b.onChange = true) (c : Call) :
    ((∃ order, (b.call c).2 = some ((b.call c).1.graph.snapshot order)) ∧ b.graph.Notifies c)
      ∨ ((b.call c).2 = none ∧ (SameTopology b.graph (b.call c).1.graph ↔ b.graph.Notifies c)) := by
  cases c with
  | onAsset order a =>
    cases hchanged : (b.graph.upsertNode (assetNode a)).2 with
    | true =>
      refine Or.inl ⟨⟨order, ?_⟩, trivial⟩
      exact if_pos ⟨hchanged, hcallback⟩
    | false =>
      refine Or.inr ⟨?_, ?_⟩
      · exact if_neg fun h => Bool.false_ne_true (hchanged.symm.trans h.1)
      · exact iff_of_true (sameTopology_upsertNode hchanged) trivial
  | onEvent order e =>
    by_cases hends : e.source = "" ∨ e.destination = ""
    · rw [Builder.call, onEvent_skipped hends]
      exact Or.inr ⟨rfl, iff_of_true (SameTopology.refl _) (Or.inl hends)⟩
    · obtain ⟨hsource, hdestination⟩ := not_or.mp hends
      have hsame := sameNodes_onEvent_iff b order hsource hdestination
      rw [Builder.call, onEvent_eq hends] at *
      rcases upsertEdge_cases (g := b.graph.upsertEnds e) hsource hdestination e.type.text with
        ⟨hself, hnone, hnew⟩ | ⟨hnotNew, hold, hcounts⟩
      · -- a new edge
        rw [edges_upsertEnds] at hnone
        refine Or.inl ⟨⟨order, ?_⟩, Or.inr (Or.inl ⟨hself, hnone⟩)⟩
        exact if_pos ⟨hnew, hcallback⟩
      · rw [edges_upsertEnds] at hnotNew hcounts
        refine Or.inr ⟨if_neg fun h => Bool.false_ne_true (hold.symm.trans h.1), ?_⟩
        constructor
        · intro htopology
          exact Or.inr (Or.inr (hsame.mp htopology.nodes))
        · intro hnotifies
          have hplain := (hnotifies.resolve_left hends).resolve_left hnotNew
          exact ⟨hsame.mpr hplain, fun key => (hcounts key).symm⟩

/-! ## Section 4: Whole runs -/

/-- A callback is set, and the last snapshot is one of some graph. -/
def Watched.Watching (s : Watched) : Prop :=
  s.builder.onChange = true ∧ ∃ g order, s.last.getD ⟨[], []⟩ = Graph.snapshot g order

theorem onChange_call (b : Builder) (c : Call) : (b.call c).1.onChange = b.onChange := by
  cases c with
  | onAsset order a => rfl
  | onEvent order e =>
    rw [Builder.call]
    by_cases hends : e.source = "" ∨ e.destination = ""
    · rw [onEvent_skipped hends]
    · rw [onEvent_eq hends]

variable {s : Watched}

theorem Watched.Watching.call (hwatching : s.Watching) (c : Call) : (s.call c).Watching := by
  obtain ⟨hcallback, g, order, hlast⟩ := hwatching
  refine ⟨(onChange_call s.builder c).trans hcallback, ?_⟩
  unfold Watched.call
  rcases call_cases hcallback c with ⟨⟨order', hpassed⟩, _⟩ | ⟨hpassed, _⟩
  · simp only [hpassed]
    exact ⟨(s.builder.call c).1.graph, order', rfl⟩
  · simp only [hpassed]
    exact ⟨g, order, hlast⟩

theorem upToDate_call_iff (c : Call) (hwatching : s.Watching) (hup : s.UpToDate) :
    (s.call c).UpToDate ↔ s.builder.graph.Notifies c := by
  obtain ⟨hcallback, g, order, hlast⟩ := hwatching
  unfold Watched.UpToDate at hup
  rw [hlast, shows_snapshot_iff] at hup
  unfold Watched.UpToDate Watched.call
  rcases call_cases hcallback c with ⟨⟨order', hpassed⟩, hnotifies⟩ | ⟨hpassed, hsame⟩
  · simp only [hpassed, Option.some_or, Option.getD_some]
    rw [shows_snapshot_iff]
    exact iff_of_true (SameTopology.refl _) hnotifies
  · simp only [hpassed, Option.none_or]
    rw [hlast, shows_snapshot_iff, hup.congr]
    exact hsame

theorem watching_start : watchStart.Watching :=
  ⟨rfl, Graph.empty, keyOrder, rfl⟩

theorem upToDate_start : watchStart.UpToDate :=
  (shows_snapshot_iff (g := Graph.empty) keyOrder).mpr (SameTopology.refl _)

/-- **Subscribers see every mutation**: the last snapshot shows the graph after every call
    of a run if and only if every call notifies. -/
theorem subscribers_see_iff (calls : List Call) :
    (∀ done, done <+: calls → (watch done).UpToDate)
      ↔ ∀ done c, done ++ [c] <+: calls → (watch done).builder.graph.Notifies c :=
  foldl_always_iff (I := Watched.Watching) (Q := Watched.UpToDate)
    (fun _ c hwatching => hwatching.call c)
    (fun _ c hwatching hup => upToDate_call_iff c hwatching hup) watching_start upToDate_start calls

/-! ## Section 5: A label that changes silently -/

/-- The host is seen, then discovered, and then seen on the same edge again. -/
def silentRun : List Call :=
  [.onEvent keyOrder (traffic "10.0.0.5" "10.0.0.9" 0), .onAsset keyOrder database,
    .onEvent keyOrder (traffic "10.0.0.5" "10.0.0.9" 2)]

/-- The last snapshot has the hostname, which the graph has lost. -/
theorem label_changes_silently :
    ((watch silentRun).last.getD ⟨[], []⟩).nodes.map Node.label = ["db", "10.0.0.9"]
      ∧ (valuesOf (watch silentRun).builder.graph.nodes).map Node.label = ["10.0.0.5", "10.0.0.9"]
      ∧ ¬ ∀ done, done <+: silentRun → (watch done).UpToDate := by
  have hlast : ((watch silentRun).last.getD ⟨[], []⟩).nodes.map Node.label = ["db", "10.0.0.9"] := by
    decide +kernel
  have hgraph : (valuesOf (watch silentRun).builder.graph.nodes).map Node.label
      = ["10.0.0.5", "10.0.0.9"] := by
    decide +kernel
  refine ⟨hlast, hgraph, ?_⟩
  intro hup
  have hperm := (hup silentRun (List.prefix_refl _)).nodes.map Node.label
  rw [List.map_map, List.map_map, show Node.label ∘ Node.timeless = Node.label from rfl, hlast,
    hgraph] at hperm
  exact absurd hperm (by decide)

end Owasaka.Topology
