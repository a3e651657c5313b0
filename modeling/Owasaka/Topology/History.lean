import Owasaka.Topology.Taught

/-! # What a run leaves in the topology (`network/topology/differ.go`)

    Nodes and edges are never removed.  An edge is made by the first event between its
    ends and counts the events; its key is a text, so that ends with an arrow in them may
    share it.

    `Diff` compares two snapshots by these keys.  Somebody who polls the builder, with
    any number of calls in between and the maps in any order, is told of every node and
    every edge once. -/

namespace Owasaka.Topology

open Discovery Events

/-! ## Section 1: `Diff` -/

inductive ChangeKind where
  | nodeAdded
  | nodeRemoved
  | edgeAdded
  deriving DecidableEq

structure Change where
  kind : ChangeKind
  nodeID : String
  edge : Option Edge

/-- A `map[string]struct{}`. -/
def idSet (ids : List String) : Std.ExtTreeMap String Unit :=
  ids.foldl (fun set id => set.insert id ()) ∅

def diff (prev next : GraphSnapshot) : List Change :=
  let prevNodes := idSet (prev.nodes.map (·.id))
  let nextNodes := idSet (next.nodes.map (·.id))
  let prevEdges := idSet (prev.edges.map fun e => edgeKey e.source e.target)
  (next.nodes.filterMap fun n =>
      if prevNodes[n.id]?.isSome then none else some ⟨.nodeAdded, n.id, none⟩)
    ++ (prev.nodes.filterMap fun n =>
      if nextNodes[n.id]?.isSome then none else some ⟨.nodeRemoved, n.id, none⟩)
    ++ next.edges.filterMap fun e =>
      if prevEdges[edgeKey e.source e.target]?.isSome then none else some ⟨.edgeAdded, "", some e⟩

theorem isSome_idSet (ids : List String) (id : String) : (idSet ids)[id]?.isSome ↔ id ∈ ids := by
  unfold idSet
  induction ids using List.reverseRecOn with
  | nil => simp
  | append_singleton ids last ih =>
    rw [List.foldl_append, List.foldl_cons, List.foldl_nil, getElem?_insert_ite, List.mem_append,
      List.mem_singleton]
    split
    · rename_i heq
      simp [heq]
    · rename_i hne
      rw [ih]
      exact ⟨Or.inl, fun h => h.resolve_right hne⟩

/-! ## Section 2: The graph after a run -/

/-- The event is about the edge with this key. -/
def Sights (key : String) (e : NetworkEvent) : Prop :=
  e.source ≠ "" ∧ e.destination ≠ "" ∧ e.source ≠ e.destination ∧ edgeKey e.source e.destination = key

instance (key : String) (e : NetworkEvent) : Decidable (Sights key e) :=
  inferInstanceAs (Decidable (_ ∧ _ ∧ _ ∧ _))

/-- The events of a run that are about an edge. -/
def sightings (key : String) (calls : List Call) : List NetworkEvent :=
  calls.filterMap fun c =>
    match c with
    | .onAsset _ _ => none
    | .onEvent _ e => if Sights key e then some e else none

/-- The edge that the first event makes and the others count. -/
def edgeOf (events : List NetworkEvent) : Option Edge :=
  match events with
  | [] => none
  | first :: rest =>
    some ⟨first.source, first.destination, Int64.ofNat (rest.length + 1), first.type.text⟩

/-- The call makes a node for this ID, or finds one. -/
def Call.Names (ip : String) : Call → Prop
  | .onAsset _ a => a.ip = ip
  | .onEvent _ e => e.source ≠ "" ∧ e.destination ≠ "" ∧ (e.source = ip ∨ e.destination = ip)

variable {callback : Bool} {calls : List Call} {order : MapOrder} {e : NetworkEvent} {b : Builder}
  {key ip : String} {c : Call} {g g' : Graph}

theorem edgeOf_concat (events : List NetworkEvent) (e : NetworkEvent) :
    edgeOf (events ++ [e]) = match edgeOf events with
      | none => some ⟨e.source, e.destination, 1, e.type.text⟩
      | some old => some { old with count := old.count + 1 } := by
  cases events with
  | nil => rfl
  | cons first rest =>
    simp only [edgeOf, List.cons_append, List.length_append, List.length_singleton]
    rw [Int64.ofNat_add (rest.length + 1) 1]
    rfl

theorem getElem?_putEdge (e : Edge) (key : String) :
    (g.putEdge e).edges[key]? = if key = edgeKey e.source e.target then some e else g.edges[key]? :=
  getElem?_insert_ite g.edges _ key e

/-- An event is entered under the key of its ends, as a new edge or one more on the old one. -/
theorem edges_onEvent (b : Builder) (order : MapOrder) (e : NetworkEvent) (key : String) :
    (b.onEvent order e).1.graph.edges[key]? =
      if Sights key e then
        match b.graph.edges[key]? with
        | none => some ⟨e.source, e.destination, 1, e.type.text⟩
        | some old => some { old with count := old.count + 1 }
      else b.graph.edges[key]? := by
  by_cases hends : e.source = "" ∨ e.destination = ""
  · have hnot : ¬ Sights key e := fun h => hends.elim h.1 h.2.1
    rw [onEvent_skipped hends, if_neg hnot]
  · rw [onEvent_eq hends]
    simp only [Graph.upsertEdge, edges_upsertEnds]
    obtain ⟨hsource, hdestination⟩ := not_or.mp hends
    by_cases hself : e.source = e.destination
    · have hnot : ¬ Sights key e := fun h => h.2.2.1 hself
      rw [if_pos (Or.inl hself), if_neg hnot]
      simp only [edges_upsertEnds]
    · rw [if_neg (by simp [hself, hsource, hdestination])]
      by_cases hkey : edgeKey e.source e.destination = key
      · rw [if_pos ⟨hsource, hdestination, hself, hkey⟩, hkey]
        cases hget : b.graph.edges[key]? with
        | none => rw [getElem?_putEdge, if_pos hkey.symm]
        | some old =>
          have hold := b.graph.edge_key key old hget
          rw [getElem?_putEdge, if_pos hold.symm]
      · have hnot : ¬ Sights key e := fun h => hkey h.2.2.2
        rw [if_neg hnot]
        cases hget : b.graph.edges[edgeKey e.source e.destination]? with
        | none =>
          rw [getElem?_putEdge, if_neg (Ne.symm hkey), edges_upsertEnds]
        | some old =>
          have hold := b.graph.edge_key _ old hget
          rw [getElem?_putEdge, edges_upsertEnds]
          exact if_neg fun heq => hkey (hold.symm.trans heq.symm)

theorem sightings_concat (key : String) (calls : List Call) (c : Call) :
    sightings key (calls ++ [c]) = sightings key calls ++ sightings key [c] := by
  simp [sightings]

/-- An ID is a node's after a call if it was before or the call names it. -/
theorem isSome_call (b : Builder) (c : Call) (ip : String) :
    ((b.call c).1.graph.nodes[ip]?).isSome ↔ (b.graph.nodes[ip]?).isSome ∨ c.Names ip := by
  cases c with
  | onAsset order a =>
    simp only [Builder.call, getElem?_onAsset, Call.Names]
    by_cases hip : ip = a.ip
    · simp [hip]
    · simp [hip, Ne.symm hip]
  | onEvent order e =>
    simp only [Builder.call, Call.Names]
    by_cases hends : e.source = "" ∨ e.destination = ""
    · rw [onEvent_skipped hends]
      constructor
      · exact Or.inl
      · intro h
        rcases h with h | ⟨hsource, hdestination, _⟩
        · exact h
        · exact absurd hends (not_or_intro hsource hdestination)
    · obtain ⟨hsource, hdestination⟩ := not_or.mp hends
      rw [getElem?_onEvent b order hsource hdestination]
      by_cases hip : ip = e.source ∨ ip = e.destination
      · have hnamed : e.source = ip ∨ e.destination = ip := hip.imp Eq.symm Eq.symm
        simp [hip, hnamed, hsource, hdestination]
      · have hnot : ¬ (e.source = ip ∨ e.destination = ip) := fun h => hip (h.imp Eq.symm Eq.symm)
        simp [hip, hnot]

theorem edges_call (b : Builder) (c : Call) {events : List NetworkEvent}
    (hedge : b.graph.edges[key]? = edgeOf events) :
    (b.call c).1.graph.edges[key]? = edgeOf (events ++ sightings key [c]) := by
  cases c with
  | onAsset order a =>
    simp only [Builder.call, Builder.onAsset, edges_upsertNode, sightings, List.filterMap_cons,
      List.filterMap_nil, List.append_nil]
    exact hedge
  | onEvent order e =>
    simp only [Builder.call, edges_onEvent, hedge, sightings, List.filterMap_cons, List.filterMap_nil]
    by_cases hsights : Sights key e
    · simp only [if_pos hsights]
      rw [edgeOf_concat]
    · simp only [if_neg hsights, List.append_nil]

/-- What a run leaves in the graph. -/
structure GraphOf (calls : List Call) (g : Graph) : Prop where
  nodes : ∀ ip : String, (g.nodes[ip]?).isSome ↔ ∃ c ∈ calls, c.Names ip
  edges : ∀ key : String, g.edges[key]? = edgeOf (sightings key calls)

theorem GraphOf.call (hgraph : GraphOf calls b.graph) (c : Call) :
    GraphOf (calls ++ [c]) (b.call c).1.graph where
  nodes := by
    intro ip
    rw [isSome_call, hgraph.nodes ip]
    simp only [List.mem_append, List.mem_singleton, or_and_right, exists_or, exists_eq_left]
  edges := by
    intro key
    rw [edges_call b c (hgraph.edges key), sightings_concat]

/-- **The graph is the history**: after any run, the nodes are those that some call named,
    and every edge is as the first event made it and counts its events. -/
theorem graph_of_run (callback : Bool) (calls : List Call) :
    GraphOf calls (run callback calls).graph := by
  induction calls using List.reverseRecOn with
  | nil =>
    constructor
    · intro ip
      show ((freshBuilder callback).graph.nodes[ip]?).isSome ↔ _
      simp [freshBuilder_nodes, Graph.empty]
    · intro key
      show (freshBuilder callback).graph.edges[key]? = edgeOf []
      simp [freshBuilder_nodes, Graph.empty, edgeOf]
  | append_singleton calls c ih =>
    rw [run_concat]
    exact ih.call c

/-! ## Section 3: Polling -/

/-- The keys of the graph are also keys of the later one. -/
structure Grows (g g' : Graph) : Prop where
  nodes : g.nodes.keys ⊆ g'.nodes.keys
  edges : g.edges.keys ⊆ g'.edges.keys

theorem mem_keys_iff {β : Type} {m : Std.ExtTreeMap String β} {k : String} :
    k ∈ m.keys ↔ (m[k]?).isSome := by
  rw [Std.ExtTreeMap.mem_keys, Std.ExtTreeMap.mem_iff_isSome_getElem?]

theorem grows_call (b : Builder) (c : Call) : Grows b.graph (b.call c).1.graph := by
  constructor
  · intro ip hip
    rw [mem_keys_iff] at hip ⊢
    exact (isSome_call b c ip).mpr (Or.inl hip)
  · intro key hkey
    rw [mem_keys_iff] at hkey ⊢
    cases c with
    | onAsset order a =>
      simp only [Builder.call, Builder.onAsset, edges_upsertNode]
      exact hkey
    | onEvent order e =>
      simp only [Builder.call, edges_onEvent]
      split
      · cases b.graph.edges[key]? with
        | none => rfl
        | some old => rfl
      · exact hkey

theorem grows_calls (b : Builder) (calls : List Call) :
    Grows b.graph (calls.foldl (fun b c => (b.call c).1) b).graph := by
  induction calls generalizing b with
  | nil => exact ⟨fun _ h => h, fun _ h => h⟩
  | cons c calls ih =>
    have hfirst := grows_call b c
    have hrest := ih (b.call c).1
    exact ⟨fun _ h => hrest.nodes (hfirst.nodes h), fun _ h => hrest.edges (hfirst.edges h)⟩

/-- The reports of new nodes, and those of new edges by their keys. -/
def addedNodes (changes : List Change) : List String :=
  changes.filterMap fun ch => if ch.kind = .nodeAdded then some ch.nodeID else none

def addedEdges (changes : List Change) : List String :=
  changes.filterMap fun ch => ch.edge.map fun e => edgeKey e.source e.target

/-- Somebody who polls: the last snapshot and all that the differ has reported. -/
structure Poller where
  builder : Builder
  last : GraphSnapshot
  changes : List Change

/-- Some calls, a snapshot, and the comparison with the last one. -/
def Poller.poll (p : Poller) (batch : List Call × MapOrder) : Poller :=
  let builder := batch.1.foldl (fun b c => (b.call c).1) p.builder
  let next := builder.graph.snapshot batch.2
  ⟨builder, next, p.changes ++ diff p.last next⟩

def pollStart (callback : Bool) : Poller := ⟨freshBuilder callback, ⟨[], []⟩, []⟩

/-- The snapshot has these nodes and edges, in some order. -/
structure Lists (snap : GraphSnapshot) (g : Graph) : Prop where
  nodes : (snap.nodes.map (·.id)).Perm g.nodes.keys
  edges : (snap.edges.map fun e => edgeKey e.source e.target).Perm g.edges.keys

theorem lists_snapshot (g : Graph) (order : MapOrder) : Lists (g.snapshot order) g where
  nodes := by
    rw [← map_key_valuesOf g.node_id]
    exact (order.nodes.perm _).map _
  edges := by
    rw [← map_key_valuesOf g.edge_key]
    exact (order.edges.perm _).map _

theorem filterMap_ite_map {α : Type} (ids : List String) (key : α → String) (l : List α) :
    (l.filterMap fun a => if (idSet ids)[key a]?.isSome then none else some (key a))
      = (l.map key).filter fun k => k ∉ ids := by
  induction l with
  | nil => rfl
  | cons a l ih =>
    rw [List.filterMap_cons, List.map_cons, List.filter_cons]
    by_cases hmem : key a ∈ ids
    · rw [if_pos ((isSome_idSet ids (key a)).mpr hmem), if_neg (by simp [hmem]), ih]
    · rw [if_neg fun h => hmem ((isSome_idSet ids (key a)).mp h), if_pos (by simp [hmem]), ih]

theorem filterMap_reports {α : Type} (key : α → String) (report : α → Change) (ids : List String)
    (l : List α) {read : Change → Option String} (hread : ∀ a, read (report a) = some (key a)) :
    (l.filterMap fun a => if (idSet ids)[key a]?.isSome then none else some (report a)).filterMap read
      = (l.map key).filter fun k => k ∉ ids := by
  rw [← filterMap_ite_map, List.filterMap_filterMap]
  apply List.filterMap_congr
  intro a _
  by_cases hmem : (idSet ids)[key a]?.isSome
  · simp only [if_pos hmem, Option.bind_none]
  · simp only [if_neg hmem, Option.bind_some, hread]

theorem filterMap_silent {α : Type} {f : α → Option Change} {read : Change → Option String}
    (hread : ∀ a ch, f a = some ch → read ch = none) (l : List α) :
    (l.filterMap f).filterMap read = [] := by
  rw [List.filterMap_eq_nil_iff]
  intro ch hch
  obtain ⟨a, _, ha⟩ := List.mem_filterMap.mp hch
  exact hread a ch ha

/-- The differ reports the keys that only the second snapshot has. -/
theorem added_diff (prev next : GraphSnapshot) :
    addedNodes (diff prev next)
        = (next.nodes.map (·.id)).filter (fun id => id ∉ prev.nodes.map (·.id))
      ∧ addedEdges (diff prev next)
        = (next.edges.map fun e => edgeKey e.source e.target).filter
            (fun key => key ∉ prev.edges.map fun e => edgeKey e.source e.target) := by
  unfold addedNodes addedEdges diff
  simp only [List.filterMap_append]
  constructor
  · rw [filterMap_reports (fun n : Node => n.id) _ _ next.nodes fun n => if_pos rfl]
    rw [filterMap_silent (l := prev.nodes), filterMap_silent (l := next.edges)]
    · rw [List.append_nil, List.append_nil]
    · intro e ch hch
      simp only [Option.ite_none_left_eq_some, Option.some.injEq] at hch
      rw [← hch.2]
      exact if_neg (by simp)
    · intro n ch hch
      simp only [Option.ite_none_left_eq_some, Option.some.injEq] at hch
      rw [← hch.2]
      exact if_neg (by simp)
  · rw [filterMap_reports (fun e : Edge => edgeKey e.source e.target) _ _ next.edges fun e => rfl]
    rw [filterMap_silent (l := prev.nodes), filterMap_silent (l := next.nodes)]
    · rw [List.nil_append, List.nil_append]
    · intro n ch hch
      simp only [Option.ite_none_left_eq_some, Option.some.injEq] at hch
      rw [← hch.2]
      rfl
    · intro n ch hch
      simp only [Option.ite_none_left_eq_some, Option.some.injEq] at hch
      rw [← hch.2]
      rfl

/-- Between snapshots of a graph that grows, the differ reports no removal. -/
theorem kind_of_mem_diff {prev next : GraphSnapshot}
    (hsub : prev.nodes.map (·.id) ⊆ next.nodes.map (·.id)) {ch : Change} (hch : ch ∈ diff prev next) :
    ch.kind ≠ .nodeRemoved := by
  unfold diff at hch
  simp only [List.mem_append, List.mem_filterMap, Option.ite_none_left_eq_some, Option.some.injEq,
    isSome_idSet] at hch
  rcases hch with (⟨n, _, _, rfl⟩ | ⟨n, hn, hgone, _⟩) | ⟨e, _, _, rfl⟩
  · intro hkind
    cases hkind
  · exact absurd (hsub (List.mem_map_of_mem hn)) hgone
  · intro hkind
    cases hkind

/-- What the poller has been told. -/
structure Told (p : Poller) : Prop where
  last : Lists p.last p.builder.graph
  /-- Every node and every edge was reported once. -/
  nodes : (addedNodes p.changes).Perm p.builder.graph.nodes.keys
  edges : (addedEdges p.changes).Perm p.builder.graph.edges.keys
  /-- Nothing was reported as removed. -/
  kinds : ∀ ch ∈ p.changes, ch.kind ≠ .nodeRemoved

/-- The keys reported so far, with those that only the next snapshot has. -/
theorem reported_perm {reported keys keys' shown shown' : List String}
    (hreported : reported.Perm keys) (hshown : shown.Perm keys) (hshown' : shown'.Perm keys')
    (hnodup : keys.Nodup) (hnodup' : keys'.Nodup) (hsub : keys ⊆ keys') :
    (reported ++ shown'.filter fun k => k ∉ shown).Perm keys' := by
  have hsame : shown'.filter (fun k => k ∉ shown) = shown'.filter fun k => k ∉ keys := by
    apply List.filter_congr
    intro k _
    exact decide_eq_decide.mpr (not_congr hshown.mem_iff)
  rw [hsame]
  exact (hreported.append (hshown'.filter _)).trans (append_filter_perm hnodup hnodup' hsub)

/-- **Step lemma**: a poll tells what the graph has gained. -/
theorem Told.poll {p : Poller} (htold : Told p) (batch : List Call × MapOrder) :
    Told (p.poll batch) := by
  have hgrows := grows_calls p.builder batch.1
  have hnext := lists_snapshot (p.poll batch).builder.graph batch.2
  obtain ⟨hnodes, hedges⟩ := added_diff p.last ((p.poll batch).builder.graph.snapshot batch.2)
  constructor
  case last => exact hnext
  case nodes =>
    have happend : addedNodes (p.poll batch).changes = addedNodes p.changes
        ++ addedNodes (diff p.last ((p.poll batch).builder.graph.snapshot batch.2)) :=
      List.filterMap_append
    rw [happend, hnodes]
    exact reported_perm htold.nodes htold.last.nodes hnext.nodes Std.ExtTreeMap.nodup_keys
      Std.ExtTreeMap.nodup_keys hgrows.nodes
  case edges =>
    have happend : addedEdges (p.poll batch).changes = addedEdges p.changes
        ++ addedEdges (diff p.last ((p.poll batch).builder.graph.snapshot batch.2)) :=
      List.filterMap_append
    rw [happend, hedges]
    exact reported_perm htold.edges htold.last.edges hnext.edges Std.ExtTreeMap.nodup_keys
      Std.ExtTreeMap.nodup_keys hgrows.edges
  case kinds =>
    intro ch hch
    rcases List.mem_append.mp hch with hold | hnew
    · exact htold.kinds ch hold
    · apply kind_of_mem_diff _ hnew
      intro id hid
      exact hnext.nodes.symm.subset (hgrows.nodes (htold.last.nodes.subset hid))

theorem told_start (callback : Bool) : Told (pollStart callback) := by
  have hempty : (pollStart callback).builder.graph = Graph.empty := freshBuilder_nodes callback
  constructor
  case last => rw [hempty]; exact ⟨List.Perm.refl _, List.Perm.refl _⟩
  case nodes => rw [hempty]; exact List.Perm.refl _
  case edges => rw [hempty]; exact List.Perm.refl _
  case kinds => exact fun ch hch => absurd hch List.not_mem_nil

/-- **Everything is reported once**: whatever happens between the polls and in whichever
    orders the snapshots list the maps. -/
theorem polls_report_once (callback : Bool) (batches : List (List Call × MapOrder)) :
    Told (batches.foldl Poller.poll (pollStart callback)) := by
  induction batches using List.reverseRecOn with
  | nil => exact told_start callback
  | append_singleton batches batch ih =>
    rw [List.foldl_append, List.foldl_cons, List.foldl_nil]
    exact ih.poll batch

end Owasaka.Topology
