import Owasaka.Discovery.Asset
import Owasaka.Events.Pipeline
import Owasaka.Foundation.KeyedValues

/-! # The topology graph (`network/topology/graph.go`, `network/topology/builder.go`)

    The graph has a node for each IP and an edge for each pair of IPs that were seen to
    communicate.  `OnAsset` and `OnEvent` both go through `UpsertNode`, which merges the
    given node into the existing one: a field that is not empty wins, and so does a type
    that is not `unknown`.  `OnAsset` calls back when a node changed, `OnEvent` when the
    edge is new.

    The snapshot that a callback gets lists the maps in the order of their iteration,
    which is any order.  Times are nanoseconds. -/

namespace Owasaka.Topology

open Discovery Events

/-! ## Section 1: Nodes and edges -/

/-- `NodeType` is a Go string; these are its constants, and any other text. -/
inductive NodeType where
  | host
  | router
  | container
  | vm
  | unknown
  | other (text : String)
  deriving DecidableEq

structure Node where
  id : String
  label : String
  type : NodeType
  mac : String
  os : String
  ports : List Int
  lastSeen : Int
  deriving DecidableEq

structure Edge where
  source : String
  target : String
  count : Int64
  protocol : String
  deriving DecidableEq

structure GraphSnapshot where
  nodes : List Node
  edges : List Edge

def edgeKey (src dst : String) : String := src ++ "->" ++ dst

/-- Nodes are kept under their IDs and edges under the key of their ends. -/
structure Graph where
  nodes : Std.ExtTreeMap String Node
  edges : Std.ExtTreeMap String Edge
  node_id : ∀ (id : String) (n : Node), nodes[id]? = some n → n.id = id
  edge_key : ∀ (key : String) (e : Edge), edges[key]? = some e → edgeKey e.source e.target = key

namespace Graph

def empty : Graph where
  nodes := ∅
  edges := ∅
  node_id := by simp
  edge_key := by simp

def putNode (g : Graph) (n : Node) : Graph :=
  { g with
    nodes := g.nodes.insert n.id n
    node_id := by
      intro id m hget
      rcases getElem?_insert_cases hget with ⟨hid, heq⟩ | ⟨_, hold⟩
      · rw [hid, heq]
      · exact g.node_id id m hold }

def putEdge (g : Graph) (e : Edge) : Graph :=
  { g with
    edges := g.edges.insert (edgeKey e.source e.target) e
    edge_key := by
      intro key f hget
      rcases getElem?_insert_cases hget with ⟨hkey, heq⟩ | ⟨_, hold⟩
      · rw [hkey, heq]
      · exact g.edge_key key f hold }

end Graph

/-! ## Section 2: `UpsertNode` and `UpsertEdge` -/

/-- The text takes the place of the old one. -/
def wins (given old : String) : Bool := given ≠ "" ∧ given ≠ old

/-- The existing node after `UpsertNode` of another one. -/
def Node.merge (existing n : Node) : Node where
  id := existing.id
  label := if wins n.label existing.label then n.label else existing.label
  type := if n.type ≠ .unknown ∧ n.type ≠ existing.type then n.type else existing.type
  mac := if wins n.mac existing.mac then n.mac else existing.mac
  os := if wins n.os existing.os then n.os else existing.os
  ports := if n.ports.length > 0 then n.ports else existing.ports
  lastSeen := n.lastSeen

/-- Whether `UpsertNode` of another node counts as a change.  Ports always do. -/
def Node.changedBy (existing n : Node) : Bool :=
  wins n.label existing.label || wins n.mac existing.mac || wins n.os existing.os
    || n.ports.length > 0 || (n.type ≠ .unknown && n.type ≠ existing.type)

def Graph.upsertNode (g : Graph) (n : Node) : Graph × Bool :=
  match g.nodes[n.id]? with
  | none => (g.putNode n, true)
  | some existing => (g.putNode (existing.merge n), existing.changedBy n)

def Graph.upsertEdge (g : Graph) (src dst protocol : String) : Graph × Bool :=
  if src = dst ∨ src = "" ∨ dst = "" then (g, false)
  else
    match g.edges[edgeKey src dst]? with
    | some e => (g.putEdge { e with count := e.count + 1 }, false)
    | none => (g.putEdge { source := src, target := dst, count := 1, protocol := protocol }, true)

/-! ## Section 3: Snapshots -/

/-- The orders in which a snapshot iterates the maps. -/
structure MapOrder where
  nodes : Visit Node
  edges : Visit Edge

/-- The order of the keys. -/
def keyOrder : MapOrder := ⟨Visit.sorted Node, Visit.sorted Edge⟩

def Graph.snapshot (g : Graph) (order : MapOrder) : GraphSnapshot where
  nodes := order.nodes.list (valuesOf g.nodes)
  edges := order.edges.list (valuesOf g.edges)

/-! ## Section 4: The builder -/

structure Builder where
  graph : Graph
  /-- Whether a callback is set. -/
  onChange : Bool

def newBuilder : Builder := ⟨Graph.empty, false⟩

def Builder.setOnChange (b : Builder) : Builder := { b with onChange := true }

/-- The hostname, else the MAC, else the IP. -/
def assetLabel (a : Asset) : String :=
  let label := a.hostname
  let label := if label = "" then a.mac else label
  if label = "" then a.ip else label

/-- The node that `OnAsset` upserts. -/
def assetNode (a : Asset) : Node where
  id := a.ip
  label := assetLabel a
  type := .host
  mac := a.mac
  os := a.os
  ports := a.ports
  lastSeen := a.lastSeen

/-- `OnAsset`: the builder afterwards, and the snapshot that the callback gets. -/
def Builder.onAsset (b : Builder) (order : MapOrder) (a : Asset) : Builder × Option GraphSnapshot :=
  let (graph, changed) := b.graph.upsertNode (assetNode a)
  ({ b with graph := graph }, if changed ∧ b.onChange then some (graph.snapshot order) else none)

/-- The node that `OnEvent` upserts for an end of the event. -/
def endNode (ip : String) (timestamp : Int) : Node where
  id := ip
  label := ip
  type := .unknown
  mac := ""
  os := ""
  ports := []
  lastSeen := timestamp

/-- Both ends of the event become nodes.  Whether that changed a node is dropped. -/
def Graph.upsertEnds (g : Graph) (e : NetworkEvent) : Graph :=
  let g := (g.upsertNode (endNode e.source e.timestamp)).1
  (g.upsertNode (endNode e.destination e.timestamp)).1

/-- `OnEvent`: the builder afterwards, and the snapshot that the callback gets. -/
def Builder.onEvent (b : Builder) (order : MapOrder) (e : NetworkEvent) :
    Builder × Option GraphSnapshot :=
  if e.source = "" ∨ e.destination = "" then (b, none)
  else
    let (graph, isNew) := (b.graph.upsertEnds e).upsertEdge e.source e.destination e.type.text
    ({ b with graph := graph }, if isNew ∧ b.onChange then some (graph.snapshot order) else none)

/-- A call, with the order in which a snapshot would iterate the maps. -/
inductive Call where
  | onAsset (order : MapOrder) (a : Asset)
  | onEvent (order : MapOrder) (e : NetworkEvent)

def Builder.call (b : Builder) : Call → Builder × Option GraphSnapshot
  | .onAsset order a => b.onAsset order a
  | .onEvent order e => b.onEvent order e

/-! ## Section 5: What a call does to the nodes -/

section

variable (g : Graph) (b : Builder) (order : MapOrder)

theorem getElem?_putNode (n : Node) (ip : String) :
    (g.putNode n).nodes[ip]? = if ip = n.id then some n else g.nodes[ip]? :=
  getElem?_insert_ite g.nodes n.id ip n

/-- The node under the ID of the given one afterwards. -/
def upserted (old : Option Node) (n : Node) : Node :=
  match old with
  | none => n
  | some existing => existing.merge n

theorem getElem?_upsertNode (n : Node) (ip : String) :
    (g.upsertNode n).1.nodes[ip]?
      = if ip = n.id then some (upserted g.nodes[ip]? n) else g.nodes[ip]? := by
  unfold Graph.upsertNode
  cases hget : g.nodes[n.id]? with
  | none =>
    rw [getElem?_putNode]
    split
    · rename_i hid
      rw [hid, hget]
      rfl
    · rfl
  | some existing =>
    have hid : (existing.merge n).id = n.id := g.node_id n.id existing hget
    rw [getElem?_putNode, hid]
    split
    · rename_i heq
      rw [heq, hget]
      rfl
    · rfl

@[simp] theorem edges_upsertNode (n : Node) : (g.upsertNode n).1.edges = g.edges := by
  unfold Graph.upsertNode
  split <;> rfl

@[simp] theorem nodes_upsertEdge (src dst protocol : String) :
    (g.upsertEdge src dst protocol).1.nodes = g.nodes := by
  unfold Graph.upsertEdge
  split
  · rfl
  · split <;> rfl

/-- A text that is not empty wins, whether it is the old one or not. -/
theorem wins_eq (given old : String) :
    (if wins given old then given else old) = if given = "" then old else given := by
  unfold wins
  by_cases hempty : given = ""
  · simp [hempty]
  · by_cases hsame : given = old
    · simp [hsame]
    · simp [hempty, hsame]

/-- An event gives the node of an end the IP for its label. -/
theorem merge_endNode {ip : String} (hip : ip ≠ "") (n : Node) (timestamp : Int) :
    n.merge (endNode ip timestamp) = { n with label := ip, lastSeen := timestamp } := by
  unfold Node.merge
  rw [wins_eq, wins_eq, wins_eq]
  simp [endNode, hip]

theorem label_merge_assetNode (n : Node) (a : Asset) :
    (n.merge (assetNode a)).label = if assetLabel a = "" then n.label else assetLabel a :=
  wins_eq (assetLabel a) n.label

theorem type_merge_assetNode (n : Node) (a : Asset) : (n.merge (assetNode a)).type = .host := by
  show (if NodeType.host ≠ .unknown ∧ NodeType.host ≠ n.type then NodeType.host else n.type) = .host
  by_cases htype : n.type = .host
  · rw [htype, ite_self]
  · rw [if_pos ⟨by decide, fun heq => htype heq.symm⟩]

theorem assetLabel_eq_empty {a : Asset} :
    assetLabel a = "" ↔ a.hostname = "" ∧ a.mac = "" ∧ a.ip = "" := by
  unfold assetLabel
  by_cases hhost : a.hostname = ""
  · by_cases hmac : a.mac = ""
    · simp [hhost, hmac]
    · simp [hhost, hmac]
  · simp [hhost]

theorem getElem?_onAsset (a : Asset) (ip : String) :
    (b.onAsset order a).1.graph.nodes[ip]?
      = if ip = a.ip then some (upserted b.graph.nodes[ip]? (assetNode a))
        else b.graph.nodes[ip]? :=
  getElem?_upsertNode b.graph (assetNode a) ip

/-- The node of an end of an event afterwards: with the IP for its label. -/
def seenEnd (old : Option Node) (ip : String) (timestamp : Int) : Node :=
  { old.getD (endNode ip timestamp) with label := ip, lastSeen := timestamp }

theorem upserted_endNode {ip : String} (hip : ip ≠ "") (old : Option Node) (timestamp : Int) :
    upserted old (endNode ip timestamp) = seenEnd old ip timestamp := by
  cases old with
  | none => rfl
  | some n => exact merge_endNode hip n timestamp

theorem edges_upsertEnds (e : NetworkEvent) : (g.upsertEnds e).edges = g.edges := by
  unfold Graph.upsertEnds
  rw [edges_upsertNode, edges_upsertNode]

/-- Both ends of an event are seen, and no other node changes. -/
theorem getElem?_upsertEnds {e : NetworkEvent} (hsource : e.source ≠ "")
    (hdestination : e.destination ≠ "") (ip : String) :
    (g.upsertEnds e).nodes[ip]?
      = if ip = e.source ∨ ip = e.destination then some (seenEnd g.nodes[ip]? ip e.timestamp)
        else g.nodes[ip]? := by
  have hfirst := getElem?_upsertNode g (endNode e.source e.timestamp) ip
  have hsecond := getElem?_upsertNode (g.upsertNode (endNode e.source e.timestamp)).1
    (endNode e.destination e.timestamp) ip
  unfold Graph.upsertEnds
  simp only [hsecond, hfirst, show ∀ ip t, (endNode ip t).id = ip from fun _ _ => rfl]
  by_cases hsrc : ip = e.source
  · subst hsrc
    rw [if_pos rfl, if_pos (Or.inl rfl), upserted_endNode hsource]
    split
    · -- the ends are the same node, which is seen twice
      rename_i hself
      rw [← hself, upserted_endNode hsource]
      rfl
    · rfl
  · rw [if_neg hsrc]
    by_cases hdst : ip = e.destination
    · subst hdst
      rw [if_pos rfl, if_pos (Or.inr rfl), upserted_endNode hdestination]
    · rw [if_neg hdst, if_neg (not_or_intro hsrc hdst)]

variable {b order} in
theorem onEvent_skipped {e : NetworkEvent} (hends : e.source = "" ∨ e.destination = "") :
    b.onEvent order e = (b, none) := if_pos hends

variable {b order} in
theorem onEvent_eq {e : NetworkEvent} (hends : ¬ (e.source = "" ∨ e.destination = "")) :
    b.onEvent order e =
      let made := (b.graph.upsertEnds e).upsertEdge e.source e.destination e.type.text
      ({ b with graph := made.1 },
        if made.2 ∧ b.onChange then some (made.1.snapshot order) else none) := if_neg hends

theorem getElem?_onEvent {e : NetworkEvent} (hsource : e.source ≠ "")
    (hdestination : e.destination ≠ "") (ip : String) :
    (b.onEvent order e).1.graph.nodes[ip]?
      = if ip = e.source ∨ ip = e.destination then some (seenEnd b.graph.nodes[ip]? ip e.timestamp)
        else b.graph.nodes[ip]? := by
  rw [onEvent_eq (not_or_intro hsource hdestination)]
  simp only [nodes_upsertEdge]
  exact getElem?_upsertEnds b.graph hsource hdestination ip

end

/-! ## Section 6: A host and its traffic -/

def database : Asset := ⟨"a1", "10.0.0.5", "00:16:3e:5e:6c:00", "db", "linux", [5432], 1⟩

/-- An event with the fields that the topology reads. -/
def traffic (source destination : String) (timestamp : Int) : NetworkEvent :=
  ⟨"", .proxy, source, destination, ∅, timestamp, [], ""⟩

end Owasaka.Topology
