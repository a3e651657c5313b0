import Owasaka.Events.Stored
import Owasaka.Transparency.Log

/-! # The pipeline over shared maps (`events/pipeline.go`, `stream/processor.go`)

    An event is passed by value, but its metadata are a Go map: every copy of the event
    refers to the same one.  `PushNetworkEvent` enriches and signs an event, appends it
    to the transparency log when it is critical and persists it, and then hands copies
    to the hub and to the analysers, which read them later.  The publisher writes the
    source and the destination into the map that they all share.

    A call records what the holders of a copy can read after each of its writes. -/

namespace Owasaka.Events.Stored

open JsonText Pki

/-! ## Section 1: Maps by reference -/

/-- The maps in memory by their references, of which those below `next` are in use. -/
structure Heap where
  maps : Nat → List (Bytes × GoValue)
  next : Nat

def Heap.make (h : Heap) : Nat × Heap := (h.next, ⟨Function.update h.maps h.next [], h.next + 1⟩)

def Heap.assign (h : Heap) (ref : Nat) (key : Bytes) (v : GoValue) : Heap :=
  { h with maps := Function.update h.maps ref (h.maps ref ++ [(key, v)]) }

/-- Assignments to one map, one after the other. -/
def Heap.assignAll (h : Heap) (ref : Nat) (entries : List (Bytes × GoValue)) : Heap :=
  entries.foldl (fun h entry => h.assign ref entry.1 entry.2) h

@[simp] theorem Heap.maps_assign (h : Heap) (ref : Nat) (key : Bytes) (v : GoValue) :
    (h.assign ref key v).maps ref = h.maps ref ++ [(key, v)] := by
  simp [assign]

@[simp] theorem Heap.maps_make (h : Heap) : h.make.2.maps h.make.1 = [] := by
  simp [make]

@[simp] theorem Heap.maps_assignAll (h : Heap) (ref : Nat) (entries : List (Bytes × GoValue)) :
    (h.assignAll ref entries).maps ref = h.maps ref ++ entries := by
  induction entries generalizing h with
  | nil => simp [assignAll]
  | cons entry entries ih =>
    show ((h.assign ref entry.1 entry.2).assignAll ref entries).maps ref = _
    rw [ih, maps_assign, List.append_assoc]
    rfl

/-- `models.NetworkEvent` with the reference to its metadata; `none` is a nil map. -/
structure SharedEvent where
  id : Bytes
  type : Bytes
  source : Bytes
  destination : Bytes
  metadata : Option Nat
  timestamp : Rfc3339.Time
  signature : Bytes
  signerKeyID : Bytes

/-- What a copy of the event reads as. -/
def SharedEvent.read (e : SharedEvent) (h : Heap) : NetworkEvent :=
  ⟨e.id, e.type, e.source, e.destination, e.metadata.map h.maps, e.timestamp, e.signature, e.signerKeyID⟩

/-! ## Section 2: The stages before an event is handed on -/

def eventAlert : Bytes := Bytes.ascii "THREAT_ALERT"

def eventCompliance : Bytes := Bytes.ascii "COMPLIANCE"

/-- A type assertion to `string` and its zero value; values of other string types are no
    `str`. -/
def asString : Option GoValue → Bytes
  | some (.str s) => s
  | _ => []

def asBool : Option GoValue → Bool
  | some (.bool b) => b
  | _ => false

/-- A key of the metadata; a nil map has none. -/
def NetworkEvent.get (e : NetworkEvent) (key : String) : Option GoValue :=
  e.metadata.bind fun entries => valueAt entries (Bytes.ascii key)

def isCriticalEvent (e : NetworkEvent) : Bool :=
  if e.type = eventAlert then true
  else if e.type = eventCompliance then
    let sev := asString (e.get "compliance_severity")
    let passed := asBool (e.get "compliance_passed")
    !passed && (sev = Bytes.ascii "block" || sev = Bytes.ascii "critical" || sev = Bytes.ascii "high")
  else false

def transparencyKind (t : Bytes) : Bytes :=
  if t = eventAlert then Bytes.ascii "alert.high"
  else if t = eventCompliance then Bytes.ascii "compliance.violation"
  else Bytes.ascii "event." ++ t

/-- The sliding-window counts of a source. -/
structure WindowStats where
  count1m : Int
  count5m : Int
  count15m : Int
  rate1m : BinaryFloat binary64

def WindowStats.entries (stats : WindowStats) : List (Bytes × GoValue) :=
  [(Bytes.ascii "stream.count_1m", .int stats.count1m),
    (Bytes.ascii "stream.count_5m", .int stats.count5m),
    (Bytes.ascii "stream.count_15m", .int stats.count15m),
    (Bytes.ascii "stream.rate_1m", .float64 stats.rate1m)]

/-- What one call takes from outside. -/
structure PushEnv where
  newID : Bytes
  now : Rfc3339.Time
  /-- The canonical form of an address. -/
  normalizeIP : Bytes → Bytes
  /-- The counts that the enricher reports, when one is set. -/
  stream : Option WindowStats
  /-- What `Sign` takes from outside, when a signer is set. -/
  signer : Option Env
  /-- The error of the log's transaction, when a log is set. -/
  transparency : Option (Option String)
  repo : Bool
  /-- A hub is set and there is room in its channel. -/
  hub : Bool
  pub : Bool
  topology : Bool
  engine : Bool
  observer : Bool
  chains : Bool

/-- The errors that a call logs. -/
inductive PushError where
  | sign (cause : SignerError)
  | canonicalize
  | append (cause : Transparency.TreeError)
  | persist

def hydrate (env : PushEnv) (e : SharedEvent) : SharedEvent :=
  { e with
    id := if e.id = [] then env.newID else e.id
    timestamp := if e.timestamp.instant = Rfc3339.zero.instant then env.now else e.timestamp }

/-- `Processor.Enrich`, up to its buffer and counters. -/
def enrich (normalizeIP : Bytes → Bytes) (stats : WindowStats) (h : Heap) (e : SharedEvent) :
    Heap × SharedEvent :=
  let source := normalizeIP e.source
  let (ref, h) :=
    match e.metadata with
    | none => h.make
    | some ref => (ref, h)
  -- an event without a source is not counted
  (if source = [] then h else h.assignAll ref stats.entries,
    { e with source := source, destination := normalizeIP e.destination, metadata := some ref })

def enrichStage (env : PushEnv) (h : Heap) (e : SharedEvent) : Heap × SharedEvent :=
  match env.stream with
  | none => (h, e)
  | some stats => enrich env.normalizeIP stats h e

/-- `Sign` clears the old signature once it has a key. -/
def signStage (ed : SignatureScheme) (env : PushEnv) (h : Heap) (e : SharedEvent) :
    SharedEvent × List PushError :=
  match env.signer with
  | none => (e, [])
  | some keys =>
    match sign ed keys (e.read h) with
    | .ok signed => ({ e with signature := signed.signature, signerKeyID := signed.signerKeyID }, [])
    | .error (.canonicalBytes cause) =>
      ({ e with signature := [], signerKeyID := [] }, [.sign (.canonicalBytes cause)])
    | .error err => (e, [.sign err])

/-- A critical event enters the log; `none` is a panic of the tree. -/
def appendStage (json : Transparency.LeafJson) (env : PushEnv) (log : Transparency.LogState)
    (e : NetworkEvent) : Option (Transparency.LogState × List PushError) :=
  match env.transparency with
  | none => some (log, [])
  | some fault =>
    if isCriticalEvent e then
      match e.canonicalBytes with
      | none => some (log, [.canonicalize])
      | some canonical =>
        match log.tree.appendBytes json fault env.now.instant (transparencyKind e.type) canonical
            e.timestamp.instant log.db with
        | none => none
        | some (.error err, tree, db) => some (⟨tree, db⟩, [.append err])
        | some (.ok (), tree, db) => some (⟨tree, db⟩, [])
    else some (log, [])

/-- The events afterwards, and the value that was persisted. -/
def persistStage (env : PushEnv) (events : Bolt.Bucket) (e : NetworkEvent) :
    Bolt.Bucket × Option NetworkEvent × List PushError :=
  if env.repo then
    match logEvent events e with
    | none => (events, none, [.persist])
    | some events' => (events', some e, [])
  else (events, none, [])

/-! ## Section 3: Handing an event on -/

inductive Consumer where
  | hub
  | topology
  | engine
  | observer
  | chains
  deriving DecidableEq

/-- The memory, the holders of a copy of the event, and what each of them could read so
    far. -/
structure Dispatch where
  heap : Heap
  holders : List Consumer
  reads : List (Consumer × NetworkEvent)

/-- Every holder may read its copy now. -/
def Dispatch.observe (d : Dispatch) (e : SharedEvent) : Dispatch :=
  { d with reads := d.reads ++ d.holders.map fun c => (c, e.read d.heap) }

/-- A copy for a consumer, when it is set. -/
def Dispatch.hand (d : Dispatch) (e : SharedEvent) (set : Bool) (c : Consumer) : Dispatch :=
  if set then { d with holders := d.holders ++ [c] }.observe e else d

def Dispatch.assign (d : Dispatch) (e : SharedEvent) (ref : Nat) (key : String) (v : GoValue) : Dispatch :=
  { d with heap := d.heap.assign ref (Bytes.ascii key) v }.observe e

/-- The payload of the published message is the map of the event itself, unless it is
    nil. -/
def Dispatch.publish (d : Dispatch) (e : SharedEvent) : Dispatch :=
  let (ref, h) :=
    match e.metadata with
    | none => d.heap.make
    | some ref => (ref, d.heap)
  ({ d with heap := h }.assign e ref "source" (.str e.source)).assign e ref "destination"
    (.str e.destination)

/-- From the hub to the chain correlator.  The hub and the analysers read in goroutines
    of their own, and alerts are not analysed. -/
def dispatch (env : PushEnv) (h : Heap) (e : SharedEvent) : Dispatch :=
  let d : Dispatch := ⟨h, [], []⟩
  let d := d.hand e env.hub .hub
  let d := if env.pub then d.publish e else d
  let d := d.hand e (env.topology && e.type ≠ eventAlert) .topology
  let d := d.hand e (env.engine && e.type ≠ eventAlert) .engine
  let d := d.hand e (env.observer && e.type ≠ eventAlert) .observer
  d.hand e (env.chains && e.type ≠ eventAlert) .chains

/-! ## Section 4: `PushNetworkEvent` -/

/-- What the pipeline works on.  The buckets of the log and of the events are different
    ones. -/
structure PipelineState where
  heap : Heap
  log : Transparency.LogState
  events : Bolt.Bucket

/-- What one call does. -/
structure Pushed where
  state : PipelineState
  /-- The event as it was signed. -/
  event : NetworkEvent
  persisted : Option NetworkEvent
  reads : List (Consumer × NetworkEvent)
  errors : List PushError

def pushNetworkEvent (ed : SignatureScheme) (json : Transparency.LeafJson) (env : PushEnv)
    (s : PipelineState) (e : SharedEvent) : Option Pushed :=
  let (h, e) := enrichStage env s.heap (hydrate env e)
  let (e, signErrors) := signStage ed env h e
  match appendStage json env s.log (e.read h) with
  | none => none
  | some (log, appendErrors) =>
    let (events, persisted, persistErrors) := persistStage env s.events (e.read h)
    let d := dispatch env h e
    some
      { state := ⟨d.heap, log, events⟩
        event := e.read h
        persisted := persisted
        reads := d.reads
        errors := signErrors ++ appendErrors ++ persistErrors }

end Owasaka.Events.Stored
