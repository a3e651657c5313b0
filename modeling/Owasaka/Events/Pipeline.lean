import Owasaka.Foundation.Bytes
import Owasaka.Foundation.Json

/-! # Events and the pipeline (`models/event.go`, `events/pipeline.go`)

    `PushNetworkEvent` fills in defaults, enriches and signs an event, appends
    it to the transparency log when it is critical, persists it and publishes it
    on a subject that its type decides.

    Enriching, signing and the log are other components: a call takes from its
    environment what they return. -/

namespace Owasaka.Events

open Json

/-! ## Section 1: Events -/

/-- `EventType` is a Go string; these are its constants, and any other text. -/
inductive EventType where
  | dns
  | portScan
  | arp
  | physical
  | alert
  | proxy
  | vm
  | compliance
  | tor
  | canary
  | other (text : String)
  deriving DecidableEq

def EventType.text : EventType → String
  | .dns => "DNS"
  | .portScan => "PORT_SCAN"
  | .arp => "ARP"
  | .physical => "PHYSICAL"
  | .alert => "THREAT_ALERT"
  | .proxy => "PROXY"
  | .vm => "VM"
  | .compliance => "COMPLIANCE"
  | .tor => "TOR"
  | .canary => "CANARY"
  | .other text => text

/-- `models.NetworkEvent`; a nil map of metadata is empty. -/
structure NetworkEvent where
  id : String
  type : EventType
  source : String
  destination : String
  metadata : Map
  timestamp : Int
  signature : Bytes
  signerKeyID : String

/-- The event schema of the published messages. -/
structure Event where
  eventID : String
  eventType : String
  timestamp : Int
  sourceService : String
  correlationID : String
  payload : Map

/-- The document that `json.Marshal` makes of an event, as it is read back.
    `formatTime` is the text of a time. -/
def Event.document (formatTime : Int → String) (e : Event) : Value :=
  .obj
    [("event_id", .str e.eventID), ("event_type", .str e.eventType),
      ("timestamp", .str (formatTime e.timestamp)), ("source_service", .str e.sourceService),
      ("correlation_id", .str e.correlationID),
      ("payload", .obj (Value.viaJsonFields e.payload.toList))]

/-! ## Section 2: Decisions by type -/

def isCriticalEvent (e : NetworkEvent) : Bool :=
  if e.type = .alert then true
  else if e.type = .compliance then
    let sev := (Value.asString e.metadata["compliance_severity"]?).getD ""
    let passed := (Value.asBool e.metadata["compliance_passed"]?).getD false
    !passed && (sev = "block" || sev = "critical" || sev = "high")
  else false

def transparencyKind : EventType → String
  | .alert => "alert.high"
  | .compliance => "compliance.violation"
  | t => "event." ++ t.text

def spectreNetworkSubject : EventType → String
  | .dns => "network.dns.query.v1"
  | .portScan => "network.service.detected.v1"
  | .proxy => "network.service.detected.v1"
  | .alert => "network.dns.threat.v1"
  | .compliance => "neotron.compliance.siem.v1"
  | _ => "network.asset.discovered.v1"

/-! ## Section 3: `PushNetworkEvent` -/

/-- The sliding-window counts of a source. -/
structure WindowStats where
  count1m : Int
  count5m : Int
  count15m : Int
  rate1m : Rat

/-- `Processor.Enrich`, up to its buffer and counters.  `normalizeIP` is the
    canonical form of an address. -/
def enrich (normalizeIP : String → String) (stats : WindowStats) (e : NetworkEvent) :
    NetworkEvent :=
  let source := normalizeIP e.source
  let e := { e with source := source, destination := normalizeIP e.destination }
  -- an event without a source is not counted
  if source = "" then e
  else
    { e with
      metadata := (((e.metadata.insert "stream.count_1m" (.int stats.count1m)).insert
        "stream.count_5m" (.int stats.count5m)).insert
        "stream.count_15m" (.int stats.count15m)).insert
        "stream.rate_1m" (.float stats.rate1m) }

/-- What one call takes from outside. -/
structure PushEnv where
  newID : String
  now : Int
  normalizeIP : String → String
  /-- The counts that the enricher reports, when one is set. -/
  stream : Option WindowStats
  /-- Signature and key ID, when a signer is set and succeeds. -/
  signed : Option (Bytes × String)
  /-- A repository is set and stores the event. -/
  persists : Bool

/-- What one call does. -/
structure Pushed where
  event : NetworkEvent
  /-- The event enters the transparency log, when one is set. -/
  critical : Bool
  persisted : Bool
  subject : String
  published : Event

def pushNetworkEvent (env : PushEnv) (e : NetworkEvent) : Pushed :=
  let e := { e with id := if e.id = "" then env.newID else e.id }
  let e := { e with timestamp := if e.timestamp = zeroTime then env.now else e.timestamp }
  let e :=
    match env.stream with
    | none => e
    | some stats => enrich env.normalizeIP stats e
  let e :=
    match env.signed with
    | none => e
    | some (signature, keyID) => { e with signature := signature, signerKeyID := keyID }
  { event := e
    critical := isCriticalEvent e
    persisted := env.persists
    subject := spectreNetworkSubject e.type
    published :=
      { eventID := e.id, eventType := e.type.text, timestamp := e.timestamp,
        sourceService := "SIEM", correlationID := "",
        payload := (e.metadata.insert "source" (.str e.source)).insert
          "destination" (.str e.destination) } }

@[simp] theorem enrich_type (normalizeIP : String → String) (stats : WindowStats)
    (e : NetworkEvent) : (enrich normalizeIP stats e).type = e.type := by
  simp only [enrich]
  split <;> rfl

/-- Nothing on the way changes an event's type, so it decides the subject. -/
theorem pushNetworkEvent_subject (env : PushEnv) (e : NetworkEvent) :
    (pushNetworkEvent env e).subject = spectreNetworkSubject e.type := by
  unfold pushNetworkEvent
  cases env.stream <;> cases env.signed <;> simp

end Owasaka.Events
