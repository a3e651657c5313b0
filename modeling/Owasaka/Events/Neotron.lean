import Owasaka.Events.Pipeline
import Owasaka.Foundation.Subject

/-! # The compliance subscriber (`events/neotron.go`)

    A message on `neotron.compliance.>` is unmarshalled, classified by subject,
    severity and outcome, and turned into an event whose metadata holds the
    compliance fields and every remaining field of the message. -/

namespace Owasaka.Events

open Json

/-- A message of the broker.  `data` is the JSON document, `none` when the bytes
    are none; `external` marks what the pipeline did not publish itself. -/
structure Msg where
  subject : String
  data : Option Value
  external : Bool

def complianceSubject : String := "neotron.compliance.>"

/-- What one message handler takes from outside. -/
structure HandleEnv where
  newID : String
  now : Int
  /-- `time.Parse(time.RFC3339, ·)`. -/
  parseTime : String → Option Int

/-! ## Section 1: Classification -/

def rawString (raw : Map) (key : String) : String := (Value.asString raw[key]?).getD ""

def rawBool (raw : Map) (key : String) : Bool := (Value.asBool raw[key]?).getD false

def determineEventType (subject : String) (raw : Map) : EventType :=
  let severity := rawString raw "severity"
  let passed := rawBool raw "passed"
  if subject = "neotron.compliance.violation.v1" then .alert
  else if passed then .compliance
  else if severity = "block" ∨ severity = "critical" ∨ severity = "high" then .alert
  else .compliance

theorem determineEventType_cases (subject : String) (raw : Map) :
    determineEventType subject raw = .alert ∨ determineEventType subject raw = .compliance := by
  unfold determineEventType
  simp only
  repeat' split
  all_goals simp

/-! ## Section 2: Conversion -/

/-- `if v, ok := raw[key].(T); ok { metadata[name] = v }`. -/
def copyField {α : Type} (name : String) (inject : α → Value) (v : Option α) (metadata : Map) :
    Map :=
  match v with
  | none => metadata
  | some a => metadata.insert name (inject a)

/-- The fields that the conversion names one by one. -/
def handledFields : List String :=
  ["guardrail_name", "regulation", "severity", "passed", "audit_id", "timestamp", "confidence",
    "risk_score", "reputation", "agent_id", "agent_output_hash", "details", "subject", "source"]

def complianceMetadata (subject : String) (raw : Map) : Map :=
  let auditID := (Value.asFloat raw["audit_id"]?).getD 0
  let metadata : Map := (∅ : Map)
    |>.insert "compliance_guardrail" (.str (rawString raw "guardrail_name"))
    |>.insert "compliance_regulation" (.str (rawString raw "regulation"))
    |>.insert "compliance_severity" (.str (rawString raw "severity"))
    |>.insert "compliance_passed" (.bool (rawBool raw "passed"))
    |>.insert "compliance_audit_id" (.int (truncate auditID))
    |>.insert "nats_subject" (.str subject)
    |>.insert "source_service" (.str "neotron")
  let metadata := copyField "compliance_confidence" .float (Value.asFloat raw["confidence"]?) metadata
  let metadata := copyField "compliance_risk_score" .float (Value.asFloat raw["risk_score"]?) metadata
  let metadata := copyField "compliance_reputation" .float (Value.asFloat raw["reputation"]?) metadata
  let metadata := copyField "agent_id" .str (Value.asString raw["agent_id"]?) metadata
  let metadata := copyField "output_hash" .str (Value.asString raw["agent_output_hash"]?) metadata
  let metadata := copyField "details" .str (Value.asString raw["details"]?) metadata
  -- the remaining fields of the message, under their own names
  raw.toList.foldl
    (fun m f => if f.1 ∈ handledFields then m else m.insert f.1 f.2) metadata

def convertToNetworkEvent (env : HandleEnv) (subject : String) (raw : Map) : NetworkEvent where
  id := env.newID
  type := determineEventType subject raw
  source := "neotron"
  destination := rawString raw "guardrail_name"
  metadata := complianceMetadata subject raw
  timestamp := ((Value.asString raw["timestamp"]?).bind env.parseTime).getD env.now
  signature := []
  signerKeyID := ""

/-- `handleComplianceEvent`: the event it pushes, if the message unmarshals. -/
def handleComplianceEvent (env : HandleEnv) (msg : Msg) : Option NetworkEvent :=
  match unmarshalMap msg.data with
  | none => none
  | some raw => some (convertToNetworkEvent env msg.subject raw)

end Owasaka.Events
