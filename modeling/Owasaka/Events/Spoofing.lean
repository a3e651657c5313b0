import Owasaka.Events.Neotron
import Owasaka.Foundation.Lookup

/-! # Compliance fields under spoofing

    The conversion of a compliance message writes what it extracts under names of
    its own, and then copies every remaining field of the message over it, under
    that field's own name.  Nothing keeps the two sets of names apart.  The type
    of the event is decided from the message, but whether the event enters the
    transparency log is decided from the metadata, so a field with one of these
    names also decides that.

    The main result: the metadata is what was extracted if and only if the message
    has no field of such a name, or has the extracted value there. -/

namespace Owasaka.Events

open Json

/-! ## Section 1: What the event has to say -/

/-- The metadata that classifies the event, as extracted from the message. -/
def extracted (subject : String) (raw : Map) : List (String × Value) :=
  [("compliance_severity", .str (rawString raw "severity")),
    ("compliance_passed", .bool (rawBool raw "passed")),
    ("compliance_regulation", .str (rawString raw "regulation")),
    ("compliance_guardrail", .str (rawString raw "guardrail_name")),
    ("nats_subject", .str subject),
    ("source_service", .str "neotron")]

/-- The messages whose events belong into the transparency log. -/
def Violation (subject : String) (raw : Map) : Prop :=
  subject = "neotron.compliance.violation.v1"
    ∨ (rawBool raw "passed" = false
      ∧ (rawString raw "severity" = "block" ∨ rawString raw "severity" = "critical"
        ∨ rawString raw "severity" = "high"))

/-- The event says what the message says. -/
structure Faithful (subject : String) (raw : Map) (e : NetworkEvent) : Prop where
  fields : ∀ f ∈ extracted subject raw, e.metadata[f.1]? = some f.2
  critical : isCriticalEvent e = true ↔ Violation subject raw

/-- No field of the message has a classifying name and another value than the one
    that is extracted. -/
def NoSpoofedField (subject : String) (raw : Map) : Prop :=
  ∀ f ∈ extracted subject raw, ∀ v, raw[f.1]? = some v → v = f.2

/-! ## Section 2: The metadata -/

theorem getElem?_copyField {α : Type} {name key : String} (hne : key ≠ name) (inject : α → Value)
    (v : Option α) (metadata : Map) :
    (copyField name inject v metadata)[key]? = metadata[key]? := by
  cases v with
  | none => rfl
  | some a =>
    show (metadata.insert name (inject a))[key]? = metadata[key]?
    rw [getElem?_insert_ite, if_neg hne]

/-- A classifying name holds the extracted value, unless the message has a field of
    that name. -/
theorem getElem?_complianceMetadata {subject : String} {raw : Map} {f : String × Value}
    (hf : f ∈ extracted subject raw) :
    (complianceMetadata subject raw)[f.1]? = some (raw[f.1]?.getD f.2) := by
  have hname : f.1 ∉ handledFields := by
    simp only [extracted, List.mem_cons, List.not_mem_nil, or_false] at hf
    rcases hf with rfl | rfl | rfl | rfl | rfl | rfl <;> simp [handledFields]
  have hor : ∀ {o o' : Option Value}, o' = some f.2 → o.or o' = some (o.getD f.2) := by
    intro o o' ho'
    rw [ho']
    cases o <;> rfl
  unfold complianceMetadata
  simp only
  rw [getElem?_foldl_copy (fun name => name ∈ handledFields), if_neg hname]
  apply hor
  -- what was written before the loop: the optional fields have other names
  simp only [extracted, List.mem_cons, List.not_mem_nil, or_false] at hf
  rcases hf with rfl | rfl | rfl | rfl | rfl | rfl <;>
    simp only [ne_eq, String.reduceEq, not_false_eq_true, getElem?_copyField, getElem?_insert_ite,
      reduceIte]

/-! ## Section 3: The log decision -/

/-- With the extracted severity and outcome, both tables decide alike. -/
theorem isCriticalEvent_iff {env : HandleEnv} {subject : String} {raw : Map}
    (hfields : ∀ f ∈ extracted subject raw,
      (convertToNetworkEvent env subject raw).metadata[f.1]? = some f.2) :
    isCriticalEvent (convertToNetworkEvent env subject raw) = true ↔ Violation subject raw := by
  have hseverity := hfields ("compliance_severity", .str (rawString raw "severity"))
    (by simp [extracted])
  have hpassed := hfields ("compliance_passed", .bool (rawBool raw "passed"))
    (by simp [extracted])
  have htype : (convertToNetworkEvent env subject raw).type = determineEventType subject raw := rfl
  simp only at hseverity hpassed
  unfold isCriticalEvent Violation
  rw [hseverity, hpassed, htype]
  unfold determineEventType
  simp only [Value.asString, Value.asBool, Option.getD_some]
  by_cases hsubject : subject = "neotron.compliance.violation.v1"
  · simp [hsubject]
  · cases houtcome : rawBool raw "passed" with
    | true => simp [hsubject]
    | false =>
      by_cases hsevere : rawString raw "severity" = "block" ∨ rawString raw "severity" = "critical"
          ∨ rawString raw "severity" = "high"
      · simp [hsubject, hsevere]
      · rw [not_or, not_or] at hsevere
        simp [hsubject, hsevere]

/-- **A converted event** says what the message says exactly when the message has no
    field that spoofs a classifying one. -/
theorem converted_faithful_iff (env : HandleEnv) (subject : String) (raw : Map) :
    Faithful subject raw (convertToNetworkEvent env subject raw) ↔ NoSpoofedField subject raw := by
  constructor
  · intro hfaithful f hf v hraw
    have hfield := hfaithful.fields f hf
    have hmetadata : (convertToNetworkEvent env subject raw).metadata[f.1]?
        = some (raw[f.1]?.getD f.2) := getElem?_complianceMetadata hf
    rw [hmetadata, hraw] at hfield
    exact Option.some.inj hfield
  · intro hclean
    have hfields : ∀ f ∈ extracted subject raw,
        (convertToNetworkEvent env subject raw).metadata[f.1]? = some f.2 := by
      intro f hf
      show (complianceMetadata subject raw)[f.1]? = some f.2
      rw [getElem?_complianceMetadata hf]
      cases hraw : raw[f.1]? with
      | none => rfl
      | some v => rw [hclean f hf v hraw, Option.getD_some]
    exact ⟨hfields, isCriticalEvent_iff hfields⟩

/-! ## Section 4: A spoofed severity -/

/-- A finding of low severity that brings a severity for the metadata. -/
def spoofedMessage : Msg :=
  ⟨"neotron.compliance.sentinel.v1",
    some (.obj [("severity", .str "low"), ("passed", .bool false),
      ("compliance_severity", .str "critical")]), true⟩

def spoofedRaw : Map :=
  Map.ofFields [("severity", .str "low"), ("passed", .bool false),
    ("compliance_severity", .str "critical")]

/-- It enters the transparency log. -/
theorem spoofed_severity_critical :
    (handleComplianceEvent ⟨"id", 0, fun _ => none⟩ spoofedMessage).any isCriticalEvent = true
      ∧ ¬ Violation spoofedMessage.subject spoofedRaw
      ∧ ¬ Faithful spoofedMessage.subject spoofedRaw
        (convertToNetworkEvent ⟨"id", 0, fun _ => none⟩ spoofedMessage.subject spoofedRaw) := by
  have hcritical : isCriticalEvent (convertToNetworkEvent ⟨"id", 0, fun _ => none⟩
      spoofedMessage.subject spoofedRaw) = true := by rfl
  have hquiet : ¬ Violation spoofedMessage.subject spoofedRaw := by
    unfold Violation
    decide
  refine ⟨?_, hquiet, ?_⟩
  · exact hcritical
  · intro hfaithful
    exact hquiet (hfaithful.critical.mp hcritical)

end Owasaka.Events
