import Owasaka.Foundation.Bolt
import Owasaka.Foundation.GoValue

/-! # Alerts and their texts (`models/alert.go`)

    An alert is stored as a JSON object under its ID.  Reading the text of an alert
    gives the alert back, with its strings made valid UTF-8 and its times cut to a
    zone of whole minutes. -/

namespace Owasaka.Repository

open JsonText

/-! ## Section 1: Alerts -/

structure Alert where
  id : Bytes
  ruleName : Bytes
  severity : Bytes
  status : Bytes
  source : Bytes
  destination : Bytes
  mitreTactic : Bytes
  chainEvents : List Bytes
  note : Bytes
  triggeredAt : Rfc3339.Time
  updatedAt : Rfc3339.Time
  deriving DecidableEq

def Alert.zero : Alert := ⟨[], [], [], [], [], [], [], [], [], Rfc3339.zero, Rfc3339.zero⟩

/-- A string field that is left out when it is empty. -/
def omitEmpty (name : String) (s : Bytes) : List (Bytes × JsonDoc) :=
  if s = [] then [] else [(Bytes.ascii name, .str (escape s))]

/-- The document of an alert, with the texts of its times. -/
def Alert.document (a : Alert) (triggered updated : Bytes) : JsonDoc :=
  .obj ([(Bytes.ascii "id", .str (escape a.id)),
      (Bytes.ascii "rule_name", .str (escape a.ruleName)),
      (Bytes.ascii "severity", .str (escape a.severity)),
      (Bytes.ascii "status", .str (escape a.status)),
      (Bytes.ascii "source", .str (escape a.source))]
    ++ omitEmpty "destination" a.destination
    ++ omitEmpty "mitre_tactic" a.mitreTactic
    ++ (if a.chainEvents = [] then []
      else [(Bytes.ascii "chain_events", .arr (a.chainEvents.map fun s => .str (escape s)))])
    ++ omitEmpty "note" a.note
    ++ [(Bytes.ascii "triggered_at", .str triggered), (Bytes.ascii "updated_at", .str updated)])

/-- `json.Marshal` of an alert; `none` is an error. -/
def Alert.marshal (a : Alert) : Option Bytes := do
  let triggered ← Rfc3339.marshal a.triggeredAt
  let updated ← Rfc3339.marshal a.updatedAt
  some (render (a.document triggered updated))

/-- The fields by their names in JSON. -/
def alertFields : List String :=
  ["id", "rule_name", "severity", "status", "source", "destination", "mitre_tactic", "chain_events",
    "note", "triggered_at", "updated_at"]

def Alert.set (name : Bytes) (d : JsonDoc) (a : Alert) : Option Alert :=
  if name = Bytes.ascii "id" then (decodeString a.id d).map fun v => { a with id := v }
  else if name = Bytes.ascii "rule_name" then
    (decodeString a.ruleName d).map fun v => { a with ruleName := v }
  else if name = Bytes.ascii "severity" then
    (decodeString a.severity d).map fun v => { a with severity := v }
  else if name = Bytes.ascii "status" then
    (decodeString a.status d).map fun v => { a with status := v }
  else if name = Bytes.ascii "source" then
    (decodeString a.source d).map fun v => { a with source := v }
  else if name = Bytes.ascii "destination" then
    (decodeString a.destination d).map fun v => { a with destination := v }
  else if name = Bytes.ascii "mitre_tactic" then
    (decodeString a.mitreTactic d).map fun v => { a with mitreTactic := v }
  else if name = Bytes.ascii "chain_events" then
    (decodeStrings a.chainEvents d).map fun v => { a with chainEvents := v }
  else if name = Bytes.ascii "note" then
    (decodeString a.note d).map fun v => { a with note := v }
  else if name = Bytes.ascii "triggered_at" then
    (decodeTime a.triggeredAt d).map fun v => { a with triggeredAt := v }
  else (decodeTime a.updatedAt d).map fun v => { a with updatedAt := v }

/-- `json.Unmarshal` of a text into a zero alert; `none` is an error. -/
def unmarshalAlert (data : Bytes) : Option Alert :=
  (parse data).bind (decodeStruct (alertFields.map Bytes.ascii) Alert.set .zero)

/-- The alert that is read from the text of an alert. -/
def Alert.readBack (a : Alert) : Alert where
  id := Utf8.sanitize a.id
  ruleName := Utf8.sanitize a.ruleName
  severity := Utf8.sanitize a.severity
  status := Utf8.sanitize a.status
  source := Utf8.sanitize a.source
  destination := Utf8.sanitize a.destination
  mitreTactic := Utf8.sanitize a.mitreTactic
  chainEvents := a.chainEvents.map Utf8.sanitize
  note := Utf8.sanitize a.note
  triggeredAt := a.triggeredAt.toMinute
  updatedAt := a.updatedAt.toMinute

/-! ## Section 2: Reading an alert back -/

theorem alertFields_lit :
    ∀ name ∈ alertFields.map Bytes.ascii, escape name = name ∧ unquote name = some name := by
  decide +kernel

theorem isLit_alertField {s : String} (hs : s ∈ alertFields) : IsLit (Bytes.ascii s) := by
  rw [← (alertFields_lit _ (List.mem_map_of_mem hs)).1]
  exact isLit_escape _

theorem decodeMember_alertField {s : String} (hs : s ∈ alertFields) (a : Alert) (d : JsonDoc) :
    decodeMember (alertFields.map Bytes.ascii) Alert.set a (Bytes.ascii s, d)
      = Alert.set (Bytes.ascii s) d a :=
  decodeMember_of_mem (alertFields_lit _ (List.mem_map_of_mem hs)).2 (List.mem_map_of_mem hs)

theorem proper_alert (a : Alert) (t u : Rfc3339.Time) :
    Proper maxDepth (a.document (Rfc3339.format t) (Rfc3339.format u)) := by
  have homit : ∀ name ∈ alertFields, ∀ s, ∀ m ∈ omitEmpty name s,
      IsLit m.1 ∧ Proper (maxDepth - 1) m.2 := by
    intro name hname s m hm
    unfold omitEmpty at hm
    split at hm
    · simp at hm
    · rw [List.mem_singleton.mp hm]
      exact ⟨isLit_alertField hname, proper_str (isLit_escape _)⟩
  have hitems : ∀ l : List Bytes, ProperItems (maxDepth - 1 - 1) (l.map fun s => .str (escape s)) := by
    intro l
    induction l with
    | nil => trivial
    | cons s l ih => exact ⟨proper_str (isLit_escape _), ih⟩
  unfold Alert.document
  rw [Proper, properMembers_iff]
  refine ⟨by decide, ?_⟩
  intro m hm
  simp only [List.mem_append, List.mem_cons, List.not_mem_nil, or_false] at hm
  rcases hm with ((((((rfl | rfl | rfl | rfl | rfl) | hm) | hm) | hm) | hm) | rfl | rfl)
  · exact ⟨@isLit_alertField "id" (by decide), proper_str (isLit_escape _)⟩
  · exact ⟨@isLit_alertField "rule_name" (by decide), proper_str (isLit_escape _)⟩
  · exact ⟨@isLit_alertField "severity" (by decide), proper_str (isLit_escape _)⟩
  · exact ⟨@isLit_alertField "status" (by decide), proper_str (isLit_escape _)⟩
  · exact ⟨@isLit_alertField "source" (by decide), proper_str (isLit_escape _)⟩
  · exact homit "destination" (by decide) _ m hm
  · exact homit "mitre_tactic" (by decide) _ m hm
  · split at hm
    · simp at hm
    · rw [List.mem_singleton.mp hm]
      refine ⟨@isLit_alertField "chain_events" (by decide), ?_⟩
      rw [Proper]
      exact ⟨by decide, hitems _⟩
  · exact homit "note" (by decide) _ m hm
  · exact ⟨@isLit_alertField "triggered_at" (by decide), proper_str (isLit_format t)⟩
  · exact ⟨@isLit_alertField "updated_at" (by decide), proper_str (isLit_format u)⟩

/-- What is read from the document of an alert. -/
theorem decodeStruct_alert (a : Alert) {triggered updated : Bytes} {t u : Rfc3339.Time}
    (ht : Rfc3339.parse triggered = some t) (hu : Rfc3339.parse updated = some u) :
    decodeStruct (alertFields.map Bytes.ascii) Alert.set .zero (a.document triggered updated)
      = some { a.readBack with triggeredAt := t, updatedAt := u } := by
  have hid := @decodeMember_alertField "id" (by decide)
  have hrule := @decodeMember_alertField "rule_name" (by decide)
  have hseverity := @decodeMember_alertField "severity" (by decide)
  have hstatus := @decodeMember_alertField "status" (by decide)
  have hsource := @decodeMember_alertField "source" (by decide)
  have htriggered := @decodeMember_alertField "triggered_at" (by decide)
  have hupdated := @decodeMember_alertField "updated_at" (by decide)
  have hdestination : ∀ r : Alert, r.destination = [] →
      (omitEmpty "destination" a.destination).foldlM
        (decodeMember (alertFields.map Bytes.ascii) Alert.set) r
        = some { r with destination := Utf8.sanitize a.destination } := by
    intro r hr
    apply foldlM_omitString (fun v => { r with destination := v }) (decodeMember_alertField (by decide) _ _)
    · rw [← hr]
    · simp +decide [Alert.set, decodeString_escape_sanitize]
  have htactic : ∀ r : Alert, r.mitreTactic = [] →
      (omitEmpty "mitre_tactic" a.mitreTactic).foldlM
        (decodeMember (alertFields.map Bytes.ascii) Alert.set) r
        = some { r with mitreTactic := Utf8.sanitize a.mitreTactic } := by
    intro r hr
    apply foldlM_omitString (fun v => { r with mitreTactic := v }) (decodeMember_alertField (by decide) _ _)
    · rw [← hr]
    · simp +decide [Alert.set, decodeString_escape_sanitize]
  have hnote : ∀ r : Alert, r.note = [] →
      (omitEmpty "note" a.note).foldlM (decodeMember (alertFields.map Bytes.ascii) Alert.set) r
        = some { r with note := Utf8.sanitize a.note } := by
    intro r hr
    apply foldlM_omitString (fun v => { r with note := v }) (decodeMember_alertField (by decide) _ _)
    · rw [← hr]
    · simp +decide [Alert.set, decodeString_escape_sanitize]
  have hchain : ∀ r : Alert, r.chainEvents = [] →
      (if a.chainEvents = [] then []
        else [(Bytes.ascii "chain_events",
          JsonDoc.arr (a.chainEvents.map fun s => .str (escape s)))]).foldlM
        (decodeMember (alertFields.map Bytes.ascii) Alert.set) r
        = some { r with chainEvents := a.chainEvents.map Utf8.sanitize } := by
    intro r hr
    apply foldlM_omitempty (decodeMember_alertField (by decide) _ _)
    · intro hnil
      rw [hnil, List.map_nil, ← hr]
    · simp +decide [Alert.set, decodeStrings_escape]
  unfold Alert.document
  rw [decodeStruct]
  simp +decide only [List.foldlM_append, List.foldlM_cons, List.foldlM_nil, Option.bind_eq_bind, hid,
    hrule, hseverity, hstatus, hsource, htriggered, hupdated, Alert.set, decodeString_escape_sanitize,
    decodeTime, ht, hu, hdestination, htactic, hnote, hchain, Option.map_some, Option.bind_some,
    Option.pure_def, Alert.zero, Alert.readBack, if_true, if_false]

/-- **The text of an alert** is read back. -/
theorem unmarshalAlert_marshal {a : Alert} {data : Bytes} (hdata : a.marshal = some data) :
    unmarshalAlert data = some a.readBack := by
  simp only [Alert.marshal, Option.bind_eq_bind, Option.bind_eq_some_iff, Option.some.injEq] at hdata
  obtain ⟨triggered, htriggered, updated, hupdated, rfl⟩ := hdata
  obtain ⟨rfl, ht⟩ := Rfc3339.marshal_eq_some htriggered
  obtain ⟨rfl, hu⟩ := Rfc3339.marshal_eq_some hupdated
  rw [unmarshalAlert, parse_render (proper_alert a a.triggeredAt a.updatedAt), Option.bind_some,
    decodeStruct_alert a ht hu]
  rfl

end Owasaka.Repository
