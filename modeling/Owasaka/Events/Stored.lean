import Owasaka.Events.Signing
import Owasaka.Foundation.Bolt
import Owasaka.Foundation.GoValue

/-! # Stored events (`models/event.go`, `events/signer.go`, `storage/db/repository.go`)

    Events as they are: strings are bytes, the metadata are values of Go, and
    `CanonicalBytes` is what `json.Marshal` makes of them.  `LogEvent` stores the text
    of a signed event, and `GetEvent` reads it into a new one. -/

namespace Owasaka.Events.Stored

open JsonText Pki

/-! ## Section 1: Events and their texts -/

/-- `models.NetworkEvent`; the metadata are `none` for a nil map. -/
structure NetworkEvent where
  id : Bytes
  type : Bytes
  source : Bytes
  destination : Bytes
  metadata : Option (List (Bytes × GoValue))
  timestamp : Rfc3339.Time
  signature : Bytes
  signerKeyID : Bytes

def NetworkEvent.zero : NetworkEvent := ⟨[], [], [], [], none, Rfc3339.zero, [], []⟩

/-- The metadata as a value. -/
def metadataValue : Option (List (Bytes × GoValue)) → GoValue
  | none => .null
  | some entries => .map entries

/-- The document of an event, with those of its metadata and its timestamp.  Empty
    signature fields are left out. -/
def NetworkEvent.document (e : NetworkEvent) (metadata : JsonDoc) (ts : Bytes) : JsonDoc :=
  .obj ([(Bytes.ascii "id", .str (escape e.id)),
      (Bytes.ascii "type", .str (escape e.type)),
      (Bytes.ascii "source", .str (escape e.source)),
      (Bytes.ascii "destination", .str (escape e.destination)),
      (Bytes.ascii "metadata", metadata),
      (Bytes.ascii "timestamp", .str ts)]
    ++ (if e.signature = [] then [] else [(Bytes.ascii "sig", .str (Base64.encode e.signature))])
    ++ (if e.signerKeyID = [] then [] else [(Bytes.ascii "kid", .str (escape e.signerKeyID))]))

/-- `json.Marshal` of an event; `none` is an error. -/
def NetworkEvent.marshal (e : NetworkEvent) : Option Bytes := do
  let metadata ← encode (metadataValue e.metadata)
  let ts ← Rfc3339.marshal e.timestamp
  some (render (e.document metadata ts))

/-- The event without its signature fields. -/
def NetworkEvent.signable (e : NetworkEvent) : NetworkEvent :=
  { e with signature := [], signerKeyID := [] }

def NetworkEvent.canonicalBytes (e : NetworkEvent) : Option Bytes := e.signable.marshal

def NetworkEvent.withSignature (e : NetworkEvent) (sig kid : Bytes) : NetworkEvent :=
  { e with signature := sig, signerKeyID := kid }

def NetworkEvent.isSigned (e : NetworkEvent) : Bool := e.signature.length > 0 && e.signerKeyID ≠ []

/-- The fields by their names in JSON. -/
def fieldNames : List Bytes :=
  ["id", "type", "source", "destination", "metadata", "timestamp", "sig", "kid"].map Bytes.ascii

/-- A map is read into the one that is there. -/
def decodeMetadata (old : Option (List (Bytes × GoValue))) :
    JsonDoc → Option (Option (List (Bytes × GoValue)))
  | .null => some none
  | .obj members => (decodeMembers members).map fun entries => some (old.getD [] ++ entries)
  | _ => none

def NetworkEvent.set (name : Bytes) (d : JsonDoc) (e : NetworkEvent) : Option NetworkEvent :=
  if name = Bytes.ascii "id" then
    (decodeString e.id d).map fun v => { e with id := v }
  else if name = Bytes.ascii "type" then
    (decodeString e.type d).map fun v => { e with type := v }
  else if name = Bytes.ascii "source" then
    (decodeString e.source d).map fun v => { e with source := v }
  else if name = Bytes.ascii "destination" then
    (decodeString e.destination d).map fun v => { e with destination := v }
  else if name = Bytes.ascii "metadata" then
    (decodeMetadata e.metadata d).map fun v => { e with metadata := v }
  else if name = Bytes.ascii "timestamp" then
    (decodeTime e.timestamp d).map fun v => { e with timestamp := v }
  else if name = Bytes.ascii "sig" then
    (decodeBytes d).map fun v => { e with signature := v }
  else (decodeString e.signerKeyID d).map fun v => { e with signerKeyID := v }

/-- `json.Unmarshal` of a text into a zero event; `none` is an error. -/
def unmarshal (data : Bytes) : Option NetworkEvent :=
  (parse data).bind (decodeStruct fieldNames NetworkEvent.set .zero)

/-! ## Section 2: Signing, storing and verifying -/

/-- `Signer.Sign` of an event: the event afterwards, or its error. -/
def sign (ed : SignatureScheme) (env : Env) (e : NetworkEvent) : Except SignerError NetworkEvent :=
  match activeKey env purposeEventSigning with
  | .error err => .error (if err = .noActiveKey then .signerNoActiveKey else .lookupSigningKey err)
  | .ok kp =>
    match e.signable.canonicalBytes with
    | none => .error (.canonicalBytes "json")
    | some canonical =>
      .ok (e.withSignature (ed.sign kp.privateKey canonical) (Utf8.ofString kp.id))

/-- `LogEvent` into the bucket of the events; `none` is an error.  Keys of a bucket are
    neither empty nor longer than 32768 bytes, values at most 2 GiB less 2 bytes. -/
def logEvent (events : Bolt.Bucket) (e : NetworkEvent) : Option Bolt.Bucket :=
  match e.marshal with
  | none => none
  | some data =>
    if e.id = [] ∨ 32768 < e.id.length ∨ 2 ^ 31 - 2 < data.length then none
    else some (events.insert e.id data)

def getEvent (events : Bolt.Bucket) (id : Bytes) : Option NetworkEvent :=
  match events[id]? with
  | none => none
  | some data => unmarshal data

/-- `Verifier.Verify` at one reading of the clock; `verify` is `ed25519.Verify`. -/
def verify (verify : Bytes → Bytes → Bytes → Bool) (store : KeyStore) (now : Int) (e : NetworkEvent) :
    Except SignerError Unit :=
  if !e.isSigned then .error .signatureMissing
  else
    match (Utf8.toString? e.signerKeyID).bind fun id => store[id]? with
    | none => .error .signerKeyUnknown
    | some kp =>
      if !kp.isVerifyable now then .error .signerKeyRetired
      else if kp.purpose ≠ purposeEventSigning then .error .signerKeyUnknown
      else
        match e.canonicalBytes with
        | none => .error (.canonicalBytes "json")
        | some canonical =>
          if !verify kp.publicKey canonical e.signature then .error .signatureInvalid else .ok ()

/-! ## Section 3: Reading an event back -/

theorem fieldNames_lit : ∀ name ∈ fieldNames, escape name = name ∧ unquote name = some name := by
  decide +kernel

theorem isLit_field {s : String}
    (hs : s ∈ ["id", "type", "source", "destination", "metadata", "timestamp", "sig", "kid"]) :
    IsLit (Bytes.ascii s) := by
  rw [← (fieldNames_lit _ (List.mem_map_of_mem hs)).1]
  exact isLit_escape _

theorem decodeMember_field {s : String}
    (hs : s ∈ ["id", "type", "source", "destination", "metadata", "timestamp", "sig", "kid"])
    (e : NetworkEvent) (d : JsonDoc) :
    decodeMember fieldNames NetworkEvent.set e (Bytes.ascii s, d) = NetworkEvent.set (Bytes.ascii s) d e :=
  decodeMember_of_mem (fieldNames_lit _ (List.mem_map_of_mem hs)).2 (List.mem_map_of_mem hs)

/-- The document of an event is proper when that of its metadata is, one level down. -/
theorem proper_document {e : NetworkEvent} {metadata : JsonDoc} {ts : Bytes} {depth : Nat}
    (hts : IsLit ts) : Proper depth (e.document metadata ts) ↔ 0 < depth ∧ Proper (depth - 1) metadata := by
  unfold NetworkEvent.document
  rw [Proper, properMembers_iff]
  constructor
  · rintro ⟨hpos, hmembers⟩
    exact ⟨hpos, (hmembers (Bytes.ascii "metadata", metadata) (by simp)).2⟩
  · rintro ⟨hpos, hmetadata⟩
    refine ⟨hpos, fun m hm => ?_⟩
    simp only [List.mem_append, List.mem_cons, List.not_mem_nil, or_false] at hm
    rcases hm with ((rfl | rfl | rfl | rfl | rfl | rfl) | hsig) | hkid
    · exact ⟨isLit_field (s := "id") (by simp), proper_str (isLit_escape _)⟩
    · exact ⟨isLit_field (s := "type") (by simp), proper_str (isLit_escape _)⟩
    · exact ⟨isLit_field (s := "source") (by simp), proper_str (isLit_escape _)⟩
    · exact ⟨isLit_field (s := "destination") (by simp), proper_str (isLit_escape _)⟩
    · exact ⟨isLit_field (s := "metadata") (by simp), hmetadata⟩
    · exact ⟨isLit_field (s := "timestamp") (by simp), proper_str hts⟩
    · split at hsig
      · simp at hsig
      · rw [List.mem_singleton.mp hsig]
        exact ⟨isLit_field (s := "sig") (by simp), proper_str (isLit_of_stableString (stableString_base64 _))⟩
    · split at hkid
      · simp at hkid
      · rw [List.mem_singleton.mp hkid]
        exact ⟨isLit_field (s := "kid") (by simp), proper_str (isLit_escape _)⟩

/-- What is read from the document of an event. -/
theorem decodeStruct_document (e : NetworkEvent) (metadata : JsonDoc) {ts : Bytes} {t : Rfc3339.Time}
    (hts : Rfc3339.parse ts = some t) :
    decodeStruct fieldNames NetworkEvent.set .zero (e.document metadata ts)
      = (decodeMetadata none metadata).map fun m =>
        { id := Utf8.sanitize e.id, type := Utf8.sanitize e.type, source := Utf8.sanitize e.source,
          destination := Utf8.sanitize e.destination, metadata := m, timestamp := t,
          signature := e.signature, signerKeyID := Utf8.sanitize e.signerKeyID } := by
  have hid := decodeMember_field (s := "id") (by simp)
  have htype := decodeMember_field (s := "type") (by simp)
  have hsource := decodeMember_field (s := "source") (by simp)
  have hdestination := decodeMember_field (s := "destination") (by simp)
  have hmetadata := decodeMember_field (s := "metadata") (by simp)
  have htimestamp := decodeMember_field (s := "timestamp") (by simp)
  -- `omitempty`: without the member the field keeps its zero value
  have hsig : ∀ r : NetworkEvent, r.signature = [] →
      (if e.signature = [] then []
        else [(Bytes.ascii "sig", JsonDoc.str (Base64.encode e.signature))]).foldlM
          (decodeMember fieldNames NetworkEvent.set) r = some { r with signature := e.signature } := by
    intro r hempty
    apply foldlM_omitempty (decodeMember_field (s := "sig") (by simp) _ _)
    · intro hnil
      rw [hnil, ← hempty]
    · simp +decide [NetworkEvent.set, decodeBytes_base64]
  have hkid : ∀ r : NetworkEvent, r.signerKeyID = [] →
      (if e.signerKeyID = [] then []
        else [(Bytes.ascii "kid", JsonDoc.str (escape e.signerKeyID))]).foldlM
          (decodeMember fieldNames NetworkEvent.set) r
        = some { r with signerKeyID := Utf8.sanitize e.signerKeyID } := by
    intro r hempty
    apply foldlM_omitString (fun v => { r with signerKeyID := v })
      (decodeMember_field (s := "kid") (by simp) _ _)
    · rw [← hempty]
    · simp +decide [NetworkEvent.set, decodeString_escape_sanitize]
  unfold NetworkEvent.document
  rw [decodeStruct]
  -- the metadata is the one member that can refuse the document
  cases hread : decodeMetadata none metadata with
  | none =>
    simp +decide only [List.foldlM_append, List.foldlM_cons, List.foldlM_nil, Option.bind_eq_bind, hid,
      htype, hsource, hdestination, hmetadata, NetworkEvent.set, decodeString_escape_sanitize, hread,
      Option.map_some, Option.map_none, Option.bind_some, Option.bind_none, Option.pure_def,
      NetworkEvent.zero, if_true, if_false]
  | some m =>
    simp +decide only [List.foldlM_append, List.foldlM_cons, List.foldlM_nil, Option.bind_eq_bind, hid,
      htype, hsource, hdestination, hmetadata, htimestamp, NetworkEvent.set,
      decodeString_escape_sanitize, hread, decodeTime, hts, hsig, hkid, Option.map_some,
      Option.bind_some, Option.pure_def, NetworkEvent.zero, if_true, if_false]

/-! ## Section 4: The canonical bytes after storage -/

/-- What a stored event must be made of: valid strings, metadata that JSON keeps, nested
    at most as deep as a text is read, and no time zone less than a minute off UTC. -/
structure NetworkEvent.Survives (e : NetworkEvent) : Prop where
  id : Utf8.Valid e.id
  type : Utf8.Valid e.type
  source : Utf8.Valid e.source
  destination : Utf8.Valid e.destination
  metadata : JsonText.Survives (maxDepth - 1) (metadataValue e.metadata)
  timestamp : Rfc3339.zoneMinutes e.timestamp.offset = 0 → e.timestamp.offset = 0

theorem marshal_eq_some {e : NetworkEvent} {data : Bytes} : e.marshal = some data ↔
    ∃ metadata ts, encode (metadataValue e.metadata) = some metadata
      ∧ Rfc3339.marshal e.timestamp = some ts ∧ data = render (e.document metadata ts) := by
  simp only [NetworkEvent.marshal, Option.bind_eq_bind, Option.bind_eq_some_iff, Option.some.injEq]
  constructor
  · rintro ⟨metadata, hmetadata, ts, hts, rfl⟩
    exact ⟨metadata, ts, hmetadata, hts, rfl⟩
  · rintro ⟨metadata, ts, hmetadata, hts, rfl⟩
    exact ⟨metadata, hmetadata, ts, hts, rfl⟩

theorem document_proper {e : NetworkEvent} {metadata : JsonDoc} {ts : Bytes}
    (hmetadata : encode (metadataValue e.metadata) = some metadata)
    (hts : Rfc3339.marshal e.timestamp = some ts) : ∃ depth, Proper depth (e.document metadata ts) := by
  obtain ⟨depth, hdepth⟩ := encode_proper _ _ hmetadata
  obtain ⟨rfl, _⟩ := Rfc3339.marshal_eq_some hts
  exact ⟨depth + 1, (proper_document (isLit_format _)).mpr ⟨Nat.succ_pos _, hdepth⟩⟩

/-- The metadata that are read are the value that is read. -/
theorem decodeMetadata_value {m : Option (List (Bytes × GoValue))} {metadata : JsonDoc}
    (hmetadata : encode (metadataValue m) = some metadata) :
    (decodeMetadata none metadata).map metadataValue = decodeAny metadata := by
  cases m with
  | none =>
    rw [metadataValue, encode, Option.some.injEq] at hmetadata
    rw [← hmetadata, decodeMetadata, decodeAny]
    rfl
  | some entries =>
    rw [metadataValue, encode, Option.map_eq_some_iff] at hmetadata
    obtain ⟨es, _, rfl⟩ := hmetadata
    rw [object, decodeMetadata, decodeAny, Option.map_map]
    rfl

/-- The documents of two unsigned events are the same when their parts are. -/
theorem document_signable_inj {e e' : NetworkEvent} {metadata metadata' : JsonDoc} {ts ts' : Bytes} :
    e.signable.document metadata ts = e'.signable.document metadata' ts' ↔
      escape e.id = escape e'.id ∧ escape e.type = escape e'.type ∧ escape e.source = escape e'.source
        ∧ escape e.destination = escape e'.destination ∧ metadata = metadata' ∧ ts = ts' := by
  simp [NetworkEvent.document, NetworkEvent.signable]

/-- The event that is read from the text of an event. -/
def NetworkEvent.readBack (e : NetworkEvent) (m : Option (List (Bytes × GoValue))) : NetworkEvent :=
  { id := Utf8.sanitize e.id, type := Utf8.sanitize e.type, source := Utf8.sanitize e.source,
    destination := Utf8.sanitize e.destination, metadata := m, timestamp := e.timestamp.toMinute,
    signature := e.signature, signerKeyID := Utf8.sanitize e.signerKeyID }

/-- A text is read when it is not nested too deep and its metadata can be read. -/
theorem unmarshal_render {e : NetworkEvent} {metadata : JsonDoc} {ts : Bytes}
    (hmetadata : encode (metadataValue e.metadata) = some metadata)
    (hts : Rfc3339.marshal e.timestamp = some ts) (e' : NetworkEvent) :
    unmarshal (render (e.document metadata ts)) = some e' ↔
      Proper (maxDepth - 1) metadata ∧ ∃ m, decodeMetadata none metadata = some m ∧ e' = e.readBack m := by
  obtain ⟨rfl, hparse⟩ := Rfc3339.marshal_eq_some hts
  have hlit := isLit_format e.timestamp
  obtain ⟨depth, hsome⟩ := document_proper hmetadata hts
  rw [unmarshal, Option.bind_eq_some_iff]
  constructor
  · rintro ⟨d, hd, hdecode⟩
    have hproper := proper_of_parse hd
    rw [parse_render_eq hsome hd] at hproper hdecode
    rw [decodeStruct_document e metadata hparse, Option.map_eq_some_iff] at hdecode
    obtain ⟨m, hm, heq⟩ := hdecode
    exact ⟨((proper_document hlit).mp hproper).2, m, hm, heq.symm⟩
  · rintro ⟨hproper, m, hm, rfl⟩
    have hmax : Proper maxDepth (e.document metadata (Rfc3339.format e.timestamp)) :=
      (proper_document hlit).mpr ⟨by decide, hproper⟩
    refine ⟨_, parse_render hmax, ?_⟩
    rw [decodeStruct_document e metadata hparse, hm]
    rfl

/-- Two events have the same canonical bytes exactly when their parts are written in the
    same way. -/
theorem canonicalBytes_eq_iff {e e' : NetworkEvent} {metadata : JsonDoc} {ts : Bytes}
    (hmetadata : encode (metadataValue e.metadata) = some metadata)
    (hts : Rfc3339.marshal e.timestamp = some ts) :
    e'.canonicalBytes = some (render (e.signable.document metadata ts)) ↔
      escape e'.id = escape e.id ∧ escape e'.type = escape e.type ∧ escape e'.source = escape e.source
        ∧ escape e'.destination = escape e.destination ∧ encode (metadataValue e'.metadata) = some metadata
        ∧ Rfc3339.marshal e'.timestamp = some ts := by
  rw [NetworkEvent.canonicalBytes, marshal_eq_some]
  constructor
  · rintro ⟨metadata', ts', hmetadata', hts', heq⟩
    obtain ⟨_, hold⟩ := document_proper (e := e.signable) hmetadata hts
    obtain ⟨_, hnew⟩ := document_proper (e := e'.signable) hmetadata' hts'
    obtain ⟨hid, htype, hsource, hdestination, rfl, rfl⟩ :=
      document_signable_inj.mp (render_inj hold hnew heq)
    exact ⟨hid.symm, htype.symm, hsource.symm, hdestination.symm, hmetadata', hts'⟩
  · rintro ⟨hid, htype, hsource, hdestination, hmetadata', hts'⟩
    refine ⟨metadata, ts, hmetadata', hts', congrArg render (document_signable_inj.mpr ?_)⟩
    exact ⟨hid.symm, htype.symm, hsource.symm, hdestination.symm, rfl, rfl⟩

/-- The canonical bytes of what was read are the same when its parts are. -/
theorem canonicalBytes_readBack {e : NetworkEvent} {metadata : JsonDoc} {ts : Bytes}
    {m : Option (List (Bytes × GoValue))} (hmetadata : encode (metadataValue e.metadata) = some metadata)
    (hts : Rfc3339.marshal e.timestamp = some ts) (hm : decodeMetadata none metadata = some m) :
    (e.readBack m).canonicalBytes = some (render (e.signable.document metadata ts)) ↔
      Utf8.Valid e.id ∧ Utf8.Valid e.type ∧ Utf8.Valid e.source ∧ Utf8.Valid e.destination
        ∧ Stable metadata ∧ (Rfc3339.zoneMinutes e.timestamp.offset = 0 → e.timestamp.offset = 0) := by
  have hstable : encode (metadataValue m) = some metadata ↔ Stable metadata := by
    have hany := decodeMetadata_value hmetadata
    rw [hm, Option.map_some] at hany
    rw [← reencode_iff, ← hany, Option.bind_some]
  rw [canonicalBytes_eq_iff hmetadata hts, ← hstable, ← Rfc3339.marshal_toMinute hts,
    ← escape_sanitize_iff, ← escape_sanitize_iff, ← escape_sanitize_iff, ← escape_sanitize_iff]
  rfl

/-- **The canonical bytes after storage** are those that were signed exactly when the
    event survives. -/
theorem canonicalBytes_stored {e : NetworkEvent} {canonical data sig kid : Bytes}
    (hcanonical : e.canonicalBytes = some canonical)
    (hdata : (e.withSignature sig kid).marshal = some data) :
    (∃ m, unmarshal data = some ((e.withSignature sig kid).readBack m)
        ∧ (e.readBack m).canonicalBytes = some canonical) ↔ e.Survives := by
  obtain ⟨metadata, ts, hmetadata, hts, rfl⟩ := marshal_eq_some.mp hcanonical
  obtain ⟨metadata', ts', hmetadata', hts', rfl⟩ := marshal_eq_some.mp hdata
  obtain rfl : metadata = metadata' := Option.some.inj (hmetadata.symm.trans hmetadata')
  obtain rfl : ts = ts' := Option.some.inj (hts.symm.trans hts')
  have hunmarshal := fun m => unmarshal_render hmetadata' hts' ((e.withSignature sig kid).readBack m)
  constructor
  · rintro ⟨m, hread, hbytes⟩
    obtain ⟨hproper, m', hm', heq⟩ := (hunmarshal m).mp hread
    obtain rfl : m = m' := congrArg NetworkEvent.metadata heq
    obtain ⟨hid, htype, hsource, hdestination, hstable, htime⟩ :=
      (canonicalBytes_readBack hmetadata hts hm').mp hbytes
    exact ⟨hid, htype, hsource, hdestination, (survives_iff _ _ _ hmetadata).mpr ⟨hproper, hstable⟩, htime⟩
  · intro hsurvives
    obtain ⟨hproper, hstable⟩ := (survives_iff _ _ _ hmetadata).mp hsurvives.metadata
    have hany := decodeMetadata_value hmetadata
    have hsame := (reencode_iff metadata).mpr hstable
    rw [← hany, Option.bind_eq_some_iff] at hsame
    obtain ⟨v, hv, _⟩ := hsame
    obtain ⟨m, hm, _⟩ := Option.map_eq_some_iff.mp hv
    refine ⟨m, (hunmarshal m).mpr ⟨hproper, m, hm, rfl⟩, (canonicalBytes_readBack hmetadata hts hm).mpr ?_⟩
    exact ⟨hsurvives.id, hsurvives.type, hsurvives.source, hsurvives.destination, hstable,
      hsurvives.timestamp⟩

/-! ## Section 5: Verification after storage -/

theorem sign_eq_ok {ed : SignatureScheme} {env : Env} {e signed : NetworkEvent} :
    sign ed env e = .ok signed ↔
      ∃ kp canonical, activeKey env purposeEventSigning = .ok kp ∧ e.canonicalBytes = some canonical
        ∧ signed = e.withSignature (ed.sign kp.privateKey canonical) (Utf8.ofString kp.id) := by
  have hsame : e.signable.canonicalBytes = e.canonicalBytes := rfl
  unfold sign
  cases activeKey env purposeEventSigning with
  | error err => simp
  | ok kp =>
    rw [hsame]
    cases e.canonicalBytes with
    | none => simp
    | some canonical => simp [eq_comm]

theorem verify_eq_ok {ver : Bytes → Bytes → Bytes → Bool} {store : KeyStore} {now : Int}
    {e : NetworkEvent} : verify ver store now e = .ok () ↔
      e.signature ≠ [] ∧ e.signerKeyID ≠ []
        ∧ ∃ kp canonical, (Utf8.toString? e.signerKeyID).bind (fun id => store[id]?) = some kp
          ∧ kp.isVerifyable now = true ∧ kp.purpose = purposeEventSigning
          ∧ e.canonicalBytes = some canonical ∧ ver kp.publicKey canonical e.signature = true := by
  unfold verify NetworkEvent.isSigned
  by_cases hsig : e.signature = []
  · simp [hsig]
  · have hpos : 0 < e.signature.length := List.length_pos_iff.mpr hsig
    by_cases hid : e.signerKeyID = []
    · simp [hid]
    · cases hget : (Utf8.toString? e.signerKeyID).bind (fun id => store[id]?) with
      | none => simp [hsig, hpos, hid]
      | some kp =>
        by_cases hver : kp.isVerifyable now = true
        · by_cases hpurpose : kp.purpose = purposeEventSigning
          · cases hcanonical : e.canonicalBytes with
            | none => simp [hsig, hpos, hid, hver, hpurpose]
            | some canonical => simp [hsig, hpos, hid, hver, hpurpose]
          · simp [hsig, hpos, hid, hver, hpurpose]
        · simp [hsig, hpos, hid, hver]

theorem ofString_ne_nil {s : String} (hs : s ≠ "") : Utf8.ofString s ≠ [] := by
  intro heq
  have hread := Utf8.toString?_ofString s
  rw [heq] at hread
  exact hs (Option.some.inj hread).symm

/-- What is stored is what is read under its ID. -/
theorem logEvent_eq_some {events events' : Bolt.Bucket} {e : NetworkEvent}
    (hlog : logEvent events e = some events') :
    ∃ data, e.marshal = some data ∧ ∀ e', getEvent events' e.id = some e' ↔ unmarshal data = some e' := by
  unfold logEvent at hlog
  split at hlog
  · simp at hlog
  · next data hdata =>
    split at hlog
    · simp at hlog
    · refine ⟨data, hdata, fun e' => ?_⟩
      rw [← Option.some.inj hlog, getEvent, Std.ExtTreeMap.getElem?_insert_self]

/-- An event that carries a signature is verified with the key that it names, on its own
    bytes. -/
theorem verify_iff_canonicalBytes {ed : SignatureScheme} {store : KeyStore} {now : Int} {e : NetworkEvent}
    {kp : KeyPair} {canonical : Bytes} (hget : store[kp.id]? = some kp) (hsized : ed.Sized)
    (hbinds : ed.Binds kp.privateKey canonical) (hne : kp.id ≠ "")
    (hpublic : kp.publicKey = ed.publicKey kp.privateKey) (hver : kp.isVerifyable now = true)
    (hpurpose : kp.purpose = purposeEventSigning) (hsig : e.signature = ed.sign kp.privateKey canonical)
    (hkid : e.signerKeyID = Utf8.ofString kp.id) :
    verify ed.verify store now e = .ok () ↔ e.canonicalBytes = some canonical := by
  rw [verify_eq_ok, hkid, hsig, Utf8.toString?_ofString, Option.bind_some, hget]
  constructor
  · rintro ⟨_, _, kp', canonical', hkp, _, _, hcanonical, hok⟩
    rw [← Option.some.inj hkp, hpublic] at hok
    rw [hcanonical, (hbinds canonical').mp hok]
  · intro hcanonical
    refine ⟨hsized.ne_nil _ _, ofString_ne_nil hne, kp, canonical, rfl, hver, hpurpose, hcanonical, ?_⟩
    rw [hpublic]
    exact (hbinds canonical).mpr rfl

/-- The event that was signed with a key and stored verifies exactly when it survives. -/
theorem getEvent_verifies_iff {ed : SignatureScheme} {store : KeyStore} {now : Int} {e : NetworkEvent}
    {events events' : Bolt.Bucket} {kp : KeyPair} {canonical : Bytes} (hget : store[kp.id]? = some kp)
    (hsized : ed.Sized) (hbinds : ed.Binds kp.privateKey canonical) (hne : kp.id ≠ "")
    (hpublic : kp.publicKey = ed.publicKey kp.privateKey) (hver : kp.isVerifyable now = true)
    (hpurpose : kp.purpose = purposeEventSigning) (hcanonical : e.canonicalBytes = some canonical)
    (hlog : logEvent events (e.withSignature (ed.sign kp.privateKey canonical) (Utf8.ofString kp.id))
      = some events') :
    (∃ e', getEvent events' e.id = some e' ∧ verify ed.verify store now e' = .ok ()) ↔ e.Survives := by
  obtain ⟨data, hdata, hstored⟩ := logEvent_eq_some hlog
  have hverify := fun m => verify_iff_canonicalBytes hget hsized hbinds hne hpublic hver hpurpose
    (e := (e.withSignature (ed.sign kp.privateKey canonical) (Utf8.ofString kp.id)).readBack m) rfl
    (Utf8.sanitize_of_valid (Utf8.valid_ofString kp.id))
  rw [← canonicalBytes_stored hcanonical hdata]
  constructor
  · rintro ⟨e', hread, hok⟩
    have hread := (hstored e').mp hread
    obtain ⟨metadata, ts, hmetadata, hts, rfl⟩ := marshal_eq_some.mp hdata
    obtain ⟨_, m, _, rfl⟩ := (unmarshal_render hmetadata hts _).mp hread
    exact ⟨m, hread, (hverify m).mp hok⟩
  · rintro ⟨m, hread, hbytes⟩
    exact ⟨_, (hstored _).mpr hread, (hverify m).mpr hbytes⟩

/-- **A signed event verifies after storage** exactly when it survives it: whatever
    happens to the keys in between, while the key it was signed with is verifyable. -/
theorem stored_event_verifies_iff {ed : SignatureScheme} {env : Env} {s s' : AuthorityState}
    {e signed : NetworkEvent} {events events' : Bolt.Bucket} {now : Int} (hsized : ed.Sized)
    (hreach : (authoritySystem ed).Reachable s) (horder : s.store.Order env.order)
    (hsign : sign ed env e = .ok signed)
    (hbinds : ∀ kp canonical, activeKey env purposeEventSigning = .ok kp →
      e.canonicalBytes = some canonical → ed.Binds kp.privateKey canonical)
    (hlog : logEvent events signed = some events') (hrun : (authoritySystem ed).Steps s s')
    (hver : ∀ kp kp', activeKey env purposeEventSigning = .ok kp → s'.store[kp.id]? = some kp' →
      kp'.isVerifyable now = true) :
    (∃ e', getEvent events' e.id = some e' ∧ verify ed.verify s'.store now e' = .ok ()) ↔ e.Survives := by
  have hkept := wellKept_of_reachable hreach
  obtain ⟨kp, canonical, hkey, hcanonical, rfl⟩ := sign_eq_ok.mp hsign
  obtain ⟨hget, hne, hpurpose, _, hpublic⟩ := activeKey_ok hkept horder hkey
  obtain ⟨st, hget'⟩ := (keysStay_of_steps hkept hrun).2 kp.id kp hget
  exact @getEvent_verifies_iff ed s'.store now e events events' { kp with status := st } canonical hget' hsized
    (hbinds kp canonical hkey hcanonical) hne hpublic (hver kp _ hkey hget') hpurpose hcanonical hlog

/-! ## Section 6: A source that is not UTF-8 -/

def eventPrivate : Bytes := Bytes.bigEndian 64
  0x0303030303030303030303030303030303030303030303030303030303030303ed4928c628d1c2c6eae90338905995612959273a5c63f93636c14614ac8737d1

/-- A key for events, generated at time zero for a day. -/
def eventKey : KeyPair :=
  ⟨"event-key", purposeEventSigning, eventPrivate.drop 32, eventPrivate, .active, 0, 0, 24 * 3600 * 10 ^ 9⟩

def eventStore : KeyStore := (∅ : KeyStore).insert "event-key" eventKey

/-- The environment of a call that takes the key. -/
def eventEnv : Env := quietEnv 0 [eventKey] "" []

theorem eventStore_reachable (sigs : List ((Bytes × Bytes) × Bytes)) :
    (authoritySystem (.knownSized sigs)).Reachable ⟨eventStore, 0⟩ := by
  have hnone : (authoritySystem (.knownSized sigs)).Reachable ⟨∅, 0⟩ := System.Reachable.init rfl
  exact hnone.tail
    (l := (.generateKeyPair purposeEventSigning (24 * 3600 * 10 ^ 9),
      quietEnv 0 [] "event-key" eventPrivate))
    ⟨.refl _, by decide, by simp [quietEnv], rfl⟩

theorem eventStore_order : eventStore.Order eventEnv.order := .refl _

def dnsMetadata : List (Bytes × GoValue) :=
  [(Bytes.ascii "query", .str (Bytes.ascii "example.org")), (Bytes.ascii "port", .int 53)]

/-- A query for `example.org` at the epoch, from this source. -/
def dnsEvent (source : Bytes) : NetworkEvent :=
  ⟨Bytes.ascii "e1", Bytes.ascii "DNS", source, [], some dnsMetadata, ⟨0, 0⟩, [], []⟩

/-- The canonical bytes of the query, with the literal of its source. -/
def dnsText (source : String) : Bytes :=
  Bytes.ascii "\x7b\"id\":\"e1\",\"type\":\"DNS\",\"source\":\"" ++ Bytes.ascii source
    ++ Bytes.ascii "\",\"destination\":\"\",\"metadata\":\x7b\"port\":53,\"query\":\"example.org\"\x7d,"
    ++ Bytes.ascii "\"timestamp\":\"1970-01-01T00:00:00Z\"\x7d"

theorem canonicalBytes_dnsEvent :
    (dnsEvent (Bytes.ascii "10.0.0.1")).canonicalBytes = some (dnsText "10.0.0.1")
      ∧ (dnsEvent [0xff]).canonicalBytes = some (dnsText "\\ufffd") := by
  decide +kernel

/-- Ed25519 on the query from `10.0.0.1`. -/
def dnsSignature : Bytes := Bytes.bigEndian 64
  0x639efbaa6384e5f73ada2631b63064a3e64db9ff67c97fb8818b9ae2be1f0bfba34ef7a48725ae71c43676d694c7295bed7ca0ff9cca966abf22bb506255750f

/-- Ed25519 on the query from a source that is not UTF-8. -/
def invalidSignature : Bytes := Bytes.bigEndian 64
  0x842788b87fc4930c3818f0a6bf3d237b5e6e5234a4f4ea358d374fb492480908d20aa2207f42082cbfedf4fbbfde2f5802173067d59991c751ae9a428cbc7a06

/-- Ed25519 on one text. -/
def eventScheme (text sig : Bytes) : SignatureScheme :=
  .knownSized [((eventPrivate.drop 32, text), sig)]

theorem eventScheme_sized {text sig : Bytes} (hsig : sig.length = 64) : (eventScheme text sig).Sized :=
  SignatureScheme.knownSized_sized (by simpa using hsig)

theorem eventScheme_sign (text sig : Bytes) : (eventScheme text sig).sign eventPrivate text = sig := by
  simp [eventScheme, SignatureScheme.knownSized, SignatureScheme.ofPublic]

theorem sign_dnsEvent {source text : Bytes} (sig : Bytes)
    (htext : (dnsEvent source).canonicalBytes = some text) :
    sign (eventScheme text sig) eventEnv (dnsEvent source)
      = .ok ((dnsEvent source).withSignature sig (Utf8.ofString "event-key")) := by
  refine sign_eq_ok.mpr ⟨eventKey, text, rfl, htext, ?_⟩
  rw [show eventKey.privateKey = eventPrivate from rfl, eventScheme_sign]
  rfl

theorem survives_dnsEvent : (dnsEvent (Bytes.ascii "10.0.0.1")).Survives := by
  have hport : StableNumber (intText 53) := by
    have hread : (parseFloat binary64 (intText 53)).map floatText = some (intText 53) := by decide +kernel
    exact Option.map_eq_some_iff.mp hread
  have hmetadata : JsonText.Survives (maxDepth - 1) (metadataValue (some dnsMetadata)) := by
    simp only [metadataValue, dnsMetadata, JsonText.Survives, SurviveEntries]
    exact ⟨by decide, .inr ⟨by decide, by decide⟩, .inr ⟨by decide, hport⟩, trivial⟩
  exact ⟨by decide, by decide, by decide, by decide, hmetadata, fun _ => rfl⟩

theorem stored_event_verifies_iff_dns :
    ∃ events' e', logEvent ∅ ((dnsEvent (Bytes.ascii "10.0.0.1")).withSignature dnsSignature
        (Utf8.ofString "event-key")) = some events'
      ∧ getEvent events' (Bytes.ascii "e1") = some e'
      ∧ verify (eventScheme (dnsText "10.0.0.1") dnsSignature).verify eventStore 3600 e' = .ok () := by
  -- the writes succeed; what they store is not computed
  have hstored : (logEvent ∅ ((dnsEvent (Bytes.ascii "10.0.0.1")).withSignature dnsSignature
      (Utf8.ofString "event-key"))).isSome = true := by decide +kernel
  obtain ⟨events', hlog⟩ := Option.isSome_iff_exists.mp hstored
  have hkey : ∀ kp, activeKey eventEnv purposeEventSigning = .ok kp → kp = eventKey := by
    intro kp hkp
    exact (Except.ok.inj hkp).symm
  have hverifies : (∃ e', getEvent events' (Bytes.ascii "e1") = some e'
      ∧ verify (eventScheme (dnsText "10.0.0.1") dnsSignature).verify eventStore 3600 e' = .ok ()) ↔
        (dnsEvent (Bytes.ascii "10.0.0.1")).Survives := stored_event_verifies_iff
    (eventScheme_sized (by simp [dnsSignature])) (eventStore_reachable _) eventStore_order
    (sign_dnsEvent dnsSignature canonicalBytes_dnsEvent.1)
    (by
      intro kp canonical hkp hcanonical
      obtain rfl := hkey kp hkp
      rw [canonicalBytes_dnsEvent.1, Option.some.injEq] at hcanonical
      rw [← hcanonical]
      exact SignatureScheme.knownSized_binds (by decide))
    hlog (.refl _)
    (by
      intro kp kp' hkp hget
      obtain rfl := hkey kp hkp
      obtain rfl : eventKey = kp' := Option.some.inj hget
      decide)
  obtain ⟨e', hread, hok⟩ := hverifies.mpr survives_dnsEvent
  exact ⟨events', e', hlog, hread, hok⟩

/-- The query from a source that is not UTF-8 is signed and stored, and does not verify
    any more. -/
theorem invalid_source_refused_after_storage :
    ∃ events', sign (eventScheme (dnsText "\\ufffd") invalidSignature) eventEnv (dnsEvent [0xff])
        = .ok ((dnsEvent [0xff]).withSignature invalidSignature (Utf8.ofString "event-key"))
      ∧ logEvent ∅ ((dnsEvent [0xff]).withSignature invalidSignature (Utf8.ofString "event-key"))
        = some events'
      ∧ eventKey.isVerifyable 3600 = true
      ∧ ¬ ∃ e', getEvent events' (Bytes.ascii "e1") = some e'
        ∧ verify (eventScheme (dnsText "\\ufffd") invalidSignature).verify eventStore 3600 e' = .ok () := by
  have hstored : (logEvent ∅ ((dnsEvent [0xff]).withSignature invalidSignature
      (Utf8.ofString "event-key"))).isSome = true := by decide +kernel
  obtain ⟨events', hlog⟩ := Option.isSome_iff_exists.mp hstored
  have hsign := sign_dnsEvent invalidSignature canonicalBytes_dnsEvent.2
  refine ⟨events', hsign, hlog, by decide, fun hverifies => ?_⟩
  have hsurvives := (getEvent_verifies_iff (e := dnsEvent [0xff])
    (show eventStore[eventKey.id]? = some eventKey from rfl)
    (eventScheme_sized (by simp [invalidSignature])) (SignatureScheme.knownSized_binds (by decide))
    (by decide) rfl (by decide) rfl canonicalBytes_dnsEvent.2
    (by rw [show eventKey.privateKey = eventPrivate from rfl, eventScheme_sign]; exact hlog)).mp hverifies
  exact absurd hsurvives.source (by decide)

end Owasaka.Events.Stored
