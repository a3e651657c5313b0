import Owasaka.Foundation.JsonStruct
import Owasaka.Foundation.Sha256

/-! # Audit entries (`integrity/auditlog.go`)

    An entry is one line of JSON.  Its hash covers its fields and the hash of the
    entry before it, joined by `|`; `Verify` decodes the lines of a file and checks
    the chain of the hashes. -/

namespace Owasaka.Integrity

open JsonText

/-! ## Section 1: Entries -/

structure AuditEntry where
  sequence : UInt64
  timestamp : Rfc3339.Time
  action : Bytes
  subject : Bytes
  details : Bytes
  prevHash : Bytes
  hash : Bytes
  deriving DecidableEq

/-- The zero value, into which a line is decoded. -/
def AuditEntry.zero : AuditEntry := ⟨0, Rfc3339.zero, [], [], [], [], []⟩

/-- What the hash covers. -/
def AuditEntry.payload (e : AuditEntry) : Bytes :=
  Bytes.decimal e.sequence.toNat ++ 0x7c :: (Rfc3339.format e.timestamp ++ 0x7c :: (e.action
    ++ 0x7c :: (e.subject ++ 0x7c :: (e.details ++ 0x7c :: e.prevHash))))

def computeEntryHash (e : AuditEntry) : Bytes := Hex.encode (Sha256.sum e.payload).toList

/-- The document of an entry; `ts` is the text of its timestamp.  Empty details are
    left out. -/
def AuditEntry.document (e : AuditEntry) (ts : Bytes) : JsonDoc :=
  .obj ([(Bytes.ascii "seq", .num (Bytes.decimal e.sequence.toNat)),
      (Bytes.ascii "ts", .str ts),
      (Bytes.ascii "action", .str (escape e.action)),
      (Bytes.ascii "subject", .str (escape e.subject))]
    ++ (if e.details = [] then [] else [(Bytes.ascii "details", .str (escape e.details))])
    ++ [(Bytes.ascii "prev_hash", .str (escape e.prevHash)),
      (Bytes.ascii "hash", .str (escape e.hash))])

/-- `json.Marshal` of an entry; `none` is an error. -/
def AuditEntry.marshal (e : AuditEntry) : Option Bytes :=
  (Rfc3339.marshal e.timestamp).map fun ts => render (e.document ts)

/-- The fields by their names in JSON. -/
def fieldNames : List Bytes :=
  ["seq", "ts", "action", "subject", "details", "prev_hash", "hash"].map Bytes.ascii

def AuditEntry.set (name : Bytes) (d : JsonDoc) (e : AuditEntry) : Option AuditEntry :=
  if name = Bytes.ascii "seq" then
    (decodeUint64 e.sequence d).map fun v => { e with sequence := v }
  else if name = Bytes.ascii "ts" then
    (decodeTime e.timestamp d).map fun v => { e with timestamp := v }
  else if name = Bytes.ascii "action" then
    (decodeString e.action d).map fun v => { e with action := v }
  else if name = Bytes.ascii "subject" then
    (decodeString e.subject d).map fun v => { e with subject := v }
  else if name = Bytes.ascii "details" then
    (decodeString e.details d).map fun v => { e with details := v }
  else if name = Bytes.ascii "prev_hash" then
    (decodeString e.prevHash d).map fun v => { e with prevHash := v }
  else (decodeString e.hash d).map fun v => { e with hash := v }

/-- `json.Unmarshal` of a line into a zero entry; `none` is an error. -/
def unmarshalEntry (line : Bytes) : Option AuditEntry :=
  (parse line).bind (decodeStruct fieldNames AuditEntry.set .zero)

/-! ## Section 2: Verification -/

/-- The lines of a file, with a last one that is not ended. -/
def splitLinesFrom (line : Bytes) : Bytes → List Bytes
  | [] => if line = [] then [] else [line]
  | b :: data => if b = 0x0a then line :: splitLinesFrom [] data else splitLinesFrom (line ++ [b]) data

def splitLines (data : Bytes) : List Bytes := splitLinesFrom [] data

/-- The first hash in a chain. -/
def genesis : Bytes := Bytes.ascii "genesis"

inductive VerifyError where
  | corruptEntry
  | chainBroken (seq : UInt64) (expected got : Bytes)
  | tamperedEntry (seq : UInt64) (expected got : Bytes)
  deriving DecidableEq

/-- The entries of a list of lines; `none` when one cannot be decoded. -/
def readEntries : List Bytes → Option (List AuditEntry)
  | [] => some []
  | line :: lines =>
    if line = [] then readEntries lines
    else
      match unmarshalEntry line with
      | none => none
      | some e => (readEntries lines).map fun es => e :: es

def checkChain : Bytes → List AuditEntry → Except VerifyError Unit
  | _, [] => .ok ()
  | prevHash, e :: es =>
    if e.prevHash ≠ prevHash then .error (.chainBroken e.sequence prevHash e.prevHash)
    else if e.hash ≠ computeEntryHash e then
      .error (.tamperedEntry e.sequence (computeEntryHash e) e.hash)
    else checkChain e.hash es

/-- `Verify` of a file with this content. -/
def verify (data : Bytes) : Except VerifyError Unit :=
  match readEntries (splitLines data) with
  | none => .error .corruptEntry
  | some entries => checkChain genesis entries

/-! ## Section 3: Reading an entry back -/

/-- The names of the fields are their own literals. -/
theorem fieldNames_lit : ∀ name ∈ fieldNames, escape name = name ∧ unquote name = some name := by
  decide +kernel

theorem isLit_field {s : String}
    (hs : s ∈ ["seq", "ts", "action", "subject", "details", "prev_hash", "hash"]) : IsLit (Bytes.ascii s) := by
  rw [← (fieldNames_lit _ (List.mem_map_of_mem hs)).1]
  exact isLit_escape _

theorem decodeMember_field {s : String}
    (hs : s ∈ ["seq", "ts", "action", "subject", "details", "prev_hash", "hash"]) (e : AuditEntry)
    (d : JsonDoc) :
    decodeMember fieldNames AuditEntry.set e (Bytes.ascii s, d) = AuditEntry.set (Bytes.ascii s) d e :=
  decodeMember_of_mem (fieldNames_lit _ (List.mem_map_of_mem hs)).2 (List.mem_map_of_mem hs)

theorem proper_document (e : AuditEntry) (t : Rfc3339.Time) :
    Proper maxDepth (e.document (Rfc3339.format t)) := by
  unfold AuditEntry.document
  rw [Proper, properMembers_iff]
  refine ⟨by decide, fun m hm => ?_⟩
  simp only [List.mem_append, List.mem_cons, List.not_mem_nil, or_false] at hm
  rcases hm with ((rfl | rfl | rfl | rfl) | hdetails) | rfl | rfl
  · exact ⟨isLit_field (s := "seq") (by simp), proper_decimal _ _⟩
  · exact ⟨isLit_field (s := "ts") (by simp), proper_str (isLit_format t)⟩
  · exact ⟨isLit_field (s := "action") (by simp), proper_str (isLit_escape _)⟩
  · exact ⟨isLit_field (s := "subject") (by simp), proper_str (isLit_escape _)⟩
  · split at hdetails
    · simp at hdetails
    · rw [List.mem_singleton.mp hdetails]
      exact ⟨isLit_field (s := "details") (by simp), proper_str (isLit_escape _)⟩
  · exact ⟨isLit_field (s := "prev_hash") (by simp), proper_str (isLit_escape _)⟩
  · exact ⟨isLit_field (s := "hash") (by simp), proper_str (isLit_escape _)⟩

/-- The texts of an entry are valid UTF-8. -/
structure AuditEntry.Valid (e : AuditEntry) : Prop where
  action : Utf8.Valid e.action
  subject : Utf8.Valid e.subject
  details : Utf8.Valid e.details
  prevHash : Utf8.Valid e.prevHash
  hash : Utf8.Valid e.hash

/-- Entries that were decoded: their texts are valid, and their offset is whole minutes. -/
structure AuditEntry.Decoded (e : AuditEntry) : Prop extends e.Valid where
  offset : 60 ∣ e.timestamp.offset

theorem set_decoded {name : Bytes} {d : JsonDoc} {e e' : AuditEntry} (he : e.Decoded)
    (hset : e.set name d = some e') : e'.Decoded := by
  unfold AuditEntry.set at hset
  split_ifs at hset
  all_goals
    rw [Option.map_eq_some_iff] at hset
    obtain ⟨v, hv, rfl⟩ := hset
  · exact ⟨⟨he.action, he.subject, he.details, he.prevHash, he.hash⟩, he.offset⟩
  · exact ⟨⟨he.action, he.subject, he.details, he.prevHash, he.hash⟩, decodeTime_dvd he.offset hv⟩
  · exact ⟨⟨decodeString_valid he.action hv, he.subject, he.details, he.prevHash, he.hash⟩, he.offset⟩
  · exact ⟨⟨he.action, decodeString_valid he.subject hv, he.details, he.prevHash, he.hash⟩, he.offset⟩
  · exact ⟨⟨he.action, he.subject, decodeString_valid he.details hv, he.prevHash, he.hash⟩, he.offset⟩
  · exact ⟨⟨he.action, he.subject, he.details, decodeString_valid he.prevHash hv, he.hash⟩, he.offset⟩
  · exact ⟨⟨he.action, he.subject, he.details, he.prevHash, decodeString_valid he.hash hv⟩, he.offset⟩

theorem unmarshalEntry_decoded {line : Bytes} {e : AuditEntry} (hread : unmarshalEntry line = some e) :
    e.Decoded := by
  rw [unmarshalEntry, Option.bind_eq_some_iff] at hread
  obtain ⟨d, _, hdecode⟩ := hread
  have hempty : Utf8.Valid [] := by decide
  exact decodeStruct_invariant (P := AuditEntry.Decoded)
    ⟨⟨hempty, hempty, hempty, hempty, hempty⟩, Int.dvd_zero 60⟩
    (fun _ _ _ _ => set_decoded) hdecode

/-- **A marshalled entry is read back.** -/
theorem unmarshalEntry_marshal {e : AuditEntry} {line : Bytes} (hvalid : e.Valid)
    (hoffset : 60 ∣ e.timestamp.offset) (hline : e.marshal = some line) :
    unmarshalEntry line = some e := by
  simp only [AuditEntry.marshal, Option.map_eq_some_iff] at hline
  obtain ⟨ts, hts, rfl⟩ := hline
  obtain ⟨rfl, hparse⟩ := Rfc3339.marshal_eq_some hts
  rw [Rfc3339.toMinute_of_dvd hoffset] at hparse
  rw [unmarshalEntry, parse_render (proper_document e e.timestamp), Option.bind_some]
  unfold AuditEntry.document
  rw [decodeStruct]
  have hdetails : ∀ r : AuditEntry, r.details = [] →
      (if e.details = [] then []
        else [(Bytes.ascii "details", JsonDoc.str (escape e.details))]).foldlM
          (decodeMember fieldNames AuditEntry.set) r = some { r with details := e.details } := by
    intro r hempty
    apply foldlM_omitempty (decodeMember_field (s := "details") (by simp) _ _)
    · intro hnil
      rw [hnil, ← hempty]
    · simp +decide [AuditEntry.set, decodeString_escape hvalid.details]
  have hseq := decodeMember_field (s := "seq") (by simp)
  have hts' := decodeMember_field (s := "ts") (by simp)
  have haction := decodeMember_field (s := "action") (by simp)
  have hsubject := decodeMember_field (s := "subject") (by simp)
  have hprev := decodeMember_field (s := "prev_hash") (by simp)
  have hhash := decodeMember_field (s := "hash") (by simp)
  simp +decide only [List.foldlM_append, List.foldlM_cons, List.foldlM_nil, Option.bind_eq_bind, hseq,
    hts', haction, hsubject, hprev, hhash, AuditEntry.set, decodeUint64_decimal, decodeTime, hparse,
    decodeString_escape hvalid.action, decodeString_escape hvalid.subject,
    decodeString_escape hvalid.prevHash, decodeString_escape hvalid.hash, Option.map_some,
    Option.bind_some, Option.pure_def, hdetails, AuditEntry.zero, if_true, if_false]

/-- A marshalled entry is a line of its own. -/
theorem marshal_line {e : AuditEntry} {line : Bytes} (hline : e.marshal = some line) :
    line ≠ [] ∧ 0x0a ∉ line := by
  simp only [AuditEntry.marshal, Option.map_eq_some_iff] at hline
  obtain ⟨ts, hts, rfl⟩ := hline
  obtain ⟨rfl, _⟩ := Rfc3339.marshal_eq_some hts
  refine ⟨?_, fun hmem => ?_⟩
  · simp [AuditEntry.document, render]
  · exact not_control_render _ (proper_document e e.timestamp) _ hmem (by decide)

/-! ## Section 4: Lines -/

theorem splitLinesFrom_append {line : Bytes} (hline : 0x0a ∉ line) (front rest : Bytes) :
    splitLinesFrom front (line ++ 0x0a :: rest) = (front ++ line) :: splitLinesFrom [] rest := by
  induction line generalizing front with
  | nil => simp [splitLinesFrom]
  | cons b line ih =>
    have hb : b ≠ 0x0a := fun heq => hline (heq ▸ List.mem_cons_self)
    rw [List.cons_append, splitLinesFrom, if_neg hb, ih fun hmem => hline (List.mem_cons_of_mem _ hmem),
      List.append_assoc, List.singleton_append]

theorem splitLines_append {line : Bytes} (hline : 0x0a ∉ line) (rest : Bytes) :
    splitLines (line ++ 0x0a :: rest) = line :: splitLines rest :=
  splitLinesFrom_append hline [] rest

/-- The lines of a text that starts with whole lines. -/
theorem splitLinesFrom_whole (front text rest : Bytes) :
    splitLinesFrom front (text ++ 0x0a :: rest) = splitLinesFrom front (text ++ [0x0a]) ++ splitLines rest := by
  induction text generalizing front with
  | nil => simp [splitLinesFrom, splitLines]
  | cons b text ih =>
    rw [List.cons_append, List.cons_append, splitLinesFrom, splitLinesFrom]
    split
    · rw [ih, List.cons_append]
    · exact ih _

/-- The text of lines that are all ended. -/
def joinLines (lines : List Bytes) : Bytes := lines.flatMap fun line => line ++ [0x0a]

theorem splitLines_joinLines {lines : List Bytes} (hlines : ∀ line ∈ lines, 0x0a ∉ line) (rest : Bytes) :
    splitLines (joinLines lines ++ rest) = lines ++ splitLines rest := by
  induction lines with
  | nil => rfl
  | cons line lines ih =>
    have hjoin : joinLines (line :: lines) ++ rest = line ++ 0x0a :: (joinLines lines ++ rest) := by
      simp [joinLines]
    rw [hjoin, splitLines_append (hlines line List.mem_cons_self),
      ih fun line' hline' => hlines line' (List.mem_cons_of_mem _ hline')]
    rfl

/-- A line of the file that holds this entry. -/
structure LineOf (line : Bytes) (e : AuditEntry) : Prop where
  ne_nil : line ≠ []
  oneLine : 0x0a ∉ line
  decodes : unmarshalEntry line = some e

theorem lineOf_marshal {e : AuditEntry} {line : Bytes} (hvalid : e.Valid)
    (hoffset : 60 ∣ e.timestamp.offset) (hline : e.marshal = some line) : LineOf line e :=
  ⟨(marshal_line hline).1, (marshal_line hline).2, unmarshalEntry_marshal hvalid hoffset hline⟩

theorem readEntries_lines {lines : List Bytes} {es : List AuditEntry}
    (hlines : List.Forall₂ LineOf lines es) : readEntries lines = some es := by
  induction hlines with
  | nil => rfl
  | cons hline _ ih => simp [readEntries, hline.ne_nil, hline.decodes, ih]

theorem readEntries_decoded {lines : List Bytes} {es : List AuditEntry}
    (hread : readEntries lines = some es) : ∀ e ∈ es, e.Decoded := by
  induction lines generalizing es with
  | nil =>
    rw [← Option.some.inj hread]
    simp
  | cons line lines ih =>
    rw [readEntries] at hread
    split at hread
    · exact ih hread
    · split at hread
      · simp at hread
      · next e hline =>
        rw [Option.map_eq_some_iff] at hread
        obtain ⟨rest, hrest, rfl⟩ := hread
        intro x hx
        rcases List.mem_cons.mp hx with rfl | hx
        · exact unmarshalEntry_decoded hline
        · exact ih hrest x hx

/-! ## Section 5: Chains -/

/-- The hash that the next entry refers to. -/
def lastHash (prevHash : Bytes) (es : List AuditEntry) : Bytes :=
  match es.getLast? with
  | none => prevHash
  | some e => e.hash

@[simp] theorem lastHash_nil (prevHash : Bytes) : lastHash prevHash [] = prevHash := rfl

@[simp] theorem lastHash_snoc (prevHash : Bytes) (es : List AuditEntry) (e : AuditEntry) :
    lastHash prevHash (es ++ [e]) = e.hash := by
  simp [lastHash]

theorem lastHash_cons (prevHash : Bytes) (e : AuditEntry) (es : List AuditEntry) :
    lastHash prevHash (e :: es) = lastHash e.hash es := by
  rcases List.eq_nil_or_concat es with rfl | ⟨front, l, rfl⟩
  · rfl
  · rw [List.concat_eq_append, ← List.cons_append, lastHash_snoc, lastHash_snoc]

theorem checkChain_cons {prevHash : Bytes} {e : AuditEntry} {es : List AuditEntry} :
    checkChain prevHash (e :: es) = .ok () ↔ e.prevHash = prevHash ∧ e.hash = computeEntryHash e
      ∧ checkChain e.hash es = .ok () := by
  rw [checkChain]
  by_cases hprev : e.prevHash = prevHash
  · by_cases hhash : e.hash = computeEntryHash e <;> simp [hprev, hhash]
  · simp [hprev]

/-- A chain is extended by an entry that refers to its end. -/
theorem checkChain_snoc {prevHash : Bytes} {es : List AuditEntry} {e : AuditEntry} :
    checkChain prevHash (es ++ [e]) = .ok () ↔ checkChain prevHash es = .ok ()
      ∧ e.prevHash = lastHash prevHash es ∧ e.hash = computeEntryHash e := by
  induction es generalizing prevHash with
  | nil =>
    rw [List.nil_append, checkChain_cons]
    simp [checkChain]
  | cons e' es ih =>
    rw [List.cons_append, checkChain_cons, checkChain_cons, ih, lastHash_cons, and_assoc, and_assoc]

/-- A hash is neither the first one of a chain nor holds a separator. -/
theorem mem_computeEntryHash {e : AuditEntry} {c : UInt8} (hc : c ∈ computeEntryHash e) :
    c ∈ Hex.digits :=
  Hex.encode_subset _ c hc

theorem computeEntryHash_ne_genesis (e : AuditEntry) : computeEntryHash e ≠ genesis := by
  intro heq
  have hmem : (0x67 : UInt8) ∈ computeEntryHash e := by
    rw [heq]
    decide
  have hdigit := mem_computeEntryHash hmem
  revert hdigit
  decide +kernel

theorem valid_computeEntryHash (e : AuditEntry) : Utf8.Valid (computeEntryHash e) := by
  have hascii : ∀ c ∈ Hex.digits, c < 0x80 := by decide +kernel
  exact Utf8.valid_of_ascii fun c hc => hascii c (mem_computeEntryHash hc)

theorem valid_genesis : Utf8.Valid genesis := by decide

end Owasaka.Integrity
