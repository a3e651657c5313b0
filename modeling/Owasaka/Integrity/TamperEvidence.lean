import Mathlib.Data.List.Forall2
import Owasaka.Integrity.AuditLog

/-! # What a chain of hashes fixes

    Two files that verify, with as many entries and the same last hash, have the same
    payloads at every position, or else two payloads with one digest.  A payload joins
    free texts by `|`: it fixes them when they hold no `|`, and it is enough that they
    hold none in one of the two files.  Where a text holds one, it can be moved to the
    next field. -/

namespace Owasaka.Integrity

open JsonText

/-! ## Section 1: The statement -/

/-- The two entries have the same content. -/
structure SameContent (e e' : AuditEntry) : Prop where
  sequence : e.sequence = e'.sequence
  instant : e.timestamp.instant = e'.timestamp.instant
  action : e.action = e'.action
  subject : e.subject = e'.subject
  details : e.details = e'.details
  prevHash : e.prevHash = e'.prevHash

/-- At some position, two different payloads have one digest. -/
def Collides (es es' : List AuditEntry) : Prop :=
  ∃ (i : Nat) (e e' : AuditEntry), es[i]? = some e ∧ es'[i]? = some e' ∧ e.payload ≠ e'.payload
    ∧ Sha256.sum e.payload = Sha256.sum e'.payload

/-- Every file that verifies, with as many entries and the same last hash, has the same
    content, or there is a collision. -/
def TamperEvident (data : Bytes) : Prop :=
  ∀ es, readEntries (splitLines data) = some es →
    ∀ data' es', verify data' = .ok () → readEntries (splitLines data') = some es' →
      es'.length = es.length → es'.getLast?.map AuditEntry.hash = es.getLast?.map AuditEntry.hash →
        List.Forall₂ SameContent es es' ∨ Collides es es'

/-- No free text holds the separator. -/
def AuditEntry.NoBar (e : AuditEntry) : Prop := 0x7c ∉ e.action ∧ 0x7c ∉ e.subject ∧ 0x7c ∉ e.details

/-! ## Section 2: Payloads -/

theorem bar_not_mem_format (t : Rfc3339.Time) : (0x7c : UInt8) ∉ Rfc3339.format t := by
  intro hmem
  have hbyte := Rfc3339.isTimeByte_of_mem_format hmem
  revert hbyte
  decide

/-- The text of the last four fields. -/
def AuditEntry.tail (e : AuditEntry) : Bytes :=
  e.action ++ 0x7c :: (e.subject ++ 0x7c :: (e.details ++ 0x7c :: e.prevHash))

theorem count_tail (e : AuditEntry) : e.tail.count 0x7c
    = e.action.count 0x7c + e.subject.count 0x7c + e.details.count 0x7c + e.prevHash.count 0x7c + 3 := by
  simp only [AuditEntry.tail, List.count_append, List.count_cons_self]
  omega

/-- A payload without further separators is the payload of no other content. -/
theorem sameContent_of_payload {e e' : AuditEntry} (hbar : e.NoBar) (hprev : 0x7c ∉ e.prevHash)
    (hoffset : 60 ∣ e.timestamp.offset) (hoffset' : 60 ∣ e'.timestamp.offset)
    (heq : e.payload = e'.payload) : SameContent e e' := by
  obtain ⟨hseq, heq⟩ := Bytes.decimal_append_inj (by decide) heq
  obtain ⟨htime, heq⟩ := Bytes.append_cons_inj (bar_not_mem_format _) (bar_not_mem_format _) heq
  have htail : e.tail = e'.tail := heq
  have hcount := congrArg (List.count 0x7c) htail
  rw [count_tail, count_tail, List.count_eq_zero_of_not_mem hbar.1,
    List.count_eq_zero_of_not_mem hbar.2.1, List.count_eq_zero_of_not_mem hbar.2.2,
    List.count_eq_zero_of_not_mem hprev] at hcount
  -- as many separators on both sides: the other file has none in its texts either
  have hbar' : 0x7c ∉ e'.action ∧ 0x7c ∉ e'.subject ∧ 0x7c ∉ e'.details := by
    refine ⟨?_, ?_, ?_⟩ <;> rw [← List.count_eq_zero] <;> omega
  obtain ⟨haction, heq⟩ := Bytes.append_cons_inj hbar.1 hbar'.1 heq
  obtain ⟨hsubject, heq⟩ := Bytes.append_cons_inj hbar.2.1 hbar'.2.1 heq
  obtain ⟨hdetails, hprev'⟩ := Bytes.append_cons_inj hbar.2.2 hbar'.2.2 heq
  exact ⟨UInt64.toNat_inj.mp hseq,
    congrArg Rfc3339.Time.instant (Rfc3339.format_inj hoffset hoffset' htime), haction, hsubject,
    hdetails, hprev'⟩

theorem sum_eq_of_hash {e e' : AuditEntry} (heq : computeEntryHash e = computeEntryHash e') :
    Sha256.sum e.payload = Sha256.sum e'.payload :=
  Vector.toList_inj.mp (Hex.encode_inj heq)

theorem bar_not_mem_lastHash {es : List AuditEntry} (hchain : checkChain genesis es = .ok ()) :
    (0x7c : UInt8) ∉ lastHash genesis es := by
  rcases List.eq_nil_or_concat es with rfl | ⟨front, e, rfl⟩
  · decide
  · rw [List.concat_eq_append] at hchain ⊢
    rw [lastHash_snoc, (checkChain_snoc.mp hchain).2.2]
    intro hmem
    have hdigit := mem_computeEntryHash hmem
    revert hdigit
    decide +kernel

theorem Collides.append {es es' : List AuditEntry} (hcol : Collides es es') (more more' : List AuditEntry) :
    Collides (es ++ more) (es' ++ more') := by
  obtain ⟨i, e, e', hi, hi', hne, hsum⟩ := hcol
  refine ⟨i, e, e', ?_, ?_, hne, hsum⟩
  · rw [List.getElem?_append_left (List.getElem?_eq_some_iff.mp hi).1, hi]
  · rw [List.getElem?_append_left (List.getElem?_eq_some_iff.mp hi').1, hi']

/-! ## Section 3: Enough -/

/-- **Two chains with the same end**, from the last entry to the first. -/
theorem chains_agree (n : Nat) : ∀ es es' : List AuditEntry, es.length = n → es'.length = n →
    checkChain genesis es = .ok () → checkChain genesis es' = .ok () →
    (∀ e ∈ es, e.NoBar ∧ e.Decoded) → (∀ e ∈ es', e.Decoded) →
    lastHash genesis es = lastHash genesis es' → List.Forall₂ SameContent es es' ∨ Collides es es' := by
  induction n with
  | zero =>
    intro es es' hlen hlen' _ _ _ _ _
    rw [List.length_eq_zero_iff.mp hlen, List.length_eq_zero_iff.mp hlen']
    exact .inl .nil
  | succ n ih =>
    intro es es' hlen hlen' hchain hchain' hes hes' hlast
    rcases List.eq_nil_or_concat es with rfl | ⟨front, e, rfl⟩
    · simp at hlen
    rcases List.eq_nil_or_concat es' with rfl | ⟨front', e', rfl⟩
    · simp at hlen'
    simp only [List.concat_eq_append] at hlen hlen' hchain hchain' hes hes' hlast ⊢
    simp only [List.length_append, List.length_singleton, Nat.add_right_cancel_iff] at hlen hlen'
    obtain ⟨hfront, hprev, hhash⟩ := checkChain_snoc.mp hchain
    obtain ⟨hfront', hprev', hhash'⟩ := checkChain_snoc.mp hchain'
    -- equal last hashes: the last texts are equal, or they collide
    rw [lastHash_snoc, lastHash_snoc, hhash, hhash'] at hlast
    have hsum := sum_eq_of_hash hlast
    have he := hes e (by simp)
    have he' := hes' e' (by simp)
    by_cases hpayload : e.payload = e'.payload
    · have hsame := sameContent_of_payload he.1 (hprev ▸ bar_not_mem_lastHash hfront) he.2.offset
        he'.offset hpayload
      -- the text holds the hash before it, so the chains agree before it too
      have hbefore : lastHash genesis front = lastHash genesis front' := by
        rw [← hprev, ← hprev', hsame.prevHash]
      rcases ih front front' hlen hlen' hfront hfront'
        (fun x hx => hes x (List.mem_append_left _ hx))
        (fun x hx => hes' x (List.mem_append_left _ hx)) hbefore with hall | hcol
      · exact .inl (List.rel_append hall (.cons hsame .nil))
      · exact .inr (hcol.append _ _)
    · right
      refine ⟨n, e, e', ?_, ?_, hpayload, hsum⟩
      · rw [← hlen, List.getElem?_concat_length]
      · rw [← hlen', List.getElem?_concat_length]

theorem lastHash_eq {es es' : List AuditEntry}
    (hlast : es'.getLast?.map AuditEntry.hash = es.getLast?.map AuditEntry.hash) :
    lastHash genesis es = lastHash genesis es' := by
  unfold lastHash
  cases hl : es.getLast? <;> cases hl' : es'.getLast? <;> simp_all

theorem verify_eq_ok {data : Bytes} {es : List AuditEntry} (hread : readEntries (splitLines data) = some es) :
    verify data = .ok () ↔ checkChain genesis es = .ok () := by
  rw [verify, hread]

theorem tamperEvident_of_noBar {data : Bytes} {es : List AuditEntry} (hverify : verify data = .ok ())
    (hread : readEntries (splitLines data) = some es) (hbar : ∀ e ∈ es, e.NoBar) :
    TamperEvident data := by
  intro es₀ hread₀ data' es' hverify' hread' hlen hlast
  rw [← Option.some.inj (hread.symm.trans hread₀)] at hlen hlast ⊢
  exact chains_agree es.length es es' rfl hlen ((verify_eq_ok hread).mp hverify)
    ((verify_eq_ok hread').mp hverify') (fun e he => ⟨hbar e he, readEntries_decoded hread e he⟩)
    (readEntries_decoded hread') (lastHash_eq hlast)

/-! ## Section 4: Moving a separator -/

/-- Another content with the same payload. -/
theorem exists_moved {e : AuditEntry} (hvalid : e.Valid) (hbar : ¬ e.NoBar) :
    ∃ action subject details : Bytes, Utf8.Valid action ∧ Utf8.Valid subject ∧ Utf8.Valid details
      ∧ { e with action := action, subject := subject, details := details }.payload = e.payload
      ∧ ¬ (action = e.action ∧ subject = e.subject ∧ details = e.details) := by
  have hascii : (0x7c : UInt8) < 0x80 := by decide
  -- the moved text has another length than the one it came from
  have hshorter : ∀ u v : Bytes, ¬ v = u ++ 0x7c :: v := by
    intro u v heq
    have hlen := congrArg List.length heq
    simp only [List.length_append, List.length_cons] at hlen
    omega
  -- the first text with a separator gives what follows it to the next one
  by_cases haction : 0x7c ∈ e.action
  · obtain ⟨u, v, huv⟩ := List.append_of_mem haction
    have hsplit := (Utf8.valid_append_ascii hascii).mp (huv ▸ hvalid.action)
    refine ⟨u, v ++ 0x7c :: e.subject, e.details, hsplit.1,
      (Utf8.valid_append_ascii hascii).mpr ⟨hsplit.2, hvalid.subject⟩, hvalid.details, ?_, ?_⟩
    · simp [AuditEntry.payload, huv]
    · rintro ⟨_, heq, _⟩
      exact hshorter v e.subject heq.symm
  · by_cases hsubject : 0x7c ∈ e.subject
    · obtain ⟨u, v, huv⟩ := List.append_of_mem hsubject
      have hsplit := (Utf8.valid_append_ascii hascii).mp (huv ▸ hvalid.subject)
      refine ⟨e.action ++ 0x7c :: u, v, e.details,
        (Utf8.valid_append_ascii hascii).mpr ⟨hvalid.action, hsplit.1⟩, hsplit.2, hvalid.details, ?_, ?_⟩
      · simp [AuditEntry.payload, huv]
      · rintro ⟨_, heq, _⟩
        exact hshorter u v (heq.trans huv)
    · have hdetails : 0x7c ∈ e.details := by
        by_contra hdetails
        exact hbar ⟨haction, hsubject, hdetails⟩
      obtain ⟨u, v, huv⟩ := List.append_of_mem hdetails
      have hsplit := (Utf8.valid_append_ascii hascii).mp (huv ▸ hvalid.details)
      refine ⟨e.action, e.subject ++ 0x7c :: u, v, hvalid.action,
        (Utf8.valid_append_ascii hascii).mpr ⟨hvalid.subject, hsplit.1⟩, hsplit.2, ?_, ?_⟩
      · simp [AuditEntry.payload, huv]
      · rintro ⟨_, _, heq⟩
        exact hshorter u v (heq.trans huv)

/-- The members that replace the texts of an entry. -/
def textMembers (action subject details : Bytes) : List (Bytes × JsonDoc) :=
  [(Bytes.ascii "action", .str (escape action)), (Bytes.ascii "subject", .str (escape subject)),
    (Bytes.ascii "details", .str (escape details))]

theorem decode_textMembers {e : AuditEntry} {action subject details : Bytes} (haction : Utf8.Valid action)
    (hsubject : Utf8.Valid subject) (hdetails : Utf8.Valid details) :
    (textMembers action subject details).foldlM (decodeMember fieldNames AuditEntry.set) e
      = some { e with action := action, subject := subject, details := details } := by
  have haction' := decodeMember_field (s := "action") (by simp)
  have hsubject' := decodeMember_field (s := "subject") (by simp)
  have hdetails' := decodeMember_field (s := "details") (by simp)
  simp +decide only [textMembers, List.foldlM_cons, List.foldlM_nil, Option.bind_eq_bind, haction',
    hsubject', hdetails', AuditEntry.set, decodeString_escape haction, decodeString_escape hsubject,
    decodeString_escape hdetails, Option.map_some, Option.bind_some, Option.pure_def, if_true, if_false]

/-- The texts of a line can be replaced: later members override earlier ones. -/
theorem exists_line {line : Bytes} {e : AuditEntry} (hread : unmarshalEntry line = some e) (hbar : ¬ e.NoBar)
    {action subject details : Bytes} (haction : Utf8.Valid action) (hsubject : Utf8.Valid subject)
    (hdetails : Utf8.Valid details) :
    ∃ line', LineOf line' { e with action := action, subject := subject, details := details } := by
  rw [unmarshalEntry, Option.bind_eq_some_iff] at hread
  obtain ⟨d, hparse, hdecode⟩ := hread
  cases d with
  | null =>
    rw [decodeStruct, Option.some.injEq] at hdecode
    rw [← hdecode] at hbar
    exact absurd ⟨by decide, by decide, by decide⟩ hbar
  | obj ms =>
    have hproper := proper_of_parse hparse
    rw [Proper, properMembers_iff] at hproper
    -- the new members are added at the end; the last of one name wins
    have hproper' : Proper maxDepth (.obj (ms ++ textMembers action subject details)) := by
      rw [Proper, properMembers_iff]
      refine ⟨hproper.1, fun m hm => ?_⟩
      rcases List.mem_append.mp hm with hm | hm
      · exact hproper.2 m hm
      · simp only [textMembers, List.mem_cons, List.not_mem_nil, or_false] at hm
        rcases hm with rfl | rfl | rfl
        all_goals rw [Proper]
        · exact ⟨isLit_field (s := "action") (by simp), isLit_escape _⟩
        · exact ⟨isLit_field (s := "subject") (by simp), isLit_escape _⟩
        · exact ⟨isLit_field (s := "details") (by simp), isLit_escape _⟩
    refine ⟨render (.obj (ms ++ textMembers action subject details)), by simp [render], fun hmem => ?_, ?_⟩
    · exact not_control_render _ hproper' _ hmem (by decide)
    · rw [unmarshalEntry, parse_render hproper', Option.bind_some, decodeStruct, List.foldlM_append]
      rw [decodeStruct] at hdecode
      rw [hdecode, Option.bind_eq_bind, Option.bind_some]
      exact decode_textMembers haction hsubject hdetails
  | bool _ => simp [decodeStruct] at hdecode
  | num _ => simp [decodeStruct] at hdecode
  | str _ => simp [decodeStruct] at hdecode
  | arr _ => simp [decodeStruct] at hdecode

/-! ## Section 5: Replacing an entry in a file -/

theorem not_mem_splitLinesFrom {data front line : Bytes} (hfront : 0x0a ∉ front)
    (hline : line ∈ splitLinesFrom front data) : 0x0a ∉ line := by
  induction data generalizing front with
  | nil =>
    rw [splitLinesFrom] at hline
    split at hline
    · simp at hline
    · rw [List.mem_singleton.mp hline]
      exact hfront
  | cons b data ih =>
    rw [splitLinesFrom] at hline
    split at hline
    · rcases List.mem_cons.mp hline with rfl | hline
      · exact hfront
      · exact ih (by simp) hline
    · next hb =>
      refine ih ?_ hline
      simp only [List.mem_append, List.mem_singleton, not_or]
      exact ⟨hfront, fun heq => hb heq.symm⟩

/-- The line of an entry, with what stands before and after it. -/
theorem readEntries_split {lines : List Bytes} {es : List AuditEntry} {e : AuditEntry}
    (hread : readEntries lines = some es) (he : e ∈ es) :
    ∃ before line after front back, lines = before ++ line :: after ∧ es = front ++ e :: back
      ∧ unmarshalEntry line = some e
      ∧ ∀ line' e', LineOf line' e' → readEntries (before ++ line' :: after) = some (front ++ e' :: back) := by
  -- by the lines; an empty line is skipped and has no entry
  induction lines generalizing es with
  | nil =>
    rw [← Option.some.inj hread] at he
    simp at he
  | cons line lines ih =>
    rw [readEntries] at hread
    split at hread
    · next hempty =>
      obtain ⟨before, line', after, front, back, rfl, rfl, hdecode, hreplace⟩ := ih hread he
      refine ⟨line :: before, line', after, front, back, rfl, rfl, hdecode, fun l x hl => ?_⟩
      rw [List.cons_append, readEntries, if_pos hempty]
      exact hreplace l x hl
    · next hne =>
      split at hread
      · simp at hread
      · next first hline =>
        rw [Option.map_eq_some_iff] at hread
        obtain ⟨rest, hrest, rfl⟩ := hread
        rcases List.mem_cons.mp he with rfl | he
        · refine ⟨[], line, lines, [], rest, rfl, rfl, hline, fun l x hl => ?_⟩
          simp [readEntries, hl.ne_nil, hl.decodes, hrest]
        · obtain ⟨before, line', after, front, back, rfl, rfl, hdecode, hreplace⟩ := ih hrest he
          refine ⟨line :: before, line', after, first :: front, back, rfl, rfl, hdecode, fun l x hl => ?_⟩
          simp [readEntries, hne, hline, hreplace l x hl]

theorem checkChain_replace {prevHash : Bytes} {front back : List AuditEntry} (e e' : AuditEntry)
    (hprev : e'.prevHash = e.prevHash) (hhash : e'.hash = e.hash) (hpayload : e'.payload = e.payload)
    (hchain : checkChain prevHash (front ++ e :: back) = .ok ()) :
    checkChain prevHash (front ++ e' :: back) = .ok () := by
  induction front generalizing prevHash with
  | nil =>
    rw [List.nil_append, checkChain_cons] at hchain ⊢
    rw [hprev, hhash, computeEntryHash, hpayload]
    exact hchain
  | cons x front ih =>
    rw [List.cons_append, checkChain_cons] at hchain ⊢
    exact ⟨hchain.1, hchain.2.1, ih hchain.2.2⟩

theorem getLast?_map_replace {front back : List AuditEntry} {e e' : AuditEntry} (hhash : e'.hash = e.hash) :
    (front ++ e' :: back).getLast?.map AuditEntry.hash = (front ++ e :: back).getLast?.map AuditEntry.hash := by
  simp only [← List.getLast?_map, List.map_append, List.map_cons, hhash]

/-- A file in which a text holds a separator has the end of another one. -/
theorem noBar_of_tamperEvident {data : Bytes} {es : List AuditEntry} (hverify : verify data = .ok ())
    (hread : readEntries (splitLines data) = some es) (hevident : TamperEvident data) :
    ∀ e ∈ es, e.NoBar := by
  intro e he
  by_contra hbar
  obtain ⟨before, line, after, front, back, hlines, rfl, hdecode, hreplace⟩ := readEntries_split hread he
  obtain ⟨action, subject, details, haction, hsubject, hdetails, hpayload, hne⟩ :=
    exists_moved (unmarshalEntry_decoded hdecode).toValid hbar
  -- the same hashed text with the separators moved, as a line of its own
  obtain ⟨line', hline'⟩ := exists_line hdecode hbar haction hsubject hdetails
  have honeLine : ∀ l ∈ before ++ line' :: after, 0x0a ∉ l := by
    intro l hl
    have hold : ∀ l ∈ before ++ line :: after, 0x0a ∉ l := fun l hl =>
      not_mem_splitLinesFrom (show 0x0a ∉ [] by simp) (hlines ▸ hl)
    simp only [List.mem_append, List.mem_cons] at hl hold
    rcases hl with hl | rfl | hl
    · exact hold l (.inl hl)
    · exact hline'.oneLine
    · exact hold l (.inr (.inr hl))
  have hsplit := splitLines_joinLines honeLine []
  rw [List.append_nil, show splitLines [] = [] from rfl, List.append_nil] at hsplit
  have hread' := hreplace line' _ hline'
  rw [← hsplit] at hread'
  -- the hash does not change, so the chain of the other file verifies too
  have hchain' := checkChain_replace e
    { e with action := action, subject := subject, details := details } rfl rfl hpayload
    ((verify_eq_ok hread).mp hverify)
  have hverify' := (verify_eq_ok hread').mpr hchain'
  rcases hevident _ hread _ _ hverify' hread' (by simp) (getLast?_map_replace rfl) with hall | hcol
  · have hsame := (List.forall₂_iff_get.mp hall).2 front.length (by simp) (by simp)
    simp only [List.get_eq_getElem, List.getElem_append_right (Nat.le_refl _), Nat.sub_self,
      List.getElem_cons_zero] at hsame
    exact hne ⟨hsame.action.symm, hsame.subject.symm, hsame.details.symm⟩
  -- the entries differ nowhere in their hashed text, so nothing collides
  · obtain ⟨i, x, x', hx, hx', hdiff, _⟩ := hcol
    rcases Nat.lt_trichotomy i front.length with hlt | rfl | hlt
    · rw [List.getElem?_append_left hlt] at hx hx'
      exact hdiff (congrArg AuditEntry.payload (Option.some.inj (hx.symm.trans hx')))
    · simp only [List.getElem?_append_right (Nat.le_refl _), Nat.sub_self, List.getElem?_cons_zero,
        Option.some.injEq] at hx hx'
      rw [← hx, ← hx'] at hdiff
      exact hdiff hpayload.symm
    · obtain ⟨k, rfl⟩ := Nat.exists_eq_add_of_lt hlt
      rw [List.getElem?_append_right (by omega), show front.length + k + 1 - front.length = k + 1 by omega,
        List.getElem?_cons_succ] at hx hx'
      exact hdiff (congrArg AuditEntry.payload (Option.some.inj (hx.symm.trans hx')))

/-! ## Section 6: Exactly the files without separators -/

theorem tamper_evident_iff {data : Bytes} {es : List AuditEntry} (hverify : verify data = .ok ())
    (hread : readEntries (splitLines data) = some es) :
    TamperEvident data ↔ ∀ e ∈ es, e.NoBar :=
  ⟨noBar_of_tamperEvident hverify hread, tamperEvident_of_noBar hverify hread⟩

/-- The file with the one entry of a call at the epoch. -/
theorem exists_single {c : AppendCall} (hnow : c.now = 0) (hc : c.Valid) :
    ∃ data, verify data = .ok ()
      ∧ readEntries (splitLines data) = some [newEntry ⟨genesis, 0⟩ c] := by
  obtain ⟨line, hline⟩ := exists_marshal ⟨genesis, 0⟩ hnow
  have hlineOf := lineOf_marshal (newEntry_valid valid_genesis hc) (Int.dvd_zero 60) hline
  have hread : readEntries (splitLines (line ++ 0x0a :: [])) = some [newEntry ⟨genesis, 0⟩ c] := by
    rw [splitLines_append hlineOf.oneLine]
    exact readEntries_lines (.cons hlineOf .nil)
  refine ⟨line ++ [0x0a], (verify_eq_ok hread).mpr ?_, hread⟩
  rw [checkChain_cons]
  exact ⟨rfl, newEntry_hash _ _, rfl⟩

/-- The end of a session, at the epoch. -/
def logoutCall : AppendCall := ⟨0, Bytes.ascii "logout", Bytes.ascii "alice", []⟩

/-- The file with the two entries of a session. -/
theorem tamper_evident_iff_session : ∃ data es, es.map AuditEntry.action
      = [Bytes.ascii "login", Bytes.ascii "logout"]
    ∧ verify data = .ok () ∧ readEntries (splitLines data) = some es
    ∧ (TamperEvident data ↔ ∀ e ∈ es, e.NoBar) := by
  obtain ⟨e, he⟩ : ∃ e, e = newEntry ⟨genesis, 0⟩ loginCall := ⟨_, rfl⟩
  obtain ⟨line, hline⟩ := exists_marshal ⟨genesis, 0⟩ (c := loginCall) rfl
  obtain ⟨line', hline'⟩ := exists_marshal ⟨e.hash, e.sequence⟩ (c := logoutCall) rfl
  have hlineOf := lineOf_marshal (newEntry_valid valid_genesis loginCall_valid) (Int.dvd_zero 60) hline
  have hprev : Utf8.Valid e.hash := by
    rw [he]
    exact valid_computeEntryHash _
  have hvalid : logoutCall.Valid := by
    simp only [AppendCall.Valid]
    decide
  have hlineOf' := lineOf_marshal (newEntry_valid (h := ⟨e.hash, e.sequence⟩) hprev hvalid)
    (Int.dvd_zero 60) hline'
  have hread : readEntries (splitLines (line ++ 0x0a :: (line' ++ 0x0a :: [])))
      = some [newEntry ⟨genesis, 0⟩ loginCall, newEntry ⟨e.hash, e.sequence⟩ logoutCall] := by
    rw [splitLines_append hlineOf.oneLine, splitLines_append hlineOf'.oneLine]
    exact readEntries_lines (.cons hlineOf (.cons hlineOf' .nil))
  have hverify : verify (line ++ 0x0a :: (line' ++ 0x0a :: [])) = .ok () := by
    rw [verify_eq_ok hread, checkChain_cons, checkChain_cons]
    subst he
    exact ⟨rfl, newEntry_hash _ _, rfl, newEntry_hash _ _, rfl⟩
  exact ⟨_, _, rfl, hverify, hread, tamper_evident_iff hverify hread⟩

/-- The action `a|b` of the subject `c`. -/
def barInAction : AppendCall := ⟨0, Bytes.ascii "a|b", Bytes.ascii "c", []⟩

/-- The action `a` of the subject `b|c`. -/
def barInSubject : AppendCall := ⟨0, Bytes.ascii "a", Bytes.ascii "b|c", []⟩

theorem payload_bar : (newEntry ⟨genesis, 0⟩ barInAction).payload
    = (newEntry ⟨genesis, 0⟩ barInSubject).payload := by
  have hpayload : ∀ c : AppendCall, (newEntry ⟨genesis, 0⟩ c).payload
      = Bytes.decimal 1 ++ 0x7c :: (Rfc3339.format ⟨c.now, 0⟩ ++ 0x7c :: (c.action
        ++ 0x7c :: (c.subject ++ 0x7c :: (c.details ++ 0x7c :: genesis)))) := fun _ => rfl
  rw [hpayload, hpayload]
  rfl

/-- Two files with one entry each, the same hash, and different actions and subjects. -/
theorem bar_moved_unnoticed : ∃ data data' es es', verify data = .ok () ∧ verify data' = .ok ()
    ∧ readEntries (splitLines data) = some es ∧ readEntries (splitLines data') = some es'
    ∧ es'.length = es.length ∧ es'.getLast?.map AuditEntry.hash = es.getLast?.map AuditEntry.hash
    ∧ ¬ (List.Forall₂ SameContent es es' ∨ Collides es es') := by
  have hvalid : barInAction.Valid ∧ barInSubject.Valid := by
    simp only [AppendCall.Valid]
    decide
  obtain ⟨data, hverify, hread⟩ := exists_single (c := barInAction) rfl hvalid.1
  obtain ⟨data', hverify', hread'⟩ := exists_single (c := barInSubject) rfl hvalid.2
  refine ⟨data, data', _, _, hverify, hverify', hread, hread', rfl, ?_, ?_⟩
  · simp only [List.getLast?_singleton, Option.map_some, newEntry_hash, computeEntryHash, payload_bar]
  · rintro (hall | ⟨i, e, e', hi, hi', hne, _⟩)
    · rw [List.forall₂_cons] at hall
      exact absurd hall.1.action (by decide)
    · have he := List.mem_singleton.mp (List.mem_of_getElem? hi)
      have he' := List.mem_singleton.mp (List.mem_of_getElem? hi')
      rw [he, he'] at hne
      exact hne payload_bar

end Owasaka.Integrity
