import Owasaka.Integrity.AuditLog

/-! # What the log records (`integrity/auditlog.go`)

    `Append` takes byte strings, and its hash covers them as they are.  The line of an
    entry is JSON: bytes that are no UTF-8 are replaced by U+FFFD there, and `Verify`
    hashes what it reads back.

    A sequence of successful calls leaves a file that verifies and returns the given
    texts exactly when all of them are valid UTF-8. -/

namespace Owasaka.Integrity

open JsonText

/-! ## Section 1: Successful calls -/

/-- The free texts of an entry. -/
def AuditEntry.texts (e : AuditEntry) : Bytes × Bytes × Bytes := (e.action, e.subject, e.details)

def AppendCall.texts (c : AppendCall) : Bytes × Bytes × Bytes := (c.action, c.subject, c.details)

/-- The state after calls of `Append` that all returned nil, on a new file that may have
    been closed and opened in between. -/
inductive Appended : List AppendCall → LogState → Prop where
  | new : Appended [] newLog
  | newAuditLog {calls : List AppendCall} {s s' : LogState} :
      Appended calls s → s.step .newAuditLog = some s' → Appended calls s'
  | append {calls : List AppendCall} {s s' : LogState} (c : AppendCall) :
      Appended calls s → s.step (.append c .written) = some s' → s'.failed = false →
        Appended (calls ++ [c]) s'

/-- The file verifies, and its entries carry the texts of the calls in their order. -/
structure Records (s : LogState) (calls : List AppendCall) : Prop where
  verifies : verify s.file = .ok ()
  texts : ∃ entries, readEntries (splitLines s.file) = some entries
    ∧ entries.map AuditEntry.texts = calls.map AppendCall.texts

/-! ## Section 2: Valid texts are recorded -/

variable {s s' : LogState} {calls : List AppendCall} {c : AppendCall}

/-- What a successful call does: the entry is marshalled, written and kept. -/
theorem step_append_ok (hstep : s.step (.append c .written) = some s') (hok : s'.failed = false) :
    ∃ h data, s.handle = some h ∧ (newEntry h c).marshal = some data
      ∧ s' = { s with
          file := s.file ++ (data ++ [0x0a])
          handle := some ⟨(newEntry h c).hash, (newEntry h c).sequence⟩
          written := s.written ++ [newEntry h c]
          acknowledged := s.acknowledged ++ [newEntry h c] } := by
  obtain ⟨h, hhandle, hcases⟩ := step_append_cases hstep
  rcases hcases with rfl | ⟨data, hdata, ⟨_, heq⟩ | ⟨hsync, _⟩ | ⟨bytes, hcrash, _⟩⟩
  · contradiction
  · exact ⟨h, data, hhandle, hdata, heq⟩
  · contradiction
  · contradiction

/-- No call has failed on the handle, and the entries written carry the given texts. -/
theorem Appended.written_texts (hrun : Appended calls s) :
    s.failed = false ∧ s.written.map AuditEntry.texts = calls.map AppendCall.texts := by
  induction hrun with
  | new => exact ⟨rfl, rfl⟩
  | newAuditLog _ hstep ih =>
    simp only [LogState.step, Option.some.injEq] at hstep
    subst hstep
    exact ⟨rfl, ih.2⟩
  | append c _ hstep hok ih =>
    obtain ⟨h, data, _, _, rfl⟩ := step_append_ok hstep hok
    refine ⟨hok, ?_⟩
    rw [List.map_append, List.map_append, ih.2]
    rfl

theorem Appended.kept (hrun : Appended calls s) (hvalid : ∀ c ∈ calls, c.Valid) : Kept s := by
  induction hrun with
  | new => exact ⟨⟨[], rfl, .nil⟩, rfl, rfl, by simp [newLog]⟩
  | @newAuditLog calls s s' _ hstep ih =>
    have hcalm : Undisturbed s .newAuditLog := trivial
    exact step_kept (ih hvalid) hcalm trivial hstep
  | @append calls s s' c hrun hstep _ ih =>
    have hbefore := ih fun c hc => hvalid c (List.mem_append_left _ hc)
    have hc : Undisturbed s (.append c .written) :=
      hvalid c (List.mem_append_right _ List.mem_cons_self)
    exact step_kept hbefore hc (fun _ => hrun.written_texts.1) hstep

/-! ## Section 3: Only valid texts are recorded -/

theorem valid_of_texts {e : AuditEntry} (he : e.Decoded) (heq : e.texts = c.texts) : c.Valid := by
  simp only [AuditEntry.texts, AppendCall.texts, Prod.mk.injEq] at heq
  obtain ⟨haction, hsubject, hdetails⟩ := heq
  exact ⟨haction ▸ he.action, hsubject ▸ he.subject, hdetails ▸ he.details⟩

/-- After any sequence of successful calls the file verifies and returns their texts
    exactly when these are all valid UTF-8. -/
theorem recorded_iff_valid (hrun : Appended calls s) :
    Records s calls ↔ ∀ c ∈ calls, c.Valid := by
  constructor
  · intro hrecords c hc
    obtain ⟨entries, hread, htexts⟩ := hrecords.texts
    have hmem : c.texts ∈ entries.map AuditEntry.texts := htexts ▸ List.mem_map_of_mem hc
    obtain ⟨e, he, heq⟩ := List.mem_map.mp hmem
    exact valid_of_texts (readEntries_decoded hread e he) heq
  · intro hvalid
    have hintact := (hrun.kept hvalid).intact
    exact ⟨hintact.verifies, s.written, hintact.entries, hrun.written_texts.2⟩

/-! ## Section 4: One call -/

/-- The state after one call at the epoch on a new file. -/
theorem appended_once (hnow : c.now = 0) : ∃ data s, (newEntry ⟨genesis, 0⟩ c).marshal = some data
    ∧ s.file = data ++ [0x0a] ∧ Appended [c] s := by
  obtain ⟨data, hdata⟩ := exists_marshal ⟨genesis, 0⟩ hnow
  have hopened : Appended [] openedLog := .newAuditLog .new step_newLog
  exact ⟨data, _, hdata, rfl, hopened.append c (append_written openedLog hdata) rfl⟩

theorem recorded_iff_valid_login : ∃ s, Appended [loginCall] s
    ∧ (Records s [loginCall] ↔ ∀ c ∈ [loginCall], c.Valid) := by
  obtain ⟨_, s, _, _, hrun⟩ := appended_once (c := loginCall) rfl
  exact ⟨s, hrun, recorded_iff_valid hrun⟩

/-- A subject of one byte that starts no code point. -/
def scanCall : AppendCall := ⟨0, Bytes.ascii "scan", [0xff], []⟩

/-- The log of one entry does not verify: its line has U+FFFD in place of the byte. -/
theorem log_broken_by_subject : ∃ s, Appended [scanCall] s ∧ verify s.file ≠ .ok ()
    ∧ ¬ Records s [scanCall] := by
  obtain ⟨data, s, hdata, hfile, hrun⟩ := appended_once (c := scanCall) rfl
  have hverify : ∀ data ∈ (newEntry ⟨genesis, 0⟩ scanCall).marshal,
      verify (data ++ [0x0a]) ≠ .ok () := by
    decide +kernel
  have hbroken : verify s.file ≠ .ok () := hfile ▸ hverify data hdata
  exact ⟨s, hrun, hbroken, fun hrecords => hbroken hrecords.verifies⟩

end Owasaka.Integrity
