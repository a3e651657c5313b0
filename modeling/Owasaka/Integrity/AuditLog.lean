import Mathlib.Data.List.Forall2
import Owasaka.Foundation.System
import Owasaka.Integrity.AuditEntry

/-! # The audit log (`integrity/auditlog.go`)

    A handle holds the hash and the number of the last entry.  `Append` advances both
    before it marshals and writes the new entry; `NewAuditLog` takes them from the last
    line of the file that can be decoded.

    A write may fail without effect, and the process may stop in the middle of one.
    After a failed write the handle is ahead of the file, and the next entry of this
    handle refers to an entry that is not there.  After a torn write the next entry is
    put on the line that was not ended. -/

namespace Owasaka.Integrity

open JsonText

/-! ## Section 1: Handles -/

structure Handle where
  lastHash : Bytes
  seq : UInt64
  deriving DecidableEq

/-- The loop of `recoverState`. -/
def recoverLines (h : Handle) : List Bytes → Handle
  | [] => h
  | line :: lines =>
    if line = [] then recoverLines h lines
    else
      match unmarshalEntry line with
      | none => recoverLines h lines
      | some e => recoverLines ⟨e.hash, e.sequence⟩ lines

def newAuditLog (data : Bytes) : Handle := recoverLines ⟨genesis, 0⟩ (splitLines data)

/-- The arguments of `Append` and the time of the call. -/
structure AppendCall where
  now : Int
  action : Bytes
  subject : Bytes
  details : Bytes

/-- The entry that `Append` makes, with its hash. -/
def newEntry (h : Handle) (c : AppendCall) : AuditEntry :=
  let entry : AuditEntry :=
    { sequence := h.seq + 1, timestamp := ⟨c.now, 0⟩, action := c.action, subject := c.subject,
      details := c.details, prevHash := h.lastHash, hash := [] }
  { entry with hash := computeEntryHash entry }

/-! ## Section 2: Runs -/

/-- What becomes of the write of a line. -/
inductive WriteOutcome where
  | written
  /-- The line is in the file, but `Sync` fails. -/
  | syncFails
  /-- The file is unchanged. -/
  | writeFails
  /-- The process stops after this many bytes of the line. -/
  | crash (bytes : Nat)

inductive LogAction where
  | newAuditLog
  | append (call : AppendCall) (outcome : WriteOutcome)

structure LogState where
  file : Bytes
  /-- `none` before the log is opened, and after a crash. -/
  handle : Option Handle
  /-- The entries whose write succeeded. -/
  written : List AuditEntry
  /-- The entries whose `Append` returned nil. -/
  acknowledged : List AuditEntry
  /-- An `Append` on this handle has not written its entry. -/
  failed : Bool

/-- `Append`; `none` where the outcome cannot be. -/
def LogState.append (s : LogState) (h : Handle) (c : AppendCall) (outcome : WriteOutcome) :
    Option LogState :=
  let entry := newEntry h c
  -- the handle is advanced before anything can fail
  let s := { s with handle := some ⟨entry.hash, entry.sequence⟩ }
  match entry.marshal with
  | none => some { s with failed := true }
  | some data =>
    let line := data ++ [0x0a]
    match outcome with
    | .written =>
      some { s with file := s.file ++ line, written := s.written ++ [entry],
                    acknowledged := s.acknowledged ++ [entry] }
    | .syncFails => some { s with file := s.file ++ line, written := s.written ++ [entry] }
    | .writeFails => some { s with failed := true }
    | .crash bytes =>
      if bytes < line.length then some { s with file := s.file ++ line.take bytes, handle := none }
      else none

def LogState.step (s : LogState) : LogAction → Option LogState
  | .newAuditLog => some { s with handle := some (newAuditLog s.file), failed := false }
  | .append c outcome =>
    match s.handle with
    | none => none
    | some h => s.append h c outcome

/-- All runs on a new file. -/
def logSystem : System LogState LogAction :=
  .ofStep (fun s => s = ⟨[], none, [], [], false⟩) LogState.step

def AppendCall.Valid (c : AppendCall) : Prop :=
  Utf8.Valid c.action ∧ Utf8.Valid c.subject ∧ Utf8.Valid c.details

/-- Calls with valid UTF-8 arguments, in which the process does not stop. -/
def Undisturbed (_ : LogState) : LogAction → Prop
  | .newAuditLog => True
  | .append _ (.crash _) => False
  | .append c _ => c.Valid

/-- No entry is written with a handle on which a write has failed. -/
def NotAfterFailure (s : LogState) : LogAction → Prop
  | .newAuditLog => True
  | .append _ .writeFails => True
  -- an entry whose time has no text is not written either
  | .append c _ => (Rfc3339.marshal ⟨c.now, 0⟩).isSome → s.failed = false

/-! ## Section 3: The file and the entries written -/

/-- The file verifies, and holds the entries whose write succeeded, numbered from 1. -/
structure Intact (s : LogState) : Prop where
  verifies : verify s.file = .ok ()
  entries : readEntries (splitLines s.file) = some s.written
  numbered : s.written.map AuditEntry.sequence
    = (List.range s.written.length).map fun i => UInt64.ofNat (i + 1)

/-- The file is the lines of the entries written, which are a chain. -/
structure Kept (s : LogState) : Prop where
  lines : ∃ lines, s.file = joinLines lines ∧ List.Forall₂ LineOf lines s.written
  chain : checkChain genesis s.written = .ok ()
  numbered : s.written.map AuditEntry.sequence
    = (List.range s.written.length).map fun i => UInt64.ofNat (i + 1)
  handle : ∀ h, s.handle = some h → s.failed = false →
    h = ⟨lastHash genesis s.written, UInt64.ofNat s.written.length⟩

variable {s s' : LogState} {h : Handle} {c : AppendCall}

theorem oneLine_of_lines {lines : List Bytes} {es : List AuditEntry}
    (hlines : List.Forall₂ LineOf lines es) : ∀ line ∈ lines, 0x0a ∉ line := by
  induction hlines with
  | nil => simp
  | cons hline _ ih =>
    intro line hmem
    rcases List.mem_cons.mp hmem with rfl | hmem
    · exact hline.oneLine
    · exact ih line hmem

theorem splitLines_lines {lines : List Bytes} {es : List AuditEntry}
    (hlines : List.Forall₂ LineOf lines es) : splitLines (joinLines lines) = lines := by
  have hsplit := splitLines_joinLines (oneLine_of_lines hlines) []
  rwa [List.append_nil, show splitLines [] = [] from rfl, List.append_nil] at hsplit

theorem recoverLines_lines {lines : List Bytes} {es : List AuditEntry}
    (hlines : List.Forall₂ LineOf lines es) (h : Handle) :
    recoverLines h lines
      = (es.getLast?.map fun e => (⟨e.hash, e.sequence⟩ : Handle)).getD h := by
  induction hlines generalizing h with
  | nil => rfl
  | @cons line e lines es hline _ ih =>
    rw [recoverLines, if_neg hline.ne_nil, hline.decodes]
    simp only
    rw [ih, List.getLast?_cons]
    cases es.getLast? <;> rfl

/-- The number of the last entry is the number of entries. -/
theorem last_sequence {es : List AuditEntry}
    (hnum : es.map AuditEntry.sequence = (List.range es.length).map fun i => UInt64.ofNat (i + 1)) :
    (es.getLast?.map AuditEntry.sequence).getD 0 = UInt64.ofNat es.length := by
  rcases List.eq_nil_or_concat es with rfl | ⟨front, e, rfl⟩
  · rfl
  · rw [List.concat_eq_append] at hnum ⊢
    have hlast := congrArg List.getLast? hnum
    simp only [List.map_append, List.length_append, List.length_singleton, List.range_succ,
      List.getLast?_append, List.map_cons, List.map_nil, List.getLast?_singleton, Option.some_or] at hlast
    simpa using hlast

/-- A handle that was opened on the file continues the chain. -/
theorem Kept.newAuditLog (hkept : Kept s) :
    newAuditLog s.file = ⟨lastHash genesis s.written, UInt64.ofNat s.written.length⟩ := by
  obtain ⟨lines, hfile, hlines⟩ := hkept.lines
  have hseq := last_sequence hkept.numbered
  rw [Integrity.newAuditLog, hfile, splitLines_lines hlines, recoverLines_lines hlines, lastHash,
    ← hseq]
  cases s.written.getLast? <;> rfl

theorem Kept.intact (hkept : Kept s) : Intact s := by
  obtain ⟨lines, hfile, hlines⟩ := hkept.lines
  have hentries : readEntries (splitLines s.file) = some s.written := by
    rw [hfile, splitLines_lines hlines, readEntries_lines hlines]
  refine ⟨?_, hentries, hkept.numbered⟩
  rw [verify, hentries]
  exact hkept.chain

@[simp] theorem newEntry_hash (h : Handle) (c : AppendCall) :
    (newEntry h c).hash = computeEntryHash (newEntry h c) := rfl

theorem newEntry_valid (hprev : Utf8.Valid h.lastHash) (hc : c.Valid) : (newEntry h c).Valid :=
  ⟨hc.1, hc.2.1, hc.2.2, hprev, valid_computeEntryHash _⟩

theorem Kept.valid_lastHash (hkept : Kept s) : Utf8.Valid (lastHash genesis s.written) := by
  have hchain := hkept.chain
  rcases List.eq_nil_or_concat s.written with hnil | ⟨front, e, heq⟩
  · rw [hnil]
    exact valid_genesis
  · rw [heq, List.concat_eq_append] at hchain ⊢
    rw [lastHash_snoc, (checkChain_snoc.mp hchain).2.2]
    exact valid_computeEntryHash e

/-- **Step lemma**: an entry that was written with a handle that continues the chain. -/
theorem Kept.append {data : Bytes} {acknowledged : List AuditEntry} (hkept : Kept s)
    (hh : h = ⟨lastHash genesis s.written, UInt64.ofNat s.written.length⟩) (hc : c.Valid)
    (hdata : (newEntry h c).marshal = some data) :
    Kept { s with
      file := s.file ++ (data ++ [0x0a])
      handle := some ⟨(newEntry h c).hash, (newEntry h c).sequence⟩
      written := s.written ++ [newEntry h c]
      acknowledged := acknowledged } := by
  have hvalid : Utf8.Valid h.lastHash := by
    rw [hh]
    exact hkept.valid_lastHash
  have hseq : (newEntry h c).sequence = UInt64.ofNat (s.written.length + 1) := by
    rw [newEntry, hh, UInt64.ofNat_add]
    rfl
  obtain ⟨lines, hfile, hlines⟩ := hkept.lines
  refine ⟨⟨lines ++ [data], ?_, ?_⟩, ?_, ?_, ?_⟩
  · simp [joinLines, hfile]
  · exact List.rel_append hlines
      (.cons (lineOf_marshal (newEntry_valid hvalid hc) (Int.dvd_zero 60) hdata) .nil)
  · exact checkChain_snoc.mpr ⟨hkept.chain, by rw [hh]; rfl, newEntry_hash h c⟩
  · simp only [List.map_append, List.length_append, List.length_singleton, List.range_succ,
      hkept.numbered, List.map_cons, List.map_nil, hseq]
  · intro h' hh' _
    rw [Option.some.injEq] at hh'
    subst hh'
    rw [lastHash_snoc, hseq, List.length_append, List.length_singleton]

/-- **What an append does**: it fails and writes nothing, or the entry has a text, and the
    outcome decides how much of its line is written. -/
theorem step_append_cases {outcome : WriteOutcome} (hstep : s.step (.append c outcome) = some s') :
    ∃ h, s.handle = some h
      ∧ (s' = { s with
            handle := some ⟨(newEntry h c).hash, (newEntry h c).sequence⟩
            failed := true }
        ∨ ∃ data, (newEntry h c).marshal = some data
          ∧ ((outcome = .written ∧ s' = { s with
                file := s.file ++ (data ++ [0x0a])
                handle := some ⟨(newEntry h c).hash, (newEntry h c).sequence⟩
                written := s.written ++ [newEntry h c]
                acknowledged := s.acknowledged ++ [newEntry h c] })
            ∨ (outcome = .syncFails ∧ s' = { s with
                file := s.file ++ (data ++ [0x0a])
                handle := some ⟨(newEntry h c).hash, (newEntry h c).sequence⟩
                written := s.written ++ [newEntry h c] })
            ∨ ∃ bytes, outcome = .crash bytes ∧ s' = { s with
                file := s.file ++ (data ++ [0x0a]).take bytes
                handle := none })) := by
  simp only [LogState.step] at hstep
  cases hhandle : s.handle with
  | none => simp [hhandle] at hstep
  | some h =>
    simp only [hhandle] at hstep
    refine ⟨h, rfl, ?_⟩
    unfold LogState.append at hstep
    simp only at hstep
    cases hdata : (newEntry h c).marshal with
    | none =>
      rw [hdata] at hstep
      exact Or.inl (Option.some.inj hstep).symm
    | some data =>
      rw [hdata] at hstep
      cases outcome with
      | written => exact Or.inr ⟨data, rfl, Or.inl ⟨rfl, (Option.some.inj hstep).symm⟩⟩
      | syncFails => exact Or.inr ⟨data, rfl, Or.inr (Or.inl ⟨rfl, (Option.some.inj hstep).symm⟩)⟩
      | writeFails => exact Or.inl (Option.some.inj hstep).symm
      | crash bytes =>
        simp only [Option.ite_none_right_eq_some, Option.some.injEq] at hstep
        exact Or.inr ⟨data, rfl, Or.inr (Or.inr ⟨bytes, rfl, hstep.2.symm⟩)⟩

/-- An entry with a text has a time with one. -/
theorem time_of_marshal {data : Bytes} (hdata : (newEntry h c).marshal = some data) :
    (Rfc3339.marshal ⟨c.now, 0⟩).isSome := by
  cases htime : Rfc3339.marshal ⟨c.now, 0⟩ with
  | none =>
    rw [AuditEntry.marshal, show (newEntry h c).timestamp = ⟨c.now, 0⟩ from rfl, htime] at hdata
    contradiction
  | some text => rfl

theorem step_kept {l : LogAction} (hkept : Kept s) (hcalm : Undisturbed s l) (hgood : NotAfterFailure s l)
    (hstep : s.step l = some s') : Kept s' := by
  cases l with
  | newAuditLog =>
    simp only [LogState.step, Option.some.injEq] at hstep
    subst hstep
    refine ⟨hkept.lines, hkept.chain, hkept.numbered, ?_⟩
    intro h hh _
    rw [← Option.some.inj hh]
    exact hkept.newAuditLog
  | append c outcome =>
    obtain ⟨h, hhandle, hcases⟩ := step_append_cases hstep
    rcases hcases with rfl | ⟨data, hdata, hcases⟩
    · -- only the handle differs, and it is marked
      exact ⟨hkept.lines, hkept.chain, hkept.numbered, fun _ _ hno => by simp at hno⟩
    · have htime := time_of_marshal hdata
      rcases hcases with ⟨rfl, rfl⟩ | ⟨rfl, rfl⟩ | ⟨bytes, rfl, rfl⟩
      · exact hkept.append (hkept.handle h hhandle (hgood htime)) hcalm hdata
      · exact hkept.append (hkept.handle h hhandle (hgood htime)) hcalm hdata
      · exact absurd hcalm id

/-- In every run in which no entry is written after a failed write on its handle, the
    file verifies and holds exactly the entries that were written. -/
theorem log_intact (hreach : ((logSystem.restrict Undisturbed).restrict NotAfterFailure).Reachable s) :
    Intact s := by
  refine (System.Reachable.invariant (P := Kept) ?_ ?_ hreach).intact
  · rintro _ rfl
    exact ⟨⟨[], rfl, .nil⟩, rfl, rfl, by simp⟩
  · rintro s l s' hkept ⟨hgood, hcalm, hstep⟩
    exact step_kept hkept hcalm hgood hstep

/-! ## Section 4: A failed write -/

/-- A call at the epoch. -/
def loginCall : AppendCall := ⟨0, Bytes.ascii "login", Bytes.ascii "alice", []⟩

theorem loginCall_valid : loginCall.Valid := by
  refine ⟨?_, ?_, ?_⟩ <;> decide

/-- An entry made at the epoch has a text. -/
theorem exists_marshal (h : Handle) {c : AppendCall} (hnow : c.now = 0) :
    ∃ data, (newEntry h c).marshal = some data := by
  have htime : Rfc3339.marshal ⟨0, 0⟩ = some (Rfc3339.format ⟨0, 0⟩) := by decide +kernel
  refine ⟨render ((newEntry h c).document (Rfc3339.format ⟨0, 0⟩)), ?_⟩
  rw [AuditEntry.marshal, show (newEntry h c).timestamp = ⟨c.now, 0⟩ from rfl, hnow, htime]
  rfl

/-- The state before the first call. -/
def newLog : LogState := ⟨[], none, [], [], false⟩

/-- The state after a file was opened for the first time. -/
def openedLog : LogState := ⟨[], some ⟨genesis, 0⟩, [], [], false⟩

theorem step_newLog : newLog.step .newAuditLog = some openedLog := rfl

/-- An entry that was written with a handle, acknowledged. -/
theorem append_written {data : Bytes} (s : LogState) (hdata : (newEntry h c).marshal = some data) :
    s.append h c .written = some { s with
      file := s.file ++ (data ++ [0x0a])
      handle := some ⟨(newEntry h c).hash, (newEntry h c).sequence⟩
      written := s.written ++ [newEntry h c]
      acknowledged := s.acknowledged ++ [newEntry h c] } := by
  unfold LogState.append
  simp only [hdata]

/-- A write that fails. -/
theorem append_writeFails {data : Bytes} (s : LogState) (hdata : (newEntry h c).marshal = some data) :
    s.append h c .writeFails = some { s with
      handle := some ⟨(newEntry h c).hash, (newEntry h c).sequence⟩
      failed := true } := by
  unfold LogState.append
  simp only [hdata]

/-- A write, a failing one, and a write after the file was opened again. -/
def reopenedRun : List LogAction :=
  [.newAuditLog, .append loginCall .written, .append loginCall .writeFails, .newAuditLog,
    .append loginCall .written]

/-- An entry is written, a write fails, the file is opened again, and another entry is
    written. -/
theorem log_intact_reopened : ∃ s, reopenedRun.foldlM LogState.step newLog = some s
    ∧ s.written.map AuditEntry.sequence = [1, 2] ∧ Intact s := by
  obtain ⟨data, hdata⟩ := exists_marshal ⟨genesis, 0⟩ (c := loginCall) rfl
  have hfirst := append_written openedLog hdata
  obtain ⟨lost, hlost⟩ := exists_marshal ⟨(newEntry ⟨genesis, 0⟩ loginCall).hash,
    (newEntry ⟨genesis, 0⟩ loginCall).sequence⟩ (c := loginCall) rfl
  have hfails := append_writeFails ⟨data ++ [0x0a], some ⟨(newEntry ⟨genesis, 0⟩ loginCall).hash,
    (newEntry ⟨genesis, 0⟩ loginCall).sequence⟩, [newEntry ⟨genesis, 0⟩ loginCall],
    [newEntry ⟨genesis, 0⟩ loginCall], false⟩ hlost
  obtain ⟨last, hlast⟩ := exists_marshal (newAuditLog (data ++ [0x0a])) (c := loginCall) rfl
  have hsecond := append_written ⟨data ++ [0x0a], some (newAuditLog (data ++ [0x0a])),
    [newEntry ⟨genesis, 0⟩ loginCall], [newEntry ⟨genesis, 0⟩ loginCall], false⟩ hlast
  have hinit : ((logSystem.restrict Undisturbed).restrict NotAfterFailure).Reachable newLog :=
    System.Reachable.init rfl
  have hopened : ((logSystem.restrict Undisturbed).restrict NotAfterFailure).Reachable openedLog :=
    hinit.tail (l := .newAuditLog) ⟨trivial, trivial, step_newLog⟩
  have hwritten := hopened.tail (l := LogAction.append loginCall .written)
    ⟨fun _ => rfl, loginCall_valid, hfirst⟩
  have hfailed := hwritten.tail (l := LogAction.append loginCall .writeFails)
    ⟨trivial, loginCall_valid, hfails⟩
  have hreopened := hfailed.tail (l := LogAction.newAuditLog) ⟨trivial, trivial, rfl⟩
  have hreach := hreopened.tail (l := LogAction.append loginCall .written)
    ⟨fun _ => rfl, loginCall_valid, hsecond⟩
  have hintact := log_intact hreach
  refine ⟨_, ?_, hintact.numbered, hintact⟩
  calc reopenedRun.foldlM LogState.step newLog
      = [.append loginCall .written, .append loginCall .writeFails, .newAuditLog,
          .append loginCall .written].foldlM LogState.step openedLog := System.foldlM_cons_of_step step_newLog
    _ = _ := System.foldlM_cons_of_step hfirst
    _ = _ := System.foldlM_cons_of_step hfails
    _ = _ := System.foldlM_cons_of_step rfl
    _ = _ := System.foldlM_cons_of_step hsecond

/-- A failed write and a successful one: the only entry of the file refers to one that
    is not there. -/
theorem log_broken_after_failure : ∃ s, (logSystem.restrict Undisturbed).Reachable s ∧ ¬ Intact s := by
  obtain ⟨lost, hlost⟩ := exists_marshal ⟨genesis, 0⟩ (c := loginCall) rfl
  obtain ⟨h, hh⟩ : ∃ h, h = (⟨(newEntry ⟨genesis, 0⟩ loginCall).hash,
      (newEntry ⟨genesis, 0⟩ loginCall).sequence⟩ : Handle) := ⟨_, rfl⟩
  obtain ⟨data, hdata⟩ := exists_marshal h (c := loginCall) rfl
  have hinit : (logSystem.restrict Undisturbed).Reachable newLog := System.Reachable.init rfl
  have hopened : (logSystem.restrict Undisturbed).Reachable openedLog :=
    hinit.tail (l := .newAuditLog) ⟨trivial, step_newLog⟩
  have hstep : openedLog.step (.append loginCall .writeFails)
      = some { openedLog with handle := some h, failed := true } := by
    show openedLog.append ⟨genesis, 0⟩ loginCall .writeFails = _
    unfold LogState.append
    simp only [hlost, hh]
  have hfailed := hopened.tail (l := LogAction.append loginCall .writeFails) ⟨loginCall_valid, hstep⟩
  have hwritten := hfailed.tail (l := LogAction.append loginCall .written)
    ⟨loginCall_valid, append_written { openedLog with handle := some h, failed := true } hdata⟩
  refine ⟨_, hwritten, fun hintact => ?_⟩
  have hverify := hintact.verifies
  rw [verify, hintact.entries] at hverify
  have hchain : checkChain genesis ([] ++ [newEntry h loginCall]) = .ok () := hverify
  obtain ⟨_, hprev, _⟩ := checkChain_snoc.mp hchain
  have hhash : (newEntry h loginCall).prevHash
      = computeEntryHash (newEntry ⟨genesis, 0⟩ loginCall) := by rw [hh]; rfl
  exact computeEntryHash_ne_genesis _ (hhash.symm.trans hprev)

end Owasaka.Integrity
