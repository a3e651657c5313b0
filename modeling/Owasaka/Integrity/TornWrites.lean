import Owasaka.Integrity.AuditLog

/-! # Entries after a crash

    A crash may leave a part of a line at the end of the file.  `NewAuditLog` skips it
    when it cannot be decoded, but the next entry is put right behind it, and the two
    become one line.

    An entry that was put on a line of its own stays there, since the file only grows. -/

namespace Owasaka.Integrity

open JsonText

variable {s s' : LogState} {h : Handle} {c : AppendCall}

/-! ## Section 1: Lines of their own -/

/-- The next byte of the file starts a line. -/
def AtLineStart (file : Bytes) : Prop := file = [] ∨ ∃ front, file = front ++ [0x0a]

/-- Every acknowledged entry is decoded from one of the lines. -/
def Durable (s : LogState) : Prop :=
  ∀ e ∈ s.acknowledged, ∃ line ∈ splitLines s.file, unmarshalEntry line = some e

/-- An entry that is acknowledged has valid UTF-8 arguments and starts a line. -/
def OnOwnLine (s : LogState) : LogAction → Prop
  | .append c .written => c.Valid ∧ AtLineStart s.file
  | _ => True

/-- The file has this line, between two line ends. -/
structure HasLine (file line : Bytes) : Prop where
  split : ∃ front rest, file = front ++ (line ++ 0x0a :: rest) ∧ AtLineStart front
  oneLine : 0x0a ∉ line

theorem HasLine.append {file line : Bytes} (hline : HasLine file line) (more : Bytes) :
    HasLine (file ++ more) line := by
  obtain ⟨⟨front, rest, rfl, hstart⟩, hone⟩ := hline
  exact ⟨⟨front, rest ++ more, by simp, hstart⟩, hone⟩

theorem HasLine.mem_splitLines {file line : Bytes} (hline : HasLine file line) :
    line ∈ splitLines file := by
  obtain ⟨⟨front, rest, rfl, hstart⟩, hone⟩ := hline
  rcases hstart with rfl | ⟨front, rfl⟩
  · rw [List.nil_append, splitLines_append hone]
    exact List.mem_cons_self
  · rw [List.append_assoc, List.singleton_append, splitLines, splitLinesFrom_whole,
      splitLines_append hone]
    exact List.mem_append_right _ List.mem_cons_self

/-! ## Section 2: Runs -/

/-- Every acknowledged entry has a line of its own, and hashes are valid texts. -/
structure OwnLines (s : LogState) : Prop where
  lines : ∀ e ∈ s.acknowledged, ∃ line, HasLine s.file line ∧ unmarshalEntry line = some e
  handle : ∀ h, s.handle = some h → Utf8.Valid h.lastHash

theorem OwnLines.durable (hown : OwnLines s) : Durable s := by
  intro e he
  obtain ⟨line, hline, hread⟩ := hown.lines e he
  exact ⟨line, hline.mem_splitLines, hread⟩

/-- More bytes at the end of the file, and no further acknowledged entry. -/
theorem OwnLines.grow (hown : OwnLines s) (more : Bytes) (handle : Option Handle)
    (hhandle : ∀ h, handle = some h → Utf8.Valid h.lastHash) (written : List AuditEntry)
    (failed : Bool) : OwnLines ⟨s.file ++ more, handle, written, s.acknowledged, failed⟩ where
  lines := by
    intro e he
    obtain ⟨line, hline, hread⟩ := hown.lines e he
    exact ⟨line, hline.append more, hread⟩
  handle := hhandle

theorem recoverLines_valid {lines : List Bytes} (hh : Utf8.Valid h.lastHash) :
    Utf8.Valid (recoverLines h lines).lastHash := by
  induction lines generalizing h with
  | nil => exact hh
  | cons line lines ih =>
    rw [recoverLines]
    split
    · exact ih hh
    · split
      · exact ih hh
      · next e hread => exact ih (unmarshalEntry_decoded hread).hash

theorem step_ownLines {l : LogAction} (hown : OwnLines s) (hgood : OnOwnLine s l)
    (hstep : s.step l = some s') : OwnLines s' := by
  cases l with
  | newAuditLog =>
    simp only [LogState.step, Option.some.injEq] at hstep
    subst hstep
    refine ⟨hown.lines, ?_⟩
    intro h hh
    rw [← Option.some.inj hh]
    exact recoverLines_valid valid_genesis
  | append c outcome =>
    obtain ⟨h, hhandle, hcases⟩ := step_append_cases hstep
    have hprev := hown.handle h hhandle
    have hhash : ∀ h', (some ⟨(newEntry h c).hash, (newEntry h c).sequence⟩ : Option Handle) = some h' →
        Utf8.Valid h'.lastHash := by
      intro h' hh'
      rw [← Option.some.inj hh']
      exact valid_computeEntryHash _
    rcases hcases with rfl | ⟨data, hdata, ⟨rfl, rfl⟩ | ⟨rfl, rfl⟩ | ⟨bytes, rfl, rfl⟩⟩
    · exact ⟨hown.lines, hhash⟩
    · have hline := lineOf_marshal (newEntry_valid hprev hgood.1) (Int.dvd_zero 60) hdata
      refine ⟨?_, hhash⟩
      intro e he
      rcases List.mem_append.mp he with he | he
      · obtain ⟨line, hhas, hread⟩ := hown.lines e he
        exact ⟨line, hhas.append _, hread⟩
      · -- the new entry starts a line and ends it
        rw [List.mem_singleton.mp he]
        exact ⟨data, ⟨⟨s.file, [], rfl, hgood.2⟩, hline.oneLine⟩, hline.decodes⟩
    · exact hown.grow _ _ hhash _ _
    · exact hown.grow _ _ (by simp) _ _

/-- In every run in which every acknowledged entry starts a line, all of them stay on
    their lines. -/
theorem acknowledged_durable (hreach : (logSystem.restrict OnOwnLine).Reachable s) : Durable s := by
  refine (System.Reachable.invariant (P := OwnLines) ?_ ?_ hreach).durable
  · rintro _ rfl
    exact ⟨by simp, by simp⟩
  · rintro s l s' hown ⟨hgood, hstep⟩
    exact step_ownLines hown hgood hstep

/-- An entry, acknowledged. -/
theorem exists_written (s : LogState) (hhandle : s.handle = some h) :
    ∃ s' h', s.step (.append loginCall .written) = some s' ∧ s'.handle = some h'
      ∧ s'.acknowledged = s.acknowledged ++ [newEntry h loginCall] ∧ AtLineStart s'.file := by
  obtain ⟨data, hdata⟩ := exists_marshal h (c := loginCall) rfl
  have hstep : s.step (.append loginCall .written) = s.append h loginCall .written := by
    simp only [LogState.step, hhandle]
  rw [hstep, append_written s hdata]
  exact ⟨_, _, rfl, rfl, rfl, .inr ⟨s.file ++ data, by simp⟩⟩

/-- An entry whose `Sync` fails. -/
theorem exists_syncFails (s : LogState) (hhandle : s.handle = some h) :
    ∃ s' h', s.step (.append loginCall .syncFails) = some s' ∧ s'.handle = some h'
      ∧ s'.acknowledged = s.acknowledged ∧ AtLineStart s'.file := by
  obtain ⟨data, hdata⟩ := exists_marshal h (c := loginCall) rfl
  simp only [LogState.step, hhandle]
  unfold LogState.append
  simp only [hdata]
  exact ⟨_, _, rfl, rfl, rfl, .inr ⟨s.file ++ data, by simp⟩⟩

/-- A crash in the first byte of a line. -/
theorem exists_crash (s : LogState) (hhandle : s.handle = some h) :
    ∃ s', s.step (.append loginCall (.crash 1)) = some s' ∧ s'.acknowledged = s.acknowledged := by
  obtain ⟨data, hdata⟩ := exists_marshal h (c := loginCall) rfl
  have hlength : 1 < (data ++ [0x0a]).length := by
    have hpos := List.length_pos_of_ne_nil (marshal_line hdata).1
    simpa using hpos
  simp only [LogState.step, hhandle]
  unfold LogState.append
  simp only [hdata, if_pos hlength]
  exact ⟨_, rfl, rfl⟩

/-- An entry, a crash in the next one, one that ends the torn line and is not acknowledged,
    and one on a line of its own. -/
def crashedRun : List LogAction :=
  [.newAuditLog, .append loginCall .written, .append loginCall (.crash 1), .newAuditLog,
    .append loginCall .syncFails, .append loginCall .written]

theorem acknowledged_durable_crashed : ∃ s, crashedRun.foldlM LogState.step newLog = some s
    ∧ s.acknowledged.length = 2 ∧ Durable s := by
  obtain ⟨s₁, h₁, hfirst, hhandle₁, hack₁, _⟩ := exists_written openedLog rfl
  obtain ⟨s₂, hcrash, hack₂⟩ := exists_crash s₁ hhandle₁
  have hreopen : s₂.step .newAuditLog
      = some { s₂ with handle := some (newAuditLog s₂.file), failed := false } := rfl
  obtain ⟨s₃, h₃, hends, hhandle₃, hack₃, hstart⟩ :=
    exists_syncFails { s₂ with handle := some (newAuditLog s₂.file), failed := false } rfl
  obtain ⟨s₄, h₄, hlast, _, hack₄, _⟩ := exists_written s₃ hhandle₃
  have hinit : (logSystem.restrict OnOwnLine).Reachable newLog := System.Reachable.init rfl
  have hopened := hinit.tail (l := LogAction.newAuditLog) ⟨trivial, step_newLog⟩
  have hwritten := hopened.tail (l := LogAction.append loginCall .written)
    ⟨⟨loginCall_valid, .inl rfl⟩, hfirst⟩
  have hcrashed := hwritten.tail (l := LogAction.append loginCall (.crash 1)) ⟨trivial, hcrash⟩
  have hreopened := hcrashed.tail (l := LogAction.newAuditLog) ⟨trivial, hreopen⟩
  have hended := hreopened.tail (l := LogAction.append loginCall .syncFails) ⟨trivial, hends⟩
  have hreach := hended.tail (l := LogAction.append loginCall .written)
    ⟨⟨loginCall_valid, hstart⟩, hlast⟩
  refine ⟨s₄, ?_, ?_, acknowledged_durable hreach⟩
  · rw [crashedRun, System.foldlM_cons_of_step step_newLog, System.foldlM_cons_of_step hfirst,
      System.foldlM_cons_of_step hcrash, System.foldlM_cons_of_step hreopen,
      System.foldlM_cons_of_step hends, System.foldlM_cons_of_step hlast]
    rfl
  · rw [hack₄, hack₃, hack₂, hack₁]
    rfl

/-! ## Section 3: A torn line -/

theorem parse_two_braces (t : Bytes) : parse (0x7b :: 0x7b :: t) = none := by
  have hvalue : parseValue (2 * (0x7b :: 0x7b :: t).length + 2) maxDepth (0x7b :: 0x7b :: t) = none := by
    rw [parseValue, skipSpace_cons (by rfl)]
    simp only [if_neg (show ¬ (0x7b : UInt8) = 0x22 by decide),
      if_neg (show ¬ (0x7b : UInt8) = 0x5b by decide), if_true, maxDepth,
      if_neg (show ¬ 10000 = 0 by decide),
      expect_ne (show isSpace 0x7b = false from rfl) (show (0x7b : UInt8) ≠ 0x7d by decide)]
    rw [List.length_cons, Nat.mul_succ, Nat.add_assoc, parseMembers,
      expect_ne (show isSpace 0x7b = false from rfl) (show (0x7b : UInt8) ≠ 0x22 by decide)]
    rfl
  rw [parse, hvalue]

/-- The process stops after the first byte of an entry; the next entry, which is
    acknowledged, is lost. -/
theorem torn_line_loses_entry : ∃ s, logSystem.Reachable s ∧ ¬ Durable s := by
  obtain ⟨torn, htorn⟩ := exists_marshal ⟨genesis, 0⟩ (c := loginCall) rfl
  have hline := marshal_line htorn
  have hhead : ∃ t, torn = 0x7b :: t := by
    simp only [AuditEntry.marshal, Option.map_eq_some_iff] at htorn
    obtain ⟨ts, _, rfl⟩ := htorn
    exact ⟨_, rfl⟩
  obtain ⟨t, rfl⟩ := hhead
  have hinit : logSystem.Reachable newLog := System.Reachable.init rfl
  have hopened : logSystem.Reachable openedLog := hinit.tail (l := .newAuditLog) step_newLog
  have hcrash : openedLog.step (.append loginCall (.crash 1))
      = some ⟨[0x7b], none, [], [], false⟩ := by
    show openedLog.append ⟨genesis, 0⟩ loginCall (.crash 1) = _
    unfold LogState.append
    simp [htorn, openedLog]
  have hcrashed := hopened.tail (l := LogAction.append loginCall (.crash 1)) hcrash
  have hreopen : LogState.step ⟨[0x7b], none, [], [], false⟩ .newAuditLog
      = some ⟨[0x7b], some ⟨genesis, 0⟩, [], [], false⟩ := by
    have hempty : newAuditLog [0x7b] = ⟨genesis, 0⟩ := by decide +kernel
    simp only [LogState.step, hempty]
  have hreopened := hcrashed.tail (l := LogAction.newAuditLog) hreopen
  have happended := hreopened.tail (l := LogAction.append loginCall .written)
    (append_written ⟨[0x7b], some ⟨genesis, 0⟩, [], [], false⟩ htorn)
  refine ⟨_, happended, fun hdurable => ?_⟩
  obtain ⟨line, hmem, hread⟩ := hdurable (newEntry ⟨genesis, 0⟩ loginCall) (by simp)
  -- both pieces are on one line, which cannot be decoded
  have hone : (0x0a : UInt8) ∉ (0x7b : UInt8) :: 0x7b :: t := by
    intro hmem'
    rcases List.mem_cons.mp hmem' with heq | hmem'
    · exact absurd heq (by decide)
    · exact hline.2 hmem'
  have hsplit : splitLines ([0x7b] ++ ((0x7b :: t) ++ [0x0a])) = [0x7b :: 0x7b :: t] := by
    have happend := splitLines_append hone []
    exact happend
  rw [hsplit, List.mem_singleton] at hmem
  rw [hmem, unmarshalEntry, parse_two_braces] at hread
  simp at hread

end Owasaka.Integrity
