import Mathlib.Data.List.Induction
import Owasaka.Backup.LocalSink

/-! # Failed writes of the local sink (`backup/sinks.go`)

    Runs of `Write` without rotation, in which any file write or rename may fail, and the
    removals succeed.

    A backup whose sidecar fails is taken away by its name.  With a new name that leaves
    the directory as it was; with the name of an earlier backup the earlier one has been
    replaced by then, and is gone.  No other failure harms an earlier backup, and every
    backup in the directory has its sidecar at any time. -/

namespace Owasaka.Backup

open Directory

/-! ## Section 1: Runs -/

structure SinkCall where
  artifact : Artifact
  env : SinkEnv

/-- A directory, and the artifacts whose `Write` returned nil. -/
structure SinkRun where
  dir : Directory Bytes
  written : List Artifact

def SinkRun.step (s : SinkRun) (c : SinkCall) : SinkRun :=
  let result := write 0 c.artifact c.env s.dir
  { dir := result.2
    written := match result.1 with
      | .ok () => s.written ++ [c.artifact]
      | .error _ => s.written }

/-- The calls, one after the other, on a directory. -/
def runSink (d : Directory Bytes) (calls : List SinkCall) : SinkRun :=
  calls.foldl SinkRun.step ⟨d, []⟩

/-- Every artifact in the directory has a sidecar that is accepted. -/
def SidecarsMatch (d : Directory Bytes) : Prop :=
  ∀ name body, IsBackupName name → d[name]? = some body →
    ∃ sidecar, d[sidePath name]? = some sidecar ∧ verifySidecar body sidecar = .ok ()

/-- The last of the artifacts with its name. -/
def Latest (a : Artifact) (arts : List Artifact) : Prop :=
  ∃ front back, arts = front ++ a :: back ∧ ∀ b ∈ back, b.filename ≠ a.filename

/-- The sidecars match, and every artifact whose write succeeded has its content, unless
    it was written again. -/
structure Unharmed (s : SinkRun) : Prop where
  sidecars : SidecarsMatch s.dir
  kept : ∀ a, Latest a s.written → s.dir[a.filename]? = some a.encrypted

/-- After every call, nothing was harmed. -/
def HarmsNothing (d : Directory Bytes) (calls : List SinkCall) : Prop :=
  ∀ done, done <+: calls → Unharmed (runSink d done)

/-- An artifact with the name of one, and a sidecar that matches its body; what the call
    removes is gone. -/
structure SinkCall.WellFormed (c : SinkCall) : Prop where
  name : IsBackupName c.artifact.filename
  sidecar : verifySidecar c.artifact.encrypted c.artifact.sidecar = .ok ()
  removes : ∀ name, c.env.removeFails name = false

/-! ## Section 2: The last artifact of a name -/

variable {d : Directory Bytes} {calls : List SinkCall} {c : SinkCall} {s : SinkRun}
  {a : Artifact} {arts : List Artifact}

theorem latest_concat {b : Artifact} (hlatest : Latest a (arts ++ [b])) :
    a = b ∨ (b.filename ≠ a.filename ∧ Latest a arts) := by
  obtain ⟨front, back, heq, hback⟩ := hlatest
  induction back using List.reverseRecOn with
  | nil =>
    obtain ⟨_, hlast⟩ := List.append_inj' heq rfl
    exact .inl (List.singleton_inj.mp hlast).symm
  | append_singleton back last =>
    rw [← List.cons_append, ← List.append_assoc] at heq
    obtain ⟨hfront, hlast⟩ := List.append_inj' heq rfl
    right
    rw [List.singleton_inj.mp hlast]
    exact ⟨hback last (by simp), front, back, hfront, fun b hb => hback b (List.mem_append_left _ hb)⟩

theorem exists_latest (ha : a ∈ arts) : ∃ b, Latest b arts ∧ b.filename = a.filename := by
  induction arts using List.reverseRecOn with
  | nil => simp at ha
  | append_singleton arts last ih =>
    by_cases hlast : last.filename = a.filename
    · exact ⟨last, ⟨arts, [], rfl, by simp⟩, hlast⟩
    · rcases List.mem_append.mp ha with ha | ha
      · obtain ⟨b, ⟨front, back, rfl, hback⟩, hname⟩ := ih ha
        refine ⟨b, ⟨front, back ++ [last], by simp, ?_⟩, hname⟩
        intro b' hb'
        rcases List.mem_append.mp hb' with hb' | hb'
        · exact hback b' hb'
        · rw [List.mem_singleton.mp hb', hname]
          exact hlast
      · exact absurd (congrArg Artifact.filename (List.mem_singleton.mp ha)).symm hlast

theorem Latest.mem (hlatest : Latest a arts) : a ∈ arts := by
  obtain ⟨front, back, rfl, _⟩ := hlatest
  simp

/-! ## Section 3: One call -/

theorem ext_ne_tmp {name : String} (hname : IsBackupName name) : ext name ≠ ".tmp" := by
  rw [hname]
  decide

theorem ext_sidePath_ne_tmp (name : String) : ext (sidePath name) ≠ ".tmp" := by
  rw [ext_sidePath]
  decide

theorem written_step : (s.step c).written
    = if (write 0 c.artifact c.env s.dir).1 = .ok () then s.written ++ [c.artifact] else s.written := by
  unfold SinkRun.step
  cases hresult : (write 0 c.artifact c.env s.dir).1 with
  | error e => simp only [hresult, reduceCtorEq, if_false]
  | ok _ => simp only [hresult, if_true]

/-- The sidecars match after every call, whatever fails. -/
theorem SidecarsMatch.step (hmatch : SidecarsMatch s.dir) (hc : c.WellFormed) :
    SidecarsMatch (s.step c).dir := by
  intro name body hname hget
  have hsidePath := ext_sidePath_ne_tmp name
  show ∃ sidecar, (write 0 c.artifact c.env s.dir).2[sidePath name]? = some sidecar ∧ _
  -- nothing, the artifact removed, or both files: in each the others stand as before
  rcases write_cases c.artifact c.env s.dir with ⟨_, _, _, hdir⟩ | ⟨_, _, hdir⟩ | ⟨_, _, hdir⟩
  · have hbefore : s.dir[name]? = some body := (hdir name (ext_ne_tmp hname)).symm.trans hget
    rw [hdir _ hsidePath]
    exact hmatch name body hname hbefore
  · have hcleaned := (hdir name (ext_ne_tmp hname)).symm.trans hget
    by_cases hsame : name = c.artifact.filename
    · rw [if_pos hsame, hc.removes] at hcleaned
      contradiction
    · rw [if_neg hsame] at hcleaned
      rw [hdir _ hsidePath, if_neg (ne_sidePath hc.name name).symm]
      exact hmatch name body hname hcleaned
  · have hstored := (hdir name (ext_ne_tmp hname)).symm.trans hget
    rw [hdir _ hsidePath]
    rw [getElem?_store, if_neg (ne_sidePath hname _)] at hstored
    rw [getElem?_store]
    by_cases hsame : name = c.artifact.filename
    · rw [if_pos hsame, Option.some.injEq] at hstored
      subst hstored
      rw [if_pos (congrArg sidePath hsame)]
      exact ⟨_, rfl, hc.sidecar⟩
    · rw [if_neg hsame] at hstored
      rw [if_neg fun heq => hsame (sidePath_inj heq), if_neg (ne_sidePath hc.name name).symm]
      exact hmatch name body hname hstored

/-- **Step lemma**: a call that does not take away an earlier backup harms nothing. -/
theorem Unharmed.step (hs : Unharmed s) (hc : c.WellFormed)
    (hnames : ∀ a ∈ s.written, IsBackupName a.filename)
    (hfails : c.env.FailsAtSidecar → ∀ a ∈ s.written, a.filename ≠ c.artifact.filename) :
    Unharmed (s.step c) := by
  refine ⟨hs.sidecars.step hc, ?_⟩
  intro a hlatest
  show (write 0 c.artifact c.env s.dir).2[a.filename]? = some a.encrypted
  rw [written_step] at hlatest
  rcases write_cases c.artifact c.env s.dir with
    ⟨_, _, herror, hdir⟩ | ⟨hsidecar, herror, hdir⟩ | ⟨_, hok, hdir⟩
  · rw [if_neg herror] at hlatest
    rw [hdir _ (ext_ne_tmp (hnames a hlatest.mem))]
    exact hs.kept a hlatest
  · rw [if_neg herror] at hlatest
    rw [hdir _ (ext_ne_tmp (hnames a hlatest.mem)), if_neg (hfails hsidecar a hlatest.mem)]
    exact hs.kept a hlatest
  · rw [if_pos hok] at hlatest
    rcases latest_concat hlatest with rfl | ⟨hother, hbefore⟩
    · rw [hdir _ (ext_ne_tmp hc.name), getElem?_store, if_neg (ne_sidePath hc.name _), if_pos rfl]
    · have hname := hnames a hbefore.mem
      rw [hdir _ (ext_ne_tmp hname), getElem?_store, if_neg (ne_sidePath hname _), if_neg hother.symm]
      exact hs.kept a hbefore

/-- A call that fails at the sidecar takes an earlier backup of its name away. -/
theorem not_unharmed_step (hc : c.WellFormed) (hfails : c.env.FailsAtSidecar)
    (ha : a ∈ s.written) (hname : a.filename = c.artifact.filename) : ¬ Unharmed (s.step c) := by
  intro hs
  obtain ⟨b, hlatest, hb⟩ := exists_latest ha
  rcases write_cases c.artifact c.env s.dir with ⟨_, hnot, _, _⟩ | ⟨_, herror, hdir⟩ | ⟨hwrites, _, _⟩
  · exact hnot hfails
  · have hstill : Latest b (s.step c).written := by
      rw [written_step, if_neg herror]
      exact hlatest
    have hkept : (write 0 c.artifact c.env s.dir).2[b.filename]? = some b.encrypted := hs.kept b hstill
    rw [hb, hname, hdir _ (ext_ne_tmp hc.name), if_pos rfl, hc.removes] at hkept
    contradiction
  · exact hwrites.not_failsAtSidecar hfails

/-! ## Section 4: All calls -/

theorem runSink_concat (d : Directory Bytes) (calls : List SinkCall) (c : SinkCall) :
    runSink d (calls ++ [c]) = (runSink d calls).step c := by
  unfold runSink
  rw [List.foldl_append, List.foldl_cons, List.foldl_nil]

/-- The artifacts written are those of the calls that write both files. -/
theorem mem_written : a ∈ (runSink d calls).written ↔ ∃ c ∈ calls, c.env.Writes ∧ c.artifact = a := by
  induction calls using List.reverseRecOn with
  | nil => simp [runSink]
  | append_singleton calls c ih =>
    rw [runSink_concat, written_step]
    simp only [List.mem_append, List.mem_singleton, or_and_right, exists_or, exists_eq_left]
    rw [← ih]
    rcases write_cases c.artifact c.env (runSink d calls).dir with
      ⟨hnot, _, herror, _⟩ | ⟨hfails, herror, _⟩ | ⟨hwrites, hok, _⟩
    · rw [if_neg herror]
      simp [hnot]
    · have hnot : ¬ c.env.Writes := fun hwrites => hwrites.not_failsAtSidecar hfails
      rw [if_neg herror]
      simp [hnot]
    · rw [if_pos hok, List.mem_append, List.mem_singleton]
      simp [hwrites, eq_comm]

/-- No call fails at the sidecar under a name that an earlier call has written. -/
def NoneTakenAway (calls : List SinkCall) : Prop :=
  calls.Pairwise fun c c' => c.env.Writes → c'.env.FailsAtSidecar →
    c.artifact.filename ≠ c'.artifact.filename

theorem noneTakenAway_concat : NoneTakenAway (calls ++ [c]) ↔ NoneTakenAway calls
    ∧ (c.env.FailsAtSidecar → ∀ a ∈ (runSink d calls).written, a.filename ≠ c.artifact.filename) := by
  unfold NoneTakenAway
  rw [List.pairwise_append]
  constructor
  · rintro ⟨hcalls, _, hlast⟩
    refine ⟨hcalls, fun hfails a ha => ?_⟩
    obtain ⟨c', hc', hwrites, rfl⟩ := mem_written.mp ha
    exact hlast c' hc' c (by simp) hwrites hfails
  · rintro ⟨hcalls, hlast⟩
    refine ⟨hcalls, by simp, fun c' hc' c'' hc'' hwrites hfails => ?_⟩
    obtain rfl := List.mem_singleton.mp hc''
    exact hlast hfails c'.artifact (mem_written.mpr ⟨c', hc', hwrites, rfl⟩)

/-- Failed writes harm nothing exactly when no call fails at the sidecar under a name that
    an earlier call has written. -/
theorem failed_writes_harm_nothing_iff (hd : SidecarsMatch d) (hcalls : ∀ c ∈ calls, c.WellFormed) :
    HarmsNothing d calls ↔ NoneTakenAway calls := by
  -- by the last call: it is the one that can harm what the earlier ones left
  induction calls using List.reverseRecOn with
  | nil =>
    refine iff_of_true ?_ .nil
    intro done hdone
    rw [List.prefix_nil.mp hdone]
    refine ⟨hd, fun a hlatest => ?_⟩
    have hmem := hlatest.mem
    simp [runSink] at hmem
  | append_singleton calls c ih =>
    have hbefore := ih fun c hc => hcalls c (List.mem_append_left _ hc)
    have hc := hcalls c (by simp)
    have hnames : ∀ a ∈ (runSink d calls).written, IsBackupName a.filename := by
      intro a ha
      obtain ⟨c', hc', _, rfl⟩ := mem_written.mp ha
      exact (hcalls c' (List.mem_append_left _ hc')).name
    rw [@noneTakenAway_concat d]
    constructor
    · intro hall
      have hwas : HarmsNothing d calls := fun done hdone =>
        hall done (hdone.trans (List.prefix_append _ _))
      refine ⟨hbefore.mp hwas, fun hfails a ha hname => ?_⟩
      have hlast := hall _ List.prefix_rfl
      rw [runSink_concat] at hlast
      exact not_unharmed_step hc hfails ha hname hlast
    · rintro ⟨hnone, hlast⟩ done hdone
      have hwas := hbefore.mpr hnone
      rcases List.prefix_concat_iff.mp hdone with rfl | hdone
      · rw [runSink_concat]
        exact (hwas calls List.prefix_rfl).step hc hnames hlast
      · exact hwas done hdone

/-- Whatever fails, every artifact in the directory has its sidecar after every call. -/
theorem sidecarsMatch_runSink (hd : SidecarsMatch d) (hcalls : ∀ c ∈ calls, c.WellFormed) :
    SidecarsMatch (runSink d calls).dir := by
  induction calls using List.reverseRecOn with
  | nil => exact hd
  | append_singleton calls c ih =>
    rw [runSink_concat]
    exact (ih fun c hc => hcalls c (List.mem_append_left _ hc)).step (hcalls c (by simp))

/-! ## Section 5: Two backups of one name -/

/-- A backup of an empty log at the epoch, with an empty body. -/
def epochBackup : Artifact :=
  { filename := formatFilename 0 0, encrypted := [], sidecar := sidecarOf [], createdAt := 0,
    treeSize := 0, rootHashHex := "" }

def goodCall : SinkCall := ⟨epochBackup, ⟨false, none, none, false, fun _ => false⟩⟩

/-- The disk is full when the sidecar is written. -/
def sidecarFailsCall : SinkCall := ⟨epochBackup, ⟨false, none, some .writeFile, false, fun _ => false⟩⟩

theorem wellFormed_goodCall : goodCall.WellFormed :=
  ⟨isBackupName_formatFilename 0 0, verifySidecar_sidecarOf [], fun _ => rfl⟩

theorem wellFormed_sidecarFailsCall : sidecarFailsCall.WellFormed :=
  ⟨isBackupName_formatFilename 0 0, verifySidecar_sidecarOf [], fun _ => rfl⟩

theorem sidecarsMatch_empty : SidecarsMatch ∅ := by
  intro name body _ hget
  simp at hget

theorem failed_writes_harm_nothing_iff_epoch :
    HarmsNothing ∅ [sidecarFailsCall, goodCall] ↔ NoneTakenAway [sidecarFailsCall, goodCall] := by
  apply failed_writes_harm_nothing_iff sidecarsMatch_empty
  intro c hc
  rcases List.mem_pair.mp hc with rfl | rfl
  · exact wellFormed_sidecarFailsCall
  · exact wellFormed_goodCall

/-- A second backup of the same second and size fails at its sidecar: the first one is
    gone. -/
theorem failed_write_loses_backup : ¬ HarmsNothing ∅ [goodCall, sidecarFailsCall] := by
  intro hall
  have hlast := hall _ List.prefix_rfl
  have hfails : sidecarFailsCall.env.FailsAtSidecar := ⟨rfl, rfl, by simp [sidecarFailsCall]⟩
  have hwritten : epochBackup ∈ (runSink ∅ [goodCall]).written :=
    mem_written.mpr ⟨goodCall, by simp, ⟨rfl, rfl, rfl⟩, rfl⟩
  rw [show [goodCall, sidecarFailsCall] = [goodCall] ++ [sidecarFailsCall] from rfl, runSink_concat]
    at hlast
  exact not_unharmed_step wellFormed_sidecarFailsCall hfails hwritten rfl hlast

end Owasaka.Backup
