import Owasaka.Backup.Engine
import Owasaka.Foundation.Directory

/-! # The local sink (`backup/sinks.go`)

    `Write` puts an artifact and its sidecar into the directory of the sink, each as a
    file with another name that is then renamed; when the sidecar fails, the artifact
    is taken away again.  With `keepLast` above 0 the pairs of files are then rotated:
    the first ones in the order of the names are removed.  A removal that fails is not
    noticed.

    Names of artifacts end in `.age`, those of sidecars in `.sha256` and those of
    unfinished files in `.tmp`, so no file of one kind is written over another kind. -/

namespace Owasaka.Backup

open Directory

/-! ## Section 1: `Write` -/

/-- Where `atomicWrite` fails; neither step has an effect then. -/
inductive WriteFault where
  | writeFile
  | rename
  deriving DecidableEq

/-- What a call of `Write` meets: the context, and the steps that fail. -/
structure SinkEnv where
  canceled : Bool
  encrypted : Option WriteFault
  sidecar : Option WriteFault
  readDirFails : Bool
  /-- The files that `os.Remove` leaves where they are. -/
  removeFails : String → Bool

inductive SinkError where
  | canceled
  | encrypted (fault : WriteFault)
  | sidecar (fault : WriteFault)
  | rotate
  deriving DecidableEq

def sidePath (encPath : String) : String := encPath ++ ".sha256"

/-- The first failure, and the directory that is left. -/
def atomicWrite (path : String) (body : Bytes) (fault : Option WriteFault) (d : Directory Bytes) :
    Option WriteFault × Directory Bytes :=
  let tmp := path ++ ".tmp"
  match fault with
  | some .writeFile => (some .writeFile, d)
  | some .rename => (some .rename, d.writeFile tmp body)
  | none => (none, (d.writeFile tmp body).rename tmp path)

/-- The artifacts in a directory that have a sidecar. -/
def pairs (d : Directory Bytes) : List String :=
  d.readDir.filter fun name => decide (ext name = ".age") && (d[sidePath name]?).isSome

/-- `os.Remove`, whose error is dropped. -/
def removeFile (fails : String → Bool) (d : Directory Bytes) (name : String) : Directory Bytes :=
  if fails name then d else d.remove name

def removePair (fails : String → Bool) (d : Directory Bytes) (base : String) : Directory Bytes :=
  removeFile fails (removeFile fails d base) (sidePath base)

def rotate (keepLast : Nat) (fails : String → Bool) (d : Directory Bytes) : Directory Bytes :=
  if (pairs d).length ≤ keepLast then d
  else
    let sorted := (pairs d).mergeSort fun a b => decide (a ≤ b)
    (sorted.take ((pairs d).length - keepLast)).foldl (removePair fails) d

/-- `LocalSink.Write`. -/
def write (keepLast : Nat) (art : Artifact) (env : SinkEnv) (d : Directory Bytes) :
    Except SinkError Unit × Directory Bytes :=
  if env.canceled then (.error .canceled, d)
  else
    match atomicWrite art.filename art.encrypted env.encrypted d with
    | (some fault, d) => (.error (.encrypted fault), d)
    | (none, d) =>
      match atomicWrite (sidePath art.filename) art.sidecar env.sidecar d with
      | (some fault, d) => (.error (.sidecar fault), removeFile env.removeFails d art.filename)
      | (none, d) =>
        if keepLast > 0 then
          if env.readDirFails then (.error .rotate, d)
          else (.ok (), rotate keepLast env.removeFails d)
        else (.ok (), d)

/-! ## Section 2: Names -/

/-- The name of an artifact. -/
def IsBackupName (name : String) : Prop := ext name = ".age"

theorem ext_tmp (name : String) : ext (name ++ ".tmp") = ".tmp" :=
  @ext_append _ name ['t', 'm', 'p'] rfl (by decide)

theorem ext_sidePath (name : String) : ext (sidePath name) = ".sha256" :=
  @ext_append _ name ['s', 'h', 'a', '2', '5', '6'] rfl (by decide)

theorem isBackupName_formatFilename (t : Int) (treeSize : UInt64) :
    IsBackupName (formatFilename t treeSize) := by
  have hend : ".db.age" = ".db" ++ ".age" := rfl
  unfold IsBackupName formatFilename
  rw [hend, ← String.append_assoc]
  exact @ext_append _ _ ['a', 'g', 'e'] rfl (by decide)

theorem sidePath_inj {name other : String} (heq : sidePath name = sidePath other) : name = other := by
  have hlist := congrArg String.toList heq
  unfold sidePath at hlist
  rw [String.toList_append, String.toList_append] at hlist
  exact String.toList_inj.mp (List.append_cancel_right hlist)

variable {d : Directory Bytes} {name other path : String} {body : Bytes} {a : Artifact} {env : SinkEnv}

theorem ne_sidePath (hname : IsBackupName name) (other : String) : name ≠ sidePath other := by
  apply ne_of_ext_ne
  rw [hname, ext_sidePath]
  decide

/-! ## Section 3: What a call does -/

theorem getElem?_atomicWrite : (atomicWrite path body none d).2[name]?
    = if name = path then some body else if name = path ++ ".tmp" then none else d[name]? := by
  unfold atomicWrite
  have hsrc : (d.writeFile (path ++ ".tmp") body)[path ++ ".tmp"]? = some body := by
    rw [getElem?_writeFile, if_pos rfl]
  simp only
  rw [getElem?_rename hsrc, getElem?_writeFile]
  by_cases htmp : name = path ++ ".tmp"
  · simp only [if_pos htmp]
  · simp only [if_neg htmp]

/-- A failed step leaves at most a file that is unfinished. -/
theorem getElem?_atomicWrite_fault (fault : WriteFault) (hname : ext name ≠ ".tmp") :
    (atomicWrite path body (some fault) d).2[name]? = d[name]? := by
  have hne : name ≠ path ++ ".tmp" := by
    rintro rfl
    exact hname (ext_tmp path)
  cases fault with
  | writeFile => rfl
  | rename =>
    show (d.writeFile (path ++ ".tmp") body)[name]? = d[name]?
    rw [getElem?_writeFile, if_neg hne]

theorem exists_atomicWrite (path : String) (body : Bytes) (fault : Option WriteFault)
    (d : Directory Bytes) : ∃ d', atomicWrite path body fault d = (fault, d') := by
  rcases fault with _ | _ | _ <;> exact ⟨_, rfl⟩

/-- Both files are written. -/
def SinkEnv.Writes (env : SinkEnv) : Prop :=
  env.canceled = false ∧ env.encrypted = none ∧ env.sidecar = none

/-- The artifact is in the directory when its sidecar fails. -/
def SinkEnv.FailsAtSidecar (env : SinkEnv) : Prop :=
  env.canceled = false ∧ env.encrypted = none ∧ env.sidecar ≠ none

theorem SinkEnv.Writes.not_failsAtSidecar (hwrites : env.Writes) : ¬ env.FailsAtSidecar :=
  fun hfails => hfails.2.2 hwrites.2.2

/-- The files of an artifact put in the directory. -/
def store (d : Directory Bytes) (a : Artifact) : Directory Bytes :=
  (d.writeFile a.filename a.encrypted).writeFile (sidePath a.filename) a.sidecar

theorem getElem?_store : (store d a)[name]? = if name = sidePath a.filename then some a.sidecar
    else if name = a.filename then some a.encrypted else d[name]? := by
  unfold store
  rw [getElem?_writeFile, getElem?_writeFile]

/-- The directory after both files were written, up to unfinished ones. -/
theorem getElem?_bothWritten {d₁ d₂ : Directory Bytes}
    (henc : atomicWrite a.filename a.encrypted none d = (none, d₁))
    (hside : atomicWrite (sidePath a.filename) a.sidecar none d₁ = (none, d₂))
    (hother : ext other ≠ ".tmp") : d₂[other]? = (store d a)[other]? := by
  have htmp : ∀ path, other ≠ path ++ ".tmp" := by
    rintro path rfl
    exact hother (ext_tmp path)
  have h₁ := @getElem?_atomicWrite d other a.filename a.encrypted
  have h₂ := @getElem?_atomicWrite d₁ other (sidePath a.filename) a.sidecar
  rw [henc, if_neg (htmp _)] at h₁
  rw [hside, if_neg (htmp _)] at h₂
  rw [h₂, h₁, getElem?_store]

theorem getElem?_removeFile {fails : String → Bool} : (removeFile fails d other)[name]?
    = if name = other ∧ fails other = false then none else d[name]? := by
  unfold removeFile
  cases fails other with
  | true => simp
  | false => simp [getElem?_remove]

/-- **What a call without rotation does**, up to unfinished files: nothing, or the
    artifact is taken away unless that fails too, or it is there with its sidecar. -/
theorem write_cases (a : Artifact) (env : SinkEnv) (d : Directory Bytes) :
    (¬ env.Writes ∧ ¬ env.FailsAtSidecar ∧ (write 0 a env d).1 ≠ .ok ()
        ∧ ∀ name, ext name ≠ ".tmp" → (write 0 a env d).2[name]? = d[name]?)
      ∨ (env.FailsAtSidecar ∧ (write 0 a env d).1 ≠ .ok ()
        ∧ ∀ name, ext name ≠ ".tmp" →
          (write 0 a env d).2[name]? = if name = a.filename then
            if env.removeFails a.filename then some a.encrypted else none
          else d[name]?)
      ∨ (env.Writes ∧ (write 0 a env d).1 = .ok ()
        ∧ ∀ name, ext name ≠ ".tmp" → (write 0 a env d).2[name]? = (store d a)[name]?) := by
  unfold SinkEnv.Writes SinkEnv.FailsAtSidecar write
  cases hcanceled : env.canceled with
  | true =>
    left
    simp
  | false =>
    obtain ⟨d₁, henc⟩ := exists_atomicWrite a.filename a.encrypted env.encrypted d
    simp only [Bool.false_eq_true, if_false, henc]
    cases hencrypted : env.encrypted with
    -- the artifact was not renamed into place
    | some fault =>
      left
      refine ⟨by simp, by simp, by simp, fun name hother => ?_⟩
      have h := @getElem?_atomicWrite_fault d name a.filename a.encrypted fault hother
      rwa [← hencrypted, henc] at h
    | none =>
      obtain ⟨d₂, hside⟩ := exists_atomicWrite (sidePath a.filename) a.sidecar env.sidecar d₁
      simp only [hside]
      rw [hencrypted] at henc
      cases hsidecar : env.sidecar with
      -- the artifact was in place already and is removed again
      | some fault =>
        right; left
        refine ⟨by simp, by simp, fun name hother => ?_⟩
        have h₁ := @getElem?_atomicWrite d name a.filename a.encrypted
        have h₂ := @getElem?_atomicWrite_fault d₁ name (sidePath a.filename) a.sidecar fault hother
        have htmp : name ≠ a.filename ++ ".tmp" := by
          rintro rfl
          exact hother (ext_tmp _)
        rw [henc, if_neg htmp] at h₁
        rw [← hsidecar, hside] at h₂
        simp only at h₁ h₂ ⊢
        rw [getElem?_removeFile, h₂, h₁]
        by_cases heq : name = a.filename
        · cases hremove : env.removeFails a.filename <;> simp [heq]
        · simp [heq]
      | none =>
        right; right
        rw [hsidecar] at hside
        refine ⟨by simp, by simp, fun name hother => ?_⟩
        exact getElem?_bothWritten henc hside hother

/-- A call of which nothing fails, in a directory without unfinished files. -/
theorem write_of_writes (hname : IsBackupName a.filename) (keepLast : Nat)
    (htmp : ∀ name, ext name = ".tmp" → d[name]? = none) (hwrites : env.Writes)
    (hread : env.readDirFails = false) : write keepLast a env d
      = (.ok (), if keepLast > 0 then rotate keepLast env.removeFails (store d a) else store d a) := by
  obtain ⟨hcanceled, hencrypted, hsidecar⟩ := hwrites
  obtain ⟨d₁, henc⟩ := exists_atomicWrite a.filename a.encrypted none d
  obtain ⟨d₂, hside⟩ := exists_atomicWrite (sidePath a.filename) a.sidecar none d₁
  have hstore : d₂ = store d a := by
    apply Std.ExtTreeMap.ext_getElem?
    intro other
    by_cases hother : ext other = ".tmp"
    · have hstored : (store d a)[other]? = none := by
        rw [getElem?_store, if_neg (ne_of_ext_ne (by rw [hother, ext_sidePath]; decide)),
          if_neg (ne_of_ext_ne (by rw [hother, hname]; decide)), htmp other hother]
      have h₁ := @getElem?_atomicWrite d other a.filename a.encrypted
      have h₂ := @getElem?_atomicWrite d₁ other (sidePath a.filename) a.sidecar
      rw [henc, if_neg (ne_of_ext_ne (by rw [hother, hname]; decide)), htmp other hother,
        ite_self] at h₁
      rw [hside, if_neg (ne_of_ext_ne (by rw [hother, ext_sidePath]; decide)), h₁, ite_self] at h₂
      rw [h₂, hstored]
    · exact getElem?_bothWritten henc hside hother
  unfold write
  simp only [hcanceled, hencrypted, hsidecar, henc, hside, hread, hstore, Bool.false_eq_true, if_false]
  split <;> rfl

end Owasaka.Backup
