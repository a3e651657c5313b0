import Owasaka.Foundation.Bolt
import Owasaka.Foundation.Civil
import Owasaka.Foundation.Hex
import Owasaka.Foundation.Json
import Owasaka.Foundation.Sha256
import Owasaka.Transparency.Hash

/-! # The backup engine (`backup/engine.go`, `backup/source.go`)

    `Run` copies the database inside a read transaction, encrypts the copy,
    asks the source for the state of the transparency log, if it has one, and hands the
    artifact to the sinks.  It is given here as the parts between which other goroutines
    may act: the snapshot (`capture`), and what is made of the size and the root
    that are read after it (`assemble`).

    The file format of the database and the encryption are parameters. -/

namespace Owasaka.Backup

open Bolt Transparency

/-! ## Section 1: Database files and encryption -/

/-- bbolt's database files.  `layout` stands for what a file's bytes depend on
    beside the buckets, such as the placement of pages. -/
structure BoltFile where
  /-- `Tx.WriteTo`, in a transaction that sees the given buckets. -/
  writeTo : (layout : Bytes) → Db → Except String Bytes
  /-- `bolt.Open` on a file with these bytes. -/
  openFile : Bytes → Except String Db
  /-- The file after a write transaction on it. -/
  commit : Bytes → Db → Bytes

/-- What is written opens as the same buckets. -/
def BoltFile.RoundTrips (file : BoltFile) : Prop :=
  ∀ layout db raw, file.writeTo layout db = .ok raw → file.openFile raw = .ok db

/-- The age envelope: `encrypt` is `age.Encrypt` with the write and the close,
    `decrypt` is `age.Decrypt` with the read.  `nonce` is the randomness of a
    call; recipients and identities are public and private keys. -/
structure Age where
  encrypt : (nonce : Bytes) → (recipients : List Bytes) → Bytes → Except String Bytes
  decrypt : (identities : List Bytes) → Bytes → Except String Bytes

/-- The identities are authorized for the recipients: there is one, and decryption
    inverts encryption. -/
structure Age.Inverts (age : Age) (recipients identities : List Bytes) : Prop where
  nonempty : identities ≠ []
  decrypt_encrypt : ∀ nonce plain enc, age.encrypt nonce recipients plain = .ok enc →
    age.decrypt identities enc = .ok plain

/-! ## Section 2: `Run` -/

structure Artifact where
  filename : String
  encrypted : Bytes
  sidecar : Bytes
  createdAt : Int
  treeSize : UInt64
  rootHashHex : String

/-- The zero value `Artifact{}`. -/
def Artifact.zero : Artifact := ⟨"", [], [], zeroTime, 0, ""⟩

inductive RunError where
  | canceled (cause : String)
  | sourceWrite (cause : String)
  | encrypt (cause : String)
  | sink (name cause : String)
  deriving DecidableEq

/-- What a call of `Run` meets up to the end of its encryption: the error of the
    context, the clock, the error of the read transaction, the layout of the
    file and the randomness of the envelope. -/
structure RunEnv where
  canceled : Option String
  now : Int
  viewFault : Option String
  layout : Bytes
  nonce : Bytes

/-- `BoltSource.WriteTo` into a buffer. -/
def writeTo (file : BoltFile) (env : RunEnv) (db : Db) : Except String Bytes :=
  match env.viewFault with
  | some e => .error e
  | none => file.writeTo env.layout db

/-- The SHA-256 digest in hexadecimal, and a line end. -/
def sidecarOf (encrypted : Bytes) : Bytes := Hex.encode (Sha256.sum encrypted).toList ++ [0x0a]

/-- What `Run` has after its encryption. -/
structure Captured where
  createdAt : Int
  encrypted : Bytes
  sidecar : Bytes

/-- `Run` up to the end of the encryption. -/
def capture (file : BoltFile) (age : Age) (recipients : List Bytes) (env : RunEnv) (db : Db) :
    Except RunError Captured :=
  match env.canceled with
  | some e => .error (.canceled e)
  | none =>
    match writeTo file env db with
    | .error e => .error (.sourceWrite e)
    | .ok raw =>
      -- the read transaction is over
      match age.encrypt env.nonce recipients raw with
      | .error e => .error (.encrypt e)
      | .ok encrypted => .ok ⟨env.now, encrypted, sidecarOf encrypted⟩

/-- `BackupMetadata`, on the answers of `Size` and `Root` where the source has a `Tree`. -/
def backupMetadata : Option (Nat × RootHash) → UInt64 × String
  -- without a tree: zeros, and no error
  | none => (0, "")
  | some (size, root) => (UInt64.ofNat size, Hex.encodeToString root.toList)

def formatFilename (t : Int) (treeSize : UInt64) : String :=
  "backup-" ++ Civil.stamp t ++ "-tree" ++ toString treeSize.toNat ++ ".db.age"

/-- The artifact of a snapshot and of what the source's tree, if any, has answered. -/
def assemble (c : Captured) (tree : Option (Nat × RootHash)) : Artifact :=
  let md := backupMetadata tree
  { filename := formatFilename c.createdAt md.1, encrypted := c.encrypted, sidecar := c.sidecar,
    createdAt := c.createdAt, treeSize := md.1, rootHashHex := md.2 }

/-- The loop over the sinks, each with its name and the error of its `Write`. -/
def writeSinks : List (String × Option String) → Option RunError
  | [] => none
  -- the first failure ends the loop; the artifact is returned with it
  | (name, some e) :: _ => some (.sink name e)
  | (_, none) :: rest => writeSinks rest

/-! ## Section 3: Reading an artifact -/

inductive ReadError where
  | noRecipients
  | decrypt (cause : String)
  | emptySidecar
  | sidecarMismatch (expected got : Bytes)
  deriving DecidableEq

def decryptArtifact (age : Age) (identities : List Bytes) (encrypted : Bytes) :
    Except ReadError Bytes :=
  if identities.length = 0 then .error .noRecipients
  else
    match age.decrypt identities encrypted with
    | .error e => .error (.decrypt e)
    | .ok plain => .ok plain

def verifySidecar (encrypted sidecar : Bytes) : Except ReadError Unit :=
  let expectedHex := Hex.trimSpace sidecar
  let gotHex := Hex.encode (Sha256.sum encrypted).toList
  if expectedHex = [] then .error .emptySidecar
  else if !Hex.equalFold expectedHex gotHex then .error (.sidecarMismatch expectedHex gotHex)
  else .ok ()

theorem encode_sum_ne_nil (msg : Bytes) : Hex.encode (Sha256.sum msg).toList ≠ [] := by
  have hlength : (Hex.encode (Sha256.sum msg).toList).length = 64 := by simp [Hex.encode]
  intro hnil
  rw [hnil] at hlength
  contradiction

/-- The sidecar that `Run` makes is accepted. -/
theorem verifySidecar_sidecarOf (encrypted : Bytes) :
    verifySidecar encrypted (sidecarOf encrypted) = .ok () := by
  unfold verifySidecar sidecarOf
  -- trimming takes off the line end that the engine added
  rw [Hex.trimSpace_line (encode_sum_ne_nil encrypted) (Hex.encode_subset _)]
  simp [encode_sum_ne_nil, Hex.equalFold]

variable {file : BoltFile} {age : Age} {recipients identities : List Bytes} {env : RunEnv} {db : Db}
  {c : Captured}

/-- **A captured snapshot opens as the database it was taken of.** -/
theorem capture_ok (hfile : file.RoundTrips) (hage : age.Inverts recipients identities)
    (hcap : capture file age recipients env db = .ok c) :
    c.sidecar = sidecarOf c.encrypted ∧
      ∃ plain, decryptArtifact age identities c.encrypted = .ok plain
        ∧ file.openFile plain = .ok db := by
  unfold capture writeTo at hcap
  cases hcanceled : env.canceled with
  | some e => simp [hcanceled] at hcap
  | none =>
    cases hview : env.viewFault with
    | some e => simp [hcanceled, hview] at hcap
    | none =>
      cases hraw : file.writeTo env.layout db with
      | error e => simp [hcanceled, hview, hraw] at hcap
      | ok raw =>
        cases henc : age.encrypt env.nonce recipients raw with
        | error e => simp [hcanceled, hview, hraw, henc] at hcap
        | ok encrypted =>
          simp only [hcanceled, hview, hraw, henc, Except.ok.injEq] at hcap
          subst hcap
          refine ⟨rfl, raw, ?_, hfile _ _ _ hraw⟩
          unfold decryptArtifact
          simp [hage.nonempty, hage.decrypt_encrypt _ _ _ henc]

/-- No error before the artifact is assembled is a sink's. -/
theorem capture_ne_sink (name cause : String) :
    capture file age recipients env db ≠ .error (.sink name cause) := by
  intro hcap
  unfold capture at hcap
  repeat' split at hcap
  all_goals simp at hcap

end Owasaka.Backup
