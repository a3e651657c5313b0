import Owasaka.Pki.Authority
import Owasaka.Transparency.Hash

/-! # Signed tree heads (`transparency/sth.go`)

    `SignSTH` signs a tree size, a root and the time with the active key of the
    log; `VerifySTH` resolves the key that a head names and checks the signature
    over the same bytes.

    The signed bytes hold the time as an unsigned 64-bit number of nanoseconds,
    so they determine it up to a multiple of `2 ^ 64`. -/

namespace Owasaka.Transparency

open Pki

structure STH where
  treeSize : UInt64
  rootHash : Bytes
  timestamp : Int
  signature : Bytes
  signerKeyID : String
  deriving DecidableEq

inductive STHError where
  | noSTHSigningKey
  | lookupSTHKey (cause : PkiError)
  | rootHashLength
  | noSignature
  | signerKeyNotFound
  /-- Another error of `GetKey`, passed on as it is. -/
  | authority (e : PkiError)
  | signerKeyRetired
  | wrongPurpose
  | signatureInvalid
  deriving DecidableEq

/-- `uint64(ts.UnixNano())`.  A time outside the years 1678 to 2262 does not fit
    an `int64`: the product of its seconds by `1e9` wraps around. -/
def unixNano (ts : Int) : Nat := (ts % 2 ^ 64).toNat

def canonicalSTHBytes (size : UInt64) (root : RootHash) (ts : Int) : Bytes :=
  Bytes.bigEndian 8 size.toNat ++ (root.toList ++ Bytes.bigEndian 8 (unixNano ts))

/-- `SignSTH`, with the clock read in `env`. -/
def signSTH (ed : SignatureScheme) (env : Env) (size : UInt64) (root : RootHash) :
    Except STHError STH :=
  match activeKey env purposeTransparencyLogSTH with
  | .error e => .error (if e = .noActiveKey then .noSTHSigningKey else .lookupSTHKey e)
  | .ok kp =>
    let ts := env.now
    let canonical := canonicalSTHBytes size root ts
    .ok
      { treeSize := size, rootHash := root.toList, timestamp := ts,
        signature := ed.sign kp.privateKey canonical, signerKeyID := kp.id }

/-- `VerifySTH`; `verify` is `ed25519.Verify`. -/
def verifySTH (verify : Bytes → Bytes → Bytes → Bool) (store : KeyStore) (sth : STH) (now : Int) :
    Except STHError Unit :=
  if sth.rootHash.length ≠ 32 then .error .rootHashLength
  else if sth.signature.length = 0 ∨ sth.signerKeyID = "" then .error .noSignature
  else
    match getKey store sth.signerKeyID with
    | .error e => .error (if e = .keyNotFound then .signerKeyNotFound else .authority e)
    | .ok kp =>
      if !kp.isVerifyable now then .error .signerKeyRetired
      else if kp.purpose ≠ purposeTransparencyLogSTH then .error .wrongPurpose
      else
        let root : RootHash := Bytes.copyTo 32 sth.rootHash
        let canonical := canonicalSTHBytes sth.treeSize root sth.timestamp
        if !verify kp.publicKey canonical sth.signature then .error .signatureInvalid
        else .ok ()

/-! ## Section 1: The signed bytes -/

theorem unixNano_lt (ts : Int) : unixNano ts < 256 ^ 8 := by
  unfold unixNano
  have hlt := Int.emod_lt_of_pos ts (show (0 : Int) < 2 ^ 64 by decide)
  omega

theorem unixNano_inj {ts ts' : Int} : unixNano ts = unixNano ts' ↔ ts % 2 ^ 64 = ts' % 2 ^ 64 := by
  unfold unixNano
  have hpos := Int.emod_nonneg ts (show (2 ^ 64 : Int) ≠ 0 by decide)
  have hpos' := Int.emod_nonneg ts' (show (2 ^ 64 : Int) ≠ 0 by decide)
  omega

/-- The signed bytes determine size and root, and the time up to a multiple of
    `2 ^ 64` nanoseconds. -/
theorem canonicalSTHBytes_inj {size size' : UInt64} {root root' : RootHash} {ts ts' : Int} :
    canonicalSTHBytes size root ts = canonicalSTHBytes size' root' ts' ↔
      size = size' ∧ root = root' ∧ ts % 2 ^ 64 = ts' % 2 ^ 64 := by
  unfold canonicalSTHBytes
  constructor
  · intro heq
    obtain ⟨hsize, hrest⟩ := List.append_inj heq (by simp only [Bytes.length_bigEndian])
    obtain ⟨hroot, htime⟩ := List.append_inj hrest (by simp)
    have hnat := Bytes.bigEndian_injOn (UInt64.toNat_lt size) (UInt64.toNat_lt size') hsize
    refine ⟨UInt64.toNat_inj.mp hnat, Vector.toList_inj.mp hroot, ?_⟩
    exact unixNano_inj.mp (Bytes.bigEndian_injOn (unixNano_lt ts) (unixNano_lt ts') htime)
  · rintro ⟨rfl, rfl, htime⟩
    rw [unixNano_inj.mpr htime]

/-! ## Section 2: What the two calls accept -/

variable {ed : SignatureScheme} {env : Env} {size : UInt64} {root : RootHash} {sth : STH}
  {store : KeyStore} {now : Int}

theorem signSTH_ok_iff :
    signSTH ed env size root = .ok sth ↔
      ∃ kp, activeKey env purposeTransparencyLogSTH = .ok kp
        ∧ sth = ⟨size, root.toList, env.now,
            ed.sign kp.privateKey (canonicalSTHBytes size root env.now), kp.id⟩ := by
  unfold signSTH
  cases hactive : activeKey env purposeTransparencyLogSTH with
  | error e => simp
  | ok kp => simp [eq_comm]

theorem verifySTH_ok_iff {verify : Bytes → Bytes → Bytes → Bool} :
    verifySTH verify store sth now = .ok () ↔
      sth.rootHash.length = 32 ∧ sth.signature ≠ [] ∧ sth.signerKeyID ≠ ""
        ∧ ∃ kp, store[sth.signerKeyID]? = some kp ∧ kp.isVerifyable now = true
          ∧ kp.purpose = purposeTransparencyLogSTH
          ∧ verify kp.publicKey (canonicalSTHBytes sth.treeSize (Bytes.copyTo 32 sth.rootHash)
              sth.timestamp) sth.signature = true := by
  unfold verifySTH getKey KeyStore.get
  by_cases hlen : sth.rootHash.length = 32
  · by_cases hsig : sth.signature = []
    · simp [hlen, hsig]
    · by_cases hid : sth.signerKeyID = ""
      · simp [hlen, hid]
      · cases hget : store[sth.signerKeyID]? with
        | none => simp [hlen, hsig, hid]
        | some kp =>
          by_cases hver : kp.isVerifyable now = true
          · by_cases hpurpose : kp.purpose = purposeTransparencyLogSTH
            · simp [hlen, hsig, hid, hver, hpurpose]
            · simp [hlen, hsig, hid, hver, hpurpose]
          · simp [hlen, hsig, hid, hver]
  · simp [hlen]

end Owasaka.Transparency
