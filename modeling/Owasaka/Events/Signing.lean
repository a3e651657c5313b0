import Owasaka.Events.Pipeline
import Owasaka.Pki.Authority

/-! # Event signatures (`events/signer.go`, `events/verifier.go`)

    `Signer.Sign` signs the canonical bytes of an event with the active key for
    events, in place; `Verifier.Verify` resolves the key that the event names
    and checks the signature over the same bytes.  The canonical bytes leave the
    two signature fields out.

    `marshal` is `json.Marshal` of an event, which fails on values that JSON
    cannot hold. -/

namespace Owasaka.Events

open Pki

/-- The event without its signature fields. -/
def NetworkEvent.signable (e : NetworkEvent) : NetworkEvent :=
  { e with signature := [], signerKeyID := "" }

def NetworkEvent.canonicalBytes (marshal : NetworkEvent → Except String Bytes) (e : NetworkEvent) :
    Except String Bytes :=
  marshal e.signable

def NetworkEvent.isSigned (e : NetworkEvent) : Bool := e.signature.length > 0 && e.signerKeyID ≠ ""

inductive SignerError where
  | nilEvent
  | signerNoActiveKey
  | signatureMissing
  | signatureInvalid
  | signerKeyUnknown
  | signerKeyRetired
  | lookupSigningKey (cause : PkiError)
  | lookupVerifyingKey (cause : PkiError)
  | canonicalBytes (cause : String)
  deriving DecidableEq

/-- `Sign`: its error and the event that the pointer holds afterwards. -/
def Signer.sign (ed : SignatureScheme) (marshal : NetworkEvent → Except String Bytes) (env : Env) :
    Option NetworkEvent → Except SignerError Unit × Option NetworkEvent
  | none => (.error .nilEvent, none)
  | some e =>
    match activeKey env purposeEventSigning with
    | .error err =>
      (.error (if err = .noActiveKey then .signerNoActiveKey else .lookupSigningKey err), some e)
    | .ok kp =>
      -- a stale signature is cleared, also when the bytes cannot be computed
      let e := { e with signature := [], signerKeyID := "" }
      match e.canonicalBytes marshal with
      | .error cause => (.error (.canonicalBytes cause), some e)
      | .ok canonical =>
        (.ok (), some { e with signature := ed.sign kp.privateKey canonical, signerKeyID := kp.id })

/-- `Verify` at one reading of the clock; `verify` is `ed25519.Verify`. -/
def Verifier.verify (verify : Bytes → Bytes → Bytes → Bool)
    (marshal : NetworkEvent → Except String Bytes) (store : KeyStore) (now : Int)
    (e : NetworkEvent) : Except SignerError Unit :=
  if !e.isSigned then .error .signatureMissing
  else
    match getKey store e.signerKeyID with
    | .error err =>
      .error (if err = .keyNotFound then .signerKeyUnknown else .lookupVerifyingKey err)
    | .ok kp =>
      if !kp.isVerifyable now then .error .signerKeyRetired
      else if kp.purpose ≠ purposeEventSigning then .error .signerKeyUnknown
      else
        match e.canonicalBytes marshal with
        | .error cause => .error (.canonicalBytes cause)
        | .ok canonical =>
          if !verify kp.publicKey canonical e.signature then .error .signatureInvalid else .ok ()

/-! ## What the two calls accept -/

variable {ed : SignatureScheme} {marshal : NetworkEvent → Except String Bytes} {env : Env}
  {e e' : NetworkEvent} {store : KeyStore} {now : Int}

theorem Signer.sign_ok_iff :
    Signer.sign ed marshal env (some e) = (.ok (), some e') ↔
      ∃ kp canonical, activeKey env purposeEventSigning = .ok kp
        ∧ e.canonicalBytes marshal = .ok canonical
        ∧ e' = { e with signature := ed.sign kp.privateKey canonical, signerKeyID := kp.id } := by
  unfold Signer.sign
  cases hactive : activeKey env purposeEventSigning with
  | error err => simp
  | ok kp =>
    have hsame : NetworkEvent.canonicalBytes marshal { e with signature := [], signerKeyID := "" }
        = e.canonicalBytes marshal := rfl
    simp only [hsame]
    cases hcanonical : e.canonicalBytes marshal with
    | error cause => simp
    | ok canonical => simp [eq_comm]

theorem Verifier.verify_ok_iff {verify : Bytes → Bytes → Bytes → Bool} :
    Verifier.verify verify marshal store now e = .ok () ↔
      e.signature ≠ [] ∧ e.signerKeyID ≠ ""
        ∧ ∃ kp canonical, store[e.signerKeyID]? = some kp ∧ kp.isVerifyable now = true
          ∧ kp.purpose = purposeEventSigning ∧ e.canonicalBytes marshal = .ok canonical
          ∧ verify kp.publicKey canonical e.signature = true := by
  unfold Verifier.verify getKey KeyStore.get NetworkEvent.isSigned
  by_cases hsig : e.signature = []
  · simp [hsig]
  · have hpos : 0 < e.signature.length := List.length_pos_iff.mpr hsig
    by_cases hid : e.signerKeyID = ""
    · simp [hid]
    · cases hget : store[e.signerKeyID]? with
      | none => simp [hsig, hpos, hid]
      | some kp =>
        by_cases hver : kp.isVerifyable now = true
        · by_cases hpurpose : kp.purpose = purposeEventSigning
          · cases hcanonical : e.canonicalBytes marshal with
            | error cause => simp [hsig, hpos, hid, hver, hpurpose]
            | ok canonical => simp [hsig, hpos, hid, hver, hpurpose]
          · simp [hsig, hpos, hid, hver, hpurpose]
        · simp [hsig, hpos, hid, hver]

end Owasaka.Events
