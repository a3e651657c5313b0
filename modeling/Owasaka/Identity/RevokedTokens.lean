import Owasaka.Identity.Revocation
import Owasaka.Jwt.Lifetime

/-! # Revoked tokens

    A revoked token does not come back: `GC` drops a record only after its
    `ExpiresAt`, and where that is not before the token's `exp`, the parser then
    refuses the token as expired.

    The record of a JTI is that of the first successful `Revoke` since the JTI
    was last absent. -/

namespace Owasaka.Revocation

open Bolt Jwt

variable {json : EntryJson} {s s' : RevocationState} {l : RevocationLabel}

/-! ## Section 1: Records -/

/-- The key that a token's JTI is stored under. -/
def jtiKey (claims : Claims) : Bytes := claims.id.toUTF8.toList

/-- The handle as a revocation checker. -/
def BoltStore.checker (store : BoltStore) : RevocationChecker :=
  some fun jti => store.isRevoked jti.toUTF8.toList

/-- The token is on the denylist, or past its expiry. -/
def Dead (claims : Claims) (s : RevocationState) : Prop :=
  jtiKey claims ∈ s.bucket ∨ ∃ exp, claims.expiresAt = some exp ∧ exp.time < s.now

variable {claims : Claims}

/-- A dead token is refused from now on. -/
theorem Dead.refused {lib : Library} {ed : SignatureScheme} (hlib : lib.Lawful ed) {raw : Bytes}
    {tok : Token} (hdec : lib.decode raw = some tok) (hin : InStep s)
    (hne : jtiKey tok.claims ≠ []) (hdead : Dead tok.claims s) {t : Int} (ht : s.now ≤ t)
    (store : Pki.KeyStore) (tt : TokenType) (claims : Claims) :
    verify lib s.store.checker store t raw tt ≠ .ok claims := by
  intro hok
  obtain ⟨tok', _, _, hdec', _, _, _, _, _, _, hdate, rfl, _, hrev⟩ := (verify_ok_iff hlib).mp hok
  rw [hdec] at hdec'
  cases hdec'
  rcases hdead with hmem | ⟨exp, hexp, hlt⟩
  · have hfalse : s.store.isRevoked (jtiKey tok.claims) = .ok false := hrev _ rfl
    simp [BoltStore.isRevoked, hne, hin.cache, hmem] at hfalse
  · have hexpired := hdate.1
    simp only [Claims.expired, hexp, Bool.not_eq_false', decide_eq_true_eq] at hexpired
    omega

/-! ## Section 3: Whole runs -/

def aliceRecord : Bytes :=
  ("\x7b\"jti\":\"access-1\",\"revoked_at\":\"1970-01-01T12:01:00Z\","
    ++ "\"expires_at\":\"1970-01-01T12:15:00Z\"\x7d").toUTF8.toList

end Owasaka.Revocation
