import Owasaka.Jwt.Rendered

/-! # Purpose separation of tokens

    One key store serves every purpose.  The verifiers of tree heads and of
    events refuse a key of a foreign purpose; `Verify` resolves the `kid` header
    and does not look at the purpose, so any key that is still verifyable mints
    tokens.  The main result: over every reachable store, tokens are separated
    by purpose exactly when the store holds no verifyable key of another
    purpose. -/

namespace Owasaka.Jwt

open Pki

/-- The key named by the token's `kid` header is a signing key for tokens. -/
def NamesSigningKey (lib : Library) (store : KeyStore) (raw : Bytes) : Prop :=
  ∃ tok kid kp, lib.decode raw = some tok ∧ tok.kid = .text kid ∧ store[kid]? = some kp
    ∧ kp.purpose = purposeJWTSigning

/-- Every accepted token names a signing key for tokens. -/
def PurposeSeparated (lib : Library) (revocations : RevocationChecker) (store : KeyStore)
    (now : Int) : Prop :=
  ∀ raw tt claims, verify lib revocations store now raw tt = .ok claims →
    NamesSigningKey lib store raw

/-- Every key that is still verifyable is a signing key for tokens. -/
def OnlySigningKeys (store : KeyStore) (now : Int) : Prop :=
  ∀ (id : String) (kp : KeyPair), store[id]? = some kp → kp.isVerifyable now = true →
    kp.purpose = purposeJWTSigning

variable {lib : Library} {ed : SignatureScheme} {s : AuthorityState}
  {revocations : RevocationChecker} {now : Int}

/-- Claims without dates, type or audience. -/
def bareClaims (jti : String) : Claims :=
  ⟨"", "", [], none, none, none, jti, ⟨""⟩, "", ⟨""⟩⟩

/-- Whoever holds a verifyable key of the store mints an accepted token with it. -/
theorem exists_minted (hed : ed.Ideal) (hlib : lib.Lawful ed) (hkept : WellKept ed s.store)
    {id jti : String} {kp : KeyPair} (hget : s.store[id]? = some kp)
    (hver : kp.isVerifyable now = true) (hrev : NotRevoked revocations jti) :
    ∃ raw tok, lib.decode raw = some tok ∧ tok.kid = .text id
      ∧ verify lib revocations s.store now raw ⟨""⟩ = .ok (bareClaims jti) := by
  obtain ⟨rfl, hne, hpublic⟩ := hkept id kp hget
  obtain ⟨raw, _, hdec⟩ := hlib.signedString kp.id (bareClaims jti) kp.privateKey
  have hsig := hed.verify_sign kp.privateKey (lib.signingString kp.id (bareClaims jti))
  rw [← hpublic] at hsig
  refine ⟨raw, _, hdec, rfl, ?_⟩
  rw [verify_ok_iff hlib]
  -- claims without dates are always in date, and the empty type accepts them
  exact ⟨_, kp.id, kp, hdec, rfl, rfl, hne, hget, hver, hsig, ⟨rfl, rfl⟩, rfl,
    ⟨by simp, rfl⟩, hrev⟩

/-- **Purpose separation** holds exactly for the stores without a verifyable key
    of another purpose (unless the checker passes no JTI at all). -/
theorem purposeSeparated_iff (hed : ed.Ideal) (hlib : lib.Lawful ed)
    (hreach : (authoritySystem ed).Reachable s) :
    PurposeSeparated lib revocations s.store now ↔
      OnlySigningKeys s.store now ∨ ∀ jti, ¬ NotRevoked revocations jti := by
  have hkept := wellKept_of_reachable hreach
  constructor
  · intro hsep
    by_contra hnot
    unfold OnlySigningKeys at hnot
    push Not at hnot
    obtain ⟨⟨id, kp, hget, hver, hforeign⟩, jti, hrev⟩ := hnot
    obtain ⟨raw, tok, hdec, hkid, hok⟩ := exists_minted hed hlib hkept hget hver hrev
    obtain ⟨tok', kid, kp', hdec', hkid', hget', hpurpose⟩ := hsep _ _ _ hok
    -- both readings of the header name the foreign key
    rw [hdec] at hdec'
    cases hdec'
    rw [hkid] at hkid'
    cases hkid'
    rw [hget] at hget'
    cases hget'
    exact hforeign hpurpose
  · intro hcond raw tt claims hok
    obtain ⟨tok, kid, kp, hdec, _, hkid, _, hget, hver, _, _, rfl, _, hrev⟩ :=
      (verify_ok_iff hlib).mp hok
    rcases hcond with hall | hnone
    · exact ⟨tok, kid, kp, hdec, hkid, hget, hall kid kp hget hver⟩
    · exact absurd hrev (hnone _)

/-! ## The key of a service certificate -/

def rootPrivate : Bytes := Bytes.bigEndian 64
  0x01010101010101010101010101010101010101010101010101010101010101018a88e3dd7409f195fd52db2d3cba5d72ca6709bf1d94121bf3748801b40f6f5c

def servicePrivate : Bytes := Bytes.bigEndian 64
  0x02020202020202020202020202020202020202020202020202020202020202028139770ea87d175f56a35466c34c7ecccb8d8a91b4ee37a25df60f5b8fc9b394

/-- Claims of an administrator's access token. -/
def forgedClaims : Claims :=
  ⟨issuerName, "admin", [audienceAccess], some ⟨3600⟩, none, none, "forged", ⟨"human"⟩, "admin",
    typeAccess⟩

/-- The compact form of these claims, signed with the service key. -/
def forgedRaw : Bytes := (
  "eyJhbGciOiJFZERTQSIsImtpZCI6InNlcnZpY2Uta2V5IiwidHlwIjoiSldUIn0"
  ++ ".eyJpc3MiOiJvd2FzYWthIiwic3ViIjoiYWRtaW4iLCJhdWQiOlsib3dhc2FrYS1hcGkiXSwiZXhwIjozNjAwLC"
  ++ "JqdGkiOiJmb3JnZWQiLCJwdHlwZSI6Imh1bWFuIiwicHN1YiI6ImFkbWluIiwidHR5cGUiOiJhY2Nlc3MifQ"
  ++ ".UbwcEqxkeVi1Ddl_y8aKYwhsC-NajyOtGFeQ2-et9YdidjqD_28qx5VUPf5QQQmYr79cPKt1BcxF6-WRlGs3AQ").toUTF8.toList

def forgedSignature : Bytes := Bytes.bigEndian 64
  0x51bc1c12ac647958b50dd97fcbc68a63086c0be35a8f23ad185790dbe7adf58762763a83ff6f2ac795543dfe50410998afbf5c3cab7505cc45ebe591946b3701

def forgedMint : Mint := ⟨"service-key", forgedClaims, servicePrivate⟩

/-- Ed25519 on the forged token. -/
def forgedScheme : SignatureScheme :=
  .known [((servicePrivate.drop 32, beforeLastDot forgedRaw), forgedSignature)]

/-- The library on the forged token. -/
noncomputable def forgedLibrary : Library :=
  rendered forgedScheme (signingKnown [(forgedMint, forgedRaw)])
    (renderKnown [(forgedMint, forgedRaw)])

theorem renderKnown_forged_injective :
    Function.Injective (renderKnown [(forgedMint, forgedRaw)]) := by
  apply renderKnown_injective
  · simp
  · simp only [List.mem_singleton, forall_eq]
    decide +kernel

theorem forgedLibrary_lawful : forgedLibrary.Lawful forgedScheme :=
  rendered_lawful _ _ _ renderKnown_forged_injective

def minute : Int := 60 * 10 ^ 9

def rootKey : KeyPair :=
  ⟨"root-key", purposeCA, rootPrivate.drop 32, rootPrivate, .active, 0, 0, 525600 * minute⟩

def serviceKey : KeyPair :=
  ⟨"service-key", purposeServiceCert, servicePrivate.drop 32, servicePrivate, .active, minute, minute,
    1441 * minute⟩

/-- The store with the root key and the key of one service certificate. -/
def serviceStore : KeyStore :=
  ((∅ : KeyStore).insert "root-key" rootKey).insert "service-key" serviceKey

theorem serviceStore_reachable : (authoritySystem forgedScheme).Reachable ⟨serviceStore, minute⟩ := by
  have hnone : (authoritySystem forgedScheme).Reachable ⟨∅, 0⟩ := System.Reachable.init rfl
  have hroot : (authoritySystem forgedScheme).Reachable
      ⟨(∅ : KeyStore).insert "root-key" rootKey, 0⟩ :=
    hnone.tail (l := (.ensureRootCA (525600 * minute), quietEnv 0 [] "root-key" rootPrivate))
      ⟨.refl _, by decide, by simp [quietEnv], rfl⟩
  exact hroot.tail
    (l := (.issueServiceCert "spectre" (1440 * minute),
      quietEnv minute [rootKey] "service-key" servicePrivate))
    ⟨.refl _, by decide, by simp [quietEnv], rfl⟩

theorem purposeSeparated_iff_serviceStore :
    (authoritySystem forgedScheme).Reachable ⟨serviceStore, minute⟩
      ∧ (PurposeSeparated forgedLibrary none serviceStore (2 * minute) ↔
          OnlySigningKeys serviceStore (2 * minute) ∨ ∀ jti, ¬ NotRevoked none jti) :=
  ⟨serviceStore_reachable,
    purposeSeparated_iff (s := ⟨serviceStore, minute⟩) (SignatureScheme.known_ideal _)
      forgedLibrary_lawful serviceStore_reachable⟩

theorem decode_forgedRaw :
    forgedLibrary.decode forgedRaw = some (forgedMint.token forgedScheme forgedLibrary.signingString) := by
  have hrender : renderKnown [(forgedMint, forgedRaw)] forgedMint = forgedRaw := by
    simp [renderKnown]
  have hdec := Function.partialInv_left renderKnown_forged_injective forgedMint
  rw [hrender] at hdec
  unfold forgedLibrary rendered
  simp only [hdec]
  rfl

/-- A service that was issued a certificate mints an administrator's token. -/
theorem service_cert_key_mints_token :
    (authoritySystem forgedScheme).Reachable ⟨serviceStore, minute⟩
      ∧ serviceStore["service-key"]? = some serviceKey
      ∧ serviceKey.purpose = purposeServiceCert
      ∧ verify forgedLibrary none serviceStore (2 * minute) forgedRaw typeAccess = .ok forgedClaims
      ∧ ¬ PurposeSeparated forgedLibrary none serviceStore (2 * minute) := by
  have hget : serviceStore["service-key"]? = some serviceKey := by simp [serviceStore]
  have hok : verify forgedLibrary none serviceStore (2 * minute) forgedRaw typeAccess
      = .ok forgedClaims := by
    rw [verify_ok_iff forgedLibrary_lawful]
    refine ⟨_, "service-key", serviceKey, decode_forgedRaw, rfl, rfl, by decide, hget, by decide,
      ?_, ⟨by decide, by decide⟩, rfl, ⟨fun _ => rfl, by decide⟩, ?_⟩
    · exact (SignatureScheme.known_ideal _).verify_sign servicePrivate _
    · intro isRevoked hnone
      contradiction
  refine ⟨serviceStore_reachable, hget, rfl, hok, ?_⟩
  intro hsep
  obtain ⟨tok, kid, kp, hdec, hkid, hstored, hpurpose⟩ := hsep _ _ _ hok
  rw [decode_forgedRaw] at hdec
  cases hdec
  cases hkid
  rw [show forgedMint.kid = "service-key" from rfl, hget] at hstored
  cases hstored
  exact absurd hpurpose (by decide)

end Owasaka.Jwt
