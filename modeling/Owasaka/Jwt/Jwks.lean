import Owasaka.Events.Stored
import Owasaka.Foundation.Base64
import Owasaka.Jwt.Rendered
import Owasaka.Transparency.HeadAuthenticity

/-! # The published key set (`jwt/jwks.go`)

    `PublishKeys` lists the verifyable keys of the published purposes.  Three
    verifiers accept signatures by the same status and validity, each for its own
    purpose: of tokens, of events and of tree heads.

    The purpose of the tree heads is not among the published ones, though the heads
    are said to be checked against this set. -/

namespace Owasaka.Jwt

open Pki

/-! ## Section 1: The key set -/

structure JWK where
  kty : String
  crv : String
  x : Bytes
  «use» : String
  alg : String
  kid : String
  purpose : String
  deriving DecidableEq

def publishedPurposes : List Purpose := [purposeJWTSigning, purposeEventSigning]

/-- The entry of a key. -/
def jwk (purpose : Purpose) (kp : KeyPair) : JWK :=
  ⟨"OKP", "Ed25519", Base64.encodeRawURL kp.publicKey, "sig", "EdDSA", kp.id, purpose.text⟩

/-- The loop of `PublishKeys`; each purpose iterates the store's map in its own
    order, and `fault` is the error of the store by purpose. -/
def publishLoop (fault : Purpose → Option String) (order : Purpose → List KeyPair) (now : Int) :
    List Purpose → List JWK → Except PkiError (List JWK)
  | [], out => .ok out
  | purpose :: purposes, out =>
    match faulty (fault purpose) (.ok (keysForPurpose (order purpose) purpose)) with
    | .error e => .error e
    | .ok keys =>
      publishLoop fault order now purposes
        (out ++ (keys.filter fun kp => kp.isVerifyable now).map (jwk purpose))

def publishKeys (fault : Purpose → Option String) (order : Purpose → List KeyPair) (now : Int) :
    Except PkiError (List JWK) :=
  publishLoop fault order now publishedPurposes []

variable {fault : Purpose → Option String} {order : Purpose → List KeyPair} {now : Int}
  {jwks : List JWK} {ed : SignatureScheme} {s : KeyStore}

theorem publishLoop_ok {purposes : List Purpose} {out : List JWK}
    (hok : publishLoop fault order now purposes out = .ok jwks) :
    jwks = out ++ purposes.flatMap fun purpose =>
      ((keysForPurpose (order purpose) purpose).filter fun kp => kp.isVerifyable now).map
        (jwk purpose) := by
  induction purposes generalizing out with
  | nil =>
    cases hok
    simp
  | cons purpose purposes ih =>
    unfold publishLoop at hok
    split at hok
    · contradiction
    · rename_i keys hkeys
      obtain ⟨_, hkeys⟩ := faulty_ok hkeys
      cases hkeys
      rw [ih hok, List.flatMap_cons, List.append_assoc]

theorem mem_keysForPurpose {keys : List KeyPair} (horder : s.Order keys) {purpose : Purpose}
    {kp : KeyPair} :
    kp ∈ keysForPurpose keys purpose ↔ (∃ id : String, s[id]? = some kp) ∧ kp.purpose = purpose := by
  unfold keysForPurpose KeyStore.findByPurpose
  rw [List.mem_filter, horder.mem, decide_eq_true_eq]

/-- What the set holds. -/
theorem mem_publishKeys (horder : ∀ purpose, s.Order (order purpose))
    (hok : publishKeys fault order now = .ok jwks) {j : JWK} :
    j ∈ jwks ↔ ∃ (id : String) (kp : KeyPair), s[id]? = some kp ∧ kp.purpose ∈ publishedPurposes
      ∧ kp.isVerifyable now = true ∧ j = jwk kp.purpose kp := by
  rw [publishLoop_ok hok, List.nil_append, List.mem_flatMap]
  constructor
  · rintro ⟨purpose, hpurpose, hj⟩
    obtain ⟨kp, hkp, rfl⟩ := List.mem_map.mp hj
    obtain ⟨hkp, hver⟩ := List.mem_filter.mp hkp
    obtain ⟨⟨id, hget⟩, rfl⟩ := (mem_keysForPurpose (horder purpose)).mp hkp
    exact ⟨id, kp, hget, hpurpose, hver, rfl⟩
  · rintro ⟨id, kp, hget, hpurpose, hver, rfl⟩
    have hmem := (mem_keysForPurpose (horder kp.purpose)).mpr ⟨⟨id, hget⟩, rfl⟩
    exact ⟨kp.purpose, hpurpose, List.mem_map_of_mem (List.mem_filter.mpr ⟨hmem, hver⟩)⟩

/-- A stored key is in the set when its purpose is published and it verifies. -/
theorem jwk_mem_iff (hkept : WellKept ed s) (horder : ∀ purpose, s.Order (order purpose))
    (hok : publishKeys fault order now = .ok jwks) {id : String} {kp : KeyPair}
    (hget : s[id]? = some kp) :
    jwk kp.purpose kp ∈ jwks ↔ kp.purpose ∈ publishedPurposes ∧ kp.isVerifyable now = true := by
  rw [mem_publishKeys horder hok]
  constructor
  · rintro ⟨id', kp', hget', hpurpose, hver, heq⟩
    -- the `kid` names one key of the store
    have hid : kp.id = kp'.id := congrArg JWK.kid heq
    obtain ⟨rfl, _, _⟩ := hkept id kp hget
    obtain ⟨rfl, _, _⟩ := hkept id' kp' hget'
    rw [hid, hget'] at hget
    cases hget
    exact ⟨hpurpose, hver⟩
  · rintro ⟨hpurpose, hver⟩
    exact ⟨id, kp, hget, hpurpose, hver, rfl⟩

/-- An entry under the id of a stored key encodes the public half of that key and
    of no other. -/
theorem x_eq_iff (hkept : WellKept ed s) (horder : ∀ purpose, s.Order (order purpose))
    (hok : publishKeys fault order now = .ok jwks) {id : String} {kp : KeyPair}
    (hget : s[id]? = some kp) {j : JWK} (hj : j ∈ jwks) (hkid : j.kid = kp.id) {publicKey : Bytes} :
    j.x = Base64.encodeRawURL publicKey ↔ publicKey = kp.publicKey := by
  obtain ⟨id', kp', hget', _, _, rfl⟩ := (mem_publishKeys horder hok).mp hj
  obtain ⟨rfl, _, _⟩ := hkept id kp hget
  obtain ⟨rfl, _, _⟩ := hkept id' kp' hget'
  rw [show kp'.id = kp.id from hkid, hget] at hget'
  cases hget'
  constructor
  · intro hx
    exact (Base64.encodeRawURL_inj hx).symm
  · rintro rfl
    rfl

/-! ## Section 2: The verifiers -/

/-- The token verifier accepts a token in date that the key signed when it has the
    expected type and is not revoked; so it does while the key is verifyable. -/
theorem verify_signClaims_iff {lib : Library} (hcorrect : ed.Correct) (hlib : lib.Lawful ed)
    (hkept : WellKept ed s) {kp : KeyPair} {id : String} (hget : s[id]? = some kp)
    {revocations : RevocationChecker} {claims : Claims} {tt : TokenType} {raw : Bytes}
    (hraw : signClaims lib claims kp = .ok raw) (hdate : claims.InDate now) (htype : OfType claims tt)
    (hrev : NotRevoked revocations claims.id) :
    verify lib revocations s now raw tt = .ok claims ↔ kp.isVerifyable now = true := by
  obtain ⟨rfl, hne, hpublic⟩ := hkept id kp hget
  obtain ⟨raw', hsigned, hdec⟩ := hlib.signedString kp.id claims kp.privateKey
  obtain rfl : raw' = raw := Except.ok.inj (hsigned.symm.trans hraw)
  rw [verify_ok_iff hlib]
  constructor
  · rintro ⟨tok, kid, kp', hdec', _, hkid, _, hget', hver, _⟩
    obtain rfl := Option.some.inj (hdec.symm.trans hdec')
    cases hkid
    rw [hget] at hget'
    cases hget'
    exact hver
  · intro hver
    refine ⟨_, kp.id, kp, hdec, rfl, rfl, hne, hget, hver, ?_, hdate, rfl, htype, hrev⟩
    rw [hpublic]
    exact hcorrect _ _

/-- The event verifier accepts what an event key signed while the key is verifyable. -/
theorem verify_withSignature_iff (hcorrect : ed.Correct) (hsized : ed.Sized) (hkept : WellKept ed s)
    {kp : KeyPair} {id : String} (hget : s[id]? = some kp) (hpurpose : kp.purpose = purposeEventSigning)
    {e : Events.Stored.NetworkEvent} {canonical : Bytes} (hcanonical : e.canonicalBytes = some canonical) :
    Events.Stored.verify ed.verify s now
        (e.withSignature (ed.sign kp.privateKey canonical) (Utf8.ofString kp.id)) = .ok ()
      ↔ kp.isVerifyable now = true := by
  obtain ⟨rfl, hne, hpublic⟩ := hkept id kp hget
  rw [Events.Stored.verify_eq_ok]
  show _ ∧ _ ∧ (∃ kp' canonical', (Utf8.toString? (Utf8.ofString kp.id)).bind (fun id => s[id]?)
    = some kp' ∧ _) ↔ _
  rw [Utf8.toString?_ofString, Option.bind_some, hget]
  constructor
  · rintro ⟨_, _, kp', _, hkp, hver, _⟩
    exact Option.some.inj hkp ▸ hver
  · intro hver
    refine ⟨hsized.ne_nil _ _, Events.Stored.ofString_ne_nil hne, kp, canonical, rfl, hver, hpurpose,
      hcanonical, ?_⟩
    rw [hpublic]
    exact hcorrect _ _

/-- `VerifySTH` accepts what a key of the log signed while the key is verifyable. -/
theorem verifySTH_signed_iff (hcorrect : ed.Correct) (hsized : ed.Sized) (hkept : WellKept ed s)
    {kp : KeyPair} {id : String} (hget : s[id]? = some kp)
    (hpurpose : kp.purpose = purposeTransparencyLogSTH) (size : UInt64) (root : Transparency.RootHash)
    (ts : Int) :
    Transparency.verifySTH ed.verify s
        ⟨size, root.toList, ts,
          ed.sign kp.privateKey (Transparency.canonicalSTHBytes size root ts), kp.id⟩ now = .ok ()
      ↔ kp.isVerifyable now = true := by
  obtain ⟨rfl, hne, hpublic⟩ := hkept id kp hget
  rw [Transparency.verifySTH_ok_iff]
  constructor
  · rintro ⟨_, _, _, kp', hget', hver, _⟩
    rw [hget] at hget'
    cases hget'
    exact hver
  · intro hver
    refine ⟨by simp, hsized.ne_nil _ _, hne, kp, hget, hver, hpurpose, ?_⟩
    rw [hpublic, Bytes.copyTo_toList]
    exact hcorrect _ _

/-! ## Section 3: The set and the verifiers -/

/-- A key is in the set exactly when its verifier accepts what it signed, and the
    keys of the CA and of services are not in it. -/
structure ServesVerifiers (lib : Library) (ed : SignatureScheme) (s : KeyStore) (now : Int)
    (jwks : List JWK) : Prop where
  tokens : ∀ (id : String) kp, s[id]? = some kp → kp.purpose = purposeJWTSigning →
    ∀ revocations claims tt raw, signClaims lib claims kp = .ok raw → claims.InDate now →
      OfType claims tt → NotRevoked revocations claims.id →
      (jwk purposeJWTSigning kp ∈ jwks ↔ verify lib revocations s now raw tt = .ok claims)
  events : ∀ (id : String) kp, s[id]? = some kp → kp.purpose = purposeEventSigning →
    ∀ (e : Events.Stored.NetworkEvent) canonical, e.canonicalBytes = some canonical →
      (jwk purposeEventSigning kp ∈ jwks ↔ Events.Stored.verify ed.verify s now
        (e.withSignature (ed.sign kp.privateKey canonical) (Utf8.ofString kp.id)) = .ok ())
  heads : ∀ (id : String) kp, s[id]? = some kp → kp.purpose = purposeTransparencyLogSTH →
    ∀ size root ts,
      (jwk purposeTransparencyLogSTH kp ∈ jwks ↔ Transparency.verifySTH ed.verify s
        ⟨size, root.toList, ts,
          ed.sign kp.privateKey (Transparency.canonicalSTHBytes size root ts), kp.id⟩ now = .ok ())
  others : ∀ (id : String) kp, s[id]? = some kp →
    kp.purpose = purposeCA ∨ kp.purpose = purposeServiceCert → ∀ j ∈ jwks, j.kid ≠ kp.id

/-- The keys of the CA and of services are not in the set. -/
theorem kid_ne_of_unpublished (hkept : WellKept ed s) (horder : ∀ purpose, s.Order (order purpose))
    (hok : publishKeys fault order now = .ok jwks) {id : String} {kp : KeyPair}
    (hget : s[id]? = some kp) (hnot : kp.purpose ∉ publishedPurposes) : ∀ j ∈ jwks, j.kid ≠ kp.id := by
  intro j hj heq
  obtain ⟨id', kp', hget', hpurpose, _, rfl⟩ := (mem_publishKeys horder hok).mp hj
  have hid : kp'.id = kp.id := heq
  obtain ⟨rfl, _, _⟩ := hkept id kp hget
  obtain ⟨rfl, _, _⟩ := hkept id' kp' hget'
  rw [hid, hget] at hget'
  cases hget'
  exact hnot hpurpose

variable {lib : Library}

/-- No key of the log is verifyable. -/
def NoHeadKey (s : KeyStore) (now : Int) : Prop :=
  ∀ (id : String) kp, s[id]? = some kp → kp.purpose = purposeTransparencyLogSTH →
    kp.isVerifyable now = false

theorem servesVerifiers_iff_of_wellKept (hcorrect : ed.Correct) (hsized : ed.Sized)
    (hlib : lib.Lawful ed) (hkept : WellKept ed s) (horder : ∀ purpose, s.Order (order purpose))
    (hok : publishKeys fault order now = .ok jwks) :
    ServesVerifiers lib ed s now jwks ↔ NoHeadKey s now := by
  -- a head key is never published, so its signatures are served only if none verify
  have hhead : ∀ {id : String} {kp : KeyPair}, s[id]? = some kp →
      kp.purpose = purposeTransparencyLogSTH → jwk purposeTransparencyLogSTH kp ∉ jwks := by
    intro id kp hget hpurpose hmem
    rw [← hpurpose, jwk_mem_iff hkept horder hok hget, hpurpose] at hmem
    exact absurd hmem.1 (by decide)
  constructor
  · intro hserves id kp hget hpurpose
    have hiff := hserves.heads id kp hget hpurpose 0 Transparency.zeroHash 0
    rw [verifySTH_signed_iff hcorrect hsized hkept hget hpurpose] at hiff
    exact Bool.eq_false_iff.mpr fun hver => hhead hget hpurpose (hiff.mpr hver)
  · intro hnone
    -- tokens and events are published, heads have no key, the other two have no verifier
    refine ⟨?_, ?_, ?_, ?_⟩
    · intro id kp hget hpurpose revocations claims tt raw hraw hdate htype hrev
      rw [verify_signClaims_iff hcorrect hlib hkept hget hraw hdate htype hrev, ← hpurpose,
        jwk_mem_iff hkept horder hok hget, hpurpose]
      exact and_iff_right (by decide)
    · intro id kp hget hpurpose e canonical hcanonical
      rw [verify_withSignature_iff hcorrect hsized hkept hget hpurpose hcanonical, ← hpurpose,
        jwk_mem_iff hkept horder hok hget, hpurpose]
      exact and_iff_right (by decide)
    · intro id kp hget hpurpose size root ts
      rw [verifySTH_signed_iff hcorrect hsized hkept hget hpurpose, hnone id kp hget hpurpose]
      exact iff_of_false (hhead hget hpurpose) Bool.false_ne_true
    · intro id kp hget hpurpose
      apply kid_ne_of_unpublished hkept horder hok hget
      rcases hpurpose with hca | hservice
      · rw [hca]
        decide
      · rw [hservice]
        decide

/-- For every store that calls of the authority reach, and at every time, the key set is
    what the verifiers accept if and only if no key of the log is verifyable then. -/
theorem servesVerifiers_iff (hcorrect : ed.Correct) (hsized : ed.Sized) (hlib : lib.Lawful ed)
    {a : AuthorityState} (hreach : (authoritySystem ed).Reachable a)
    (horder : ∀ purpose, a.store.Order (order purpose))
    (hok : publishKeys fault order now = .ok jwks) :
    ServesVerifiers lib ed a.store now jwks ↔ NoHeadKey a.store now :=
  servesVerifiers_iff_of_wellKept hcorrect hsized hlib (wellKept_of_reachable hreach) horder hok

/-! ## Section 4: A tree head under no published key -/

/-- The library that writes every token under a code. -/
noncomputable def codedLibrary : Library :=
  rendered Transparency.headScheme (signingKnown []) (renderKnown [])

theorem codedLibrary_lawful : codedLibrary.Lawful Transparency.headScheme :=
  rendered_lawful _ _ _ (renderKnown_injective (by simp) (by simp))

theorem headScheme_correct : Transparency.headScheme.Correct :=
  (SignatureScheme.knownSized_ideal _).correct

/-- The store of one key of the log, generated with `GenerateKeyPair`. -/
theorem logStore_reachable :
    (authoritySystem Transparency.headScheme).Reachable ⟨Transparency.logStore, 0⟩ := by
  have hnone : (authoritySystem Transparency.headScheme).Reachable ⟨∅, 0⟩ := System.Reachable.init rfl
  exact hnone.tail
    (l := (.generateKeyPair purposeTransparencyLogSTH (24 * Transparency.signTime),
      quietEnv 0 [] "log-key" Transparency.logPrivate))
    ⟨.refl _, by decide, by simp [quietEnv], rfl⟩

theorem publishKeys_logStore :
    publishKeys (fun _ => none) (fun _ => [Transparency.logKey]) (2 * Transparency.signTime) = .ok [] := by
  decide +kernel

theorem servesVerifiers_iff_logStore :
    ServesVerifiers codedLibrary Transparency.headScheme Transparency.logStore
        (2 * Transparency.signTime) [] ↔ NoHeadKey Transparency.logStore (2 * Transparency.signTime) :=
  servesVerifiers_iff headScheme_correct Transparency.headScheme_sized codedLibrary_lawful
    logStore_reachable (fun _ => .refl _) publishKeys_logStore

/-- `VerifySTH` accepts a head whose key the set does not hold. -/
theorem head_key_not_published :
    (authoritySystem Transparency.headScheme).Reachable ⟨Transparency.logStore, 0⟩
      ∧ publishKeys (fun _ => none) (fun _ => [Transparency.logKey]) (2 * Transparency.signTime) = .ok []
      ∧ Transparency.verifySTH Transparency.headScheme.verify Transparency.logStore
          Transparency.signedHead (2 * Transparency.signTime) = .ok ()
      ∧ ¬ ServesVerifiers codedLibrary Transparency.headScheme Transparency.logStore
          (2 * Transparency.signTime) [] := by
  have hget : Transparency.logStore["log-key"]? = some Transparency.logKey := by
    simp [Transparency.logStore]
  have hok : Transparency.verifySTH Transparency.headScheme.verify Transparency.logStore
      Transparency.signedHead (2 * Transparency.signTime) = .ok () := by decide +kernel
  refine ⟨logStore_reachable, publishKeys_logStore, hok, ?_⟩
  intro hserves
  have hsign : Transparency.headScheme.sign Transparency.logKey.privateKey
      (Transparency.canonicalSTHBytes 1 Transparency.zeroHash Transparency.signTime)
      = Transparency.headSignature := by decide +kernel
  have hiff := hserves.heads "log-key" Transparency.logKey hget rfl 1 Transparency.zeroHash
    Transparency.signTime
  rw [hsign] at hiff
  exact absurd (hiff.mpr hok) (List.not_mem_nil)

end Owasaka.Jwt
