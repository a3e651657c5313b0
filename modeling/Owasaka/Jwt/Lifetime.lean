import Owasaka.Jwt.Rendered

/-! # The life of a token

    A token carries its own expiry, and its signing key carries another one: the
    issuer takes the active key by its status alone, so the key may be past
    `NotAfter` before the token expires, or already when the token is issued.

    The main result: over every later run of the authority that does not retire
    the signing key, a pair of tokens stays valid for its whole life exactly
    when the key outlives both expiries. -/

namespace Owasaka.Jwt

open Pki

/-- Later runs: the clock does not go back and the key is not retired. -/
def laterSystem (ed : SignatureScheme) (kid : String) :
    System AuthorityState (AuthorityCall × Env) :=
  (authoritySystem ed).restrict fun s l => s.now ≤ l.2.now ∧ l.1 ≠ .retire kid

/-- From `start` on, at every time before `exp` (to the second) and while its
    JTI is not revoked, the token verifies as its own type with exactly the
    given claims, and never as the other type. -/
def StaysValid (lib : Library) (ed : SignatureScheme) (start : AuthorityState) (kid : String)
    (raw : Bytes) (claims : Claims) (exp : Int) (own other : TokenType) : Prop :=
  ∀ s, (laterSystem ed kid).Steps start s → ∀ t, s.now ≤ t → t < (newNumericDate exp).time →
    ∀ revocations, NotRevoked revocations claims.id →
      verify lib revocations s.store t raw own = .ok claims
        ∧ ∀ c, verify lib revocations s.store t raw other ≠ .ok c

/-- Both tokens of a pair stay valid. -/
def PairStaysValid (lib : Library) (ed : SignatureScheme) (start : AuthorityState)
    (p : Principal) (pair : TokenPair) : Prop :=
  StaysValid lib ed start pair.signingKeyID pair.accessToken
      (buildClaims p pair.accessJTI start.now pair.accessExp audienceAccess typeAccess)
      pair.accessExp typeAccess typeRefresh
    ∧ StaysValid lib ed start pair.signingKeyID pair.refreshToken
      (buildClaims p pair.refreshJTI start.now pair.refreshExp audienceRefresh typeRefresh)
      pair.refreshExp typeRefresh typeAccess

/-- A token issued at `t₀` has no instant of its life after the key's `NotAfter`. -/
def KeyOutlives (key : KeyPair) (t₀ exp : Int) : Prop :=
  (newNumericDate exp).time ≤ t₀ ∨ (newNumericDate exp).time ≤ key.notAfter + 1

variable {lib : Library} {ed : SignatureScheme} {s start : AuthorityState} {key : KeyPair}

/-! ## Section 1: The signing key over later runs -/

/-- The key is stored and not retired; only its status may have changed. -/
def KeyKept (key : KeyPair) (store : KeyStore) : Prop :=
  ∃ kp, store[key.id]? = some kp ∧ kp.publicKey = key.publicKey ∧ kp.notAfter = key.notAfter
    ∧ kp.status ≠ .retired

theorem KeyKept.change {call : AuthorityCall} {env : Env} {st st' : KeyStore}
    (hnew : env.id ≠ key.id) (hcall : call ≠ .retire key.id) (hkept : KeyKept key st)
    (hchange : Change ed call env st st') : KeyKept key st' := by
  obtain ⟨kp, hget, hpublic, hafter, hstatus⟩ := hkept
  cases hchange with
  | @status id kp' status hold hhow =>
    by_cases heq : key.id = id
    · -- the key itself: it may rotate, but only its own retirement retires it
      subst heq
      rw [hget] at hold
      cases hold
      refine ⟨{ kp with status := status }, by rw [getElem?_insert_ite, if_pos rfl], hpublic, hafter, ?_⟩
      rcases hhow with ⟨rfl, _⟩ | ⟨_, hretire⟩
      · simp
      · exact absurd hretire hcall
    · exact ⟨kp, by rw [getElem?_insert_ite, if_neg heq, hget], hpublic, hafter, hstatus⟩
  | @added kp' hid _ _ _ =>
    -- a new key has a new ID
    have hne : ¬ key.id = kp'.id := by rw [hid]; exact Ne.symm hnew
    exact ⟨kp, by rw [getElem?_insert_ite, if_neg hne, hget], hpublic, hafter, hstatus⟩

theorem KeyKept.changes {call : AuthorityCall} {env : Env} {st st' : KeyStore}
    (hnew : env.id ≠ key.id) (hcall : call ≠ .retire key.id) (hkept : KeyKept key st)
    (hchanges : Relation.ReflTransGen (Change ed call env) st st') : KeyKept key st' := by
  induction hchanges with
  | refl => exact hkept
  | tail _ hchange ih => exact ih.change hnew hcall hchange

/-- **Step lemma**: a later call keeps the key. -/
theorem keyKept_step {l : AuthorityCall × Env} {s' : AuthorityState}
    (hinv : WellKept ed s.store ∧ KeyKept key s.store)
    (hstep : (laterSystem ed key.id).step s l s') :
    WellKept ed s'.store ∧ KeyKept key s'.store := by
  obtain ⟨⟨_, hcall⟩, horder, hid, hfresh, rfl⟩ := hstep
  obtain ⟨hwell, hkept⟩ := hinv
  have hne : l.2.id ≠ key.id := by
    intro heq
    obtain ⟨kp, hget, _⟩ := hkept
    rw [heq] at hfresh
    exact hfresh (mem_of_getElem?_eq_some hget)
  have hchanges := changes_of_call l.1 hwell horder
  exact ⟨hwell.changes hid hchanges, hkept.changes hne hcall hchanges⟩

/-- **Run lemma**: the key is kept along every later run. -/
theorem keyKept_of_steps (hwell : WellKept ed start.store) (hkept : KeyKept key start.store)
    (hrun : (laterSystem ed key.id).Steps start s) : KeyKept key s.store := by
  have hboth : WellKept ed s.store ∧ KeyKept key s.store :=
    System.Steps.invariant (fun _ _ _ => keyKept_step) ⟨hwell, hkept⟩ hrun
  exact hboth.2

/-- The clock does not go back along a later run. -/
theorem now_le_of_steps {kid : String} (hrun : (laterSystem ed kid).Steps start s) :
    start.now ≤ s.now := by
  refine System.Steps.invariant (P := fun s => start.now ≤ s.now) ?_ (le_refl start.now) hrun
  rintro s l s' hle ⟨⟨hnow, _⟩, _, _, _, rfl⟩
  exact le_trans hle hnow

/-! ## Section 2: One token -/

theorem newNumericDate_time_le (t : Int) : (newNumericDate t).time ≤ t := by
  unfold newNumericDate NumericDate.time
  exact Int.ediv_mul_le t (by decide)

/-- The claims that `Issue` builds are in date from the issue to the expiry. -/
theorem buildClaims_inDate {p : Principal} {jti audience : String} {tt : TokenType}
    {t₀ exp t : Int} (hlo : t₀ ≤ t) (hhi : t < (newNumericDate exp).time) :
    (buildClaims p jti t₀ exp audience tt).InDate t := by
  have hnbf := newNumericDate_time_le t₀
  constructor
  · simp [Claims.expired, buildClaims, hhi]
  · simp only [Claims.notValidYet, buildClaims, decide_eq_false_iff_not]
    omega

theorem buildClaims_ofType_access (p : Principal) (jti : String) (t₀ exp : Int) :
    OfType (buildClaims p jti t₀ exp audienceAccess typeAccess) typeAccess :=
  ⟨fun _ => rfl, rfl⟩

theorem buildClaims_ofType_refresh (p : Principal) (jti : String) (t₀ exp : Int) :
    OfType (buildClaims p jti t₀ exp audienceRefresh typeRefresh) typeRefresh :=
  ⟨fun _ => rfl, rfl⟩

/-- In its life, a token verifies exactly until its key's `NotAfter`. -/
theorem verify_minted (hed : ed.Ideal) (hlib : lib.Lawful ed) {st : KeyStore} {raw : Bytes}
    {claims : Claims} {tt : TokenType} {t : Int} {revocations : RevocationChecker}
    (hid : key.id ≠ "") (hpublic : key.publicKey = ed.publicKey key.privateKey)
    (hkept : KeyKept key st) (hraw : lib.signedString key.id claims key.privateKey = .ok raw)
    (htype : OfType claims tt) (hdate : claims.InDate t)
    (hrev : NotRevoked revocations claims.id) :
    verify lib revocations st t raw tt = .ok claims ↔ t ≤ key.notAfter := by
  obtain ⟨kp, hget, hpub, hafter, hstatus⟩ := hkept
  obtain ⟨raw', hraw', hdec⟩ := hlib.signedString key.id claims key.privateKey
  rw [hraw] at hraw'
  cases hraw'
  rw [verify_ok_iff hlib]
  constructor
  · -- whatever key the verifier found, it is the one that signed
    intro ⟨tok, kid, kp', hdec', _, hkid, _, hget', hver, _⟩
    rw [hdec] at hdec'
    cases hdec'
    cases hkid
    rw [hget] at hget'
    cases hget'
    rw [← hafter]
    exact ((kp.isVerifyable_iff t).mp hver).2
  · intro hle
    have hver : kp.isVerifyable t = true := (kp.isVerifyable_iff t).mpr ⟨hstatus, hafter ▸ hle⟩
    have hsig := hed.verify_sign key.privateKey (lib.signingString key.id claims)
    rw [← hpublic, ← hpub] at hsig
    exact ⟨_, key.id, kp, hdec, rfl, rfl, hid, hget, hver, hsig, hdate, rfl, htype, hrev⟩

/-- A token never verifies as another type than the one in its claims. -/
theorem verify_other_type (hlib : lib.Lawful ed) {st : KeyStore} {raw sk : Bytes} {claims c : Claims}
    {kid : String} {tt : TokenType} {t : Int} {revocations : RevocationChecker}
    (hraw : lib.signedString kid claims sk = .ok raw) (hne : tt.text ≠ "")
    (hother : claims.tokenType ≠ tt) : verify lib revocations st t raw tt ≠ .ok c := by
  intro hok
  obtain ⟨raw', hraw', hdec⟩ := hlib.signedString kid claims sk
  rw [hraw] at hraw'
  cases hraw'
  obtain ⟨tok, _, _, hdec', _, _, _, _, _, _, _, rfl, htype, _⟩ := (verify_ok_iff hlib).mp hok
  rw [hdec] at hdec'
  cases hdec'
  exact hother (htype.1 hne)

/-- One token stays valid exactly when the key outlives its expiry. -/
theorem staysValid_iff (hed : ed.Ideal) (hlib : lib.Lawful ed) (hwell : WellKept ed start.store)
    (hkey : start.store[key.id]? = some key) (hactive : key.status = .active) {p : Principal}
    {jti audience : String} {exp : Int} {own other : TokenType} {raw : Bytes}
    (hraw : lib.signedString key.id (buildClaims p jti start.now exp audience own) key.privateKey
      = .ok raw)
    (hown : OfType (buildClaims p jti start.now exp audience own) own) (hne : other.text ≠ "")
    (hother : own ≠ other) :
    StaysValid lib ed start key.id raw (buildClaims p jti start.now exp audience own) exp own other
      ↔ KeyOutlives key start.now exp := by
  obtain ⟨_, hid, hpublic⟩ := hwell key.id key hkey
  have hkept : KeyKept key start.store := ⟨key, hkey, rfl, rfl, by simp [hactive]⟩
  constructor
  · intro hvalid
    by_cases hlife : (newNumericDate exp).time ≤ start.now
    · exact Or.inl hlife
    · -- look at the last instant of the token's life
      refine Or.inr ?_
      have hok := (hvalid start (System.Steps.refl start) ((newNumericDate exp).time - 1)
        (by omega) (by omega) none (by intro f hf; contradiction)).1
      have hle := (verify_minted hed hlib hid hpublic hkept hraw hown
        (buildClaims_inDate (by omega) (by omega)) (by intro f hf; contradiction)).mp hok
      omega
  · intro hout s hrun t hlo hhi revocations hrev
    have hstart := now_le_of_steps hrun
    have hkept' := keyKept_of_steps hwell hkept hrun
    refine ⟨?_, fun c => verify_other_type hlib hraw hne hother⟩
    rw [verify_minted hed hlib hid hpublic hkept' hraw hown
      (buildClaims_inDate (le_trans hstart hlo) hhi) hrev]
    -- no time is left, or the key is still good at `t`
    rcases hout with hpast | hlong
    · omega
    · omega

/-! ## Section 3: The pair that `Issue` returns -/

/-- What a successful `Issue` did. -/
theorem issue_ok {i : Issuer} {env : Env} {accessJTI refreshJTI : String} {p : Principal}
    {pair : TokenPair} (hissue : i.issue lib env accessJTI refreshJTI (some p) = .ok pair) :
    ∃ key, activeKey env purposeJWTSigning = .ok key ∧ pair.signingKeyID = key.id
      ∧ pair.accessExp = env.now + i.accessTTL ∧ pair.refreshExp = env.now + i.refreshTTL
      ∧ lib.signedString key.id
          (buildClaims p pair.accessJTI env.now pair.accessExp audienceAccess typeAccess)
          key.privateKey = .ok pair.accessToken
      ∧ lib.signedString key.id
          (buildClaims p pair.refreshJTI env.now pair.refreshExp audienceRefresh typeRefresh)
          key.privateKey = .ok pair.refreshToken := by
  unfold Issuer.issue at hissue
  simp only at hissue
  split at hissue
  · contradiction
  · split at hissue
    · contradiction
    · rename_i key hactive
      split at hissue
      · contradiction
      · rename_i access haccess
        split at hissue
        · contradiction
        · rename_i refresh hrefresh
          cases hissue
          exact ⟨key, hactive, rfl, rfl, rfl, haccess, hrefresh⟩

/-- **A pair stays valid for its whole life exactly when its key outlives it.** -/
theorem pairStaysValid_iff (hed : ed.Ideal) (hlib : lib.Lawful ed)
    (hreach : (authoritySystem ed).Reachable s) {i : Issuer} {env : Env}
    (horder : s.store.Order env.order) {accessJTI refreshJTI : String} {p : Principal}
    {pair : TokenPair} (hissue : i.issue lib env accessJTI refreshJTI (some p) = .ok pair) :
    ∃ key, activeKey env purposeJWTSigning = .ok key
      ∧ (PairStaysValid lib ed ⟨s.store, env.now⟩ p pair ↔
          KeyOutlives key env.now (env.now + i.accessTTL)
            ∧ KeyOutlives key env.now (env.now + i.refreshTTL)) := by
  have hwell := wellKept_of_reachable hreach
  obtain ⟨key, hactive, hkid, hexp, hexp', haccess, hrefresh⟩ := issue_ok hissue
  refine ⟨key, hactive, ?_⟩
  obtain ⟨_, hactive⟩ := faulty_ok hactive
  obtain ⟨⟨id, hget⟩, _, hstatus⟩ := KeyStore.activeByPurpose_ok horder hactive
  obtain ⟨rfl, _, _⟩ := hwell id key hget
  unfold PairStaysValid
  rw [hkid, ← hexp, ← hexp']
  have hwell' : WellKept ed (AuthorityState.mk s.store env.now).store := hwell
  refine and_congr ?_ ?_
  · exact staysValid_iff hed hlib hwell' hget hstatus haccess
      (buildClaims_ofType_access p _ _ _) (by decide) (by decide)
  · exact staysValid_iff hed hlib hwell' hget hstatus hrefresh
      (buildClaims_ofType_refresh p _ _ _) (by decide) (by decide)

/-! ## A refresh token that outlives its key -/

def hour : Int := 3600 * 10 ^ 9

def jwtPrivate : Bytes := Bytes.bigEndian 64
  0x0303030303030303030303030303030303030303030303030303030303030303ed4928c628d1c2c6eae90338905995612959273a5c63f93636c14614ac8737d1

/-- A signing key for 24 hours. -/
def jwtKey : KeyPair :=
  ⟨"jwt-key", purposeJWTSigning, jwtPrivate.drop 32, jwtPrivate, .active, 0, 0, 24 * hour⟩

def jwtStore : KeyStore := (∅ : KeyStore).insert "jwt-key" jwtKey

def alice : Principal := ⟨"p1", ⟨"human"⟩, "alice", statusActive⟩

def accessRaw : Bytes := (
  "eyJhbGciOiJFZERTQSIsImtpZCI6Imp3dC1rZXkiLCJ0eXAiOiJKV1QifQ"
  ++ ".eyJpc3MiOiJvd2FzYWthIiwic3ViIjoicDEiLCJhdWQiOlsib3dhc2FrYS1hcGkiXSwiZXhwIjo0NDEwMCwibmJm"
  ++ "Ijo0MzIwMCwiaWF0Ijo0MzIwMCwianRpIjoiYWNjZXNzLTEiLCJwdHlwZSI6Imh1bWFuIiwicHN1YiI6ImFsaWNl"
  ++ "IiwidHR5cGUiOiJhY2Nlc3MifQ"
  ++ ".pjOCXPgWY0w2IMmv6RtQJdNkCdVZeP7DeM7-46JDoBYcDmQYZPXC0QYdzninag2PPCL4ObWn9ieud2Ua8j1NBg"
  ).toUTF8.toList

def refreshRaw : Bytes := (
  "eyJhbGciOiJFZERTQSIsImtpZCI6Imp3dC1rZXkiLCJ0eXAiOiJKV1QifQ"
  ++ ".eyJpc3MiOiJvd2FzYWthIiwic3ViIjoicDEiLCJhdWQiOlsib3dhc2FrYS1yZWZyZXNoIl0sImV4cCI6MTI5NjAw"
  ++ "LCJuYmYiOjQzMjAwLCJpYXQiOjQzMjAwLCJqdGkiOiJyZWZyZXNoLTEiLCJwdHlwZSI6Imh1bWFuIiwicHN1YiI6"
  ++ "ImFsaWNlIiwidHR5cGUiOiJyZWZyZXNoIn0"
  ++ ".F5-7fVLzPPya7TVwxKEo30QvZwsCtVx8rgcFz97awu3pfnJ9v4dKl6BD0iIY6YBHNBHV_TLyxd4L1QsG2rA2Ag"
  ).toUTF8.toList

def accessSignature : Bytes := Bytes.bigEndian 64
  0xa633825cf816634c3620c9afe91b5025d36409d55978fec378cefee3a243a0161c0e641864f5c2d1061dce78a76a0d8f3c22f839b5a7f627ae77651af23d4d06

def refreshSignature : Bytes := Bytes.bigEndian 64
  0x179fbb7d52f33cfc9aed3570c4a128df442f670b02b55c7cae0705cfdedac2ede97e727dbf874a97a043d22218e980473411d5fd32f2c5de0bd50b06dab03602

def accessMint : Mint :=
  ⟨"jwt-key", buildClaims alice "access-1" (12 * hour) (12 * hour + defaultAccessTTL)
    audienceAccess typeAccess, jwtPrivate⟩

def refreshMint : Mint :=
  ⟨"jwt-key", buildClaims alice "refresh-1" (12 * hour) (12 * hour + defaultRefreshTTL)
    audienceRefresh typeRefresh, jwtPrivate⟩

def aliceTokens : List (Mint × Bytes) := [(accessMint, accessRaw), (refreshMint, refreshRaw)]

/-- Ed25519 on these two tokens. -/
def aliceScheme : SignatureScheme :=
  .known [((jwtPrivate.drop 32, beforeLastDot accessRaw), accessSignature),
    ((jwtPrivate.drop 32, beforeLastDot refreshRaw), refreshSignature)]

/-- The library on these two tokens. -/
noncomputable def aliceLibrary : Library :=
  rendered aliceScheme (signingKnown aliceTokens) (renderKnown aliceTokens)

theorem aliceLibrary_lawful : aliceLibrary.Lawful aliceScheme := by
  apply rendered_lawful
  apply renderKnown_injective
  · decide +kernel
  · decide +kernel

/-- The call of `Issue` twelve hours after the key was generated. -/
noncomputable def aliceIssue : Except IssueError TokenPair :=
  Issuer.issue aliceLibrary ⟨defaultAccessTTL, defaultRefreshTTL⟩
    (quietEnv (12 * hour) [jwtKey] "" []) "access-1" "refresh-1" (some alice)

def alicePair : TokenPair :=
  ⟨accessRaw, refreshRaw, "access-1", "refresh-1", 12 * hour + defaultAccessTTL,
    12 * hour + defaultRefreshTTL, "jwt-key"⟩

theorem aliceIssue_eq : aliceIssue = .ok alicePair := by
  have hactive : activeKey (quietEnv (12 * hour) [jwtKey] "" []) purposeJWTSigning = .ok jwtKey :=
    rfl
  have haccess : signClaims aliceLibrary accessMint.claims jwtKey = .ok accessRaw := by
    show Except.ok (renderKnown aliceTokens accessMint) = _
    simp [renderKnown, aliceTokens]
  have hrefresh : signClaims aliceLibrary refreshMint.claims jwtKey = .ok refreshRaw := by
    have hne : accessMint ≠ refreshMint := by decide +kernel
    show Except.ok (renderKnown aliceTokens refreshMint) = _
    simp [renderKnown, aliceTokens, hne]
  unfold accessMint at haccess
  unfold refreshMint at hrefresh
  unfold aliceIssue Issuer.issue
  simp only [hactive]
  simp only [quietEnv, haccess, hrefresh]
  rfl

theorem jwtStore_reachable : (authoritySystem aliceScheme).Reachable ⟨jwtStore, 0⟩ := by
  have hnone : (authoritySystem aliceScheme).Reachable ⟨∅, 0⟩ := System.Reachable.init rfl
  exact hnone.tail
    (l := (.generateKeyPair purposeJWTSigning (24 * hour), quietEnv 0 [] "jwt-key" jwtPrivate))
    ⟨.refl _, by decide, by simp [quietEnv], rfl⟩

theorem pairStaysValid_iff_alice :
    (authoritySystem aliceScheme).Reachable ⟨jwtStore, 0⟩ ∧ aliceIssue = .ok alicePair
      ∧ ∃ key, activeKey (quietEnv (12 * hour) [jwtKey] "" []) purposeJWTSigning = .ok key
        ∧ (PairStaysValid aliceLibrary aliceScheme ⟨jwtStore, 12 * hour⟩ alice alicePair ↔
            KeyOutlives key (12 * hour) (12 * hour + defaultAccessTTL)
              ∧ KeyOutlives key (12 * hour) (12 * hour + defaultRefreshTTL)) := by
  have horder : jwtStore.Order (quietEnv (12 * hour) [jwtKey] "" []).order := .refl _
  exact ⟨jwtStore_reachable, aliceIssue_eq,
    pairStaysValid_iff (SignatureScheme.known_ideal _) aliceLibrary_lawful jwtStore_reachable horder
      aliceIssue_eq⟩

/-- Six hours before its expiry the refresh token is refused: its key is past
    `NotAfter`. -/
theorem refresh_token_outlives_key :
    (authoritySystem aliceScheme).Reachable ⟨jwtStore, 0⟩ ∧ aliceIssue = .ok alicePair
      ∧ 30 * hour < (newNumericDate alicePair.refreshExp).time
      ∧ (∀ c, verify aliceLibrary none jwtStore (30 * hour) alicePair.refreshToken typeRefresh
          ≠ .ok c)
      ∧ ¬ PairStaysValid aliceLibrary aliceScheme ⟨jwtStore, 12 * hour⟩ alice alicePair := by
  have hrefused : ∀ c, verify aliceLibrary none jwtStore (30 * hour) alicePair.refreshToken
      typeRefresh ≠ .ok c := by
    intro c hok
    obtain ⟨_, kid, kp, _, _, _, _, hget, hver, _⟩ := (verify_ok_iff aliceLibrary_lawful).mp hok
    have hkp : jwtKey = kp := by
      rcases getElem?_insert_cases hget with ⟨_, rfl⟩ | ⟨_, hnone⟩
      · rfl
      · simp at hnone
    rw [← hkp] at hver
    exact absurd hver (by decide)
  refine ⟨jwtStore_reachable, aliceIssue_eq, by decide, hrefused, ?_⟩
  intro hvalid
  exact hrefused _ (hvalid.2 _ (System.Steps.refl _) (30 * hour) (by decide) (by decide) none
    (by intro f hf; contradiction)).1

end Owasaka.Jwt
