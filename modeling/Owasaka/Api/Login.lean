import Owasaka.Identity.Middleware
import Owasaka.Jwt.Lifetime

/-! # Logging in (`api/login.go`)

    `LoginHandler` takes a username, a password and a TOTP code, has them authenticated
    as one password factor and answers with a pair of tokens.

    ## Abstract view

    A login opens a session.  Whatever the authority does afterwards, short of retiring
    the signing key, and whatever becomes of the stores, the access token authenticates
    as what the principal store has under the ID at that time, while the token is in its
    life, its key is good and it is not revoked.  The refresh token authenticates nobody. -/

namespace Owasaka.Api

open Identity (CredentialStore PrincipalStore AuthFactor)
open Jwt Pki

/-! ## Section 1: The handler -/

/-- The JSON object in the body. -/
structure LoginBody where
  username : String
  password : String
  totp : String

/-- A request; a body that does not decode is `none`. -/
structure LoginRequest where
  method : String
  body : Option LoginBody

inductive LoginReply where
  | methodNotAllowed
  | failed (error : String) (status : Nat)
  | session (pair : TokenPair) (principal : Identity.Principal)

/-- `LoginHandlerDeps`, with the errors of the authenticator's stores. -/
structure LoginDeps where
  principals : PrincipalStore
  creds : CredentialStore
  findFault : Option String
  getFault : Option String
  lib : Library
  issuer : Issuer

def typeText : Identity.PrincipalType → String
  | .human => "human"
  | .service => "service"
  | .agent => "agent"
  | .other text => text

def statusText : Identity.PrincipalStatus → String
  | .active => "active"
  | .suspended => "suspended"
  | .revoked => "revoked"
  | .other text => text

/-- The principal as the issuer reads it. -/
def tokenPrincipal (p : Identity.Principal) : Jwt.Principal :=
  ⟨p.id, ⟨typeText p.type⟩, p.subject, ⟨statusText p.status⟩⟩

def passwordFactor (b : LoginBody) : AuthFactor where
  kind := .password
  subject := b.username
  proof := b.password.toUTF8.toList
  extra := Std.ExtTreeMap.insert ∅ "totp" (.str b.totp)

/-- `LoginHandler`; the two JTIs are fresh UUIDs. -/
def loginHandler (d : LoginDeps) (env : Env) (accessJTI refreshJTI : String) (req : LoginRequest) :
    LoginReply :=
  if req.method ≠ "POST" then .methodNotAllowed
  else
    match req.body with
    | none => .failed "invalid request body" 400
    | some b =>
      if b.username = "" ∨ b.password = "" ∨ b.totp = "" then
        .failed "username, password, and totp are required" 400
      else
        match Identity.authenticate d.principals d.creds d.findFault d.getFault [passwordFactor b] with
        | .error _ => .failed "authentication failed" 401
        | .ok p =>
          match d.issuer.issue d.lib env accessJTI refreshJTI (some (tokenPrincipal p)) with
          | .error _ => .failed "token issuance failed" 500
          | .ok pair => .session pair p

/-! ## Section 2: Who is logged in -/

/-- The body proves the principal: it passes the password credential of the username,
    which is bound to the active principal. -/
def Proves (d : LoginDeps) (b : LoginBody) (p : Identity.Principal) : Prop :=
  b.username ≠ "" ∧ b.password ≠ "" ∧ b.totp ≠ "" ∧ p.isActive = true
    ∧ (p.type = .human ∨ p.type = .agent)
    ∧ ∃ cred, d.creds.credentials .password b.username = some cred
      ∧ cred.verify (passwordFactor b) = .ok () ∧ d.principals.byID cred.principalID = some p

variable {d : LoginDeps} {env : Env} {accessJTI refreshJTI : String} {req : LoginRequest}
  {pair : TokenPair} {p : Identity.Principal}

/-- One password factor passes the policy of humans and of agents. -/
theorem factorPolicy_password_iff :
    Identity.factorPolicy p .password 1 = .ok p ↔ p.type = .human ∨ p.type = .agent := by
  constructor
  · intro hok
    obtain ⟨_, htype⟩ := Identity.factorPolicy_ok hok
    rcases htype with htype | htype | ⟨_, hkind⟩
    · exact Or.inl htype
    · exact Or.inr htype
    · contradiction
  · intro htype
    rcases htype with htype | htype
    · simp [Identity.factorPolicy, htype]
    · simp [Identity.factorPolicy, htype]

theorem authenticate_password_iff {b : LoginBody} :
    Identity.authenticate d.principals d.creds d.findFault d.getFault [passwordFactor b] = .ok p
      ↔ d.findFault = none ∧ d.getFault = none ∧ p.isActive = true
        ∧ (p.type = .human ∨ p.type = .agent)
        ∧ ∃ cred, d.creds.credentials .password b.username = some cred
          ∧ cred.verify (passwordFactor b) = .ok () ∧ d.principals.byID cred.principalID = some p := by
  constructor
  · intro hok
    obtain ⟨first, rest, cred, hfactors, hcred, hverify, hget, hactive, hpolicy⟩ :=
      Identity.authenticate_ok hok
    obtain ⟨rfl, rfl⟩ := List.cons.inj hfactors
    have hfaults : d.findFault = none ∧ d.getFault = none := by
      have hfind : d.findFault = none := by
        cases hfind : d.findFault with
        | none => rfl
        | some e => simp [Identity.authenticate, hfind] at hok
      refine ⟨hfind, ?_⟩
      cases hgetFault : d.getFault with
      | none => rfl
      | some e =>
        simp [Identity.authenticate, hfind, hgetFault, CredentialStore.findBySubject, hcred,
          Identity.verifyFactors_ok.mpr hverify] at hok
    exact ⟨hfaults.1, hfaults.2, hactive, factorPolicy_password_iff.mp hpolicy, cred, hcred,
      hverify _ List.mem_cons_self, hget⟩
  · intro hfactor
    obtain ⟨hfind, hgetFault, hactive, htype, cred, hcred, hverify, hget⟩ := hfactor
    have hall : Identity.verifyFactors cred [passwordFactor b] = .ok () := by
      rw [Identity.verifyFactors_ok]
      intro f hf
      rw [List.mem_singleton.mp hf]
      exact hverify
    have hcred' : d.creds.credentials (passwordFactor b).kind (passwordFactor b).subject = some cred :=
      hcred
    simp only [Identity.authenticate, hfind, hgetFault, CredentialStore.findBySubject, hcred', hall,
      PrincipalStore.get, hget, hactive, Bool.not_true, Bool.false_eq_true, if_false]
    exact factorPolicy_password_iff.mpr htype

/-- **Login**: who gets a session, and which pair of tokens. -/
theorem loginHandler_session_iff :
    loginHandler d env accessJTI refreshJTI req = .session pair p ↔
      req.method = "POST" ∧ d.findFault = none ∧ d.getFault = none
        ∧ (∃ b, req.body = some b ∧ Proves d b p)
        ∧ d.issuer.issue d.lib env accessJTI refreshJTI (some (tokenPrincipal p)) = .ok pair := by
  unfold loginHandler
  by_cases hmethod : req.method = "POST"
  · rw [if_neg (not_not_intro hmethod)]
    cases hbody : req.body with
    | none => simp
    | some b =>
      simp only [Option.some.injEq, exists_eq_left', Proves]
      by_cases hempty : b.username = "" ∨ b.password = "" ∨ b.totp = ""
      · rw [if_pos hempty]
        constructor
        · intro hok
          contradiction
        · intro hgranted
          obtain ⟨_, _, _, hproves, _⟩ := hgranted
          rcases hempty with h | h | h
          · exact absurd h hproves.1
          · exact absurd h hproves.2.1
          · exact absurd h hproves.2.2.1
      · rw [if_neg hempty]
        simp only [not_or] at hempty
        cases hauth : Identity.authenticate d.principals d.creds d.findFault d.getFault
            [passwordFactor b] with
        | error e =>
          constructor
          · intro hok
            contradiction
          · intro hgranted
            obtain ⟨_, hfind, hget, hproves, _⟩ := hgranted
            have hok := authenticate_password_iff.mpr ⟨hfind, hget, hproves.2.2.2⟩
            rw [hauth] at hok
            contradiction
        | ok q =>
          obtain ⟨hfind, hget, hrest⟩ := authenticate_password_iff.mp hauth
          constructor
          · intro hok
            simp only at hok
            split at hok
            · contradiction
            · next pair' hissue =>
              cases hok
              exact ⟨hmethod, hfind, hget, ⟨hempty.1, hempty.2.1, hempty.2.2, hrest⟩, hissue⟩
          · intro hgranted
            obtain ⟨_, _, _, hproves, hissue⟩ := hgranted
            have hsame := authenticate_password_iff.mpr ⟨hfind, hget, hproves.2.2.2⟩
            rw [hauth] at hsame
            cases hsame
            simp only [hissue]
  · rw [if_pos hmethod]
    constructor
    · intro hok
      contradiction
    · intro h
      exact absurd h.1 hmethod

/-! ## Section 3: The session -/

variable {lib : Library} {ed : SignatureScheme} {key : KeyPair} {st : KeyStore}

/-- A token that is minted under a kept key verifies as its own type in its life, while
    the key is good and the token is not revoked, and at no other time. -/
theorem verify_access_iff (hed : ed.Ideal) (hlib : lib.Lawful ed) (hid : key.id ≠ "")
    (hpublic : key.publicKey = ed.publicKey key.privateKey) (hkept : KeyKept key st)
    {q : Jwt.Principal} {jti : String} {t₀ exp t : Int} {raw : Bytes}
    (hraw : lib.signedString key.id (buildClaims q jti t₀ exp audienceAccess typeAccess)
      key.privateKey = .ok raw) (hlo : t₀ ≤ t) {revocations : RevocationChecker} {c : Claims} :
    verify lib revocations st t raw typeAccess = .ok c ↔
      (t < (newNumericDate exp).time ∧ t ≤ key.notAfter ∧ NotRevoked revocations jti)
        ∧ c = buildClaims q jti t₀ exp audienceAccess typeAccess := by
  have htype := buildClaims_ofType_access q jti t₀ exp
  constructor
  · intro hok
    obtain ⟨tok, kid, kp, hdec, _, hkid, _, hget, hver, _, hdate, rfl, _, hrev⟩ :=
      (verify_ok_iff hlib).mp hok
    obtain ⟨raw', hraw', hdec'⟩ := hlib.signedString key.id
      (buildClaims q jti t₀ exp audienceAccess typeAccess) key.privateKey
    rw [hraw] at hraw'
    cases hraw'
    rw [hdec] at hdec'
    cases hdec'
    have hlife : t < (newNumericDate exp).time := by
      simpa [Claims.expired, buildClaims] using hdate.1
    have hgood := (verify_minted hed hlib hid hpublic hkept hraw htype hdate hrev).mp hok
    exact ⟨⟨hlife, hgood, hrev⟩, rfl⟩
  · intro hgrant
    obtain ⟨⟨hlife, hgood, hrev⟩, heq⟩ := hgrant
    rw [heq]
    exact (verify_minted hed hlib hid hpublic hkept hraw htype (buildClaims_inDate hlo hlife)
      hrev).mpr hgood

/-- The request is authenticated without the development token. -/
def NotDev (m : AuthMiddleware.Middleware) (token : Bytes) : Prop :=
  ¬ (m.devToken ≠ [] ∧ token = m.devToken)

/-- What the two tokens of a pair are good for, from `start` on. -/
structure SessionOf (lib : Library) (ed : SignatureScheme) (start : AuthorityState) (key : KeyPair)
    (pair : TokenPair) (id : String) : Prop where
  /-- The access token authenticates as what is then stored under the ID. -/
  access : ∀ s, (laterSystem ed key.id).Steps start s → ∀ t, s.now ≤ t →
    ∀ m revocations principals req, NotDev m pair.accessToken →
      AuthMiddleware.Carries req pair.accessToken → ∀ q,
        AuthMiddleware.authenticate m ⟨lib, revocations, s.store, principals, t⟩ req = .ok q ↔
          (t < (newNumericDate pair.accessExp).time ∧ t ≤ key.notAfter
            ∧ NotRevoked revocations pair.accessJTI)
          ∧ principals.byID id = some q ∧ q.isActive = true
  /-- The refresh token authenticates nobody. -/
  refresh : ∀ w m req, w.lib = lib → NotDev m pair.refreshToken →
    AuthMiddleware.Carries req pair.refreshToken →
      ∀ q, AuthMiddleware.authenticate m w req ≠ .ok q

theorem get_ok_iff {principals : PrincipalStore} {id : String} {q : Identity.Principal} :
    principals.get id = .ok q ↔ principals.byID id = some q := by
  unfold PrincipalStore.get
  cases principals.byID id with
  | none => simp
  | some p => simp

/-- A request carries one token. -/
theorem carries_unique {req : AuthMiddleware.Request} {token token' : Bytes}
    (h : AuthMiddleware.Carries req token) (h' : AuthMiddleware.Carries req token') :
    token = token' := by
  rw [← AuthMiddleware.extractBearer_ok_iff] at h h'
  exact Except.ok.inj (h.symm.trans h')

theorem authenticate_carried_iff {m : AuthMiddleware.Middleware} {w : AuthMiddleware.World}
    {req : AuthMiddleware.Request} {token : Bytes} (hcarries : AuthMiddleware.Carries req token)
    (hdev : NotDev m token) {q : Identity.Principal} :
    AuthMiddleware.authenticate m w req = .ok q ↔
      q.isActive = true ∧ ∃ c, verify w.lib w.revocations w.keys w.now token typeAccess = .ok c
        ∧ w.principals.byID c.subject = some q := by
  rw [AuthMiddleware.authenticate_ok_iff]
  constructor
  · intro hok
    obtain ⟨hactive, token', hcarries', hstands⟩ := hok
    cases carries_unique hcarries hcarries'
    rw [AuthMiddleware.StandsFor, if_neg hdev] at hstands
    obtain ⟨c, hverify, hget⟩ := hstands
    exact ⟨hactive, c, hverify, get_ok_iff.mp hget⟩
  · intro hstands
    obtain ⟨hactive, c, hverify, hget⟩ := hstands
    refine ⟨hactive, token, hcarries, ?_⟩
    rw [AuthMiddleware.StandsFor, if_neg hdev]
    exact ⟨c, hverify, get_ok_iff.mpr hget⟩

/-- A pair that is issued is a session of the principal it is issued to. -/
theorem issue_session (hed : ed.Ideal) (hlib : lib.Lawful ed) {s : AuthorityState}
    (hreach : (authoritySystem ed).Reachable s) (horder : s.store.Order env.order) {i : Issuer}
    {holder : Jwt.Principal} (hissue : i.issue lib env accessJTI refreshJTI (some holder) = .ok pair) :
    ∃ key, activeKey env purposeJWTSigning = .ok key
      ∧ SessionOf lib ed ⟨s.store, env.now⟩ key pair holder.id := by
  have hwell := wellKept_of_reachable hreach
  obtain ⟨key, hactive, _, _, _, haccess, hrefresh⟩ := issue_ok hissue
  obtain ⟨hget, hid, _, hstatus, hpublic⟩ := activeKey_ok hwell horder hactive
  refine ⟨key, hactive, ?_, ?_⟩
  · intro s' hrun t hlo m revocations principals req hdev hcarries q
    have hkept : KeyKept key s'.store := by
      have hstart : WellKept ed (AuthorityState.mk s.store env.now).store := hwell
      exact keyKept_of_steps hstart ⟨key, hget, rfl, rfl, by simp [hstatus]⟩ hrun
    have hstart : env.now ≤ t := le_trans (now_le_of_steps hrun) hlo
    rw [authenticate_carried_iff hcarries hdev]
    simp only [verify_access_iff hed hlib hid hpublic hkept haccess hstart]
    constructor
    · intro hmine
      obtain ⟨hq, c, ⟨hlive, heq⟩, hsubject⟩ := hmine
      rw [heq] at hsubject
      exact ⟨hlive, hsubject, hq⟩
    · intro hmine
      obtain ⟨hlive, hsubject, hq⟩ := hmine
      exact ⟨hq, _, ⟨hlive, rfl⟩, hsubject⟩
  · intro w m req hw hdev hcarries q hok
    obtain ⟨_, c, hverify, _⟩ := (authenticate_carried_iff hcarries hdev).mp hok
    rw [hw] at hverify
    exact verify_other_type hlib hrefresh (by decide) (show typeRefresh ≠ typeAccess by decide) hverify

/-- **A login opens a session** for the principal that the body proves. -/
theorem login_session (hed : ed.Ideal) (hlib : d.lib.Lawful ed) {s : AuthorityState}
    (hreach : (authoritySystem ed).Reachable s) (horder : s.store.Order env.order)
    (hlogin : loginHandler d env accessJTI refreshJTI req = .session pair p) :
    (∃ b, req.body = some b ∧ Proves d b p) ∧ ∃ key, activeKey env purposeJWTSigning = .ok key
      ∧ SessionOf d.lib ed ⟨s.store, env.now⟩ key pair p.id := by
  obtain ⟨_, _, _, hproves, hissue⟩ := loginHandler_session_iff.mp hlogin
  exact ⟨hproves, issue_session hed hlib hreach horder hissue⟩

/-! ## Section 4: Alice logs in -/

def aliceRecord : Identity.Principal := ⟨"p1", .human, "alice", "", .active, ["analyst"], ∅⟩

def aliceHash : Bytes := "$2a$12$R9h/cIPz0gi.URNNX3kh2OPST9/PgBkqquzi.Ss7KIUgO2t0jWMUW".toUTF8.toList

/-- The checks on her hash, password and code. -/
def aliceChecks : Identity.Checks where
  bcrypt := fun hash proof => hash = aliceHash ∧ proof = "correct horse".toUTF8.toList
  totp := fun code secret => code = "492039" ∧ secret = "JBSWY3DPEHPK3PXP"
  normalizeFingerprint := id

def aliceCredential : Identity.Credential :=
  Identity.passwordTOTPCredential aliceChecks "p1" "alice" aliceHash "JBSWY3DPEHPK3PXP"

noncomputable def aliceDeps : LoginDeps where
  principals := (PrincipalStore.empty.save aliceRecord).toOption.getD PrincipalStore.empty
  creds := CredentialStore.empty.save aliceCredential
  findFault := none
  getFault := none
  lib := aliceLibrary
  issuer := ⟨defaultAccessTTL, defaultRefreshTTL⟩

def aliceBody : LoginBody := ⟨"alice", "correct horse", "492039"⟩

theorem aliceBody_proves : Proves aliceDeps aliceBody aliceRecord := by
  refine ⟨by decide, by decide, by decide, rfl, Or.inl rfl, aliceCredential, rfl, ?_, rfl⟩
  have hcode : "492039" ≠ "" := by decide
  simp [aliceCredential, Identity.passwordTOTPCredential, passwordFactor, aliceBody, aliceChecks, hcode]

theorem login_session_alice :
    loginHandler aliceDeps (quietEnv (12 * hour) [jwtKey] "" []) "access-1" "refresh-1"
        ⟨"POST", some aliceBody⟩ = .session alicePair aliceRecord
      ∧ ∃ key, activeKey (quietEnv (12 * hour) [jwtKey] "" []) purposeJWTSigning = .ok key
        ∧ SessionOf aliceLibrary aliceScheme ⟨jwtStore, 12 * hour⟩ key alicePair "p1" := by
  have horder : jwtStore.Order (quietEnv (12 * hour) [jwtKey] "" []).order := .refl _
  have hlogin : loginHandler aliceDeps (quietEnv (12 * hour) [jwtKey] "" []) "access-1" "refresh-1"
      ⟨"POST", some aliceBody⟩ = .session alicePair aliceRecord :=
    loginHandler_session_iff.mpr ⟨rfl, rfl, rfl, ⟨aliceBody, rfl, aliceBody_proves⟩, aliceIssue_eq⟩
  exact ⟨hlogin, (login_session (SignatureScheme.known_ideal _) aliceLibrary_lawful jwtStore_reachable
    horder hlogin).2⟩

end Owasaka.Api
