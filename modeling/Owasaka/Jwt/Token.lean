import Owasaka.Pki.Authority

/-! # Tokens (`jwt`)

    `Issuer.Issue` mints an access and a refresh token with the active signing
    key; `Verifier.Verify` parses a raw token, resolves its `kid` header in the
    key store and checks type, audience and revocation.

    Encoding, decoding and parsing are `golang-jwt`'s: they are a parameter,
    `Library`, with the behaviour that the code relies on in `Library.Lawful`. -/

namespace Owasaka.Jwt

open Pki

/-! ## Section 1: Claims -/

def issuerName : String := "owasaka"
def audienceAccess : String := "owasaka-api"
def audienceRefresh : String := "owasaka-refresh"
def defaultAccessTTL : Int := 15 * 60 * 10 ^ 9
def defaultRefreshTTL : Int := 24 * 60 * 60 * 10 ^ 9

/-- `TokenType` is a Go string: callers may pass any, and `""` accepts either. -/
structure TokenType where
  text : String
  deriving DecidableEq

def typeAccess : TokenType := ⟨"access"⟩
def typeRefresh : TokenType := ⟨"refresh"⟩

structure PrincipalType where
  text : String
  deriving DecidableEq

structure PrincipalStatus where
  text : String
  deriving DecidableEq

def statusActive : PrincipalStatus := ⟨"active"⟩

/-- `identity.Principal`, as far as tokens read it. -/
structure Principal where
  id : String
  type : PrincipalType
  subject : String
  status : PrincipalStatus

def Principal.isActive (p : Principal) : Bool := p.status = statusActive

/-- `jwt.NumericDate` holds whole seconds. -/
structure NumericDate where
  seconds : Int
  deriving DecidableEq

/-- Truncates to the second. -/
def newNumericDate (t : Int) : NumericDate := ⟨t / 10 ^ 9⟩

def NumericDate.time (d : NumericDate) : Int := d.seconds * 10 ^ 9

structure Claims where
  issuer : String
  subject : String
  audience : List String
  expiresAt : Option NumericDate
  notBefore : Option NumericDate
  issuedAt : Option NumericDate
  id : String
  principalType : PrincipalType
  principalSubject : String
  tokenType : TokenType
  deriving DecidableEq

def buildClaims (p : Principal) (jti : String) (now exp : Int) (audience : String)
    (tt : TokenType) : Claims where
  issuer := issuerName
  subject := p.id
  audience := [audience]
  issuedAt := some (newNumericDate now)
  notBefore := some (newNumericDate now)
  expiresAt := some (newNumericDate exp)
  id := jti
  principalType := p.type
  principalSubject := p.subject
  tokenType := tt

/-! ## Section 2: The library -/

/-- A `kid` header: missing, not a string, or a string. -/
inductive Kid where
  | missing
  | other
  | text (kid : String)
  deriving DecidableEq

/-- A raw token, decoded and not yet verified. -/
structure Token where
  alg : String
  kid : Kid
  claims : Claims
  /-- The bytes that the signature covers. -/
  signingString : Bytes
  signature : Bytes

inductive VerifyError where
  | invalidSignature
  | tokenExpired
  | tokenMalformed
  | unknownKey
  | wrongAudience
  | wrongTokenType
  | keyExpired
  /-- An error of the revocation checker, passed on as it is. -/
  | revocation (cause : String)
  deriving DecidableEq

/-- What `errors.Is` finds in an error of the parser. -/
structure ParseError where
  tokenExpired : Bool
  signatureInvalid : Bool
  tokenMalformed : Bool
  /-- The error of the key function, if that is what failed. -/
  keyFunc : Option VerifyError

/-- The functions of `golang-jwt` that the code calls.  The parser returns the
    claims and the token's `Valid` field. -/
structure Library where
  signingString : String → Claims → Bytes
  signedString : String → Claims → Bytes → Except String Bytes
  decode : Bytes → Option Token
  parseWithClaims : List String → Int → (Token → Except VerifyError Bytes) → Bytes →
    Except ParseError (Claims × Bool)

/-- The `exp` claim, which is optional, at a time. -/
def Claims.expired (c : Claims) (now : Int) : Bool :=
  match c.expiresAt with
  | none => false
  | some exp => !(now < exp.time)

/-- The `nbf` claim, which is optional, at a time. -/
def Claims.notValidYet (c : Claims) (now : Int) : Bool :=
  match c.notBefore with
  | none => false
  | some nbf => now < nbf.time

def Claims.InDate (c : Claims) (now : Int) : Prop :=
  c.expired now = false ∧ c.notValidYet now = false

/-- What the code relies on. -/
structure Library.Lawful (lib : Library) (ed : SignatureScheme) : Prop where
  /-- Signing succeeds and decodes to what was signed. -/
  signedString : ∀ kid claims sk, ∃ raw, lib.signedString kid claims sk = .ok raw
    ∧ lib.decode raw = some ⟨"EdDSA", .text kid, claims, lib.signingString kid claims,
        ed.sign sk (lib.signingString kid claims)⟩
  /-- The parser accepts what decodes, has a listed method and a key, verifies
      under that key and is in date; it returns the decoded claims. -/
  parseWithClaims : ∀ methods now keyFunc raw claims valid,
    lib.parseWithClaims methods now keyFunc raw = .ok (claims, valid) ↔
      valid = true ∧ ∃ tok pub, lib.decode raw = some tok ∧ tok.alg ∈ methods
        ∧ keyFunc tok = .ok pub ∧ ed.verify pub tok.signingString tok.signature = true
        ∧ tok.claims.InDate now ∧ claims = tok.claims

/-! ## Section 3: The issuer -/

structure TokenPair where
  accessToken : Bytes
  refreshToken : Bytes
  accessJTI : String
  refreshJTI : String
  accessExp : Int
  refreshExp : Int
  signingKeyID : String

inductive IssueError where
  | principalNotFound
  | principalInactive
  | authority (e : PkiError)
  | signAccessToken (cause : String)
  | signRefreshToken (cause : String)

structure Issuer where
  accessTTL : Int
  refreshTTL : Int

def signClaims (lib : Library) (claims : Claims) (kp : KeyPair) : Except String Bytes :=
  lib.signedString kp.id claims kp.privateKey

/-- `Issue`; the two JTIs are fresh UUIDs, and a nil principal is `none`. -/
def Issuer.issue (lib : Library) (i : Issuer) (env : Env) (accessJTI refreshJTI : String)
    (p : Option Principal) : Except IssueError TokenPair :=
  match p with
  | none => .error .principalNotFound
  | some p =>
    if !p.isActive then .error .principalInactive
    else
      match activeKey env purposeJWTSigning with
      | .error e => .error (.authority e)
      | .ok signingKey =>
        let now := env.now
        let accessExp := now + i.accessTTL
        let refreshExp := now + i.refreshTTL
        match signClaims lib (buildClaims p accessJTI now accessExp audienceAccess typeAccess)
            signingKey with
        | .error e => .error (.signAccessToken e)
        | .ok access =>
          match signClaims lib
              (buildClaims p refreshJTI now refreshExp audienceRefresh typeRefresh)
              signingKey with
          | .error e => .error (.signRefreshToken e)
          | .ok refresh =>
            .ok
              { accessToken := access, refreshToken := refresh, accessJTI := accessJTI,
                refreshJTI := refreshJTI, accessExp := accessExp, refreshExp := refreshExp,
                signingKeyID := signingKey.id }

/-! ## Section 4: The verifier -/

/-- `IsRevoked`; a nil checker is `none`. -/
abbrev RevocationChecker : Type := Option (String → Except String Bool)

/-- The function that `Verify` passes to the parser. -/
def keyFunc (store : KeyStore) (now : Int) (token : Token) : Except VerifyError Bytes :=
  if token.alg ≠ "EdDSA" then .error .invalidSignature
  else
    match token.kid with
    | .missing => .error .unknownKey
    | .other => .error .unknownKey
    | .text kid =>
      if kid = "" then .error .unknownKey
      else
        match getKey store kid with
        | .error _ => .error .unknownKey
        -- the key's purpose is not looked at
        | .ok kp => if !kp.isVerifyable now then .error .keyExpired else .ok kp.publicKey

def assertAudience (claims : Claims) (tt : TokenType) : Except VerifyError Unit :=
  if tt.text = "" then .ok ()
  else
    let want := if tt = typeRefresh then audienceRefresh else audienceAccess
    if want ∈ claims.audience then .ok () else .error .wrongAudience

/-- The `switch` over the parser's error. -/
def parseFailure (e : ParseError) : VerifyError :=
  if e.tokenExpired then .tokenExpired
  else if e.signatureInvalid then .invalidSignature
  else if e.tokenMalformed then .tokenMalformed
  else
    match e.keyFunc with
    | some .unknownKey => .unknownKey
    | some .keyExpired => .keyExpired
    | some .invalidSignature => .invalidSignature
    | _ => .tokenMalformed

def checkRevocation (revocations : RevocationChecker) (claims : Claims) :
    Except VerifyError Claims :=
  match revocations with
  | none => .ok claims
  | some isRevoked =>
    match isRevoked claims.id with
    | .error e => .error (.revocation e)
    | .ok revoked => if revoked then .error .invalidSignature else .ok claims

/-- `Verify` at one reading of the clock. -/
def verify (lib : Library) (revocations : RevocationChecker) (store : KeyStore) (now : Int)
    (raw : Bytes) (expectedType : TokenType) : Except VerifyError Claims :=
  match lib.parseWithClaims ["EdDSA"] now (keyFunc store now) raw with
  | .error e => .error (parseFailure e)
  | .ok (claims, valid) =>
    if !valid then .error .invalidSignature
    -- an empty expected type accepts any
    else if expectedType.text ≠ "" ∧ claims.tokenType ≠ expectedType then
      .error .wrongTokenType
    else
      match assertAudience claims expectedType with
      | .error e => .error e
      | .ok _ => checkRevocation revocations claims

/-! ## Section 5: Exactly what the verifier accepts -/

/-- The checker lets a JTI pass. -/
def NotRevoked (revocations : RevocationChecker) (jti : String) : Prop :=
  ∀ isRevoked, revocations = some isRevoked → isRevoked jti = .ok false

/-- Type and audience are those of the expected type. -/
def OfType (claims : Claims) (tt : TokenType) : Prop :=
  (tt.text ≠ "" → claims.tokenType = tt) ∧ assertAudience claims tt = .ok ()

theorem keyFunc_ok {store : KeyStore} {now : Int} {tok : Token} {pub : Bytes} :
    keyFunc store now tok = .ok pub ↔ tok.alg = "EdDSA" ∧ ∃ kid kp, tok.kid = .text kid
      ∧ kid ≠ "" ∧ store[kid]? = some kp ∧ kp.isVerifyable now = true ∧ pub = kp.publicKey := by
  unfold keyFunc getKey KeyStore.get
  by_cases halg : tok.alg = "EdDSA"
  · cases hkid : tok.kid with
    | missing => simp [halg]
    | other => simp [halg]
    | text kid =>
      by_cases hempty : kid = ""
      · simp [halg, hempty]
      · cases hget : store[kid]? with
        | none => simp [halg, hempty, hget]
        | some kp =>
          cases hver : kp.isVerifyable now with
          | false => simp [halg, hempty, hget, hver]
          | true =>
            simp only [halg, hempty, hget, hver]
            simp [hget, hver, hempty, eq_comm (a := pub)]
  · simp [halg]

theorem checkRevocation_ok {revocations : RevocationChecker} {claims claims' : Claims} :
    checkRevocation revocations claims = .ok claims'
      ↔ NotRevoked revocations claims.id ∧ claims' = claims := by
  unfold checkRevocation NotRevoked
  cases revocations with
  | none => simp [eq_comm]
  | some isRevoked =>
    cases hrev : isRevoked claims.id with
    | error e => simp [hrev]
    | ok revoked => cases revoked <;> simp [hrev, eq_comm]

/-- **Acceptance**: the conditions under which `Verify` returns claims. -/
theorem verify_ok_iff {lib : Library} {ed : SignatureScheme} (hlib : lib.Lawful ed)
    {revocations : RevocationChecker} {store : KeyStore} {now : Int} {raw : Bytes}
    {tt : TokenType} {claims : Claims} :
    verify lib revocations store now raw tt = .ok claims ↔
      ∃ tok kid kp, lib.decode raw = some tok ∧ tok.alg = "EdDSA" ∧ tok.kid = .text kid
        ∧ kid ≠ "" ∧ store[kid]? = some kp ∧ kp.isVerifyable now = true
        ∧ ed.verify kp.publicKey tok.signingString tok.signature = true
        ∧ tok.claims.InDate now ∧ claims = tok.claims
        ∧ OfType claims tt ∧ NotRevoked revocations claims.id := by
  have hparse := hlib.parseWithClaims ["EdDSA"] now (keyFunc store now) raw
  unfold verify
  constructor
  · intro hok
    split at hok
    · contradiction
    · rename_i claims' valid hparsed
      -- the parser's law gives the token, the key function's the key
      obtain ⟨rfl, tok, pub, hdec, _, hkey, hsig, hdate, rfl⟩ := (hparse claims' valid).mp hparsed
      obtain ⟨halg, kid, kp, hkid, hne, hget, hver, rfl⟩ := keyFunc_ok.mp hkey
      simp only [Bool.not_true, Bool.false_eq_true, if_false] at hok
      split at hok
      · contradiction
      · rename_i htype
        split at hok
        · contradiction
        · rename_i haud
          obtain ⟨hrev, rfl⟩ := checkRevocation_ok.mp hok
          refine ⟨tok, kid, kp, hdec, halg, hkid, hne, hget, hver, hsig, hdate, rfl, ⟨?_, haud⟩, hrev⟩
          intro hnonempty
          by_contra hother
          exact htype ⟨hnonempty, hother⟩
  · rintro ⟨tok, kid, kp, hdec, halg, hkid, hne, hget, hver, hsig, hdate, rfl, htype, hrev⟩
    have hkey : keyFunc store now tok = .ok kp.publicKey :=
      keyFunc_ok.mpr ⟨halg, kid, kp, hkid, hne, hget, hver, rfl⟩
    rw [(hparse tok.claims true).mpr
      ⟨rfl, tok, kp.publicKey, hdec, by simp [halg], hkey, hsig, hdate, rfl⟩]
    have hnot : ¬ (tt.text ≠ "" ∧ tok.claims.tokenType ≠ tt) := by
      intro ⟨hnonempty, hother⟩
      exact hother (htype.1 hnonempty)
    simp only [Bool.not_true, Bool.false_eq_true, if_false, if_neg hnot, htype.2]
    exact checkRevocation_ok.mpr ⟨hrev, rfl⟩

end Owasaka.Jwt
