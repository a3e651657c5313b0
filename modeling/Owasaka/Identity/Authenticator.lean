import Owasaka.Foundation.Hex
import Owasaka.Identity.Principal

/-! # Authentication (`identity/authenticator.go` and the credentials)

    `Authenticate` resolves one credential from the first of a list of factors,
    verifies every factor against it and applies a policy by the type of the
    principal that the credential is bound to.

    For a human the policy counts factors where it should look at their kind: two
    factors of any kind but `password` pass, also the same API key presented
    twice.  For an agent it looks at nothing.  The main result says for which
    contents of the stores the documented policy holds all the same.

    Comparing bcrypt hashes, validating TOTP codes and normalizing fingerprints
    are parameters. -/

namespace Owasaka.Identity

/-! ## Section 1: Credentials -/

/-- `CredentialKind` is a Go string; these are its constants, and any other text. -/
inductive CredentialKind where
  | password
  | webAuthn
  | apiKey
  | mtls
  | oidc
  | other (text : String)
  deriving DecidableEq

structure AuthFactor where
  kind : CredentialKind
  subject : String
  proof : Bytes
  extra : AnyMap

/-- The errors of the package, with the text that a wrapped one adds. -/
inductive IdentityError where
  | principalNotFound
  | principalInactive
  | credentialNotFound
  | credentialInvalid
  | insufficientFactor (detail : String)
  | unsupportedFactor (detail : String)
  /-- An error of another store, passed on as it is. -/
  | store (cause : String)
  deriving DecidableEq

/-- The `Credential` interface. -/
structure Credential where
  kind : CredentialKind
  principalID : String
  subject : String
  verify : AuthFactor → Except IdentityError Unit

/-- The checks that the credentials rest on. -/
structure Checks where
  /-- `bcrypt.CompareHashAndPassword` of a hash and a proof. -/
  bcrypt : Bytes → Bytes → Bool
  /-- `totp.Validate` of a code and a secret. -/
  totp : String → String → Bool
  normalizeFingerprint : String → String

/-- A `PasswordTOTPCredential`. -/
def passwordTOTPCredential (checks : Checks) (principalID subject : String) (passwordHash : Bytes)
    (totpSecret : String) : Credential where
  kind := .password
  principalID := principalID
  subject := subject
  verify := fun factor =>
    if factor.kind ≠ .password then .error (.unsupportedFactor "")
    else if !checks.bcrypt passwordHash factor.proof then .error .credentialInvalid
    else
      let code := match factor.extra["totp"]? with
        | some (.str code) => code
        | _ => ""
      if code = "" then .error (.insufficientFactor "")
      else if !checks.totp code totpSecret then .error .credentialInvalid
      else .ok ()

/-- An `APIKeyCredential`. -/
def apiKeyCredential (checks : Checks) (principalID keyID : String) (hash : Bytes) :
    Credential where
  kind := .apiKey
  principalID := principalID
  subject := keyID
  verify := fun factor =>
    if factor.kind ≠ .apiKey then .error (.unsupportedFactor "")
    else if !checks.bcrypt hash factor.proof then .error .credentialInvalid
    else .ok ()

/-- An `MTLSCredential`, indexed by its fingerprint. -/
def mtlsCredential (checks : Checks) (principalID fingerprint : String) : Credential where
  kind := .mtls
  principalID := principalID
  subject := fingerprint
  verify := fun factor =>
    if factor.kind ≠ .mtls then .error (.unsupportedFactor "")
    else
      let presented := checks.normalizeFingerprint factor.subject
      if presented = "" ∨ presented ≠ fingerprint then .error .credentialInvalid else .ok ()

/-! ## Section 2: The stores -/

/-- `MemoryPrincipalStore` by ID. -/
structure PrincipalStore where
  byID : String → Option Principal
  id_eq : ∀ id p, byID id = some p → p.id = id

/-- `MemoryCredentialStore` by kind and subject. -/
structure CredentialStore where
  credentials : CredentialKind → String → Option Credential
  indexed : ∀ kind subject cred, credentials kind subject = some cred →
    cred.kind = kind ∧ cred.subject = subject

namespace PrincipalStore

def empty : PrincipalStore := ⟨fun _ => none, by simp⟩

def get (s : PrincipalStore) (id : String) : Except IdentityError Principal :=
  match s.byID id with
  | none => .error .principalNotFound
  | some p => .ok p

/-- The principal under its ID. -/
def write (s : PrincipalStore) (p : Principal) : PrincipalStore where
  byID := fun id => if id = p.id then some p else s.byID id
  id_eq := by
    intro id q hget
    split at hget
    · rename_i heq
      cases hget
      exact heq.symm
    · exact s.id_eq id q hget

/-- `Save`, which refuses an empty ID. -/
def save (s : PrincipalStore) (p : Principal) : Except IdentityError PrincipalStore :=
  if p.id = "" then .error .principalNotFound else .ok (s.write p)

/-- `UpdateStatus` changes the stored principal through its pointer. -/
def updateStatus (s : PrincipalStore) (id : String) (status : PrincipalStatus) :
    Except IdentityError PrincipalStore :=
  match s.byID id with
  | none => .error .principalNotFound
  | some p => .ok (s.write { p with status := status })

end PrincipalStore

namespace CredentialStore

def empty : CredentialStore := ⟨fun _ _ => none, by simp⟩

def findBySubject (s : CredentialStore) (kind : CredentialKind) (subject : String) :
    Except IdentityError Credential :=
  match s.credentials kind subject with
  | none => .error .credentialNotFound
  | some c => .ok c

def save (s : CredentialStore) (c : Credential) : CredentialStore where
  credentials := fun kind subject =>
    if kind = c.kind ∧ subject = c.subject then some c else s.credentials kind subject
  indexed := by
    intro kind subject cred hget
    split at hget
    · rename_i heq
      cases hget
      exact ⟨heq.1.symm, heq.2.symm⟩
    · exact s.indexed kind subject cred hget

end CredentialStore

/-! ## Section 3: `Authenticate` -/

/-- The loop over the factors. -/
def verifyFactors (cred : Credential) : List AuthFactor → Except IdentityError Unit
  | [] => .ok ()
  | f :: factors =>
    match cred.verify f with
    | .error e => .error e
    | .ok _ => verifyFactors cred factors

/-- A character as `%q` writes it.  One outside ASCII is taken to be printable. -/
def quotedChar (c : Char) : String :=
  match c.toNat with
  | 7 => "\\a"
  | 8 => "\\b"
  | 9 => "\\t"
  | 10 => "\\n"
  | 11 => "\\v"
  | 12 => "\\f"
  | 13 => "\\r"
  | 34 => "\\\""
  | 92 => "\\\\"
  | n => if n < 32 ∨ n = 127 then "\\x" ++ Hex.encodeToString [UInt8.ofNat n] else c.toString

/-- The text as `%q` writes it. -/
def quoted (text : String) : String := "\"" ++ String.join (text.toList.map quotedChar) ++ "\""

/-- The policy by the type of the principal: the kind of the first factor and the
    number of factors. -/
def factorPolicy (p : Principal) (kind : CredentialKind) (count : Nat) :
    Except IdentityError Principal :=
  match p.type with
  | .human =>
    if kind = .password then
      if count ≠ 1 then
        .error (.insufficientFactor "password+TOTP expects single combined factor")
      else .ok p
    -- the kind of the factors is not looked at again
    else if count < 2 then .error (.insufficientFactor "human requires password+TOTP or WebAuthn")
    else .ok p
  | .service => if kind ≠ .mtls then .error (.unsupportedFactor "service requires mTLS") else .ok p
  | .agent => .ok p
  | .other text => .error (.unsupportedFactor ("unknown principal type " ++ quoted text))

/-- `Authenticate`.  The faults are errors of the stores, if they fail. -/
def authenticate (principals : PrincipalStore) (creds : CredentialStore)
    (findFault getFault : Option String) (factors : List AuthFactor) :
    Except IdentityError Principal :=
  match factors with
  | [] => .error (.insufficientFactor "")
  | first :: rest =>
    match findFault with
    | some e => .error (.store e)
    | none =>
      match creds.findBySubject first.kind first.subject with
      -- an unknown subject is not told apart from a wrong proof
      | .error _ => .error .credentialInvalid
      | .ok cred =>
        match verifyFactors cred (first :: rest) with
        | .error e => .error e
        | .ok _ =>
          match getFault with
          | some e => .error (.store e)
          | none =>
            match principals.get cred.principalID with
            | .error e => .error e
            | .ok p =>
              if !p.isActive then .error .principalInactive
              else factorPolicy p first.kind (rest.length + 1)

/-! ## Section 4: The documented policy -/

/-- The kinds of credential that the documentation allows for a type. -/
def MeetsPolicy (type : PrincipalType) (kind : CredentialKind) : Prop :=
  match type with
  | .human => kind = .password ∨ kind = .webAuthn
  | .agent => kind = .apiKey ∨ kind = .mtls
  | .service => kind = .mtls
  | .other _ => False

/-- What an authentication should rest on: an active principal and one credential
    bound to it, of a kind allowed for its type, that every factor passed. -/
def Supported (creds : CredentialStore) (factors : List AuthFactor) (p : Principal) : Prop :=
  p.isActive = true ∧ ∃ first rest cred, factors = first :: rest
    ∧ creds.credentials first.kind first.subject = some cred ∧ cred.principalID = p.id
    ∧ (∀ f ∈ factors, cred.verify f = .ok ()) ∧ MeetsPolicy p.type cred.kind

/-- Whatever the factors, who is authenticated is supported. -/
def PolicyHolds (principals : PrincipalStore) (creds : CredentialStore) : Prop :=
  ∀ findFault getFault factors p,
    authenticate principals creds findFault getFault factors = .ok p → Supported creds factors p

/-- Credentials that some factor passes are bound to active humans only if they
    are of kind password or WebAuthn, to active agents only if API key or mTLS. -/
def BoundByType (principals : PrincipalStore) (creds : CredentialStore) : Prop :=
  ∀ f cred p, creds.credentials f.kind f.subject = some cred → cred.verify f = .ok () →
    principals.byID cred.principalID = some p → p.isActive = true →
    p.type = .human ∨ p.type = .agent → MeetsPolicy p.type cred.kind

theorem verifyFactors_ok {cred : Credential} {factors : List AuthFactor} :
    verifyFactors cred factors = .ok () ↔ ∀ f ∈ factors, cred.verify f = .ok () := by
  induction factors with
  | nil => simp [verifyFactors]
  | cons f factors ih =>
    unfold verifyFactors
    rw [List.forall_mem_cons, ← ih]
    cases hverify : cred.verify f <;> simp

theorem factorPolicy_ok {p p' : Principal} {kind : CredentialKind} {count : Nat}
    (hok : factorPolicy p kind count = .ok p') :
    p' = p ∧ (p.type = .human ∨ p.type = .agent ∨ p.type = .service ∧ kind = .mtls) := by
  unfold factorPolicy at hok
  cases htype : p.type with
  | human =>
    simp only [htype] at hok
    refine ⟨?_, Or.inl rfl⟩
    split at hok
    · split at hok
      · contradiction
      · exact (Except.ok.inj hok).symm
    · split at hok
      · contradiction
      · exact (Except.ok.inj hok).symm
  | service =>
    simp only [htype] at hok
    split at hok
    · contradiction
    · rename_i hkind
      exact ⟨(Except.ok.inj hok).symm, Or.inr (Or.inr ⟨rfl, Decidable.not_not.mp hkind⟩)⟩
  | agent =>
    simp only [htype] at hok
    exact ⟨(Except.ok.inj hok).symm, Or.inr (Or.inl rfl)⟩
  | other text =>
    simp only [htype] at hok
    contradiction

/-- **Inversion** of `Authenticate`. -/
theorem authenticate_ok {principals : PrincipalStore} {creds : CredentialStore}
    {findFault getFault : Option String} {factors : List AuthFactor} {p : Principal}
    (hok : authenticate principals creds findFault getFault factors = .ok p) :
    ∃ first rest cred, factors = first :: rest
      ∧ creds.credentials first.kind first.subject = some cred
      ∧ (∀ f ∈ factors, cred.verify f = .ok ()) ∧ principals.byID cred.principalID = some p
      ∧ p.isActive = true ∧ factorPolicy p first.kind factors.length = .ok p := by
  -- a check that fails ends the call, which leaves the way through all of them
  unfold authenticate at hok
  cases factors with
  | nil => contradiction
  | cons first rest =>
    simp only [CredentialStore.findBySubject, PrincipalStore.get] at hok
    cases findFault with
    | some e => contradiction
    | none =>
      cases hcred : creds.credentials first.kind first.subject with
      | none => simp [hcred] at hok
      | some cred =>
        cases hverify : verifyFactors cred (first :: rest) with
        | error e => simp [hcred, hverify] at hok
        | ok _ =>
          cases getFault with
          | some e => simp [hcred, hverify] at hok
          | none =>
            cases hget : principals.byID cred.principalID with
            | none => simp [hcred, hverify, hget] at hok
            | some q =>
              cases hactive : q.isActive with
              | false => simp [hcred, hverify, hget, hactive] at hok
              | true =>
                simp only [hcred, hverify, hget, hactive, Bool.not_true, Bool.false_eq_true,
                  if_false] at hok
                obtain ⟨rfl, _⟩ := factorPolicy_ok hok
                exact ⟨first, rest, cred, rfl, hcred, verifyFactors_ok.mp hverify, hget, hactive, hok⟩

/-- A credential that a factor passes authenticates its principal with as many
    copies of the factor as the policy asks for. -/
theorem authenticate_replicate {principals : PrincipalStore} {creds : CredentialStore}
    {f : AuthFactor} {cred : Credential} {p : Principal}
    (hcred : creds.credentials f.kind f.subject = some cred) (hverify : cred.verify f = .ok ())
    (hget : principals.byID cred.principalID = some p) (hactive : p.isActive = true) (n : Nat) :
    authenticate principals creds none none (List.replicate (n + 1) f)
      = factorPolicy p f.kind (n + 1) := by
  have hall : verifyFactors cred (f :: List.replicate n f) = .ok () := by
    rw [verifyFactors_ok]
    intro f' hf'
    rw [List.mem_cons, List.mem_replicate] at hf'
    rcases hf' with rfl | ⟨_, rfl⟩ <;> exact hverify
  rw [List.replicate_succ]
  simp only [authenticate, CredentialStore.findBySubject, PrincipalStore.get, hcred, hall, hget,
    hactive, Bool.not_true, Bool.false_eq_true, if_false, List.length_replicate]

/-- A supported authentication meets the policy with the credential that its first
    factor names. -/
theorem Supported.meetsPolicy {creds : CredentialStore} {f : AuthFactor} {factors : List AuthFactor}
    {p : Principal} {cred : Credential} (hsupported : Supported creds (f :: factors) p)
    (hcred : creds.credentials f.kind f.subject = some cred) : MeetsPolicy p.type cred.kind := by
  obtain ⟨_, first, rest, cred', heq, hcred', _, _, hmeets⟩ := hsupported
  obtain ⟨rfl, _⟩ := List.cons.inj heq
  rw [hcred] at hcred'
  cases hcred'
  exact hmeets

/-- **Factor policy**: the documented policy holds of every authentication exactly
    when the stores bind the kinds of credential by type. -/
theorem policyHolds_iff (principals : PrincipalStore) (creds : CredentialStore) :
    PolicyHolds principals creds ↔ BoundByType principals creds := by
  constructor
  · intro hpolicy f cred p hcred hverify hget hactive htype
    -- one factor for an agent; for a human, twice the same one
    have hsupported : Supported creds [f] p ∨ Supported creds [f, f] p := by
      rcases htype with hhuman | hagent
      · by_cases hpassword : f.kind = .password
        · left
          apply hpolicy none none
          rw [show [f] = List.replicate (0 + 1) f from rfl,
            authenticate_replicate hcred hverify hget hactive]
          simp [factorPolicy, hhuman, hpassword]
        · right
          apply hpolicy none none
          rw [show [f, f] = List.replicate (1 + 1) f from rfl,
            authenticate_replicate hcred hverify hget hactive]
          simp [factorPolicy, hhuman, hpassword]
      · left
        apply hpolicy none none
        rw [show [f] = List.replicate (0 + 1) f from rfl,
          authenticate_replicate hcred hverify hget hactive]
        simp [factorPolicy, hagent]
    rcases hsupported with hone | htwo
    · exact hone.meetsPolicy hcred
    · exact htwo.meetsPolicy hcred
  · intro hbound findFault getFault factors p hok
    obtain ⟨first, rest, cred, rfl, hcred, hverify, hget, hactive, hpolicy⟩ := authenticate_ok hok
    have hid := principals.id_eq _ p hget
    obtain ⟨hkind, _⟩ := creds.indexed _ _ _ hcred
    refine ⟨hactive, first, rest, cred, rfl, hcred, hid.symm, hverify, ?_⟩
    -- the policy binds the kind for a service only; for the others the stores must
    obtain ⟨_, hhuman | hagent | ⟨hservice, hmtls⟩⟩ := factorPolicy_ok hpolicy
    · exact hbound first cred p hcred (hverify first List.mem_cons_self) hget hactive (Or.inl hhuman)
    · exact hbound first cred p hcred (hverify first List.mem_cons_self) hget hactive (Or.inr hagent)
    · rw [hservice, hkind, hmtls]
      rfl

/-! ## An API key presented twice -/

def apiSecret : Bytes := "AAAAAAAAAAAAAAAAAAAAAAAAAAAAAAAAAAAAAAAAAAA".toUTF8.toList

def apiHash : Bytes := "$2a$12$abcdefghijklmnopqrstuu.0fMoFQ0VXQ6t2e2gYAtYkO66sZKH72".toUTF8.toList

/-- The checks on this hash and secret. -/
def apiChecks : Checks where
  bcrypt := fun hash proof => hash = apiHash ∧ proof = apiSecret
  totp := fun _ _ => false
  normalizeFingerprint := id

def humanAdmin : Principal := ⟨"p-admin", .human, "admin", "admin", .active, ["admin"], ∅⟩

def adminStore : PrincipalStore :=
  (PrincipalStore.empty.save humanAdmin).toOption.getD PrincipalStore.empty

/-- The key that is seeded for the administrator. -/
def adminKeys : CredentialStore :=
  CredentialStore.empty.save (apiKeyCredential apiChecks "p-admin" "0123456789abcdef" apiHash)

def keyFactor : AuthFactor := ⟨.apiKey, "0123456789abcdef", apiSecret, ∅⟩

/-- One API key, presented twice, authenticates a human. -/
theorem api_key_twice_authenticates_human :
    authenticate adminStore adminKeys none none [keyFactor, keyFactor] = .ok humanAdmin
      ∧ ¬ PolicyHolds adminStore adminKeys := by
  have hcred : adminKeys.credentials keyFactor.kind keyFactor.subject
      = some (apiKeyCredential apiChecks "p-admin" "0123456789abcdef" apiHash) := rfl
  have hverify : (apiKeyCredential apiChecks "p-admin" "0123456789abcdef" apiHash).verify keyFactor
      = .ok () := by
    simp [apiKeyCredential, keyFactor, apiChecks]
  have hok : authenticate adminStore adminKeys none none (List.replicate (1 + 1) keyFactor)
      = .ok humanAdmin := by
    rw [authenticate_replicate (p := humanAdmin) hcred hverify rfl rfl]
    rfl
  refine ⟨hok, ?_⟩
  intro hpolicy
  obtain ⟨_, first, rest, cred, heq, hcred', _, _, hmeets⟩ := hpolicy none none _ _ hok
  obtain ⟨rfl, _⟩ := List.cons.inj heq
  rw [hcred] at hcred'
  cases hcred'
  rcases hmeets with hkind | hkind <;> contradiction

end Owasaka.Identity
