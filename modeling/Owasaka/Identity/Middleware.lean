import Owasaka.Foundation.Ascii
import Owasaka.Foundation.Hex
import Owasaka.Foundation.SplitN
import Owasaka.Identity.Authenticator
import Owasaka.Jwt.Token

/-! # The authentication middleware (`identity/middleware/middleware.go`)

    `Authenticate` takes the token from a request, verifies it as an access token
    and resolves its subject in the principal store.  A configured development token
    stands for a fixed principal and is not verified.

    The main result: which principal a request authenticates as, read off the
    request, the verifier and the store. -/

namespace Owasaka.AuthMiddleware

open Identity
open Jwt (Library RevocationChecker VerifyError verify typeAccess)

/-! ## Section 1: Requests -/

/-- What the two middlewares read of an `http.Request`; a missing header is empty. -/
structure Request where
  authorization : Bytes
  /-- `Sec-WebSocket-Protocol`. -/
  protocol : Bytes
  /-- The common name of the first peer certificate. -/
  commonName : Option String
  /-- The query parameter `subject`. -/
  subject : String

inductive AuthError where
  | missingAuthHeader
  | malformedAuthHeader
  | principalInactive
  /-- An error of the verifier, passed on as it is. -/
  | verify (e : VerifyError)
  /-- An error of the principal store, passed on as it is. -/
  | store (e : IdentityError)
  deriving DecidableEq

def bearerScheme : Bytes := Bytes.ascii "Bearer"
def bearerPrefix : Bytes := Bytes.ascii "bearer."

def space : UInt8 := 0x20
def comma : UInt8 := 0x2c

/-- The loop over the sub-protocols. -/
def protocolToken : List Bytes → Option Bytes
  | [] => none
  | part :: parts =>
    let p := Hex.trimSpace part
    if bearerPrefix.isPrefixOf p then some (p.drop bearerPrefix.length) else protocolToken parts

def extractBearer (req : Request) : Except AuthError Bytes :=
  if req.authorization = [] then
    if req.protocol ≠ [] then
      match protocolToken (req.protocol.splitOn comma) with
      | some token => .ok token
      | none => .error .missingAuthHeader
    else .error .missingAuthHeader
  else
    match splitN space 2 req.authorization with
    | [scheme, token] =>
      if !Hex.equalFold scheme bearerScheme ∨ token = [] then .error .malformedAuthHeader
      else .ok token
    | _ => .error .malformedAuthHeader

/-! ## Section 2: `Authenticate` -/

/-- The configuration of a `Middleware`, less its verifier and store. -/
structure Middleware where
  devToken : Bytes
  devPrincipal : Option Principal

/-- What a request reads when it is served. -/
structure World where
  lib : Library
  revocations : RevocationChecker
  keys : Pki.KeyStore
  principals : PrincipalStore
  now : Int

def authenticate (m : Middleware) (w : World) (req : Request) : Except AuthError Principal :=
  match extractBearer req with
  | .error e => .error e
  | .ok raw =>
    if m.devToken ≠ [] ∧ raw = m.devToken then
      match m.devPrincipal with
      | none => .error .principalInactive
      | some p => if !p.isActive then .error .principalInactive else .ok p
    else
      match verify w.lib w.revocations w.keys w.now raw typeAccess with
      | .error e => .error (.verify e)
      | .ok claims =>
        match w.principals.get claims.subject with
        | .error e => .error (.store e)
        | .ok p => if !p.isActive then .error .principalInactive else .ok p

/-- What `errors.Is` finds of `ErrPrincipalInactive`. -/
def AuthError.inactive : AuthError → Bool
  | .principalInactive => true
  | .store .principalInactive => true
  | _ => false

/-- The status and the text of `writeAuthError`. -/
def writeAuthError (e : AuthError) : Nat × String :=
  if e.inactive then (403, "principal inactive") else (401, "authentication required")

/-- `RequireAuth`: the principal that the next handler finds in its context, or what
    was written in its place. -/
def requireAuth (m : Middleware) (w : World) (req : Request) : Except (Nat × String) Principal :=
  match authenticate m w req with
  | .error e => .error (writeAuthError e)
  | .ok p => .ok p

/-! ## Section 3: Who a request authenticates as -/

/-- The request carries the token: in the header `Authorization` under the scheme
    `Bearer`, or, without that header, in the first sub-protocol with the prefix. -/
def Carries (req : Request) (token : Bytes) : Prop :=
  (∃ scheme, req.authorization = scheme ++ space :: token ∧ space ∉ scheme
      ∧ Hex.equalFold scheme bearerScheme = true ∧ token ≠ [])
  ∨ (req.authorization = [] ∧ ∃ before part after, req.protocol.splitOn comma = before ++ part :: after
      ∧ Hex.trimSpace part = bearerPrefix ++ token
      ∧ ∀ q ∈ before, ¬ bearerPrefix <+: Hex.trimSpace q)

/-- The token stands for the principal. -/
def StandsFor (m : Middleware) (w : World) (token : Bytes) (p : Principal) : Prop :=
  if m.devToken ≠ [] ∧ token = m.devToken then m.devPrincipal = some p
  else ∃ claims, verify w.lib w.revocations w.keys w.now token typeAccess = .ok claims
    ∧ w.principals.get claims.subject = .ok p

theorem protocolToken_eq_some_iff {parts : List Bytes} {token : Bytes} :
    protocolToken parts = some token ↔
      ∃ before part after, parts = before ++ part :: after
        ∧ Hex.trimSpace part = bearerPrefix ++ token
        ∧ ∀ q ∈ before, ¬ bearerPrefix <+: Hex.trimSpace q := by
  induction parts with
  | nil => simp [protocolToken]
  | cons part parts ih =>
    unfold protocolToken
    by_cases hprefix : bearerPrefix <+: Hex.trimSpace part
    · rw [if_pos (List.isPrefixOf_iff_prefix.mpr hprefix), Option.some.injEq]
      obtain ⟨tail, htail⟩ := hprefix
      rw [← htail, List.drop_left]
      constructor
      · intro heq
        subst heq
        exact ⟨[], part, parts, rfl, htail.symm, by simp⟩
      · intro ⟨before, part', after, hparts, hpart', hbefore⟩
        cases before with
        | nil =>
          -- the first sub-protocol is the one
          rw [List.nil_append, List.cons.injEq] at hparts
          rw [hparts.1, hpart'] at htail
          exact List.append_cancel_left htail
        | cons q before =>
          rw [List.cons_append, List.cons.injEq] at hparts
          exact absurd ⟨tail, htail⟩ (hparts.1 ▸ hbefore q List.mem_cons_self)
    · rw [if_neg fun htrue => hprefix (List.isPrefixOf_iff_prefix.mp htrue), ih]
      constructor
      · intro ⟨before, part', after, hparts, hpart', hbefore⟩
        refine ⟨part :: before, part', after, by rw [hparts]; rfl, hpart', ?_⟩
        intro q hq
        rcases List.mem_cons.mp hq with rfl | hmem
        · exact hprefix
        · exact hbefore q hmem
      · intro ⟨before, part', after, hparts, hpart', hbefore⟩
        cases before with
        | nil =>
          rw [List.nil_append, List.cons.injEq] at hparts
          exact absurd ⟨token, by rw [hparts.1, hpart']⟩ hprefix
        | cons q before =>
          rw [List.cons_append, List.cons.injEq] at hparts
          exact ⟨before, part', after, hparts.2, hpart', fun q hq =>
            hbefore q (List.mem_cons_of_mem _ hq)⟩

/-- No sub-protocol of an empty header carries a token. -/
theorem not_prefix_trimSpace_nil : ¬ bearerPrefix <+: Hex.trimSpace [] := by
  intro hprefix
  have hlen := hprefix.length_le
  simp [Hex.trimSpace, Hex.trimStart, bearerPrefix, Bytes.ascii] at hlen

theorem extractBearer_ok_iff {req : Request} {token : Bytes} :
    extractBearer req = .ok token ↔ Carries req token := by
  unfold extractBearer Carries
  by_cases hauth : req.authorization = []
  · rw [if_pos hauth]
    have hno : ¬ ∃ scheme, req.authorization = scheme ++ space :: token ∧ space ∉ scheme
        ∧ Hex.equalFold scheme bearerScheme = true ∧ token ≠ [] := by
      intro ⟨scheme, heq, _⟩
      rw [hauth] at heq
      simp at heq
    rw [or_iff_right hno, and_iff_right hauth, ← protocolToken_eq_some_iff]
    by_cases hproto : req.protocol = []
    · rw [if_neg (by simpa using hproto), hproto]
      have hnone : protocolToken (([] : Bytes).splitOn comma) = none := by
        rw [List.splitOn_nil, protocolToken,
          if_neg fun htrue => not_prefix_trimSpace_nil (List.isPrefixOf_iff_prefix.mp htrue)]
        rfl
      rw [hnone]
      simp only [reduceCtorEq]
    · rw [if_pos hproto]
      cases protocolToken (req.protocol.splitOn comma) <;> simp
  · rw [if_neg hauth]
    have hno : ¬ (req.authorization = [] ∧ ∃ before part after,
        req.protocol.splitOn comma = before ++ part :: after
          ∧ Hex.trimSpace part = bearerPrefix ++ token
          ∧ ∀ q ∈ before, ¬ bearerPrefix <+: Hex.trimSpace q) := fun h => hauth h.1
    rw [or_iff_left hno]
    constructor
    · intro hok
      split at hok
      · next scheme rest hsplit =>
        split at hok
        · contradiction
        · next hgood =>
          rw [not_or] at hgood
          cases hok
          obtain ⟨heq, hnot⟩ := splitN_two_iff.mp hsplit
          exact ⟨scheme, heq, hnot, by simpa using hgood.1, hgood.2⟩
      · contradiction
    · intro ⟨scheme, heq, hnot, hfold, hne⟩
      rw [splitN_two_iff.mpr ⟨heq, hnot⟩]
      simp [hfold, hne]

/-- **Authentication**: a request authenticates as the active principals that the
    token it carries stands for. -/
theorem authenticate_ok_iff {m : Middleware} {w : World} {req : Request} {p : Principal} :
    authenticate m w req = .ok p ↔
      p.isActive = true ∧ ∃ token, Carries req token ∧ StandsFor m w token p := by
  unfold authenticate
  cases hbearer : extractBearer req with
  | error e =>
    constructor
    · intro hok
      contradiction
    · intro ⟨_, token, hcarries, _⟩
      rw [extractBearer_ok_iff.mpr hcarries] at hbearer
      contradiction
  | ok raw =>
    have hunique : ∀ token, Carries req token ↔ token = raw := by
      intro token
      rw [← extractBearer_ok_iff, hbearer, Except.ok.injEq, eq_comm]
    simp only [hunique, exists_eq_left, StandsFor]
    by_cases hdev : m.devToken ≠ [] ∧ raw = m.devToken
    · rw [if_pos hdev, if_pos hdev]
      cases hprincipal : m.devPrincipal with
      | none => simp
      | some q =>
        by_cases hactive : q.isActive = true
        · simp only [hactive, Bool.not_true, Bool.false_eq_true, if_false, Except.ok.injEq,
            Option.some.injEq]
          constructor
          · intro heq
            exact ⟨heq ▸ hactive, heq⟩
          · exact fun h => h.2
        · simp only [hactive, Bool.not_false, if_true, Option.some.injEq]
          constructor
          · intro hok
            contradiction
          · intro ⟨hp, heq⟩
            exact absurd (heq ▸ hp) hactive
    · rw [if_neg hdev, if_neg hdev]
      cases hverify : verify w.lib w.revocations w.keys w.now raw typeAccess with
      | error e => simp
      | ok claims =>
        simp only [Except.ok.injEq, exists_eq_left']
        cases hget : w.principals.get claims.subject with
        | error e => simp
        | ok q =>
          by_cases hactive : q.isActive = true
          · simp only [hactive, Bool.not_true, Bool.false_eq_true, if_false, Except.ok.injEq]
            constructor
            · intro heq
              exact ⟨heq ▸ hactive, heq⟩
            · exact fun h => h.2
          · simp only [hactive, Bool.not_false, if_true, Except.ok.injEq]
            constructor
            · intro hok
              contradiction
            · intro ⟨hp, heq⟩
              exact absurd (heq ▸ hp) hactive

end Owasaka.AuthMiddleware
