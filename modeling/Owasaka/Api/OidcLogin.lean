import Owasaka.Api.Login
import Owasaka.Foundation.RequestText
import Owasaka.Identity.ClaimMapper
import Owasaka.Identity.OidcState

/-! # Logging in through OIDC (`identity/oidc/handlers.go`, `identity/oidc/client.go`)

    `Login` sends the user to the identity provider with a state token, which a cookie
    holds as well.  `Callback` takes the user back: it checks the state, has the code
    exchanged for the claims of an ID token, maps them to a principal and answers with a
    pair of tokens and a redirect.

    ## Abstract view

    A session goes back to a login.  Unless the sum in its state token is forged, the
    state is one that `Login` handed out and that is not over, and the redirect is the
    one that the login asked for.  The handlers keep nothing between the two requests, so
    a state is good for any number of callbacks within its window.

    The exchange of the code, which is that of the library, is a parameter. -/

namespace Owasaka.Api

open Identity Identity.Oidc Jwt Pki

/-! ## Section 1: The handlers -/

/-- A `Client`: its codec, its issuer and the library's `AuthCodeURL`. -/
structure OidcClient where
  codec : StateCodec
  issuerURL : String
  authCodeURL : Bytes → Bytes

/-- The call of `Encode` that a login makes. -/
def OidcClient.loginCall (c : OidcClient) (now : Int) (bytes : Bytes) (query : List (Bytes × Bytes)) :
    EncodeCall :=
  ⟨c.codec, now, Base64.encodeRawURL bytes, firstValue query (Bytes.ascii "return")⟩

/-- The state token that the call returns. -/
def stateOf (call : EncodeCall) : Bytes := call.codec.encode call.now call.nonce call.redirect

/-- `Login`: where the user is sent, and the value of the cookie.  It fails when no
    nonce can be read. -/
def OidcClient.login (c : OidcClient) (now : Int) (random : Option Bytes)
    (query : List (Bytes × Bytes)) : Option (Bytes × Bytes) :=
  match random with
  | none => none
  | some bytes =>
    let state := stateOf (c.loginCall now bytes query)
    some (c.authCodeURL state, state)

/-- A request to the callback: its query, split up, and its cookies. -/
structure CallbackRequest where
  query : List (Bytes × Bytes)
  cookies : List (Bytes × Bytes)

def CallbackRequest.code (req : CallbackRequest) : Bytes := firstValue req.query (Bytes.ascii "code")

def CallbackRequest.state (req : CallbackRequest) : Bytes := firstValue req.query (Bytes.ascii "state")

def stateCookie : Bytes := Bytes.ascii "owasaka_oidc_state"

/-- What a callback reads besides its request. -/
structure CallbackEnv where
  /-- The client's clock. -/
  now : Int
  /-- `Exchange`: the claims of the ID token for a code, once it is verified. -/
  exchange : Bytes → Option IDClaims
  mapper : DefaultMapper
  /-- The fresh UUIDs. -/
  principalID : String
  accessJTI : String
  refreshJTI : String
  lib : Library
  issuer : Issuer
  env : Env

inductive CallbackReply where
  | failed (error : Bytes) (status : Nat)
  | session (pair : TokenPair) (redirect : Bytes)

def coerceIssuer (c : OidcClient) (iss : String) : String := if iss ≠ "" then iss else c.issuerURL

/-- The claims that the mapper is given. -/
def OidcClient.claims (c : OidcClient) (idClaims : IDClaims) : IDClaims :=
  { idClaims with issuer := coerceIssuer c idClaims.issuer }

/-- What is answered where the claims are not mapped. -/
def mapFailure : MapError → CallbackReply
  | .principalUnknown => .failed (Bytes.ascii "user not provisioned") 403
  | .identity .principalInactive => .failed (Bytes.ascii "user inactive") 403
  | _ => .failed (Bytes.ascii "principal mapping failed") 500

/-- The page after the login. -/
def target (redirectURL : Bytes) : Bytes := if redirectURL = [] then Bytes.ascii "/" else redirectURL

/-- `Callback`: the reply, and the store of the principals afterwards. -/
def OidcClient.callback (c : OidcClient) (w : CallbackEnv) (req : CallbackRequest) (s : SubjectStore) :
    CallbackReply × SubjectStore :=
  let errParam := firstValue req.query (Bytes.ascii "error")
  if errParam ≠ [] then (.failed (Bytes.ascii "idp error: " ++ errParam) 400, s)
  else if req.code = [] ∨ req.state = [] then (.failed (Bytes.ascii "missing code or state") 400, s)
  else if req.cookies.lookup stateCookie ≠ some req.state then (.failed (Bytes.ascii "state mismatch") 400, s)
  else
    match c.codec.decode w.now req.state with
    | .error _ => (.failed (Bytes.ascii "invalid state") 400, s)
    | .ok info =>
      match w.exchange req.code with
      | none => (.failed (Bytes.ascii "exchange failed") 401, s)
      | some idClaims =>
        match w.mapper.map w.principalID (c.claims idClaims) s with
        | (.error e, s') => (mapFailure e, s')
        | (.ok p, s') =>
          match w.issuer.issue w.lib w.env w.accessJTI w.refreshJTI (some (tokenPrincipal p)) with
          | .error _ => (.failed (Bytes.ascii "session issuance failed") 500, s')
          | .ok pair => (.session pair (target info.redirectURL), s')

/-! ## Section 2: Who is answered with a session -/

variable {c : OidcClient} {w : CallbackEnv} {req : CallbackRequest} {s s' : SubjectStore}
  {pair : TokenPair} {redirect : Bytes}

/-- The request is bound to the browser that the state was given to. -/
def CallbackRequest.Bound (req : CallbackRequest) : Prop :=
  firstValue req.query (Bytes.ascii "error") = [] ∧ req.code ≠ [] ∧ req.state ≠ []
    ∧ req.cookies.lookup stateCookie = some req.state

/-- The claims behind the code are mapped to a principal, who is issued the pair. -/
def CallbackEnv.Answers (w : CallbackEnv) (c : OidcClient) (req : CallbackRequest) (s : SubjectStore)
    (p : Identity.Principal) (pair : TokenPair) (s' : SubjectStore) : Prop :=
  ∃ idClaims, w.exchange req.code = some idClaims
    ∧ w.mapper.map w.principalID (c.claims idClaims) s = (.ok p, s')
    ∧ w.issuer.issue w.lib w.env w.accessJTI w.refreshJTI (some (tokenPrincipal p)) = .ok pair

theorem mapFailure_ne_session (e : MapError) : mapFailure e ≠ .session pair redirect := by
  unfold mapFailure
  split
  · intro heq
    cases heq
  · intro heq
    cases heq
  · intro heq
    cases heq

/-- **Callback**: which request is answered with a session. -/
theorem callback_session_iff :
    c.callback w req s = (.session pair redirect, s') ↔
      req.Bound ∧ ∃ info, c.codec.decode w.now req.state = .ok info
        ∧ redirect = target info.redirectURL ∧ ∃ p, w.Answers c req s p pair s' := by
  unfold OidcClient.callback CallbackRequest.Bound CallbackEnv.Answers
  by_cases herror : firstValue req.query (Bytes.ascii "error") = []
  · by_cases hmissing : req.code = [] ∨ req.state = []
    · simp only [herror, hmissing, ne_eq, not_true_eq_false, if_false, if_true, Prod.mk.injEq, reduceCtorEq,
        false_and, false_iff]
      intro hgranted
      obtain ⟨⟨_, hcode, hstate, _⟩, _⟩ := hgranted
      rcases hmissing with h | h
      · exact hcode h
      · exact hstate h
    · rw [not_or] at hmissing
      by_cases hcookie : req.cookies.lookup stateCookie = some req.state
      · simp only [herror, hmissing, hcookie, ne_eq, not_true_eq_false, not_false_eq_true, or_self, if_false,
          true_and]
        cases hdecode : c.codec.decode w.now req.state with
        | error e => simp
        | ok info =>
          cases hexchange : w.exchange req.code with
          | none => simp
          | some idClaims =>
            simp only [Except.ok.injEq, Option.some.injEq, exists_eq_left']
            rcases hmap : w.mapper.map w.principalID (c.claims idClaims) s with ⟨mapped, after⟩
            cases mapped with
            | error e => simp [mapFailure_ne_session]
            | ok p =>
              simp only [Prod.mk.injEq, Except.ok.injEq]
              cases hissue : w.issuer.issue w.lib w.env w.accessJTI w.refreshJTI (some (tokenPrincipal p)) with
              | error e =>
                simp only [Prod.mk.injEq, reduceCtorEq, false_and, false_iff]
                intro hgranted
                obtain ⟨_, q, ⟨hq, _⟩, hok⟩ := hgranted
                rw [← hq, hissue] at hok
                contradiction
              | ok pair' =>
                simp only [Prod.mk.injEq, CallbackReply.session.injEq]
                constructor
                · intro hmapped
                  obtain ⟨⟨hpair, hredirect⟩, hafter⟩ := hmapped
                  exact ⟨hredirect.symm, p, ⟨rfl, hafter⟩, hpair ▸ hissue⟩
                · intro hgranted
                  obtain ⟨hredirect, q, ⟨hq, hafter⟩, hok⟩ := hgranted
                  rw [← hq, hissue] at hok
                  exact ⟨⟨Except.ok.inj hok, hredirect.symm⟩, hafter⟩
      · simp [herror, hmissing, hcookie]
  · simp [herror]

/-- A mapping leaves an active principal under its ID. -/
theorem map_stored {m : DefaultMapper} {uuid : String} {claims : IDClaims} {p : Identity.Principal}
    (hmap : m.map uuid claims s = (.ok p, s')) : p.isActive = true ∧ s'.byID p.id = some p := by
  rcases DefaultMapper.map_ok hmap with ⟨id, existing, _, _, hactive, hp, hs'⟩ | ⟨_, _, hp, hsave⟩
  -- the principal was there: the index found it
  · have hp' : p.isActive = true := by
      rw [hp]
      exact hactive
    refine ⟨hp', ?_⟩
    rw [hs']
    split
    · simp [SubjectStore.write, PrincipalStore.write]
    · next saved hsave =>
      rw [(SubjectStore.save_ok hsave).2.1, if_pos rfl]
  -- it is new
  · have hp' : p.isActive = true := by
      rw [hp]
      rfl
    refine ⟨hp', ?_⟩
    rw [(SubjectStore.save_ok hsave).2.1, if_pos rfl]

/-! ## Section 3: State tokens -/

/-- The token carries a payload with the right sum that no login has encoded. -/
def Forged (codec : StateCodec) (logins : List EncodeCall) (token : Bytes) : Prop :=
  ∃ front back payload, cutDot token = some (front, back) ∧ Base64.decodeRawURL front = some payload
    ∧ Base64.decodeRawURL back = some (Sha256.hmac codec.key payload)
    ∧ ∀ call ∈ logins, call.payload ≠ payload

theorem unmarshal_payload (call : EncodeCall) :
    unmarshalClaims call.payload = some ⟨Utf8.sanitize call.nonce, Utf8.sanitize call.redirect,
      unix call.now, unix (call.now + call.codec.ttl)⟩ :=
  unmarshalClaims_marshal (unix_bounds call.now) (unix_bounds (call.now + call.codec.ttl))

/-- What is accepted is that of a login within its window, or forged. -/
theorem decode_ok_cases {codec : StateCodec} {t : Int} {token : Bytes} {info : StateClaims}
    (hok : codec.decode t token = .ok info) (logins : List EncodeCall) :
    Forged codec logins token ∨ ∃ call ∈ logins, unix t ≤ unix (call.now + call.codec.ttl)
      ∧ info.redirectURL = Utf8.sanitize call.redirect := by
  unfold StateCodec.decode decodeWith at hok
  split at hok
  · contradiction
  · next front back hcut =>
    split at hok
    · contradiction
    · next payload hpayload =>
      split at hok
      · contradiction
      · next sig hsig =>
        split at hok
        · contradiction
        · next hcheck =>
          have hsum : Sha256.hmac codec.key payload = sig := by simpa using hcheck
          rw [← hsum] at hsig
          split at hok
          · contradiction
          · next claims hclaims =>
            split at hok
            · contradiction
            · next hwithin =>
              cases hok
              by_cases hmade : ∃ call ∈ logins, call.payload = payload
              · obtain ⟨call, hmem, rfl⟩ := hmade
                rw [unmarshal_payload] at hclaims
                cases hclaims
                exact Or.inr ⟨call, hmem, Int.not_lt.mp hwithin, rfl⟩
              · refine Or.inl ⟨front, back, payload, hcut, hpayload, hsig, ?_⟩
                intro call hmem heq
                exact hmade ⟨call, hmem, heq⟩

/-! ## Section 4: Runs -/

/-- A callback that was answered with a session, with the stores and the logins that it
    found. -/
structure Grant where
  req : CallbackRequest
  w : CallbackEnv
  logins : List EncodeCall
  store : SubjectStore
  after : SubjectStore
  pair : TokenPair
  redirect : Bytes

/-- The store, the states that were handed out, and the sessions. -/
structure OidcRun where
  store : SubjectStore
  logins : List EncodeCall
  grants : List Grant

/-- What happens in a run: requests, from anybody, and changes of the store. -/
inductive OidcAction where
  | login (now : Int) (random : Option Bytes) (query : List (Bytes × Bytes))
  | callback (w : CallbackEnv) (req : CallbackRequest)
  | change (store : SubjectStore)

def OidcRun.act (c : OidcClient) (r : OidcRun) : OidcAction → OidcRun
  | .login now random query =>
    match random with
    | none => r
    | some bytes => { r with logins := r.logins ++ [c.loginCall now bytes query] }
  | .callback w req =>
    match c.callback w req r.store with
    | (.failed _ _, after) => { r with store := after }
    | (.session pair redirect, after) =>
      { r with
        store := after
        grants := r.grants ++ [⟨req, w, r.logins, r.store, after, pair, redirect⟩] }
  | .change store => { r with store := store }

/-- A session, and what it goes back to. -/
structure Granted (c : OidcClient) (g : Grant) : Prop where
  bound : g.req.Bound
  /-- Unless the state is forged, a login asked for the redirect not too long ago. -/
  asked : Forged c.codec g.logins g.req.state ∨ ∃ call ∈ g.logins,
    unix g.w.now ≤ unix (call.now + c.codec.ttl) ∧ g.redirect = target (Utf8.sanitize call.redirect)
  /-- The pair is a session of the active principal behind the code. -/
  opened : ∃ p, g.w.Answers c g.req g.store p g.pair g.after ∧ p.isActive = true
    ∧ g.after.byID p.id = some p
    ∧ ∀ (ed : SignatureScheme) (s : AuthorityState), ed.Ideal → g.w.lib.Lawful ed →
      (authoritySystem ed).Reachable s → s.store.Order g.w.env.order →
        ∃ key, activeKey g.w.env purposeJWTSigning = .ok key
          ∧ SessionOf g.w.lib ed ⟨s.store, g.w.env.now⟩ key g.pair p.id

/-- A login, and what it is good for: whoever comes back with its state within the
    window is answered with a session, any number of times. -/
def Opens (c : OidcClient) (call : EncodeCall) : Prop :=
  ∀ w req s p pair s', req.Bound → req.state = stateOf call →
    unix w.now ≤ unix (call.now + c.codec.ttl) → w.Answers c req s p pair s' →
      c.callback w req s = (.session pair (target (Utf8.sanitize call.redirect)), s')

/-- What a run has given. -/
structure Flow (c : OidcClient) (r : OidcRun) : Prop where
  opens : ∀ call ∈ r.logins, call.codec = c.codec ∧ Opens c call
  granted : ∀ g ∈ r.grants, Granted c g ∧ g.logins <+: r.logins

theorem opens_of_login {call : EncodeCall} (hown : call.codec = c.codec) : Opens c call := by
  intro w req s p pair s' hbound hstate hwithin hanswers
  have hdecode : c.codec.decode w.now req.state = .ok ⟨Utf8.sanitize call.nonce,
      Utf8.sanitize call.redirect, unix call.now, unix (call.now + c.codec.ttl)⟩ := by
    rw [hstate, stateOf, hown, decode_encode, if_neg (Int.not_lt.mpr hwithin)]
  exact callback_session_iff.mpr ⟨hbound, _, hdecode, rfl, p, hanswers⟩

theorem granted_of_callback {logins : List EncodeCall} (hown : ∀ call ∈ logins, call.codec = c.codec)
    (hsession : c.callback w req s = (.session pair redirect, s')) :
    Granted c ⟨req, w, logins, s, s', pair, redirect⟩ := by
  obtain ⟨hbound, info, hdecode, hredirect, p, hanswers⟩ := callback_session_iff.mp hsession
  have hasked : Forged c.codec logins req.state ∨ ∃ call ∈ logins,
      unix w.now ≤ unix (call.now + c.codec.ttl) ∧ redirect = target (Utf8.sanitize call.redirect) := by
    rcases decode_ok_cases hdecode logins with hforged | ⟨call, hmem, hwithin, hurl⟩
    · exact Or.inl hforged
    · rw [hown call hmem] at hwithin
      rw [hurl] at hredirect
      exact Or.inr ⟨call, hmem, hwithin, hredirect⟩
  obtain ⟨_, _, hmap, hissue⟩ := id hanswers
  obtain ⟨hactive, hstored⟩ := map_stored hmap
  refine ⟨hbound, hasked, p, hanswers, hactive, hstored, ?_⟩
  intro ed st hed hlib hreach horder
  exact issue_session hed hlib hreach horder hissue

/-- **Step lemma**. -/
theorem Flow.act {r : OidcRun} (hflow : Flow c r) (action : OidcAction) : Flow c (r.act c action) := by
  cases action with
  | login now random query =>
    cases random with
    | none => exact hflow
    | some bytes =>
      constructor
      case opens =>
        intro call hcall
        rcases List.mem_append.mp hcall with hold | hnew
        · exact hflow.opens call hold
        · rw [List.mem_singleton.mp hnew]
          exact ⟨rfl, opens_of_login rfl⟩
      case granted =>
        intro g hg
        obtain ⟨hgranted, hpre⟩ := hflow.granted g hg
        exact ⟨hgranted, hpre.trans (List.prefix_append _ _)⟩
  | callback w req =>
    rcases hreply : c.callback w req r.store with ⟨reply, after⟩
    cases reply with
    | failed error status =>
      simp only [OidcRun.act, hreply]
      exact ⟨hflow.opens, hflow.granted⟩
    | session pair redirect =>
      simp only [OidcRun.act, hreply]
      constructor
      case opens => exact hflow.opens
      case granted =>
        intro g hg
        rcases List.mem_append.mp hg with hold | hnew
        · exact hflow.granted g hold
        · rw [List.mem_singleton.mp hnew]
          have hown : ∀ call ∈ r.logins, call.codec = c.codec := fun call hmem => (hflow.opens call hmem).1
          exact ⟨granted_of_callback hown hreply, List.prefix_refl _⟩
  | change store => exact ⟨hflow.opens, hflow.granted⟩

/-- **The OIDC flow**, over every run of logins, callbacks and changes of the store. -/
theorem oidc_flow (c : OidcClient) (s : SubjectStore) (actions : List OidcAction) :
    Flow c (actions.foldl (OidcRun.act c) ⟨s, [], []⟩) := by
  have hstart : Flow c ⟨s, [], []⟩ := by
    constructor
    case opens => exact fun call hcall => absurd hcall List.not_mem_nil
    case granted => exact fun g hg => absurd hg List.not_mem_nil
  generalize (⟨s, [], []⟩ : OidcRun) = r at hstart
  induction actions generalizing r with
  | nil => exact hstart
  | cons action actions ih => exact ih (r.act c action) (hstart.act action)

end Owasaka.Api
