import Owasaka.Foundation.GoValue
import Owasaka.Foundation.Sha256

/-! # The OIDC state parameter (`identity/oidc/state.go`)

    A state token is a JSON payload and its HMAC, each in base64 without padding,
    with a dot between them.  `Decode` looks for the first dot, checks the sum over
    the bytes of the payload, and reads the payload back.

    The encodings are lossless but for JSON: bytes that are no UTF-8 are replaced
    when the payload is written, and the redirect comes from a query parameter.  The
    main result: nonce and redirect come back, within the window, if and only if
    both are valid UTF-8. -/

namespace Owasaka.Identity.Oidc

open JsonText

/-! ## Section 1: Claims -/

structure StateClaims where
  nonce : Bytes
  redirectURL : Bytes
  issuedAt : Int
  expiresAt : Int
  deriving DecidableEq

def StateClaims.zero : StateClaims := ⟨[], [], 0, 0⟩

/-- An empty redirect is left out. -/
def StateClaims.document (c : StateClaims) : JsonDoc :=
  .obj ([(Bytes.ascii "n", .str (escape c.nonce))]
    ++ (if c.redirectURL = [] then [] else [(Bytes.ascii "r", .str (escape c.redirectURL))])
    ++ [(Bytes.ascii "i", .num (intText c.issuedAt)), (Bytes.ascii "e", .num (intText c.expiresAt))])

/-- `json.Marshal`, which has no error for strings and integers. -/
def StateClaims.marshal (c : StateClaims) : Bytes := render c.document

def fieldNames : List Bytes := ["n", "r", "i", "e"].map Bytes.ascii

def StateClaims.set (name : Bytes) (d : JsonDoc) (c : StateClaims) : Option StateClaims :=
  if name = Bytes.ascii "n" then (decodeString c.nonce d).map fun v => { c with nonce := v }
  else if name = Bytes.ascii "r" then
    (decodeString c.redirectURL d).map fun v => { c with redirectURL := v }
  else if name = Bytes.ascii "i" then (decodeInt64 c.issuedAt d).map fun v => { c with issuedAt := v }
  else (decodeInt64 c.expiresAt d).map fun v => { c with expiresAt := v }

/-- `json.Unmarshal` into zero claims; `none` is an error. -/
def unmarshalClaims (payload : Bytes) : Option StateClaims :=
  (parse payload).bind (decodeStruct fieldNames StateClaims.set .zero)

/-! ## Section 2: The codec -/

/-- `t.Unix()` is an `int64`. -/
def unix (t : Int) : Int := (t / 10 ^ 9).bmod (2 ^ 64)

structure StateCodec where
  key : Bytes
  ttl : Int
  deriving DecidableEq

/-- `newStateCodec` panics on an empty key. -/
def newStateCodec (key : Bytes) (ttl : Int) : Option StateCodec :=
  if key = [] then none
  else some ⟨key, if ttl ≤ 0 then 5 * 60 * 10 ^ 9 else ttl⟩

/-- `ErrInvalidState`, bare or wrapped. -/
inductive StateError where
  | invalidState
  | missingSeparator
  deriving DecidableEq

/-- The payload of `Encode`. -/
def StateCodec.payload (c : StateCodec) (now : Int) (nonce redirect : Bytes) : Bytes :=
  StateClaims.marshal
    { nonce := nonce, redirectURL := redirect, issuedAt := unix now, expiresAt := unix (now + c.ttl) }

def StateCodec.encode (c : StateCodec) (now : Int) (nonce redirect : Bytes) : Bytes :=
  let payload := c.payload now nonce redirect
  Base64.encodeRawURL payload ++ 0x2e :: Base64.encodeRawURL (Sha256.hmac c.key payload)

/-- The texts before and after the first dot. -/
def cutDot : Bytes → Option (Bytes × Bytes)
  | [] => none
  | b :: token =>
    if b = 0x2e then some ([], token)
    else (cutDot token).map fun parts => (b :: parts.1, parts.2)

/-- `Decode`; `check` tells whether a sum is that of a payload. -/
def decodeWith (check : Bytes → Bytes → Bool) (now : Int) (token : Bytes) :
    Except StateError StateClaims :=
  match cutDot token with
  | none => .error .missingSeparator
  | some (front, back) =>
    match Base64.decodeRawURL front with
    | none => .error .invalidState
    | some payload =>
      match Base64.decodeRawURL back with
      | none => .error .invalidState
      | some sig =>
        if !check payload sig then .error .invalidState
        else
          match unmarshalClaims payload with
          | none => .error .invalidState
          | some claims => if unix now > claims.expiresAt then .error .invalidState else .ok claims

def StateCodec.decode (c : StateCodec) : Int → Bytes → Except StateError StateClaims :=
  decodeWith fun payload sig => Sha256.hmac c.key payload = sig

/-! ## Section 3: An ideal HMAC -/

/-- A call of `Encode`. -/
structure EncodeCall where
  codec : StateCodec
  now : Int
  nonce : Bytes
  redirect : Bytes

def EncodeCall.payload (call : EncodeCall) : Bytes :=
  call.codec.payload call.now call.nonce call.redirect

/-- `Decode` with an HMAC of which nobody knows a sum that was not computed: after
    the given calls, only the sums of their payloads are accepted, each under its key. -/
def StateCodec.decodeIdeal (c : StateCodec) (made : List EncodeCall) :
    Int → Bytes → Except StateError StateClaims :=
  decodeWith fun payload sig =>
    made.any (fun call => call.codec.key = c.key ∧ call.payload = payload)
      && decide (Sha256.hmac c.key payload = sig)

/-- The payload that a token carries. -/
def payloadOf (token : Bytes) : Option Bytes :=
  (cutDot token).bind fun parts => Base64.decodeRawURL parts.1

/-- What is accepted under the key carries a payload that was encoded under it. -/
def StateCodec.Authentic (c : StateCodec) : Prop :=
  ∀ (made : List EncodeCall) (t : Int) (token : Bytes) (claims : StateClaims),
    c.decodeIdeal made t token = .ok claims →
      ∃ call ∈ made, call.codec.key = c.key ∧ payloadOf token = some call.payload

/-- A token is accepted within its window, and gives nonce and redirect back. -/
structure StateCodec.RoundTrips (c : StateCodec) (now : Int) (nonce redirect : Bytes) (t : Int) :
    Prop where
  window : (∃ claims, c.decode t (c.encode now nonce redirect) = .ok claims) ↔
    unix t ≤ unix (now + c.ttl)
  content : ∀ claims, c.decode t (c.encode now nonce redirect) = .ok claims →
    claims.nonce = nonce ∧ claims.redirectURL = redirect

/-! ## Section 4: Reading the claims back -/

theorem fieldNames_lit : ∀ name ∈ fieldNames, escape name = name ∧ unquote name = some name := by
  decide +kernel

theorem isLit_field {s : String} (hs : s ∈ ["n", "r", "i", "e"]) : IsLit (Bytes.ascii s) := by
  rw [← (fieldNames_lit _ (List.mem_map_of_mem hs)).1]
  exact isLit_escape _

theorem decodeMember_field {s : String} (hs : s ∈ ["n", "r", "i", "e"]) (c : StateClaims)
    (d : JsonDoc) :
    decodeMember fieldNames StateClaims.set c (Bytes.ascii s, d) = StateClaims.set (Bytes.ascii s) d c :=
  decodeMember_of_mem (fieldNames_lit _ (List.mem_map_of_mem hs)).2 (List.mem_map_of_mem hs)

theorem proper_document (c : StateClaims) : Proper maxDepth c.document := by
  have hint : ∀ n, Proper (maxDepth - 1) (.num (intText n)) := fun n =>
    proper_num (isNumber_intText n) _
  unfold StateClaims.document
  rw [Proper, properMembers_iff]
  refine ⟨by decide, ?_⟩
  intro m hm
  simp only [List.mem_append, List.mem_cons, List.not_mem_nil, or_false] at hm
  rcases hm with (rfl | hredirect) | rfl | rfl
  · exact ⟨@isLit_field "n" (by simp), proper_str (isLit_escape _)⟩
  · split at hredirect
    · simp at hredirect
    · rw [List.mem_singleton.mp hredirect]
      exact ⟨@isLit_field "r" (by simp), proper_str (isLit_escape _)⟩
  · exact ⟨@isLit_field "i" (by simp), hint _⟩
  · exact ⟨@isLit_field "e" (by simp), hint _⟩

/-- **The claims** are read back, with their texts made valid. -/
theorem unmarshalClaims_marshal {c : StateClaims} (hissued : -2 ^ 63 ≤ c.issuedAt ∧ c.issuedAt < 2 ^ 63)
    (hexpires : -2 ^ 63 ≤ c.expiresAt ∧ c.expiresAt < 2 ^ 63) :
    unmarshalClaims c.marshal = some
      { c with nonce := Utf8.sanitize c.nonce, redirectURL := Utf8.sanitize c.redirectURL } := by
  unfold unmarshalClaims StateClaims.marshal
  rw [parse_render (proper_document c), Option.bind_some]
  unfold StateClaims.document
  rw [decodeStruct]
  have hredirect : ∀ r : StateClaims, r.redirectURL = [] →
      (if c.redirectURL = [] then []
        else [(Bytes.ascii "r", JsonDoc.str (escape c.redirectURL))]).foldlM
          (decodeMember fieldNames StateClaims.set) r
        = some { r with redirectURL := Utf8.sanitize c.redirectURL } := by
    intro r hempty
    apply foldlM_omitString (fun v => { r with redirectURL := v }) (@decodeMember_field "r" (by simp) _ _)
    -- the field was left out, and stays empty
    · rw [← hempty]
    · simp +decide [StateClaims.set, decodeString_escape_sanitize]
  have hn := @decodeMember_field "n" (by simp)
  have hi := @decodeMember_field "i" (by simp)
  have he := @decodeMember_field "e" (by simp)
  have hissuedAt : ∀ old, decodeInt64 old (.num (intText c.issuedAt)) = some c.issuedAt :=
    fun old => decodeInt64_intText hissued.1 hissued.2
  have hexpiresAt : ∀ old, decodeInt64 old (.num (intText c.expiresAt)) = some c.expiresAt :=
    fun old => decodeInt64_intText hexpires.1 hexpires.2
  simp +decide only [List.foldlM_append, List.foldlM_cons, List.foldlM_nil, Option.bind_eq_bind, hn, hi, he,
    StateClaims.set, decodeString_escape_sanitize, hissuedAt, hexpiresAt, Option.map_some, Option.bind_some,
    Option.pure_def, hredirect, StateClaims.zero, if_true, if_false]

theorem unix_bounds (t : Int) : -2 ^ 63 ≤ unix t ∧ unix t < 2 ^ 63 := by
  have hlo := @Int.le_bmod (t / 10 ^ 9) (2 ^ 64) (by decide)
  have hhi := @Int.bmod_lt (t / 10 ^ 9) (2 ^ 64) (by decide)
  unfold unix
  omega

/-! ## Section 5: Tokens -/

theorem cutDot_append {front : Bytes} (hfront : 0x2e ∉ front) (back : Bytes) :
    cutDot (front ++ 0x2e :: back) = some (front, back) := by
  induction front with
  | nil => rfl
  | cons b front ih =>
    rw [List.mem_cons, not_or] at hfront
    rw [List.cons_append, cutDot, if_neg (fun heq => hfront.1 heq.symm), ih hfront.2]
    rfl

theorem dot_not_mem_encodeRawURL (b : Bytes) : 0x2e ∉ Base64.encodeRawURL b := by
  intro hmem
  exact absurd (Base64.mem_encodeRawURL hmem) (by decide +kernel)

/-- What `Decode` returns for a token of `Encode`. -/
theorem decode_encode (c : StateCodec) (now : Int) (nonce redirect : Bytes) (t : Int) :
    c.decode t (c.encode now nonce redirect) =
      if unix t > unix (now + c.ttl) then .error .invalidState
      else .ok ⟨Utf8.sanitize nonce, Utf8.sanitize redirect, unix now, unix (now + c.ttl)⟩ := by
  have hread : unmarshalClaims (c.payload now nonce redirect)
      = some ⟨Utf8.sanitize nonce, Utf8.sanitize redirect, unix now, unix (now + c.ttl)⟩ :=
    unmarshalClaims_marshal (unix_bounds now) (unix_bounds (now + c.ttl))
  unfold StateCodec.decode decodeWith StateCodec.encode
  simp only [cutDot_append (dot_not_mem_encodeRawURL _), Base64.decodeRawURL_encodeRawURL, hread,
    decide_true, Bool.not_true, Bool.false_eq_true, if_false]

/-- Under an ideal HMAC, tokens carry payloads of `Encode`. -/
theorem authentic (c : StateCodec) : c.Authentic := by
  intro made t token claims hok
  unfold StateCodec.decodeIdeal decodeWith at hok
  split at hok
  · contradiction
  · rename_i front back hcut
    split at hok
    · contradiction
    · rename_i payload hpayload
      split at hok
      · contradiction
      · rename_i sig hsig
        split at hok
        · contradiction
        · rename_i hcheck
          rw [Bool.not_eq_true, Bool.not_eq_false', Bool.and_eq_true, List.any_eq_true] at hcheck
          obtain ⟨⟨call, hmem, hcall⟩, _⟩ := hcheck
          rw [decide_eq_true_eq] at hcall
          refine ⟨call, hmem, hcall.1, ?_⟩
          unfold payloadOf
          rw [hcut, Option.bind_some, hpayload, hcall.2]

theorem sanitize_eq_iff {s : Bytes} : Utf8.sanitize s = s ↔ Utf8.Valid s := by
  constructor
  · intro heq
    rw [← heq]
    exact Utf8.valid_sanitize s
  · exact Utf8.sanitize_of_valid

/-- **State round trip**: within the window a token gives back exactly the nonce and
    the redirect it was made with, and only payloads of `Encode` are accepted, exactly
    when the window is over or both texts are valid UTF-8. -/
theorem state_round_trip_iff (c : StateCodec) (now : Int) (nonce redirect : Bytes) (t : Int) :
    (c.RoundTrips now nonce redirect t ∧ c.Authentic) ↔
      unix (now + c.ttl) < unix t ∨ (Utf8.Valid nonce ∧ Utf8.Valid redirect) := by
  have hdecode := decode_encode c now nonce redirect t
  constructor
  · intro ⟨htrip, _⟩
    by_cases hover : unix (now + c.ttl) < unix t
    · exact Or.inl hover
    · rw [if_neg hover] at hdecode
      obtain ⟨hnonce, hredirect⟩ := htrip.content _ hdecode
      exact Or.inr ⟨sanitize_eq_iff.mp hnonce, sanitize_eq_iff.mp hredirect⟩
  · intro hcond
    refine ⟨⟨?_, ?_⟩, authentic c⟩
    · rw [hdecode]
      split
      · rename_i hover
        simp only [reduceCtorEq, exists_false, false_iff]
        omega
      · rename_i hwithin
        simp only [Except.ok.injEq, exists_eq', true_iff]
        omega
    · intro claims hok
      rw [hdecode] at hok
      split at hok
      · contradiction
      · rename_i hwithin
        cases hok
        obtain ⟨hnonce, hredirect⟩ := hcond.resolve_left hwithin
        exact ⟨Utf8.sanitize_of_valid hnonce, Utf8.sanitize_of_valid hredirect⟩

/-! ## Section 6: A redirect that is no UTF-8 -/

def loginCodec : StateCodec := ⟨Bytes.ascii "state-key", 5 * 60 * 10 ^ 9⟩

-- five minutes are the default
example : newStateCodec (Bytes.ascii "state-key") 0 = some loginCodec := by decide

/-- The redirect `%ff` of the query comes back as U+FFFD. -/
theorem redirect_replaced :
    (loginCodec.decode 0 (loginCodec.encode 0 (Bytes.ascii "nonce") [0xff])).map StateClaims.redirectURL
        = .ok [0xEF, 0xBF, 0xBD]
      ∧ ¬ (loginCodec.RoundTrips 0 (Bytes.ascii "nonce") [0xff] 0 ∧ loginCodec.Authentic) := by
  have hdecode : loginCodec.decode 0 (loginCodec.encode 0 (Bytes.ascii "nonce") [0xff])
      = .ok ⟨Utf8.sanitize (Bytes.ascii "nonce"), Utf8.sanitize [0xff], unix 0, unix (0 + loginCodec.ttl)⟩ := by
    rw [decode_encode, if_neg (by decide)]
  refine ⟨?_, ?_⟩
  · rw [hdecode]
    decide
  · intro ⟨htrip, _⟩
    have hredirect := (htrip.content _ hdecode).2
    exact absurd hredirect (by decide)

end Owasaka.Identity.Oidc
