import Mathlib.Data.Countable.Basic
import Mathlib.Data.List.Nodup
import Mathlib.Logic.Equiv.List
import Mathlib.Tactic.DeriveCountable
import Owasaka.Jwt.Token

/-! # Lawful token libraries

    Any injective way to write down what a token is made from gives a library
    that meets `Library.Lawful`: its decoder inverts the writing, and its
    parser makes the checks one after the other.  `renderKnown` writes given
    tokens as they are. -/

namespace Owasaka.Jwt

open Pki

/-! ## Section 1: The parser over a decoder -/

/-- What a token is made from. -/
structure Mint where
  kid : String
  claims : Claims
  privateKey : Bytes
  deriving DecidableEq

/-- The token that a mint decodes to. -/
def Mint.token (ed : SignatureScheme) (signingString : String → Claims → Bytes) (m : Mint) :
    Token :=
  ⟨"EdDSA", .text m.kid, m.claims, signingString m.kid m.claims,
    ed.sign m.privateKey (signingString m.kid m.claims)⟩

/-- The parser over a decoder, check by check. -/
def parseDecoded (ed : SignatureScheme) (decode : Bytes → Option Token) (methods : List String)
    (now : Int) (keyFunc : Token → Except VerifyError Bytes) (raw : Bytes) :
    Except ParseError (Claims × Bool) :=
  match decode raw with
  | none => .error ⟨false, false, true, none⟩
  | some tok =>
    if tok.alg ∉ methods then .error ⟨false, false, false, none⟩
    else
      match keyFunc tok with
      | .error e => .error ⟨false, false, false, some e⟩
      | .ok pub =>
        -- a failed Ed25519 check is none of the errors that `Verify` looks for
        if !ed.verify pub tok.signingString tok.signature then .error ⟨false, false, false, none⟩
        else if tok.claims.expired now then .error ⟨true, false, false, none⟩
        else if tok.claims.notValidYet now then .error ⟨false, false, false, none⟩
        else .ok (tok.claims, true)

theorem parseDecoded_ok {ed : SignatureScheme} {decode : Bytes → Option Token}
    {methods : List String} {now : Int} {keyFunc : Token → Except VerifyError Bytes} {raw : Bytes}
    {claims : Claims} {valid : Bool} :
    parseDecoded ed decode methods now keyFunc raw = .ok (claims, valid) ↔
      valid = true ∧ ∃ tok pub, decode raw = some tok ∧ tok.alg ∈ methods
        ∧ keyFunc tok = .ok pub ∧ ed.verify pub tok.signingString tok.signature = true
        ∧ tok.claims.InDate now ∧ claims = tok.claims := by
  unfold parseDecoded Claims.InDate
  constructor
  · intro hok
    cases hdec : decode raw with
    | none => simp [hdec] at hok
    | some tok =>
      by_cases halg : tok.alg ∈ methods
      · cases hkey : keyFunc tok with
        | error e => simp [hdec, halg, hkey] at hok
        | ok pub =>
          cases hsig : ed.verify pub tok.signingString tok.signature with
          | false => simp [hdec, halg, hkey, hsig] at hok
          | true =>
            -- the claims are only checked once the signature is
            cases hexp : tok.claims.expired now with
            | true => simp [hdec, halg, hkey, hsig, hexp] at hok
            | false =>
              cases hnbf : tok.claims.notValidYet now with
              | true => simp [hdec, halg, hkey, hsig, hexp, hnbf] at hok
              | false =>
                simp only [hdec, halg, hkey, hsig, hexp, hnbf] at hok
                cases hok
                exact ⟨rfl, tok, pub, rfl, halg, hkey, hsig, ⟨hexp, hnbf⟩, rfl⟩
      · simp [hdec, halg] at hok
  · rintro ⟨rfl, tok, pub, hdec, halg, hkey, hsig, ⟨hexp, hnbf⟩, rfl⟩
    simp [hdec, halg, hkey, hsig, hexp, hnbf]

/-! ## Section 2: The library of a rendering -/

section Lawful

variable (ed : SignatureScheme) (signingString : String → Claims → Bytes) (render : Mint → Bytes)

/-- The library that writes tokens with `render`. -/
noncomputable def rendered : Library where
  signingString := signingString
  signedString := fun kid claims sk => .ok (render ⟨kid, claims, sk⟩)
  decode := fun raw => (Function.partialInv render raw).map (Mint.token ed signingString)
  parseWithClaims :=
    parseDecoded ed fun raw => (Function.partialInv render raw).map (Mint.token ed signingString)

theorem rendered_lawful (hrender : Function.Injective render) :
    (rendered ed signingString render).Lawful ed where
  signedString := by
    intro kid claims sk
    refine ⟨render ⟨kid, claims, sk⟩, rfl, ?_⟩
    simp only [rendered, Function.partialInv_left hrender]
    rfl
  parseWithClaims := by
    intro methods now keyFunc raw claims valid
    exact @parseDecoded_ok ed (rendered ed signingString render).decode methods now keyFunc raw
      claims valid

end Lawful

/-! ## Section 3: Renderings with given tokens -/

instance countableChar : Countable Char :=
  Function.Injective.countable (f := Char.toNat) fun _ _ => Char.toNat_inj.mp

instance countableString : Countable String :=
  Function.Injective.countable (f := String.toList) fun _ _ => String.toList_inj.mp

instance countableUInt8 : Countable UInt8 :=
  Function.Injective.countable (f := UInt8.toNat) fun _ _ => UInt8.toNat_inj.mp

deriving instance Countable for TokenType
deriving instance Countable for PrincipalType
deriving instance Countable for NumericDate
deriving instance Countable for Claims
deriving instance Countable for Mint

/-- The given tokens as they are; every other one under a code that starts with
    a zero byte. -/
noncomputable def renderKnown (known : List (Mint × Bytes)) (m : Mint) : Bytes :=
  match known.find? fun p => p.1 = m with
  | some p => p.2
  | none => 0 :: List.replicate (Classical.choose (exists_injective_nat Mint) m) 0

theorem renderKnown_injective {known : List (Mint × Bytes)}
    (hdistinct : (known.map Prod.snd).Nodup) (hhead : ∀ p ∈ known, p.2.head? ≠ some 0) :
    Function.Injective (renderKnown known) := by
  intro m m' heq
  unfold renderKnown at heq
  split at heq
  · rename_i p hp
    have hpm : p.1 = m := by simpa using List.find?_some hp
    split at heq
    · -- two given tokens
      rename_i q hq
      have hqm : q.1 = m' := by simpa using List.find?_some hq
      have hpq : p = q := List.inj_on_of_nodup_map hdistinct (List.mem_of_find?_eq_some hp)
        (List.mem_of_find?_eq_some hq) heq
      rw [← hpm, ← hqm, hpq]
    · -- a given token does not start with the zero byte of a code
      exact absurd (by simp [heq]) (hhead p (List.mem_of_find?_eq_some hp))
  · split at heq
    · rename_i q hq
      exact absurd (by simp [← heq]) (hhead q (List.mem_of_find?_eq_some hq))
    · -- two codes of one length
      apply Classical.choose_spec (exists_injective_nat Mint)
      simpa using congrArg List.length heq

/-- The bytes before the last dot. -/
def beforeLastDot (raw : Bytes) : Bytes := (raw.reverse.dropWhile (· ≠ 46)).tail.reverse

/-- The signing strings of the given tokens. -/
def signingKnown (known : List (Mint × Bytes)) (kid : String) (claims : Claims) : Bytes :=
  match known.find? fun p => p.1.kid = kid ∧ p.1.claims = claims with
  | some p => beforeLastDot p.2
  | none => []

end Owasaka.Jwt
