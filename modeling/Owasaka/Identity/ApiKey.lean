import Owasaka.Foundation.Base64
import Owasaka.Foundation.Hex
import Owasaka.Foundation.SplitN
import Owasaka.Identity.Authenticator

/-! # API keys (`identity/apikey.go`)

    A key is the prefix `oswk_`, the key ID in hexadecimal, an underscore and the secret
    in base64 for URLs.  The underscore is also a letter of that alphabet and of the
    prefix: `ParseAPIKey` splits at the first one behind the prefix, and the key ID has
    none.

    Strings are byte strings.  What `rand.Read` draws and `bcrypt.GenerateFromPassword`
    are parameters. -/

namespace Owasaka.Identity

/-! ## Section 1: Minting -/

structure APIKeyCredential where
  principalID : String
  keyID : Bytes
  /-- The bcrypt hash of the secret. -/
  hash : Bytes
  label : String
  deriving DecidableEq

/-- What the store indexes against. -/
def APIKeyCredential.subject (c : APIKeyCredential) : Bytes := c.keyID

def apiKeyPrefix : Bytes := Bytes.ascii "oswk_"

def underscore : UInt8 := 0x5f

/-- The errors of `NewAPIKey`, with the error that a wrapped one adds. -/
inductive MintError where
  | principalIDRequired
  | readRandom (cause : String)
  | bcrypt (cause : String)
  deriving DecidableEq

def MintError.text : MintError → String
  | .principalIDRequired => "identity: principal id required"
  | .readRandom cause => "identity: read random: " ++ cause
  | .bcrypt cause => "identity: bcrypt: " ++ cause

/-- What the two calls of `rand.Read` give. -/
structure KeyDraws where
  keyIDBytes : Except String (Vector UInt8 8)
  secretBytes : Except String (Vector UInt8 32)

/-- The credential and the plaintext.  `generate` hashes a password at the cost of the
    package. -/
def newAPIKey (generate : Bytes → Except String Bytes) (draws : KeyDraws)
    (principalID label : String) : Except MintError (APIKeyCredential × Bytes) :=
  if principalID = "" then .error .principalIDRequired
  else
    match draws.keyIDBytes with
    | .error cause => .error (.readRandom cause)
    | .ok keyIDBytes =>
      match draws.secretBytes with
      | .error cause => .error (.readRandom cause)
      | .ok secretBytes =>
        let keyID := Hex.encode keyIDBytes.toList
        let secret := Base64.encodeRawURL secretBytes.toList
        match generate secret with
        | .error cause => .error (.bcrypt cause)
        | .ok hash =>
          let plaintext := apiKeyPrefix ++ keyID ++ [underscore] ++ secret
          .ok (⟨principalID, keyID, hash, label⟩, plaintext)

/-! ## Section 2: Parsing -/

/-- The key ID and the secret of a presented key. -/
def parseAPIKey (presented : Bytes) : Except IdentityError (Bytes × Bytes) :=
  if ¬ apiKeyPrefix <+: presented then .error .credentialInvalid
  else
    let body := presented.drop apiKeyPrefix.length
    match splitN underscore 2 body with
    | [keyID, secret] =>
      if keyID = [] ∨ secret = [] then .error .credentialInvalid else .ok (keyID, secret)
    | _ => .error .credentialInvalid

/-- **Inversion** of `ParseAPIKey`. -/
theorem parseAPIKey_ok_iff {s id secret : Bytes} :
    parseAPIKey s = .ok (id, secret) ↔
      s = apiKeyPrefix ++ id ++ [underscore] ++ secret
        ∧ id ≠ [] ∧ underscore ∉ id ∧ secret ≠ [] := by
  unfold parseAPIKey
  constructor
  · intro hok
    split at hok
    · contradiction
    · rename_i hprefix
      obtain ⟨body, rfl⟩ := Decidable.not_not.mp hprefix
      rw [List.drop_left] at hok
      simp only at hok
      split at hok
      · rename_i keyID rest hsplit
        split at hok
        · contradiction
        · rename_i hparts
          cases hok
          obtain ⟨rfl, hfront⟩ := splitN_two_iff.mp hsplit
          rw [not_or] at hparts
          exact ⟨by simp, hparts.1, hfront, hparts.2⟩
      · contradiction
  · intro hform
    obtain ⟨rfl, hid, hfront, hsecret⟩ := hform
    have hassoc : apiKeyPrefix ++ id ++ [underscore] ++ secret
        = apiKeyPrefix ++ (id ++ underscore :: secret) := by simp
    rw [hassoc, if_neg (not_not_intro (List.prefix_append _ _)), List.drop_left]
    simp only [splitN_two_iff.mpr ⟨rfl, hfront⟩]
    rw [if_neg (not_or_intro hid hsecret)]

/-! ## Section 3: The parts of a minted key -/

theorem underscore_not_mem_hex (b : Bytes) : underscore ∉ Hex.encode b := by
  intro hmem
  exact absurd (Hex.encode_subset b underscore hmem) (by decide +kernel)

theorem hex_ne_nil (v : Vector UInt8 8) : Hex.encode v.toList ≠ [] := by
  intro hnil
  have hempty := Hex.encode_inj (hnil.trans (show [] = Hex.encode [] from rfl))
  have hlength := congrArg List.length hempty
  rw [Vector.length_toList] at hlength
  contradiction

theorem base64_ne_nil (v : Vector UInt8 32) : Base64.encodeRawURL v.toList ≠ [] := by
  intro hnil
  have hempty := Base64.encodeRawURL_inj (hnil.trans (show [] = Base64.encodeRawURL [] from rfl))
  have hlength := congrArg List.length hempty
  rw [Vector.length_toList] at hlength
  contradiction

/-- What a minted key consists of. -/
structure Minted (generate : Bytes → Except String Bytes) (keyIDBytes : Vector UInt8 8)
    (secretBytes : Vector UInt8 32) (cred : APIKeyCredential) (plaintext : Bytes) : Prop where
  subject : cred.subject = Hex.encode keyIDBytes.toList
  hash : generate (Base64.encodeRawURL secretBytes.toList) = .ok cred.hash
  plaintext : plaintext
    = apiKeyPrefix ++ Hex.encode keyIDBytes.toList ++ [underscore]
        ++ Base64.encodeRawURL secretBytes.toList

theorem newAPIKey_minted {generate : Bytes → Except String Bytes} {keyIDBytes : Vector UInt8 8}
    {secretBytes : Vector UInt8 32} {principalID label : String} {cred : APIKeyCredential}
    {plaintext : Bytes}
    (hok : newAPIKey generate ⟨.ok keyIDBytes, .ok secretBytes⟩ principalID label
      = .ok (cred, plaintext)) :
    Minted generate keyIDBytes secretBytes cred plaintext := by
  unfold newAPIKey at hok
  simp only at hok
  split at hok
  · contradiction
  · split at hok
    · contradiction
    · rename_i hash hgenerate
      cases hok
      exact ⟨rfl, hgenerate, rfl⟩

/-- With a principal, whatever is drawn and hashed makes a key. -/
theorem exists_newAPIKey {generate : Bytes → Except String Bytes} {principalID : String}
    (hprincipal : principalID ≠ "") (keyIDBytes : Vector UInt8 8) (secretBytes : Vector UInt8 32)
    {hash : Bytes} (hhash : generate (Base64.encodeRawURL secretBytes.toList) = .ok hash)
    (label : String) :
    ∃ cred plaintext, newAPIKey generate ⟨.ok keyIDBytes, .ok secretBytes⟩ principalID label
      = .ok (cred, plaintext) := by
  unfold newAPIKey
  rw [if_neg hprincipal]
  simp only [hhash]
  exact ⟨_, _, rfl⟩

/-! ## Section 4: Keys parse back -/

/-- **API keys parse back**: the plaintext of a minted key gives the subject of its
    credential and the secret that was hashed, and exactly the strings of that form are
    accepted, with the key ID up to the first underscore. -/
theorem apiKey_parses_back (generate : Bytes → Except String Bytes) :
    (∀ (keyIDBytes : Vector UInt8 8) (secretBytes : Vector UInt8 32) (principalID label : String)
        (cred : APIKeyCredential) (plaintext : Bytes),
      newAPIKey generate ⟨.ok keyIDBytes, .ok secretBytes⟩ principalID label = .ok (cred, plaintext) →
        parseAPIKey plaintext
            = .ok (Hex.encode keyIDBytes.toList, Base64.encodeRawURL secretBytes.toList)
          ∧ cred.subject = Hex.encode keyIDBytes.toList
          ∧ generate (Base64.encodeRawURL secretBytes.toList) = .ok cred.hash)
      ∧ ∀ s id secret : Bytes, parseAPIKey s = .ok (id, secret) ↔
          s = apiKeyPrefix ++ id ++ [underscore] ++ secret
            ∧ id ≠ [] ∧ underscore ∉ id ∧ secret ≠ [] := by
  constructor
  · intro keyIDBytes secretBytes principalID label cred plaintext hok
    have hminted := newAPIKey_minted hok
    have hparse : parseAPIKey plaintext
        = .ok (Hex.encode keyIDBytes.toList, Base64.encodeRawURL secretBytes.toList) := by
      rw [parseAPIKey_ok_iff]
      exact ⟨hminted.plaintext, hex_ne_nil keyIDBytes, underscore_not_mem_hex _,
        base64_ne_nil secretBytes⟩
    exact ⟨hparse, hminted.subject, hminted.hash⟩
  · intro s id secret
    exact parseAPIKey_ok_iff

/-- A secret whose text is underscores but for the last letter. -/
def underscores : Vector UInt8 32 := Vector.replicate 32 0xff

/-- One hash for the passwords that bcrypt takes. -/
def bcryptOnce (password : Bytes) : Except String Bytes :=
  if password.length ≤ 72 then .ok apiHash else .error "bcrypt: password length exceeds 72 bytes"

theorem apiKey_parses_back_underscores :
    ∃ cred plaintext,
      newAPIKey bcryptOnce ⟨.ok (Vector.replicate 8 0x2a), .ok underscores⟩ "p1" "ci-runner"
          = .ok (cred, plaintext)
        ∧ parseAPIKey plaintext
          = .ok (Hex.encode (Vector.replicate 8 0x2a).toList, Base64.encodeRawURL underscores.toList)
        ∧ underscore ∈ Base64.encodeRawURL underscores.toList := by
  have hhash : bcryptOnce (Base64.encodeRawURL underscores.toList) = .ok apiHash :=
    if_pos (by decide +kernel)
  obtain ⟨cred, plaintext, hok⟩ :=
    exists_newAPIKey (show "p1" ≠ "" by decide) (Vector.replicate 8 0x2a) underscores hhash "ci-runner"
  have hparse := (apiKey_parses_back bcryptOnce).1 _ _ _ _ _ _ hok
  exact ⟨cred, plaintext, hok, hparse.1, by decide +kernel⟩

end Owasaka.Identity
