import Owasaka.Events.Pipeline
import Owasaka.Foundation.Lookup

/-! # Canary triggers (`canary/trigger.go`, `storage/db/repository.go`)

    `RecordTrigger` counts an alert at the canary token that it is about: it reads the
    event that raised the alert, finds the token by its slug, and saves it with one
    more trigger.

    Stored tokens are the values that are read back; each is stored under its ID. -/

namespace Owasaka.Canary

open Events Json

/-! ## Section 1: Tokens -/

/-- `CanaryTokenType` is a Go string. -/
structure CanaryTokenType where
  text : String
  deriving DecidableEq

structure CanaryToken where
  id : String
  token : String
  type : CanaryTokenType
  label : String
  subdomain : String
  url : String
  createdAt : Int
  triggeredAt : Option Int
  triggerCount : Int64
  lastTriggerSource : String
  deriving DecidableEq

/-- The bucket of the tokens: `SaveCanaryToken` puts each under its ID. -/
structure TokenBucket where
  entries : Std.ExtTreeMap String CanaryToken
  kept : ∀ (id : String) (t : CanaryToken), entries[id]? = some t → t.id = id

/-- The events and the tokens. -/
structure Repository where
  /-- The stored events, by their IDs. -/
  events : Std.ExtTreeMap String NetworkEvent
  tokens : TokenBucket

def Repository.getEvent (repo : Repository) (id : String) : Option NetworkEvent := repo.events[id]?

/-- The loop goes over all tokens and keeps the last match. -/
def Repository.findCanaryTokenByToken (repo : Repository) (token : String) : Option CanaryToken :=
  lastMatch (fun t => t.token = token) repo.tokens.entries

def TokenBucket.empty : TokenBucket where
  entries := ∅
  kept := by simp

def TokenBucket.put (tokens : TokenBucket) (t : CanaryToken) : TokenBucket where
  entries := tokens.entries.insert t.id t
  kept := by
    intro id t' hget
    rcases getElem?_insert_cases hget with ⟨rfl, rfl⟩ | ⟨_, hget⟩
    · rfl
    · exact tokens.kept id t' hget

def Repository.saveCanaryToken (repo : Repository) (t : CanaryToken) : Repository :=
  { repo with tokens := repo.tokens.put t }

/-! ## Section 2: `RecordTrigger` -/

/-- The leading slug of a canary subdomain query. -/
def dnsTokenFromQueryName (name : String) : String :=
  let chars := name.toList
  let trimmed := if chars.getLast? = some '.' then chars.dropLast else chars
  String.ofList (trimmed.takeWhile (· ≠ '.'))

def text (v : Option Value) : String := (Value.asString v).getD ""

/-- The slug of the token that an alert is about, where it is a canary alert whose
    event is stored. -/
def alertToken (repo : Repository) (alert : NetworkEvent) : Option String :=
  let rule := text alert.metadata["rule"]?
  if rule ≠ "DNS_CANARY_TRIGGERED" ∧ rule ≠ "HTTP_CANARY_TRIGGERED" then none
  else
    match repo.getEvent (text alert.metadata["trigger_id"]?) with
    | none => none
    | some orig =>
      let token :=
        if rule = "DNS_CANARY_TRIGGERED" then dnsTokenFromQueryName (text orig.metadata["name"]?)
        else text orig.metadata["canary_token"]?
      if token = "" then none else some token

/-- The token with one more trigger. -/
def CanaryToken.triggered (ct : CanaryToken) (now : Int) (source : String) : CanaryToken :=
  { ct with triggeredAt := some now, triggerCount := ct.triggerCount + 1, lastTriggerSource := source }

/-- `RecordTrigger` at one reading of the clock. -/
def recordTrigger (now : Int) (alert : NetworkEvent) (repo : Repository) : Repository :=
  match alertToken repo alert with
  | none => repo
  | some token =>
    match repo.findCanaryTokenByToken token with
    | none => repo
    | some ct => repo.saveCanaryToken (ct.triggered now alert.destination)

/-! ## Section 3: One trigger -/

/-- The tokens agree but for what a trigger changes. -/
def SameToken (ct ct' : CanaryToken) : Prop :=
  { ct' with
    triggeredAt := ct.triggeredAt, triggerCount := ct.triggerCount,
    lastTriggerSource := ct.lastTriggerSource } = ct

variable {repo : Repository} {ct ct' : CanaryToken} {token : String}

theorem SameToken.refl (ct : CanaryToken) : SameToken ct ct := rfl

theorem SameToken.triggered (h : SameToken ct ct') (now : Int) (source : String) :
    SameToken ct (ct'.triggered now source) := h

/-- Two tokens that agree with a third agree. -/
theorem SameToken.replace {ct₁ ct₂ : CanaryToken} (h₁ : SameToken ct ct₁) (h₂ : SameToken ct ct₂) :
    SameToken ct₁ ct₂ := by
  cases ct
  cases ct₁
  cases ct₂
  simp only [SameToken, CanaryToken.mk.injEq, and_true] at h₁ h₂ ⊢
  simp only [h₁, h₂, and_self]

theorem SameToken.id_eq (h : SameToken ct ct') : ct'.id = ct.id := by
  unfold SameToken at h
  rw [← h]

theorem SameToken.token_eq (h : SameToken ct ct') : ct'.token = ct.token := by
  unfold SameToken at h
  rw [← h]

/-- The token that is found is stored under its ID, and no other one with the slug is
    behind it. -/
theorem Repository.find_iff : repo.findCanaryTokenByToken token = some ct ↔
    repo.tokens.entries[ct.id]? = some ct ∧ ct.token = token
      ∧ ∀ id' t', repo.tokens.entries[id']? = some t' → t'.token = token → compare ct.id id' ≠ .lt := by
  rw [findCanaryTokenByToken, lastMatch_eq_some_iff]
  constructor
  · rintro ⟨id, hget, htoken, hlast⟩
    obtain rfl := repo.tokens.kept id ct hget
    exact ⟨hget, htoken, hlast⟩
  · rintro ⟨hget, htoken, hlast⟩
    exact ⟨ct.id, hget, htoken, hlast⟩

/-- After a save of the token that is found, what was saved is found. -/
theorem Repository.find_save (hfind : repo.findCanaryTokenByToken token = some ct)
    (hsame : SameToken ct ct') :
    (repo.saveCanaryToken ct').findCanaryTokenByToken token = some ct' := by
  obtain ⟨_, htoken, hlast⟩ := find_iff.mp hfind
  refine lastMatch_insert ?_ (hsame.token_eq.trans htoken)
  rw [hsame.id_eq]
  exact hlast

end Owasaka.Canary
