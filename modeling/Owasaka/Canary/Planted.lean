import Mathlib.Data.List.TakeWhile
import Owasaka.Canary.Trigger
import Owasaka.Foundation.CivilOrder
import Owasaka.Foundation.Hex

/-! # Planted tokens (`canary/token.go`, `canary/http_token.go`, `canary/honeypot_token.go`, `api/canary_webhook.go`)

    A token is minted with a random slug.  Its subdomain or its URL carries the slug to
    where it is planted; a DNS query for the subdomain or a `POST` to the webhook brings
    it back in an event, and the alert about that event leads to the token. -/

namespace Owasaka.Canary

open Events Json

/-! ## Section 1: Minting -/

def canaryDNS : CanaryTokenType := ⟨"DNS"⟩
def canaryHTTP : CanaryTokenType := ⟨"HTTP"⟩
def canaryHoneypotVM : CanaryTokenType := ⟨"HONEYPOT_VM"⟩

/-- What a call draws: eight random bytes, a UUID and the time. -/
structure Draw where
  bytes : Vector UInt8 8
  id : String
  now : Int

/-- `randomSlug`. -/
def Draw.slug (d : Draw) : String := Hex.encodeToString d.bytes.toList

/-- The token that a call makes. -/
def mint (d : Draw) (type : CanaryTokenType) (label subdomain url : String) : CanaryToken where
  id := d.id
  token := d.slug
  type := type
  label := label
  subdomain := subdomain
  url := url
  createdAt := d.now
  triggeredAt := none
  triggerCount := 0
  lastTriggerSource := ""

/-- What the handlers use of the configuration. -/
structure CanaryConfig where
  dnsZone : String
  webhookPath : String
  webhookBaseURL : String

/-- A new token and the database with it, unless the token cannot be drawn or saved. -/
def Repository.plant (repo : Repository) (t : CanaryToken) (fails : Bool) :
    Option (CanaryToken × Repository) :=
  if fails then none else some (t, repo.saveCanaryToken t)

def generateDNSToken (repo : Repository) (zone label : String) (d : Draw) (fails : Bool) :
    Option (CanaryToken × Repository) :=
  repo.plant (mint d canaryDNS label (d.slug ++ "." ++ zone) "") fails

/-- `strings.TrimRight` of slashes. -/
def trimRightSlashes (s : String) : String :=
  String.ofList (s.toList.reverse.dropWhile (· = '/')).reverse

/-- `strings.Trim` of slashes. -/
def trimSlashes (s : String) : String := trimRightSlashes (String.ofList (s.toList.dropWhile (· = '/')))

/-- The URL of the webhook for a slug. -/
def webhookURL (baseURL webhookPath slug : String) : String :=
  trimRightSlashes baseURL ++ "/" ++ trimSlashes webhookPath ++ "/" ++ slug

def generateHTTPToken (repo : Repository) (baseURL webhookPath label : String) (d : Draw)
    (fails : Bool) : Option (CanaryToken × Repository) :=
  repo.plant (mint d canaryHTTP label "" (webhookURL baseURL webhookPath d.slug)) fails

def generateHoneypotToken (repo : Repository) (baseURL webhookPath label : String) (d : Draw)
    (fails : Bool) : Option (CanaryToken × Repository) :=
  repo.plant (mint d canaryHoneypotVM label "" (webhookURL baseURL webhookPath d.slug)) fails

/-! ## Section 2: The webhook -/

structure WebhookRequest where
  method : String
  path : String
  remoteAddr : String
  userAgent : String
  referer : String

def webhookPath : String := "/api/canary/webhook/"

/-- `strings.TrimPrefix`. -/
def trimPrefix (pre s : String) : String :=
  if pre.toList.isPrefixOf s.toList then String.ofList (s.toList.drop pre.toList.length) else s

/-- The event of a request. -/
def webhookEvent (req : WebhookRequest) (token : String) (now : Int) : NetworkEvent where
  id := ""
  type := .canary
  source := req.remoteAddr
  destination := token
  metadata := (((Std.ExtTreeMap.insert ∅ "canary_token" (.str token)).insert
    "canary_type" (.str "HTTP")).insert "user_agent" (.str req.userAgent)).insert
    "referer" (.str req.referer)
  timestamp := now
  signature := []
  signerKeyID := ""

/-- `CanaryWebhookHandler`: the status, and the event that is pushed. -/
def canaryWebhook (repo : Repository) (req : WebhookRequest) (now : Int) : Nat × Option NetworkEvent :=
  if req.method ≠ "POST" then (405, none)
  else
    let token := trimPrefix webhookPath req.path
    if token = "" then (404, none)
    else
      match repo.findCanaryTokenByToken token with
      | none => (404, none)
      | some _ => (204, some (webhookEvent req token now))

/-! ## Section 3: Slugs come back -/

theorem slug_chars (d : Draw) : d.slug.toList ≠ [] ∧ '.' ∉ d.slug.toList ∧ '/' ∉ d.slug.toList := by
  have hdigits : ∀ c ∈ Hex.digits, Char.ofNat c.toNat ≠ '.' ∧ Char.ofNat c.toNat ≠ '/' := by
    decide +kernel
  constructor
  · intro hnil
    have hempty : d.slug = "" := String.toList_eq_nil_iff.mp hnil
    refine Hex.encodeToString_ne_empty ?_ hempty
    intro hbytes
    have hlen := congrArg List.length hbytes
    simp at hlen
  · unfold Draw.slug Hex.encodeToString
    rw [String.toList_ofList, List.mem_map, List.mem_map]
    constructor
    · intro hmem
      obtain ⟨c, hc, heq⟩ := hmem
      exact (hdigits c (Hex.encode_subset _ c hc)).1 heq
    · intro hmem
      obtain ⟨c, hc, heq⟩ := hmem
      exact (hdigits c (Hex.encode_subset _ c hc)).2 heq

theorem takeWhile_to_dot {p : List Char} (hp : '.' ∉ p) (z : List Char) :
    (p ++ '.' :: z).takeWhile (· ≠ '.') = p ∧ p.takeWhile (· ≠ '.') = p := by
  have hall : ∀ c ∈ p, decide (c ≠ '.') = true := by
    intro c hc
    rw [decide_eq_true_eq]
    rintro rfl
    exact hp hc
  constructor
  · rw [List.takeWhile_append_of_pos hall, List.takeWhile_cons_of_neg (by simp), List.append_nil]
  · exact List.takeWhile_eq_self_iff.mpr hall

/-- A query for a name that starts with the slug and a dot is one for the slug. -/
theorem dnsToken_of_label (d : Draw) {name : String} {z : List Char}
    (hname : name.toList = d.slug.toList ++ '.' :: z) : dnsTokenFromQueryName name = d.slug := by
  obtain ⟨_, hdot, _⟩ := slug_chars d
  have htaken : ∀ l : List Char, l = d.slug.toList ∨ (∃ z, l = d.slug.toList ++ '.' :: z) →
      String.ofList (l.takeWhile (· ≠ '.')) = d.slug := by
    rintro l (rfl | ⟨z, rfl⟩)
    · rw [(takeWhile_to_dot hdot []).2, String.ofList_toList]
    · rw [(takeWhile_to_dot hdot z).1, String.ofList_toList]
  unfold dnsTokenFromQueryName
  rw [hname]
  apply htaken
  split
  -- the dot at the end is dropped, which may be the one after the slug
  · cases z with
    | nil => exact Or.inl (List.dropLast_concat)
    | cons c z => exact Or.inr ⟨(c :: z).dropLast, by rw [List.dropLast_append_cons, List.dropLast_cons_cons]⟩
  · exact Or.inr ⟨z, rfl⟩

theorem trimPrefix_append (pre s : String) : trimPrefix pre (pre ++ s) = s := by
  unfold trimPrefix
  rw [String.toList_append, if_pos (by simp), List.drop_left, String.ofList_toList]

/-- Paths with a last part each. -/
theorem path_inj {front back token other : List Char} (htoken : '/' ∉ token) (hother : '/' ∉ other)
    (heq : front ++ '/' :: token = back ++ '/' :: other) : front = back ∧ token = other := by
  have hreversed := congrArg List.reverse heq
  simp only [List.reverse_append, List.reverse_cons, List.append_assoc, List.singleton_append]
    at hreversed
  obtain ⟨hlast, hfront⟩ := (Civil.append_cons_inj_iff (by simpa using htoken)
    (by simpa using hother)).mp hreversed
  exact ⟨List.reverse_inj.mp hfront, List.reverse_inj.mp hlast⟩

/-- The token of an alert whose event is stored. -/
theorem alertToken_of_event {repo : Repository} {alert e : NetworkEvent}
    (hevent : repo.getEvent (text alert.metadata["trigger_id"]?) = some e) {slug : String} (hslug : slug ≠ "")
    (halert : (text alert.metadata["rule"]? = "DNS_CANARY_TRIGGERED"
        ∧ dnsTokenFromQueryName (text e.metadata["name"]?) = slug)
      ∨ (text alert.metadata["rule"]? = "HTTP_CANARY_TRIGGERED" ∧ text e.metadata["canary_token"]? = slug)) :
    alertToken repo alert = some slug := by
  unfold alertToken
  rcases halert with ⟨hrule, htoken⟩ | ⟨hrule, htoken⟩
  · simp [hrule, hevent, htoken, hslug]
  · simp [hrule, hevent, htoken, hslug]

/-- The pipeline leaves what the webhook wrote into the metadata. -/
theorem pushed_canaryToken (env : PushEnv) (e : NetworkEvent) :
    (pushNetworkEvent env e).event.metadata["canary_token"]? = e.metadata["canary_token"]? := by
  have henrich : ∀ normalizeIP stats (e : NetworkEvent),
      (enrich normalizeIP stats e).metadata["canary_token"]? = e.metadata["canary_token"]? := by
    intro normalizeIP stats e
    simp only [enrich]
    split
    · rfl
    · simp only [Std.ExtTreeMap.getElem?_insert, Std.compare_eq_iff_eq, String.reduceEq, if_false]
  unfold pushNetworkEvent
  cases env.stream with
  | none =>
    cases env.signed with
    | none => rfl
    | some signed => rfl
  | some stats =>
    cases env.signed with
    | none => exact henrich _ _ _
    | some signed => exact henrich _ _ _

theorem toList_webhookURL (baseURL path slug : String) : (webhookURL baseURL path slug).toList
    = (trimRightSlashes baseURL).toList ++ ('/' :: (trimSlashes path).toList ++ '/' :: slug.toList) := by
  have hslash : "/".toList = ['/'] := rfl
  unfold webhookURL
  simp only [String.toList_append, hslash, List.append_assoc, List.cons_append, List.nil_append]

theorem canaryWebhook_post {repo : Repository} {req : WebhookRequest} {token : String}
    (hmethod : req.method = "POST") (hpath : trimPrefix webhookPath req.path = token) (hne : token ≠ "")
    {ct : CanaryToken}
    (hfound : repo.findCanaryTokenByToken token = some ct) (now : Int) :
    canaryWebhook repo req now = (204, some (webhookEvent req token now)) := by
  unfold canaryWebhook
  rw [if_neg (by simp [hmethod])]
  simp only [hpath, if_neg hne, hfound]

end Owasaka.Canary
