import Owasaka.Foundation.Ascii
import Owasaka.Foundation.Lookup
import Owasaka.Foundation.System

/-! # The caching resolver (`network/dns/resolver.go`)

    `ServeDNS` answers the questions of a request one after another, from the cache or
    from the upstream server, and builds its reply out of their records.  A response
    is stored under the question that was forwarded, but what is forwarded is the whole
    request.

    Messages are those of `miekg/dns`, whose functions are a parameter, `Library`, with
    the behaviour that the code relies on in `Library.Lawful`.  Resource records are
    arbitrary. -/

namespace Owasaka.Dns

/-! ## Section 1: Messages -/

structure Question where
  name : Bytes
  qtype : UInt16
  qclass : UInt16
  deriving DecidableEq

/-- `dns.Msg`, as far as the resolver touches it. -/
structure Msg (RR : Type) where
  authoritative : Bool
  compress : Bool
  rcode : Nat
  question : List Question
  answer : List RR
  ns : List RR
  extra : List RR

def rcodeSuccess : Nat := 0

/-- The functions of the library that the code calls. -/
structure Library (RR : Type) where
  /-- `SetReply` on a new message. -/
  setReply : Msg RR → Msg RR
  copy : Msg RR → Msg RR
  /-- The message that `HandleFailed` writes. -/
  handleFailed : Msg RR → Msg RR
  /-- `Client.Exchange` with a server. -/
  exchange : String → Msg RR → Except String (Option (Msg RR))

variable {RR : Type}

/-- The three sections of records. -/
structure Sections (RR : Type) where
  answer : List RR
  ns : List RR
  extra : List RR
  deriving DecidableEq

def Msg.sections (m : Msg RR) : Sections RR := ⟨m.answer, m.ns, m.extra⟩

/-- The records of `m` and then those of `resp`. -/
def Msg.appendSections (m resp : Msg RR) : Msg RR :=
  { m with answer := m.answer ++ resp.answer, ns := m.ns ++ resp.ns, extra := m.extra ++ resp.extra }

/-- What the code relies on. -/
structure Library.Lawful (lib : Library RR) : Prop where
  setReply_rcode : ∀ req, (lib.setReply req).rcode = rcodeSuccess
  setReply_sections : ∀ req, (lib.setReply req).sections = ⟨[], [], []⟩
  copy : ∀ m, lib.copy m = m

/-! ## Section 2: The cache -/

/-- `config.DNSConfig`, as far as the resolver reads it. -/
structure DNSConfig where
  upstreamServers : List String
  cacheSize : Int
  cacheTTLSeconds : Int

structure CacheEntry (RR : Type) where
  msg : Msg RR
  expires : Int
  /-- The questions of the request that `msg` answers; kept for the proofs, read by no
      function. -/
  asked : List Question

abbrev Cache (RR : Type) : Type := Std.ExtTreeMap Bytes (CacheEntry RR)

def cacheKey (name : Bytes) (qtype : UInt16) : Bytes :=
  name ++ Bytes.ascii ":" ++ Bytes.decimal qtype.toNat

def evictExpired (now : Int) (cache : Cache RR) : Cache RR :=
  cache.filter fun _ entry => !(now > entry.expires)

def cacheLookup (lib : Library RR) (now : Int) (cache : Cache RR) (name : Bytes) (qtype : UInt16) :
    Option (Msg RR) :=
  match cache[cacheKey name qtype]? with
  | none => none
  | some entry => if now > entry.expires then none else some (lib.copy entry.msg)

/-- `cacheStore` of the response to the questions `asked`. -/
def cacheStore (lib : Library RR) (cfg : DNSConfig) (now : Int) (asked : List Question)
    (cache : Cache RR) (name : Bytes) (qtype : UInt16) (msg : Msg RR) : Cache RR :=
  let ttl := if cfg.cacheTTLSeconds ≤ 0 then 300 else cfg.cacheTTLSeconds
  let maxSize := if cfg.cacheSize ≤ 0 then 10000 else cfg.cacheSize
  if cache.size ≥ maxSize then cache
  else
    -- the product is that of `int64`
    cache.insert (cacheKey name qtype)
      ⟨lib.copy msg, now + (ttl * 10 ^ 9).bmod (2 ^ 64), asked⟩

/-! ## Section 3: The resolver -/

def forward (lib : Library RR) (cfg : DNSConfig) (req : Msg RR) : Except String (Option (Msg RR)) :=
  match cfg.upstreamServers with
  | [] => .error "no upstream servers configured"
  | upstream :: _ => lib.exchange upstream req

/-- The loop of `ServeDNS` over the questions: the message written and the cache.  The
    clock is read twice for the question at `i`, at the lookup and at the store. -/
def serveLoop (lib : Library RR) (cfg : DNSConfig) (clock : Nat → Int) (req : Msg RR) :
    Nat → List Question → Msg RR → Cache RR → Msg RR × Cache RR
  | _, [], msg, cache => (msg, cache)
  | i, q :: qs, msg, cache =>
    match cacheLookup lib (clock (2 * i)) cache q.name q.qtype with
    | some cached => serveLoop lib cfg clock req (i + 1) qs (msg.appendSections cached) cache
    | none =>
      match forward lib cfg req with
      | .error _ => (lib.handleFailed req, cache)
      | .ok none => serveLoop lib cfg clock req (i + 1) qs msg cache
      | .ok (some resp) =>
        serveLoop lib cfg clock req (i + 1) qs (msg.appendSections resp)
          (cacheStore lib cfg (clock (2 * i + 1)) req.question cache q.name q.qtype resp)

def serveDNS (lib : Library RR) (cfg : DNSConfig) (clock : Nat → Int) (req : Msg RR)
    (cache : Cache RR) : Msg RR × Cache RR :=
  let msg := { lib.setReply req with compress := false, authoritative := true }
  serveLoop lib cfg clock req 0 req.question msg cache

inductive Event (RR : Type) where
  | serveDNS (clock : Nat → Int) (req : Msg RR)
  | evictExpired (now : Int)

/-- Requests and evictions, from an empty cache. -/
def resolverSystem (lib : Library RR) (cfg : DNSConfig) : System (Cache RR) (Event RR) where
  init := fun cache => cache = ∅
  step := fun cache e cache' =>
    match e with
    | .serveDNS clock req => cache' = (serveDNS lib cfg clock req cache).2
    | .evictExpired now => cache' = evictExpired now cache

/-! ## Section 4: The upstream -/

/-- What an upstream that answers every question by itself gives. -/
structure Upstream (RR : Type) where
  answer : Question → List RR
  ns : Question → List RR
  extra : Question → List RR
  rcode : Question → Nat

/-- The records for several questions are those of each, one after another. -/
def Upstream.sections (up : Upstream RR) (qs : List Question) : Sections RR :=
  ⟨qs.flatMap up.answer, qs.flatMap up.ns, qs.flatMap up.extra⟩

/-- Every server answers every request. -/
def Upstream.Answers (up : Upstream RR) (lib : Library RR) : Prop :=
  ∀ server req, ∃ resp, lib.exchange server req = .ok (some resp)
    ∧ resp.sections = up.sections req.question
    ∧ ∀ q, req.question = [q] → resp.rcode = up.rcode q

/-- The reply carries the records and the Rcode of the upstream for the question. -/
def Exact (up : Upstream RR) (q : Question) (reply : Msg RR) : Prop :=
  reply.sections = up.sections [q] ∧ reply.rcode = up.rcode q

/-- A live entry under the key of the question holds the records of the question. -/
def LiveEntryFits (up : Upstream RR) (now : Int) (q : Question) (cache : Cache RR) : Prop :=
  ∀ entry, cache[cacheKey q.name q.qtype]? = some entry → ¬ now > entry.expires →
    up.sections entry.asked = up.sections [q]

/-- Every entry holds the response to a request with a question of its key. -/
def Inv (up : Upstream RR) (cache : Cache RR) : Prop :=
  ∀ (key : Bytes) entry, cache[key]? = some entry →
    entry.msg.sections = up.sections entry.asked ∧ ∃ q ∈ entry.asked, cacheKey q.name q.qtype = key

variable {lib : Library RR} {cfg : DNSConfig} {up : Upstream RR} {cache : Cache RR} {now : Int}
  {clock : Nat → Int} {req : Msg RR} {q : Question}

/-- An entry after `cacheStore` was there before or is the new one. -/
theorem cacheStore_cases {asked : List Question} {name : Bytes} {qtype : UInt16} {msg : Msg RR}
    {key : Bytes} {entry : CacheEntry RR}
    (hget : (cacheStore lib cfg now asked cache name qtype msg)[key]? = some entry) :
    cache[key]? = some entry
      ∨ (cacheKey name qtype = key ∧ entry.msg = lib.copy msg ∧ entry.asked = asked) := by
  simp only [cacheStore] at hget
  generalize (if cfg.cacheSize ≤ 0 then 10000 else cfg.cacheSize) = maxSize at hget
  by_cases hfull : cache.size ≥ maxSize
  · rw [if_pos hfull] at hget
    exact .inl hget
  · rw [if_neg hfull] at hget
    rcases getElem?_insert_cases hget with ⟨rfl, rfl⟩ | ⟨_, hget⟩
    · exact .inr ⟨rfl, rfl, rfl⟩
    · exact .inl hget

theorem Inv.after_store (h : Inv up cache) (hlib : lib.Lawful) {asked : List Question} (hq : q ∈ asked)
    {resp : Msg RR} (hresp : resp.sections = up.sections asked) :
    Inv up (cacheStore lib cfg now asked cache q.name q.qtype resp) := by
  intro key entry hget
  rcases cacheStore_cases hget with hold | ⟨hkey, hmsg, hasked⟩
  · exact h key entry hold
  · rw [hmsg, hlib.copy, hasked]
    exact ⟨hresp, q, hq, hkey⟩

theorem Inv.after_evict (h : Inv up cache) : Inv up (evictExpired now cache) := by
  intro key entry hget
  rw [evictExpired, Std.ExtTreeMap.getElem?_filter, Option.pfilter_eq_some_iff] at hget
  obtain ⟨hget, _⟩ := hget
  exact h key entry hget

theorem forward_ok (hup : up.Answers lib) (hservers : cfg.upstreamServers ≠ []) (req : Msg RR) :
    ∃ resp, forward lib cfg req = .ok (some resp) ∧ resp.sections = up.sections req.question
      ∧ ∀ q, req.question = [q] → resp.rcode = up.rcode q := by
  unfold forward
  cases hcfg : cfg.upstreamServers with
  | nil => exact absurd hcfg hservers
  | cons server _ => exact hup server req

/-- **Step lemma**: a request keeps the invariant. -/
theorem Inv.after_serveLoop (h : Inv up cache) (hlib : lib.Lawful) (hup : up.Answers lib)
    (hservers : cfg.upstreamServers ≠ []) {qs : List Question} (hqs : ∀ q ∈ qs, q ∈ req.question)
    (i : Nat) (msg : Msg RR) : Inv up (serveLoop lib cfg clock req i qs msg cache).2 := by
  induction qs generalizing i msg cache with
  | nil => exact h
  | cons q qs ih =>
    have hrest : ∀ q ∈ qs, q ∈ req.question := fun q hq => hqs q (List.mem_cons_of_mem _ hq)
    unfold serveLoop
    cases cacheLookup lib (clock (2 * i)) cache q.name q.qtype with
    | some cached => exact ih h hrest (i + 1) _
    | none =>
      obtain ⟨resp, hforward, hresp, _⟩ := forward_ok hup hservers req
      simp only [hforward]
      exact ih (h.after_store hlib (hqs q List.mem_cons_self) hresp) hrest (i + 1) _

/-- **Run lemma**: the invariant holds in every history. -/
theorem reachable_inv (hlib : lib.Lawful) (hup : up.Answers lib) (hservers : cfg.upstreamServers ≠ [])
    (hreach : (resolverSystem lib cfg).Reachable cache) : Inv up cache := by
  refine System.Reachable.invariant (P := Inv up) ?_ ?_ hreach
  · rintro _ rfl key entry hget
    simp at hget
  · intro cache e cache' h hstep
    cases e with
    | serveDNS clock req =>
      obtain rfl := hstep
      exact h.after_serveLoop hlib hup hservers (fun _ hq => hq) 0 _
    | evictExpired now =>
      obtain rfl := hstep
      exact h.after_evict

/-! ## Section 5: The reply to one question -/

theorem appendSections_of_empty {m resp : Msg RR} (hempty : m.sections = ⟨[], [], []⟩) :
    (m.appendSections resp).sections = resp.sections := by
  simp only [Msg.sections, Sections.mk.injEq] at hempty
  simp only [Msg.sections, Msg.appendSections, hempty, List.nil_append]

/-- A request with one question: the Rcode of the reply is always that of success, and its
    records are those of the upstream unless a live entry holds others. -/
theorem Inv.serveDNS_one (h : Inv up cache) (hlib : lib.Lawful) (hup : up.Answers lib)
    (hservers : cfg.upstreamServers ≠ []) (hreq : req.question = [q]) :
    (serveDNS lib cfg clock req cache).1.rcode = rcodeSuccess
      ∧ ((serveDNS lib cfg clock req cache).1.sections = up.sections [q]
        ↔ LiveEntryFits up (clock 0) q cache) := by
  obtain ⟨resp, hforward, hresp, _⟩ := forward_ok hup hservers req
  have hempty : Msg.sections { lib.setReply req with compress := false, authoritative := true }
      = ⟨[], [], []⟩ := hlib.setReply_sections req
  have hrcode := hlib.setReply_rcode req
  -- no entry, an expired one or a live one: only the last is not asked upstream
  rw [serveDNS, hreq, serveLoop]
  cases hget : cache[cacheKey q.name q.qtype]? with
  | none =>
    simp only [cacheLookup, hget, hforward, serveLoop]
    refine ⟨hrcode, iff_of_true ?_ ?_⟩
    · rw [appendSections_of_empty hempty, hresp, hreq]
    · intro entry hentry
      rw [hget] at hentry
      contradiction
  | some entry =>
    by_cases hexpired : clock 0 > entry.expires
    · simp only [cacheLookup, hget, Nat.mul_zero, if_pos hexpired, hforward, serveLoop]
      refine ⟨hrcode, iff_of_true ?_ ?_⟩
      · rw [appendSections_of_empty hempty, hresp, hreq]
      · intro entry' hentry hlive
        rw [hget] at hentry
        exact absurd (Option.some.inj hentry ▸ hexpired) hlive
    · simp only [cacheLookup, hget, Nat.mul_zero, if_neg hexpired, serveLoop]
      refine ⟨hrcode, ?_⟩
      rw [appendSections_of_empty hempty, hlib.copy, (h _ entry hget).1]
      constructor
      · intro heq entry' hentry _
        rw [hget] at hentry
        exact Option.some.inj hentry ▸ heq
      · exact fun hall => hall entry hget hexpired

/-- In every history, a request with one question gets the records and the Rcode of the
    upstream if and only if that Rcode is NOERROR and a live entry under the question's
    name and type was asked for with the same records as the question. -/
theorem serveDNS_exact_iff (hlib : lib.Lawful) (hup : up.Answers lib)
    (hservers : cfg.upstreamServers ≠ []) (hreach : (resolverSystem lib cfg).Reachable cache)
    (hreq : req.question = [q]) :
    Exact up q (serveDNS lib cfg clock req cache).1
      ↔ up.rcode q = rcodeSuccess ∧ LiveEntryFits up (clock 0) q cache := by
  obtain ⟨hrcode, hsections⟩ :=
    (reachable_inv hlib hup hservers hreach).serveDNS_one hlib hup hservers hreq
  rw [Exact, hrcode, hsections, and_comm, eq_comm]

/-! ## Section 6: Requests with one question -/

/-- The key holds name and type: the type follows the last colon. -/
theorem cacheKey_inj {name name' : Bytes} {qtype qtype' : UInt16}
    (heq : cacheKey name qtype = cacheKey name' qtype') : name = name' ∧ qtype = qtype' := by
  rw [cacheKey, cacheKey, List.append_assoc, List.append_assoc] at heq
  obtain ⟨hname, htype⟩ := @Bytes.append_decimal_inj _ _ 0x3a _ _ (by decide) heq
  exact ⟨hname, UInt16.toNat_inj.mp htype⟩

def classINET : UInt16 := 1

/-- At most one question, of the class IN. -/
def OneQuestion (_ : Cache RR) (e : Event RR) : Prop :=
  ∀ clock req, e = .serveDNS clock req →
    req.question = [] ∨ ∃ q, req.question = [q] ∧ q.qclass = classINET

/-- Every entry holds the response to its one question. -/
def OneAsked (cache : Cache RR) : Prop :=
  ∀ (key : Bytes) entry, cache[key]? = some entry →
    ∃ q, entry.asked = [q] ∧ q.qclass = classINET ∧ cacheKey q.name q.qtype = key

theorem OneAsked.liveEntryFits (h : OneAsked cache) (hclass : q.qclass = classINET) :
    LiveEntryFits up now q cache := by
  intro entry hget _
  obtain ⟨q', hasked, hclass', hkey⟩ := h _ entry hget
  obtain ⟨hname, htype⟩ := cacheKey_inj hkey
  have hsame : q' = q := by
    cases q
    cases q'
    simp_all
  rw [hasked, hsame]

theorem OneAsked.after_serveDNS (h : OneAsked cache) (hup : up.Answers lib)
    (hservers : cfg.upstreamServers ≠ [])
    (hreq : req.question = [] ∨ ∃ q, req.question = [q] ∧ q.qclass = classINET) :
    OneAsked (serveDNS lib cfg clock req cache).2 := by
  rcases hreq with hnone | ⟨q, hone, hclass⟩
  · rw [serveDNS, hnone]
    exact h
  · rw [serveDNS, hone, serveLoop]
    obtain ⟨resp, hforward, _, _⟩ := forward_ok hup hservers req
    cases cacheLookup lib (clock (2 * 0)) cache q.name q.qtype with
    | some cached => exact h
    | none =>
      simp only [hforward, serveLoop]
      intro key entry hget
      rcases cacheStore_cases hget with hold | ⟨hkey, _, hasked⟩
      · exact h key entry hold
      · exact ⟨q, hasked.trans hone, hclass, hkey⟩

/-- When every request of the history has one question of the class IN, a reply carries
    what the upstream gives, but for an Rcode that is not NOERROR. -/
theorem oneQuestion_exact_iff (hlib : lib.Lawful) (hup : up.Answers lib)
    (hservers : cfg.upstreamServers ≠ [])
    (hreach : ((resolverSystem lib cfg).restrict OneQuestion).Reachable cache)
    (hreq : req.question = [q]) (hclass : q.qclass = classINET) :
    (serveDNS lib cfg clock req cache).1.sections = up.sections [q]
      ∧ (Exact up q (serveDNS lib cfg clock req cache).1 ↔ up.rcode q = rcodeSuccess) := by
  have hboth : Inv up cache ∧ OneAsked cache := by
    refine System.Reachable.invariant (P := fun cache => Inv up cache ∧ OneAsked cache) ?_ ?_ hreach
    · rintro _ rfl
      exact ⟨fun key entry hget => by simp at hget, fun key entry hget => by simp at hget⟩
    · rintro cache e cache' ⟨h, hone⟩ ⟨hplain, hstep⟩
      cases e with
      | serveDNS clock req =>
        obtain rfl := hstep
        exact ⟨h.after_serveLoop hlib hup hservers (fun _ hq => hq) 0 _,
          hone.after_serveDNS hup hservers (hplain clock req rfl)⟩
      | evictExpired now =>
        obtain rfl := hstep
        refine ⟨h.after_evict, ?_⟩
        intro key entry hget
        rw [evictExpired, Std.ExtTreeMap.getElem?_filter, Option.pfilter_eq_some_iff] at hget
        obtain ⟨hget, _⟩ := hget
        exact hone key entry hget
  obtain ⟨hrcode, hsections⟩ := hboth.1.serveDNS_one hlib hup hservers hreq
  have hfits := hsections.mpr (hboth.2.liveEntryFits hclass)
  exact ⟨hfits, by rw [Exact, hrcode, and_iff_right hfits, eq_comm]⟩

/-! ## Section 7: Replies that differ -/

/-- The library with an upstream. -/
def Upstream.library (up : Upstream RR) : Library RR where
  setReply := fun req => ⟨false, false, rcodeSuccess, req.question.take 1, [], [], []⟩
  copy := id
  handleFailed := fun req => ⟨false, false, 2, req.question.take 1, [], [], []⟩
  exchange := fun _ req =>
    let rcode :=
      match req.question with
      | [q] => up.rcode q
      | _ => rcodeSuccess
    .ok (some ⟨false, false, rcode, req.question, req.question.flatMap up.answer,
      req.question.flatMap up.ns, req.question.flatMap up.extra⟩)

theorem Upstream.library_lawful (up : Upstream RR) : up.library.Lawful :=
  ⟨fun _ => rfl, fun _ => rfl, fun _ => rfl⟩

theorem Upstream.library_answers (up : Upstream RR) : up.Answers up.library := by
  intro server req
  refine ⟨_, rfl, rfl, ?_⟩
  intro q hq
  simp only [hq]

/-- Two names with one address each; other names do not exist. -/
def zone : Upstream String where
  answer := fun q =>
    if q.name = Bytes.ascii "a.example." then ["a.example. A 192.0.2.1"]
    else if q.name = Bytes.ascii "b.example." then ["b.example. A 192.0.2.2"]
    else []
  ns := fun _ => []
  extra := fun _ => []
  rcode := fun q =>
    if q.name = Bytes.ascii "a.example." ∨ q.name = Bytes.ascii "b.example." then rcodeSuccess else 3

def zoneConfig : DNSConfig := ⟨["192.0.2.53:53"], 10000, 300⟩

def addressOf (name : String) : Question := ⟨Bytes.ascii name, 1, classINET⟩

def query (qs : List Question) : Msg String := ⟨false, false, rcodeSuccess, qs, [], [], []⟩

/-- The cache after one request for both names. -/
def pairCache : Cache String :=
  (serveDNS zone.library zoneConfig (fun _ => 0)
    (query [addressOf "a.example.", addressOf "b.example."]) ∅).2

theorem pairCache_reachable : (resolverSystem zone.library zoneConfig).Reachable pairCache := by
  have hempty : (resolverSystem zone.library zoneConfig).Reachable ∅ := System.Reachable.init rfl
  exact hempty.tail
    (l := .serveDNS (fun _ => 0) (query [addressOf "a.example.", addressOf "b.example."])) rfl

theorem serveDNS_exact_iff_pair :
    Exact zone (addressOf "a.example.") (serveDNS zone.library zoneConfig (fun _ => 0)
        (query [addressOf "a.example."]) pairCache).1
      ↔ zone.rcode (addressOf "a.example.") = rcodeSuccess
        ∧ LiveEntryFits zone 0 (addressOf "a.example.") pairCache :=
  serveDNS_exact_iff zone.library_lawful zone.library_answers (by decide) pairCache_reachable rfl

/-- A later request for one of the names gets the records of both, and a name that does
    not exist gets NOERROR. -/
theorem reply_not_exact :
    (resolverSystem zone.library zoneConfig).Reachable pairCache
      ∧ (serveDNS zone.library zoneConfig (fun _ => 0) (query [addressOf "a.example."]) pairCache).1.answer
        = ["a.example. A 192.0.2.1", "b.example. A 192.0.2.2"]
      ∧ ¬ Exact zone (addressOf "a.example.") (serveDNS zone.library zoneConfig (fun _ => 0)
          (query [addressOf "a.example."]) pairCache).1
      ∧ ¬ Exact zone (addressOf "x.example.") (serveDNS zone.library zoneConfig (fun _ => 0)
          (query [addressOf "x.example."]) ∅).1 := by
  have hpair : (serveDNS zone.library zoneConfig (fun _ => 0)
      (query [addressOf "a.example."]) pairCache).1.answer
        = ["a.example. A 192.0.2.1", "b.example. A 192.0.2.2"] := by decide +kernel
  refine ⟨pairCache_reachable, hpair, ?_, ?_⟩
  · intro hexact
    have hanswer := congrArg Sections.answer hexact.1
    rw [Msg.sections, hpair] at hanswer
    exact absurd hanswer (by decide +kernel)
  · intro hexact
    exact absurd hexact.2 (by decide +kernel)

end Owasaka.Dns
