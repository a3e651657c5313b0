import Owasaka.Events.OneContent

/-! # Critical events in the transparency log

    `PushNetworkEvent` appends the canonical bytes of a critical event to the log.  The
    comment of `Leaf` says that the payload of a signed event is
    `CanonicalBytes() ++ Signature`, so that a leaf can be verified alone.

    The leaves are in push order, one for each critical event (`leaves_of_pushAll`), but
    none of them carries a signature: a run logs what the comment says exactly when none
    of its events is critical. -/

namespace Owasaka.Events.Stored

open JsonText Pki Transparency

/-! ## Section 1: Runs -/

/-- Calls one after the other: each event as it was pushed, with what its call did. -/
def pushAll (ed : SignatureScheme) (json : LeafJson) :
    PipelineState → List (PushEnv × SharedEvent) → Option (PipelineState × List (NetworkEvent × Pushed))
  | s, [] => some (s, [])
  | s, (env, e) :: calls =>
    match pushNetworkEvent ed json env s e with
    | none => none
    | some r =>
      match pushAll ed json r.state calls with
      | none => none
      | some (s', trace) => some (s', (e.read s.heap, r) :: trace)

/-- The signed events that are critical, in push order. -/
def criticalEvents (trace : List (NetworkEvent × Pushed)) : List NetworkEvent :=
  (trace.map fun c => c.2.event).filter isCriticalEvent

/-- Between the two states the log grew by one leaf for each critical event, in push
    order, whose payload is the canonical bytes and the signature of the event that is
    stored under its ID. -/
structure SelfContained (json : LeafJson) (s s' : PipelineState) (trace : List (NetworkEvent × Pushed)) :
    Prop where
  size : s'.log.tree.size = s.log.tree.size + (criticalEvents trace).length
  leaf : ∀ i e, (criticalEvents trace)[i]? = some e →
    ∃ leaf stored canonical, s'.log.tree.leafAt json s'.log.db (s.log.tree.size + i) = some (.ok leaf)
      ∧ getEvent s'.events e.id = some stored ∧ stored.canonicalBytes = some canonical
      ∧ leaf.payload = canonical ++ stored.signature

section Run

variable {ed : SignatureScheme} {json : LeafJson} {env : PushEnv} {s s' : PipelineState} {e : SharedEvent}
  {r : Pushed} {calls : List (PushEnv × SharedEvent)} {trace : List (NetworkEvent × Pushed)}
  {log : List (Bytes × Leaf)}

theorem pushAll_cons (hrun : pushAll ed json s ((env, e) :: calls) = some (s', trace)) :
    ∃ r rest, pushNetworkEvent ed json env s e = some r ∧ pushAll ed json r.state calls = some (s', rest)
      ∧ trace = (e.read s.heap, r) :: rest := by
  rw [pushAll] at hrun
  split at hrun
  · simp at hrun
  · next r hpush =>
    split at hrun
    · simp at hrun
    · next s'' rest hrest =>
      rw [Option.some.injEq, Prod.mk.injEq] at hrun
      obtain ⟨rfl, rfl⟩ := hrun
      exact ⟨r, rest, hpush, hrest, rfl⟩

/-! ## Section 2: One call -/

/-- The events to log of one call. -/
def NetworkEvent.critical (e : NetworkEvent) : List NetworkEvent := if isCriticalEvent e then [e] else []

/-- **Step lemma**: a call appends the canonical bytes of a critical event, and nothing
    else. -/
theorem appendStage_leaves (hjson : json.RoundTripsPayload) {log' : LogState} {x : NetworkEvent}
    (hin : InStep json s.log log) (hset : env.transparency.isSome = true)
    (happend : appendStage json env s.log x = some (log', [])) :
    ∃ leaves, InStep json log' (log ++ leaves)
      ∧ List.Forall₂ (fun leaf y => NetworkEvent.canonicalBytes y = some leaf.2.payload) leaves x.critical := by
  obtain ⟨fault, hfault⟩ := Option.isSome_iff_exists.mp hset
  unfold appendStage at happend
  rw [hfault] at happend
  dsimp only at happend
  rw [NetworkEvent.critical]
  split at happend
  · next hcritical =>
    rw [if_pos hcritical]
    cases hcanonical : x.canonicalBytes with
    | none => simp [hcanonical] at happend
    | some canonical =>
      rw [hcanonical] at happend
      dsimp only at happend
      split at happend
      · simp at happend
      · simp at happend
      · next tree db happendBytes =>
        obtain ⟨⟨result, tree', db'⟩, happ, hmap⟩ := Option.map_eq_some_iff.mp happendBytes
        rw [Prod.mk.injEq, Prod.mk.injEq] at hmap
        obtain ⟨hresult, rfl, rfl⟩ := hmap
        -- the stage reports no error, so the append ended in none
        rcases Tree.append_cases happ with ⟨err, _, rfl, _, _⟩ | ⟨raw, _, hmarshal, _, hhashes, rfl⟩
        · simp [Except.map] at hresult
        · obtain ⟨leaf, hpayload, hin'⟩ := hin.append hjson hmarshal hhashes
          rw [Option.some.injEq, Prod.mk.injEq] at happend
          rw [← happend.1]
          refine ⟨[(raw, leaf)], hin', .cons ?_ .nil⟩
          rw [hcanonical, hpayload]
  · next hcritical =>
    rw [if_neg hcritical]
    rw [Option.some.injEq, Prod.mk.injEq] at happend
    refine ⟨[], ?_, .nil⟩
    rw [List.append_nil, ← happend.1]
    exact hin

theorem persistStage_ok {events : Bolt.Bucket} {x : NetworkEvent} (hrepo : env.repo = true)
    (hok : (persistStage env events x).2.2 = []) :
    logEvent events x = some (persistStage env events x).1 := by
  unfold persistStage at hok ⊢
  rw [if_pos hrepo] at hok ⊢
  split at hok
  · simp at hok
  · next events' hlog => exact hlog

/-- A call without errors, with signer, log and repository set. -/
structure PushOk (ed : SignatureScheme) (json : LeafJson) (s : PipelineState) (c : PushEnv × SharedEvent)
    (r : Pushed) : Prop where
  push : pushNetworkEvent ed json c.1 s c.2 = some r
  signer : c.1.signer.isSome = true
  transparency : c.1.transparency.isSome = true
  repo : c.1.repo = true
  errors : r.errors = []

/-- What such a call leaves behind. -/
theorem PushOk.effects (hsized : ed.Sized) (hjson : json.RoundTripsPayload) (hin : InStep json s.log log)
    (hok : PushOk ed json s (env, e) r) :
    (∃ leaves, InStep json r.state.log (log ++ leaves)
        ∧ List.Forall₂ (fun leaf y => NetworkEvent.canonicalBytes y = some leaf.2.payload) leaves
          r.event.critical)
      ∧ logEvent s.events r.event = some r.state.events ∧ r.event.signature ≠ [] := by
  obtain ⟨log', appendErrors, happend, signed, hsign, hevent, _, _, herrors, hlog, hevents⟩ :=
    pushNetworkEvent_eq_some hok.push
  have hempty := hok.errors
  rw [herrors, List.append_eq_nil_iff, List.append_eq_nil_iff] at hempty
  obtain ⟨⟨hsignErrors, rfl⟩, hpersistErrors⟩ := hempty
  obtain ⟨keys, hkeys⟩ := Option.isSome_iff_exists.mp hok.signer
  refine ⟨?_, ?_, ?_⟩
  · rw [hlog]
    exact appendStage_leaves hjson hin hok.transparency happend
  · rw [hevents]
    exact persistStage_ok hok.repo hpersistErrors
  · rw [← hsign] at hsignErrors
    have hnone : ∀ err, PushError.sign err ∉ (signStage ed env
        (enrichStage env s.heap (hydrate env e)).1 (enrichStage env s.heap (hydrate env e)).2).2 := by
      intro err hmem
      rw [hsignErrors] at hmem
      simp at hmem
    obtain ⟨kp, canonical, _, _, hcopy⟩ := signStage_of_ok hkeys hnone
    rw [hevent, ← hsign, hcopy]
    exact hsized.ne_nil _ _

/-! ## Section 3: What decides whether an event is critical -/

theorem isCriticalEvent_congr {x y : NetworkEvent} (htype : x.type = y.type)
    (hseverity : x.get "compliance_severity" = y.get "compliance_severity")
    (hpassed : x.get "compliance_passed" = y.get "compliance_passed") :
    isCriticalEvent x = isCriticalEvent y := by
  unfold isCriticalEvent
  rw [htype, hseverity, hpassed]

/-- `Sign` only touches the signature. -/
theorem signStage_read (ed : SignatureScheme) (env : PushEnv) (e : SharedEvent) (h h' : Heap) : ∃ sig kid,
    (signStage ed env h e).1.read h' = (e.read h').withSignature sig kid := by
  unfold signStage
  split
  · exact ⟨e.signature, e.signerKeyID, rfl⟩
  · split
    · next signed _ => exact ⟨signed.signature, signed.signerKeyID, rfl⟩
    · exact ⟨[], [], rfl⟩
    · exact ⟨e.signature, e.signerKeyID, rfl⟩

theorem get_read (h : Heap) (key : String) :
    (e.read h).get key = e.metadata.bind fun ref => valueAt (h.maps ref) (Bytes.ascii key) := by
  rw [NetworkEvent.get, SharedEvent.read]
  cases e.metadata <;> rfl

/-- An event is critical when it was critical as it was pushed. -/
theorem isCriticalEvent_of_push (hpush : pushNetworkEvent ed json env s e = some r) :
    isCriticalEvent r.event = isCriticalEvent (e.read s.heap) := by
  obtain ⟨_, _, _, signed, hsign, hevent, _⟩ := pushNetworkEvent_eq_some hpush
  obtain ⟨htype, _, _, hnone⟩ := enrichStage_fields env s.heap (hydrate env e)
  have hget : ∀ key : String, (∀ stats : WindowStats, Bytes.ascii key ∉ stats.entries.map Prod.fst) →
      ((enrichStage env s.heap (hydrate env e)).2.read (enrichStage env s.heap (hydrate env e)).1).get key
        = (e.read s.heap).get key := by
    intro key hkey
    rw [get_read, get_read]
    cases hmetadata : (enrichStage env s.heap (hydrate env e)).2.metadata with
    | none =>
      rw [show e.metadata = none from (hnone.mp hmetadata).1]
      rfl
    | some ref =>
      rw [Option.bind_some, enrichStage_valueAt hmetadata hkey]
      rfl
  obtain ⟨sig, kid, hread⟩ := signStage_read ed env
    (enrichStage env s.heap (hydrate env e)).2 (enrichStage env s.heap (hydrate env e)).1
    (enrichStage env s.heap (hydrate env e)).1
  rw [hevent, ← hsign, hread]
  refine isCriticalEvent_congr htype ?_ ?_
  · exact hget "compliance_severity" (by intro stats; simp +decide [WindowStats.entries])
  · exact hget "compliance_passed" (by intro stats; simp +decide [WindowStats.entries])

/-! ## Section 4: Runs of calls -/

/-- A run without errors, with signer, log and repository set in every call. -/
def RunOk (ed : SignatureScheme) (json : LeafJson) :
    PipelineState → List (PushEnv × SharedEvent) → List (NetworkEvent × Pushed) → PipelineState → Prop
  | s, [], trace, s' => trace = [] ∧ s' = s
  | s, c :: calls, trace, s' => ∃ r rest, trace = (c.2.read s.heap, r) :: rest ∧ PushOk ed json s c r
      ∧ RunOk ed json r.state calls rest s'

theorem runOk_of_pushAll (hrun : pushAll ed json s calls = some (s', trace))
    (hset : ∀ c ∈ calls, c.1.signer.isSome = true ∧ c.1.transparency.isSome = true ∧ c.1.repo = true)
    (hok : ∀ c ∈ trace, c.2.errors = []) : RunOk ed json s calls trace s' := by
  induction calls generalizing s trace with
  | nil =>
    rw [pushAll, Option.some.injEq, Prod.mk.injEq] at hrun
    exact ⟨hrun.2.symm, hrun.1.symm⟩
  | cons c calls ih =>
    obtain ⟨env, e⟩ := c
    obtain ⟨r, rest, hpush, hrest, rfl⟩ := pushAll_cons hrun
    obtain ⟨hsigner, htransparency, hrepo⟩ := hset (env, e) List.mem_cons_self
    refine ⟨r, rest, rfl, ⟨hpush, hsigner, htransparency, hrepo, hok _ List.mem_cons_self⟩, ?_⟩
    exact ih hrest (fun c hc => hset c (List.mem_cons_of_mem _ hc))
      (fun c hc => hok c (List.mem_cons_of_mem _ hc))

/-- **Run lemma**: the leaves of a run are the canonical bytes of its critical events, in
    push order. -/
theorem leaves_of_run (hsized : ed.Sized) (hjson : json.RoundTripsPayload) (hin : InStep json s.log log)
    (hrun : RunOk ed json s calls trace s') :
    ∃ leaves, InStep json s'.log (log ++ leaves)
      ∧ List.Forall₂ (fun leaf y => NetworkEvent.canonicalBytes y = some leaf.2.payload) leaves
        (criticalEvents trace) := by
  induction calls generalizing s trace log with
  | nil =>
    obtain ⟨rfl, rfl⟩ := hrun
    exact ⟨[], by rwa [List.append_nil], .nil⟩
  | cons c calls ih =>
    obtain ⟨r, rest, rfl, hpush, hrest⟩ := hrun
    obtain ⟨⟨leaves, hin', hleaves⟩, _, _⟩ := hpush.effects hsized hjson hin
    obtain ⟨more, hin'', hmore⟩ := ih hin' hrest
    refine ⟨leaves ++ more, by rwa [← List.append_assoc], ?_⟩
    have hsplit : criticalEvents ((c.2.read s.heap, r) :: rest) = r.event.critical ++ criticalEvents rest := by
      rw [criticalEvents, List.map_cons, List.filter_cons, NetworkEvent.critical]
      split <;> rfl
    rw [hsplit]
    exact List.rel_append hleaves hmore

/-- Storing an event leaves the others alone. -/
theorem getEvent_logEvent {events events' : Bolt.Bucket} {x : NetworkEvent} {id : Bytes}
    (hlog : logEvent events x = some events') (hne : id ≠ x.id) : getEvent events' id = getEvent events id := by
  unfold logEvent at hlog
  split at hlog
  · simp at hlog
  · split at hlog
    · simp at hlog
    · rw [← Option.some.inj hlog, getEvent, getEvent, getElem?_insert_ite, if_neg hne]

theorem getEvent_of_run (hsized : ed.Sized) (hjson : json.RoundTripsPayload) (hin : InStep json s.log log)
    (hrun : RunOk ed json s calls trace s') {id : Bytes} (hid : id ∉ trace.map fun c => c.2.event.id) :
    getEvent s'.events id = getEvent s.events id := by
  induction calls generalizing s trace log with
  | nil =>
    obtain ⟨_, rfl⟩ := hrun
    rfl
  | cons c calls ih =>
    obtain ⟨r, rest, rfl, hpush, hrest⟩ := hrun
    rw [List.map_cons, List.mem_cons, not_or] at hid
    obtain ⟨⟨leaves, hin', _⟩, hlog, _⟩ := hpush.effects hsized hjson hin
    rw [ih hin' hrest hid.2, getEvent_logEvent hlog hid.1]

/-- With distinct IDs, what is read under the ID of an event carries its signature. -/
theorem signature_of_run (hsized : ed.Sized) (hjson : json.RoundTripsPayload) (hin : InStep json s.log log)
    (hrun : RunOk ed json s calls trace s') (hids : (trace.map fun c => c.2.event.id).Nodup)
    {c : NetworkEvent × Pushed} (hc : c ∈ trace) {stored : NetworkEvent}
    (hstored : getEvent s'.events c.2.event.id = some stored) : stored.signature ≠ [] := by
  induction calls generalizing s trace log with
  | nil =>
    obtain ⟨rfl, _⟩ := hrun
    simp at hc
  | cons call calls ih =>
    obtain ⟨r, rest, rfl, hpush, hrest⟩ := hrun
    rw [List.map_cons, List.nodup_cons] at hids
    obtain ⟨⟨leaves, hin', _⟩, hlog, hsig⟩ := hpush.effects hsized hjson hin
    rcases List.mem_cons.mp hc with rfl | hc
    · -- later calls have other IDs
      rw [getEvent_of_run hsized hjson hin' hrest hids.1] at hstored
      obtain ⟨data, hdata, hread⟩ := logEvent_eq_some hlog
      obtain ⟨metadata, ts, hmetadata, hts, rfl⟩ := marshal_eq_some.mp hdata
      obtain ⟨_, m, _, rfl⟩ := (unmarshal_render hmetadata hts _).mp ((hread stored).mp hstored)
      exact hsig
    · exact ih hin' hrest hids.2 hc

/-- The canonical bytes of one event are not those of another with something behind
    them. -/
theorem canonicalBytes_ne_append {x y : NetworkEvent} {canonical rest : Bytes}
    (hx : x.canonicalBytes = some canonical) (hy : y.canonicalBytes = some (canonical ++ rest)) :
    rest = [] := by
  obtain ⟨metadata, ts, hmetadata, hts, rfl⟩ := marshal_eq_some.mp hx
  obtain ⟨metadata', ts', hmetadata', hts', heq⟩ := marshal_eq_some.mp hy
  obtain ⟨_, hproper⟩ := document_proper (e := x.signable) hmetadata hts
  obtain ⟨_, hproper'⟩ := document_proper (e := y.signable) hmetadata' hts'
  exact eq_nil_of_render_obj hproper hproper' heq

/-- A run with a critical event does not log what the comment of `Leaf` says. -/
theorem not_selfContained_of_critical (hsized : ed.Sized) (hjson : json.RoundTripsPayload)
    (hin : InStep json s.log log) (hrun : RunOk ed json s calls trace s')
    (hids : (trace.map fun c => c.2.event.id).Nodup) {x : NetworkEvent} (hx : x ∈ criticalEvents trace) :
    ¬ SelfContained json s s' trace := by
  intro hself
  obtain ⟨i, hi⟩ := List.mem_iff_getElem?.mp hx
  obtain ⟨leaf, stored, canonical, hleaf, hstored, hcanonical, hpayload⟩ := hself.leaf i x hi
  obtain ⟨leaves, hin', hleaves⟩ := leaves_of_run hsized hjson hin hrun
  obtain ⟨c, hc, rfl⟩ := List.mem_map.mp (List.mem_filter.mp hx).1
  obtain ⟨hlength, hrel⟩ := List.forall₂_iff_get.mp hleaves
  obtain ⟨hcrit, hget⟩ := List.getElem?_eq_some_iff.mp hi
  have hlt : i < leaves.length := hlength ▸ hcrit
  have hsame : c.2.event.canonicalBytes = some leaf.payload := by
    have hlogged : (log ++ leaves)[s.log.tree.size + i]? = some leaves[i] := by
      rw [hin.size_eq, List.getElem?_append_right (by omega), Nat.add_sub_cancel_left,
        List.getElem?_eq_getElem hlt]
    have hread := hin'.logged.leafAt (t := s'.log.tree)
      (by rw [hin'.size_eq, hin.size_eq, List.length_append]; omega) hlogged
    rw [hleaf, Option.some.injEq, Except.ok.injEq] at hread
    rw [hread, ← hget]
    exact hrel i hlt hcrit
  rw [hpayload] at hsame
  exact signature_of_run hsized hjson hin hrun hids hc hstored
    (canonicalBytes_ne_append hcanonical hsame)

end Run

theorem isCriticalEvent_of_run {ed : SignatureScheme} {json : LeafJson} {s s' : PipelineState}
    {calls : List (PushEnv × SharedEvent)} {trace : List (NetworkEvent × Pushed)}
    (hrun : RunOk ed json s calls trace s') :
    ∀ c ∈ trace, isCriticalEvent c.2.event = isCriticalEvent c.1 := by
  induction calls generalizing s trace with
  | nil =>
    obtain ⟨rfl, _⟩ := hrun
    simp
  | cons call calls ih =>
    obtain ⟨r, rest, rfl, hpush, hrest⟩ := hrun
    exact List.forall_mem_cons.mpr ⟨isCriticalEvent_of_push hpush.push, ih hrest⟩

/-- **Critical events are logged self-contained** exactly when there are none: the leaves
    never carry a signature. -/
theorem selfContained_iff {ed : SignatureScheme} {json : LeafJson} {s s' : PipelineState}
    {calls : List (PushEnv × SharedEvent)} {trace : List (NetworkEvent × Pushed)} (hsized : ed.Sized)
    (hjson : json.RoundTripsPayload) (hreach : (logSystem json).Reachable s.log)
    (hrun : pushAll ed json s calls = some (s', trace))
    (hset : ∀ c ∈ calls, c.1.signer.isSome = true ∧ c.1.transparency.isSome = true ∧ c.1.repo = true)
    (hok : ∀ c ∈ trace, c.2.errors = []) (hids : (trace.map fun c => c.2.event.id).Nodup) :
    SelfContained json s s' trace ↔ ∀ c ∈ trace, isCriticalEvent c.1 = false := by
  obtain ⟨log, hin⟩ := inStep_of_reachable hjson hreach
  have hrun := runOk_of_pushAll hrun hset hok
  have hcritical := isCriticalEvent_of_run hrun
  constructor
  · intro hself c hc
    by_contra hne
    have hmem : c.2.event ∈ criticalEvents trace := by
      refine List.mem_filter.mpr ⟨List.mem_map.mpr ⟨c, hc, rfl⟩, ?_⟩
      rw [hcritical c hc]
      simpa using hne
    exact not_selfContained_of_critical hsized hjson hin hrun hids hmem hself
  · intro hnone
    have hempty : criticalEvents trace = [] := by
      rw [criticalEvents, List.filter_eq_nil_iff, List.forall_mem_map]
      intro c hc
      rw [hcritical c hc, hnone c hc]
      exact Bool.false_ne_true
    obtain ⟨leaves, hin', hleaves⟩ := leaves_of_run hsized hjson hin hrun
    rw [hempty, List.forall₂_nil_right_iff] at hleaves
    refine ⟨?_, by simp [hempty]⟩
    rw [hempty, hin'.size_eq, hin.size_eq, hleaves, List.append_nil]
    rfl

/-! ## Section 5: An alert -/

/-- A pipeline with a signer, a log and a repository. -/
def logEnv : PushEnv := { hubEnv false with transparency := some none }

def openedLog : LogState := ⟨⟨[], Tree.length_nil_lt⟩, bootstrap ∅⟩

def logState : PipelineState := ⟨dnsHeap, openedLog, ∅⟩

theorem openedLog_reachable (json : LeafJson) : (logSystem json).Reachable openedLog :=
  System.Reachable.init (logged_empty json).openTree_none

theorem logEnv_set : ∀ c ∈ [(logEnv, dnsShared)],
    c.1.signer.isSome = true ∧ c.1.transparency.isSome = true ∧ c.1.repo = true := by
  simp [logEnv, hubEnv]

theorem pushAll_singleton {ed : SignatureScheme} {json : LeafJson} {env : PushEnv} {s : PipelineState}
    {e : SharedEvent} {r : Pushed} (hpush : pushNetworkEvent ed json env s e = some r) :
    pushAll ed json s [(env, e)] = some (r.state, [(e.read s.heap, r)]) := by
  rw [pushAll, hpush]
  rfl

theorem pushAll_dns : ∃ s' r, pushAll dnsScheme backupJson logState [(logEnv, dnsShared)]
    = some (s', [(dnsShared.read dnsHeap, r)]) ∧ r.errors = [] := by
  obtain ⟨events, hpersist⟩ := persistStage_dns logEnv rfl
  have hpush := pushNetworkEvent_of_stages backupJson logEnv logState dnsShared openedLog rfl
    (signStage_dns _ rfl) rfl hpersist
  exact ⟨_, _, pushAll_singleton hpush, rfl⟩

theorem selfContained_iff_dns :
    ∃ s' r, pushAll dnsScheme backupJson logState [(logEnv, dnsShared)]
        = some (s', [(dnsShared.read dnsHeap, r)])
      ∧ SelfContained backupJson logState s' [(dnsShared.read dnsHeap, r)] := by
  obtain ⟨s', r, hrun, herrors⟩ := pushAll_dns
  have hiff := selfContained_iff (eventScheme_sized (by simp [dnsSignature])) backupJson_roundTrips
    (openedLog_reachable backupJson) hrun logEnv_set (by simpa using herrors) (by simp)
  exact ⟨s', r, hrun, hiff.mpr (by simp +decide)⟩

def alertShared : SharedEvent := { dnsShared with type := eventAlert }

def alertText : Bytes :=
  Bytes.ascii "\x7b\"id\":\"e1\",\"type\":\"THREAT_ALERT\",\"source\":\"10.0.0.1\",\"destination\":\"\","
    ++ Bytes.ascii "\"metadata\":\x7b\"port\":53,\"query\":\"example.org\"\x7d,"
    ++ Bytes.ascii "\"timestamp\":\"1970-01-01T00:00:00Z\"\x7d"

/-- Ed25519 on the alert. -/
def alertSignature : Bytes := Bytes.bigEndian 64
  0x526c07bec12621f311fa582f4ab0cd1a11c8c33665c2a097814114fcba6eaf8c1c7f8315d664c40a186fce754eabe8894bd11a786e7c260a024757f1f93bad01

def alertScheme : SignatureScheme := eventScheme alertText alertSignature

def alertSigned : SharedEvent :=
  { alertShared with signature := alertSignature, signerKeyID := Utf8.ofString "event-key" }

def alertLeaf : Leaf := ⟨transparencyKind eventAlert, 0, alertText⟩

def alertRaw : Bytes :=
  Bytes.ascii "\x7b\"kind\":\"alert.high\",\"timestamp\":\"1970-01-01T00:00:00Z\",\"payload\":\""
    ++ Base64.encode alertText ++ Bytes.ascii "\"\x7d"

/-- `encoding/json` on the leaf of the alert. -/
def alertJson : LeafJson where
  marshal := fun leaf => if leaf = alertLeaf then .ok alertRaw else .error "unsupported"
  unmarshal := fun raw => if raw = alertRaw then .ok alertLeaf else .error "unsupported"

theorem alertJson_roundTrips : alertJson.RoundTripsPayload := by
  intro leaf raw hmarshal
  simp only [alertJson] at hmarshal ⊢
  split at hmarshal
  · next hleaf =>
    obtain rfl := Except.ok.inj hmarshal
    exact ⟨alertLeaf, if_pos rfl, by rw [hleaf]⟩
  · simp at hmarshal

theorem canonicalBytes_alert : (alertShared.read dnsHeap).canonicalBytes = some alertText := by
  decide +kernel

theorem signStage_alert : signStage alertScheme logEnv dnsHeap alertShared = (alertSigned, []) := by
  have hsign : alertScheme.sign eventPrivate alertText = alertSignature := eventScheme_sign _ _
  have hok : sign alertScheme eventEnv (alertShared.read dnsHeap)
      = .ok ((alertShared.read dnsHeap).withSignature alertSignature (Utf8.ofString "event-key")) := by
    refine sign_eq_ok.mpr ⟨eventKey, alertText, rfl, canonicalBytes_alert, ?_⟩
    rw [show eventKey.privateKey = eventPrivate from rfl, hsign]
    rfl
  unfold signStage
  simp only [logEnv, hubEnv, hok]
  rfl

theorem pushAll_alert : ∃ s' r, pushAll alertScheme alertJson logState [(logEnv, alertShared)]
    = some (s', [(alertShared.read dnsHeap, r)]) ∧ r.errors = [] ∧ r.event = alertSigned.read dnsHeap := by
  have hstored : (logEvent ∅ (alertSigned.read dnsHeap)).isSome = true := by decide +kernel
  obtain ⟨events, hlog⟩ := Option.isSome_iff_exists.mp hstored
  have hpersist : persistStage logEnv logState.events (alertSigned.read dnsHeap)
      = (events, some (alertSigned.read dnsHeap), []) := by
    rw [persistStage, show logEnv.repo = true from rfl, if_pos rfl, show logState.events = ∅ from rfl, hlog]
  have happend : ∃ log, appendStage alertJson logEnv logState.log (alertSigned.read dnsHeap)
      = some (log, []) := by
    have hmarshal : alertJson.marshal alertLeaf = .ok alertRaw := by simp [alertJson]
    have happ := Tree.append_of_marshal (t := openedLog.tree) (bucket_bootstrap ∅) hmarshal (by simp [openedLog])
    have hbytes : (alertSigned.read dnsHeap).canonicalBytes = some alertText := canonicalBytes_alert
    have hcritical : isCriticalEvent (alertSigned.read dnsHeap) = true := if_pos rfl
    have happBytes : logState.log.tree.appendBytes alertJson none logEnv.now.instant
        (transparencyKind (alertSigned.read dnsHeap).type) alertText
        (alertSigned.read dnsHeap).timestamp.instant logState.log.db = some (.ok (), _, _) :=
      Tree.appendBytes_of_append alertLeaf (by decide) happ
    unfold appendStage
    rw [show logEnv.transparency = some none from rfl]
    simp only [hcritical, if_true, hbytes, happBytes]
    exact ⟨_, rfl⟩
  obtain ⟨log, happend⟩ := happend
  have hpush := pushNetworkEvent_of_stages alertJson logEnv logState alertShared log rfl signStage_alert
    happend hpersist
  exact ⟨_, _, pushAll_singleton hpush, rfl, rfl⟩

/-- The leaf of an alert is its canonical bytes alone. -/
theorem alert_leaf_without_signature :
    ∃ s' r, pushAll alertScheme alertJson logState [(logEnv, alertShared)]
        = some (s', [(alertShared.read dnsHeap, r)])
      ∧ r.errors = [] ∧ ¬ SelfContained alertJson logState s' [(alertShared.read dnsHeap, r)] := by
  obtain ⟨s', r, hrun, herrors, hevent⟩ := pushAll_alert
  obtain ⟨log, hin⟩ := inStep_of_reachable alertJson_roundTrips (openedLog_reachable alertJson)
  have hset : ∀ c ∈ [(logEnv, alertShared)],
      c.1.signer.isSome = true ∧ c.1.transparency.isSome = true ∧ c.1.repo = true := by
    simp [logEnv, hubEnv]
  have hok := runOk_of_pushAll hrun hset (by simpa using herrors)
  refine ⟨s', r, hrun, herrors, not_selfContained_of_critical (x := r.event)
    (eventScheme_sized (by simp [alertSignature])) alertJson_roundTrips hin hok (by simp) ?_⟩
  simp +decide [criticalEvents, hevent]

end Owasaka.Events.Stored
