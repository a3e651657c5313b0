import Owasaka.Events.Push

/-! # One content through the pipeline

    The value that is persisted and the copies that the hub and the analysers read refer
    to one map, and the publisher writes into it after the event was signed.

    The main result: every copy still verifies, with the canonical bytes that were
    persisted, exactly when nothing is published, or the event has no map, or nobody
    reads a copy, or the map already carries the event's source and destination. -/

namespace Owasaka.Events.Stored

open JsonText Pki

/-! ## Section 1: What can be read -/

/-- Whatever a holder could read so far has the property. -/
def Dispatch.AllRead (d : Dispatch) (P : NetworkEvent → Prop) : Prop := ∀ read ∈ d.reads, P read.2

section Reads

variable {d : Dispatch} {e : SharedEvent} {P : NetworkEvent → Prop}

theorem allRead_observe :
    (d.observe e).AllRead P ↔ d.AllRead P ∧ (d.holders ≠ [] → P (e.read d.heap)) := by
  have hholders : (∀ read ∈ d.holders.map fun c => (c, e.read d.heap), P read.2) ↔
      (d.holders ≠ [] → P (e.read d.heap)) := by
    cases d.holders with
    | nil => simp
    | cons c cs => simpa using fun hread _ _ => hread
  rw [Dispatch.AllRead, Dispatch.observe, List.forall_mem_append, hholders]
  rfl

theorem allRead_hand {set : Bool} {c : Consumer} :
    (d.hand e set c).AllRead P ↔ d.AllRead P ∧ (set = true → P (e.read d.heap)) := by
  cases set with
  | false => simp [Dispatch.hand]
  | true =>
    rw [Dispatch.hand, if_pos rfl, allRead_observe]
    simp [Dispatch.AllRead]

@[simp] theorem hand_heap (d : Dispatch) (e : SharedEvent) (set : Bool) (c : Consumer) :
    (d.hand e set c).heap = d.heap := by
  cases set <;> rfl

theorem hand_holders (d : Dispatch) (e : SharedEvent) (set : Bool) (c : Consumer) :
    (d.hand e set c).holders = if set then d.holders ++ [c] else d.holders := by
  cases set <;> rfl

theorem allRead_assign {ref : Nat} {key : String} {v : GoValue} :
    (d.assign e ref key v).AllRead P ↔
      d.AllRead P ∧ (d.holders ≠ [] → P (e.read (d.heap.assign ref (Bytes.ascii key) v))) :=
  allRead_observe

/-- A copy without a map reads as before. -/
theorem read_of_metadata_none (hmetadata : e.metadata = none) (h h' : Heap) : e.read h = e.read h' := by
  simp [SharedEvent.read, hmetadata]

end Reads

/-! ## Section 2: The writes of the publisher -/

/-- The map has this string under the key, as far as its JSON shows. -/
def Carries (entries : List (Bytes × GoValue)) (key : String) (s : Bytes) : Prop :=
  (valueAt entries (Bytes.ascii key)).bind encode = some (.str (escape s))

/-- The canonical bytes after assignments to the map. -/
theorem canonicalBytes_read_iff {e : SharedEvent} {h h' : Heap} {ref : Nat} {canonical : Bytes}
    {later : List (Bytes × GoValue)} (hmetadata : e.metadata = some ref)
    (hcanonical : (e.read h).canonicalBytes = some canonical) (hmaps : h'.maps ref = h.maps ref ++ later)
    (hnodup : (later.map Prod.fst).Nodup)
    (hlater : ∀ entry ∈ later, Utf8.Valid entry.1 ∧ (encode entry.2).isSome = true) :
    (e.read h').canonicalBytes = some canonical ↔
      ∀ entry ∈ later, (valueAt (h.maps ref) entry.1).bind encode = encode entry.2 := by
  obtain ⟨metadata, ts, hencode, hts, rfl⟩ := marshal_eq_some.mp hcanonical
  have hread : ∀ h : Heap, metadataValue (e.read h).metadata = .map (h.maps ref) := by
    intro h
    rw [SharedEvent.read, hmetadata]
    rfl
  have hdoc : encode (metadataValue (e.read h).metadata) = some metadata := hencode
  refine (canonicalBytes_eq_iff (e := e.read h) hdoc hts).trans ?_
  rw [hread] at hdoc
  rw [← encode_append_iff hdoc hnodup hlater, ← hmaps, ← hread h']
  exact ⟨fun hsame => hsame.2.2.2.2.1, fun hsame => ⟨rfl, rfl, rfl, rfl, hsame, hts⟩⟩

section Publish

variable {d : Dispatch} {e : SharedEvent} {h : Heap} {ref : Nat} {canonical : Bytes}

theorem canonicalBytes_source_iff (hmetadata : e.metadata = some ref)
    (hcanonical : (e.read h).canonicalBytes = some canonical) :
    (e.read (h.assign ref (Bytes.ascii "source") (.str e.source))).canonicalBytes = some canonical ↔
      Carries (h.maps ref) "source" e.source := by
  rw [canonicalBytes_read_iff hmetadata hcanonical (h.maps_assign ref _ _) (by simp)]
  · simp [Carries, encode]
  · simp +decide [encode]

theorem canonicalBytes_addresses_iff (hmetadata : e.metadata = some ref)
    (hcanonical : (e.read h).canonicalBytes = some canonical) :
    (e.read ((h.assign ref (Bytes.ascii "source") (.str e.source)).assign ref (Bytes.ascii "destination")
        (.str e.destination))).canonicalBytes = some canonical ↔
      Carries (h.maps ref) "source" e.source ∧ Carries (h.maps ref) "destination" e.destination := by
  have hmaps : ((h.assign ref (Bytes.ascii "source") (.str e.source)).assign ref (Bytes.ascii "destination")
      (.str e.destination)).maps ref = h.maps ref ++ [(Bytes.ascii "source", .str e.source),
        (Bytes.ascii "destination", .str e.destination)] := by
    rw [Heap.maps_assign, Heap.maps_assign, List.append_assoc]
    rfl
  rw [canonicalBytes_read_iff hmetadata hcanonical hmaps (by simp +decide)]
  · simp [Carries, encode]
  · simp +decide [encode]

/-- The holders can read between the two writes, and everybody after both of them. -/
theorem allRead_publish (hmetadata : e.metadata = some ref)
    (hcanonical : (e.read d.heap).canonicalBytes = some canonical) :
    (d.publish e).AllRead (fun x => x.canonicalBytes = some canonical) ↔
      d.AllRead (fun x => x.canonicalBytes = some canonical)
        ∧ (d.holders ≠ [] → Carries (d.heap.maps ref) "source" e.source
          ∧ Carries (d.heap.maps ref) "destination" e.destination) := by
  rw [Dispatch.publish, hmetadata]
  show Dispatch.AllRead (Dispatch.assign (Dispatch.assign d e ref "source" (.str e.source)) e ref
    "destination" (.str e.destination)) _ ↔ _
  rw [allRead_assign, allRead_assign, canonicalBytes_source_iff hmetadata hcanonical]
  show _ ∧ (d.holders ≠ [] → (e.read ((d.heap.assign ref (Bytes.ascii "source") (.str e.source)).assign ref
    (Bytes.ascii "destination") (.str e.destination))).canonicalBytes = some canonical) ↔ _
  rw [canonicalBytes_addresses_iff hmetadata hcanonical]
  tauto

theorem canonicalBytes_publish_iff (hmetadata : e.metadata = some ref)
    (hcanonical : (e.read d.heap).canonicalBytes = some canonical) :
    (e.read (d.publish e).heap).canonicalBytes = some canonical ↔
      Carries (d.heap.maps ref) "source" e.source ∧ Carries (d.heap.maps ref) "destination" e.destination := by
  rw [Dispatch.publish, hmetadata]
  exact canonicalBytes_addresses_iff hmetadata hcanonical

end Publish

/-! ## Section 3: One call -/

/-- An analyser is set, and events of this type are analysed. -/
def PushEnv.Analysed (env : PushEnv) (type : Bytes) : Prop :=
  type ≠ eventAlert ∧ (env.topology = true ∨ env.engine = true ∨ env.observer = true ∨ env.chains = true)

/-- Somebody gets a copy. -/
def PushEnv.Handed (env : PushEnv) (type : Bytes) : Prop := env.hub = true ∨ env.Analysed type

section Call

variable {ed : SignatureScheme} {json : Transparency.LeafJson} {env : PushEnv} {h : Heap} {e : SharedEvent}
  {s : PipelineState} {r : Pushed} {canonical : Bytes}

/-- The call before the analysers get their copies. -/
def beforeAnalysis (env : PushEnv) (h : Heap) (e : SharedEvent) : Dispatch :=
  let d := (⟨h, [], []⟩ : Dispatch).hand e env.hub .hub
  if env.pub then d.publish e else d

/-- The analysers read what the publisher left. -/
theorem allRead_dispatch {P : NetworkEvent → Prop} :
    (dispatch env h e).AllRead P ↔
      (beforeAnalysis env h e).AllRead P
        ∧ (env.Analysed e.type → P (e.read (beforeAnalysis env h e).heap)) := by
  show (Dispatch.hand (Dispatch.hand (Dispatch.hand (Dispatch.hand (beforeAnalysis env h e) e _ _) e _ _)
    e _ _) e _ _).AllRead P ↔ _
  simp only [allRead_hand, hand_heap, Bool.and_eq_true, decide_eq_true_eq, PushEnv.Analysed]
  tauto

theorem allRead_dispatch_of_forall {P : NetworkEvent → Prop} (hall : ∀ h', P (e.read h')) :
    (dispatch env h e).AllRead P := by
  have hhub : (Dispatch.hand ⟨h, [], []⟩ e env.hub .hub).AllRead P :=
    allRead_hand.mpr ⟨by simp [Dispatch.AllRead], fun _ => hall _⟩
  rw [allRead_dispatch, beforeAnalysis]
  split
  · exact ⟨allRead_assign.mpr ⟨allRead_assign.mpr ⟨hhub, fun _ => hall _⟩, fun _ => hall _⟩, fun _ => hall _⟩
  · exact ⟨hhub, fun _ => hall _⟩

/-- Without a publisher, or without a map, the copies read as the event that was signed. -/
theorem allRead_dispatch_of_unchanged {P : NetworkEvent → Prop} (hevent : P (e.read h))
    (hunchanged : env.pub = false ∨ e.metadata = none) : (dispatch env h e).AllRead P := by
  rcases hunchanged with hpub | hmetadata
  · rw [allRead_dispatch, beforeAnalysis, hpub, if_neg Bool.false_ne_true, hand_heap, allRead_hand]
    exact ⟨⟨by simp [Dispatch.AllRead], fun _ => hevent⟩, fun _ => hevent⟩
  · exact allRead_dispatch_of_forall fun h' => read_of_metadata_none hmetadata h h' ▸ hevent

/-- With a publisher, the copies keep their canonical bytes when the map carries the
    addresses, or nobody has one. -/
theorem allRead_dispatch_of_pub {ref : Nat} (hpub : env.pub = true) (hmetadata : e.metadata = some ref)
    (hcanonical : (e.read h).canonicalBytes = some canonical) :
    (dispatch env h e).AllRead (fun x => x.canonicalBytes = some canonical) ↔
      (env.Handed e.type → Carries (h.maps ref) "source" e.source
        ∧ Carries (h.maps ref) "destination" e.destination) := by
  have hheap : (Dispatch.hand ⟨h, [], []⟩ e env.hub .hub).heap = h := hand_heap _ _ _ _
  have hholders : (Dispatch.hand ⟨h, [], []⟩ e env.hub .hub).holders ≠ [] ↔ env.hub = true := by
    rw [hand_holders]
    cases env.hub <;> simp
  rw [allRead_dispatch, beforeAnalysis, hpub, if_pos rfl, allRead_publish hmetadata (by rwa [hheap]),
    canonicalBytes_publish_iff hmetadata (by rwa [hheap]), hheap, hholders, allRead_hand]
  simp only [hcanonical, implies_true, and_true, PushEnv.Handed]
  have hnone : Dispatch.AllRead ⟨h, [], []⟩ (fun x => x.canonicalBytes = some canonical) := by
    simp [Dispatch.AllRead]
  tauto

/-- The result of a call: the event is enriched and signed, and then only read. -/
theorem pushNetworkEvent_eq_some (hpush : pushNetworkEvent ed json env s e = some r) :
    ∃ log appendErrors, appendStage json env s.log r.event = some (log, appendErrors)
      ∧ ∃ signed, signStage ed env (enrichStage env s.heap (hydrate env e)).1
          (enrichStage env s.heap (hydrate env e)).2 = signed
        ∧ r.event = signed.1.read (enrichStage env s.heap (hydrate env e)).1
        ∧ r.persisted = (persistStage env s.events r.event).2.1
        ∧ r.reads = (dispatch env (enrichStage env s.heap (hydrate env e)).1 signed.1).reads
        ∧ r.errors = signed.2 ++ appendErrors ++ (persistStage env s.events r.event).2.2
        ∧ r.state.log = log ∧ r.state.events = (persistStage env s.events r.event).1 := by
  unfold pushNetworkEvent at hpush
  dsimp only at hpush
  split at hpush
  · simp at hpush
  · next log appendErrors happend =>
    rw [← Option.some.inj hpush]
    exact ⟨log, appendErrors, happend, _, rfl, rfl, rfl, rfl, rfl, rfl, rfl⟩

theorem pushNetworkEvent_of_stages (json : Transparency.LeafJson) (env : PushEnv) (s : PipelineState)
    (e : SharedEvent) (log : Transparency.LogState) {e' signed : SharedEvent}
    {events : Bolt.Bucket} (henrich : enrichStage env s.heap (hydrate env e) = (h, e'))
    (hsign : signStage ed env h e' = (signed, []))
    (happend : appendStage json env s.log (signed.read h) = some (log, []))
    (hpersist : persistStage env s.events (signed.read h) = (events, some (signed.read h), [])) :
    pushNetworkEvent ed json env s e = some
      { state := ⟨(dispatch env h signed).heap, log, events⟩, event := signed.read h,
        persisted := some (signed.read h), reads := (dispatch env h signed).reads, errors := [] } := by
  unfold pushNetworkEvent
  simp only [henrich, hsign, happend, hpersist, List.append_nil]

/-- `Sign` succeeded: the event carries a signature of its canonical bytes. -/
theorem signStage_of_ok {keys : Env} (hsigner : env.signer = some keys)
    (hok : ∀ err, PushError.sign err ∉ (signStage ed env h e).2) :
    ∃ kp canonical, activeKey keys purposeEventSigning = .ok kp
      ∧ (e.read h).canonicalBytes = some canonical
      ∧ (signStage ed env h e).1 = { e with
          signature := ed.sign kp.privateKey canonical, signerKeyID := Utf8.ofString kp.id } := by
  unfold signStage at hok ⊢
  rw [hsigner] at hok ⊢
  dsimp only at hok ⊢
  split at hok
  · next signed hsign =>
    obtain ⟨kp, canonical, hkey, hcanonical, rfl⟩ := sign_eq_ok.mp hsign
    exact ⟨kp, canonical, hkey, hcanonical, rfl⟩
  · exact absurd List.mem_cons_self (hok _)
  · exact absurd List.mem_cons_self (hok _)

/-- An address as the stages after the enricher see it. -/
def PushEnv.address (env : PushEnv) (raw : Bytes) : Bytes :=
  match env.stream with
  | none => raw
  | some _ => env.normalizeIP raw

theorem enrichStage_fields (env : PushEnv) (h : Heap) (e : SharedEvent) :
    (enrichStage env h e).2.type = e.type ∧ (enrichStage env h e).2.source = env.address e.source
      ∧ (enrichStage env h e).2.destination = env.address e.destination
      ∧ ((enrichStage env h e).2.metadata = none ↔ e.metadata = none ∧ env.stream = none) := by
  unfold enrichStage enrich PushEnv.address
  cases env.stream with
  | none => simp
  | some stats => simp

/-- The enricher writes under names of its own. -/
theorem enrichStage_valueAt {ref : Nat} {key : Bytes}
    (hmetadata : (enrichStage env h e).2.metadata = some ref)
    (hkey : ∀ stats : WindowStats, key ∉ stats.entries.map Prod.fst) :
    valueAt ((enrichStage env h e).1.maps ref) key = e.metadata.bind fun ref => valueAt (h.maps ref) key := by
  have hnew : ∀ stats : WindowStats, ∀ entries,
      valueAt (entries ++ stats.entries) key = valueAt entries key := by
    intro stats entries
    rw [valueAt_append, Option.not_isSome_iff_eq_none.mp (fun hsome => hkey stats (valueAt_isSome.mp hsome)),
      Option.none_or]
  revert hmetadata
  unfold enrichStage
  cases env.stream with
  | none =>
    intro hmetadata
    rw [show e.metadata = some ref from hmetadata]
    rfl
  | some stats =>
    cases hold : e.metadata with
    | none =>
      simp only [enrich, hold, Option.some.injEq]
      rintro rfl
      -- without a source nothing is assigned
      split
      · rw [Heap.maps_make]
        rfl
      · rw [Heap.maps_assignAll, hnew, Heap.maps_make]
        rfl
    | some old =>
      simp only [enrich, hold, Option.some.injEq]
      rintro rfl
      split
      · rfl
      · rw [Heap.maps_assignAll, hnew]
        rfl

end Call

/-! ## Section 4: One content -/

/-- Whatever the hub and the analysers read verifies, with the canonical bytes that were
    persisted. -/
def Pushed.OneContent (r : Pushed) (ed : SignatureScheme) (store : KeyStore) (now : Int) : Prop :=
  ∀ read ∈ r.reads, verify ed.verify store now read.2 = .ok ()
    ∧ ∀ stored, r.persisted = some stored → read.2.canonicalBytes = stored.canonicalBytes

/-- What the publisher writes changes nothing that anybody reads. -/
def WritesUnseen (env : PushEnv) (h : Heap) (e : SharedEvent) : Prop :=
  env.pub = false ∨ (e.metadata = none ∧ env.stream = none) ∨ ¬ env.Handed e.type
    ∨ ∃ ref, e.metadata = some ref ∧ Carries (h.maps ref) "source" (env.address e.source)
      ∧ Carries (h.maps ref) "destination" (env.address e.destination)

theorem source_not_stream (stats : WindowStats) : Bytes.ascii "source" ∉ stats.entries.map Prod.fst := by
  simp +decide [WindowStats.entries]

theorem destination_not_stream (stats : WindowStats) :
    Bytes.ascii "destination" ∉ stats.entries.map Prod.fst := by
  simp +decide [WindowStats.entries]

section Main

variable {ed : SignatureScheme} {json : Transparency.LeafJson} {env : PushEnv} {h : Heap} {e : SharedEvent}
  {canonical : Bytes}

/-- The copies keep the canonical bytes of the enriched event exactly when the writes
    are not seen. -/
theorem allRead_iff_writesUnseen (sig kid : Bytes)
    (hcanonical : ((enrichStage env h (hydrate env e)).2.read
      (enrichStage env h (hydrate env e)).1).canonicalBytes = some canonical) :
    (dispatch env (enrichStage env h (hydrate env e)).1 { (enrichStage env h (hydrate env e)).2 with
        signature := sig, signerKeyID := kid }).AllRead (fun x => x.canonicalBytes = some canonical) ↔
      WritesUnseen env h e := by
  obtain ⟨htype, hsource, hdestination, hnone⟩ := enrichStage_fields env h (hydrate env e)
  have hvalue := @enrichStage_valueAt env h (hydrate env e)
  -- only the fields of the enriched event matter from here
  generalize enrichStage env h (hydrate env e) = enriched at *
  obtain ⟨h', e'⟩ := enriched
  have htype : e'.type = e.type := htype
  cases hmetadata : e'.metadata with
  | none =>
    have hunchanged : (dispatch env h' { e' with signature := sig, signerKeyID := kid }).AllRead
        (fun x => x.canonicalBytes = some canonical) :=
      allRead_dispatch_of_unchanged hcanonical (.inr hmetadata)
    exact iff_of_true hunchanged (.inr (.inl (hnone.mp hmetadata)))
  | some ref =>
    have hsome : ¬ (e.metadata = none ∧ env.stream = none) := by
      intro hboth
      rw [hnone.mpr hboth] at hmetadata
      simp at hmetadata
    -- the stage writes the statistics of the window, under neither of the two keys
    have hcarries : (Carries (h'.maps ref) "source" e'.source
        ∧ Carries (h'.maps ref) "destination" e'.destination) ↔
          ∃ ref, e.metadata = some ref ∧ Carries (h.maps ref) "source" (env.address e.source)
            ∧ Carries (h.maps ref) "destination" (env.address e.destination) := by
      unfold Carries
      rw [hvalue hmetadata source_not_stream, hvalue hmetadata destination_not_stream, hsource,
        hdestination, show (hydrate env e).metadata = e.metadata from rfl]
      cases e.metadata with
      | none => simp
      | some old => simp [hydrate]
    cases hpub : env.pub with
    | false =>
      have hunchanged : (dispatch env h' { e' with signature := sig, signerKeyID := kid }).AllRead
          (fun x => x.canonicalBytes = some canonical) :=
        allRead_dispatch_of_unchanged hcanonical (.inl hpub)
      exact iff_of_true hunchanged (.inl hpub)
    | true =>
      rw [allRead_dispatch_of_pub (e := { e' with signature := sig, signerKeyID := kid }) hpub hmetadata
        hcanonical]
      show (env.Handed e'.type → _) ↔ _
      rw [hcarries, htype, WritesUnseen, hpub]
      simp only [Bool.true_eq_false, false_or, hsome]
      exact imp_iff_not_or

/-- One content, for the key that signed and the state it is in now. -/
theorem oneContent_iff_of_key {keys : Env} {s : PipelineState} {r : Pushed} {store : KeyStore} {now : Int}
    {kp : KeyPair} {st : KeyStatus} (hsized : ed.Sized) (hsigner : env.signer = some keys)
    (hpush : pushNetworkEvent ed json env s e = some r) (hsigned : ∀ err, PushError.sign err ∉ r.errors)
    (hkey : activeKey keys purposeEventSigning = .ok kp)
    (hbinds : ∀ canonical, r.event.canonicalBytes = some canonical → ed.Binds kp.privateKey canonical)
    (hget : store[kp.id]? = some { kp with status := st }) (hne : kp.id ≠ "")
    (hpublic : kp.publicKey = ed.publicKey kp.privateKey)
    (hver : KeyPair.isVerifyable { kp with status := st } now = true)
    (hpurpose : kp.purpose = purposeEventSigning) :
    r.OneContent ed store now ↔ WritesUnseen env s.heap e := by
  obtain ⟨log, appendErrors, _, signed, hsignStage, hevent, hpersisted, hreads, herrors, _, _⟩ :=
    pushNetworkEvent_eq_some hpush
  have hok : ∀ err, PushError.sign err ∉ signed.2 := by
    intro err hmem
    exact hsigned err (by simp [herrors, hmem])
  rw [← hsignStage] at hok
  obtain ⟨kp', canonical, hkey', hcanonical, hcopy⟩ := signStage_of_ok hsigner hok
  obtain rfl : kp = kp' := Except.ok.inj (hkey.symm.trans hkey')
  rw [hsignStage] at hcopy
  have hbytes : r.event.canonicalBytes = some canonical := by
    rw [hevent, hcopy]
    exact hcanonical
  have hstored : ∀ stored, r.persisted = some stored → stored.canonicalBytes = some canonical := by
    intro stored heq
    rw [hpersisted, persistStage] at heq
    split at heq
    · split at heq
      · simp at heq
      · rw [← Option.some.inj heq, hbytes]
    · simp at heq
  -- every copy carries the signature, so it verifies on the bytes that were signed
  have hread : ∀ read ∈ r.reads, verify ed.verify store now read.2 = .ok () ↔
      read.2.canonicalBytes = some canonical := by
    intro read hmem
    rw [hreads, hcopy] at hmem
    obtain ⟨h', heq⟩ := allRead_dispatch_of_forall (P := fun x => ∃ h', x = SharedEvent.read _ h')
      (fun h' => ⟨h', rfl⟩) read hmem
    have hsignature : read.2.signature = ed.sign kp.privateKey canonical := by
      rw [heq]
      rfl
    have hkid : read.2.signerKeyID = Utf8.ofString kp.id := by
      rw [heq]
      rfl
    exact @verify_iff_canonicalBytes ed store now read.2 { kp with status := st } canonical hget
      hsized (hbinds canonical hbytes) hne hpublic hver hpurpose hsignature hkid
  rw [← allRead_iff_writesUnseen (ed.sign kp.privateKey canonical) (Utf8.ofString kp.id) hcanonical,
    Dispatch.AllRead, ← hcopy, ← hreads, Pushed.OneContent]
  refine forall₂_congr fun read hmem => ?_
  rw [hread read hmem]
  constructor
  · exact fun hboth => hboth.1
  · intro hsame
    exact ⟨hsame, fun stored hpersist => hsame.trans (hstored stored hpersist).symm⟩

end Main

/-- **One event, one content**: once an event is signed, every copy of it that is read
    verifies with the bytes that were persisted, exactly when the writes of the publisher
    are not seen. -/
theorem one_content_iff {ed : SignatureScheme} {json : Transparency.LeafJson} {env : PushEnv} {keys : Env}
    {s : PipelineState} {e : SharedEvent} {r : Pushed} {a a' : AuthorityState} {now : Int}
    (hsized : ed.Sized) (hreach : (authoritySystem ed).Reachable a) (horder : a.store.Order keys.order)
    (hsigner : env.signer = some keys) (hpush : pushNetworkEvent ed json env s e = some r)
    (hsigned : ∀ err, PushError.sign err ∉ r.errors)
    (hbinds : ∀ kp canonical, activeKey keys purposeEventSigning = .ok kp →
      r.event.canonicalBytes = some canonical → ed.Binds kp.privateKey canonical)
    (hrun : (authoritySystem ed).Steps a a')
    (hver : ∀ kp kp', activeKey keys purposeEventSigning = .ok kp → a'.store[kp.id]? = some kp' →
      kp'.isVerifyable now = true) :
    r.OneContent ed a'.store now ↔ WritesUnseen env s.heap e := by
  obtain ⟨_, _, _, signed, hsignStage, _, _, _, herrors, _, _⟩ := pushNetworkEvent_eq_some hpush
  have hok : ∀ err, PushError.sign err ∉ signed.2 := by
    intro err hmem
    exact hsigned err (by simp [herrors, hmem])
  rw [← hsignStage] at hok
  obtain ⟨kp, _, hkey, _, _⟩ := signStage_of_ok hsigner hok
  have hkept := wellKept_of_reachable hreach
  obtain ⟨hget, hne, hpurpose, _, hpublic⟩ := activeKey_ok hkept horder hkey
  obtain ⟨st, hget'⟩ := (keysStay_of_steps hkept hrun).2 kp.id kp hget
  exact oneContent_iff_of_key hsized hsigner hpush hsigned hkey (fun canonical => hbinds kp canonical hkey)
    hget' hne hpublic (hver kp _ hkey hget') hpurpose

/-! ## Section 5: The hub and the publisher -/

/-- A memory with the metadata of the query. -/
def dnsHeap : Heap := ⟨fun _ => dnsMetadata, 1⟩

def dnsShared : SharedEvent :=
  ⟨Bytes.ascii "e1", Bytes.ascii "DNS", Bytes.ascii "10.0.0.1", [], some 0, ⟨0, 0⟩, [], []⟩

/-- A pipeline with a signer, a repository and a hub. -/
def hubEnv (pub : Bool) : PushEnv where
  newID := []
  now := ⟨0, 0⟩
  normalizeIP := id
  stream := none
  signer := some eventEnv
  transparency := none
  repo := true
  hub := true
  pub := pub
  topology := false
  engine := false
  observer := false
  chains := false

def emptyLog : Transparency.LogState := ⟨⟨[], Transparency.Tree.length_nil_lt⟩, ∅⟩

def dnsState : PipelineState := ⟨dnsHeap, emptyLog, ∅⟩

def noLeafJson : Transparency.LeafJson := ⟨fun _ => .error "", fun _ => .error ""⟩

def dnsScheme : SignatureScheme := eventScheme (dnsText "10.0.0.1") dnsSignature

def dnsSigned : SharedEvent :=
  { dnsShared with signature := dnsSignature, signerKeyID := Utf8.ofString "event-key" }

theorem signStage_dns (env : PushEnv) (hsigner : env.signer = some eventEnv) :
    signStage dnsScheme env dnsHeap dnsShared = (dnsSigned, []) := by
  have hok : sign dnsScheme eventEnv (dnsShared.read dnsHeap) = _ := sign_dnsEvent dnsSignature canonicalBytes_dnsEvent.1
  unfold signStage
  simp only [hsigner, hok]
  rfl

theorem persistStage_dns (env : PushEnv) (hrepo : env.repo = true) :
    ∃ events, persistStage env ∅ (dnsSigned.read dnsHeap) = (events, some (dnsSigned.read dnsHeap), []) := by
  have hstored : (logEvent ∅ (dnsSigned.read dnsHeap)).isSome = true := by decide +kernel
  obtain ⟨events, hlog⟩ := Option.isSome_iff_exists.mp hstored
  exact ⟨events, by rw [persistStage, hrepo, if_pos rfl, hlog]⟩

/-- The query is signed, persisted and handed to the hub. -/
theorem pushNetworkEvent_dns (pub : Bool) :
    ∃ r, pushNetworkEvent dnsScheme noLeafJson (hubEnv pub) dnsState dnsShared = some r
      ∧ r.event = dnsSigned.read dnsHeap ∧ r.errors = [] ∧ r.persisted = some r.event ∧ r.reads ≠ [] := by
  obtain ⟨events, hpersist⟩ := persistStage_dns (hubEnv pub) rfl
  have hpush := pushNetworkEvent_of_stages noLeafJson (hubEnv pub) dnsState dnsShared emptyLog rfl
    (signStage_dns _ rfl) rfl hpersist
  refine ⟨_, hpush, rfl, rfl, rfl, ?_⟩
  cases pub <;> exact List.cons_ne_nil _ _

theorem dnsScheme_binds {canonical : Bytes}
    (hcanonical : (dnsSigned.read dnsHeap).canonicalBytes = some canonical) :
    dnsScheme.Binds eventPrivate canonical := by
  have htext : (dnsSigned.read dnsHeap).canonicalBytes = some (dnsText "10.0.0.1") := canonicalBytes_dnsEvent.1
  obtain rfl : dnsText "10.0.0.1" = canonical := Option.some.inj (htext.symm.trans hcanonical)
  exact SignatureScheme.knownSized_binds (by decide)

theorem one_content_iff_hub :
    ∃ r, pushNetworkEvent dnsScheme noLeafJson (hubEnv false) dnsState dnsShared = some r
      ∧ r.reads ≠ [] ∧ r.OneContent dnsScheme eventStore 3600 := by
  obtain ⟨r, hpush, hevent, herrors, _, hreads⟩ := pushNetworkEvent_dns false
  have hkey : ∀ kp, activeKey eventEnv purposeEventSigning = .ok kp → kp = eventKey := by
    intro kp hkp
    exact (Except.ok.inj hkp).symm
  have hiff : r.OneContent dnsScheme eventStore 3600 ↔ WritesUnseen (hubEnv false) dnsHeap dnsShared :=
    one_content_iff (eventScheme_sized (by simp [dnsSignature])) (eventStore_reachable _) eventStore_order rfl hpush
    (by simp [herrors])
    (by
      intro kp canonical hkp hcanonical
      obtain rfl := hkey kp hkp
      rw [hevent] at hcanonical
      exact dnsScheme_binds hcanonical)
    (.refl _)
    (by
      intro kp kp' hkp hget
      obtain rfl := hkey kp hkp
      obtain rfl : eventKey = kp' := Option.some.inj hget
      decide)
  exact ⟨r, hpush, hreads, hiff.mpr (.inl rfl)⟩

/-- With a publisher the same query is signed and persisted, but the hub reads another
    one. -/
theorem publisher_changes_copies :
    ∃ r, pushNetworkEvent dnsScheme noLeafJson (hubEnv true) dnsState dnsShared = some r
      ∧ r.errors = [] ∧ r.persisted = some r.event ∧ ¬ r.OneContent dnsScheme eventStore 3600 := by
  obtain ⟨r, hpush, hevent, herrors, hpersisted, _⟩ := pushNetworkEvent_dns true
  have hiff : r.OneContent dnsScheme eventStore 3600 ↔ WritesUnseen (hubEnv true) dnsHeap dnsShared :=
    oneContent_iff_of_key (eventScheme_sized (by simp [dnsSignature])) rfl hpush (by simp [herrors])
      (show activeKey eventEnv purposeEventSigning = .ok eventKey from rfl)
      (fun canonical hcanonical => dnsScheme_binds (hevent ▸ hcanonical))
      (show eventStore[eventKey.id]? = some { eventKey with status := .active } from rfl) (by decide) rfl
      (by decide) rfl
  refine ⟨r, hpush, herrors, hpersisted, fun hcontent => ?_⟩
  rcases hiff.mp hcontent with hpub | ⟨hnone, _⟩ | hhanded | ⟨ref, href, hsource, _⟩
  · simp [hubEnv] at hpub
  · simp [dnsShared] at hnone
  · exact hhanded (.inl rfl)
  · -- the map has no source
    have hnone : valueAt dnsMetadata (Bytes.ascii "source") = none := by decide
    unfold Carries at hsource
    rw [show dnsHeap.maps ref = dnsMetadata from rfl, hnone] at hsource
    simp at hsource

end Owasaka.Events.Stored
