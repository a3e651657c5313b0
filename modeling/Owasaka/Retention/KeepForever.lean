import Owasaka.Retention.Expiry

/-! # Limits of zero

    By its comment, a zero limit keeps the records of its class for ever.  The guard for
    it in the decision on events never sees a zero: the constructor has filled in the
    default by then.  The runs here are those of one engine on one open database, with
    sweeps and writes in any order and a failure at any step.

    The main result: the sweeps of a run keep every record of the classes whose limit is
    zero exactly when none of these records is older than the default of its class when
    a sweep commits. -/

namespace Owasaka.Retention

open Bolt

/-! ## Section 1: Classes of records -/

inductive RecordClass where
  | event
  | alert
  | asset

def RecordClass.bucket : RecordClass → String
  | .event => "events"
  | .alert => "events"
  | .asset => "assets"

/-- Whether a value of the bucket belongs to the class. -/
def RecordClass.Has (codec : Codec) (raw : Bytes) : RecordClass → Prop
  | .event => isAlert codec raw = false
  | .alert => isAlert codec raw = true
  | .asset => True

/-- The time that the limit of the class is measured from. -/
def RecordClass.time (codec : Codec) (raw : Bytes) : RecordClass → Option Int
  | .event => (codec.event raw).map EventRecord.timestamp
  | .alert => (codec.event raw).map EventRecord.timestamp
  | .asset => codec.asset raw

def Config.ttl (cfg : Config) : RecordClass → Int
  | .event => cfg.eventsDefaultTTL
  | .alert => cfg.alertsTTL
  | .asset => cfg.assetsStaleTTL

/-- What `EnsureDefaults` puts in the place of a zero. -/
def RecordClass.defaultTTL : RecordClass → Int
  | .event => 90 * day
  | .alert => 365 * day
  | .asset => 30 * day

/-- The record has a time, and is older than the limit. -/
def RecordClass.Older (codec : Codec) (now limit : Int) (raw : Bytes) (c : RecordClass) : Prop :=
  ∃ time, c.time codec raw = some time ∧ time ≠ zeroTime ∧ now - time > limit

/-- The sweep commits the transaction of the class. -/
def SweepEnv.Commits (env : SweepEnv) : RecordClass → Prop
  | .asset => env.ctxErr = none ∧ env.eventsFault = none ∧ env.assetsFault = none
  | _ => env.ctxErr = none ∧ env.eventsFault = none

/-! ## Section 2: Runs of an engine -/

/-- A sweep, or a write transaction of another part of the program. -/
inductive EngineAction where
  | write (fn : Db → Except String (List Write)) (fault : Option TxFault)
  | sweep (env : SweepEnv)

def Engine.act (e : Engine) (codec : Codec) (s : Store) : EngineAction → Store
  | .write fn fault =>
    match s.update fault fn with
    | .error _ => s
    | .ok (_, s') => s'
  | .sweep env => (e.sweep codec env s).2.2

def Engine.run (e : Engine) (codec : Codec) (s : Store) (actions : List EngineAction) : Store :=
  actions.foldl (e.act codec) s

/-- No sweep of the run removes a record of a class with a zero limit. -/
def KeepsForEver (cfg : Config) (e : Engine) (codec : Codec) (s : Store)
    (actions : List EngineAction) : Prop :=
  ∀ done env, done ++ [.sweep env] <+: actions → ∀ c : RecordClass, cfg.ttl c = 0 →
    ∀ key raw, c.Has codec raw → lookup (e.run codec s done).db c.bucket key = some raw →
      lookup (e.run codec s (done ++ [.sweep env])).db c.bucket key = some raw

/-- When a sweep commits, no record of such a class is older than the default. -/
def NoneOld (cfg : Config) (e : Engine) (codec : Codec) (s : Store)
    (actions : List EngineAction) : Prop :=
  ∀ done env, done ++ [.sweep env] <+: actions → ∀ c : RecordClass, cfg.ttl c = 0 →
    env.Commits c → ∀ key raw, c.Has codec raw →
      lookup (e.run codec s done).db c.bucket key = some raw →
      ¬ c.Older codec env.now c.defaultTTL raw

variable {cfg : Config} {e : Engine} {codec : Codec} {s s' : Store} {env : SweepEnv} {key raw : Bytes}
  {c : RecordClass}

/-! ## Section 3: What a sweep leaves -/

/-- A transaction that deletes keys commits if it does not fail outside its function. -/
theorem update_deletes (s : Store) {name : String} {keys : Db → List Bytes}
    (hmem : s.db[name]? = none → keys s.db = []) :
    ∃ ws s', s.update none (fun db => .ok ((keys db).map (.delete name))) = .ok (ws, s')
      ∧ Deletes name (keys s.db) s.db s'.db := by
  obtain ⟨ws, s', hok⟩ := exists_update s hmem
  exact ⟨ws, s', hok, (deletes_of_update hok).2⟩

theorem update_fault (s : Store) (fault : TxFault) (writes : Db → List Write) :
    ∃ msg, s.update (some fault) (fun db => .ok (writes db)) = .error msg := by
  cases fault with
  | start msg => exact ⟨msg, rfl⟩
  | commit msg => exact ⟨msg, rfl⟩

/-- The value under a key is kept unless the transaction commits and lists the key. -/
def Kept (bucket : String) (commits : Prop) (keys : List Bytes) (before after : Db) : Prop :=
  ∀ key raw, lookup before bucket key = some raw →
    (lookup after bucket key = some raw ↔ ¬ (commits ∧ key ∈ keys))

theorem kept_of_deletes {bucket : String} {commits : Prop} {keys : List Bytes} {before after : Db}
    (hcommits : commits) (hdeletes : Deletes bucket keys before after) :
    Kept bucket commits keys before after := by
  intro key raw hlookup
  rw [hdeletes.lookup_eq, hlookup]
  by_cases hmem : key ∈ keys
  · simp [hmem, hcommits]
  · simp [hmem]

theorem kept_of_not {bucket : String} {commits : Prop} {keys : List Bytes} {before after : Db}
    (hnot : ¬ commits) (hsame : after[bucket]? = before[bucket]?) :
    Kept bucket commits keys before after := by
  intro key raw hlookup
  unfold lookup at hlookup ⊢
  rw [hsame, hlookup]
  simp [hnot]

/-- What a sweep does to the two buckets. -/
structure Swept (e : Engine) (codec : Codec) (env : SweepEnv) (before after : Db) : Prop where
  events : Kept "events" (env.ctxErr = none ∧ env.eventsFault = none)
    ((e.expiredEvents codec env.now before).map Prod.fst) before after
  assets : Kept "assets" (env.ctxErr = none ∧ env.eventsFault = none ∧ env.assetsFault = none)
    (e.staleAssets codec env.now before) before after

/-- **Step lemma**: every sweep of an open database, with a failure at any step. -/
theorem Store.Sound.sweep (hsound : s.Sound) (e : Engine) (codec : Codec) (env : SweepEnv) :
    (e.sweep codec env s).2.2.Sound ∧ Swept e codec env s.db (e.sweep codec env s).2.2.db := by
  have hnoEvents : s.db["events"]? = none → (e.expiredEvents codec env.now s.db).map Prod.fst = [] := by
    intro hbucket
    rw [expiredEvents_eq, hbucket]
    rfl
  unfold Engine.sweep
  cases hctx : env.ctxErr with
  | some msg =>
    refine ⟨hsound, kept_of_not ?_ rfl, kept_of_not ?_ rfl⟩
    · simp [hctx]
    · simp [hctx]
  | none =>
    simp only [Engine.sweepEvents, Engine.sweepAssets, eventsTx_eq]
    cases hfault : env.eventsFault with
    | some fault =>
      obtain ⟨msg, herror⟩ := update_fault s fault
        fun db => ((e.expiredEvents codec env.now db).map Prod.fst).map (.delete "events")
      simp only [herror]
      refine ⟨hsound, kept_of_not ?_ rfl, kept_of_not ?_ rfl⟩
      · simp [hfault]
      · simp [hfault]
    | none =>
      obtain ⟨ws, s₁, hok, hdeletes⟩ := @update_deletes s "events"
        (fun db => (e.expiredEvents codec env.now db).map Prod.fst) hnoEvents
      have hsound₁ := hsound.update hok
      simp only [hok]
      -- the assets are as they were
      have hsame : s₁.db["assets"]? = s.db["assets"]? := hdeletes.others "assets" (by decide)
      have hstale : e.staleAssets codec env.now s₁.db = e.staleAssets codec env.now s.db := by
        rw [staleAssets_eq, staleAssets_eq, hsame]
      have hevents : Kept "events" (env.ctxErr = none ∧ env.eventsFault = none)
          ((e.expiredEvents codec env.now s.db).map Prod.fst) s.db s₁.db :=
        kept_of_deletes ⟨hctx, hfault⟩ hdeletes
      cases hfault' : env.assetsFault with
      | some fault =>
        obtain ⟨msg, herror⟩ := update_fault s₁ fault
          fun db => (e.staleAssets codec env.now db).map (.delete "assets")
        have herror : s₁.update (some fault) (e.assetsTx codec env.now) = .error msg := herror
        simp only [herror]
        refine ⟨hsound₁, hevents, kept_of_not ?_ hsame⟩
        simp [hfault']
      | none =>
        obtain ⟨ws', s₂, hok', hdeletes'⟩ := @update_deletes s₁ "assets"
          (e.staleAssets codec env.now) fun hbucket => by rw [staleAssets_eq, hbucket]; rfl
        have hsound₂ := hsound₁.update hok'
        have hok' : s₁.update none (e.assetsTx codec env.now) = .ok (ws', s₂) := hok'
        simp only [hok']
        obtain ⟨hsound₃, hdb⟩ := hsound₂.sweepCompact e env _
        refine ⟨hsound₃, ?_, ?_⟩
        · rw [hdb]
          intro key raw hlookup
          have hother : lookup s₂.db "events" key = lookup s₁.db "events" key := by
            unfold lookup
            rw [hdeletes'.others "events" (by decide)]
          rw [hother]
          exact hevents key raw hlookup
        · rw [hdb]
          intro key raw hlookup
          have hlookup' : lookup s₁.db "assets" key = some raw := by
            unfold lookup
            rw [hsame]
            exact hlookup
          rw [← hstale]
          exact kept_of_deletes ⟨hctx, hfault, hfault'⟩ hdeletes' key raw hlookup'

theorem Store.Sound.act (hsound : s.Sound) (e : Engine) (codec : Codec) (a : EngineAction) :
    (e.act codec s a).Sound := by
  cases a with
  | write fn fault =>
    cases hok : s.update fault fn with
    | error msg => simpa only [Engine.act, hok] using hsound
    | ok result => simpa only [Engine.act, hok] using hsound.update hok
  | sweep env => exact (hsound.sweep e codec env).1

theorem Store.Sound.run (hsound : s.Sound) (e : Engine) (codec : Codec) (actions : List EngineAction) :
    (e.run codec s actions).Sound := by
  unfold Engine.run
  induction actions generalizing s with
  | nil => exact hsound
  | cons a actions ih => exact ih (hsound.act e codec a)

/-! ## Section 4: Records of a class -/

theorem eventExpired_iff {cfg : Config} {now : Int} (hclass : c = .event ∨ c = .alert)
    (hhas : c.Has codec raw) :
    EventExpired cfg codec now raw ↔ c.Older codec now (cfg.ttl c) raw := by
  unfold EventExpired RecordClass.Older
  rcases hclass with rfl | rfl
  · simp only [RecordClass.Has, isAlert] at hhas
    simp only [RecordClass.time, Config.ttl, Option.map_eq_some_iff]
    cases hread : codec.event raw with
    | none => simp
    | some ev =>
      simp only [hread, beq_eq_false_iff_ne] at hhas
      simp [hhas]
  · simp only [RecordClass.Has, isAlert] at hhas
    simp only [RecordClass.time, Config.ttl, Option.map_eq_some_iff]
    cases hread : codec.event raw with
    | none => simp [hread] at hhas
    | some ev =>
      simp only [hread, beq_iff_eq] at hhas
      simp [hhas]

theorem limitOf_eq {cfg : Config} (hclass : c = .event ∨ c = .alert) (hhas : c.Has codec raw) :
    cfg.limitOf codec raw = cfg.ttl c := by
  rcases hclass with rfl | rfl
  · exact if_neg (Bool.eq_false_iff.mp hhas)
  · exact if_pos hhas

/-- A sweep keeps a record of a class with a positive limit unless it commits and the
    record is older. -/
theorem lookup_sweep (hsound : s.Sound) (hpos : 0 < e.cfg.ttl c) (hlt : e.cfg.ttl c < 2 ^ 63 - 1)
    (hhas : c.Has codec raw) (hlookup : lookup s.db c.bucket key = some raw) :
    lookup (e.act codec s (.sweep env)).db c.bucket key = some raw
      ↔ ¬ (env.Commits c ∧ c.Older codec env.now (e.cfg.ttl c) raw) := by
  have hswept := (hsound.sweep e codec env).2
  have hevent : c = .event ∨ c = .alert → lookup s.db "events" key = some raw →
      (key ∈ (e.expiredEvents codec env.now s.db).map Prod.fst
        ↔ c.Older codec env.now (e.cfg.ttl c) raw) := by
    intro hclass hlookup
    have hlimit := @limitOf_eq codec raw c e.cfg hclass hhas
    rw [mem_expiredEvents_iff, hlookup]
    simp only [Option.some.injEq, exists_eq_left']
    rw [shouldDropEvent_iff_of_limit (by rwa [hlimit]) (by rwa [hlimit]), eventExpired_iff hclass hhas]
  cases c with
  | event =>
    rw [← hevent (.inl rfl) hlookup]
    exact hswept.events key raw hlookup
  | alert =>
    rw [← hevent (.inr rfl) hlookup]
    exact hswept.events key raw hlookup
  | asset =>
    have hasset : key ∈ e.staleAssets codec env.now s.db
        ↔ RecordClass.asset.Older codec env.now (e.cfg.ttl .asset) raw := by
      rw [mem_staleAssets_iff, show lookup s.db "assets" key = some raw from hlookup]
      simp only [Option.some.injEq, exists_eq_left']
      exact assetIsStale_iff hpos hlt
    rw [← hasset]
    exact hswept.assets key raw hlookup

/-- The constructor fills in a default. -/
theorem ttl_newEngine {db : Option Store} (hnew : newEngine cfg db = .ok e) (hzero : cfg.ttl c = 0) :
    e.cfg.ttl c = c.defaultTTL := by
  cases db with
  | none => contradiction
  | some s =>
    obtain rfl := Except.ok.inj hnew
    cases c
    all_goals exact if_pos hzero

theorem defaultTTL_inRange (c : RecordClass) : 0 < c.defaultTTL ∧ c.defaultTTL < 2 ^ 63 - 1 := by
  cases c
  all_goals decide

/-! ## Section 5: Zero limits -/

/-- In a run of an engine, the sweeps keep every record of the classes whose limit is zero
    exactly when none of them is older than the default of its class when a sweep commits. -/
theorem zero_ttl_keeps_iff {disk : Disk (Option Db)} {path : String} {actions : List EngineAction}
    (hopen : openStore disk path = some s) (hnew : newEngine cfg (some s) = .ok e) :
    KeepsForEver cfg e codec s actions ↔ NoneOld cfg e codec s actions := by
  have hsweep : ∀ done env (c : RecordClass), cfg.ttl c = 0 → ∀ key raw, c.Has codec raw →
      lookup (e.run codec s done).db c.bucket key = some raw →
      (lookup (e.run codec s (done ++ [.sweep env])).db c.bucket key = some raw
        ↔ ¬ (env.Commits c ∧ c.Older codec env.now c.defaultTTL raw)) := by
    intro done env c hzero key raw hhas hlookup
    have hsound := (Store.Sound.of_openStore hopen).run e codec done
    have httl := ttl_newEngine hnew hzero
    have hrange := defaultTTL_inRange c
    unfold Engine.run at hlookup hsound ⊢
    rw [List.foldl_append, List.foldl_cons, List.foldl_nil,
      lookup_sweep hsound (by omega) (by omega) hhas hlookup, httl]
  constructor
  · intro hkeeps done env hdone c hzero hcommits key raw hhas hlookup hold
    have hkept := hkeeps done env hdone c hzero key raw hhas hlookup
    exact (hsweep done env c hzero key raw hhas hlookup).mp hkept ⟨hcommits, hold⟩
  · intro hnone done env hdone c hzero key raw hhas hlookup
    rw [hsweep done env c hzero key raw hhas hlookup]
    rintro ⟨hcommits, hold⟩
    exact hnone done env hdone c hzero hcommits key raw hhas hlookup hold

/-- Every limit is zero: nothing is to be removed. -/
def keepAll : Config := ⟨0, 0, 0, 0, 0⟩

/-- A sweep on the hundredth day after the epoch. -/
def hundredDaysLater : SweepEnv := ⟨none, 100 * day, none, none, 0, none, none, 100 * day⟩

theorem openStore_epoch : openStore epochStore.disk "owasaka.db" = some epochStore := rfl

theorem newEngine_keepAll : newEngine keepAll (some epochStore) = .ok ⟨keepAll.ensureDefaults⟩ := rfl

theorem zero_ttl_keeps_iff_epoch :
    KeepsForEver keepAll ⟨keepAll.ensureDefaults⟩ epochCodec epochStore [.sweep hundredDaysLater]
      ↔ NoneOld keepAll ⟨keepAll.ensureDefaults⟩ epochCodec epochStore [.sweep hundredDaysLater] :=
  zero_ttl_keeps_iff openStore_epoch newEngine_keepAll

/-- The event of the epoch is removed, by an engine whose limits are all zero. -/
theorem zero_ttl_removes_event :
    openStore epochStore.disk "owasaka.db" = some epochStore
      ∧ newEngine keepAll (some epochStore) = .ok ⟨keepAll.ensureDefaults⟩
      ∧ lookup epochStore.db "events" (Bytes.ascii "event-1") = some epochEvent
      ∧ ¬ KeepsForEver keepAll ⟨keepAll.ensureDefaults⟩ epochCodec epochStore
          [.sweep hundredDaysLater] := by
  have hstored : lookup epochStore.db "events" (Bytes.ascii "event-1") = some epochEvent := by
    decide +kernel
  have hgone : lookup (Engine.run ⟨keepAll.ensureDefaults⟩ epochCodec epochStore
      [.sweep hundredDaysLater]).db "events" (Bytes.ascii "event-1") = none := by
    decide +kernel
  have hclass : isAlert epochCodec epochEvent = false := by
    decide +kernel
  refine ⟨openStore_epoch, newEngine_keepAll, hstored, ?_⟩
  intro hkeeps
  have hkept := hkeeps [] hundredDaysLater (List.prefix_rfl) .event rfl _ _ hclass hstored
  exact absurd (hgone.symm.trans hkept) (by simp)

end Owasaka.Retention
