import Owasaka.Pki.Authority

/-! # Rotation and the sole signer

    `Rotate` moves the active key of a purpose to `rotating` and adds a new active
    key.  `GenerateKeyPair` and `IssueServiceCert` may leave several active keys of
    one purpose; `ActiveByPurpose` then returns any of them, and `Rotate` moves
    that one only.

    The main result: in every reachable store, a rotation leaves a sole signer if
    and only if at most one key of the purpose was active before. -/

namespace Owasaka.Pki

variable {ed : SignatureScheme} {env : Env} {s s' : KeyStore}

/-! ## Section 1: What `Rotate` does -/

/-- The key is in the store, active and of the purpose. -/
def ActiveAt (s : KeyStore) (purpose : Purpose) (id : String) (kp : KeyPair) : Prop :=
  s[id]? = some kp ∧ kp.purpose = purpose ∧ kp.status = .active

/-- No two keys of the purpose are active. -/
def AtMostOneActive (s : KeyStore) (purpose : Purpose) : Prop :=
  ∀ id id' kp kp', ActiveAt s purpose id kp → ActiveAt s purpose id' kp' → id = id'

theorem activeByPurpose_error {order : List KeyPair} (horder : s.Order order) {purpose : Purpose}
    {e : PkiError} (herror : KeyStore.activeByPurpose order purpose = .error e) (id : String)
    (kp : KeyPair) : ¬ ActiveAt s purpose id kp := by
  intro ⟨hget, hpurpose, hactive⟩
  unfold KeyStore.activeByPurpose at herror
  split at herror
  · rename_i hnone
    rw [List.find?_eq_none] at hnone
    exact hnone kp (horder.mem.mpr ⟨id, hget⟩) (by simp [hpurpose, hactive])
  · contradiction

/-- A generated key is new, active and the only change. -/
theorem generateKeyPair_ok {purpose : Purpose} {ttl : Int} {kp : KeyPair}
    (hok : (generateKeyPair ed env purpose ttl s).1 = .ok kp) :
    kp.id = env.id ∧ kp.purpose = purpose ∧ kp.status = .active
      ∧ (generateKeyPair ed env purpose ttl s).2 = s.insert kp.id kp := by
  unfold generateKeyPair at hok ⊢
  split at hok
  · contradiction
  · rename_i hpurpose
    rw [if_neg hpurpose]
    split at hok
    · contradiction
    · simp only at hok ⊢
      split at hok
      · contradiction
      · rename_i saved hsave
        obtain ⟨_, hsave⟩ := faulty_ok hsave
        unfold KeyStore.save at hsave
        split at hsave
        · contradiction
        · cases hok
          cases hsave
          exact ⟨rfl, rfl, rfl, rfl⟩

/-- The store before the new key is added: an active key made way, or there was none. -/
def MadeWay (s s₁ : KeyStore) (purpose : Purpose) : Prop :=
  (s₁ = s ∧ ∀ id kp, ¬ ActiveAt s purpose id kp)
    ∨ ∃ id kp, ActiveAt s purpose id kp ∧ s₁ = s.insert id { kp with status := .rotating }

theorem rotate_ok (hkept : WellKept ed s) (horder : s.Order env.order) {purpose : Purpose}
    {ttl : Int} {kp : KeyPair} (hok : (rotate ed env purpose ttl s).1 = .ok kp) :
    ∃ s₁, MadeWay s s₁ purpose ∧ kp.id = env.id ∧ kp.purpose = purpose ∧ kp.status = .active
      ∧ (rotate ed env purpose ttl s).2 = s₁.insert kp.id kp := by
  unfold rotate at hok ⊢
  -- there is an active key to make way, or there is none
  cases hlookup : activeKey env purpose with
  | ok current =>
    obtain ⟨_, hactive⟩ := faulty_ok hlookup
    obtain ⟨⟨id, hget⟩, hpurpose, hstatus⟩ := KeyStore.activeByPurpose_ok horder hactive
    obtain ⟨rfl, _, _⟩ := hkept id current hget
    simp only [hlookup, KeyStore.updateStatus, hget] at hok ⊢
    cases hupdate : faulty env.updateFault
        (.ok (s.insert current.id { current with status := .rotating })) with
    | error e => simp [hupdate] at hok
    | ok s₁ =>
      simp only [hupdate] at hok ⊢
      obtain ⟨_, hs₁⟩ := faulty_ok hupdate
      cases hs₁
      exact ⟨_, Or.inr ⟨current.id, current, ⟨hget, hpurpose, hstatus⟩, rfl⟩,
        generateKeyPair_ok hok⟩
  | error e =>
    simp only [hlookup] at hok ⊢
    -- `ErrNoActiveKey` is the only error that lets the rotation go on
    split at hok
    · rename_i hnone
      subst hnone
      rw [if_pos rfl]
      refine ⟨s, Or.inl ⟨rfl, ?_⟩, generateKeyPair_ok hok⟩
      unfold activeKey faulty at hlookup
      split at hlookup
      · simp at hlookup
      · exact activeByPurpose_error horder hlookup
    · contradiction

theorem activeAt_insert_iff {purpose : Purpose} {id id' : String} {kp kp' : KeyPair} :
    ActiveAt (s.insert id kp) purpose id' kp' ↔
      (id' = id ∧ kp' = kp ∧ kp.purpose = purpose ∧ kp.status = .active)
        ∨ (id' ≠ id ∧ ActiveAt s purpose id' kp') := by
  unfold ActiveAt
  rw [getElem?_insert_ite]
  by_cases heq : id' = id
  · simp only [heq, if_true, Option.some.injEq, ne_eq, not_true_eq_false, false_and, or_false,
      true_and]
    constructor
    · rintro ⟨rfl, hpurpose, hactive⟩
      exact ⟨rfl, hpurpose, hactive⟩
    · rintro ⟨rfl, hpurpose, hactive⟩
      exact ⟨rfl, hpurpose, hactive⟩
  · simp [heq]

/-! ## Section 2: The sole signer -/

/-- What a successful rotation is for. -/
structure SoleSigner (s s' : KeyStore) (purpose : Purpose) (kp : KeyPair) : Prop where
  /-- The new key is active, and no other key of the purpose is. -/
  sole : ∀ id k, ActiveAt s' purpose id k ↔ id = kp.id ∧ k = kp
  /-- In every order of the map, the new key signs. -/
  signs : ∀ order, s'.Order order → KeyStore.activeByPurpose order purpose = .ok kp
  /-- Keys of other purposes and retired keys stay as they are. -/
  others : ∀ (id : String) (k : KeyPair), s[id]? = some k →
    k.purpose ≠ purpose ∨ k.status = .retired → s'[id]? = some k

/-- The call does not make a key active that was in the store and was not. -/
def NeverReactivated (s s' : KeyStore) : Prop :=
  ∀ (id : String) (k k' : KeyPair), s[id]? = some k → s'[id]? = some k' → k'.status = .active →
    k.status = .active

theorem signs_of_sole {purpose : Purpose} {kp : KeyPair}
    (hsole : ∀ id k, ActiveAt s purpose id k ↔ id = kp.id ∧ k = kp) {order : List KeyPair}
    (horder : s.Order order) : KeyStore.activeByPurpose order purpose = .ok kp := by
  cases hfind : KeyStore.activeByPurpose order purpose with
  | error e => exact absurd ((hsole kp.id kp).mpr ⟨rfl, rfl⟩) (activeByPurpose_error horder hfind _ _)
  | ok k =>
    obtain ⟨⟨id, hget⟩, hpurpose, hactive⟩ := KeyStore.activeByPurpose_ok horder hfind
    rw [((hsole id k).mp ⟨hget, hpurpose, hactive⟩).2]

/-- Rotation leaves keys alone that it neither moves nor adds. -/
theorem MadeWay.others {s₁ : KeyStore} {purpose : Purpose} (hway : MadeWay s s₁ purpose)
    {id : String} {k : KeyPair} (hget : s[id]? = some k)
    (hother : k.purpose ≠ purpose ∨ k.status = .retired) : s₁[id]? = some k := by
  rcases hway with ⟨rfl, _⟩ | ⟨id', kp, ⟨hget', hpurpose, hactive⟩, rfl⟩
  · exact hget
  · rw [getElem?_insert_ite, if_neg]
    · exact hget
    · rintro rfl
      rw [hget'] at hget
      cases hget
      rcases hother with hne | hretired
      · exact hne hpurpose
      · rw [hactive] at hretired
        contradiction

/-- What is active after an active key made way was active before. -/
theorem MadeWay.activeAt_iff {s₁ : KeyStore} {purpose : Purpose} (hway : MadeWay s s₁ purpose) :
    (∀ id k, ¬ ActiveAt s₁ purpose id k) ↔ AtMostOneActive s purpose := by
  rcases hway with ⟨rfl, hnone⟩ | ⟨id, kp, hactive, rfl⟩
  · constructor
    · intro _ id id' k k' hk _
      exact absurd hk (hnone id k)
    · intro _
      exact hnone
  · constructor
    · intro hnone
      -- a second active key would be active still
      have honly : ∀ id' k, ActiveAt s purpose id' k → id' = id := by
        intro id' k hk
        by_contra hne
        exact hnone id' k (activeAt_insert_iff.mpr (Or.inr ⟨hne, hk⟩))
      intro id₁ id₂ k₁ k₂ hk₁ hk₂
      rw [honly id₁ k₁ hk₁, honly id₂ k₂ hk₂]
    · intro hone id' k hk
      rcases activeAt_insert_iff.mp hk with ⟨_, _, _, hrotating⟩ | ⟨hne, hk'⟩
      · contradiction
      · exact hne (hone id' id k kp hk' hactive)

theorem neverReactivated_of_changes {call : AuthorityCall} (hfresh : env.id ∉ s)
    (hchanges : Relation.ReflTransGen (Change ed call env) s s') : NeverReactivated s s' := by
  intro id k k' hget
  have hne : id ≠ env.id := by
    rintro rfl
    exact hfresh (mem_of_getElem?_eq_some hget)
  induction hchanges generalizing k' with
  | refl =>
    intro hget' hactive
    rw [hget] at hget'
    cases hget'
    exact hactive
  | tail _ hchange ih =>
    intro hget' hactive
    cases hchange with
    | @status id' kp st hold hhow =>
      rcases getElem?_insert_cases hget' with ⟨rfl, rfl⟩ | ⟨_, hget'⟩
      · -- a change of status does not make a key active
        rcases hhow with ⟨rfl, _⟩ | ⟨rfl, _⟩
        · contradiction
        · contradiction
      · exact ih k' hget' hactive
    | added hnew _ _ _ =>
      rcases getElem?_insert_cases hget' with ⟨rfl, _⟩ | ⟨_, hget'⟩
      · exact absurd hnew hne
      · exact ih k' hget' hactive

/-- **Rotation** in a reachable store leaves a sole signer exactly when at most one
    key of the purpose was active; no call makes a key active again. -/
theorem rotation_soleSigner_iff {s : AuthorityState} (hreach : (authoritySystem ed).Reachable s) :
    (∀ l s', (authoritySystem ed).step s l s' → NeverReactivated s.store s'.store)
      ∧ ∀ env purpose newTTL s' kp, (authoritySystem ed).step s (.rotate purpose newTTL, env) s' →
          (rotate ed env purpose newTTL s.store).1 = .ok kp →
          (SoleSigner s.store s'.store purpose kp ↔ AtMostOneActive s.store purpose) := by
  have hkept := wellKept_of_reachable hreach
  constructor
  · rintro ⟨call, env⟩ s' ⟨horder, _, hfresh, rfl⟩
    exact neverReactivated_of_changes hfresh (changes_of_call call hkept horder)
  · rintro env purpose newTTL s' kp ⟨horder, _, hfresh, rfl⟩ hok
    obtain ⟨s₁, hway, hid, hpurpose, hactive, hstore⟩ := rotate_ok hkept horder hok
    have hs' : (AuthorityCall.rotate purpose newTTL).store ed env s.store = s₁.insert kp.id kp :=
      hstore
    have hnew : s.store[kp.id]? = none := by
      rw [hid]
      exact Std.ExtTreeMap.getElem?_eq_none hfresh
    simp only [hs']
    rw [← hway.activeAt_iff]
    constructor
    · intro hsigner id k hk
      -- a key that is active before the new one is added has another ID
      have hne : id ≠ kp.id := by
        rintro rfl
        obtain ⟨hget, _⟩ := hk
        rcases hway with ⟨rfl, _⟩ | ⟨id', k', ⟨hget', _⟩, rfl⟩
        · rw [hnew] at hget
          contradiction
        · rcases getElem?_insert_cases hget with ⟨heq, _⟩ | ⟨_, hget⟩
          · rw [heq, hget'] at hnew
            contradiction
          · rw [hnew] at hget
            contradiction
      exact hne ((hsigner.sole id k).mp (activeAt_insert_iff.mpr (Or.inr ⟨hne, hk⟩))).1
    · intro hnone
      have hsole : ∀ id k, ActiveAt (s₁.insert kp.id kp) purpose id k ↔ id = kp.id ∧ k = kp := by
        intro id k
        rw [activeAt_insert_iff]
        constructor
        · rintro (⟨rfl, rfl, _⟩ | ⟨_, hk⟩)
          · exact ⟨rfl, rfl⟩
          · exact absurd hk (hnone id k)
        · rintro ⟨rfl, rfl⟩
          exact Or.inl ⟨rfl, rfl, hpurpose, hactive⟩
      refine ⟨hsole, fun order horder => signs_of_sole hsole horder, ?_⟩
      intro id k hget hother
      rw [getElem?_insert_ite, if_neg]
      · exact hway.others hget hother
      · rintro rfl
        rw [hnew] at hget
        contradiction

/-! ## Section 3: A rotation that leaves two signers -/

def firstPrivate : Bytes := Bytes.bigEndian 64
  0x01010101010101010101010101010101010101010101010101010101010101018a88e3dd7409f195fd52db2d3cba5d72ca6709bf1d94121bf3748801b40f6f5c

def secondPrivate : Bytes := Bytes.bigEndian 64
  0x02020202020202020202020202020202020202020202020202020202020202028139770ea87d175f56a35466c34c7ecccb8d8a91b4ee37a25df60f5b8fc9b394

def thirdPrivate : Bytes := Bytes.bigEndian 64
  0x0303030303030303030303030303030303030303030303030303030303030303ed4928c628d1c2c6eae90338905995612959273a5c63f93636c14614ac8737d1

/-- A signing key for tokens, generated at time zero for a day. -/
def tokenKey (id : String) (priv : Bytes) : KeyPair :=
  ⟨id, purposeJWTSigning, priv.drop 32, priv, .active, 0, 0, 86400 * 10 ^ 9⟩

/-- Two keys are generated for one purpose, as in a forced rollover. -/
def rolloverStore : KeyStore :=
  ((∅ : KeyStore).insert "key-1" (tokenKey "key-1" firstPrivate)).insert "key-2"
    (tokenKey "key-2" secondPrivate)

/-- The rotation after it: the map is iterated from the first key on. -/
def rolloverEnv : Env :=
  quietEnv 0 [tokenKey "key-1" firstPrivate, tokenKey "key-2" secondPrivate] "key-3" thirdPrivate

def rolloverCall : AuthorityCall := .rotate purposeJWTSigning (86400 * 10 ^ 9)

/-- No signature is made in this run. -/
def rolloverScheme : SignatureScheme := SignatureScheme.known []

theorem rolloverStore_reachable : (authoritySystem rolloverScheme).Reachable ⟨rolloverStore, 0⟩ := by
  have hnone : (authoritySystem rolloverScheme).Reachable ⟨∅, 0⟩ := System.Reachable.init rfl
  have hfirst : (authoritySystem rolloverScheme).Reachable
      ⟨(∅ : KeyStore).insert "key-1" (tokenKey "key-1" firstPrivate), 0⟩ :=
    hnone.tail (l := (.generateKeyPair purposeJWTSigning (86400 * 10 ^ 9),
      quietEnv 0 [] "key-1" firstPrivate)) ⟨.refl _, by decide, by simp [quietEnv], rfl⟩
  exact hfirst.tail (l := (.generateKeyPair purposeJWTSigning (86400 * 10 ^ 9),
      quietEnv 0 [tokenKey "key-1" firstPrivate] "key-2" secondPrivate))
    ⟨.refl _, by decide, by simp [quietEnv], rfl⟩

theorem rollover_step : (authoritySystem rolloverScheme).step ⟨rolloverStore, 0⟩
    (rolloverCall, rolloverEnv) ⟨rolloverCall.store rolloverScheme rolloverEnv rolloverStore, 0⟩ :=
  ⟨.refl _, by decide, by simp [rolloverEnv, rolloverStore, quietEnv], rfl⟩

theorem rollover_rotate : (rotate rolloverScheme rolloverEnv purposeJWTSigning (86400 * 10 ^ 9)
    rolloverStore).1 = .ok (tokenKey "key-3" thirdPrivate) := rfl

theorem rotation_soleSigner_iff_rollover :
    (authoritySystem rolloverScheme).Reachable ⟨rolloverStore, 0⟩
      ∧ (SoleSigner rolloverStore (rolloverCall.store rolloverScheme rolloverEnv rolloverStore)
          purposeJWTSigning (tokenKey "key-3" thirdPrivate) ↔
        AtMostOneActive rolloverStore purposeJWTSigning) :=
  ⟨rolloverStore_reachable, (rotation_soleSigner_iff rolloverStore_reachable).2 rolloverEnv
    purposeJWTSigning (86400 * 10 ^ 9) _ _ rollover_step rollover_rotate⟩

/-- After the rotation the second key signs still. -/
theorem rotation_leaves_second_signer :
    (authoritySystem rolloverScheme).Reachable ⟨rolloverStore, 0⟩
      ∧ (authoritySystem rolloverScheme).step ⟨rolloverStore, 0⟩ (rolloverCall, rolloverEnv)
          ⟨rolloverCall.store rolloverScheme rolloverEnv rolloverStore, 0⟩
      ∧ (rotate rolloverScheme rolloverEnv purposeJWTSigning (86400 * 10 ^ 9) rolloverStore).1
          = .ok (tokenKey "key-3" thirdPrivate)
      ∧ ActiveAt (rolloverCall.store rolloverScheme rolloverEnv rolloverStore) purposeJWTSigning
          "key-2" (tokenKey "key-2" secondPrivate)
      ∧ ¬ SoleSigner rolloverStore (rolloverCall.store rolloverScheme rolloverEnv rolloverStore)
          purposeJWTSigning (tokenKey "key-3" thirdPrivate) := by
  have hsecond : ActiveAt (rolloverCall.store rolloverScheme rolloverEnv rolloverStore)
      purposeJWTSigning "key-2" (tokenKey "key-2" secondPrivate) := ⟨rfl, rfl, rfl⟩
  refine ⟨rolloverStore_reachable, rollover_step, rollover_rotate, hsecond, ?_⟩
  intro hsigner
  have hid := ((hsigner.sole _ _).mp hsecond).1
  exact absurd hid (by decide)

end Owasaka.Pki
