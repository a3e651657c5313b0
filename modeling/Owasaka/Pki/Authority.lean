import Owasaka.Foundation.Lookup
import Owasaka.Foundation.Signature
import Owasaka.Foundation.System

/-! # The key authority (`pki`)

    Ed25519 key pairs with their lifecycle, the in-memory key store and the
    operations of the authority over it.

    What a call takes from outside is gathered in `Env`: the clock, the entropy,
    the UUID, the order in which the store's map is iterated, and the errors of
    the store and of `crypto/x509`.  Times are nanoseconds since the Unix epoch.

    A call changes the store by a few kinds of `Change` only; every fact about
    runs is proved once per kind. -/

namespace Owasaka.Pki

/-! ## Section 1: Keys -/

/-- `Purpose` is a Go string: callers may pass any. -/
structure Purpose where
  text : String
  deriving DecidableEq

def purposeCA : Purpose := ⟨"ca"⟩
def purposeJWTSigning : Purpose := ⟨"jwt-signing"⟩
def purposeServiceCert : Purpose := ⟨"service-cert"⟩
def purposeEventSigning : Purpose := ⟨"event-signing"⟩
def purposeTransparencyLogSTH : Purpose := ⟨"transparency-sth"⟩

inductive KeyStatus where
  | active
  | rotating
  | retired
  deriving DecidableEq

structure KeyPair where
  id : String
  purpose : Purpose
  publicKey : Bytes
  privateKey : Bytes
  status : KeyStatus
  createdAt : Int
  notBefore : Int
  notAfter : Int
  deriving DecidableEq

namespace KeyPair

def isUsable (k : KeyPair) (t : Int) : Bool :=
  if k.status ≠ .active then false
  else if t < k.notBefore ∨ t > k.notAfter then false
  else true

def isVerifyable (k : KeyPair) (t : Int) : Bool :=
  if k.status = .retired then false else !(t > k.notAfter)

theorem isVerifyable_iff (k : KeyPair) (t : Int) :
    k.isVerifyable t = true ↔ k.status ≠ .retired ∧ t ≤ k.notAfter := by
  unfold isVerifyable
  by_cases hret : k.status = .retired
  · simp [hret]
  · simp [hret]

end KeyPair

/-- The errors of the package; `cause` is the text of a wrapped error. -/
inductive PkiError where
  | keyNotFound
  | noActiveKey
  | invalidPurpose
  | authorityNoRoot
  | subjectRequired
  | generate (cause : String)
  | randomSerial (cause : String)
  | signLeafCert (cause : String)
  | parseLeafCert (cause : String)
  /-- An error of another `KeyStore`, passed on as it is. -/
  | store (cause : String)
  deriving DecidableEq

/-! ## Section 2: The key store -/

/-- `MemoryKeyStore`: the keys by ID. -/
abbrev KeyStore : Type := Std.ExtTreeMap String KeyPair

namespace KeyStore

def get (s : KeyStore) (id : String) : Except PkiError KeyPair :=
  match s[id]? with
  | none => .error .keyNotFound
  | some kp => .ok kp

/-- `FindByPurpose`, with the map iterated in the given order. -/
def findByPurpose (order : List KeyPair) (purpose : Purpose) : List KeyPair :=
  order.filter fun kp => kp.purpose = purpose

/-- `ActiveByPurpose`, with the map iterated in the given order. -/
def activeByPurpose (order : List KeyPair) (purpose : Purpose) : Except PkiError KeyPair :=
  match order.find? fun kp => kp.purpose = purpose ∧ kp.status = .active with
  | none => .error .noActiveKey
  | some kp => .ok kp

def save (s : KeyStore) (kp : KeyPair) : Except PkiError KeyStore :=
  if kp.id = "" then .error .keyNotFound else .ok (s.insert kp.id kp)

def updateStatus (s : KeyStore) (id : String) (status : KeyStatus) : Except PkiError KeyStore :=
  match s[id]? with
  | none => .error .keyNotFound
  | some kp => .ok (s.insert id { kp with status := status })

/-- The map is iterated in any order. -/
def Order (s : KeyStore) (order : List KeyPair) : Prop := order.Perm (s.toList.map Prod.snd)

end KeyStore

/-! ## Section 3: The authority -/

/-- What one call takes from outside. -/
structure Env where
  now : Int
  /-- The iteration order of the store's map. -/
  order : List KeyPair
  /-- `uuid.NewString()`. -/
  id : String
  /-- The private key that `ed25519.GenerateKey` returns, or its error. -/
  entropy : Except String Bytes
  lookupFault : Option String
  updateFault : Option String
  saveFault : Option String
  /-- The error of issuing the certificate once its key is stored. -/
  certFault : Option PkiError

/-- The environment of a call that meets no error. -/
def quietEnv (now : Int) (order : List KeyPair) (id : String) (priv : Bytes) : Env :=
  ⟨now, order, id, .ok priv, none, none, none, none⟩

/-- A store call that may fail before it does anything. -/
def faulty {α : Type} (fault : Option String) (r : Except PkiError α) : Except PkiError α :=
  match fault with
  | some e => .error (.store e)
  | none => r

def generateKeyPair (ed : SignatureScheme) (env : Env) (purpose : Purpose) (ttl : Int)
    (s : KeyStore) : Except PkiError KeyPair × KeyStore :=
  if purpose.text = "" then (.error .invalidPurpose, s)
  else
    match env.entropy with
    | .error e => (.error (.generate e), s)
    | .ok priv =>
      let kp : KeyPair :=
        { id := env.id, purpose := purpose, publicKey := ed.publicKey priv, privateKey := priv,
          status := .active, createdAt := env.now, notBefore := env.now,
          notAfter := env.now + ttl }
      match faulty env.saveFault (s.save kp) with
      | .error e => (.error e, s)
      | .ok s' => (.ok kp, s')

def activeKey (env : Env) (purpose : Purpose) : Except PkiError KeyPair :=
  faulty env.lookupFault (KeyStore.activeByPurpose env.order purpose)

def getKey (s : KeyStore) (id : String) : Except PkiError KeyPair := s.get id

def keysForPurpose (order : List KeyPair) (purpose : Purpose) : List KeyPair :=
  KeyStore.findByPurpose order purpose

def rotate (ed : SignatureScheme) (env : Env) (purpose : Purpose) (newTTL : Int) (s : KeyStore) :
    Except PkiError KeyPair × KeyStore :=
  match activeKey env purpose with
  | .ok current =>
    match faulty env.updateFault (s.updateStatus current.id .rotating) with
    | .error e => (.error e, s)
    | .ok s' => generateKeyPair ed env purpose newTTL s'
  | .error e =>
    if e = .noActiveKey then generateKeyPair ed env purpose newTTL s else (.error e, s)

def retire (env : Env) (id : String) (s : KeyStore) : Except PkiError Unit × KeyStore :=
  match faulty env.updateFault (s.updateStatus id .retired) with
  | .error e => (.error e, s)
  | .ok s' => (.ok (), s')

def ensureRootCA (ed : SignatureScheme) (env : Env) (ttl : Int) (s : KeyStore) :
    Except PkiError KeyPair × KeyStore :=
  match activeKey env purposeCA with
  | .ok kp => (.ok kp, s)
  | .error e =>
    if e = .noActiveKey then generateKeyPair ed env purposeCA ttl s else (.error e, s)

/-- `IssuedCert`, less the X.509 certificate itself. -/
structure IssuedCert where
  subject : String
  keyPair : KeyPair
  rootKeyID : String

def issueServiceCert (ed : SignatureScheme) (env : Env) (subject : String) (ttl : Int)
    (s : KeyStore) : Except PkiError IssuedCert × KeyStore :=
  if subject = "" then (.error .subjectRequired, s)
  else
    match activeKey env purposeCA with
    | .error e => (.error (if e = .noActiveKey then .authorityNoRoot else e), s)
    | .ok root =>
      match generateKeyPair ed env purposeServiceCert ttl s with
      | (.error e, s') => (.error e, s')
      | (.ok leafKP, s') =>
        match env.certFault with
        -- the key is already stored
        | some e => (.error e, s')
        | none => (.ok ⟨subject, leafKP, root.id⟩, s')

inductive AuthorityCall where
  | generateKeyPair (purpose : Purpose) (ttl : Int)
  | rotate (purpose : Purpose) (newTTL : Int)
  | retire (id : String)
  | ensureRootCA (ttl : Int)
  | issueServiceCert (subject : String) (ttl : Int)

/-- The store after a call. -/
def AuthorityCall.store (ed : SignatureScheme) (env : Env) (s : KeyStore) :
    AuthorityCall → KeyStore
  | .generateKeyPair purpose ttl => (Pki.generateKeyPair ed env purpose ttl s).2
  | .rotate purpose newTTL => (Pki.rotate ed env purpose newTTL s).2
  | .retire id => (Pki.retire env id s).2
  | .ensureRootCA ttl => (Pki.ensureRootCA ed env ttl s).2
  | .issueServiceCert subject ttl => (Pki.issueServiceCert ed env subject ttl s).2

/-- The store and the time of the last call. -/
structure AuthorityState where
  store : KeyStore
  now : Int

/-- Runs of the authority.  UUIDs are not empty and do not repeat. -/
def authoritySystem (ed : SignatureScheme) : System AuthorityState (AuthorityCall × Env) where
  init := fun s => s.store = ∅
  step := fun s l s' =>
    s.store.Order l.2.order ∧ l.2.id ≠ "" ∧ l.2.id ∉ s.store
      ∧ s' = ⟨l.1.store ed l.2 s.store, l.2.now⟩

/-! ## Section 4: What a call can do to the store -/

/-- The changes of the store that a call is made of. -/
inductive Change (ed : SignatureScheme) (call : AuthorityCall) (env : Env) :
    KeyStore → KeyStore → Prop where
  /-- `Rotate` lets an active key make way; `Retire` retires the key it names. -/
  | status {s : KeyStore} {id : String} {kp : KeyPair} {st : KeyStatus} :
      s[id]? = some kp →
      (st = .rotating ∧ kp.status = .active) ∨ (st = .retired ∧ call = .retire id) →
      Change ed call env s (s.insert id { kp with status := st })
  /-- A new key, active from now on. -/
  | added {s : KeyStore} {kp : KeyPair} :
      kp.id = env.id → kp.publicKey = ed.publicKey kp.privateKey → kp.status = .active →
      kp.notBefore = env.now → Change ed call env s (s.insert kp.id kp)

variable {ed : SignatureScheme} {env : Env} {call : AuthorityCall} {s s' : KeyStore}

theorem KeyStore.Order.mem {order : List KeyPair} (horder : s.Order order) {kp : KeyPair} :
    kp ∈ order ↔ ∃ id : String, s[id]? = some kp := by
  rw [horder.mem_iff, List.mem_map]
  constructor
  · rintro ⟨⟨id, kp'⟩, hmem, rfl⟩
    exact ⟨id, Std.ExtTreeMap.mem_toList_iff_getElem?_eq_some.mp hmem⟩
  · intro ⟨id, hget⟩
    exact ⟨(id, kp), Std.ExtTreeMap.mem_toList_iff_getElem?_eq_some.mpr hget, rfl⟩

/-- The key that `ActiveByPurpose` returns is in the store, active and of the purpose. -/
theorem KeyStore.activeByPurpose_ok {order : List KeyPair} (horder : s.Order order)
    {purpose : Purpose} {kp : KeyPair} (hok : activeByPurpose order purpose = .ok kp) :
    (∃ id : String, s[id]? = some kp) ∧ kp.purpose = purpose ∧ kp.status = .active := by
  unfold activeByPurpose at hok
  split at hok
  · contradiction
  · rename_i kp' hfind
    cases hok
    have hprop := List.find?_some hfind
    simp only [decide_eq_true_eq] at hprop
    exact ⟨horder.mem.mp (List.mem_of_find?_eq_some hfind), hprop⟩

theorem faulty_ok {α : Type} {fault : Option String} {r : Except PkiError α} {a : α}
    (hok : faulty fault r = .ok a) : fault = none ∧ r = .ok a := by
  unfold faulty at hok
  cases fault with
  | some e => contradiction
  | none => exact ⟨rfl, hok⟩

theorem generateKeyPair_change (purpose : Purpose) (ttl : Int) (s : KeyStore) :
    (generateKeyPair ed env purpose ttl s).2 = s
      ∨ Change ed call env s (generateKeyPair ed env purpose ttl s).2 := by
  unfold generateKeyPair
  split
  · exact Or.inl rfl
  · split
    · exact Or.inl rfl
    · rename_i priv _
      simp only
      split
      · exact Or.inl rfl
      · rename_i s' hsave
        obtain ⟨_, hsave⟩ := faulty_ok hsave
        unfold KeyStore.save at hsave
        split at hsave
        · contradiction
        · cases hsave
          exact Or.inr (.added rfl rfl rfl rfl)

/-- Every key is stored under its own ID, which is not empty, with the public
    key of its private key. -/
def WellKept (ed : SignatureScheme) (s : KeyStore) : Prop :=
  ∀ id kp, s[id]? = some kp →
    kp.id = id ∧ id ≠ "" ∧ kp.publicKey = ed.publicKey kp.privateKey

/-- **Step lemma**: a call is a sequence of changes. -/
theorem changes_of_call (call : AuthorityCall) (hkept : WellKept ed s)
    (horder : s.Order env.order) :
    Relation.ReflTransGen (Change ed call env) s (call.store ed env s) := by
  have hgen : ∀ purpose ttl s', Relation.ReflTransGen (Change ed call env) s'
      (generateKeyPair ed env purpose ttl s').2 := by
    intro purpose ttl s'
    rcases @generateKeyPair_change ed env call purpose ttl s' with heq | hchange
    · rw [heq]
    · exact .single hchange
  cases call with
  | generateKeyPair purpose ttl => exact hgen purpose ttl s
  | rotate purpose newTTL =>
    simp only [AuthorityCall.store, rotate]
    split
    · rename_i current hactive
      obtain ⟨_, hactive⟩ := faulty_ok hactive
      obtain ⟨⟨id, hget⟩, _, hstatus⟩ := KeyStore.activeByPurpose_ok horder hactive
      -- the key is updated under its ID, which is the key it is stored under
      obtain ⟨rfl, _, _⟩ := hkept id current hget
      simp only [KeyStore.updateStatus, hget]
      split
      · exact .refl
      · rename_i s' hupd
        obtain ⟨_, hupd⟩ := faulty_ok hupd
        cases hupd
        -- the old key rotates first, also when the new one is not generated
        exact .head (.status hget (Or.inl ⟨rfl, hstatus⟩)) (hgen _ _ _)
    · split
      · exact hgen purpose newTTL s
      · exact .refl
  | retire id =>
    simp only [AuthorityCall.store, retire]
    split
    · exact .refl
    · rename_i s' hupd
      obtain ⟨_, hupd⟩ := faulty_ok hupd
      unfold KeyStore.updateStatus at hupd
      split at hupd
      · contradiction
      · rename_i kp hget
        cases hupd
        exact .single (.status hget (Or.inr ⟨rfl, rfl⟩))
  | ensureRootCA ttl =>
    simp only [AuthorityCall.store, ensureRootCA]
    split
    · exact .refl
    · split
      · exact hgen purposeCA ttl s
      · exact .refl
  | issueServiceCert subject ttl =>
    have hservice := hgen purposeServiceCert ttl s
    simp only [AuthorityCall.store, issueServiceCert]
    split
    · exact .refl
    · split
      · exact .refl
      · split
        · rename_i hgenerate
          rw [hgenerate] at hservice
          exact hservice
        · -- the key stays when the certificate fails
          rename_i hgenerate
          rw [hgenerate] at hservice
          split <;> exact hservice

theorem WellKept.change (hid : env.id ≠ "") (hkept : WellKept ed s)
    (hchange : Change ed call env s s') : WellKept ed s' := by
  intro id kp hget
  cases hchange with
  | @status id' kp' st hold _ =>
    rcases getElem?_insert_cases hget with ⟨rfl, rfl⟩ | ⟨_, hget⟩
    · exact hkept id kp' hold
    · exact hkept id kp hget
  | @added kp' hnew hpublic _ _ =>
    rcases getElem?_insert_cases hget with ⟨rfl, rfl⟩ | ⟨_, hget⟩
    · exact ⟨rfl, by rw [hnew]; exact hid, hpublic⟩
    · exact hkept id kp hget

theorem WellKept.changes (hid : env.id ≠ "") (hkept : WellKept ed s)
    (hchanges : Relation.ReflTransGen (Change ed call env) s s') : WellKept ed s' := by
  induction hchanges with
  | refl => exact hkept
  | tail _ hchange ih => exact ih.change hid hchange

/-- **Run lemma**: every reachable store is well kept. -/
theorem wellKept_of_reachable {s : AuthorityState} (hreach : (authoritySystem ed).Reachable s) :
    WellKept ed s.store := by
  refine hreach.invariant (P := fun s => WellKept ed s.store) ?_ ?_
  · intro s hinit id kp hget
    rw [hinit] at hget
    simp at hget
  · rintro s ⟨call, env⟩ s' hkept ⟨horder, hid, _, rfl⟩
    exact hkept.changes hid (changes_of_call call hkept horder)

/-- A key that a caller takes as active is in the store under its ID. -/
theorem activeKey_ok (hkept : WellKept ed s) (horder : s.Order env.order) {purpose : Purpose}
    {kp : KeyPair} (hok : activeKey env purpose = .ok kp) :
    s[kp.id]? = some kp ∧ kp.id ≠ "" ∧ kp.purpose = purpose ∧ kp.status = .active
      ∧ kp.publicKey = ed.publicKey kp.privateKey := by
  obtain ⟨_, hfind⟩ := faulty_ok hok
  obtain ⟨⟨id, hget⟩, hpurpose, hstatus⟩ := KeyStore.activeByPurpose_ok horder hfind
  obtain ⟨rfl, hne, hpublic⟩ := hkept id kp hget
  exact ⟨hget, hne, hpurpose, hstatus, hpublic⟩

/-! ## Section 5: Keys stay in the store -/

/-- Every key stays, up to its status. -/
def KeysStay (s s' : KeyStore) : Prop :=
  ∀ (id : String) (kp : KeyPair), s[id]? = some kp → ∃ st, s'[id]? = some { kp with status := st }

theorem KeysStay.refl (store : KeyStore) : KeysStay store store := by
  intro id kp hget
  exact ⟨kp.status, hget⟩

theorem KeysStay.trans {s s' s'' : KeyStore} (hstay : KeysStay s s') (hstay' : KeysStay s' s'') :
    KeysStay s s'' := by
  intro id kp hget
  obtain ⟨st, hst⟩ := hstay id kp hget
  exact hstay' id { kp with status := st } hst

theorem keysStay_of_changes (hfresh : env.id ∉ s)
    (hchanges : Relation.ReflTransGen (Change ed call env) s s') : KeysStay s s' := by
  intro id kp hget
  have hne : id ≠ env.id := by
    rintro rfl
    rw [Std.ExtTreeMap.getElem?_eq_none hfresh] at hget
    contradiction
  induction hchanges with
  | refl => exact ⟨kp.status, hget⟩
  | tail _ hchange ih =>
    obtain ⟨st, hst⟩ := ih
    cases hchange with
    | @status id' kp' st' hold _ =>
      rw [getElem?_insert_ite]
      by_cases heq : id = id'
      · subst heq
        rw [hst] at hold
        cases hold
        exact ⟨st', by simp⟩
      · exact ⟨st, by rw [if_neg heq]; exact hst⟩
    | added hnew _ _ _ =>
      rw [getElem?_insert_ite, hnew, if_neg hne]
      exact ⟨st, hst⟩

theorem keysStay_of_step {s s' : AuthorityState} {l : AuthorityCall × Env}
    (hkept : WellKept ed s.store) (hstep : (authoritySystem ed).step s l s') :
    WellKept ed s'.store ∧ KeysStay s.store s'.store := by
  obtain ⟨horder, hid, hfresh, rfl⟩ := hstep
  have hchanges := changes_of_call l.1 hkept horder
  exact ⟨hkept.changes hid hchanges, keysStay_of_changes hfresh hchanges⟩

theorem keysStay_of_steps {s s' : AuthorityState} (hkept : WellKept ed s.store)
    (hrun : (authoritySystem ed).Steps s s') : WellKept ed s'.store ∧ KeysStay s.store s'.store := by
  induction hrun with
  | refl => exact ⟨hkept, KeysStay.refl _⟩
  | tail _ hnext ih =>
    obtain ⟨l, hstep⟩ := hnext
    obtain ⟨hkept', hstay'⟩ := keysStay_of_step ih.1 hstep
    exact ⟨hkept', ih.2.trans hstay'⟩

end Owasaka.Pki
