import Owasaka.Foundation.InPlace
import Owasaka.Foundation.System
import Owasaka.Identity.Authenticator

/-! # The credential lists of principals (`identity/memory_store.go`)

    The credential store keeps the credentials by kind and subject, and beside them
    a list of keys for each principal.  `Lookup` goes through the list of the
    principal and returns what stands under its keys by then.

    `Save` adds the key to the list of the new owner and leaves the list of an
    earlier owner as it is, so that the earlier owner then looks up a credential of
    the new one.  `Revoke` takes the key from the list of the owner, unless the
    owner's ID is empty.  The main result: the lists are exact all along a run of
    calls if and only if no `Save` finds its key in the list of another principal. -/

namespace Owasaka.Identity

/-! ## Section 1: The store -/

/-- `credentialKey`. -/
structure CredentialKey where
  kind : CredentialKind
  subject : String
  deriving DecidableEq

def Credential.key (c : Credential) : CredentialKey := ⟨c.kind, c.subject⟩

/-- `MemoryCredentialStore` with its lists of keys. -/
structure KeyedStore extends CredentialStore where
  byPrincipal : String → List CredentialKey

def appendUnique (keys : List CredentialKey) (k : CredentialKey) : List CredentialKey :=
  if k ∈ keys then keys else keys ++ [k]

/-- `removeKey` writes the keys that stay to the front of the same array. -/
def removeKey (keys : List CredentialKey) (k : CredentialKey) : List CredentialKey :=
  let out := filterInPlace (fun existing => existing ≠ k) keys keys.length
  out.1.take out.2

/-- `delete(s.credentials, key)`. -/
def CredentialStore.delete (s : CredentialStore) (kind : CredentialKind) (subject : String) :
    CredentialStore where
  credentials := fun kind' subject' =>
    if kind' = kind ∧ subject' = subject then none else s.credentials kind' subject'
  indexed := by
    intro kind' subject' cred hget
    split at hget
    · contradiction
    · exact s.indexed kind' subject' cred hget

namespace KeyedStore

def empty : KeyedStore := ⟨CredentialStore.empty, fun _ => []⟩

/-- What is stored under a key. -/
def stored (s : KeyedStore) (k : CredentialKey) : Option Credential := s.credentials k.kind k.subject

def lookup (s : KeyedStore) (principalID : String) : List Credential :=
  (s.byPrincipal principalID).filterMap s.stored

/-- `Save`; `carrier` says whether the credential exposes its subject. -/
def save (s : KeyedStore) (c : Credential) (carrier : Bool) : Except IdentityError KeyedStore :=
  if !carrier then .error (.unsupportedFactor "")
  else
    .ok
      { toCredentialStore := s.toCredentialStore.save c
        byPrincipal := fun pid =>
          if pid = c.principalID then appendUnique (s.byPrincipal pid) c.key else s.byPrincipal pid }

def revoke (s : KeyedStore) (kind : CredentialKind) (subject : String) :
    Except IdentityError KeyedStore :=
  match s.credentials kind subject with
  | none => .error .credentialNotFound
  | some c =>
    .ok
      { toCredentialStore := s.toCredentialStore.delete kind subject
        byPrincipal := fun pid =>
          if c.principalID ≠ "" ∧ pid = c.principalID then removeKey (s.byPrincipal pid) ⟨kind, subject⟩
          else s.byPrincipal pid }

end KeyedStore

inductive CredentialCall where
  | save (c : Credential) (carrier : Bool)
  | revoke (kind : CredentialKind) (subject : String)

namespace KeyedStore

/-- A call that fails leaves the store as it is. -/
def call (s : KeyedStore) : CredentialCall → KeyedStore
  | .save c carrier =>
    match s.save c carrier with
    | .error _ => s
    | .ok s' => s'
  | .revoke kind subject =>
    match s.revoke kind subject with
    | .error _ => s
    | .ok s' => s'

/-- The store after some calls on a new one. -/
def run (calls : List CredentialCall) : KeyedStore := calls.foldl call empty

/-! ## Section 2: Exact lists -/

/-- `Lookup` returns the stored credentials of the principal, each once. -/
def LookupExact (s : KeyedStore) : Prop :=
  ∀ pid, ((s.lookup pid).map Credential.key).Nodup
    ∧ ∀ c, c ∈ s.lookup pid ↔ s.stored c.key = some c ∧ c.principalID = pid

/-- The key is found neither by `FindBySubject` nor by `Lookup`. -/
def Gone (s : KeyedStore) (k : CredentialKey) : Prop :=
  s.findBySubject k.kind k.subject = .error .credentialNotFound
    ∧ ∀ pid, ∀ c ∈ s.lookup pid, c.key ≠ k

/-- A revoked key is gone until it is saved again. -/
def RevokedGone (calls : List CredentialCall) : Prop :=
  ∀ before kind subject after, before ++ .revoke kind subject :: after <+: calls →
    (∀ c, .save c true ∈ after → c.key ≠ ⟨kind, subject⟩) →
    (run (before ++ .revoke kind subject :: after)).Gone ⟨kind, subject⟩

/-- The call does not save under a key that stands in the list of another principal. -/
def OwnKey (s : KeyedStore) : CredentialCall → Prop
  | .save c carrier => carrier = true → ∀ pid, pid ≠ c.principalID → c.key ∉ s.byPrincipal pid
  | .revoke _ _ => True

/-- What every call keeps. -/
structure Listed (s : KeyedStore) : Prop where
  nodup : ∀ pid, (s.byPrincipal pid).Nodup
  listed : ∀ k c, s.stored k = some c → k ∈ s.byPrincipal c.principalID

/-- A key that stands in a list belongs to that principal, if it is stored. -/
def Exclusive (s : KeyedStore) : Prop :=
  ∀ pid, ∀ k ∈ s.byPrincipal pid, ∀ c, s.stored k = some c → c.principalID = pid

variable {s : KeyedStore}

theorem key_of_stored {k : CredentialKey} {c : Credential} (hget : s.stored k = some c) :
    c.key = k := by
  obtain ⟨hkind, hsubject⟩ := s.indexed k.kind k.subject c hget
  unfold Credential.key
  rw [hkind, hsubject]

theorem mem_lookup_iff {pid : String} {c : Credential} :
    c ∈ s.lookup pid ↔ c.key ∈ s.byPrincipal pid ∧ s.stored c.key = some c := by
  unfold lookup
  rw [List.mem_filterMap]
  constructor
  · intro ⟨k, hmem, hget⟩
    rw [key_of_stored hget]
    exact ⟨hmem, hget⟩
  · intro ⟨hmem, hget⟩
    exact ⟨c.key, hmem, hget⟩

/-- The keys of the result are keys of the list, in its order. -/
theorem map_key_lookup (pid : String) :
    ((s.lookup pid).map Credential.key).Sublist (s.byPrincipal pid) := by
  unfold lookup
  induction s.byPrincipal pid with
  | nil => exact .slnil
  | cons k keys ih =>
    cases hget : s.stored k with
    | none =>
      rw [List.filterMap_cons_none hget]
      exact ih.cons k
    | some c =>
      rw [List.filterMap_cons_some hget, List.map_cons, key_of_stored hget]
      exact ih.cons_cons k

theorem Listed.lookupExact_iff (hlisted : s.Listed) : s.LookupExact ↔ s.Exclusive := by
  constructor
  · intro hexact pid k hmem c hget
    have hkey := key_of_stored hget
    subst hkey
    exact (((hexact pid).2 c).mp (mem_lookup_iff.mpr ⟨hmem, hget⟩)).2
  · intro hexclusive pid
    refine ⟨(map_key_lookup pid).nodup (hlisted.nodup pid), ?_⟩
    intro c
    rw [mem_lookup_iff]
    constructor
    · intro ⟨hmem, hget⟩
      exact ⟨hget, hexclusive pid c.key hmem c hget⟩
    · intro ⟨hget, howner⟩
      rw [← howner]
      exact ⟨hlisted.listed c.key c hget, hget⟩

/-! ## Section 3: What one call does -/

theorem mem_appendUnique {keys : List CredentialKey} {k k' : CredentialKey} :
    k' ∈ appendUnique keys k ↔ k' ∈ keys ∨ k' = k := by
  unfold appendUnique
  split
  · rename_i hmem
    constructor
    · exact Or.inl
    · rintro (hold | rfl)
      · exact hold
      · exact hmem
  · rw [List.mem_append, List.mem_singleton]

theorem nodup_appendUnique {keys : List CredentialKey} (hnodup : keys.Nodup) (k : CredentialKey) :
    (appendUnique keys k).Nodup := by
  unfold appendUnique
  split
  · exact hnodup
  · rename_i hnew
    rw [List.nodup_append]
    refine ⟨hnodup, by simp, ?_⟩
    intro a ha b hb heq
    rw [List.mem_singleton] at hb
    subst heq hb
    exact hnew ha

theorem removeKey_eq (keys : List CredentialKey) (k : CredentialKey) :
    removeKey keys k = keys.filter fun existing => existing ≠ k := by
  unfold removeKey
  rw [filterInPlace_eq _ (Nat.le_refl _)]
  simp

theorem key_eq_iff {k : CredentialKey} {kind : CredentialKind} {subject : String} :
    (k.kind = kind ∧ k.subject = subject) ↔ k = ⟨kind, subject⟩ := by
  obtain ⟨kind', subject'⟩ := k
  simp

theorem stored_save (s : KeyedStore) (c : Credential) (k : CredentialKey) :
    (s.call (.save c true)).stored k = if k = c.key then some c else s.stored k := by
  show (if k.kind = c.kind ∧ k.subject = c.subject then some c else _) = _
  have hkey : (k.kind = c.kind ∧ k.subject = c.subject) ↔ k = c.key := key_eq_iff
  simp only [hkey]
  rfl

/-- What a revocation does to the two maps. -/
theorem call_revoke {kind : CredentialKind} {subject : String} {c : Credential}
    (hget : s.stored ⟨kind, subject⟩ = some c) :
    (∀ k, (s.call (.revoke kind subject)).stored k = if k = ⟨kind, subject⟩ then none else s.stored k)
      ∧ ∀ pid, (s.call (.revoke kind subject)).byPrincipal pid
        = if c.principalID ≠ "" ∧ pid = c.principalID
          then removeKey (s.byPrincipal pid) ⟨kind, subject⟩ else s.byPrincipal pid := by
  have hget : s.credentials kind subject = some c := hget
  have hcall : (s.call (.revoke kind subject)).toCredentialStore = s.toCredentialStore.delete kind subject
      ∧ ∀ pid, (s.call (.revoke kind subject)).byPrincipal pid
        = if c.principalID ≠ "" ∧ pid = c.principalID
          then removeKey (s.byPrincipal pid) ⟨kind, subject⟩ else s.byPrincipal pid := by
    unfold call revoke
    simp only [hget]
    exact ⟨trivial, fun _ => trivial⟩
  refine ⟨?_, hcall.2⟩
  intro k
  unfold stored
  rw [hcall.1]
  show (if k.kind = kind ∧ k.subject = subject then none else _) = _
  simp only [key_eq_iff]

/-- A call saves a credential, revokes a stored one, or changes nothing. -/
theorem call_cases (s : KeyedStore) (a : CredentialCall) :
    (∃ c, a = .save c true
        ∧ (∀ k, (s.call a).stored k = if k = c.key then some c else s.stored k)
        ∧ ∀ pid, (s.call a).byPrincipal pid = if pid = c.principalID
            then appendUnique (s.byPrincipal pid) c.key else s.byPrincipal pid)
      ∨ (∃ kind subject c, a = .revoke kind subject ∧ s.stored ⟨kind, subject⟩ = some c
        ∧ (∀ k, (s.call a).stored k = if k = ⟨kind, subject⟩ then none else s.stored k)
        ∧ ∀ pid, (s.call a).byPrincipal pid = if c.principalID ≠ "" ∧ pid = c.principalID
            then removeKey (s.byPrincipal pid) ⟨kind, subject⟩ else s.byPrincipal pid)
      ∨ (s.call a = s ∧ (∀ c, a ≠ .save c true)
        ∧ ∀ kind subject, a = .revoke kind subject → s.stored ⟨kind, subject⟩ = none) := by
  cases a with
  | save c carrier =>
    cases carrier with
    | false => exact Or.inr (Or.inr ⟨rfl, by simp, by simp⟩)
    | true => exact Or.inl ⟨c, rfl, s.stored_save c, fun _ => rfl⟩
  | revoke kind subject =>
    cases hget : s.stored ⟨kind, subject⟩ with
    | none =>
      have hget' : s.credentials kind subject = none := hget
      refine Or.inr (Or.inr ⟨?_, by simp, ?_⟩)
      · simp [call, revoke, hget']
      · intro kind' subject' heq
        cases heq
        exact hget
    | some c =>
      obtain ⟨hstored, hkeys⟩ := call_revoke hget
      exact Or.inr (Or.inl ⟨kind, subject, c, rfl, hget, hstored, hkeys⟩)

theorem Listed.call (hlisted : s.Listed) (a : CredentialCall) : (s.call a).Listed := by
  rcases s.call_cases a with ⟨c, -, hstored, hkeys⟩ | ⟨kind, subject, c, -, -, hstored, hkeys⟩ |
    ⟨heq, -, -⟩
  · constructor
    · intro pid
      rw [hkeys]
      split
      · exact nodup_appendUnique (hlisted.nodup pid) c.key
      · exact hlisted.nodup pid
    · intro k c' hget
      rw [hstored] at hget
      rw [hkeys]
      split at hget
      · rename_i hkey
        cases hget
        rw [if_pos rfl, mem_appendUnique]
        exact Or.inr hkey
      · have hmem := hlisted.listed k c' hget
        split
        · exact mem_appendUnique.mpr (Or.inl hmem)
        · exact hmem
  · constructor
    · intro pid
      rw [hkeys]
      split
      · rw [removeKey_eq]
        exact (hlisted.nodup pid).filter _
      · exact hlisted.nodup pid
    · intro k c' hget
      rw [hstored] at hget
      rw [hkeys]
      split at hget
      · contradiction
      · -- another key stays in its list
        rename_i hne
        have hmem := hlisted.listed k c' hget
        split
        · rw [removeKey_eq, List.mem_filter, decide_eq_true_eq]
          exact ⟨hmem, hne⟩
        · exact hmem
  · rw [heq]
    exact hlisted

/-- **Step lemma**: a call on exclusive lists leaves them exclusive exactly when it
    does not save under a key of another principal's list. -/
theorem exclusive_call_iff (hexclusive : s.Exclusive) (a : CredentialCall) :
    (s.call a).Exclusive ↔ s.OwnKey a := by
  rcases s.call_cases a with ⟨c, rfl, hstored, hkeys⟩ | ⟨kind, subject, c, rfl, hget, hstored, hkeys⟩ |
    ⟨heq, hsave, _⟩
  · constructor
    · intro hafter _ pid hne hmem
      -- the list of the other principal leads to the new credential
      refine hne (hafter pid c.key ?_ c ?_).symm
      · rw [hkeys, if_neg hne]
        exact hmem
      · rw [hstored, if_pos rfl]
    · intro hown pid k hmem c' hget
      rw [hkeys] at hmem
      rw [hstored] at hget
      split at hget
      · rename_i hkey
        cases hget
        by_contra hne
        rw [if_neg (fun heq => hne heq.symm), hkey] at hmem
        exact hown rfl pid (fun heq => hne heq.symm) hmem
      · rename_i hkey
        split at hmem
        · rcases mem_appendUnique.mp hmem with hold | hnew
          · exact hexclusive pid k hold c' hget
          · contradiction
        · exact hexclusive pid k hmem c' hget
  · refine ⟨fun _ => trivial, ?_⟩
    intro _ pid k hmem c' hget'
    rw [hkeys] at hmem
    rw [hstored] at hget'
    split at hget'
    · contradiction
    · split at hmem
      · rw [removeKey_eq, List.mem_filter] at hmem
        exact hexclusive pid k hmem.1 c' hget'
      · exact hexclusive pid k hmem c' hget'
  · rw [heq]
    refine ⟨?_, fun _ => hexclusive⟩
    intro _
    cases a with
    | save c carrier =>
      intro hcarrier
      subst hcarrier
      exact absurd rfl (hsave c)
    | revoke kind subject => trivial

/-! ## Section 4: Revoked credentials -/

theorem gone_of_stored {k : CredentialKey} (hnone : s.stored k = none) : s.Gone k := by
  constructor
  · unfold CredentialStore.findBySubject
    change s.credentials k.kind k.subject = none at hnone
    rw [hnone]
  · intro pid c hmem heq
    rw [mem_lookup_iff, heq, hnone] at hmem
    cases hmem.2

/-- Only a `Save` of the key stores something under it. -/
theorem stored_call_eq_none {k : CredentialKey} (hnone : s.stored k = none) {a : CredentialCall}
    (hother : ∀ c, a = .save c true → c.key ≠ k) : (s.call a).stored k = none := by
  rcases s.call_cases a with ⟨c, hsave, hstored, -⟩ | ⟨kind, subject, c, -, -, hstored, -⟩ |
    ⟨heq, -, -⟩
  · rw [hstored, if_neg (fun heq => hother c hsave heq.symm)]
    exact hnone
  · rw [hstored]
    split
    · rfl
    · exact hnone
  · rw [heq]
    exact hnone

theorem stored_revoke (s : KeyedStore) (kind : CredentialKind) (subject : String) :
    (s.call (.revoke kind subject)).stored ⟨kind, subject⟩ = none := by
  rcases s.call_cases (.revoke kind subject) with
    ⟨c, heq, -⟩ | ⟨kind', subject', c, heq, -, hstored, -⟩ | ⟨heq, -, hnone⟩
  · contradiction
  · cases heq
    rw [hstored, if_pos rfl]
  · rw [heq]
    exact hnone kind subject rfl

theorem revokedGone (calls : List CredentialCall) : RevokedGone calls := by
  intro before kind subject after hprefix hother
  clear hprefix
  apply gone_of_stored
  unfold run
  rw [List.foldl_append, List.foldl_cons]
  have hnone := stored_revoke (before.foldl call empty) kind subject
  induction after using List.reverseRecOn with
  | nil => exact hnone
  | append_singleton after a ih =>
    rw [List.foldl_append, List.foldl_cons, List.foldl_nil]
    apply stored_call_eq_none (ih (fun c hmem => hother c (List.mem_append_left _ hmem)))
    intro c hsave
    apply hother c
    rw [hsave]
    simp

/-! ## Section 5: Runs of calls -/

theorem listed_empty : empty.Listed := by
  constructor <;> simp [empty, stored, CredentialStore.empty]

/-- **The lists**: `Lookup` is exact after every call of a run, and revoked credentials
    are gone, exactly when no call saves under a key that stands in another principal's
    list. -/
theorem credential_lists_exact_iff (calls : List CredentialCall) :
    ((∀ done, done <+: calls → (run done).LookupExact) ∧ RevokedGone calls) ↔
      ∀ done a, done ++ [a] <+: calls → (run done).OwnKey a := by
  have hstep : ∀ s a, Listed s → LookupExact s → (LookupExact (s.call a) ↔ s.OwnKey a) := by
    intro s a hlisted hexact
    rw [(hlisted.call a).lookupExact_iff]
    exact exclusive_call_iff (hlisted.lookupExact_iff.mp hexact) a
  have hempty : empty.LookupExact := by
    rw [listed_empty.lookupExact_iff]
    simp [Exclusive, empty]
  have hruns := foldl_always_iff (fun s a hlisted => Listed.call hlisted a) hstep listed_empty
    hempty calls
  constructor
  · intro hboth
    exact hruns.mp hboth.1
  · intro hown
    exact ⟨hruns.mpr hown, revokedGone calls⟩

end KeyedStore

/-! ## Section 6: A rotated credential -/

/-- A certificate of one principal. -/
def certificate (principalID : String) : Credential :=
  ⟨.mtls, principalID, "ab12", fun _ => .ok ()⟩

/-- The certificate is bound to another principal, and the first one still looks it
    up. -/
theorem rotated_credential_listed :
    ((KeyedStore.run [.save (certificate "p1") true, .save (certificate "p2") true]).lookup
        "p1").map Credential.principalID = ["p2"]
      ∧ ¬ ((∀ done, done <+: [.save (certificate "p1") true, .save (certificate "p2") true] →
          (KeyedStore.run done).LookupExact)
        ∧ KeyedStore.RevokedGone [.save (certificate "p1") true, .save (certificate "p2") true]) := by
  have hlookup : ((KeyedStore.run [.save (certificate "p1") true,
      .save (certificate "p2") true]).lookup "p1").map Credential.principalID = ["p2"] := by rfl
  refine ⟨hlookup, ?_⟩
  intro ⟨hexact, _⟩
  have hmem : certificate "p2" ∈ (KeyedStore.run [.save (certificate "p1") true,
      .save (certificate "p2") true]).lookup "p1" := by
    exact List.mem_singleton.mpr rfl
  have howner := (((hexact _ (List.prefix_refl _)) "p1").2 _).mp hmem
  exact absurd howner.2 (by decide)

end Owasaka.Identity
