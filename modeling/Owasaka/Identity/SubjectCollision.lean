import Owasaka.Foundation.System
import Owasaka.Identity.ClaimMapper

/-! # Logins of different OIDC identities

    The subject index keys an OIDC identity by `oidc:<issuer>:<sub>`.  Issuers and
    subjects may contain colons, so that two identities can have one key: what the
    longer issuer has after a colon is then at the front of the other's subject.

    The main result: in every run of logins from an empty store, the identities
    have each their own principal if and only if no two logins collide so. -/

namespace Owasaka.Identity

/-! ## Section 1: Keys that collide -/

/-- The issuer of the second is that of the first, a colon and more, and the rest of
    it stands before a colon at the front of the first one's subject. -/
def Collide (c c' : IDClaims) : Prop :=
  ∃ x, c'.issuer = c.issuer ++ ":" ++ x ∧ c.subject = x ++ ":" ++ c'.subject

/-- The two ways to split a list at a separator. -/
theorem append_cons_eq_append_cons {α : Type} {a : α} {l₁ l₂ r₁ r₂ : List α} :
    l₁ ++ a :: r₁ = l₂ ++ a :: r₂ ↔
      (l₁ = l₂ ∧ r₁ = r₂) ∨ (∃ x, l₂ = l₁ ++ a :: x ∧ r₁ = x ++ a :: r₂)
        ∨ ∃ x, l₁ = l₂ ++ a :: x ∧ r₂ = x ++ a :: r₁ := by
  rw [List.append_eq_append_iff]
  constructor
  · -- what lies between the two ends is empty or starts with the separator
    intro hsplit
    rcases hsplit with ⟨mid, rfl, hr⟩ | ⟨mid, rfl, hr⟩
    · cases mid with
      | nil => simp_all
      | cons b x =>
        obtain ⟨rfl, rfl⟩ : a = b ∧ r₁ = x ++ a :: r₂ := by simpa using hr
        exact Or.inr (Or.inl ⟨x, rfl, rfl⟩)
    · cases mid with
      | nil => simp_all
      | cons b x =>
        obtain ⟨rfl, rfl⟩ : a = b ∧ r₂ = x ++ a :: r₁ := by simpa using hr
        exact Or.inr (Or.inr ⟨x, rfl, rfl⟩)
  · intro hcases
    rcases hcases with ⟨rfl, rfl⟩ | ⟨x, rfl, rfl⟩ | ⟨x, rfl, rfl⟩
    · exact Or.inl ⟨[], by simp, by simp⟩
    · exact Or.inl ⟨a :: x, rfl, by simp⟩
    · exact Or.inr ⟨a :: x, rfl, by simp⟩

theorem collide_iff {c c' : IDClaims} : Collide c c' ↔
    ∃ x, c'.issuer.toList = c.issuer.toList ++ ':' :: x
      ∧ c.subject.toList = x ++ ':' :: c'.subject.toList := by
  constructor
  · intro hcollide
    obtain ⟨x, hissuer, hsubject⟩ := hcollide
    refine ⟨x.toList, ?_, ?_⟩
    · simp [hissuer]
    · simp [hsubject]
  · intro hlists
    obtain ⟨x, hissuer, hsubject⟩ := hlists
    refine ⟨String.ofList x, ?_, ?_⟩
    · rw [← String.toList_inj]
      simp [hissuer]
    · rw [← String.toList_inj]
      simp [hsubject]

/-- Two identities have one key if they are the same or collide. -/
theorem principalSubject_eq_iff {c c' : IDClaims} :
    principalSubject c = principalSubject c' ↔
      (c.issuer = c'.issuer ∧ c.subject = c'.subject) ∨ Collide c c' ∨ Collide c' c := by
  unfold principalSubject
  rw [collide_iff, collide_iff, ← String.toList_inj, ← String.toList_inj, ← String.toList_inj,
    ← append_cons_eq_append_cons]
  simp

theorem Collide.issuer_ne {c c' : IDClaims} (hcollide : Collide c c') : c.issuer ≠ c'.issuer := by
  obtain ⟨x, hissuer, _⟩ := hcollide
  intro heq
  have hlength : c.issuer.length = (c.issuer ++ ":" ++ x).length := by rw [← hissuer, ← heq]
  simp only [String.length_append] at hlength
  have hcolon : ":".length = 1 := rfl
  omega

/-! ## Section 2: Runs of logins -/

/-- The store, and the calls of `Map` so far with what they returned. -/
structure LoginState where
  store : SubjectStore
  log : List (IDClaims × Except MapError Principal)

/-- A login leaves the store that `Map` leaves and is logged with its result. -/
def LoginState.login (m : DefaultMapper) (claims : IDClaims) (uuid : String) (s : LoginState) :
    LoginState where
  store := (m.map uuid claims s.store).2
  log := s.log ++ [(claims, (m.map uuid claims s.store).1)]

/-- Logins from an empty store, with auto-provisioning on.  UUIDs are not empty and
    do not repeat. -/
def logins (groupRoleMap : Std.ExtTreeMap String String) :
    System LoginState (IDClaims × String) where
  init := fun s => s = ⟨SubjectStore.empty, []⟩
  step := fun s l s' =>
    l.1.issuer ≠ "" ∧ l.1.subject ≠ "" ∧ l.2 ≠ "" ∧ s.store.byID l.2 = none
      ∧ s' = s.login ⟨true, groupRoleMap⟩ l.1 l.2

/-- Two successful logins return the same principal exactly when they are of the
    same issuer and subject. -/
def Separate (s : LoginState) : Prop :=
  ∀ e ∈ s.log, ∀ e' ∈ s.log, ∀ p p', e.2 = .ok p → e'.2 = .ok p' →
    (p.id = p'.id ↔ e.1.issuer = e'.1.issuer ∧ e.1.subject = e'.1.subject)

/-- No two logins so far collide. -/
def NoCollision (s : LoginState) : Prop :=
  ∀ e ∈ s.log, ∀ e' ∈ s.log, ¬ Collide e.1 e'.1

/-- What the logins keep. -/
structure Indexed (s : LoginState) : Prop where
  ids : ∀ id p, s.store.byID id = some p → id ≠ ""
  /-- The index leads from a subject to an active principal with that subject. -/
  index : ∀ subject id, s.store.bySubject subject = some id →
    ∃ p, s.store.byID id = some p ∧ p.subject = subject ∧ p.isActive = true
  /-- Every login returned the principal that the index has for its key. -/
  logged : ∀ e ∈ s.log, ∃ p, e.2 = .ok p ∧ s.store.bySubject (principalSubject e.1) = some p.id

variable {groupRoleMap : Std.ExtTreeMap String String} {s : LoginState}

theorem principalSubject_ne_empty (claims : IDClaims) : principalSubject claims ≠ "" := by
  intro heq
  have hlength : (principalSubject claims).length = 0 := by
    rw [heq]
    rfl
  unfold principalSubject at hlength
  simp only [String.length_append] at hlength
  have hscheme : "oidc:".length = 5 := rfl
  omega

/-- What a login does to the store: the principal stands under its ID and its key,
    which were both its own or both new. -/
structure LoggedIn (claims : IDClaims) (p : Principal) (before after : SubjectStore) : Prop where
  subject : p.subject = principalSubject claims
  active : p.isActive = true
  id : p.id ≠ ""
  byID : after.byID p.id = some p
  bySubject : after.bySubject p.subject = some p.id
  otherIDs : ∀ id, id ≠ p.id → after.byID id = before.byID id
  otherSubjects : ∀ subject, subject ≠ p.subject → after.bySubject subject = before.bySubject subject
  own : before.bySubject p.subject = some p.id
    ∨ (before.bySubject p.subject = none ∧ before.byID p.id = none)

theorem loggedIn_of_save {claims : IDClaims} {p : Principal} {before between after : SubjectStore}
    (hsave : between.save p = .ok after) (hsubject : p.subject = principalSubject claims)
    (hactive : p.isActive = true)
    (hids : ∀ id, id ≠ p.id → between.byID id = before.byID id)
    (hsubjects : between.bySubject = before.bySubject)
    (hown : before.bySubject p.subject = some p.id
      ∨ (before.bySubject p.subject = none ∧ before.byID p.id = none)) :
    LoggedIn claims p before after := by
  obtain ⟨hid, hbyID, hbySubject⟩ := SubjectStore.save_ok hsave
  have hkey : p.subject ≠ "" := by
    rw [hsubject]
    exact principalSubject_ne_empty claims
  refine ⟨hsubject, hactive, hid, by simp [hbyID], by simp [hbySubject, hkey], ?_, ?_, hown⟩
  · intro id hne
    rw [hbyID, if_neg hne]
    exact hids id hne
  · intro subject hne
    rw [hbySubject, if_neg (fun hboth => hne hboth.2), hsubjects]

/-- **Step lemma**: with auto-provisioning every login succeeds. -/
theorem map_loggedIn {m : DefaultMapper} (hauto : m.autoProvision = true) (hindexed : Indexed s)
    {claims : IDClaims}
    {uuid : String} (hissuer : claims.issuer ≠ "") (hsubject : claims.subject ≠ "") (huuid : uuid ≠ "")
    (hfresh : s.store.byID uuid = none) :
    ∃ p after, m.map uuid claims s.store = (.ok p, after)
      ∧ LoggedIn claims p s.store after := by
  unfold DefaultMapper.map
  rw [if_neg (by simp [hissuer, hsubject])]
  unfold SubjectStore.findBySubject
  cases hkey : s.store.bySubject (principalSubject claims) with
  | some id =>
    obtain ⟨existing, hget, hexisting, hactive⟩ := hindexed.index _ id hkey
    have hid := s.store.id_eq id existing hget
    have hne : existing.id ≠ "" := by
      rw [hid]
      exact hindexed.ids id existing hget
    simp only [hget, hactive, Bool.not_true, Bool.false_eq_true, if_false]
    -- the ID is not empty, so that the principal is saved too
    obtain ⟨after, hsave⟩ : ∃ after, (s.store.write
        (m.refresh claims existing)).save
        (m.refresh claims existing) = .ok after :=
      SubjectStore.exists_save hne
    simp only [hsave]
    refine ⟨_, after, rfl, loggedIn_of_save hsave hexisting hactive ?_ rfl (Or.inl ?_)⟩
    · intro id' hne'
      exact if_neg hne'
    · show s.store.bySubject existing.subject = some existing.id
      rw [hexisting, hkey, hid]
  | none =>
    -- the first login with this key, under a new ID
    simp only [ne_eq, not_true_eq_false, if_false, hauto, Bool.not_true, Bool.false_eq_true]
    obtain ⟨after, hsave⟩ : ∃ after, s.store.save (assignRoles
        (DefaultMapper.provision claims uuid)
        (m.rolesForGroups claims.groups)) = .ok after :=
      SubjectStore.exists_save huuid
    simp only [hsave]
    exact ⟨_, after, rfl,
      loggedIn_of_save hsave rfl rfl (fun _ _ => rfl) rfl (Or.inr ⟨hkey, hfresh⟩)⟩

theorem Indexed.loggedIn (hindexed : Indexed s) {claims : IDClaims} {p : Principal}
    {after : SubjectStore} (hlogged : LoggedIn claims p s.store after) :
    Indexed ⟨after, s.log ++ [(claims, .ok p)]⟩ := by
  constructor
  · -- IDs are not empty
    intro id q hget
    by_cases hid : id = p.id
    · rw [hid]
      exact hlogged.id
    · rw [hlogged.otherIDs id hid] at hget
      exact hindexed.ids id q hget
  · -- an entry of the index is that of the login, or was there
    intro subject id hid
    by_cases hsubject : subject = p.subject
    · subst hsubject
      rw [hlogged.bySubject] at hid
      cases hid
      exact ⟨p, hlogged.byID, rfl, hlogged.active⟩
    · rw [hlogged.otherSubjects subject hsubject] at hid
      obtain ⟨q, hget, hq, hactive⟩ := hindexed.index subject id hid
      -- the index has no other subject for the principal's ID
      have hne : id ≠ p.id := by
        intro heq
        subst heq
        rcases hlogged.own with hown | ⟨_, hnew⟩
        · obtain ⟨q', hget', hq', _⟩ := hindexed.index _ _ hown
          rw [hget] at hget'
          cases hget'
          exact hsubject (hq.symm.trans hq')
        · rw [hnew] at hget
          contradiction
      exact ⟨q, by rw [hlogged.otherIDs id hne]; exact hget, hq, hactive⟩
  · -- earlier logins keep their entry, also when they are of the same key
    intro e he
    rcases List.mem_append.mp he with hold | hnew
    · obtain ⟨q, hq, hkey⟩ := hindexed.logged e hold
      refine ⟨q, hq, ?_⟩
      by_cases hsubject : principalSubject e.1 = p.subject
      · rw [hsubject] at hkey ⊢
        rcases hlogged.own with hown | ⟨hnone, _⟩
        · rw [hlogged.bySubject, ← hown, hkey]
        · rw [hnone] at hkey
          contradiction
      · rw [hlogged.otherSubjects _ hsubject]
        exact hkey
    · rw [List.mem_singleton] at hnew
      subst hnew
      exact ⟨p, rfl, by rw [← hlogged.subject]; exact hlogged.bySubject⟩

/-- **Run lemma**: the index stands in every reachable state. -/
theorem indexed_of_reachable (hreach : (logins groupRoleMap).Reachable s) : Indexed s := by
  refine hreach.invariant ?_ ?_
  · intro s hinit
    subst hinit
    exact ⟨by simp [SubjectStore.empty, PrincipalStore.empty], by simp [SubjectStore.empty], by simp⟩
  · intro s l s' hindexed hstep
    obtain ⟨hissuer, hsubject, huuid, hfresh, rfl⟩ := hstep
    obtain ⟨p, after, hmap, hlogged⟩ :=
      map_loggedIn (m := ⟨true, groupRoleMap⟩) rfl hindexed hissuer hsubject huuid hfresh
    unfold LoginState.login
    rw [hmap]
    exact hindexed.loggedIn hlogged

/-! ## Section 3: Identities and principals -/

/-- Two logins return the same principal exactly when their keys are equal. -/
theorem Indexed.id_eq_iff (hindexed : Indexed s) {e e' : IDClaims × Except MapError Principal}
    (he : e ∈ s.log) (he' : e' ∈ s.log) {p p' : Principal} (hp : e.2 = .ok p) (hp' : e'.2 = .ok p') :
    p.id = p'.id ↔ principalSubject e.1 = principalSubject e'.1 := by
  obtain ⟨q, hq, hkey⟩ := hindexed.logged e he
  obtain ⟨q', hq', hkey'⟩ := hindexed.logged e' he'
  rw [hp] at hq
  rw [hp'] at hq'
  cases hq
  cases hq'
  constructor
  · intro heq
    obtain ⟨r, hget, hsubject, _⟩ := hindexed.index _ _ hkey
    obtain ⟨r', hget', hsubject', _⟩ := hindexed.index _ _ hkey'
    rw [heq, hget'] at hget
    cases hget
    exact hsubject.symm.trans hsubject'
  · intro heq
    rw [heq, hkey'] at hkey
    exact (Option.some.inj hkey).symm

/-- **Separation**: in every run of logins the identities have each their own
    principal exactly when no two of them collide. -/
theorem logins_separate_iff (hreach : (logins groupRoleMap).Reachable s) :
    Separate s ↔ NoCollision s := by
  have hindexed := indexed_of_reachable hreach
  constructor
  · -- a collision gives one principal to identities of different issuers
    intro hseparate e he e' he' hcollide
    obtain ⟨p, hp, _⟩ := hindexed.logged e he
    obtain ⟨p', hp', _⟩ := hindexed.logged e' he'
    have hsame := (hindexed.id_eq_iff he he' hp hp').mpr
      (principalSubject_eq_iff.mpr (Or.inr (Or.inl hcollide)))
    exact hcollide.issuer_ne ((hseparate e he e' he' p p' hp hp').mp hsame).1
  · intro hnone e he e' he' p p' hp hp'
    rw [hindexed.id_eq_iff he he' hp hp', principalSubject_eq_iff]
    constructor
    · intro hkey
      rcases hkey with hsame | hcollide | hcollide
      · exact hsame
      · exact absurd hcollide (hnone e he e' he')
      · exact absurd hcollide (hnone e' he' e he)
    · exact Or.inl

/-! ## Section 4: Two issuers that share a principal -/

/-- A login with the claims that the key is made of, and no groups. -/
def plainClaims (issuer subject : String) : IDClaims := ⟨subject, "", false, "", "", [], issuer⟩

def portClaims : IDClaims := plainClaims "https://idp.example:8443" "alice"

def colonClaims : IDClaims := plainClaims "https://idp.example" "8443:alice"

def noLogins : LoginState := ⟨SubjectStore.empty, []⟩

/-- The login at the issuer with a port, then the one at the issuer without. -/
def twoLogins : LoginState :=
  (noLogins.login ⟨true, ∅⟩ portClaims "p-1").login ⟨true, ∅⟩ colonClaims "p-2"

theorem twoLogins_reachable : (logins ∅).Reachable twoLogins := by
  have hnone : (logins ∅).Reachable noLogins := System.Reachable.init rfl
  have hfirst : (logins ∅).Reachable (noLogins.login ⟨true, ∅⟩ portClaims "p-1") :=
    hnone.tail (l := (portClaims, "p-1"))
      ⟨by decide, by decide, by decide, rfl, rfl⟩
  exact hfirst.tail (l := (colonClaims, "p-2")) ⟨by decide, by decide, by decide, rfl, rfl⟩

theorem logins_separate_iff_two :
    (logins ∅).Reachable twoLogins ∧ (Separate twoLogins ↔ NoCollision twoLogins) :=
  ⟨twoLogins_reachable, logins_separate_iff twoLogins_reachable⟩

/-- The identities of two issuers get one principal. -/
theorem logins_merge_issuers :
    (logins ∅).Reachable twoLogins
      ∧ (∃ p p', twoLogins.log = [(portClaims, .ok p), (colonClaims, .ok p')] ∧ p.id = p'.id)
      ∧ portClaims.issuer ≠ colonClaims.issuer ∧ ¬ Separate twoLogins := by
  obtain ⟨p, p', hlog, hsame⟩ : ∃ p p', twoLogins.log
      = [(portClaims, .ok p), (colonClaims, .ok p')] ∧ p.id = p'.id := ⟨_, _, rfl, rfl⟩
  have hne : portClaims.issuer ≠ colonClaims.issuer := by decide
  refine ⟨twoLogins_reachable, ⟨p, p', hlog, hsame⟩, hne, ?_⟩
  intro hseparate
  have hiff := hseparate (portClaims, .ok p) (by simp [hlog]) (colonClaims, .ok p') (by simp [hlog])
    p p' rfl rfl
  exact hne (hiff.mp hsame).1

end Owasaka.Identity
