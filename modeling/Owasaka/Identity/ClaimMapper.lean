import Owasaka.Foundation.DedupOn
import Owasaka.Identity.Authenticator

/-! # Binding OIDC claims to principals (`identity/oidc/mapping.go`)

    `Map` finds the principal of an OIDC identity through the subject index of the
    principal store, and provisions one on the first login.  On every login it
    refreshes the claims and replaces the roles by those of the current groups.

    The store hands out pointers: what `Map` writes to the principal that it finds
    is in the store before `Save` is called, whose error it ignores. -/

namespace Owasaka.Identity

/-! ## Section 1: The subject index -/

/-- `MemoryPrincipalStore` with its index from subjects to IDs. -/
structure SubjectStore extends PrincipalStore where
  bySubject : String → Option String

namespace SubjectStore

def empty : SubjectStore := ⟨PrincipalStore.empty, fun _ => none⟩

/-- `FindBySubject`; the principal is nil where the index names an unknown ID. -/
def findBySubject (s : SubjectStore) (subject : String) : Except IdentityError (Option Principal) :=
  match s.bySubject subject with
  | none => .error .principalNotFound
  | some id => .ok (s.byID id)

def save (s : SubjectStore) (p : Principal) : Except IdentityError SubjectStore :=
  match s.toPrincipalStore.save p with
  | .error e => .error e
  | .ok store =>
    .ok
      { toPrincipalStore := store
        bySubject := fun subject =>
          if p.subject ≠ "" ∧ subject = p.subject then some p.id else s.bySubject subject }

/-- A principal of the store is changed through its pointer. -/
def write (s : SubjectStore) (p : Principal) : SubjectStore :=
  { s with toPrincipalStore := s.toPrincipalStore.write p }

end SubjectStore

/-! ## Section 2: The mapper -/

structure IDClaims where
  subject : String
  email : String
  emailVerified : Bool
  name : String
  preferredUsername : String
  groups : List String
  issuer : String

structure DefaultMapper where
  autoProvision : Bool
  groupRoleMap : Std.ExtTreeMap String String

inductive MapError where
  | missingSubOrIss
  | principalUnknown
  | identity (e : IdentityError)

def principalSubject (claims : IDClaims) : String :=
  "oidc:" ++ claims.issuer ++ ":" ++ claims.subject

/-- `unicode.IsSpace`. -/
def isSpace (c : Char) : Bool :=
  let n := c.toNat
  (0x09 ≤ n && n ≤ 0x0d) || n = 0x20 || n = 0x85 || n = 0xa0 || n = 0x1680
    || (0x2000 ≤ n && n ≤ 0x200a) || n = 0x2028 || n = 0x2029 || n = 0x202f || n = 0x205f
    || n = 0x3000

/-- `strings.TrimSpace`. -/
def trimSpace (s : String) : String :=
  String.ofList ((s.toList.dropWhile isSpace).reverse.dropWhile isSpace).reverse

/-- `AssignRoles` replaces the roles: each name trimmed and kept once, empty ones
    skipped. -/
def assignRoles (p : Principal) (names : List String) : Principal :=
  { p with roles := dedupOn (fun n => n) [] ((names.map trimSpace).filter fun n => n ≠ "") }

def enrichClaims (base : AnyMap) (c : IDClaims) : AnyMap :=
  let base := (base.insert "oidc_sub" (.str c.subject)).insert "oidc_iss" (.str c.issuer)
  let base :=
    if c.email ≠ "" then
      (base.insert "email" (.str c.email)).insert "email_verified"
        (.other (if c.emailVerified then "true" else "false"))
    else base
  let base := if c.name ≠ "" then base.insert "name" (.str c.name) else base
  let base :=
    if c.preferredUsername ≠ "" then
      base.insert "preferred_username" (.str c.preferredUsername)
    else base
  if c.groups.length > 0 then base.insert "groups" (.strs c.groups) else base

namespace DefaultMapper

/-- The roles of the groups that are mapped; a group mapped to the empty name is
    dropped like an unmapped one. -/
def rolesForGroups (m : DefaultMapper) (groups : List String) : List String :=
  if groups.length = 0 ∨ m.groupRoleMap.size = 0 then []
  else
    groups.filterMap fun g =>
      match m.groupRoleMap[g]? with
      | some role => if role ≠ "" then some role else none
      | none => none

/-- What a login writes to the principal. -/
def refresh (m : DefaultMapper) (claims : IDClaims) (p : Principal) : Principal :=
  assignRoles { p with claims := enrichClaims p.claims claims } (m.rolesForGroups claims.groups)

/-- The principal that a first login creates, less its roles. -/
def provision (claims : IDClaims) (uuid : String) : Principal where
  id := uuid
  type := .human
  subject := principalSubject claims
  displayName := if claims.name = "" then claims.preferredUsername else claims.name
  status := .active
  roles := []
  claims := enrichClaims ∅ claims

/-- `Map`, with the result of `uuid.NewString`, and the store afterwards. -/
def map (m : DefaultMapper) (uuid : String) (claims : IDClaims) (s : SubjectStore) :
    Except MapError Principal × SubjectStore :=
  if claims.subject = "" ∨ claims.issuer = "" then (.error .missingSubOrIss, s)
  else
    match s.findBySubject (principalSubject claims) with
    -- the index names an ID that is not stored
    | .ok none => (.error (.identity .principalInactive), s)
    | .ok (some existing) =>
      if !existing.isActive then (.error (.identity .principalInactive), s)
      else
        let p := m.refresh claims existing
        -- `existing` is the store's own pointer
        let written := s.write p
        (.ok p, match written.save p with
          | .error _ => written
          | .ok saved => saved)
    | .error e =>
      if e ≠ .principalNotFound then (.error (.identity e), s)
      -- a first login
      else if !m.autoProvision then (.error .principalUnknown, s)
      else
        let p := assignRoles (provision claims uuid) (m.rolesForGroups claims.groups)
        match s.save p with
        | .error e => (.error (.identity e), s)
        | .ok saved => (.ok p, saved)

end DefaultMapper

/-! ## Section 3: What `Map` does -/

variable {m : DefaultMapper} {uuid : String} {claims : IDClaims} {s s' : SubjectStore}
  {p : Principal}

theorem SubjectStore.findBySubject_error {subject : String} {e : IdentityError}
    (herror : s.findBySubject subject = .error e) :
    e = .principalNotFound ∧ s.bySubject subject = none := by
  unfold findBySubject at herror
  split at herror
  · rename_i hnone
    cases herror
    exact ⟨rfl, hnone⟩
  · contradiction

theorem SubjectStore.findBySubject_ok {subject : String} {found : Option Principal}
    (hok : s.findBySubject subject = .ok found) :
    ∃ id, s.bySubject subject = some id ∧ s.byID id = found := by
  unfold findBySubject at hok
  split at hok
  · contradiction
  · rename_i id hid
    cases hok
    exact ⟨id, hid, rfl⟩

theorem SubjectStore.save_ok (hok : s.save p = .ok s') :
    p.id ≠ "" ∧ (∀ id, s'.byID id = if id = p.id then some p else s.byID id)
      ∧ ∀ subject, s'.bySubject subject
          = if p.subject ≠ "" ∧ subject = p.subject then some p.id else s.bySubject subject := by
  unfold save PrincipalStore.save at hok
  by_cases hid : p.id = ""
  · simp [hid] at hok
  · simp only [hid, if_false, Except.ok.injEq] at hok
    subst hok
    exact ⟨hid, fun _ => rfl, fun _ => rfl⟩

theorem SubjectStore.exists_save (hid : p.id ≠ "") : ∃ s', s.save p = .ok s' := by
  unfold save PrincipalStore.save
  rw [if_neg hid]
  exact ⟨_, rfl⟩

/-- A successful login finds an active principal and refreshes it, or provisions one. -/
theorem DefaultMapper.map_ok (hok : m.map uuid claims s = (.ok p, s')) :
    (∃ id existing, s.bySubject (principalSubject claims) = some id ∧ s.byID id = some existing
        ∧ existing.isActive = true ∧ p = m.refresh claims existing
        ∧ s' = match (s.write p).save p with
          | .error _ => s.write p
          | .ok saved => saved)
      ∨ (s.bySubject (principalSubject claims) = none ∧ m.autoProvision = true
        ∧ p = assignRoles (provision claims uuid) (m.rolesForGroups claims.groups)
        ∧ s.save p = .ok s') := by
  unfold map at hok
  by_cases hmissing : claims.subject = "" ∨ claims.issuer = ""
  · simp [hmissing] at hok
  · rw [if_neg hmissing] at hok
    cases hfind : s.findBySubject (principalSubject claims) with
    -- not found: the login goes on to provisioning
    | error e =>
      obtain ⟨rfl, hnone⟩ := SubjectStore.findBySubject_error hfind
      simp only [hfind, ne_eq, not_true_eq_false, if_false] at hok
      cases hauto : m.autoProvision with
      | false => simp [hauto] at hok
      | true =>
        simp only [hauto, Bool.not_true, Bool.false_eq_true, if_false] at hok
        split at hok
        · cases hok
        -- the save of a new principal is the one whose error is returned
        · rename_i saved hsave
          cases hok
          exact Or.inr ⟨hnone, rfl, rfl, hsave⟩
    | ok found =>
      obtain ⟨id, hid, hget⟩ := SubjectStore.findBySubject_ok hfind
      cases found with
      | none => simp [hfind] at hok
      | some existing =>
        simp only [hfind] at hok
        cases hactive : existing.isActive with
        | false => simp [hactive] at hok
        | true =>
          simp only [hactive, Bool.not_true, Bool.false_eq_true, if_false, Prod.mk.injEq,
            Except.ok.injEq] at hok
          obtain ⟨rfl, rfl⟩ := hok
          exact Or.inl ⟨id, existing, hid, hget, hactive, rfl, rfl⟩

end Owasaka.Identity
