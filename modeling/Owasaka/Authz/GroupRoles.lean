import Owasaka.Authz.Engine
import Owasaka.Identity.ClaimMapper

/-! # What a login with OIDC groups is allowed

    `Map` replaces the roles of a principal by those of its current groups.  The
    engine reads the claim `roles` of a principal without roles, and `Map` carries
    that claim over from the stored principal.

    The main result: after a login every request is allowed only by roles of the
    current groups if and only if some group has a role, or the stored claim names
    no others. -/

namespace Owasaka.Authz

open Identity

/-! ## Section 1: Statement -/

/-- The roles of the current groups, trimmed. -/
def MappedRole (m : DefaultMapper) (groups : List String) (name : String) : Prop :=
  ∃ g ∈ groups, ∃ role : String, m.groupRoleMap[g]? = some role ∧ trimSpace role = name

/-- The role of the policy grants the request. -/
def RoleGrants (policy : Policy) (p : Principal) (resource action : String) (attrs : AnyMap)
    (name : String) : Prop :=
  ∃ role, policy.roles[name]? = some role ∧ ∃ perm ∈ role.permissions,
    perm.Grants p resource action attrs

/-- Whatever the policy, a request is allowed only by a role of the current groups. -/
def OnlyMappedRoles (m : DefaultMapper) (groups : List String) (p : Principal) : Prop :=
  ∀ policy resource action attrs, isAllowed policy p resource action attrs = true →
    ∃ name, MappedRole m groups name
      ∧ RoleGrants policy p resource action (attrs.getD ∅) name

/-- The role names that the engine reads from the claims of a principal. -/
def ClaimedRole (p : Principal) (name : String) : Prop := HasRole { p with roles := [] } name

/-- The claims of the stored principal, if there is one, name only roles of the
    current groups. -/
def ClaimsAgree (m : DefaultMapper) (claims : IDClaims) (s : SubjectStore) : Prop :=
  ∀ id existing, s.bySubject (principalSubject claims) = some id → s.byID id = some existing →
    ∀ name, ClaimedRole existing name → MappedRole m claims.groups name

/-- Some current group has a role. -/
def SomeMappedRole (m : DefaultMapper) (groups : List String) : Prop :=
  ∃ name, MappedRole m groups name ∧ name ≠ ""

/-! ## Section 2: The roles of a login -/

variable {m : DefaultMapper} {claims : IDClaims} {p : Principal} {groups : List String}

theorem mem_rolesForGroups {role : String} :
    role ∈ m.rolesForGroups groups ↔ (∃ g ∈ groups, m.groupRoleMap[g]? = some role) ∧ role ≠ "" := by
  unfold DefaultMapper.rolesForGroups
  by_cases hempty : groups.length = 0 ∨ m.groupRoleMap.size = 0
  · -- the shortcut of the code: nothing would be found
    rw [if_pos hempty]
    simp only [List.not_mem_nil, false_iff]
    rintro ⟨⟨g, hg, hrole⟩, _⟩
    rcases hempty with hgroups | hmap
    · rw [List.eq_nil_of_length_eq_zero hgroups] at hg
      contradiction
    · have hmem := mem_of_getElem?_eq_some hrole
      rw [Std.ExtTreeMap.eq_empty_iff_size_eq_zero.mpr hmap] at hmem
      simp at hmem
  · rw [if_neg hempty, List.mem_filterMap]
    constructor
    · rintro ⟨g, hg, hrole⟩
      split at hrole
      · rename_i role' hget
        split at hrole
        · rename_i hne
          cases hrole
          exact ⟨⟨g, hg, hget⟩, hne⟩
        · contradiction
      · contradiction
    · rintro ⟨⟨g, hg, hget⟩, hne⟩
      exact ⟨g, hg, by simp [hget, hne]⟩

theorem trimSpace_empty : trimSpace "" = "" := by decide

/-- The roles that a login assigns. -/
theorem mem_roles_assigned {name : String} :
    name ∈ (assignRoles p (m.rolesForGroups groups)).roles ↔ MappedRole m groups name ∧ name ≠ "" := by
  show name ∈ dedupOn _ _ _ ↔ _
  have hdedup := mem_map_dedupOn (fun n : String => n)
    (((m.rolesForGroups groups).map trimSpace).filter fun n => n ≠ "") [] name
  simp only [List.map_id', List.not_mem_nil, not_false_eq_true, and_true] at hdedup
  rw [hdedup, List.mem_filter, List.mem_map]
  constructor
  · rintro ⟨⟨role, hrole, rfl⟩, hne⟩
    obtain ⟨⟨g, hg, hget⟩, _⟩ := mem_rolesForGroups.mp hrole
    exact ⟨⟨g, hg, role, hget, rfl⟩, by simpa using hne⟩
  · rintro ⟨⟨g, hg, role, hget, rfl⟩, hne⟩
    refine ⟨⟨role, mem_rolesForGroups.mpr ⟨⟨g, hg, hget⟩, ?_⟩, rfl⟩, by simpa using hne⟩
    intro hempty
    exact hne (by rw [hempty, trimSpace_empty])

/-- A login does not touch the claim `roles`. -/
theorem enrichClaims_roles (base : AnyMap) (c : IDClaims) :
    (enrichClaims base c)["roles"]? = base["roles"]? := by
  have hset : ∀ (b : AnyMap) (k : String) (v : AnyValue), "roles" ≠ k →
      (b.insert k v)["roles"]? = b["roles"]? := by
    intro b k v hne
    rw [getElem?_insert_ite, if_neg hne]
  have hif : ∀ (cond : Prop) [Decidable cond] (b b' : AnyMap), b["roles"]? = b'["roles"]? →
      (if cond then b else b')["roles"]? = b'["roles"]? := by
    intro cond _ b b' heq
    split
    · exact heq
    · rfl
  unfold enrichClaims
  simp only
  rw [hif _ _ _ (hset _ _ _ (by decide)), hif _ _ _ (hset _ _ _ (by decide)),
    hif _ _ _ (hset _ _ _ (by decide)), hif, hset _ _ _ (by decide), hset _ _ _ (by decide)]
  rw [hset _ _ _ (by decide), hset _ _ _ (by decide)]

/-- The engine reads the same roles from the claims before and after a login. -/
theorem claimedRole_enriched {q : Principal} {base : AnyMap} (hclaims : q.claims = enrichClaims base claims)
    {r : Principal} (hbase : r.claims = base) (name : String) :
    ClaimedRole q name ↔ ClaimedRole r name := by
  unfold ClaimedRole HasRole
  simp only [hclaims, hbase, enrichClaims_roles]

/-! ## Section 3: What a login is allowed -/

/-- The roles of the groups are all the roles of the principal, unless there are none. -/
theorem hasRole_assigned {q : Principal} (name : String) :
    HasRole (assignRoles q (m.rolesForGroups groups)) name ↔
      (MappedRole m groups name ∧ name ≠ "")
        ∨ (¬ SomeMappedRole m groups ∧ ClaimedRole q name) := by
  have hsome : SomeMappedRole m groups ↔ (assignRoles q (m.rolesForGroups groups)).roles ≠ [] := by
    rw [ne_eq, List.eq_nil_iff_forall_not_mem, not_forall_not]
    exact exists_congr fun name => mem_roles_assigned.symm
  by_cases hroles : (assignRoles q (m.rolesForGroups groups)).roles = []
  · -- without roles the engine falls back on the claims
    have hnone : ¬ SomeMappedRole m groups := by
      rw [hsome]
      exact fun hne => hne hroles
    have hmapped : ¬ (MappedRole m groups name ∧ name ≠ "") := fun hboth => hnone ⟨name, hboth⟩
    simp only [hmapped, hnone, not_false_eq_true, true_and, false_or]
    unfold ClaimedRole HasRole
    simp only [hroles, ne_eq, not_true_eq_false, if_false]
    rfl
  · have hmem : HasRole (assignRoles q (m.rolesForGroups groups)) name ↔
        name ∈ (assignRoles q (m.rolesForGroups groups)).roles := by
      unfold HasRole
      rw [if_pos hroles]
    simp only [hmem, mem_roles_assigned, hsome.mpr hroles, not_true_eq_false, false_and, or_false]

/-- The policy in which one role may do everything. -/
def onlyRole (name : String) : Policy :=
  ⟨1, (∅ : Std.ExtTreeMap String Role).insert name ⟨name, "", [], [⟨wildcard, wildcard, []⟩]⟩⟩

theorem roleGrants_onlyRole {name name' resource action : String} {attrs : AnyMap} :
    RoleGrants (onlyRole name) p resource action attrs name' ↔ name' = name := by
  unfold RoleGrants onlyRole
  simp only [getElem?_insert_ite]
  constructor
  · intro ⟨role, hrole, _⟩
    split at hrole
    · assumption
    · simp at hrole
  · rintro rfl
    exact ⟨_, if_pos rfl, ⟨wildcard, wildcard, []⟩, List.mem_singleton.mpr rfl,
      ⟨Or.inl rfl, Or.inr (Or.inl rfl), by simp⟩⟩

/-- A principal is allowed only by roles of the current groups exactly when it has
    no other roles. -/
theorem onlyMappedRoles_iff :
    OnlyMappedRoles m groups p ↔ ∀ name, HasRole p name → MappedRole m groups name := by
  constructor
  · -- the policy that knows this role alone
    intro honly name hname
    obtain ⟨name', hmapped, hgrants⟩ := honly (onlyRole name) "" "" none
      ((isAllowed_iff _ _ _ _ _).mpr ⟨name, hname, roleGrants_onlyRole.mpr rfl⟩)
    rw [roleGrants_onlyRole] at hgrants
    rw [← hgrants]
    exact hmapped
  · intro hroles policy resource action attrs hallowed
    obtain ⟨name, hname, hgrants⟩ := (isAllowed_iff _ _ _ _ _).mp hallowed
    exact ⟨name, hroles name hname, hgrants⟩

theorem onlyMappedRoles_assigned_iff {q : Principal} :
    OnlyMappedRoles m groups (assignRoles q (m.rolesForGroups groups)) ↔
      SomeMappedRole m groups ∨ ∀ name, ClaimedRole q name → MappedRole m groups name := by
  rw [onlyMappedRoles_iff]
  simp only [hasRole_assigned]
  by_cases hsome : SomeMappedRole m groups
  · simp only [hsome, not_true_eq_false, false_and, or_false, true_or, iff_true]
    exact fun name hname => hname.1
  · simp only [hsome, not_false_eq_true, true_and, false_or]
    constructor
    · intro hall name hname
      exact hall name (Or.inr hname)
    · intro hall name hname
      rcases hname with hmapped | hclaimed
      · exact hmapped.1
      · exact hall name hclaimed

/-- **Fail closed**: whatever the store holds, a login is allowed only what the roles
    of its groups grant exactly when some group has a role or the stored claims name
    no other ones. -/
theorem login_onlyMappedRoles_iff {uuid : String} {s s' : SubjectStore}
    (hok : m.map uuid claims s = (.ok p, s')) :
    OnlyMappedRoles m claims.groups p ↔
      SomeMappedRole m claims.groups ∨ ClaimsAgree m claims s := by
  rcases DefaultMapper.map_ok hok with ⟨id, existing, hid, hget, _, rfl, _⟩ | ⟨hnone, _, rfl, _⟩
  · -- a stored principal keeps its claim
    unfold DefaultMapper.refresh
    rw [onlyMappedRoles_assigned_iff]
    have hsame := claimedRole_enriched
      (q := { existing with claims := enrichClaims existing.claims claims }) (r := existing) rfl rfl
    simp only [hsame]
    unfold ClaimsAgree
    simp only [hid, Option.some.injEq]
    grind
  · -- a new one has none
    rw [onlyMappedRoles_assigned_iff]
    have hempty : ∀ name, ¬ ClaimedRole (DefaultMapper.provision claims uuid) name := by
      intro name hclaimed
      unfold ClaimedRole HasRole at hclaimed
      simp [DefaultMapper.provision, enrichClaims_roles] at hclaimed
    have hagree : ClaimsAgree m claims s := by
      intro id existing hid
      rw [hnone] at hid
      contradiction
    simp [hempty, hagree]

/-! ## Section 4: A principal with roles in its claims -/

/-- Pre-provisioned with its role in the claims, as the engine reads it. -/
def claimedAdmin : Principal :=
  ⟨"p-1", .human, "oidc:https://idp.example:alice", "Alice", .active, [],
    (∅ : AnyMap).insert "roles" (.str "admin")⟩

def claimedStore : SubjectStore :=
  { toPrincipalStore := (SubjectStore.empty.write claimedAdmin).toPrincipalStore
    bySubject := fun subject => if subject = claimedAdmin.subject then some "p-1" else none }

/-- Alice is in no group any more. -/
def groupless : IDClaims := ⟨"alice", "", false, "", "", [], "https://idp.example"⟩

def analystMapper : DefaultMapper := ⟨true, (∅ : Std.ExtTreeMap String String).insert "siem" "analyst"⟩

/-- The principal that the login returns. -/
def grouplessAdmin : Principal :=
  { claimedAdmin with claims := enrichClaims claimedAdmin.claims groupless }

theorem claimedStore_saved : SubjectStore.empty.save claimedAdmin = .ok claimedStore := by
  have hid : claimedAdmin.id ≠ "" := by decide
  have hsubject : claimedAdmin.subject ≠ "" := by decide
  simp only [SubjectStore.save, PrincipalStore.save, hid, hsubject, if_false, ne_eq,
    not_false_eq_true, true_and]
  rfl

theorem groupless_map : (analystMapper.map "p-2" groupless claimedStore).1 = .ok grouplessAdmin := rfl

theorem login_onlyMappedRoles_iff_groupless :
    OnlyMappedRoles analystMapper [] grouplessAdmin ↔
      SomeMappedRole analystMapper [] ∨ ClaimsAgree analystMapper groupless claimedStore :=
  login_onlyMappedRoles_iff (show analystMapper.map "p-2" groupless claimedStore
    = (.ok grouplessAdmin, (analystMapper.map "p-2" groupless claimedStore).2) from rfl)

/-- None of the groups of the login is mapped, and the request is allowed. -/
theorem login_keeps_claimed_admin :
    SubjectStore.empty.save claimedAdmin = .ok claimedStore
      ∧ (analystMapper.map "p-2" groupless claimedStore).1 = .ok grouplessAdmin
      ∧ isAllowed (onlyRole "admin") grouplessAdmin "users" "delete" none = true
      ∧ (∀ name, ¬ MappedRole analystMapper groupless.groups name)
      ∧ ¬ OnlyMappedRoles analystMapper groupless.groups grouplessAdmin := by
  have hallowed : isAllowed (onlyRole "admin") grouplessAdmin "users" "delete" none = true := by
    decide +kernel
  have hnone : ∀ name, ¬ MappedRole analystMapper groupless.groups name := by
    intro name hmapped
    obtain ⟨g, hg, _⟩ := hmapped
    contradiction
  refine ⟨claimedStore_saved, groupless_map, hallowed, hnone, ?_⟩
  intro honly
  obtain ⟨name, hmapped, _⟩ := honly _ _ _ _ hallowed
  exact hnone name hmapped

end Owasaka.Authz
