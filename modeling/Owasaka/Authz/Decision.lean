import Mathlib.Data.List.Forall2
import Owasaka.Authz.Engine

/-! # Decision semantics

    What follows from `Allowed` being an existential over roles and permissions:
    the order of the role names and of a role's permissions does not matter, more
    names and permissions grant more, more conditions grant less. -/

namespace Owasaka.Authz

open Identity

/-- The two policies define the same roles, with related permissions. -/
def RolesRelated (R : List Permission → List Permission → Prop) (policy policy' : Policy) : Prop :=
  ∀ name : String, Option.Rel (fun role role' : Role => R role.permissions role'.permissions)
    policy.roles[name]? policy'.roles[name]?

/-- The same grant with more conditions. -/
def Permission.Narrowed (perm perm' : Permission) : Prop :=
  perm'.resource = perm.resource ∧ perm'.action = perm.action ∧ perm.conditions ⊆ perm'.conditions

variable {policy policy' : Policy} {p p' : Principal} {resource action : String} {attrs : AnyMap}

/-- Conditions see the principal through its ID only. -/
theorem Condition.Holds.congr_id {c : Condition} (hid : p'.id = p.id) (hholds : c.Holds p attrs) :
    c.Holds p' attrs := by
  simpa only [Condition.Holds, seenAttr, principalID, hid] using hholds

theorem Permission.Grants.congr_id {perm : Permission} (hid : p'.id = p.id)
    (hgrants : perm.Grants p resource action attrs) : perm.Grants p' resource action attrs :=
  ⟨hgrants.resource, hgrants.action, fun c hc => (hgrants.conditions c hc).congr_id hid⟩

/-- More role names grant more. -/
theorem Granted.mono_names (hid : p'.id = p.id)
    (hnames : ∀ name, HasRole p name → HasRole p' name)
    (hgranted : Granted policy p resource action attrs) :
    Granted policy p' resource action attrs := by
  obtain ⟨name, hname, role, hrole, perm, hmem, hgrants⟩ := hgranted
  exact ⟨name, hnames name hname, role, hrole, perm, hmem, hgrants.congr_id hid⟩

/-- Policies whose permissions are each matched by one that grants as much. -/
theorem Granted.mono_policy {R : List Permission → List Permission → Prop}
    (hrel : RolesRelated R policy policy')
    (hgrow : ∀ perms perms', R perms perms' → ∀ perm ∈ perms,
      perm.Grants p resource action attrs → ∃ perm' ∈ perms', perm'.Grants p resource action attrs)
    (hgranted : Granted policy p resource action attrs) :
    Granted policy' p resource action attrs := by
  obtain ⟨name, hname, role, hrole, perm, hmem, hgrants⟩ := hgranted
  have hsame := hrel name
  rw [hrole] at hsame
  generalize hrole' : policy'.roles[name]? = found at hsame
  cases hsame with
  | @some _ role' hR =>
    obtain ⟨perm', hmem', hgrants'⟩ := hgrow _ _ hR perm hmem hgrants
    exact ⟨name, hname, role', hrole', perm', hmem', hgrants'⟩

theorem RolesRelated.swap {R : List Permission → List Permission → Prop}
    (hrel : RolesRelated R policy policy') :
    RolesRelated (fun perms perms' => R perms' perms) policy' policy := by
  intro name
  have hsame := hrel name
  generalize policy.roles[name]? = found at hsame ⊢
  generalize policy'.roles[name]? = found' at hsame ⊢
  cases hsame with
  | some hR => exact .some hR
  | none => exact .none

/-- Policies that define the same roles with the same sets of permissions decide alike. -/
theorem isAllowed_congr {R : List Permission → List Permission → Prop}
    (hrel : RolesRelated R policy policy')
    (hsame : ∀ perms perms', R perms perms' → ∀ perm, perm ∈ perms ↔ perm ∈ perms')
    (p : Principal) (resource action : String) (attrs : Option AnyMap) :
    isAllowed policy p resource action attrs = isAllowed policy' p resource action attrs := by
  rw [Bool.eq_iff_iff, isAllowed_iff, isAllowed_iff]
  constructor
  · apply Granted.mono_policy hrel
    intro perms perms' hR perm hmem hgrants
    exact ⟨perm, (hsame perms perms' hR perm).mp hmem, hgrants⟩
  · apply Granted.mono_policy hrel.swap
    intro perms' perms hR perm hmem hgrants
    exact ⟨perm, (hsame perms perms' hR perm).mpr hmem, hgrants⟩

/-- A narrowed permission grants no more than the permission itself. -/
theorem Granted.of_narrowed
    (hrel : RolesRelated (List.Forall₂ Permission.Narrowed) policy policy')
    (hgranted : Granted policy' p resource action attrs) :
    Granted policy p resource action attrs := by
  refine hgranted.mono_policy hrel.swap ?_
  intro perms' perms hnarrowed perm' hmem' hgrants
  induction hnarrowed with
  | nil => contradiction
  | @cons perm _ _ _ hfirst _ ih =>
    rcases List.mem_cons.mp hmem' with rfl | hrest
    · obtain ⟨hresource, haction, hconditions⟩ := hfirst
      exact ⟨perm, List.mem_cons_self, hresource ▸ hgrants.resource, haction ▸ hgrants.action,
        fun c hc => hgrants.conditions c (hconditions hc)⟩
    · obtain ⟨perm'', hmem'', hgrants''⟩ := ih hrest
      exact ⟨perm'', List.mem_cons_of_mem _ hmem'', hgrants''⟩

/-- The role and the permission of an allowing decision grant the request. -/
theorem allowed_names_grant {d : Decision} {attrs : Option AnyMap}
    (hok : (allowed (some policy) (some p) resource action attrs).1 = .ok d)
    (hallowed : d.allowed = true) :
    HasRole p d.role ∧ ∃ role perm, policy.roles[d.role]? = some role ∧ d.permission = some perm
      ∧ perm ∈ role.permissions ∧ perm.Grants p resource action (attrs.getD ∅) := by
  unfold allowed at hok
  simp only at hok
  split at hok
  · cases hok
    simp [Decision.denied] at hallowed
  · cases hok
    unfold decideRoles at hallowed ⊢
    split at hallowed
    · rename_i d hfound
      obtain ⟨name, hname, role, hrole, perm, hmem, hgrants, rfl⟩ := searchRoles_some hfound
      exact ⟨mem_principalRoles.mp hname, role, perm, hrole, rfl, hmem, hgrants⟩
    · simp [Decision.denied] at hallowed

/-- **Decision semantics** of `Allowed`, and what follows from it. -/
theorem allowed_semantics (policy : Policy) (p : Principal) (resource action : String)
    (attrs : Option AnyMap) :
    (isAllowed policy p resource action attrs = true ↔
        Granted policy p resource action (attrs.getD ∅))
      -- the order of the role names and of a role's permissions does not matter
      ∧ (∀ p', p'.id = p.id → (principalRoles p').Perm (principalRoles p) →
          isAllowed policy p' resource action attrs = isAllowed policy p resource action attrs)
      ∧ (∀ policy', RolesRelated List.Perm policy policy' →
          isAllowed policy' p resource action attrs = isAllowed policy p resource action attrs)
      -- more names and more permissions allow more
      ∧ (∀ p', p'.id = p.id → principalRoles p ⊆ principalRoles p' →
          isAllowed policy p resource action attrs = true →
            isAllowed policy p' resource action attrs = true)
      ∧ (∀ policy', RolesRelated (fun perms perms' => perms ⊆ perms') policy policy' →
          isAllowed policy p resource action attrs = true →
            isAllowed policy' p resource action attrs = true)
      -- more conditions allow less
      ∧ (∀ policy', RolesRelated (List.Forall₂ Permission.Narrowed) policy policy' →
          isAllowed policy p resource action attrs = false →
            isAllowed policy' p resource action attrs = false)
      -- an allowing decision names a grant
      ∧ ∀ d, (allowed (some policy) (some p) resource action attrs).1 = .ok d → d.allowed = true →
          HasRole p d.role ∧ ∃ role perm, policy.roles[d.role]? = some role
            ∧ d.permission = some perm ∧ perm ∈ role.permissions
            ∧ perm.Grants p resource action (attrs.getD ∅) := by
  refine ⟨isAllowed_iff _ _ _ _ _, ?_, ?_, ?_, ?_, ?_, ?_⟩
  · intro p' hid hperm
    have hnames : ∀ name, HasRole p' name ↔ HasRole p name := by
      intro name
      rw [← mem_principalRoles, ← mem_principalRoles, hperm.mem_iff]
    rw [Bool.eq_iff_iff, isAllowed_iff, isAllowed_iff]
    exact ⟨Granted.mono_names hid.symm fun name => (hnames name).mp,
      Granted.mono_names hid fun name => (hnames name).mpr⟩
  · intro policy' hrel
    symm
    apply isAllowed_congr hrel
    intro perms perms' hperm perm
    exact hperm.mem_iff
  · intro p' hid hsub
    rw [isAllowed_iff, isAllowed_iff]
    apply Granted.mono_names hid
    intro name hname
    exact mem_principalRoles.mp (hsub (mem_principalRoles.mpr hname))
  · intro policy' hrel
    rw [isAllowed_iff, isAllowed_iff]
    refine Granted.mono_policy hrel ?_
    intro perms perms' hsub perm hmem hgrants
    exact ⟨perm, hsub hmem, hgrants⟩
  · intro policy' hrel
    rw [← Bool.not_eq_true, ← Bool.not_eq_true, isAllowed_iff, isAllowed_iff]
    exact mt (Granted.of_narrowed hrel)
  · intro d hok hallowed
    exact allowed_names_grant hok hallowed

end Owasaka.Authz
