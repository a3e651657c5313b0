import Owasaka.Authz.Decision
import Owasaka.Authz.Inheritance
import Owasaka.Foundation.System

/-! # Reloading a policy (`authz/reload.go`)

    `ReloadBytes` loads a document and installs it; if it is rejected, the policy
    stays.  It returns a `Diff` of the two policies for the audit log.

    Two main results.  The diff is faithful if and only if no two permissions,
    one of each policy, pass for each other by their keys.  And whatever is
    reloaded, some role is an administrator of everything, and no other action is
    granted on the wildcard resource. -/

namespace Owasaka.Authz

open Identity

/-! ## Section 1: Diffs -/

structure Diff where
  added : List String
  removed : List String
  modified : List String
  deriving DecidableEq

def Diff.isEmpty (d : Diff) : Bool :=
  d.added.length = 0 && d.removed.length = 0 && d.modified.length = 0

def permissionKeys (perms : List Permission) : List String := (perms.map permissionKey).mergeSort

def rolePermsEqual (a b : Role) : Bool :=
  -- the keys are compared, not the permissions
  if a.permissions.length ≠ b.permissions.length then false
  else permissionKeys a.permissions = permissionKeys b.permissions

/-- `diffPolicies`.  The keys of a map come sorted. -/
def diffPolicies (prev : Option Policy) (next : Policy) : Diff :=
  match prev with
  | none => ⟨next.roles.keys, [], []⟩
  | some prev =>
    { added := next.roles.keys.filter fun name => name ∉ prev.roles
      removed := prev.roles.keys.filter fun name => name ∉ next.roles
      modified := next.roles.keys.filter fun name =>
        match prev.roles[name]?, next.roles[name]? with
        | some old, some role => !rolePermsEqual old role
        | _, _ => false }

/-! ## Section 2: `ReloadBytes` -/

/-- `Replace`; a nil policy is not installed. -/
def replace (current p : Option Policy) : Option Policy :=
  match p with
  | none => current
  | some p => some p

/-- `ReloadBytes`, with the policy that is current afterwards. -/
def reloadBytes (yaml : Bytes → Except String YamlPolicy) (current : Option Policy) (data : Bytes)
    (orders : LoadOrders) : Option (Except PolicyError Diff × Option Policy) :=
  match loadBytes yaml data orders with
  | none => none
  | some (.error e) => some (.error e, current)
  | some (.ok next) => some (.ok (diffPolicies current next), replace current (some next))

/-- Orders in which the passes may go through the document. -/
def LoadOrders.For (yaml : Bytes → Except String YamlPolicy) (data : Bytes)
    (orders : LoadOrders) : Prop :=
  ∀ raw, yaml data = .ok raw → orders.Of raw

/-- The policy is accepted by `LoadBytes`. -/
def LoadedBy (yaml : Bytes → Except String YamlPolicy) (policy : Policy) : Prop :=
  ∃ data orders, LoadOrders.For yaml data orders ∧ loadBytes yaml data orders = some (.ok policy)

variable {yaml : Bytes → Except String YamlPolicy}

theorem LoadedBy.loaded {policy : Policy} (hby : LoadedBy yaml policy) :
    ∃ raw, Loaded raw policy := by
  obtain ⟨data, orders, horders, hok⟩ := hby
  unfold loadBytes at hok
  cases hyaml : yaml data with
  | error e => simp [hyaml] at hok
  | ok raw =>
    rw [hyaml] at hok
    exact ⟨raw, loaded_of_loadDocument (horders raw hyaml) hok⟩

theorem loadBytes_ne_none {data : Bytes} {orders : LoadOrders}
    (horders : LoadOrders.For yaml data orders) : loadBytes yaml data orders ≠ none := by
  unfold loadBytes
  cases hyaml : yaml data with
  | error e => simp
  | ok raw => exact loadDocument_ne_none (horders raw hyaml)

/-- **Inversion**: a rejected document changes nothing, an accepted one is installed. -/
theorem reloadBytes_cases {current after : Option Policy} {data : Bytes} {orders : LoadOrders}
    {result : Except PolicyError Diff}
    (hreload : reloadBytes yaml current data orders = some (result, after)) :
    (∃ e, result = .error e ∧ after = current)
      ∨ ∃ next, loadBytes yaml data orders = some (.ok next)
          ∧ result = .ok (diffPolicies current next) ∧ after = some next := by
  unfold reloadBytes at hreload
  split at hreload
  · contradiction
  · rename_i e _
    cases hreload
    exact Or.inl ⟨e, rfl, rfl⟩
  · rename_i next hload
    cases hreload
    exact Or.inr ⟨next, hload, rfl, rfl⟩

theorem exists_reloadBytes {data : Bytes} {orders : LoadOrders}
    (horders : LoadOrders.For yaml data orders) (current : Option Policy) :
    ∃ result after, reloadBytes yaml current data orders = some (result, after) := by
  unfold reloadBytes
  split
  · rename_i hnone
    exact absurd hnone (loadBytes_ne_none horders)
  · exact ⟨_, _, rfl⟩
  · exact ⟨_, _, rfl⟩

/-! ## Section 3: What a diff lists -/

/-- The role is named in the diff. -/
def Diff.Lists (d : Diff) (name : String) : Prop :=
  name ∈ d.added ∨ name ∈ d.removed ∨ name ∈ d.modified

/-- The roles of a policy; a nil policy has none. -/
def rolesOf (policy : Option Policy) : Roles := (policy.map Policy.roles).getD ∅

theorem rolePermsEqual_iff {a b : Role} :
    rolePermsEqual a b = true ↔ permissionKeys a.permissions = permissionKeys b.permissions := by
  unfold rolePermsEqual
  constructor
  · intro hequal
    split at hequal
    · contradiction
    · simpa using hequal
  · intro hkeys
    have hlength := congrArg List.length hkeys
    simp only [permissionKeys, List.length_mergeSort, List.length_map] at hlength
    simp [hlength, hkeys]

theorem mem_permissionKeys {perms : List Permission} {key : String} :
    key ∈ permissionKeys perms ↔ ∃ perm ∈ perms, permissionKey perm = key := by
  unfold permissionKeys
  rw [List.mem_mergeSort, List.mem_map]

theorem not_isEmpty_of_lists {d : Diff} {name : String} (hlists : d.Lists name) :
    d.isEmpty = false := by
  unfold Diff.isEmpty
  rcases hlists with hadded | hremoved | hmodified
  · simp [List.ne_nil_of_mem hadded]
  · simp [List.ne_nil_of_mem hremoved]
  · simp [List.ne_nil_of_mem hmodified]

theorem mem_added {prev : Option Policy} {next : Policy} {name : String} :
    name ∈ (diffPolicies prev next).added ↔ name ∈ next.roles ∧ name ∉ rolesOf prev := by
  cases prev with
  | none => simp [diffPolicies, rolesOf, Std.ExtTreeMap.mem_keys]
  | some prev => simp [diffPolicies, rolesOf, Std.ExtTreeMap.mem_keys]

theorem mem_removed {prev : Option Policy} {next : Policy} {name : String} :
    name ∈ (diffPolicies prev next).removed ↔ name ∈ rolesOf prev ∧ name ∉ next.roles := by
  cases prev with
  | none => simp [diffPolicies, rolesOf]
  | some prev => simp [diffPolicies, rolesOf, Std.ExtTreeMap.mem_keys]

theorem mem_modified {prev : Option Policy} {next : Policy} {name : String} :
    name ∈ (diffPolicies prev next).modified ↔
      ∃ old role, (rolesOf prev)[name]? = some old ∧ next.roles[name]? = some role
        ∧ rolePermsEqual old role = false := by
  cases prev with
  | none => simp [diffPolicies, rolesOf]
  | some prev =>
    simp only [diffPolicies, rolesOf, List.mem_filter, Std.ExtTreeMap.mem_keys, Option.map_some,
      Option.getD_some]
    rw [Std.ExtTreeMap.mem_iff_isSome_getElem?]
    cases prev.roles[name]? with
    | none => simp
    | some old =>
      cases next.roles[name]? with
      | none => simp
      | some role => simp

/-- **Diff**: a role that is not listed is in neither policy, or has the same keys
    in both. -/
theorem not_lists_iff {prev : Option Policy} {next : Policy} {name : String} :
    ¬ (diffPolicies prev next).Lists name ↔
      (rolesOf prev)[name]?.map (fun role => permissionKeys role.permissions)
        = next.roles[name]?.map fun role => permissionKeys role.permissions := by
  unfold Diff.Lists
  rw [mem_added, mem_removed, mem_modified, Std.ExtTreeMap.mem_iff_isSome_getElem?,
    Std.ExtTreeMap.mem_iff_isSome_getElem?]
  cases (rolesOf prev)[name]? with
  | none =>
    cases next.roles[name]? with
    | none => simp
    | some role => simp
  | some old =>
    cases next.roles[name]? with
    | none => simp
    | some role => simp [← rolePermsEqual_iff]

/-! ## Section 4: Faithful diffs -/

/-- The two roles have the same set of permissions. -/
def SameGrants (role role' : Role) : Prop :=
  ∀ perm, perm ∈ role.permissions ↔ perm ∈ role'.permissions

/-- What the audit log may be read to say. -/
structure DiffFaithful (prev next : Policy) (d : Diff) : Prop where
  /-- A role that is not listed is in neither policy or grants the same. -/
  unlisted : ∀ name : String, ¬ d.Lists name →
    Option.Rel SameGrants prev.roles[name]? next.roles[name]?
  /-- "no changes": every decision is as before. -/
  empty : d.isEmpty = true → ∀ p resource action attrs,
    isAllowed prev p resource action attrs = isAllowed next p resource action attrs

/-- Where the keys of a role agree before and after, a key stands for one permission. -/
def KeysDetermine (prev next : Policy) : Prop :=
  ∀ (name : String) (role role' : Role), prev.roles[name]? = some role →
    next.roles[name]? = some role' → rolePermsEqual role role' = true →
      ∀ perm ∈ role.permissions, ∀ perm' ∈ role'.permissions,
        permissionKey perm = permissionKey perm' → perm = perm'

/-- Lists with the same keys have for each permission one with its key. -/
theorem exists_of_permissionKeys_eq {perms perms' : List Permission}
    (hkeys : permissionKeys perms = permissionKeys perms') {perm : Permission} (hmem : perm ∈ perms) :
    ∃ perm' ∈ perms', permissionKey perm' = permissionKey perm := by
  rw [← mem_permissionKeys, ← hkeys, mem_permissionKeys]
  exact ⟨perm, hmem, rfl⟩

theorem sameGrants_of_keys {role role' : Role} (hequal : rolePermsEqual role role' = true)
    (hdetermine : ∀ perm ∈ role.permissions, ∀ perm' ∈ role'.permissions,
      permissionKey perm = permissionKey perm' → perm = perm') : SameGrants role role' := by
  rw [rolePermsEqual_iff] at hequal
  intro perm
  constructor
  · intro hmem
    obtain ⟨perm', hmem', hsame⟩ := exists_of_permissionKeys_eq hequal hmem
    rw [hdetermine perm hmem perm' hmem' hsame.symm]
    exact hmem'
  · intro hmem
    obtain ⟨perm', hmem', hsame⟩ := exists_of_permissionKeys_eq hequal.symm hmem
    rw [← hdetermine perm' hmem' perm hmem hsame]
    exact hmem'

theorem sameGrants_of_not_lists {prev next : Policy} (hdetermine : KeysDetermine prev next)
    {name : String} (hnot : ¬ (diffPolicies (some prev) next).Lists name) :
    Option.Rel SameGrants prev.roles[name]? next.roles[name]? := by
  have hkeys : prev.roles[name]?.map (fun role => permissionKeys role.permissions)
      = next.roles[name]?.map fun role => permissionKeys role.permissions := not_lists_iff.mp hnot
  cases hrole : prev.roles[name]? with
  | none =>
    cases hrole' : next.roles[name]? with
    | none => exact .none
    | some role' => simp [hrole, hrole'] at hkeys
  | some role =>
    cases hrole' : next.roles[name]? with
    | none => simp [hrole, hrole'] at hkeys
    | some role' =>
      simp only [hrole, hrole', Option.map_some, Option.some.injEq, ← rolePermsEqual_iff] at hkeys
      exact .some (sameGrants_of_keys hkeys (hdetermine name role role' hrole hrole' hkeys))

/-- **The audited diff** of an accepted reload is faithful exactly when no two
    permissions pass for each other by their keys. -/
theorem diff_faithful_iff {prev next : Policy} {data : Bytes} {orders : LoadOrders} {diff : Diff}
    (hprev : LoadedBy yaml prev)
    (hok : reloadBytes yaml (some prev) data orders = some (.ok diff, some next)) :
    DiffFaithful prev next diff ↔ KeysDetermine prev next := by
  obtain ⟨e, herror, _⟩ | ⟨next', hload, hresult, hafter⟩ := reloadBytes_cases hok
  · contradiction
  cases hafter
  cases hresult
  constructor
  · -- a permission of the one role is in the other; keys are distinct within a role
    intro hfaithful name role role' hrole hrole' hequal perm hmem perm' hmem' hkey
    obtain ⟨raw, hloaded⟩ := LoadedBy.loaded hprev
    have hnot : ¬ (diffPolicies (some prev) next).Lists name := by
      rw [not_lists_iff]
      show prev.roles[name]?.map _ = next.roles[name]?.map _
      rw [hrole, hrole', Option.map_some, Option.map_some, rolePermsEqual_iff.mp hequal]
    have hrel := hfaithful.unlisted name hnot
    rw [hrole, hrole', Option.rel_some_some] at hrel
    exact List.inj_on_of_nodup_map (hloaded.nodup name role hrole) hmem ((hrel perm').mpr hmem') hkey
  · intro hdetermine
    refine ⟨fun name => sameGrants_of_not_lists hdetermine, ?_⟩
    -- an empty diff lists no role, so every role grants the same
    intro hempty
    have hrel : RolesRelated (fun perms perms' => ∀ perm, perm ∈ perms ↔ perm ∈ perms')
        prev next := by
      intro name
      apply sameGrants_of_not_lists hdetermine
      intro hlists
      rw [not_isEmpty_of_lists hlists] at hempty
      contradiction
    exact isAllowed_congr hrel fun _ _ hsame => hsame

/-! ### A changed grant, reported as no change -/

def adminText : Bytes := (
  "version: 1\n"
  ++ "roles:\n"
  ++ "  admin:\n"
  ++ "    permissions:\n"
  ++ "      - resource: \"*\"\n"
  ++ "        action: admin\n").toUTF8.toList

def opsTextWith (resource action : String) : Bytes := (
  "  ops:\n"
  ++ "    permissions:\n"
  ++ "      - resource: \"" ++ resource ++ "\"\n"
  ++ "        action: \"" ++ action ++ "\"\n").toUTF8.toList

/-- A document with an administrator and one permission for `ops`. -/
def opsWith (resource action : String) : Bytes := adminText ++ opsTextWith resource action

def opsGranted (resource action : String) : YamlRole := ⟨"", [], [⟨resource, action, ∅⟩]⟩

def opsWithDocument (resource action : String) : YamlPolicy :=
  ⟨1, ((∅ : Std.ExtTreeMap String YamlRole).insert "admin" adminWritten).insert "ops"
    (opsGranted resource action)⟩

def opsWithOrders (resource action : String) : LoadOrders :=
  ⟨[("admin", adminWritten), ("ops", opsGranted resource action)], ["ops", "admin"],
    ["admin", "ops"]⟩

def opsWithPolicy (resource action : String) : Policy :=
  ⟨1, ((∅ : Roles).insert "admin" ⟨"admin", "", [], [⟨"*", "admin", []⟩]⟩).insert "ops"
    ⟨"ops", "", [], [⟨resource, action, []⟩]⟩⟩

/-- `yaml.Unmarshal` on the two texts. -/
def backupYaml (data : Bytes) : Except String YamlPolicy :=
  if data = opsWith "backup:daily" "run" then .ok (opsWithDocument "backup:daily" "run")
  else if data = opsWith "backup" "daily:run" then .ok (opsWithDocument "backup" "daily:run")
  else .error "not needed"

theorem backupYaml_daily :
    backupYaml (opsWith "backup:daily" "run") = .ok (opsWithDocument "backup:daily" "run") := by
  simp [backupYaml]

theorem backupYaml_backup :
    backupYaml (opsWith "backup" "daily:run") = .ok (opsWithDocument "backup" "daily:run") := by
  have hne : opsWith "backup" "daily:run" ≠ opsWith "backup:daily" "run" := by
    have hops : opsTextWith "backup" "daily:run" ≠ opsTextWith "backup:daily" "run" := by
      decide +kernel
    intro heq
    exact hops (List.append_cancel_left heq)
  simp [backupYaml, hne]

theorem opsWithOrders_of (resource action : String) :
    (opsWithOrders resource action).Of (opsWithDocument resource action) where
  hydrate := .refl _
  expand := .swap _ _ _
  validate := .refl _

theorem loadBytes_daily :
    loadBytes backupYaml (opsWith "backup:daily" "run") (opsWithOrders "backup:daily" "run")
      = some (.ok (opsWithPolicy "backup:daily" "run")) := by
  unfold loadBytes
  rw [backupYaml_daily]
  rfl

theorem loadBytes_backup :
    loadBytes backupYaml (opsWith "backup" "daily:run") (opsWithOrders "backup" "daily:run")
      = some (.ok (opsWithPolicy "backup" "daily:run")) := by
  unfold loadBytes
  rw [backupYaml_backup]
  rfl

theorem loadedBy_daily : LoadedBy backupYaml (opsWithPolicy "backup:daily" "run") := by
  refine ⟨_, _, ?_, loadBytes_daily⟩
  intro raw hyaml
  rw [backupYaml_daily] at hyaml
  cases hyaml
  exact opsWithOrders_of _ _

theorem reloadBytes_backup :
    reloadBytes backupYaml (some (opsWithPolicy "backup:daily" "run"))
        (opsWith "backup" "daily:run") (opsWithOrders "backup" "daily:run")
      = some (.ok ⟨[], [], []⟩, some (opsWithPolicy "backup" "daily:run")) := by
  have hdiff : diffPolicies (some (opsWithPolicy "backup:daily" "run"))
      (opsWithPolicy "backup" "daily:run") = ⟨[], [], []⟩ := by decide +kernel
  unfold reloadBytes
  rw [loadBytes_backup]
  show some (Except.ok (diffPolicies _ _), replace _ _) = _
  rw [hdiff]
  rfl

theorem diff_faithful_iff_backup :
    LoadedBy backupYaml (opsWithPolicy "backup:daily" "run")
      ∧ (DiffFaithful (opsWithPolicy "backup:daily" "run") (opsWithPolicy "backup" "daily:run")
            ⟨[], [], []⟩ ↔
          KeysDetermine (opsWithPolicy "backup:daily" "run") (opsWithPolicy "backup" "daily:run")) :=
  ⟨loadedBy_daily, diff_faithful_iff loadedBy_daily reloadBytes_backup⟩

def operator : Principal := ⟨"p1", .human, "op", "", .active, ["ops"], ∅⟩

/-- The reload gives `ops` a new permission, and the diff is empty. -/
theorem changed_grant_unreported :
    LoadedBy backupYaml (opsWithPolicy "backup:daily" "run")
      ∧ reloadBytes backupYaml (some (opsWithPolicy "backup:daily" "run"))
          (opsWith "backup" "daily:run") (opsWithOrders "backup" "daily:run")
        = some (.ok ⟨[], [], []⟩, some (opsWithPolicy "backup" "daily:run"))
      ∧ isAllowed (opsWithPolicy "backup:daily" "run") operator "backup" "daily:run" none = false
      ∧ isAllowed (opsWithPolicy "backup" "daily:run") operator "backup" "daily:run" none = true
      ∧ ¬ DiffFaithful (opsWithPolicy "backup:daily" "run") (opsWithPolicy "backup" "daily:run")
          ⟨[], [], []⟩ := by
  have hbefore : isAllowed (opsWithPolicy "backup:daily" "run") operator "backup" "daily:run" none
      = false := by decide
  have hafter : isAllowed (opsWithPolicy "backup" "daily:run") operator "backup" "daily:run" none
      = true := by decide
  refine ⟨loadedBy_daily, reloadBytes_backup, hbefore, hafter, ?_⟩
  intro hfaithful
  have hsame := hfaithful.empty rfl operator "backup" "daily:run" none
  rw [hbefore, hafter] at hsame
  contradiction

/-! ## Section 5: Lockout protection -/

/-- An engine that is built on an accepted policy, and any reloads. -/
def reloadSystem (yaml : Bytes → Except String YamlPolicy) :
    System (Option Policy) (Bytes × LoadOrders) where
  init := fun current => ∃ policy, current = some policy ∧ LoadedBy yaml policy
  step := fun current reload after =>
    LoadOrders.For yaml reload.1 reload.2
      ∧ ∃ result, reloadBytes yaml current reload.1 reload.2 = some (result, after)

/-- **Step lemma**: the current policy stays one that `LoadBytes` accepted. -/
theorem loadedBy_of_reload {current after : Option Policy} {data : Bytes} {orders : LoadOrders}
    {result : Except PolicyError Diff} (horders : LoadOrders.For yaml data orders)
    (hcurrent : ∃ policy, current = some policy ∧ LoadedBy yaml policy)
    (hreload : reloadBytes yaml current data orders = some (result, after)) :
    ∃ policy, after = some policy ∧ LoadedBy yaml policy := by
  obtain ⟨_, _, rfl⟩ | ⟨next, hload, _, rfl⟩ := reloadBytes_cases hreload
  · exact hcurrent
  · exact ⟨next, rfl, data, orders, horders, hload⟩

/-- **Run lemma**. -/
theorem loadedBy_of_reachable {current : Option Policy}
    (hreach : (reloadSystem yaml).Reachable current) :
    ∃ policy, current = some policy ∧ LoadedBy yaml policy := by
  refine System.Reachable.invariant (fun _ hinit => hinit) ?_ hreach
  intro current ⟨data, orders⟩ after hcurrent ⟨horders, result, hreload⟩
  exact loadedBy_of_reload horders hcurrent hreload

/-- `*:admin` without conditions grants every request. -/
theorem grants_of_isWildcardAdmin {perm : Permission} (hadmin : isWildcardAdmin perm = true)
    (p : Principal) (resource action : String) (attrs : AnyMap) :
    perm.Grants p resource action attrs := by
  simp only [isWildcardAdmin, Bool.and_eq_true, decide_eq_true_eq, List.length_eq_zero_iff]
    at hadmin
  obtain ⟨⟨hresource, haction⟩, hconditions⟩ := hadmin
  exact ⟨Or.inl hresource, Or.inl haction, by simp [hconditions]⟩

/-- Some role is allowed everything, and `*` is granted to administrators only. -/
structure Policy.Protected (policy : Policy) : Prop where
  admin : ∃ name ∈ policy.roles, ∀ p, HasRole p name → ∀ resource action attrs,
    isAllowed policy p resource action attrs = true
  wildcard : ∀ (name : String) (role : Role), policy.roles[name]? = some role →
    ∀ perm ∈ role.permissions, perm.resource = Authz.wildcard → perm.action = actionAdmin

theorem Loaded.policy_protected {raw : YamlPolicy} {policy : Policy} (hloaded : Loaded raw policy) :
    policy.Protected where
  admin := by
    obtain ⟨name, role, hrole, perm, hmem, hadmin⟩ := hloaded.admin
    refine ⟨name, mem_of_getElem?_eq_some hrole, ?_⟩
    intro p hname resource action attrs
    rw [isAllowed_iff]
    exact ⟨name, hname, role, hrole, perm, hmem, grants_of_isWildcardAdmin hadmin p _ _ _⟩
  wildcard := hloaded.wildcard

/-- **Lockout protection** after any reloads; a reload returns, and a rejected
    document leaves the policy as it is. -/
theorem lockout_protection {current : Option Policy}
    (hreach : (reloadSystem yaml).Reachable current) :
    (∃ policy, current = some policy ∧ policy.Protected)
      ∧ ∀ data orders, LoadOrders.For yaml data orders →
          ∃ result after, reloadBytes yaml current data orders = some (result, after)
            ∧ ∀ e, result = .error e → after = current := by
  constructor
  · obtain ⟨policy, hcurrent, hby⟩ := loadedBy_of_reachable hreach
    obtain ⟨raw, hloaded⟩ := LoadedBy.loaded hby
    exact ⟨policy, hcurrent, hloaded.policy_protected⟩
  · intro data orders horders
    obtain ⟨result, after, hreload⟩ := exists_reloadBytes horders current
    refine ⟨result, after, hreload, ?_⟩
    intro e herror
    obtain ⟨_, _, hsame⟩ | ⟨next, _, hresult, _⟩ := reloadBytes_cases hreload
    · exact hsame
    · rw [herror] at hresult
      contradiction

/-- After a rejected and an accepted reload. -/
theorem lockout_protection_backup :
    (reloadSystem backupYaml).Reachable (some (opsWithPolicy "backup" "daily:run"))
      ∧ ∃ policy, some (opsWithPolicy "backup" "daily:run") = some policy ∧ policy.Protected := by
  have hrejected : (reloadSystem backupYaml).step (some (opsWithPolicy "backup:daily" "run"))
      ([], ⟨[], [], []⟩) (some (opsWithPolicy "backup:daily" "run")) := by
    have hadmin : adminText ≠ [] := by decide +kernel
    have hyaml : backupYaml [] = .error "not needed" := by simp [backupYaml, opsWith, hadmin]
    constructor
    · intro raw hok
      rw [hyaml] at hok
      contradiction
    · refine ⟨.error (.malformed "not needed"), ?_⟩
      unfold reloadBytes loadBytes
      rw [hyaml]
  have haccepted : (reloadSystem backupYaml).step (some (opsWithPolicy "backup:daily" "run"))
      (opsWith "backup" "daily:run", opsWithOrders "backup" "daily:run")
      (some (opsWithPolicy "backup" "daily:run")) := by
    constructor
    · intro raw hok
      rw [backupYaml_backup] at hok
      cases hok
      exact opsWithOrders_of _ _
    · exact ⟨_, reloadBytes_backup⟩
  have hinit : (reloadSystem backupYaml).Reachable (some (opsWithPolicy "backup:daily" "run")) :=
    System.Reachable.init ⟨_, rfl, loadedBy_daily⟩
  have hreach := (hinit.tail hrejected).tail haccepted
  exact ⟨hreach, (lockout_protection hreach).1⟩

end Owasaka.Authz
