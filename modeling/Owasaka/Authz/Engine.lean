import Owasaka.Identity.Principal

/-! # The authorization engine (`authz/engine.go`, `authz/types.go`)

    `Allowed` searches the roles of a principal for a permission that matches
    resource and action and whose conditions hold of the request's attributes.
    It writes the principal's ID into the attribute map that it is given; the
    model returns that map beside the decision.

    The main result: the three nested searches with their early return decide an
    existential over roles and permissions, `Granted`. -/

namespace Owasaka.Authz

open Identity

/-! ## Section 1: Policies -/

def wildcard : String := "*"
def actionAdmin : String := "admin"
def valueNotSelf : String := "not-self"

structure Condition where
  key : String
  value : String
  deriving DecidableEq

structure Permission where
  resource : String
  action : String
  conditions : List Condition
  deriving DecidableEq

structure Role where
  name : String
  description : String
  inherits : List String
  permissions : List Permission
  deriving DecidableEq

structure Policy where
  version : Int
  roles : Std.ExtTreeMap String Role

structure Decision where
  allowed : Bool
  role : String
  permission : Option Permission
  reason : String
  deriving DecidableEq

/-- A `Decision` with its zero values and the given reason. -/
def Decision.denied (reason : String) : Decision := ⟨false, "", none, reason⟩

inductive EngineError where
  | engineNotInitialized
  deriving DecidableEq

/-! ## Section 2: `Allowed` -/

/-- The strings of a `[]any` that are not empty. -/
def textItems : List AnyValue → List String
  | [] => []
  | .str s :: vs => if s ≠ "" then s :: textItems vs else textItems vs
  | _ :: vs => textItems vs

def principalRoles (p : Principal) : List String :=
  if p.roles.length > 0 then p.roles
  else
    match p.claims["roles"]? with
    | some (.strs v) => v
    | some (.str v) => if v = "" then [] else [v]
    | some (.list v) => textItems v
    | _ => []

def matchesResource (policy request : String) : Bool :=
  if policy = wildcard then true else policy = request

def matchesAction (policy request : String) : Bool :=
  -- `admin` covers every action
  if policy = actionAdmin then true
  else if policy = wildcard then true
  else policy = request

/-- The reason of the first condition that fails, and whether none does. -/
def evaluateConditions (attrs : AnyMap) : List Condition → String × Bool
  | [] => ("", true)
  | c :: conditions =>
    match attrs[c.key]? with
    | none => ("condition " ++ c.key ++ " missing", false)
    | some got =>
      -- values are compared by their text
      let gotStr := got.sprint
      if c.value = valueNotSelf then
        match attrs["principal_id"]? with
        | none => ("principal_id missing for not-self check", false)
        | some pidRaw =>
          if pidRaw.sprint = gotStr then
            ("condition " ++ c.key ++ "=not-self failed (self)", false)
          else evaluateConditions attrs conditions
      else if gotStr ≠ c.value then
        ("condition " ++ c.key ++ "=" ++ c.value ++ " not satisfied (got " ++ gotStr ++ ")", false)
      else evaluateConditions attrs conditions

/-- The loop over the permissions of a role. -/
def searchPermissions (roleName resource action : String) (attrs : AnyMap) :
    List Permission → Option Decision
  | [] => none
  | perm :: perms =>
    if !matchesResource perm.resource resource then
      searchPermissions roleName resource action attrs perms
    else if !matchesAction perm.action action then
      searchPermissions roleName resource action attrs perms
    -- the reason of the failed condition is dropped
    else if !(evaluateConditions attrs perm.conditions).2 then
      searchPermissions roleName resource action attrs perms
    else
      some ⟨true, roleName, some perm,
        "matched " ++ roleName ++ ":" ++ perm.resource ++ ":" ++ perm.action⟩

/-- The loop over the role names. -/
def searchRoles (policy : Policy) (resource action : String) (attrs : AnyMap) :
    List String → Option Decision
  | [] => none
  | roleName :: names =>
    match policy.roles[roleName]? with
    | none => searchRoles policy resource action attrs names
    | some role =>
      match searchPermissions roleName resource action attrs role.permissions with
      | some d => some d
      | none => searchRoles policy resource action attrs names

/-- The attributes with the principal's ID, unless they have one. -/
def withPrincipalID (p : Principal) (attrs : AnyMap) : AnyMap :=
  if "principal_id" ∈ attrs then attrs else attrs.insert "principal_id" (.str p.id)

/-- The decision of `Allowed` on a map that has a `principal_id`. -/
def decideRoles (policy : Policy) (resource action : String) (attrs : AnyMap)
    (roles : List String) : Decision :=
  match searchRoles policy resource action attrs roles with
  | some d => d
  | none =>
    .denied ("denied: no grant for " ++ resource ++ ":" ++ action ++ " under roles "
      ++ AnyValue.sprintSlice roles)

/-- `Allowed` under the current policy, with the caller's map afterwards.  A nil
    map is `none`: the map made in its place is not the caller's. -/
def allowed (current : Option Policy) (p : Option Principal) (resource action : String)
    (attrs : Option AnyMap) : Except EngineError Decision × Option AnyMap :=
  match current with
  | none => (.error .engineNotInitialized, attrs)
  | some policy =>
    match p with
    | none => (.ok (.denied "denied: nil principal"), attrs)
    | some p =>
      let roles := principalRoles p
      if roles.length = 0 then (.ok (.denied "denied: principal has no roles"), attrs)
      else
        -- a map is a reference: the caller sees the entry
        let shared := attrs.map (withPrincipalID p)
        let own := withPrincipalID p (attrs.getD ∅)
        (.ok (decideRoles policy resource action own roles), shared)

/-! ## Section 3: What a request is granted by -/

/-- A role name of the principal: one of `Roles` if there are any, else one of the
    claim `roles`.  In a string and in a `[]any`, the empty text names no role. -/
def HasRole (p : Principal) (name : String) : Prop :=
  if p.roles ≠ [] then name ∈ p.roles
  else
    match p.claims["roles"]? with
    | some (.str s) => name = s ∧ s ≠ ""
    | some (.strs ss) => name ∈ ss
    | some (.list vs) => .str name ∈ vs ∧ name ≠ ""
    | _ => False

/-- The caller's `principal_id`, if given, else the principal's ID. -/
def principalID (p : Principal) (attrs : AnyMap) : AnyValue :=
  attrs["principal_id"]?.getD (.str p.id)

/-- The attributes that conditions see. -/
def seenAttr (p : Principal) (attrs : AnyMap) (key : String) : Option AnyValue :=
  if key = "principal_id" then some (principalID p attrs) else attrs[key]?

def Condition.Holds (p : Principal) (attrs : AnyMap) (c : Condition) : Prop :=
  ∃ got, seenAttr p attrs c.key = some got
    ∧ if c.value = valueNotSelf then got.sprint ≠ (principalID p attrs).sprint
      else got.sprint = c.value

structure Permission.Grants (p : Principal) (resource action : String) (attrs : AnyMap)
    (perm : Permission) : Prop where
  resource : perm.resource = wildcard ∨ perm.resource = resource
  action : perm.action = actionAdmin ∨ perm.action = wildcard ∨ perm.action = action
  conditions : ∀ c ∈ perm.conditions, c.Holds p attrs

/-- Some role of the principal has a permission that grants the request. -/
def Granted (policy : Policy) (p : Principal) (resource action : String) (attrs : AnyMap) : Prop :=
  ∃ name, HasRole p name ∧ ∃ role, policy.roles[name]? = some role
    ∧ ∃ perm ∈ role.permissions, perm.Grants p resource action attrs

/-! ## Section 4: The searches -/

theorem mem_textItems {vs : List AnyValue} {name : String} :
    name ∈ textItems vs ↔ .str name ∈ vs ∧ name ≠ "" := by
  induction vs with
  | nil => simp [textItems]
  | cons v vs ih =>
    cases v with
    | str s =>
      by_cases hempty : s = ""
      · simp only [textItems, hempty, ne_eq, not_true_eq_false, if_false, ih, List.mem_cons,
          AnyValue.str.injEq]
        grind
      · simp only [textItems, ne_eq, hempty, not_false_eq_true, if_true, List.mem_cons, ih,
          AnyValue.str.injEq]
        grind
    | strs ss => simp [textItems, ih]
    | list vs' => simp [textItems, ih]
    | other text => simp [textItems, ih]

theorem mem_principalRoles {p : Principal} {name : String} :
    name ∈ principalRoles p ↔ HasRole p name := by
  unfold principalRoles HasRole
  by_cases hroles : p.roles = []
  · simp only [hroles, List.length_nil, gt_iff_lt, Nat.lt_irrefl, if_false, ne_eq,
      not_true_eq_false]
    cases p.claims["roles"]? with
    | none => simp
    | some v =>
      cases v with
      | str s => by_cases hempty : s = "" <;> simp [hempty]
      | strs ss => simp
      | list vs => exact mem_textItems
      | other text => simp
  · simp [hroles, List.length_pos_iff]

theorem getElem?_withPrincipalID (p : Principal) (attrs : AnyMap) (key : String) :
    (withPrincipalID p attrs)[key]? = seenAttr p attrs key := by
  unfold withPrincipalID seenAttr principalID
  by_cases hmem : "principal_id" ∈ attrs
  · by_cases hkey : key = "principal_id"
    · subst hkey
      simp [hmem]
    · simp [hmem, hkey]
  · by_cases hkey : key = "principal_id"
    · subst hkey
      simp [hmem]
    · simp [hmem, hkey, getElem?_insert_ite]

theorem matchesResource_iff {policy request : String} :
    matchesResource policy request = true ↔ policy = wildcard ∨ policy = request := by
  unfold matchesResource
  by_cases hwild : policy = wildcard <;> simp [hwild]

theorem matchesAction_iff {policy request : String} :
    matchesAction policy request = true ↔
      policy = actionAdmin ∨ policy = wildcard ∨ policy = request := by
  unfold matchesAction
  by_cases hadmin : policy = actionAdmin
  · simp [hadmin]
  · by_cases hwild : policy = wildcard <;> simp [hadmin, hwild]

theorem evaluateConditions_iff (p : Principal) (attrs : AnyMap) (conditions : List Condition) :
    (evaluateConditions (withPrincipalID p attrs) conditions).2 = true ↔
      ∀ c ∈ conditions, c.Holds p attrs := by
  induction conditions with
  | nil => simp [evaluateConditions]
  | cons c conditions ih =>
    have hpid : seenAttr p attrs "principal_id" = some (principalID p attrs) := if_pos rfl
    simp only [evaluateConditions, getElem?_withPrincipalID, List.forall_mem_cons, Condition.Holds,
      hpid]
    cases hgot : seenAttr p attrs c.key with
    | none => simp
    | some got =>
      by_cases hself : c.value = valueNotSelf
      · by_cases hsame : (principalID p attrs).sprint = got.sprint
        · simp [hself, hsame]
        · simp [hself, hsame, ih, Ne.symm hsame, Condition.Holds]
      · by_cases hsame : got.sprint = c.value
        · simp [hself, hsame, ih, Condition.Holds]
        · simp [hself, hsame]

section Search

variable {policy : Policy} {p : Principal} {resource action : String} {attrs : AnyMap}

/-- The decision for a permission that grants the request. -/
def Decision.matched (roleName : String) (perm : Permission) : Decision :=
  ⟨true, roleName, some perm,
    "matched " ++ roleName ++ ":" ++ perm.resource ++ ":" ++ perm.action⟩

/-- A permission that grants the request ends the loop, any other is skipped. -/
theorem searchPermissions_cons (roleName : String) (perm : Permission) (perms : List Permission)
    {d : Decision} :
    searchPermissions roleName resource action (withPrincipalID p attrs) (perm :: perms) = some d
      ↔ (perm.Grants p resource action attrs ∧ d = .matched roleName perm)
        ∨ (¬ perm.Grants p resource action attrs ∧
          searchPermissions roleName resource action (withPrincipalID p attrs) perms = some d) := by
  have hgrants : perm.Grants p resource action attrs ↔
      matchesResource perm.resource resource = true ∧ matchesAction perm.action action = true
        ∧ (evaluateConditions (withPrincipalID p attrs) perm.conditions).2 = true := by
    rw [matchesResource_iff, matchesAction_iff, evaluateConditions_iff]
    constructor
    · intro ⟨hresource, haction, hconditions⟩
      exact ⟨hresource, haction, hconditions⟩
    · intro ⟨hresource, haction, hconditions⟩
      exact ⟨hresource, haction, hconditions⟩
  rw [hgrants, searchPermissions]
  -- the three tests of the loop, one after the other
  cases matchesResource perm.resource resource with
  | false => simp
  | true =>
    cases matchesAction perm.action action with
    | false => simp
    | true =>
      cases (evaluateConditions (withPrincipalID p attrs) perm.conditions).2 with
      | false => simp
      | true => simp [Decision.matched, eq_comm]

theorem searchPermissions_some {roleName : String} {perms : List Permission} {d : Decision}
    (hfound : searchPermissions roleName resource action (withPrincipalID p attrs) perms = some d) :
    ∃ perm ∈ perms, perm.Grants p resource action attrs ∧ d = .matched roleName perm := by
  induction perms with
  | nil => simp [searchPermissions] at hfound
  | cons perm perms ih =>
    rcases (searchPermissions_cons roleName perm perms).mp hfound with ⟨hgrants, hd⟩ | ⟨_, hrest⟩
    · exact ⟨perm, List.mem_cons_self, hgrants, hd⟩
    · obtain ⟨perm', hmem, hperm'⟩ := ih hrest
      exact ⟨perm', List.mem_cons_of_mem _ hmem, hperm'⟩

theorem exists_searchPermissions {perms : List Permission} {perm : Permission}
    (hmem : perm ∈ perms) (hgrants : perm.Grants p resource action attrs) (roleName : String) :
    ∃ d, searchPermissions roleName resource action (withPrincipalID p attrs) perms = some d := by
  induction perms with
  | nil => contradiction
  | cons perm' perms ih =>
    by_cases hfirst : perm'.Grants p resource action attrs
    · exact ⟨_, (searchPermissions_cons roleName perm' perms).mpr (Or.inl ⟨hfirst, rfl⟩)⟩
    · rcases List.mem_cons.mp hmem with rfl | hrest
      · exact absurd hgrants hfirst
      · obtain ⟨d, hd⟩ := ih hrest
        exact ⟨d, (searchPermissions_cons roleName perm' perms).mpr (Or.inr ⟨hfirst, hd⟩)⟩

theorem searchRoles_some {names : List String} {d : Decision}
    (hfound : searchRoles policy resource action (withPrincipalID p attrs) names = some d) :
    ∃ name ∈ names, ∃ role, policy.roles[name]? = some role
      ∧ ∃ perm ∈ role.permissions, perm.Grants p resource action attrs
        ∧ d = .matched name perm := by
  induction names with
  | nil => simp [searchRoles] at hfound
  | cons name names ih =>
    -- a role that is unknown or grants nothing leaves the search to the rest
    have hlater : ∀ hrest : searchRoles policy resource action (withPrincipalID p attrs) names
        = some d, ∃ name' ∈ name :: names, ∃ role, policy.roles[name']? = some role
          ∧ ∃ perm ∈ role.permissions, perm.Grants p resource action attrs
            ∧ d = .matched name' perm := by
      intro hrest
      obtain ⟨name', hmem, hname'⟩ := ih hrest
      exact ⟨name', List.mem_cons_of_mem _ hmem, hname'⟩
    unfold searchRoles at hfound
    cases hrole : policy.roles[name]? with
    | none =>
      simp only [hrole] at hfound
      exact hlater hfound
    | some role =>
      simp only [hrole] at hfound
      split at hfound
      · rename_i d' hperms
        cases hfound
        exact ⟨name, List.mem_cons_self, role, hrole, searchPermissions_some hperms⟩
      · exact hlater hfound

theorem exists_searchRoles {names : List String} {name : String} (hname : name ∈ names)
    {role : Role} (hrole : policy.roles[name]? = some role) {perm : Permission}
    (hmem : perm ∈ role.permissions) (hgrants : perm.Grants p resource action attrs) :
    ∃ d, searchRoles policy resource action (withPrincipalID p attrs) names = some d := by
  induction names with
  | nil => contradiction
  | cons name' names ih =>
    unfold searchRoles
    rcases List.mem_cons.mp hname with rfl | hrest
    · obtain ⟨d, hd⟩ := exists_searchPermissions hmem hgrants name
      exact ⟨d, by simp only [hrole, hd]⟩
    · obtain ⟨d, hd⟩ := ih hrest
      cases policy.roles[name']? with
      | none => exact ⟨d, hd⟩
      | some role' =>
        simp only
        split
        · rename_i d' _
          exact ⟨d', rfl⟩
        · exact ⟨d, hd⟩

/-- **Decision**: `Allowed` is true exactly for the granted requests. -/
theorem decideRoles_allowed_iff :
    (decideRoles policy resource action (withPrincipalID p attrs) (principalRoles p)).allowed = true
      ↔ Granted policy p resource action attrs := by
  unfold decideRoles
  constructor
  · intro hallowed
    split at hallowed
    · rename_i d hfound
      obtain ⟨name, hname, role, hrole, perm, hmem, hgrants, _⟩ := searchRoles_some hfound
      exact ⟨name, mem_principalRoles.mp hname, role, hrole, perm, hmem, hgrants⟩
    · simp [Decision.denied] at hallowed
  · intro ⟨name, hname, role, hrole, perm, hmem, hgrants⟩
    obtain ⟨d, hfound⟩ := exists_searchRoles (mem_principalRoles.mpr hname) hrole hmem hgrants
    obtain ⟨_, _, _, _, _, _, _, rfl⟩ := searchRoles_some hfound
    rw [hfound]
    rfl

end Search

/-- The result of `Allowed` for a principal under a policy. -/
def isAllowed (policy : Policy) (p : Principal) (resource action : String)
    (attrs : Option AnyMap) : Bool :=
  match (allowed (some policy) (some p) resource action attrs).1 with
  | .ok d => d.allowed
  | .error _ => false

theorem isAllowed_iff (policy : Policy) (p : Principal) (resource action : String)
    (attrs : Option AnyMap) :
    isAllowed policy p resource action attrs = true ↔
      Granted policy p resource action (attrs.getD ∅) := by
  unfold isAllowed allowed
  by_cases hroles : (principalRoles p).length = 0
  · simp only [hroles, if_true, Decision.denied, Bool.false_eq_true, false_iff]
    intro ⟨name, hname, _⟩
    rw [← mem_principalRoles, List.eq_nil_of_length_eq_zero hroles] at hname
    contradiction
  · simp only [hroles, if_false]
    exact decideRoles_allowed_iff

end Owasaka.Authz
