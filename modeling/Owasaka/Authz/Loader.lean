import Owasaka.Authz.Engine
import Owasaka.Foundation.Bytes
import Owasaka.Foundation.DedupOn

/-! # Loading a policy (`authz/loader.go`)

    `LoadBytes` makes roles of a YAML document in three passes over the map of
    roles: it copies each role, then unions the permissions of the roles that it
    inherits into it, in place, and then validates the result.  Each pass goes
    through the map in an order of its own.

    Decoding YAML is a parameter.  `expandInherits` recurses along `inherits`; its
    fuel bounds the depth, and the number of roles is always enough. -/

namespace Owasaka.Authz

/-! ## Section 1: The document -/

structure YamlPermission where
  resource : String
  action : String
  conditions : Std.ExtTreeMap String String

structure YamlRole where
  description : String
  inherits : List String
  permissions : List YamlPermission

structure YamlPolicy where
  version : Int
  roles : Std.ExtTreeMap String YamlRole

inductive PolicyError where
  | malformed (cause : String)
  | emptyRoleName
  | emptyPermission (role : String)
  | inheritsCycle (role parent : String)
  | inheritsUnknown (role parent : String)
  | wildcardOnNonAdmin (role resource action : String)
  | noAdmin
  deriving DecidableEq

/-- The permission as written, its conditions sorted by key. -/
def YamlPermission.permission (yp : YamlPermission) : Permission where
  resource := yp.resource
  action := yp.action
  conditions := yp.conditions.toList.map fun kv => ⟨kv.1, kv.2⟩

/-- The role as written. -/
def YamlRole.role (name : String) (yr : YamlRole) : Role where
  name := name
  description := yr.description
  inherits := yr.inherits
  permissions := yr.permissions.map YamlPermission.permission

abbrev Roles : Type := Std.ExtTreeMap String Role

/-! ## Section 2: The three passes -/

/-- Pass 1 copies the roles. -/
def hydrate : List (String × YamlRole) → Roles → Except PolicyError Roles
  | [], roles => .ok roles
  | (name, yr) :: rest, roles =>
    if name = "" then .error .emptyRoleName
    else if yr.permissions.any fun yp => yp.resource = "" || yp.action = "" then
      .error (.emptyPermission name)
    else hydrate rest (roles.insert name (yr.role name))

/-- The loop over the parents of a role.  `expand` is the recursive call. -/
def expandParents (roles : Roles)
    (expand : Role → List String → Option (Except PolicyError (List Permission)))
    (roleName : String) (seen : List String) :
    List String → Option (Except PolicyError (List Permission))
  | [] => some (.ok [])
  | parent :: parents =>
    -- only the roles on the way down: a parent reached twice is no cycle
    if parent ∈ seen then some (.error (.inheritsCycle roleName parent))
    else
      match roles[parent]? with
      | none => some (.error (.inheritsUnknown roleName parent))
      | some pr =>
        match expand pr (parent :: seen) with
        | none => none
        | some (.error e) => some (.error e)
        | some (.ok grand) =>
          match expandParents roles expand roleName seen parents with
          | none => none
          | some (.error e) => some (.error e)
          | some (.ok rest) => some (.ok (pr.permissions ++ (grand ++ rest)))

/-- `expandInherits`; `none` when the fuel is used up.  `seen` are the roles on the
    visit stack. -/
def expandInherits (roles : Roles) : Nat → Role → List String →
    Option (Except PolicyError (List Permission))
  | 0, _, _ => none
  | fuel + 1, role, seen =>
    expandParents roles (expandInherits roles fuel) role.name seen role.inherits

def permissionKey (p : Permission) : String :=
  p.conditions.foldl (fun key c => key ++ (";" ++ c.key ++ "=" ++ c.value))
    (p.resource ++ ":" ++ p.action)

def dedupPermissions (perms : List Permission) : List Permission := dedupOn permissionKey [] perms

/-- Pass 2 expands the roles in place. -/
def expandAll : List String → Roles → Option (Except PolicyError Roles)
  | [], roles => some (.ok roles)
  | name :: names, roles =>
    match roles[name]? with
    | none => expandAll names roles
    | some role =>
      -- in `roles` the ones that came before are expanded already
      match expandInherits roles roles.size role [role.name] with
      | none => none
      | some (.error e) => some (.error e)
      | some (.ok expanded) =>
        expandAll names
          (roles.insert name
            { role with permissions := dedupPermissions (role.permissions ++ expanded) })

/-- `*:admin` without conditions. -/
def isWildcardAdmin (p : Permission) : Bool :=
  p.resource = wildcard && p.action = actionAdmin && p.conditions.length = 0

/-- The permissions of one role in `validate`. -/
def validatePermissions (roleName : String) : List Permission → Except PolicyError Unit
  | [] => .ok ()
  | p :: perms =>
    -- a wildcard action on a named resource passes
    if p.resource = wildcard && p.action ≠ actionAdmin then
      .error (.wildcardOnNonAdmin roleName p.resource p.action)
    else validatePermissions roleName perms

/-- The loop of `validate` over the roles. -/
def validate (roles : Roles) : List String → Bool → Except PolicyError Unit
  | [], hasAdmin => if !hasAdmin then .error .noAdmin else .ok ()
  | name :: names, hasAdmin =>
    match roles[name]? with
    | none => validate roles names hasAdmin
    | some role =>
      match validatePermissions role.name role.permissions with
      | .error e => .error e
      | .ok _ => validate roles names (hasAdmin || role.permissions.any isWildcardAdmin)

/-- The orders in which the three passes go through the map. -/
structure LoadOrders where
  hydrate : List (String × YamlRole)
  expand : List String
  validate : List String

/-- Each pass goes through every role once. -/
structure LoadOrders.Of (orders : LoadOrders) (raw : YamlPolicy) : Prop where
  hydrate : orders.hydrate.Perm raw.roles.toList
  expand : orders.expand.Perm raw.roles.keys
  validate : orders.validate.Perm raw.roles.keys

/-- The passes over a decoded document. -/
def loadDocument (raw : YamlPolicy) (orders : LoadOrders) : Option (Except PolicyError Policy) :=
  match hydrate orders.hydrate ∅ with
  | .error e => some (.error e)
  | .ok roles =>
    match expandAll orders.expand roles with
    | none => none
    | some (.error e) => some (.error e)
    | some (.ok roles) =>
      match validate roles orders.validate false with
      | .error e => some (.error e)
      | .ok _ => some (.ok ⟨raw.version, roles⟩)

/-- `LoadBytes`; `yaml` is `yaml.Unmarshal`. -/
def loadBytes (yaml : Bytes → Except String YamlPolicy) (data : Bytes) (orders : LoadOrders) :
    Option (Except PolicyError Policy) :=
  match yaml data with
  | .error e => some (.error (.malformed e))
  | .ok raw => loadDocument raw orders

end Owasaka.Authz
