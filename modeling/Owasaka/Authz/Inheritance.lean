import Mathlib.Logic.Relation
import Owasaka.Authz.Loader

/-! # Role inheritance

    What a loaded role grants, against what the document writes down for it and
    for the roles that it inherits, directly or not.

    Pass 2 works in place and in any order, so a role may be expanded from parents
    that are already expanded, or not yet.  Either way a role holds its own
    permissions and permissions of roles that it inherits, and this is all that
    the expansion of another role needs.

    Duplicates are removed by `permissionKey`, which joins free texts with `:`,
    `;` and `=`.  Two different permissions may have one key; then one of them is
    lost.  The main result: inheritance is exact if and only if that does not
    happen. -/

namespace Owasaka.Authz

open Relation

/-! ## Section 1: What the document grants -/

/-- One role lists the other under `inherits`. -/
def Inherits (raw : YamlPolicy) (name parent : String) : Prop :=
  ∃ yr, raw.roles[name]? = some yr ∧ parent ∈ yr.inherits

/-- The permission is written for the role or for one that it inherits. -/
def Written (raw : YamlPolicy) (name : String) (perm : Permission) : Prop :=
  ∃ q yr, ReflTransGen (Inherits raw) name q ∧ raw.roles[q]? = some yr
    ∧ perm ∈ yr.permissions.map YamlPermission.permission

/-- The loaded role has the written permissions, each of them once. -/
def Exact (raw : YamlPolicy) (name : String) (role : Role) : Prop :=
  role.permissions.Nodup ∧ ∀ perm, perm ∈ role.permissions ↔ Written raw name perm

/-- No two permissions that are written for a role have the same key. -/
def KeysDistinct (raw : YamlPolicy) (name : String) : Prop :=
  ∀ perm perm', Written raw name perm → Written raw name perm' →
    permissionKey perm = permissionKey perm' → perm = perm'

/-! ## Section 2: Pass 1 -/

/-- The roles of pass 1 are those of its order, as written. -/
theorem hydrate_ok {order : List (String × YamlRole)} {roles roles' : Roles}
    (hnodup : (order.map Prod.fst).Nodup) (hok : hydrate order roles = .ok roles') :
    (∀ name yr, (name, yr) ∈ order → roles'[name]? = some (yr.role name))
      ∧ ∀ name, name ∉ order.map Prod.fst → roles'[name]? = roles[name]? := by
  induction order generalizing roles with
  | nil =>
    cases hok
    simp
  | cons entry rest ih =>
    obtain ⟨name, yr⟩ := entry
    unfold hydrate at hok
    split at hok
    · contradiction
    · split at hok
      · contradiction
      · rw [List.map_cons, List.nodup_cons] at hnodup
        obtain ⟨hlisted, hother⟩ := ih hnodup.2 hok
        constructor
        · intro name' yr' hmem
          rcases List.mem_cons.mp hmem with heq | hrest
          · cases heq
            rw [hother name hnodup.1, getElem?_insert_ite, if_pos rfl]
          · exact hlisted name' yr' hrest
        · intro name' hnot
          rw [List.map_cons, List.mem_cons, not_or] at hnot
          rw [hother name' hnot.2, getElem?_insert_ite, if_neg hnot.1]

theorem hydrate_eq {raw : YamlPolicy} {order : List (String × YamlRole)} {roles : Roles}
    (horder : order.Perm raw.roles.toList) (hok : hydrate order ∅ = .ok roles) (name : String) :
    roles[name]? = raw.roles[name]?.map (YamlRole.role name) := by
  have hkeys : (order.map Prod.fst).Perm raw.roles.keys := by
    rw [← Std.ExtTreeMap.map_fst_toList_eq_keys]
    exact horder.map Prod.fst
  obtain ⟨hlisted, hother⟩ := hydrate_ok (hkeys.nodup_iff.mpr Std.ExtTreeMap.nodup_keys) hok
  cases hraw : raw.roles[name]? with
  | none =>
    have hnot : name ∉ order.map Prod.fst := by
      rw [hkeys.mem_iff, Std.ExtTreeMap.mem_keys, Std.ExtTreeMap.mem_iff_isSome_getElem?, hraw]
      simp
    rw [hother name hnot]
    simp
  | some yr =>
    rw [hlisted name yr]
    · rfl
    · rw [horder.mem_iff, Std.ExtTreeMap.mem_toList_iff_getElem?_eq_some]
      exact hraw

/-! ## Section 3: `expandInherits` -/

/-- As `Inherits`, in a map of roles. -/
def Parent (roles : Roles) (name parent : String) : Prop :=
  ∃ role, roles[name]? = some role ∧ parent ∈ role.inherits

/-- The permissions of a role and of its ancestors, as they stand in the map. -/
def HeldFrom (roles : Roles) (name : String) (perm : Permission) : Prop :=
  ∃ q role, ReflTransGen (Parent roles) name q ∧ roles[q]? = some role ∧ perm ∈ role.permissions

variable {roles : Roles}

theorem heldFrom_iff {name : String} {role : Role} (hrole : roles[name]? = some role)
    (perm : Permission) :
    HeldFrom roles name perm ↔
      perm ∈ role.permissions ∨ ∃ parent ∈ role.inherits, HeldFrom roles parent perm := by
  constructor
  · intro ⟨q, role', hreach, hrole', hmem⟩
    rcases hreach.cases_head with rfl | ⟨parent, ⟨role'', hrole'', hparent⟩, hrest⟩
    · rw [hrole] at hrole'
      cases hrole'
      exact Or.inl hmem
    · rw [hrole] at hrole''
      cases hrole''
      exact Or.inr ⟨parent, hparent, q, role', hrest, hrole', hmem⟩
  · rintro (hmem | ⟨parent, hparent, q, role', hreach, hrole', hmem⟩)
    · exact ⟨name, role, .refl, hrole, hmem⟩
    · exact ⟨q, role', .head ⟨role, hrole, hparent⟩ hreach, hrole', hmem⟩

section

variable {expand : Role → List String → Option (Except PolicyError (List Permission))}
  {roleName parent : String} {seen parents : List String}

/-- One turn of the loop that succeeds. -/
theorem expandParents_ok {out : List Permission}
    (hok : expandParents roles expand roleName seen (parent :: parents) = some (.ok out)) :
    ∃ pr grand rest, parent ∉ seen ∧ roles[parent]? = some pr
      ∧ expand pr (parent :: seen) = some (.ok grand)
      ∧ expandParents roles expand roleName seen parents = some (.ok rest)
      ∧ out = pr.permissions ++ (grand ++ rest) := by
  unfold expandParents at hok
  split at hok
  · simp at hok
  · rename_i hunseen
    cases hparent : roles[parent]? with
    | none => simp [hparent] at hok
    | some pr =>
      simp only [hparent] at hok
      split at hok
      · simp at hok
      · simp at hok
      · rename_i grand hgrand
        split at hok
        · simp at hok
        · simp at hok
        · rename_i rest hrest
          cases hok
          exact ⟨pr, grand, rest, hunseen, rfl, hgrand, hrest, rfl⟩

/-- One turn that fails, or the turns after it. -/
theorem expandParents_error {e : PolicyError}
    (herr : expandParents roles expand roleName seen (parent :: parents) = some (.error e)) :
    parent ∈ seen ∨ roles[parent]? = none
      ∨ (∃ pr, roles[parent]? = some pr ∧ expand pr (parent :: seen) = some (.error e))
      ∨ expandParents roles expand roleName seen parents = some (.error e) := by
  unfold expandParents at herr
  split at herr
  · rename_i hmem
    exact .inl hmem
  · cases hparent : roles[parent]? with
    | none => exact .inr (.inl rfl)
    | some pr =>
      simp only [hparent] at herr
      split at herr
      · contradiction
      · rename_i e' hgrand
        cases herr
        exact .inr (.inr (.inl ⟨pr, rfl, hgrand⟩))
      · split at herr
        · contradiction
        · rename_i e' hrest
          cases herr
          exact .inr (.inr (.inr hrest))
        · simp at herr

end

/-- The loop over the parents, given what the recursive calls return. -/
theorem mem_expandParents
    {expand : Role → List String → Option (Except PolicyError (List Permission))}
    (hexpand : ∀ role seen out, expand role seen = some (.ok out) → ∀ perm,
      perm ∈ out ↔ ∃ parent ∈ role.inherits, HeldFrom roles parent perm)
    {roleName : String} {seen parents : List String} {out : List Permission}
    (hok : expandParents roles expand roleName seen parents = some (.ok out)) (perm : Permission) :
    perm ∈ out ↔ ∃ parent ∈ parents, HeldFrom roles parent perm := by
  induction parents generalizing out with
  | nil =>
    simp only [expandParents, Option.some.injEq, Except.ok.injEq] at hok
    subst hok
    simp
  | cons parent parents ih =>
    obtain ⟨pr, grand, rest, -, hparent, hgrand, hrest, rfl⟩ := expandParents_ok hok
    rw [List.mem_append, List.mem_append, hexpand _ _ _ hgrand, ih hrest, ← or_assoc,
      ← heldFrom_iff hparent]
    simp

/-- **Expansion** collects what the ancestors hold, and nothing else. -/
theorem mem_expandInherits {fuel : Nat} {role : Role} {seen : List String} {out : List Permission}
    (hok : expandInherits roles fuel role seen = some (.ok out)) (perm : Permission) :
    perm ∈ out ↔ ∃ parent ∈ role.inherits, HeldFrom roles parent perm := by
  induction fuel generalizing role seen out perm with
  | zero => contradiction
  | succ fuel ih =>
    exact mem_expandParents (fun role seen out hout perm => ih hout perm) hok perm

/-- A stack of distinct roles is no longer than the map. -/
theorem length_le_size {seen : List String} (hnodup : seen.Nodup)
    (hseen : ∀ name ∈ seen, name ∈ roles) : seen.length ≤ roles.size := by
  rw [← Std.ExtTreeMap.length_keys]
  apply hnodup.length_le_of_subset
  intro name hname
  exact Std.ExtTreeMap.mem_keys.mpr (hseen name hname)

theorem expandParents_ne_none
    {expand : Role → List String → Option (Except PolicyError (List Permission))}
    {roleName : String} {seen parents : List String}
    (hexpand : ∀ parent pr, parent ∉ seen → roles[parent]? = some pr →
      expand pr (parent :: seen) ≠ none) :
    expandParents roles expand roleName seen parents ≠ none := by
  induction parents with
  | nil => simp [expandParents]
  | cons parent parents ih =>
    unfold expandParents
    split
    · simp
    · rename_i hunseen
      cases hparent : roles[parent]? with
      | none => simp
      | some pr =>
        simp only
        split
        · rename_i hnone
          exact absurd hnone (hexpand parent pr hunseen hparent)
        · simp
        · split
          · rename_i hnone
            exact absurd hnone ih
          · simp
          · simp

/-- The number of roles is enough fuel: the visit stack holds distinct roles. -/
theorem expandInherits_ne_none {fuel : Nat} {role : Role} {seen : List String}
    (hnodup : seen.Nodup) (hseen : ∀ name ∈ seen, name ∈ roles)
    (hfuel : roles.size < seen.length + fuel) : expandInherits roles fuel role seen ≠ none := by
  induction fuel generalizing role seen with
  | zero =>
    have hle := length_le_size hnodup hseen
    omega
  | succ fuel ih =>
    apply expandParents_ne_none
    intro parent pr hunseen hparent
    apply ih
    · exact List.nodup_cons.mpr ⟨hunseen, hnodup⟩
    · intro name hname
      rcases List.mem_cons.mp hname with rfl | hold
      · exact mem_of_getElem?_eq_some hparent
      · exact hseen name hold
    · rw [List.length_cons]
      omega

/-! ## Section 4: Pass 2 -/

/-- The state of pass 2 after the roles in `done`. -/
structure Expanding (raw : YamlPolicy) (done : List String) (roles : Roles) : Prop where
  /-- Names and parents are those of the document. -/
  shape : ∀ name : String, roles[name]?.map (fun role => (role.name, role.inherits))
    = raw.roles[name]?.map fun yr => (name, yr.inherits)
  /-- No grant is added. -/
  sound : ∀ (name : String) (role : Role), roles[name]? = some role →
    ∀ perm ∈ role.permissions, Written raw name perm
  /-- The key of a role's own permission is never lost. -/
  own : ∀ (name : String) (role : Role) (yr : YamlRole), roles[name]? = some role →
    raw.roles[name]? = some yr →
    ∀ perm ∈ yr.permissions.map YamlPermission.permission,
      permissionKey perm ∈ role.permissions.map permissionKey
  /-- An expanded role has every inherited key, once. -/
  complete : ∀ name ∈ done, ∀ role : Role, roles[name]? = some role →
    (∀ perm, Written raw name perm → permissionKey perm ∈ role.permissions.map permissionKey)
      ∧ (role.permissions.map permissionKey).Nodup

variable {raw : YamlPolicy} {done : List String}

theorem expanding_hydrate {order : List (String × YamlRole)}
    (horder : order.Perm raw.roles.toList) (hok : hydrate order ∅ = .ok roles) :
    Expanding raw [] roles where
  shape := by
    intro name
    rw [hydrate_eq horder hok]
    cases raw.roles[name]? <;> rfl
  sound := by
    intro name role hrole perm hmem
    rw [hydrate_eq horder hok, Option.map_eq_some_iff] at hrole
    obtain ⟨yr, hraw, rfl⟩ := hrole
    exact ⟨name, yr, .refl, hraw, hmem⟩
  own := by
    intro name role yr hrole hraw perm hmem
    rw [hydrate_eq horder hok, hraw] at hrole
    cases hrole
    exact List.mem_map_of_mem hmem
  complete := by simp

theorem Expanding.name_eq (hexp : Expanding raw done roles) {name : String} {role : Role}
    (hrole : roles[name]? = some role) : role.name = name := by
  have hshape := hexp.shape name
  rw [hrole] at hshape
  cases hraw : raw.roles[name]? with
  | none => simp [hraw] at hshape
  | some yr =>
    simp only [hraw, Option.map_some, Option.some.injEq, Prod.mk.injEq] at hshape
    exact hshape.1

theorem Expanding.parent_iff (hexp : Expanding raw done roles) {name parent : String} :
    Parent roles name parent ↔ Inherits raw name parent := by
  have hshape := hexp.shape name
  unfold Parent Inherits
  cases hrole : roles[name]? with
  | none =>
    cases hraw : raw.roles[name]? with
    | none => simp
    | some yr => simp [hrole, hraw] at hshape
  | some role =>
    cases hraw : raw.roles[name]? with
    | none => simp [hrole, hraw] at hshape
    | some yr =>
      simp only [hrole, hraw, Option.map_some, Option.some.injEq, Prod.mk.injEq] at hshape
      simp [hshape.2]

theorem Expanding.parent_eq (hexp : Expanding raw done roles) : Parent roles = Inherits raw := by
  funext name parent
  exact propext hexp.parent_iff

theorem Expanding.reach_iff (hexp : Expanding raw done roles) {name q : String} :
    ReflTransGen (Parent roles) name q ↔ ReflTransGen (Inherits raw) name q := by
  rw [hexp.parent_eq]

/-- What is held from a role is written for it. -/
theorem Expanding.written_of_held (hexp : Expanding raw done roles) {name : String}
    {perm : Permission} (hheld : HeldFrom roles name perm) : Written raw name perm := by
  obtain ⟨q, role, hreach, hrole, hmem⟩ := hheld
  obtain ⟨q', yr, hreach', hraw, hmem'⟩ := hexp.sound q role hrole perm hmem
  exact ⟨q', yr, (hexp.reach_iff.mp hreach).trans hreach', hraw, hmem'⟩

/-- The key of a permission that is written for a role is held from it. -/
theorem Expanding.key_held (hexp : Expanding raw done roles) {name : String} {perm : Permission}
    (hwritten : Written raw name perm) :
    ∃ perm', HeldFrom roles name perm' ∧ permissionKey perm' = permissionKey perm := by
  obtain ⟨q, yr, hreach, hraw, hmem⟩ := hwritten
  have hshape := hexp.shape q
  cases hrole : roles[q]? with
  | none => simp [hrole, hraw] at hshape
  | some role =>
    obtain ⟨perm', hmem', hkey⟩ := List.mem_map.mp (hexp.own q role yr hrole hraw perm hmem)
    exact ⟨perm', ⟨q, role, hexp.reach_iff.mpr hreach, hrole, hmem'⟩, hkey⟩

/-- **Step lemma**: expanding one role. -/
theorem Expanding.expand (hexp : Expanding raw done roles) {name : String} {role : Role}
    (hrole : roles[name]? = some role) {fuel : Nat} {seen : List String} {out : List Permission}
    (hok : expandInherits roles fuel role seen = some (.ok out)) :
    Expanding raw (name :: done)
      (roles.insert name { role with permissions := dedupPermissions (role.permissions ++ out) }) := by
  -- the list before deduplication is what is held from the role
  have hheld : ∀ perm, perm ∈ role.permissions ++ out ↔ HeldFrom roles name perm := by
    intro perm
    rw [List.mem_append, mem_expandInherits hok, ← heldFrom_iff hrole]
  have hkeys : ∀ k, k ∈ (dedupPermissions (role.permissions ++ out)).map permissionKey
      ↔ k ∈ (role.permissions ++ out).map permissionKey := by
    intro k
    unfold dedupPermissions
    rw [mem_map_dedupOn]
    simp
  have hcomplete : ∀ perm, Written raw name perm →
      permissionKey perm ∈ (dedupPermissions (role.permissions ++ out)).map permissionKey := by
    intro perm hwritten
    obtain ⟨perm', hheld', hkey⟩ := hexp.key_held hwritten
    rw [hkeys, ← hkey]
    exact List.mem_map_of_mem ((hheld perm').mpr hheld')
  refine ⟨?_, ?_, ?_, ?_⟩
  · intro name'
    rw [getElem?_insert_ite]
    split
    · rename_i heq
      subst heq
      rw [← hexp.shape, hrole]
      rfl
    · exact hexp.shape name'
  · intro name' role' hrole' perm hmem
    rcases getElem?_insert_cases hrole' with ⟨rfl, rfl⟩ | ⟨_, hold⟩
    · exact hexp.written_of_held ((hheld perm).mp (dedupOn_subset _ _ _ hmem))
    · exact hexp.sound name' role' hold perm hmem
  · intro name' role' yr hrole' hraw perm hmem
    rcases getElem?_insert_cases hrole' with ⟨rfl, rfl⟩ | ⟨_, hold⟩
    · exact hcomplete perm ⟨name', yr, .refl, hraw, hmem⟩
    · exact hexp.own name' role' yr hold hraw perm hmem
  · intro name' hdone role' hrole'
    rcases getElem?_insert_cases hrole' with ⟨rfl, rfl⟩ | ⟨hne, hold⟩
    · exact ⟨hcomplete, nodup_map_dedupOn _ _ _⟩
    · exact hexp.complete name' ((List.mem_cons.mp hdone).resolve_left hne) role' hold

/-- One round of pass 2: there is no such role, or its expansion fails or goes on. -/
theorem expandAll_cons {name : String} {names : List String} {r : Except PolicyError Roles}
    (heq : Authz.expandAll (name :: names) roles = some r) :
    (roles[name]? = none ∧ Authz.expandAll names roles = some r)
      ∨ ∃ role, roles[name]? = some role
        ∧ ((∃ e, expandInherits roles roles.size role [role.name] = some (.error e) ∧ r = .error e)
          ∨ ∃ out, expandInherits roles roles.size role [role.name] = some (.ok out)
            ∧ Authz.expandAll names (roles.insert name
                { role with permissions := dedupPermissions (role.permissions ++ out) }) = some r) := by
  unfold Authz.expandAll at heq
  cases hrole : roles[name]? with
  | none =>
    simp only [hrole] at heq
    exact Or.inl ⟨rfl, heq⟩
  | some role =>
    simp only [hrole] at heq
    refine Or.inr ⟨role, rfl, ?_⟩
    split at heq
    · contradiction
    · rename_i e hexpand
      exact Or.inl ⟨e, hexpand, (Option.some.inj heq).symm⟩
    · rename_i out hexpand
      exact Or.inr ⟨out, hexpand, heq⟩

/-- **Run lemma**: pass 2, whatever its order. -/
theorem Expanding.expandAll (hexp : Expanding raw done roles) {names : List String} {roles' : Roles}
    (hok : expandAll names roles = some (.ok roles')) :
    Expanding raw (names.reverse ++ done) roles' := by
  induction names generalizing roles done with
  | nil =>
    cases hok
    exact hexp
  | cons name names ih =>
    rw [List.reverse_cons, List.append_assoc, List.singleton_append]
    rcases expandAll_cons hok with
      ⟨hrole, hrest⟩ | ⟨role, hrole, ⟨e, _, herror⟩ | ⟨out, hout, hrest⟩⟩
    · -- there is no such role, so the order does not list it
      refine ih ⟨hexp.shape, hexp.sound, hexp.own, ?_⟩ hrest
      intro name' hdone role' hrole'
      rcases List.mem_cons.mp hdone with rfl | hold
      · simp [hrole] at hrole'
      · exact hexp.complete name' hold role' hrole'
    · contradiction
    · exact ih (hexp.expand hrole hout) hrest

theorem expandAll_ne_none {names : List String} (hexp : Expanding raw done roles) :
    expandAll names roles ≠ none := by
  induction names generalizing roles done with
  | nil => simp [Authz.expandAll]
  | cons name names ih =>
    unfold Authz.expandAll
    cases hrole : roles[name]? with
    | none => exact ih hexp
    | some role =>
      simp only
      split
      · rename_i hnone
        refine absurd hnone (expandInherits_ne_none (List.nodup_singleton _) ?_ (by simp))
        intro name' hmem
        rw [List.mem_singleton] at hmem
        subst hmem
        rw [hexp.name_eq hrole]
        exact mem_of_getElem?_eq_some hrole
      · simp
      · rename_i out hout
        exact ih (hexp.expand hrole hout)

/-! ## Section 5: Loaded policies -/

theorem validatePermissions_ok {roleName : String} {perms : List Permission}
    (hok : validatePermissions roleName perms = .ok ()) :
    ∀ perm ∈ perms, perm.resource = wildcard → perm.action = actionAdmin := by
  induction perms with
  | nil => simp
  | cons p perms ih =>
    unfold validatePermissions at hok
    split at hok
    · contradiction
    · rename_i hfirst
      intro perm hmem hwild
      rcases List.mem_cons.mp hmem with rfl | hrest
      · by_contra haction
        simp [hwild, haction] at hfirst
      · exact ih hok perm hrest hwild

theorem validate_ok {order : List String} {hasAdmin : Bool}
    (hok : validate roles order hasAdmin = .ok ()) :
    (∀ name ∈ order, ∀ role : Role, roles[name]? = some role → ∀ perm ∈ role.permissions,
        perm.resource = wildcard → perm.action = actionAdmin)
      ∧ (hasAdmin = true ∨ ∃ name ∈ order, ∃ role : Role, roles[name]? = some role
          ∧ ∃ perm ∈ role.permissions, isWildcardAdmin perm = true) := by
  -- `hasAdmin` is the accumulator of the loop
  induction order generalizing hasAdmin with
  | nil =>
    cases hasAdmin with
    | false => simp [validate] at hok
    | true => simp
  | cons name order ih =>
    unfold validate at hok
    cases hrole : roles[name]? with
    | none =>
      simp only [hrole] at hok
      obtain ⟨hwild, hadmin⟩ := ih hok
      constructor
      · intro name' hmem role' hrole'
        rcases List.mem_cons.mp hmem with rfl | hrest
        · simp [hrole] at hrole'
        · exact hwild name' hrest role' hrole'
      · rcases hadmin with hbefore | ⟨name', hmem, hname'⟩
        · exact Or.inl hbefore
        · exact Or.inr ⟨name', List.mem_cons_of_mem _ hmem, hname'⟩
    | some role =>
      simp only [hrole] at hok
      split at hok
      · contradiction
      · rename_i hperms
        obtain ⟨hwild, hadmin⟩ := ih hok
        constructor
        · intro name' hmem role' hrole'
          rcases List.mem_cons.mp hmem with rfl | hrest
          · rw [hrole] at hrole'
            cases hrole'
            exact validatePermissions_ok hperms
          · exact hwild name' hrest role' hrole'
        · rcases hadmin with hbefore | ⟨name', hmem, hname'⟩
          -- either an earlier role had set the flag, or this one did
          · rw [Bool.or_eq_true, List.any_eq_true] at hbefore
            rcases hbefore with hearlier | ⟨perm, hperm, hisAdmin⟩
            · exact Or.inl hearlier
            · exact Or.inr ⟨name, List.mem_cons_self, role, hrole, perm, hperm, hisAdmin⟩
          · exact Or.inr ⟨name', List.mem_cons_of_mem _ hmem, hname'⟩

/-- What is known of a policy that was loaded from a document. -/
structure Loaded (raw : YamlPolicy) (policy : Policy) : Prop where
  names : ∀ name, name ∈ policy.roles ↔ name ∈ raw.roles
  sound : ∀ (name : String) (role : Role), policy.roles[name]? = some role →
    ∀ perm ∈ role.permissions, Written raw name perm
  complete : ∀ (name : String) (role : Role), policy.roles[name]? = some role →
    ∀ perm, Written raw name perm → permissionKey perm ∈ role.permissions.map permissionKey
  nodup : ∀ (name : String) (role : Role), policy.roles[name]? = some role →
    (role.permissions.map permissionKey).Nodup
  wildcard : ∀ (name : String) (role : Role), policy.roles[name]? = some role →
    ∀ perm ∈ role.permissions, perm.resource = Authz.wildcard → perm.action = actionAdmin
  admin : ∃ (name : String) (role : Role), policy.roles[name]? = some role
    ∧ ∃ perm ∈ role.permissions, isWildcardAdmin perm = true

theorem Expanding.mem_iff (hexp : Expanding raw done roles) (name : String) :
    name ∈ roles ↔ name ∈ raw.roles := by
  have hshape := congrArg Option.isSome (hexp.shape name)
  rw [Option.isSome_map, Option.isSome_map] at hshape
  rw [Std.ExtTreeMap.mem_iff_isSome_getElem?, Std.ExtTreeMap.mem_iff_isSome_getElem?, hshape]

/-- **Load**: what the three passes leave, whatever their orders. -/
theorem loaded_of_loadDocument {orders : LoadOrders} {policy : Policy} (horders : orders.Of raw)
    (hok : loadDocument raw orders = some (.ok policy)) : Loaded raw policy := by
  unfold loadDocument at hok
  split at hok
  · simp at hok
  · rename_i hydrated hhydrate
    split at hok
    · contradiction
    · simp at hok
    · rename_i roles hexpand
      split at hok
      · simp at hok
      · rename_i hvalidate
        cases hok
        have hexp := (expanding_hydrate horders.hydrate hhydrate).expandAll hexpand
        have hkey : ∀ {name : String} {role : Role}, roles[name]? = some role →
            name ∈ raw.roles.keys := by
          intro name role hrole
          rw [Std.ExtTreeMap.mem_keys, ← hexp.mem_iff]
          exact mem_of_getElem?_eq_some hrole
        -- every role was expanded and validated
        have hdone : ∀ {name : String} {role : Role}, roles[name]? = some role →
            name ∈ orders.expand.reverse ++ [] := by
          intro name role hrole
          simpa [horders.expand.mem_iff] using hkey hrole
        obtain ⟨hwild, hadmin⟩ := validate_ok hvalidate
        refine ⟨hexp.mem_iff, hexp.sound, ?_, ?_, ?_, ?_⟩
        · intro name role hrole
          exact (hexp.complete name (hdone hrole) role hrole).1
        · intro name role hrole
          exact (hexp.complete name (hdone hrole) role hrole).2
        · intro name role hrole
          exact hwild name (horders.validate.mem_iff.mpr (hkey hrole)) role hrole
        · rcases hadmin with hfalse | ⟨name, _, role, hrole, hperm⟩
          · contradiction
          · exact ⟨name, role, hrole, hperm⟩

theorem loadDocument_ne_none {orders : LoadOrders} (horders : orders.Of raw) :
    loadDocument raw orders ≠ none := by
  unfold loadDocument
  split
  · simp
  · rename_i hydrated hhydrate
    split
    · rename_i hnone
      exact absurd hnone (expandAll_ne_none (expanding_hydrate horders.hydrate hhydrate))
    · simp
    · split <;> simp

/-! ## Section 6: Exactness -/

/-- **Inheritance is exact** in every role exactly when no two permissions that are
    written for a role have the same key. -/
theorem inheritance_exact_iff {yaml : Bytes → Except String YamlPolicy} {data : Bytes}
    {orders : LoadOrders} {policy : Policy} (hyaml : yaml data = .ok raw)
    (horders : orders.Of raw) (hok : loadBytes yaml data orders = some (.ok policy)) :
    (∀ (name : String) (role : Role), policy.roles[name]? = some role → Exact raw name role) ↔
      ∀ name ∈ raw.roles, KeysDistinct raw name := by
  unfold loadBytes at hok
  rw [hyaml] at hok
  have hloaded := loaded_of_loadDocument horders hok
  constructor
  · intro hexact name hname perm perm' hwritten hwritten' hkey
    obtain ⟨role, hrole⟩ := exists_getElem?_of_mem ((hloaded.names name).mpr hname)
    obtain ⟨_, hmem⟩ := hexact name role hrole
    exact List.inj_on_of_nodup_map (hloaded.nodup name role hrole) ((hmem perm).mpr hwritten)
      ((hmem perm').mpr hwritten') hkey
  · intro hdistinct name role hrole
    have hname : name ∈ raw.roles :=
      (hloaded.names name).mp (mem_of_getElem?_eq_some hrole)
    refine ⟨(hloaded.nodup name role hrole).of_map _, ?_⟩
    intro perm
    constructor
    · exact hloaded.sound name role hrole perm
    · intro hwritten
      -- some permission has its key, and the key determines it
      obtain ⟨perm', hmem, hkey⟩ := List.mem_map.mp (hloaded.complete name role hrole perm hwritten)
      rw [← hdistinct name hname perm' perm (hloaded.sound name role hrole perm' hmem) hwritten hkey]
      exact hmem

/-! ## A role with a parent -/

def teamText : Bytes := (
  "version: 1\n"
  ++ "roles:\n"
  ++ "  admin:\n"
  ++ "    permissions:\n"
  ++ "      - resource: \"*\"\n"
  ++ "        action: admin\n"
  ++ "  viewer:\n"
  ++ "    permissions:\n"
  ++ "      - resource: assets\n"
  ++ "        action: read\n"
  ++ "  operator:\n"
  ++ "    inherits: [viewer]\n"
  ++ "    permissions:\n"
  ++ "      - resource: backup\n"
  ++ "        action: run\n").toUTF8.toList

def adminWritten : YamlRole := ⟨"", [], [⟨"*", "admin", ∅⟩]⟩

def viewerWritten : YamlRole := ⟨"", [], [⟨"assets", "read", ∅⟩]⟩

def operatorWritten : YamlRole := ⟨"", ["viewer"], [⟨"backup", "run", ∅⟩]⟩

def teamDocument : YamlPolicy :=
  ⟨1, (((∅ : Std.ExtTreeMap String YamlRole).insert "admin" adminWritten).insert "viewer"
    viewerWritten).insert "operator" operatorWritten⟩

/-- `yaml.Unmarshal` on this text. -/
def teamYaml (data : Bytes) : Except String YamlPolicy :=
  if data = teamText then .ok teamDocument else .error "not needed"

def teamOrders : LoadOrders :=
  ⟨[("operator", operatorWritten), ("admin", adminWritten), ("viewer", viewerWritten)],
    ["operator", "admin", "viewer"], ["viewer", "operator", "admin"]⟩

/-- The operator has the permission of the viewer. -/
def teamPolicy : Policy :=
  ⟨1, (((∅ : Roles).insert "admin" ⟨"admin", "", [], [⟨"*", "admin", []⟩]⟩).insert "viewer"
    ⟨"viewer", "", [], [⟨"assets", "read", []⟩]⟩).insert "operator"
    ⟨"operator", "", ["viewer"], [⟨"backup", "run", []⟩, ⟨"assets", "read", []⟩]⟩⟩

theorem teamOrders_of : teamOrders.Of teamDocument where
  hydrate := .swap _ _ _
  expand := .swap _ _ _
  validate := List.reverse_perm ["admin", "operator", "viewer"]

theorem teamYaml_eq : teamYaml teamText = .ok teamDocument := by simp [teamYaml]

theorem loadBytes_team : loadBytes teamYaml teamText teamOrders = some (.ok teamPolicy) := by
  unfold loadBytes
  rw [teamYaml_eq]
  rfl

theorem inheritance_exact_iff_team :
    loadBytes teamYaml teamText teamOrders = some (.ok teamPolicy)
      ∧ ((∀ (name : String) (role : Role), teamPolicy.roles[name]? = some role →
            Exact teamDocument name role) ↔
          ∀ name ∈ teamDocument.roles, KeysDistinct teamDocument name) :=
  ⟨loadBytes_team, inheritance_exact_iff teamYaml_eq teamOrders_of loadBytes_team⟩

/-! ## Two permissions with one key -/

def opsText : Bytes := (
  "version: 1\n"
  ++ "roles:\n"
  ++ "  admin:\n"
  ++ "    permissions:\n"
  ++ "      - resource: \"*\"\n"
  ++ "        action: admin\n"
  ++ "  ops:\n"
  ++ "    permissions:\n"
  ++ "      - resource: \"backup:daily\"\n"
  ++ "        action: run\n"
  ++ "      - resource: backup\n"
  ++ "        action: \"daily:run\"\n").toUTF8.toList

def opsWritten : YamlRole := ⟨"", [], [⟨"backup:daily", "run", ∅⟩, ⟨"backup", "daily:run", ∅⟩]⟩

def opsDocument : YamlPolicy :=
  ⟨1, ((∅ : Std.ExtTreeMap String YamlRole).insert "admin" adminWritten).insert "ops" opsWritten⟩

/-- `yaml.Unmarshal` on this text. -/
def opsYaml (data : Bytes) : Except String YamlPolicy :=
  if data = opsText then .ok opsDocument else .error "not needed"

def opsOrders : LoadOrders :=
  ⟨[("admin", adminWritten), ("ops", opsWritten)], ["admin", "ops"], ["ops", "admin"]⟩

/-- The second permission of `ops` is gone. -/
def opsPolicy : Policy :=
  ⟨1, ((∅ : Roles).insert "admin" ⟨"admin", "", [], [⟨"*", "admin", []⟩]⟩).insert "ops"
    ⟨"ops", "", [], [⟨"backup:daily", "run", []⟩]⟩⟩

theorem opsOrders_of : opsOrders.Of opsDocument where
  hydrate := .refl _
  expand := .refl _
  validate := .swap _ _ _

theorem opsYaml_eq : opsYaml opsText = .ok opsDocument := by simp [opsYaml]

theorem loadBytes_ops : loadBytes opsYaml opsText opsOrders = some (.ok opsPolicy) := by
  unfold loadBytes
  rw [opsYaml_eq]
  rfl

/-- A permission that is written for `ops` is not loaded. -/
theorem deduplication_loses_grant :
    opsOrders.Of opsDocument
      ∧ loadBytes opsYaml opsText opsOrders = some (.ok opsPolicy)
      ∧ Written opsDocument "ops" ⟨"backup", "daily:run", []⟩
      ∧ (∀ role : Role, opsPolicy.roles["ops"]? = some role →
          ⟨"backup", "daily:run", []⟩ ∉ role.permissions)
      ∧ ¬ ∀ (name : String) (role : Role), opsPolicy.roles[name]? = some role →
          Exact opsDocument name role := by
  have hwritten : Written opsDocument "ops" ⟨"backup", "daily:run", []⟩ :=
    ⟨"ops", opsWritten, .refl, by simp [opsDocument], by decide⟩
  have hlost : ∀ role : Role, opsPolicy.roles["ops"]? = some role →
      ⟨"backup", "daily:run", []⟩ ∉ role.permissions := by
    intro role hrole
    simp only [opsPolicy, Std.ExtTreeMap.getElem?_insert_self, Option.some.injEq] at hrole
    subst hrole
    decide
  refine ⟨opsOrders_of, loadBytes_ops, hwritten, hlost, ?_⟩
  intro hexact
  have hrole : opsPolicy.roles["ops"]? = some ⟨"ops", "", [], [⟨"backup:daily", "run", []⟩]⟩ := by
    simp [opsPolicy]
  exact hlost _ hrole (((hexact "ops" _ hrole).2 _).mpr hwritten)

end Owasaka.Authz
