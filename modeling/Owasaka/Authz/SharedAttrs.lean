import Owasaka.Authz.Engine

/-! # Attribute maps that calls share

    `Allowed` writes the principal's ID into the map that its caller owns.  When
    the caller passes the map again, for another principal, `not-self` and
    conditions on `principal_id` compare against the first principal's ID.

    The main result: a sequence of calls on one map decides as with fresh copies,
    under every policy, exactly when the map is nil or all its callers with roles
    have the same ID. -/

namespace Owasaka.Authz

open Identity

/-! ## Section 1: Calls -/

structure AuditEvent where
  principalID : String
  roles : List String
  resource : String
  action : String
  decision : String
  reason : String
  attrs : Option AnyMap

/-- `PrincipalAllowed`: its result, the recorded event and the caller's map
    afterwards. -/
def principalAllowed (current : Option Policy) (p : Option Principal) (resource action : String)
    (attrs : Option AnyMap) : Except EngineError Bool × AuditEvent × Option AnyMap :=
  let result := allowed current p resource action attrs
  -- the event holds the caller's map itself, so it sees what `Allowed` wrote
  let ev : AuditEvent :=
    { principalID := (p.map Principal.id).getD "", roles := (p.map principalRoles).getD [],
      resource := resource, action := action, decision := "deny", reason := "",
      attrs := result.2 }
  match result.1 with
  | .error e =>
    (.error e, { ev with reason := "engine error: authz: engine not initialized with a policy" },
      result.2)
  | .ok d =>
    (.ok d.allowed,
      { ev with decision := if d.allowed then "allow" else "deny", reason := d.reason }, result.2)

/-- A call of `Allowed` or of `PrincipalAllowed`. -/
structure AuthzCall where
  viaPrincipalAllowed : Bool
  principal : Option Principal
  resource : String
  action : String

/-- Allow or deny, and the caller's map afterwards. -/
def AuthzCall.run (current : Option Policy) (attrs : Option AnyMap) (c : AuthzCall) :
    Except EngineError Bool × Option AnyMap :=
  if c.viaPrincipalAllowed then
    let result := principalAllowed current c.principal c.resource c.action attrs
    (result.1, result.2.2)
  else
    let result := allowed current c.principal c.resource c.action attrs
    (result.1.map Decision.allowed, result.2)

/-- The results of calls that pass the same map. -/
def runShared (current : Option Policy) : Option AnyMap → List AuthzCall →
    List (Except EngineError Bool)
  | _, [] => []
  | attrs, c :: calls => (c.run current attrs).1 :: runShared current (c.run current attrs).2 calls

/-- The results of the same calls, each with a fresh copy. -/
def runFresh (current : Option Policy) (attrs : Option AnyMap) (calls : List AuthzCall) :
    List (Except EngineError Bool) :=
  calls.map fun c => (c.run current attrs).1

/-! ## Section 2: One call -/

/-- The caller of the call has roles and this ID. -/
def AuthzCall.CalledBy (c : AuthzCall) (id : String) : Prop :=
  ∃ p, c.principal = some p ∧ principalRoles p ≠ [] ∧ p.id = id

/-- The map after a principal with this ID called. -/
def inject (id : String) (attrs : AnyMap) : AnyMap :=
  if "principal_id" ∈ attrs then attrs else attrs.insert "principal_id" (.str id)

theorem run_eq_allowed (current : Option Policy) (attrs : Option AnyMap) (c : AuthzCall) :
    c.run current attrs =
      (((allowed current c.principal c.resource c.action attrs).1.map Decision.allowed),
        (allowed current c.principal c.resource c.action attrs).2) := by
  unfold AuthzCall.run principalAllowed
  cases c.viaPrincipalAllowed with
  | false => rfl
  | true =>
    cases hresult : (allowed current c.principal c.resource c.action attrs).1 <;> simp [hresult, Except.map]

variable {policy : Policy} {c : AuthzCall} {calls : List AuthzCall} {attrs : AnyMap} {id : String}

theorem inject_inject (id id' : String) (attrs : AnyMap) :
    inject id' (inject id attrs) = inject id attrs := by
  have hmem : "principal_id" ∈ inject id attrs := by
    unfold inject
    split
    · assumption
    · exact Std.ExtTreeMap.mem_insert_self
  exact if_pos hmem

/-- A principal with roles decides on the map with its ID, and leaves it so. -/
theorem run_of_calledBy (hcalled : c.CalledBy id) (policy : Policy) (attrs : AnyMap) :
    c.run (some policy) (some attrs) = ((c.run (some policy) (some (inject id attrs))).1,
      some (inject id attrs)) := by
  obtain ⟨p, hp, hroles, rfl⟩ := hcalled
  have hlen : (principalRoles p).length ≠ 0 := fun hzero =>
    hroles (List.eq_nil_of_length_eq_zero hzero)
  have hinject : ∀ attrs, withPrincipalID p attrs = inject p.id attrs := fun _ => rfl
  simp only [run_eq_allowed, allowed, hp, hlen, if_false, hinject, Option.getD_some, inject_inject,
    Option.map_some]

/-- A call without roles decides without the map and leaves it alone. -/
theorem run_of_not_calledBy (hnone : ∀ id, ¬ c.CalledBy id) (policy : Policy)
    (attrs attrs' : Option AnyMap) :
    c.run (some policy) attrs = ((c.run (some policy) attrs').1, attrs) := by
  simp only [run_eq_allowed, allowed]
  cases hp : c.principal with
  | none => rfl
  | some p =>
    have hroles : principalRoles p = [] :=
      Classical.byContradiction fun hne => hnone p.id ⟨p, hp, hne, rfl⟩
    simp [hroles]

theorem run_nil_map (policy : Policy) (c : AuthzCall) : (c.run (some policy) none).2 = none := by
  simp only [run_eq_allowed, allowed]
  cases c.principal with
  | none => rfl
  | some p =>
    simp only [Option.map_none]
    split <;> rfl

/-! ## Section 3: Sequences of calls -/

theorem runShared_nil_map (policy : Policy) (calls : List AuthzCall) :
    runShared (some policy) none calls = runFresh (some policy) none calls := by
  induction calls with
  | nil => rfl
  | cons c calls ih =>
    unfold runShared
    rw [run_nil_map, ih]
    rfl

/-- Once an ID is in the map, it stays. -/
theorem runShared_inject (policy : Policy) (id : String) (attrs : AnyMap) (calls : List AuthzCall) :
    runShared (some policy) (some (inject id attrs)) calls
      = runFresh (some policy) (some (inject id attrs)) calls := by
  induction calls with
  | nil => rfl
  | cons c calls ih =>
    have hmap : (c.run (some policy) (some (inject id attrs))).2 = some (inject id attrs) := by
      by_cases hcalled : ∃ id', c.CalledBy id'
      · obtain ⟨id', hcalled⟩ := hcalled
        rw [run_of_calledBy hcalled, inject_inject]
      · rw [run_of_not_calledBy (not_exists.mp hcalled) policy _ none]
    unfold runShared
    rw [hmap, ih]
    rfl

/-- **Run lemma**: calls by one ID decide as with fresh copies. -/
theorem runShared_of_same_caller (policy : Policy) (attrs : AnyMap)
    (hsame : ∀ c ∈ calls, ∀ id', c.CalledBy id' → id' = id) :
    runShared (some policy) (some attrs) calls = runFresh (some policy) (some attrs) calls := by
  induction calls with
  | nil => rfl
  | cons c calls ih =>
    have hrest : ∀ c' ∈ calls, ∀ id', c'.CalledBy id' → id' = id :=
      fun c' hc' => hsame c' (List.mem_cons_of_mem _ hc')
    unfold runShared
    by_cases hcalled : ∃ id', c.CalledBy id'
    · obtain ⟨id', hcalled⟩ := hcalled
      obtain rfl := hsame c List.mem_cons_self id' hcalled
      rw [run_of_calledBy hcalled, runShared_inject]
      -- from here on, every call sees its own ID
      have hfresh : runFresh (some policy) (some (inject id' attrs)) calls
          = runFresh (some policy) (some attrs) calls := by
        apply List.map_congr_left
        intro c' hc'
        by_cases hcalled' : ∃ id'', c'.CalledBy id''
        · obtain ⟨id'', hcalled'⟩ := hcalled'
          obtain rfl := hrest c' hc' id'' hcalled'
          rw [run_of_calledBy hcalled' policy attrs]
        · rw [run_of_not_calledBy (not_exists.mp hcalled') policy _ (some attrs)]
      rw [hfresh]
      simp only [runFresh, List.map_cons, run_of_calledBy hcalled policy attrs]
    · rw [run_of_not_calledBy (not_exists.mp hcalled) policy _ none, ih hrest]
      simp only [runFresh, List.map_cons,
        run_of_not_calledBy (not_exists.mp hcalled) policy (some attrs) none]

/-! ## Section 4: A policy that tells two IDs apart -/

/-- One role, whose one permission asks for a given `principal_id`. -/
def onlyFor (name resource action id : String) : Policy :=
  ⟨1, (∅ : Std.ExtTreeMap String Role).insert name
    ⟨name, "", [], [⟨resource, action, [⟨"principal_id", id⟩]⟩]⟩⟩

theorem run_eq_isAllowed {p : Principal} (hp : c.principal = some p) (policy : Policy)
    (attrs : Option AnyMap) :
    (c.run (some policy) attrs).1 = .ok (isAllowed policy p c.resource c.action attrs) := by
  rw [run_eq_allowed, hp]
  unfold isAllowed allowed
  simp only
  split <;> rfl

theorem isAllowed_onlyFor {p : Principal} {name : String} (hname : name ∈ principalRoles p)
    (resource action : String) {id : String} (hid : id ≠ valueNotSelf) (attrs : AnyMap) :
    isAllowed (onlyFor name resource action id) p resource action (some attrs) = true ↔
      (principalID p attrs).sprint = id := by
  rw [isAllowed_iff]
  have hrole : (onlyFor name resource action id).roles[name]?
      = some ⟨name, "", [], [⟨resource, action, [⟨"principal_id", id⟩]⟩]⟩ := by simp [onlyFor]
  have hholds : Condition.Holds p attrs ⟨"principal_id", id⟩ ↔
      (principalID p attrs).sprint = id := by
    simp [Condition.Holds, seenAttr, hid]
  constructor
  · rintro ⟨name', _, role, hrole', perm, hmem, hgrants⟩
    simp only [onlyFor, getElem?_insert_ite, Std.ExtTreeMap.getElem?_empty,
      Option.ite_none_right_eq_some, Option.some.injEq] at hrole'
    obtain ⟨_, rfl⟩ := hrole'
    rw [List.mem_singleton] at hmem
    subst hmem
    exact hholds.mp (hgrants.conditions _ List.mem_cons_self)
  · intro hsame
    refine ⟨name, mem_principalRoles.mp hname, _, hrole, _, List.mem_cons_self, Or.inr rfl,
      Or.inr (Or.inr rfl), ?_⟩
    intro c hc
    rw [List.mem_singleton] at hc
    subst hc
    exact hholds.mpr hsame

/-- Some policy decides a call differently once another ID is in the map. -/
theorem exists_policy_differs (hfree : "principal_id" ∉ attrs) {id' : String}
    (hcalled : c.CalledBy id') (hne : id' ≠ id) :
    ∃ policy, (c.run (some policy) (some (inject id attrs))).1
      ≠ (c.run (some policy) (some attrs)).1 := by
  obtain ⟨p, hp, hroles, rfl⟩ := hcalled
  obtain ⟨name, hname⟩ := List.exists_mem_of_ne_nil _ hroles
  have hinjected : (principalID p (inject id attrs)).sprint = id := by
    simp [principalID, inject, hfree, AnyValue.sprint]
  have hown : (principalID p attrs).sprint = p.id := by
    simp [principalID, hfree, AnyValue.sprint]
  -- ask for the ID that is not the sentinel
  by_cases hsentinel : id = valueNotSelf
  · have hallowed := isAllowed_onlyFor hname c.resource c.action (hsentinel ▸ hne)
    refine ⟨onlyFor name c.resource c.action p.id, ?_⟩
    rw [run_eq_isAllowed hp, run_eq_isAllowed hp, (hallowed attrs).mpr hown]
    intro heq
    have hother := (hallowed (inject id attrs)).mp (Except.ok.inj heq)
    rw [hinjected] at hother
    exact hne hother.symm
  · have hallowed := isAllowed_onlyFor hname c.resource c.action hsentinel
    refine ⟨onlyFor name c.resource c.action id, ?_⟩
    rw [run_eq_isAllowed hp, run_eq_isAllowed hp, (hallowed (inject id attrs)).mpr hinjected]
    intro heq
    have hother := (hallowed attrs).mp (Except.ok.inj heq).symm
    rw [hown] at hother
    exact hne hother

/-- Sequences that decide as with fresh copies have one caller. -/
theorem same_caller_of_runShared (hfree : "principal_id" ∉ attrs)
    (hindependent : ∀ policy, runShared (some policy) (some attrs) calls
      = runFresh (some policy) (some attrs) calls) :
    ∃ id, ∀ c ∈ calls, ∀ id', c.CalledBy id' → id' = id := by
  induction calls with
  | nil => exact ⟨"", by simp⟩
  | cons c calls ih =>
    have hrest : ∀ policy, runShared (some policy) (c.run (some policy) (some attrs)).2 calls
        = runFresh (some policy) (some attrs) calls := by
      intro policy
      exact (List.cons.inj (hindependent policy)).2
    by_cases hcalled : ∃ id, c.CalledBy id
    · obtain ⟨id, hcalled⟩ := hcalled
      refine ⟨id, ?_⟩
      intro c' hc' id' hcalled'
      rcases List.mem_cons.mp hc' with rfl | hlater
      · obtain ⟨p, hp, _, rfl⟩ := hcalled
        obtain ⟨p', hp', _, rfl⟩ := hcalled'
        rw [hp] at hp'
        cases hp'
        rfl
      · -- the rest runs on the map with this ID
        refine Classical.byContradiction fun hne => ?_
        obtain ⟨policy, hdiffers⟩ := exists_policy_differs hfree hcalled' hne
        have heq := hrest policy
        rw [run_of_calledBy hcalled, runShared_inject] at heq
        exact hdiffers (List.map_inj_left.mp heq c' hlater)
    · have hsame : ∀ policy, (c.run (some policy) (some attrs)).2 = some attrs := by
        intro policy
        rw [run_of_not_calledBy (not_exists.mp hcalled) policy _ none]
      simp only [hsame] at hrest
      obtain ⟨id, hid⟩ := ih hrest
      refine ⟨id, ?_⟩
      intro c' hc' id' hcalled'
      rcases List.mem_cons.mp hc' with rfl | hlater
      · exact absurd ⟨id', hcalled'⟩ hcalled
      · exact hid c' hlater id' hcalled'

/-- **Independence of earlier calls**: under every policy, exactly for the nil map
    and for sequences whose callers with roles have one ID. -/
theorem runShared_eq_runFresh_iff (attrs : Option AnyMap) (calls : List AuthzCall)
    (hfree : "principal_id" ∉ attrs.getD ∅) :
    (∀ policy, runShared (some policy) attrs calls = runFresh (some policy) attrs calls) ↔
      attrs = none ∨ ∃ id, ∀ c ∈ calls, ∀ id', c.CalledBy id' → id' = id := by
  cases attrs with
  | none => simp [runShared_nil_map]
  | some attrs =>
    constructor
    · intro hindependent
      exact Or.inr (same_caller_of_runShared hfree hindependent)
    · rintro (hnil | ⟨id, hsame⟩)
      · contradiction
      · intro policy
        exact runShared_of_same_caller policy attrs hsame

/-! ## An auditor reads its own entries -/

/-- The role `auditor` may read audit entries of others. -/
def auditPolicy : Policy :=
  ⟨1, (∅ : Std.ExtTreeMap String Role).insert "auditor"
    ⟨"auditor", "", [], [⟨"audit", "read", [⟨"subject", "not-self"⟩]⟩]⟩⟩

def auditor (id : String) : Principal := ⟨id, .human, id, id, .active, ["auditor"], ∅⟩

def readAudit (id : String) : AuthzCall := ⟨false, some (auditor id), "audit", "read"⟩

/-- Entries about bob. -/
def bobEntries : AnyMap := (∅ : AnyMap).insert "subject" (.str "bob")

theorem runShared_eq_runFresh_iff_bob :
    "principal_id" ∉ bobEntries
      ∧ ((∀ policy, runShared (some policy) (some bobEntries) [readAudit "alice", readAudit "alice"]
            = runFresh (some policy) (some bobEntries) [readAudit "alice", readAudit "alice"]) ↔
          some bobEntries = none
            ∨ ∃ id, ∀ c ∈ [readAudit "alice", readAudit "alice"], ∀ id', c.CalledBy id' → id' = id) :=
  ⟨by decide, runShared_eq_runFresh_iff (some bobEntries) _ (by decide)⟩

/-- After alice read bob's entries, bob may read them too. -/
theorem shared_map_defeats_not_self :
    "principal_id" ∉ bobEntries
      ∧ runShared (some auditPolicy) (some bobEntries) [readAudit "alice", readAudit "bob"]
        = [.ok true, .ok true]
      ∧ runFresh (some auditPolicy) (some bobEntries) [readAudit "alice", readAudit "bob"]
        = [.ok true, .ok false] := by
  exact ⟨by decide, rfl, rfl⟩

end Owasaka.Authz
