import Owasaka.Authz.Inheritance

/-! # Cycles among roles

    When pass 2 of the loader ends, and when it ends with an error.

    The recursion has no bound of its own.  It ends because the names on the visit
    stack are distinct names of roles, so the stack is never higher than the map.
    The stack is also what tells a cycle from a diamond: a name is on it only
    while its own parents are gone through, so a second way to the same ancestor
    finds it off the stack again. -/

namespace Owasaka.Authz

open Relation

/-! ## Section 1: Well-formed graphs -/

/-- Some role inherits itself, directly or not. -/
def Cyclic (raw : YamlPolicy) : Prop := ∃ name, TransGen (Inherits raw) name name

/-- Some role inherits a role that the document does not have. -/
def UndefinedParent (raw : YamlPolicy) : Prop :=
  ∃ name parent, Inherits raw name parent ∧ parent ∉ raw.roles

theorem Inherits.mem {raw : YamlPolicy} {name parent : String} (h : Inherits raw name parent) :
    name ∈ raw.roles := by
  obtain ⟨yr, hraw, _⟩ := h
  exact mem_of_getElem?_eq_some hraw

/-! ## Section 2: The fuel does not matter -/

variable {roles : Roles}

theorem expandParents_mono
    {expand expand' : Role → List String → Option (Except PolicyError (List Permission))}
    (hexpand : ∀ role seen r, expand role seen = some r → expand' role seen = some r)
    {roleName : String} {seen parents : List String} {r : Except PolicyError (List Permission)}
    (h : expandParents roles expand roleName seen parents = some r) :
    expandParents roles expand' roleName seen parents = some r := by
  induction parents generalizing r with
  | nil => exact h
  | cons parent parents ih =>
    unfold expandParents at h ⊢
    split
    · rename_i hseen
      rwa [if_pos hseen] at h
    · rename_i hseen
      rw [if_neg hseen] at h
      cases hparent : roles[parent]? with
      | none => simpa only [hparent] using h
      | some pr =>
        simp only [hparent] at h ⊢
        cases hgrand : expand pr (parent :: seen) with
        | none => simp [hgrand] at h
        | some grand =>
          rw [hexpand _ _ _ hgrand]
          rw [hgrand] at h
          cases grand with
          | error e => exact h
          | ok grand =>
            simp only at h ⊢
            cases hrest : expandParents roles expand roleName seen parents with
            | none => simp [hrest] at h
            | some rest =>
              rw [ih hrest]
              rwa [hrest] at h

/-- More fuel gives the same result. -/
theorem expandInherits_mono {fuel fuel' : Nat} (hle : fuel ≤ fuel') {role : Role}
    {seen : List String} {r : Except PolicyError (List Permission)}
    (h : expandInherits roles fuel role seen = some r) :
    expandInherits roles fuel' role seen = some r := by
  induction fuel generalizing fuel' role seen r with
  | zero => contradiction
  | succ fuel ih =>
    cases fuel' with
    | zero => omega
    | succ fuel' => exact expandParents_mono (fun _ _ _ hr => ih (by omega) hr) h

/-- **Termination**: one result, for any fuel from the number of roles on. -/
theorem expandInherits_terminates {role : Role} (hrole : roles[role.name]? = some role) :
    ∃ r, ∀ fuel, roles.size ≤ fuel → expandInherits roles fuel role [role.name] = some r := by
  have hret : expandInherits roles roles.size role [role.name] ≠ none := by
    apply expandInherits_ne_none (List.nodup_singleton _)
    · intro name hname
      rw [List.mem_singleton] at hname
      subst hname
      exact mem_of_getElem?_eq_some hrole
    · rw [List.length_singleton]
      omega
  obtain ⟨r, hr⟩ := Option.ne_none_iff_exists'.mp hret
  exact ⟨r, fun fuel hle => expandInherits_mono hle hr⟩

/-! ## Section 3: Errors of one expansion -/

/-- A graph that pass 2 refuses. -/
def Refused (roles : Roles) : Prop :=
  (∃ name, TransGen (Parent roles) name name)
    ∨ ∃ name parent, Parent roles name parent ∧ parent ∉ roles

/-- The loop over the parents, given what the recursive calls find. -/
theorem refused_of_expandParents
    {expand : Role → List String → Option (Except PolicyError (List Permission))}
    {name : String} {role : Role} {seen parents : List String} {e : PolicyError}
    (hrole : roles[name]? = some role) (hseen : ∀ x ∈ seen, ReflTransGen (Parent roles) x name)
    (hparents : ∀ parent ∈ parents, parent ∈ role.inherits)
    (hexpand : ∀ parent pr e, Parent roles name parent → roles[parent]? = some pr →
      expand pr (parent :: seen) = some (.error e) → Refused roles)
    (herr : expandParents roles expand role.name seen parents = some (.error e)) :
    Refused roles := by
  induction parents with
  | nil => simp [expandParents] at herr
  | cons parent parents ih =>
    have hedge : Parent roles name parent := ⟨role, hrole, hparents parent List.mem_cons_self⟩
    rcases expandParents_error herr with hmem | hparent | ⟨pr, hparent, hgrand⟩ | hrest
    · -- the parent reaches the role, and the role has the parent
      exact Or.inl ⟨parent, TransGen.tail' (hseen parent hmem) hedge⟩
    · refine Or.inr ⟨name, parent, hedge, ?_⟩
      rw [Std.ExtTreeMap.mem_iff_isSome_getElem?, hparent]
      simp
    · exact hexpand parent pr e hedge hparent hgrand
    · exact ih (fun p hp => hparents p (List.mem_cons_of_mem _ hp)) hrest

/-- An error is about a cycle or an undefined role: the stack is a way down to
    the role that is expanded. -/
theorem refused_of_expandInherits {fuel : Nat} {name : String} {role : Role} {seen : List String}
    {e : PolicyError} (hrole : roles[name]? = some role)
    (hseen : ∀ x ∈ seen, ReflTransGen (Parent roles) x name)
    (herr : expandInherits roles fuel role seen = some (.error e)) : Refused roles := by
  induction fuel generalizing name role seen e with
  | zero => contradiction
  | succ fuel ih =>
    apply refused_of_expandParents hrole hseen (fun _ hp => hp) _ herr
    intro parent pr e' hedge hparent hgrand
    apply ih hparent _ hgrand
    intro x hx
    rcases List.mem_cons.mp hx with rfl | hold
    · exact .refl
    · exact (hseen x hold).tail hedge

/-! ## Section 4: What a successful expansion has seen -/

/-- The loop over the parents, given what the recursive calls have seen. -/
theorem ancestors_of_expandParents
    {expand : Role → List String → Option (Except PolicyError (List Permission))}
    {roleName : String} {seen parents : List String} {out : List Permission}
    (hexpand : ∀ parent pr out, roles[parent]? = some pr →
      expand pr (parent :: seen) = some (.ok out) →
      ∀ q, TransGen (Parent roles) parent q → q ∈ roles ∧ q ∉ parent :: seen)
    (hok : expandParents roles expand roleName seen parents = some (.ok out)) :
    ∀ parent ∈ parents, ∀ q, ReflTransGen (Parent roles) parent q → q ∈ roles ∧ q ∉ seen := by
  induction parents generalizing out with
  | nil => simp
  | cons parent parents ih =>
    obtain ⟨pr, grand, rest, hunseen, hparent, hgrand, hrest, -⟩ := expandParents_ok hok
    intro parent' hmem q hreach
    rcases List.mem_cons.mp hmem with rfl | hlater
    · rcases reflTransGen_iff_eq_or_transGen.mp hreach with rfl | hbelow
      · exact ⟨mem_of_getElem?_eq_some hparent, hunseen⟩
      · obtain ⟨hq, hnot⟩ := hexpand parent' pr grand hparent hgrand q hbelow
        exact ⟨hq, fun hold => hnot (List.mem_cons_of_mem _ hold)⟩
    · exact ih hrest parent' hlater q hreach

/-- Every ancestor is defined, and none of them is on the stack. -/
theorem ancestors_of_expandInherits {fuel : Nat} {name : String} {role : Role}
    {seen : List String} {out : List Permission} (hrole : roles[name]? = some role)
    (hok : expandInherits roles fuel role seen = some (.ok out)) :
    ∀ q, TransGen (Parent roles) name q → q ∈ roles ∧ q ∉ seen := by
  induction fuel generalizing name role seen out with
  | zero => contradiction
  | succ fuel ih =>
    intro q hreach
    obtain ⟨parent, ⟨role', hrole', hparent⟩, hrest⟩ := TransGen.head'_iff.mp hreach
    rw [hrole] at hrole'
    cases hrole'
    exact ancestors_of_expandParents (fun _ _ _ hpr hgrand => ih hpr hgrand) hok
      parent hparent q hrest

/-! ## Section 5: Pass 2 -/

variable {raw : YamlPolicy} {done : List String}

theorem Expanding.refused_iff (hexp : Expanding raw done roles) :
    Refused roles ↔ Cyclic raw ∨ UndefinedParent raw := by
  unfold Refused Cyclic UndefinedParent
  rw [hexp.parent_eq]
  simp only [hexp.mem_iff]

theorem Expanding.refused_of_expandAll (hexp : Expanding raw done roles) {names : List String}
    {e : PolicyError} (herr : Authz.expandAll names roles = some (.error e)) :
    Cyclic raw ∨ UndefinedParent raw := by
  induction names generalizing roles done with
  | nil => simp [Authz.expandAll] at herr
  | cons name names ih =>
    rcases expandAll_cons herr with
      ⟨_, hrest⟩ | ⟨role, hrole, ⟨e', hexpand, _⟩ | ⟨out, hout, hrest⟩⟩
    · exact ih hexp hrest
    · rw [← hexp.refused_iff]
      apply refused_of_expandInherits hrole _ hexpand
      intro x hx
      rw [List.mem_singleton, hexp.name_eq hrole] at hx
      rw [hx]
    · exact ih (hexp.expand hrole hout) hrest

/-- A role that was gone through has defined ancestors only, and is none of them. -/
theorem Expanding.ancestors_of_expandAll (hexp : Expanding raw done roles) {names : List String}
    {roles' : Roles} (hok : Authz.expandAll names roles = some (.ok roles')) :
    ∀ name ∈ names, name ∈ raw.roles →
      ∀ q, TransGen (Inherits raw) name q → q ∈ raw.roles ∧ q ≠ name := by
  induction names generalizing roles done with
  | nil => simp
  | cons first names ih =>
    intro name hmem hname q hreach
    rcases expandAll_cons hok with
      ⟨hrole, hrest⟩ | ⟨role, hrole, ⟨e, _, herror⟩ | ⟨out, hout, hrest⟩⟩
    · rcases List.mem_cons.mp hmem with rfl | hlater
      · rw [← hexp.mem_iff, Std.ExtTreeMap.mem_iff_isSome_getElem?, hrole] at hname
        contradiction
      · exact ih hexp hrest name hlater hname q hreach
    · contradiction
    · rcases List.mem_cons.mp hmem with rfl | hlater
      · rw [← hexp.parent_eq] at hreach
        obtain ⟨hq, hnot⟩ := ancestors_of_expandInherits hrole hout q hreach
        rw [hexp.name_eq hrole, List.mem_singleton] at hnot
        exact ⟨(hexp.mem_iff q).mp hq, hnot⟩
      · exact ih (hexp.expand hrole hout) hrest name hlater hname q hreach

theorem Expanding.not_refused_of_expandAll (hexp : Expanding raw done roles) {names : List String}
    (hnames : names.Perm raw.roles.keys) {roles' : Roles}
    (hok : Authz.expandAll names roles = some (.ok roles')) :
    ¬ (Cyclic raw ∨ UndefinedParent raw) := by
  have hancestors : ∀ {name q}, name ∈ raw.roles → TransGen (Inherits raw) name q →
      q ∈ raw.roles ∧ q ≠ name := by
    intro name q hname hreach
    apply hexp.ancestors_of_expandAll hok name _ hname q hreach
    rw [hnames.mem_iff, Std.ExtTreeMap.mem_keys]
    exact hname
  rintro (⟨name, hcycle⟩ | ⟨name, parent, hedge, hnot⟩)
  · obtain ⟨parent, hedge, _⟩ := TransGen.head'_iff.mp hcycle
    exact (hancestors hedge.mem hcycle).2 rfl
  · exact hnot (hancestors hedge.mem (.single hedge)).1

/-- **Pass 2** ends for every role, in whatever order it goes through them, and
    refuses exactly the graphs with a cycle or an undefined role. -/
theorem pass2_refuses_iff {orders : LoadOrders} (horders : orders.Of raw)
    (hhydrate : hydrate orders.hydrate ∅ = .ok roles) :
    (∀ (names : List String) (current : Roles), expandAll names roles = some (.ok current) →
        ∀ (name : String) (role : Role), current[name]? = some role →
          ∃ r, ∀ fuel, current.size ≤ fuel →
            expandInherits current fuel role [role.name] = some r)
      ∧ ((∃ e, expandAll orders.expand roles = some (.error e)) ↔
          Cyclic raw ∨ UndefinedParent raw)
      ∧ (¬ Cyclic raw → ¬ UndefinedParent raw →
          ∃ roles', expandAll orders.expand roles = some (.ok roles')) := by
  have hexp : Expanding raw [] roles := expanding_hydrate horders.hydrate hhydrate
  refine ⟨?_, ?_, ?_⟩
  · intro names current hcurrent name role hrole
    apply expandInherits_terminates
    rw [(hexp.expandAll hcurrent).name_eq hrole]
    exact hrole
  · constructor
    · intro ⟨e, herr⟩
      exact hexp.refused_of_expandAll herr
    · intro hbad
      match hrun : expandAll orders.expand roles with
      | none => exact absurd hrun (expandAll_ne_none hexp)
      | some (.error e) => exact ⟨e, rfl⟩
      | some (.ok roles') => exact absurd hbad (hexp.not_refused_of_expandAll horders.expand hrun)
  · intro hacyclic hdefined
    match hrun : expandAll orders.expand roles with
    | none => exact absurd hrun (expandAll_ne_none hexp)
    | some (.error e) =>
      rcases hexp.refused_of_expandAll hrun with hcycle | hundefined
      · contradiction
      · contradiction
    | some (.ok roles') => exact ⟨roles', rfl⟩

/-! ## A diamond -/

def topWritten : YamlRole := ⟨"", ["left", "right", "left"], []⟩

def sideWritten : YamlRole := ⟨"", ["base"], []⟩

def baseWritten : YamlRole := ⟨"", [], [⟨"*", "admin", ∅⟩]⟩

/-- `base` is reached from `top` three times. -/
def diamondDocument : YamlPolicy :=
  ⟨1, ((((∅ : Std.ExtTreeMap String YamlRole).insert "base" baseWritten).insert "left"
    sideWritten).insert "right" sideWritten).insert "top" topWritten⟩

def diamondOrders : LoadOrders where
  hydrate := [("base", baseWritten), ("left", sideWritten), ("right", sideWritten),
    ("top", topWritten)]
  expand := ["base", "left", "right", "top"]
  validate := ["base", "left", "right", "top"]

theorem diamondOrders_of : diamondOrders.Of diamondDocument where
  hydrate := .refl _
  expand := .refl _
  validate := .refl _

/-- The roles after pass 1. -/
def diamondRoles : Roles :=
  ((((∅ : Roles).insert "base" (baseWritten.role "base")).insert "left"
    (sideWritten.role "left")).insert "right" (sideWritten.role "right")).insert "top"
    (topWritten.role "top")

theorem hydrate_diamond : hydrate diamondOrders.hydrate ∅ = .ok diamondRoles := rfl

theorem pass2_refuses_iff_diamond :
    (∃ roles', expandAll diamondOrders.expand diamondRoles = some (.ok roles'))
      ∧ ¬ (Cyclic diamondDocument ∨ UndefinedParent diamondDocument) := by
  have haccepted : ∃ roles', expandAll diamondOrders.expand diamondRoles = some (.ok roles') :=
    ⟨_, rfl⟩
  refine ⟨haccepted, ?_⟩
  obtain ⟨roles', hok⟩ := haccepted
  rw [← (pass2_refuses_iff diamondOrders_of hydrate_diamond).2.1, hok]
  simp

end Owasaka.Authz
