import Mathlib.Data.List.Induction
import Owasaka.Foundation.KeyedValues

/-! # The health probes (`health/health.go`)

    Subsystems register a probe under a name, replace it and remove it, in any order and
    at any time.  `snapshot` runs every probe that is registered, in the order of the
    names, and keeps the worst status of all and the worst of the required ones.

    ## Abstract view

    What counts is the last call about each name.  Readiness fails if and only if a
    required probe that is registered in this sense reports to be degraded or unhealthy. -/

namespace Owasaka.Health

/-! ## Section 1: Probes -/

/-- `Status` is a Go string; these are its constants, and any other text. -/
inductive Status where
  | healthy
  | degraded
  | unhealthy
  | starting
  | other (text : String)
  deriving DecidableEq

structure Result where
  status : Status
  message : String

/-- A `Probe`; what it checks is a part of the world. -/
structure Probe (World : Type) where
  name : String
  required : Bool
  check : World → Result

structure Registry (World : Type) where
  probes : Std.ExtTreeMap String (Probe World)
  startupComplete : Bool
  startupCompleteAt : Int

def newRegistry (World : Type) : Registry World := ⟨∅, false, 0⟩

variable {World : Type}

/-- `Register`, which ignores a nil probe and one without a name. -/
def Registry.register (r : Registry World) (p : Option (Probe World)) : Registry World :=
  match p with
  | none => r
  | some p => if p.name = "" then r else { r with probes := r.probes.insert p.name p }

def Registry.deregister (r : Registry World) (name : String) : Registry World :=
  { r with probes := r.probes.erase name }

def Registry.markStartupComplete (r : Registry World) (now : Int) : Registry World :=
  if !r.startupComplete then { r with startupComplete := true, startupCompleteAt := now } else r

/-! ## Section 2: `snapshot` -/

def rank : Status → Nat
  | .unhealthy => 3
  | .degraded => 2
  | .starting => 1
  | _ => 0

def statusWorse (a b : Status) : Bool := rank a > rank b

structure SubsystemStatus where
  name : String
  required : Bool
  status : Status
  message : String

structure Snapshot where
  overallStatus : Status
  requiredStatus : Status
  startupComplete : Bool
  startupCompleteAt : Int
  subsystems : List SubsystemStatus

/-- What the loop notes of one probe. -/
def Probe.report (p : Probe World) (w : World) : SubsystemStatus :=
  ⟨p.name, p.required, (p.check w).status, (p.check w).message⟩

/-- One round of the loop, with the worst statuses so far. -/
def Snapshot.add (s : Snapshot) (ss : SubsystemStatus) : Snapshot :=
  { s with
    subsystems := s.subsystems ++ [ss]
    overallStatus := if statusWorse ss.status s.overallStatus then ss.status else s.overallStatus
    requiredStatus :=
      if ss.required && statusWorse ss.status s.requiredStatus then ss.status
      else s.requiredStatus }

/-- `sort.Strings`, which orders by bytes, as UTF-8 does by code points. -/
def sortStrings (names : List String) : List String :=
  names.mergeSort fun a b => (compare a b).isLE

/-- `snapshot`: the map's keys come in any order, and the world may change from one
    check to the next. -/
def Registry.snapshot (r : Registry World) (visit : Visit String) (world : String → World) :
    Snapshot :=
  let names := sortStrings (visit.list r.probes.keys)
  let checked := names.filterMap fun n => (r.probes[n]?).map fun p => p.report (world n)
  checked.foldl Snapshot.add ⟨.healthy, .healthy, r.startupComplete, r.startupCompleteAt, []⟩

/-- The status of `ReadinessHandler`, whose body is the snapshot. -/
def readiness (s : Snapshot) : Nat :=
  if s.requiredStatus = .unhealthy ∨ s.requiredStatus = .degraded then 503 else 200

/-- The status of `StartupHandler`, and the time that it gives with a 200. -/
def startup (s : Snapshot) : Nat × Option Int :=
  if !s.startupComplete then (503, none) else (200, some s.startupCompleteAt)

/-! ## Section 3: What the loop computes -/

theorem sortStrings_keys (visit : Visit String) (m : Std.ExtTreeMap String (Probe World)) :
    sortStrings (visit.list m.keys) = m.keys := by
  have hsorted : (sortStrings (visit.list m.keys)).Pairwise fun a b => (compare a b).isLE = true := by
    apply List.pairwise_mergeSort
    · exact fun a b c => Std.TransCmp.isLE_trans
    · intro a b
      rw [Bool.or_eq_true]
      cases hcmp : compare a b with
      | lt => exact Or.inl rfl
      | eq => exact Or.inl rfl
      | gt => exact Or.inr (by rw [Std.OrientedCmp.lt_of_gt hcmp]; rfl)
  have hkeys : m.keys.Pairwise fun a b => (compare a b).isLE = true :=
    Std.ExtTreeMap.ordered_keys.imp fun h => by rw [h]; rfl
  have hperm : (sortStrings (visit.list m.keys)).Perm m.keys :=
    (List.mergeSort_perm _ _).trans (visit.perm _)
  apply hperm.eq_of_pairwise _ hsorted hkeys
  intro a b _ _ hab hba
  exact Std.LawfulEqCmp.eq_of_compare (Std.OrientedCmp.isLE_antisymm hab hba)

/-- The last of the statuses that were worse than all before. -/
def worstOf (init : Status) (statuses : List Status) : Status :=
  statuses.foldl (fun worst s => if statusWorse s worst then s else worst) init

theorem worstOf_cases (init : Status) (statuses : List Status) :
    (worstOf init statuses = init ∨ worstOf init statuses ∈ statuses)
      ∧ rank init ≤ rank (worstOf init statuses)
      ∧ ∀ s ∈ statuses, rank s ≤ rank (worstOf init statuses) := by
  induction statuses generalizing init with
  | nil => exact ⟨Or.inl rfl, Nat.le_refl _, fun _ h => absurd h List.not_mem_nil⟩
  | cons s statuses ih =>
    obtain ⟨hfrom, hinit, hrest⟩ := ih (if statusWorse s init then s else init)
    have hstep : worstOf init (s :: statuses)
        = worstOf (if statusWorse s init then s else init) statuses := rfl
    rw [hstep]
    by_cases hworse : statusWorse s init = true
    · rw [if_pos hworse] at hfrom hinit hrest ⊢
      have hrank : rank init < rank s := of_decide_eq_true hworse
      refine ⟨?_, by omega, List.forall_mem_cons.mpr ⟨hinit, hrest⟩⟩
      rcases hfrom with heq | hmem
      · exact Or.inr (by rw [heq]; exact List.mem_cons_self)
      · exact Or.inr (List.mem_cons_of_mem _ hmem)
    · rw [if_neg hworse] at hfrom hinit hrest ⊢
      have hrank : ¬ rank init < rank s := fun h => hworse (decide_eq_true h)
      refine ⟨hfrom.imp_right (List.mem_cons_of_mem _), hinit, List.forall_mem_cons.mpr ⟨?_, hrest⟩⟩
      omega

/-- The loop over the checked probes. -/
theorem foldl_add (s : Snapshot) (checked : List SubsystemStatus) :
    checked.foldl Snapshot.add s =
      { s with
        subsystems := s.subsystems ++ checked
        overallStatus := worstOf s.overallStatus (checked.map (·.status))
        requiredStatus := worstOf s.requiredStatus ((checked.filter (·.required)).map (·.status)) } := by
  induction checked generalizing s with
  | nil => simp [worstOf]
  | cons ss checked ih =>
    rw [List.foldl_cons, ih]
    cases hrequired : ss.required with
    | true => simp [Snapshot.add, worstOf, hrequired]
    | false => simp [Snapshot.add, worstOf, hrequired]

theorem rank_ge_two_iff (s : Status) : 2 ≤ rank s ↔ s = .unhealthy ∨ s = .degraded := by
  cases s with
  | _ => simp [rank]

/-! ## Section 4: Runs -/

inductive Action (World : Type) where
  | register (p : Option (Probe World))
  | deregister (name : String)
  | markStartupComplete (now : Int)

def Registry.act (r : Registry World) : Action World → Registry World
  | .register p => r.register p
  | .deregister name => r.deregister name
  | .markStartupComplete now => r.markStartupComplete now

def runOf (history : List (Action World)) : Registry World :=
  history.foldl Registry.act (newRegistry World)

/-- The call decides what is registered under the name. -/
def Action.Concerns (name : String) : Action World → Prop
  | .register (some p) => p.name = name ∧ name ≠ ""
  | .deregister name' => name' = name
  | _ => False

/-- The last call about the name registered the probe. -/
def Registered (history : List (Action World)) (name : String) (p : Probe World) : Prop :=
  ∃ before after, history = before ++ .register (some p) :: after
    ∧ (Action.register (some p)).Concerns name ∧ ∀ a ∈ after, ¬ a.Concerns name

/-- The time of the first mark. -/
def firstMark (history : List (Action World)) : Option Int :=
  history.findSome? fun a =>
    match a with
    | .markStartupComplete now => some now
    | _ => none

variable {history : List (Action World)} {name : String} {p : Probe World}

theorem registered_concat (a : Action World) :
    Registered (history ++ [a]) name p ↔
      (a = .register (some p) ∧ a.Concerns name) ∨ (¬ a.Concerns name ∧ Registered history name p) := by
  constructor
  · intro hlast
    obtain ⟨before, after, heq, hp, hafter⟩ := hlast
    rcases List.eq_nil_or_concat after with rfl | ⟨after', last, rfl⟩
    · obtain ⟨_, hlast⟩ := List.append_inj' heq rfl
      rw [List.singleton_inj.mp hlast]
      exact Or.inl ⟨rfl, hp⟩
    · have heq' : history ++ [a] = (before ++ .register (some p) :: after') ++ [last] := by
        rw [heq, List.concat_eq_append, List.append_assoc, List.cons_append]
      obtain ⟨hhistory, hlast⟩ := List.append_inj' heq' rfl
      obtain rfl := List.singleton_inj.mp hlast
      simp only [List.concat_eq_append, List.mem_append, List.mem_singleton] at hafter
      exact Or.inr ⟨hafter a (Or.inr rfl), before, after', hhistory, hp,
        fun b hb => hafter b (Or.inl hb)⟩
  · intro h
    rcases h with ⟨rfl, hp⟩ | ⟨hnot, before, after, rfl, hp, hafter⟩
    · exact ⟨history, [], rfl, hp, fun _ h => absurd h List.not_mem_nil⟩
    · refine ⟨before, after ++ [a], by simp, hp, ?_⟩
      intro b hb
      rcases List.mem_append.mp hb with hold | hnew
      · exact hafter b hold
      · rw [List.mem_singleton.mp hnew]
        exact hnot

/-- **Step lemma**: a call settles its own name and leaves the others. -/
theorem getElem?_act (r : Registry World) (a : Action World) (name : String) (p : Probe World) :
    (r.act a).probes[name]? = some p ↔
      (a = .register (some p) ∧ a.Concerns name) ∨ (¬ a.Concerns name ∧ r.probes[name]? = some p) := by
  cases a with
  | register q =>
    cases q with
    | none => simp [Registry.act, Registry.register, Action.Concerns]
    | some q =>
      simp only [Registry.act, Registry.register, Action.Concerns, Action.register.injEq,
        Option.some.injEq]
      by_cases hempty : q.name = ""
      · have hnot : ¬ (q.name = name ∧ name ≠ "") := fun h => h.2 (h.1.symm.trans hempty)
        rw [if_pos hempty]
        simp [hnot]
      · rw [if_neg hempty, getElem?_insert_ite]
        by_cases hname : name = q.name
        · subst hname
          simp [hempty]
        · have hnot : ¬ (q.name = name ∧ name ≠ "") := fun h => hname h.1.symm
          simp [hname, hnot]
  | deregister name' =>
    simp only [Registry.act, Registry.deregister, Action.Concerns, Std.ExtTreeMap.getElem?_erase]
    by_cases hname : name' = name
    · simp [hname]
    · have hcmp : compare name' name ≠ .eq := fun h => hname (Std.LawfulEqCmp.eq_of_compare h)
      simp [hname, hcmp]
  | markStartupComplete now =>
    simp only [Registry.act, Registry.markStartupComplete, Action.Concerns]
    split <;> simp

/-- **Run lemma**: the registry holds what was registered last. -/
theorem getElem?_runOf : (runOf history).probes[name]? = some p ↔ Registered history name p := by
  induction history using List.reverseRecOn with
  | nil =>
    constructor
    · intro hget
      simp [runOf, newRegistry] at hget
    · intro hlast
      obtain ⟨before, after, heq, _⟩ := hlast
      simp at heq
  | append_singleton history a ih =>
    have hrun : runOf (history ++ [a]) = (runOf history).act a := List.foldl_concat _ _ _ _
    rw [hrun, getElem?_act, registered_concat, ih]

theorem startup_runOf (history : List (Action World)) : (runOf history).startupComplete = (firstMark history).isSome
    ∧ ∀ now, firstMark history = some now → (runOf history).startupCompleteAt = now := by
  induction history using List.reverseRecOn with
  | nil =>
    have hnone : ∀ now, firstMark ([] : List (Action World)) = some now →
        (runOf ([] : List (Action World))).startupCompleteAt = now := by
      intro now hmark
      cases hmark
    exact ⟨rfl, hnone⟩
  | append_singleton history a ih =>
    have hrun : runOf (history ++ [a]) = (runOf history).act a := List.foldl_concat _ _ _ _
    obtain ⟨hcomplete, hat⟩ := ih
    unfold firstMark at hcomplete hat ⊢
    rw [hrun, List.findSome?_append]
    cases a with
    | register q =>
      have hsame : (Registry.act (runOf history) (.register q)).startupComplete
          = (runOf history).startupComplete ∧ (Registry.act (runOf history) (.register q)).startupCompleteAt
          = (runOf history).startupCompleteAt := by
        cases q with
        | none => exact ⟨rfl, rfl⟩
        | some q =>
          simp only [Registry.act, Registry.register]
          split <;> exact ⟨rfl, rfl⟩
      simp only [hsame, List.findSome?_cons, List.findSome?_nil, Option.or_none]
      exact ⟨hcomplete, hat⟩
    | deregister name' =>
      simp only [Registry.act, Registry.deregister, List.findSome?_cons, List.findSome?_nil,
        Option.or_none]
      exact ⟨hcomplete, hat⟩
    | markStartupComplete now =>
      simp only [Registry.act, Registry.markStartupComplete, List.findSome?_cons]
      cases hmark : history.findSome? _ with
      | none =>
        rw [hmark] at hcomplete
        rw [hcomplete]
        simp
      | some first =>
        have hfirst := hat first hmark
        rw [hmark] at hcomplete
        simp [hcomplete, hfirst]

/-! ## Section 5: What the probes tell -/

/-- What the snapshot says, read off the calls. -/
structure Tells (history : List (Action World)) (world : String → World) (s : Snapshot) : Prop where
  /-- One line for each registered probe, in the order of the names. -/
  sorted : s.subsystems.Pairwise fun a b => compare a.name b.name = .lt
  lines : ∀ ss, ss ∈ s.subsystems ↔ ∃ p, Registered history ss.name p ∧ ss = p.report (world ss.name)
  /-- The worst status that some probe reports, unless all are healthy. -/
  overall : (s.overallStatus = .healthy ∨ ∃ ss ∈ s.subsystems, ss.status = s.overallStatus)
    ∧ ∀ ss ∈ s.subsystems, rank ss.status ≤ rank s.overallStatus
  ready : readiness s = 503 ↔ ∃ name p, Registered history name p ∧ p.required = true
    ∧ ((p.check (world name)).status = .unhealthy ∨ (p.check (world name)).status = .degraded)
  started : startup s = match firstMark history with
    | none => (503, none)
    | some now => (200, some now)

theorem Registered.name_eq (hreg : Registered history name p) : p.name = name := by
  obtain ⟨_, _, _, hp, _⟩ := hreg
  exact hp.1

/-- The loop's lines, in terms of the calls. -/
theorem snapshot_eq (history : List (Action World)) (visit : Visit String) (world : String → World) :
    ∃ checked : List SubsystemStatus,
      (runOf history).snapshot visit world =
        ⟨worstOf .healthy (checked.map (·.status)),
          worstOf .healthy ((checked.filter (·.required)).map (·.status)),
          (runOf history).startupComplete, (runOf history).startupCompleteAt, checked⟩
      ∧ (checked.Pairwise fun a b => compare a.name b.name = .lt)
      ∧ ∀ ss, ss ∈ checked ↔ ∃ p, Registered history ss.name p ∧ ss = p.report (world ss.name) := by
  refine ⟨(runOf history).probes.keys.filterMap fun n =>
    ((runOf history).probes[n]?).map fun p => p.report (world n), ?_, ?_, ?_⟩
  · unfold Registry.snapshot
    simp only [sortStrings_keys, foldl_add, List.nil_append]
  · rw [List.pairwise_filterMap]
    apply Std.ExtTreeMap.ordered_keys.imp
    intro n n' hlt ss hss ss' hss'
    obtain ⟨p, hp, rfl⟩ := Option.map_eq_some_iff.mp hss
    obtain ⟨p', hp', rfl⟩ := Option.map_eq_some_iff.mp hss'
    have hname : p.name = n := (getElem?_runOf.mp hp).name_eq
    have hname' : p'.name = n' := (getElem?_runOf.mp hp').name_eq
    simp only [Probe.report, hname, hname', hlt]
  · intro ss
    rw [List.mem_filterMap]
    constructor
    · intro hprobed
      obtain ⟨n, _, hss⟩ := hprobed
      obtain ⟨p, hp, rfl⟩ := Option.map_eq_some_iff.mp hss
      have hreg := getElem?_runOf.mp hp
      have hname : (p.report (world n)).name = n := hreg.name_eq
      rw [hname]
      exact ⟨p, hreg, rfl⟩
    · intro hprobed
      obtain ⟨p, hreg, hss⟩ := hprobed
      have hget := getElem?_runOf.mpr hreg
      refine ⟨ss.name, ?_, ?_⟩
      · rw [Std.ExtTreeMap.mem_keys, Std.ExtTreeMap.mem_iff_isSome_getElem?, hget]
        rfl
      · rw [hget, Option.map_some, ← hss]

/-- The worst of some statuses is bad if and only if one of them is. -/
theorem worstOf_bad_iff (statuses : List Status) :
    (worstOf .healthy statuses = .unhealthy ∨ worstOf .healthy statuses = .degraded)
      ↔ ∃ s ∈ statuses, s = .unhealthy ∨ s = .degraded := by
  obtain ⟨hfrom, _, hall⟩ := worstOf_cases .healthy statuses
  constructor
  · intro hbad
    rcases hfrom with heq | hmem
    · rw [heq] at hbad
      simp at hbad
    · exact ⟨_, hmem, hbad⟩
  · intro hall
    obtain ⟨s, hs, hbad⟩ := hall
    have hle := hall s hs
    rw [← rank_ge_two_iff] at hbad ⊢
    omega

/-- **The handlers tell what was registered last**: for every run of calls, every order of
    the map and every state of the subsystems. -/
theorem snapshot_tells (history : List (Action World)) (visit : Visit String)
    (world : String → World) : Tells history world ((runOf history).snapshot visit world) := by
  obtain ⟨checked, heq, hsorted, hlines⟩ := snapshot_eq history visit world
  obtain ⟨hcomplete, hat⟩ := startup_runOf history
  rw [heq]
  constructor
  case sorted => exact hsorted
  case lines => exact hlines
  case overall =>
    obtain ⟨hfrom, _, hall⟩ := worstOf_cases .healthy (checked.map (·.status))
    refine ⟨hfrom.imp_right List.mem_map.mp, ?_⟩
    intro ss hss
    exact hall ss.status (List.mem_map_of_mem hss)
  case ready =>
    simp only [readiness, worstOf_bad_iff, ite_eq_left_iff, Nat.reduceEqDiff, imp_false, not_not]
    constructor
    · intro hfails
      obtain ⟨s, hs, hbad⟩ := hfails
      obtain ⟨ss, hss, rfl⟩ := List.mem_map.mp hs
      obtain ⟨hmem, hrequired⟩ := List.mem_filter.mp hss
      obtain ⟨p, hreg, heq⟩ := (hlines ss).mp hmem
      rw [heq] at hrequired hbad
      exact ⟨ss.name, p, hreg, hrequired, hbad⟩
    · intro hfails
      obtain ⟨name, p, hreg, hrequired, hbad⟩ := hfails
      have hname := hreg.name_eq
      refine ⟨(p.check (world name)).status, List.mem_map.mpr ⟨p.report (world name), ?_, rfl⟩, hbad⟩
      rw [List.mem_filter]
      refine ⟨(hlines _).mpr ⟨p, ?_, ?_⟩, hrequired⟩
      · show Registered history p.name p
        rw [hname]
        exact hreg
      · show p.report (world name) = p.report (world p.name)
        rw [hname]
  case started =>
    unfold startup
    simp only [hcomplete]
    cases hmark : firstMark history with
    | none => rfl
    | some now => simp [hat now hmark]

end Owasaka.Health
