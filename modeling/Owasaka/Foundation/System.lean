import Mathlib.Data.List.Induction
import Mathlib.Logic.Relation

/-! # Labelled transition systems

    This file defines:
    - `System`: initial states and labelled steps
    - `Steps`, `Reachable`: finite runs and the states they reach
    - `restrict`: the runs whose steps all meet a condition on the state
      before the step and the label
    - `ofStep`: the system of a step function
    - `MeetsAll`: the labels of a run of a total step function meet a condition
    and the rules by which facts about one step become facts about runs:
    `Reachable.invariant` and `Steps.preserve`, and `prefixes_always_iff` and
    `foldl_always_iff` for the runs of a total step function. -/

universe u v

structure System (State : Type u) (Label : Type v) where
  init : State → Prop
  step : State → Label → State → Prop

namespace System

variable {State : Type u} {Label : Type v} {sys : System State Label}

/-- Some step leads from one state to the other. -/
def Next (sys : System State Label) (s s' : State) : Prop := ∃ l, sys.step s l s'

/-- A finite run leads from one state to the other. -/
def Steps (sys : System State Label) : State → State → Prop := Relation.ReflTransGen sys.Next

def Reachable (sys : System State Label) (s : State) : Prop := ∃ s₀, sys.init s₀ ∧ sys.Steps s₀ s

/-- The system whose steps are those that meet `good`. -/
def restrict (sys : System State Label) (good : State → Label → Prop) : System State Label where
  init := sys.init
  step := fun s l s' => good s l ∧ sys.step s l s'

/-- The system of a step function, which is `none` where the label cannot happen. -/
def ofStep (init : State → Prop) (step : State → Label → Option State) : System State Label where
  init := init
  step := fun s l s' => step s l = some s'

theorem Steps.refl (s : State) : sys.Steps s s := Relation.ReflTransGen.refl

theorem Steps.tail {s t u : State} {l : Label} (hrun : sys.Steps s t) (hstep : sys.step t l u) :
    sys.Steps s u := Relation.ReflTransGen.tail hrun ⟨l, hstep⟩

theorem Reachable.init {s : State} (hinit : sys.init s) : sys.Reachable s :=
  ⟨s, hinit, Steps.refl s⟩

theorem Reachable.tail {s t : State} {l : Label} (hreach : sys.Reachable s)
    (hstep : sys.step s l t) : sys.Reachable t := by
  obtain ⟨s₀, hinit, hrun⟩ := hreach
  exact ⟨s₀, hinit, hrun.tail hstep⟩

/-- A condition that every step meets restricts nothing. -/
theorem Steps.restrict {good : State → Label → Prop} (hgood : ∀ s l, good s l) {s t : State}
    (hrun : sys.Steps s t) : (sys.restrict good).Steps s t := by
  induction hrun with
  | refl => exact Steps.refl s
  | tail _ hnext ih =>
    obtain ⟨l, hl⟩ := hnext
    exact ih.tail ⟨hgood _ l, hl⟩

/-- A run whose steps meet a condition meets a weaker one. -/
theorem Reachable.weaken {good good' : State → Label → Prop}
    (hweak : ∀ s l, good s l → good' s l) {s : State}
    (hreach : (sys.restrict good).Reachable s) : (sys.restrict good').Reachable s := by
  obtain ⟨s₀, hinit, hrun⟩ := hreach
  refine ⟨s₀, hinit, ?_⟩
  induction hrun with
  | refl => exact Steps.refl s₀
  | tail _ hnext ih =>
    obtain ⟨l, hgood, hl⟩ := hnext
    exact ih.tail ⟨hweak _ l hgood, hl⟩

/-- What a restricted run reaches can be reached. -/
theorem Reachable.of_restrict {good : State → Label → Prop} {s : State}
    (hreach : (sys.restrict good).Reachable s) : sys.Reachable s := by
  obtain ⟨s₀, hinit, hrun⟩ := hreach
  refine ⟨s₀, hinit, ?_⟩
  induction hrun with
  | refl => exact Steps.refl s₀
  | tail _ hnext ih =>
    obtain ⟨l, _, hl⟩ := hnext
    exact ih.tail hl

/-- A step function run over a list of labels is a run of its system. -/
theorem Steps.of_foldlM {init : State → Prop} {step : State → Label → Option State}
    {ls : List Label} {s s' : State} (hrun : ls.foldlM step s = some s') :
    (ofStep init step).Steps s s' := by
  induction ls generalizing s with
  | nil =>
    simp only [List.foldlM_nil, Option.pure_def, Option.some.injEq] at hrun
    exact hrun ▸ Steps.refl s
  | cons l ls ih =>
    simp only [List.foldlM_cons, Option.bind_eq_bind, Option.bind_eq_some_iff] at hrun
    obtain ⟨t, hstep, hrest⟩ := hrun
    exact Relation.ReflTransGen.head ⟨l, hstep⟩ (ih hrest)

/-- The first step of a run over a list of labels. -/
theorem foldlM_cons_of_step {step : State → Label → Option State} {l : Label} {ls : List Label}
    {s s' : State} (hstep : step s l = some s') : (l :: ls).foldlM step s = ls.foldlM step s' := by
  rw [List.foldlM_cons, hstep]
  rfl

/-- Each label of a run of a total step function meets the condition where it is taken. -/
def MeetsAll (good : State → Label → Prop) (step : State → Label → State) : State → List Label → Prop
  | _, [] => True
  | s, l :: ls => good s l ∧ MeetsAll good step (step s l) ls

instance MeetsAll.decidable {good : State → Label → Prop} [∀ s l, Decidable (good s l)]
    (step : State → Label → State) : ∀ s ls, Decidable (MeetsAll good step s ls)
  | _, [] => inferInstanceAs (Decidable True)
  | s, l :: ls =>
    have : Decidable (MeetsAll good step (step s l) ls) := MeetsAll.decidable step (step s l) ls
    inferInstanceAs (Decidable (good s l ∧ MeetsAll good step (step s l) ls))

/-- A total step function run over such labels is a run of the restricted system. -/
theorem Reachable.of_foldl {good : State → Label → Prop} {step : State → Label → State}
    (hstep : ∀ s l, sys.step s l (step s l)) {s : State} {ls : List Label}
    (hreach : (sys.restrict good).Reachable s) (hgood : MeetsAll good step s ls) :
    (sys.restrict good).Reachable (ls.foldl step s) := by
  induction ls generalizing s with
  | nil => exact hreach
  | cons l ls ih =>
    obtain ⟨hl, hrest⟩ := hgood
    exact ih (hreach.tail (l := l) ⟨hl, hstep s l⟩) hrest

/-- What holds at the start of a run and is kept by every step holds at its end. -/
theorem Steps.invariant {P : State → Prop} (hstep : ∀ s l s', P s → sys.step s l s' → P s')
    {s t : State} (hs : P s) (hrun : sys.Steps s t) : P t := by
  induction hrun with
  | refl => exact hs
  | tail _ hnext ih =>
    obtain ⟨l, hl⟩ := hnext
    exact hstep _ l _ ih hl

/-- **Invariant rule**: what holds initially and is kept by every step holds in
    every reachable state. -/
theorem Reachable.invariant {P : State → Prop} (hinit : ∀ s, sys.init s → P s)
    (hstep : ∀ s l s', P s → sys.step s l s' → P s') {s : State}
    (hreach : sys.Reachable s) : P s := by
  obtain ⟨s₀, hs₀, hrun⟩ := hreach
  exact hrun.invariant hstep (hinit s₀ hs₀)

/-- **Monotonicity rule**: a preorder between the states around each step holds
    between the ends of each run, given an invariant along the way. -/
theorem Steps.preserve {P : State → Prop} {R : State → State → Prop}
    (hkeep : ∀ s l s', P s → sys.step s l s' → P s')
    (hrefl : ∀ s, R s s) (htrans : ∀ s t u, R s t → R t u → R s u)
    (hstep : ∀ s l s', P s → sys.step s l s' → R s s') {s t : State}
    (hs : P s) (hrun : sys.Steps s t) : R s t := by
  suffices hboth : P t ∧ R s t from hboth.2
  induction hrun with
  | refl => exact ⟨hs, hrefl s⟩
  | tail _ hnext ih =>
    obtain ⟨l, hl⟩ := hnext
    exact ⟨hkeep _ l _ ih.1 hl, htrans _ _ _ ih.2 (hstep _ l _ ih.1 hl)⟩

end System

/-! ## Runs of a total step function -/

/-- **Blame rule** over histories: where a good history stays good with one more label
    exactly when the label meets a condition there, all prefixes of a history are good
    exactly when every label meets the condition where it stands. -/
theorem prefixes_always_iff {Label : Type v} {Q : List Label → Prop}
    {good : List Label → Label → Prop} (hnil : Q [])
    (hstep : ∀ done l, Q done → (Q (done ++ [l]) ↔ good done l)) (ls : List Label) :
    (∀ done, done <+: ls → Q done) ↔ ∀ done l, done ++ [l] <+: ls → good done l := by
  constructor
  · intro hgood done l hprefix
    have hbefore := hgood done ((List.prefix_append done [l]).trans hprefix)
    exact (hstep done l hbefore).mp (hgood (done ++ [l]) hprefix)
  · intro hgood done
    induction done using List.reverseRecOn with
    | nil =>
      intro _
      exact hnil
    | append_singleton done l ih =>
      intro hprefix
      have hbefore := ih ((List.prefix_append done [l]).trans hprefix)
      exact (hstep done l hbefore).mpr (hgood done l hprefix)

/-- **Blame rule**: where each step from a good state leads to a good state exactly
    when it meets a condition, a run stays good exactly when all of its steps meet
    the condition.  `I` is an invariant that every step keeps. -/
theorem foldl_always_iff {State : Type u} {Label : Type v} {step : State → Label → State}
    {I Q : State → Prop} {good : State → Label → Prop} (hkeep : ∀ s l, I s → I (step s l))
    (hstep : ∀ s l, I s → Q s → (Q (step s l) ↔ good s l)) {s : State} (hI : I s) (hQ : Q s)
    (ls : List Label) :
    (∀ done, done <+: ls → Q (done.foldl step s)) ↔
      ∀ done l, done ++ [l] <+: ls → good (done.foldl step s) l := by
  have hinv : ∀ done : List Label, I (done.foldl step s) := by
    intro done
    induction done using List.reverseRecOn with
    | nil => exact hI
    | append_singleton done l ih =>
      rw [List.foldl_append, List.foldl_cons, List.foldl_nil]
      exact hkeep _ l ih
  apply prefixes_always_iff (Q := fun done => Q (done.foldl step s)) hQ
  intro done l hbefore
  rw [List.foldl_append, List.foldl_cons, List.foldl_nil]
  exact hstep _ l (hinv done) hbefore
