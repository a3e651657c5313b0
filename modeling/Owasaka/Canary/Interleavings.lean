import Mathlib.Algebra.Order.BigOperators.Group.Finset
import Mathlib.Data.Fintype.Basic
import Mathlib.Logic.Function.Basic
import Owasaka.Canary.Trigger

/-! # Concurrent triggers

    `RecordTrigger` reads the event, finds the token and saves it in three transactions
    of their own.  The model has any number of calls for one token, whose steps
    interleave in any order.

    The proof compares counts with the number of calls that have saved.  A call that
    finds the token while another one has found it, and not saved it, leaves a count
    behind for good.  Hence the main result: all triggers are counted if and only if the
    calls find and save the token one after another. -/

namespace Owasaka.Canary

open Events

/-! ## Section 1: Model -/

/-- Where a call of `RecordTrigger` stands. -/
inductive TriggerCall where
  | ready
  | looking (token : String)
  | found (ct : CanaryToken)
  | returned

structure TriggerState (n : Nat) where
  repo : Repository
  calls : Fin n → TriggerCall

inductive TriggerAction (n : Nat) where
  | getEvent (i : Fin n)
  | findCanaryToken (i : Fin n)
  | saveCanaryToken (i : Fin n) (now : Int)

namespace TriggerState

variable {n : Nat}

def setCall (s : TriggerState n) (i : Fin n) (call : TriggerCall) : TriggerState n :=
  { s with calls := Function.update s.calls i call }

def setRepo (s : TriggerState n) (repo : Repository) : TriggerState n := { s with repo := repo }

@[simp] theorem setCall_self (s : TriggerState n) (i : Fin n) (call : TriggerCall) :
    (s.setCall i call).calls i = call := by simp [setCall]

@[simp] theorem setCall_ne (s : TriggerState n) {i j : Fin n} (call : TriggerCall) (hne : j ≠ i) :
    (s.setCall i call).calls j = s.calls j := by simp [setCall, hne]

@[simp] theorem setCall_repo (s : TriggerState n) (i : Fin n) (call : TriggerCall) :
    (s.setCall i call).repo = s.repo := rfl

@[simp] theorem setRepo_calls (s : TriggerState n) (repo : Repository) :
    (s.setRepo repo).calls = s.calls := rfl

@[simp] theorem setRepo_repo (s : TriggerState n) (repo : Repository) :
    (s.setRepo repo).repo = repo := rfl

/-- Where a call stands after a step of call `i`. -/
theorem calls_cases {s : TriggerState n} {i j : Fin n} {call c : TriggerCall}
    (hcall : (s.setCall i call).calls j = c) : (j = i ∧ call = c) ∨ (j ≠ i ∧ s.calls j = c) := by
  by_cases hj : j = i
  · subst hj
    rw [setCall_self] at hcall
    exact .inl ⟨rfl, hcall⟩
  · rw [setCall_ne _ _ hj] at hcall
    exact .inr ⟨hj, hcall⟩

end TriggerState

variable {n : Nat} {alerts : Fin n → NetworkEvent} {s s' s₀ : TriggerState n} {a : TriggerAction n}
  {ct cur : CanaryToken} {i : Fin n}

/-- One step of one call; `none` where the call does not stand there. -/
def triggerStep (alerts : Fin n → NetworkEvent) (s : TriggerState n) :
    TriggerAction n → Option (TriggerState n)
  | .getEvent i =>
    match s.calls i with
    | .ready =>
      match alertToken s.repo (alerts i) with
      | none => some (s.setCall i .returned)
      | some token => some (s.setCall i (.looking token))
    | _ => none
  | .findCanaryToken i =>
    match s.calls i with
    | .looking token =>
      match s.repo.findCanaryTokenByToken token with
      | none => some (s.setCall i .returned)
      | some ct => some (s.setCall i (.found ct))
    | _ => none
  | .saveCanaryToken i now =>
    match s.calls i with
    | .found ct =>
      some ((s.setCall i .returned).setRepo
        (s.repo.saveCanaryToken (ct.triggered now (alerts i).destination)))
    | _ => none

/-- The steps of a call that no other one interrupts are `RecordTrigger`. -/
theorem recordTrigger_of_steps (hready : s.calls i = .ready) (now : Int)
    (halert : alertToken s.repo (alerts i) = some ct.token)
    (hfind : s.repo.findCanaryTokenByToken ct.token = some ct) :
    [.getEvent i, .findCanaryToken i, .saveCanaryToken i now].foldlM (triggerStep alerts) s
      = some ((s.setCall i .returned).setRepo (recordTrigger now (alerts i) s.repo)) := by
  simp [triggerStep, recordTrigger, hready, halert, hfind]
  simp [TriggerState.setCall, TriggerState.setRepo]

/-- No call has started, and all are for alerts of one stored token. -/
structure Start (alerts : Fin n → NetworkEvent) (ct : CanaryToken) (s₀ : TriggerState n) : Prop where
  ready : ∀ i, s₀.calls i = .ready
  alerts : ∀ i, alertToken s₀.repo (alerts i) = some ct.token
  token : s₀.repo.findCanaryTokenByToken ct.token = some ct

def AllReturned (s : TriggerState n) : Prop := ∀ i, s.calls i = .returned

/-- The count of the token has grown by the number of calls, and all but the count, the
    last time and the last source is as it was. -/
def Counted (ct : CanaryToken) (s : TriggerState n) : Prop :=
  ∃ ct', s.repo.findCanaryTokenByToken ct.token = some ct' ∧ SameToken ct ct'
    ∧ ct'.triggerCount.toInt = ct.triggerCount.toInt + n

/-- A call finds the token only when no other one has found it and not saved it. -/
def Serial (s : TriggerState n) : TriggerAction n → Prop
  | .findCanaryToken _ => ∀ j f, s.calls j ≠ .found f
  | _ => True

/-- Every step of the run is serial. -/
def SerialRun (alerts : Fin n → NetworkEvent) : TriggerState n → List (TriggerAction n) → Prop
  | _, [] => True
  | s, a :: as => Serial s a ∧ ∀ s', triggerStep alerts s a = some s' → SerialRun alerts s' as

/-! ## Section 2: What a step can do -/

def TriggerCall.saved : TriggerCall → Nat
  | .returned => 1
  | _ => 0

/-- The number of calls that have saved. -/
def saves (s : TriggerState n) : Nat := ∑ i, (s.calls i).saved

theorem saves_setCall (s : TriggerState n) (i : Fin n) (call : TriggerCall) :
    saves (s.setCall i call) + (s.calls i).saved = saves s + call.saved := by
  have hold := Finset.add_sum_erase Finset.univ (fun j => (s.calls j).saved) (Finset.mem_univ i)
  have hnew := Finset.add_sum_erase Finset.univ (fun j => ((s.setCall i call).calls j).saved)
    (Finset.mem_univ i)
  have hrest : ∑ j ∈ Finset.univ.erase i, ((s.setCall i call).calls j).saved
      = ∑ j ∈ Finset.univ.erase i, (s.calls j).saved := by
    refine Finset.sum_congr rfl fun j hj => ?_
    rw [TriggerState.setCall_ne _ _ (Finset.ne_of_mem_erase hj)]
  simp only [TriggerState.setCall_self, hrest] at hnew
  unfold saves
  omega

theorem saves_le (s : TriggerState n) : saves s ≤ n := by
  have hle : ∀ j ∈ Finset.univ, (s.calls j).saved ≤ 1 := by
    intro j _
    cases s.calls j <;> simp [TriggerCall.saved]
  calc saves s ≤ ∑ _ : Fin n, 1 := Finset.sum_le_sum hle
    _ = n := by simp

theorem saves_of_allReturned (hall : AllReturned s) : saves s = n := by
  simp [saves, hall _, TriggerCall.saved]

/-- The moves that the calls make. -/
inductive Move (alerts : Fin n → NetworkEvent) (ct : CanaryToken) (s : TriggerState n) :
    TriggerAction n → TriggerState n → Prop where
  | read {i : Fin n} : s.calls i = .ready →
      Move alerts ct s (.getEvent i) (s.setCall i (.looking ct.token))
  | find {i : Fin n} {cur : CanaryToken} : s.calls i = .looking ct.token →
      s.repo.findCanaryTokenByToken ct.token = some cur →
      Move alerts ct s (.findCanaryToken i) (s.setCall i (.found cur))
  | save {i : Fin n} {now : Int} {f : CanaryToken} : s.calls i = .found f →
      Move alerts ct s (.saveCanaryToken i now)
        ((s.setCall i .returned).setRepo
          (s.repo.saveCanaryToken (f.triggered now (alerts i).destination)))

/-- The count that would not have lost a trigger. -/
def due (ct : CanaryToken) (s : TriggerState n) : Int := ct.triggerCount.toInt + saves s

/-- What every run keeps: no count is ahead of the saves. -/
structure Kept (alerts : Fin n → NetworkEvent) (ct : CanaryToken) (s : TriggerState n) : Prop where
  alerts : ∀ i, alertToken s.repo (alerts i) = some ct.token
  looking : ∀ i token, s.calls i = .looking token → token = ct.token
  token : ∃ cur, s.repo.findCanaryTokenByToken ct.token = some cur ∧ SameToken ct cur
    ∧ cur.triggerCount.toInt ≤ due ct s
  found : ∀ i f, s.calls i = .found f → SameToken ct f ∧ f.triggerCount.toInt ≤ due ct s

/-- **Inversion**: every step is a move. -/
theorem Kept.move_of_step (hkept : Kept alerts ct s) (hstep : triggerStep alerts s a = some s') :
    Move alerts ct s a s' := by
  cases a with
  | getEvent i =>
    cases hcall : s.calls i with
    | ready =>
      simp only [triggerStep, hcall, hkept.alerts i, Option.some.injEq] at hstep
      exact hstep ▸ .read hcall
    | _ => simp [triggerStep, hcall] at hstep
  | findCanaryToken i =>
    cases hcall : s.calls i with
    | looking token =>
      obtain rfl := hkept.looking i token hcall
      obtain ⟨cur, hfind, _⟩ := hkept.token
      simp only [triggerStep, hcall, hfind, Option.some.injEq] at hstep
      exact hstep ▸ .find hcall hfind
    | _ => simp [triggerStep, hcall] at hstep
  | saveCanaryToken i now =>
    cases hcall : s.calls i with
    | found f =>
      simp only [triggerStep, hcall, Option.some.injEq] at hstep
      exact hstep ▸ .save hcall
    | _ => simp [triggerStep, hcall] at hstep

/-- A step that saves nothing leaves what is due. -/
theorem due_keep {call : TriggerCall} (hnow : (s.calls i).saved = 0) (hcall : call.saved = 0) :
    due ct (s.setCall i call) = due ct s := by
  have hsaves := saves_setCall s i call
  unfold due
  omega

theorem due_save {f : CanaryToken} (hfound : s.calls i = .found f) :
    due ct (s.setCall i .returned) = due ct s + 1 := by
  have hsaves := saves_setCall s i .returned
  rw [hfound] at hsaves
  simp only [TriggerCall.saved] at hsaves
  unfold due
  omega

/-- A call that has found the token has not saved, so the count due is below the whole. -/
theorem due_lt {f : CanaryToken} (hfound : s.calls i = .found f) :
    due ct s < ct.triggerCount.toInt + n := by
  have hsaves := saves_setCall s i .returned
  have hle := saves_le (s.setCall i .returned)
  rw [hfound] at hsaves
  simp only [TriggerCall.saved] at hsaves
  unfold due
  omega

section Fits

variable (hfits : ct.triggerCount.toInt + n < 2 ^ 63)

include hfits

/-- The count of a saved token does not wrap around. -/
theorem triggered_count {f : CanaryToken} (hfound : s.calls i = .found f)
    (hle : f.triggerCount.toInt ≤ due ct s) (now : Int) (source : String) :
    (f.triggered now source).triggerCount.toInt = f.triggerCount.toInt + 1 := by
  have hlt := @due_lt n s ct i f hfound
  have hlow := Int64.le_toInt f.triggerCount
  show (f.triggerCount + 1).toInt = _
  rw [Int64.toInt_add, Int64.toInt_one]
  exact Int.bmod_eq_of_le (by omega) (by omega)

theorem Kept.move (hkept : Kept alerts ct s) (hmove : Move alerts ct s a s') : Kept alerts ct s' := by
  obtain ⟨cur, hfind, hsame, hcur⟩ := hkept.token
  cases hmove with
  -- the snapshot taken is the repository token, and nothing more is due
  | @read i hready =>
    have hdue : due ct (s.setCall i (.looking ct.token)) = due ct s := due_keep (by rw [hready]; rfl) rfl
    refine ⟨hkept.alerts, ?_, ⟨cur, hfind, hsame, hdue ▸ hcur⟩, ?_⟩
    · intro j token hlooking
      rcases TriggerState.calls_cases hlooking with ⟨_, hnow⟩ | ⟨_, hbefore⟩
      · cases hnow
        rfl
      · exact hkept.looking j token hbefore
    · intro j f hf
      rcases TriggerState.calls_cases hf with ⟨_, hnow⟩ | ⟨_, hbefore⟩
      · contradiction
      · exact hdue ▸ hkept.found j f hbefore
  -- what this call found is the stored token, whose count is bounded
  | @find i cur' hlooking hfind' =>
    have hdue : due ct (s.setCall i (.found cur')) = due ct s := due_keep (by rw [hlooking]; rfl) rfl
    refine ⟨hkept.alerts, ?_, ⟨cur, hfind, hsame, hdue ▸ hcur⟩, ?_⟩
    · intro j token hl
      rcases TriggerState.calls_cases hl with ⟨_, hnow⟩ | ⟨_, hbefore⟩
      · contradiction
      · exact hkept.looking j token hbefore
    · intro j f hf
      rw [hdue]
      rcases TriggerState.calls_cases hf with ⟨_, hnow⟩ | ⟨_, hbefore⟩
      · cases hnow
        rw [hfind] at hfind'
        cases hfind'
        exact ⟨hsame, hcur⟩
      · exact hkept.found j f hbefore
  -- one more call is counted on both sides
  | @save i now f hfound =>
    have hdue : due ct (s.setCall i .returned) = due ct s + 1 := due_save hfound
    obtain ⟨hf, hle⟩ := hkept.found i f hfound
    have hcount := triggered_count hfits hfound hle now (alerts i).destination
    refine ⟨hkept.alerts, ?_, ⟨f.triggered now (alerts i).destination, ?_, hf.triggered _ _, ?_⟩, ?_⟩
    · intro j token hlooking
      rcases TriggerState.calls_cases hlooking with ⟨_, hnow⟩ | ⟨_, hbefore⟩
      · contradiction
      · exact hkept.looking j token hbefore
    · exact Repository.find_save hfind (hsame.replace (hf.triggered _ _))
    · show _ ≤ due ct (s.setCall i .returned)
      omega
    · intro j g hg
      show _ ∧ _ ≤ due ct (s.setCall i .returned)
      rcases TriggerState.calls_cases hg with ⟨_, hnow⟩ | ⟨_, hbefore⟩
      · contradiction
      · obtain ⟨hg, hle'⟩ := hkept.found j g hbefore
        exact ⟨hg, by omega⟩

/-- No trigger is lost so far. -/
structure Exact (ct : CanaryToken) (s : TriggerState n) : Prop where
  token : ∀ cur, s.repo.findCanaryTokenByToken ct.token = some cur → cur.triggerCount.toInt = due ct s
  found : ∀ i f, s.calls i = .found f → f.triggerCount.toInt = due ct s
  one : ∀ i j f g, s.calls i = .found f → s.calls j = .found g → i = j

/-- A trigger is lost, or will be: two calls have found the token, or one has found a count
    behind, or no count is up to date. -/
def Lost (ct : CanaryToken) (s : TriggerState n) : Prop :=
  (∃ i j f g, i ≠ j ∧ s.calls i = .found f ∧ s.calls j = .found g)
    ∨ (∃ i f, s.calls i = .found f ∧ f.triggerCount.toInt < due ct s)
    ∨ ((∀ cur, s.repo.findCanaryTokenByToken ct.token = some cur → cur.triggerCount.toInt < due ct s)
      ∧ ∀ i f, s.calls i = .found f → f.triggerCount.toInt < due ct s)

omit hfits in
/-- What is found after a save is what was saved. -/
theorem Kept.find_save (hkept : Kept alerts ct s) {f : CanaryToken} (hfound : s.calls i = .found f)
    (now : Int) : (s.repo.saveCanaryToken
      (f.triggered now (alerts i).destination)).findCanaryTokenByToken ct.token
        = some (f.triggered now (alerts i).destination) := by
  obtain ⟨cur, hfind, hsame, _⟩ := hkept.token
  exact Repository.find_save hfind (hsame.replace ((hkept.found i f hfound).1.triggered _ _))

theorem Exact.move (hkept : Kept alerts ct s) (hexact : Exact ct s) (hserial : Serial s a)
    (hmove : Move alerts ct s a s') : Exact ct s' := by
  cases hmove with
  | @read i hready =>
    have hdue : due ct (s.setCall i (.looking ct.token)) = due ct s := due_keep (by rw [hready]; rfl) rfl
    have hback : ∀ j f, (s.setCall i (.looking ct.token)).calls j = .found f → s.calls j = .found f := by
      intro j f hf
      rcases TriggerState.calls_cases hf with ⟨_, hnow⟩ | ⟨_, hbefore⟩
      · contradiction
      · exact hbefore
    refine ⟨hdue ▸ hexact.token, fun j f hf => hdue ▸ hexact.found j f (hback j f hf), ?_⟩
    exact fun j k f g hf hg => hexact.one j k f g (hback j f hf) (hback k g hg)
  | @find i cur hlooking hfind =>
    have hdue : due ct (s.setCall i (.found cur)) = due ct s := due_keep (by rw [hlooking]; rfl) rfl
    -- no other call has found the token
    have hback : ∀ j f, (s.setCall i (.found cur)).calls j = .found f → j = i ∧ f = cur := by
      intro j f hf
      rcases TriggerState.calls_cases hf with ⟨rfl, hnow⟩ | ⟨_, hbefore⟩
      · cases hnow
        exact ⟨rfl, rfl⟩
      · exact absurd hbefore (hserial j f)
    refine ⟨hdue ▸ hexact.token, ?_, ?_⟩
    · intro j f hf
      obtain ⟨_, rfl⟩ := hback j f hf
      exact hdue ▸ hexact.token f hfind
    · intro j k f g hf hg
      rw [(hback j f hf).1, (hback k g hg).1]
  | @save i now f hfound =>
    have hdue : due ct (s.setCall i .returned) = due ct s + 1 := due_save hfound
    have hcount := triggered_count hfits hfound (hkept.found i f hfound).2 now (alerts i).destination
    have hnone : ∀ j g, (s.setCall i .returned).calls j ≠ .found g := by
      intro j g hg
      rcases TriggerState.calls_cases hg with ⟨_, hnow⟩ | ⟨hne, hbefore⟩
      · contradiction
      · exact hne (hexact.one j i g f hbefore hfound)
    refine ⟨?_, fun j g hg => absurd hg (hnone j g), fun j _ g _ hg => absurd hg (hnone j g)⟩
    intro cur hcur
    obtain rfl := Option.some.inj ((hkept.find_save hfound now).symm.trans hcur)
    show _ = due ct (s.setCall i .returned)
    rw [hcount, hdue, hexact.found i f hfound]

omit hfits in
/-- A step of a call that has not found the token leaves the others where they are. -/
theorem Lost.setCall (hlost : Lost ct s) {i : Fin n} {call : TriggerCall}
    (hnot : ∀ f, s.calls i ≠ .found f) (hnow : (s.calls i).saved = 0) (hcall : call.saved = 0)
    (hcur : ∀ f, call = .found f → s.repo.findCanaryTokenByToken ct.token = some f) :
    Lost ct (s.setCall i call) := by
  have hdue : due ct (s.setCall i call) = due ct s := due_keep hnow hcall
  have hstay : ∀ {j f}, s.calls j = .found f → (s.setCall i call).calls j = .found f := by
    intro j f hf
    have hne : j ≠ i := by
      intro heq
      exact hnot f (heq ▸ hf)
    rw [TriggerState.setCall_ne _ _ hne]
    exact hf
  rcases hlost with ⟨j, k, f, g, hne, hf, hg⟩ | ⟨j, f, hf, hlt⟩ | ⟨htoken, hall⟩
  · exact .inl ⟨j, k, f, g, hne, hstay hf, hstay hg⟩
  · exact .inr (.inl ⟨j, f, hstay hf, hdue ▸ hlt⟩)
  · refine .inr (.inr ⟨hdue ▸ htoken, ?_⟩)
    intro j f hf
    rw [hdue]
    rcases TriggerState.calls_cases hf with ⟨_, hnew⟩ | ⟨_, hbefore⟩
    · exact htoken f (hcur f hnew)
    · exact hall j f hbefore

theorem Lost.move (hkept : Kept alerts ct s) (hlost : Lost ct s) (hmove : Move alerts ct s a s') :
    Lost ct s' := by
  cases hmove with
  | @read i hready =>
    exact hlost.setCall (by simp [hready]) (by rw [hready]; rfl) rfl (by simp)
  | @find i cur hlooking hfind =>
    refine hlost.setCall (by simp [hlooking]) (by rw [hlooking]; rfl) rfl ?_
    intro f hf
    cases hf
    exact hfind
  | @save i now f hfound =>
    have hdue : due ct (s.setCall i .returned) = due ct s + 1 := due_save hfound
    have hcount := triggered_count hfits hfound (hkept.found i f hfound).2 now (alerts i).destination
    -- another call that has found the token is now behind
    have hstale : ∀ {j g}, j ≠ i → s.calls j = .found g →
        Lost ct ((s.setCall i .returned).setRepo
          (s.repo.saveCanaryToken (f.triggered now (alerts i).destination))) := by
      intro j g hne hg
      have hle := (hkept.found j g hg).2
      refine .inr (.inl ⟨j, g, ?_, ?_⟩)
      · rw [TriggerState.setRepo_calls, TriggerState.setCall_ne _ _ hne]
        exact hg
      · show _ < due ct (s.setCall i .returned)
        omega
    -- a count that is behind is saved, and all others stay behind
    have hbehind : f.triggerCount.toInt < due ct s →
        Lost ct ((s.setCall i .returned).setRepo
          (s.repo.saveCanaryToken (f.triggered now (alerts i).destination))) := by
      intro hlt
      refine .inr (.inr ⟨?_, ?_⟩)
      · intro cur hcur
        obtain rfl := Option.some.inj ((hkept.find_save hfound now).symm.trans hcur)
        show _ < due ct (s.setCall i .returned)
        omega
      · intro j g hg
        show _ < due ct (s.setCall i .returned)
        rcases TriggerState.calls_cases hg with ⟨_, hnow⟩ | ⟨_, hbefore⟩
        · contradiction
        · have hle := (hkept.found j g hbefore).2
          omega
    rcases hlost with ⟨j, k, g, g', hne, hg, hg'⟩ | ⟨j, g, hg, hlt⟩ | ⟨_, hall⟩
    · by_cases hj : j = i
      · exact hstale (fun hk => hne (hj.trans hk.symm)) hg'
      · exact hstale hj hg
    · by_cases hj : j = i
      · subst hj
        rw [hfound] at hg
        cases hg
        exact hbehind hlt
      · exact hstale hj hg
    · exact hbehind (hall i f hfound)

omit hfits in
theorem lost_of_not_serial (hserial : ¬ Serial s a) (hmove : Move alerts ct s a s') : Lost ct s' := by
  cases hmove with
  | read _ => exact absurd trivial hserial
  | @find i cur hlooking _ =>
    simp only [Serial, not_forall, not_not] at hserial
    obtain ⟨j, f, hf⟩ := hserial
    have hne : j ≠ i := by
      intro heq
      rw [heq, hlooking] at hf
      contradiction
    refine .inl ⟨i, j, cur, f, hne.symm, TriggerState.setCall_self _ _ _, ?_⟩
    rw [TriggerState.setCall_ne _ _ hne]
    exact hf
  | save _ => exact absurd trivial hserial

/-! ## Section 3: Runs -/

theorem run_lost {as : List (TriggerAction n)} (hkept : Kept alerts ct s) (hlost : Lost ct s)
    (hrun : as.foldlM (triggerStep alerts) s = some s') : Lost ct s' := by
  induction as generalizing s with
  | nil =>
    cases hrun
    exact hlost
  | cons a as ih =>
    simp only [List.foldlM_cons, Option.bind_eq_bind, Option.bind_eq_some_iff] at hrun
    obtain ⟨t, hstep, hrest⟩ := hrun
    have hmove := hkept.move_of_step hstep
    exact ih (hkept.move hfits hmove) (hlost.move hfits hkept hmove) hrest

/-- **Run lemma**: a serial run loses nothing, and any other one does. -/
theorem run_kept {as : List (TriggerAction n)} (hkept : Kept alerts ct s) (hexact : Exact ct s)
    (hrun : as.foldlM (triggerStep alerts) s = some s') :
    (SerialRun alerts s as ∧ Kept alerts ct s' ∧ Exact ct s')
      ∨ (¬ SerialRun alerts s as ∧ Lost ct s') := by
  induction as generalizing s with
  | nil =>
    cases hrun
    exact .inl ⟨trivial, hkept, hexact⟩
  | cons a as ih =>
    simp only [List.foldlM_cons, Option.bind_eq_bind, Option.bind_eq_some_iff] at hrun
    obtain ⟨t, hstep, hrest⟩ := hrun
    have hmove := hkept.move_of_step hstep
    have hkept' := hkept.move hfits hmove
    have hiff : SerialRun alerts s (a :: as) ↔ Serial s a ∧ SerialRun alerts t as := by
      simp [SerialRun, hstep]
    rw [hiff]
    by_cases hserial : Serial s a
    · rcases ih hkept' (hexact.move hfits hkept hserial hmove) hrest with ⟨hrun', hend⟩ | ⟨hnot, hlost⟩
      · exact .inl ⟨⟨hserial, hrun'⟩, hend⟩
      · exact .inr ⟨fun hboth => hnot hboth.2, hlost⟩
    · exact .inr ⟨fun hboth => hserial hboth.1, run_lost hfits hkept' (lost_of_not_serial hserial hmove) hrest⟩

end Fits

theorem Start.kept (hstart : Start alerts ct s₀) : Kept alerts ct s₀ ∧ Exact ct s₀ := by
  have hnone : saves s₀ = 0 := by simp [saves, hstart.ready, TriggerCall.saved]
  have hdue : due ct s₀ = ct.triggerCount.toInt := by simp [due, hnone]
  refine ⟨⟨hstart.alerts, ?_, ⟨ct, hstart.token, SameToken.refl ct, by rw [hdue]⟩, ?_⟩, ⟨?_, ?_, ?_⟩⟩
  · intro i token hlooking
    simp [hstart.ready i] at hlooking
  · intro i f hf
    simp [hstart.ready i] at hf
  · intro cur hcur
    obtain rfl := Option.some.inj (hstart.token.symm.trans hcur)
    exact hdue.symm
  · intro i f hf
    simp [hstart.ready i] at hf
  · intro i j f g hf _
    simp [hstart.ready i] at hf

/-- Once all calls have returned, every trigger is counted if and only if no call found
    the token while another one had found it and not saved it, and the count fits. -/
theorem counted_iff_serialRun {as : List (TriggerAction n)} (hstart : Start alerts ct s₀)
    (hrun : as.foldlM (triggerStep alerts) s₀ = some s) (hall : AllReturned s) :
    Counted ct s ↔ ct.triggerCount.toInt + n < 2 ^ 63 ∧ SerialRun alerts s₀ as := by
  obtain ⟨hkept, hexact⟩ := hstart.kept
  have hdue : due ct s = ct.triggerCount.toInt + n := by rw [due, saves_of_allReturned hall]
  constructor
  · rintro ⟨ct', hfind, _, hcount⟩
    have hfits : ct.triggerCount.toInt + n < 2 ^ 63 := hcount ▸ ct'.triggerCount.toInt_lt
    refine ⟨hfits, ?_⟩
    rcases run_kept hfits hkept hexact hrun with ⟨hserial, _⟩ | ⟨_, hlost⟩
    · exact hserial
    · rcases hlost with ⟨i, _, f, _, _, hf, _⟩ | ⟨i, f, hf, _⟩ | ⟨htoken, _⟩
      · simp [hall i] at hf
      · simp [hall i] at hf
      · have hlt := htoken ct' hfind
        omega
  · rintro ⟨hfits, hserial⟩
    rcases run_kept hfits hkept hexact hrun with ⟨_, hkept', hexact'⟩ | ⟨hnot, _⟩
    · obtain ⟨ct', hfind, hsame, _⟩ := hkept'.token
      exact ⟨ct', hfind, hsame, by rw [hexact'.token ct' hfind, hdue]⟩
    · exact absurd hserial hnot

/-! ## Section 4: Two calls for one token -/

def dnsEvent : NetworkEvent :=
  ⟨"event-1", .dns, "10.0.0.7:5353", "SIEM_DNS",
    (∅ : Json.Map).insert "name" (.str "a1b2c3d4.canary.internal.example."), 0, [], ""⟩

def dnsAlert : NetworkEvent :=
  ⟨"alert-1", .alert, "CorrelationEngine", "10.0.0.7:5353",
    ((∅ : Json.Map).insert "rule" (.str "DNS_CANARY_TRIGGERED")).insert "trigger_id" (.str "event-1"),
    0, [], ""⟩

def decoy : CanaryToken :=
  ⟨"token-1", "a1b2c3d4", ⟨"DNS"⟩, "finance share", "a1b2c3d4.canary.internal.example", "", 0, none, 0, ""⟩

/-- Two alerts for one token, none of them recorded yet. -/
def twoAlerts : TriggerState 2 :=
  ⟨⟨(∅ : Std.ExtTreeMap String NetworkEvent).insert "event-1" dnsEvent, TokenBucket.empty.put decoy⟩,
    fun _ => .ready⟩

/-- Both calls find the token before either of them saves it. -/
def race : List (TriggerAction 2) :=
  [.getEvent 0, .getEvent 1, .findCanaryToken 0, .findCanaryToken 1, .saveCanaryToken 0 1,
    .saveCanaryToken 1 2]

def afterRace : TriggerState 2 := (race.foldlM (triggerStep fun _ => dnsAlert) twoAlerts).getD twoAlerts

theorem start_twoAlerts : Start (fun _ => dnsAlert) decoy twoAlerts where
  ready := fun _ => rfl
  alerts := fun _ => by decide +kernel
  token := by decide +kernel

theorem race_run : race.foldlM (triggerStep fun _ => dnsAlert) twoAlerts = some afterRace := rfl

theorem allReturned_afterRace : AllReturned afterRace := by
  intro i
  match i with
  | 0 => rfl
  | 1 => rfl

theorem counted_iff_serialRun_race :
    Counted decoy afterRace
      ↔ decoy.triggerCount.toInt + (2 : Nat) < 2 ^ 63 ∧ SerialRun (fun _ => dnsAlert) twoAlerts race :=
  counted_iff_serialRun start_twoAlerts race_run allReturned_afterRace

/-- Both calls have returned, and the token counts one trigger. -/
theorem trigger_lost :
    Start (fun _ => dnsAlert) decoy twoAlerts
      ∧ race.foldlM (triggerStep fun _ => dnsAlert) twoAlerts = some afterRace
      ∧ AllReturned afterRace
      ∧ (afterRace.repo.findCanaryTokenByToken decoy.token).map CanaryToken.triggerCount = some 1
      ∧ ¬ Counted decoy afterRace := by
  have hone : (afterRace.repo.findCanaryTokenByToken decoy.token).map CanaryToken.triggerCount
      = some 1 := by decide +kernel
  refine ⟨start_twoAlerts, race_run, allReturned_afterRace, hone, ?_⟩
  rintro ⟨ct', hfind, _, hcount⟩
  rw [hfind] at hone
  rw [Option.some.inj hone] at hcount
  exact absurd hcount (by decide)

end Owasaka.Canary
