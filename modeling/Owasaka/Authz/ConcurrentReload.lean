import Mathlib.Logic.Function.Basic
import Mathlib.Data.Set.Basic
import Owasaka.Authz.Reload

/-! # Concurrent reloads

    `ReloadBytes` loads a document, reads the current policy, and then replaces
    it; the last two are atomic each, but not together.  The SIGHUP watcher and the
    admin endpoint may call it at the same time, so the model has any number of
    calls, and their steps interleave in any order.

    The diff of a call is computed from the policy that it read.  If another call
    replaces the policy in between, that is not the policy that it replaces.  The
    main result: in runs where this does not happen, the diffs in the order of
    the replacements account for every change of the roles. -/

namespace Owasaka.Authz

/-! ## Section 1: Model -/

/-- Where a call of `ReloadBytes` stands. -/
inductive ReloadCall where
  | ready
  | rejected (e : PolicyError)
  | loaded (next : Policy)
  | read (next : Policy) (prev : Option Policy)
  | returned (diff : Diff)

/-- A replacement of the policy, with the diff that its call returns. -/
structure Replacement where
  call : Nat
  installed : Policy
  diff : Diff

structure ReloadState where
  current : Option Policy
  calls : Nat → ReloadCall
  /-- The replacements so far, the first one first. -/
  history : List Replacement

inductive ReloadAction where
  | load (i : Nat) (data : Bytes) (orders : LoadOrders)
  | policy (i : Nat)
  | replace (i : Nat)

def setCall (s : ReloadState) (i : Nat) (call : ReloadCall) : ReloadState :=
  { s with calls := Function.update s.calls i call }

@[simp] theorem setCall_self (s : ReloadState) (i : Nat) (call : ReloadCall) :
    (setCall s i call).calls i = call := by simp [setCall]

@[simp] theorem setCall_ne (s : ReloadState) {i j : Nat} (call : ReloadCall) (hne : j ≠ i) :
    (setCall s i call).calls j = s.calls j := by simp [setCall, hne]

@[simp] theorem setCall_current (s : ReloadState) (i : Nat) (call : ReloadCall) :
    (setCall s i call).current = s.current := rfl

@[simp] theorem setCall_history (s : ReloadState) (i : Nat) (call : ReloadCall) :
    (setCall s i call).history = s.history := rfl

/-- `Replace` in a call, which then returns its diff. -/
def replaced (s : ReloadState) (i : Nat) (next : Policy) (prev : Option Policy) : ReloadState :=
  let diff := diffPolicies prev next
  { setCall s i (.returned diff) with
    current := replace s.current (some next)
    history := s.history ++ [⟨i, next, diff⟩] }

@[simp] theorem replaced_self (s : ReloadState) (i : Nat) (next : Policy) (prev : Option Policy) :
    (replaced s i next prev).calls i = .returned (diffPolicies prev next) := setCall_self _ _ _

@[simp] theorem replaced_ne (s : ReloadState) {i j : Nat} (next : Policy) (prev : Option Policy)
    (hne : j ≠ i) : (replaced s i next prev).calls j = s.calls j := setCall_ne _ _ hne

@[simp] theorem replaced_history (s : ReloadState) (i : Nat) (next : Policy)
    (prev : Option Policy) :
    (replaced s i next prev).history = s.history ++ [⟨i, next, diffPolicies prev next⟩] := rfl

/-- One step of one call; `none` where the call does not stand there. -/
def reloadStep (yaml : Bytes → Except String YamlPolicy) (s : ReloadState) :
    ReloadAction → Option ReloadState
  | .load i data orders =>
    match s.calls i with
    | .ready =>
      match loadBytes yaml data orders with
      | none => none
      | some (.error e) => some (setCall s i (.rejected e))
      | some (.ok next) => some (setCall s i (.loaded next))
    | _ => none
  -- the reading of `prev`, which another call may replace before this one does
  | .policy i =>
    match s.calls i with
    | .loaded next => some (setCall s i (.read next s.current))
    | _ => none
  | .replace i =>
    match s.calls i with
    | .read next prev => some (replaced s i next prev)
    | _ => none

/-- The passes of a load may go through the document in its orders. -/
def ReloadAction.OrdersFor (yaml : Bytes → Except String YamlPolicy) : ReloadAction → Prop
  | .load _ data orders => LoadOrders.For yaml data orders
  | _ => True

/-- An engine and any number of calls. -/
def reloaders (yaml : Bytes → Except String YamlPolicy) : System ReloadState ReloadAction where
  init := fun s => (∀ i, s.calls i = .ready) ∧ s.history = []
  step := fun s a s' => a.OrdersFor yaml ∧ reloadStep yaml s a = some s'

/-- A call replaces the policy that it read. -/
def Fresh (s : ReloadState) : ReloadAction → Prop
  | .replace i => ∀ next prev, s.calls i = .read next prev → prev = s.current
  | _ => True

variable {yaml : Bytes → Except String YamlPolicy} {s s' : ReloadState}

/-- **Inversion**: a step moves one call, or replaces the policy. -/
theorem reloadStep_cases {a : ReloadAction} (hstep : reloadStep yaml s a = some s') :
    (∃ i call, (∀ d, s.calls i ≠ .returned d) ∧ (∀ d, call ≠ .returned d) ∧ s' = setCall s i call)
      ∨ ∃ i next prev, a = .replace i ∧ s.calls i = .read next prev
          ∧ s' = replaced s i next prev := by
  cases a with
  | load i data orders =>
    simp only [reloadStep] at hstep
    split at hstep
    · rename_i hready
      split at hstep
      · contradiction
      · rename_i e _
        cases hstep
        exact Or.inl ⟨i, .rejected e, by simp [hready], by simp, rfl⟩
      · rename_i next _
        cases hstep
        exact Or.inl ⟨i, .loaded next, by simp [hready], by simp, rfl⟩
    · contradiction
  -- `Policy` reads the policy in force before the swap, for the diff
  | policy i =>
    simp only [reloadStep] at hstep
    split at hstep
    · rename_i next hloaded
      cases hstep
      exact Or.inl ⟨i, .read next s.current, by simp [hloaded], by simp, rfl⟩
    · contradiction
  | replace i =>
    simp only [reloadStep] at hstep
    split at hstep
    · rename_i next prev hread
      cases hstep
      exact Or.inr ⟨i, next, prev, rfl, hread, rfl⟩
    · contradiction

/-- A call that no other one interrupts is `ReloadBytes`. -/
theorem reloadBytes_of_steps {i : Nat} {data : Bytes} {orders : LoadOrders}
    (hready : s.calls i = .ready)
    (hrun : [ReloadAction.load i data orders, .policy i, .replace i].foldlM (reloadStep yaml) s
      = some s') :
    ∃ diff, s'.calls i = .returned diff
      ∧ reloadBytes yaml s.current data orders = some (.ok diff, s'.current) := by
  simp only [List.foldlM_cons, List.foldlM_nil, reloadStep, hready] at hrun
  cases hload : loadBytes yaml data orders with
  | none => simp [hload] at hrun
  | some result =>
    cases result with
    | error e => simp [hload] at hrun
    | ok next =>
      simp only [hload, setCall_self, setCall_current, Option.bind_eq_bind, Option.bind_some,
        Option.pure_def, Option.some.injEq] at hrun
      subst hrun
      refine ⟨diffPolicies s.current next, replaced_self _ _ _ _, ?_⟩
      unfold reloadBytes
      rw [hload]
      rfl

/-! ## Section 2: The history is that of the calls -/

/-- The replacements are those of the calls that returned a diff. -/
def HistoryOfCalls (s : ReloadState) : Prop :=
  ∀ i diff, s.calls i = .returned diff ↔ ∃ entry ∈ s.history, entry.call = i ∧ entry.diff = diff

theorem HistoryOfCalls.step (hcalls : HistoryOfCalls s) {a : ReloadAction}
    (hstep : reloadStep yaml s a = some s') : HistoryOfCalls s' := by
  intro j diff
  obtain ⟨i, call, hbefore, hafter, rfl⟩ | ⟨i, next, prev, _, hread, rfl⟩ := reloadStep_cases hstep
  · by_cases hj : j = i
    · subst hj
      rw [setCall_self, setCall_history, ← hcalls j diff]
      exact ⟨fun hret => absurd hret (hafter diff), fun hret => absurd hret (hbefore diff)⟩
    · rw [setCall_ne s call hj, setCall_history]
      exact hcalls j diff
  · by_cases hj : j = i
    · subst hj
      -- the call had not returned, so the history has no entry of it
      have hnone : ¬ ∃ entry ∈ s.history, entry.call = j ∧ entry.diff = diff := by
        rw [← hcalls j diff, hread]
        simp
      simp only [replaced_self, replaced_history, ReloadCall.returned.injEq, List.mem_append,
        List.mem_singleton, or_and_right, exists_or, exists_eq_left, hnone, false_or, true_and]
    · simp only [replaced_ne s _ _ hj, replaced_history, hcalls j diff, List.mem_append,
        List.mem_singleton, or_and_right, exists_or, exists_eq_left, Ne.symm hj, false_and, or_false]

/-! ## Section 3: Histories of diffs -/

/-- Each diff is that of the policy installed just before and the one installed. -/
def IsHistory : Option Policy → List Replacement → Prop
  | _, [] => True
  | before, entry :: rest =>
    entry.diff = diffPolicies before entry.installed ∧ IsHistory (some entry.installed) rest

/-- The policy after the replacements. -/
def installedBy (initial : Option Policy) (history : List Replacement) : Option Policy :=
  history.foldl (fun _ entry => some entry.installed) initial

/-- The names of the roles after the change that a diff reports. -/
def Diff.apply (names : Set String) (d : Diff) : Set String :=
  (names \ {name | name ∈ d.removed}) ∪ {name | name ∈ d.added}

def roleNames (policy : Option Policy) : Set String := {name | name ∈ rolesOf policy}

/-- The diffs, in order, account for what is between the two policies. -/
structure Accounts (initial final : Option Policy) (diffs : List Diff) : Prop where
  names : diffs.foldl Diff.apply (roleNames initial) = roleNames final
  /-- A role that no diff lists has the same permission keys, or stays absent. -/
  unlisted : ∀ name : String, (∀ d ∈ diffs, ¬ d.Lists name) →
    (rolesOf initial)[name]?.map (fun role => permissionKeys role.permissions)
      = (rolesOf final)[name]?.map fun role => permissionKeys role.permissions

theorem apply_diffPolicies (prev : Option Policy) (next : Policy) :
    (diffPolicies prev next).apply (roleNames prev) = roleNames (some next) := by
  ext name
  simp only [Diff.apply, roleNames, Set.mem_union, Set.mem_sdiff, Set.mem_ofPred_eq, mem_removed,
    mem_added]
  show _ ↔ name ∈ next.roles
  tauto

theorem IsHistory.accounts {initial : Option Policy} {history : List Replacement}
    (hhistory : IsHistory initial history) :
    Accounts initial (installedBy initial history) (history.map Replacement.diff) := by
  induction history generalizing initial with
  | nil => exact ⟨rfl, fun _ _ => rfl⟩
  | cons entry rest ih =>
    obtain ⟨hdiff, hrest⟩ := hhistory
    have haccounts := ih hrest
    constructor
    · rw [List.map_cons, List.foldl_cons, hdiff, apply_diffPolicies]
      exact haccounts.names
    · -- the first diff does not list the role, and neither do the others
      intro name hnot
      rw [List.map_cons, List.forall_mem_cons] at hnot
      have hfirst := hnot.1
      rw [hdiff, not_lists_iff] at hfirst
      exact hfirst.trans (haccounts.unlisted name hnot.2)

theorem installedBy_append (initial : Option Policy) (history : List Replacement)
    (entry : Replacement) :
    installedBy initial (history ++ [entry]) = some entry.installed := by
  simp [installedBy]

theorem isHistory_append {initial : Option Policy} {history : List Replacement}
    {entry : Replacement} :
    IsHistory initial (history ++ [entry]) ↔
      IsHistory initial history
        ∧ entry.diff = diffPolicies (installedBy initial history) entry.installed := by
  induction history generalizing initial with
  | nil => simp [IsHistory, installedBy]
  | cons first rest ih =>
    rw [List.cons_append, IsHistory, IsHistory, ih, and_assoc]
    rfl

/-! ## Section 4: Runs -/

/-- The history so far starts at the policy and leads to the current one. -/
structure Kept (initial : Option Policy) (s : ReloadState) : Prop where
  calls : HistoryOfCalls s
  history : IsHistory initial s.history
  installed : installedBy initial s.history = s.current

/-- **Step lemma**: a fresh step keeps the history. -/
theorem Kept.step {initial : Option Policy} (hkept : Kept initial s) {a : ReloadAction}
    (hfresh : Fresh s a) (hstep : reloadStep yaml s a = some s') : Kept initial s' := by
  refine ⟨hkept.calls.step hstep, ?_, ?_⟩
  · obtain ⟨i, call, _, _, rfl⟩ | ⟨i, next, prev, rfl, hread, rfl⟩ := reloadStep_cases hstep
    · exact hkept.history
    · -- the diff is that of the policy which is current now
      rw [replaced_history, isHistory_append, hkept.installed, hfresh next prev hread]
      exact ⟨hkept.history, rfl⟩
  · obtain ⟨i, call, _, _, rfl⟩ | ⟨i, next, prev, rfl, hread, rfl⟩ := reloadStep_cases hstep
    · exact hkept.installed
    · exact installedBy_append _ _ _

theorem kept_init (hinit : (reloaders yaml).init s) : Kept s.current s := by
  obtain ⟨hready, hhistory⟩ := hinit
  constructor
  · intro i diff
    simp [hready, hhistory]
  · rw [hhistory]
    trivial
  · rw [hhistory]
    rfl

/-- **Run lemma**: without stale replacements, the diffs that the calls return form
    the history of the policy. -/
theorem diffs_form_history {s₀ : ReloadState} (hinit : (reloaders yaml).init s₀)
    (hrun : ((reloaders yaml).restrict Fresh).Steps s₀ s) :
    HistoryOfCalls s
      ∧ IsHistory s₀.current s.history
      ∧ installedBy s₀.current s.history = s.current
      ∧ Accounts s₀.current s.current (s.history.map Replacement.diff) := by
  have hkept : Kept s₀.current s := by
    refine System.Steps.invariant ?_ (kept_init hinit) hrun
    intro s a s' hkept ⟨hfresh, _, hstep⟩
    exact hkept.step hfresh hstep
  refine ⟨hkept.calls, hkept.history, hkept.installed, ?_⟩
  rw [← hkept.installed]
  exact hkept.history.accounts

/-! ## Two calls that read the same policy -/

/-- Without `ops`, which the document of the other call has. -/
def adminDocument : YamlPolicy :=
  ⟨1, (∅ : Std.ExtTreeMap String YamlRole).insert "admin" adminWritten⟩

def adminOrders : LoadOrders := ⟨[("admin", adminWritten)], ["admin"], ["admin"]⟩

def adminPolicy : Policy :=
  ⟨1, (∅ : Roles).insert "admin" ⟨"admin", "", [], [⟨"*", "admin", []⟩]⟩⟩

/-- `yaml.Unmarshal` on the two texts. -/
def twoYaml (data : Bytes) : Except String YamlPolicy :=
  if data = adminText then .ok adminDocument
  else if data = opsWith "backup" "run" then .ok (opsWithDocument "backup" "run")
  else .error "not needed"

theorem twoYaml_admin : twoYaml adminText = .ok adminDocument := by simp [twoYaml]

theorem twoYaml_ops : twoYaml (opsWith "backup" "run") = .ok (opsWithDocument "backup" "run") := by
  have hops : opsTextWith "backup" "run" ≠ [] := by decide +kernel
  simp [twoYaml, opsWith, hops]

theorem loadBytes_admin : loadBytes twoYaml adminText adminOrders = some (.ok adminPolicy) := by
  unfold loadBytes
  rw [twoYaml_admin]
  rfl

theorem loadBytes_opsWith :
    loadBytes twoYaml (opsWith "backup" "run") (opsWithOrders "backup" "run")
      = some (.ok (opsWithPolicy "backup" "run")) := by
  unfold loadBytes
  rw [twoYaml_ops]
  rfl

theorem adminOrders_for : LoadOrders.For twoYaml adminText adminOrders := by
  intro raw hyaml
  rw [twoYaml_admin] at hyaml
  cases hyaml
  exact ⟨.refl _, .refl _, .refl _⟩

theorem opsWithOrders_for :
    LoadOrders.For twoYaml (opsWith "backup" "run") (opsWithOrders "backup" "run") := by
  intro raw hyaml
  rw [twoYaml_ops] at hyaml
  cases hyaml
  exact opsWithOrders_of _ _

/-- The engine on its first policy, before any call. -/
def idle : ReloadState := ⟨some adminPolicy, fun _ => .ready, []⟩

theorem idle_init : (reloaders twoYaml).init idle := ⟨fun _ => rfl, rfl⟩

section Steps

variable {i : Nat} {next : Policy}

theorem load_step {data : Bytes} {orders : LoadOrders} (hready : s.calls i = .ready)
    (horders : LoadOrders.For yaml data orders)
    (hload : loadBytes yaml data orders = some (.ok next)) :
    (reloaders yaml).step s (.load i data orders) (setCall s i (.loaded next)) := by
  refine ⟨horders, ?_⟩
  simp only [reloadStep, hready, hload]

theorem policy_step (hloaded : s.calls i = .loaded next) :
    (reloaders yaml).step s (.policy i) (setCall s i (.read next s.current)) := by
  refine ⟨trivial, ?_⟩
  simp only [reloadStep, hloaded]

theorem replace_step {prev : Option Policy} (hread : s.calls i = .read next prev) :
    (reloaders yaml).step s (.replace i) (replaced s i next prev) := by
  refine ⟨trivial, ?_⟩
  simp only [reloadStep, hread]

end Steps

/-- Both documents are loaded. -/
def bothLoaded : ReloadState :=
  setCall (setCall idle 0 (.loaded (opsWithPolicy "backup" "run"))) 1 (.loaded adminPolicy)

/-- One call adds `ops`. -/
def opsAdded : ReloadState :=
  replaced (setCall bothLoaded 0 (.read (opsWithPolicy "backup" "run") (some adminPolicy))) 0
    (opsWithPolicy "backup" "run") (some adminPolicy)

/-- The other, which was under way all along, removes it again. -/
def opsRemoved : ReloadState :=
  replaced (setCall opsAdded 1 (.read adminPolicy (some (opsWithPolicy "backup" "run")))) 1
    adminPolicy (some (opsWithPolicy "backup" "run"))

theorem fresh_of_read {next : Policy} {i : Nat} (hread : s.calls i = .read next s.current) :
    Fresh s (.replace i) := by
  intro next' prev hread'
  rw [hread] at hread'
  cases hread'
  rfl

theorem opsRemoved_steps : ((reloaders twoYaml).restrict Fresh).Steps idle opsRemoved := by
  have hload0 : ((reloaders twoYaml).restrict Fresh).Steps idle _ :=
    (System.Steps.refl _).tail (l := ReloadAction.load 0 _ _)
      ⟨trivial, load_step rfl opsWithOrders_for loadBytes_opsWith⟩
  have hload1 := hload0.tail (l := ReloadAction.load 1 _ _)
    ⟨trivial, load_step rfl adminOrders_for loadBytes_admin⟩
  have hpolicy0 := hload1.tail (l := ReloadAction.policy 0) ⟨trivial, policy_step rfl⟩
  have hreplace0 := hpolicy0.tail ⟨fresh_of_read rfl, replace_step (i := 0) rfl⟩
  have hpolicy1 := hreplace0.tail (l := ReloadAction.policy 1) ⟨trivial, policy_step rfl⟩
  exact hpolicy1.tail ⟨fresh_of_read rfl, replace_step (i := 1) rfl⟩

theorem diffs_form_history_opsRemoved :
    ((reloaders twoYaml).restrict Fresh).Steps idle opsRemoved
      ∧ HistoryOfCalls opsRemoved ∧ IsHistory idle.current opsRemoved.history
      ∧ installedBy idle.current opsRemoved.history = opsRemoved.current
      ∧ Accounts idle.current opsRemoved.current (opsRemoved.history.map Replacement.diff) :=
  ⟨opsRemoved_steps, diffs_form_history idle_init opsRemoved_steps⟩

/-- Both calls have read the first policy. -/
def bothRead : ReloadState :=
  setCall (setCall (setCall (setCall idle
    0 (.loaded (opsWithPolicy "backup" "run")))
    1 (.loaded adminPolicy))
    0 (.read (opsWithPolicy "backup" "run") (some adminPolicy)))
    1 (.read adminPolicy (some adminPolicy))

def bothReplaced : ReloadState :=
  replaced (replaced bothRead 0 (opsWithPolicy "backup" "run") (some adminPolicy))
    1 adminPolicy (some adminPolicy)

theorem bothReplaced_steps : (reloaders twoYaml).Steps idle bothReplaced := by
  have hload0 : (reloaders twoYaml).Steps idle _ :=
    (System.Steps.refl _).tail (load_step (i := 0) rfl opsWithOrders_for loadBytes_opsWith)
  have hload1 := hload0.tail (load_step (i := 1) rfl adminOrders_for loadBytes_admin)
  have hpolicy0 := hload1.tail (policy_step (i := 0) rfl)
  have hpolicy1 := hpolicy0.tail (policy_step (i := 1) rfl)
  have hreplace0 := hpolicy1.tail (replace_step (i := 0) rfl)
  exact hreplace0.tail (replace_step (i := 1) rfl)

/-- The second replacement removes `ops`, and no diff says so. -/
theorem removal_unreported :
    LoadedBy twoYaml adminPolicy
      ∧ (reloaders twoYaml).init idle ∧ (reloaders twoYaml).Steps idle bothReplaced
      ∧ bothReplaced.history.map Replacement.diff = [⟨["ops"], [], []⟩, ⟨[], [], []⟩]
      ∧ "ops" ∉ rolesOf bothReplaced.current
      ∧ ¬ IsHistory idle.current bothReplaced.history
      ∧ ¬ Accounts idle.current bothReplaced.current
          (bothReplaced.history.map Replacement.diff) := by
  have hdiffs : bothReplaced.history.map Replacement.diff = [⟨["ops"], [], []⟩, ⟨[], [], []⟩] := by
    decide +kernel
  have hgone : "ops" ∉ rolesOf bothReplaced.current := by decide
  have haccounts : ¬ Accounts idle.current bothReplaced.current
      (bothReplaced.history.map Replacement.diff) := by
    intro haccounts
    have hnames := haccounts.names
    rw [hdiffs] at hnames
    have hops : "ops" ∈ roleNames bothReplaced.current := by
      rw [← hnames]
      simp [Diff.apply]
    exact hgone hops
  refine ⟨⟨_, _, adminOrders_for, loadBytes_admin⟩, idle_init, bothReplaced_steps, hdiffs, hgone,
    ?_, haccounts⟩
  intro hhistory
  exact haccounts hhistory.accounts

end Owasaka.Authz
