import Mathlib.Logic.Function.Basic
import Owasaka.Pki.Rotation

/-! # Concurrent rotations

    `Rotate` looks up the active key, marks it as rotating and saves a new one.
    Each of the three is atomic under the mutex of the store, but they are not
    atomic together.  The model has any number of `Rotate` calls of one purpose,
    whose steps interleave in any order.

    The proof counts what stands for a signer: the active keys that no call has
    yet looked up, and the calls under way.  No step loses one of them, and only a
    lookup beside another call adds a second.  Hence the main result: the calls
    leave one signer if and only if none of them begins while another is under
    way. -/

namespace Owasaka.Pki

/-! ## Section 1: Model -/

/-- Where a call of `Rotate` stands. -/
inductive RotateCall where
  | ready
  | found (current : KeyPair)
  /-- There is no active key, or the one found is marked as rotating. -/
  | cleared
  | failed (e : PkiError)
  | returned (kp : KeyPair)

structure RotateState where
  store : KeyStore
  calls : Nat → RotateCall

inductive RotateAction where
  | activeByPurpose (i : Nat) (order : List KeyPair) (fault : Option String)
  | updateStatus (i : Nat) (fault : Option String)
  | save (i : Nat) (newTTL : Int) (env : Env)

namespace RotateState

def setCall (s : RotateState) (i : Nat) (call : RotateCall) : RotateState :=
  { s with calls := Function.update s.calls i call }

def setStore (s : RotateState) (store : KeyStore) : RotateState := { s with store := store }

@[simp] theorem setCall_self (s : RotateState) (i : Nat) (call : RotateCall) :
    (s.setCall i call).calls i = call := by simp [setCall]

@[simp] theorem setCall_ne (s : RotateState) {i j : Nat} (call : RotateCall) (hne : j ≠ i) :
    (s.setCall i call).calls j = s.calls j := by simp [setCall, hne]

@[simp] theorem setCall_store (s : RotateState) (i : Nat) (call : RotateCall) :
    (s.setCall i call).store = s.store := rfl

@[simp] theorem setStore_calls (s : RotateState) (store : KeyStore) :
    (s.setStore store).calls = s.calls := rfl

@[simp] theorem setStore_store (s : RotateState) (store : KeyStore) :
    (s.setStore store).store = store := rfl

/-- Where a call stands after a step of call `i`. -/
theorem calls_cases {s : RotateState} {i j : Nat} {call c : RotateCall} {store : KeyStore}
    (hcall : ((s.setCall i call).setStore store).calls j = c) :
    (j = i ∧ call = c) ∨ (j ≠ i ∧ s.calls j = c) := by
  rw [setStore_calls] at hcall
  by_cases hj : j = i
  · subst hj
    rw [setCall_self] at hcall
    exact Or.inl ⟨rfl, hcall⟩
  · rw [setCall_ne _ _ hj] at hcall
    exact Or.inr ⟨hj, hcall⟩

end RotateState

/-- One step of one call; `none` where the call does not stand there. -/
def rotateStep (ed : SignatureScheme) (purpose : Purpose) (s : RotateState) :
    RotateAction → Option RotateState
  | .activeByPurpose i order fault =>
    match s.calls i with
    | .ready =>
      match faulty fault (KeyStore.activeByPurpose order purpose) with
      | .ok current => some (s.setCall i (.found current))
      | .error e => some (s.setCall i (if e = .noActiveKey then .cleared else .failed e))
    | _ => none
  | .updateStatus i fault =>
    match s.calls i with
    | .found current =>
      match faulty fault (s.store.updateStatus current.id .rotating) with
      | .error e => some (s.setCall i (.failed e))
      | .ok store => some ((s.setCall i .cleared).setStore store)
    | _ => none
  | .save i newTTL env =>
    match s.calls i with
    | .cleared =>
      match generateKeyPair ed env purpose newTTL s.store with
      | (.error e, store) => some ((s.setCall i (.failed e)).setStore store)
      | (.ok kp, store) => some ((s.setCall i (.returned kp)).setStore store)
    | _ => none

/-- The map is iterated in any order; UUIDs are not empty and do not repeat. -/
def RotateAction.Allowed (s : RotateState) : RotateAction → Prop
  | .activeByPurpose _ order _ => s.store.Order order
  | .updateStatus _ _ => True
  | .save _ _ env => env.id ≠ "" ∧ env.id ∉ s.store

/-- `Save` stores every key under its ID. -/
def StoredByID (s : KeyStore) : Prop := ∀ (id : String) (kp : KeyPair), s[id]? = some kp → kp.id = id

/-- A key store with at most one active key of the purpose, and any number of calls. -/
def rotators (ed : SignatureScheme) (purpose : Purpose) : System RotateState RotateAction where
  init := fun s =>
    StoredByID s.store ∧ AtMostOneActive s.store purpose
      ∧ ∀ i, s.calls i = .ready
  step := fun s a s' => a.Allowed s ∧ rotateStep ed purpose s a = some s'

/-- The call has begun and has not returned. -/
def RotateCall.UnderWay : RotateCall → Prop
  | .found _ => True
  | .cleared => True
  | _ => False

/-- A call begins only when no other one is under way. -/
def Serial (s : RotateState) : RotateAction → Prop
  | .activeByPurpose _ _ _ => ∀ j, ¬ (s.calls j).UnderWay
  | _ => True

/-- Some calls were made, and all of them have returned successfully. -/
def AllReturned (s : RotateState) : Prop :=
  (∃ i kp, s.calls i = .returned kp)
    ∧ ∀ i, s.calls i = .ready ∨ ∃ kp, s.calls i = .returned kp

/-- What the calls are to leave behind. -/
structure OneSigner (purpose : Purpose) (s₀ s : RotateState) : Prop where
  /-- Exactly one key of the purpose is active. -/
  one : ∃ id, ∀ id', (∃ kp, ActiveAt s.store purpose id' kp) ↔ id' = id
  /-- Every other key that was or became active is rotating or retired. -/
  others : ∀ id, ((∃ kp, ActiveAt s₀.store purpose id kp)
      ∨ ∃ i kp, s.calls i = .returned kp ∧ kp.id = id) →
    (¬ ∃ kp, ActiveAt s.store purpose id kp) →
    ∃ kp, s.store[id]? = some kp ∧ (kp.status = .rotating ∨ kp.status = .retired)

variable {ed : SignatureScheme} {purpose : Purpose} {s s' : RotateState} {a : RotateAction}

/-- The steps of a call that no other one interrupts are `Rotate`. -/
theorem rotate_of_steps {i : Nat} {newTTL : Int} {env : Env} {kp : KeyPair} {store : KeyStore}
    (hready : s.calls i = .ready)
    (hrotate : rotate ed env purpose newTTL s.store = (.ok kp, store)) :
    ∃ update : List RotateAction, (update = [] ∨ update = [.updateStatus i env.updateFault])
      ∧ (RotateAction.activeByPurpose i env.order env.lookupFault
          :: (update ++ [.save i newTTL env])).foldlM (rotateStep ed purpose) s
        = some ((s.setCall i (.returned kp)).setStore store) := by
  unfold rotate activeKey at hrotate
  cases hlookup : faulty env.lookupFault (KeyStore.activeByPurpose env.order purpose) with
  | ok current =>
    simp only [hlookup] at hrotate
    cases hupdate : faulty env.updateFault (s.store.updateStatus current.id .rotating) with
    | error e => simp [hupdate] at hrotate
    | ok store =>
      simp only [hupdate] at hrotate
      refine ⟨[.updateStatus i env.updateFault], Or.inr rfl, ?_⟩
      simp [rotateStep, hready, hlookup, hupdate, hrotate]
      simp [RotateState.setCall, RotateState.setStore]
  | error e =>
    simp only [hlookup] at hrotate
    by_cases hnone : e = .noActiveKey
    · rw [if_pos hnone] at hrotate
      refine ⟨[], Or.inl rfl, ?_⟩
      simp [rotateStep, hready, hlookup, hnone, hrotate]
      simp [RotateState.setCall, RotateState.setStore]
    · simp [hnone] at hrotate

/-! ## Section 2: What a step can do -/

theorem generateKeyPair_error {env : Env} {newTTL : Int} {e : PkiError} {store store' : KeyStore}
    (herror : generateKeyPair ed env purpose newTTL store = (.error e, store')) :
    store' = store := by
  unfold generateKeyPair at herror
  split at herror
  · cases herror
    rfl
  · split at herror
    · cases herror
      rfl
    · simp only at herror
      split at herror
      · cases herror
        rfl
      · cases herror

/-- The moves that the calls make. -/
inductive Move (purpose : Purpose) (s : RotateState) : RotateAction → RotateState → Prop where
  | fail {a : RotateAction} {i : Nat} {e : PkiError} : Move purpose s a (s.setCall i (.failed e))
  | find {i : Nat} {order : List KeyPair} {fault : Option String} {current : KeyPair} :
      s.calls i = .ready → ActiveAt s.store purpose current.id current →
      Move purpose s (.activeByPurpose i order fault) (s.setCall i (.found current))
  | clear {i : Nat} {order : List KeyPair} {fault : Option String} :
      s.calls i = .ready → (∀ id kp, ¬ ActiveAt s.store purpose id kp) →
      Move purpose s (.activeByPurpose i order fault) (s.setCall i .cleared)
  | makeWay {i : Nat} {fault : Option String} {current kp : KeyPair} :
      s.calls i = .found current → s.store[current.id]? = some kp →
      Move purpose s (.updateStatus i fault)
        ((s.setCall i .cleared).setStore
          (s.store.insert current.id { kp with status := .rotating }))
  | add {i : Nat} {newTTL : Int} {env : Env} {kp : KeyPair} :
      s.calls i = .cleared → kp.id ∉ s.store → kp.purpose = purpose → kp.status = .active →
      Move purpose s (.save i newTTL env)
        ((s.setCall i (.returned kp)).setStore (s.store.insert kp.id kp))

/-- What the moves keep: keys are stored under their IDs, and a key that was found
    is in the store. -/
structure Tidy (s : RotateState) : Prop where
  ids : StoredByID s.store
  found : ∀ i current, s.calls i = .found current → current.id ∈ s.store

/-- **Inversion**: every step is a move. -/
theorem move_of_step (htidy : Tidy s) (hallowed : a.Allowed s)
    (hstep : rotateStep ed purpose s a = some s') : Move purpose s a s' := by
  cases a with
  | activeByPurpose i order fault =>
    simp only [rotateStep] at hstep
    split at hstep
    · rename_i hready
      cases hlookup : faulty fault (KeyStore.activeByPurpose order purpose) with
      | ok current =>
        simp only [hlookup, Option.some.injEq] at hstep
        subst hstep
        -- the key that was found is in the store, under its own ID
        obtain ⟨⟨id, hget⟩, hpurpose, hactive⟩ :=
          KeyStore.activeByPurpose_ok hallowed (faulty_ok hlookup).2
        have hid := htidy.ids id current hget
        exact .find hready ⟨hid ▸ hget, hpurpose, hactive⟩
      | error e =>
        simp only [hlookup, Option.some.injEq] at hstep
        subst hstep
        by_cases hnone : e = .noActiveKey
        · subst hnone
          rw [if_pos rfl]
          refine .clear hready ?_
          unfold faulty at hlookup
          split at hlookup
          · simp at hlookup
          · exact activeByPurpose_error hallowed hlookup
        · rw [if_neg hnone]
          exact .fail
    · contradiction
  | updateStatus i fault =>
    simp only [rotateStep] at hstep
    split at hstep
    · rename_i current hfound
      cases hupdate : faulty fault (s.store.updateStatus current.id .rotating) with
      | error e =>
        simp only [hupdate, Option.some.injEq] at hstep
        subst hstep
        exact .fail
      | ok store =>
        simp only [hupdate, Option.some.injEq] at hstep
        subst hstep
        have hstore := (faulty_ok hupdate).2
        unfold KeyStore.updateStatus at hstore
        split at hstore
        · contradiction
        · rename_i kp hget
          cases hstore
          exact .makeWay hfound hget
    · contradiction
  | save i newTTL env =>
    simp only [rotateStep] at hstep
    split at hstep
    · rename_i hcleared
      cases hgen : generateKeyPair ed env purpose newTTL s.store with
      | mk result store =>
        cases result with
        | error e =>
          simp only [hgen, Option.some.injEq] at hstep
          subst hstep
          rw [generateKeyPair_error hgen]
          exact .fail
        | ok kp =>
          simp only [hgen, Option.some.injEq] at hstep
          subst hstep
          obtain ⟨hid, hpurpose, hactive, hstore⟩ := generateKeyPair_ok
            (show (generateKeyPair ed env purpose newTTL s.store).1 = .ok kp by rw [hgen])
          rw [hgen] at hstore
          rw [show store = s.store.insert kp.id kp from hstore]
          exact .add hcleared (hid ▸ hallowed.2) hpurpose hactive
    · contradiction

theorem Tidy.move (htidy : Tidy s) (hmove : Move purpose s a s') : Tidy s' := by
  -- a call that found a key afterwards had found it before, or finds it now
  have hkeep : ∀ {i call store}, (∀ id, id ∈ s.store → id ∈ store) →
      (∀ current, call = RotateCall.found current → current.id ∈ store) →
      ∀ j current, ((s.setCall i call).setStore store).calls j = .found current →
        current.id ∈ store := by
    intro i call store hsub hcall j current hfound
    rcases RotateState.calls_cases hfound with ⟨_, hnow⟩ | ⟨_, hbefore⟩
    · exact hcall current hnow
    · exact hsub _ (htidy.found j current hbefore)
  cases hmove with
  | @fail i e => exact ⟨htidy.ids, hkeep (fun _ h => h) (by simp)⟩
  | @find i order fault current hready hactive =>
    refine ⟨htidy.ids, hkeep (fun _ h => h) ?_⟩
    intro kp hkp
    cases hkp
    exact mem_of_getElem?_eq_some hactive.1
  | @clear i order fault hready hnone => exact ⟨htidy.ids, hkeep (fun _ h => h) (by simp)⟩
  | @makeWay i fault current kp hfound hget =>
    refine ⟨?_, hkeep (fun id h => Std.ExtTreeMap.mem_insert.mpr (Or.inr h)) (by simp)⟩
    intro id k hk
    rcases getElem?_insert_cases hk with ⟨rfl, rfl⟩ | ⟨_, hk⟩
    · exact htidy.ids _ kp hget
    · exact htidy.ids id k hk
  | @add i newTTL env kp hcleared hfresh hpurpose hactive =>
    refine ⟨?_, hkeep (fun id h => Std.ExtTreeMap.mem_insert.mpr (Or.inr h)) (by simp)⟩
    intro id k hk
    rcases getElem?_insert_cases hk with ⟨rfl, rfl⟩ | ⟨_, hk⟩
    · rfl
    · exact htidy.ids id k hk

/-- Some call has failed. -/
def Failed (s : RotateState) : Prop := ∃ i e, s.calls i = .failed e

/-! ## Section 3: What stands for a signer -/

/-- A call has found the key and has not yet marked it as rotating. -/
def Claimed (s : RotateState) (id : String) : Prop :=
  ∃ i current, s.calls i = .found current ∧ current.id = id

inductive Token where
  | key (id : String)
  | call (i : Nat)
  deriving DecidableEq

/-- An unclaimed active key stands for a signer, and so does a call under way. -/
def Stands (purpose : Purpose) (s : RotateState) : Token → Prop
  | .key id => (∃ kp, ActiveAt s.store purpose id kp) ∧ ¬ Claimed s id
  | .call i => (s.calls i).UnderWay

/-- A call that another step does not move is claimed by the same keys. -/
theorem claimed_setCall {i : Nat} {call : RotateCall} {store : KeyStore} {id : String}
    (hclaimed : Claimed ((s.setCall i call).setStore store) id) :
    Claimed s id ∨ ∃ current, call = .found current ∧ current.id = id := by
  obtain ⟨j, current, hfound, hid⟩ := hclaimed
  rcases RotateState.calls_cases hfound with ⟨_, hnow⟩ | ⟨_, hbefore⟩
  · exact Or.inr ⟨current, hnow, hid⟩
  · exact Or.inl ⟨j, current, hbefore, hid⟩

/-- The call that a step leaves under way stands for a signer. -/
theorem stands_call {i : Nat} {call : RotateCall} (store : KeyStore) (hcall : call.UnderWay) :
    Stands purpose ((s.setCall i call).setStore store) (.call i) := by
  show ((s.setCall i call).calls i).UnderWay
  rw [RotateState.setCall_self]
  exact hcall

/-- A token stays where the step moves another call and keeps the key active. -/
theorem Stands.keep {t : Token} (ht : Stands purpose s t) {i : Nat} {call : RotateCall}
    (store : KeyStore) (hcall : t ≠ .call i)
    (hactive : ∀ id kp, t = .key id → ActiveAt s.store purpose id kp →
      ActiveAt store purpose id kp)
    (hclaim : ∀ current, call = .found current → t ≠ .key current.id) :
    Stands purpose ((s.setCall i call).setStore store) t := by
  cases t with
  | key id =>
    obtain ⟨⟨kp, hkp⟩, hunclaimed⟩ := ht
    refine ⟨⟨kp, hactive id kp rfl hkp⟩, fun hclaimed => ?_⟩
    rcases claimed_setCall hclaimed with hclaimed | ⟨current, hcurrent, hid⟩
    · exact hunclaimed hclaimed
    · exact hclaim current hcurrent (by rw [hid])
  | call j =>
    have hj : j ≠ i := fun heq => hcall (by rw [heq])
    show ((s.setCall i call).calls j).UnderWay
    rw [RotateState.setCall_ne _ _ hj]
    exact ht

theorem Stands.ne_call {t : Token} (ht : Stands purpose s t) {i : Nat}
    (hidle : ¬ (s.calls i).UnderWay) : t ≠ .call i := by
  intro heq
  subst heq
  exact hidle ht

/-- A map that takes the tokens before a move to tokens after it, each to its own. -/
structure Carried (purpose : Purpose) (s s' : RotateState) (f : Token → Token) : Prop where
  stands : ∀ t, Stands purpose s t → Stands purpose s' (f t)
  inj : ∀ t t', Stands purpose s t → Stands purpose s t' → f t = f t' → t = t'

/-- One token becomes a new one, and the others stay. -/
theorem carried_update (old new : Token) (hnew : ¬ Stands purpose s new)
    (hold : Stands purpose s old → Stands purpose s' new)
    (hrest : ∀ t, t ≠ old → Stands purpose s t → Stands purpose s' t) :
    Carried purpose s s' (Function.update (fun t => t) old new) := by
  have hne : ∀ t, Stands purpose s t → t ≠ new := fun t ht heq => hnew (heq ▸ ht)
  constructor
  · intro t ht
    by_cases heq : t = old
    · subst heq
      rw [Function.update_self]
      exact hold ht
    · rw [Function.update_of_ne heq]
      exact hrest t heq ht
  · intro t t' ht ht' heq
    by_cases h : t = old
    · by_cases h' : t' = old
      · rw [h, h']
      · rw [h, Function.update_self, Function.update_of_ne h'] at heq
        exact absurd heq.symm (hne t' ht')
    · by_cases h' : t' = old
      · rw [h', Function.update_self, Function.update_of_ne h] at heq
        exact absurd heq (hne t ht)
      · rw [Function.update_of_ne h, Function.update_of_ne h'] at heq
        exact heq

/-- **Step lemma**: no move loses a token, unless a call fails. -/
theorem carried_of_move (htidy : Tidy s) (hmove : Move purpose s a s') :
    Failed s' ∨ ∃ f, Carried purpose s s' f := by
  cases hmove with
  | @fail i e => exact Or.inl ⟨_, _, RotateState.setCall_self _ _ _⟩
  | @find i order fault current hready hactive =>
    have hidle : ¬ (s.calls i).UnderWay := by
      rw [hready]
      exact id
    -- the key that is found gives way to the call
    refine Or.inr ⟨_, carried_update (.key current.id) (.call i) hidle ?_ ?_⟩
    · exact fun _ => stands_call s.store trivial
    · intro t hne ht
      refine ht.keep s.store (ht.ne_call hidle) (fun _ _ _ h => h) ?_
      intro k hk
      cases hk
      exact hne
  | @clear i order fault hready hnone =>
    have hidle : ¬ (s.calls i).UnderWay := by
      rw [hready]
      exact id
    refine Or.inr ⟨fun t => t, fun t ht => ?_, fun _ _ _ _ heq => heq⟩
    exact ht.keep s.store (ht.ne_call hidle) (fun _ _ _ h => h) (by simp)
  | @makeWay i fault current kp hfound hget =>
    refine Or.inr ⟨fun t => t, fun t ht => ?_, fun _ _ _ _ heq => heq⟩
    by_cases hcall : t = .call i
    · subst hcall
      exact stands_call _ trivial
    · refine ht.keep _ hcall ?_ (by simp)
      intro id k hkey hk
      -- the key that is marked as rotating is claimed by the call
      have hne : id ≠ current.id := by
        subst hkey
        intro heq
        exact ht.2 ⟨i, current, hfound, heq.symm⟩
      exact activeAt_insert_iff.mpr (Or.inr ⟨hne, hk⟩)
  | @add i newTTL env kp hcleared hfresh hpurpose hactive =>
    have hnew : ∀ k, ¬ ActiveAt s.store purpose kp.id k :=
      fun k hk => hfresh (mem_of_getElem?_eq_some hk.1)
    -- the call gives way to the key that it saves
    refine Or.inr ⟨_, carried_update (.call i) (.key kp.id) ?_ ?_ ?_⟩
    · intro hstands
      obtain ⟨k, hk⟩ := hstands.1
      exact hnew k hk
    · intro _
      refine ⟨⟨kp, activeAt_insert_iff.mpr (Or.inl ⟨rfl, rfl, hpurpose, hactive⟩)⟩, ?_⟩
      intro hclaimed
      rcases claimed_setCall hclaimed with ⟨j, k, hfound, hid⟩ | ⟨k, hk, _⟩
      · exact hfresh (hid ▸ htidy.found j k hfound)
      · contradiction
    · intro t hcall ht
      refine ht.keep _ hcall ?_ (by simp)
      intro id k _ hk
      refine activeAt_insert_iff.mpr (Or.inr ⟨?_, hk⟩)
      intro heq
      subst heq
      exact hnew k hk

/-- A token after a step was one before, where the step made neither its key active
    nor its key unclaimed. -/
theorem Stands.back {t : Token} {i : Nat} {call : RotateCall} {store : KeyStore}
    (ht : Stands purpose ((s.setCall i call).setStore store) t) (hcall : t ≠ .call i)
    (hactive : ∀ id kp, t = .key id → ActiveAt store purpose id kp →
      ActiveAt s.store purpose id kp)
    (hclaim : ∀ current, s.calls i = .found current → t ≠ .key current.id) :
    Stands purpose s t := by
  cases t with
  | key id =>
    obtain ⟨⟨kp, hkp⟩, hunclaimed⟩ := ht
    refine ⟨⟨kp, hactive id kp rfl hkp⟩, ?_⟩
    intro ⟨j, current, hfound, hid⟩
    by_cases hj : j = i
    · subst hj
      exact hclaim current hfound (by rw [hid])
    · refine hunclaimed ⟨j, current, ?_, hid⟩
      rw [RotateState.setStore_calls, RotateState.setCall_ne _ _ hj]
      exact hfound
  | call j =>
    have hj : j ≠ i := fun heq => hcall (by rw [heq])
    have hway : ((s.setCall i call).calls j).UnderWay := ht
    rw [RotateState.setCall_ne _ _ hj] at hway
    exact hway

def AtMostOneStands (purpose : Purpose) (s : RotateState) : Prop :=
  ∀ t t', Stands purpose s t → Stands purpose s t' → t = t'

/-- **Step lemma**: a serial move adds no second token, unless a call fails. -/
theorem AtMostOneStands.move (hone : AtMostOneStands purpose s) (hserial : Serial s a)
    (hmove : Move purpose s a s') : Failed s' ∨ AtMostOneStands purpose s' := by
  -- it is enough that all tokens after the move are the same
  have hsame : ∀ t₀, (∀ t, Stands purpose s' t → t = t₀) → AtMostOneStands purpose s' := by
    intro t₀ hall t t' ht ht'
    rw [hall t ht, hall t' ht']
  cases hmove with
  | @fail i e => exact Or.inl ⟨_, _, RotateState.setCall_self _ _ _⟩
  | @find i order fault current hready hactive =>
    -- any other token stood before, and so did the key that is now claimed
    refine Or.inr (hsame (.call i) fun t ht => ?_)
    by_contra hcall
    have hbefore : Stands purpose s t :=
      ht.back hcall (fun _ _ _ h => h) (by simp [hready])
    have hcurrent : Stands purpose s (.key current.id) := by
      refine ⟨⟨current, hactive⟩, ?_⟩
      intro ⟨j, k, hfound, _⟩
      exact hserial j (by rw [hfound]; trivial)
    have heq := hone t (.key current.id) hbefore hcurrent
    subst heq
    exact ht.2 ⟨i, current, RotateState.setCall_self _ _ _, rfl⟩
  | @clear i order fault hready hnone =>
    -- there is no active key, and no other call
    refine Or.inr (hsame (.call i) fun t ht => ?_)
    by_contra hcall
    have hbefore : Stands purpose s t :=
      ht.back hcall (fun _ _ _ h => h) (by simp [hready])
    cases t with
    | key id =>
      obtain ⟨kp, hkp⟩ := hbefore.1
      exact hnone id kp hkp
    | call j => exact hserial j hbefore
  | @makeWay i fault current kp hfound hget =>
    -- nothing becomes active, and what is unclaimed now is not active
    have hbefore : ∀ t, Stands purpose ((s.setCall i .cleared).setStore
        (s.store.insert current.id { kp with status := .rotating })) t → Stands purpose s t := by
      intro t ht
      by_cases hcall : t = .call i
      · subst hcall
        show (s.calls i).UnderWay
        rw [hfound]
        trivial
      · have hother : ∀ id k, ActiveAt (s.store.insert current.id { kp with status := .rotating })
            purpose id k → id ≠ current.id ∧ ActiveAt s.store purpose id k := by
          intro id k hk
          rcases activeAt_insert_iff.mp hk with ⟨_, _, _, hrotating⟩ | hother
          · contradiction
          · exact hother
        refine ht.back hcall (fun id k _ hk => (hother id k hk).2) ?_
        intro k hk heq
        rw [hfound] at hk
        cases hk
        subst heq
        obtain ⟨k, hk⟩ := ht.1
        exact (hother _ k hk).1 rfl
    exact Or.inr fun t t' ht ht' => hone t t' (hbefore t ht) (hbefore t' ht')
  | @add i newTTL env kp hcleared hfresh hpurpose hactive =>
    have hway : Stands purpose s (.call i) := by
      show (s.calls i).UnderWay
      rw [hcleared]
      trivial
    -- the call was the one token, and it becomes its key
    refine Or.inr (hsame (.key kp.id) fun t ht => ?_)
    by_contra hkey
    have hcall : t ≠ .call i := by
      intro heq
      subst heq
      have hway : ((s.setCall i (.returned kp)).calls i).UnderWay := ht
      rw [RotateState.setCall_self] at hway
      exact hway
    refine hcall (hone t (.call i) (ht.back hcall ?_ (by simp [hcleared])) hway)
    intro id k hid hk
    rcases activeAt_insert_iff.mp hk with ⟨heq, _⟩ | ⟨_, hk⟩
    · exact absurd (by rw [hid, heq]) hkey
    · exact hk

/-! ## Section 4: Runs -/

theorem Failed.move (hfailed : Failed s) (hmove : Move purpose s a s') : Failed s' := by
  obtain ⟨j, e, hj⟩ := hfailed
  -- a call that has failed does not move
  have hstay : ∀ {i call} (store : KeyStore), s.calls i ≠ .failed e →
      Failed ((s.setCall i call).setStore store) := by
    intro i call store hne
    refine ⟨j, e, ?_⟩
    rw [RotateState.setStore_calls, RotateState.setCall_ne]
    · exact hj
    · intro heq
      exact hne (heq ▸ hj)
  cases hmove with
  | fail => exact ⟨_, _, RotateState.setCall_self _ _ _⟩
  | find hready _ => exact hstay s.store (by simp [hready])
  | clear hready _ => exact hstay s.store (by simp [hready])
  | makeWay hfound _ => exact hstay _ (by simp [hfound])
  | add hcleared _ _ _ => exact hstay _ (by simp [hcleared])

/-- A key of the purpose stays in the store. -/
def Stored (purpose : Purpose) (s : RotateState) (id : String) : Prop :=
  ∃ kp, s.store[id]? = some kp ∧ kp.purpose = purpose

theorem Stored.move {id : String} (hstored : Stored purpose s id) (hmove : Move purpose s a s') :
    Stored purpose s' id := by
  obtain ⟨k, hget, hpurpose⟩ := hstored
  cases hmove with
  | fail => exact ⟨k, hget, hpurpose⟩
  | find _ _ => exact ⟨k, hget, hpurpose⟩
  | clear _ _ => exact ⟨k, hget, hpurpose⟩
  | @makeWay i fault current kp _ hold =>
    by_cases hid : id = current.id
    · subst hid
      rw [hold] at hget
      cases hget
      exact ⟨{ k with status := .rotating }, by simp, hpurpose⟩
    · refine ⟨k, ?_, hpurpose⟩
      rw [RotateState.setStore_store, getElem?_insert_ite, if_neg hid]
      exact hget
  | @add i newTTL env kp _ hfresh _ _ =>
    refine ⟨k, ?_, hpurpose⟩
    rw [RotateState.setStore_store, getElem?_insert_ite, if_neg]
    · exact hget
    · intro heq
      exact hfresh (heq ▸ mem_of_getElem?_eq_some hget)

/-- What every run keeps. -/
structure Kept (purpose : Purpose) (s₀ s : RotateState) : Prop where
  tidy : Tidy s
  stored : ∀ id kp, ActiveAt s₀.store purpose id kp → Stored purpose s id
  returned : ∀ i kp, s.calls i = .returned kp → Stored purpose s kp.id
  /-- Once a call has begun, a token stands. -/
  begun : (∀ i, s.calls i = .ready) ∨ Failed s ∨ ∃ t, Stands purpose s t

theorem kept_init {s₀ : RotateState} (hinit : (rotators ed purpose).init s₀) :
    Kept purpose s₀ s₀ := by
  obtain ⟨hids, _, hready⟩ := hinit
  refine ⟨⟨hids, ?_⟩, ?_, ?_, Or.inl hready⟩
  · intro i current hfound
    rw [hready i] at hfound
    contradiction
  · intro id kp hkp
    exact ⟨kp, hkp.1, hkp.2.1⟩
  · intro i kp hreturned
    rw [hready i] at hreturned
    contradiction

/-- A call that has returned after a move had returned before, or saves its key now. -/
theorem returned_of_move (hmove : Move purpose s a s') {j : Nat} {k : KeyPair}
    (hreturned : s'.calls j = .returned k) :
    s.calls j = .returned k ∨ Stored purpose s' k.id := by
  have hback : ∀ {i call} (store : KeyStore), (∀ kp, call ≠ .returned kp) →
      ((s.setCall i call).setStore store).calls j = .returned k → s.calls j = .returned k := by
    intro i call store hne hcall
    rcases RotateState.calls_cases hcall with ⟨_, hnow⟩ | ⟨_, hbefore⟩
    · exact absurd hnow (hne k)
    · exact hbefore
  cases hmove with
  | fail => exact Or.inl (hback s.store (by simp) hreturned)
  | find _ _ => exact Or.inl (hback s.store (by simp) hreturned)
  | clear _ _ => exact Or.inl (hback s.store (by simp) hreturned)
  | makeWay _ _ => exact Or.inl (hback _ (by simp) hreturned)
  | @add i newTTL env kp _ _ hpurpose _ =>
    rcases RotateState.calls_cases hreturned with ⟨_, hnow⟩ | ⟨_, hbefore⟩
    · cases hnow
      exact Or.inr ⟨k, by simp, hpurpose⟩
    · exact Or.inl hbefore

/-- The first move of all is a lookup, after which its call is under way. -/
theorem stands_of_first (hready : ∀ i, s.calls i = .ready) (hmove : Move purpose s a s') :
    Failed s' ∨ ∃ t, Stands purpose s' t := by
  cases hmove with
  | fail => exact Or.inl ⟨_, _, RotateState.setCall_self _ _ _⟩
  | @find i _ _ _ _ _ => exact Or.inr ⟨.call i, stands_call s.store trivial⟩
  | @clear i _ _ _ _ => exact Or.inr ⟨.call i, stands_call s.store trivial⟩
  -- no call has come to its other two steps
  | makeWay hfound _ =>
    rw [hready] at hfound
    contradiction
  | add hcleared _ _ _ =>
    rw [hready] at hcleared
    contradiction

theorem Kept.move {s₀ : RotateState} (hkept : Kept purpose s₀ s) (hmove : Move purpose s a s') :
    Kept purpose s₀ s' := by
  refine ⟨hkept.tidy.move hmove, fun id kp hkp => (hkept.stored id kp hkp).move hmove, ?_, ?_⟩
  · intro i kp hreturned
    rcases returned_of_move hmove hreturned with hbefore | hstored
    · exact (hkept.returned i kp hbefore).move hmove
    · exact hstored
  · refine Or.inr ?_
    rcases hkept.begun with hready | hfailed | ⟨t, ht⟩
    · exact stands_of_first hready hmove
    · exact Or.inl (hfailed.move hmove)
    · rcases carried_of_move hkept.tidy hmove with hfailed | ⟨f, hcarried⟩
      · exact Or.inl hfailed
      · exact Or.inr ⟨f t, hcarried.stands t ht⟩

def TwoStand (purpose : Purpose) (s : RotateState) : Prop :=
  ∃ t t', t ≠ t' ∧ Stands purpose s t ∧ Stands purpose s t'

theorem TwoStand.move (htwo : TwoStand purpose s) (htidy : Tidy s) (hmove : Move purpose s a s') :
    Failed s' ∨ TwoStand purpose s' := by
  obtain ⟨t, t', hne, ht, ht'⟩ := htwo
  rcases carried_of_move htidy hmove with hfailed | ⟨f, hcarried⟩
  · exact Or.inl hfailed
  · refine Or.inr ⟨f t, f t', ?_, hcarried.stands t ht, hcarried.stands t' ht'⟩
    intro heq
    exact hne (hcarried.inj t t' ht ht' heq)

/-- A lookup beside a call that is under way leaves two calls under way. -/
theorem twoStand_of_not_serial (hserial : ¬ Serial s a) (hmove : Move purpose s a s') :
    Failed s' ∨ TwoStand purpose s' := by
  have htwo : ∀ {i j : Nat} {call : RotateCall}, s.calls i = .ready → (s.calls j).UnderWay →
      call.UnderWay → TwoStand purpose (s.setCall i call) := by
    intro i j call hready hway hcall
    have hne : j ≠ i := by
      intro heq
      rw [heq, hready] at hway
      exact hway
    refine ⟨.call i, .call j, ?_, stands_call s.store hcall, ?_⟩
    · intro heq
      cases heq
      exact hne rfl
    · show ((s.setCall i call).calls j).UnderWay
      rw [RotateState.setCall_ne _ _ hne]
      exact hway
  cases hmove with
  | fail => exact Or.inl ⟨_, _, RotateState.setCall_self _ _ _⟩
  | find hready _ =>
    obtain ⟨j, hway⟩ := not_forall_not.mp hserial
    exact Or.inr (htwo hready hway trivial)
  | clear hready _ =>
    obtain ⟨j, hway⟩ := not_forall_not.mp hserial
    exact Or.inr (htwo hready hway trivial)
  | makeWay _ _ => exact absurd trivial hserial
  | add _ _ _ _ => exact absurd trivial hserial

theorem atMostOneStands_init {s₀ : RotateState} (hinit : (rotators ed purpose).init s₀) :
    AtMostOneStands purpose s₀ := by
  obtain ⟨_, hone, hready⟩ := hinit
  have hkey : ∀ t, Stands purpose s₀ t → ∃ id kp, t = .key id ∧ ActiveAt s₀.store purpose id kp := by
    intro t ht
    cases t with
    | key id =>
      obtain ⟨kp, hkp⟩ := ht.1
      exact ⟨id, kp, rfl, hkp⟩
    | call i =>
      have hway : (s₀.calls i).UnderWay := ht
      rw [hready i] at hway
      exact absurd hway id
  intro t t' ht ht'
  obtain ⟨id, kp, rfl, hkp⟩ := hkey t ht
  obtain ⟨id', kp', rfl, hkp'⟩ := hkey t' ht'
  rw [hone id id' kp kp' hkp hkp']

/-- **Run lemma**: what a run keeps, and how many tokens a serial run has. -/
theorem run_kept {s₀ : RotateState} (hinit : (rotators ed purpose).init s₀)
    (hrun : (rotators ed purpose).Steps s₀ s) :
    Kept purpose s₀ s
      ∧ (((rotators ed purpose).restrict Serial).Steps s₀ s ∨ Failed s ∨ TwoStand purpose s) := by
  refine hrun.invariant (P := fun s => Kept purpose s₀ s
    ∧ (((rotators ed purpose).restrict Serial).Steps s₀ s ∨ Failed s ∨ TwoStand purpose s)) ?_
    ⟨kept_init hinit, Or.inl (System.Steps.refl s₀)⟩
  intro s a s' hboth hstep
  obtain ⟨hkept, hserial⟩ := hboth
  obtain ⟨hallowed, hmoved⟩ := hstep
  have hmove := move_of_step hkept.tidy hallowed hmoved
  refine ⟨hkept.move hmove, ?_⟩
  rcases hserial with hsteps | hfailed | htwo
  · by_cases hnext : Serial s a
    · exact Or.inl (hsteps.tail ⟨hnext, hallowed, hmoved⟩)
    · exact Or.inr (twoStand_of_not_serial hnext hmove)
  · exact Or.inr (Or.inl (hfailed.move hmove))
  · exact Or.inr (htwo.move hkept.tidy hmove)

theorem serial_run {s₀ : RotateState} (hinit : (rotators ed purpose).init s₀)
    (hrun : ((rotators ed purpose).restrict Serial).Steps s₀ s) :
    Kept purpose s₀ s ∧ (Failed s ∨ AtMostOneStands purpose s) := by
  refine hrun.invariant (P := fun s => Kept purpose s₀ s
    ∧ (Failed s ∨ AtMostOneStands purpose s)) ?_
    ⟨kept_init hinit, Or.inr (atMostOneStands_init hinit)⟩
  intro s a s' hboth hstep
  obtain ⟨hkept, hone⟩ := hboth
  obtain ⟨hserial, hallowed, hmoved⟩ := hstep
  have hmove := move_of_step hkept.tidy hallowed hmoved
  refine ⟨hkept.move hmove, ?_⟩
  rcases hone with hfailed | hone
  · exact Or.inl (hfailed.move hmove)
  · exact hone.move hserial hmove

/-! ## Section 5: One signer -/

theorem AllReturned.not_failed (hdone : AllReturned s) : ¬ Failed s := by
  intro ⟨i, e, hfailed⟩
  rcases hdone.2 i with hready | ⟨kp, hreturned⟩
  · rw [hready] at hfailed
    contradiction
  · rw [hreturned] at hfailed
    contradiction

/-- When all calls have returned, the tokens are the active keys. -/
theorem AllReturned.stands_iff (hdone : AllReturned s) (t : Token) :
    Stands purpose s t ↔ ∃ id, t = .key id ∧ ∃ kp, ActiveAt s.store purpose id kp := by
  have hidle : ∀ i, ¬ (s.calls i).UnderWay ∧ ∀ k, s.calls i ≠ .found k := by
    intro i
    rcases hdone.2 i with hready | ⟨kp, hreturned⟩
    · simp [hready, RotateCall.UnderWay]
    · simp [hreturned, RotateCall.UnderWay]
  constructor
  · intro ht
    cases t with
    | key id => exact ⟨id, rfl, ht.1⟩
    | call i => exact absurd ht (hidle i).1
  · rintro ⟨id, rfl, hactive⟩
    refine ⟨hactive, ?_⟩
    intro ⟨i, k, hfound, _⟩
    exact (hidle i).2 k hfound

theorem Kept.others {s₀ : RotateState} (hkept : Kept purpose s₀ s) {id : String}
    (hwas : (∃ kp, ActiveAt s₀.store purpose id kp)
      ∨ ∃ i kp, s.calls i = .returned kp ∧ kp.id = id)
    (hnot : ¬ ∃ kp, ActiveAt s.store purpose id kp) :
    ∃ kp, s.store[id]? = some kp ∧ (kp.status = .rotating ∨ kp.status = .retired) := by
  have hstored : Stored purpose s id := by
    rcases hwas with ⟨kp, hkp⟩ | ⟨i, kp, hreturned, rfl⟩
    · exact hkept.stored id kp hkp
    · exact hkept.returned i kp hreturned
  obtain ⟨kp, hget, hpurpose⟩ := hstored
  refine ⟨kp, hget, ?_⟩
  cases hstatus : kp.status with
  | active => exact absurd ⟨kp, hget, hpurpose, hstatus⟩ hnot
  | rotating => exact Or.inl rfl
  | retired => exact Or.inr rfl

/-- **Concurrent rotations** that all return leave one signer exactly when no call
    began while another was under way. -/
theorem rotations_oneSigner_iff {s₀ : RotateState} (hinit : (rotators ed purpose).init s₀)
    (hrun : (rotators ed purpose).Steps s₀ s) (hdone : AllReturned s) :
    OneSigner purpose s₀ s ↔ ((rotators ed purpose).restrict Serial).Steps s₀ s := by
  obtain ⟨hkept, hserial⟩ := run_kept hinit hrun
  constructor
  · intro hsigner
    obtain ⟨id, hid⟩ := hsigner.one
    rcases hserial with hsteps | hfailed | ⟨t, t', hne, ht, ht'⟩
    · exact hsteps
    · exact absurd hfailed hdone.not_failed
    · -- two tokens are two active keys
      obtain ⟨id₁, rfl, hactive₁⟩ := (hdone.stands_iff t).mp ht
      obtain ⟨id₂, rfl, hactive₂⟩ := (hdone.stands_iff t').mp ht'
      exact absurd (by rw [(hid id₁).mp hactive₁, (hid id₂).mp hactive₂]) hne
  · intro hsteps
    refine ⟨?_, fun id hwas hnot => hkept.others hwas hnot⟩
    -- at most one token stands in a serial run, and at least one in any
    have hone : AtMostOneStands purpose s :=
      (serial_run hinit hsteps).2.resolve_left hdone.not_failed
    have hsome : ∃ t, Stands purpose s t := by
      rcases hkept.begun with hready | hfailed | hstands
      · obtain ⟨i, kp, hreturned⟩ := hdone.1
        rw [hready i] at hreturned
        contradiction
      · exact absurd hfailed hdone.not_failed
      · exact hstands
    obtain ⟨t, ht⟩ := hsome
    obtain ⟨id, rfl, hactive⟩ := (hdone.stands_iff t).mp ht
    refine ⟨id, fun id' => ⟨fun hactive' => ?_, fun heq => heq ▸ hactive⟩⟩
    have heq := hone _ _ ((hdone.stands_iff _).mpr ⟨id', rfl, hactive'⟩) ht
    cases heq
    rfl

/-! ## Section 6: Two calls that find the same key -/

/-- One signing key, and no call yet. -/
def oneKeyState : RotateState :=
  ⟨(∅ : KeyStore).insert "key-1" (tokenKey "key-1" firstPrivate), fun _ => .ready⟩

/-- Both calls have found the key before either marks it. -/
def bothFound : RotateState :=
  (oneKeyState.setCall 0 (.found (tokenKey "key-1" firstPrivate))).setCall 1
    (.found (tokenKey "key-1" firstPrivate))

def rotatedKey : KeyPair := { tokenKey "key-1" firstPrivate with status := .rotating }

/-- Both have marked it. -/
def bothCleared : RotateState :=
  ((((bothFound.setCall 0 .cleared).setStore (oneKeyState.store.insert "key-1" rotatedKey)).setCall 1
    .cleared).setStore ((oneKeyState.store.insert "key-1" rotatedKey).insert "key-1" rotatedKey))

/-- Both have saved a new key. -/
def bothReturned : RotateState :=
  ((((bothCleared.setCall 0 (.returned (tokenKey "key-2" secondPrivate))).setStore
    (bothCleared.store.insert "key-2" (tokenKey "key-2" secondPrivate))).setCall 1
    (.returned (tokenKey "key-3" thirdPrivate))).setStore
    ((bothCleared.store.insert "key-2" (tokenKey "key-2" secondPrivate)).insert "key-3"
      (tokenKey "key-3" thirdPrivate)))

theorem oneKeyState_init : (rotators rolloverScheme purposeJWTSigning).init oneKeyState := by
  have hget : ∀ {id : String} {kp : KeyPair}, oneKeyState.store[id]? = some kp →
      id = "key-1" ∧ kp = tokenKey "key-1" firstPrivate := by
    intro id kp hget
    rcases getElem?_insert_cases hget with hnew | ⟨_, hold⟩
    · exact hnew
    · simp at hold
  refine ⟨?_, ?_, fun _ => rfl⟩
  · intro id kp hkp
    obtain ⟨rfl, rfl⟩ := hget hkp
    rfl
  · intro id id' kp kp' hkp hkp'
    rw [(hget hkp.1).1, (hget hkp'.1).1]

theorem bothReturned_steps :
    (rotators rolloverScheme purposeJWTSigning).Steps oneKeyState bothReturned := by
  have hnone : (rotators rolloverScheme purposeJWTSigning).Steps oneKeyState oneKeyState :=
    System.Steps.refl _
  have hfirst : (rotators rolloverScheme purposeJWTSigning).Steps oneKeyState
      (oneKeyState.setCall 0 (.found (tokenKey "key-1" firstPrivate))) :=
    hnone.tail (l := .activeByPurpose 0 [tokenKey "key-1" firstPrivate] none) ⟨.refl _, rfl⟩
  have hfound : (rotators rolloverScheme purposeJWTSigning).Steps oneKeyState bothFound :=
    hfirst.tail (l := .activeByPurpose 1 [tokenKey "key-1" firstPrivate] none) ⟨.refl _, rfl⟩
  have hmarked : (rotators rolloverScheme purposeJWTSigning).Steps oneKeyState
      ((bothFound.setCall 0 .cleared).setStore (oneKeyState.store.insert "key-1" rotatedKey)) :=
    hfound.tail (l := .updateStatus 0 none) ⟨trivial, rfl⟩
  have hcleared : (rotators rolloverScheme purposeJWTSigning).Steps oneKeyState bothCleared :=
    hmarked.tail (l := .updateStatus 1 none) ⟨trivial, rfl⟩
  have hsaved : (rotators rolloverScheme purposeJWTSigning).Steps oneKeyState
      ((bothCleared.setCall 0 (.returned (tokenKey "key-2" secondPrivate))).setStore
        (bothCleared.store.insert "key-2" (tokenKey "key-2" secondPrivate))) :=
    hcleared.tail (l := .save 0 (86400 * 10 ^ 9) (quietEnv 0 [] "key-2" secondPrivate))
      ⟨⟨by decide, by simp [quietEnv, bothCleared, oneKeyState]⟩, rfl⟩
  exact hsaved.tail (l := .save 1 (86400 * 10 ^ 9) (quietEnv 0 [] "key-3" thirdPrivate))
    ⟨⟨by decide, by simp [quietEnv, bothCleared, oneKeyState]⟩, rfl⟩

theorem bothReturned_done : AllReturned bothReturned := by
  refine ⟨⟨0, _, rfl⟩, fun i => ?_⟩
  by_cases hone : i = 1
  · subst hone
    exact Or.inr ⟨_, rfl⟩
  · by_cases hzero : i = 0
    · subst hzero
      exact Or.inr ⟨_, rfl⟩
    · simp [bothReturned, bothCleared, bothFound, oneKeyState, hone, hzero]

theorem rotations_oneSigner_iff_overlapping :
    (rotators rolloverScheme purposeJWTSigning).Steps oneKeyState bothReturned
      ∧ (OneSigner purposeJWTSigning oneKeyState bothReturned ↔
        ((rotators rolloverScheme purposeJWTSigning).restrict Serial).Steps oneKeyState
          bothReturned) :=
  ⟨bothReturned_steps,
    rotations_oneSigner_iff oneKeyState_init bothReturned_steps bothReturned_done⟩

/-- Two calls from a store with one active key, interleaved so that both return,
    leave two active keys. -/
theorem rotations_leave_two_signers :
    (rotators rolloverScheme purposeJWTSigning).init oneKeyState
      ∧ (rotators rolloverScheme purposeJWTSigning).Steps oneKeyState bothReturned
      ∧ AllReturned bothReturned
      ∧ ActiveAt bothReturned.store purposeJWTSigning "key-2" (tokenKey "key-2" secondPrivate)
      ∧ ActiveAt bothReturned.store purposeJWTSigning "key-3" (tokenKey "key-3" thirdPrivate)
      ∧ ¬ OneSigner purposeJWTSigning oneKeyState bothReturned := by
  have hsecond : ActiveAt bothReturned.store purposeJWTSigning "key-2"
      (tokenKey "key-2" secondPrivate) := ⟨rfl, rfl, rfl⟩
  have hthird : ActiveAt bothReturned.store purposeJWTSigning "key-3"
      (tokenKey "key-3" thirdPrivate) := ⟨rfl, rfl, rfl⟩
  refine ⟨oneKeyState_init, bothReturned_steps, bothReturned_done, hsecond, hthird, ?_⟩
  intro hsigner
  obtain ⟨id, hid⟩ := hsigner.one
  have heq : "key-2" = "key-3" := ((hid _).mp ⟨_, hsecond⟩).trans ((hid _).mp ⟨_, hthird⟩).symm
  exact absurd heq (by decide)

end Owasaka.Pki
