import Owasaka.Pki.ConcurrentRotation

/-! # Rotations that fail

    `Rotate` lets the active key make way before it generates the next one.  The status
    is not restored when the entropy cannot be read or the new key cannot be saved, so
    a call that fails there leaves the purpose without the key it had. -/

namespace Owasaka.Pki

variable {ed : SignatureScheme} {env : Env} {s : KeyStore} {purpose : Purpose} {newTTL : Int}

/-- A call that fails leaves the keys and their statuses as they were. -/
def FailureKeeps (ed : SignatureScheme) (env : Env) (purpose : Purpose) (newTTL : Int)
    (s : KeyStore) : Prop :=
  ∀ e, (rotate ed env purpose newTTL s).1 = .error e → (rotate ed env purpose newTTL s).2 = s

/-- Nothing keeps the next key from being generated and saved. -/
structure CanGenerate (env : Env) (purpose : Purpose) : Prop where
  purpose : purpose.text ≠ ""
  entropy : ∃ priv, env.entropy = .ok priv
  save : env.saveFault = none
  id : env.id ≠ ""

theorem generateKeyPair_isOk_iff :
    (∃ kp, (generateKeyPair ed env purpose newTTL s).1 = .ok kp) ↔ CanGenerate env purpose := by
  unfold generateKeyPair
  by_cases hpurpose : purpose.text = ""
  · rw [if_pos hpurpose]
    exact iff_of_false (by simp) fun hcan => hcan.purpose hpurpose
  · rw [if_neg hpurpose]
    cases hentropy : env.entropy with
    | error e =>
      refine iff_of_false (by simp) fun hcan => ?_
      obtain ⟨priv, hpriv⟩ := hcan.entropy
      rw [hentropy] at hpriv
      contradiction
    | ok priv =>
      cases hfault : env.saveFault with
      | some e =>
        refine iff_of_false (by simp [faulty]) fun hcan => ?_
        exact absurd (hfault.symm.trans hcan.save) (by simp)
      | none =>
        by_cases hid : env.id = ""
        · exact iff_of_false (by simp [faulty, KeyStore.save, hid]) fun hcan => hcan.id hid
        · exact iff_of_true (by simp [faulty, KeyStore.save, hid])
            ⟨hpurpose, ⟨priv, hentropy⟩, hfault, hid⟩

/-- The way of a call past its lookup and its status update. -/
theorem rotate_of_updated {current kp : KeyPair} (hactive : activeKey env purpose = .ok current)
    (hupdate : env.updateFault = none) (hget : s[current.id]? = some kp) :
    rotate ed env purpose newTTL s
      = generateKeyPair ed env purpose newTTL (s.insert current.id { kp with status := .rotating }) := by
  simp [rotate, hactive, hupdate, faulty, KeyStore.updateStatus, hget]

/-- A generation that fails leaves the store. -/
theorem generateKeyPair_store_of_error {e : PkiError}
    (herror : (generateKeyPair ed env purpose newTTL s).1 = .error e) :
    (generateKeyPair ed env purpose newTTL s).2 = s := by
  have hpair : generateKeyPair ed env purpose newTTL s
      = (.error e, (generateKeyPair ed env purpose newTTL s).2) := by rw [← herror]
  exact generateKeyPair_error hpair

/-- For every store, purpose and TTL and wherever the call fails: a failing rotation
    leaves the store as it was if and only if an active key whose status it updates is
    followed by a key that can be generated. -/
theorem failureKeeps_iff (hids : StoredByID s) (horder : s.Order env.order) :
    FailureKeeps ed env purpose newTTL s ↔
      ∀ current, activeKey env purpose = .ok current → env.updateFault = none →
        CanGenerate env purpose := by
  constructor
  · intro hkeeps current hactive hupdate
    obtain ⟨⟨id, hget⟩, _, hstatus⟩ := KeyStore.activeByPurpose_ok horder (faulty_ok hactive).2
    obtain rfl := hids id current hget
    have hrotate := @rotate_of_updated ed env s purpose newTTL current current hactive hupdate hget
    by_contra hcannot
    -- the call fails, and the key that was active is rotating
    cases hgen : (generateKeyPair ed env purpose newTTL
        (s.insert current.id { current with status := .rotating })).1 with
    | ok kp => exact hcannot (generateKeyPair_isOk_iff.mp ⟨kp, hgen⟩)
    | error e =>
      have hsame := hkeeps e (by rw [hrotate, hgen])
      rw [hrotate, generateKeyPair_store_of_error hgen] at hsame
      have hnow : s[current.id]? = some { current with status := .rotating } := by
        rw [← hsame]
        simp
      rw [hget] at hnow
      have hrotating := congrArg KeyPair.status (Option.some.inj hnow)
      rw [hstatus] at hrotating
      contradiction
  · intro hcan e herror
    unfold rotate at herror ⊢
    cases hactive : activeKey env purpose with
    | error e' =>
      simp only [hactive] at herror ⊢
      by_cases hnone : e' = .noActiveKey
      · rw [if_pos hnone] at herror ⊢
        exact generateKeyPair_store_of_error herror
      · rw [if_neg hnone]
    | ok current =>
      simp only [hactive] at herror ⊢
      cases hupdated : faulty env.updateFault (s.updateStatus current.id .rotating) with
      | error e' => rfl
      | ok s' =>
        simp only [hupdated] at herror ⊢
        obtain ⟨kp, hok⟩ := generateKeyPair_isOk_iff.mpr (hcan current hactive (faulty_ok hupdated).1)
        rw [hok] at herror
        contradiction

/-! ## A purpose without a key -/

/-- One signing key for tokens. -/
def oneKeyStore : KeyStore := (∅ : KeyStore).insert "key-1" (tokenKey "key-1" firstPrivate)

/-- The entropy source fails. -/
def noEntropyEnv : Env :=
  { quietEnv 0 [tokenKey "key-1" firstPrivate] "key-2" secondPrivate with entropy := .error "EOF" }

theorem oneKeyStore_reachable : (authoritySystem rolloverScheme).Reachable ⟨oneKeyStore, 0⟩ := by
  have hnone : (authoritySystem rolloverScheme).Reachable ⟨∅, 0⟩ := System.Reachable.init rfl
  exact hnone.tail (l := (.generateKeyPair purposeJWTSigning (86400 * 10 ^ 9),
    quietEnv 0 [] "key-1" firstPrivate)) ⟨.refl _, by decide, by simp [quietEnv], rfl⟩

theorem storedByID_oneKeyStore : StoredByID oneKeyStore :=
  fun id kp hget => (wellKept_of_reachable oneKeyStore_reachable id kp hget).1

theorem failureKeeps_iff_oneKey :
    FailureKeeps rolloverScheme noEntropyEnv purposeJWTSigning (86400 * 10 ^ 9) oneKeyStore ↔
      ∀ current, activeKey noEntropyEnv purposeJWTSigning = .ok current →
        noEntropyEnv.updateFault = none → CanGenerate noEntropyEnv purposeJWTSigning :=
  failureKeeps_iff storedByID_oneKeyStore (.refl _)

/-- The rotation fails, and no key of the purpose is active any more. -/
theorem failed_rotation_disarms :
    (authoritySystem rolloverScheme).Reachable ⟨oneKeyStore, 0⟩
      ∧ ActiveAt oneKeyStore purposeJWTSigning "key-1" (tokenKey "key-1" firstPrivate)
      ∧ (rotate rolloverScheme noEntropyEnv purposeJWTSigning (86400 * 10 ^ 9) oneKeyStore).1
          = .error (.generate "EOF")
      ∧ (∀ id kp, ¬ ActiveAt (rotate rolloverScheme noEntropyEnv purposeJWTSigning (86400 * 10 ^ 9)
          oneKeyStore).2 purposeJWTSigning id kp)
      ∧ ¬ FailureKeeps rolloverScheme noEntropyEnv purposeJWTSigning (86400 * 10 ^ 9) oneKeyStore := by
  have hget : oneKeyStore["key-1"]? = some (tokenKey "key-1" firstPrivate) := by simp [oneKeyStore]
  have hactive : ActiveAt oneKeyStore purposeJWTSigning "key-1" (tokenKey "key-1" firstPrivate) :=
    ⟨hget, rfl, rfl⟩
  have herror : (rotate rolloverScheme noEntropyEnv purposeJWTSigning (86400 * 10 ^ 9)
      oneKeyStore).1 = .error (.generate "EOF") := by decide +kernel
  -- the status was updated before the generation failed
  have hstore : (rotate rolloverScheme noEntropyEnv purposeJWTSigning (86400 * 10 ^ 9) oneKeyStore).2
      = oneKeyStore.insert "key-1" { tokenKey "key-1" firstPrivate with status := .rotating } := by
    have hrotate := @rotate_of_updated rolloverScheme noEntropyEnv oneKeyStore purposeJWTSigning
      (86400 * 10 ^ 9) _ _ (show activeKey noEntropyEnv purposeJWTSigning
        = .ok (tokenKey "key-1" firstPrivate) by decide +kernel) rfl hget
    rw [hrotate] at herror ⊢
    exact generateKeyPair_store_of_error herror
  have hnone : ∀ id kp, ¬ ActiveAt (rotate rolloverScheme noEntropyEnv purposeJWTSigning
      (86400 * 10 ^ 9) oneKeyStore).2 purposeJWTSigning id kp := by
    rintro id kp ⟨hkp, _, hstatus⟩
    rw [hstore] at hkp
    rcases getElem?_insert_cases hkp with ⟨_, rfl⟩ | ⟨hne, hkp⟩
    · contradiction
    · rw [oneKeyStore, getElem?_insert_ite, if_neg hne] at hkp
      simp at hkp
  refine ⟨oneKeyStore_reachable, hactive, herror, hnone, ?_⟩
  intro hkeeps
  exact hnone _ _ ((hkeeps _ herror).symm ▸ hactive)

end Owasaka.Pki
