import Owasaka.Events.Signing
import Owasaka.Transparency.TreeHead

/-! # Signers and their verifiers

    A signer takes the active key of its purpose by status alone; its verifier
    also looks at the key's `NotAfter`.  `KeyPair.isUsable`, which says that a
    key signs within its validity window only, is called by neither signer.  The
    main result: over every reachable store, what is signed at a time verifies
    at that time exactly when no active key of the two purposes is past its
    `NotAfter`. -/

namespace Owasaka.Events

open Pki Transparency

/-- Whatever head is signed at `t`, with the map iterated in any order, verifies
    at `t`. -/
def HeadsVerify (ed : SignatureScheme) (store : KeyStore) (t : Int) : Prop :=
  ∀ env size root sth, store.Order env.order → env.now = t →
    signSTH ed env size root = .ok sth → verifySTH ed.verify store sth t = .ok ()

/-- Whatever event is signed at `t` verifies at `t`. -/
def EventsVerify (ed : SignatureScheme) (marshal : NetworkEvent → Except String Bytes)
    (store : KeyStore) (t : Int) : Prop :=
  ∀ env e e', store.Order env.order → env.now = t →
    Signer.sign ed marshal env (some e) = (.ok (), some e') →
      Verifier.verify ed.verify marshal store t e' = .ok ()

/-- No active key of the purpose is past its `NotAfter`. -/
def ActiveKeysCurrent (store : KeyStore) (purpose : Purpose) (t : Int) : Prop :=
  ∀ (id : String) (kp : KeyPair), store[id]? = some kp → kp.purpose = purpose →
    kp.status = .active → t ≤ kp.notAfter

variable {ed : SignatureScheme} {marshal : NetworkEvent → Except String Bytes} {s : AuthorityState}
  {t : Int}

/-- Every active key is the first of its purpose in some iteration order. -/
theorem exists_env_active {id : String} {kp : KeyPair} (hget : s.store[id]? = some kp)
    (hactive : kp.status = .active) (t : Int) :
    ∃ env, s.store.Order env.order ∧ env.now = t ∧ activeKey env kp.purpose = .ok kp := by
  have hmem : kp ∈ s.store.toList.map Prod.snd :=
    (KeyStore.Order.mem (List.Perm.refl _)).mpr ⟨id, hget⟩
  refine ⟨quietEnv t (kp :: (s.store.toList.map Prod.snd).erase kp) "" [], ?_, rfl, ?_⟩
  · exact (List.perm_cons_erase hmem).symm
  · simp [activeKey, faulty, quietEnv, KeyStore.activeByPurpose, hactive]

/-- An active key verifies as long as it is not past its `NotAfter`. -/
theorem isVerifyable_of_active {kp : KeyPair} (hactive : kp.status = .active) :
    kp.isVerifyable t = true ↔ t ≤ kp.notAfter := by
  simp [KeyPair.isVerifyable_iff, hactive]

theorem headsVerify_iff (hed : ed.Ideal) (hsized : ed.Sized) (hkept : WellKept ed s.store) :
    HeadsVerify ed s.store t ↔ ActiveKeysCurrent s.store purposeTransparencyLogSTH t := by
  constructor
  · intro hverify id kp hget hpurpose hactive
    obtain ⟨env, horder, hnow, hkey⟩ := exists_env_active hget hactive t
    rw [hpurpose] at hkey
    have hok := verifySTH_ok_iff.mp
      (hverify env 0 zeroHash _ horder hnow (signSTH_ok_iff.mpr ⟨kp, hkey, rfl⟩))
    obtain ⟨_, _, _, kp', hget', hver, _⟩ := hok
    -- the head names the key that signed it
    obtain ⟨rfl, _, _⟩ := hkept id kp hget
    rw [show s.store[kp.id]? = some kp' from hget'] at hget
    cases hget
    exact (isVerifyable_of_active hactive).mp hver
  · intro hcurrent env size root sth horder hnow hsign
    obtain ⟨kp, hkey, rfl⟩ := signSTH_ok_iff.mp hsign
    obtain ⟨hget, hne, hpurpose, hactive, hpublic⟩ := activeKey_ok hkept horder hkey
    refine verifySTH_ok_iff.mpr ⟨by simp, hsized.ne_nil _ _, hne, kp, hget, ?_, hpurpose, ?_⟩
    · exact (isVerifyable_of_active hactive).mpr (hcurrent kp.id kp hget hpurpose hactive)
    · simp only [Bytes.copyTo_toList, hpublic]
      exact hed.verify_sign _ _

theorem eventsVerify_iff (hed : ed.Ideal) (hsized : ed.Sized) (hkept : WellKept ed s.store) :
    EventsVerify ed marshal s.store t ↔
      (∃ e : NetworkEvent, (e.canonicalBytes marshal).isOk) →
        ActiveKeysCurrent s.store purposeEventSigning t := by
  constructor
  · intro hverify ⟨e, hmarshal⟩ id kp hget hpurpose hactive
    obtain ⟨env, horder, hnow, hkey⟩ := exists_env_active hget hactive t
    rw [hpurpose] at hkey
    cases hcanonical : e.canonicalBytes marshal with
    | error cause =>
      rw [hcanonical] at hmarshal
      contradiction
    | ok canonical =>
      have hok := Verifier.verify_ok_iff.mp (hverify env e _ horder hnow
        (Signer.sign_ok_iff.mpr ⟨kp, canonical, hkey, hcanonical, rfl⟩))
      obtain ⟨_, _, kp', _, hget', hver, _⟩ := hok
      obtain ⟨rfl, _, _⟩ := hkept id kp hget
      rw [show s.store[kp.id]? = some kp' from hget'] at hget
      cases hget
      exact (isVerifyable_of_active hactive).mp hver
  · intro hcurrent env e e' horder hnow hsign
    obtain ⟨kp, canonical, hkey, hcanonical, rfl⟩ := Signer.sign_ok_iff.mp hsign
    obtain ⟨hget, hne, hpurpose, hactive, hpublic⟩ := activeKey_ok hkept horder hkey
    have hmarshal : (e.canonicalBytes marshal).isOk := by rw [hcanonical]; rfl
    refine Verifier.verify_ok_iff.mpr
      ⟨hsized.ne_nil _ _, hne, kp, canonical, hget, ?_, hpurpose, hcanonical, ?_⟩
    · exact (isVerifyable_of_active hactive).mpr (hcurrent ⟨e, hmarshal⟩ kp.id kp hget hpurpose hactive)
    · rw [hpublic]
      exact hed.verify_sign _ _

/-- **Signers agree with their verifiers** at a time exactly when no active key of
    the two purposes is past its `NotAfter`. -/
theorem signers_agree_iff (hed : ed.Ideal) (hsized : ed.Sized)
    (hreach : (authoritySystem ed).Reachable s) :
    HeadsVerify ed s.store t ∧ EventsVerify ed marshal s.store t ↔
      ActiveKeysCurrent s.store purposeTransparencyLogSTH t
        ∧ ((∃ e : NetworkEvent, (e.canonicalBytes marshal).isOk) →
            ActiveKeysCurrent s.store purposeEventSigning t) := by
  have hkept := wellKept_of_reachable hreach
  rw [headsVerify_iff hed hsized hkept, eventsVerify_iff hed hsized hkept]

/-! ## A key past its `NotAfter` -/

def sthPrivate : Bytes := Bytes.bigEndian 64
  0x0303030303030303030303030303030303030303030303030303030303030303ed4928c628d1c2c6eae90338905995612959273a5c63f93636c14614ac8737d1

def hour : Int := 3600 * 10 ^ 9

/-- A key for tree heads, generated at time zero for a day. -/
def sthKey : KeyPair :=
  ⟨"sth-key", purposeTransparencyLogSTH, sthPrivate.drop 32, sthPrivate, .active, 0, 0, 24 * hour⟩

def sthStore : KeyStore := (∅ : KeyStore).insert "sth-key" sthKey

def lateSignature : Bytes := Bytes.bigEndian 64
  0x499a8baa89c92729b5b5086e45a12568c66943c7fcead243cf07485e98ea964134e5275a039807f627d4389ec26cc97507a6e11e523cb03bd70510b9284d4000

/-- Ed25519 on the head of one leaf at thirty hours. -/
def lateScheme : SignatureScheme :=
  .knownSized [((sthPrivate.drop 32, canonicalSTHBytes 1 zeroHash (30 * hour)), lateSignature)]

def lateHead : STH := ⟨1, zeroHash.toList, 30 * hour, lateSignature, "sth-key"⟩

theorem lateScheme_sized : lateScheme.Sized :=
  SignatureScheme.knownSized_sized (by simp [lateSignature])

theorem sthStore_reachable : (authoritySystem lateScheme).Reachable ⟨sthStore, 0⟩ := by
  have hnone : (authoritySystem lateScheme).Reachable ⟨∅, 0⟩ := System.Reachable.init rfl
  exact hnone.tail
    (l := (.generateKeyPair purposeTransparencyLogSTH (24 * hour),
      quietEnv 0 [] "sth-key" sthPrivate))
    ⟨.refl _, by decide, by simp [quietEnv], rfl⟩

theorem signers_agree_iff_sthStore :
    (authoritySystem lateScheme).Reachable ⟨sthStore, 0⟩
      ∧ ∀ marshal, HeadsVerify lateScheme sthStore hour
          ∧ EventsVerify lateScheme marshal sthStore hour ↔
        ActiveKeysCurrent sthStore purposeTransparencyLogSTH hour
          ∧ ((∃ e : NetworkEvent, (e.canonicalBytes marshal).isOk) →
              ActiveKeysCurrent sthStore purposeEventSigning hour) := by
  refine ⟨sthStore_reachable, ?_⟩
  intro marshal
  exact signers_agree_iff (s := ⟨sthStore, 0⟩) (SignatureScheme.knownSized_ideal _) lateScheme_sized
    sthStore_reachable

/-- Six hours after its `NotAfter` the key still signs, and the head is refused. -/
theorem expired_key_signs_refused_head :
    (authoritySystem lateScheme).Reachable ⟨sthStore, 0⟩
      ∧ signSTH lateScheme (quietEnv (30 * hour) [sthKey] "" []) 1 zeroHash = .ok lateHead
      ∧ verifySTH lateScheme.verify sthStore lateHead (30 * hour) = .error .signerKeyRetired
      ∧ ¬ HeadsVerify lateScheme sthStore (30 * hour) := by
  have hsign : signSTH lateScheme (quietEnv (30 * hour) [sthKey] "" []) 1 zeroHash
      = .ok lateHead := by decide +kernel
  have hrefused : verifySTH lateScheme.verify sthStore lateHead (30 * hour)
      = .error .signerKeyRetired := by decide +kernel
  refine ⟨sthStore_reachable, hsign, hrefused, ?_⟩
  intro hverify
  have hok := hverify (quietEnv (30 * hour) [sthKey] "" []) 1 zeroHash lateHead (.refl _) rfl hsign
  rw [hrefused] at hok
  contradiction

end Owasaka.Events
