import Owasaka.Transparency.TreeHead

/-! # Authenticity of tree heads

    Runs of the authority, of `SignSTH` and of the other signers, over one key
    store.  Ed25519 is ideal: a signature verifies when a call of the run made
    it with that key on those bytes.

    The signed bytes hold the time modulo `2 ^ 64` nanoseconds.  `VerifySTH`
    therefore accepts a head of the run also under a timestamp that differs by a
    multiple of `2 ^ 64` nanoseconds, some 584 years, and JSON carries such a
    timestamp.  The main result says for which timestamps that is possible. -/

namespace Owasaka.Transparency

open Pki

/-! ## Section 1: Runs -/

structure HeadState where
  authority : AuthorityState
  /-- Private key and message of every signature made so far. -/
  signed : List (Bytes × Bytes)
  /-- The heads that `SignSTH` returned. -/
  heads : List STH

inductive HeadAction where
  | authority (call : AuthorityCall) (env : Env)
  | signSTH (env : Env) (size : UInt64) (root : RootHash)
  /-- Another signer signs with a key of another purpose. -/
  | signOther (kp : KeyPair) (msg : Bytes)

/-- January 1, 2201. -/
def startOf2201 : Int := 7289654400 * 10 ^ 9

/-- The calls of `ed25519.Sign` that `SignSTH` makes. -/
def signSTHCalls (env : Env) (size : UInt64) (root : RootHash) : List (Bytes × Bytes) :=
  match activeKey env purposeTransparencyLogSTH with
  | .error _ => []
  | .ok kp => [(kp.privateKey, canonicalSTHBytes size root env.now)]

def HeadState.afterSignSTH (ed : SignatureScheme) (env : Env) (size : UInt64) (root : RootHash)
    (s : HeadState) : HeadState :=
  match signSTH ed env size root with
  | .error _ => s
  | .ok sth =>
    { s with signed := signSTHCalls env size root ++ s.signed, heads := sth :: s.heads }

/-- No two keys have the same public key. -/
def PublicKeysDistinct (store : KeyStore) : Prop :=
  ∀ (id id' : String) (kp kp' : KeyPair), store[id]? = some kp → store[id']? = some kp' →
    kp.publicKey = kp'.publicKey → id = id'

/-- `GenerateKey` does not repeat a key; `SignSTH` is called in the years 1970 to
    2200. -/
def headSystem (ed : SignatureScheme) : System HeadState HeadAction where
  init := fun s => (authoritySystem ed).init s.authority ∧ s.signed = [] ∧ s.heads = []
  step := fun s l s' =>
    match l with
    | .authority call env =>
      (authoritySystem ed).step s.authority (call, env) s'.authority
        ∧ PublicKeysDistinct s'.authority.store ∧ s'.signed = s.signed ∧ s'.heads = s.heads
    | .signSTH env size root =>
      s.authority.store.Order env.order ∧ 0 ≤ env.now ∧ env.now < startOf2201
        ∧ s' = s.afterSignSTH ed env size root
    | .signOther kp msg =>
      s.authority.store[kp.id]? = some kp ∧ kp.purpose ≠ purposeTransparencyLogSTH
        ∧ s' = { s with signed := (kp.privateKey, msg) :: s.signed }

/-! ## Section 2: The invariant -/

/-- The bytes that `VerifySTH` checks a head's signature on. -/
def STH.canonical (sth : STH) : Bytes :=
  canonicalSTHBytes sth.treeSize (Bytes.copyTo 32 sth.rootHash) sth.timestamp

/-- What is known of a head that `SignSTH` returned. -/
structure SignedHead (ed : SignatureScheme) (s : HeadState) (h : STH) : Prop where
  rootHash : h.rootHash.length = 32
  timestamp : 0 ≤ h.timestamp ∧ h.timestamp < startOf2201
  key : ∃ kp, s.authority.store[h.signerKeyID]? = some kp
    ∧ kp.purpose = purposeTransparencyLogSTH ∧ (kp.privateKey, h.canonical) ∈ s.signed
    ∧ h.signature = ed.sign kp.privateKey h.canonical

/-- A signature was made with a key of the store; with a key of the log, it is
    that of a head. -/
def Accounted (s : HeadState) (call : Bytes × Bytes) : Prop :=
  ∃ id kp, s.authority.store[id]? = some kp ∧ kp.privateKey = call.1
    ∧ (kp.purpose = purposeTransparencyLogSTH →
        ∃ h ∈ s.heads, h.signerKeyID = id ∧ h.canonical = call.2)

structure Genuine (ed : SignatureScheme) (s : HeadState) : Prop where
  kept : WellKept ed s.authority.store
  distinct : PublicKeysDistinct s.authority.store
  heads : ∀ h ∈ s.heads, SignedHead ed s h
  signed : ∀ call ∈ s.signed, Accounted s call

variable {ed : SignatureScheme} {s s' : HeadState}

theorem SignedHead.mono (hstay : KeysStay s.authority.store s'.authority.store)
    (hsigned : s.signed ⊆ s'.signed) {h : STH} (hhead : SignedHead ed s h) :
    SignedHead ed s' h := by
  obtain ⟨hroot, htime, kp, hget, hpurpose, hmem, hsig⟩ := hhead
  obtain ⟨st, hget'⟩ := hstay _ kp hget
  exact ⟨hroot, htime, _, hget', hpurpose, hsigned hmem, hsig⟩

theorem Accounted.mono (hstay : KeysStay s.authority.store s'.authority.store)
    (hheads : s.heads ⊆ s'.heads) {call : Bytes × Bytes} (hacc : Accounted s call) :
    Accounted s' call := by
  obtain ⟨id, kp, hget, hpriv, hof⟩ := hacc
  obtain ⟨st, hget'⟩ := hstay id kp hget
  refine ⟨id, _, hget', hpriv, ?_⟩
  intro hpurpose
  obtain ⟨h, hmem, hid, hcanonical⟩ := hof hpurpose
  exact ⟨h, hheads hmem, hid, hcanonical⟩

/-- **Step lemma**: a `SignSTH` call signs the head that it returns, and nothing
    else. -/
theorem Genuine.signSTH (hgen : Genuine ed s) {env : Env} {size : UInt64} {root : RootHash}
    (horder : s.authority.store.Order env.order) (hlo : 0 ≤ env.now) (hhi : env.now < startOf2201) :
    Genuine ed (s.afterSignSTH ed env size root) := by
  unfold HeadState.afterSignSTH
  cases hsign : Transparency.signSTH ed env size root with
  | error e => exact hgen
  | ok sth =>
    obtain ⟨kp, hkey, rfl⟩ := signSTH_ok_iff.mp hsign
    obtain ⟨hget, _, hpurpose, _, _⟩ := activeKey_ok hgen.kept horder hkey
    have hcalls : signSTHCalls env size root
        = [(kp.privateKey, canonicalSTHBytes size root env.now)] := by
      simp only [signSTHCalls, hkey]
    rw [hcalls]
    refine ⟨hgen.kept, hgen.distinct, ?_, ?_⟩
    -- the new head, or one that was signed before
    · intro h hmem
      rcases List.mem_cons.mp hmem with rfl | hold
      · refine ⟨by simp, ⟨hlo, hhi⟩, kp, hget, hpurpose, ?_, ?_⟩
        · simp [STH.canonical]
        · simp [STH.canonical]
      · refine (hgen.heads h hold).mono ?_ ?_
        · exact KeysStay.refl _
        · exact List.subset_append_right _ _
    -- the new call, or one made before
    · intro call hmem
      rcases List.mem_append.mp hmem with hnew | hold
      · rw [List.mem_singleton] at hnew
        subst hnew
        exact ⟨kp.id, kp, hget, rfl, fun _ => ⟨_, List.mem_cons_self, rfl, by simp [STH.canonical]⟩⟩
      · refine (hgen.signed call hold).mono ?_ ?_
        · exact KeysStay.refl _
        · exact List.subset_cons_self _ _

theorem genuine_step {l : HeadAction} (hgen : Genuine ed s) (hstep : (headSystem ed).step s l s') :
    Genuine ed s' := by
  cases l with
  | authority call env =>
    obtain ⟨hcall, hdistinct, hsigned, hheads⟩ := hstep
    obtain ⟨hkept, hstay⟩ := keysStay_of_step hgen.kept hcall
    refine ⟨hkept, hdistinct, ?_, ?_⟩
    · intro h hmem
      exact (hgen.heads h (hheads ▸ hmem)).mono hstay (by rw [hsigned]; exact List.Subset.refl _)
    · intro call hmem
      exact (hgen.signed call (hsigned ▸ hmem)).mono hstay (by rw [hheads]; exact List.Subset.refl _)
  | signSTH env size root =>
    obtain ⟨horder, hlo, hhi, rfl⟩ := hstep
    exact hgen.signSTH horder hlo hhi
  | signOther kp msg =>
    obtain ⟨hget, hother, rfl⟩ := hstep
    refine ⟨hgen.kept, hgen.distinct, ?_, ?_⟩
    · intro h hmem
      refine (hgen.heads h hmem).mono ?_ ?_
      · exact KeysStay.refl _
      · exact List.subset_cons_self _ _
    · intro call hmem
      rcases List.mem_cons.mp hmem with rfl | hold
      · exact ⟨kp.id, kp, hget, rfl, fun hpurpose => absurd hpurpose hother⟩
      · exact (hgen.signed call hold).mono (KeysStay.refl _) (List.Subset.refl _)

/-- **Run lemma**. -/
theorem genuine_of_reachable (hreach : (headSystem ed).Reachable s) : Genuine ed s := by
  refine hreach.invariant (P := Genuine ed) ?_ ?_
  · intro s ⟨hempty, hsigned, hheads⟩
    have hnone : ∀ id : String, s.authority.store[id]? = none := by
      intro id
      rw [show s.authority.store = ∅ from hempty]
      simp
    refine ⟨?_, ?_, by simp [hheads], by simp [hsigned]⟩
    · intro id kp hget
      simp [hnone] at hget
    · intro id id' kp kp' hget
      simp [hnone] at hget
  · intro s l s' hgen hstep
    exact genuine_step hgen hstep

/-! ## Section 3: What `VerifySTH` accepts -/

/-- The key that the head names is still verifyable. -/
def STH.KeyVerifyable (store : KeyStore) (now : Int) (h : STH) : Prop :=
  ∃ kp, store[h.signerKeyID]? = some kp ∧ kp.isVerifyable now = true

/-- Presented heads are checked with the ideal verifier of the run. -/
def HeadState.verifySTH (ed : SignatureScheme) (s : HeadState) (sth : STH) (now : Int) :
    Except STHError Unit :=
  Transparency.verifySTH (ed.verifyMade s.signed) s.authority.store sth now

/-- **Acceptance**: exactly the heads of the run are accepted, under every
    timestamp that is congruent to theirs. -/
theorem verifySTH_iff_head (hsized : ed.Sized) (hgen : Genuine ed s) {sth : STH} {now : Int} :
    s.verifySTH ed sth now = .ok () ↔
      ∃ h ∈ s.heads, h.KeyVerifyable s.authority.store now
        ∧ sth = { h with timestamp := sth.timestamp }
        ∧ h.timestamp % 2 ^ 64 = sth.timestamp % 2 ^ 64 := by
  unfold HeadState.verifySTH
  rw [verifySTH_ok_iff]
  constructor
  · intro ⟨hlen, _, _, kp, hget, hver, hpurpose, hmade⟩
    obtain ⟨sk, hmem, hpublic, hsig⟩ := SignatureScheme.verifyMade_iff.mp hmade
    obtain ⟨id, kp', hget', rfl, hof⟩ := hgen.signed _ hmem
    obtain ⟨_, _, hpublic'⟩ := hgen.kept id kp' hget'
    -- the key that signed is the key that the head names
    have hid := hgen.distinct _ _ _ _ hget' hget (hpublic'.trans hpublic)
    subst hid
    rw [hget] at hget'
    cases hget'
    obtain ⟨h, hh, hid, hcanonical⟩ := hof hpurpose
    obtain ⟨hlen', _, kp', hget', _, _, hsig'⟩ := hgen.heads h hh
    rw [hid, hget] at hget'
    cases hget'
    obtain ⟨hsize, hroot, htime⟩ := canonicalSTHBytes_inj.mp hcanonical
    refine ⟨h, hh, ⟨kp, hid ▸ hget, hver⟩, ?_, htime⟩
    have hrootHash := Bytes.copyTo_inj hlen' hlen hroot
    rw [hcanonical] at hsig'
    rcases sth with ⟨size, rootHash, ts, sig, kid⟩
    rcases h with ⟨size', rootHash', ts', sig', kid'⟩
    simp only at *
    rw [hsize, hrootHash, hid, hsig', ← hsig]
  · intro ⟨h, hh, ⟨kp, hget, hver⟩, heq, htime⟩
    obtain ⟨hlen, _, kp', hget', hpurpose, hmem, hsig⟩ := hgen.heads h hh
    rw [hget] at hget'
    cases hget'
    obtain ⟨_, hne, hpublic⟩ := hgen.kept _ kp hget
    have hcanonical : canonicalSTHBytes h.treeSize (Bytes.copyTo 32 h.rootHash) sth.timestamp
        = h.canonical := canonicalSTHBytes_inj.mpr ⟨rfl, rfl, htime.symm⟩
    rw [heq]
    refine ⟨hlen, ?_, hne, kp, hget, hver, hpurpose, ?_⟩
    · rw [hsig]
      exact hsized.ne_nil _ _
    · rw [SignatureScheme.verifyMade_iff]
      exact ⟨kp.privateKey, hcanonical ▸ hmem, hpublic.symm, by rw [hsig, hcanonical]⟩

/-! ## Section 4: Authenticity -/

/-- Every head that is accepted with the timestamp `ts` was signed as it stands. -/
def HeadsAuthentic (ed : SignatureScheme) (s : HeadState) (ts now : Int) : Prop :=
  ∀ sth : STH, sth.timestamp = ts → s.verifySTH ed sth now = .ok () →
    ∃ h ∈ s.heads, h.treeSize = sth.treeSize ∧ h.rootHash = sth.rootHash ∧ h.timestamp = ts
      ∧ h.signerKeyID = sth.signerKeyID

/-- No head under a key that is still verifyable was signed at another instant
    that differs from `ts` by a multiple of `2 ^ 64` nanoseconds. -/
def NoAlias (s : HeadState) (ts now : Int) : Prop :=
  ∀ h ∈ s.heads, h.KeyVerifyable s.authority.store now →
    h.timestamp % 2 ^ 64 = ts % 2 ^ 64 → h.timestamp = ts

/-- Timestamps that fit an `int64` have no alias among the signed ones. -/
theorem noAlias_of_int64 (hgen : Genuine ed s) {ts now : Int} (hlo : -2 ^ 63 ≤ ts)
    (hhi : ts < 2 ^ 63) : NoAlias s ts now := by
  intro h hh _ htime
  obtain ⟨hpos, hlt⟩ := (hgen.heads h hh).timestamp
  unfold startOf2201 at hlt
  omega

/-- **Authenticity** of the accepted heads, by the timestamp they carry. -/
theorem headsAuthentic_iff (hsized : ed.Sized) (hreach : (headSystem ed).Reachable s)
    (ts now : Int) :
    (HeadsAuthentic ed s ts now ↔ NoAlias s ts now)
      ∧ (-2 ^ 63 ≤ ts → ts < 2 ^ 63 → HeadsAuthentic ed s ts now) := by
  have hgen := genuine_of_reachable hreach
  have hiff : HeadsAuthentic ed s ts now ↔ NoAlias s ts now := by
    constructor
    · intro hauth h hh hver htime
      obtain ⟨h', hh', _, _, hts, _⟩ := hauth { h with timestamp := ts } rfl
        ((verifySTH_iff_head hsized hgen).mpr ⟨h, hh, hver, rfl, htime⟩)
      -- two instants of the years 1970 to 2200 are congruent only when equal
      obtain ⟨hpos, hlt⟩ := (hgen.heads h hh).timestamp
      obtain ⟨hpos', hlt'⟩ := (hgen.heads h' hh').timestamp
      unfold startOf2201 at hlt hlt'
      omega
    · intro hno sth hts hok
      obtain ⟨h, hh, hver, heq, htime⟩ := (verifySTH_iff_head hsized hgen).mp hok
      rw [hts] at htime heq
      exact ⟨h, hh, by rw [heq], by rw [heq], hno h hh hver htime, by rw [heq]⟩
  refine ⟨hiff, ?_⟩
  intro hlo hhi
  exact hiff.mpr (noAlias_of_int64 hgen hlo hhi)

/-! ## A head under two timestamps -/

def logPrivate : Bytes := Bytes.bigEndian 64
  0x0303030303030303030303030303030303030303030303030303030303030303ed4928c628d1c2c6eae90338905995612959273a5c63f93636c14614ac8737d1

/-- One hour after the epoch. -/
def signTime : Int := 3600 * 10 ^ 9

/-- A key of the log, generated at time zero for a day. -/
def logKey : KeyPair :=
  ⟨"log-key", purposeTransparencyLogSTH, logPrivate.drop 32, logPrivate, .active, 0, 0,
    24 * signTime⟩

def logStore : KeyStore := (∅ : KeyStore).insert "log-key" logKey

def headSignature : Bytes := Bytes.bigEndian 64
  0x3eeb09c0fe38ecb88ef22d85ee1c7772c24e2251fb104a6afcc10b680540192e3eb871437f25a47f9741e6eb6a3ba949e7f3ceeaa6404665a015dbb34b4f6b0c

/-- Ed25519 on the head of one leaf, signed at one hour. -/
def headScheme : SignatureScheme :=
  .knownSized [((logPrivate.drop 32, canonicalSTHBytes 1 zeroHash signTime), headSignature)]

theorem headScheme_sized : headScheme.Sized :=
  SignatureScheme.knownSized_sized (by simp [headSignature])

def signedHead : STH := ⟨1, zeroHash.toList, signTime, headSignature, "log-key"⟩

/-- The same head, dated in the year 2554. -/
def aliasHead : STH := { signedHead with timestamp := signTime + 2 ^ 64 }

/-- The state after the key was generated and one head signed. -/
def oneHead : HeadState :=
  ⟨⟨logStore, 0⟩, [(logPrivate, canonicalSTHBytes 1 zeroHash signTime)], [signedHead]⟩

theorem publicKeysDistinct_logStore : PublicKeysDistinct logStore := by
  intro id id' kp kp' hget hget' _
  simp only [logStore, getElem?_insert_ite, Option.ite_none_right_eq_some,
    Std.ExtTreeMap.getElem?_empty] at hget hget'
  rw [hget.1, hget'.1]

theorem oneHead_reachable : (headSystem headScheme).Reachable oneHead := by
  have hnone : (headSystem headScheme).Reachable ⟨⟨∅, 0⟩, [], []⟩ :=
    System.Reachable.init ⟨rfl, rfl, rfl⟩
  have hkey : (headSystem headScheme).Reachable ⟨⟨logStore, 0⟩, [], []⟩ :=
    hnone.tail
      (l := .authority (.generateKeyPair purposeTransparencyLogSTH (24 * signTime))
        (quietEnv 0 [] "log-key" logPrivate))
      ⟨⟨.refl _, by decide, by simp [quietEnv], rfl⟩, publicKeysDistinct_logStore, rfl, rfl⟩
  have hsign : signSTH headScheme (quietEnv signTime [logKey] "" []) 1 zeroHash
      = .ok signedHead := by decide +kernel
  refine hkey.tail (l := .signSTH (quietEnv signTime [logKey] "" []) 1 zeroHash)
    ⟨.refl _, by decide, by decide, ?_⟩
  simp only [HeadState.afterSignSTH, hsign]
  rfl

theorem headsAuthentic_iff_oneHead :
    (headSystem headScheme).Reachable oneHead
      ∧ (HeadsAuthentic headScheme oneHead signTime (2 * signTime)
          ↔ NoAlias oneHead signTime (2 * signTime))
      ∧ HeadsAuthentic headScheme oneHead signTime (2 * signTime) := by
  have hboth := headsAuthentic_iff headScheme_sized oneHead_reachable signTime (2 * signTime)
  exact ⟨oneHead_reachable, hboth.1, hboth.2 (by decide) (by decide)⟩

/-- `VerifySTH` accepts the head with a timestamp that was never signed. -/
theorem aliasHead_accepted :
    (headSystem headScheme).Reachable oneHead
      ∧ oneHead.verifySTH headScheme aliasHead (2 * signTime) = .ok ()
      ∧ (∀ h ∈ oneHead.heads, h.timestamp ≠ aliasHead.timestamp)
      ∧ ¬ HeadsAuthentic headScheme oneHead aliasHead.timestamp (2 * signTime) := by
  have hok : oneHead.verifySTH headScheme aliasHead (2 * signTime) = .ok () := by decide +kernel
  have hnever : ∀ h ∈ oneHead.heads, h.timestamp ≠ aliasHead.timestamp := by decide
  refine ⟨oneHead_reachable, hok, hnever, ?_⟩
  intro hauth
  obtain ⟨h, hh, _, _, hts, _⟩ := hauth aliasHead rfl hok
  exact hnever h hh hts

end Owasaka.Transparency
