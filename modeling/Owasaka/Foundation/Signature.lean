import Owasaka.Foundation.Bytes

/-! # Signature schemes

    Schemes over byte strings, and the ideal ones: a signature verifies under a
    public key exactly when it was made with its private key on those bytes.

    Where it matters which signatures a run has made, `verifyMade` is the ideal
    verifier: it accepts the signatures of the calls made so far, and no others. -/

structure SignatureScheme where
  publicKey : Bytes → Bytes
  sign : Bytes → Bytes → Bytes
  verify : Bytes → Bytes → Bytes → Bool

namespace SignatureScheme

/-- The ideal scheme: only the key's own signature of the message verifies. -/
def Ideal (S : SignatureScheme) : Prop :=
  ∀ sk msg sig, S.verify (S.publicKey sk) msg sig = true ↔ sig = S.sign sk msg

/-- A key's own signatures verify. -/
def Correct (S : SignatureScheme) : Prop :=
  ∀ sk msg, S.verify (S.publicKey sk) msg (S.sign sk msg) = true

/-- The scheme whose signature of a message is `sig` of the public key and the
    message. -/
def ofPublic (publicKey : Bytes → Bytes) (sig : Bytes → Bytes → Bytes) : SignatureScheme where
  publicKey := publicKey
  sign := fun sk msg => sig (publicKey sk) msg
  verify := fun pk msg s => s = sig pk msg

theorem ofPublic_ideal (publicKey : Bytes → Bytes) (sig : Bytes → Bytes → Bytes) :
    (ofPublic publicKey sig).Ideal := by
  intro sk msg s
  simp [ofPublic]

/-- The ideal scheme with the given signatures, by public key and message.  A
    private key ends in its public key. -/
def known (sigs : List ((Bytes × Bytes) × Bytes)) : SignatureScheme :=
  ofPublic (fun sk => sk.drop 32) fun pk msg => (sigs.lookup (pk, msg)).getD (pk ++ msg)

theorem known_ideal (sigs : List ((Bytes × Bytes) × Bytes)) : (known sigs).Ideal :=
  ofPublic_ideal _ _

/-- Signatures have 64 bytes, as those of Ed25519. -/
def Sized (S : SignatureScheme) : Prop := ∀ sk msg, (S.sign sk msg).length = 64

theorem Sized.ne_nil {S : SignatureScheme} (hsized : S.Sized) (sk msg : Bytes) :
    S.sign sk msg ≠ [] := by
  apply List.ne_nil_of_length_pos
  rw [hsized sk msg]
  decide

/-- As `known`, with 64 zero bytes for the signatures that are not given. -/
def knownSized (sigs : List ((Bytes × Bytes) × Bytes)) : SignatureScheme :=
  ofPublic (fun sk => sk.drop 32) fun pk msg => (sigs.lookup (pk, msg)).getD (List.replicate 64 0)

theorem knownSized_ideal (sigs : List ((Bytes × Bytes) × Bytes)) : (knownSized sigs).Ideal :=
  ofPublic_ideal _ _

theorem knownSized_sized {sigs : List ((Bytes × Bytes) × Bytes)}
    (hlen : ∀ entry ∈ sigs, entry.2.length = 64) : (knownSized sigs).Sized := by
  intro sk msg
  show ((sigs.lookup (sk.drop 32, msg)).getD (List.replicate 64 0)).length = 64
  cases hlookup : sigs.lookup (sk.drop 32, msg) with
  | none => rfl
  | some sig =>
    obtain ⟨before, after, rfl, _⟩ := List.lookup_eq_some_iff.mp hlookup
    exact hlen ((sk.drop 32, msg), sig) (by simp)

/-- The key's signature of the message verifies for this message, and for no other. -/
def Binds (S : SignatureScheme) (sk msg : Bytes) : Prop :=
  ∀ msg', S.verify (S.publicKey sk) msg' (S.sign sk msg) = true ↔ msg' = msg

theorem knownSized_binds {sk msg sig : Bytes} (hsig : sig ≠ List.replicate 64 0) :
    (knownSized [((sk.drop 32, msg), sig)]).Binds sk msg := by
  intro msg'
  have hsign : ([((sk.drop 32, msg), sig)].lookup (sk.drop 32, msg)) = some sig := by simp
  show decide (([((sk.drop 32, msg), sig)].lookup (sk.drop 32, msg)).getD (List.replicate 64 0)
    = ([((sk.drop 32, msg), sig)].lookup (sk.drop 32, msg')).getD (List.replicate 64 0)) = true ↔ msg' = msg
  rw [hsign, Option.getD_some, decide_eq_true_eq]
  by_cases heq : msg' = msg
  · rw [heq, hsign]
    simp
  · have hnone : [((sk.drop 32, msg), sig)].lookup (sk.drop 32, msg') = none := by
      rw [List.lookup_cons, beq_eq_false_iff_ne.mpr (fun h => heq (Prod.mk.inj h).2)]
      rfl
    rw [hnone, Option.getD_none]
    exact iff_of_false hsig heq

/-- The ideal verifier after the given calls of `sign`: private key and message. -/
def verifyMade (S : SignatureScheme) (calls : List (Bytes × Bytes)) (pk msg sig : Bytes) : Bool :=
  calls.any fun call => S.publicKey call.1 = pk ∧ call.2 = msg ∧ S.sign call.1 msg = sig

theorem verifyMade_iff {S : SignatureScheme} {calls : List (Bytes × Bytes)} {pk msg sig : Bytes} :
    S.verifyMade calls pk msg sig = true ↔
      ∃ sk, (sk, msg) ∈ calls ∧ S.publicKey sk = pk ∧ S.sign sk msg = sig := by
  simp only [verifyMade, List.any_eq_true, decide_eq_true_eq, Prod.exists]
  constructor
  · rintro ⟨sk, _, hmem, hpk, rfl, hsig⟩
    exact ⟨sk, hmem, hpk, hsig⟩
  · intro ⟨sk, hmem, hpk, hsig⟩
    exact ⟨sk, msg, hmem, hpk, rfl, hsig⟩

theorem Ideal.verify_sign {S : SignatureScheme} (hideal : S.Ideal) (sk msg : Bytes) :
    S.verify (S.publicKey sk) msg (S.sign sk msg) = true :=
  (hideal sk msg _).mpr rfl

theorem Ideal.correct {S : SignatureScheme} (hideal : S.Ideal) : S.Correct := hideal.verify_sign

end SignatureScheme
