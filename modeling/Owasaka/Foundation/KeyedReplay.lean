import Mathlib.Data.List.Nodup
import Mathlib.Logic.Function.Basic

/-! # Replaying changes that each touch one key

    A list of changes is applied to a function of the key.  A change rewrites the value
    of its own key, or nothing at all.  Where no two changes have the same key, every
    change sees the value that stood there before, whatever the order. -/

variable {κ σ ε : Type} [DecidableEq κ]

/-- One change: the value of its key is rewritten. -/
def replayStep (key : ε → Option κ) (effect : ε → σ → σ) (m : κ → σ) (ch : ε) : κ → σ :=
  match key ch with
  | some k => Function.update m k (effect ch (m k))
  | none => m

def replay (key : ε → Option κ) (effect : ε → σ → σ) (changes : List ε) (m : κ → σ) : κ → σ :=
  changes.foldl (replayStep key effect) m

variable {key : ε → Option κ} {effect : ε → σ → σ} {changes : List ε} {k : κ} {m : κ → σ}

theorem replay_append (changes changes' : List ε) (m : κ → σ) :
    replay key effect (changes ++ changes') m
      = replay key effect changes' (replay key effect changes m) :=
  List.foldl_append

theorem replayStep_of_ne {ch : ε} (hne : key ch ≠ some k) :
    replayStep key effect m ch k = m k := by
  unfold replayStep
  cases hkey : key ch with
  | none => rfl
  | some k' =>
    have hne' : k ≠ k' := by
      intro heq
      exact hne (by rw [hkey, heq])
    exact Function.update_of_ne hne' _ _

/-- A key that no change has keeps its value. -/
theorem replay_of_not_mem (hnone : ∀ ch ∈ changes, key ch ≠ some k) :
    replay key effect changes m k = m k := by
  unfold replay
  induction changes generalizing m with
  | nil => rfl
  | cons ch changes ih =>
    rw [List.foldl_cons, ih fun ch' hch' => hnone ch' (List.mem_cons_of_mem _ hch'),
      replayStep_of_ne (hnone ch List.mem_cons_self)]

/-- A key that one change has gets that change. -/
theorem replay_of_mem (hnodup : (changes.filterMap key).Nodup) {ch : ε} (hch : ch ∈ changes)
    (hkey : key ch = some k) : replay key effect changes m k = effect ch (m k) := by
  induction changes generalizing m with
  | nil => simp at hch
  | cons first changes ih =>
    show replay key effect changes (replayStep key effect m first) k = effect ch (m k)
    rcases List.mem_cons.mp hch with rfl | hrest
    · rw [List.filterMap_cons_some hkey] at hnodup
      have hnone : ∀ ch' ∈ changes, key ch' ≠ some k := by
        intro ch' hch' hkey'
        exact (List.nodup_cons.mp hnodup).1 (List.mem_filterMap.mpr ⟨ch', hch', hkey'⟩)
      rw [replay_of_not_mem hnone, replayStep, hkey]
      exact Function.update_self k _ m
    · have hmem : k ∈ changes.filterMap key := List.mem_filterMap.mpr ⟨ch, hrest, hkey⟩
      have hne : key first ≠ some k := by
        intro hfirst
        rw [List.filterMap_cons_some hfirst] at hnodup
        exact (List.nodup_cons.mp hnodup).1 hmem
      have hrestNodup : (changes.filterMap key).Nodup :=
        hnodup.sublist ((List.sublist_cons_self first changes).filterMap key)
      rw [ih hrestNodup hrest, replayStep_of_ne hne]
