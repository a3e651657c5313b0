import Owasaka.Foundation.JsonDoc

/-! # JSON texts that are cut

    What a reader takes from the front of a text it takes with anything behind it, but
    for a number, which may go on.  An object ends with its last byte, so the text of an
    object that is cut anywhere is no text of a document. -/

namespace JsonText

theorem skipSpace_append {s : Bytes} (hs : skipSpace s ≠ []) (t : Bytes) :
    skipSpace (s ++ t) = skipSpace s ++ t := by
  unfold skipSpace at hs ⊢
  rw [List.dropWhile_append, if_neg (by simpa using hs)]

theorem skipSpace_ne_nil {c : UInt8} {s r : Bytes} (hexpect : expect c s = some r) :
    skipSpace s ≠ [] := by
  intro hnil
  simp [expect, hnil] at hexpect

theorem expect_append {c : UInt8} {s r : Bytes} (hexpect : expect c s = some r) (t : Bytes) :
    expect c (s ++ t) = some (r ++ t) := by
  have hs := skipSpace_ne_nil hexpect
  unfold expect at hexpect ⊢
  rw [skipSpace_append hs]
  cases hskip : skipSpace s with
  | nil => exact absurd hskip hs
  | cons b rest =>
    rw [hskip] at hexpect
    simp only [List.cons_append] at hexpect ⊢
    split_ifs at hexpect ⊢ with hb
    rw [← Option.some.inj hexpect]

theorem expect_append_none {c : UInt8} {s : Bytes} (hexpect : expect c s = none)
    (hs : skipSpace s ≠ []) (t : Bytes) : expect c (s ++ t) = none := by
  unfold expect at hexpect ⊢
  rw [skipSpace_append hs]
  cases hskip : skipSpace s with
  | nil => exact absurd hskip hs
  | cons b rest =>
    rw [hskip] at hexpect
    simp only [List.cons_append] at hexpect ⊢
    split_ifs at hexpect ⊢ with hb
    rfl

/-- A literal ends at a quote. -/
theorem scanLit_text {s lit r : Bytes} (hscan : scanLit s = some (lit, r)) : s = lit ++ 0x22 :: r := by
  fun_induction scanLit s generalizing lit with
  | case2 after =>
    simp only [Option.some.injEq, Prod.mk.injEq] at hscan
    rw [← hscan.1, ← hscan.2, List.nil_append]
  | case4 h₁ h₂ h₃ h₄ after hhex _ ih =>
    simp only [Option.map_eq_some_iff, Prod.mk.injEq] at hscan
    obtain ⟨⟨lit', after'⟩, hrest, rfl, rfl⟩ := hscan
    rw [ih hrest]
    rfl
  | case7 c after hu hesc _ ih =>
    simp only [Option.map_eq_some_iff, Prod.mk.injEq] at hscan
    obtain ⟨⟨lit', after'⟩, hrest, rfl, rfl⟩ := hscan
    rw [ih hrest]
    rfl
  | case10 b after hquote hslash hspace ih =>
    simp only [Option.map_eq_some_iff, Prod.mk.injEq] at hscan
    obtain ⟨⟨lit', after'⟩, hrest, rfl, rfl⟩ := hscan
    rw [ih hrest]
    rfl
  | _ => simp at hscan

theorem scanLit_append {s lit r : Bytes} (hscan : scanLit s = some (lit, r)) (t : Bytes) :
    scanLit (s ++ t) = some (lit, r ++ t) := by
  have hlit : IsLit lit := (scanLit_sound hscan).1
  rw [scanLit_text hscan, List.append_assoc, List.cons_append, hlit]

/-- A scalar with something behind it. -/
theorem parseScalar_append {s r : Bytes} {d : JsonDoc} (hparse : parseScalar s = some (d, r)) (hr : r ≠ [])
    (t : Bytes) : parseScalar (s ++ t) = some (d, r ++ t) := by
  unfold parseScalar at hparse
  split_ifs at hparse with hnull htrue hfalse hnum
  · obtain ⟨r', rfl⟩ := hnull
    cases hparse
    rw [List.append_assoc, parseScalar_null]
    rfl
  · obtain ⟨r', rfl⟩ := htrue
    cases hparse
    rw [List.append_assoc]
    exact parseScalar_bool true _
  · obtain ⟨r', rfl⟩ := hfalse
    cases hparse
    rw [List.append_assoc]
    exact parseScalar_bool false _
  · simp only [Option.some.injEq, Prod.mk.injEq] at hparse
    obtain ⟨rfl, rfl⟩ := hparse
    -- the number ends at a byte that is there
    have hstops : Stops (s.dropWhile isNumberByte ++ t) := by
      intro b t' heq
      obtain ⟨c, cs, hcons⟩ := List.exists_cons_of_ne_nil hr
      have hc := List.head_dropWhile_not isNumberByte hr
      simp only [hcons, List.cons_append, List.cons.injEq, List.head_cons] at heq hc
      rw [← heq.1]
      exact hc
    have hsplit : s ++ t = s.takeWhile isNumberByte ++ (s.dropWhile isNumberByte ++ t) := by
      rw [← List.append_assoc, List.takeWhile_append_dropWhile]
    rw [hsplit]
    exact parseScalar_num hnum (fun b hb => List.all_eq_true.mp List.all_takeWhile b hb) hstops

theorem skipSpace_of_parseValue {fuel depth : Nat} {s : Bytes} {p : JsonDoc × Bytes}
    (hparse : parseValue fuel depth s = some p) : skipSpace s ≠ [] := by
  intro hnil
  cases fuel with
  | zero => simp [parseValue] at hparse
  | succ fuel => simp [parseValue, hnil] at hparse

theorem skipSpace_of_parseItems {fuel depth : Nat} {s : Bytes} {p : List JsonDoc × Bytes}
    (hparse : parseItems fuel depth s = some p) : skipSpace s ≠ [] := by
  cases fuel with
  | zero => simp [parseItems] at hparse
  | succ fuel =>
    rw [parseItems] at hparse
    split at hparse
    · contradiction
    · next hvalue => exact skipSpace_of_parseValue hvalue

theorem skipSpace_of_parseMembers {fuel depth : Nat} {s : Bytes} {p : List (Bytes × JsonDoc) × Bytes}
    (hparse : parseMembers fuel depth s = some p) : skipSpace s ≠ [] := by
  cases fuel with
  | zero => simp [parseMembers] at hparse
  | succ fuel =>
    rw [parseMembers] at hparse
    split at hparse
    · contradiction
    · next hkey =>
      obtain ⟨_, hquote, _⟩ := Option.bind_eq_some_iff.mp hkey
      exact skipSpace_ne_nil hquote

theorem parseScalar_obj {s r : Bytes} {ms : List (Bytes × JsonDoc)} :
    parseScalar s ≠ some (.obj ms, r) := by
  unfold parseScalar
  split_ifs
  all_goals simp

/-- What the three readers take from a text they take with anything behind it and with
    more fuel. -/
theorem parse_append (fuel : Nat) (t : Bytes) :
    (∀ fuel' depth s d r, fuel ≤ fuel' → parseValue fuel depth s = some (d, r) →
        (r ≠ [] ∨ ∃ ms, d = .obj ms) → parseValue fuel' depth (s ++ t) = some (d, r ++ t))
      ∧ (∀ fuel' depth s ds r, fuel ≤ fuel' → parseItems fuel depth s = some (ds, r) →
        parseItems fuel' depth (s ++ t) = some (ds, r ++ t))
      ∧ (∀ fuel' depth s ms r, fuel ≤ fuel' → parseMembers fuel depth s = some (ms, r) →
        parseMembers fuel' depth (s ++ t) = some (ms, r ++ t)) := by
  -- the readers call each other with less fuel, so the three claims go together
  induction fuel with
  | zero => simp [parseValue, parseItems, parseMembers]
  | succ fuel ih =>
    obtain ⟨ihValue, ihItems, ihMembers⟩ := ih
    refine ⟨?_, ?_, ?_⟩
    · intro fuel' depth s d r hle hparse hr
      obtain ⟨fuel', rfl⟩ : ∃ n, fuel' = n + 1 := ⟨fuel' - 1, by omega⟩
      have hle' : fuel ≤ fuel' := by omega
      rw [parseValue] at hparse ⊢
      cases hskip : skipSpace s with
      | nil => simp [hskip] at hparse
      | cons b rest =>
        rw [skipSpace_append (by simp [hskip]), hskip, List.cons_append]
        simp only [hskip] at hparse ⊢
        split_ifs at hparse ⊢ with hstr harr hzero hobj hzero'
        · simp only [Option.map_eq_some_iff, Prod.mk.injEq] at hparse
          obtain ⟨⟨lit, after⟩, hscan, rfl, rfl⟩ := hparse
          rw [scanLit_append hscan]
          rfl
        · split at hparse
          · next after hend =>
            cases hparse
            rw [expect_append hend]
          · next hend =>
            simp only [Option.map_eq_some_iff, Prod.mk.injEq] at hparse
            obtain ⟨⟨ds, after⟩, hitems, rfl, rfl⟩ := hparse
            rw [expect_append_none hend (skipSpace_of_parseItems hitems)]
            simp only [ihItems _ _ _ _ _ hle' hitems, Option.map_some]
        · split at hparse
          · next after hend =>
            cases hparse
            rw [expect_append hend]
          · next hend =>
            simp only [Option.map_eq_some_iff, Prod.mk.injEq] at hparse
            obtain ⟨⟨ms, after⟩, hmembers, rfl, rfl⟩ := hparse
            rw [expect_append_none hend (skipSpace_of_parseMembers hmembers)]
            simp only [ihMembers _ _ _ _ _ hle' hmembers, Option.map_some]
        · have hrest : r ≠ [] := by
            rcases hr with hr | ⟨ms, rfl⟩
            · exact hr
            · exact absurd hparse parseScalar_obj
          rw [← List.cons_append]
          exact parseScalar_append hparse hrest t
    · intro fuel' depth s ds r hle hparse
      obtain ⟨fuel', rfl⟩ : ∃ n, fuel' = n + 1 := ⟨fuel' - 1, by omega⟩
      have hle' : fuel ≤ fuel' := by omega
      rw [parseItems] at hparse ⊢
      split at hparse
      · contradiction
      · next d after hvalue =>
        split at hparse
        · next after' hcomma =>
          simp only [Option.map_eq_some_iff, Prod.mk.injEq] at hparse
          obtain ⟨⟨ds', r'⟩, hitems, rfl, rfl⟩ := hparse
          have hne : after ≠ [] := by
            rintro rfl
            exact skipSpace_ne_nil hcomma rfl
          rw [ihValue _ _ _ _ _ hle' hvalue (Or.inl hne)]
          simp only [expect_append hcomma, ihItems _ _ _ _ _ hle' hitems, Option.map_some]
        · next hcomma =>
          simp only [Option.map_eq_some_iff, Prod.mk.injEq] at hparse
          obtain ⟨r', hend, rfl, rfl⟩ := hparse
          have hspace := skipSpace_ne_nil hend
          have hne : after ≠ [] := by
            rintro rfl
            exact hspace rfl
          rw [ihValue _ _ _ _ _ hle' hvalue (Or.inl hne)]
          simp only [expect_append_none hcomma hspace, expect_append hend, Option.map_some]
    · intro fuel' depth s ms r hle hparse
      obtain ⟨fuel', rfl⟩ : ∃ n, fuel' = n + 1 := ⟨fuel' - 1, by omega⟩
      have hle' : fuel ≤ fuel' := by omega
      rw [parseMembers] at hparse ⊢
      split at hparse
      · contradiction
      · next key after hkey =>
        obtain ⟨start, hquote, hscan⟩ := Option.bind_eq_some_iff.mp hkey
        rw [expect_append hquote, Option.bind_some, scanLit_append hscan]
        simp only
        split at hparse
        · contradiction
        · next d after' hvalue =>
          obtain ⟨start', hcolon, hvalue⟩ := Option.bind_eq_some_iff.mp hvalue
          rw [expect_append hcolon, Option.bind_some]
          split at hparse
          · next after'' hcomma =>
            simp only [Option.map_eq_some_iff, Prod.mk.injEq] at hparse
            obtain ⟨⟨ms', r'⟩, hmembers, rfl, rfl⟩ := hparse
            have hne : after' ≠ [] := by
              rintro rfl
              exact skipSpace_ne_nil hcomma rfl
            rw [ihValue _ _ _ _ _ hle' hvalue (Or.inl hne)]
            simp only [expect_append hcomma, ihMembers _ _ _ _ _ hle' hmembers, Option.map_some]
          · next hcomma =>
            simp only [Option.map_eq_some_iff, Prod.mk.injEq] at hparse
            obtain ⟨r', hend, rfl, rfl⟩ := hparse
            have hspace := skipSpace_ne_nil hend
            have hne : after' ≠ [] := by
              rintro rfl
              exact hspace rfl
            rw [ihValue _ _ _ _ _ hle' hvalue (Or.inl hne)]
            simp only [expect_append_none hcomma hspace, expect_append hend, Option.map_some]

theorem parseValue_head {fuel depth : Nat} {s r : Bytes} {d : JsonDoc}
    (hparse : parseValue fuel depth (0x7b :: s) = some (d, r)) : ∃ ms, d = .obj ms := by
  cases fuel with
  | zero => simp [parseValue] at hparse
  | succ fuel =>
    rw [parseValue, skipSpace_cons (by decide)] at hparse
    have hstr : ¬ (0x7b : UInt8) = 0x22 := by decide
    have harr : ¬ (0x7b : UInt8) = 0x5b := by decide
    simp only [if_neg hstr, if_neg harr, if_true] at hparse
    split_ifs at hparse with hzero
    split at hparse
    · exact ⟨[], (congrArg Prod.fst (Option.some.inj hparse)).symm⟩
    · simp only [Option.map_eq_some_iff, Prod.mk.injEq] at hparse
      obtain ⟨⟨ms, _⟩, _, rfl, _⟩ := hparse
      exact ⟨ms, rfl⟩

/-- **Cut texts**: the text of an object, cut anywhere, is the text of no document. -/
theorem parse_take_obj {members : List (Bytes × JsonDoc)} (hobj : Proper maxDepth (.obj members)) {n : Nat}
    (hn : n < (render (.obj members)).length) : parse ((render (.obj members)).take n) = none := by
  by_contra hsome
  obtain ⟨d, hd⟩ := Option.ne_none_iff_exists'.mp hsome
  unfold parse at hd
  split at hd
  · contradiction
  · next d' r hvalue =>
    split_ifs at hd with hspaces
    have hfuel : 2 * ((render (.obj members)).take n).length + 2 ≤ 2 * (render (.obj members)).length + 2 := by
      rw [List.length_take]
      omega
    -- it starts as the object starts
    have hobject : ∃ ms, d' = .obj ms := by
      have hne : (render (.obj members)).take n ≠ [] := by
        intro hnil
        rw [hnil] at hvalue
        exact skipSpace_of_parseValue hvalue rfl
      obtain ⟨text, htext⟩ : ∃ text, render (.obj members) = 0x7b :: text := ⟨_, by rw [render]⟩
      rw [htext] at hvalue hne
      cases n with
      | zero => exact absurd rfl hne
      | succ n => exact parseValue_head hvalue
    -- so the whole text is read as it is, with what was cut off left over
    have hwhole := (parse_append _ ((render (.obj members)).drop n)).1 _ _ _ _ _ hfuel hvalue (Or.inr hobject)
    rw [List.take_append_drop, parseValue_self hobj] at hwhole
    have hleft : r ++ (render (.obj members)).drop n = [] :=
      (congrArg Prod.snd (Option.some.inj hwhole)).symm
    have hdrop := (List.append_eq_nil_iff.mp hleft).2
    rw [List.drop_eq_nil_iff] at hdrop
    omega

end JsonText
