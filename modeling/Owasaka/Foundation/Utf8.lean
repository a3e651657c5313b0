import Owasaka.Foundation.Bytes

/-! # Runes of a byte string

    A byte string read as UTF-8: at each place stands a rune of one to four bytes
    or a byte that belongs to none.

    This file defines:
    - `runeLen`: the length of the rune at the front, or 0
    - `runes`: the runes of a string, `none` for a byte that belongs to none
    - `sanitize`: every such byte replaced by U+FFFD
    - `encodeRune`: the bytes of a code point -/

namespace Utf8

/-! ## Section 1: Runes -/

/-- A continuation byte. -/
def isTail (b : UInt8) : Bool := decide (0x80 ≤ b) && decide (b ≤ 0xBF)

/-- The second byte of a rune of three bytes: no overlong form, no surrogate. -/
def isSecondOfThree (b₀ b₁ : UInt8) : Bool :=
  decide ((if b₀ = 0xE0 then 0xA0 else 0x80) ≤ b₁)
    && decide (b₁ ≤ if b₀ = 0xED then 0x9F else 0xBF)

/-- The second byte of a rune of four bytes: no overlong form, at most U+10FFFF. -/
def isSecondOfFour (b₀ b₁ : UInt8) : Bool :=
  decide ((if b₀ = 0xF0 then 0x90 else 0x80) ≤ b₁)
    && decide (b₁ ≤ if b₀ = 0xF4 then 0x8F else 0xBF)

/-- The length of the rune at the front, 0 when there is none. -/
def runeLen : Bytes → Nat
  | [] => 0
  | b₀ :: rest =>
    if b₀ < 0x80 then 1
    else if b₀ < 0xC2 then 0
    else if b₀ < 0xE0 then
      match rest with
      | b₁ :: _ => if isTail b₁ then 2 else 0
      | [] => 0
    else if b₀ < 0xF0 then
      match rest with
      | b₁ :: b₂ :: _ => if isSecondOfThree b₀ b₁ && isTail b₂ then 3 else 0
      | _ => 0
    else if b₀ < 0xF5 then
      match rest with
      | b₁ :: b₂ :: b₃ :: _ => if isSecondOfFour b₀ b₁ && isTail b₂ && isTail b₃ then 4 else 0
      | _ => 0
    else 0

/-- The runes of a string, `none` for a byte that belongs to no rune. -/
def runes : Bytes → List (Option Bytes)
  | [] => []
  | b₀ :: rest =>
    match runeLen (b₀ :: rest), rest with
    | 1, rest => some [b₀] :: runes rest
    | 2, b₁ :: rest => some [b₀, b₁] :: runes rest
    | 3, b₁ :: b₂ :: rest => some [b₀, b₁, b₂] :: runes rest
    | 4, b₁ :: b₂ :: b₃ :: rest => some [b₀, b₁, b₂, b₃] :: runes rest
    | _, rest => none :: runes rest

/-- U+FFFD. -/
def replacement : Bytes := [0xEF, 0xBF, 0xBD]

def sanitize (s : Bytes) : Bytes := (runes s).flatMap fun r => r.getD replacement

def Valid (s : Bytes) : Prop := none ∉ runes s

instance (s : Bytes) : Decidable (Valid s) := inferInstanceAs (Decidable (none ∉ runes s))

/-- The bytes of one rune. -/
inductive IsRune : Bytes → Prop where
  | one {b₀ : UInt8} : b₀ < 0x80 → IsRune [b₀]
  | two {b₀ b₁ : UInt8} : ¬ b₀ < 0x80 → ¬ b₀ < 0xC2 → b₀ < 0xE0 → isTail b₁ = true →
      IsRune [b₀, b₁]
  | three {b₀ b₁ b₂ : UInt8} : ¬ b₀ < 0x80 → ¬ b₀ < 0xC2 → ¬ b₀ < 0xE0 → b₀ < 0xF0 →
      isSecondOfThree b₀ b₁ = true → isTail b₂ = true → IsRune [b₀, b₁, b₂]
  | four {b₀ b₁ b₂ b₃ : UInt8} : ¬ b₀ < 0x80 → ¬ b₀ < 0xC2 → ¬ b₀ < 0xE0 → ¬ b₀ < 0xF0 →
      b₀ < 0xF5 → isSecondOfFour b₀ b₁ = true → isTail b₂ = true → isTail b₃ = true →
      IsRune [b₀, b₁, b₂, b₃]

/-- The bytes of a code point, those of U+FFFD for a surrogate or a number too large. -/
def encodeRune (n : Nat) : Bytes :=
  if n < 0x80 then [UInt8.ofNat n]
  else if n < 0x800 then [UInt8.ofNat (0xC0 + n / 0x40), UInt8.ofNat (0x80 + n % 0x40)]
  else if 0x110000 ≤ n ∨ (0xD800 ≤ n ∧ n < 0xE000) then replacement
  else if n < 0x10000 then
    [UInt8.ofNat (0xE0 + n / 0x1000), UInt8.ofNat (0x80 + n / 0x40 % 0x40),
      UInt8.ofNat (0x80 + n % 0x40)]
  else
    [UInt8.ofNat (0xF0 + n / 0x40000), UInt8.ofNat (0x80 + n / 0x1000 % 0x40),
      UInt8.ofNat (0x80 + n / 0x40 % 0x40), UInt8.ofNat (0x80 + n % 0x40)]

/-! ## Section 2: The runes of joined strings -/

theorem IsRune.ne_nil {r : Bytes} (hr : IsRune r) : r ≠ [] := by
  cases hr <;> simp

/-- How long the rune at the front is does not depend on what follows it. -/
theorem IsRune.runeLen_append {r : Bytes} (hr : IsRune r) (s : Bytes) :
    runeLen (r ++ s) = r.length := by
  cases hr with
  | one h1 => simp [runeLen, h1]
  | two h1 h2 h3 ht => simp [runeLen, h1, h2, h3, ht]
  | three h1 h2 h3 h4 hs ht => simp [runeLen, h1, h2, h3, h4, hs, ht]
  | four h1 h2 h3 h4 h5 hs ht ht' => simp [runeLen, h1, h2, h3, h4, h5, hs, ht, ht']

/-- At the front of a string stands a rune or a byte that belongs to none. -/
theorem front_cases (b : UInt8) (t : Bytes) :
    runeLen (b :: t) = 0 ∨ ∃ r s, IsRune r ∧ b :: t = r ++ s := by
  -- by the ranges of the first byte, one for each length of a rune
  by_cases h1 : b < 0x80
  · exact .inr ⟨[b], t, .one h1, rfl⟩
  by_cases h2 : b < 0xC2
  · exact .inl (by simp [runeLen, h1, h2])
  by_cases h3 : b < 0xE0
  · match t with
    | [] => exact .inl (by simp [runeLen, h1, h2, h3])
    | b₁ :: t =>
      by_cases ht : isTail b₁ = true
      · exact .inr ⟨[b, b₁], t, .two h1 h2 h3 ht, rfl⟩
      · exact .inl (by simp [runeLen, h1, h2, h3, ht])
  by_cases h4 : b < 0xF0
  · match t with
    | [] => exact .inl (by simp [runeLen, h1, h2, h3, h4])
    | [b₁] => exact .inl (by simp [runeLen, h1, h2, h3, h4])
    | b₁ :: b₂ :: t =>
      by_cases ht : isSecondOfThree b b₁ = true ∧ isTail b₂ = true
      · exact .inr ⟨[b, b₁, b₂], t, .three h1 h2 h3 h4 ht.1 ht.2, rfl⟩
      · exact .inl (by simp [runeLen, h1, h2, h3, h4, ht])
  by_cases h5 : b < 0xF5
  · match t with
    | [] => exact .inl (by simp [runeLen, h1, h2, h3, h4, h5])
    | [b₁] => exact .inl (by simp [runeLen, h1, h2, h3, h4, h5])
    | [b₁, b₂] => exact .inl (by simp [runeLen, h1, h2, h3, h4, h5])
    | b₁ :: b₂ :: b₃ :: t =>
      by_cases ht : (isSecondOfFour b b₁ = true ∧ isTail b₂ = true) ∧ isTail b₃ = true
      · exact .inr ⟨[b, b₁, b₂, b₃], t, .four h1 h2 h3 h4 h5 ht.1.1 ht.1.2 ht.2, rfl⟩
      · exact .inl (by simp [runeLen, h1, h2, h3, h4, h5, ht])
  · exact .inl (by simp [runeLen, h1, h2, h3, h4, h5])

theorem runes_bad {b : UInt8} {t : Bytes} (hbad : runeLen (b :: t) = 0) :
    runes (b :: t) = none :: runes t := by
  rw [runes.eq_def]
  simp only [hbad]

theorem runes_append {r : Bytes} (hr : IsRune r) (s : Bytes) :
    runes (r ++ s) = some r :: runes s := by
  have hlen := hr.runeLen_append s
  rw [runes.eq_def]
  cases hr with
  | one _ =>
    simp only [List.cons_append, List.nil_append] at hlen ⊢
    simp [hlen]
  | two _ _ _ _ =>
    simp only [List.cons_append, List.nil_append] at hlen ⊢
    simp [hlen]
  | three _ _ _ _ _ _ =>
    simp only [List.cons_append, List.nil_append] at hlen ⊢
    simp [hlen]
  | four _ _ _ _ _ _ _ _ =>
    simp only [List.cons_append, List.nil_append] at hlen ⊢
    simp [hlen]

/-- **Induction over the runes of a string.** -/
theorem runes_induction {P : Bytes → Prop} (nil : P [])
    (rune : ∀ r t, IsRune r → P t → P (r ++ t))
    (bad : ∀ b t, runeLen (b :: t) = 0 → P t → P (b :: t)) (s : Bytes) : P s := by
  induction hlen : s.length using Nat.strong_induction_on generalizing s with
  | h n ih =>
    subst hlen
    cases s with
    | nil => exact nil
    | cons b t =>
      rcases front_cases b t with hzero | ⟨r, s, hr, heq⟩
      · exact bad b t hzero (ih t.length (by simp) t rfl)
      · rw [heq]
        have hpos : 0 < r.length := List.length_pos_iff.mpr hr.ne_nil
        exact rune r s hr (ih s.length (by rw [heq, List.length_append]; omega) s rfl)

theorem isRune_of_mem {s r : Bytes} (hmem : some r ∈ runes s) : IsRune r := by
  induction s using runes_induction with
  | nil => simp [runes] at hmem
  | rune r' t hr' ih =>
    rw [runes_append hr', List.mem_cons] at hmem
    rcases hmem with heq | hmem
    · rw [Option.some.inj heq]
      exact hr'
    · exact ih hmem
  | bad b t hbad ih =>
    rw [runes_bad hbad, List.mem_cons] at hmem
    rcases hmem with heq | hmem
    · simp at heq
    · exact ih hmem

/-- The runes of a string made of runes. -/
theorem runes_flatten {l : List Bytes} (hrs : ∀ r ∈ l, IsRune r) (s : Bytes) :
    runes (l.flatten ++ s) = l.map some ++ runes s := by
  induction l with
  | nil => rfl
  | cons r l ih =>
    rw [List.flatten_cons, List.append_assoc, runes_append (hrs r List.mem_cons_self),
      ih fun r' hr' => hrs r' (List.mem_cons_of_mem _ hr')]
    rfl

theorem isRune_replacement : IsRune replacement :=
  .three (by decide) (by decide) (by decide) (by decide) (by decide) (by decide)

theorem le_of_isTail {b : UInt8} (hb : isTail b = true) : 0x80 ≤ b := by
  simp only [isTail, Bool.and_eq_true, decide_eq_true_eq] at hb
  exact hb.1

/-- A rune is one ASCII byte, or has none. -/
theorem IsRune.ascii_or {r : Bytes} (hr : IsRune r) :
    (∃ b, b < 0x80 ∧ r = [b]) ∨ ∀ b ∈ r, 0x80 ≤ b := by
  cases hr with
  | one h1 => exact .inl ⟨_, h1, rfl⟩
  | two h1 _ _ ht =>
    right
    simp [UInt8.not_lt.mp h1, le_of_isTail ht]
  | @three b₀ b₁ _ h1 _ _ _ hs ht =>
    have hsecond : 0x80 ≤ b₁ := by
      simp only [isSecondOfThree, Bool.and_eq_true, decide_eq_true_eq] at hs
      split at hs
      · exact UInt8.le_trans (by decide) hs.1
      · exact hs.1
    right
    simp [UInt8.not_lt.mp h1, hsecond, le_of_isTail ht]
  | @four b₀ b₁ _ _ h1 _ _ _ _ hs ht ht' =>
    have hsecond : 0x80 ≤ b₁ := by
      simp only [isSecondOfFour, Bool.and_eq_true, decide_eq_true_eq] at hs
      split at hs
      · exact UInt8.le_trans (by decide) hs.1
      · exact hs.1
    right
    simp [UInt8.not_lt.mp h1, hsecond, le_of_isTail ht, le_of_isTail ht']

/-! ## Section 3: Sanitized strings -/

theorem runes_sanitize (s : Bytes) :
    runes (sanitize s) = (runes s).map fun r => some (r.getD replacement) := by
  have hflat : sanitize s = ((runes s).map fun r => r.getD replacement).flatten ++ [] := by
    rw [List.append_nil, sanitize, List.flatMap]
  rw [hflat, runes_flatten, runes, List.append_nil, List.map_map]
  · rfl
  · intro r hr
    obtain ⟨r', hr', rfl⟩ := List.mem_map.mp hr
    cases r' with
    | none => exact isRune_replacement
    | some r => exact isRune_of_mem hr'

theorem valid_sanitize (s : Bytes) : Valid (sanitize s) := by
  simp [Valid, runes_sanitize]

theorem sanitize_of_valid {s : Bytes} (hvalid : Valid s) : sanitize s = s := by
  induction s using runes_induction with
  | nil => rfl
  | rune r t hr ih =>
    simp only [Valid, runes_append hr, List.mem_cons, not_or] at hvalid
    have ht := ih hvalid.2
    rw [sanitize] at ht ⊢
    rw [runes_append hr, List.flatMap_cons, ht]
    rfl
  | bad b t hbad _ =>
    simp [Valid, runes_bad hbad] at hvalid

@[simp] theorem sanitize_sanitize (s : Bytes) : sanitize (sanitize s) = sanitize s :=
  sanitize_of_valid (valid_sanitize s)

/-- An ASCII byte is never a part of a longer rune. -/
theorem runes_append_ascii {c : UInt8} (hc : c < 0x80) (s t : Bytes) :
    runes (s ++ c :: t) = runes s ++ some [c] :: runes t := by
  induction s using runes_induction with
  | nil =>
    have hone := runes_append (.one hc) t
    rwa [List.singleton_append] at hone
  | rune r s hr ih => rw [List.append_assoc, runes_append hr, runes_append hr, ih, List.cons_append]
  | bad b s hbad ih =>
    -- a rune at the front would end in `s`, or reach up to `c`
    have hbad' : runeLen (b :: (s ++ c :: t)) = 0 := by
      rcases front_cases b (s ++ c :: t) with hzero | ⟨r, rest, hr, heq⟩
      · exact hzero
      · rw [← List.cons_append] at heq
        rcases List.append_eq_append_iff.mp heq with ⟨more, hr', hrest⟩ | ⟨more, hs, _⟩
        · cases more with
          | nil =>
            rw [List.append_nil] at hr'
            have hlen := hr.runeLen_append []
            rw [List.append_nil, hr', hbad] at hlen
            simp at hlen
          | cons d more =>
            rcases hr.ascii_or with ⟨b', _, hone⟩ | hhigh
            · rw [hone] at hr'
              simp at hr'
            · have hmem : c ∈ r := by
                rw [hr']
                rw [List.cons_append] at hrest
                rw [(List.cons.inj hrest).1]
                simp
              exact absurd hc (UInt8.not_lt.mpr (hhigh c hmem))
        · have hlen := hr.runeLen_append more
          rw [← hs, hbad] at hlen
          exact absurd (List.length_eq_zero_iff.mp hlen.symm) hr.ne_nil
    rw [List.cons_append, runes_bad hbad', runes_bad hbad, ih, List.cons_append]

theorem valid_append_ascii {c : UInt8} (hc : c < 0x80) {s t : Bytes} :
    Valid (s ++ c :: t) ↔ Valid s ∧ Valid t := by
  simp [Valid, runes_append_ascii hc]

/-- Strings of ASCII bytes are valid. -/
theorem valid_of_ascii {s : Bytes} (hs : ∀ b ∈ s, b < 0x80) : Valid s := by
  induction s with
  | nil => simp [Valid, runes]
  | cons b t ih =>
    have hrunes := runes_append (.one (hs b List.mem_cons_self)) t
    rw [List.singleton_append] at hrunes
    have ht := ih fun b' hb' => hs b' (List.mem_cons_of_mem _ hb')
    simp only [Valid, hrunes, List.mem_cons, not_or] at ht ⊢
    exact ⟨by simp, ht⟩

/-! ## Section 4: Texts -/

/-- The bytes of a text. -/
def ofString (s : String) : Bytes := s.toList.flatMap fun c => encodeRune c.toNat

/-- The code point of a rune. -/
def codePoint : Bytes → Nat
  | [b₀] => b₀.toNat
  | [b₀, b₁] => (b₀.toNat - 0xC0) * 0x40 + (b₁.toNat - 0x80)
  | [b₀, b₁, b₂] => (b₀.toNat - 0xE0) * 0x1000 + (b₁.toNat - 0x80) * 0x40 + (b₂.toNat - 0x80)
  | [b₀, b₁, b₂, b₃] =>
    (b₀.toNat - 0xF0) * 0x40000 + (b₁.toNat - 0x80) * 0x1000 + (b₂.toNat - 0x80) * 0x40
      + (b₃.toNat - 0x80)
  | _ => 0

/-- The text of valid bytes. -/
def toString? (s : Bytes) : Option String :=
  ((runes s).mapM fun (r : Option Bytes) => r.map fun r => Char.ofNat (codePoint r)).map String.ofList

theorem toNat_ofNat_of_lt {n : Nat} (hn : n < 256) : (UInt8.ofNat n).toNat = n := by
  rw [UInt8.toNat_ofNat']
  exact Nat.mod_eq_of_lt hn

theorem isTail_ofNat {n : Nat} (hlo : 0x80 ≤ n) (hhi : n < 0xC0) : isTail (UInt8.ofNat n) = true := by
  simp only [isTail, Bool.and_eq_true, decide_eq_true_eq, UInt8.le_iff_toNat_le,
    toNat_ofNat_of_lt (show n < 256 by omega)]
  exact ⟨hlo, Nat.le_of_lt_succ hhi⟩

theorem eq_iff_toNat_eq (b c : UInt8) : b = c ↔ b.toNat = c.toNat := UInt8.toNat_inj.symm

theorem isSecondOfThree_ofNat {m n : Nat} (hm : m < 256) (hlo : 0x80 ≤ n) (hhi : n < 0xC0)
    (hlong : m = 0xE0 → 0xA0 ≤ n) (hsurrogate : m = 0xED → n < 0xA0) :
    isSecondOfThree (UInt8.ofNat m) (UInt8.ofNat n) = true := by
  simp only [isSecondOfThree, Bool.and_eq_true, decide_eq_true_eq, eq_iff_toNat_eq,
    UInt8.le_iff_toNat_le, toNat_ofNat_of_lt hm, toNat_ofNat_of_lt (show n < 256 by omega)]
  constructor
  · split
    · next heq => exact hlong heq
    · exact hlo
  · split
    · next heq => exact Nat.le_of_lt_succ (hsurrogate heq)
    · exact Nat.le_of_lt_succ hhi

theorem isSecondOfFour_ofNat {m n : Nat} (hm : m < 256) (hlo : 0x80 ≤ n) (hhi : n < 0xC0)
    (hlong : m = 0xF0 → 0x90 ≤ n) (hlarge : m = 0xF4 → n < 0x90) :
    isSecondOfFour (UInt8.ofNat m) (UInt8.ofNat n) = true := by
  simp only [isSecondOfFour, Bool.and_eq_true, decide_eq_true_eq, eq_iff_toNat_eq,
    UInt8.le_iff_toNat_le, toNat_ofNat_of_lt hm, toNat_ofNat_of_lt (show n < 256 by omega)]
  constructor
  · split
    · next heq => exact hlong heq
    · exact hlo
  · split
    · next heq => exact Nat.le_of_lt_succ (hlarge heq)
    · exact Nat.le_of_lt_succ hhi

theorem ofNat_lt {n m : Nat} (hn : n < 256) (hm : m < 256) : UInt8.ofNat n < UInt8.ofNat m ↔ n < m := by
  rw [UInt8.lt_iff_toNat_lt, toNat_ofNat_of_lt hn, toNat_ofNat_of_lt hm]

theorem isRune_encodeRune (n : Nat) : IsRune (encodeRune n) := by
  unfold encodeRune
  split_ifs with h₁ h₂ h₃ h₄
  · exact .one ((ofNat_lt (by omega) (by decide)).mpr h₁)
  · refine .two ?_ ?_ ?_ (isTail_ofNat (by omega) (by omega))
    · exact (ofNat_lt (m := 0x80) (by omega) (by decide)).not.mpr (by omega)
    · exact (ofNat_lt (m := 0xC2) (by omega) (by decide)).not.mpr (by omega)
    · exact (ofNat_lt (m := 0xE0) (by omega) (by decide)).mpr (by omega)
  · exact isRune_replacement
  · refine .three ?_ ?_ ?_ ?_ ?_ (isTail_ofNat (by omega) (by omega))
    · exact (ofNat_lt (m := 0x80) (by omega) (by decide)).not.mpr (by omega)
    · exact (ofNat_lt (m := 0xC2) (by omega) (by decide)).not.mpr (by omega)
    · exact (ofNat_lt (m := 0xE0) (by omega) (by decide)).not.mpr (by omega)
    · exact (ofNat_lt (m := 0xF0) (by omega) (by decide)).mpr (by omega)
    · exact isSecondOfThree_ofNat (by omega) (by omega) (by omega) (by omega) (by omega)
  · refine .four ?_ ?_ ?_ ?_ ?_ ?_ (isTail_ofNat (by omega) (by omega)) (isTail_ofNat (by omega) (by omega))
    · exact (ofNat_lt (m := 0x80) (by omega) (by decide)).not.mpr (by omega)
    · exact (ofNat_lt (m := 0xC2) (by omega) (by decide)).not.mpr (by omega)
    · exact (ofNat_lt (m := 0xE0) (by omega) (by decide)).not.mpr (by omega)
    · exact (ofNat_lt (m := 0xF0) (by omega) (by decide)).not.mpr (by omega)
    · exact (ofNat_lt (m := 0xF5) (by omega) (by decide)).mpr (by omega)
    · exact isSecondOfFour_ofNat (by omega) (by omega) (by omega) (by omega) (by omega)

@[simp] theorem codePoint_one (b₀ : UInt8) : codePoint [b₀] = b₀.toNat := rfl

@[simp] theorem codePoint_two (b₀ b₁ : UInt8) :
    codePoint [b₀, b₁] = (b₀.toNat - 0xC0) * 0x40 + (b₁.toNat - 0x80) := rfl

@[simp] theorem codePoint_three (b₀ b₁ b₂ : UInt8) : codePoint [b₀, b₁, b₂]
    = (b₀.toNat - 0xE0) * 0x1000 + (b₁.toNat - 0x80) * 0x40 + (b₂.toNat - 0x80) := rfl

@[simp] theorem codePoint_four (b₀ b₁ b₂ b₃ : UInt8) : codePoint [b₀, b₁, b₂, b₃]
    = (b₀.toNat - 0xF0) * 0x40000 + (b₁.toNat - 0x80) * 0x1000 + (b₂.toNat - 0x80) * 0x40
      + (b₃.toNat - 0x80) := rfl

theorem codePoint_encodeRune {n : Nat} (hn : n.isValidChar) : codePoint (encodeRune n) = n := by
  have hvalid : n < 0xD800 ∨ (0xDFFF < n ∧ n < 0x110000) := hn
  unfold encodeRune
  split_ifs with h₁ h₂ h₃ h₄
  · rw [codePoint_one, toNat_ofNat_of_lt (by omega)]
  · rw [codePoint_two, toNat_ofNat_of_lt (by omega), toNat_ofNat_of_lt (by omega)]
    omega
  · omega
  · rw [codePoint_three, toNat_ofNat_of_lt (by omega), toNat_ofNat_of_lt (by omega),
      toNat_ofNat_of_lt (by omega)]
    omega
  · rw [codePoint_four, toNat_ofNat_of_lt (by omega), toNat_ofNat_of_lt (by omega),
      toNat_ofNat_of_lt (by omega), toNat_ofNat_of_lt (by omega)]
    omega

theorem runes_ofString (s : String) :
    runes (ofString s) = s.toList.map fun c => some (encodeRune c.toNat) := by
  have hflat := runes_flatten (l := s.toList.map fun c => encodeRune c.toNat) (by
    intro r hr
    obtain ⟨c, _, rfl⟩ := List.mem_map.mp hr
    exact isRune_encodeRune c.toNat) []
  rw [List.append_nil, ← List.flatMap_def, List.map_map] at hflat
  rw [ofString, hflat]
  simp [runes, Function.comp_def]

theorem valid_ofString (s : String) : Valid (ofString s) := by
  rw [Valid, runes_ofString]
  simp

theorem toString?_ofString (s : String) : toString? (ofString s) = some s := by
  have hchars : ∀ l : List Char, (l.map fun c => some (encodeRune c.toNat)).mapM
      (fun (r : Option Bytes) => r.map fun r => Char.ofNat (codePoint r)) = some l := by
    intro l
    induction l with
    | nil => rfl
    | cons c l ih =>
      have hc : codePoint (encodeRune c.toNat) = c.toNat := codePoint_encodeRune c.valid
      rw [List.map_cons, List.mapM_cons, ih, Option.map_some, hc, Char.ofNat_toNat]
      rfl
  rw [toString?, runes_ofString, hchars, Option.map_some, String.ofList_toList]

end Utf8
