import Owasaka.Foundation.ExtFloat

/-! # Numerals (`strconv.ParseFloat`)

    The texts that are read as floating-point numbers: decimal and hexadecimal
    literals with a sign, in which underscores may separate digits, and the names of
    the infinities and of NaN.  A literal stands for an exact number, which is then
    rounded. -/

namespace Numeral

/-! ## Section 1: Digits and signs -/

def isDigit (base : Nat) (c : UInt8) : Bool := ((JsonText.hexValue c).filter (· < base)).isSome

def ofDigits (base : Nat) (digits : Bytes) : Nat :=
  digits.foldl (fun n c => base * n + (JsonText.hexValue c).getD 0) 0

/-- Whether there is a minus sign, and the text without its sign. -/
def splitSign : Bytes → Bool × Bytes
  | 0x2b :: s => (false, s)
  | 0x2d :: s => (true, s)
  | s => (false, s)

/-! ## Section 2: Underscores -/

/-- What the last byte was. -/
inductive Saw where
  | start
  | digit
  | underscore
  | other
  deriving DecidableEq

/-- The loop of `underscoreOK`. -/
def underscoresFrom (base : Nat) : Saw → Bytes → Bool
  | saw, [] => saw ≠ .underscore
  | saw, c :: s =>
    if isDigit base c then underscoresFrom base .digit s
    else if c = 0x5f then
      -- an underscore must follow a digit
      if saw ≠ .digit then false else underscoresFrom base .underscore s
    else
      -- and a digit must follow an underscore
      if saw = .underscore then false else underscoresFrom base .other s

/-- `underscoreOK`: underscores stand between digits only, or between a prefix and a
    digit. -/
def underscoreOK (s : Bytes) : Bool :=
  let body := (splitSign s).2
  match body with
  | 0x30 :: c :: rest =>
    if Hex.lower c = 0x78 then underscoresFrom 16 .digit rest
    else if Hex.lower c = 0x62 ∨ Hex.lower c = 0x6f then underscoresFrom 10 .digit rest
    else underscoresFrom 10 .start body
  | _ => underscoresFrom 10 .start body

/-! ## Section 3: Literals -/

/-- The digits after a point, and what follows them. -/
def fraction (base : Nat) : Bytes → Bytes × Bytes
  | 0x2e :: s => (s.takeWhile (isDigit base), s.dropWhile (isDigit base))
  | s => ([], s)

/-- The number before the exponent, and what follows it. -/
def mantissa (base : Nat) (s : Bytes) : Option (ℚ × Bytes) :=
  let whole := s.takeWhile (isDigit base)
  let (frac, tail) := fraction base (s.dropWhile (isDigit base))
  if whole ++ frac = [] then none
  else some (ofDigits base (whole ++ frac) / base ^ frac.length, tail)

/-- An exponent after its mark, to the end of the text. -/
def exponent (mark : UInt8) : Bytes → Option Int
  | [] => none
  | c :: s =>
    let (neg, digits) := splitSign s
    if Hex.lower c = mark ∧ digits ≠ [] ∧ digits.all (isDigit 10) then
      some (if neg then -ofDigits 10 digits else ofDigits 10 digits)
    else none

def decimalLiteral (s : Bytes) : Option ℚ := do
  let (m, tail) ← mantissa 10 s
  if tail = [] then return m
  let e ← exponent 0x65 tail
  return m * 10 ^ e

/-- Hexadecimal literals must have an exponent. -/
def hexLiteral (s : Bytes) : Option ℚ := do
  let (m, tail) ← mantissa 16 s
  let e ← exponent 0x70 tail
  return m * 2 ^ e

def unsignedLiteral (s : Bytes) : Option ℚ :=
  match s with
  | 0x30 :: x :: c :: rest =>
    if Hex.lower x = 0x78 then hexLiteral (c :: rest) else decimalLiteral s
  | _ => decimalLiteral s

/-- Whether there is a minus sign, and the magnitude.  Underscores in their places
    separate digits and do not count. -/
def literal (s : Bytes) : Option (Bool × ℚ) :=
  let (neg, body) := splitSign s
  if underscoreOK s then (unsignedLiteral (body.filter (· ≠ 0x5f))).map fun q => (neg, q)
  else none

/-- The names of the infinities, with a sign, and of NaN, without one. -/
def special (F : BinaryFormat) (s : Bytes) : Option (ExtFloat F) :=
  let (neg, name) := splitSign s
  if Hex.equalFold name (Bytes.ascii "inf") ∨ Hex.equalFold name (Bytes.ascii "infinity") then
    some (.inf neg)
  else if Hex.equalFold s (Bytes.ascii "nan") then some .nan
  else none

/-- The number that `ParseFloat` returns, which is 0 beside a syntax error and an
    infinity beside a range error. -/
def parseFloat (F : BinaryFormat) (s : Bytes) : ExtFloat F :=
  match special F s with
  | some x => x
  | none =>
    match literal s with
    | some (neg, q) => .ofSigned F neg q
    | none => .ofSigned F false 0

section

variable {F : BinaryFormat} {s : Bytes}

theorem parseFloat_special {x : ExtFloat F} (hx : special F s = some x) : parseFloat F s = x := by
  unfold parseFloat
  rw [hx]

theorem parseFloat_literal {l : Bool × ℚ} (hspecial : special F s = none) (hl : literal s = some l) :
    parseFloat F s = .ofSigned F l.1 l.2 := by
  unfold parseFloat
  rw [hspecial, hl]

theorem parseFloat_error (hspecial : special F s = none) (hl : literal s = none) :
    parseFloat F s = .ofSigned F false 0 := by
  unfold parseFloat
  rw [hspecial, hl]

end

/-! ## Section 4: Literals stand for magnitudes -/

variable {s tail : Bytes} {q m : ℚ}

theorem mantissa_nonneg {base : Nat} (hm : mantissa base s = some (m, tail)) : 0 ≤ m := by
  unfold mantissa at hm
  simp only at hm
  split at hm
  · simp at hm
  · cases hm
    positivity

theorem decimalLiteral_nonneg (hq : decimalLiteral s = some q) : 0 ≤ q := by
  unfold decimalLiteral at hq
  obtain ⟨⟨m, tail⟩, hm, hrest⟩ := Option.bind_eq_some_iff.mp hq
  have hnonneg := mantissa_nonneg hm
  simp only at hrest
  split at hrest
  · cases hrest
    exact hnonneg
  · obtain ⟨e, _, he⟩ := Option.bind_eq_some_iff.mp hrest
    cases he
    exact mul_nonneg hnonneg (zpow_nonneg (by norm_num) e)

theorem hexLiteral_nonneg (hq : hexLiteral s = some q) : 0 ≤ q := by
  unfold hexLiteral at hq
  obtain ⟨⟨m, tail⟩, hm, hrest⟩ := Option.bind_eq_some_iff.mp hq
  have hnonneg := mantissa_nonneg hm
  obtain ⟨e, _, he⟩ := Option.bind_eq_some_iff.mp hrest
  cases he
  exact mul_nonneg hnonneg (zpow_nonneg (by norm_num) e)

theorem literal_nonneg {neg : Bool} (hq : literal s = some (neg, q)) : 0 ≤ q := by
  unfold literal at hq
  simp only at hq
  split at hq
  · obtain ⟨q', hq', heq⟩ := Option.map_eq_some_iff.mp hq
    cases heq
    unfold unsignedLiteral at hq'
    split at hq'
    · split at hq'
      · exact hexLiteral_nonneg hq'
      · exact decimalLiteral_nonneg hq'
    · exact decimalLiteral_nonneg hq'
  · simp at hq

/-! ## Section 5: The names are no literals -/

/-- A text that starts with a letter. -/
theorem unsignedLiteral_of_letter {c : UInt8} (hdigit : isDigit 10 c = false) (hpoint : c ≠ 0x2e) :
    unsignedLiteral (c :: s) = none := by
  have hzero : c ≠ 0x30 := by
    rintro rfl
    simp [isDigit, JsonText.hexValue] at hdigit
  have hfraction : fraction 10 (c :: s) = ([], c :: s) := by
    unfold fraction
    split
    · next heq => exact absurd (List.cons.inj heq).1 hpoint
    · rfl
  have hmantissa : mantissa 10 (c :: s) = none := by
    unfold mantissa
    simp [hdigit, hfraction]
  have hdecimal : decimalLiteral (c :: s) = none := by
    unfold decimalLiteral
    rw [hmantissa]
    rfl
  unfold unsignedLiteral
  split
  · next heq => exact absurd (List.cons.inj heq).1 hzero
  · exact hdecimal

/-- The letters that a name starts with. -/
theorem letter_of_lower {c : UInt8} (hc : Hex.lower c = 0x69 ∨ Hex.lower c = 0x6e) :
    c ≠ 0x5f ∧ c ≠ 0x2b ∧ c ≠ 0x2d ∧ c ≠ 0x2e ∧ isDigit 10 c = false := by
  unfold Hex.lower at hc
  have hletters : c = 0x49 ∨ c = 0x69 ∨ c = 0x4e ∨ c = 0x6e := by
    split at hc
    -- a letter in upper case
    · have hupper : ∀ d : UInt8, c + 0x20 = d → c = d - 0x20 := by
        rintro d rfl
        exact (UInt8.add_sub_cancel c 0x20).symm
      rcases hc with hi | hn
      · exact .inl (hupper _ hi)
      · exact .inr (.inr (.inl (hupper _ hn)))
    · rcases hc with hi | hn
      · exact .inr (.inl hi)
      · exact .inr (.inr (.inr hn))
  rcases hletters with rfl | rfl | rfl | rfl <;> decide

theorem literal_of_letter {c : UInt8} (hbody : (splitSign s).2 = c :: tail)
    (hc : Hex.lower c = 0x69 ∨ Hex.lower c = 0x6e) : literal s = none := by
  obtain ⟨hunderscore, _, _, hpoint, hdigit⟩ := letter_of_lower hc
  unfold literal
  simp only [hbody, List.filter_cons, ne_eq, hunderscore, not_false_eq_true,
    decide_true, if_true]
  rw [unsignedLiteral_of_letter hdigit hpoint]
  simp

theorem head_of_equalFold {name : Bytes} {c : UInt8} (hfold : Hex.equalFold s name = true)
    (hname : (name.map Hex.lower).head? = some c) : ∃ b tail, s = b :: tail ∧ Hex.lower b = c := by
  have heq : s.map Hex.lower = name.map Hex.lower := of_decide_eq_true hfold
  rw [← heq] at hname
  cases s with
  | nil => simp at hname
  | cons b tail => exact ⟨b, tail, rfl, Option.some.inj hname⟩

/-- **No text is both** a literal and the name of an infinity or of NaN. -/
theorem literal_of_special {F : BinaryFormat} {x : ExtFloat F} (hx : special F s = some x) :
    literal s = none := by
  unfold special at hx
  simp only at hx
  split at hx
  · next hinf =>
    have hhead : ∃ b tail, (splitSign s).2 = b :: tail ∧ Hex.lower b = 0x69 := by
      rcases hinf with hinf | hinf
      · exact head_of_equalFold hinf (by decide)
      · exact head_of_equalFold hinf (by decide)
    obtain ⟨b, tail, hbody, hb⟩ := hhead
    exact literal_of_letter hbody (.inl hb)
  · split at hx
    · next hnan =>
      obtain ⟨b, tail, rfl, hb⟩ := head_of_equalFold (c := 0x6e) hnan (by decide)
      obtain ⟨_, hplus, hminus, _, _⟩ := letter_of_lower (.inr hb)
      have hbody : (splitSign (b :: tail)).2 = b :: tail := by
        unfold splitSign
        split
        · next heq => exact absurd (List.cons.inj heq).1 hplus
        · next heq => exact absurd (List.cons.inj heq).1 hminus
        · rfl
      exact literal_of_letter hbody (.inr hb)
    · simp at hx

end Numeral
