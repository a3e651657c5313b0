import Mathlib.Tactic.SplitIfs
import Owasaka.Foundation.Ascii
import Owasaka.Foundation.Hex
import Owasaka.Foundation.Utf8

/-! # String literals of JSON

    The text between the quotes of a string literal, as an encoder with HTML
    escaping writes it and as a decoder reads it.  A decoder checks the text first
    (`scanLit`) and then takes its meaning (`unquote`).

    `Spells text s` says that both get through `text`, and read `s`. -/

namespace JsonText

/-! ## Section 1: Writing -/

/-- An ASCII byte in a literal. -/
def escapeByte (b : UInt8) : Bytes :=
  if b = 0x22 ∨ b = 0x5c then [0x5c, b]
  else if b = 0x08 then [0x5c, 0x62]
  else if b = 0x0c then [0x5c, 0x66]
  else if b = 0x0a then [0x5c, 0x6e]
  else if b = 0x0d then [0x5c, 0x72]
  else if b = 0x09 then [0x5c, 0x74]
  else if b < 0x20 ∨ b = 0x3c ∨ b = 0x3e ∨ b = 0x26 then
    [0x5c, 0x75, 0x30, 0x30, Hex.digit (b.toNat / 16), Hex.digit (b.toNat % 16)]
  else [b]

/-- A rune in a literal; U+2028 and U+2029 are escaped. -/
def escapeRune : Bytes → Bytes
  | [b] => escapeByte b
  | r =>
    if r = [0xE2, 0x80, 0xA8] then [0x5c, 0x75, 0x32, 0x30, 0x32, 0x38]
    else if r = [0xE2, 0x80, 0xA9] then [0x5c, 0x75, 0x32, 0x30, 0x32, 0x39]
    else r

/-- The literal of a string, without its quotes.  A byte that belongs to no rune is
    written as the escape of U+FFFD. -/
def escape (s : Bytes) : Bytes :=
  (Utf8.runes s).flatMap fun r => (r.map escapeRune).getD [0x5c, 0x75, 0x66, 0x66, 0x66, 0x64]

/-! ## Section 2: Reading -/

def hexValue (c : UInt8) : Option Nat :=
  if 0x30 ≤ c ∧ c ≤ 0x39 then some (c.toNat - 0x30)
  else if 0x61 ≤ c ∧ c ≤ 0x66 then some (c.toNat - 0x57)
  else if 0x41 ≤ c ∧ c ≤ 0x46 then some (c.toNat - 0x37)
  else none

/-- The number of four hexadecimal digits. -/
def hex4 (h₁ h₂ h₃ h₄ : UInt8) : Option Nat := do
  let a ← hexValue h₁
  let b ← hexValue h₂
  let c ← hexValue h₃
  let d ← hexValue h₄
  return ((a * 16 + b) * 16 + c) * 16 + d

/-- The byte of a two-byte escape. -/
def simpleEscape (c : UInt8) : Option UInt8 :=
  if c = 0x22 ∨ c = 0x5c ∨ c = 0x2f then some c
  else if c = 0x62 then some 0x08
  else if c = 0x66 then some 0x0c
  else if c = 0x6e then some 0x0a
  else if c = 0x72 then some 0x0d
  else if c = 0x74 then some 0x09
  else none

/-- The literal up to its closing quote, and what follows. -/
def scanLit : Bytes → Option (Bytes × Bytes)
  | [] => none
  | b :: rest =>
    if b = 0x22 then some ([], rest)
    else if b = 0x5c then
      match rest with
      | [] => none
      | c :: rest =>
        if c = 0x75 then
          match rest with
          | h₁ :: h₂ :: h₃ :: h₄ :: rest =>
            if (hex4 h₁ h₂ h₃ h₄).isSome then
              (scanLit rest).map fun p => (b :: c :: h₁ :: h₂ :: h₃ :: h₄ :: p.1, p.2)
            else none
          | _ => none
        else if (simpleEscape c).isSome then (scanLit rest).map fun p => (b :: c :: p.1, p.2)
        else none
    else if b < 0x20 then none
    else (scanLit rest).map fun p => (b :: p.1, p.2)

def isSurrogate (n : Nat) : Bool := decide (0xD800 ≤ n) && decide (n < 0xE000)

/-- The code point of a surrogate and an escape after it, when they are a pair. -/
def surrogatePair (n : Nat) (a₁ a₂ g₁ g₂ g₃ g₄ : UInt8) : Option Nat := do
  let m ← if a₁ = 0x5c ∧ a₂ = 0x75 then hex4 g₁ g₂ g₃ g₄ else none
  if n < 0xDC00 ∧ 0xDC00 ≤ m ∧ m < 0xE000 then
    return (n - 0xD800) * 0x400 + (m - 0xDC00) + 0x10000
  else none

/-- The literal without its escapes. -/
def unescape : Bytes → Option Bytes
  | [] => some []
  | b :: rest =>
    if b = 0x5c then
      match rest with
      | [] => none
      | c :: rest =>
        if c = 0x75 then
          match rest with
          | h₁ :: h₂ :: h₃ :: h₄ :: rest =>
            match hex4 h₁ h₂ h₃ h₄ with
            | none => none
            | some n =>
              if isSurrogate n then
                match rest with
                | a₁ :: a₂ :: g₁ :: g₂ :: g₃ :: g₄ :: rest' =>
                  match surrogatePair n a₁ a₂ g₁ g₂ g₃ g₄ with
                  | some m => (unescape rest').map fun s => Utf8.encodeRune m ++ s
                  | none =>
                    (unescape (a₁ :: a₂ :: g₁ :: g₂ :: g₃ :: g₄ :: rest')).map fun s =>
                      Utf8.replacement ++ s
                | rest => (unescape rest).map fun s => Utf8.replacement ++ s
              else (unescape rest).map fun s => Utf8.encodeRune n ++ s
          | _ => none
        else
          match simpleEscape c with
          | none => none
          | some e => (unescape rest).map fun s => e :: s
    else (unescape rest).map fun s => b :: s

/-- The string of a literal.  Escapes stand for whole runes, so bytes that belong to
    no rune can be replaced after the escapes are. -/
def unquote (lit : Bytes) : Option Bytes := (unescape lit).map Utf8.sanitize

/-! ## Section 3: Reading what was written -/

/-- A reader gets through the text of a literal and reads the string. -/
structure Spells (text s : Bytes) : Prop where
  scan : ∀ t, scanLit (text ++ t) = (scanLit t).map fun p => (text ++ p.1, p.2)
  read : ∀ t, unescape (text ++ t) = (unescape t).map fun r => s ++ r

theorem Spells.nil : Spells [] [] := ⟨fun t => by simp, fun t => by simp⟩

theorem Spells.append {text text' s s' : Bytes} (h : Spells text s) (h' : Spells text' s') :
    Spells (text ++ text') (s ++ s') where
  scan := by
    intro t
    rw [List.append_assoc, h.scan, h'.scan, Option.map_map]
    congr 1
    funext p
    simp
  read := by
    intro t
    rw [List.append_assoc, h.read, h'.read, Option.map_map]
    congr 1
    funext r
    simp

/-- A byte that stands for itself. -/
theorem spells_plain {b : UInt8} (hquote : b ≠ 0x22) (hslash : b ≠ 0x5c) (hspace : ¬ b < 0x20) :
    Spells [b] [b] where
  scan := by
    intro t
    rw [List.singleton_append, scanLit.eq_def]
    simp [hquote, hslash, hspace]
  read := by
    intro t
    rw [List.singleton_append, unescape.eq_def]
    simp [hslash]

theorem spells_simple {c e : UInt8} (hu : c ≠ 0x75) (hesc : simpleEscape c = some e) :
    Spells [0x5c, c] [e] where
  scan := by
    intro t
    rw [List.cons_append, List.singleton_append, scanLit.eq_def]
    simp [hu, hesc]
  read := by
    intro t
    rw [List.cons_append, List.singleton_append, unescape.eq_def]
    simp [hu, hesc]

theorem scanLit_unicode {h₁ h₂ h₃ h₄ : UInt8} (hhex : (hex4 h₁ h₂ h₃ h₄).isSome = true) (t : Bytes) :
    scanLit ([0x5c, 0x75, h₁, h₂, h₃, h₄] ++ t)
      = (scanLit t).map fun p => ([0x5c, 0x75, h₁, h₂, h₃, h₄] ++ p.1, p.2) := by
  simp only [List.cons_append, List.nil_append]
  rw [scanLit.eq_def]
  simp [hhex]

theorem spells_unicode {h₁ h₂ h₃ h₄ : UInt8} {n : Nat} (hhex : hex4 h₁ h₂ h₃ h₄ = some n)
    (hsur : isSurrogate n = false) :
    Spells [0x5c, 0x75, h₁, h₂, h₃, h₄] (Utf8.encodeRune n) where
  scan := scanLit_unicode (by rw [hhex]; rfl)
  read := by
    intro t
    simp only [List.cons_append, List.nil_append]
    rw [unescape.eq_def]
    simp [hhex, hsur]

theorem hexValue_digit {n : Nat} (hn : n < 16) : hexValue (Hex.digit n) = some n := by
  have hall : ∀ n < 16, hexValue (Hex.digit n) = some n := by decide +kernel
  exact hall n hn

theorem spells_escapeByte {b : UInt8} (hb : b < 0x80) : Spells (escapeByte b) [b] := by
  unfold escapeByte
  split_ifs with hself hb' hf hn hr ht hunicode
  · refine spells_simple ?_ ?_
    · rintro rfl
      revert hself
      decide
    · unfold simpleEscape
      rw [if_pos (by rcases hself with rfl | rfl <;> simp)]
  · exact hb' ▸ spells_simple (by decide) (by decide)
  · exact hf ▸ spells_simple (by decide) (by decide)
  · exact hn ▸ spells_simple (by decide) (by decide)
  · exact hr ▸ spells_simple (by decide) (by decide)
  · exact ht ▸ spells_simple (by decide) (by decide)
  · have hlt : b.toNat < 128 := UInt8.lt_iff_toNat_lt.mp hb
    have hzero : hexValue 0x30 = some 0 := by decide
    have hhex : hex4 0x30 0x30 (Hex.digit (b.toNat / 16)) (Hex.digit (b.toNat % 16))
        = some b.toNat := by
      simp [hex4, hzero, hexValue_digit (show b.toNat / 16 < 16 by omega),
        hexValue_digit (show b.toNat % 16 < 16 by omega)]
      omega
    have hrune : Utf8.encodeRune b.toNat = [b] := by
      simp [Utf8.encodeRune, hlt]
    rw [← hrune]
    refine spells_unicode hhex ?_
    simp [isSurrogate]
    omega
  · simp only [not_or] at hself hunicode
    exact spells_plain hself.1 hself.2 hunicode.1

/-- Bytes outside ASCII stand for themselves. -/
theorem spells_high {r : Bytes} (hr : ∀ b ∈ r, 0x80 ≤ b) : Spells r r := by
  induction r with
  | nil => exact .nil
  | cons b r ih =>
    have hb : 0x80 ≤ b := hr b List.mem_cons_self
    have hne : ∀ c : UInt8, c < 0x80 → b ≠ c := by
      rintro c hc rfl
      exact UInt8.not_lt.mpr hb hc
    have hspace : ¬ b < 0x20 := by
      intro hlt
      exact UInt8.not_lt.mpr hb (UInt8.lt_trans hlt (by decide))
    exact (spells_plain (hne 0x22 (by decide)) (hne 0x5c (by decide)) hspace).append
      (ih fun c hc => hr c (List.mem_cons_of_mem _ hc))

theorem spells_escapeRune {r : Bytes} (hr : Utf8.IsRune r) : Spells (escapeRune r) r := by
  rcases hr.ascii_or with ⟨b, hb, rfl⟩ | hhigh
  · exact spells_escapeByte hb
  · have hnot : ∀ b, r ≠ [b] ∨ Spells (escapeRune r) r := by
      intro b
      by_cases heq : r = [b]
      · right
        have hb : 0x80 ≤ b := hhigh b (by simp [heq])
        subst heq
        cases hr with
        | one hlt => exact absurd hlt (UInt8.not_lt.mpr hb)
      · exact .inl heq
    unfold escapeRune
    split
    · next b =>
      rcases hnot b with hne | hspells
      · contradiction
      · exact hspells
    · split_ifs with h28 h29
      · rw [h28]
        exact spells_unicode (n := 0x2028) (by decide) (by decide)
      · rw [h29]
        exact spells_unicode (n := 0x2029) (by decide) (by decide)
      · exact spells_high hhigh

/-- **A literal is read as the sanitized string.** -/
theorem spells_escape (s : Bytes) : Spells (escape s) (Utf8.sanitize s) := by
  suffices hsuff : ∀ rs : List (Option Bytes), (∀ r, some r ∈ rs → Utf8.IsRune r) →
      Spells (rs.flatMap fun r => (r.map escapeRune).getD [0x5c, 0x75, 0x66, 0x66, 0x66, 0x64])
        (rs.flatMap fun r => r.getD Utf8.replacement) from
    hsuff (Utf8.runes s) fun _ => Utf8.isRune_of_mem
  intro rs hrs
  induction rs with
  | nil => exact .nil
  | cons r rs ih =>
    have hrest := ih fun r' hr' => hrs r' (List.mem_cons_of_mem _ hr')
    rw [List.flatMap_cons, List.flatMap_cons]
    refine Spells.append ?_ hrest
    cases r with
    | none => exact spells_unicode (n := 0xFFFD) (by decide) (by decide)
    | some r => exact spells_escapeRune (hrs r List.mem_cons_self)

theorem scanLit_escape (s t : Bytes) : scanLit (escape s ++ 0x22 :: t) = some (escape s, t) := by
  rw [(spells_escape s).scan, scanLit.eq_def]
  simp

theorem unquote_escape (s : Bytes) : unquote (escape s) = some (Utf8.sanitize s) := by
  have hread := (spells_escape s).read []
  rw [List.append_nil] at hread
  simp [unquote, hread, unescape]

/-- Each byte that belongs to no rune takes six bytes as an escape, and three once it
    was replaced. -/
theorem length_escape_sanitize (s : Bytes) :
    (escape (Utf8.sanitize s)).length + 3 * (Utf8.runes s).count none = (escape s).length := by
  have hrunes : escape (Utf8.sanitize s)
      = (Utf8.runes s).flatMap fun r => escapeRune (r.getD Utf8.replacement) := by
    rw [escape, Utf8.runes_sanitize, List.flatMap_map]
    rfl
  rw [hrunes, escape]
  induction Utf8.runes s with
  | nil => rfl
  | cons r rs ih =>
    simp only [List.flatMap_cons, List.length_append]
    cases r with
    | none =>
      have hlen : (escapeRune Utf8.replacement).length = 3 := by decide
      simp only [Option.getD_none, Option.map_none, hlen, List.count_cons_self, List.length_cons,
        List.length_nil]
      omega
    | some r =>
      simp only [Option.getD_some, Option.map_some, List.count_cons_of_ne (by simp : some r ≠ none)]
      omega

/-- The literal of the string that is read back is the literal itself exactly when the
    string was valid. -/
theorem escape_sanitize_iff (s : Bytes) : escape (Utf8.sanitize s) = escape s ↔ Utf8.Valid s := by
  constructor
  · intro heq
    have hlen := length_escape_sanitize s
    rw [heq] at hlen
    exact List.count_eq_zero.mp (by omega)
  · intro hvalid
    rw [Utf8.sanitize_of_valid hvalid]

end JsonText
