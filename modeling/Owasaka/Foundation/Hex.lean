import Mathlib.Data.List.Basic
import Owasaka.Foundation.Bytes

/-! # Hexadecimal text

    The lower-case hexadecimal text of a byte string, white space around a text
    and comparison without regard to case.  Texts are byte strings in UTF-8.

    A reader that trims a text and compares it with a digest in hexadecimal
    accepts the text that a writer made of that digest and a line end. -/

namespace Hex

/-- The sixteen digits. -/
def digits : Bytes := "0123456789abcdef".toUTF8.toList

def digit (n : Nat) : UInt8 := digits.getD n 0x30

/-- Two digits for each byte, the high half first. -/
def encode (b : Bytes) : Bytes := b.flatMap fun c => [digit (c.toNat / 16), digit (c.toNat % 16)]

/-- The text of `encode` as a string. -/
def encodeToString (b : Bytes) : String :=
  String.ofList ((encode b).map fun c => Char.ofNat c.toNat)

/-! ## Section 1: White space -/

/-- The code points with the property `White_Space`, in UTF-8. -/
def spaces : List Bytes :=
  [[0x09], [0x0a], [0x0b], [0x0c], [0x0d], [0x20], [0xc2, 0x85], [0xc2, 0xa0], [0xe1, 0x9a, 0x80],
    [0xe2, 0x80, 0x80], [0xe2, 0x80, 0x81], [0xe2, 0x80, 0x82], [0xe2, 0x80, 0x83],
    [0xe2, 0x80, 0x84], [0xe2, 0x80, 0x85], [0xe2, 0x80, 0x86], [0xe2, 0x80, 0x87],
    [0xe2, 0x80, 0x88], [0xe2, 0x80, 0x89], [0xe2, 0x80, 0x8a], [0xe2, 0x80, 0xa8],
    [0xe2, 0x80, 0xa9], [0xe2, 0x80, 0xaf], [0xe2, 0x81, 0x9f], [0xe3, 0x80, 0x80]]

/-- The text without the first of the given code points that it starts with. -/
def dropOne (spaces : List Bytes) (b : Bytes) : Option Bytes :=
  spaces.findSome? fun sp => if sp <+: b then some (b.drop sp.length) else none

/-- At most `fuel` code points are dropped; the length of the text is enough. -/
def trimStart (spaces : List Bytes) : Nat → Bytes → Bytes
  | 0, b => b
  | fuel + 1, b =>
    match dropOne spaces b with
    | some rest => trimStart spaces fuel rest
    | none => b

/-- The text without white space at its start and its end. -/
def trimSpace (b : Bytes) : Bytes :=
  let b := trimStart spaces b.length b
  (trimStart (spaces.map List.reverse) b.length b.reverse).reverse

/-- An ASCII letter in lower case. -/
def lower (c : UInt8) : UInt8 := if 0x41 ≤ c ∧ c ≤ 0x5a then c + 0x20 else c

/-- Equality up to the case of ASCII letters.  No other code point folds to a
    hexadecimal digit. -/
def equalFold (a b : Bytes) : Bool := decide (a.map lower = b.map lower)

/-! ## Section 2: A digest on a line -/

theorem digit_mem (n : Nat) (hn : n < 16) : digit n ∈ digits := by
  have hall : ∀ n < 16, digit n ∈ digits := by decide +kernel
  exact hall n hn

theorem encode_subset (b : Bytes) : ∀ c ∈ encode b, c ∈ digits := by
  intro c hc
  unfold encode at hc
  rw [List.mem_flatMap] at hc
  obtain ⟨a, _, hmem⟩ := hc
  have hlt := a.toNat_lt
  simp only [List.mem_cons, List.not_mem_nil, or_false] at hmem
  rcases hmem with rfl | rfl
  · exact digit_mem _ (by omega)
  · exact digit_mem _ (by omega)

theorem digit_inj {n m : Nat} (hn : n < 16) (hm : m < 16) (heq : digit n = digit m) : n = m := by
  have hall : ∀ n < 16, ∀ m < 16, digit n = digit m → n = m := by decide +kernel
  exact hall n hn m hm heq

theorem encode_inj {a b : Bytes} (heq : encode a = encode b) : a = b := by
  induction a generalizing b with
  | nil =>
    cases b with
    | nil => rfl
    | cons d b => simp [encode] at heq
  | cons c a ih =>
    cases b with
    | nil => simp [encode] at heq
    | cons d b =>
      simp only [encode, List.flatMap_cons, List.cons_append, List.nil_append, List.cons.injEq] at heq
      obtain ⟨hhigh, hlow, hrest⟩ := heq
      have hc := c.toNat_lt
      have hd := d.toNat_lt
      have hdiv := digit_inj (by omega) (by omega) hhigh
      have hmod := digit_inj (by omega) (by omega) hlow
      rw [ih hrest, UInt8.toNat_inj.mp (show c.toNat = d.toNat by omega)]

theorem encodeToString_inj {a b : Bytes} (heq : encodeToString a = encodeToString b) : a = b := by
  unfold encodeToString at heq
  have hchars := String.ofList_injective heq
  have htoNat : ∀ n < 256, (Char.ofNat n).toNat = n := by decide +kernel
  apply encode_inj
  refine List.map_injective_iff.mpr ?_ hchars
  intro c d hcd
  have hnat : (Char.ofNat c.toNat).toNat = (Char.ofNat d.toNat).toNat := congrArg Char.toNat hcd
  rw [htoNat _ c.toNat_lt, htoNat _ d.toNat_lt] at hnat
  exact UInt8.toNat_inj.mp hnat

/-- Only no bytes at all have an empty text. -/
theorem encodeToString_ne_empty {b : Bytes} (hne : b ≠ []) : encodeToString b ≠ "" := by
  intro hempty
  exact hne (encodeToString_inj (hempty.trans (by rfl)))

/-- No code point of a list is dropped when none starts with the first byte. -/
theorem dropOne_eq_none {spaces : List Bytes} {c : UInt8} {b : Bytes}
    (hstart : ∀ sp ∈ spaces, sp.head? ≠ some c ∧ sp ≠ []) : dropOne spaces (c :: b) = none := by
  unfold dropOne
  rw [List.findSome?_eq_none_iff]
  intro sp hsp
  obtain ⟨hhead, hne⟩ := hstart sp hsp
  rw [if_neg]
  intro hpre
  cases sp with
  | nil => exact hne rfl
  | cons a sp =>
    rw [List.cons_prefix_cons] at hpre
    exact hhead (by rw [hpre.1]; rfl)

theorem trimStart_of_dropOne {spaces : List Bytes} {b : Bytes} (hnone : dropOne spaces b = none)
    (fuel : Nat) : trimStart spaces fuel b = b := by
  cases fuel with
  | zero => rfl
  | succ fuel => simp [trimStart, hnone]

/-- Digits are no white space, read from either end. -/
theorem digit_not_space : ∀ c ∈ digits, ∀ sp ∈ spaces,
    (sp.head? ≠ some c ∧ sp ≠ []) ∧ sp.reverse.head? ≠ some c ∧ sp.reverse ≠ [] := by
  decide +kernel

/-- A text that starts with a digit is not trimmed there. -/
theorem trimStart_digit {b : Bytes} {c : UInt8} (hc : c ∈ digits) (fuel : Nat) :
    trimStart spaces fuel (c :: b) = c :: b := by
  apply trimStart_of_dropOne
  apply dropOne_eq_none
  intro sp hsp
  exact (digit_not_space c hc sp hsp).1

/-- ... nor one that ends with a digit at its end. -/
theorem trimStart_reverse_digit {b : Bytes} {c : UInt8} (hc : c ∈ digits) (fuel : Nat) :
    trimStart (spaces.map List.reverse) fuel (c :: b) = c :: b := by
  apply trimStart_of_dropOne
  apply dropOne_eq_none
  intro sp hsp
  obtain ⟨sp', hsp', rfl⟩ := List.mem_map.mp hsp
  exact (digit_not_space c hc sp' hsp').2

/-- Trimming takes the line end off a line of digits. -/
theorem trimSpace_line {b : Bytes} (hne : b ≠ []) (hdigits : ∀ c ∈ b, c ∈ digits) :
    trimSpace (b ++ [0x0a]) = b := by
  have hstart : ∀ fuel, trimStart spaces fuel (b ++ [0x0a]) = b ++ [0x0a] := by
    obtain ⟨first, rest, rfl⟩ := List.exists_cons_of_ne_nil hne
    exact fun fuel => trimStart_digit (hdigits first (by simp)) fuel
  have hend : ∀ fuel, trimStart (spaces.map List.reverse) fuel b.reverse = b.reverse := by
    obtain ⟨last, rest, hrev⟩ := List.exists_cons_of_ne_nil (show b.reverse ≠ [] by simpa using hne)
    have hlast : last ∈ b := by
      rw [← List.mem_reverse, hrev]
      simp
    rw [hrev]
    exact fun fuel => trimStart_reverse_digit (hdigits last hlast) fuel
  -- from the end, one line end is dropped and then a digit stands there
  have hline : dropOne (spaces.map List.reverse) (0x0a :: b.reverse) = some b.reverse := by
    simp [dropOne, spaces]
  show (trimStart (spaces.map List.reverse) (trimStart spaces _ (b ++ [0x0a])).length
    (trimStart spaces _ (b ++ [0x0a])).reverse).reverse = b
  rw [hstart, List.length_append, List.reverse_append]
  show (trimStart (spaces.map List.reverse) (b.length + 1) (0x0a :: b.reverse)).reverse = b
  unfold trimStart
  simp only [hline, hend, List.reverse_reverse]

end Hex
