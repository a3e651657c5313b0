import Owasaka.Foundation.Ascii
import Owasaka.Foundation.JsonString

/-! # Numbers and digests in the text of a request

    This file defines:
    - `firstValue`: a parameter of a query that is already split up
    - `parseUint64`: a decimal number of at most 64 bits
    - `Hex.decode`
    and proves that what `Bytes.decimal` and `Hex.encode` write is read back. -/

/-- The first value under a name; the empty text when there is none. -/
def firstValue (query : List (Bytes × Bytes)) (name : Bytes) : Bytes :=
  (query.lookup name).getD []

/-- `strconv.ParseUint` in base 10 with 64 bits: digits only, without a sign. -/
def parseUint64 (s : Bytes) : Option Nat :=
  if s = [] ∨ !s.all Bytes.isDigit then none
  else if Bytes.ofDecimal s < 2 ^ 64 then some (Bytes.ofDecimal s) else none

theorem parseUint64_decimal {n : Nat} (hn : n < 2 ^ 64) : parseUint64 (Bytes.decimal n) = some n := by
  have hdigits : ¬ (Bytes.decimal n = [] ∨ (!(Bytes.decimal n).all Bytes.isDigit) = true) := by
    intro hbad
    rcases hbad with hnil | hall
    · exact Bytes.decimal_ne_nil n hnil
    · have hgood : (Bytes.decimal n).all Bytes.isDigit = true :=
        List.all_eq_true.mpr fun c hc => Bytes.isDigit_of_mem_decimal hc
      rw [hgood] at hall
      contradiction
  unfold parseUint64
  rw [if_neg hdigits, Bytes.ofDecimal_decimal, if_pos hn]

namespace Hex

/-- `hex.DecodeString`: two digits for each byte, in either case. -/
def decode : Bytes → Option Bytes
  | [] => some []
  | [_] => none
  | high :: low :: rest => do
    let h ← JsonText.hexValue high
    let l ← JsonText.hexValue low
    let tail ← decode rest
    return UInt8.ofNat (16 * h + l) :: tail

theorem decode_encode (b : Bytes) : decode (encode b) = some b := by
  induction b with
  | nil => rfl
  | cons c b ih =>
    have hhigh : JsonText.hexValue (digit (c.toNat / 16)) = some (c.toNat / 16) := by
      apply JsonText.hexValue_digit
      have hlt := c.toNat_lt
      omega
    have hlow : JsonText.hexValue (digit (c.toNat % 16)) = some (c.toNat % 16) :=
      JsonText.hexValue_digit (Nat.mod_lt _ (by omega))
    have hbyte : UInt8.ofNat (16 * (c.toNat / 16) + c.toNat % 16) = c := by
      rw [Nat.div_add_mod, UInt8.ofNat_toNat]
    show decode (digit (c.toNat / 16) :: digit (c.toNat % 16) :: encode b) = some (c :: b)
    simp only [decode, hhigh, hlow, ih, hbyte, Option.bind_eq_bind, Option.bind_some, Option.pure_def]

end Hex
