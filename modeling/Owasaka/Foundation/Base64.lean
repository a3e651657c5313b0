import Mathlib.Data.List.GetD
import Mathlib.Data.List.Nodup
import Owasaka.Foundation.Ascii

/-! # Base64

    The standard alphabet with padding.  Three bytes are four digits of six bits; line
    ends are skipped when a text is read. -/

namespace Base64

def alphabet : Bytes :=
  Bytes.ascii "ABCDEFGHIJKLMNOPQRSTUVWXYZabcdefghijklmnopqrstuvwxyz0123456789+/"

def digit (n : Nat) : UInt8 := alphabet.getD n 0

def value (c : UInt8) : Option Nat := alphabet.findIdx? (· == c)

def encode : Bytes → Bytes
  | [] => []
  | [a] => [digit (a.toNat / 4), digit (a.toNat % 4 * 16), 0x3d, 0x3d]
  | [a, b] =>
    [digit (a.toNat / 4), digit (a.toNat % 4 * 16 + b.toNat / 16), digit (b.toNat % 16 * 4), 0x3d]
  | a :: b :: c :: rest =>
    digit (a.toNat / 4) :: digit (a.toNat % 4 * 16 + b.toNat / 16)
      :: digit (b.toNat % 16 * 4 + c.toNat / 64) :: digit (c.toNat % 64) :: encode rest

/-- The bytes of groups of four digits; the last one may be padded. -/
def decodeGroups : Bytes → Option Bytes
  | [] => some []
  | d₀ :: d₁ :: d₂ :: d₃ :: rest =>
    if d₃ = 0x3d ∧ rest = [] then
      if d₂ = 0x3d then do
        let v₀ ← value d₀
        let v₁ ← value d₁
        some [UInt8.ofNat (v₀ * 4 + v₁ / 16)]
      else do
        let v₀ ← value d₀
        let v₁ ← value d₁
        let v₂ ← value d₂
        some [UInt8.ofNat (v₀ * 4 + v₁ / 16), UInt8.ofNat (v₁ % 16 * 16 + v₂ / 4)]
    else do
      let v₀ ← value d₀
      let v₁ ← value d₁
      let v₂ ← value d₂
      let v₃ ← value d₃
      let bytes ← decodeGroups rest
      some (UInt8.ofNat (v₀ * 4 + v₁ / 16) :: UInt8.ofNat (v₁ % 16 * 16 + v₂ / 4)
        :: UInt8.ofNat (v₂ % 4 * 64 + v₃) :: bytes)
  | _ => none

def decode (s : Bytes) : Option Bytes := decodeGroups (s.filter fun c => c != 0x0a && c != 0x0d)

/-! ## Reading back -/

/-- The letters, the digits and two signs.  The facts below are read off the numbers: the
    kernel takes its time over the characters of a text. -/
theorem alphabet_eq : alphabet
    = (List.range' 0x41 26 ++ List.range' 0x61 26 ++ List.range' 0x30 10 ++ [0x2b, 0x2f]).map
      UInt8.ofNat := by
  decide

theorem length_alphabet : alphabet.length = 64 := by
  rw [alphabet_eq]
  decide

theorem nodup_alphabet : alphabet.Nodup := by
  rw [alphabet_eq]
  decide

theorem pad_not_mem_alphabet : (0x3d : UInt8) ∉ alphabet := by
  rw [alphabet_eq]
  decide

theorem digit_eq_getElem {n : Nat} (hn : n < alphabet.length) : digit n = alphabet[n] :=
  List.getD_eq_getElem alphabet 0 hn

theorem digit_mem {n : Nat} (hn : n < 64) : digit n ∈ alphabet := by
  rw [← length_alphabet] at hn
  rw [digit_eq_getElem hn]
  exact List.getElem_mem hn

/-- No letter stands for two values. -/
theorem value_digit {n : Nat} (hn : n < 64) : value (digit n) = some n := by
  rw [← length_alphabet] at hn
  rw [value, digit_eq_getElem hn, List.findIdx?_eq_some_iff_getElem]
  refine ⟨hn, beq_self_eq_true _, ?_⟩
  intro m hm hsame
  have heq := (nodup_alphabet.getElem_inj_iff).mp (eq_of_beq hsame)
  omega

theorem digit_ne_pad {n : Nat} (hn : n < 64) : digit n ≠ 0x3d :=
  ne_of_mem_of_not_mem (digit_mem hn) pad_not_mem_alphabet

theorem mem_encode {b : Bytes} {c : UInt8} (hc : c ∈ encode b) : c ∈ (0x3d : UInt8) :: alphabet := by
  have hdigit : ∀ n < 64, digit n ∈ (0x3d : UInt8) :: alphabet := fun n hn =>
    List.mem_cons_of_mem _ (digit_mem hn)
  -- three bytes at a time; the last group may be padded
  induction b using encode.induct with
  | case1 => simp [encode] at hc
  | case2 a =>
    have ha := a.toNat_lt
    simp only [encode, List.mem_cons, List.not_mem_nil, or_false] at hc
    rcases hc with rfl | rfl | rfl | rfl
    · exact hdigit _ (by omega)
    · exact hdigit _ (by omega)
    · exact List.mem_cons_self
    · exact List.mem_cons_self
  | case3 a b =>
    have ha := a.toNat_lt
    have hb := b.toNat_lt
    simp only [encode, List.mem_cons, List.not_mem_nil, or_false] at hc
    rcases hc with rfl | rfl | rfl | rfl
    · exact hdigit _ (by omega)
    · exact hdigit _ (by omega)
    · exact hdigit _ (by omega)
    · exact List.mem_cons_self
  | case4 a b d rest ih =>
    have ha := a.toNat_lt
    have hb := b.toNat_lt
    have hd := d.toNat_lt
    rw [encode] at hc
    simp only [List.mem_cons] at hc ih ⊢
    rcases hc with rfl | rfl | rfl | rfl | hc
    · simpa using hdigit _ (by omega)
    · simpa using hdigit _ (by omega)
    · simpa using hdigit _ (by omega)
    · simpa using hdigit _ (by omega)
    · exact ih hc

theorem decodeGroups_encode (b : Bytes) : decodeGroups (encode b) = some b := by
  have hbyte : ∀ (a : UInt8) (n : Nat), n = a.toNat → UInt8.ofNat n = a := by
    rintro a _ rfl
    exact UInt8.ofNat_toNat
  induction b using encode.induct with
  | case1 => rfl
  | case2 a =>
    have ha := a.toNat_lt
    rw [encode, decodeGroups, if_pos ⟨rfl, rfl⟩, if_pos rfl, value_digit (by omega), value_digit (by omega)]
    simp only [Option.bind_eq_bind, Option.bind_some]
    rw [hbyte a _ (by omega)]
  | case3 a b =>
    have ha := a.toNat_lt
    have hb := b.toNat_lt
    rw [encode, decodeGroups, if_pos ⟨rfl, rfl⟩, if_neg (digit_ne_pad (by omega)), value_digit (by omega),
      value_digit (by omega), value_digit (by omega)]
    simp only [Option.bind_eq_bind, Option.bind_some]
    rw [hbyte a _ (by omega), hbyte b _ (by omega)]
  | case4 a b c rest ih =>
    have ha := a.toNat_lt
    have hb := b.toNat_lt
    have hc := c.toNat_lt
    rw [encode, decodeGroups, if_neg fun hpad => digit_ne_pad (by omega) hpad.1, value_digit (by omega),
      value_digit (by omega), value_digit (by omega), value_digit (by omega)]
    simp only [Option.bind_eq_bind, Option.bind_some, ih]
    rw [hbyte a _ (by omega), hbyte b _ (by omega), hbyte c _ (by omega)]

theorem decode_encode (b : Bytes) : decode (encode b) = some b := by
  have hkept : (encode b).filter (fun c => c != 0x0a && c != 0x0d) = encode b := by
    have hall : ((0x3d : UInt8) :: alphabet).all (fun c => c != 0x0a && c != 0x0d) = true := by
      rw [alphabet_eq]
      decide
    rw [List.filter_eq_self]
    exact fun c hc => List.all_eq_true.mp hall c (mem_encode hc)
  rw [decode, hkept, decodeGroups_encode]

/-! ## The alphabet of URLs, without padding -/

def urlDigit (c : UInt8) : UInt8 := if c = 0x2b then 0x2d else if c = 0x2f then 0x5f else c

def stdDigit (c : UInt8) : UInt8 := if c = 0x2d then 0x2b else if c = 0x5f then 0x2f else c

/-- `base64.RawURLEncoding`. -/
def encodeRawURL (b : Bytes) : Bytes := ((encode b).filter (· != 0x3d)).map urlDigit

/-- The padding fills the last group of four. -/
theorem encode_eq_pad (b : Bytes) : ∃ digits, (encode b).filter (· != 0x3d) = digits
    ∧ encode b = digits ++ List.replicate ((4 - digits.length % 4) % 4) 0x3d := by
  refine ⟨_, rfl, ?_⟩
  induction b using encode.induct with
  | case1 => rfl
  | case2 a =>
    have ha := a.toNat_lt
    simp [encode, digit_ne_pad (show a.toNat / 4 < 64 by omega),
      digit_ne_pad (show a.toNat % 4 * 16 < 64 by omega)]
  | case3 a b =>
    have ha := a.toNat_lt
    have hb := b.toNat_lt
    simp [encode, digit_ne_pad (show a.toNat / 4 < 64 by omega),
      digit_ne_pad (show a.toNat % 4 * 16 + b.toNat / 16 < 64 by omega),
      digit_ne_pad (show b.toNat % 16 * 4 < 64 by omega)]
  | case4 a b c rest ih =>
    have ha := a.toNat_lt
    have hb := b.toNat_lt
    have hc := c.toNat_lt
    have hcount : ∀ n, (4 - (n + 1 + 1 + 1 + 1) % 4) % 4 = (4 - n % 4) % 4 := by omega
    simp only [encode, List.filter_cons, digit_ne_pad (show a.toNat / 4 < 64 by omega),
      digit_ne_pad (show a.toNat % 4 * 16 + b.toNat / 16 < 64 by omega),
      digit_ne_pad (show b.toNat % 16 * 4 + c.toNat / 64 < 64 by omega),
      digit_ne_pad (show c.toNat % 64 < 64 by omega), bne_iff_ne, ne_eq, not_false_iff, if_true,
      List.length_cons, hcount, List.cons_append]
    rw [← ih]

theorem stdDigit_urlDigit : ∀ c ∈ alphabet, stdDigit (urlDigit c) = c := by
  have hall : alphabet.all (fun c => stdDigit (urlDigit c) == c) = true := by
    rw [alphabet_eq]
    decide
  simpa only [List.all_eq_true, beq_iff_eq] using hall

theorem map_stdDigit_encodeRawURL (b : Bytes) :
    (encodeRawURL b).map stdDigit = (encode b).filter (· != 0x3d) := by
  have hmem : ∀ c ∈ (encode b).filter (· != 0x3d), (stdDigit ∘ urlDigit) c = id c := by
    intro c hc
    obtain ⟨hc, hne⟩ := List.mem_filter.mp hc
    exact stdDigit_urlDigit c (List.mem_of_ne_of_mem (by simpa using hne) (mem_encode hc))
  rw [encodeRawURL, List.map_map, List.map_congr_left hmem, List.map_id]

/-- The text determines the bytes. -/
theorem encodeRawURL_inj {b b' : Bytes} (heq : encodeRawURL b = encodeRawURL b') : b = b' := by
  have hdigits : (encode b).filter (· != 0x3d) = (encode b').filter (· != 0x3d) := by
    rw [← map_stdDigit_encodeRawURL, heq, map_stdDigit_encodeRawURL]
  obtain ⟨digits, hfilter, hpad⟩ := encode_eq_pad b
  obtain ⟨digits', hfilter', hpad'⟩ := encode_eq_pad b'
  obtain rfl : digits = digits' := by rw [← hfilter, ← hfilter', hdigits]
  have hsame := decodeGroups_encode b
  rw [hpad, ← hpad', decodeGroups_encode] at hsame
  exact (Option.some.inj hsame).symm

def urlValue (c : UInt8) : Option Nat :=
  if c = 0x2b ∨ c = 0x2f then none else value (stdDigit c)

/-- The bytes of groups of four digits; the last one may be shorter. -/
def decodeRawGroups : Bytes → Option Bytes
  | [] => some []
  | [_] => none
  | [d₀, d₁] => do
    let v₀ ← urlValue d₀
    let v₁ ← urlValue d₁
    some [UInt8.ofNat (v₀ * 4 + v₁ / 16)]
  | [d₀, d₁, d₂] => do
    let v₀ ← urlValue d₀
    let v₁ ← urlValue d₁
    let v₂ ← urlValue d₂
    some [UInt8.ofNat (v₀ * 4 + v₁ / 16), UInt8.ofNat (v₁ % 16 * 16 + v₂ / 4)]
  | d₀ :: d₁ :: d₂ :: d₃ :: rest => do
    let v₀ ← urlValue d₀
    let v₁ ← urlValue d₁
    let v₂ ← urlValue d₂
    let v₃ ← urlValue d₃
    let bytes ← decodeRawGroups rest
    some (UInt8.ofNat (v₀ * 4 + v₁ / 16) :: UInt8.ofNat (v₁ % 16 * 16 + v₂ / 4)
      :: UInt8.ofNat (v₂ % 4 * 64 + v₃) :: bytes)

def decodeRawURL (s : Bytes) : Option Bytes :=
  decodeRawGroups (s.filter fun c => c != 0x0a && c != 0x0d)

theorem urlValue_digit {n : Nat} (hn : n < 64) : urlValue (urlDigit (digit n)) = some n := by
  have hurl : ∀ c ∈ alphabet, ¬ (urlDigit c = 0x2b ∨ urlDigit c = 0x2f) := by
    have hall : alphabet.all (fun c => !(urlDigit c == 0x2b || urlDigit c == 0x2f)) = true := by
      rw [alphabet_eq]
      decide
    simpa using hall
  rw [urlValue, if_neg (hurl _ (digit_mem hn)), stdDigit_urlDigit _ (digit_mem hn), value_digit hn]

theorem decodeRawGroups_encodeRawURL (b : Bytes) : decodeRawGroups (encodeRawURL b) = some b := by
  have hbyte : ∀ (a : UInt8) (n : Nat), n = a.toNat → UInt8.ofNat n = a := by
    rintro a _ rfl
    exact UInt8.ofNat_toNat
  unfold encodeRawURL
  induction b using encode.induct with
  | case1 => rfl
  | case2 a =>
    have ha := a.toNat_lt
    simp only [encode, List.filter_cons, digit_ne_pad (show a.toNat / 4 < 64 by omega),
      digit_ne_pad (show a.toNat % 4 * 16 < 64 by omega), bne_iff_ne, ne_eq, not_false_iff, not_true,
      if_true, if_false, List.filter_nil, List.map_cons, List.map_nil, decodeRawGroups]
    rw [urlValue_digit (by omega), urlValue_digit (by omega)]
    simp only [Option.bind_eq_bind, Option.bind_some]
    rw [hbyte a _ (by omega)]
  | case3 a b =>
    have ha := a.toNat_lt
    have hb := b.toNat_lt
    simp only [encode, List.filter_cons, digit_ne_pad (show a.toNat / 4 < 64 by omega),
      digit_ne_pad (show a.toNat % 4 * 16 + b.toNat / 16 < 64 by omega),
      digit_ne_pad (show b.toNat % 16 * 4 < 64 by omega), bne_iff_ne, ne_eq, not_false_iff, not_true,
      if_true, if_false, List.filter_nil, List.map_cons, List.map_nil, decodeRawGroups]
    rw [urlValue_digit (by omega), urlValue_digit (by omega), urlValue_digit (by omega)]
    simp only [Option.bind_eq_bind, Option.bind_some]
    rw [hbyte a _ (by omega), hbyte b _ (by omega)]
  | case4 a b c rest ih =>
    have ha := a.toNat_lt
    have hb := b.toNat_lt
    have hc := c.toNat_lt
    simp only [encode, List.filter_cons, digit_ne_pad (show a.toNat / 4 < 64 by omega),
      digit_ne_pad (show a.toNat % 4 * 16 + b.toNat / 16 < 64 by omega),
      digit_ne_pad (show b.toNat % 16 * 4 + c.toNat / 64 < 64 by omega),
      digit_ne_pad (show c.toNat % 64 < 64 by omega), bne_iff_ne, ne_eq, not_false_iff,
      if_true, List.map_cons, decodeRawGroups]
    rw [urlValue_digit (by omega), urlValue_digit (by omega), urlValue_digit (by omega),
      urlValue_digit (by omega)]
    simp only [Option.bind_eq_bind, Option.bind_some, ih]
    rw [hbyte a _ (by omega), hbyte b _ (by omega), hbyte c _ (by omega)]

theorem mem_encodeRawURL {b : Bytes} {c : UInt8} (hc : c ∈ encodeRawURL b) :
    c ∈ alphabet.map urlDigit := by
  unfold encodeRawURL at hc
  obtain ⟨d, hd, rfl⟩ := List.mem_map.mp hc
  obtain ⟨hmem, hne⟩ := List.mem_filter.mp hd
  exact List.mem_map_of_mem (List.mem_of_ne_of_mem (by simpa using hne) (mem_encode hmem))

/-- **A text is read back**. -/
theorem decodeRawURL_encodeRawURL (b : Bytes) : decodeRawURL (encodeRawURL b) = some b := by
  have hkept : (encodeRawURL b).filter (fun c => c != 0x0a && c != 0x0d) = encodeRawURL b := by
    have hall : (alphabet.map urlDigit).all (fun c => c != 0x0a && c != 0x0d) = true := by
      rw [alphabet_eq]
      decide
    rw [List.filter_eq_self]
    exact fun c hc => List.all_eq_true.mp hall c (mem_encodeRawURL hc)
  rw [decodeRawURL, hkept, decodeRawGroups_encodeRawURL]

end Base64
