import Owasaka.Foundation.Bytes

/-! # ASCII texts as byte strings

    Texts and decimal numbers as the bytes that stand for them, and when the
    pieces of a joined text can be told apart. -/

namespace Bytes

/-- The bytes of a text of ASCII characters. -/
def ascii (s : String) : Bytes := s.toList.map fun c => UInt8.ofNat c.toNat

/-- A text given by its characters. -/
theorem ascii_ofList (l : List Char) : ascii (String.ofList l) = l.map fun c => UInt8.ofNat c.toNat := by
  rw [ascii, String.toList_ofList]

def isDigit (c : UInt8) : Bool := decide (48 ≤ c) && decide (c ≤ 57)

/-- A number in decimal, without leading zeros. -/
def decimal (n : Nat) : Bytes := (Nat.toDigits 10 n).map fun c => UInt8.ofNat c.toNat

/-- Digits without the zeros at their end. -/
def trimZeros (digits : Bytes) : Bytes := (digits.reverse.dropWhile fun c => c == 0x30).reverse

/-- The number with these decimal digits. -/
def ofDecimal (b : Bytes) : Nat := b.foldl (fun n c => 10 * n + (c.toNat - 48)) 0

theorem toNat_ofNat_of_isDigit {c : Char} (hc : c.isDigit = true) :
    (UInt8.ofNat c.toNat).toNat = c.toNat ∧ 48 ≤ c.toNat ∧ c.toNat ≤ 57 := by
  have hbounds : 48 ≤ c.toNat ∧ c.toNat ≤ 57 := by
    simp only [Char.isDigit, Bool.and_eq_true, decide_eq_true_eq] at hc
    exact ⟨UInt32.le_iff_toNat_le.mp hc.1, UInt32.le_iff_toNat_le.mp hc.2⟩
  refine ⟨?_, hbounds⟩
  rw [UInt8.toNat_ofNat']
  omega

/-- The number of digits given as characters. -/
theorem ofDecimal_map {l : List Char} (hl : ∀ c ∈ l, c.isDigit = true) :
    ofDecimal (l.map fun c => UInt8.ofNat c.toNat) = Nat.ofDigitChars 10 l 0 := by
  suffices hsuff : ∀ (l : List Char) (acc : Nat), (∀ c ∈ l, c.isDigit = true) →
      (l.map fun c => UInt8.ofNat c.toNat).foldl (fun n c => 10 * n + (c.toNat - 48)) acc
        = Nat.ofDigitChars 10 l acc from hsuff l 0 hl
  intro l
  induction l with
  | nil => intro acc _; simp
  | cons c l ih =>
    intro acc hl
    obtain ⟨hval, _⟩ := toNat_ofNat_of_isDigit (hl c List.mem_cons_self)
    rw [List.map_cons, List.foldl_cons, hval, Nat.ofDigitChars_cons]
    exact ih _ fun c' hc' => hl c' (List.mem_cons_of_mem _ hc')

theorem isDigit_of_mem_map {l : List Char} (hl : ∀ c ∈ l, c.isDigit = true) {b : UInt8}
    (hb : b ∈ l.map fun c => UInt8.ofNat c.toNat) : isDigit b = true := by
  obtain ⟨d, hd, rfl⟩ := List.mem_map.mp hb
  obtain ⟨hval, hlo, hhi⟩ := toNat_ofNat_of_isDigit (hl d hd)
  simp only [isDigit, Bool.and_eq_true, decide_eq_true_eq, UInt8.le_iff_toNat_le, hval]
  exact ⟨hlo, hhi⟩

theorem isDigit_of_mem_decimal {n : Nat} {c : UInt8} (hc : c ∈ decimal n) : isDigit c = true :=
  isDigit_of_mem_map (fun _ => Nat.isDigit_of_mem_toDigits (by decide) (by decide)) hc

theorem ofDecimal_decimal (n : Nat) : ofDecimal (decimal n) = n := by
  rw [decimal, ofDecimal_map fun _ => Nat.isDigit_of_mem_toDigits (by decide) (by decide),
    Nat.ofDigitChars_ten_toDigits]

theorem decimal_inj {n m : Nat} (heq : decimal n = decimal m) : n = m := by
  rw [← ofDecimal_decimal n, heq, ofDecimal_decimal]

theorem decimal_ne_nil (n : Nat) : decimal n ≠ [] := by
  simp [decimal, Nat.toDigits_ne_nil]

theorem ofDecimal_append_zeros (b : Bytes) (k : Nat) :
    ofDecimal (b ++ List.replicate k 0x30) = ofDecimal b * 10 ^ k := by
  induction k with
  | zero => simp
  | succ k ih =>
    rw [List.replicate_succ', ← List.append_assoc, ofDecimal, List.foldl_append]
    rw [ofDecimal] at ih
    rw [ih, List.foldl_cons, List.foldl_nil, pow_succ]
    simp
    ring

theorem ofDecimal_append (b c : Bytes) :
    ofDecimal (b ++ c) = ofDecimal b * 10 ^ c.length + ofDecimal c := by
  suffices hsuff : ∀ (c : Bytes) (acc : Nat), c.foldl (fun n d => 10 * n + (d.toNat - 48)) acc
      = acc * 10 ^ c.length + ofDecimal c by
    rw [ofDecimal, List.foldl_append]
    exact hsuff c _
  intro c
  induction c with
  | nil => simp [ofDecimal]
  | cons d c ih =>
    intro acc
    have hcons : ofDecimal (d :: c) = (10 * 0 + (d.toNat - 48)) * 10 ^ c.length + ofDecimal c :=
      ih (10 * 0 + (d.toNat - 48))
    rw [List.foldl_cons, ih, hcons, List.length_cons, Nat.pow_succ]
    ring

/-- A text is its part without trailing zeros, and zeros. -/
theorem trimZeros_append (ds : Bytes) : ∃ k, ds = trimZeros ds ++ List.replicate k 0x30 := by
  refine ⟨(ds.reverse.takeWhile fun c => c == 0x30).length, ?_⟩
  have hzeros : (ds.reverse.takeWhile fun c => c == 0x30)
      = List.replicate (ds.reverse.takeWhile fun c => c == 0x30).length 0x30 := by
    rw [List.eq_replicate_iff]
    refine ⟨rfl, fun c hc => ?_⟩
    have hall := List.all_takeWhile (l := ds.reverse) (p := fun c => c == 0x30)
    simpa using List.all_eq_true.mp hall c hc
  have hsplit := List.takeWhile_append_dropWhile (p := fun c => c == 0x30) (l := ds.reverse)
  have hrev := congrArg List.reverse hsplit
  rw [List.reverse_append, List.reverse_reverse, hzeros, List.reverse_replicate] at hrev
  exact hrev.symm

theorem isDigit_of_mem_trimZeros {ds : Bytes} (hds : ∀ c ∈ ds, isDigit c = true) {c : UInt8}
    (hc : c ∈ trimZeros ds) : isDigit c = true := by
  obtain ⟨k, hk⟩ := trimZeros_append ds
  exact hds c (by rw [hk]; exact List.mem_append_left _ hc)

/-- The digits before a byte that is none. -/
theorem takeWhile_digits {ds : Bytes} (hds : ∀ c ∈ ds, isDigit c = true) {b : UInt8} {rest : Bytes}
    (hb : isDigit b = false) : (ds ++ b :: rest).takeWhile isDigit = ds := by
  rw [List.takeWhile_append_of_pos hds, List.takeWhile_cons_of_neg (by simp [hb]), List.append_nil]

theorem dropWhile_digits {ds : Bytes} (hds : ∀ c ∈ ds, isDigit c = true) {b : UInt8} {rest : Bytes}
    (hb : isDigit b = false) : (ds ++ b :: rest).dropWhile isDigit = b :: rest := by
  rw [List.dropWhile_append_of_pos hds, List.dropWhile_cons_of_neg (by simp [hb])]

/-- Two strings up to a byte that occurs in neither of them. -/
theorem append_cons_inj {a a' r r' : Bytes} {c : UInt8} (ha : c ∉ a) (ha' : c ∉ a')
    (heq : a ++ c :: r = a' ++ c :: r') : a = a' ∧ r = r' := by
  have htake : ∀ {s t : Bytes}, c ∉ s → (s ++ c :: t).takeWhile (fun x => x != c) = s := by
    intro s t hs
    rw [List.takeWhile_append_of_pos, List.takeWhile_cons_of_neg (by simp), List.append_nil]
    intro x hx
    simpa using fun heq' : x = c => hs (heq' ▸ hx)
  have hfront : a = a' := by rw [← htake (t := r) ha, heq, htake ha']
  subst hfront
  simpa using heq

theorem not_mem_decimal {n : Nat} {c : UInt8} (hc : isDigit c = false) : c ∉ decimal n := by
  intro hmem
  rw [isDigit_of_mem_decimal hmem] at hc
  contradiction

/-- A number is determined by its text up to a byte that is no digit. -/
theorem decimal_append_inj {n m : Nat} {c : UInt8} {r r' : Bytes} (hc : isDigit c = false)
    (heq : decimal n ++ c :: r = decimal m ++ c :: r') : n = m ∧ r = r' := by
  obtain ⟨htext, hrest⟩ := append_cons_inj (not_mem_decimal hc) (not_mem_decimal hc) heq
  exact ⟨decimal_inj htext, hrest⟩

/-- A number at the end of a text is determined, with what is before it. -/
theorem append_decimal_inj {n m : Nat} {c : UInt8} {a a' : Bytes} (hc : isDigit c = false)
    (heq : a ++ c :: decimal n = a' ++ c :: decimal m) : a = a' ∧ n = m := by
  have hback := congrArg List.reverse heq
  simp only [List.reverse_append, List.reverse_cons, List.append_assoc, List.singleton_append] at hback
  have hnot : ∀ k, c ∉ (decimal k).reverse := fun k hk => not_mem_decimal hc (List.mem_reverse.mp hk)
  obtain ⟨htext, hfront⟩ := append_cons_inj (hnot n) (hnot m) hback
  exact ⟨List.reverse_inj.mp hfront, decimal_inj (List.reverse_inj.mp htext)⟩

end Bytes
