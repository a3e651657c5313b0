import Owasaka.Foundation.JsonString

/-! # JSON documents

    A document keeps the texts of its literals and the order of its members, as a
    decoder sees them; what they mean is up to the type that is decoded into.

    This file defines:
    - `Doc`, `render`: a document and its compact text
    - `parse`: the document of a text, with a limit on its depth
    - `Proper`: the documents whose text is read back
    and proves that a proper document is read back from its text. -/

inductive JsonDoc where
  | null
  | bool (b : Bool)
  | num (lit : Bytes)
  | str (lit : Bytes)
  | arr (items : List JsonDoc)
  | obj (members : List (Bytes × JsonDoc))

namespace JsonText

/-! ## Section 1: The text of a document -/

mutual

def render : JsonDoc → Bytes
  | .null => Bytes.ascii "null"
  | .bool true => Bytes.ascii "true"
  | .bool false => Bytes.ascii "false"
  | .num lit => lit
  | .str lit => 0x22 :: (lit ++ [0x22])
  | .arr items => 0x5b :: (List.intercalate [0x2c] (renderItems items) ++ [0x5d])
  | .obj members => 0x7b :: (List.intercalate [0x2c] (renderMembers members) ++ [0x7d])

def renderItems : List JsonDoc → List Bytes
  | [] => []
  | d :: ds => render d :: renderItems ds

def renderMembers : List (Bytes × JsonDoc) → List Bytes
  | [] => []
  | (key, d) :: ms => (0x22 :: (key ++ [0x22, 0x3a]) ++ render d) :: renderMembers ms

end

/-! ## Section 2: Numbers -/

def isNumberByte (b : UInt8) : Bool :=
  Bytes.isDigit b || b == 0x2b || b == 0x2d || b == 0x2e || b == 0x45 || b == 0x65

/-- The exponent of a number, or nothing. -/
def isExponent : Bytes → Bool
  | [] => true
  | b :: rest =>
    (b == 0x65 || b == 0x45) &&
      match rest with
      | [] => false
      | c :: rest =>
        if c = 0x2b ∨ c = 0x2d then !rest.isEmpty && rest.all Bytes.isDigit
        else (c :: rest).all Bytes.isDigit

/-- What follows the integer part of a number. -/
def isFraction : Bytes → Bool
  | [] => true
  | b :: rest =>
    if b = 0x2e then
      (match rest with
        | [] => false
        | c :: _ => Bytes.isDigit c) && isExponent (rest.dropWhile Bytes.isDigit)
    else isExponent (b :: rest)

/-- A number without its sign. -/
def isUnsigned : Bytes → Bool
  | [] => false
  | b :: rest =>
    if b = 0x30 then isFraction rest
    else Bytes.isDigit b && isFraction (rest.dropWhile Bytes.isDigit)

def isNumber : Bytes → Bool
  | [] => false
  | b :: rest => if b = 0x2d then isUnsigned rest else isUnsigned (b :: rest)

/-! ## Section 3: The document of a text -/

def isSpace (b : UInt8) : Bool := b == 0x20 || b == 0x09 || b == 0x0a || b == 0x0d

def skipSpace (s : Bytes) : Bytes := s.dropWhile isSpace

/-- What follows the byte `c`, after white space. -/
def expect (c : UInt8) (s : Bytes) : Option Bytes :=
  match skipSpace s with
  | [] => none
  | b :: rest => if b = c then some rest else none

/-- A document that is neither a string nor an array nor an object. -/
def parseScalar (s : Bytes) : Option (JsonDoc × Bytes) :=
  if Bytes.ascii "null" <+: s then some (.null, s.drop 4)
  else if Bytes.ascii "true" <+: s then some (.bool true, s.drop 4)
  else if Bytes.ascii "false" <+: s then some (.bool false, s.drop 5)
  else if isNumber (s.takeWhile isNumberByte) then
    some (.num (s.takeWhile isNumberByte), s.dropWhile isNumberByte)
  else none

mutual

/-- The document at the front of a text; `depth` more levels may be opened. -/
def parseValue : Nat → Nat → Bytes → Option (JsonDoc × Bytes)
  | 0, _, _ => none
  | fuel + 1, depth, s =>
    match skipSpace s with
    | [] => none
    | b :: rest =>
      if b = 0x22 then (scanLit rest).map fun p => (.str p.1, p.2)
      else if b = 0x5b then
        if depth = 0 then none
        else
          match expect 0x5d rest with
          | some rest => some (.arr [], rest)
          | none => (parseItems fuel (depth - 1) rest).map fun p => (.arr p.1, p.2)
      else if b = 0x7b then
        if depth = 0 then none
        else
          match expect 0x7d rest with
          | some rest => some (.obj [], rest)
          | none => (parseMembers fuel (depth - 1) rest).map fun p => (.obj p.1, p.2)
      else parseScalar (b :: rest)

/-- The items of an array, up to its end. -/
def parseItems : Nat → Nat → Bytes → Option (List JsonDoc × Bytes)
  | 0, _, _ => none
  | fuel + 1, depth, s =>
    match parseValue fuel depth s with
    | none => none
    | some (d, rest) =>
      match expect 0x2c rest with
      | some rest => (parseItems fuel depth rest).map fun p => (d :: p.1, p.2)
      | none => (expect 0x5d rest).map fun rest => ([d], rest)

/-- The members of an object, up to its end. -/
def parseMembers : Nat → Nat → Bytes → Option (List (Bytes × JsonDoc) × Bytes)
  | 0, _, _ => none
  | fuel + 1, depth, s =>
    match (expect 0x22 s).bind scanLit with
    | none => none
    | some (key, rest) =>
      match (expect 0x3a rest).bind (parseValue fuel depth) with
      | none => none
      | some (d, rest) =>
        match expect 0x2c rest with
        | some rest => (parseMembers fuel depth rest).map fun p => ((key, d) :: p.1, p.2)
        | none => (expect 0x7d rest).map fun rest => ([(key, d)], rest)

end

/-- The levels that a text may open. -/
def maxDepth : Nat := 10000

/-- The document of a whole text.  Each byte of a text takes at most two calls. -/
def parse (s : Bytes) : Option JsonDoc :=
  match parseValue (2 * s.length + 2) maxDepth s with
  | none => none
  | some (d, rest) => if skipSpace rest = [] then some d else none

/-! ## Section 4: Proper documents -/

/-- The text between the quotes of a literal. -/
def IsLit (lit : Bytes) : Prop := ∀ t, scanLit (lit ++ 0x22 :: t) = some (lit, t)

mutual

/-- The literals of the document are texts of literals, and it has at most `depth` levels. -/
def Proper : Nat → JsonDoc → Prop
  | _, .null => True
  | _, .bool _ => True
  | _, .num lit => isNumber lit = true ∧ ∀ b ∈ lit, isNumberByte b = true
  | _, .str lit => IsLit lit
  | depth, .arr items => 0 < depth ∧ ProperItems (depth - 1) items
  | depth, .obj members => 0 < depth ∧ ProperMembers (depth - 1) members

def ProperItems : Nat → List JsonDoc → Prop
  | _, [] => True
  | depth, d :: ds => Proper depth d ∧ ProperItems depth ds

def ProperMembers : Nat → List (Bytes × JsonDoc) → Prop
  | _, [] => True
  | depth, (key, d) :: ms => (IsLit key ∧ Proper depth d) ∧ ProperMembers depth ms

end

theorem properMembers_iff {depth : Nat} {ms : List (Bytes × JsonDoc)} :
    ProperMembers depth ms ↔ ∀ m ∈ ms, IsLit m.1 ∧ Proper depth m.2 := by
  induction ms with
  | nil => simp [ProperMembers]
  | cons m ms ih =>
    obtain ⟨key, d⟩ := m
    simp [ProperMembers, ih]

theorem isNumberByte_of_isDigit {b : UInt8} (hb : Bytes.isDigit b = true) :
    isNumberByte b = true := by
  simp [isNumberByte, hb]

/-- A natural number in decimal starts with a zero only when it is 0. -/
theorem decimal_head (n : Nat) : ∃ c cs, Bytes.decimal n = c :: cs ∧ Bytes.isDigit c = true
    ∧ (c = 0x30 → cs = []) := by
  induction n using Nat.strong_induction_on with
  | h n ih =>
    by_cases hsmall : n < 10
    · have hone : Bytes.decimal n = [UInt8.ofNat n.digitChar.toNat] := by
        rw [Bytes.decimal, Nat.toDigits_of_lt_base hsmall]
        rfl
      exact ⟨_, [], hone, Bytes.isDigit_of_mem_decimal (by rw [hone]; exact List.mem_cons_self),
        fun _ => rfl⟩
    · obtain ⟨c, cs, heq, hdigit, hzero⟩ := ih (n / 10) (by omega)
      have hsplit : Bytes.decimal n
          = Bytes.decimal (n / 10) ++ [UInt8.ofNat (n % 10).digitChar.toNat] := by
        rw [Bytes.decimal, Bytes.decimal, Nat.toDigits_of_base_le (by decide) (by omega),
          List.map_append]
        rfl
      refine ⟨c, cs ++ [UInt8.ofNat (n % 10).digitChar.toNat], ?_, hdigit, ?_⟩
      · rw [hsplit, heq]
        rfl
      · -- otherwise the digits before the last would be those of 0
        intro hc
        have hval := Bytes.ofDecimal_decimal (n / 10)
        rw [heq, hzero hc, hc, show Bytes.ofDecimal [0x30] = 0 from rfl] at hval
        omega

theorem isUnsigned_decimal (n : Nat) : isUnsigned (Bytes.decimal n) = true := by
  obtain ⟨c, cs, heq, hdigit, hzero⟩ := decimal_head n
  have hcs : ∀ b ∈ cs, Bytes.isDigit b = true := by
    intro b hb
    exact Bytes.isDigit_of_mem_decimal (by rw [heq]; exact List.mem_cons_of_mem _ hb)
  rw [heq, isUnsigned]
  by_cases hc : c = 0x30
  · rw [if_pos hc, hzero hc]
    rfl
  · have hdrop := @List.dropWhile_append_of_pos _ _ _ [] hcs
    rw [List.append_nil] at hdrop
    rw [if_neg hc, hdigit, hdrop]
    rfl

theorem isNumber_decimal (n : Nat) : isNumber (Bytes.decimal n) = true := by
  have hunsigned := isUnsigned_decimal n
  obtain ⟨c, cs, heq, hdigit, _⟩ := decimal_head n
  have hne : c ≠ 0x2d := by
    rintro rfl
    revert hdigit
    decide
  rw [heq] at hunsigned ⊢
  rw [isNumber, if_neg hne, hunsigned]

theorem proper_decimal (depth n : Nat) : Proper depth (.num (Bytes.decimal n)) := by
  rw [Proper]
  exact ⟨isNumber_decimal n, fun b hb => isNumberByte_of_isDigit (Bytes.isDigit_of_mem_decimal hb)⟩

theorem isLit_escape (s : Bytes) : IsLit (escape s) := fun t => scanLit_escape s t

theorem proper_str {depth : Nat} {lit : Bytes} (hlit : IsLit lit) : Proper depth (.str lit) := by
  rw [Proper]
  exact hlit

/-! ## Section 5: Reading a document back -/

@[simp] theorem intercalate_single (sep a : Bytes) : List.intercalate sep [a] = a := by
  simp [List.intercalate]

@[simp] theorem intercalate_cons_cons (sep a b : Bytes) (bs : List Bytes) :
    List.intercalate sep (a :: b :: bs) = a ++ sep ++ List.intercalate sep (b :: bs) := by
  simp [List.intercalate]

/-- A number ends where this text starts. -/
def Stops (rest : Bytes) : Prop := ∀ b t, rest = b :: t → isNumberByte b = false

theorem stops_cons {b : UInt8} {t : Bytes} (hb : isNumberByte b = false) : Stops (b :: t) := by
  intro b' t' heq
  rw [← (List.cons.inj heq).1]
  exact hb

theorem skipSpace_cons {b : UInt8} {t : Bytes} (hb : isSpace b = false) :
    skipSpace (b :: t) = b :: t := by
  rw [skipSpace, List.dropWhile_cons_of_neg (by simp [hb])]

theorem expect_self {c : UInt8} {t : Bytes} (hc : isSpace c = false) : expect c (c :: t) = some t := by
  simp [expect, skipSpace_cons hc]

theorem expect_ne {b c : UInt8} {t : Bytes} (hb : isSpace b = false) (hne : b ≠ c) :
    expect c (b :: t) = none := by
  simp [expect, skipSpace_cons hb, hne]

theorem not_space_of_isNumberByte {b : UInt8} (hb : isNumberByte b = true) :
    isSpace b = false ∧ b ≠ 0x22 ∧ b ≠ 0x5b ∧ b ≠ 0x5d ∧ b ≠ 0x7b ∧ b ≠ 0x6e ∧ b ≠ 0x74
      ∧ b ≠ 0x66 := by
  refine ⟨?_, ?_, ?_, ?_, ?_, ?_, ?_, ?_⟩
  · rw [Bool.eq_false_iff]
    intro hspace
    simp only [isSpace, Bool.or_eq_true, beq_iff_eq] at hspace
    rcases hspace with ((rfl | rfl) | rfl) | rfl <;> revert hb <;> decide
  all_goals
    rintro rfl
    revert hb
    decide

/-- A document starts with a byte that is neither a space nor the end of an array. -/
theorem render_head {depth : Nat} {d : JsonDoc} (hd : Proper depth d) :
    ∃ b t, render d = b :: t ∧ isSpace b = false ∧ b ≠ 0x5d := by
  cases d with
  | null => exact ⟨0x6e, [0x75, 0x6c, 0x6c], rfl, rfl, by decide⟩
  | bool b =>
    cases b with
    | true => exact ⟨0x74, [0x72, 0x75, 0x65], rfl, rfl, by decide⟩
    | false => exact ⟨0x66, [0x61, 0x6c, 0x73, 0x65], rfl, rfl, by decide⟩
  | num lit =>
    rw [Proper] at hd
    cases lit with
    | nil => simp [isNumber] at hd
    | cons b t =>
      have hb := not_space_of_isNumberByte (hd.2 b List.mem_cons_self)
      exact ⟨b, t, by rw [render], hb.1, hb.2.2.2.1⟩
  | str lit => exact ⟨0x22, lit ++ [0x22], by rw [render], rfl, by decide⟩
  | arr items => exact ⟨0x5b, _, by rw [render], rfl, by decide⟩
  | obj members => exact ⟨0x7b, _, by rw [render], rfl, by decide⟩

/-- Literal words and numbers. -/
theorem parseScalar_null (rest : Bytes) :
    parseScalar (Bytes.ascii "null" ++ rest) = some (.null, rest) := by
  rw [parseScalar, if_pos (List.prefix_append _ _)]
  rfl

theorem parseScalar_bool (b : Bool) (rest : Bytes) :
    parseScalar (render (.bool b) ++ rest) = some (.bool b, rest) := by
  have hnull : Bytes.ascii "null" = [0x6e, 0x75, 0x6c, 0x6c] := rfl
  have htrue : Bytes.ascii "true" = [0x74, 0x72, 0x75, 0x65] := rfl
  have hfalse : Bytes.ascii "false" = [0x66, 0x61, 0x6c, 0x73, 0x65] := rfl
  cases b with
  | true => simp [parseScalar, render, hnull, htrue]
  | false => simp [parseScalar, render, hnull, htrue, hfalse]

theorem parseScalar_num {lit rest : Bytes} (hnum : isNumber lit = true)
    (hbytes : ∀ b ∈ lit, isNumberByte b = true) (hrest : Stops rest) :
    parseScalar (lit ++ rest) = some (.num lit, rest) := by
  have htake : (lit ++ rest).takeWhile isNumberByte = lit := by
    rw [List.takeWhile_append_of_pos hbytes]
    cases rest with
    | nil => simp
    | cons b t => rw [List.takeWhile_cons_of_neg (by simp [hrest b t rfl]), List.append_nil]
  have hdrop : (lit ++ rest).dropWhile isNumberByte = rest := by
    rw [List.dropWhile_append_of_pos hbytes]
    cases rest with
    | nil => rfl
    | cons b t => rw [List.dropWhile_cons_of_neg (by simp [hrest b t rfl])]
  have hword : ∀ c w, c = 0x6e ∨ c = 0x74 ∨ c = 0x66 → ¬ c :: w <+: lit ++ rest := by
    intro c w hc hpre
    cases lit with
    | nil => simp [isNumber] at hnum
    | cons b t =>
      have hb := not_space_of_isNumberByte (hbytes b List.mem_cons_self)
      rw [List.cons_append, List.cons_prefix_cons] at hpre
      rw [hpre.1] at hc
      simp_all
  have hnull : Bytes.ascii "null" = [0x6e, 0x75, 0x6c, 0x6c] := rfl
  have htrue : Bytes.ascii "true" = [0x74, 0x72, 0x75, 0x65] := rfl
  have hfalse : Bytes.ascii "false" = [0x66, 0x61, 0x6c, 0x73, 0x65] := rfl
  unfold parseScalar
  rw [hnull, htrue, hfalse, if_neg (hword 0x6e [0x75, 0x6c, 0x6c] (.inl rfl)),
    if_neg (hword 0x74 [0x72, 0x75, 0x65] (.inr (.inl rfl))),
    if_neg (hword 0x66 [0x61, 0x6c, 0x73, 0x65] (.inr (.inr rfl))), htake, hdrop, if_pos hnum]

mutual

theorem parseValue_render (d : JsonDoc) {n depth : Nat} {r : Bytes} (hd : Proper depth d)
    (hfuel : 2 * (render d).length ≤ n) (hrest : ∀ lit, d = .num lit → Stops r) :
    parseValue n depth (render d ++ r) = some (d, r) := by
  obtain ⟨b, t, hhead, hspace, _⟩ := render_head hd
  obtain ⟨n, rfl⟩ : ∃ k, n = k + 1 := ⟨n - 1, by rw [hhead] at hfuel; simp at hfuel; omega⟩
  rw [parseValue, hhead, List.cons_append, skipSpace_cons hspace]
  simp only
  -- the first byte of the text decides the branch of the reader
  cases d with
  | null =>
    obtain ⟨rfl, rfl⟩ := List.cons.inj (hhead.symm.trans (by rw [render]; rfl))
    exact parseScalar_null r
  | bool w =>
    have hscalar := parseScalar_bool w r
    rw [hhead, List.cons_append] at hscalar
    cases w with
    | true =>
      obtain ⟨rfl, _⟩ := List.cons.inj (hhead.symm.trans (by rw [render]; rfl))
      exact hscalar
    | false =>
      obtain ⟨rfl, _⟩ := List.cons.inj (hhead.symm.trans (by rw [render]; rfl))
      exact hscalar
  | num lit =>
    rw [Proper] at hd
    rw [render] at hhead
    have hscalar := parseScalar_num hd.1 hd.2 (hrest _ rfl)
    have hb := not_space_of_isNumberByte (hd.2 b (by rw [hhead]; exact List.mem_cons_self))
    rw [hhead, List.cons_append] at hscalar
    rw [if_neg hb.2.1, if_neg hb.2.2.1, if_neg hb.2.2.2.2.1, hscalar, hhead]
  | str lit =>
    rw [Proper] at hd
    rw [render] at hhead
    obtain ⟨rfl, rfl⟩ := List.cons.inj hhead.symm
    rw [if_pos rfl, List.append_assoc, List.singleton_append, hd r]
    rfl
  | arr items =>
    rw [Proper] at hd
    have hlen : (render (.arr items)).length
        = (List.intercalate [0x2c] (renderItems items)).length + 2 := by
      rw [render]
      simp
    rw [hlen] at hfuel
    rw [render] at hhead
    obtain ⟨rfl, rfl⟩ := List.cons.inj hhead.symm
    rw [if_neg (by decide), if_pos rfl, if_neg (by omega), List.append_assoc, List.singleton_append]
    cases items with
    | nil => simp [renderItems, List.intercalate, expect_self (show isSpace 0x5d = false from rfl)]
    | cons e es =>
      have hitems := parseItems_render (e :: es) (n := n) (r := r) (by simp) hd.2 (by omega)
      -- an item stands here, so the array is not read as the empty one
      have hnone : expect 0x5d (List.intercalate [0x2c] (renderItems (e :: es)) ++ 0x5d :: r)
          = none := by
        rw [ProperItems] at hd
        obtain ⟨c, u, hc, hcs, hne⟩ := render_head hd.2.1
        cases es with
        | nil =>
          rw [renderItems, renderItems, intercalate_single, hc]
          exact expect_ne hcs hne
        | cons e' es =>
          rw [renderItems, renderItems, intercalate_cons_cons, hc]
          exact expect_ne hcs hne
      rw [hnone, hitems]
      rfl
  | obj members =>
    rw [Proper] at hd
    have hlen : (render (.obj members)).length
        = (List.intercalate [0x2c] (renderMembers members)).length + 2 := by
      rw [render]
      simp
    rw [hlen] at hfuel
    rw [render] at hhead
    obtain ⟨rfl, rfl⟩ := List.cons.inj hhead.symm
    rw [if_neg (by decide), if_neg (by decide), if_pos rfl, if_neg (by omega), List.append_assoc,
      List.singleton_append]
    cases members with
    | nil => simp [renderMembers, List.intercalate, expect_self (show isSpace 0x7d = false from rfl)]
    | cons m ms =>
      obtain ⟨key, e⟩ := m
      have hmembers := parseMembers_render ((key, e) :: ms) (n := n) (r := r) (by simp)
        hd.2 (by omega)
      -- a key stands here, so the object is not read as the empty one
      have hnone : expect 0x7d (List.intercalate [0x2c] (renderMembers ((key, e) :: ms)) ++ 0x7d :: r)
          = none := by
        cases ms with
        | nil =>
          rw [renderMembers, renderMembers, intercalate_single]
          exact expect_ne rfl (by decide)
        | cons m' ms =>
          obtain ⟨key', e'⟩ := m'
          rw [renderMembers, renderMembers, intercalate_cons_cons]
          exact expect_ne rfl (by decide)
      rw [hnone, hmembers]
      rfl

theorem parseItems_render (ds : List JsonDoc) {n depth : Nat} {r : Bytes} (hne : ds ≠ [])
    (hds : ProperItems depth ds)
    (hfuel : 2 * (List.intercalate [0x2c] (renderItems ds)).length + 1 ≤ n) :
    parseItems n depth (List.intercalate [0x2c] (renderItems ds) ++ 0x5d :: r)
      = some (ds, r) := by
  obtain ⟨n, rfl⟩ : ∃ k, n = k + 1 := ⟨n - 1, by omega⟩
  match ds with
  | [] => contradiction
  | [d] =>
    rw [ProperItems] at hds
    simp only [renderItems, intercalate_single] at hfuel ⊢
    have hvalue := parseValue_render d (n := n) (r := 0x5d :: r) hds.1 (by omega)
      (fun _ _ => stops_cons rfl)
    rw [parseItems, hvalue]
    simp only [expect_ne (show isSpace 0x5d = false from rfl) (show (0x5d : UInt8) ≠ 0x2c by decide),
      expect_self (show isSpace 0x5d = false from rfl), Option.map_some]
  | d :: e :: ds =>
    rw [ProperItems] at hds
    simp only [renderItems, intercalate_cons_cons, List.length_append] at hfuel ⊢
    simp only [List.append_assoc, List.cons_append, List.nil_append]
    have hvalue := parseValue_render d (n := n)
      (r := 0x2c :: (List.intercalate [0x2c] (render e :: renderItems ds) ++ 0x5d :: r))
      hds.1 (by omega) (fun _ _ => stops_cons rfl)
    have hrest := parseItems_render (e :: ds) (n := n) (r := r) (by simp) hds.2
      (by simp only [renderItems]; simp at hfuel ⊢; omega)
    simp only [renderItems] at hrest
    rw [parseItems, hvalue]
    simp only [expect_self (show isSpace 0x2c = false from rfl), hrest, Option.map_some]

theorem parseMembers_render (ms : List (Bytes × JsonDoc)) {n depth : Nat} {r : Bytes}
    (hne : ms ≠ []) (hms : ProperMembers depth ms)
    (hfuel : 2 * (List.intercalate [0x2c] (renderMembers ms)).length + 1 ≤ n) :
    parseMembers n depth (List.intercalate [0x2c] (renderMembers ms) ++ 0x7d :: r)
      = some (ms, r) := by
  obtain ⟨n, rfl⟩ : ∃ k, n = k + 1 := ⟨n - 1, by omega⟩
  -- by the members left; the comma after a value is what stops its number
  match ms with
  | [] => contradiction
  | [(key, d)] =>
    rw [ProperMembers] at hms
    simp only [renderMembers, intercalate_single, List.length_append, List.length_cons] at hfuel ⊢
    have hvalue := parseValue_render d (n := n) (r := 0x7d :: r) hms.1.2 (by omega)
      (fun _ _ => stops_cons rfl)
    have hkey := hms.1.1 (0x3a :: (render d ++ 0x7d :: r))
    simp only [List.cons_append, List.append_assoc, List.nil_append] at hkey ⊢
    rw [parseMembers, expect_self (by rfl)]
    simp only [Option.bind_some, hkey, expect_self (show isSpace 0x3a = false from rfl), hvalue,
      expect_ne (show isSpace 0x7d = false from rfl) (show (0x7d : UInt8) ≠ 0x2c by decide),
      expect_self (show isSpace 0x7d = false from rfl), Option.map_some]
  | (key, d) :: (key', e) :: ms =>
    rw [ProperMembers] at hms
    simp only [renderMembers, intercalate_cons_cons, List.length_append, List.length_cons] at hfuel ⊢
    have hrest := parseMembers_render ((key', e) :: ms) (n := n) (r := r) (by simp) hms.2
      (by simp only [renderMembers]; omega)
    simp only [renderMembers] at hrest
    have hvalue := parseValue_render d (n := n)
      (r := 0x2c :: (List.intercalate [0x2c]
        ((0x22 :: (key' ++ [0x22, 0x3a]) ++ render e) :: renderMembers ms) ++ 0x7d :: r))
      hms.1.2 (by omega) (fun _ _ => stops_cons rfl)
    have hkey := hms.1.1 (0x3a :: (render d ++ 0x2c :: (List.intercalate [0x2c]
        ((0x22 :: (key' ++ [0x22, 0x3a]) ++ render e) :: renderMembers ms) ++ 0x7d :: r)))
    rw [parseMembers]
    simp only [List.cons_append, List.append_assoc, List.nil_append] at hkey hvalue hrest ⊢
    rw [expect_self (by rfl)]
    simp only [Option.bind_some, hkey, expect_self (show isSpace 0x3a = false from rfl), hvalue,
      expect_self (show isSpace 0x2c = false from rfl), hrest, Option.map_some]

end

/-- The text of a document is read with as many levels as it has. -/
theorem parseValue_self {depth : Nat} {d : JsonDoc} (hd : Proper depth d) :
    parseValue (2 * (render d).length + 2) depth (render d) = some (d, []) := by
  have hvalue := parseValue_render d (n := 2 * (render d).length + 2) (r := []) hd (by omega)
    (by intro lit _ b t heq; simp at heq)
  rwa [List.append_nil] at hvalue

/-- **A proper document is read back from its text.** -/
theorem parse_render {d : JsonDoc} (hd : Proper maxDepth d) : parse (render d) = some d := by
  rw [parse, parseValue_self hd]
  rfl

/-! ## Section 6: What is read is proper -/

theorem isLit_append {u lit : Bytes}
    (hu : ∀ t, scanLit (u ++ t) = (scanLit t).map fun p => (u ++ p.1, p.2)) (hlit : IsLit lit) :
    IsLit (u ++ lit) := by
  intro t
  rw [List.append_assoc, hu, hlit t]
  rfl

/-- A literal without quotes, backslashes and control bytes. -/
theorem isLit_of_plain {lit : Bytes} (hlit : ∀ b ∈ lit, b ≠ 0x22 ∧ b ≠ 0x5c ∧ ¬ b < 0x20) :
    IsLit lit := by
  induction lit with
  | nil => exact isLit_escape []
  | cons b lit ih =>
    obtain ⟨hquote, hslash, hspace⟩ := hlit b List.mem_cons_self
    exact isLit_append (spells_plain hquote hslash hspace).scan
      (ih fun c hc => hlit c (List.mem_cons_of_mem _ hc))

theorem not_lt_of_simpleEscape {c : UInt8} (hc : (simpleEscape c).isSome = true) : ¬ c < 0x20 := by
  intro hlt
  have hne : ∀ e : UInt8, ¬ e < 0x20 → c ≠ e := by
    rintro e he rfl
    exact he hlt
  simp [simpleEscape, hne 0x22 (by decide), hne 0x5c (by decide), hne 0x2f (by decide),
    hne 0x62 (by decide), hne 0x66 (by decide), hne 0x6e (by decide), hne 0x72 (by decide),
    hne 0x74 (by decide)] at hc

theorem not_lt_of_hexValue {c : UInt8} {n : Nat} (hc : hexValue c = some n) : ¬ c < 0x20 := by
  intro hlt
  have hnot : ∀ e : UInt8, 0x20 ≤ e → ¬ e ≤ c := by
    intro e he hle
    exact UInt8.not_le.mpr hlt (UInt8.le_trans he hle)
  simp [hexValue, hnot 0x30 (by decide), hnot 0x61 (by decide), hnot 0x41 (by decide)] at hc

theorem not_lt_of_hex4 {h₁ h₂ h₃ h₄ : UInt8} (hhex : (hex4 h₁ h₂ h₃ h₄).isSome = true) :
    ¬ h₁ < 0x20 ∧ ¬ h₂ < 0x20 ∧ ¬ h₃ < 0x20 ∧ ¬ h₄ < 0x20 := by
  obtain ⟨n, hn⟩ := Option.isSome_iff_exists.mp hhex
  simp only [hex4, Option.bind_eq_bind, Option.bind_eq_some_iff] at hn
  obtain ⟨_, h1, _, h2, _, h3, _, h4, _⟩ := hn
  exact ⟨not_lt_of_hexValue h1, not_lt_of_hexValue h2, not_lt_of_hexValue h3, not_lt_of_hexValue h4⟩

/-- What was scanned is a literal, without control bytes. -/
theorem scanLit_sound {s lit rest : Bytes} (hscan : scanLit s = some (lit, rest)) :
    IsLit lit ∧ ∀ b ∈ lit, ¬ b < 0x20 := by
  fun_induction scanLit s generalizing lit with
  | case2 after =>
    simp only [Option.some.injEq, Prod.mk.injEq] at hscan
    rw [← hscan.1]
    exact ⟨fun t => by rw [List.nil_append, scanLit.eq_def]; rfl, by simp⟩
  | case4 h₁ h₂ h₃ h₄ after hhex _ ih =>
    simp only [Option.map_eq_some_iff, Prod.mk.injEq] at hscan
    obtain ⟨⟨lit', after'⟩, hrest, rfl, rfl⟩ := hscan
    obtain ⟨hlit, hctl⟩ := ih hrest
    refine ⟨isLit_append (scanLit_unicode hhex) hlit, ?_⟩
    obtain ⟨hb₁, hb₂, hb₃, hb₄⟩ := not_lt_of_hex4 hhex
    simp only [List.mem_cons, forall_eq_or_imp]
    exact ⟨by decide, by decide, hb₁, hb₂, hb₃, hb₄, hctl⟩
  | case7 c after hu hesc _ ih =>
    simp only [Option.map_eq_some_iff, Prod.mk.injEq] at hscan
    obtain ⟨⟨lit', after'⟩, hrest, rfl, rfl⟩ := hscan
    obtain ⟨hlit, hctl⟩ := ih hrest
    obtain ⟨e, he⟩ := Option.isSome_iff_exists.mp hesc
    refine ⟨isLit_append (spells_simple hu he).scan hlit, ?_⟩
    simp only [List.mem_cons, forall_eq_or_imp]
    exact ⟨by decide, not_lt_of_simpleEscape hesc, hctl⟩
  | case10 b after hquote hslash hspace ih =>
    simp only [Option.map_eq_some_iff, Prod.mk.injEq] at hscan
    obtain ⟨⟨lit', after'⟩, hrest, rfl, rfl⟩ := hscan
    obtain ⟨hlit, hctl⟩ := ih hrest
    refine ⟨isLit_append (spells_plain hquote hslash hspace).scan hlit, ?_⟩
    simp only [List.mem_cons, forall_eq_or_imp]
    exact ⟨hspace, hctl⟩
  | _ => simp at hscan

theorem IsLit.not_control {lit : Bytes} (hlit : IsLit lit) : ∀ b ∈ lit, ¬ b < 0x20 :=
  (scanLit_sound (hlit [])).2

theorem parseScalar_proper {s rest : Bytes} {d : JsonDoc} {depth : Nat}
    (hparse : parseScalar s = some (d, rest)) : Proper depth d := by
  unfold parseScalar at hparse
  split_ifs at hparse with _ _ _ hnum
  all_goals
    simp only [Option.some.injEq, Prod.mk.injEq] at hparse
    rw [← hparse.1, Proper]
  all_goals try trivial
  -- a number is the longest text of its bytes
  exact ⟨hnum, List.all_eq_true.mp List.all_takeWhile⟩

/-- The three readers only give proper documents. -/
theorem parse_proper (fuel : Nat) :
    (∀ depth s d rest, parseValue fuel depth s = some (d, rest) → Proper depth d)
      ∧ (∀ depth s ds rest, parseItems fuel depth s = some (ds, rest) → ProperItems depth ds)
      ∧ (∀ depth s ms rest, parseMembers fuel depth s = some (ms, rest) → ProperMembers depth ms) := by
  -- the readers call each other with less fuel, so the three claims go together
  induction fuel with
  | zero => simp [parseValue, parseItems, parseMembers]
  | succ fuel ih =>
    obtain ⟨ihValue, ihItems, ihMembers⟩ := ih
    refine ⟨?_, ?_, ?_⟩
    · intro depth s d rest hparse
      rw [parseValue] at hparse
      split at hparse
      · simp at hparse
      · split_ifs at hparse with hstr harr hzero hobj hzero'
        · simp only [Option.map_eq_some_iff, Prod.mk.injEq] at hparse
          obtain ⟨⟨lit, after⟩, hscan, rfl, _⟩ := hparse
          rw [Proper]
          exact (scanLit_sound hscan).1
        · split at hparse
          · simp only [Option.some.injEq, Prod.mk.injEq] at hparse
            rw [← hparse.1, Proper, ProperItems]
            exact ⟨by omega, trivial⟩
          · simp only [Option.map_eq_some_iff, Prod.mk.injEq] at hparse
            obtain ⟨⟨ds, after⟩, hitems, rfl, _⟩ := hparse
            rw [Proper]
            exact ⟨by omega, ihItems _ _ _ _ hitems⟩
        · split at hparse
          · simp only [Option.some.injEq, Prod.mk.injEq] at hparse
            rw [← hparse.1, Proper, ProperMembers]
            exact ⟨by omega, trivial⟩
          · simp only [Option.map_eq_some_iff, Prod.mk.injEq] at hparse
            obtain ⟨⟨ms, after⟩, hmembers, rfl, _⟩ := hparse
            rw [Proper]
            exact ⟨by omega, ihMembers _ _ _ _ hmembers⟩
        · exact parseScalar_proper hparse
    · intro depth s ds rest hparse
      rw [parseItems] at hparse
      split at hparse
      · simp at hparse
      · next d after hvalue =>
        have hd := ihValue _ _ _ _ hvalue
        split at hparse
        · simp only [Option.map_eq_some_iff, Prod.mk.injEq] at hparse
          obtain ⟨⟨ds', after'⟩, hitems, rfl, _⟩ := hparse
          rw [ProperItems]
          exact ⟨hd, ihItems _ _ _ _ hitems⟩
        · simp only [Option.map_eq_some_iff, Prod.mk.injEq] at hparse
          obtain ⟨_, _, rfl, _⟩ := hparse
          rw [ProperItems, ProperItems]
          exact ⟨hd, trivial⟩
    · intro depth s ms rest hparse
      rw [parseMembers] at hparse
      split at hparse
      · simp at hparse
      · next key after hkey =>
        rw [Option.bind_eq_some_iff] at hkey
        obtain ⟨_, _, hscan⟩ := hkey
        have hlit := (scanLit_sound hscan).1
        split at hparse
        · simp at hparse
        · next d after' hvalue =>
          rw [Option.bind_eq_some_iff] at hvalue
          obtain ⟨_, _, hvalue⟩ := hvalue
          have hd := ihValue _ _ _ _ hvalue
          split at hparse
          · simp only [Option.map_eq_some_iff, Prod.mk.injEq] at hparse
            obtain ⟨⟨ms', _⟩, hmembers, rfl, _⟩ := hparse
            rw [ProperMembers]
            exact ⟨⟨hlit, hd⟩, ihMembers _ _ _ _ hmembers⟩
          · simp only [Option.map_eq_some_iff, Prod.mk.injEq] at hparse
            obtain ⟨_, _, rfl, _⟩ := hparse
            rw [ProperMembers, ProperMembers]
            exact ⟨⟨hlit, hd⟩, trivial⟩

theorem proper_of_parse {s : Bytes} {d : JsonDoc} (hparse : parse s = some d) : Proper maxDepth d := by
  unfold parse at hparse
  split at hparse
  · simp at hparse
  · next d' rest hvalue =>
    split at hparse
    · rw [← Option.some.inj hparse]
      exact (parse_proper _).1 _ _ _ _ hvalue
    · simp at hparse

/-! ## Section 7: No control bytes -/

theorem mem_intercalate {sep : Bytes} {bs : List Bytes} {c : UInt8}
    (hc : c ∈ List.intercalate sep bs) : c ∈ sep ∨ ∃ b ∈ bs, c ∈ b := by
  induction bs with
  | nil => simp [List.intercalate] at hc
  | cons b bs ih =>
    cases bs with
    | nil =>
      rw [intercalate_single] at hc
      exact .inr ⟨b, List.mem_cons_self, hc⟩
    | cons b' bs =>
      rw [intercalate_cons_cons, List.mem_append, List.mem_append] at hc
      rcases hc with (hb | hsep) | hrest
      · exact .inr ⟨b, List.mem_cons_self, hb⟩
      · exact .inl hsep
      · rcases ih hrest with hsep | ⟨b'', hmem, hin⟩
        · exact .inl hsep
        · exact .inr ⟨b'', List.mem_cons_of_mem _ hmem, hin⟩

mutual

/-- The text of a proper document is on one line. -/
theorem not_control_render (d : JsonDoc) {depth : Nat} (hd : Proper depth d) :
    ∀ c ∈ render d, ¬ c < 0x20 := by
  intro c hc
  cases d with
  | null =>
    have hall : ∀ c ∈ render .null, ¬ c < 0x20 := by decide +kernel
    exact hall c hc
  | bool b =>
    have hall : ∀ b, ∀ c ∈ render (.bool b), ¬ c < 0x20 := by decide +kernel
    exact hall b c hc
  | num lit =>
    rw [Proper] at hd
    rw [render] at hc
    have hbyte := hd.2 c hc
    intro hlt
    -- each byte of a number is a digit or one of five signs, none of them a control
    have hne : ∀ e : UInt8, ¬ e < 0x20 → c ≠ e := by
      rintro e he rfl
      exact he hlt
    have hdigit : Bytes.isDigit c = false := by
      simp only [Bytes.isDigit, Bool.and_eq_false_iff, decide_eq_false_iff_not]
      exact .inl fun hle => UInt8.not_le.mpr hlt (UInt8.le_trans (by decide) hle)
    simp [isNumberByte, hdigit, hne 0x2b (by decide), hne 0x2d (by decide), hne 0x2e (by decide),
      hne 0x45 (by decide), hne 0x65 (by decide)] at hbyte
  | str lit =>
    rw [Proper] at hd
    simp only [render, List.mem_cons, List.mem_append, List.not_mem_nil, or_false] at hc
    rcases hc with rfl | hlit | rfl
    · decide
    -- the quotes stand apart: a literal holds no control byte of its own
    · exact hd.not_control c hlit
    · decide
  | arr items =>
    rw [Proper] at hd
    simp only [render, List.mem_cons, List.mem_append, List.not_mem_nil, or_false] at hc
    rcases hc with rfl | hitems | rfl
    · decide
    · rcases mem_intercalate hitems with hsep | ⟨b, hb, hcb⟩
      · rw [List.mem_singleton.mp hsep]
        decide
      · exact not_control_renderItems items hd.2 b hb c hcb
    · decide
  | obj members =>
    rw [Proper] at hd
    simp only [render, List.mem_cons, List.mem_append, List.not_mem_nil, or_false] at hc
    rcases hc with rfl | hmembers | rfl
    · decide
    · rcases mem_intercalate hmembers with hsep | ⟨b, hb, hcb⟩
      · rw [List.mem_singleton.mp hsep]
        decide
      · exact not_control_renderMembers members hd.2 b hb c hcb
    · decide

theorem not_control_renderItems (ds : List JsonDoc) {depth : Nat} (hds : ProperItems depth ds) :
    ∀ b ∈ renderItems ds, ∀ c ∈ b, ¬ c < 0x20 := by
  intro b hb c hc
  match ds with
  | [] => simp [renderItems] at hb
  | d :: ds =>
    rw [ProperItems] at hds
    rw [renderItems, List.mem_cons] at hb
    rcases hb with rfl | hb
    · exact not_control_render d hds.1 c hc
    · exact not_control_renderItems ds hds.2 b hb c hc

theorem not_control_renderMembers (ms : List (Bytes × JsonDoc)) {depth : Nat}
    (hms : ProperMembers depth ms) : ∀ b ∈ renderMembers ms, ∀ c ∈ b, ¬ c < 0x20 := by
  intro b hb c hc
  match ms with
  | [] => simp [renderMembers] at hb
  | (key, d) :: ms =>
    rw [ProperMembers] at hms
    rw [renderMembers, List.mem_cons] at hb
    rcases hb with rfl | hb
    · simp only [List.cons_append, List.nil_append, List.mem_cons, List.append_assoc,
        List.mem_append] at hc
      rcases hc with rfl | hkey | rfl | rfl | hd
      · decide
      · exact hms.1.1.not_control c hkey
      · decide
      · decide
      · exact not_control_render d hms.1.2 c hd
    · exact not_control_renderMembers ms hms.2 b hb c hc

end

/-! ## Section 8: More levels -/

mutual

theorem Proper.mono {depth depth' : Nat} (hle : depth ≤ depth') :
    ∀ {d : JsonDoc}, Proper depth d → Proper depth' d
  | .null, _ => by rw [Proper]; trivial
  | .bool _, _ => by rw [Proper]; trivial
  | .num _, hd => by
    rw [Proper] at hd ⊢
    exact hd
  | .str _, hd => by
    rw [Proper] at hd ⊢
    exact hd
  | .arr _, hd => by
    rw [Proper] at hd ⊢
    exact ⟨Nat.lt_of_lt_of_le hd.1 hle, ProperItems.mono (Nat.sub_le_sub_right hle 1) hd.2⟩
  | .obj _, hd => by
    rw [Proper] at hd ⊢
    exact ⟨Nat.lt_of_lt_of_le hd.1 hle, ProperMembers.mono (Nat.sub_le_sub_right hle 1) hd.2⟩

theorem ProperItems.mono {depth depth' : Nat} (hle : depth ≤ depth') :
    ∀ {ds : List JsonDoc}, ProperItems depth ds → ProperItems depth' ds
  | [], _ => by rw [ProperItems]; trivial
  | _ :: _, hds => by
    rw [ProperItems] at hds ⊢
    exact ⟨hds.1.mono hle, hds.2.mono hle⟩

theorem ProperMembers.mono {depth depth' : Nat} (hle : depth ≤ depth') :
    ∀ {ms : List (Bytes × JsonDoc)}, ProperMembers depth ms → ProperMembers depth' ms
  | [], _ => by rw [ProperMembers]; trivial
  | (_, _) :: _, hms => by
    rw [ProperMembers] at hms ⊢
    exact ⟨⟨hms.1.1, hms.1.2.mono hle⟩, hms.2.mono hle⟩

end

/-- What is read with some levels is read with more of them. -/
theorem parse_mono (fuel : Nat) :
    (∀ depth depth' s r, depth ≤ depth' → parseValue fuel depth s = some r →
        parseValue fuel depth' s = some r)
      ∧ (∀ depth depth' s r, depth ≤ depth' → parseItems fuel depth s = some r →
        parseItems fuel depth' s = some r)
      ∧ (∀ depth depth' s r, depth ≤ depth' → parseMembers fuel depth s = some r →
        parseMembers fuel depth' s = some r) := by
  -- the readers call each other with less fuel, so the three claims go together
  induction fuel with
  | zero => simp [parseValue, parseItems, parseMembers]
  | succ fuel ih =>
    obtain ⟨ihValue, ihItems, ihMembers⟩ := ih
    refine ⟨?_, ?_, ?_⟩
    · intro depth depth' s r hle hparse
      rw [parseValue] at hparse ⊢
      cases hskip : skipSpace s with
      | nil => simp [hskip] at hparse
      | cons b rest =>
        simp only [hskip] at hparse ⊢
        split_ifs at hparse ⊢ with hstr harr hzero hzero' hobj hzero hzero'
        · exact hparse
        -- the smaller depth was not exhausted, so the larger is not
        · omega
        · split at hparse
          · exact hparse
          · rw [Option.map_eq_some_iff] at hparse ⊢
            obtain ⟨p, hitems, hp⟩ := hparse
            exact ⟨p, ihItems _ _ _ _ (Nat.sub_le_sub_right hle 1) hitems, hp⟩
        · omega
        · split at hparse
          · exact hparse
          · rw [Option.map_eq_some_iff] at hparse ⊢
            obtain ⟨p, hmembers, hp⟩ := hparse
            exact ⟨p, ihMembers _ _ _ _ (Nat.sub_le_sub_right hle 1) hmembers, hp⟩
        · exact hparse
    · intro depth depth' s r hle hparse
      rw [parseItems] at hparse ⊢
      split at hparse
      · simp at hparse
      · next d after hvalue =>
        rw [ihValue _ _ _ _ hle hvalue]
        simp only
        split at hparse
        · rw [Option.map_eq_some_iff] at hparse ⊢
          obtain ⟨p, hitems, hp⟩ := hparse
          exact ⟨p, ihItems _ _ _ _ hle hitems, hp⟩
        · exact hparse
    · intro depth depth' s r hle hparse
      rw [parseMembers] at hparse ⊢
      split at hparse
      · simp at hparse
      · split at hparse
        · simp at hparse
        · next d after' hvalue =>
          rw [Option.bind_eq_some_iff] at hvalue
          obtain ⟨start, hcolon, hvalue⟩ := hvalue
          rw [hcolon, Option.bind_some, ihValue _ _ _ _ hle hvalue]
          simp only
          split at hparse
          · rw [Option.map_eq_some_iff] at hparse ⊢
            obtain ⟨p, hmembers, hp⟩ := hparse
            exact ⟨p, ihMembers _ _ _ _ hle hmembers, hp⟩
          · exact hparse

/-- Documents with the same text are the same. -/
theorem render_inj {depth depth' : Nat} {d d' : JsonDoc} (hd : Proper depth d) (hd' : Proper depth' d')
    (heq : render d = render d') : d = d' := by
  have hself := parseValue_self (hd.mono (Nat.le_max_left depth depth'))
  have hself' := parseValue_self (hd'.mono (Nat.le_max_right depth depth'))
  rw [heq, hself'] at hself
  simpa using hself.symm

/-- The text of an object is no proper prefix of the text of another document. -/
theorem eq_nil_of_render_obj {depth depth' : Nat} {members : List (Bytes × JsonDoc)} {d : JsonDoc}
    {rest : Bytes} (hobj : Proper depth (.obj members)) (hd : Proper depth' d)
    (heq : render (.obj members) ++ rest = render d) : rest = [] := by
  have hself := parseValue_self (hd.mono (Nat.le_max_right depth depth'))
  have hlen : (render (.obj members)).length ≤ (render d).length := by
    rw [← heq, List.length_append]
    omega
  have hparse := parseValue_render (.obj members) (n := 2 * (render d).length + 2) (r := rest)
    (hobj.mono (Nat.le_max_left depth depth')) (by omega) (by intro lit hlit; simp at hlit)
  rw [heq, hself, Option.some.injEq, Prod.mk.injEq] at hparse
  exact hparse.2.symm

/-- A text can only be read as the document it was made of. -/
theorem parse_render_eq {depth : Nat} {d d' : JsonDoc} (hd : Proper depth d)
    (hparse : parse (render d) = some d') : d' = d := by
  have hself := parseValue_self (hd.mono (Nat.le_max_left depth maxDepth))
  unfold parse at hparse
  split at hparse
  · simp at hparse
  · next d₀ rest hvalue =>
    have hmore := (parse_mono _).1 _ _ _ _ (Nat.le_max_right depth maxDepth) hvalue
    rw [hself] at hmore
    split at hparse
    · rw [← Option.some.inj hparse]
      simpa using (congrArg (Option.map Prod.fst) hmore).symm
    · simp at hparse

end JsonText
