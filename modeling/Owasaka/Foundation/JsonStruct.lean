import Owasaka.Foundation.Base64
import Owasaka.Foundation.JsonDoc
import Owasaka.Foundation.Rfc3339

/-! # Decoding objects into records

    A member of an object is stored in the field with its name, or else in the first
    field whose name is the same up to case; members without a field are skipped.
    `null` changes nothing, and later members replace earlier ones.

    `set name doc r` stores a document in a field; `none` is an error of its type. -/

namespace JsonText

/-- A rune without regard to case.  Besides the ASCII letters, only U+017F and U+212A
    have the case of an ASCII letter. -/
def foldRune : Bytes → Bytes
  | [b] => if 0x61 ≤ b ∧ b ≤ 0x7a then [b - 0x20] else [b]
  | r =>
    if r = [0xC5, 0xBF] then [0x53]
    else if r = [0xE2, 0x84, 0xAA] then [0x4B]
    else r

def foldName (name : Bytes) : Bytes :=
  (Utf8.runes name).flatMap fun r => foldRune (r.getD Utf8.replacement)

/-- The field that a key names. -/
def lookupField (names : List Bytes) (key : Bytes) : Option Bytes :=
  if key ∈ names then some key else names.find? fun name => foldName name = foldName key

section

variable {R : Type} (names : List Bytes) (set : Bytes → JsonDoc → R → Option R)

def decodeMember (r : R) (m : Bytes × JsonDoc) : Option R :=
  match unquote m.1 with
  | none => none
  | some key =>
    match lookupField names key with
    | none => some r
    | some name => set name m.2 r

def decodeStruct (zero : R) : JsonDoc → Option R
  | .null => some zero
  | .obj ms => ms.foldlM (decodeMember names set) zero
  | _ => none

end

/-! ## Fields -/

/-- A string field. -/
def decodeString (old : Bytes) : JsonDoc → Option Bytes
  | .null => some old
  | .str lit => unquote lit
  | _ => none

/-- The items of an array that is read into strings; an item is read into the string
    that stands at its place. -/
def decodeStringItems : List Bytes → List JsonDoc → Option (List Bytes)
  | _, [] => some []
  | old, d :: ds => do
    let s ← decodeString (old.headD []) d
    let rest ← decodeStringItems old.tail ds
    some (s :: rest)

/-- A field of type `[]string`. -/
def decodeStrings (old : List Bytes) : JsonDoc → Option (List Bytes)
  | .null => some []
  | .arr items => decodeStringItems old items
  | _ => none

/-- A field of type `uint64`. -/
def decodeUint64 (old : UInt64) : JsonDoc → Option UInt64
  | .null => some old
  | .num lit =>
    if lit.all Bytes.isDigit ∧ Bytes.ofDecimal lit < 2 ^ 64 then some (UInt64.ofNat (Bytes.ofDecimal lit))
    else none
  | _ => none

/-- A field of type `time.Time`, which is read from the text of its literal. -/
def decodeTime (old : Rfc3339.Time) : JsonDoc → Option Rfc3339.Time
  | .null => some old
  | .str lit => Rfc3339.parse lit
  | _ => none

/-- An item of an array that is read into bytes. -/
def decodeByte : JsonDoc → Option UInt8
  | .null => some 0
  | .num lit =>
    if lit.all Bytes.isDigit ∧ Bytes.ofDecimal lit < 2 ^ 8 then some (UInt8.ofNat (Bytes.ofDecimal lit))
    else none
  | _ => none

/-- A field of type `[]byte`. -/
def decodeBytes : JsonDoc → Option Bytes
  | .null => some []
  | .str lit => (unquote lit).bind Base64.decode
  | .arr items => items.mapM decodeByte
  | _ => none

theorem decodeUint64_decimal (old n : UInt64) :
    decodeUint64 old (.num (Bytes.decimal n.toNat)) = some n := by
  have hdigits : (Bytes.decimal n.toNat).all Bytes.isDigit = true := by
    rw [List.all_eq_true]
    exact fun c => Bytes.isDigit_of_mem_decimal
  have hval := Bytes.ofDecimal_decimal n.toNat
  rw [decodeUint64, hval, if_pos ⟨hdigits, n.toNat_lt⟩, UInt64.ofNat_toNat]

theorem decodeString_escape {old s : Bytes} (hs : Utf8.Valid s) :
    decodeString old (.str (escape s)) = some s := by
  rw [decodeString, unquote_escape, Utf8.sanitize_of_valid hs]

theorem decodeString_escape_sanitize (old s : Bytes) :
    decodeString old (.str (escape s)) = some (Utf8.sanitize s) := by
  rw [decodeString, unquote_escape]

theorem decodeStrings_escape (old : List Bytes) (l : List Bytes) :
    decodeStrings old (.arr (l.map fun s => .str (escape s))) = some (l.map Utf8.sanitize) := by
  show decodeStringItems old (l.map fun s => .str (escape s)) = some (l.map Utf8.sanitize)
  induction l generalizing old with
  | nil => rfl
  | cons s l ih =>
    rw [List.map_cons, decodeStringItems, decodeString_escape_sanitize, ih]
    rfl

theorem decodeMember_of_mem {R : Type} {names : List Bytes} {set : Bytes → JsonDoc → R → Option R}
    {r : R} {key name : Bytes} {d : JsonDoc} (hkey : unquote key = some name) (hmem : name ∈ names) :
    decodeMember names set r (key, d) = set name d r := by
  simp [decodeMember, hkey, lookupField, hmem]

/-- `omitempty`: the member is left out, or is read into its field. -/
theorem foldlM_omitempty {R : Type} {names : List Bytes} {set : Bytes → JsonDoc → R → Option R}
    {P : Prop} [Decidable P] {name : Bytes} {d : JsonDoc} {r r' : R}
    (hmember : decodeMember names set r (name, d) = set name d r) (hskip : P → r' = r)
    (hset : set name d r = some r') :
    (if P then [] else [(name, d)]).foldlM (decodeMember names set) r = some r' := by
  split
  · next hempty =>
    rw [hskip hempty]
    rfl
  · rw [List.foldlM_cons, hmember, hset]
    rfl

/-- The same for a string field, which keeps its zero value when the member is left out. -/
theorem foldlM_omitString {R : Type} {names : List Bytes} {set : Bytes → JsonDoc → R → Option R}
    {name s : Bytes} {r : R} (put : Bytes → R)
    (hmember : decodeMember names set r (name, .str (escape s)) = set name (.str (escape s)) r)
    (hzero : put [] = r) (hset : set name (.str (escape s)) r = some (put (Utf8.sanitize s))) :
    (if s = [] then [] else [(name, .str (escape s))]).foldlM (decodeMember names set) r
      = some (put (Utf8.sanitize s)) := by
  apply foldlM_omitempty hmember
  · rintro rfl
    exact hzero
  · exact hset

/-- What holds of the zero value and is kept by every field holds of what was decoded. -/
theorem decodeStruct_invariant {R : Type} {names : List Bytes}
    {set : Bytes → JsonDoc → R → Option R} {P : R → Prop} {zero r : R} {d : JsonDoc} (hzero : P zero)
    (hset : ∀ name d r r', P r → set name d r = some r' → P r')
    (hdecode : decodeStruct names set zero d = some r) : P r := by
  have hmember : ∀ r m r', P r → decodeMember names set r m = some r' → P r' := by
    intro r m r' hr hm
    unfold decodeMember at hm
    split at hm
    · simp at hm
    · split at hm
      · exact Option.some.inj hm ▸ hr
      · exact hset _ _ _ _ hr hm
  cases d with
  | null => exact Option.some.inj hdecode ▸ hzero
  | obj ms =>
    rw [decodeStruct] at hdecode
    induction ms generalizing zero with
    | nil => exact Option.some.inj hdecode ▸ hzero
    | cons m ms ih =>
      rw [List.foldlM_cons, Option.bind_eq_bind, Option.bind_eq_some_iff] at hdecode
      obtain ⟨r', hm, hrest⟩ := hdecode
      exact ih (hmember _ _ _ hzero hm) hrest
  | bool _ => simp [decodeStruct] at hdecode
  | num _ => simp [decodeStruct] at hdecode
  | str _ => simp [decodeStruct] at hdecode
  | arr _ => simp [decodeStruct] at hdecode

theorem unquote_valid {lit s : Bytes} (hread : unquote lit = some s) : Utf8.Valid s := by
  simp only [unquote, Option.map_eq_some_iff] at hread
  obtain ⟨s', _, rfl⟩ := hread
  exact Utf8.valid_sanitize s'

theorem decodeString_valid {old s : Bytes} {d : JsonDoc} (hold : Utf8.Valid old)
    (hread : decodeString old d = some s) : Utf8.Valid s := by
  cases d with
  | null => exact Option.some.inj hread ▸ hold
  | str lit => exact unquote_valid hread
  | bool _ => simp [decodeString] at hread
  | num _ => simp [decodeString] at hread
  | arr _ => simp [decodeString] at hread
  | obj _ => simp [decodeString] at hread

theorem decodeStringItems_valid {items : List JsonDoc} {old l : List Bytes}
    (hold : ∀ s ∈ old, Utf8.Valid s) (hread : decodeStringItems old items = some l) :
    ∀ s ∈ l, Utf8.Valid s := by
  induction items generalizing old l with
  | nil =>
    cases hread
    exact fun s hs => absurd hs List.not_mem_nil
  | cons d items ih =>
    rw [decodeStringItems] at hread
    simp only [Option.bind_eq_bind, Option.bind_eq_some_iff, Option.some.injEq] at hread
    obtain ⟨s, hs, rest, hrest, rfl⟩ := hread
    have hhead : Utf8.Valid (old.headD []) := by
      cases old with
      | nil => exact Utf8.valid_sanitize []
      | cons o old => exact hold o List.mem_cons_self
    have htail : ∀ s ∈ old.tail, Utf8.Valid s := fun s hs => hold s (List.mem_of_mem_tail hs)
    intro s' hs'
    rcases List.mem_cons.mp hs' with rfl | hmem
    · exact decodeString_valid hhead hs
    · exact ih htail hrest s' hmem

theorem decodeStrings_valid {old l : List Bytes} {d : JsonDoc} (hold : ∀ s ∈ old, Utf8.Valid s)
    (hread : decodeStrings old d = some l) : ∀ s ∈ l, Utf8.Valid s := by
  cases d with
  | null =>
    cases hread
    exact fun s hs => absurd hs List.not_mem_nil
  | arr items => exact decodeStringItems_valid hold hread
  | bool _ => simp [decodeStrings] at hread
  | num _ => simp [decodeStrings] at hread
  | str _ => simp [decodeStrings] at hread
  | obj _ => simp [decodeStrings] at hread

theorem decodeTime_dvd {old t : Rfc3339.Time} {d : JsonDoc} (hold : 60 ∣ old.offset)
    (hread : decodeTime old d = some t) : 60 ∣ t.offset := by
  cases d with
  | null => exact Option.some.inj hread ▸ hold
  | str lit => exact Rfc3339.parse_dvd hread
  | bool _ => simp [decodeTime] at hread
  | num _ => simp [decodeTime] at hread
  | arr _ => simp [decodeTime] at hread
  | obj _ => simp [decodeTime] at hread

theorem isLit_format (t : Rfc3339.Time) : IsLit (Rfc3339.format t) := by
  refine isLit_of_plain fun b hb => ?_
  have hbyte := Rfc3339.isTimeByte_of_mem_format hb
  refine ⟨?_, ?_, ?_⟩
  · rintro rfl
    revert hbyte
    decide
  · rintro rfl
    revert hbyte
    decide
  · intro hlt
    have hne : ∀ c : UInt8, ¬ c < 0x20 → b ≠ c := by
      rintro c hc rfl
      exact hc hlt
    have hdigit : Bytes.isDigit b = false := by
      simp only [Bytes.isDigit, Bool.and_eq_false_iff, decide_eq_false_iff_not]
      exact .inl fun hle => UInt8.not_le.mpr hlt (UInt8.le_trans (by decide) hle)
    simp [Rfc3339.isTimeByte, hdigit, hne 0x2d (by decide), hne 0x54 (by decide),
      hne 0x3a (by decide), hne 0x2e (by decide), hne 0x5a (by decide), hne 0x2b (by decide)] at hbyte

end JsonText
