import Owasaka.Foundation.Base64
import Owasaka.Foundation.JsonNumber
import Owasaka.Foundation.JsonStruct

/-! # Values of Go and their documents

    What `json.Marshal` makes of a value in an interface, and what `json.Unmarshal`
    makes of a document in one.  Between the two, a value loses what JSON does not
    keep: integers become floating-point numbers, the fields of a struct the keys of a
    map, bytes that are no UTF-8 are replaced.

    The main result: reading a document into an interface and writing it again gives
    the same document exactly when its numbers are those of floating-point numbers,
    its strings are written as the encoder writes them, and its keys increase. -/

/-- A value as the encoder sees it. -/
inductive GoValue where
  /-- Also a nil pointer, map or slice. -/
  | null
  | bool (b : Bool)
  | int (n : Int)
  | float64 (x : BinaryFloat binary64)
  | float32 (x : BinaryFloat binary32)
  /-- `json.Number`. -/
  | number (lit : Bytes)
  | str (s : Bytes)
  /-- `[]byte`. -/
  | bytes (b : Bytes)
  | slice (items : List GoValue)
  /-- The assignments that made a map; a later one to the same key replaces an earlier
      one. -/
  | map (entries : List (Bytes × GoValue))
  /-- The fields of a struct that are written, in their order. -/
  | struct (fields : List (Bytes × GoValue))
  /-- A value with a method `MarshalJSON`, by the text that this returns. -/
  | marshaler (text : Bytes)
  /-- What the encoder refuses: channels, functions, NaN and the infinities. -/
  | unsupported

namespace JsonText

/-! ## Section 1: Writing -/

def intText (n : Int) : Bytes :=
  if n < 0 then 0x2d :: Bytes.decimal n.natAbs else Bytes.decimal n.natAbs

/-- The literal of a `json.Number`. -/
def numberText (lit : Bytes) : Option Bytes :=
  if lit = [] then some [0x30] else if isNumber lit then some lit else none

/-- `<`, `>`, `&`, U+2028 and U+2029 are escaped in the text of a `MarshalJSON`. -/
def escapeHTML : Bytes → Bytes
  | [] => []
  | 0xE2 :: 0x80 :: 0xA8 :: rest => [0x5c, 0x75, 0x32, 0x30, 0x32, 0x38] ++ escapeHTML rest
  | 0xE2 :: 0x80 :: 0xA9 :: rest => [0x5c, 0x75, 0x32, 0x30, 0x32, 0x39] ++ escapeHTML rest
  | b :: rest =>
    (if b = 0x3c ∨ b = 0x3e ∨ b = 0x26 then
      [0x5c, 0x75, 0x30, 0x30, Hex.digit (b.toNat / 16), Hex.digit (b.toNat % 16)]
    else [b]) ++ escapeHTML rest

/-- The document that a `MarshalJSON` returned, without white space. -/
def compact (text : Bytes) : Option JsonDoc := (parse text).bind fun _ => parse (escapeHTML text)

/-- Puts an entry among entries with increasing keys, of which none has its key. -/
def insertEntry (entry : Bytes × JsonDoc) : List (Bytes × JsonDoc) → List (Bytes × JsonDoc)
  | [] => [entry]
  | e :: es => if entry.1 < e.1 then entry :: e :: es else e :: insertEntry entry es

/-- The object with these entries. -/
def object (entries : List (Bytes × JsonDoc)) : JsonDoc :=
  .obj (entries.map fun e => (escape e.1, e.2))

mutual

/-- `json.Marshal` of a value; `none` is an error. -/
def encode : GoValue → Option JsonDoc
  | .null => some .null
  | .bool b => some (.bool b)
  | .int n => some (.num (intText n))
  | .float64 x => some (.num (floatText x))
  | .float32 x => some (.num (floatText x))
  | .number lit => (numberText lit).map .num
  | .str s => some (.str (escape s))
  | .bytes b => some (.str (Base64.encode b))
  | .slice items => (encodeItems items).map .arr
  | .map entries => (encodeEntries entries).map object
  | .struct fields => (encodeFields fields).map object
  | .marshaler text => compact text
  | .unsupported => none

def encodeItems : List GoValue → Option (List JsonDoc)
  | [] => some []
  | v :: vs =>
    match encode v, encodeItems vs with
    | some d, some ds => some (d :: ds)
    | _, _ => none

/-- Fields are written in their order. -/
def encodeFields : List (Bytes × GoValue) → Option (List (Bytes × JsonDoc))
  | [] => some []
  | (key, v) :: fields =>
    match encode v, encodeFields fields with
    | some d, some es => some ((key, d) :: es)
    | _, _ => none

/-- The keys of a map are written in increasing order. -/
def encodeEntries : List (Bytes × GoValue) → Option (List (Bytes × JsonDoc))
  | [] => some []
  | (key, v) :: entries =>
    if (entries.map Prod.fst).contains key then encodeEntries entries
    else
      match encode v, encodeEntries entries with
      | some d, some es => some (insertEntry (key, d) es)
      | _, _ => none

end

/-! ## Section 2: Reading -/

mutual

/-- `json.Unmarshal` of a document into an interface; `none` is an error. -/
def decodeAny : JsonDoc → Option GoValue
  | .null => some .null
  | .bool b => some (.bool b)
  | .num lit => (parseFloat binary64 lit).map .float64
  | .str lit => (unquote lit).map .str
  | .arr items => (decodeItems items).map .slice
  | .obj members => (decodeMembers members).map .map

def decodeItems : List JsonDoc → Option (List GoValue)
  | [] => some []
  | d :: ds =>
    match decodeAny d, decodeItems ds with
    | some v, some vs => some (v :: vs)
    | _, _ => none

/-- The members of an object are assigned one after the other. -/
def decodeMembers : List (Bytes × JsonDoc) → Option (List (Bytes × GoValue))
  | [] => some []
  | (lit, d) :: members =>
    match unquote lit, decodeAny d, decodeMembers members with
    | some key, some v, some entries => some ((key, v) :: entries)
    | _, _, _ => none

end

/-! ## Section 3: Documents that stay the same -/

/-- The literal of the nearest floating-point number. -/
def StableNumber (lit : Bytes) : Prop := ∃ x, parseFloat binary64 lit = some x ∧ floatText x = lit

/-- The literal of a valid string, as the encoder writes it. -/
def StableString (lit : Bytes) : Prop := ∃ s, Utf8.Valid s ∧ escape s = lit

/-- The literals of increasing keys. -/
def StableKeys (lits : List Bytes) : Prop :=
  ∃ keys : List Bytes, keys.map escape = lits ∧ (∀ key ∈ keys, Utf8.Valid key) ∧ keys.Pairwise (· < ·)

mutual

/-- The document is the same after it was read into an interface and written again. -/
def Stable : JsonDoc → Prop
  | .null => True
  | .bool _ => True
  | .num lit => StableNumber lit
  | .str lit => StableString lit
  | .arr items => StableItems items
  | .obj members => StableKeys (members.map Prod.fst) ∧ StableMembers members

def StableItems : List JsonDoc → Prop
  | [] => True
  | d :: ds => Stable d ∧ StableItems ds

def StableMembers : List (Bytes × JsonDoc) → Prop
  | [] => True
  | (_, d) :: members => Stable d ∧ StableMembers members

end

theorem stableMembers_iff {ms : List (Bytes × JsonDoc)} : StableMembers ms ↔ ∀ m ∈ ms, Stable m.2 := by
  induction ms with
  | nil => simp [StableMembers]
  | cons m ms ih =>
    obtain ⟨key, d⟩ := m
    simp [StableMembers, ih]

/-! ## Section 4: The keys of objects -/

theorem mem_insertEntry {entry e : Bytes × JsonDoc} {es : List (Bytes × JsonDoc)} :
    e ∈ insertEntry entry es ↔ e = entry ∨ e ∈ es := by
  induction es with
  | nil => simp [insertEntry]
  | cons e' es ih =>
    rw [insertEntry]
    split
    · simp
    · simp only [List.mem_cons, ih]
      tauto

theorem insertEntry_sorted {entry : Bytes × JsonDoc} {es : List (Bytes × JsonDoc)}
    (hes : (es.map Prod.fst).Pairwise (· < ·)) (hnew : entry.1 ∉ es.map Prod.fst) :
    ((insertEntry entry es).map Prod.fst).Pairwise (· < ·) := by
  induction es with
  | nil => simp [insertEntry]
  | cons e es ih =>
    rw [List.map_cons, List.pairwise_cons] at hes
    rw [List.map_cons, List.mem_cons, not_or] at hnew
    rw [insertEntry]
    split
    · next hlt =>
      refine List.pairwise_cons.mpr ⟨fun key hkey => ?_, List.pairwise_cons.mpr hes⟩
      rcases List.mem_cons.mp hkey with rfl | hkey
      · exact hlt
      · exact List.lt_trans hlt (hes.1 key hkey)
    · next hge =>
      refine List.pairwise_cons.mpr ⟨fun key hkey => ?_, ih hes.2 hnew.2⟩
      obtain ⟨e', he', rfl⟩ := List.mem_map.mp hkey
      rcases mem_insertEntry.mp he' with rfl | he'
      · -- the two keys differ, and the new one is not before
        rcases List.le_iff_lt_or_eq.mp (List.not_lt.mp hge) with hlt | heq
        · exact hlt
        · exact absurd heq.symm hnew.1
      · exact hes.1 e'.1 (List.mem_map_of_mem he')

/-- The entries that are written have the keys of the map, in increasing order. -/
theorem encodeEntries_keys {entries : List (Bytes × GoValue)} {es : List (Bytes × JsonDoc)}
    (hes : encodeEntries entries = some es) :
    (es.map Prod.fst).Pairwise (· < ·) ∧ ∀ key ∈ es.map Prod.fst, key ∈ entries.map Prod.fst := by
  induction entries generalizing es with
  | nil =>
    rw [encodeEntries, Option.some.injEq] at hes
    subst hes
    simp
  | cons entry entries ih =>
    obtain ⟨key, v⟩ := entry
    rw [encodeEntries] at hes
    split at hes
    · obtain ⟨hsorted, hsub⟩ := ih hes
      exact ⟨hsorted, fun k hk => List.mem_cons_of_mem _ (hsub k hk)⟩
    · next hnew =>
      split at hes
      · next d es' _ hrest =>
        rw [← Option.some.inj hes]
        obtain ⟨hsorted, hsub⟩ := ih hrest
        refine ⟨insertEntry_sorted hsorted fun hmem => hnew (List.contains_iff_mem.mpr (hsub key hmem)),
          fun k hk => ?_⟩
        obtain ⟨e, he, rfl⟩ := List.mem_map.mp hk
        rcases mem_insertEntry.mp he with rfl | he
        · exact List.mem_cons_self
        · exact List.mem_cons_of_mem _ (hsub _ (List.mem_map_of_mem he))
      · simp at hes

theorem encodeFields_keys {fields : List (Bytes × GoValue)} {es : List (Bytes × JsonDoc)}
    (hes : encodeFields fields = some es) : es.map Prod.fst = fields.map Prod.fst := by
  induction fields generalizing es with
  | nil =>
    rw [encodeFields, Option.some.injEq] at hes
    subst hes
    rfl
  | cons field fields ih =>
    obtain ⟨key, v⟩ := field
    rw [encodeFields] at hes
    split at hes
    · next d es' _ hrest =>
      rw [← Option.some.inj hes, List.map_cons, List.map_cons, ih hrest]
    · simp at hes

/-- A map whose keys were assigned in increasing order is written in this order. -/
theorem encodeEntries_of_sorted {entries : List (Bytes × GoValue)}
    (hsorted : (entries.map Prod.fst).Pairwise (· < ·)) : encodeEntries entries = encodeFields entries := by
  induction entries with
  | nil => rw [encodeEntries, encodeFields]
  | cons entry entries ih =>
    obtain ⟨key, v⟩ := entry
    rw [List.map_cons, List.pairwise_cons] at hsorted
    have hnew : key ∉ entries.map Prod.fst := fun hmem => List.lt_irrefl key (hsorted.1 key hmem)
    rw [encodeEntries, encodeFields, if_neg fun hold => hnew (List.contains_iff_mem.mp hold), ih hsorted.2]
    cases encode v with
    | none => rfl
    | some d =>
      cases hrest : encodeFields entries with
      | none => rfl
      | some es =>
        have hkeys := encodeFields_keys hrest
        cases es with
        | nil => rfl
        | cons e es =>
          have hlt : key < e.1 := hsorted.1 e.1 (by rw [← hkeys]; exact List.mem_cons_self)
          simp only [insertEntry, if_pos hlt]

/-- A literal of a valid string is the literal of no other string. -/
theorem eq_of_escape_eq {s t : Bytes} (hs : Utf8.Valid s) (heq : escape t = escape s) : t = s := by
  have hsanitize : Utf8.sanitize t = s := by
    have hread := unquote_escape t
    rw [heq, unquote_escape, Utf8.sanitize_of_valid hs] at hread
    exact (Option.some.inj hread).symm
  have ht : Utf8.Valid t := by
    rw [← escape_sanitize_iff, hsanitize, heq]
  rw [← hsanitize, Utf8.sanitize_of_valid ht]

theorem eq_of_map_escape_eq {keys keys' : List Bytes} (hkeys : ∀ key ∈ keys, Utf8.Valid key)
    (heq : keys'.map escape = keys.map escape) : keys' = keys := by
  induction keys generalizing keys' with
  | nil => simpa using heq
  | cons key keys ih =>
    cases keys' with
    | nil => simp at heq
    | cons key' keys' =>
      rw [List.map_cons, List.map_cons, List.cons.injEq] at heq
      rw [eq_of_escape_eq (hkeys key List.mem_cons_self) heq.1,
        ih (fun k hk => hkeys k (List.mem_cons_of_mem _ hk)) heq.2]

theorem stableKeys_iff {keys : List Bytes} :
    StableKeys (keys.map escape) ↔ (∀ key ∈ keys, Utf8.Valid key) ∧ keys.Pairwise (· < ·) := by
  constructor
  · rintro ⟨keys', heq, hvalid, hsorted⟩
    rw [eq_of_map_escape_eq hvalid heq.symm]
    exact ⟨hvalid, hsorted⟩
  · rintro ⟨hvalid, hsorted⟩
    exact ⟨keys, rfl, hvalid, hsorted⟩

/-! ## Section 5: Reading and writing again -/

theorem reencode_str (lit : Bytes) :
    (decodeAny (.str lit)).bind encode = some (.str lit) ↔ StableString lit := by
  rw [decodeAny]
  constructor
  · intro heq
    cases hread : unquote lit with
    | none => simp [hread] at heq
    | some s =>
      rw [hread, Option.map_some, Option.bind_some, encode, Option.some.injEq, JsonDoc.str.injEq] at heq
      exact ⟨s, unquote_valid hread, heq⟩
  · rintro ⟨s, hvalid, rfl⟩
    rw [unquote_escape, Utf8.sanitize_of_valid hvalid, Option.map_some, Option.bind_some, encode]

theorem reencode_num (lit : Bytes) :
    (decodeAny (.num lit)).bind encode = some (.num lit) ↔ StableNumber lit := by
  rw [decodeAny, StableNumber]
  cases parseFloat binary64 lit with
  | none => simp
  | some x => simp [encode]

/-- The keys of a map that was read. -/
theorem decodeMembers_keys {ms : List (Bytes × JsonDoc)} {entries : List (Bytes × GoValue)}
    (hread : decodeMembers ms = some entries) :
    ms.map (fun m => unquote m.1) = (entries.map Prod.fst).map some := by
  induction ms generalizing entries with
  | nil =>
    rw [decodeMembers, Option.some.injEq] at hread
    subst hread
    rfl
  | cons m ms ih =>
    obtain ⟨lit, d⟩ := m
    rw [decodeMembers] at hread
    split at hread
    · next key v rest hkey _ hrest =>
      rw [← Option.some.inj hread, List.map_cons, List.map_cons, List.map_cons, hkey, ih hrest]
    · simp at hread

theorem decodeMembers_valid {ms : List (Bytes × JsonDoc)} {entries : List (Bytes × GoValue)}
    (hread : decodeMembers ms = some entries) : ∀ key ∈ entries.map Prod.fst, Utf8.Valid key := by
  intro key hkey
  have hmem : some key ∈ ms.map fun m => unquote m.1 := by
    rw [decodeMembers_keys hread]
    exact List.mem_map_of_mem hkey
  obtain ⟨m, _, hm⟩ := List.mem_map.mp hmem
  exact unquote_valid hm

theorem unquote_keys {keys : List Bytes} {ms : List (Bytes × JsonDoc)} (hvalid : ∀ key ∈ keys, Utf8.Valid key)
    (hkeys : keys.map escape = ms.map Prod.fst) : ms.map (fun m => unquote m.1) = keys.map some := by
  have hmap : ms.map (fun m => unquote m.1) = (ms.map Prod.fst).map unquote := by simp
  rw [hmap, ← hkeys, List.map_map]
  refine List.map_congr_left fun key hkey => ?_
  rw [Function.comp_apply, unquote_escape, Utf8.sanitize_of_valid (hvalid key hkey)]

/-- An object is the same again when its keys increase and its members are the same. -/
theorem reencode_obj {ms : List (Bytes × JsonDoc)}
    (hmembers : ∀ keys : List Bytes, ms.map (fun m => unquote m.1) = keys.map some →
      ((decodeMembers ms).bind encodeFields = some (keys.zip (ms.map Prod.snd)) ↔ StableMembers ms)) :
    (decodeAny (.obj ms)).bind encode = some (.obj ms)
      ↔ StableKeys (ms.map Prod.fst) ∧ StableMembers ms := by
  rw [decodeAny]
  constructor
  · intro heq
    cases hread : decodeMembers ms with
    | none => simp [hread] at heq
    | some entries =>
      rw [hread, Option.map_some, Option.bind_some, encode, Option.map_eq_some_iff] at heq
      obtain ⟨es, hes, hobj⟩ := heq
      rw [object, JsonDoc.obj.injEq] at hobj
      obtain ⟨hsorted, hsub⟩ := encodeEntries_keys hes
      have hvalid : ∀ key ∈ es.map Prod.fst, Utf8.Valid key := fun key hkey =>
        decodeMembers_valid hread key (hsub key hkey)
      have hfst : (es.map Prod.fst).map escape = ms.map Prod.fst := by
        rw [← hobj, List.map_map, List.map_map]
        rfl
      have hsnd : es.map Prod.snd = ms.map Prod.snd := by
        rw [← hobj, List.map_map]
        rfl
      have hkeys := unquote_keys hvalid hfst
      -- the keys that were read are those that were written
      have hentries : entries.map Prod.fst = es.map Prod.fst :=
        List.map_injective_iff.mpr (Option.some_injective _) ((decodeMembers_keys hread).symm.trans hkeys)
      rw [encodeEntries_of_sorted (hentries ▸ hsorted)] at hes
      refine ⟨⟨_, hfst, hvalid, hsorted⟩, (hmembers _ hkeys).mp ?_⟩
      rw [hread, Option.bind_some, hes]
      exact congrArg some (List.zip_of_prod rfl hsnd)
  · rintro ⟨⟨keys, hfst, hvalid, hsorted⟩, hstable⟩
    have hkeys := unquote_keys hvalid hfst
    have hfields := (hmembers keys hkeys).mpr hstable
    rw [Option.bind_eq_some_iff] at hfields
    obtain ⟨entries, hread, hes⟩ := hfields
    have hentries : entries.map Prod.fst = keys :=
      List.map_injective_iff.mpr (Option.some_injective _) ((decodeMembers_keys hread).symm.trans hkeys)
    have hzip : (keys.zip (ms.map Prod.snd)).map (fun e => (escape e.1, e.2)) = ms :=
      calc (keys.zip (ms.map Prod.snd)).map (fun e => (escape e.1, e.2))
          = (keys.map escape).zip (ms.map Prod.snd) := List.zip_map_left.symm
        _ = (ms.map Prod.fst).zip (ms.map Prod.snd) := by rw [hfst]
        _ = ms := (List.zip_of_prod rfl rfl).symm
    rw [hread, Option.map_some, Option.bind_some, encode, encodeEntries_of_sorted (hentries ▸ hsorted), hes,
      Option.map_some, object, hzip]

mutual

/-- **A document is the same after reading and writing** exactly when it is stable. -/
theorem reencode_iff : ∀ d : JsonDoc, (decodeAny d).bind encode = some d ↔ Stable d
  | .null => by simp [decodeAny, encode, Stable]
  | .bool b => by simp [decodeAny, encode, Stable]
  | .num lit => by
    rw [reencode_num, Stable]
  | .str lit => by
    rw [reencode_str, Stable]
  | .arr ds => by
    have hitems := reencodeItems_iff ds
    rw [decodeAny, Stable, ← hitems]
    cases decodeItems ds with
    | none => simp
    | some vs =>
      rw [Option.map_some, Option.bind_some, Option.bind_some, encode]
      cases encodeItems vs <;> simp
  | .obj ms => by
    rw [reencode_obj (reencodeMembers_iff ms), Stable]

theorem reencodeItems_iff : ∀ ds : List JsonDoc,
    (decodeItems ds).bind encodeItems = some ds ↔ StableItems ds
  | [] => by simp [decodeItems, encodeItems, StableItems]
  | d :: ds => by
    have hd := reencode_iff d
    have hds := reencodeItems_iff ds
    rw [StableItems, ← hd, ← hds, decodeItems]
    cases decodeAny d with
    | none => simp
    | some v =>
      cases decodeItems ds with
      | none => simp
      | some vs =>
        simp only [Option.bind_some, encodeItems]
        cases encode v <;> cases encodeItems vs <;> simp

theorem reencodeMembers_iff : ∀ (ms : List (Bytes × JsonDoc)) (keys : List Bytes),
    ms.map (fun m => unquote m.1) = keys.map some →
      ((decodeMembers ms).bind encodeFields = some (keys.zip (ms.map Prod.snd)) ↔ StableMembers ms)
  | [], keys, _ => by simp [decodeMembers, encodeFields, StableMembers]
  | (lit, d) :: ms, [], hkeys => by simp at hkeys
  | (lit, d) :: ms, key :: keys, hkeys => by
    rw [List.map_cons, List.map_cons, List.cons.injEq] at hkeys
    have hd := reencode_iff d
    have hms := reencodeMembers_iff ms keys hkeys.2
    rw [StableMembers, ← hd, ← hms, decodeMembers, hkeys.1]
    cases decodeAny d with
    | none => simp
    | some v =>
      cases decodeMembers ms with
      | none => simp
      | some entries =>
        simp only [Option.bind_some, encodeFields]
        cases encode v <;> cases encodeFields entries <;> simp

end

/-! ## Section 6: Values that stay the same -/

mutual

/-- The document of the value is stable and has at most `depth` levels. -/
def Survives : Nat → GoValue → Prop
  | _, .null => True
  | _, .bool _ => True
  | _, .int n => StableNumber (intText n)
  | _, .float64 _ => True
  | _, .float32 x => StableNumber (floatText x)
  | _, .number lit => ∃ text, numberText lit = some text ∧ StableNumber text
  | _, .str s => Utf8.Valid s
  | _, .bytes _ => True
  | depth, .slice items => 0 < depth ∧ SurviveItems (depth - 1) items
  | depth, .map entries => 0 < depth ∧ SurviveEntries (depth - 1) entries
  | depth, .struct fields =>
    0 < depth ∧ (fields.map Prod.fst).Pairwise (· < ·) ∧ SurviveFields (depth - 1) fields
  | depth, .marshaler text => ∃ d, compact text = some d ∧ Proper depth d ∧ Stable d
  | _, .unsupported => False

def SurviveItems : Nat → List GoValue → Prop
  | _, [] => True
  | depth, v :: vs => Survives depth v ∧ SurviveItems depth vs

def SurviveFields : Nat → List (Bytes × GoValue) → Prop
  | _, [] => True
  | depth, (key, v) :: fields => (Utf8.Valid key ∧ Survives depth v) ∧ SurviveFields depth fields

/-- An assignment may be replaced by a later one. -/
def SurviveEntries : Nat → List (Bytes × GoValue) → Prop
  | _, [] => True
  | depth, (key, v) :: entries =>
    (key ∈ entries.map Prod.fst ∨ Utf8.Valid key ∧ Survives depth v) ∧ SurviveEntries depth entries

end

theorem isNumber_intText (n : Int) : isNumber (intText n) = true := by
  unfold intText
  split
  · rw [isNumber, if_pos rfl, isUnsigned_decimal]
  · exact isNumber_decimal _

/-- A field of type `int64`. -/
def decodeInt64 (old : Int) : JsonDoc → Option Int
  | .null => some old
  | .num lit =>
    let digits := if lit.head? = some 0x2d then lit.tail else lit
    let n : Int := if lit.head? = some 0x2d then -(Bytes.ofDecimal digits : Int) else Bytes.ofDecimal digits
    if digits.all Bytes.isDigit ∧ -2 ^ 63 ≤ n ∧ n < 2 ^ 63 then some n else none
  | _ => none

theorem decodeInt64_intText {old n : Int} (hlo : -2 ^ 63 ≤ n) (hhi : n < 2 ^ 63) :
    decodeInt64 old (.num (intText n)) = some n := by
  have hdigits : (Bytes.decimal n.natAbs).all Bytes.isDigit = true := by
    rw [List.all_eq_true]
    exact fun c => Bytes.isDigit_of_mem_decimal
  unfold decodeInt64 intText
  by_cases hneg : n < 0
  · have hval : -((n.natAbs : Nat) : Int) = n := by omega
    simp only [if_pos hneg, List.head?_cons, if_true, List.tail_cons, Bytes.ofDecimal_decimal, hval]
    rw [if_pos ⟨hdigits, hlo, hhi⟩]
  · -- the first digit is no sign
    obtain ⟨c, cs, hhead, hdigit, _⟩ := decimal_head n.natAbs
    have hsign : ¬ (Bytes.decimal n.natAbs).head? = some 0x2d := by
      rw [hhead, List.head?_cons, Option.some.injEq]
      rintro rfl
      exact absurd hdigit (by decide)
    have hval : ((n.natAbs : Nat) : Int) = n := by omega
    simp only [if_neg hneg, if_neg hsign, Bytes.ofDecimal_decimal, hval]
    rw [if_pos ⟨hdigits, hlo, hhi⟩]

theorem isNumber_numberText {lit text : Bytes} (htext : numberText lit = some text) :
    isNumber text = true := by
  unfold numberText at htext
  split at htext
  · rw [← Option.some.inj htext]
    rfl
  · split at htext
    · next hnum =>
      rw [← Option.some.inj htext]
      exact hnum
    · simp at htext

/-- The bytes that are written as they are. -/
def isPlain (b : UInt8) : Bool :=
  decide (b < 0x80) && decide (0x20 ≤ b) && b != 0x22 && b != 0x5c && b != 0x3c && b != 0x3e && b != 0x26

theorem escape_of_plain {s : Bytes} (hs : ∀ b ∈ s, isPlain b = true) : escape s = s := by
  induction s with
  | nil => rfl
  | cons b s ih =>
    have hb := hs b List.mem_cons_self
    simp only [isPlain, Bool.and_eq_true, decide_eq_true_eq, bne_iff_ne, ne_eq] at hb
    obtain ⟨⟨⟨⟨⟨⟨hascii, hspace⟩, hquote⟩, hslash⟩, hlt⟩, hgt⟩, hamp⟩ := hb
    have hne : ∀ c : UInt8, c < 0x20 → b ≠ c := by
      rintro c hc rfl
      exact UInt8.not_lt.mpr hspace hc
    have hbyte : escapeByte b = [b] := by
      simp [escapeByte, hquote, hslash, hlt, hgt, hamp, UInt8.not_lt.mpr hspace, hne 0x08 (by decide),
        hne 0x0c (by decide), hne 0x0a (by decide), hne 0x0d (by decide), hne 0x09 (by decide)]
    have hrunes := Utf8.runes_append (.one hascii) s
    rw [List.singleton_append] at hrunes
    rw [escape, hrunes, List.flatMap_cons, Option.map_some, Option.getD_some, escapeRune, hbyte]
    exact congrArg (b :: ·) (ih fun b' hb' => hs b' (List.mem_cons_of_mem _ hb'))

theorem stableString_of_plain {s : Bytes} (hs : ∀ b ∈ s, isPlain b = true) : StableString s := by
  refine ⟨s, Utf8.valid_of_ascii fun b hb => ?_, escape_of_plain hs⟩
  have hplain := hs b hb
  simp only [isPlain, Bool.and_eq_true, decide_eq_true_eq] at hplain
  exact hplain.1.1.1.1.1.1

theorem isLit_of_stableString {lit : Bytes} (hlit : StableString lit) : IsLit lit := by
  obtain ⟨s, _, rfl⟩ := hlit
  exact isLit_escape s

theorem isPlain_base64 {b : Bytes} {c : UInt8} (hc : c ∈ Base64.encode b) : isPlain c = true := by
  have hall : ∀ c ∈ (0x3d : UInt8) :: Base64.alphabet, isPlain c = true := by decide +kernel
  exact hall c (Base64.mem_encode hc)

theorem stableString_base64 (b : Bytes) : StableString (Base64.encode b) :=
  stableString_of_plain fun _ => isPlain_base64

theorem decodeBytes_base64 (b : Bytes) : decodeBytes (.str (Base64.encode b)) = some b := by
  have hplain := escape_of_plain (s := Base64.encode b) fun _ => isPlain_base64
  have hvalid : Utf8.Valid (Base64.encode b) := by
    obtain ⟨s, hs, heq⟩ := stableString_base64 b
    rw [eq_of_escape_eq hs (hplain.trans heq.symm)]
    exact hs
  have hread := unquote_escape (Base64.encode b)
  rw [hplain, Utf8.sanitize_of_valid hvalid] at hread
  rw [decodeBytes, hread, Option.bind_some, Base64.decode_encode]

theorem stableString_escape {s : Bytes} : StableString (escape s) ↔ Utf8.Valid s := by
  constructor
  · rintro ⟨t, ht, heq⟩
    rw [eq_of_escape_eq ht heq.symm]
    exact ht
  · intro hs
    exact ⟨s, hs, rfl⟩

theorem proper_object {depth : Nat} {es : List (Bytes × JsonDoc)} :
    Proper depth (object es) ↔ 0 < depth ∧ ∀ e ∈ es, Proper (depth - 1) e.2 := by
  rw [object, Proper, properMembers_iff]
  constructor
  · rintro ⟨hpos, hmembers⟩
    exact ⟨hpos, fun e he => (hmembers _ (List.mem_map_of_mem he)).2⟩
  · rintro ⟨hpos, hmembers⟩
    refine ⟨hpos, fun m hm => ?_⟩
    obtain ⟨e, he, rfl⟩ := List.mem_map.mp hm
    exact ⟨isLit_escape e.1, hmembers e he⟩

theorem stable_object {es : List (Bytes × JsonDoc)} :
    Stable (object es) ↔ (es.map Prod.fst).Pairwise (· < ·) ∧ ∀ e ∈ es, Utf8.Valid e.1 ∧ Stable e.2 := by
  have hkeys : (es.map fun e => (escape e.1, e.2)).map Prod.fst = (es.map Prod.fst).map escape := by
    rw [List.map_map, List.map_map]
    rfl
  rw [object, Stable, hkeys, stableKeys_iff, stableMembers_iff]
  constructor
  · rintro ⟨⟨hvalid, hsorted⟩, hmembers⟩
    refine ⟨hsorted, fun e he => ⟨hvalid _ (List.mem_map_of_mem he), ?_⟩⟩
    exact hmembers (escape e.1, e.2) (List.mem_map_of_mem (f := fun e => (escape e.1, e.2)) he)
  · rintro ⟨hsorted, hall⟩
    refine ⟨⟨fun key hkey => ?_, hsorted⟩, fun m hm => ?_⟩
    · obtain ⟨e, he, rfl⟩ := List.mem_map.mp hkey
      exact (hall e he).1
    · obtain ⟨e, he, rfl⟩ := List.mem_map.mp hm
      exact (hall e he).2

mutual

/-- **A value stays the same** exactly when its document is proper and stable. -/
theorem survives_iff : ∀ (v : GoValue) (depth : Nat) (d : JsonDoc), encode v = some d →
    (Survives depth v ↔ Proper depth d ∧ Stable d)
  | .null, depth, d, hd => by
    rw [encode, Option.some.injEq] at hd
    simp [← hd, Survives, Proper, Stable]
  | .bool b, depth, d, hd => by
    rw [encode, Option.some.injEq] at hd
    simp [← hd, Survives, Proper, Stable]
  | .int n, depth, d, hd => by
    rw [encode, Option.some.injEq] at hd
    simp [← hd, Survives, Stable, proper_num (isNumber_intText n)]
  | .float64 x, depth, d, hd => by
    rw [encode, Option.some.injEq] at hd
    have hstable : StableNumber (floatText x) := ⟨x, parseFloat_floatText x, rfl⟩
    simp [← hd, Survives, Stable, hstable, proper_num (isNumber_floatText x)]
  | .float32 x, depth, d, hd => by
    rw [encode, Option.some.injEq] at hd
    simp [← hd, Survives, Stable, proper_num (isNumber_floatText x)]
  | .number lit, depth, d, hd => by
    rw [encode, Option.map_eq_some_iff] at hd
    obtain ⟨text, htext, rfl⟩ := hd
    simp [Survives, Stable, htext, proper_num (isNumber_numberText htext)]
  | .str s, depth, d, hd => by
    rw [encode, Option.some.injEq] at hd
    rw [← hd, Survives, Proper, Stable, stableString_escape]
    exact ⟨fun hs => ⟨isLit_escape s, hs⟩, fun h => h.2⟩
  | .bytes b, depth, d, hd => by
    rw [encode, Option.some.injEq] at hd
    have hstable := stableString_base64 b
    rw [← hd, Survives, Proper, Stable]
    exact ⟨fun _ => ⟨isLit_of_stableString hstable, hstable⟩, fun _ => trivial⟩
  | .slice vs, depth, d, hd => by
    rw [encode, Option.map_eq_some_iff] at hd
    obtain ⟨ds, hds, rfl⟩ := hd
    rw [Survives, Proper, Stable, surviveItems_iff vs (depth - 1) ds hds, and_assoc]
  | .map entries, depth, d, hd => by
    rw [encode, Option.map_eq_some_iff] at hd
    obtain ⟨es, hes, rfl⟩ := hd
    rw [Survives, proper_object, stable_object, surviveEntries_iff entries (depth - 1) es hes]
    -- a map is written with its keys sorted, so the order asks for nothing
    constructor
    · rintro ⟨hpos, hall⟩
      exact ⟨⟨hpos, fun e he => (hall e he).2.1⟩, (encodeEntries_keys hes).1,
        fun e he => ⟨(hall e he).1, (hall e he).2.2⟩⟩
    · rintro ⟨⟨hpos, hproper⟩, _, hall⟩
      exact ⟨hpos, fun e he => ⟨(hall e he).1, hproper e he, (hall e he).2⟩⟩
  | .struct fields, depth, d, hd => by
    rw [encode, Option.map_eq_some_iff] at hd
    obtain ⟨es, hes, rfl⟩ := hd
    rw [Survives, proper_object, stable_object, surviveFields_iff fields (depth - 1) es hes,
      encodeFields_keys hes]
    -- a struct is written in the order of its fields, so that order must be sorted
    constructor
    · rintro ⟨hpos, hsorted, hall⟩
      exact ⟨⟨hpos, fun e he => (hall e he).2.1⟩, hsorted, fun e he => ⟨(hall e he).1, (hall e he).2.2⟩⟩
    · rintro ⟨⟨hpos, hproper⟩, hsorted, hall⟩
      exact ⟨hpos, hsorted, fun e he => ⟨(hall e he).1, hproper e he, (hall e he).2⟩⟩
  | .marshaler text, depth, d, hd => by
    rw [encode] at hd
    simp [Survives, hd]
  | .unsupported, depth, d, hd => by
    rw [encode] at hd
    simp at hd

theorem surviveItems_iff : ∀ (vs : List GoValue) (depth : Nat) (ds : List JsonDoc),
    encodeItems vs = some ds → (SurviveItems depth vs ↔ ProperItems depth ds ∧ StableItems ds)
  | [], depth, ds, hds => by
    rw [encodeItems, Option.some.injEq] at hds
    simp [← hds, SurviveItems, ProperItems, StableItems]
  | v :: vs, depth, ds, hds => by
    rw [encodeItems] at hds
    split at hds
    · next d ds' hd hds' =>
      rw [← Option.some.inj hds, SurviveItems, ProperItems, StableItems, survives_iff v depth d hd,
        surviveItems_iff vs depth ds' hds']
      tauto
    · simp at hds

theorem surviveFields_iff : ∀ (fields : List (Bytes × GoValue)) (depth : Nat) (es : List (Bytes × JsonDoc)),
    encodeFields fields = some es →
      (SurviveFields depth fields ↔ ∀ e ∈ es, Utf8.Valid e.1 ∧ Proper depth e.2 ∧ Stable e.2)
  | [], depth, es, hes => by
    rw [encodeFields, Option.some.injEq] at hes
    simp [← hes, SurviveFields]
  | (key, v) :: fields, depth, es, hes => by
    rw [encodeFields] at hes
    split at hes
    · next d es' hd hes' =>
      rw [← Option.some.inj hes, SurviveFields, survives_iff v depth d hd,
        surviveFields_iff fields depth es' hes', List.forall_mem_cons]
    · simp at hes

theorem surviveEntries_iff : ∀ (entries : List (Bytes × GoValue)) (depth : Nat)
    (es : List (Bytes × JsonDoc)), encodeEntries entries = some es →
      (SurviveEntries depth entries ↔ ∀ e ∈ es, Utf8.Valid e.1 ∧ Proper depth e.2 ∧ Stable e.2)
  | [], depth, es, hes => by
    rw [encodeEntries, Option.some.injEq] at hes
    simp [← hes, SurviveEntries]
  | (key, v) :: entries, depth, es, hes => by
    rw [encodeEntries] at hes
    split at hes
    · next hold =>
      have hold := List.contains_iff_mem.mp hold
      rw [SurviveEntries, surviveEntries_iff entries depth es hes]
      exact ⟨fun h => h.2, fun h => ⟨.inl hold, h⟩⟩
    · next hnew =>
      split at hes
      · next d es' hd hes' =>
        rw [← Option.some.inj hes, SurviveEntries, survives_iff v depth d hd,
          surviveEntries_iff entries depth es' hes']
        constructor
        · rintro ⟨hfirst, hrest⟩ e he
          rcases mem_insertEntry.mp he with rfl | he
          · exact hfirst.resolve_left fun hold => hnew (List.contains_iff_mem.mpr hold)
          · exact hrest e he
        · intro hall
          exact ⟨.inr (hall _ (mem_insertEntry.mpr (.inl rfl))),
            fun e he => hall e (mem_insertEntry.mpr (.inr he))⟩
      · simp at hes

end

/-! ## Section 7: Later assignments -/

/-- The value of a key is that of its last assignment. -/
def valueAt (entries : List (Bytes × GoValue)) (key : Bytes) : Option GoValue := entries.reverse.lookup key

theorem valueAt_append (entries later : List (Bytes × GoValue)) (key : Bytes) :
    valueAt (entries ++ later) key = (valueAt later key).or (valueAt entries key) := by
  rw [valueAt, List.reverse_append, List.lookup_append]
  rfl

theorem valueAt_cons (key' : Bytes) (v : GoValue) (entries : List (Bytes × GoValue)) (key : Bytes) :
    valueAt ((key', v) :: entries) key = (valueAt entries key).or (if key = key' then some v else none) := by
  have hone : [(key', v)].lookup key = if key = key' then some v else none := by
    by_cases heq : key = key'
    · simp [heq]
    · rw [List.lookup_cons, beq_eq_false_iff_ne.mpr heq, if_neg heq]
      rfl
  rw [valueAt, List.reverse_cons, List.lookup_append, hone]
  rfl

theorem valueAt_isSome {entries : List (Bytes × GoValue)} {key : Bytes} :
    (valueAt entries key).isSome = true ↔ key ∈ entries.map Prod.fst := by
  induction entries with
  | nil => simp [valueAt]
  | cons entry entries ih =>
    obtain ⟨key', v⟩ := entry
    rw [valueAt_cons, Option.isSome_or, Bool.or_eq_true, ih, List.map_cons, List.mem_cons, or_comm]
    by_cases heq : key = key' <;> simp [heq]

theorem valueAt_eq_some {entries : List (Bytes × GoValue)} (hnodup : (entries.map Prod.fst).Nodup)
    {key : Bytes} {v : GoValue} : valueAt entries key = some v ↔ (key, v) ∈ entries := by
  induction entries with
  | nil => simp [valueAt]
  | cons entry entries ih =>
    obtain ⟨key', v'⟩ := entry
    rw [List.map_cons, List.nodup_cons] at hnodup
    rw [valueAt_cons, List.mem_cons, ← ih hnodup.2, Prod.mk.injEq]
    by_cases heq : key = key'
    · have hnone : valueAt entries key = none := by
        rw [← Option.not_isSome_iff_eq_none, valueAt_isSome, heq]
        exact hnodup.1
      rw [hnone]
      simp [heq, eq_comm]
    · simp [heq]

/-- What is written of a map. -/
theorem mem_encodeEntries {entries : List (Bytes × GoValue)} {es : List (Bytes × JsonDoc)}
    (hes : encodeEntries entries = some es) {key : Bytes} {d : JsonDoc} :
    (key, d) ∈ es ↔ ∃ v, valueAt entries key = some v ∧ encode v = some d := by
  induction entries generalizing es with
  | nil =>
    rw [encodeEntries, Option.some.injEq] at hes
    simp [← hes, valueAt]
  | cons entry entries ih =>
    obtain ⟨key', v⟩ := entry
    rw [encodeEntries] at hes
    split at hes
    · next hold =>
      -- a later assignment to the same key replaces this one
      have hold := List.contains_iff_mem.mp hold
      rw [ih hes, valueAt_cons]
      by_cases heq : key = key'
      · obtain ⟨w, hw⟩ := Option.isSome_iff_exists.mp (valueAt_isSome.mpr (heq ▸ hold))
        simp [hw]
      · simp [heq]
    · next hnew =>
      split at hes
      · next dv es' hdv hes' =>
        rw [← Option.some.inj hes, mem_insertEntry, ih hes', valueAt_cons]
        by_cases heq : key = key'
        · have hnone : valueAt entries key = none := by
            rw [← Option.not_isSome_iff_eq_none, valueAt_isSome, heq]
            exact fun hold => hnew (List.contains_iff_mem.mpr hold)
          simp [heq ▸ hnone, heq, hdv, eq_comm]
        · simp [heq]
      · simp at hes

/-- A map can be written when its values can. -/
theorem encodeEntries_isSome {entries : List (Bytes × GoValue)} : (encodeEntries entries).isSome = true ↔
    ∀ key v, valueAt entries key = some v → (encode v).isSome = true := by
  induction entries with
  | nil => simp [encodeEntries, valueAt]
  | cons entry entries ih =>
    obtain ⟨key', v'⟩ := entry
    simp only [valueAt_cons]
    rw [encodeEntries]
    split
    · next hold =>
      have hold := List.contains_iff_mem.mp hold
      rw [ih]
      refine forall₂_congr fun key v => ?_
      by_cases heq : key = key'
      · obtain ⟨w, hw⟩ := Option.isSome_iff_exists.mp (valueAt_isSome.mpr (heq ▸ hold))
        simp [hw]
      · simp [heq]
    · next hnew =>
      have hnone : valueAt entries key' = none := by
        rw [← Option.not_isSome_iff_eq_none, valueAt_isSome]
        exact fun hold => hnew (List.contains_iff_mem.mpr hold)
      constructor
      · intro hsome key v hv
        split at hsome
        · next d es hd hes =>
          rw [hes] at ih
          rcases Option.or_eq_some_iff.mp hv with hv | ⟨_, hv⟩
          · exact ih.mp rfl key v hv
          · obtain ⟨_, hv⟩ := Option.ite_none_right_eq_some.mp hv
            rw [← Option.some.inj hv, hd]
            rfl
        · simp at hsome
      · intro hall
        have hv' := hall key' v' (by simp [hnone])
        have hes := ih.mpr fun key v hv => hall key v (by simp [hv])
        obtain ⟨d, hd⟩ := Option.isSome_iff_exists.mp hv'
        obtain ⟨es, hes⟩ := Option.isSome_iff_exists.mp hes
        simp [hd, hes]

theorem eq_of_mem_iff_of_sorted {es es' : List (Bytes × JsonDoc)}
    (hsorted : (es.map Prod.fst).Pairwise (· < ·)) (hsorted' : (es'.map Prod.fst).Pairwise (· < ·))
    (hmem : ∀ e, e ∈ es ↔ e ∈ es') : es = es' := by
  rw [List.pairwise_map] at hsorted hsorted'
  have hne : ∀ a b : Bytes × JsonDoc, a.1 < b.1 → a ≠ b := by
    rintro a b hlt rfl
    exact List.lt_irrefl _ hlt
  have hperm : es.Perm es' :=
    (List.perm_ext_iff_of_nodup (hsorted.imp (hne _ _)) (hsorted'.imp (hne _ _))).mpr hmem
  exact hperm.eq_of_pairwise (fun a b _ _ hab hba => absurd (List.lt_trans hab hba) (List.lt_irrefl _))
    hsorted hsorted'

/-- **A map is its values**: it is written as they are. -/
theorem encodeEntries_congr {entries entries' : List (Bytes × GoValue)}
    (hsame : ∀ key, (valueAt entries key).map encode = (valueAt entries' key).map encode) :
    encodeEntries entries = encodeEntries entries' := by
  have hvalues : ∀ {entries : List (Bytes × GoValue)} {key : Bytes} {d : Option JsonDoc},
      (∃ v, valueAt entries key = some v ∧ encode v = d) ↔ (valueAt entries key).map encode = some d := by
    intro entries key d
    rw [Option.map_eq_some_iff]
  have hsome : (encodeEntries entries).isSome = (encodeEntries entries').isSome := by
    rw [Bool.eq_iff_iff, encodeEntries_isSome, encodeEntries_isSome]
    refine forall_congr' fun key => ?_
    specialize hsame key
    cases hv : valueAt entries key <;> cases hv' : valueAt entries' key <;> simp_all
  cases hes : encodeEntries entries with
  | none =>
    rw [hes] at hsome
    exact (Option.isNone_iff_eq_none.mp (by simpa using hsome.symm)).symm
  | some es =>
    rw [hes] at hsome
    obtain ⟨es', hes'⟩ := Option.isSome_iff_exists.mp hsome.symm
    rw [hes', Option.some.injEq]
    refine eq_of_mem_iff_of_sorted (encodeEntries_keys hes).1 (encodeEntries_keys hes').1 fun e => ?_
    rw [mem_encodeEntries hes, mem_encodeEntries hes', hvalues, hvalues, hsame]

/-- Assignments leave the document of a map as it is exactly when their values are
    written as those that they replace. -/
theorem encode_append_iff {entries later : List (Bytes × GoValue)} {d : JsonDoc}
    (hd : encode (.map entries) = some d) (hnodup : (later.map Prod.fst).Nodup)
    (hlater : ∀ e ∈ later, Utf8.Valid e.1 ∧ (encode e.2).isSome = true) :
    encode (.map (entries ++ later)) = some d ↔
      ∀ e ∈ later, (valueAt entries e.1).bind encode = encode e.2 := by
  constructor
  · intro hd' entry hentry
    obtain ⟨key, v⟩ := entry
    obtain ⟨hkey, hsome⟩ := hlater (key, v) hentry
    obtain ⟨dv, hdv⟩ := Option.isSome_iff_exists.mp hsome
    have hv := (valueAt_eq_some hnodup).mpr hentry
    rw [encode, Option.map_eq_some_iff] at hd hd'
    obtain ⟨es, hes, rfl⟩ := hd
    obtain ⟨es', hes', heq⟩ := hd'
    have hmem : (key, dv) ∈ es' := (mem_encodeEntries hes').mpr ⟨v, by simp [valueAt_append, hv], hdv⟩
    have hmem : (escape key, dv) ∈ es'.map fun e => (escape e.1, e.2) := List.mem_map_of_mem hmem
    rw [object, object, JsonDoc.obj.injEq] at heq
    rw [heq] at hmem
    obtain ⟨⟨key', dv'⟩, hwritten, hpair⟩ := List.mem_map.mp hmem
    obtain ⟨hesc, hdoc⟩ := Prod.mk.inj hpair
    obtain rfl : key' = key := eq_of_escape_eq hkey hesc
    obtain rfl : dv' = dv := hdoc
    obtain ⟨w, hw, hdw⟩ := (mem_encodeEntries hes).mp hwritten
    rw [hw, Option.bind_some, hdw, hdv]
  · intro hsame
    rw [← hd, encode, encode]
    refine congrArg (Option.map object) (encodeEntries_congr fun key => ?_)
    rw [valueAt_append]
    cases hv : valueAt later key with
    | none => rfl
    | some v =>
      have hentry := (valueAt_eq_some hnodup).mp hv
      obtain ⟨dv, hdv⟩ := Option.isSome_iff_exists.mp (hlater _ hentry).2
      obtain ⟨w, hw, hdw⟩ := Option.bind_eq_some_iff.mp ((hsame _ hentry).trans hdv)
      simp [hw, hdw, hdv]

/-! ## Section 8: Written documents -/

mutual

/-- What is written is proper, with some number of levels. -/
theorem encode_proper : ∀ (v : GoValue) (d : JsonDoc), encode v = some d → ∃ depth, Proper depth d
  | .null, d, hd => by
    rw [encode, Option.some.injEq] at hd
    exact ⟨0, by rw [← hd, Proper]; trivial⟩
  | .bool b, d, hd => by
    rw [encode, Option.some.injEq] at hd
    exact ⟨0, by rw [← hd, Proper]; trivial⟩
  | .int n, d, hd => by
    rw [encode, Option.some.injEq] at hd
    exact ⟨0, hd ▸ proper_num (isNumber_intText n) 0⟩
  | .float64 x, d, hd => by
    rw [encode, Option.some.injEq] at hd
    exact ⟨0, hd ▸ proper_num (isNumber_floatText x) 0⟩
  | .float32 x, d, hd => by
    rw [encode, Option.some.injEq] at hd
    exact ⟨0, hd ▸ proper_num (isNumber_floatText x) 0⟩
  | .number lit, d, hd => by
    rw [encode, Option.map_eq_some_iff] at hd
    obtain ⟨text, htext, rfl⟩ := hd
    exact ⟨0, proper_num (isNumber_numberText htext) 0⟩
  | .str s, d, hd => by
    rw [encode, Option.some.injEq] at hd
    refine ⟨0, ?_⟩
    rw [← hd, Proper]
    exact isLit_escape s
  | .bytes b, d, hd => by
    rw [encode, Option.some.injEq] at hd
    refine ⟨0, ?_⟩
    rw [← hd, Proper]
    exact isLit_of_stableString (stableString_base64 b)
  | .slice vs, d, hd => by
    rw [encode, Option.map_eq_some_iff] at hd
    obtain ⟨ds, hds, rfl⟩ := hd
    -- one level more than what it holds
    obtain ⟨depth, hproper⟩ := encodeItems_proper vs ds hds
    refine ⟨depth + 1, ?_⟩
    rw [Proper]
    exact ⟨Nat.succ_pos _, hproper⟩
  | .map entries, d, hd => by
    rw [encode, Option.map_eq_some_iff] at hd
    obtain ⟨es, hes, rfl⟩ := hd
    obtain ⟨depth, hproper⟩ := encodeEntries_proper entries es hes
    exact ⟨depth + 1, proper_object.mpr ⟨Nat.succ_pos _, hproper⟩⟩
  | .struct fields, d, hd => by
    rw [encode, Option.map_eq_some_iff] at hd
    obtain ⟨es, hes, rfl⟩ := hd
    obtain ⟨depth, hproper⟩ := encodeFields_proper fields es hes
    exact ⟨depth + 1, proper_object.mpr ⟨Nat.succ_pos _, hproper⟩⟩
  | .marshaler text, d, hd => by
    rw [encode, compact, Option.bind_eq_some_iff] at hd
    obtain ⟨_, _, hparse⟩ := hd
    -- what a marshaler wrote was read back before it was kept
    exact ⟨maxDepth, proper_of_parse hparse⟩
  | .unsupported, d, hd => by
    rw [encode] at hd
    simp at hd

theorem encodeItems_proper : ∀ (vs : List GoValue) (ds : List JsonDoc), encodeItems vs = some ds →
    ∃ depth, ProperItems depth ds
  | [], ds, hds => by
    rw [encodeItems, Option.some.injEq] at hds
    exact ⟨0, by rw [← hds, ProperItems]; trivial⟩
  | v :: vs, ds, hds => by
    rw [encodeItems] at hds
    split at hds
    · next d ds' hd hds' =>
      obtain ⟨m, hm⟩ := encode_proper v d hd
      obtain ⟨n, hn⟩ := encodeItems_proper vs ds' hds'
      refine ⟨max m n, ?_⟩
      rw [← Option.some.inj hds, ProperItems]
      exact ⟨hm.mono (Nat.le_max_left m n), hn.mono (Nat.le_max_right m n)⟩
    · simp at hds

theorem encodeFields_proper : ∀ (fields : List (Bytes × GoValue)) (es : List (Bytes × JsonDoc)),
    encodeFields fields = some es → ∃ depth, ∀ e ∈ es, Proper depth e.2
  | [], es, hes => by
    rw [encodeFields, Option.some.injEq] at hes
    exact ⟨0, by simp [← hes]⟩
  | (key, v) :: fields, es, hes => by
    rw [encodeFields] at hes
    split at hes
    · next d es' hd hes' =>
      obtain ⟨m, hm⟩ := encode_proper v d hd
      obtain ⟨n, hn⟩ := encodeFields_proper fields es' hes'
      refine ⟨max m n, ?_⟩
      rw [← Option.some.inj hes, List.forall_mem_cons]
      exact ⟨hm.mono (Nat.le_max_left m n), fun e he => (hn e he).mono (Nat.le_max_right m n)⟩
    · simp at hes

theorem encodeEntries_proper : ∀ (entries : List (Bytes × GoValue)) (es : List (Bytes × JsonDoc)),
    encodeEntries entries = some es → ∃ depth, ∀ e ∈ es, Proper depth e.2
  | [], es, hes => by
    rw [encodeEntries, Option.some.injEq] at hes
    exact ⟨0, by simp [← hes]⟩
  | (key, v) :: entries, es, hes => by
    rw [encodeEntries] at hes
    split at hes
    · exact encodeEntries_proper entries es hes
    · split at hes
      · next d es' hd hes' =>
        obtain ⟨m, hm⟩ := encode_proper v d hd
        obtain ⟨n, hn⟩ := encodeEntries_proper entries es' hes'
        refine ⟨max m n, fun e he => ?_⟩
        rw [← Option.some.inj hes] at he
        rcases mem_insertEntry.mp he with rfl | he
        · exact hm.mono (Nat.le_max_left m n)
        · exact (hn e he).mono (Nat.le_max_right m n)
      · simp at hes

end

end JsonText
