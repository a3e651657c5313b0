import Mathlib.Data.List.Induction
import Mathlib.Data.List.Perm.Subperm
import Owasaka.Discovery.Asset
import Owasaka.Foundation.KeyedValues

/-! # Drift between two snapshots (`discovery/reconciliation/diff.go`)

    `Diff` indexes two lists of assets by ID and compares them: an ID that only one of
    them has was added or removed, and an ID that both have was modified if its assets
    differ in some field.  It goes over the maps in the order of their iteration, which
    is any order.

    The ports are compared without regard to their order: the lists have the same length
    and every port of the current one is among the previous ones.  That is not equality
    of multisets where a port is repeated, and it is not symmetric either.

    The main result: `Diff` is exact and symmetric if and only if no asset has ports that
    this comparison mistakes for the same. -/

namespace Owasaka.Discovery

/-! ## Section 1: Changes -/

/-- `ChangeType` is a Go string; these are its constants. -/
inductive ChangeType where
  | added
  | removed
  | modified
  deriving DecidableEq

/-- The values of the fields of a change. -/
inductive FieldValue where
  /-- The text of a new asset. -/
  | text (s : String)
  /-- A text before and after. -/
  | texts (old new : String)
  /-- The ports before and after. -/
  | ports (old new : List Int)
  deriving DecidableEq

/-- The `map[string]any` of a change; a nil map is empty. -/
abbrev Fields : Type := Std.ExtTreeMap String FieldValue

structure Change where
  type : ChangeType
  assetID : String
  fields : Fields

/-! ## Section 2: `Diff` -/

def indexAssets (assets : List Asset) : Std.ExtTreeMap String Asset :=
  assets.foldl (fun m a => m.insert a.id a) ∅

def portsEqual (a b : List Int) : Bool :=
  if a.length ≠ b.length then false
  else
    let set : Std.ExtTreeMap Int Unit := a.foldl (fun set p => set.insert p ()) ∅
    b.all fun p => set[p]?.isSome

/-- The field is entered if the text has changed. -/
def enterText (name old new : String) (fields : Fields) : Fields :=
  if old ≠ new then fields.insert name (.texts old new) else fields

def diffAsset (prev curr : Asset) : Fields :=
  let fields : Fields := ∅
  let fields := enterText "ip" prev.ip curr.ip fields
  let fields := enterText "mac" prev.mac curr.mac fields
  let fields := enterText "hostname" prev.hostname curr.hostname fields
  let fields := enterText "os" prev.os curr.os fields
  if !portsEqual prev.ports curr.ports then fields.insert "ports" (.ports prev.ports curr.ports)
  else fields

/-- The change of an asset that was not there before. -/
def addition (id : String) (ca : Asset) : Change where
  type := .added
  assetID := id
  fields := ((Std.ExtTreeMap.insert ∅ "ip" (.text ca.ip)).insert "hostname" (.text ca.hostname)).insert
    "os" (.text ca.os)

/-- The first loop: additions and modifications. -/
def currentChange (prevMap : Std.ExtTreeMap String Asset) (entry : String × Asset) : Option Change :=
  match prevMap[entry.1]? with
  | none => some (addition entry.1 entry.2)
  | some pa =>
    let fields := diffAsset pa entry.2
    if fields.size > 0 then some ⟨.modified, entry.1, fields⟩ else none

/-- The second loop: removals. -/
def previousChange (currMap : Std.ExtTreeMap String Asset) (entry : String × Asset) : Option Change :=
  match currMap[entry.1]? with
  | none => some ⟨.removed, entry.1, ∅⟩
  | some _ => none

/-- `Diff`, with the orders in which its loops visit the current and the previous map. -/
def diff (current previous : Visit (String × Asset)) (prev curr : List Asset) : List Change :=
  let prevMap := indexAssets prev
  let currMap := indexAssets curr
  (current.list currMap.toList).filterMap (currentChange prevMap)
    ++ (previous.list prevMap.toList).filterMap (previousChange currMap)

/-! ## Section 3: Exact and symmetric drift -/

/-- The field with this name differs; ports differ as multisets. -/
def Differs (p c : Asset) (name : String) : Prop :=
  (name = "ip" ∧ p.ip ≠ c.ip) ∨ (name = "mac" ∧ p.mac ≠ c.mac)
    ∨ (name = "hostname" ∧ p.hostname ≠ c.hostname) ∨ (name = "os" ∧ p.os ≠ c.os)
    ∨ (name = "ports" ∧ ¬ p.ports.Perm c.ports)

def HasID (assets : List Asset) (id : String) : Prop := ∃ a ∈ assets, a.id = id

def UniqueIDs (assets : List Asset) : Prop := (assets.map (·.id)).Nodup

/-- The changes report the ID as of this type. -/
def Reports (changes : List Change) (type : ChangeType) (id : String) : Prop :=
  ∃ ch ∈ changes, ch.type = type ∧ ch.assetID = id

structure ExactDrift (prev curr : List Asset) (changes : List Change) : Prop where
  added : ∀ id, Reports changes .added id ↔ HasID curr id ∧ ¬ HasID prev id
  removed : ∀ id, Reports changes .removed id ↔ HasID prev id ∧ ¬ HasID curr id
  modified : ∀ id, Reports changes .modified id ↔
    ∃ p ∈ prev, ∃ c ∈ curr, p.id = id ∧ c.id = id ∧ ∃ name, Differs p c name
  /-- A modification names exactly the fields that differ. -/
  fields : ∀ ch ∈ changes, ch.type = .modified → ∀ p ∈ prev, ∀ c ∈ curr, p.id = ch.assetID →
    c.id = ch.assetID → ∀ name, name ∈ ch.fields ↔ Differs p c name
  once : (changes.map (·.assetID)).Nodup

def ChangeType.swap : ChangeType → ChangeType
  | .added => .removed
  | .removed => .added
  | .modified => .modified

/-- The same IDs, with added and removed exchanged. -/
def Mirrored (changes changes' : List Change) : Prop :=
  ∀ type id, Reports changes type id ↔ Reports changes' type.swap id

/-- Exact, and mirrored by the run the other way, whatever the orders of iteration. -/
def DriftExact (prev curr : List Asset) : Prop :=
  ∀ current previous current' previous',
    ExactDrift prev curr (diff current previous prev curr)
      ∧ Mirrored (diff current previous prev curr) (diff current' previous' curr prev)

/-- Ports that are no permutation of the others, but as many, and all among them. -/
def Masked (a b : List Int) : Prop := a.length = b.length ∧ b ⊆ a ∧ ¬ a.Perm b

/-- The assets agree in everything but the ports. -/
def SameTexts (p c : Asset) : Prop :=
  p.ip = c.ip ∧ p.mac = c.mac ∧ p.hostname = c.hostname ∧ p.os = c.os

/-- No asset has ports that are masked by the previous ones, nor, where nothing else has
    changed, previous ports that are masked by the current ones. -/
def Unmasked (prev curr : List Asset) : Prop :=
  ∀ p ∈ prev, ∀ c ∈ curr, p.id = c.id →
    ¬ Masked p.ports c.ports ∧ (SameTexts p c → ¬ Masked c.ports p.ports)

/-! ## Section 4: Ports and fields -/

variable {a b : List Int} {p c : Asset} {prev curr assets : List Asset} {id name : String}

theorem isSome_portSet (a : List Int) (q : Int) :
    ((a.foldl (fun set p => set.insert p ()) (∅ : Std.ExtTreeMap Int Unit))[q]?).isSome ↔ q ∈ a := by
  induction a using List.reverseRecOn with
  | nil => simp
  | append_singleton a p ih =>
    rw [List.foldl_append, List.foldl_cons, List.foldl_nil, getElem?_insert_ite, List.mem_append,
      List.mem_singleton]
    split
    · rename_i heq
      simp [heq]
    · rename_i hne
      rw [ih]
      exact ⟨Or.inl, fun h => h.resolve_right hne⟩

theorem portsEqual_iff : portsEqual a b = true ↔ a.length = b.length ∧ b ⊆ a := by
  unfold portsEqual
  by_cases hlength : a.length = b.length
  · rw [if_neg (not_not_intro hlength)]
    simp only [List.all_eq_true, isSome_portSet]
    exact ⟨fun hall => ⟨hlength, hall⟩, And.right⟩
  · rw [if_pos hlength]
    exact ⟨fun h => absurd h Bool.false_ne_true, fun h => absurd h.1 hlength⟩

theorem portsEqual_of_perm (hperm : a.Perm b) : portsEqual a b = true :=
  portsEqual_iff.mpr ⟨hperm.length_eq, hperm.symm.subset⟩

/-- The comparison is equality of multisets exactly where nothing is masked. -/
theorem portsEqual_exact_iff : (portsEqual a b = true ↔ a.Perm b) ↔ ¬ Masked a b := by
  constructor
  · intro hexact hmasked
    exact hmasked.2.2 (hexact.mp (portsEqual_iff.mpr ⟨hmasked.1, hmasked.2.1⟩))
  · intro hmasked
    refine ⟨?_, portsEqual_of_perm⟩
    intro hequal
    obtain ⟨hlength, hsub⟩ := portsEqual_iff.mp hequal
    exact Decidable.byContradiction fun hperm => hmasked ⟨hlength, hsub, hperm⟩

/-- Distinct ports mask nothing. -/
theorem not_masked_of_nodup (hnodup : b.Nodup) : ¬ Masked a b := by
  intro hmasked
  obtain ⟨hlength, hsub, hperm⟩ := hmasked
  have hsubperm := List.subperm_of_subset hnodup hsub
  exact hperm (hsubperm.perm_of_length_le (Nat.le_of_eq hlength)).symm

/-- Nothing is masked where no port is repeated. -/
theorem unmasked_of_nodup (hprev : ∀ p ∈ prev, p.ports.Nodup) (hcurr : ∀ c ∈ curr, c.ports.Nodup) :
    Unmasked prev curr := by
  intro p hp c hc _
  exact ⟨not_masked_of_nodup (hcurr c hc), fun _ => not_masked_of_nodup (hprev p hp)⟩

theorem SameTexts.symm (hsame : SameTexts p c) : SameTexts c p :=
  ⟨hsame.1.symm, hsame.2.1.symm, hsame.2.2.1.symm, hsame.2.2.2.symm⟩

theorem mem_enterText {old new key : String} {fields : Fields} :
    name ∈ enterText key old new fields ↔ name ∈ fields ∨ (name = key ∧ old ≠ new) := by
  unfold enterText
  split
  · rename_i hne
    rw [Std.ExtTreeMap.mem_insert, Std.LawfulEqCmp.compare_eq_iff_eq, eq_comm (a := key), or_comm,
      and_iff_left hne]
  · rename_i hsame
    exact ⟨Or.inl, fun h => h.resolve_right fun heq => hsame heq.2⟩

theorem mem_diffAsset : name ∈ diffAsset p c ↔
    (name = "ip" ∧ p.ip ≠ c.ip) ∨ (name = "mac" ∧ p.mac ≠ c.mac)
      ∨ (name = "hostname" ∧ p.hostname ≠ c.hostname) ∨ (name = "os" ∧ p.os ≠ c.os)
      ∨ (name = "ports" ∧ ¬ portsEqual p.ports c.ports = true) := by
  unfold diffAsset
  cases hports : portsEqual p.ports c.ports with
  | true =>
    simp only [Bool.not_true, Bool.false_eq_true, if_false, mem_enterText,
      Std.ExtTreeMap.not_mem_empty, false_or, or_assoc, not_true, and_false, or_false]
  | false =>
    rw [Bool.not_false, if_pos rfl, Std.ExtTreeMap.mem_insert, Std.LawfulEqCmp.compare_eq_iff_eq,
      eq_comm (a := "ports"), or_comm]
    simp only [mem_enterText, Std.ExtTreeMap.not_mem_empty, false_or, or_assoc, Bool.false_eq_true,
      not_false_eq_true, and_true]

/-- Where the ports are compared exactly, the entered fields are those that differ. -/
theorem mem_diffAsset_of_exact (hports : portsEqual p.ports c.ports = true ↔ p.ports.Perm c.ports) :
    name ∈ diffAsset p c ↔ Differs p c name := by
  rw [mem_diffAsset, hports, Differs]

/-- Some field is entered unless everything compares equal. -/
theorem exists_mem_diffAsset_iff :
    (∃ name, name ∈ diffAsset p c) ↔ ¬ (SameTexts p c ∧ portsEqual p.ports c.ports = true) := by
  constructor
  · intro hentered hsame
    obtain ⟨name, hname⟩ := hentered
    obtain ⟨⟨hip, hmac, hhostname, hos⟩, hports⟩ := hsame
    rw [mem_diffAsset] at hname
    rcases hname with h | h | h | h | h
    · exact h.2 hip
    · exact h.2 hmac
    · exact h.2 hhostname
    · exact h.2 hos
    · exact h.2 hports
  · intro hdiffer
    by_contra hnone
    simp only [mem_diffAsset, not_exists, not_or, not_and, ne_eq, Decidable.not_not] at hnone
    refine hdiffer ⟨⟨?_, ?_, ?_, ?_⟩, ?_⟩
    · exact (hnone "ip").1 rfl
    · exact (hnone "mac").2.1 rfl
    · exact (hnone "hostname").2.2.1 rfl
    · exact (hnone "os").2.2.2.1 rfl
    · exact (hnone "ports").2.2.2.2 rfl

theorem size_pos_iff {fields : Fields} : fields.size > 0 ↔ ∃ name, name ∈ fields := by
  rw [gt_iff_lt, Nat.pos_iff_ne_zero, ne_eq, ← Std.ExtTreeMap.eq_empty_iff_size_eq_zero,
    Std.ExtTreeMap.eq_empty_iff_forall_not_mem, not_forall]
  simp only [Decidable.not_not]

/-! ## Section 5: Assets by ID -/

theorem getElem?_indexAssets (hunique : UniqueIDs assets) (id : String) (a : Asset) :
    (indexAssets assets)[id]? = some a ↔ a ∈ assets ∧ a.id = id := by
  unfold indexAssets
  induction assets using List.reverseRecOn with
  | nil => simp
  | append_singleton init last ih =>
    unfold UniqueIDs at hunique
    rw [List.map_append, List.nodup_append] at hunique
    obtain ⟨hinit, _, hlast⟩ := hunique
    rw [List.foldl_append, List.foldl_cons, List.foldl_nil, getElem?_insert_ite, List.mem_append,
      List.mem_singleton]
    split
    · rename_i heq
      constructor
      · intro hsome
        cases hsome
        exact ⟨Or.inr rfl, heq.symm⟩
      · intro ⟨hmem, hid⟩
        rcases hmem with hmem | rfl
        · have hne := hlast a.id (List.mem_map_of_mem hmem) last.id (by simp)
          exact absurd (hid.trans heq) hne
        · rfl
    · rename_i hne
      rw [ih hinit]
      constructor
      · intro h
        exact ⟨Or.inl h.1, h.2⟩
      · intro ⟨hmem, hid⟩
        rcases hmem with hmem | rfl
        · exact ⟨hmem, hid⟩
        · exact absurd hid.symm hne

theorem indexAssets_eq_none_iff (hunique : UniqueIDs assets) (id : String) :
    (indexAssets assets)[id]? = none ↔ ¬ HasID assets id := by
  rw [Option.eq_none_iff_forall_ne_some]
  simp only [ne_eq, getElem?_indexAssets hunique, HasID, not_exists]

theorem mem_entries (hunique : UniqueIDs assets) (visit : Visit (String × Asset)) (id : String)
    (a : Asset) :
    (id, a) ∈ visit.list (indexAssets assets).toList ↔ a ∈ assets ∧ a.id = id := by
  rw [(visit.perm _).mem_iff, Std.ExtTreeMap.mem_toList_iff_getElem?_eq_some,
    getElem?_indexAssets hunique]

theorem UniqueIDs.eq_of_id (hunique : UniqueIDs assets) {a a' : Asset} (ha : a ∈ assets)
    (ha' : a' ∈ assets) (hid : a.id = a'.id) : a = a' :=
  List.inj_on_of_nodup_map hunique ha ha' hid

/-- With unique IDs, what some assets of an ID meet on both sides is what its assets meet. -/
theorem exists_common_congr (hprev : UniqueIDs prev) (hcurr : UniqueIDs curr)
    {R R' : Asset → Asset → Prop} :
    (∀ id, (∃ p ∈ prev, ∃ c ∈ curr, p.id = id ∧ c.id = id ∧ R p c)
        ↔ ∃ p ∈ prev, ∃ c ∈ curr, p.id = id ∧ c.id = id ∧ R' p c)
      ↔ ∀ p ∈ prev, ∀ c ∈ curr, p.id = c.id → (R p c ↔ R' p c) := by
  have hcommon : ∀ {R : Asset → Asset → Prop}, ∀ p ∈ prev, ∀ c ∈ curr, p.id = c.id →
      ((∃ p ∈ prev, ∃ c' ∈ curr, p.id = c.id ∧ c'.id = c.id ∧ R p c') ↔ R p c) := by
    intro R p hp c hc hid
    constructor
    · intro ⟨p', hp', c', hc', hpid, hcid, h⟩
      cases hcurr.eq_of_id hc' hc hcid
      cases hprev.eq_of_id hp' hp (hpid.trans hid.symm)
      exact h
    · intro h
      exact ⟨p, hp, c, hc, hid, rfl, h⟩
  constructor
  · intro hsame p hp c hc hid
    exact (hcommon p hp c hc hid).symm.trans ((hsame c.id).trans (hcommon p hp c hc hid))
  · intro hagree id
    constructor
    · intro ⟨p, hp, c, hc, hpid, hcid, h⟩
      exact ⟨p, hp, c, hc, hpid, hcid, (hagree p hp c hc (hpid.trans hcid.symm)).mp h⟩
    · intro ⟨p, hp, c, hc, hpid, hcid, h⟩
      exact ⟨p, hp, c, hc, hpid, hcid, (hagree p hp c hc (hpid.trans hcid.symm)).mpr h⟩

/-! ## Section 6: What is reported -/

variable {ch : Change} {current previous current' previous' : Visit (String × Asset)}

theorem currentChange_eq_some_iff (hprev : UniqueIDs prev) :
    currentChange (indexAssets prev) (id, c) = some ch ↔
      (¬ HasID prev id ∧ ch = addition id c)
        ∨ ∃ p ∈ prev, p.id = id ∧ (∃ name, name ∈ diffAsset p c)
          ∧ ch = ⟨.modified, id, diffAsset p c⟩ := by
  unfold currentChange
  cases hget : (indexAssets prev)[id]? with
  | none =>
    have hnew := (indexAssets_eq_none_iff hprev id).mp hget
    simp only [Option.some.injEq]
    constructor
    · intro heq
      exact Or.inl ⟨hnew, heq.symm⟩
    · intro h
      rcases h with ⟨_, heq⟩ | ⟨p, hp, hid, _⟩
      · exact heq.symm
      · exact absurd ⟨p, hp, hid⟩ hnew
  | some pa =>
    obtain ⟨hpa, hpaid⟩ := (getElem?_indexAssets hprev id pa).mp hget
    simp only [size_pos_iff, Option.ite_none_right_eq_some, Option.some.injEq]
    constructor
    · intro ⟨hentered, heq⟩
      exact Or.inr ⟨pa, hpa, hpaid, hentered, heq.symm⟩
    · intro h
      rcases h with ⟨hnew, _⟩ | ⟨p, hp, hid, hentered, heq⟩
      · exact absurd ⟨pa, hpa, hpaid⟩ hnew
      · cases hprev.eq_of_id hp hpa (hid.trans hpaid.symm)
        exact ⟨hentered, heq.symm⟩

theorem previousChange_eq_some_iff (hcurr : UniqueIDs curr) :
    previousChange (indexAssets curr) (id, p) = some ch
      ↔ ¬ HasID curr id ∧ ch = ⟨.removed, id, ∅⟩ := by
  rw [← indexAssets_eq_none_iff hcurr]
  unfold previousChange
  cases (indexAssets curr)[id]? with
  | none => simp [eq_comm]
  | some ca => simp

/-- Every change is an addition, a modification or a removal. -/
theorem mem_diff_iff (hprev : UniqueIDs prev) (hcurr : UniqueIDs curr) :
    ch ∈ diff current previous prev curr ↔
      (∃ c ∈ curr, ¬ HasID prev c.id ∧ ch = addition c.id c)
        ∨ (∃ p ∈ prev, ∃ c ∈ curr, p.id = c.id ∧ (∃ name, name ∈ diffAsset p c)
          ∧ ch = ⟨.modified, c.id, diffAsset p c⟩)
        ∨ ∃ p ∈ prev, ¬ HasID curr p.id ∧ ch = ⟨.removed, p.id, ∅⟩ := by
  unfold diff
  simp only [List.mem_append, List.mem_filterMap, Prod.exists, mem_entries hcurr, mem_entries hprev,
    currentChange_eq_some_iff hprev, previousChange_eq_some_iff hcurr]
  constructor
  · intro h
    rcases h with ⟨_, c, ⟨hc, rfl⟩, ⟨hnew, heq⟩ | ⟨p, hp, hid, hentered, heq⟩⟩
      | ⟨_, p, ⟨hp, rfl⟩, hgone, heq⟩
    · exact Or.inl ⟨c, hc, hnew, heq⟩
    · exact Or.inr (Or.inl ⟨p, hp, c, hc, hid, hentered, heq⟩)
    · exact Or.inr (Or.inr ⟨p, hp, hgone, heq⟩)
  · intro h
    rcases h with ⟨c, hc, hnew, heq⟩ | ⟨p, hp, c, hc, hid, hentered, heq⟩ | ⟨p, hp, hgone, heq⟩
    · exact Or.inl ⟨c.id, c, ⟨hc, rfl⟩, Or.inl ⟨hnew, heq⟩⟩
    · exact Or.inl ⟨c.id, c, ⟨hc, rfl⟩, Or.inr ⟨p, hp, hid, hentered, heq⟩⟩
    · exact Or.inr ⟨p.id, p, ⟨hp, rfl⟩, hgone, heq⟩

theorem reports_added_iff (hprev : UniqueIDs prev) (hcurr : UniqueIDs curr) :
    Reports (diff current previous prev curr) .added id ↔ HasID curr id ∧ ¬ HasID prev id := by
  unfold Reports
  simp only [mem_diff_iff hprev hcurr]
  constructor
  · intro ⟨ch, h, htype, hid⟩
    rcases h with ⟨c, hc, hnew, rfl⟩ | ⟨_, _, c, _, _, _, rfl⟩ | ⟨p, _, _, rfl⟩
    · subst hid
      exact ⟨⟨c, hc, rfl⟩, hnew⟩
    · contradiction
    · contradiction
  · intro ⟨⟨c, hc, hid⟩, hnew⟩
    subst hid
    exact ⟨_, Or.inl ⟨c, hc, hnew, rfl⟩, rfl, rfl⟩

theorem reports_removed_iff (hprev : UniqueIDs prev) (hcurr : UniqueIDs curr) :
    Reports (diff current previous prev curr) .removed id ↔ HasID prev id ∧ ¬ HasID curr id := by
  unfold Reports
  simp only [mem_diff_iff hprev hcurr]
  constructor
  · intro ⟨ch, h, htype, hid⟩
    rcases h with ⟨c, _, _, rfl⟩ | ⟨_, _, c, _, _, _, rfl⟩ | ⟨p, hp, hgone, rfl⟩
    · contradiction
    · contradiction
    · subst hid
      exact ⟨⟨p, hp, rfl⟩, hgone⟩
  · intro ⟨⟨p, hp, hid⟩, hgone⟩
    subst hid
    exact ⟨_, Or.inr (Or.inr ⟨p, hp, hgone, rfl⟩), rfl, rfl⟩

theorem reports_modified_iff (hprev : UniqueIDs prev) (hcurr : UniqueIDs curr) :
    Reports (diff current previous prev curr) .modified id ↔
      ∃ p ∈ prev, ∃ c ∈ curr, p.id = id ∧ c.id = id ∧ ∃ name, name ∈ diffAsset p c := by
  unfold Reports
  simp only [mem_diff_iff hprev hcurr]
  constructor
  · intro ⟨ch, h, htype, hid⟩
    rcases h with ⟨c, _, _, rfl⟩ | ⟨p, hp, c, hc, hsame, hentered, rfl⟩ | ⟨p, _, _, rfl⟩
    · contradiction
    · exact ⟨p, hp, c, hc, hsame.trans hid, hid, hentered⟩
    · contradiction
  · intro ⟨p, hp, c, hc, hpid, hcid, hentered⟩
    exact ⟨_, Or.inr (Or.inl ⟨p, hp, c, hc, hpid.trans hcid.symm, hentered, rfl⟩), rfl, hcid⟩

theorem fields_of_mem_diff (hprev : UniqueIDs prev) (hcurr : UniqueIDs curr)
    (hch : ch ∈ diff current previous prev curr) (htype : ch.type = .modified) (hp : p ∈ prev)
    (hc : c ∈ curr) (hpid : p.id = ch.assetID) (hcid : c.id = ch.assetID) :
    ch.fields = diffAsset p c := by
  rcases (mem_diff_iff hprev hcurr).mp hch with
    ⟨_, _, _, rfl⟩ | ⟨p', hp', c', hc', hid', _, rfl⟩ | ⟨_, _, _, rfl⟩
  · contradiction
  · cases hcurr.eq_of_id hc' hc hcid.symm
    cases hprev.eq_of_id hp' hp (hid'.trans hpid.symm)
    rfl
  · contradiction

/-- A loop that makes at most one change for an entry, of its ID, repeats no ID. -/
theorem nodup_assetID_filterMap {entries : List (String × Asset)}
    {f : String × Asset → Option Change} (hkeys : (entries.map Prod.fst).Nodup)
    (hid : ∀ entry ch, f entry = some ch → ch.assetID = entry.1) :
    ((entries.filterMap f).map (·.assetID)).Nodup := by
  unfold List.Nodup at hkeys ⊢
  rw [List.pairwise_map] at hkeys ⊢
  rw [List.pairwise_filterMap]
  apply hkeys.imp
  intro entry entry' hne ch hch ch' hch' heq
  exact hne ((hid entry ch hch).symm.trans (heq.trans (hid entry' ch' hch')))

theorem nodup_keys_visit (visit : Visit (String × Asset)) (m : Std.ExtTreeMap String Asset) :
    ((visit.list m.toList).map Prod.fst).Nodup := by
  rw [((visit.perm m.toList).map Prod.fst).nodup_iff, Std.ExtTreeMap.map_fst_toList_eq_keys]
  exact Std.ExtTreeMap.nodup_keys

theorem nodup_assetID_diff (hprev : UniqueIDs prev) (hcurr : UniqueIDs curr) :
    ((diff current previous prev curr).map (·.assetID)).Nodup := by
  have hcurrent : ∀ (entry : String × Asset) ch,
      currentChange (indexAssets prev) entry = some ch → ch.assetID = entry.1 := by
    intro entry ch hch
    rcases (currentChange_eq_some_iff hprev).mp hch with ⟨_, rfl⟩ | ⟨_, _, _, _, rfl⟩
    · rfl
    · rfl
  have hprevious : ∀ (entry : String × Asset) ch,
      previousChange (indexAssets curr) entry = some ch → ch.assetID = entry.1 := by
    intro entry ch hch
    obtain ⟨_, rfl⟩ := (previousChange_eq_some_iff hcurr).mp hch
    rfl
  unfold diff
  rw [List.map_append, List.nodup_append]
  refine ⟨nodup_assetID_filterMap (nodup_keys_visit _ _) hcurrent,
    nodup_assetID_filterMap (nodup_keys_visit _ _) hprevious, ?_⟩
  -- the first loop is about current IDs, the second one about others
  intro id hfirst id' hsecond heq
  obtain ⟨ch, hch, rfl⟩ := List.mem_map.mp hfirst
  obtain ⟨ch', hch', rfl⟩ := List.mem_map.mp hsecond
  obtain ⟨⟨id, c⟩, hentry, hfound⟩ := List.mem_filterMap.mp hch
  obtain ⟨⟨id', p⟩, _, hgone⟩ := List.mem_filterMap.mp hch'
  obtain ⟨hc, hid⟩ := (mem_entries hcurr current id c).mp hentry
  obtain ⟨habsent, _⟩ := (previousChange_eq_some_iff hcurr).mp hgone
  have hsame : id = id' := (hcurrent _ _ hfound).symm.trans (heq.trans (hprevious _ _ hgone))
  exact habsent ⟨c, hc, hid.trans hsame⟩

/-! ## Section 7: Exactly where nothing is masked -/

theorem exactDrift_iff (hprev : UniqueIDs prev) (hcurr : UniqueIDs curr) :
    ExactDrift prev curr (diff current previous prev curr)
      ↔ ∀ p ∈ prev, ∀ c ∈ curr, p.id = c.id → ¬ Masked p.ports c.ports := by
  constructor
  · intro hexact p hp c hc hid hmasked
    -- the ports differ, so a modification names them, but they compare equal
    have hdiffers : Differs p c "ports" := by simp [Differs, hmasked.2.2]
    obtain ⟨ch, hch, htype, hchid⟩ :=
      (hexact.modified c.id).mpr ⟨p, hp, c, hc, hid, rfl, "ports", hdiffers⟩
    have hpid : p.id = ch.assetID := hid.trans hchid.symm
    have hnamed := (hexact.fields ch hch htype p hp c hc hpid hchid.symm "ports").mpr hdiffers
    rw [fields_of_mem_diff hprev hcurr hch htype hp hc hpid hchid.symm, mem_diffAsset] at hnamed
    have hequal : portsEqual p.ports c.ports = true := portsEqual_iff.mpr ⟨hmasked.1, hmasked.2.1⟩
    simp [hequal] at hnamed
  · intro hunmasked
    have hfields : ∀ p ∈ prev, ∀ c ∈ curr, p.id = c.id → ∀ name,
        name ∈ diffAsset p c ↔ Differs p c name := by
      intro p hp c hc hid name
      exact mem_diffAsset_of_exact (portsEqual_exact_iff.mpr (hunmasked p hp c hc hid))
    constructor
    case added => exact fun id => reports_added_iff hprev hcurr
    case removed => exact fun id => reports_removed_iff hprev hcurr
    case modified =>
      intro id
      rw [reports_modified_iff hprev hcurr]
      revert id
      rw [exists_common_congr hprev hcurr]
      intro p hp c hc hid
      exact exists_congr (hfields p hp c hc hid)
    case fields =>
      intro ch hch htype p hp c hc hpid hcid name
      rw [fields_of_mem_diff hprev hcurr hch htype hp hc hpid hcid]
      exact hfields p hp c hc (hpid.trans hcid.symm) name
    case once => exact nodup_assetID_diff hprev hcurr

/-- The runs mirror each other if and only if they agree about what was modified. -/
theorem mirrored_iff (hprev : UniqueIDs prev) (hcurr : UniqueIDs curr) :
    Mirrored (diff current previous prev curr) (diff current' previous' curr prev)
      ↔ ∀ p ∈ prev, ∀ c ∈ curr, p.id = c.id →
        ((∃ name, name ∈ diffAsset p c) ↔ ∃ name, name ∈ diffAsset c p) := by
  rw [← exists_common_congr hprev hcurr]
  have hswapped : ∀ id, Reports (diff current' previous' curr prev) .modified id ↔
      ∃ p ∈ prev, ∃ c ∈ curr, p.id = id ∧ c.id = id ∧ ∃ name, name ∈ diffAsset c p := by
    intro id
    rw [reports_modified_iff hcurr hprev]
    constructor
    · intro ⟨c, hc, p, hp, hcid, hpid, hentered⟩
      exact ⟨p, hp, c, hc, hpid, hcid, hentered⟩
    · intro ⟨p, hp, c, hc, hpid, hcid, hentered⟩
      exact ⟨c, hc, p, hp, hcid, hpid, hentered⟩
  constructor
  · intro hmirrored id
    rw [← reports_modified_iff hprev hcurr, ← hswapped]
    exact hmirrored .modified id
  · intro hagree type id
    cases type with
    | added => rw [ChangeType.swap, reports_added_iff hprev hcurr, reports_removed_iff hcurr hprev]
    | removed => rw [ChangeType.swap, reports_removed_iff hprev hcurr, reports_added_iff hcurr hprev]
    | modified =>
      rw [ChangeType.swap, hswapped, reports_modified_iff hprev hcurr]
      exact hagree id

/-- **Drift is exact and symmetric** if and only if no ports are masked. -/
theorem drift_exact_iff (hprev : UniqueIDs prev) (hcurr : UniqueIDs curr) :
    DriftExact prev curr ↔ Unmasked prev curr := by
  constructor
  · intro hdrift p hp c hc hid
    obtain ⟨hexact, hmirrored⟩ := hdrift (.sorted _) (.sorted _) (.sorted _) (.sorted _)
    have hmasked := (exactDrift_iff hprev hcurr).mp hexact p hp c hc hid
    refine ⟨hmasked, ?_⟩
    intro hsame hback
    have hagree := (mirrored_iff hprev hcurr).mp hmirrored p hp c hc hid
    have hequal : portsEqual c.ports p.ports = true := portsEqual_iff.mpr ⟨hback.1, hback.2.1⟩
    rw [exists_mem_diffAsset_iff, exists_mem_diffAsset_iff, not_iff_not] at hagree
    have hperm := (portsEqual_exact_iff.mpr hmasked).mp (hagree.mpr ⟨hsame.symm, hequal⟩).2
    exact hback.2.2 hperm.symm
  · intro hunmasked current previous current' previous'
    refine ⟨(exactDrift_iff hprev hcurr).mpr fun p hp c hc hid => (hunmasked p hp c hc hid).1, ?_⟩
    rw [mirrored_iff hprev hcurr]
    intro p hp c hc hid
    obtain ⟨hmasked, hback⟩ := hunmasked p hp c hc hid
    rw [exists_mem_diffAsset_iff, exists_mem_diffAsset_iff, portsEqual_exact_iff.mpr hmasked,
      not_iff_not]
    constructor
    · intro ⟨hsame, hperm⟩
      exact ⟨hsame.symm, portsEqual_of_perm hperm.symm⟩
    · intro ⟨hsame, hequal⟩
      exact ⟨hsame.symm, ((portsEqual_exact_iff.mpr (hback hsame.symm)).mp hequal).symm⟩

/-! ## Section 8: Masked ports -/

/-- A host with these ports. -/
def host (ports : List Int) : Asset := ⟨"h", "10.0.0.5", "", "db", "linux", ports, 0⟩

/-- The ports in another order are no drift. -/
theorem drift_exact_reordered :
    UniqueIDs [host [80, 443, 80]] ∧ UniqueIDs [host [443, 80, 80]]
      ∧ DriftExact [host [80, 443, 80]] [host [443, 80, 80]] := by
  have hunique : ∀ ports, UniqueIDs [host ports] := fun ports => List.nodup_singleton _
  refine ⟨hunique _, hunique _, (drift_exact_iff (hunique _) (hunique _)).mpr ?_⟩
  intro p hp c hc _
  rw [List.mem_singleton] at hp hc
  subst hp hc
  exact ⟨fun h => h.2.2 (by decide), fun _ h => h.2.2 (by decide)⟩

/-- A port is closed behind one that is listed twice. -/
theorem closed_port_masked :
    UniqueIDs [host [80, 443]] ∧ UniqueIDs [host [80, 80]]
      ∧ (diff (.sorted _) (.sorted _) [host [80, 443]] [host [80, 80]]).map (·.assetID) = []
      ∧ (diff (.sorted _) (.sorted _) [host [80, 80]] [host [80, 443]]).map (·.assetID) = ["h"]
      ∧ ¬ DriftExact [host [80, 443]] [host [80, 80]] := by
  have hunique : ∀ ports, UniqueIDs [host ports] := fun ports => List.nodup_singleton _
  refine ⟨hunique _, hunique _, by decide +kernel, by decide +kernel, ?_⟩
  intro hdrift
  have hexact := (hdrift (.sorted _) (.sorted _) (.sorted _) (.sorted _)).1
  have hunmasked := (exactDrift_iff (hunique _) (hunique _)).mp hexact
  apply hunmasked _ (List.mem_singleton_self _) _ (List.mem_singleton_self _) rfl
  unfold Masked
  decide

end Owasaka.Discovery
