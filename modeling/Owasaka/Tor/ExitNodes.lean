import Mathlib.Data.Set.Basic
import Std.Data.ExtTreeSet
import Owasaka.Foundation.JsonCut
import Owasaka.Foundation.JsonStruct
import Owasaka.Foundation.KeyedValues

/-! # The list of Tor exit nodes (`network/tor/exitlist.go`, `network/tor/service.go`)

    The service keeps a set of addresses.  At its start it loads them from a file; where
    a URL is configured it fetches them from there and caches what it got in the file.
    The file is written in place.

    ## Abstract view

    There are two sets of addresses: those that are known, and those that the next start
    will know.  A fetch replaces the first, and the second when its save is complete; a
    save that is cut loses the second. -/

namespace Owasaka.Tor

open JsonText

/-! ## Section 1: The list -/

structure ExitNodeFile where
  ips : List Bytes

def fieldNames : List Bytes := [Bytes.ascii "ips"]

def ExitNodeFile.set (_ : Bytes) (d : JsonDoc) (f : ExitNodeFile) : Option ExitNodeFile :=
  (decodeStrings f.ips d).map fun ips => ⟨ips⟩

/-- `json.Unmarshal` of a text into a zero `exitNodeFile`; `none` is an error. -/
def unmarshalFile (data : Bytes) : Option ExitNodeFile :=
  (parse data).bind (decodeStruct fieldNames ExitNodeFile.set ⟨[]⟩)

def ExitNodeFile.document (f : ExitNodeFile) : JsonDoc :=
  .obj [(Bytes.ascii "ips", .arr (f.ips.map fun ip => .str (escape ip)))]

def ExitNodeFile.marshal (f : ExitNodeFile) : Bytes := render f.document

/-- The keys of the map of an `ExitNodeList`. -/
abbrev ExitNodeList : Type := Std.ExtTreeSet Bytes

def contains (l : ExitNodeList) (ip : Bytes) : Bool := if ip = [] then false else decide (ip ∈ l)

def replace (ips : List Bytes) : ExitNodeList :=
  ips.foldl (fun next ip => if ip ≠ [] then next.insert ip else next) ∅

/-- What `os.ReadFile` returns. -/
inductive ReadFile where
  | missing
  | failed
  | data (data : Bytes)

inductive LoadError where
  | read
  | parse

def loadFile (l : ExitNodeList) : ReadFile → Except LoadError ExitNodeList
  | .missing => .ok l
  | .failed => .error .read
  | .data data =>
    match unmarshalFile data with
    | none => .error .parse
    | some f => .ok (replace f.ips)

/-- What `os.WriteFile` does: it empties the file and then writes.  A write that is cut
    leaves the first bytes of the text, at most `n`, and not the last one. -/
inductive WriteFile where
  | notOpened
  | cut (n : Nat)
  | written

/-- `SaveFile`: the file afterwards.  The loop may go over the map in any order. -/
def saveFile (visit : Visit Bytes) (outcome : WriteFile) (l : ExitNodeList) (file : Option Bytes) :
    Option Bytes :=
  let data := ExitNodeFile.marshal ⟨visit.list l.toList⟩
  match outcome with
  | .notOpened => file
  | .cut n => some (data.take (min n (data.length - 1)))
  | .written => some data

/-- `Fetch`: `response` is the body of a response with status 200, if there is one. -/
def fetch (response : Option Bytes) : Option ExitNodeList :=
  match response with
  | none => none
  | some body => (unmarshalFile body).map fun f => replace f.ips

/-! ## Section 2: The service -/

/-- `config.TorConfig`, as far as the service reads it. -/
structure TorConfig where
  detectionEnabled : Bool
  exitNodeListPath : String
  exitNodeListURL : String

/-- The list of the running service, and the file at the configured path. -/
structure ExitNodes where
  list : ExitNodeList
  file : Option Bytes

/-- `NewExitNodeService` and `Start`; the file can be read or not. -/
def start (cfg : TorConfig) (readable : Bool) (s : ExitNodes) : ExitNodes :=
  if !cfg.detectionEnabled ∨ cfg.exitNodeListPath = "" then { s with list := ∅ }
  else
    let found := if readable then (match s.file with
      | none => ReadFile.missing
      | some data => .data data) else .failed
    match loadFile ∅ found with
    | .error _ => { s with list := ∅ }
    | .ok list => { s with list := list }

/-- `refresh`, which `Start` only arranges for with a URL. -/
def refresh (cfg : TorConfig) (response : Option Bytes) (visit : Visit Bytes) (outcome : WriteFile)
    (s : ExitNodes) : ExitNodes :=
  if !cfg.detectionEnabled ∨ cfg.exitNodeListURL = "" then s
  else
    match fetch response with
    | none => s
    | some list =>
      if cfg.exitNodeListPath = "" then { s with list := list }
      else { list := list, file := saveFile visit outcome list s.file }

/-- What happens: the program starts, a refresh is due, or the operators change the file. -/
inductive Event where
  | start (readable : Bool)
  | refresh (response : Option Bytes) (visit : Visit Bytes) (outcome : WriteFile)
  | replaced (file : Option Bytes)

def ExitNodes.step (cfg : TorConfig) (s : ExitNodes) : Event → ExitNodes
  | .start readable => Tor.start cfg readable s
  | .refresh response visit outcome => Tor.refresh cfg response visit outcome s
  | .replaced file => { s with file := file }

/-! ## Section 3: The two sets -/

/-- The addresses of a file. -/
def ExitNodeFile.names (f : ExitNodeFile) : Set Bytes := {ip | ip ∈ f.ips ∧ ip ≠ []}

/-- The addresses of a text; a text that cannot be read has none. -/
def namesOf (data : Option Bytes) : Set Bytes :=
  match data.bind unmarshalFile with
  | none => ∅
  | some f => f.names

structure Known where
  /-- The addresses that are known. -/
  now : Set Bytes
  /-- The addresses that the next start will know, if it can read them. -/
  next : Set Bytes

/-- What a save makes of the addresses of the next start. -/
def Known.save (outcome : WriteFile) (names next : Set Bytes) : Set Bytes :=
  match outcome with
  | .notOpened => next
  | .cut _ => ∅
  | .written => names

def Known.step (cfg : TorConfig) (k : Known) : Event → Known
  | .start readable =>
    { k with
      now := if cfg.detectionEnabled ∧ cfg.exitNodeListPath ≠ "" ∧ readable then k.next else ∅ }
  | .refresh response _ outcome =>
    if cfg.detectionEnabled ∧ cfg.exitNodeListURL ≠ "" then
      match response.bind unmarshalFile with
      | none => k
      | some f =>
        { now := f.names
          next := if cfg.exitNodeListPath ≠ "" then Known.save outcome f.names k.next else k.next }
    else k
  | .replaced file => { k with next := namesOf file }

/-- The service knows the addresses, and the file names those of the next start. -/
structure Refines (s : ExitNodes) (k : Known) : Prop where
  now : ∀ ip, contains s.list ip = true ↔ ip ∈ k.now
  next : namesOf s.file = k.next

/-! ## Section 4: Files are read back -/

variable {l : ExitNodeList} {f : ExitNodeFile} {data : Bytes}

theorem ips_lit : escape (Bytes.ascii "ips") = Bytes.ascii "ips"
    ∧ unquote (Bytes.ascii "ips") = some (Bytes.ascii "ips") := by
  decide +kernel

theorem proper_document (f : ExitNodeFile) : Proper maxDepth f.document := by
  have hitems : ∀ ips : List Bytes,
      ProperItems (maxDepth - 1 - 1) (ips.map fun ip => .str (escape ip)) := by
    intro ips
    induction ips with
    | nil => trivial
    | cons ip ips ih => exact ⟨proper_str (isLit_escape _), ih⟩
  have hname : IsLit (Bytes.ascii "ips") := by
    rw [← ips_lit.1]
    exact isLit_escape _
  unfold ExitNodeFile.document
  rw [Proper, properMembers_iff]
  refine ⟨by decide, ?_⟩
  intro m hm
  rw [List.mem_singleton.mp hm]
  refine ⟨hname, ?_⟩
  rw [Proper]
  exact ⟨by decide, hitems _⟩

theorem unmarshalFile_marshal (f : ExitNodeFile) :
    unmarshalFile f.marshal = some ⟨f.ips.map Utf8.sanitize⟩ := by
  have hmember : ∀ d (r : ExitNodeFile), decodeMember fieldNames ExitNodeFile.set r (Bytes.ascii "ips", d)
      = ExitNodeFile.set (Bytes.ascii "ips") d r :=
    fun d r => decodeMember_of_mem ips_lit.2 (List.mem_singleton_self _)
  unfold unmarshalFile ExitNodeFile.marshal
  rw [parse_render (proper_document f), Option.bind_some, ExitNodeFile.document, decodeStruct,
    List.foldlM_cons, hmember, ExitNodeFile.set, decodeStrings_escape]
  rfl

/-- A text that was cut is not read. -/
theorem unmarshalFile_cut (f : ExitNodeFile) (n : Nat) :
    unmarshalFile (f.marshal.take (min n (f.marshal.length - 1))) = none := by
  have hlen : 0 < f.marshal.length := by
    rw [List.length_pos_iff]
    intro hnil
    obtain ⟨b, t, heq, _⟩ := render_head (proper_document f)
    unfold ExitNodeFile.marshal at hnil
    rw [hnil] at heq
    contradiction
  have hcut : parse (f.marshal.take (min n (f.marshal.length - 1))) = none := by
    apply parse_take_obj (proper_document f)
    show min n (f.marshal.length - 1) < f.marshal.length
    omega
  rw [unmarshalFile, hcut, Option.bind_none]

/-- The strings of a file that was read are valid. -/
theorem unmarshalFile_valid (hread : unmarshalFile data = some f) : ∀ ip ∈ f.ips, Utf8.Valid ip := by
  obtain ⟨d, _, hdecode⟩ := Option.bind_eq_some_iff.mp hread
  apply decodeStruct_invariant (P := fun f => ∀ ip ∈ f.ips, Utf8.Valid ip) _ _ hdecode
  · exact fun ip hip => absurd hip List.not_mem_nil
  · intro name d r r' hr hset
    obtain ⟨ips, hips, rfl⟩ := Option.map_eq_some_iff.mp hset
    exact decodeStrings_valid hr hips

/-! ## Section 5: Lists -/

theorem mem_replace (ips : List Bytes) (ip : Bytes) : ip ∈ replace ips ↔ ip ∈ ips ∧ ip ≠ [] := by
  have hfold : ∀ next : ExitNodeList,
      ip ∈ ips.foldl (fun next ip => if ip ≠ [] then next.insert ip else next) next
        ↔ ip ∈ next ∨ (ip ∈ ips ∧ ip ≠ []) := by
    induction ips with
    | nil => simp
    | cons ip' ips ih =>
      intro next
      rw [List.foldl_cons, ih, List.mem_cons]
      by_cases hempty : ip' = []
      · rw [if_neg (not_not_intro hempty), hempty]
        constructor
        · intro h
          exact h.imp_right fun h => ⟨Or.inr h.1, h.2⟩
        · intro h
          exact h.imp_right fun h => ⟨h.1.resolve_left h.2, h.2⟩
      · rw [if_pos hempty, Std.ExtTreeSet.mem_insert, Std.compare_eq_iff_eq]
        constructor
        · rintro ((rfl | hnext) | hrest)
          · exact Or.inr ⟨Or.inl rfl, hempty⟩
          · exact Or.inl hnext
          · exact Or.inr ⟨Or.inr hrest.1, hrest.2⟩
        · rintro (hnext | ⟨rfl | hrest, hne⟩)
          · exact Or.inl (Or.inr hnext)
          · exact Or.inl (Or.inl rfl)
          · exact Or.inr ⟨hrest, hne⟩
  rw [replace, hfold]
  simp

theorem contains_replace (ips : List Bytes) (ip : Bytes) :
    contains (replace ips) ip = true ↔ ip ∈ ips ∧ ip ≠ [] := by
  unfold contains
  split
  · next hempty => simp [hempty]
  · rw [decide_eq_true_eq, mem_replace]

theorem contains_empty (ip : Bytes) : contains ∅ ip = false := by
  unfold contains
  split
  · rfl
  · simp

/-- What is saved is read as the list, if the list holds valid strings. -/
theorem names_saved (hvalid : ∀ ip ∈ l, Utf8.Valid ip ∧ ip ≠ []) (visit : Visit Bytes) (ip : Bytes) :
    ip ∈ namesOf (some (ExitNodeFile.marshal ⟨visit.list l.toList⟩)) ↔ ip ∈ l := by
  have hmem : ∀ ip, ip ∈ visit.list l.toList ↔ ip ∈ l := by
    intro ip
    rw [(visit.perm _).mem_iff, Std.ExtTreeSet.mem_toList]
  have hsame : (visit.list l.toList).map Utf8.sanitize = visit.list l.toList := by
    rw [List.map_congr_left (g := id), List.map_id]
    intro ip hip
    exact Utf8.sanitize_of_valid (hvalid ip ((hmem ip).mp hip)).1
  rw [namesOf, Option.bind_some, unmarshalFile_marshal]
  simp only [ExitNodeFile.names, Set.mem_ofPred_eq, hsame, hmem]
  constructor
  · exact fun h => h.1
  · exact fun h => ⟨h, (hvalid ip h).2⟩

theorem names_saveFile (visit : Visit Bytes) (outcome : WriteFile)
    (hvalid : ∀ ip ∈ l, Utf8.Valid ip ∧ ip ≠ []) (file : Option Bytes) :
    namesOf (saveFile visit outcome l file) = Known.save outcome {ip | ip ∈ l} (namesOf file) := by
  cases outcome with
  | notOpened => rfl
  | cut n =>
    simp only [saveFile, Known.save, namesOf, Option.bind_some, unmarshalFile_cut]
  | written => exact Set.ext (names_saved hvalid visit)

/-! ## Section 6: The service refines the two sets -/

variable {cfg : TorConfig} {s : ExitNodes} {k : Known}

theorem fetch_eq (response : Option Bytes) :
    fetch response = (response.bind unmarshalFile).map fun f => replace f.ips := by
  cases response with
  | none => rfl
  | some body => rfl

theorem start_list (cfg : TorConfig) (readable : Bool) (s : ExitNodes) (ip : Bytes) :
    contains (start cfg readable s).list ip = true ↔
      (cfg.detectionEnabled = true ∧ cfg.exitNodeListPath ≠ "" ∧ readable = true)
        ∧ ip ∈ namesOf s.file := by
  unfold start
  cases henabled : cfg.detectionEnabled with
  | false => simp [contains_empty]
  | true =>
    by_cases hpath : cfg.exitNodeListPath = ""
    · simp [hpath, contains_empty]
    · cases readable with
      | false => simp [hpath, loadFile, contains_empty]
      | true =>
        cases hfile : s.file with
        | none => simp [hpath, loadFile, contains_empty, namesOf]
        | some data =>
          cases hread : unmarshalFile data with
          | none => simp [hpath, loadFile, contains_empty, namesOf, hread]
          | some f =>
            simp [hpath, loadFile, namesOf, hread, contains_replace, ExitNodeFile.names]

theorem start_file (cfg : TorConfig) (readable : Bool) (s : ExitNodes) :
    (start cfg readable s).file = s.file := by
  unfold start
  split
  · rfl
  · simp only
    split
    · rfl
    · rfl

/-- **Step lemma**. -/
theorem Refines.step (hrefines : Refines s k) (e : Event) : Refines (s.step cfg e) (k.step cfg e) := by
  cases e with
  | start readable =>
    constructor
    case now =>
      intro ip
      simp only [ExitNodes.step, Known.step]
      rw [start_list, hrefines.next]
      split
      · next h => simp [h]
      · next h => simp [h]
    case next =>
      simp only [ExitNodes.step, Known.step, start_file]
      exact hrefines.next
  | replaced file => exact ⟨hrefines.now, rfl⟩
  | refresh response visit outcome =>
    simp only [ExitNodes.step, Known.step, refresh, fetch_eq]
    by_cases hdue : cfg.detectionEnabled = true ∧ cfg.exitNodeListURL ≠ ""
    · rw [if_neg (by simp [hdue]), if_pos hdue]
      cases hread : response.bind unmarshalFile with
      | none => exact hrefines
      | some f =>
        have hvalid : ∀ ip ∈ replace f.ips, Utf8.Valid ip ∧ ip ≠ [] := by
          intro ip hip
          obtain ⟨body, _, hbody⟩ := Option.bind_eq_some_iff.mp hread
          rw [mem_replace] at hip
          exact ⟨unmarshalFile_valid hbody ip hip.1, hip.2⟩
        have hnames : ({ip | ip ∈ replace f.ips} : Set Bytes) = f.names := Set.ext (mem_replace f.ips)
        simp only [Option.map_some]
        by_cases hpath : cfg.exitNodeListPath = ""
        · rw [if_pos hpath, if_neg (not_not_intro hpath)]
          exact ⟨contains_replace f.ips, hrefines.next⟩
        · rw [if_neg hpath, if_pos hpath]
          refine ⟨contains_replace f.ips, ?_⟩
          show namesOf (saveFile visit outcome (replace f.ips) s.file) = _
          rw [names_saveFile visit outcome hvalid, hnames, hrefines.next]
    · have hnot : (!cfg.detectionEnabled) = true ∨ cfg.exitNodeListURL = "" := by
        rw [not_and_or] at hdue
        simpa using hdue
      rw [if_pos hnot, if_neg hdue]
      exact hrefines

/-- **The exit nodes**: over every run of starts, refreshes and changes of the file, the
    service knows what the two sets say. -/
theorem exitNodes_refine (cfg : TorConfig) (file : Option Bytes) (events : List Event) :
    Refines (events.foldl (ExitNodes.step cfg) ⟨∅, file⟩)
      (events.foldl (Known.step cfg) ⟨∅, namesOf file⟩) := by
  have hstart : Refines ⟨∅, file⟩ ⟨∅, namesOf file⟩ := by
    refine ⟨?_, rfl⟩
    intro ip
    simp [contains_empty]
  exact List.foldl_rel (r := Refines) hstart fun e _ s k hrefines => hrefines.step e

end Owasaka.Tor
