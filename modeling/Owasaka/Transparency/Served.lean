import Owasaka.Foundation.RequestText
import Owasaka.Transparency.HeadHistory

/-! # The served proofs (`transparency/http.go`)

    The handlers read sizes and indices from the query of a request and write
    hashes in hexadecimal.  An auditor holds heads that were issued in a run; it
    decodes what is served to it and runs the verifiers.

    A handler is run on the tree and the database of a state between two steps. -/

namespace Owasaka.Transparency

open Bolt HashTree Pki

/-! ## Section 1: Handlers -/

/-- The parameters of a request, as `url.ParseQuery` splits them. -/
abbrev Query : Type := List (Bytes × Bytes)

/-- What a handler writes: the text of an error, or a body with status 200. -/
inductive Reply (Body : Type) where
  | error (status : Nat) (text : String)
  | ok (body : Body)
  deriving DecidableEq

def parseUintParam (query : Query) (name : String) : Except String Nat :=
  let raw := firstValue query (Bytes.ascii name)
  if raw = [] then .error ("parameter " ++ name ++ ": " ++ "missing")
  else
    match parseUint64 raw with
    | none => .error ("parameter " ++ name ++ ": " ++ "must be a non-negative integer")
    | some v => .ok v

structure STHResponse where
  treeSize : UInt64
  rootHash : Bytes
  /-- `UnixNano`, an `int64`. -/
  timestamp : Int
  signature : Bytes
  signerKeyID : String

structure ProofResponse where
  treeSize : Nat
  leafIndex : Option Nat
  firstSize : Option Nat
  secondSize : Option Nat
  auditPath : List Bytes

structure LeafResponse where
  index : Nat
  kind : LeafKind
  timestamp : Int
  payload : Bytes
  leafHash : Bytes

/-- A nil proof is written as an empty list. -/
def hexProof (p : Option Proof) : List Bytes := (p.getD []).map Hex.encode

def sthHandler (heads : STHJson) (db : Db) : Option (Reply STHResponse) :=
  (latestSTH heads db).map fun
    | .error e => .error 500 ("sth read: " ++ e)
    | .ok none => .error 503 "no STH yet — log is empty"
    | .ok (some sth) =>
      .ok ⟨sth.treeSize, Hex.encode sth.rootHash, Int.bmod sth.timestamp (2 ^ 64),
        Hex.encode sth.signature, sth.signerKeyID⟩

def inclusionHandler (t : Tree) (query : Query) : Reply ProofResponse :=
  match parseUintParam query "leaf_index" with
  | .error e => .error 400 e
  | .ok leafIdx =>
    match parseUintParam query "tree_size" with
    | .error e => .error 400 e
    | .ok treeSize =>
      match t.inclusionProof leafIdx treeSize with
      | .ok proof => .ok ⟨treeSize, some leafIdx, none, none, hexProof proof⟩
      | .error e =>
        if e = .leafIndexOutOfRange ∨ e = .treeSizeMismatch then .error 404 e.message
        else .error 500 e.message

def consistencyHandler (t : Tree) (query : Query) : Reply ProofResponse :=
  match parseUintParam query "first" with
  | .error e => .error 400 e
  | .ok first =>
    match parseUintParam query "second" with
    | .error e => .error 400 e
    | .ok second =>
      match t.consistencyProof first second with
      | .ok proof => .ok ⟨second, none, some first, some second, hexProof proof⟩
      | .error e =>
        if e = .consistencyRange ∨ e = .treeSizeMismatch then .error 404 e.message
        else .error 500 e.message

def leafHandler (json : LeafJson) (t : Tree) (db : Db) (query : Query) :
    Option (Reply LeafResponse) :=
  match parseUintParam query "index" with
  | .error e => some (.error 400 e)
  | .ok idx =>
    (t.leafAt json db idx).map fun
      | .error e =>
        if e = .leafIndexOutOfRange then .error 404 e.message else .error 500 e.message
      | .ok leaf =>
        .ok ⟨idx, leaf.kind, Int.bmod leaf.timestamp (2 ^ 64), Hex.encode leaf.payload,
          Hex.encode (hashLeaf leaf.payload).toList⟩

/-! ## Section 2: The auditor -/

/-- The hashes of a served proof. -/
def decodeProof (auditPath : List Bytes) : Option Proof := auditPath.mapM Hex.decode

theorem decodeProof_hexProof (p : Option Proof) : decodeProof (hexProof p) = some (p.getD []) := by
  unfold decodeProof hexProof
  induction p.getD [] with
  | nil => rfl
  | cons raw rest ih =>
    rw [List.map_cons, List.mapM_cons, Hex.decode_encode, ih]
    rfl

/-- A parameter that is written in decimal is read. -/
theorem parseUintParam_decimal {query : Query} {name : String} {n : Nat} (hn : n < 2 ^ 64)
    (hvalue : firstValue query (Bytes.ascii name) = Bytes.decimal n) :
    parseUintParam query name = .ok n := by
  unfold parseUintParam
  simp only [hvalue, if_neg (Bytes.decimal_ne_nil n), parseUint64_decimal hn]

namespace Tree

variable {t : Tree} {m n : Nat}

/-- The tree has a proof between two sizes exactly when they are in range, and it
    leads from root to root. -/
theorem consistencyProof_cases (t : Tree) (m n : Nat) :
    (¬ (1 ≤ m ∧ m ≤ n ∧ n ≤ t.size) ∧ t.consistencyProof m n = .error .consistencyRange)
    ∨ ((1 ≤ m ∧ m ≤ n ∧ n ≤ t.size) ∧ ∃ p, t.consistencyProof m n = .ok (some p)
      ∧ verifyConsistency m n (merkleTreeHash (t.hashes.take m)) p
        = (merkleTreeHash (t.hashes.take n), true)) := by
  unfold consistencyProof size
  by_cases hrange : n > t.hashes.length ∨ m > n ∨ m = 0
  · exact Or.inl ⟨by omega, by rw [if_pos hrange]⟩
  · have hlen : (t.hashes.take n).length = n := by
      rw [List.length_take]
      omega
    refine Or.inr ⟨by omega, ?_⟩
    rw [if_neg hrange, Transparency.consistencyProof, if_neg (by omega)]
    -- equal sizes have the empty proof
    rcases Nat.lt_or_eq_of_le (show m ≤ n by omega) with hlt | rfl
    · refine ⟨subProof m (t.hashes.take n) true, ?_, ?_⟩
      · rw [if_neg (by omega), List.take_take, Nat.min_self]
      · have hacc := verifyConsistency_subProof (t.hashes.take n) m (by omega) (by omega)
        rw [hlen, List.take_take, Nat.min_eq_left (by omega)] at hacc
        exact hacc
    · exact ⟨[], by rw [if_pos rfl], (verifyConsistency_self m (by omega) _ _ _).mpr ⟨rfl, rfl⟩⟩

/-- The tree has a proof for a leaf exactly when it lies below the size, and the
    proof leads from its hash to the root. -/
theorem inclusionProof_cases (t : Tree) (m n : Nat) :
    (¬ (m < n ∧ n ≤ t.size) ∧ (t.inclusionProof m n = .error .treeSizeMismatch
        ∨ t.inclusionProof m n = .error .leafIndexOutOfRange))
    ∨ ((m < n ∧ n ≤ t.size) ∧ ∃ p, t.inclusionProof m n = .ok (some p)
      ∧ ∀ a, t.hashes[m]? = some a →
        verifyInclusion a m n p = merkleTreeHash (t.hashes.take n)) := by
  unfold inclusionProof size
  by_cases hsize : n > t.hashes.length
  · exact Or.inl ⟨by omega, Or.inl (by rw [if_pos hsize])⟩
  · by_cases hindex : m ≥ n
    · exact Or.inl ⟨by omega, Or.inr (by rw [if_neg hsize, if_pos hindex])⟩
    · have hlen : (t.hashes.take n).length = n := by
        rw [List.length_take]
        omega
      refine Or.inr ⟨by omega, inclusionPath m (t.hashes.take n), ?_, ?_⟩
      · rw [if_neg hsize, if_neg hindex, Transparency.inclusionProof, if_neg (by omega)]
      · intro a ha
        have hne : t.hashes.take n ≠ [] := List.ne_nil_of_length_pos (by omega)
        have hget : (t.hashes.take n)[m]? = some a := by
          rw [List.getElem?_take_of_lt (by omega)]
          exact ha
        have hsteps : inclusionSteps m n (inclusionPath m (t.hashes.take n))
            = (sides m (t.hashes.take n).length).zip
                (siblings hashChildren emptyRoot m (t.hashes.take n)) := by
          rw [inclusionSteps, copyHash_inclusionPath, hlen]
        have hpath := auditPath_siblings hashChildren emptyRoot (t.hashes.take n) hne m a hget
        rw [(verifyInclusion_eq_climb a (by omega) _).1, hsteps, merkleTreeHash_eq_root]
        exact climb_auditPath hashChildren hpath

end Tree

/-! ## Section 3: What is served -/

/-- The query gives two numbers. -/
def Asks (query : Query) (name name' : String) (m n : Nat) : Prop :=
  parseUintParam query name = .ok m ∧ parseUintParam query name' = .ok n

/-- Two parameters give two numbers, or the first that does not is an error. -/
theorem asks_or_error (query : Query) (name name' : String) :
    (∃ m n, Asks query name name' m n)
    ∨ ((¬ ∃ m n, Asks query name name' m n) ∧ ∃ e, parseUintParam query name = .error e
      ∨ (∃ m, parseUintParam query name = .ok m) ∧ parseUintParam query name' = .error e) := by
  unfold Asks
  cases hfirst : parseUintParam query name with
  | error e => exact Or.inr ⟨by simp, e, Or.inl rfl⟩
  | ok m =>
    cases hsecond : parseUintParam query name' with
    | error e => exact Or.inr ⟨by simp, e, Or.inr ⟨⟨m, rfl⟩, rfl⟩⟩
    | ok n => exact Or.inl ⟨m, n, rfl, rfl⟩

/-- The answers of an endpoint with two parameters: a bad request when one is not a
    number, not found when the numbers are out of range, a body else. -/
structure Answers (query : Query) (name name' : String) (inRange : Nat → Nat → Prop)
    (reply : Reply ProofResponse) : Prop where
  badRequest : (∃ text, reply = .error 400 text) ↔ ¬ ∃ m n, Asks query name name' m n
  notFound : (∃ text, reply = .error 404 text) ↔
    ∃ m n, Asks query name name' m n ∧ ¬ inRange m n
  body : (∃ resp, reply = .ok resp) ↔ ∃ m n, Asks query name name' m n ∧ inRange m n

theorem Answers.of_cases {query : Query} {name name' : String} {inRange : Nat → Nat → Prop}
    {reply : Reply ProofResponse}
    (hbad : ∀ e, (parseUintParam query name = .error e
      ∨ (∃ m, parseUintParam query name = .ok m) ∧ parseUintParam query name' = .error e) →
      reply = .error 400 e)
    (hasks : ∀ m n, Asks query name name' m n →
      (¬ inRange m n ∧ ∃ text, reply = .error 404 text) ∨ (inRange m n ∧ ∃ resp, reply = .ok resp)) :
    Answers query name name' inRange reply := by
  have hunique : ∀ {m n m' n'}, Asks query name name' m n → Asks query name name' m' n' →
      m' = m ∧ n' = n := by
    intro m n m' n' hask hask'
    have hm := hask.1.symm.trans hask'.1
    have hn := hask.2.symm.trans hask'.2
    cases hm
    cases hn
    exact ⟨rfl, rfl⟩
  rcases asks_or_error query name name' with ⟨m, n, hask⟩ | ⟨hno, e, herr⟩
  · rcases hasks m n hask with ⟨hout, text, hreply⟩ | ⟨hin, resp, hreply⟩
    · subst hreply
      refine ⟨⟨by simp, fun hno => absurd ⟨m, n, hask⟩ hno⟩, ⟨fun _ => ⟨m, n, hask, hout⟩, fun _ => ⟨text, rfl⟩⟩,
        ⟨by simp, ?_⟩⟩
      intro ⟨m', n', hask', hin⟩
      obtain ⟨rfl, rfl⟩ := hunique hask hask'
      exact absurd hin hout
    · subst hreply
      refine ⟨⟨by simp, fun hno => absurd ⟨m, n, hask⟩ hno⟩, ⟨by simp, ?_⟩,
        ⟨fun _ => ⟨m, n, hask, hin⟩, fun _ => ⟨resp, rfl⟩⟩⟩
      intro ⟨m', n', hask', hout⟩
      obtain ⟨rfl, rfl⟩ := hunique hask hask'
      exact absurd hin hout
  · rw [hbad e herr]
    refine ⟨⟨fun _ => hno, fun _ => ⟨e, rfl⟩⟩, ⟨by simp, ?_⟩, ⟨by simp, ?_⟩⟩
    · intro ⟨m, n, hask, _⟩
      exact absurd ⟨m, n, hask⟩ hno
    · intro ⟨m, n, hask, _⟩
      exact absurd ⟨m, n, hask⟩ hno

variable {ed : SignatureScheme} {json : LeafJson} {heads : STHJson} {s : ServiceState}

theorem consistencyHandler_of_ok {t : Tree} {query : Query} {m n : Nat} {p : Option Proof}
    (hask : Asks query "first" "second" m n) (hproof : t.consistencyProof m n = .ok p) :
    consistencyHandler t query = .ok ⟨n, none, some m, some n, hexProof p⟩ := by
  simp only [consistencyHandler, hask.1, hask.2, hproof]

theorem inclusionHandler_of_ok {t : Tree} {query : Query} {m n : Nat} {p : Option Proof}
    (hask : Asks query "leaf_index" "tree_size" m n) (hproof : t.inclusionProof m n = .ok p) :
    inclusionHandler t query = .ok ⟨n, some m, none, none, hexProof p⟩ := by
  simp only [inclusionHandler, hask.1, hask.2, hproof]

theorem consistencyHandler_answers (t : Tree) (query : Query) :
    Answers query "first" "second" (fun m n => 1 ≤ m ∧ m ≤ n ∧ n ≤ t.size)
      (consistencyHandler t query) := by
  apply Answers.of_cases
  · intro e herr
    rcases herr with hfirst | ⟨⟨m, hfirst⟩, hsecond⟩
    · simp only [consistencyHandler, hfirst]
    · simp only [consistencyHandler, hfirst, hsecond]
  · intro m n hask
    rcases t.consistencyProof_cases m n with ⟨hout, herr⟩ | ⟨hin, p, hproof, _⟩
    · refine Or.inl ⟨hout, TreeError.consistencyRange.message, ?_⟩
      simp only [consistencyHandler, hask.1, hask.2, herr, true_or, if_true]
    · exact Or.inr ⟨hin, _, consistencyHandler_of_ok hask hproof⟩

theorem inclusionHandler_answers (t : Tree) (query : Query) :
    Answers query "leaf_index" "tree_size" (fun m n => m < n ∧ n ≤ t.size)
      (inclusionHandler t query) := by
  apply Answers.of_cases
  · intro e herr
    rcases herr with hfirst | ⟨⟨m, hfirst⟩, hsecond⟩
    · simp only [inclusionHandler, hfirst]
    · simp only [inclusionHandler, hfirst, hsecond]
  · intro m n hask
    rcases t.inclusionProof_cases m n with ⟨hout, herr | herr⟩ | ⟨hin, p, hproof, _⟩
    · refine Or.inl ⟨hout, TreeError.treeSizeMismatch.message, ?_⟩
      simp only [inclusionHandler, hask.1, hask.2, herr, or_true, if_true]
    · refine Or.inl ⟨hout, TreeError.leafIndexOutOfRange.message, ?_⟩
      simp only [inclusionHandler, hask.1, hask.2, herr, true_or, if_true]
    · exact Or.inr ⟨hin, _, inclusionHandler_of_ok hask hproof⟩

/-- An issued head holds the root of a prefix of the leaves. -/
theorem HeadsKept.copyHash_rootHash (hkept : HeadsKept heads s) {h : STH} (hh : h ∈ s.issued) :
    h.treeSize.toNat ≤ s.log.tree.size
      ∧ copyHash h.rootHash = merkleTreeHash (s.log.tree.hashes.take h.treeSize.toNat) := by
  obtain ⟨root, hat, heq⟩ := hkept.roots h hh
  obtain ⟨hle, hroot⟩ := Tree.rootAt_ok_iff.mp hat
  exact ⟨hle, by rw [heq, copyHash_toList, hroot]⟩

/-- **The head is served**: after any run the endpoint answers the last head that was
    issued, with the root of the leaves below its size; before the first one it is
    unavailable. -/
theorem sthHandler_serves (hjson : json.RoundTripsPayload) (hheads : heads.RoundTrips)
    (hreach : (serviceSystem ed json heads).Reachable s) :
    (s.issued = [] ∧ sthHandler heads s.log.db = some (.error 503 "no STH yet — log is empty"))
    ∨ ∃ h ∈ s.issued, s.issued.getLast? = some h ∧ ∃ resp root,
      sthHandler heads s.log.db = some (.ok resp) ∧ resp.treeSize = h.treeSize
        ∧ Hex.decode resp.rootHash = some root ∧ Hex.decode resp.signature = some h.signature
        ∧ copyHash root = merkleTreeHash (s.log.tree.hashes.take h.treeSize.toNat) := by
  have hkept := (kept_of_reachable hjson hheads hreach).2
  cases hlast : s.issued.getLast? with
  | none =>
    left
    have hlatest := hkept.latest
    rw [hlast] at hlatest
    refine ⟨List.getLast?_eq_none_iff.mp hlast, ?_⟩
    rw [sthHandler, hlatest]
    rfl
  | some h =>
    right
    have hmem := List.mem_of_getLast? hlast
    have hlatest := hkept.latest
    rw [hlast] at hlatest
    have hserved : sthHandler heads s.log.db = some (.ok ⟨h.treeSize, Hex.encode h.rootHash,
        Int.bmod h.timestamp (2 ^ 64), Hex.encode h.signature, h.signerKeyID⟩) := by
      rw [sthHandler, hlatest]
      rfl
    exact ⟨h, hmem, rfl, _, h.rootHash, hserved, rfl, Hex.decode_encode _, Hex.decode_encode _,
      (hkept.copyHash_rootHash hmem).2⟩

/-- What the consistency endpoint gives an auditor. -/
structure ConsistencyServed (s : ServiceState) (query : Query) : Prop where
  answers : Answers query "first" "second" (fun m n => 1 ≤ m ∧ m ≤ n ∧ n ≤ s.log.tree.size)
    (consistencyHandler s.log.tree query)
  /-- The proof between two heads bridges them. -/
  bridges : ∀ h ∈ s.issued, ∀ h' ∈ s.issued, h.treeSize ≠ 0 → h.treeSize ≤ h'.treeSize →
    Asks query "first" "second" h.treeSize.toNat h'.treeSize.toNat →
    ∃ resp proof, consistencyHandler s.log.tree query = .ok resp
      ∧ decodeProof resp.auditPath = some proof
      ∧ verifyConsistency h.treeSize.toNat h'.treeSize.toNat (copyHash h.rootHash) proof
        = (copyHash h'.rootHash, true)

/-- **Consistency is served**: whichever two heads were issued in a run, the endpoint
    proves the later one to extend the earlier one. -/
theorem consistency_served (hjson : json.RoundTripsPayload) (hheads : heads.RoundTrips)
    (hreach : (serviceSystem ed json heads).Reachable s) (query : Query) :
    ConsistencyServed s query := by
  have hkept := (kept_of_reachable hjson hheads hreach).2
  refine ⟨consistencyHandler_answers s.log.tree query, ?_⟩
  intro h hh h' hh' hne hle hask
  obtain ⟨_, hroot⟩ := hkept.copyHash_rootHash hh
  obtain ⟨hsize', hroot'⟩ := hkept.copyHash_rootHash hh'
  rw [UInt64.le_iff_toNat_le] at hle
  have hpos : h.treeSize.toNat ≠ 0 := fun hzero => hne (UInt64.toNat_inj.mp hzero)
  rcases s.log.tree.consistencyProof_cases h.treeSize.toNat h'.treeSize.toNat with
    ⟨hout, _⟩ | ⟨_, p, hproof, hverify⟩
  · exact absurd ⟨by omega, hle, hsize'⟩ hout
  · refine ⟨_, p, consistencyHandler_of_ok hask hproof, decodeProof_hexProof (some p), ?_⟩
    rw [hroot, hroot']
    exact hverify

/-- The request for the proof between the heads of sizes 1 and 2. -/
def bridgeQuery : Query :=
  [(Bytes.ascii "first", Bytes.decimal 1), (Bytes.ascii "second", Bytes.decimal 2)]

theorem bridgeQuery_asks : Asks bridgeQuery "first" "second" 1 2 :=
  ⟨parseUintParam_decimal (by decide) (by decide), parseUintParam_decimal (by decide) (by decide)⟩

theorem consistency_served_two : ∃ s : ServiceState, s.issued = [firstHead, secondHead]
    ∧ Asks bridgeQuery "first" "second" 1 2 ∧ ConsistencyServed s bridgeQuery := by
  obtain ⟨db, hreach⟩ := exists_twoHeads
  exact ⟨_, rfl, bridgeQuery_asks,
    consistency_served backupJson_roundTrips headsJson_roundTrips hreach bridgeQuery⟩

/-- What the inclusion and the leaf endpoint give an auditor. -/
structure InclusionServed (json : LeafJson) (s : ServiceState) (query leafQuery : Query) : Prop where
  answers : Answers query "leaf_index" "tree_size" (fun m n => m < n ∧ n ≤ s.log.tree.size)
    (inclusionHandler s.log.tree query)
  /-- The served leaf is proved to be in the tree of every head that covers it. -/
  proves : ∀ h ∈ s.issued, ∀ m < h.treeSize.toNat,
    Asks query "leaf_index" "tree_size" m h.treeSize.toNat →
    parseUintParam leafQuery "index" = .ok m →
    ∃ resp proof leaf payload, inclusionHandler s.log.tree query = .ok resp
      ∧ decodeProof resp.auditPath = some proof
      ∧ leafHandler json s.log.tree s.log.db leafQuery = some (.ok leaf)
      ∧ Hex.decode leaf.payload = some payload
      ∧ Hex.decode leaf.leafHash = some (hashLeaf payload).toList
      ∧ verifyInclusion (hashLeaf payload) m h.treeSize.toNat proof = copyHash h.rootHash

/-- **Inclusion is served**: every leaf below a head that was issued in a run can be
    fetched and proved against that head. -/
theorem inclusion_served (hjson : json.RoundTripsPayload) (hheads : heads.RoundTrips)
    (hreach : (serviceSystem ed json heads).Reachable s) (query leafQuery : Query) :
    InclusionServed json s query leafQuery := by
  obtain ⟨⟨log, hin⟩, hkept⟩ := kept_of_reachable hjson hheads hreach
  refine ⟨inclusionHandler_answers s.log.tree query, ?_⟩
  intro h hh m hm hask hindex
  obtain ⟨hsize, hroot⟩ := hkept.copyHash_rootHash hh
  have hlt : m < log.length := by
    rw [← hin.size_eq]
    omega
  -- the cache holds the hash of the leaf that is read back
  have hleaf := hin.leafAt hlt (t := s.log.tree) (by omega)
  have hhash : s.log.tree.hashes[m]? = some (hashLeaf (log[m]).2.payload) := by
    simp [hin.cache, logHashes, hlt]
  rcases s.log.tree.inclusionProof_cases m h.treeSize.toNat with ⟨hout, _⟩ | ⟨_, p, hproof, hverify⟩
  · exact absurd ⟨hm, hsize⟩ hout
  · have hserved : leafHandler json s.log.tree s.log.db leafQuery
        = some (.ok ⟨m, (log[m]).2.kind, Int.bmod (log[m]).2.timestamp (2 ^ 64),
          Hex.encode (log[m]).2.payload, Hex.encode (hashLeaf (log[m]).2.payload).toList⟩) := by
      simp only [leafHandler, hindex, hleaf, Option.map_some]
    refine ⟨_, p, _, (log[m]).2.payload, inclusionHandler_of_ok hask hproof,
      decodeProof_hexProof (some p), hserved, Hex.decode_encode _, Hex.decode_encode _, ?_⟩
    rw [hroot]
    exact hverify _ hhash

/-- The requests for the first leaf and its proof in the tree of the second head. -/
def leafQuery : Query := [(Bytes.ascii "index", Bytes.decimal 0)]

def proofQuery : Query :=
  [(Bytes.ascii "leaf_index", Bytes.decimal 0), (Bytes.ascii "tree_size", Bytes.decimal 2)]

theorem proofQuery_asks : Asks proofQuery "leaf_index" "tree_size" 0 2 :=
  ⟨parseUintParam_decimal (by decide) (by decide), parseUintParam_decimal (by decide) (by decide)⟩

theorem inclusion_served_two : ∃ s : ServiceState, s.issued = [firstHead, secondHead]
    ∧ Asks proofQuery "leaf_index" "tree_size" 0 2
    ∧ InclusionServed backupJson s proofQuery leafQuery := by
  obtain ⟨db, hreach⟩ := exists_twoHeads
  exact ⟨_, rfl, proofQuery_asks,
    inclusion_served backupJson_roundTrips headsJson_roundTrips hreach proofQuery leafQuery⟩

end Owasaka.Transparency
