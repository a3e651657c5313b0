import Owasaka.Foundation.System
import Owasaka.Identity.ClaimMapper

/-! # The subject index of the principal store (`identity/memory_store.go`)

    `Save` overwrites the principal under its ID and points its subject to it.  It
    never takes an entry of the index back.  When a principal is saved again under
    another subject, the entry of the old subject still leads to it, unless a third
    principal has taken that subject over in the meantime.

    The main result: the index is consistent all along a run of calls if and only
    if no `Save` leaves such an entry behind. -/

namespace Owasaka.Identity

/-! ## Section 1: Calls -/

/-- `UpdateStatus` leaves the index as it is. -/
def SubjectStore.updateStatus (s : SubjectStore) (id : String) (status : PrincipalStatus) :
    Except IdentityError SubjectStore :=
  match s.toPrincipalStore.updateStatus id status with
  | .error e => .error e
  | .ok store => .ok { s with toPrincipalStore := store }

inductive PrincipalCall where
  | save (p : Principal)
  | updateStatus (id : String) (status : PrincipalStatus)

/-- A call that fails leaves the store as it is. -/
def SubjectStore.call (s : SubjectStore) : PrincipalCall → SubjectStore
  | .save p =>
    match s.save p with
    | .error _ => s
    | .ok s' => s'
  | .updateStatus id status =>
    match s.updateStatus id status with
    | .error _ => s
    | .ok s' => s'

/-- The store after some calls on a new one. -/
def SubjectStore.run (calls : List PrincipalCall) : SubjectStore :=
  calls.foldl SubjectStore.call SubjectStore.empty

/-! ## Section 2: Consistency -/

/-- What `FindBySubject` returns is stored and has that subject, and the subject of
    a stored principal is found. -/
structure SubjectStore.Consistent (s : SubjectStore) : Prop where
  found : ∀ subject found, s.findBySubject subject = .ok found →
    ∃ p, found = some p ∧ s.byID p.id = some p ∧ p.subject = subject
  finds : ∀ id p, s.byID id = some p → p.subject ≠ "" →
    ∃ q, s.findBySubject p.subject = .ok (some q)

/-- The call leaves no entry of the index behind: where a principal is saved again
    under another subject, the index does not lead from the old one to it. -/
def SubjectStore.Releases (s : SubjectStore) : PrincipalCall → Prop
  | .save p => ∀ q, s.byID p.id = some q → q.subject ≠ p.subject →
      s.bySubject q.subject ≠ some p.id
  | .updateStatus _ _ => True

/-- What every call keeps: the index leads to stored principals, and from every
    subject but the empty one that is stored. -/
structure SubjectStore.Covered (s : SubjectStore) : Prop where
  ids : s.byID "" = none
  empty : s.bySubject "" = none
  stored : ∀ subject id, s.bySubject subject = some id → ∃ p, s.byID id = some p
  indexed : ∀ id p, s.byID id = some p → p.subject ≠ "" → ∃ id', s.bySubject p.subject = some id'

/-- Every entry of the index leads to a principal with that subject. -/
def SubjectStore.Sound (s : SubjectStore) : Prop :=
  ∀ subject id p, s.bySubject subject = some id → s.byID id = some p → p.subject = subject

namespace SubjectStore

variable {s : SubjectStore}

theorem findBySubject_of_index {subject id : String} (hindex : s.bySubject subject = some id) :
    s.findBySubject subject = .ok (s.byID id) := by
  unfold findBySubject
  rw [hindex]

theorem Covered.consistent_iff (hcovered : s.Covered) : s.Consistent ↔ s.Sound := by
  constructor
  · intro hconsistent subject id p hindex hget
    have hfind : s.findBySubject subject = .ok (some p) := by
      rw [findBySubject_of_index hindex, hget]
    obtain ⟨q, hq, _, hsubject⟩ := hconsistent.found subject _ hfind
    cases hq
    exact hsubject
  · intro hsound
    constructor
    · intro subject found hfind
      obtain ⟨id, hindex, hget⟩ := findBySubject_ok hfind
      obtain ⟨p, hp⟩ := hcovered.stored subject id hindex
      refine ⟨p, by rw [← hget, hp], ?_, hsound subject id p hindex hp⟩
      rw [s.id_eq id p hp]
      exact hp
    · intro id p hget hsubject
      obtain ⟨id', hindex⟩ := hcovered.indexed id p hget hsubject
      obtain ⟨q, hq⟩ := hcovered.stored _ id' hindex
      exact ⟨q, by rw [findBySubject_of_index hindex, hq]⟩

/-! ## Section 3: What one call does -/

/-- A call saves a principal with an ID, sets the status of a stored one, or changes
    nothing. -/
theorem call_cases (s : SubjectStore) (c : PrincipalCall) :
    (∃ p s', c = .save p ∧ s.save p = .ok s' ∧ s.call c = s')
      ∨ (∃ id status p, c = .updateStatus id status ∧ s.byID id = some p
          ∧ s.call c = s.write { p with status := status })
      ∨ (s.call c = s ∧ ∀ p, c = .save p → p.id = "") := by
  cases c with
  | save p =>
    by_cases hid : p.id = ""
    · refine Or.inr (Or.inr ⟨?_, ?_⟩)
      · simp [call, save, PrincipalStore.save, hid]
      · intro q heq
        cases heq
        exact hid
    · obtain ⟨s', hsave⟩ := exists_save (s := s) hid
      exact Or.inl ⟨p, s', rfl, hsave, by simp [call, hsave]⟩
  | updateStatus id status =>
    cases hget : s.byID id with
    | none =>
      refine Or.inr (Or.inr ⟨?_, ?_⟩)
      · simp [call, updateStatus, PrincipalStore.updateStatus, hget]
      · intro q heq
        contradiction
    | some p =>
      refine Or.inr (Or.inl ⟨id, status, p, rfl, hget, ?_⟩)
      simp [call, updateStatus, PrincipalStore.updateStatus, hget, write]

/-- A status does not matter to the index. -/
theorem write_status {id : String} {p : Principal} (hget : s.byID id = some p)
    (status : PrincipalStatus) {id' : String} {q : Principal}
    (hget' : (s.write { p with status := status }).byID id' = some q) :
    ∃ q', s.byID id' = some q' ∧ q'.subject = q.subject := by
  have hid : p.id = id := s.id_eq id p hget
  change (if id' = p.id then some { p with status := status } else s.byID id') = some q at hget'
  split at hget'
  · rename_i heq
    cases hget'
    exact ⟨p, by rw [heq, hid, hget], rfl⟩
  · exact ⟨q, hget', rfl⟩

theorem write_stored {p : Principal} {id : String} (hstored : ∃ q, s.byID id = some q) :
    ∃ q, (s.write p).byID id = some q := by
  obtain ⟨q, hget⟩ := hstored
  show ∃ q, (if id = p.id then some p else s.byID id) = some q
  split
  · exact ⟨p, rfl⟩
  · exact ⟨q, hget⟩

theorem Covered.save (hcovered : s.Covered) {p : Principal} {s' : SubjectStore}
    (hsave : s.save p = .ok s') : s'.Covered := by
  obtain ⟨hid, hbyID, hbySubject⟩ := save_ok hsave
  constructor
  · rw [hbyID, if_neg (Ne.symm hid)]
    exact hcovered.ids
  · rw [hbySubject, if_neg (fun hboth => hboth.1 hboth.2.symm)]
    exact hcovered.empty
  · intro subject id hindex
    rw [hbySubject] at hindex
    rw [hbyID]
    split at hindex
    · cases hindex
      exact ⟨p, if_pos rfl⟩
    · split
      · exact ⟨p, rfl⟩
      · exact hcovered.stored subject id hindex
  · intro id q hget hsubject
    rw [hbyID] at hget
    rw [hbySubject]
    split
    · exact ⟨p.id, rfl⟩
    · rename_i hnot
      split at hget
      · cases hget
        exact absurd ⟨hsubject, rfl⟩ hnot
      · exact hcovered.indexed id q hget hsubject

theorem Covered.setStatus (hcovered : s.Covered) {id : String} {p : Principal}
    (hget : s.byID id = some p) (status : PrincipalStatus) :
    (s.write { p with status := status }).Covered := by
  have hempty : p.id ≠ "" := by
    intro hid
    rw [s.id_eq id p hget] at hid
    rw [hid, hcovered.ids] at hget
    contradiction
  constructor
  · show (if "" = p.id then _ else s.byID "") = none
    rw [if_neg (Ne.symm hempty)]
    exact hcovered.ids
  · exact hcovered.empty
  · intro subject id' hindex
    exact write_stored (hcovered.stored subject id' hindex)
  · intro id' q hget' hsubject
    obtain ⟨q', hq', hsame⟩ := write_status hget status hget'
    rw [← hsame] at hsubject ⊢
    exact hcovered.indexed id' q' hq' hsubject

theorem Covered.call (hcovered : s.Covered) (c : PrincipalCall) : (s.call c).Covered := by
  rcases s.call_cases c with ⟨p, s', -, hsave, heq⟩ | ⟨id, status, p, -, hget, heq⟩ | ⟨heq, -⟩
  · rw [heq]
    exact hcovered.save hsave
  · rw [heq]
    exact hcovered.setStatus hget status
  · rw [heq]
    exact hcovered

/-- A principal that is saved leaves a sound index sound exactly when the entry of its old
    subject is released. -/
theorem sound_save_iff (hcovered : s.Covered) (hsound : s.Sound) {p : Principal} {s' : SubjectStore}
    (hsave : s.save p = .ok s') : s'.Sound ↔ s.Releases (.save p) := by
  obtain ⟨hid, hbyID, hbySubject⟩ := save_ok hsave
  constructor
  · -- an entry that is left behind leads to the new principal
    intro hsound' q hget hne hindex
    have hq : q.subject ≠ "" := by
      intro hempty
      rw [hempty, hcovered.empty] at hindex
      contradiction
    refine hne (hsound' q.subject p.id p ?_ ?_).symm
    · rw [hbySubject, if_neg (fun hboth => hne hboth.2)]
      exact hindex
    · rw [hbyID, if_pos rfl]
  · intro hreleases subject id q hindex hget
    rw [hbySubject] at hindex
    rw [hbyID] at hget
    split at hindex
    · rename_i hboth
      cases hindex
      rw [if_pos rfl] at hget
      cases hget
      exact hboth.2.symm
    · rename_i hnot
      split at hget
      · -- an old entry for the saved ID: the subject has to be the same
        rename_i heqid
        cases hget
        subst heqid
        obtain ⟨old, hold⟩ := hcovered.stored subject p.id hindex
        have hsubject := hsound subject p.id old hindex hold
        by_contra hne
        apply hreleases old hold
        · rw [hsubject]
          exact fun h => hne h.symm
        · rw [hsubject]
          exact hindex
      · exact hsound subject id q hindex hget

theorem Sound.setStatus (hsound : s.Sound) {id : String} {p : Principal}
    (hget : s.byID id = some p) (status : PrincipalStatus) :
    Sound (s.write { p with status := status }) := by
  intro subject id' q hindex hget'
  obtain ⟨q', hq', hsame⟩ := write_status hget status hget'
  rw [← hsame]
  exact hsound subject id' q' hindex hq'

/-- **Step lemma**: a call on a sound index leaves it sound exactly when it releases
    the entry of the old subject. -/
theorem sound_call_iff (hcovered : s.Covered) (hsound : s.Sound) (c : PrincipalCall) :
    (s.call c).Sound ↔ s.Releases c := by
  rcases s.call_cases c with ⟨p, s', rfl, hsave, heq⟩ | ⟨id, status, p, rfl, hget, heq⟩ | ⟨heq, hid⟩
  · rw [heq]
    exact sound_save_iff hcovered hsound hsave
  · rw [heq]
    exact ⟨fun _ => trivial, fun _ => Sound.setStatus hsound hget status⟩
  · rw [heq]
    refine ⟨?_, fun _ => hsound⟩
    intro _
    cases c with
    | save p =>
      intro q hget
      rw [hid p rfl, hcovered.ids] at hget
      contradiction
    | updateStatus id status => trivial

/-! ## Section 4: Runs of calls -/

theorem covered_empty : SubjectStore.empty.Covered := by
  constructor <;> simp [SubjectStore.empty, PrincipalStore.empty]

/-- **The index** is consistent after every call of a run exactly when every call
    releases the entry of an old subject. -/
theorem index_consistent_iff (calls : List PrincipalCall) :
    (∀ done, done <+: calls → (run done).Consistent) ↔
      ∀ done c, done ++ [c] <+: calls → (run done).Releases c := by
  have hstep : ∀ s c, Covered s → Consistent s → (Consistent (s.call c) ↔ s.Releases c) := by
    intro s c hcovered hconsistent
    rw [(hcovered.call c).consistent_iff]
    exact sound_call_iff hcovered (hcovered.consistent_iff.mp hconsistent) c
  have hempty : SubjectStore.empty.Consistent := by
    rw [covered_empty.consistent_iff]
    simp [Sound, SubjectStore.empty]
  exact foldl_always_iff (fun s c hcovered => Covered.call hcovered c) hstep covered_empty hempty calls

end SubjectStore

/-! ## Section 5: A changed subject -/

/-- A principal that is saved under one subject, and again under another. -/
def renamed (subject : String) : Principal :=
  ⟨"p1", .human, subject, "", .active, [], ∅⟩

/-- The old subject still leads to the principal. -/
theorem renamed_subject_found :
    (SubjectStore.run [.save (renamed "alice"), .save (renamed "bob")]).findBySubject "alice"
        = .ok (some (renamed "bob"))
      ∧ ¬ (SubjectStore.run [.save (renamed "alice"), .save (renamed "bob")]).Consistent := by
  have hfind : (SubjectStore.run [.save (renamed "alice"), .save (renamed "bob")]).findBySubject
      "alice" = .ok (some (renamed "bob")) := by rfl
  refine ⟨hfind, ?_⟩
  intro hconsistent
  obtain ⟨p, hp, _, hsubject⟩ := hconsistent.found "alice" _ hfind
  cases hp
  exact absurd hsubject (by decide)

end Owasaka.Identity
