import Owasaka.Repository.Listing

/-! # The life of an alert (`models/alert.go`, `storage/db/repository.go`, `api/alerts_handler.go`, `app/app.go`)

    An alert is saved when its event is raised, also again under an ID that is there
    already, and analysts then patch its status and its note.  Every save and every patch
    goes through the text in the database.

    ## Abstract view

    The history of an alert is what was done under its ID.  Since it was last raised, the
    status and the note are the last ones that were given, the time is that of the last
    patch, and the rest is what its event says. -/

namespace Owasaka.Repository

open Bolt JsonText

/-! ## Section 1: Raising, reading and patching -/

def statusNew : Bytes := Bytes.ascii "NEW"

/-- A metadata value, if it is a string. -/
def stringAt (metadata : List (Bytes × GoValue)) (key : String) : Bytes :=
  match valueAt metadata (Bytes.ascii key) with
  | some (.str s) => s
  | _ => []

/-- The strings of a `[]string` or a `[]any`. -/
def stringsAt (metadata : List (Bytes × GoValue)) (key : String) : List Bytes :=
  match valueAt metadata (Bytes.ascii key) with
  | some (.slice items) => items.filterMap fun item =>
    match item with
    | .str s => some s
    | _ => none
  | _ => []

/-- `AlertFromEvent`; nil metadata holds nothing. -/
def alertFromEvent (e : Events.Stored.NetworkEvent) : Alert :=
  let metadata := e.metadata.getD []
  { id := e.id
    ruleName := stringAt metadata "rule"
    severity := stringAt metadata "severity"
    status := statusNew
    source := e.source
    destination := e.destination
    mitreTactic := stringAt metadata "mitre_tactic"
    chainEvents := stringsAt metadata "chain_events"
    note := []
    triggeredAt := e.timestamp
    updatedAt := e.timestamp }

def threatAlert : Bytes := Bytes.ascii "THREAT_ALERT"

/-- What the engines' alerts are handed to; `none` is an error, or an event of another type. -/
def alertSink (b : Bucket) (e : Events.Stored.NetworkEvent) : Option Bucket :=
  if e.type = threatAlert then saveAlert b (alertFromEvent e) else none

def getAlert (b : Bucket) (id : Bytes) : Option Alert := b[id]?.bind unmarshalAlert

/-- The text, unless it is empty. -/
def orOld (given old : Bytes) : Bytes := if given ≠ [] then given else old

/-- What `UpdateAlert` does to the alert that it has read. -/
def Alert.patch (a : Alert) (status note : Bytes) (now : Rfc3339.Time) : Alert :=
  { a with status := orOld status a.status, note := orOld note a.note, updatedAt := now }

/-- `UpdateAlert`: the alert that it returns and the bucket; `none` is an error, which
    rolls the transaction back. -/
def updateAlert (b : Bucket) (id status note : Bytes) (now : Rfc3339.Time) : Option (Alert × Bucket) :=
  match b[id]? with
  | none => none
  | some data =>
    match unmarshalAlert data with
    | none => none
    | some a =>
      let updated := a.patch status note now
      match updated.marshal with
      | none => none
      | some out =>
        if id = [] ∨ 32768 < id.length ∨ 2 ^ 31 - 2 < out.length then none
        else some (updated, b.insert id out)

/-- A `PATCH` request; a body that does not decode is `none`. -/
structure PatchRequest where
  method : String
  path : Bytes
  body : Option (Bytes × Bytes)

inductive PatchReply where
  | refused (status : Nat)
  | updated (a : Alert)
  deriving DecidableEq

def alertsPath : Bytes := Bytes.ascii "/api/alerts/"

/-- `strings.TrimPrefix`. -/
def trimPrefix (pre s : Bytes) : Bytes := if pre.isPrefixOf s then s.drop pre.length else s

/-- `PatchAlert`: the reply, and the bucket afterwards. -/
def patchAlert (b : Bucket) (req : PatchRequest) (now : Rfc3339.Time) : PatchReply × Bucket :=
  if req.method ≠ "PATCH" then (.refused 405, b)
  else
    let id := trimPrefix alertsPath req.path
    if id = [] then (.refused 400, b)
    else
      match req.body with
      | none => (.refused 400, b)
      | some (status, note) =>
        match updateAlert b id status note now with
        | none => (.refused 404, b)
        | some (updated, b') => (.updated updated, b')

/-! ## Section 2: Histories -/

/-- What is done in a run: an event is handed to the sink of the alerts, which may fail, or
    a request is served. -/
inductive Action where
  | raise (e : Events.Stored.NetworkEvent)
  | patch (req : PatchRequest) (now : Rfc3339.Time)

/-- What was really done. -/
inductive Op where
  | raised (e : Events.Stored.NetworkEvent)
  | patched (id status note : Bytes) (now : Rfc3339.Time)

def Op.id : Op → Bytes
  | .raised e => e.id
  | .patched id _ _ _ => id

/-- The bucket, and a ghost history of what was done. -/
structure Triage where
  bucket : Bucket
  done : List Op

def Triage.act (s : Triage) : Action → Triage
  | .raise e =>
    match alertSink s.bucket e with
    | none => s
    | some b => ⟨b, s.done ++ [.raised e]⟩
  | .patch req now =>
    match patchAlert s.bucket req now, req.body with
    | (.updated _, b), some (status, note) =>
      ⟨b, s.done ++ [.patched (trimPrefix alertsPath req.path) status note now]⟩
    | (_, b), _ => { s with bucket := b }

/-- A run from a content of the bucket. -/
def triageRun (b : Bucket) (actions : List Action) : Triage := actions.foldl Triage.act ⟨b, []⟩

/-- What an operation makes of the alert under its ID. -/
def Op.apply (old : Option Alert) : Op → Option Alert
  | .raised e => some (alertFromEvent e).readBack
  | .patched _ status note now => old.map fun a => (a.patch status note now).readBack

variable {b b' : Bucket} {a updated : Alert} {id status note : Bytes} {now : Rfc3339.Time}
  {req : PatchRequest}

/-- The alert is there, and its text with the patch can be stored. -/
def Patchable (b : Bucket) (id : Bytes) (a : Alert) (status note : Bytes) (now : Rfc3339.Time)
    (out : Bytes) : Prop :=
  getAlert b id = some a ∧ (a.patch status note now).marshal = some out
    ∧ id ≠ [] ∧ id.length ≤ 32768 ∧ out.length ≤ 2 ^ 31 - 2

theorem updateAlert_eq_some_iff : updateAlert b id status note now = some (updated, b') ↔
    ∃ a out, Patchable b id a status note now out ∧ updated = a.patch status note now
      ∧ b' = b.insert id out := by
  unfold updateAlert Patchable getAlert
  cases b[id]? with
  | none => simp
  | some stored =>
    cases hread : unmarshalAlert stored with
    | none => simp [hread]
    | some a =>
      cases hdata : (a.patch status note now).marshal with
      | none => simp [hread, hdata]
      | some out =>
        simp only [Option.bind_some, hread, hdata, Option.ite_none_left_eq_some, Option.some.injEq,
          Prod.mk.injEq, not_or, not_lt]
        constructor
        · intro hstored
          obtain ⟨hfits, rfl, rfl⟩ := hstored
          exact ⟨a, out, ⟨rfl, hdata, hfits⟩, rfl, rfl⟩
        · intro hpatchable
          obtain ⟨a', out', ⟨rfl, hdata', hfits⟩, rfl, rfl⟩ := hpatchable
          rw [hdata, Option.some.injEq] at hdata'
          subst hdata'
          exact ⟨hfits, rfl, rfl⟩

/-- The request patches an alert that is there. -/
structure Accepts (b : Bucket) (req : PatchRequest) (now : Rfc3339.Time) (a : Alert)
    (status note out : Bytes) : Prop where
  method : req.method = "PATCH"
  body : req.body = some (status, note)
  patchable : Patchable b (trimPrefix alertsPath req.path) a status note now out

/-- A request updates the alert of its path if that can be patched; else it is refused and
    changes nothing. -/
theorem patchAlert_cases (b : Bucket) (req : PatchRequest) (now : Rfc3339.Time) :
    (∃ a status note out, Accepts b req now a status note out
        ∧ patchAlert b req now = (.updated (a.patch status note now),
          b.insert (trimPrefix alertsPath req.path) out))
      ∨ ((∀ a status note out, ¬ Accepts b req now a status note out)
        ∧ ∃ code, patchAlert b req now = (.refused code, b)) := by
  unfold patchAlert
  by_cases hmethod : req.method ≠ "PATCH"
  · right
    exact ⟨fun a status note out hok => hmethod hok.method, 405, if_pos hmethod⟩
  · rw [if_neg hmethod]
    simp only
    by_cases hid : trimPrefix alertsPath req.path = []
    · right
      exact ⟨fun a status note out hok => hok.patchable.2.2.1 hid, 400, if_pos hid⟩
    · rw [if_neg hid]
      cases hbody : req.body with
      | none =>
        right
        refine ⟨fun a status note out hok => ?_, 400, rfl⟩
        have hsome := hok.body
        rw [hbody] at hsome
        contradiction
      | some body =>
        obtain ⟨status, note⟩ := body
        cases hupdate : updateAlert b (trimPrefix alertsPath req.path) status note now with
        | none =>
          right
          refine ⟨fun a status' note' out hok => ?_, 404, by simp [hupdate]⟩
          have hsame := hok.body
          rw [hbody, Option.some.injEq, Prod.mk.injEq] at hsame
          obtain ⟨rfl, rfl⟩ := hsame
          have hsome := updateAlert_eq_some_iff.mpr ⟨a, out, hok.patchable, rfl, rfl⟩
          rw [hupdate] at hsome
          contradiction
        | some result =>
          left
          obtain ⟨updated, b'⟩ := result
          obtain ⟨a, out, hpatchable, rfl, rfl⟩ := updateAlert_eq_some_iff.mp hupdate
          exact ⟨a, status, note, out, ⟨not_not.mp hmethod, hbody, hpatchable⟩, by simp [hupdate]⟩

theorem getAlert_insert {data : Bytes} (b : Bucket) (id id' : Bytes) :
    getAlert (b.insert id data) id' = if id' = id then unmarshalAlert data else getAlert b id' := by
  unfold getAlert
  rw [getElem?_insert_ite]
  split
  · rfl
  · rfl

/-- What a request makes of the alerts: it patches the one of its path, which is there, or
    it changes nothing. -/
def Served (s : Triage) (req : PatchRequest) (now : Rfc3339.Time) (s' : Triage) : Prop :=
  (∃ a status note out, Accepts s.bucket req now a status note out
      ∧ (patchAlert s.bucket req now).1 = .updated (a.patch status note now)
      ∧ s' = ⟨s.bucket.insert (trimPrefix alertsPath req.path) out,
        s.done ++ [.patched (trimPrefix alertsPath req.path) status note now]⟩)
    ∨ ((∀ a status note out, ¬ Accepts s.bucket req now a status note out)
      ∧ (∃ code, (patchAlert s.bucket req now).1 = .refused code) ∧ s' = s)

theorem served_act (s : Triage) (req : PatchRequest) (now : Rfc3339.Time) :
    Served s req now (s.act (.patch req now)) := by
  rcases patchAlert_cases s.bucket req now with
    ⟨a, status, note, out, hok, hreply⟩ | ⟨hnone, code, hreply⟩
  · left
    refine ⟨a, status, note, out, hok, by rw [hreply], ?_⟩
    simp only [Triage.act, hreply, hok.body]
  · right
    refine ⟨hnone, ⟨code, by rw [hreply]⟩, ?_⟩
    simp only [Triage.act, hreply]

/-- **Step lemma**: an action does nothing, or one operation under its ID. -/
theorem act_cases (s : Triage) (action : Action) :
    s.act action = s ∨ ∃ op, (s.act action).done = s.done ++ [op]
      ∧ (∀ id', id' ≠ op.id → (s.act action).bucket[id']? = s.bucket[id']?)
      ∧ getAlert (s.act action).bucket op.id = op.apply (getAlert s.bucket op.id)
      ∧ (getAlert (s.act action).bucket op.id).isSome := by
  cases action with
  | raise e =>
    cases hsave : alertSink s.bucket e with
    | none =>
      left
      simp only [Triage.act, hsave]
    | some b =>
      have hsaved : saveAlert s.bucket (alertFromEvent e) = some b := by
        unfold alertSink at hsave
        rw [Option.ite_none_right_eq_some] at hsave
        exact hsave.2
      obtain ⟨data, hdata, heq⟩ := Codec.save_ok hsaved
      have heq' : b = s.bucket.insert e.id data := heq
      have hread : getAlert b e.id = some (alertFromEvent e).readBack := by
        rw [heq', getAlert_insert, if_pos rfl]
        exact unmarshalAlert_marshal hdata
      right
      simp only [Triage.act, hsave]
      refine ⟨.raised e, rfl, ?_, hread, by simp [Op.id, hread]⟩
      intro id' hne
      rw [heq', getElem?_insert_ite]
      exact if_neg hne
  | patch req now =>
    rcases served_act s req now with ⟨a, status, note, out, hok, _, hact⟩ | ⟨_, _, hact⟩
    · obtain ⟨hget, hdata, _⟩ := hok.patchable
      have hread : getAlert (s.bucket.insert (trimPrefix alertsPath req.path) out)
          (trimPrefix alertsPath req.path) = some (a.patch status note now).readBack := by
        rw [getAlert_insert, if_pos rfl]
        exact unmarshalAlert_marshal hdata
      right
      rw [hact]
      refine ⟨.patched _ status note now, rfl, ?_, ?_, by simp [Op.id, hread]⟩
      · intro id' hne
        rw [getElem?_insert_ite]
        exact if_neg hne
      · simp only [Op.id, Op.apply, hread, hget, Option.map_some]
    · exact Or.inl hact

/-- The operations under an ID. -/
def under (id : Bytes) (ops : List Op) : List Op := ops.filter fun op => op.id = id

/-- What is stored at the end, read off what was done: the bucket is in step with it. -/
structure InStep (b : Bucket) (s : Triage) : Prop where
  alerts : ∀ id, under id s.done ≠ [] →
    getAlert s.bucket id = (under id s.done).foldl Op.apply (getAlert b id)
  /-- Under an ID without an operation not a byte has changed. -/
  untouched : ∀ id, under id s.done = [] → s.bucket[id]? = b[id]?

theorem under_concat (id : Bytes) (ops : List Op) (op : Op) :
    under id (ops ++ [op]) = under id ops ++ if op.id = id then [op] else [] := by
  unfold under
  rw [List.filter_append]
  by_cases hid : op.id = id
  · simp [hid]
  · simp [hid]

theorem InStep.act {s : Triage} (hstep : InStep b s) (action : Action) : InStep b (s.act action) := by
  rcases act_cases s action with hsame | ⟨op, hdone, hothers, hget, _⟩
  · rw [hsame]
    exact hstep
  · -- the alert under an ID, as the operations so far have left it
    have hbefore : ∀ id, getAlert s.bucket id = (under id s.done).foldl Op.apply (getAlert b id) := by
      intro id
      by_cases hnone : under id s.done = []
      · rw [hnone, List.foldl_nil, getAlert, hstep.untouched id hnone, getAlert]
      · exact hstep.alerts id hnone
    constructor
    · intro id hsome
      rw [hdone, under_concat] at hsome ⊢
      by_cases hid : op.id = id
      · subst hid
        rw [if_pos rfl, List.foldl_append, List.foldl_cons, List.foldl_nil, ← hbefore, hget]
      · rw [if_neg hid, List.append_nil, ← hbefore, getAlert, hothers id (Ne.symm hid), getAlert]
    · intro id hnone
      rw [hdone, under_concat] at hnone
      by_cases hid : op.id = id
      · simp [hid] at hnone
      · rw [if_neg hid, List.append_nil] at hnone
        rw [hothers id (Ne.symm hid), hstep.untouched id hnone]

theorem triageRun_concat (b : Bucket) (actions : List Action) (action : Action) :
    triageRun b (actions ++ [action]) = (triageRun b actions).act action := by
  unfold triageRun
  rw [List.foldl_append, List.foldl_cons, List.foldl_nil]

theorem inStep_run (b : Bucket) (actions : List Action) : InStep b (triageRun b actions) := by
  induction actions using List.reverseRecOn with
  | nil => exact ⟨fun id h => absurd rfl h, fun _ _ => rfl⟩
  | append_singleton actions action ih =>
    rw [triageRun_concat]
    exact ih.act action

/-! ## Section 3: Since it was last raised -/

/-- The last of the texts that is not empty, or else the first one. -/
def lastText (init : Bytes) (texts : List Bytes) : Bytes := texts.foldl (fun old t => orOld t old) init

/-- An operation that is a patch, as its status, its note and its time. -/
def Op.patch? : Op → Option (Bytes × Bytes × Rfc3339.Time)
  | .raised _ => none
  | .patched _ status note now => some (status, note, now)

/-- The alert with what the patches have given. -/
def Alert.patched (a : Alert) (patches : List (Bytes × Bytes × Rfc3339.Time)) : Alert :=
  { a with
    status := lastText a.status (patches.map Prod.fst)
    note := lastText a.note (patches.map fun p => p.2.1)
    updatedAt := (patches.map fun p => p.2.2).getLastD a.updatedAt }

theorem toMinute_toMinute (t : Rfc3339.Time) : t.toMinute.toMinute = t.toMinute :=
  have hoffset : t.toMinute.offset = 60 * Rfc3339.zoneMinutes t.offset := by
    show Rfc3339.zoneMinutes t.offset * 60 = 60 * Rfc3339.zoneMinutes t.offset
    exact Int.mul_comm _ _
  Rfc3339.toMinute_of_dvd ⟨_, hoffset⟩

/-- What has been read back is read back as it is. -/
theorem readBack_patch_readBack (a : Alert) (status note : Bytes) (now : Rfc3339.Time) :
    (a.readBack.patch status note now).readBack = (a.patch status note now).readBack := by
  have htext : ∀ given old : Bytes,
      Utf8.sanitize (orOld given (Utf8.sanitize old)) = Utf8.sanitize (orOld given old) := by
    intro given old
    unfold orOld
    split
    · rfl
    · rw [Utf8.sanitize_sanitize]
  simp only [Alert.patch, Alert.readBack, Utf8.sanitize_sanitize, htext, toMinute_toMinute,
    List.map_map, Alert.mk.injEq, true_and, and_true]
  apply List.map_congr_left
  intro s _
  exact Utf8.sanitize_sanitize s

theorem patched_concat (a : Alert) (patches : List (Bytes × Bytes × Rfc3339.Time))
    (status note : Bytes) (now : Rfc3339.Time) :
    a.patched (patches ++ [(status, note, now)]) = (a.patched patches).patch status note now := by
  simp [Alert.patched, Alert.patch, lastText]

/-- Patches add up. -/
theorem foldl_patches (a : Alert) (ops : List Op) (hpatches : ∀ op ∈ ops, op.patch?.isSome) :
    ops.foldl Op.apply (some a.readBack) = some (a.patched (ops.filterMap Op.patch?)).readBack := by
  induction ops using List.reverseRecOn with
  | nil => rfl
  | append_singleton ops op ih =>
    rw [List.foldl_append, List.foldl_cons, List.foldl_nil,
      ih fun op' hop' => hpatches op' (List.mem_append_left _ hop'), List.filterMap_append]
    have hop := hpatches op (List.mem_append_right _ (List.mem_singleton_self op))
    cases op with
    | raised e => simp [Op.patch?] at hop
    | patched id status note now =>
      have hpatch : [Op.patched id status note now].filterMap Op.patch? = [(status, note, now)] :=
        rfl
      rw [hpatch, patched_concat]
      simp only [Op.apply, Option.map_some, readBack_patch_readBack]

/-- What a run has made of the alerts. -/
structure Lifecycle (b : Bucket) (actions : List Action) : Prop where
  /-- Under an ID without an operation not a byte has changed. -/
  untouched : ∀ id, under id (triageRun b actions).done = [] →
    (triageRun b actions).bucket[id]? = b[id]?
  /-- An alert is what its event says, with what the patches since have given. -/
  current : ∀ before e after, (triageRun b actions).done = before ++ .raised e :: after →
    (∀ op ∈ under e.id after, op.patch?.isSome) →
    getAlert (triageRun b actions).bucket e.id
      = some ((alertFromEvent e).patched ((under e.id after).filterMap Op.patch?)).readBack
  /-- Every request of the run patches an alert that is there, or is refused. -/
  served : ∀ before req now after, actions = before ++ .patch req now :: after →
    Served (triageRun b before) req now (triageRun b (before ++ [.patch req now]))
  /-- No operation loses an alert. -/
  stays : ∀ op ∈ (triageRun b actions).done, (getAlert (triageRun b actions).bucket op.id).isSome

theorem stays_run (b : Bucket) (actions : List Action) :
    ∀ op ∈ (triageRun b actions).done, (getAlert (triageRun b actions).bucket op.id).isSome := by
  induction actions using List.reverseRecOn with
  | nil => exact fun op hop => absurd hop List.not_mem_nil
  | append_singleton actions action ih =>
    rw [triageRun_concat]
    rcases act_cases (triageRun b actions) action with hsame | ⟨op, hdone, hothers, _, hsome⟩
    · rw [hsame]
      exact ih
    · intro op' hop'
      by_cases hid : op'.id = op.id
      · rw [hid]
        exact hsome
      · rw [hdone, List.mem_append, List.mem_singleton] at hop'
        have hold := ih op' (hop'.resolve_right fun heq => hid (by rw [heq]))
        unfold getAlert at hold ⊢
        rw [hothers op'.id hid]
        exact hold

/-- **The life of every alert**: over any run of events and requests, from any content of
    the database. -/
theorem alert_lifecycle (b : Bucket) (actions : List Action) : Lifecycle b actions := by
  have hstep := inStep_run b actions
  refine ⟨hstep.untouched, ?_, ?_, stays_run b actions⟩
  · intro before e after hdone hpatches
    have hunder : under e.id (triageRun b actions).done
        = under e.id before ++ .raised e :: under e.id after := by
      rw [hdone]
      unfold under
      rw [List.filter_append, List.filter_cons_of_pos (by simp [Op.id])]
    rw [hstep.alerts e.id (by simp [hunder]), hunder, List.foldl_append, List.foldl_cons]
    exact foldl_patches (alertFromEvent e) (under e.id after) hpatches
  · intro before req now after _
    rw [triageRun_concat]
    exact served_act (triageRun b before) req now

end Owasaka.Repository
