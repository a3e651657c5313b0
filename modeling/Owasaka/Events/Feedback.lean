import Owasaka.Events.Neotron
import Owasaka.Foundation.System

/-! # The compliance loop

    Publisher and subscriber share one connection, so the subscriber also
    receives what the pipeline publishes on `neotron.compliance.>`.  The broker
    is a list of messages in flight; handling a message, pushing its event and
    publishing it are separate steps, taken in any order.

    Events of type `COMPLIANCE` are published on `neotron.compliance.siem.v1`.
    There the subscriber picks them up again, and since the published document
    has neither `severity` nor `passed` at its top, the new event is again of
    type `COMPLIANCE`.  The main result: a set of external messages is free of
    feedback exactly when the subscriber classifies each of them as an alert, or
    cannot read it. -/

namespace Owasaka.Events

open Json

structure BusState where
  inFlight : List Msg
  /-- Events that the subscriber has handed to `PushNetworkEvent`. -/
  pending : List NetworkEvent
  /-- Subject and event of the calls of `Publish`. -/
  outbox : List (String × Event)
  /-- External messages delivered to the subscriber. -/
  delivered : Nat
  /-- Events persisted through the subscriber. -/
  persisted : Nat

/-- `i` is a position in flight, among the pending events or in the outbox. -/
inductive BusAction where
  | external (subject : String) (data : Option Value)
  | deliver (i : Nat) (env : HandleEnv)
  | push (i : Nat) (env : PushEnv)
  | publish (i : Nat) (ok : Bool)

/-- The bus, with the external messages that `ext` allows.  `formatTime` is the
    text of a time in JSON. -/
def busSystem (formatTime : Int → String) (ext : String → Option Value → Prop) :
    System BusState BusAction where
  init := fun s => s = ⟨[], [], [], 0, 0⟩
  step := fun s l s' =>
    match l with
    | .external subject data =>
      ext subject data ∧ s' = { s with inFlight := s.inFlight ++ [⟨subject, data, true⟩] }
    | .deliver i env =>
      ∃ m, s.inFlight[i]? = some m ∧ Subject.isMatch complianceSubject m.subject = true
        ∧ s' = { s with
            inFlight := s.inFlight.eraseIdx i
            pending := s.pending ++ (handleComplianceEvent env m).toList
            delivered := s.delivered + if m.external then 1 else 0 }
    | .push i env =>
      ∃ e, s.pending[i]? = some e
        ∧ s' = { s with
            pending := s.pending.eraseIdx i
            outbox := s.outbox ++
              [((pushNetworkEvent env e).subject, (pushNetworkEvent env e).published)]
            persisted := s.persisted + if (pushNetworkEvent env e).persisted then 1 else 0 }
    | .publish i ok =>
      ∃ out, s.outbox[i]? = some out
        ∧ s' = { s with
            outbox := s.outbox.eraseIdx i
            inFlight := if ok then
                s.inFlight ++ [⟨out.1, some (out.2.document formatTime), false⟩]
              else s.inFlight }

/-- In every reachable state at most as many events are persisted through the
    subscriber as external messages were delivered. -/
def NoFeedback (formatTime : Int → String) (ext : String → Option Value → Prop) : Prop :=
  ∀ s, (busSystem formatTime ext).Reachable s → s.persisted ≤ s.delivered

/-- The subscriber does not receive the message, cannot read it, or classifies it
    as an alert. -/
def AlertOnly (subject : String) (data : Option Value) : Prop :=
  Subject.isMatch complianceSubject subject = true →
    ∀ raw, unmarshalMap data = some raw → determineEventType subject raw = .alert

variable {formatTime : Int → String} {ext : String → Option Value → Prop} {s s' : BusState}

/-! ## Section 1: Alerts do not come back -/

/-- Only alerts are under way, and each stands for a delivered external message. -/
structure Quiet (s : BusState) : Prop where
  inFlight : ∀ m ∈ s.inFlight, AlertOnly m.subject m.data
    ∧ (m.external = false → Subject.isMatch complianceSubject m.subject = false)
  pending : ∀ e ∈ s.pending, e.type = .alert
  outbox : ∀ out ∈ s.outbox, out.1 = spectreNetworkSubject .alert
  count : s.persisted + s.pending.length ≤ s.delivered

theorem alert_subject_no_match :
    Subject.isMatch complianceSubject (spectreNetworkSubject .alert) = false := by decide

/-- **Step lemma**: with such external messages every step keeps the bus quiet. -/
theorem quiet_step (hext : ∀ subject data, ext subject data → AlertOnly subject data)
    {l : BusAction} (hq : Quiet s) (hstep : (busSystem formatTime ext).step s l s') : Quiet s' := by
  cases l with
  | external subject data =>
    obtain ⟨hallowed, rfl⟩ := hstep
    refine ⟨?_, hq.pending, hq.outbox, hq.count⟩
    intro m' hm'
    rcases List.mem_append.mp hm' with hold | hnew
    · exact hq.inFlight m' hold
    · rw [List.mem_singleton] at hnew
      subst hnew
      exact ⟨hext subject data hallowed, by simp⟩
  | deliver i env =>
    obtain ⟨m, hget, hmatch, rfl⟩ := hstep
    obtain ⟨halert, hown⟩ := hq.inFlight m (List.mem_of_getElem? hget)
    -- a message that the subscriber receives is external
    have hexternal : m.external = true := by
      by_contra hne
      simp [hown (by simpa using hne)] at hmatch
    refine ⟨?_, ?_, hq.outbox, ?_⟩
    · exact fun m' hm' => hq.inFlight m' (List.mem_of_mem_eraseIdx hm')
    · intro e he
      rcases List.mem_append.mp he with hold | hnew
      · exact hq.pending e hold
      · -- what the handler hands on is classified as an alert
        unfold handleComplianceEvent at hnew
        cases hraw : unmarshalMap m.data with
        | none => simp [hraw] at hnew
        | some raw =>
          simp only [hraw, Option.toList_some, List.mem_singleton] at hnew
          subst hnew
          exact halert hmatch raw hraw
    · -- one delivery is one more pending event at most
      have hcount := hq.count
      have hone : (handleComplianceEvent env m).toList.length ≤ 1 := by
        cases handleComplianceEvent env m <;> simp
      simp only [List.length_append, hexternal, if_true]
      omega
  | push i env =>
    obtain ⟨e, hget, rfl⟩ := hstep
    refine ⟨hq.inFlight, ?_, ?_, ?_⟩
    · exact fun e' he' => hq.pending e' (List.mem_of_mem_eraseIdx he')
    · intro out hout
      rcases List.mem_append.mp hout with hold | hnew
      · exact hq.outbox out hold
      · rw [List.mem_singleton] at hnew
        subst hnew
        rw [pushNetworkEvent_subject, hq.pending e (List.mem_of_getElem? hget)]
    · -- the event leaves the pending ones, whether it is persisted or not
      have hcount := hq.count
      obtain ⟨hlt, _⟩ := List.getElem?_eq_some_iff.mp hget
      simp only [List.length_eraseIdx, hlt, if_true]
      split <;> omega
  | publish i ok =>
    obtain ⟨out, hget, rfl⟩ := hstep
    have hsubject := hq.outbox out (List.mem_of_getElem? hget)
    refine ⟨?_, hq.pending, ?_, hq.count⟩
    · intro m hm
      cases ok with
      | false => exact hq.inFlight m (by simpa using hm)
      | true =>
        simp only [if_true, List.mem_append, List.mem_singleton] at hm
        rcases hm with hold | rfl
        · exact hq.inFlight m hold
        · -- the published alert is on a subject nobody here subscribes to
          have hno : Subject.isMatch complianceSubject out.1 = false := by
            rw [hsubject]
            exact alert_subject_no_match
          exact ⟨fun hmatch => by simp [hno] at hmatch, fun _ => hno⟩
    · exact fun out' hout' => hq.outbox out' (List.mem_of_mem_eraseIdx hout')

/-- **Run lemma**: alerts alone cause no feedback. -/
theorem noFeedback_of_alertOnly
    (hext : ∀ subject data, ext subject data → AlertOnly subject data) :
    NoFeedback formatTime ext := by
  intro s hreach
  have hquiet : Quiet s := by
    apply hreach.invariant (P := Quiet)
    · rintro s rfl
      exact ⟨by simp, by simp, by simp, by simp⟩
    · intro s l s' hq hstep
      exact quiet_step hext hq hstep
  have hcount := hquiet.count
  omega

/-! ## Section 2: Compliance events come back -/

def siemSubject : String := spectreNetworkSubject .compliance

theorem siem_subject_match : Subject.isMatch complianceSubject siemSubject = true := by decide

/-- What the pipeline publishes for a compliance event is classified as one. -/
theorem handle_own_document (env : HandleEnv) (ev : Event) :
    ∃ e, handleComplianceEvent env ⟨siemSubject, some (ev.document formatTime), false⟩ = some e
      ∧ e.type = .compliance := by
  refine ⟨_, rfl, ?_⟩
  have hne : siemSubject ≠ "neotron.compliance.violation.v1" := by decide
  -- the document has no `passed` and no `severity`: not passed, but of no severity
  simp [convertToNetworkEvent, determineEventType, rawBool, rawString, hne, Map.ofFields,
    Value.asBool, Value.asString]

/-- Nothing is under way but a compliance event of the pipeline itself. -/
def Looping (formatTime : Int → String) (s : BusState) : Prop :=
  ∃ ev : Event, s.inFlight = [⟨siemSubject, some (ev.document formatTime), false⟩]
    ∧ s.pending = [] ∧ s.outbox = []

/-- An environment in which every call succeeds. -/
def calmPush : PushEnv := ⟨"id", 0, id, none, none, true⟩

def calmHandle : HandleEnv := ⟨"id", 0, fun _ => none⟩

/-- A pending compliance event is persisted and published again. -/
theorem looping_of_pending {e : NetworkEvent} (hcomp : e.type = .compliance)
    (hin : s.inFlight = []) (hpend : s.pending = [e]) (hout : s.outbox = []) :
    ∃ s', (busSystem formatTime ext).Steps s s' ∧ Looping formatTime s'
      ∧ s'.persisted = s.persisted + 1 ∧ s'.delivered = s.delivered := by
  have hsubject : (pushNetworkEvent calmPush e).subject = siemSubject := by
    rw [pushNetworkEvent_subject, hcomp]
    rfl
  obtain ⟨inFlight, pending, outbox, delivered, persisted⟩ := s
  simp only at hin hpend hout
  subst hin hpend hout
  let ev := (pushNetworkEvent calmPush e).published
  have hpush : (busSystem formatTime ext).step ⟨[], [e], [], delivered, persisted⟩
      (.push 0 calmPush) ⟨[], [], [(siemSubject, ev)], delivered, persisted + 1⟩ :=
    ⟨e, rfl, by rw [hsubject]; rfl⟩
  have hpublish : (busSystem formatTime ext).step
      ⟨[], [], [(siemSubject, ev)], delivered, persisted + 1⟩ (.publish 0 true)
      ⟨[⟨siemSubject, some (ev.document formatTime), false⟩], [], [], delivered, persisted + 1⟩ :=
    ⟨_, rfl, rfl⟩
  exact ⟨_, ((System.Steps.refl _).tail hpush).tail hpublish, ⟨ev, rfl, rfl, rfl⟩, rfl, rfl⟩

/-- **Round lemma**: the loop persists one more event and starts again, without
    any external message. -/
theorem looping_round (hloop : Looping formatTime s) :
    ∃ s', (busSystem formatTime ext).Steps s s' ∧ Looping formatTime s'
      ∧ s'.persisted = s.persisted + 1 ∧ s'.delivered = s.delivered := by
  obtain ⟨ev, hin, hpend, hout⟩ := hloop
  obtain ⟨e, hhandle, hcomp⟩ := @handle_own_document formatTime calmHandle ev
  obtain ⟨inFlight, pending, outbox, delivered, persisted⟩ := s
  simp only at hin hpend hout
  subst hin hpend hout
  obtain ⟨s', hrun, hloop', hpers, hdel⟩ := @looping_of_pending formatTime ext
    ⟨[], [e], [], delivered, persisted⟩ e hcomp rfl rfl rfl
  have hdeliver : (busSystem formatTime ext).step
      ⟨[⟨siemSubject, some (ev.document formatTime), false⟩], [], [], delivered, persisted⟩
      (.deliver 0 calmHandle) ⟨[], [e], [], delivered, persisted⟩ :=
    ⟨_, rfl, siem_subject_match, by simp [hhandle]⟩
  exact ⟨s', Relation.ReflTransGen.head ⟨_, hdeliver⟩ hrun, hloop', hpers, hdel⟩

/-- One external message that is not classified as an alert starts the loop. -/
theorem looping_of_external {subject : String} {data : Option Value} (hallowed : ext subject data)
    (hbad : ¬ AlertOnly subject data) :
    ∃ s, (busSystem formatTime ext).Reachable s ∧ Looping formatTime s ∧ s.delivered = 1
      ∧ s.persisted = 1 := by
  -- the message is received, read and classified as a compliance event
  unfold AlertOnly at hbad
  push Not at hbad
  obtain ⟨hmatch, raw, hraw, hnot⟩ := hbad
  have hcomp := (determineEventType_cases subject raw).resolve_left hnot
  let e := convertToNetworkEvent calmHandle subject raw
  have hinit : (busSystem formatTime ext).Reachable ⟨[], [], [], 0, 0⟩ := System.Reachable.init rfl
  have hexternal : (busSystem formatTime ext).step ⟨[], [], [], 0, 0⟩ (.external subject data)
      ⟨[⟨subject, data, true⟩], [], [], 0, 0⟩ := ⟨hallowed, rfl⟩
  have hdeliver : (busSystem formatTime ext).step ⟨[⟨subject, data, true⟩], [], [], 0, 0⟩
      (.deliver 0 calmHandle) ⟨[], [e], [], 1, 0⟩ :=
    ⟨_, rfl, hmatch, by simp [handleComplianceEvent, hraw, e]⟩
  obtain ⟨s₀, hs₀, hrun₀⟩ := (hinit.tail hexternal).tail hdeliver
  obtain ⟨s, hrun, hloop, hpers, hdel⟩ := @looping_of_pending formatTime ext
    ⟨[], [e], [], 1, 0⟩ e hcomp rfl rfl rfl
  exact ⟨s, ⟨s₀, hs₀, hrun₀.trans hrun⟩, hloop, hdel, hpers⟩

/-- **Amplification**: from then on it persists any number of events. -/
theorem feedback_unbounded {subject : String} {data : Option Value} (hallowed : ext subject data)
    (hbad : ¬ AlertOnly subject data) (n : Nat) :
    ∃ s, (busSystem formatTime ext).Reachable s ∧ Looping formatTime s ∧ s.delivered = 1
      ∧ s.persisted = n + 1 := by
  induction n with
  | zero => exact looping_of_external hallowed hbad
  | succ n ih =>
    obtain ⟨s, ⟨s₀, hs₀, hrun₀⟩, hloop, hdel, hpers⟩ := ih
    obtain ⟨s', hrun, hloop', hpers', hdel'⟩ := looping_round hloop
    exact ⟨s', ⟨s₀, hs₀, hrun₀.trans hrun⟩, hloop', by rw [hdel', hdel], by rw [hpers', hpers]⟩

/-! ## Section 3: When there is no feedback -/

/-- **No feedback**, exactly for the external messages that the subscriber does
    not receive, cannot read or classifies as alerts. -/
theorem noFeedback_iff :
    NoFeedback formatTime ext ↔ ∀ subject data, ext subject data → AlertOnly subject data := by
  constructor
  · intro hno subject data hallowed
    by_contra hbad
    obtain ⟨s, hreach, _, hdel, hpers⟩ := feedback_unbounded hallowed hbad 1
    have hle := hno s hreach
    omega
  · exact noFeedback_of_alertOnly

/-- A check that passed. -/
def passedCheck : Value := .obj [("severity", .str "info"), ("passed", .bool true)]

/-- The only external messages are passed checks of the sentinel. -/
def sentinelOnly (subject : String) (data : Option Value) : Prop :=
  subject = "neotron.compliance.sentinel.v1" ∧ data = some passedCheck

theorem passedCheck_not_alertOnly :
    ¬ AlertOnly "neotron.compliance.sentinel.v1" (some passedCheck) := by
  intro halert
  have htype := halert (by decide) _ rfl
  revert htype
  decide

/-- One passed check of the sentinel is delivered and two events are persisted. -/
theorem passed_check_feeds_back :
    (∃ s, (busSystem (fun _ => "1970-01-01T00:00:00Z") sentinelOnly).Reachable s
      ∧ s.delivered = 1 ∧ s.persisted = 2)
    ∧ ¬ NoFeedback (fun _ => "1970-01-01T00:00:00Z") sentinelOnly := by
  have htwo : ∃ s, (busSystem (fun _ => "1970-01-01T00:00:00Z") sentinelOnly).Reachable s
      ∧ s.delivered = 1 ∧ s.persisted = 2 := by
    obtain ⟨s, hreach, _, hdel, hpers⟩ :=
      @feedback_unbounded _ sentinelOnly _ _ ⟨rfl, rfl⟩ passedCheck_not_alertOnly 1
    exact ⟨s, hreach, hdel, hpers⟩
  refine ⟨htwo, fun hno => ?_⟩
  obtain ⟨s, hreach, hdel, hpers⟩ := htwo
  have hle := hno s hreach
  omega

end Owasaka.Events
