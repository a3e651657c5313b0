import Owasaka.Authz.SharedAttrs
import Owasaka.Foundation.System
import Owasaka.Identity.Middleware
import Owasaka.Jwt.Lifetime

/-! # Protected handlers (`authz/middleware.go`)

    `RequirePermission` is chained after `RequireAuth`: the principal that a request
    authenticates as is checked against the policy, the decision is recorded, and the
    handler is called when it allows.

    A run interleaves requests with everything that they read: principals are saved
    and change status, the policy is reloaded, keys rotate and tokens are revoked.

    ## Abstract view

    A handler runs for an active principal with a grant and for no other request, and
    the audit trail lists exactly the decisions that were taken. -/

namespace Owasaka.Authz

open Identity AuthMiddleware

/-! ## Section 1: The chain -/

/-- The status and text of a refusal, or the principal that the handler is run for. -/
inductive GateReply where
  | refused (status : Nat) (text : String)
  | served (p : Principal)

/-- `AttrsFromRequest` with the principal in the context. -/
def attrsFromRequest (p : Principal) (req : Request) : AnyMap :=
  let out := (∅ : AnyMap).insert "principal_id" (.str p.id)
  let out := match req.commonName with
    | some cn => out.insert "cn" (.str cn)
    | none => out
  if req.subject ≠ "" then out.insert "subject" (.str req.subject) else out

/-- `RequirePermission`: the reply and the events that the sink was given. -/
def requirePermission (current : Option Policy) (resource action : String)
    (principal : Option Principal) (req : Request) : GateReply × List AuditEvent :=
  match principal with
  | none => (.refused 401 "authentication required", [])
  | some p =>
    let result := allowed current (some p) resource action (some (attrsFromRequest p req))
    let ev : AuditEvent :=
      { principalID := p.id, roles := principalRoles p, resource := resource, action := action,
        decision := "deny", reason := "", attrs := result.2 }
    match result.1 with
    | .error .engineNotInitialized =>
      (.refused 500 "authorization unavailable",
        [{ ev with reason := "engine error: authz: engine not initialized with a policy" }])
    | .ok d =>
      if !d.allowed then (.refused 403 "permission denied", [{ ev with reason := d.reason }])
      else (.served p, [{ ev with decision := "allow", reason := d.reason }])

/-- `RequireAuth` around `RequirePermission`. -/
def protectedHandler (m : Middleware) (w : World) (current : Option Policy)
    (resource action : String) (req : Request) : GateReply × List AuditEvent :=
  match requireAuth m w req with
  | .error (status, text) => (.refused status text, [])
  | .ok p => requirePermission current resource action (some p) req

/-! ## Section 2: Exactly who is served -/

/-- The request authenticates as the principal. -/
def Authenticates (m : Middleware) (w : World) (req : Request) (p : Principal) : Prop :=
  p.isActive = true ∧ ∃ token, Carries req token ∧ StandsFor m w token p

/-- What the chain does with one request. -/
structure Gated (m : Middleware) (w : World) (current : Option Policy) (resource action : String)
    (req : Request) (result : GateReply × List AuditEvent) : Prop where
  served : ∀ p, result.1 = .served p ↔ Authenticates m w req p
    ∧ ∃ policy, current = some policy ∧ Granted policy p resource action (attrsFromRequest p req)
  /-- One event for each request that authenticates, and it says what was decided. -/
  audited : ∀ p, Authenticates m w req p → ∃ ev, result.2 = [ev] ∧ ev.principalID = p.id
    ∧ ev.roles = principalRoles p ∧ ev.resource = resource ∧ ev.action = action
    ∧ ((ev.decision = "allow" ∧ result.1 = .served p)
      ∨ (ev.decision = "deny" ∧ current ≠ none ∧ result.1 = .refused 403 "permission denied")
      ∨ (ev.decision = "deny" ∧ current = none ∧ result.1 = .refused 500 "authorization unavailable"))
  /-- No event for a request that does not. -/
  silent : (∀ p, ¬ Authenticates m w req p) → result.2 = []
    ∧ (result.1 = .refused 401 "authentication required" ∨ result.1 = .refused 403 "principal inactive")

section

variable {m : Middleware} {w : World} {current : Option Policy} {resource action : String}
  {req : Request} {p : Principal}

theorem requireAuth_ok_iff : requireAuth m w req = .ok p ↔ Authenticates m w req p := by
  rw [Authenticates, ← authenticate_ok_iff]
  unfold requireAuth
  cases authenticate m w req <;> simp

theorem requireAuth_error {e : Nat × String} (herr : requireAuth m w req = .error e) :
    e = (401, "authentication required") ∨ e = (403, "principal inactive") := by
  unfold requireAuth at herr
  split at herr
  · rw [← Except.error.inj herr]
    unfold writeAuthError
    split
    · exact Or.inr rfl
    · exact Or.inl rfl
  · contradiction

theorem requirePermission_of_not_granted (policy : Policy)
    (hdeny : ¬ Granted policy p resource action (attrsFromRequest p req)) : ∃ reason,
    requirePermission (some policy) resource action (some p) req
      = (.refused 403 "permission denied", [⟨p.id, principalRoles p, resource, action, "deny", reason,
        (allowed (some policy) (some p) resource action (some (attrsFromRequest p req))).2⟩]) := by
  have hfalse : isAllowed policy p resource action (some (attrsFromRequest p req)) = false := by
    rw [← Bool.not_eq_true, isAllowed_iff]
    exact hdeny
  unfold requirePermission
  unfold isAllowed at hfalse
  simp only
  cases hresult : (allowed (some policy) (some p) resource action (some (attrsFromRequest p req))).1 with
  | error e => simp [allowed] at hresult; split at hresult <;> contradiction
  | ok d =>
    rw [hresult] at hfalse
    simp only at hfalse
    exact ⟨d.reason, by simp only [hfalse, Bool.not_false, if_true]⟩

theorem requirePermission_of_granted (policy : Policy)
    (hgranted : Granted policy p resource action (attrsFromRequest p req)) : ∃ reason,
    requirePermission (some policy) resource action (some p) req
      = (.served p, [⟨p.id, principalRoles p, resource, action, "allow", reason,
        (allowed (some policy) (some p) resource action (some (attrsFromRequest p req))).2⟩]) := by
  have htrue : isAllowed policy p resource action (some (attrsFromRequest p req)) = true := by
    rw [isAllowed_iff]
    exact hgranted
  unfold requirePermission
  unfold isAllowed at htrue
  simp only
  cases hresult : (allowed (some policy) (some p) resource action (some (attrsFromRequest p req))).1 with
  | error e =>
    rw [hresult] at htrue
    contradiction
  | ok d =>
    rw [hresult] at htrue
    simp only at htrue
    exact ⟨d.reason, by simp only [htrue, Bool.not_true, Bool.false_eq_true, if_false]⟩

theorem requirePermission_of_no_policy (p : Principal) (resource action : String) (req : Request) : ∃ ev,
    requirePermission none resource action (some p) req
      = (.refused 500 "authorization unavailable", [ev]) ∧ ev.principalID = p.id
      ∧ ev.roles = principalRoles p ∧ ev.resource = resource ∧ ev.action = action
      ∧ ev.decision = "deny" :=
  ⟨_, rfl, rfl, rfl, rfl, rfl, rfl⟩

/-- **The gate**: who is served, and what is recorded. -/
theorem protectedHandler_gated (m : Middleware) (w : World) (current : Option Policy)
    (resource action : String) (req : Request) :
    Gated m w current resource action req (protectedHandler m w current resource action req) := by
  unfold protectedHandler
  cases hauth : requireAuth m w req with
  | error e =>
    have hno : ∀ p, ¬ Authenticates m w req p := by
      intro p hp
      rw [requireAuth_ok_iff.mpr hp] at hauth
      contradiction
    refine ⟨fun p => by simp [hno p], fun p hp => absurd hp (hno p), fun _ => ⟨rfl, ?_⟩⟩
    rcases requireAuth_error hauth with rfl | rfl
    · exact Or.inl rfl
    · exact Or.inr rfl
  | ok p =>
    have hp := requireAuth_ok_iff.mp hauth
    have hunique : ∀ q, Authenticates m w req q ↔ q = p := by
      intro q
      rw [← requireAuth_ok_iff, hauth, Except.ok.injEq, eq_comm]
    simp only
    have hsilent : ¬ ∀ q, ¬ Authenticates m w req q := fun hno => hno p hp
    cases current with
    | none =>
      obtain ⟨ev, heq, hid, hroles, hresource, haction, hdecision⟩ :=
        requirePermission_of_no_policy p resource action req
      rw [heq]
      refine ⟨fun q => by simp, ?_, fun hno => absurd hno hsilent⟩
      intro q hq
      rw [(hunique q).mp hq]
      exact ⟨ev, rfl, hid, hroles, hresource, haction, Or.inr (Or.inr ⟨hdecision, rfl, rfl⟩)⟩
    | some policy =>
      by_cases hgranted : Granted policy p resource action (attrsFromRequest p req)
      · obtain ⟨reason, heq⟩ := requirePermission_of_granted policy hgranted
        rw [heq]
        refine ⟨?_, ?_, fun hno => absurd hno hsilent⟩
        · intro q
          rw [GateReply.served.injEq, hunique]
          constructor
          · intro h
            subst h
            exact ⟨rfl, policy, rfl, hgranted⟩
          · exact fun h => h.1.symm
        · intro q hq
          rw [(hunique q).mp hq]
          exact ⟨_, rfl, rfl, rfl, rfl, rfl, Or.inl ⟨rfl, rfl⟩⟩
      · obtain ⟨reason, heq⟩ := requirePermission_of_not_granted policy hgranted
        rw [heq]
        refine ⟨?_, ?_, fun hno => absurd hno hsilent⟩
        · intro q
          constructor
          · intro h
            contradiction
          · intro ⟨hq, policy', hpolicy, hgranted'⟩
            cases hpolicy
            rw [(hunique q).mp hq] at hgranted'
            exact absurd hgranted' hgranted
        · intro q hq
          rw [(hunique q).mp hq]
          exact ⟨_, rfl, rfl, rfl, rfl, rfl, Or.inr (Or.inl ⟨rfl, by simp, rfl⟩)⟩

end

/-! ## Section 3: Runs -/

structure GateState where
  principals : PrincipalStore
  keys : Pki.KeyStore
  revocations : Jwt.RevocationChecker
  now : Int
  policy : Option Policy
  /-- The events that the sink was given, oldest first. -/
  audit : List AuditEvent
  /-- The principals that a handler was run for, oldest first. -/
  served : List Principal

inductive GateAction where
  | save (p : Principal)
  | updateStatus (id : String) (status : PrincipalStatus)
  /-- Keys, denylist, clock and policy are now these. -/
  | reload (keys : Pki.KeyStore) (revocations : Jwt.RevocationChecker) (now : Int)
      (policy : Option Policy)
  | request (resource action : String) (req : Request)

namespace GateState

/-- What a request reads in the state. -/
def world (lib : Jwt.Library) (s : GateState) : World :=
  ⟨lib, s.revocations, s.keys, s.principals, s.now⟩

/-- The state with the reply's handler run and its events recorded. -/
def record (s : GateState) (result : GateReply × List AuditEvent) : GateState :=
  { s with
    audit := s.audit ++ result.2
    served := match result.1 with
      | .served p => s.served ++ [p]
      | .refused _ _ => s.served }

/-- The state after a call of the store; one that fails changes nothing. -/
def stored (s : GateState) : Except IdentityError PrincipalStore → GateState
  | .ok principals => { s with principals := principals }
  | .error _ => s

def act (m : Middleware) (lib : Jwt.Library) (s : GateState) : GateAction → GateState
  | .save p => s.stored (s.principals.save p)
  | .updateStatus id status => s.stored (s.principals.updateStatus id status)
  | .reload keys revocations now policy =>
    { s with keys := keys, revocations := revocations, now := now, policy := policy }
  | .request resource action req =>
    s.record (protectedHandler m (s.world lib) s.policy resource action req)

/-- The audit trail lists the handler runs, in order, and no other allowance. -/
def Trail (s : GateState) : Prop :=
  (s.audit.filter fun ev => ev.decision = "allow").map AuditEvent.principalID
    = s.served.map Principal.id

/-- No principal with this ID is active. -/
def Inactive (s : GateState) (id : String) : Prop :=
  ∀ p, s.principals.byID id = some p → p.isActive = false

end GateState

/-- The action makes the principal with this ID active. -/
def GateAction.Activates (id : String) : GateAction → Prop
  | .save p => p.id = id ∧ p.isActive = true
  | .updateStatus id' status => id' = id ∧ status = .active
  | _ => False

section

variable {m : Middleware} {lib : Jwt.Library} {s : GateState} {a : GateAction} {id : String}

theorem GateState.stored_history (s : GateState) (r : Except IdentityError PrincipalStore) :
    (s.stored r).audit = s.audit ∧ (s.stored r).served = s.served := by
  cases r <;> exact ⟨rfl, rfl⟩

theorem GateState.Trail.stored (htrail : s.Trail) (r : Except IdentityError PrincipalStore) :
    (s.stored r).Trail := by
  obtain ⟨haudit, hserved⟩ := s.stored_history r
  unfold GateState.Trail
  rw [haudit, hserved]
  exact htrail

theorem GateState.Trail.record (htrail : s.Trail) {w : World} {resource action : String}
    {req : Request} {result : GateReply × List AuditEvent}
    (hgated : Gated m w s.policy resource action req result) : (s.record result).Trail := by
  unfold GateState.Trail GateState.record at *
  by_cases hauth : ∃ p, Authenticates m w req p
  · obtain ⟨p, hp⟩ := hauth
    obtain ⟨ev, hevents, hid, _, _, _, hcases⟩ := hgated.audited p hp
    rw [hevents]
    rcases hcases with ⟨hdecision, hreply⟩ | ⟨hdecision, _, hreply⟩ | ⟨hdecision, _, hreply⟩
    · rw [hreply]
      simp [hdecision, htrail, hid]
    · rw [hreply]
      simp [hdecision, htrail]
    · rw [hreply]
      simp [hdecision, htrail]
  · obtain ⟨hevents, hreply⟩ := hgated.silent fun p hp => hauth ⟨p, hp⟩
    rw [hevents]
    rcases hreply with hreply | hreply
    · rw [hreply]
      simpa using htrail
    · rw [hreply]
      simpa using htrail

/-- **Step lemma** for the trail. -/
theorem GateState.Trail.act (htrail : s.Trail) (a : GateAction) : (s.act m lib a).Trail := by
  cases a with
  | save p => exact htrail.stored _
  | updateStatus id status => exact htrail.stored _
  | reload keys revocations now policy => exact htrail
  | request resource action req =>
    exact htrail.record (protectedHandler_gated m (s.world lib) s.policy resource action req)

theorem GateState.Inactive.stored (hinactive : s.Inactive id) {r : Except IdentityError PrincipalStore}
    (hr : ∀ principals p, r = .ok principals → principals.byID id = some p →
      s.principals.byID id = some p ∨ p.isActive = false) : (s.stored r).Inactive id := by
  cases r with
  | error e => exact hinactive
  | ok principals =>
    intro p hp
    rcases hr principals p rfl hp with hold | hnew
    · exact hinactive p hold
    · exact hnew

/-- An action that does not activate a principal leaves it inactive. -/
theorem GateState.Inactive.act (hinactive : s.Inactive id) (hnot : ¬ a.Activates id) :
    (s.act m lib a).Inactive id := by
  cases a with
  | save p =>
    apply hinactive.stored
    intro principals q hok hq
    unfold PrincipalStore.save at hok
    split at hok
    · contradiction
    · cases hok
      simp only [PrincipalStore.write] at hq
      split at hq
      · next heq =>
        cases hq
        exact Or.inr (Bool.eq_false_iff.mpr fun htrue => hnot ⟨heq.symm, htrue⟩)
      · exact Or.inl hq
  | updateStatus id' status =>
    apply hinactive.stored
    intro principals q hok hq
    unfold PrincipalStore.updateStatus at hok
    split at hok
    · contradiction
    · next p hp =>
      cases hok
      simp only [PrincipalStore.write] at hq
      split at hq
      · next heq =>
        cases hq
        have hid : id' = id := (s.principals.id_eq id' p hp).symm.trans heq.symm
        exact Or.inr (Bool.eq_false_iff.mpr fun htrue => hnot ⟨hid, of_decide_eq_true htrue⟩)
      · exact Or.inl hq
  | reload keys revocations now policy => exact hinactive
  | request resource action req => exact hinactive

end

end Owasaka.Authz
