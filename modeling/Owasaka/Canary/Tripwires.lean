import Mathlib.Data.List.Induction
import Owasaka.Canary.Interleavings
import Owasaka.Canary.Planted

/-! # Tripwires (`canary/trigger.go`, `canary/token.go`, `api/canary_webhook.go`)

    Tokens are minted, events come in, and for every alert a call of `RecordTrigger` reads
    the event, finds the token and saves it, each in a transaction of its own.  The calls
    run beside each other, and a save that fails is not noticed.

    ## Abstract view

    The history of a token is what the calls have saved at its slug since it was minted.  As
    long as no other token has its ID or its slug, which are both random, it is as if some
    of them had saved it one after another: all of them, if none found the token before the
    one before it had saved it, and no save failed. -/

namespace Owasaka.Canary

open Events Json

/-! ## Section 1: Histories -/

/-- What has happened: a token was minted, or a call has found a token by its slug, has
    saved it with one more trigger, or could not save it. -/
inductive Op where
  | minted (t : CanaryToken)
  | found (slug : String)
  | counted (slug : String) (now : Int) (source : String)
  | missed (slug : String)

def Op.token? : Op → Option CanaryToken
  | .minted t => some t
  | _ => none

/-- A trigger saved at the slug, as its time and its source. -/
def Op.hit? (slug : String) : Op → Option (Int × String)
  | .counted slug' now source => if slug' = slug then some (now, source) else none
  | _ => none

def mintedOf (ops : List Op) : List CanaryToken := ops.filterMap Op.token?

def hitsOf (slug : String) (ops : List Op) : List (Int × String) := ops.filterMap (Op.hit? slug)

/-- Whether a call has found the token of the slug and not saved it yet; `none` once two
    calls have found it, or one could not save it. -/
def turn (slug : String) (busy : Option Bool) : Op → Option Bool
  | .minted _ => busy
  | .found slug' =>
    if slug' = slug then if busy = some false then some true else none else busy
  | .counted slug' _ _ =>
    if slug' = slug then if busy = some true then some false else none else busy
  | .missed slug' => if slug' = slug then none else busy

def turns (slug : String) (ops : List Op) : Option Bool := ops.foldl (turn slug) (some false)

/-- The calls about the slug find and save its token one after another, and no save fails. -/
def InTurn (slug : String) (ops : List Op) : Prop := (turns slug ops).isSome

/-- The token after the hits. -/
def CanaryToken.hitBy (t : CanaryToken) (hits : List (Int × String)) : CanaryToken :=
  { t with
    triggerCount := t.triggerCount + Int64.ofNat hits.length
    triggeredAt := (hits.map fun hit => some hit.1).getLastD t.triggeredAt
    lastTriggerSource := (hits.map Prod.snd).getLastD t.lastTriggerSource }

variable {n : Nat}

/-- What is done: tokens are minted, events are stored, and the calls of `RecordTrigger` take
    their steps. -/
inductive Action (n : Nat) where
  | createDNS (label : String) (d : Draw) (fails : Bool)
  | createHTTP (label : String) (d : Draw) (fails : Bool)
  | createHoneypot (label : String) (d : Draw) (fails : Bool)
  | logEvent (e : NetworkEvent)
  | call (a : TriggerAction n)
  /-- The save of a call fails; its error is dropped. -/
  | failedSave (i : Fin n)

/-- The database and the calls, with the history. -/
structure Tripwires (n : Nat) where
  trigger : TriggerState n
  done : List Op

namespace Tripwires

def repo (s : Tripwires n) : Repository := s.trigger.repo

def calls (s : Tripwires n) (i : Fin n) : TriggerCall := s.trigger.calls i

/-- The state after a token is made. -/
def mint (s : Tripwires n) : Option (CanaryToken × Repository) → Tripwires n
  | none => s
  | some (t, repo) => ⟨s.trigger.setRepo repo, s.done ++ [.minted t]⟩

/-- What a step of a call adds to the history. -/
def callOp (alerts : Fin n → NetworkEvent) (s : Tripwires n) : TriggerAction n → Option Op
  | .getEvent _ => none
  | .findCanaryToken i =>
    match s.calls i with
    | .looking token => (s.repo.findCanaryTokenByToken token).map fun _ => .found token
    | _ => none
  | .saveCanaryToken i now =>
    match s.calls i with
    | .found ct => some (.counted ct.token now (alerts i).destination)
    | _ => none

/-- One step; the calls are for the given alerts. -/
def act (cfg : CanaryConfig) (alerts : Fin n → NetworkEvent) (s : Tripwires n) :
    Action n → Tripwires n
  | .createDNS label d fails => s.mint (generateDNSToken s.repo cfg.dnsZone label d fails)
  | .createHTTP label d fails =>
    s.mint (generateHTTPToken s.repo cfg.webhookBaseURL cfg.webhookPath label d fails)
  | .createHoneypot label d fails =>
    s.mint (generateHoneypotToken s.repo cfg.webhookBaseURL cfg.webhookPath label d fails)
  | .logEvent e =>
    { s with trigger := s.trigger.setRepo { s.repo with events := s.repo.events.insert e.id e } }
  | .call a =>
    match triggerStep alerts s.trigger a with
    | none => s
    | some trigger => ⟨trigger, s.done ++ (s.callOp alerts a).toList⟩
  | .failedSave i =>
    match s.calls i with
    | .found ct => ⟨s.trigger.setCall i .returned, s.done ++ [.missed ct.token]⟩
    | _ => s

/-- A run from a database without tokens, before any call. -/
def run (cfg : CanaryConfig) (alerts : Fin n → NetworkEvent)
    (events : Std.ExtTreeMap String NetworkEvent) (actions : List (Action n)) : Tripwires n :=
  actions.foldl (act cfg alerts) ⟨⟨⟨events, .empty⟩, fun _ => .ready⟩, []⟩

end Tripwires

variable {cfg : CanaryConfig} {alerts : Fin n → NetworkEvent} {s s' : Tripwires n} {t ct : CanaryToken}
  {before after after' : List Op} {i : Fin n}

/-- The slug of a token is a drawn one, and it is in what is planted. -/
structure Proper (cfg : CanaryConfig) (t : CanaryToken) : Prop where
  slug : ∃ d : Draw, t.token = d.slug
  subdomain : t.type = canaryDNS → t.subdomain = t.token ++ "." ++ cfg.dnsZone
  url : t.type ≠ canaryDNS → t.url = webhookURL cfg.webhookBaseURL cfg.webhookPath t.token

/-- What a step can do. -/
inductive Change (cfg : CanaryConfig) (alerts : Fin n → NetworkEvent) (s : Tripwires n) :
    Tripwires n → Prop where
  | quiet {s' : Tripwires n} (hdone : s'.done = s.done) (htokens : s'.repo.tokens = s.repo.tokens)
      (hcalls : ∀ i ct, s'.calls i = .found ct → s.calls i = .found ct) : Change cfg alerts s s'
  | minted {t : CanaryToken} (hproper : Proper cfg t) :
      Change cfg alerts s ⟨s.trigger.setRepo (s.repo.saveCanaryToken t), s.done ++ [.minted t]⟩
  | found {i : Fin n} {ct : CanaryToken} (hfind : s.repo.findCanaryTokenByToken ct.token = some ct) :
      Change cfg alerts s ⟨s.trigger.setCall i (.found ct), s.done ++ [.found ct.token]⟩
  | counted {i : Fin n} {ct : CanaryToken} {now : Int} (hcall : s.calls i = .found ct) :
      Change cfg alerts s ⟨(s.trigger.setCall i .returned).setRepo
          (s.repo.saveCanaryToken (ct.triggered now (alerts i).destination)),
        s.done ++ [.counted ct.token now (alerts i).destination]⟩
  | missed {i : Fin n} {ct : CanaryToken} (hcall : s.calls i = .found ct) :
      Change cfg alerts s ⟨s.trigger.setCall i .returned, s.done ++ [.missed ct.token]⟩

theorem Change.refl (s : Tripwires n) : Change cfg alerts s s := .quiet rfl rfl fun _ _ hcall => hcall

theorem change_plant (hproper : Proper cfg t) (fails : Bool) :
    Change cfg alerts s (s.mint (s.repo.plant t fails)) := by
  cases fails with
  | true => exact Change.refl s
  | false => exact .minted hproper

/-- A call that moves on without a token. -/
theorem change_setCall {call : TriggerCall} (hcall : ∀ ct, call ≠ .found ct) :
    Change cfg alerts s ⟨s.trigger.setCall i call, s.done⟩ := by
  refine .quiet rfl rfl ?_
  intro j ct hfound
  rcases TriggerState.calls_cases hfound with ⟨_, heq⟩ | ⟨_, hold⟩
  · exact absurd heq (hcall ct)
  · exact hold

theorem change_call (a : TriggerAction n) : Change cfg alerts s (s.act cfg alerts (.call a)) := by
  cases hstep : triggerStep alerts s.trigger a with
  | none =>
    simp only [Tripwires.act, hstep]
    exact Change.refl s
  | some trigger =>
    simp only [Tripwires.act, hstep]
    cases a with
    | getEvent i =>
      simp only [Tripwires.callOp, Option.toList_none, List.append_nil]
      cases hcall : s.trigger.calls i with
      | ready =>
        cases hslug : alertToken s.trigger.repo (alerts i) with
        | none =>
          simp only [triggerStep, hcall, hslug, Option.some.injEq] at hstep
          rw [← hstep]
          exact change_setCall fun ct => by simp
        | some slug =>
          simp only [triggerStep, hcall, hslug, Option.some.injEq] at hstep
          rw [← hstep]
          exact change_setCall fun ct => by simp
      | looking token => simp [triggerStep, hcall] at hstep
      | found ct => simp [triggerStep, hcall] at hstep
      | returned => simp [triggerStep, hcall] at hstep
    | findCanaryToken i =>
      cases hcall : s.trigger.calls i with
      | looking token =>
        cases hfind : s.trigger.repo.findCanaryTokenByToken token with
        | none =>
          simp only [triggerStep, hcall, hfind, Option.some.injEq] at hstep
          simp only [Tripwires.callOp, Tripwires.calls, Tripwires.repo, hcall, hfind, Option.map_none,
            Option.toList_none, List.append_nil]
          rw [← hstep]
          exact change_setCall fun ct => by simp
        | some ct =>
          simp only [triggerStep, hcall, hfind, Option.some.injEq] at hstep
          obtain ⟨_, htoken, _⟩ := Repository.find_iff.mp hfind
          subst htoken
          simp only [Tripwires.callOp, Tripwires.calls, Tripwires.repo, hcall, hfind, Option.map_some,
            Option.toList_some]
          rw [← hstep]
          exact .found hfind
      | ready => simp [triggerStep, hcall] at hstep
      | found ct => simp [triggerStep, hcall] at hstep
      | returned => simp [triggerStep, hcall] at hstep
    | saveCanaryToken i now =>
      cases hcall : s.trigger.calls i with
      | found ct =>
        simp only [triggerStep, hcall, Option.some.injEq] at hstep
        simp only [Tripwires.callOp, Tripwires.calls, hcall, Option.toList_some]
        rw [← hstep]
        exact .counted hcall
      | ready => simp [triggerStep, hcall] at hstep
      | looking token => simp [triggerStep, hcall] at hstep
      | returned => simp [triggerStep, hcall] at hstep

theorem proper_dns (d : Draw) (label : String) :
    Proper cfg (mint d canaryDNS label (d.slug ++ "." ++ cfg.dnsZone) "") := by
  refine ⟨⟨d, rfl⟩, fun _ => rfl, ?_⟩
  intro hother
  exact absurd rfl hother

/-- The tokens with a URL. -/
theorem proper_webhook {type : CanaryTokenType} (htype : type ≠ canaryDNS) (d : Draw) (label : String) :
    Proper cfg (mint d type label "" (webhookURL cfg.webhookBaseURL cfg.webhookPath d.slug)) := by
  refine ⟨⟨d, rfl⟩, ?_, fun _ => rfl⟩
  intro hdns
  exact absurd hdns htype

/-- **Inversion**: every step is one of the changes. -/
theorem change_act (action : Action n) : Change cfg alerts s (s.act cfg alerts action) := by
  cases action with
  | createDNS label d fails => exact change_plant (proper_dns d label) fails
  | createHTTP label d fails => exact change_plant (proper_webhook (by decide) d label) fails
  | createHoneypot label d fails => exact change_plant (proper_webhook (by decide) d label) fails
  | logEvent e => exact .quiet rfl rfl fun _ _ hcall => hcall
  | call a => exact change_call a
  | failedSave i =>
    cases hcall : s.calls i with
    | found ct =>
      simp only [Tripwires.act, hcall]
      exact .missed hcall
    | ready =>
      simp only [Tripwires.act, hcall]
      exact Change.refl s
    | looking token =>
      simp only [Tripwires.act, hcall]
      exact Change.refl s
    | returned =>
      simp only [Tripwires.act, hcall]
      exact Change.refl s

/-! ## Section 2: What a run keeps -/

theorem hitBy_nil (t : CanaryToken) : t.hitBy [] = t := by
  simp [CanaryToken.hitBy]

theorem hitBy_concat (t : CanaryToken) (hits : List (Int × String)) (now : Int) (source : String) :
    t.hitBy (hits ++ [(now, source)]) = (t.hitBy hits).triggered now source := by
  simp [CanaryToken.hitBy, CanaryToken.triggered, Int64.ofNat_add, Int64.add_assoc]

theorem mintedOf_concat (ops : List Op) (op : Op) :
    mintedOf (ops ++ [op]) = mintedOf ops ++ op.token?.toList := by
  unfold mintedOf
  rw [List.filterMap_append]
  cases op <;> rfl

theorem mintedOf_split (before : List Op) (t : CanaryToken) (after : List Op) :
    mintedOf (before ++ .minted t :: after) = mintedOf before ++ t :: mintedOf after := by
  unfold mintedOf
  rw [List.filterMap_append]
  rfl

theorem hitsOf_concat (slug : String) (ops : List Op) (op : Op) :
    hitsOf slug (ops ++ [op]) = hitsOf slug ops ++ (op.hit? slug).toList := by
  unfold hitsOf
  rw [List.filterMap_append]
  cases hop : op.hit? slug with
  | none => simp [hop]
  | some hit => simp [hop]

theorem turns_concat (slug : String) (ops : List Op) (op : Op) :
    turns slug (ops ++ [op]) = turn slug (turns slug ops) op := by
  unfold turns
  rw [List.foldl_append, List.foldl_cons, List.foldl_nil]

/-- No other token has the ID or the slug. -/
def Alone (t : CanaryToken) (others : List CanaryToken) : Prop :=
  ∀ t' ∈ others, t'.id ≠ t.id ∧ t'.token ≠ t.token

/-- Of the tokens of a history, the one that is alone is told by its ID and by its slug. -/
theorem Alone.eq (halone : Alone t (mintedOf before ++ mintedOf after)) {t' : CanaryToken}
    (hmem : t' ∈ mintedOf (before ++ .minted t :: after)) (hsame : t'.id = t.id ∨ t'.token = t.token) :
    t' = t := by
  rw [mintedOf_split, List.mem_append, List.mem_cons] at hmem
  by_contra hne
  have hother : t' ∈ mintedOf before ++ mintedOf after := by
    rw [List.mem_append]
    rcases hmem with hfront | heq | hback
    · exact Or.inl hfront
    · exact absurd heq hne
    · exact Or.inr hback
  obtain ⟨hid, htoken⟩ := halone t' hother
  rcases hsame with heq | heq
  · exact hid heq
  · exact htoken heq

/-- The token is as if some of the triggers had been saved one after another. -/
def Behind (t : CanaryToken) (hits : List (Int × String)) (ct : CanaryToken) : Prop :=
  ∃ kept : List (Int × String), kept.Sublist hits ∧ ct = t.hitBy kept

theorem Behind.same {hits : List (Int × String)} (hbehind : Behind t hits ct) : SameToken t ct := by
  obtain ⟨kept, _, rfl⟩ := hbehind
  rfl

/-- A call that has returned holds nothing, and the others hold what they held. -/
theorem calls_returned {j : Fin n} (hcall : (s.trigger.setCall i .returned).calls j = .found ct) :
    j ≠ i ∧ s.calls j = .found ct := by
  rcases TriggerState.calls_cases hcall with ⟨_, heq⟩ | hold
  · contradiction
  · exact hold

/-- What is stored of a token, and what the calls hold of it. -/
structure Tracked (s : Tripwires n) (t : CanaryToken) (after : List Op) : Prop where
  stored : ∃ ct, s.repo.tokens.entries[t.id]? = some ct ∧ Behind t (hitsOf t.token after) ct
  held : ∀ i ct, s.calls i = .found ct → ct.token = t.token → Behind t (hitsOf t.token after) ct
  /-- While the calls take turns, every trigger counts. -/
  exact : ∀ busy, turns t.token after = some busy →
    s.repo.tokens.entries[t.id]? = some (t.hitBy (hitsOf t.token after))
      ∧ ∀ i ct, s.calls i = .found ct → ct.token = t.token →
        busy = true ∧ ct = t.hitBy (hitsOf t.token after)
          ∧ ∀ j ct', s.calls j = .found ct' → ct'.token = t.token → j = i

/-- What a run has made of the tokens. -/
structure Planted (cfg : CanaryConfig) (s : Tripwires n) : Prop where
  proper : ∀ t ∈ mintedOf s.done, Proper cfg t
  stored : ∀ (id : String) ct, s.repo.tokens.entries[id]? = some ct → ∃ t ∈ mintedOf s.done, SameToken t ct
  held : ∀ i ct, s.calls i = .found ct → ∃ t ∈ mintedOf s.done, SameToken t ct
  tracked : ∀ before t after, s.done = before ++ .minted t :: after →
    Alone t (mintedOf before ++ mintedOf after) → Tracked s t after

/-- A token that is alone is found by its slug. -/
theorem Planted.found (hplanted : Planted cfg s) (hdone : s.done = before ++ .minted t :: after)
    (halone : Alone t (mintedOf before ++ mintedOf after))
    (hget : s.repo.tokens.entries[t.id]? = some ct) (hsame : SameToken t ct) :
    s.repo.findCanaryTokenByToken t.token = some ct := by
  rw [Repository.find_iff, hsame.id_eq]
  refine ⟨hget, hsame.token_eq, ?_⟩
  intro id' ct' hget' htoken
  -- whatever is stored with the slug is the token itself
  obtain ⟨t', hmem, hsame'⟩ := hplanted.stored id' ct' hget'
  rw [hdone] at hmem
  have hown : t' = t := halone.eq hmem (Or.inr (hsame'.token_eq.symm.trans htoken))
  rw [← s.repo.tokens.kept id' ct' hget', hsame'.id_eq, hown]
  exact cmp_self_ne_lt t.id

/-- What is not about a token leaves it as it is. -/
theorem Tracked.frame (htracked : Tracked s t after)
    (hentry : s'.repo.tokens.entries[t.id]? = s.repo.tokens.entries[t.id]?)
    (hcalls : ∀ i ct, s'.calls i = .found ct → ct.token = t.token → s.calls i = .found ct)
    (hhits : hitsOf t.token after' = hitsOf t.token after)
    (hturns : turns t.token after' = turns t.token after) : Tracked s' t after' := by
  constructor
  · rw [hentry, hhits]
    exact htracked.stored
  · intro i ct hcall htoken
    rw [hhits]
    exact htracked.held i ct (hcalls i ct hcall htoken) htoken
  · intro busy hbusy
    rw [hturns] at hbusy
    obtain ⟨hstored, hheld⟩ := htracked.exact busy hbusy
    rw [hentry, hhits]
    refine ⟨hstored, ?_⟩
    intro i ct hcall htoken
    obtain ⟨hbusy', hcurrent, honly⟩ := hheld i ct (hcalls i ct hcall htoken) htoken
    exact ⟨hbusy', hcurrent, fun j ct' hcall' htoken' => honly j ct' (hcalls j ct' hcall' htoken') htoken'⟩

/-- A call finds the token. -/
theorem Tracked.found (htracked : Tracked s t after)
    (hget : s.repo.tokens.entries[t.id]? = some ct) (hbehind : Behind t (hitsOf t.token after) ct) :
    Tracked ⟨s.trigger.setCall i (.found ct), s.done ++ [.found ct.token]⟩ t
      (after ++ [.found ct.token]) := by
  have htoken := hbehind.same.token_eq
  have hhits : hitsOf t.token (after ++ [.found ct.token]) = hitsOf t.token after := by
    rw [hitsOf_concat]
    exact List.append_nil _
  constructor
  · rw [hhits]
    exact htracked.stored
  · intro j ct' hcall htoken'
    rw [hhits]
    rcases TriggerState.calls_cases hcall with ⟨_, heq⟩ | ⟨_, hold⟩
    · cases heq
      exact hbehind
    · exact htracked.held j ct' hold htoken'
  · intro busy hbusy
    rw [turns_concat, turn, if_pos htoken, Option.ite_none_right_eq_some, Option.some.injEq] at hbusy
    obtain ⟨hidle, hbusy⟩ := hbusy
    obtain ⟨hstored, hheld⟩ := htracked.exact false hidle
    -- no other call has found it
    have hnone : ∀ j ct', s.calls j = .found ct' → ct'.token ≠ t.token := by
      intro j ct' hcall htoken'
      have hfalse := (hheld j ct' hcall htoken').1
      contradiction
    rw [hhits]
    refine ⟨hstored, ?_⟩
    intro j ct' hcall htoken'
    rcases TriggerState.calls_cases hcall with ⟨hj, heq⟩ | ⟨_, hold⟩
    · cases heq
      refine ⟨hbusy.symm, Option.some.inj (hget.symm.trans hstored), ?_⟩
      intro k ct'' hcall' htoken''
      rcases TriggerState.calls_cases hcall' with ⟨hk, _⟩ | ⟨_, hold⟩
      · rw [hj, hk]
      · exact absurd htoken'' (hnone k ct'' hold)
    · exact absurd htoken' (hnone j ct' hold)

/-- A call saves the token with one more trigger. -/
theorem Tracked.counted (htracked : Tracked s t after) (hcall : s.calls i = .found ct)
    (htoken : ct.token = t.token) (now : Int) (source : String) :
    Tracked ⟨(s.trigger.setCall i .returned).setRepo (s.repo.saveCanaryToken (ct.triggered now source)),
      s.done ++ [.counted ct.token now source]⟩ t (after ++ [.counted ct.token now source]) := by
  have hhits : hitsOf t.token (after ++ [.counted ct.token now source])
      = hitsOf t.token after ++ [(now, source)] := by
    rw [hitsOf_concat, Op.hit?, if_pos htoken]
    rfl
  have hmore : ∀ ct', Behind t (hitsOf t.token after) ct' →
      Behind t (hitsOf t.token after ++ [(now, source)]) ct' := by
    intro ct' hbehind
    obtain ⟨kept, hsub, heq⟩ := hbehind
    exact ⟨kept, hsub.trans (List.sublist_append_left _ _), heq⟩
  have hbehind := htracked.held i ct hcall htoken
  have hid : ct.id = t.id := hbehind.same.id_eq
  have hentry : (s.repo.saveCanaryToken (ct.triggered now source)).tokens.entries[t.id]?
      = some (ct.triggered now source) := by
    rw [← hid]
    exact Std.ExtTreeMap.getElem?_insert_self
  constructor
  · rw [hhits]
    obtain ⟨kept, hsub, rfl⟩ := hbehind
    exact ⟨_, hentry, kept ++ [(now, source)], hsub.append_right _, (hitBy_concat ..).symm⟩
  · intro j ct' hcall' htoken'
    rw [hhits]
    exact hmore ct' (htracked.held j ct' (calls_returned hcall').2 htoken')
  · intro busy hbusy
    rw [turns_concat, turn, if_pos htoken, Option.ite_none_right_eq_some] at hbusy
    obtain ⟨_, hheld⟩ := htracked.exact true hbusy.1
    obtain ⟨_, hcurrent, honly⟩ := hheld i ct hcall htoken
    rw [hhits, hitBy_concat, ← hcurrent]
    refine ⟨hentry, ?_⟩
    -- the call was the only one
    intro j ct' hcall' htoken'
    obtain ⟨hne, hold⟩ := calls_returned hcall'
    exact absurd (honly j ct' hold htoken') hne

/-- A call cannot save the token. -/
theorem Tracked.missed (htracked : Tracked s t after) (htoken : ct.token = t.token) :
    Tracked ⟨s.trigger.setCall i .returned, s.done ++ [.missed ct.token]⟩ t
      (after ++ [.missed ct.token]) := by
  have hhits : hitsOf t.token (after ++ [.missed ct.token]) = hitsOf t.token after := by
    rw [hitsOf_concat]
    exact List.append_nil _
  constructor
  · rw [hhits]
    exact htracked.stored
  · intro j ct' hcall htoken'
    rw [hhits]
    exact htracked.held j ct' (calls_returned hcall).2 htoken'
  · intro busy hbusy
    rw [turns_concat, turn, if_pos htoken] at hbusy
    contradiction

/-- A new token that is alone has nothing behind it. -/
theorem Planted.fresh (hplanted : Planted cfg s) (halone : Alone t (mintedOf s.done)) :
    Tracked ⟨s.trigger.setRepo (s.repo.saveCanaryToken t), s.done ++ [.minted t]⟩ t [] := by
  have hnone : ∀ i ct, s.calls i = .found ct → ct.token ≠ t.token := by
    intro i ct hcall htoken
    obtain ⟨t', hmem, hsame⟩ := hplanted.held i ct hcall
    exact (halone t' hmem).2 (hsame.token_eq.symm.trans htoken)
  have hentry : (s.repo.saveCanaryToken t).tokens.entries[t.id]? = some (t.hitBy []) := by
    rw [hitBy_nil]
    exact Std.ExtTreeMap.getElem?_insert_self
  constructor
  · exact ⟨_, hentry, [], List.nil_sublist _, rfl⟩
  · intro i ct hcall htoken
    exact absurd htoken (hnone i ct hcall)
  · intro busy _
    exact ⟨hentry, fun i ct hcall htoken => absurd htoken (hnone i ct hcall)⟩

/-- A history with one more operation splits where the old one did, or at that operation. -/
theorem split_concat {ops : List Op} {op : Op} (heq : ops ++ [op] = before ++ .minted t :: after) :
    (after = [] ∧ op = .minted t ∧ before = ops)
      ∨ ∃ after', after = after' ++ [op] ∧ ops = before ++ .minted t :: after' := by
  induction after using List.reverseRecOn with
  | nil =>
    obtain ⟨hops, hop⟩ := List.append_inj' heq rfl
    exact Or.inl ⟨rfl, List.singleton_inj.mp hop, hops.symm⟩
  | append_singleton after' last _ =>
    rw [← List.cons_append, ← List.append_assoc] at heq
    obtain ⟨hops, hop⟩ := List.append_inj' heq rfl
    rw [List.singleton_inj.mp hop]
    exact Or.inr ⟨after', rfl, hops⟩

/-- The same for an operation that mints nothing. -/
theorem split_unminted {ops : List Op} {op : Op} (hop : op.token? = none)
    (heq : ops ++ [op] = before ++ .minted t :: after)
    (halone : Alone t (mintedOf before ++ mintedOf after)) :
    ∃ after', after = after' ++ [op] ∧ ops = before ++ .minted t :: after'
      ∧ Alone t (mintedOf before ++ mintedOf after') := by
  rcases split_concat heq with ⟨_, hminted, _⟩ | ⟨after', rfl, hops⟩
  · rw [hminted] at hop
    contradiction
  · rw [mintedOf_concat, hop, Option.toList_none, List.append_nil] at halone
    exact ⟨after', rfl, hops, halone⟩

theorem mintedOf_unminted {ops : List Op} {op : Op} (hop : op.token? = none) :
    mintedOf (ops ++ [op]) = mintedOf ops := by
  rw [mintedOf_concat, hop]
  exact List.append_nil _

theorem Planted.mint (hplanted : Planted cfg s) (hproper : Proper cfg t) :
    Planted cfg (⟨s.trigger.setRepo (s.repo.saveCanaryToken t), s.done ++ [.minted t]⟩ : Tripwires n) := by
  have hminted : mintedOf (s.done ++ [.minted t]) = mintedOf s.done ++ [t] := mintedOf_concat _ _
  have hold : ∀ t' ∈ mintedOf s.done, t' ∈ mintedOf (s.done ++ [.minted t]) := by
    intro t' hmem
    rw [hminted]
    exact List.mem_append_left _ hmem
  have hself : t ∈ mintedOf (s.done ++ [.minted t]) := by
    rw [hminted]
    exact List.mem_append_right _ (List.mem_singleton.mpr rfl)
  constructor
  case proper =>
    intro t' hmem
    simp only [hminted, List.mem_append, List.mem_singleton] at hmem
    rcases hmem with hmem | rfl
    · exact hplanted.proper t' hmem
    · exact hproper
  case stored =>
    intro id ct hget
    rcases getElem?_insert_cases hget with ⟨_, rfl⟩ | ⟨_, hget⟩
    · exact ⟨ct, hself, SameToken.refl ct⟩
    · obtain ⟨t', hmem, hsame⟩ := hplanted.stored id ct hget
      exact ⟨t', hold t' hmem, hsame⟩
  case held =>
    intro i ct hcall
    obtain ⟨t', hmem, hsame⟩ := hplanted.held i ct hcall
    exact ⟨t', hold t' hmem, hsame⟩
  case tracked =>
    intro before t' after hdone halone
    rcases split_concat hdone with ⟨rfl, hsame, rfl⟩ | ⟨after', rfl, hops⟩
    · cases hsame
      exact hplanted.fresh fun t' hmem => halone t' (List.mem_append_left _ hmem)
    · have hne : t.id ≠ t'.id := by
        refine (halone t ?_).1
        rw [mintedOf_concat]
        simp [Op.token?]
      have halone' : Alone t' (mintedOf before ++ mintedOf after') := by
        intro t'' hmem
        apply halone t''
        rw [mintedOf_concat, ← List.append_assoc]
        exact List.mem_append_left _ hmem
      refine (hplanted.tracked before t' after' hops halone').frame ?_ (fun _ _ hcall _ => hcall) ?_ ?_
      · show (s.repo.tokens.entries.insert t.id t)[t'.id]? = _
        rw [Std.ExtTreeMap.getElem?_insert, if_neg (by simpa using hne)]
      · rw [hitsOf_concat]
        exact List.append_nil _
      · rw [turns_concat]
        rfl

/-- An operation that mints nothing: what is stored and held comes from the tokens that were
    minted before, and the tokens that are alone are followed. -/
theorem Planted.unminted (hplanted : Planted cfg s) {op : Op} (hop : op.token? = none)
    (hdone : s'.done = s.done ++ [op])
    (hstored : ∀ (id : String) ct, s'.repo.tokens.entries[id]? = some ct →
      ∃ t ∈ mintedOf s.done, SameToken t ct)
    (hheld : ∀ i ct, s'.calls i = .found ct → ∃ t ∈ mintedOf s.done, SameToken t ct)
    (htracked : ∀ before t after, s.done = before ++ .minted t :: after →
      Alone t (mintedOf before ++ mintedOf after) → Tracked s t after →
        Tracked s' t (after ++ [op])) : Planted cfg s' := by
  have hminted : mintedOf s'.done = mintedOf s.done := by
    rw [hdone]
    exact mintedOf_unminted hop
  constructor
  case proper => simpa only [hminted] using hplanted.proper
  case stored => simpa only [hminted] using hstored
  case held => simpa only [hminted] using hheld
  case tracked =>
    intro before t after heq halone
    rw [hdone] at heq
    obtain ⟨after', rfl, hops, halone'⟩ := split_unminted hop heq halone
    exact htracked before t after' hops halone' (hplanted.tracked before t after' hops halone')

/-- **Step lemma**. -/
theorem Planted.change (hplanted : Planted cfg s) (hchange : Change cfg alerts s s') : Planted cfg s' := by
  cases hchange with
  | quiet hdone htokens hcalls =>
    constructor
    case proper => simpa only [hdone] using hplanted.proper
    case stored => simpa only [hdone, htokens] using hplanted.stored
    case held =>
      intro i ct hcall
      rw [hdone]
      exact hplanted.held i ct (hcalls i ct hcall)
    case tracked =>
      intro before t after heq halone
      rw [hdone] at heq
      exact (hplanted.tracked before t after heq halone).frame (by rw [htokens])
        (fun i ct hcall _ => hcalls i ct hcall) rfl rfl
  | minted hproper => exact hplanted.mint hproper
  | @found i ct hfind =>
    obtain ⟨hget, _, _⟩ := Repository.find_iff.mp hfind
    refine hplanted.unminted rfl rfl hplanted.stored ?_ ?_
    · intro j ct' hcall
      rcases TriggerState.calls_cases hcall with ⟨_, heq⟩ | ⟨_, hold⟩
      · cases heq
        exact hplanted.stored ct.id ct hget
      · exact hplanted.held j ct' hold
    · intro before t after hops halone htracked
      by_cases htoken : ct.token = t.token
      · obtain ⟨cur, hstored, hbehind⟩ := htracked.stored
        have hcur := hplanted.found hops halone hstored hbehind.same
        rw [← htoken, hfind, Option.some.injEq] at hcur
        subst hcur
        exact htracked.found hstored hbehind
      · refine htracked.frame rfl ?_ ?_ ?_
        · intro j ct' hcall htoken'
          rcases TriggerState.calls_cases hcall with ⟨_, hsame⟩ | ⟨_, hold⟩
          · cases hsame
            exact absurd htoken' htoken
          · exact hold
        · rw [hitsOf_concat]
          exact List.append_nil _
        · rw [turns_concat, turn, if_neg htoken]
  | @counted i ct now hcall =>
    obtain ⟨t₀, hmem₀, hsame₀⟩ := hplanted.held i ct hcall
    refine hplanted.unminted rfl rfl ?_ ?_ ?_
    · intro id ct' hget
      rcases getElem?_insert_cases hget with ⟨_, rfl⟩ | ⟨_, hold⟩
      · exact ⟨t₀, hmem₀, hsame₀.triggered now (alerts i).destination⟩
      · exact hplanted.stored id ct' hold
    · intro j ct' hcall'
      exact hplanted.held j ct' (calls_returned hcall').2
    · intro before t after hops halone htracked
      by_cases htoken : ct.token = t.token
      · exact htracked.counted hcall htoken now (alerts i).destination
      · -- the token that is saved is another one
        have hne : ct.id ≠ t.id := by
          intro hid
          rw [hops] at hmem₀
          have hown := halone.eq hmem₀ (Or.inl (hsame₀.id_eq.symm.trans hid))
          exact htoken (by rw [hsame₀.token_eq, hown])
        refine htracked.frame ?_ (fun j ct' hcall' _ => (calls_returned hcall').2) ?_ ?_
        · show (s.repo.tokens.entries.insert ct.id (ct.triggered now (alerts i).destination))[t.id]? = _
          rw [Std.ExtTreeMap.getElem?_insert, if_neg (by simpa using hne)]
        · rw [hitsOf_concat, Op.hit?, if_neg htoken]
          exact List.append_nil _
        · rw [turns_concat, turn, if_neg htoken]
  | @missed i ct hcall =>
    refine hplanted.unminted rfl rfl hplanted.stored ?_ ?_
    · intro j ct' hcall'
      exact hplanted.held j ct' (calls_returned hcall').2
    · intro before t after _ _ htracked
      by_cases htoken : ct.token = t.token
      · exact htracked.missed htoken
      · refine htracked.frame rfl (fun j ct' hcall' _ => (calls_returned hcall').2) ?_ ?_
        · rw [hitsOf_concat]
          exact List.append_nil _
        · rw [turns_concat, turn, if_neg htoken]

/-- **Run lemma**. -/
theorem planted_run (cfg : CanaryConfig) (alerts : Fin n → NetworkEvent)
    (events : Std.ExtTreeMap String NetworkEvent) (actions : List (Action n)) :
    Planted cfg (Tripwires.run cfg alerts events actions) := by
  induction actions using List.reverseRecOn with
  | nil =>
    constructor
    case proper => exact fun t hmem => absurd hmem List.not_mem_nil
    case stored => exact fun id ct hget => by simp [Tripwires.run, Tripwires.repo, TokenBucket.empty] at hget
    case held => exact fun i ct hcall => by simp [Tripwires.run, Tripwires.calls] at hcall
    case tracked => exact fun before t after hdone => by simp [Tripwires.run] at hdone
  | append_singleton actions action ih =>
    have hrun : Tripwires.run cfg alerts events (actions ++ [action])
        = (Tripwires.run cfg alerts events actions).act cfg alerts action := by
      unfold Tripwires.run
      rw [List.foldl_append, List.foldl_cons, List.foldl_nil]
    rw [hrun]
    exact ih.change (change_act action)

/-! ## Section 3: Tripwires -/

/-- What brings the slug of a token back. -/
structure Watches (cfg : CanaryConfig) (repo : Repository) (t : CanaryToken) : Prop where
  /-- An alert about a query for the subdomain, as it is spelled, is one about the token. -/
  dns : t.type = canaryDNS → ∀ alert e, text alert.metadata["rule"]? = "DNS_CANARY_TRIGGERED" →
    repo.getEvent (text alert.metadata["trigger_id"]?) = some e →
      (text e.metadata["name"]? = t.subdomain ∨ text e.metadata["name"]? = t.subdomain ++ ".") →
        alertToken repo alert = some t.token
  /-- The webhook takes the slug, and an alert about what it pushes is one about the token. -/
  http : ∀ req now, req.method = "POST" → req.path = webhookPath ++ t.token →
    ∃ e, canaryWebhook repo req now = (204, some e) ∧ ∀ env alert,
      text alert.metadata["rule"]? = "HTTP_CANARY_TRIGGERED" →
        repo.getEvent (text alert.metadata["trigger_id"]?) = some (pushNetworkEvent env e).event →
          alertToken repo alert = some t.token
  /-- The URL that is handed out leads there exactly when the configured path is the route. -/
  url : t.type ≠ canaryDNS → ∀ req now, req.method = "POST" →
    t.url = trimRightSlashes cfg.webhookBaseURL ++ req.path →
      ((canaryWebhook repo req now).1 = 204 ↔ trimSlashes cfg.webhookPath = "api/canary/webhook")

/-- The state of the tripwires as their owner sees it. -/
structure Tripwired (cfg : CanaryConfig) (s : Tripwires n) : Prop where
  /-- A token with an ID and a slug of its own is found, nothing of it is changed but by
      triggers, and none is lost while the calls take turns. -/
  watched : ∀ before t after, s.done = before ++ .minted t :: after →
    Alone t (mintedOf before ++ mintedOf after) →
      (∃ ct, s.repo.findCanaryTokenByToken t.token = some ct ∧ Behind t (hitsOf t.token after) ct
        ∧ (InTurn t.token after → ct = t.hitBy (hitsOf t.token after)))
      ∧ Watches cfg s.repo t
  /-- The webhook takes nothing that was not minted. -/
  quiet : ∀ req now e, canaryWebhook s.repo req now = (204, e) →
    ∃ t ∈ mintedOf s.done, trimPrefix webhookPath req.path = t.token

/-- A request that is taken is one for a token that was minted. -/
theorem Planted.taken (hplanted : Planted cfg s) {req : WebhookRequest} {now : Int}
    (hreply : (canaryWebhook s.repo req now).1 = 204) :
    ∃ t ∈ mintedOf s.done, trimPrefix webhookPath req.path = t.token := by
  unfold canaryWebhook at hreply
  split at hreply
  · simp at hreply
  · simp only at hreply
    split at hreply
    · simp at hreply
    · split at hreply
      · simp at hreply
      · next ct hfind =>
        obtain ⟨hget, htoken, _⟩ := Repository.find_iff.mp hfind
        obtain ⟨t, hmem, hsame⟩ := hplanted.stored ct.id ct hget
        exact ⟨t, hmem, by rw [← htoken, hsame.token_eq]⟩

theorem Proper.slug_chars (hproper : Proper cfg t) :
    t.token ≠ "" ∧ '.' ∉ t.token.toList ∧ '/' ∉ t.token.toList := by
  obtain ⟨d, hslug⟩ := hproper.slug
  obtain ⟨hne, hdot, hslash⟩ := Canary.slug_chars d
  rw [hslug]
  exact ⟨fun hempty => hne (by rw [hempty]; rfl), hdot, hslash⟩

theorem Planted.watches (hplanted : Planted cfg s) (hproper : Proper cfg t)
    (hfound : s.repo.findCanaryTokenByToken t.token = some ct) : Watches cfg s.repo t := by
  obtain ⟨hne, _, hslash⟩ := hproper.slug_chars
  constructor
  case dns =>
    intro htype alert e hrule hevent hname
    have hsubdomain := hproper.subdomain htype
    obtain ⟨d, hslug⟩ := hproper.slug
    have htoken : dnsTokenFromQueryName (text e.metadata["name"]?) = t.token := by
      rw [hslug] at hsubdomain ⊢
      rcases hname with hname | hname
      · refine dnsToken_of_label d (z := cfg.dnsZone.toList) ?_
        rw [hname, hsubdomain, String.toList_append, String.toList_append, List.append_assoc]
        rfl
      · refine dnsToken_of_label d (z := cfg.dnsZone.toList ++ ['.']) ?_
        rw [hname, hsubdomain, String.toList_append, String.toList_append, String.toList_append,
          List.append_assoc, List.append_assoc]
        rfl
    exact alertToken_of_event hevent hne (Or.inl ⟨hrule, htoken⟩)
  case http =>
    intro req now hmethod hpath
    have htrim : trimPrefix webhookPath req.path = t.token := by
      rw [hpath, trimPrefix_append]
    refine ⟨webhookEvent req t.token now, canaryWebhook_post hmethod htrim hne hfound now, ?_⟩
    intro env alert hrule hevent
    refine alertToken_of_event hevent hne (Or.inr ⟨hrule, ?_⟩)
    have hvalue : (webhookEvent req t.token now).metadata["canary_token"]? = some (.str t.token) := by
      simp only [webhookEvent, Std.ExtTreeMap.getElem?_insert, Std.compare_eq_iff_eq, String.reduceEq,
        if_true, if_false]
    rw [pushed_canaryToken, hvalue]
    rfl
  case url =>
    intro htype req now hmethod hurl
    -- the path of the URL
    have hpath : req.path.toList = '/' :: (trimSlashes cfg.webhookPath).toList ++ '/' :: t.token.toList := by
      have hlist := congrArg String.toList hurl
      rw [hproper.url htype, toList_webhookURL, String.toList_append] at hlist
      exact (List.append_cancel_left hlist).symm
    have hroute : webhookPath.toList = '/' :: "api/canary/webhook".toList ++ ['/'] := by decide
    constructor
    · intro hreply
      obtain ⟨t', hmem, htoken⟩ := hplanted.taken hreply
      obtain ⟨_, _, hslash'⟩ := (hplanted.proper t' hmem).slug_chars
      unfold trimPrefix at htoken
      by_cases hprefix : webhookPath.toList.isPrefixOf req.path.toList
      · rw [if_pos hprefix] at htoken
        have hlist := congrArg String.toList htoken
        rw [String.toList_ofList] at hlist
        obtain ⟨rest, hrest⟩ := List.isPrefixOf_iff_prefix.mp hprefix
        rw [← hrest, List.drop_left] at hlist
        rw [← hrest, hlist, hroute, List.append_assoc] at hpath
        obtain ⟨hfront, _⟩ := path_inj hslash' hslash hpath
        exact (String.toList_inj.mp (List.cons.inj hfront).2).symm
      · -- the path as a whole is no slug
        rw [if_neg hprefix] at htoken
        rw [htoken] at hpath
        rw [hpath] at hslash'
        exact absurd List.mem_cons_self hslash'
    · intro hconfig
      have hsame : req.path = webhookPath ++ t.token := by
        apply String.toList_inj.mp
        rw [hpath, hconfig, String.toList_append, hroute, List.append_assoc]
        rfl
      have htrim : trimPrefix webhookPath req.path = t.token := by
        rw [hsame, trimPrefix_append]
      rw [canaryWebhook_post hmethod htrim hne hfound]

/-- **The life of a canary token**: whatever mints, events and calls of `RecordTrigger`
    come, in whatever order their steps are taken and whichever saves fail. -/
theorem planted_tokens (cfg : CanaryConfig) (alerts : Fin n → NetworkEvent)
    (events : Std.ExtTreeMap String NetworkEvent) (actions : List (Action n)) :
    Tripwired cfg (Tripwires.run cfg alerts events actions) := by
  have hplanted := planted_run cfg alerts events actions
  constructor
  case watched =>
    intro before t after hdone halone
    have hmem : t ∈ mintedOf (Tripwires.run cfg alerts events actions).done := by
      rw [hdone, mintedOf_split]
      simp
    have htracked := hplanted.tracked before t after hdone halone
    obtain ⟨ct, hget, hbehind⟩ := htracked.stored
    have hfound := hplanted.found hdone halone hget hbehind.same
    refine ⟨⟨ct, hfound, hbehind, ?_⟩, hplanted.watches (hplanted.proper t hmem) hfound⟩
    intro hturn
    obtain ⟨busy, hbusy⟩ := Option.isSome_iff_exists.mp hturn
    obtain ⟨hexact, _⟩ := htracked.exact busy hbusy
    exact Option.some.inj (hget.symm.trans hexact)
  case quiet =>
    intro req now e hreply
    exact hplanted.taken (by rw [hreply])

end Owasaka.Canary
