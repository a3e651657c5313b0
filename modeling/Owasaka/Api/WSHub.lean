import Mathlib.Data.Finset.Basic
import Owasaka.Foundation.Ascii
import Owasaka.Foundation.System

/-! # The WebSocket hub (`api/websocket.go`)

    `Run` is one goroutine that selects between three channels: connections that
    register, connections that unregister and messages to send.  `Broadcast` is
    called from any goroutine and drops a message when the channel is full.  Each
    connection has a goroutine of its own, which registers it, reads until an error
    and unregisters it.

    A step is one select of `Run`, one call of `Broadcast`, or one move of a
    connection's goroutine, in any order.

    ## Abstract view

    The frames that `Run` has sent form one list.  A connected client has got exactly
    those since it registered, and a client that was removed a prefix of them. -/

namespace Owasaka.Api

/-! ## Section 1: Model -/

/-- The capacity of the channel `broadcast`. -/
def broadcastCapacity : Nat := 256

/-- What was written to a connection, and how often the hub closed it. -/
structure Conn where
  written : List Bytes
  closes : Nat

/-- Where the goroutine of a connection stands. -/
inductive Pump where
  | idle
  /-- Blocked in `h.register <- conn`. -/
  | registering
  | reading
  /-- Blocked in `h.unregister <- conn`. -/
  | unregistering
  | finished
  deriving DecidableEq

/-- The goroutine was not yet registered. -/
def Pump.early : Pump → Bool
  | .idle => true
  | .registering => true
  | _ => false

structure WSHub (Client Msg : Type) where
  /-- The keys of the map. -/
  clients : Finset Client
  /-- The buffered messages, oldest first. -/
  broadcast : List Msg
  conn : Client → Conn
  pump : Client → Pump
  /-- The messages that `Broadcast` did not drop, oldest first. -/
  accepted : List Msg
  /-- The encoded messages that `Run` has sent, oldest first. -/
  frames : List Bytes
  /-- How many frames had been sent when the client registered. -/
  joined : Client → Nat

inductive HubAction (Client Msg : Type) where
  | broadcast (msg : Msg)
  | upgrade (c : Client)
  | register (c : Client)
  | readError (c : Client)
  | unregister (c : Client)
  /-- The map is iterated in the given order; `fails` are the clients whose write
      returns an error. -/
  | message (order : List Client) (fails : Client → Bool)

namespace WSHub

variable {Client Msg : Type} [DecidableEq Client]

def setPump (s : WSHub Client Msg) (c : Client) (p : Pump) : WSHub Client Msg :=
  { s with pump := Function.update s.pump c p }

/-- A connection is taken from `register`. -/
def add (s : WSHub Client Msg) (c : Client) : WSHub Client Msg :=
  { s.setPump c .reading with
    clients := insert c s.clients
    joined := Function.update s.joined c s.frames.length }

/-- `Close` and `delete`. -/
def drop (s : WSHub Client Msg) (c : Client) : WSHub Client Msg :=
  { s with
    clients := s.clients.erase c
    conn := Function.update s.conn c { s.conn c with closes := (s.conn c).closes + 1 } }

/-- The body of the loop over the clients. -/
def writeMessage (data : Bytes) (fails : Client → Bool) (s : WSHub Client Msg) (c : Client) :
    WSHub Client Msg :=
  if fails c then s.drop c
  else
    { s with
      conn := Function.update s.conn c { s.conn c with written := (s.conn c).written ++ [data] } }

/-- `Broadcast`: a send that does not block. -/
def push (s : WSHub Client Msg) (msg : Msg) : WSHub Client Msg :=
  if s.broadcast.length < broadcastCapacity then
    { s with broadcast := s.broadcast ++ [msg], accepted := s.accepted ++ [msg] }
  else s

/-- `Run` after taking a message from the channel. -/
def send (marshal : Msg → Except String Bytes) (order : List Client) (fails : Client → Bool)
    (s : WSHub Client Msg) (msg : Msg) : WSHub Client Msg :=
  match marshal msg with
  | .error _ => s
  | .ok data => order.foldl (writeMessage data fails) { s with frames := s.frames ++ [data] }

end WSHub

variable {Client Msg : Type} [DecidableEq Client]

def hubSystem (marshal : Msg → Except String Bytes) :
    System (WSHub Client Msg) (HubAction Client Msg) where
  init := fun s =>
    s.clients = ∅ ∧ s.broadcast = [] ∧ s.accepted = [] ∧ s.frames = []
      ∧ ∀ c, s.conn c = ⟨[], 0⟩ ∧ s.pump c = .idle
  step := fun s a s' =>
    match a with
    | .broadcast msg => s' = s.push msg
    | .upgrade c => s.pump c = .idle ∧ s' = s.setPump c .registering
    | .register c => s.pump c = .registering ∧ s' = s.add c
    | .readError c => s.pump c = .reading ∧ s' = s.setPump c .unregistering
    | .unregister c =>
      s.pump c = .unregistering
        ∧ s' = (if c ∈ s.clients then s.drop c else s).setPump c .finished
    | .message order fails =>
      order.Nodup ∧ (∀ c, c ∈ order ↔ c ∈ s.clients)
        ∧ ∃ msg rest, s.broadcast = msg :: rest
          ∧ s' = WSHub.send marshal order fails { s with broadcast := rest } msg

/-! ## Section 2: One pass over the clients -/

section

variable (data : Bytes) (fails : Client → Bool)

@[simp] theorem WSHub.writeMessage_frame (s : WSHub Client Msg) (c : Client) :
    (s.writeMessage data fails c).broadcast = s.broadcast
      ∧ (s.writeMessage data fails c).pump = s.pump
      ∧ (s.writeMessage data fails c).accepted = s.accepted
      ∧ (s.writeMessage data fails c).frames = s.frames
      ∧ (s.writeMessage data fails c).joined = s.joined := by
  unfold WSHub.writeMessage WSHub.drop
  split <;> exact ⟨rfl, rfl, rfl, rfl, rfl⟩

/-- A write touches its own client only. -/
theorem WSHub.writeMessage_of_ne {c d : Client} (hne : d ≠ c) (s : WSHub Client Msg) :
    (s.writeMessage data fails c).conn d = s.conn d
      ∧ (d ∈ (s.writeMessage data fails c).clients ↔ d ∈ s.clients) := by
  unfold WSHub.writeMessage WSHub.drop
  split <;> simp [hne]

/-- What a pass does to the client `d`. -/
def WSHub.passed (data : Bytes) (fails : Client → Bool) (d : Client) (k : Conn) : Conn :=
  if fails d then { k with closes := k.closes + 1 } else { k with written := k.written ++ [data] }

theorem WSHub.writeMessage_self (s : WSHub Client Msg) (c : Client) :
    (s.writeMessage data fails c).conn c = WSHub.passed data fails c (s.conn c)
      ∧ (c ∈ (s.writeMessage data fails c).clients ↔ c ∈ s.clients ∧ fails c = false) := by
  unfold WSHub.writeMessage WSHub.drop WSHub.passed
  by_cases hfails : fails c = true
  · simp [hfails]
  · simp [hfails]

/-- A pass keeps everything but the clients and their connections. -/
theorem WSHub.pass_frame (order : List Client) (s : WSHub Client Msg) :
    (order.foldl (WSHub.writeMessage data fails) s).broadcast = s.broadcast
      ∧ (order.foldl (WSHub.writeMessage data fails) s).pump = s.pump
      ∧ (order.foldl (WSHub.writeMessage data fails) s).accepted = s.accepted
      ∧ (order.foldl (WSHub.writeMessage data fails) s).frames = s.frames
      ∧ (order.foldl (WSHub.writeMessage data fails) s).joined = s.joined := by
  induction order generalizing s with
  | nil => exact ⟨rfl, rfl, rfl, rfl, rfl⟩
  | cons c order ih =>
    obtain ⟨h1, h2, h3, h4, h5⟩ := ih (s.writeMessage data fails c)
    obtain ⟨g1, g2, g3, g4, g5⟩ := s.writeMessage_frame data fails c
    rw [List.foldl_cons]
    exact ⟨h1.trans g1, h2.trans g2, h3.trans g3, h4.trans g4, h5.trans g5⟩

/-- A client outside the order is not touched. -/
theorem WSHub.pass_of_not_mem {order : List Client} {d : Client} (hd : d ∉ order)
    (s : WSHub Client Msg) :
    (order.foldl (WSHub.writeMessage data fails) s).conn d = s.conn d
      ∧ (d ∈ (order.foldl (WSHub.writeMessage data fails) s).clients ↔ d ∈ s.clients) := by
  induction order generalizing s with
  | nil => exact ⟨rfl, Iff.rfl⟩
  | cons c order ih =>
    rw [List.mem_cons, not_or] at hd
    obtain ⟨hconn, hmem⟩ := ih hd.2 (s.writeMessage data fails c)
    obtain ⟨hconn', hmem'⟩ := WSHub.writeMessage_of_ne data fails hd.1 s
    rw [List.foldl_cons]
    exact ⟨hconn.trans hconn', hmem.trans hmem'⟩

/-- A client of the order is written to once, whatever the order. -/
theorem WSHub.pass_of_mem {order : List Client} (hnodup : order.Nodup) {d : Client} (hd : d ∈ order)
    (s : WSHub Client Msg) :
    (order.foldl (WSHub.writeMessage data fails) s).conn d = WSHub.passed data fails d (s.conn d)
      ∧ (d ∈ (order.foldl (WSHub.writeMessage data fails) s).clients ↔
        d ∈ s.clients ∧ fails d = false) := by
  induction order generalizing s with
  | nil => simp at hd
  | cons c order ih =>
    obtain ⟨hnot, hnodup⟩ := List.nodup_cons.mp hnodup
    rw [List.foldl_cons]
    by_cases heq : d = c
    · subst heq
      obtain ⟨hconn, hmem⟩ := WSHub.pass_of_not_mem data fails hnot
        (s.writeMessage data fails d)
      obtain ⟨hconn', hmem'⟩ := s.writeMessage_self data fails d
      exact ⟨hconn.trans hconn', hmem.trans hmem'⟩
    · have hd' : d ∈ order := (List.mem_cons.mp hd).resolve_left heq
      obtain ⟨hconn, hmem⟩ := ih hnodup hd' (s.writeMessage data fails c)
      obtain ⟨hconn', hmem'⟩ := WSHub.writeMessage_of_ne data fails heq s
      rw [hconn'] at hconn
      rw [hmem'] at hmem
      exact ⟨hconn, hmem⟩

end

/-! ## Section 3: The invariant -/

/-- The encodings of the messages that have one. -/
def marshalled (marshal : Msg → Except String Bytes) (msgs : List Msg) : List Bytes :=
  msgs.filterMap fun msg => (marshal msg).toOption

/-- What one client has got. -/
structure ClientOk (s : WSHub Client Msg) (c : Client) : Prop where
  early : (s.pump c).early = true → c ∉ s.clients ∧ s.conn c = ⟨[], 0⟩
  joined : (s.pump c).early = false → s.joined c ≤ s.frames.length
  connected : c ∈ s.clients →
    (s.conn c).closes = 0 ∧ (s.conn c).written = s.frames.drop (s.joined c)
  removed : (s.pump c).early = false → c ∉ s.clients →
    (s.conn c).closes = 1 ∧ (s.conn c).written <+: s.frames.drop (s.joined c)
  finished : s.pump c = .finished → c ∉ s.clients

structure HubOk (marshal : Msg → Except String Bytes) (s : WSHub Client Msg) : Prop where
  bounded : s.broadcast.length ≤ broadcastCapacity
  /-- Nothing that was accepted is lost or sent out of order. -/
  order : marshalled marshal s.accepted = s.frames ++ marshalled marshal s.broadcast
  clients : ∀ c, ClientOk s c

variable {marshal : Msg → Except String Bytes} {s s' : WSHub Client Msg} {c : Client}

omit [DecidableEq Client] in
/-- The invariant of a client reads its own part of the state only. -/
theorem ClientOk.congr (hok : ClientOk s c) (hpump : s'.pump c = s.pump c)
    (hmem : c ∈ s'.clients ↔ c ∈ s.clients) (hconn : s'.conn c = s.conn c)
    (hframes : s'.frames = s.frames) (hjoined : s'.joined c = s.joined c) : ClientOk s' c := by
  constructor
  · rw [hpump, hmem, hconn]
    exact hok.early
  · rw [hpump, hjoined, hframes]
    exact hok.joined
  · rw [hmem, hconn, hframes, hjoined]
    exact hok.connected
  · rw [hpump, hmem, hconn, hframes, hjoined]
    exact hok.removed
  · rw [hpump, hmem]
    exact hok.finished

omit [DecidableEq Client] in
/-- A connected client was registered. -/
theorem ClientOk.not_early (hok : ClientOk s c) (hmem : c ∈ s.clients) :
    (s.pump c).early = false := by
  cases hearly : (s.pump c).early with
  | false => rfl
  | true => exact absurd hmem (hok.early hearly).1

/-- The goroutine of a client may move on among the late stages. -/
theorem ClientOk.setPump (hok : ClientOk s c) {p : Pump} (hlate : (s.pump c).early = p.early)
    (hfinished : p = .finished → c ∉ s.clients) : ClientOk (s.setPump c p) c := by
  have hpump : (s.setPump c p).pump c = p := by simp [WSHub.setPump]
  constructor
  · rw [hpump, ← hlate]
    exact hok.early
  · rw [hpump, ← hlate]
    exact hok.joined
  · exact hok.connected
  · rw [hpump, ← hlate]
    exact hok.removed
  · rw [hpump]
    exact hfinished

theorem ClientOk.setPump_of_ne {d : Client} (hok : ClientOk s d) (hne : d ≠ c) {p : Pump} :
    ClientOk (s.setPump c p) d :=
  hok.congr (by simp [WSHub.setPump, hne]) Iff.rfl rfl rfl rfl

/-- Removing a connected client closes it once and keeps what it has got. -/
theorem ClientOk.drop (hok : ClientOk s c) (hmem : c ∈ s.clients) : ClientOk (s.drop c) c := by
  obtain ⟨hcloses, hwritten⟩ := hok.connected hmem
  have hearly := hok.not_early hmem
  constructor
  · intro htrue
    rw [show (s.drop c).pump c = s.pump c from rfl, hearly] at htrue
    contradiction
  · exact hok.joined
  · intro hself
    simp [WSHub.drop] at hself
  · intro _ _
    show (Function.update s.conn c _ c).closes = 1 ∧ (Function.update s.conn c _ c).written <+: _
    rw [Function.update_self]
    exact ⟨by rw [hcloses], by rw [hwritten]; exact List.prefix_refl _⟩
  · intro _
    simp [WSHub.drop]

theorem ClientOk.drop_of_ne {d : Client} (hok : ClientOk s d) (hne : d ≠ c) : ClientOk (s.drop c) d :=
  hok.congr rfl (by simp [WSHub.drop, hne]) (by simp [WSHub.drop, hne]) rfl rfl

/-- One more frame was sent, and the client took part in the pass exactly if it was
    connected. -/
theorem ClientOk.passed (hok : ClientOk s c) (data : Bytes) (fails : Client → Bool)
    (hpump : s'.pump c = s.pump c) (hframes : s'.frames = s.frames ++ [data])
    (hjoined : s'.joined c = s.joined c)
    (hin : c ∈ s.clients → s'.conn c = WSHub.passed data fails c (s.conn c)
      ∧ (c ∈ s'.clients ↔ fails c = false))
    (hout : c ∉ s.clients → s'.conn c = s.conn c ∧ c ∉ s'.clients) : ClientOk s' c := by
  by_cases hmem : c ∈ s.clients
  · obtain ⟨hconn, hmem'⟩ := hin hmem
    obtain ⟨hcloses, hwritten⟩ := hok.connected hmem
    have hearly := hok.not_early hmem
    have hle := hok.joined hearly
    have hdrop : s'.frames.drop (s'.joined c) = s.frames.drop (s.joined c) ++ [data] := by
      rw [hframes, hjoined, List.drop_append_of_le_length hle]
    constructor
    · intro htrue
      rw [hpump, hearly] at htrue
      contradiction
    · intro _
      rw [hjoined, hframes, List.length_append]
      exact Nat.le_add_right_of_le hle
    · intro hstill
      rw [hconn, WSHub.passed, if_neg (by simp [hmem'.mp hstill]), hdrop, hwritten]
      exact ⟨hcloses, rfl⟩
    · intro _ hgone
      rw [hconn, WSHub.passed, if_pos (by simpa [hmem'] using hgone), hdrop, hwritten]
      exact ⟨by rw [hcloses], List.prefix_append _ _⟩
    · intro hfin
      rw [hpump] at hfin
      exact absurd hmem (hok.finished hfin)
  · obtain ⟨hconn, hmem'⟩ := hout hmem
    constructor
    · rw [hpump, hconn]
      exact fun hearly => ⟨hmem', (hok.early hearly).2⟩
    · intro hearly
      rw [hpump] at hearly
      rw [hjoined, hframes, List.length_append]
      exact Nat.le_add_right_of_le (hok.joined hearly)
    · exact fun hstill => absurd hstill hmem'
    · intro hearly _
      rw [hpump] at hearly
      obtain ⟨hcloses, hpre⟩ := hok.removed hearly hmem
      rw [hconn, hframes, hjoined, List.drop_append_of_le_length (hok.joined hearly)]
      exact ⟨hcloses, hpre.trans (List.prefix_append _ _)⟩
    · exact fun _ => hmem'

/-! ## Section 4: Steps and runs -/

omit [DecidableEq Client] in
theorem HubOk.push (hok : HubOk marshal s) (msg : Msg) : HubOk marshal (s.push msg) := by
  unfold WSHub.push
  split
  · next hroom =>
    constructor
    · simp only [List.length_append, List.length_singleton]
      omega
    · simp only [marshalled, List.filterMap_append]
      rw [← List.append_assoc]
      exact congrArg (· ++ _) hok.order
    · exact fun c => (hok.clients c).congr rfl Iff.rfl rfl rfl rfl
  · exact hok

theorem HubOk.add (hok : HubOk marshal s) (hpump : s.pump c = .registering) :
    HubOk marshal (s.add c) := by
  refine ⟨hok.bounded, hok.order, ?_⟩
  intro d
  by_cases heq : d = c
  · subst heq
    obtain ⟨_, hconn⟩ := (hok.clients d).early (by rw [hpump]; rfl)
    -- nothing was sent since it registered
    have hdrop : s.frames.drop s.frames.length = [] := List.drop_length
    constructor
    · simp [WSHub.add, WSHub.setPump, Pump.early]
    · simp [WSHub.add, WSHub.setPump]
    · intro _
      simp [WSHub.add, WSHub.setPump, hconn, hdrop]
    · intro _ hgone
      simp [WSHub.add] at hgone
    · simp [WSHub.add, WSHub.setPump]
  · exact (hok.clients d).congr (by simp [WSHub.add, WSHub.setPump, heq])
      (by simp [WSHub.add, heq]) rfl rfl (by simp [WSHub.add, heq])

theorem HubOk.send (hok : HubOk marshal s) {order : List Client} {fails : Client → Bool}
    (hnodup : order.Nodup) (hmem : ∀ c, c ∈ order ↔ c ∈ s.clients) {msg : Msg} {rest : List Msg}
    (hhead : s.broadcast = msg :: rest) :
    HubOk marshal (WSHub.send marshal order fails { s with broadcast := rest } msg) := by
  have hbounded : rest.length ≤ broadcastCapacity := by
    have hlen := hok.bounded
    rw [hhead, List.length_cons] at hlen
    omega
  have horder := hok.order
  rw [hhead] at horder
  unfold WSHub.send
  cases hmarshal : marshal msg with
  | error e =>
    have hskip : marshalled marshal (msg :: rest) = marshalled marshal rest := by
      simp [marshalled, hmarshal, Except.toOption]
    rw [hskip] at horder
    exact ⟨hbounded, horder, fun c => (hok.clients c).congr rfl Iff.rfl rfl rfl rfl⟩
  | ok data =>
    have htake : marshalled marshal (msg :: rest) = [data] ++ marshalled marshal rest := by
      simp [marshalled, hmarshal, Except.toOption]
    obtain ⟨hbroadcast, hpump, haccepted, hframes, hjoined⟩ :=
      WSHub.pass_frame data fails order
        { s with broadcast := rest, frames := s.frames ++ [data] }
    refine ⟨by rw [hbroadcast]; exact hbounded, ?_, ?_⟩
    · rw [haccepted, hframes, hbroadcast, horder, htake, List.append_assoc]
    · intro c
      apply (hok.clients c).passed data fails
      · rw [hpump]
      · rw [hframes]
      · rw [hjoined]
      · intro hin
        obtain ⟨hconn, hiff⟩ := WSHub.pass_of_mem data fails hnodup
          ((hmem c).mpr hin) { s with broadcast := rest, frames := s.frames ++ [data] }
        exact ⟨hconn, hiff.trans (and_iff_right hin)⟩
      · intro hout
        obtain ⟨hconn, hiff⟩ := WSHub.pass_of_not_mem data fails
          (mt (hmem c).mp hout) { s with broadcast := rest, frames := s.frames ++ [data] }
        exact ⟨hconn, mt hiff.mp hout⟩

/-- **Step lemma**. -/
theorem hubOk_step {a : HubAction Client Msg} (hok : HubOk marshal s)
    (hstep : (hubSystem marshal).step s a s') : HubOk marshal s' := by
  cases a with
  | broadcast msg =>
    rw [show s' = s.push msg from hstep]
    exact hok.push msg
  | upgrade c =>
    obtain ⟨hpump, rfl⟩ := hstep
    refine ⟨hok.bounded, hok.order, fun d => ?_⟩
    by_cases heq : d = c
    · subst heq
      exact (hok.clients d).setPump (by rw [hpump]; rfl) (by simp)
    · exact (hok.clients d).setPump_of_ne heq
  | register c =>
    obtain ⟨hpump, rfl⟩ := hstep
    exact hok.add hpump
  | readError c =>
    obtain ⟨hpump, rfl⟩ := hstep
    refine ⟨hok.bounded, hok.order, fun d => ?_⟩
    by_cases heq : d = c
    · subst heq
      exact (hok.clients d).setPump (by rw [hpump]; rfl) (by simp)
    · exact (hok.clients d).setPump_of_ne heq
  | unregister c =>
    obtain ⟨hpump, rfl⟩ := hstep
    by_cases hmem : c ∈ s.clients
    · rw [if_pos hmem]
      refine ⟨hok.bounded, hok.order, fun d => ?_⟩
      by_cases heq : d = c
      · subst heq
        refine ((hok.clients d).drop hmem).setPump ?_ ?_
        · show (s.pump d).early = _
          rw [hpump]
          rfl
        · intro _
          simp [WSHub.drop]
      · exact ((hok.clients d).drop_of_ne heq).setPump_of_ne heq
    · rw [if_neg hmem]
      refine ⟨hok.bounded, hok.order, fun d => ?_⟩
      by_cases heq : d = c
      · subst heq
        exact (hok.clients d).setPump (by rw [hpump]; rfl) fun _ => hmem
      · exact (hok.clients d).setPump_of_ne heq
  | message order fails =>
    obtain ⟨hnodup, hmem, msg, rest, hhead, rfl⟩ := hstep
    exact hok.send hnodup hmem hhead

theorem hubOk_init (hinit : (hubSystem marshal).init s) : HubOk marshal s := by
  obtain ⟨hclients, hbroadcast, haccepted, hframes, hconn⟩ := hinit
  refine ⟨by rw [hbroadcast]; simp, by simp [haccepted, hframes, hbroadcast, marshalled], ?_⟩
  intro c
  obtain ⟨hconn, hpump⟩ := hconn c
  constructor
  · exact fun _ => ⟨by simp [hclients], hconn⟩
  · simp [hpump, Pump.early]
  · simp [hclients]
  · simp [hpump, Pump.early]
  · simp [hpump]

/-- **Run lemma**. -/
theorem hubOk_of_reachable (hreach : (hubSystem marshal).Reachable s) : HubOk marshal s :=
  hreach.invariant (fun _ hinit => hubOk_init hinit) fun _ _ _ hok hstep => hubOk_step hok hstep

/-- A step writes only to connected clients, and closes no other. -/
theorem conn_step {a : HubAction Client Msg} (hstep : (hubSystem marshal).step s a s')
    (hnot : c ∉ s.clients) : s'.conn c = s.conn c := by
  cases a with
  | broadcast msg =>
    rw [show s' = s.push msg from hstep, WSHub.push]
    split <;> rfl
  | upgrade d =>
    rw [hstep.2]
    rfl
  | register d =>
    rw [hstep.2]
    rfl
  | readError d =>
    rw [hstep.2]
    rfl
  | unregister d =>
    rw [hstep.2]
    by_cases hmem : d ∈ s.clients
    · have hne : c ≠ d := fun heq => hnot (heq ▸ hmem)
      rw [if_pos hmem]
      simp [WSHub.setPump, WSHub.drop, hne]
    · rw [if_neg hmem]
      rfl
  | message order fails =>
    obtain ⟨_, hmem, msg, rest, _, rfl⟩ := hstep
    unfold WSHub.send
    split
    · rfl
    · exact (WSHub.pass_of_not_mem _ _ (mt (hmem c).mp hnot) _).1

omit [DecidableEq Client] in
theorem ClientOk.not_mem_of_closed (hok : ClientOk s c) (hclosed : (s.conn c).closes = 1) :
    c ∉ s.clients := by
  intro hmem
  have hcloses := (hok.connected hmem).1
  omega

/-- **Delivery**: in every run each client gets, in order and without a gap, the frames
    since it registered, until it is closed, once; after that it gets nothing. -/
theorem frames_delivered (hreach : (hubSystem marshal).Reachable s) :
    HubOk marshal s ∧ ∀ s', (hubSystem marshal).Steps s s' →
      ∀ c, (s.conn c).closes = 1 → s'.conn c = s.conn c ∧ c ∉ s'.clients := by
  have hok := hubOk_of_reachable hreach
  refine ⟨hok, ?_⟩
  intro s' hrun c hclosed
  have hkeep : HubOk marshal s' ∧ s'.conn c = s.conn c := by
    apply hrun.invariant (P := fun t => HubOk marshal t ∧ t.conn c = s.conn c)
    · intro t a t' ⟨hok, hconn⟩ hstep
      have hnot := (hok.clients c).not_mem_of_closed (by rw [hconn, hclosed])
      exact ⟨hubOk_step hok hstep, (conn_step hstep hnot).trans hconn⟩
    · exact ⟨hok, rfl⟩
  exact ⟨hkeep.2, (hkeep.1.clients c).not_mem_of_closed (by rw [hkeep.2, hclosed])⟩

/-- `encoding/json` on a natural number. -/
def marshalNat (n : Nat) : Except String Bytes := .ok (Bytes.decimal n)

/-- The hub at the start, with clients that are numbered. -/
def emptyHub : WSHub Nat Nat where
  clients := ∅
  broadcast := []
  conn := fun _ => ⟨[], 0⟩
  pump := fun _ => .idle
  accepted := []
  frames := []
  joined := fun _ => 0

/-- Both clients get the message 7.  The write of 8 to client 1 fails, which closes it, and
    its goroutine then finds it gone. -/
theorem frames_delivered_dropped : ∃ s : WSHub Nat Nat,
    s.conn 0 = ⟨[Bytes.decimal 7, Bytes.decimal 8], 0⟩ ∧ s.conn 1 = ⟨[Bytes.decimal 7], 1⟩
      ∧ s.pump 1 = .finished ∧ HubOk marshalNat s ∧ ∀ s', (hubSystem marshalNat).Steps s s' →
        ∀ c, (s.conn c).closes = 1 → s'.conn c = s.conn c ∧ c ∉ s'.clients := by
  have hinit : (hubSystem marshalNat).Reachable emptyHub :=
    System.Reachable.init ⟨rfl, rfl, rfl, rfl, fun c => ⟨rfl, rfl⟩⟩
  have hfirst := hinit.tail (l := HubAction.upgrade 0) ⟨rfl, rfl⟩
  have hadded := hfirst.tail (l := HubAction.register 0) ⟨rfl, rfl⟩
  have hsecond := hadded.tail (l := HubAction.upgrade 1) ⟨rfl, rfl⟩
  have hboth := hsecond.tail (l := HubAction.register 1) ⟨rfl, rfl⟩
  have hseven := hboth.tail (l := HubAction.broadcast 7) rfl
  have hmem : ∀ c, c ∈ [1, 0] ↔ c ∈ ({1, 0} : Finset Nat) := by simp
  have hsent := hseven.tail (l := HubAction.message [1, 0] fun _ => false)
    ⟨by decide, hmem, 7, [], rfl, rfl⟩
  have height := hsent.tail (l := HubAction.broadcast 8) rfl
  have hfailed := height.tail (l := HubAction.message [1, 0] fun c => c = 1)
    ⟨by decide, hmem, 8, [], rfl, rfl⟩
  have hread := hfailed.tail (l := HubAction.readError 1) ⟨rfl, rfl⟩
  have hgone := hread.tail (l := HubAction.unregister 1) ⟨rfl, rfl⟩
  exact ⟨_, rfl, rfl, rfl, frames_delivered hgone⟩

end Owasaka.Api
