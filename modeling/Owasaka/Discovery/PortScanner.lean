import Mathlib.Algebra.Order.BigOperators.Group.Finset
import Mathlib.Data.Fintype.Basic
import Mathlib.Logic.Function.Basic
import Owasaka.Discovery.Asset
import Owasaka.Foundation.Bytes

/-! # The port scanner (`discovery/attack_surface`)

    `ScanHost` starts workers that take ports from one channel and put open ports into
    another one.  One goroutine feeds the ports, closes their channel after the last one
    or when the context is cancelled, waits for the workers and closes the results.
    `scanTarget` takes the results and pushes an event for each.

    A step is one send, one receive or one check of one goroutine, in any order, and the
    context may be cancelled between any two.

    ## Abstract view

    A scan is the list of the open ports of the range, in some order.  A cancelled scan
    is a part of it. -/

namespace Owasaka.Discovery

/-! ## Section 1: Model -/

structure AttackSurfaceConfig where
  concurrentScans : Int
  portStart : Int
  portEnd : Int
  bannerGrabbing : Bool

/-- How many workers `ScanHost` starts. -/
def AttackSurfaceConfig.workers (cfg : AttackSurfaceConfig) : Nat :=
  if cfg.concurrentScans ≤ 0 then 100 else cfg.concurrentScans.toNat

def AttackSurfaceConfig.start (cfg : AttackSurfaceConfig) : Int :=
  if cfg.portStart ≤ 0 then 1 else cfg.portStart

def AttackSurfaceConfig.stop (cfg : AttackSurfaceConfig) : Int :=
  if cfg.portEnd ≤ 0 ∨ 65535 < cfg.portEnd then 65535 else cfg.portEnd

/-- How many ports the loop goes through. -/
def AttackSurfaceConfig.count (cfg : AttackSurfaceConfig) : Nat := (cfg.stop + 1 - cfg.start).toNat

/-- The first ports of the range. -/
def AttackSurfaceConfig.ports (cfg : AttackSurfaceConfig) (n : Nat) : List Int :=
  (List.range n).map fun k : Nat => cfg.start + (k : Int)

structure PortResult where
  host : String
  port : Int
  isOpen : Bool
  banner : Bytes
  deriving DecidableEq

/-- `probe`; `dial` gives what the connection reads, and `none` where there is none. -/
def probe (cfg : AttackSurfaceConfig) (dial : String → Int → Option Bytes) (host : String) (port : Int) :
    Bool × Bytes :=
  match dial host port with
  | none => (false, [])
  | some read => (true, if cfg.bannerGrabbing then read.take 256 else [])

/-- Where a worker stands in its loop. -/
inductive Worker where
  | idle
  /-- Before the context is checked. -/
  | received (port : Int)
  | probing (port : Int)
  /-- Blocked in `results <- result`. -/
  | sending (result : PortResult)
  | returned
  deriving DecidableEq

/-- Where the goroutine that feeds the workers stands. -/
inductive Feeder where
  | feeding (port : Int)
  /-- `portCh` is closed. -/
  | waiting
  /-- `results` is closed too. -/
  | closed
  deriving DecidableEq

def Feeder.isFeeding : Feeder → Bool
  | .feeding _ => true
  | _ => false

/-- The capacity of the channel `results`. -/
def resultsCapacity : Nat := 256

structure Scan (n : Nat) where
  feeder : Feeder
  /-- The buffered ports, oldest first. -/
  portCh : List Int
  workers : Fin n → Worker
  cancelled : Bool
  /-- The buffered results, oldest first. -/
  results : List PortResult
  /-- What `scanTarget` has received. -/
  taken : List PortResult
  /-- The ports that went to the workers. -/
  fed : List Int
  /-- The ports that were probed. -/
  probed : List Int
  /-- The ports that a worker held when it found the context cancelled. -/
  dropped : List Int

inductive ScanAction (n : Nat) where
  | cancel
  | feed
  /-- The port goes to a worker that waits for it. -/
  | handOver (i : Fin n)
  /-- The select takes `ctx.Done()`. -/
  | quit
  | closePorts
  | receive (i : Fin n)
  /-- The loop over the closed channel ends. -/
  | exhaust (i : Fin n)
  | checkContext (i : Fin n)
  | probe (i : Fin n)
  | report (i : Fin n)
  | closeResults
  | take
  deriving DecidableEq

namespace Scan

variable {n : Nat}

def setWorker (s : Scan n) (i : Fin n) (w : Worker) : Scan n :=
  { s with workers := Function.update s.workers i w }

@[simp] theorem setWorker_self (s : Scan n) (i : Fin n) (w : Worker) : (s.setWorker i w).workers i = w :=
  Function.update_self _ _ _

theorem setWorker_ne (s : Scan n) {i j : Fin n} (hne : j ≠ i) (w : Worker) :
    (s.setWorker i w).workers j = s.workers j :=
  Function.update_of_ne hne _ _

def Over (s : Scan n) : Prop := s.feeder = .closed ∧ s.results = []

end Scan

/-- `ScanHost` up to its loop; `make` panics for a negative capacity. -/
def scanHost (cfg : AttackSurfaceConfig) : Option (Scan cfg.workers) :=
  if cfg.concurrentScans < 0 then none
  else
    some {
      feeder := .feeding cfg.start
      portCh := []
      workers := fun _ => .idle
      cancelled := false
      results := []
      taken := []
      fed := []
      probed := []
      dropped := [] }

variable {n : Nat} {cfg : AttackSurfaceConfig} {dial : String → Int → Option Bytes} {host : String}
  {s s' : Scan n} {a : ScanAction n} {i : Fin n}

/-- The result of a port, if it is open. -/
def result (cfg : AttackSurfaceConfig) (dial : String → Int → Option Bytes) (host : String) (port : Int) :
    Option PortResult :=
  match probe cfg dial host port with
  | (true, banner) => some ⟨host, port, true, banner⟩
  | (false, _) => none

/-- One step of one goroutine; `none` where it does not stand there or is blocked. -/
def scanStep (cfg : AttackSurfaceConfig) (dial : String → Int → Option Bytes) (host : String)
    (s : Scan n) : ScanAction n → Option (Scan n)
  | .cancel => if s.cancelled then none else some { s with cancelled := true }
  | .feed =>
    match s.feeder with
    | .feeding p =>
      if p ≤ cfg.stop ∧ (s.portCh.length : Int) < cfg.concurrentScans then
        some { s with feeder := .feeding (p + 1), portCh := s.portCh ++ [p], fed := s.fed ++ [p] }
      else none
    | _ => none
  | .handOver i =>
    match s.feeder, s.workers i with
    | .feeding p, .idle =>
      if p ≤ cfg.stop ∧ s.portCh = [] then
        some { s.setWorker i (.received p) with feeder := .feeding (p + 1), fed := s.fed ++ [p] }
      else none
    | _, _ => none
  | .quit =>
    match s.feeder with
    | .feeding p => if p ≤ cfg.stop ∧ s.cancelled then some { s with feeder := .waiting } else none
    | _ => none
  | .closePorts =>
    match s.feeder with
    | .feeding p => if p ≤ cfg.stop then none else some { s with feeder := .waiting }
    | _ => none
  | .receive i =>
    match s.workers i, s.portCh with
    | .idle, p :: rest => some { s.setWorker i (.received p) with portCh := rest }
    | _, _ => none
  | .exhaust i =>
    match s.workers i, s.portCh with
    | .idle, [] => if s.feeder.isFeeding then none else some (s.setWorker i .returned)
    | _, _ => none
  | .checkContext i =>
    match s.workers i with
    | .received p =>
      if s.cancelled then some { s.setWorker i .returned with dropped := s.dropped ++ [p] }
      else some (s.setWorker i (.probing p))
    | _ => none
  | .probe i =>
    match s.workers i with
    | .probing p =>
      match result cfg dial host p with
      | some r => some { s.setWorker i (.sending r) with probed := s.probed ++ [p] }
      | none => some { s.setWorker i .idle with probed := s.probed ++ [p] }
    | _ => none
  | .report i =>
    match s.workers i with
    | .sending r =>
      if s.results.length < resultsCapacity then
        some { s.setWorker i .idle with results := s.results ++ [r] }
      else none
    | _ => none
  | .closeResults =>
    if s.feeder = .waiting ∧ ∀ i, s.workers i = .returned then some { s with feeder := .closed } else none
  | .take =>
    match s.results with
    | r :: rest => some { s with results := rest, taken := s.taken ++ [r] }
    | [] => none

/-- A run of the goroutines from the call on. -/
def scanRun (cfg : AttackSurfaceConfig) (dial : String → Int → Option Bytes) (host : String)
    (ls : List (ScanAction cfg.workers)) : Option (Scan cfg.workers) :=
  (scanHost cfg).bind fun s => ls.foldlM (scanStep cfg dial host) s

inductive ScanValue where
  | int (n : Int)
  | bool (b : Bool)
  | text (t : Bytes)

/-- `models.NetworkEvent`, with what `scanTarget` sets. -/
structure ScanEvent where
  type : String
  source : String
  destination : String
  metadata : List (String × ScanValue)

def scanEvent (r : PortResult) : ScanEvent where
  type := "PORT_SCAN"
  source := "attack_surface_scanner"
  destination := r.host
  metadata := [("port", .int r.port), ("open", .bool r.isOpen), ("banner", .text r.banner)]

/-- What `scanTarget` has pushed. -/
def Scan.pushed (s : Scan n) : List ScanEvent := s.taken.map scanEvent

/-- The results of all open ports of the range. -/
def openPorts (cfg : AttackSurfaceConfig) (dial : String → Int → Option Bytes) (host : String) :
    List PortResult :=
  (cfg.ports cfg.count).filterMap (result cfg dial host)

/-- The loop of `resolveTargets`. -/
def distinctIPs (seen : List String) : List Asset → List String
  | [] => []
  | a :: rest =>
    if a.ip ≠ "" ∧ a.ip ∉ seen then a.ip :: distinctIPs (a.ip :: seen) rest else distinctIPs seen rest

/-- `resolveTargets`; `none` stands for no lister, `some none` for one that fails. -/
def resolveTargets : Option (Option (List Asset)) → List String
  | some (some assets) => if distinctIPs [] assets = [] then ["127.0.0.1"] else distinctIPs [] assets
  | _ => ["127.0.0.1"]

/-! ## Section 2: What a step can do -/

/-- The moves of the goroutines. -/
inductive Move (cfg : AttackSurfaceConfig) (dial : String → Int → Option Bytes) (host : String)
    (s : Scan n) : ScanAction n → Scan n → Prop where
  | cancel : s.cancelled = false → Move cfg dial host s .cancel { s with cancelled := true }
  | feed {p : Int} : s.feeder = .feeding p → p ≤ cfg.stop →
      (s.portCh.length : Int) < cfg.concurrentScans →
      Move cfg dial host s .feed
        { s with feeder := .feeding (p + 1), portCh := s.portCh ++ [p], fed := s.fed ++ [p] }
  | handOver {i : Fin n} {p : Int} : s.feeder = .feeding p → s.workers i = .idle → p ≤ cfg.stop →
      s.portCh = [] →
      Move cfg dial host s (.handOver i)
        { s.setWorker i (.received p) with feeder := .feeding (p + 1), fed := s.fed ++ [p] }
  | quit {p : Int} : s.feeder = .feeding p → p ≤ cfg.stop → s.cancelled = true →
      Move cfg dial host s .quit { s with feeder := .waiting }
  | closePorts {p : Int} : s.feeder = .feeding p → cfg.stop < p →
      Move cfg dial host s .closePorts { s with feeder := .waiting }
  | receive {i : Fin n} {p : Int} {rest : List Int} : s.workers i = .idle → s.portCh = p :: rest →
      Move cfg dial host s (.receive i) { s.setWorker i (.received p) with portCh := rest }
  | exhaust {i : Fin n} : s.workers i = .idle → s.portCh = [] → s.feeder.isFeeding = false →
      Move cfg dial host s (.exhaust i) (s.setWorker i .returned)
  | drop {i : Fin n} {p : Int} : s.workers i = .received p → s.cancelled = true →
      Move cfg dial host s (.checkContext i)
        { s.setWorker i .returned with dropped := s.dropped ++ [p] }
  | checkContext {i : Fin n} {p : Int} : s.workers i = .received p → s.cancelled = false →
      Move cfg dial host s (.checkContext i) (s.setWorker i (.probing p))
  | probeOpen {i : Fin n} {p : Int} {r : PortResult} : s.workers i = .probing p →
      result cfg dial host p = some r →
      Move cfg dial host s (.probe i) { s.setWorker i (.sending r) with probed := s.probed ++ [p] }
  | probeShut {i : Fin n} {p : Int} : s.workers i = .probing p → result cfg dial host p = none →
      Move cfg dial host s (.probe i) { s.setWorker i .idle with probed := s.probed ++ [p] }
  | report {i : Fin n} {r : PortResult} : s.workers i = .sending r →
      s.results.length < resultsCapacity →
      Move cfg dial host s (.report i) { s.setWorker i .idle with results := s.results ++ [r] }
  | closeResults : s.feeder = .waiting → (∀ i, s.workers i = .returned) →
      Move cfg dial host s .closeResults { s with feeder := .closed }
  | take {r : PortResult} {rest : List PortResult} : s.results = r :: rest →
      Move cfg dial host s .take { s with results := rest, taken := s.taken ++ [r] }

/-- **Inversion**: every step is a move. -/
theorem move_of_step (hstep : scanStep cfg dial host s a = some s') : Move cfg dial host s a s' := by
  cases a with
  | cancel =>
    simp only [scanStep, Option.ite_none_left_eq_some, Option.some.injEq, Bool.not_eq_true] at hstep
    exact hstep.2 ▸ .cancel hstep.1
  | feed =>
    cases hfeeder : s.feeder with
    | feeding p =>
      simp only [scanStep, hfeeder, Option.ite_none_right_eq_some, Option.some.injEq] at hstep
      exact hstep.2 ▸ .feed hfeeder hstep.1.1 hstep.1.2
    | _ => simp [scanStep, hfeeder] at hstep
  | handOver i =>
    cases hfeeder : s.feeder with
    | feeding p =>
      cases hworker : s.workers i with
      | idle =>
        simp only [scanStep, hfeeder, hworker, Option.ite_none_right_eq_some, Option.some.injEq] at hstep
        exact hstep.2 ▸ .handOver hfeeder hworker hstep.1.1 hstep.1.2
      | _ => simp [scanStep, hfeeder, hworker] at hstep
    | _ => simp [scanStep, hfeeder] at hstep
  | quit =>
    cases hfeeder : s.feeder with
    | feeding p =>
      simp only [scanStep, hfeeder, Option.ite_none_right_eq_some, Option.some.injEq] at hstep
      exact hstep.2 ▸ .quit hfeeder hstep.1.1 hstep.1.2
    | _ => simp [scanStep, hfeeder] at hstep
  | closePorts =>
    cases hfeeder : s.feeder with
    | feeding p =>
      simp only [scanStep, hfeeder, Option.ite_none_left_eq_some, Option.some.injEq, not_le] at hstep
      exact hstep.2 ▸ .closePorts hfeeder hstep.1
    | _ => simp [scanStep, hfeeder] at hstep
  | receive i =>
    cases hworker : s.workers i with
    | idle =>
      cases hports : s.portCh with
      | nil => simp [scanStep, hworker, hports] at hstep
      | cons p rest =>
        simp only [scanStep, hworker, hports, Option.some.injEq] at hstep
        exact hstep ▸ .receive hworker hports
    | _ => simp [scanStep, hworker] at hstep
  | exhaust i =>
    cases hworker : s.workers i with
    | idle =>
      cases hports : s.portCh with
      | nil =>
        simp only [scanStep, hworker, hports, Option.ite_none_left_eq_some, Option.some.injEq,
          Bool.not_eq_true] at hstep
        exact hstep.2 ▸ .exhaust hworker hports hstep.1
      | cons p rest => simp [scanStep, hworker, hports] at hstep
    | _ => simp [scanStep, hworker] at hstep
  | checkContext i =>
    cases hworker : s.workers i with
    | received p =>
      cases hcancelled : s.cancelled with
      | true =>
        simp only [scanStep, hworker, hcancelled, if_true, Option.some.injEq] at hstep
        exact hstep ▸ .drop hworker hcancelled
      | false =>
        simp only [scanStep, hworker, hcancelled, Bool.false_eq_true, if_false, Option.some.injEq] at hstep
        exact hstep ▸ .checkContext hworker hcancelled
    | _ => simp [scanStep, hworker] at hstep
  | probe i =>
    cases hworker : s.workers i with
    | probing p =>
      cases hresult : result cfg dial host p with
      | some r =>
        simp only [scanStep, hworker, hresult, Option.some.injEq] at hstep
        exact hstep ▸ .probeOpen hworker hresult
      | none =>
        simp only [scanStep, hworker, hresult, Option.some.injEq] at hstep
        exact hstep ▸ .probeShut hworker hresult
    | _ => simp [scanStep, hworker] at hstep
  | report i =>
    cases hworker : s.workers i with
    | sending r =>
      simp only [scanStep, hworker, Option.ite_none_right_eq_some, Option.some.injEq] at hstep
      exact hstep.2 ▸ .report hworker hstep.1
    | _ => simp [scanStep, hworker] at hstep
  | closeResults =>
    simp only [scanStep, Option.ite_none_right_eq_some, Option.some.injEq] at hstep
    exact hstep.2 ▸ .closeResults hstep.1.1 hstep.1.2
  | take =>
    cases hresults : s.results with
    | nil => simp [scanStep, hresults] at hstep
    | cons r rest =>
      simp only [scanStep, hresults, Option.some.injEq] at hstep
      exact hstep ▸ .take hresults

/-- One worker moves: how a sum over all of them changes. -/
theorem sum_setWorker (f : Worker → Nat) (s : Scan n) (i : Fin n) (w : Worker) :
    ∑ j, f ((s.setWorker i w).workers j) + f (s.workers i) = ∑ j, f (s.workers j) + f w := by
  have hold := Finset.add_sum_erase Finset.univ (fun j => f (s.workers j)) (Finset.mem_univ i)
  have hnew := Finset.add_sum_erase Finset.univ (fun j => f ((s.setWorker i w).workers j))
    (Finset.mem_univ i)
  have hrest : ∑ j ∈ Finset.univ.erase i, f ((s.setWorker i w).workers j)
      = ∑ j ∈ Finset.univ.erase i, f (s.workers j) := by
    apply Finset.sum_congr rfl
    intro j hj
    rw [Scan.setWorker_ne s (Finset.ne_of_mem_erase hj)]
  simp only [Scan.setWorker_self, hrest] at hnew
  omega

/-! ## Section 3: Every run ends -/

/-- How many steps a worker has before it, if it gets no other port. -/
def Worker.cost : Worker → Nat
  | .idle => 1
  | .received _ => 5
  | .probing _ => 4
  | .sending _ => 3
  | .returned => 0

def Feeder.cost (stop : Int) : Feeder → Nat
  | .feeding p => 6 * (stop + 1 - p).toNat + 2
  | .waiting => 1
  | .closed => 0

/-- A bound on the steps that are left. -/
def Scan.work (stop : Int) (s : Scan n) : Nat :=
  s.feeder.cost stop + ∑ i, (s.workers i).cost + 5 * s.portCh.length + s.results.length
    + (!s.cancelled).toNat

/-- **Step**: every step is progress. -/
theorem work_lt_of_move (hmove : Move cfg dial host s a s') : s'.work cfg.stop < s.work cfg.stop := by
  cases hmove with
  | cancel hcancelled => simp [Scan.work, hcancelled]
  | feed hfeeder hstop _ =>
    simp only [Scan.work, hfeeder, Feeder.cost, List.length_append, List.length_singleton]
    omega
  | @handOver i p hfeeder hworker hstop hports =>
    have hsum := sum_setWorker Worker.cost s i (.received p)
    rw [hworker] at hsum
    simp only [Scan.work, Scan.setWorker, hfeeder, Feeder.cost, Worker.cost] at hsum ⊢
    omega
  | quit hfeeder _ _ =>
    simp only [Scan.work, hfeeder, Feeder.cost]
    omega
  | closePorts hfeeder _ =>
    simp only [Scan.work, hfeeder, Feeder.cost]
    omega
  | @receive i p rest hworker hports =>
    have hsum := sum_setWorker Worker.cost s i (.received p)
    rw [hworker] at hsum
    simp only [Scan.work, Scan.setWorker, hports, Worker.cost, List.length_cons] at hsum ⊢
    omega
  | @exhaust i hworker _ _ =>
    have hsum := sum_setWorker Worker.cost s i .returned
    rw [hworker] at hsum
    simp only [Scan.work, Scan.setWorker, Worker.cost] at hsum ⊢
    omega
  | @drop i p hworker _ =>
    have hsum := sum_setWorker Worker.cost s i .returned
    rw [hworker] at hsum
    simp only [Scan.work, Scan.setWorker, Worker.cost] at hsum ⊢
    omega
  | @checkContext i p hworker _ =>
    have hsum := sum_setWorker Worker.cost s i (.probing p)
    rw [hworker] at hsum
    simp only [Scan.work, Scan.setWorker, Worker.cost] at hsum ⊢
    omega
  | @probeOpen i p r hworker _ =>
    have hsum := sum_setWorker Worker.cost s i (.sending r)
    rw [hworker] at hsum
    simp only [Scan.work, Scan.setWorker, Worker.cost] at hsum ⊢
    omega
  | @probeShut i p hworker _ =>
    have hsum := sum_setWorker Worker.cost s i .idle
    rw [hworker] at hsum
    simp only [Scan.work, Scan.setWorker, Worker.cost] at hsum ⊢
    omega
  | @report i r hworker _ =>
    have hsum := sum_setWorker Worker.cost s i .idle
    rw [hworker] at hsum
    simp only [Scan.work, Scan.setWorker, Worker.cost, List.length_append, List.length_singleton] at hsum ⊢
    omega
  | closeResults hfeeder _ =>
    simp only [Scan.work, hfeeder, Feeder.cost]
    omega
  | take hresults =>
    simp only [Scan.work, hresults, List.length_cons]
    omega

/-! ## Section 4: The feeder -/

theorem ports_succ (cfg : AttackSurfaceConfig) (n : Nat) :
    cfg.ports (n + 1) = cfg.ports n ++ [cfg.start + n] := by
  unfold AttackSurfaceConfig.ports
  rw [List.range_succ, List.map_append]
  rfl

theorem nodup_ports (cfg : AttackSurfaceConfig) (n : Nat) : (cfg.ports n).Nodup := by
  apply List.Nodup.map
  · intro k k' heq
    have hcast : cfg.start + (k : Int) = cfg.start + (k' : Int) := heq
    omega
  · exact List.nodup_range

/-- The ports go out in order, and all of them unless the context is cancelled. -/
structure FeedOk (cfg : AttackSurfaceConfig) (s : Scan n) : Prop where
  fed : s.fed = cfg.ports s.fed.length
  count : s.fed.length ≤ cfg.count
  feeding : ∀ p, s.feeder = .feeding p → p = cfg.start + s.fed.length
  stopped : s.feeder.isFeeding = false → s.cancelled = true ∨ s.fed.length = cfg.count

theorem FeedOk.congr (hok : FeedOk cfg s) (hfeeder : s'.feeder = s.feeder) (hfed : s'.fed = s.fed)
    (hcancelled : s'.cancelled = s.cancelled) : FeedOk cfg s' := by
  constructor
  · rw [hfed]
    exact hok.fed
  · rw [hfed]
    exact hok.count
  · rw [hfeeder, hfed]
    exact hok.feeding
  · rw [hfeeder, hfed, hcancelled]
    exact hok.stopped

/-- One more port goes out. -/
theorem FeedOk.next (hok : FeedOk cfg s) {p : Int} (hfeeder : s.feeder = .feeding p) (hstop : p ≤ cfg.stop)
    (hfeeder' : s'.feeder = .feeding (p + 1)) (hfed' : s'.fed = s.fed ++ [p]) : FeedOk cfg s' := by
  have hp := hok.feeding p hfeeder
  have hlength : s'.fed.length = s.fed.length + 1 := by rw [hfed', List.length_append]; rfl
  constructor
  · rw [hlength, ports_succ, ← hok.fed, ← hp]
    exact hfed'
  · rw [hlength]
    unfold AttackSurfaceConfig.count
    omega
  · intro q hq
    rw [hfeeder'] at hq
    cases hq
    rw [hlength]
    omega
  · intro hstopped
    rw [hfeeder'] at hstopped
    contradiction

/-- The feeder has closed the channel of the ports. -/
theorem FeedOk.close (hok : FeedOk cfg s) (hfeeder' : s'.feeder.isFeeding = false) (hfed' : s'.fed = s.fed)
    (hend : s'.cancelled = true ∨ s.fed.length = cfg.count) : FeedOk cfg s' := by
  constructor
  · rw [hfed']
    exact hok.fed
  · rw [hfed']
    exact hok.count
  · intro p hp
    rw [hp] at hfeeder'
    contradiction
  · intro _
    rw [hfed']
    exact hend

theorem FeedOk.move (hok : FeedOk cfg s) (hmove : Move cfg dial host s a s') : FeedOk cfg s' := by
  cases hmove with
  | cancel _ => exact ⟨hok.fed, hok.count, hok.feeding, fun _ => .inl rfl⟩
  | feed hfeeder hstop _ => exact hok.next hfeeder hstop rfl rfl
  | handOver hfeeder _ hstop _ => exact hok.next hfeeder hstop rfl rfl
  | quit _ _ hcancelled => exact hok.close rfl rfl (.inl hcancelled)
  | @closePorts p hfeeder hstop =>
    have hp := hok.feeding p hfeeder
    have hle := hok.count
    have hall : s.fed.length = cfg.count := by
      unfold AttackSurfaceConfig.count at hle ⊢
      omega
    exact hok.close rfl rfl (.inr hall)
  | closeResults hfeeder _ =>
    have hwaiting : s.feeder.isFeeding = false := by rw [hfeeder]; rfl
    exact hok.close rfl rfl (hok.stopped hwaiting)
  | receive _ _ => exact hok.congr rfl rfl rfl
  | exhaust _ _ _ => exact hok.congr rfl rfl rfl
  | drop _ _ => exact hok.congr rfl rfl rfl
  | checkContext _ _ => exact hok.congr rfl rfl rfl
  | probeOpen _ _ => exact hok.congr rfl rfl rfl
  | probeShut _ _ => exact hok.congr rfl rfl rfl
  | report _ _ => exact hok.congr rfl rfl rfl
  | take _ => exact hok.congr rfl rfl rfl

/-! ## Section 5: No port is lost or probed twice -/

/-- The port that a worker has not probed yet. -/
def Worker.ports : Worker → List Int
  | .received p => [p]
  | .probing p => [p]
  | _ => []

/-- The result that a worker has not sent yet. -/
def Worker.sends : Worker → List PortResult
  | .sending r => [r]
  | _ => []

/-- Where a port is. -/
def Scan.places (s : Scan n) (q : Int) : Nat :=
  s.portCh.count q + ∑ i, (s.workers i).ports.count q + s.probed.count q + s.dropped.count q

/-- Where a result is. -/
def Scan.copies (s : Scan n) (r : PortResult) : Nat :=
  s.taken.count r + s.results.count r + ∑ i, (s.workers i).sends.count r

/-- Every step moves a port from one place to another one. -/
theorem places_of_move (hmove : Move cfg dial host s a s') (q : Int) :
    s'.places q + s.fed.count q = s.places q + s'.fed.count q := by
  have hsum := fun i w => sum_setWorker (fun w => w.ports.count q) s i w
  cases hmove with
  | cancel _ => rfl
  | quit _ _ _ => rfl
  | closePorts _ _ => rfl
  | closeResults _ _ => rfl
  | take _ => rfl
  | feed _ _ _ =>
    simp only [Scan.places, List.count_append]
    omega
  | @handOver i p _ hworker _ hports =>
    have hmoved := hsum i (.received p)
    rw [hworker] at hmoved
    simp only [Scan.places, Scan.setWorker, Worker.ports, List.count_append, List.count_nil] at hmoved ⊢
    omega
  | @receive i p rest hworker hports =>
    have hmoved := hsum i (.received p)
    have hcons : (p :: rest).count q = [p].count q + rest.count q := by
      rw [← List.singleton_append, List.count_append]
    rw [hworker] at hmoved
    simp only [Scan.places, Scan.setWorker, Worker.ports, hports, hcons, List.count_nil] at hmoved ⊢
    omega
  | @exhaust i hworker _ _ =>
    have hmoved := hsum i .returned
    rw [hworker] at hmoved
    simp only [Scan.places, Scan.setWorker, Worker.ports, List.count_nil] at hmoved ⊢
    omega
  | @drop i p hworker _ =>
    have hmoved := hsum i .returned
    rw [hworker] at hmoved
    simp only [Scan.places, Scan.setWorker, Worker.ports, List.count_append, List.count_nil] at hmoved ⊢
    omega
  | @checkContext i p hworker _ =>
    have hmoved := hsum i (.probing p)
    rw [hworker] at hmoved
    simp only [Scan.places, Scan.setWorker, Worker.ports] at hmoved ⊢
    omega
  | @probeOpen i p r hworker _ =>
    have hmoved := hsum i (.sending r)
    rw [hworker] at hmoved
    simp only [Scan.places, Scan.setWorker, Worker.ports, List.count_append, List.count_nil] at hmoved ⊢
    omega
  | @probeShut i p hworker _ =>
    have hmoved := hsum i .idle
    rw [hworker] at hmoved
    simp only [Scan.places, Scan.setWorker, Worker.ports, List.count_append, List.count_nil] at hmoved ⊢
    omega
  | @report i r hworker _ =>
    have hmoved := hsum i .idle
    rw [hworker] at hmoved
    simp only [Scan.places, Scan.setWorker, Worker.ports, List.count_nil] at hmoved ⊢
    omega

/-- Every step moves a result from one place to another one, or makes it of a port. -/
theorem copies_of_move (hmove : Move cfg dial host s a s') (r : PortResult) :
    s'.copies r + (s.probed.filterMap (result cfg dial host)).count r
      = s.copies r + (s'.probed.filterMap (result cfg dial host)).count r := by
  have hsum := fun i w => sum_setWorker (fun w => w.sends.count r) s i w
  cases hmove with
  | cancel _ => rfl
  | feed _ _ _ => rfl
  | quit _ _ _ => rfl
  | closePorts _ _ => rfl
  | closeResults _ _ => rfl
  | @handOver i p _ hworker _ _ =>
    have hmoved := hsum i (.received p)
    rw [hworker] at hmoved
    simp only [Scan.copies, Scan.setWorker, Worker.sends, List.count_nil] at hmoved ⊢
    omega
  | @receive i p rest hworker _ =>
    have hmoved := hsum i (.received p)
    rw [hworker] at hmoved
    simp only [Scan.copies, Scan.setWorker, Worker.sends, List.count_nil] at hmoved ⊢
    omega
  | @exhaust i hworker _ _ =>
    have hmoved := hsum i .returned
    rw [hworker] at hmoved
    simp only [Scan.copies, Scan.setWorker, Worker.sends, List.count_nil] at hmoved ⊢
    omega
  | @drop i p hworker _ =>
    have hmoved := hsum i .returned
    rw [hworker] at hmoved
    simp only [Scan.copies, Scan.setWorker, Worker.sends, List.count_nil] at hmoved ⊢
    omega
  | @checkContext i p hworker _ =>
    have hmoved := hsum i (.probing p)
    rw [hworker] at hmoved
    simp only [Scan.copies, Scan.setWorker, Worker.sends, List.count_nil] at hmoved ⊢
    omega
  | @probeOpen i p r' hworker hresult =>
    have hmoved := hsum i (.sending r')
    have hnew : [p].filterMap (result cfg dial host) = [r'] := by simp [hresult]
    rw [hworker] at hmoved
    simp only [Scan.copies, Scan.setWorker, Worker.sends, List.filterMap_append, hnew, List.count_append,
      List.count_nil] at hmoved ⊢
    omega
  | @probeShut i p hworker hresult =>
    have hmoved := hsum i .idle
    have hnew : [p].filterMap (result cfg dial host) = [] := by simp [hresult]
    rw [hworker] at hmoved
    simp only [Scan.copies, Scan.setWorker, Worker.sends, List.filterMap_append, hnew, List.append_nil,
      List.count_nil] at hmoved ⊢
    omega
  | @report i r' hworker _ =>
    have hmoved := hsum i .idle
    rw [hworker] at hmoved
    simp only [Scan.copies, Scan.setWorker, Worker.sends, List.count_append, List.count_nil] at hmoved ⊢
    omega
  | @take r' rest hresults =>
    have hcons : (r' :: rest).count r = [r'].count r + rest.count r := by
      rw [← List.singleton_append, List.count_append]
    simp only [Scan.copies, hresults, hcons, List.count_append]
    omega

/-! ## Section 6: The workers -/

/-- One for a worker that has returned. -/
def Worker.gone : Worker → Nat
  | .returned => 1
  | _ => 0

theorem Worker.gone_of_ne {w : Worker} (hne : w ≠ .returned) : w.gone = 0 := by
  cases w with
  | returned => contradiction
  | _ => rfl

/-- No worker returns before there is nothing left to do, or nothing to be done. -/
structure WorkersOk (s : Scan n) : Prop where
  returned : ∀ i, s.workers i = .returned →
    s.cancelled = true ∨ (s.feeder.isFeeding = false ∧ s.portCh = [])
  /-- Nobody is left to send on the closed channel. -/
  closed : s.feeder = .closed → ∀ i, s.workers i = .returned
  kept : s.cancelled = false → s.dropped = []
  dropped : s.dropped.length ≤ ∑ i, (s.workers i).gone

/-- A worker that takes another place has not returned. -/
theorem returned_of_setWorker {w : Worker} (hne : w ≠ .returned) {j : Fin n}
    (hreturned : (s.setWorker i w).workers j = .returned) : s.workers j = .returned := by
  by_cases hj : j = i
  · rw [hj, Scan.setWorker_self] at hreturned
    exact absurd hreturned hne
  · rw [Scan.setWorker_ne s hj] at hreturned
    exact hreturned

theorem WorkersOk.not_closed (hok : WorkersOk s) {w : Worker} (hworker : s.workers i = w)
    (hne : w ≠ .returned) : s.feeder ≠ .closed := by
  intro hclosed
  exact hne (hworker.symm.trans (hok.closed hclosed i))

/-- A worker goes on. -/
theorem WorkersOk.goOn (hok : WorkersOk s) {w : Worker} (w' : Worker) (hworker : s.workers i = w)
    (hne : w ≠ .returned) (hne' : w' ≠ .returned) (hworkers : s'.workers = (s.setWorker i w').workers)
    (hfeeder : s'.feeder ≠ .closed) (hcancelled : s'.cancelled = s.cancelled)
    (hdropped : s'.dropped = s.dropped)
    (hstill : s.feeder.isFeeding = false ∧ s.portCh = [] →
      s'.feeder.isFeeding = false ∧ s'.portCh = []) :
    WorkersOk s' := by
  constructor
  · intro j hj
    rw [hworkers] at hj
    rw [hcancelled]
    exact (hok.returned j (returned_of_setWorker hne' hj)).imp_right hstill
  · exact fun hclosed => absurd hclosed hfeeder
  · rw [hcancelled, hdropped]
    exact hok.kept
  · have hsum := sum_setWorker Worker.gone s i w'
    rw [hworker, Worker.gone_of_ne hne, Worker.gone_of_ne hne'] at hsum
    rw [hdropped, hworkers]
    have hle := hok.dropped
    omega

/-- A worker returns. -/
theorem WorkersOk.leave (hok : WorkersOk s) {w : Worker} (hworker : s.workers i = w) (hne : w ≠ .returned)
    (hworkers : s'.workers = (s.setWorker i .returned).workers) (hfeeder : s'.feeder = s.feeder)
    (hports : s'.portCh = s.portCh) (hcancelled : s'.cancelled = s.cancelled)
    (hwhy : s.cancelled = true ∨ (s.feeder.isFeeding = false ∧ s.portCh = []))
    (hkept : s.cancelled = false → s'.dropped = [])
    (hdropped : s'.dropped.length ≤ s.dropped.length + 1) : WorkersOk s' := by
  constructor
  · intro _ _
    rw [hcancelled, hfeeder, hports]
    exact hwhy
  · rw [hfeeder]
    exact fun hclosed => absurd hclosed (hok.not_closed hworker hne)
  · rw [hcancelled]
    exact hkept
  · have hsum := sum_setWorker Worker.gone s i .returned
    rw [hworker, Worker.gone_of_ne hne, show Worker.returned.gone = 1 from rfl] at hsum
    rw [hworkers]
    have hle := hok.dropped
    omega

theorem WorkersOk.move (hok : WorkersOk s) (hmove : Move cfg dial host s a s') : WorkersOk s' := by
  cases hmove with
  | cancel hcancelled =>
    constructor
    · exact fun _ _ => .inl rfl
    · exact hok.closed
    · intro hfalse
      contradiction
    · exact hok.dropped
  | @feed p hfeeder _ _ =>
    constructor
    · intro j hj
      rcases hok.returned j hj with hcancelled | ⟨hstopped, _⟩
      · exact .inl hcancelled
      · rw [hfeeder] at hstopped
        contradiction
    · intro hclosed
      cases hclosed
    · exact hok.kept
    · exact hok.dropped
  | @handOver i p hfeeder hworker _ _ =>
    have hfeeding : ¬(s.feeder.isFeeding = false ∧ s.portCh = []) := by
      rw [hfeeder]
      intro hstopped
      cases hstopped.1
    exact hok.goOn (.received p) hworker (by simp) (by simp) rfl (by simp) rfl rfl
      fun hstopped => absurd hstopped hfeeding
  | @quit p hfeeder _ hcancelled =>
    constructor
    · exact fun _ _ => .inl hcancelled
    · intro hclosed
      cases hclosed
    · exact hok.kept
    · exact hok.dropped
  | @closePorts p hfeeder _ =>
    constructor
    · intro j hj
      rcases hok.returned j hj with hcancelled | ⟨hstopped, _⟩
      · exact .inl hcancelled
      · rw [hfeeder] at hstopped
        contradiction
    · intro hclosed
      cases hclosed
    · exact hok.kept
    · exact hok.dropped
  | @receive i p rest hworker hports =>
    have hbuffered : ¬(s.feeder.isFeeding = false ∧ s.portCh = []) := by
      rw [hports]
      intro hempty
      cases hempty.2
    exact hok.goOn (.received p) hworker (by simp) (by simp) rfl (hok.not_closed hworker (by simp)) rfl rfl
      fun hempty => absurd hempty hbuffered
  | @exhaust i hworker hports hstopped =>
    exact hok.leave hworker (by simp) rfl rfl rfl rfl (.inr ⟨hstopped, hports⟩) hok.kept (Nat.le_succ _)
  | @drop i p hworker hcancelled =>
    have hnot : s.cancelled ≠ false := by simp [hcancelled]
    have hone : (s.dropped ++ [p]).length ≤ s.dropped.length + 1 := List.length_append.le
    exact hok.leave hworker (by simp) rfl rfl rfl rfl (.inl hcancelled)
      (fun hfalse => absurd hfalse hnot) hone
  | @checkContext i p hworker _ =>
    exact hok.goOn (.probing p) hworker (by simp) (by simp) rfl
      (hok.not_closed hworker (by simp)) rfl rfl id
  | @probeOpen i p r hworker _ =>
    exact hok.goOn (.sending r) hworker (by simp) (by simp) rfl
      (hok.not_closed hworker (by simp)) rfl rfl id
  | @probeShut i p hworker _ =>
    exact hok.goOn .idle hworker (by simp) (by simp) rfl
      (hok.not_closed hworker (by simp)) rfl rfl id
  | @report i r hworker _ =>
    exact hok.goOn .idle hworker (by simp) (by simp) rfl
      (hok.not_closed hworker (by simp)) rfl rfl id
  | closeResults _ hall =>
    constructor
    · intro j hj
      exact (hok.returned j hj).imp_right fun hend => ⟨rfl, hend.2⟩
    · exact fun _ => hall
    · exact hok.kept
    · exact hok.dropped
  | take _ => exact ⟨hok.returned, hok.closed, hok.kept, hok.dropped⟩

/-! ## Section 7: Whole runs -/

/-- What every run keeps. -/
structure ScanOk (cfg : AttackSurfaceConfig) (dial : String → Int → Option Bytes) (host : String)
    (s : Scan n) : Prop where
  feed : FeedOk cfg s
  places : ∀ q, s.places q = s.fed.count q
  copies : ∀ r, s.copies r = (s.probed.filterMap (result cfg dial host)).count r
  workers : WorkersOk s
  capacity : s.portCh.length ≤ cfg.concurrentScans.toNat

/-- **Step**: every move keeps the invariant. -/
theorem ScanOk.move (hok : ScanOk cfg dial host s) (hmove : Move cfg dial host s a s') :
    ScanOk cfg dial host s' := by
  constructor
  · exact hok.feed.move hmove
  · intro q
    have hplaces := hok.places q
    have hmoved := places_of_move hmove q
    omega
  · intro r
    have hcopies := hok.copies r
    have hmoved := copies_of_move hmove r
    omega
  · exact hok.workers.move hmove
  · have hcapacity := hok.capacity
    cases hmove with
    | feed _ _ hroom =>
      show (s.portCh ++ [_]).length ≤ _
      rw [List.length_append, List.length_singleton]
      omega
    | receive _ hports =>
      rw [hports] at hcapacity
      exact (Nat.le_succ _).trans hcapacity
    | _ => exact hcapacity

theorem scanOk_start (dial : String → Int → Option Bytes) (host : String) {s : Scan cfg.workers}
    (hstart : scanHost cfg = some s) :
    ScanOk cfg dial host s ∧ s.work cfg.stop = 6 * cfg.count + cfg.workers + 3 := by
  simp only [scanHost, Option.ite_none_left_eq_some, Option.some.injEq] at hstart
  obtain ⟨_, rfl⟩ := hstart
  constructor
  · constructor
    · constructor
      · rfl
      · exact Nat.zero_le _
      · intro p hp
        cases hp
        exact (Int.add_zero _).symm
      · intro hstopped
        contradiction
    · intro q
      simp [Scan.places, Worker.ports]
    · intro r
      simp [Scan.copies, Worker.sends]
    · constructor
      · intro i hi
        cases hi
      · intro hclosed
        cases hclosed
      · exact fun _ => rfl
      · exact Nat.zero_le _
    · exact Nat.zero_le _
  · simp [Scan.work, Feeder.cost, Worker.cost, AttackSurfaceConfig.count]
    omega

/-- **Run**: every run keeps the invariant, and every step of it uses up work. -/
theorem scanOk_foldlM {ls : List (ScanAction n)} (hok : ScanOk cfg dial host s)
    (hrun : ls.foldlM (scanStep cfg dial host) s = some s') :
    ScanOk cfg dial host s' ∧ ls.length + s'.work cfg.stop ≤ s.work cfg.stop := by
  induction ls generalizing s with
  | nil =>
    cases hrun
    exact ⟨hok, by rw [List.length_nil, Nat.zero_add]⟩
  | cons a ls ih =>
    rw [List.foldlM_cons, Option.bind_eq_bind, Option.bind_eq_some_iff] at hrun
    obtain ⟨t, hstep, hrest⟩ := hrun
    have hmove := move_of_step hstep
    obtain ⟨hok', hwork⟩ := ih (hok.move hmove) hrest
    have hlt := work_lt_of_move hmove
    rw [List.length_cons]
    exact ⟨hok', by omega⟩

/-! ## Section 8: The scan -/

theorem Scan.idle_sum {f : Worker → Nat} (hreturned : f .returned = 0)
    (hall : ∀ i, s.workers i = .returned) : ∑ i, f (s.workers i) = 0 := by
  apply Finset.sum_eq_zero
  intro i _
  rw [hall i]
  exact hreturned

theorem result_port {p : Int} {r : PortResult} (hresult : result cfg dial host p = some r) : r.port = p := by
  unfold result at hresult
  split at hresult
  · cases hresult
    rfl
  · cases hresult

/-- Every port has one result at most. -/
theorem nodup_openPorts (cfg : AttackSurfaceConfig) (dial : String → Int → Option Bytes) (host : String) :
    ((openPorts cfg dial host).map (·.port)).Nodup := by
  have hsub : ∀ l : List Int, ((l.filterMap (result cfg dial host)).map (·.port)).Sublist l := by
    intro l
    induction l with
    | nil => exact List.Sublist.refl []
    | cons p l ih =>
      cases hresult : result cfg dial host p with
      | none =>
        rw [List.filterMap_cons_none hresult]
        exact ih.cons p
      | some r =>
        rw [List.filterMap_cons_some hresult, List.map_cons, result_port hresult]
        exact ih.cons_cons p
  exact (hsub _).nodup (nodup_ports cfg cfg.count)

theorem mem_openPorts {r : PortResult} :
    r ∈ openPorts cfg dial host ↔ ∃ p ∈ cfg.ports cfg.count, result cfg dial host p = some r := by
  unfold openPorts
  rw [List.mem_filterMap]

/-- The ports that went out are the first ones of the range. -/
theorem FeedOk.sublist (hok : FeedOk cfg s) : s.fed.Sublist (cfg.ports cfg.count) := by
  rw [hok.fed]
  unfold AttackSurfaceConfig.ports
  apply List.Sublist.map
  rw [List.range_sublist]
  exact hok.count

theorem ScanOk.probed (hok : ScanOk cfg dial host s) : s.probed.Subperm s.fed := by
  rw [List.subperm_ext_iff]
  intro p _
  rw [← hok.places p]
  unfold Scan.places
  omega

/-- What was taken are results of ports that were probed. -/
theorem ScanOk.taken (hok : ScanOk cfg dial host s) : s.taken.Subperm (openPorts cfg dial host) := by
  have hmade : s.taken.Subperm (s.probed.filterMap (result cfg dial host)) := by
    rw [List.subperm_ext_iff]
    intro r _
    rw [← hok.copies r]
    unfold Scan.copies
    omega
  obtain ⟨l, hperm, hsub⟩ := hok.probed
  have hfed : (s.probed.filterMap (result cfg dial host)).Subperm (s.fed.filterMap (result cfg dial host)) :=
    ⟨_, hperm.filterMap _, hsub.filterMap _⟩
  exact hmade.trans (hfed.trans (hok.feed.sublist.filterMap _).subperm)

/-- At the end all results of probed ports were taken. -/
theorem ScanOk.taken_perm (hok : ScanOk cfg dial host s) (hover : s.Over) :
    s.taken.Perm (s.probed.filterMap (result cfg dial host)) := by
  rw [List.perm_iff_count]
  intro r
  have hcopies := hok.copies r
  have hsent := Scan.idle_sum (f := fun w => w.sends.count r) rfl (hok.workers.closed hover.1)
  simp only [Scan.copies, hover.2, hsent, List.count_nil] at hcopies
  omega

/-- A scan that nobody cancelled has probed every port of the range. -/
theorem ScanOk.probed_perm (hok : ScanOk cfg dial host s) (hpos : 0 < n) (hover : s.Over)
    (hcancelled : s.cancelled = false) : s.probed.Perm (cfg.ports cfg.count) := by
  have hall := hok.workers.closed hover.1
  have hstopped : s.feeder.isFeeding = false := by rw [hover.1]; rfl
  have hports : s.portCh = [] := by
    rcases hok.workers.returned ⟨0, hpos⟩ (hall _) with htrue | hempty
    · rw [hcancelled] at htrue
      contradiction
    · exact hempty.2
  have hfed : s.fed = cfg.ports cfg.count := by
    rcases hok.feed.stopped hstopped with htrue | hcount
    · rw [hcancelled] at htrue
      contradiction
    · rw [← hcount]
      exact hok.feed.fed
  rw [List.perm_iff_count]
  intro p
  have hplaces := hok.places p
  have hheld := Scan.idle_sum (f := fun w => w.ports.count p) rfl hall
  simp only [Scan.places, hports, hheld, hok.workers.kept hcancelled, List.count_nil] at hplaces
  rw [← hfed]
  omega

/-- **Progress**: some goroutine can go on until the results are taken. -/
theorem ScanOk.progress (hok : ScanOk cfg dial host s) (hpos : 0 < n) (hnot : ¬ s.Over) :
    ∃ a, a ≠ .cancel ∧ (scanStep cfg dial host s a).isSome := by
  by_cases hresults : s.results = []
  · -- no worker is blocked by the results
    by_cases hbusy : ∃ i, s.workers i ≠ .idle ∧ s.workers i ≠ .returned
    · obtain ⟨i, hidle, hreturned⟩ := hbusy
      cases hworker : s.workers i with
      | idle => contradiction
      | returned => contradiction
      | received p =>
        refine ⟨.checkContext i, by simp, ?_⟩
        cases hcancelled : s.cancelled <;> simp [scanStep, hworker, hcancelled]
      | probing p =>
        refine ⟨.probe i, by simp, ?_⟩
        cases hresult : result cfg dial host p <;> simp [scanStep, hworker, hresult]
      | sending r =>
        exact ⟨.report i, by simp, by simp [scanStep, hworker, hresults, resultsCapacity]⟩
    · have hrest : ∀ i, s.workers i = .idle ∨ s.workers i = .returned := by
        intro i
        by_contra hother
        rw [not_or] at hother
        exact hbusy ⟨i, hother⟩
      by_cases hreturned : ∀ i, s.workers i = .returned
      · cases hfeeder : s.feeder with
        | closed => exact absurd ⟨hfeeder, hresults⟩ hnot
        | waiting => exact ⟨.closeResults, by simp, by simp [scanStep, hfeeder, hreturned]⟩
        | feeding p =>
          -- a worker returned while ports go out, so the context is cancelled
          have hcancelled : s.cancelled = true := by
            rcases hok.workers.returned ⟨0, hpos⟩ (hreturned _) with htrue | hempty
            · exact htrue
            · rw [hfeeder] at hempty
              cases hempty.1
          by_cases hstop : p ≤ cfg.stop
          · exact ⟨.quit, by simp, by simp [scanStep, hfeeder, hstop, hcancelled]⟩
          · exact ⟨.closePorts, by simp, by simp [scanStep, hfeeder, hstop]⟩
      · obtain ⟨i, hi⟩ := not_forall.mp hreturned
        have hidle := (hrest i).resolve_right hi
        cases hports : s.portCh with
        | cons p rest => exact ⟨.receive i, by simp, by simp [scanStep, hidle, hports]⟩
        | nil =>
          cases hfeeder : s.feeder with
          | feeding p =>
            by_cases hstop : p ≤ cfg.stop
            · exact ⟨.handOver i, by simp, by simp [scanStep, hidle, hports, hfeeder, hstop]⟩
            · exact ⟨.closePorts, by simp, by simp [scanStep, hfeeder, hstop]⟩
          | waiting =>
            exact ⟨.exhaust i, by simp, by simp [scanStep, hidle, hports, hfeeder, Feeder.isFeeding]⟩
          | closed =>
            exact ⟨.exhaust i, by simp, by simp [scanStep, hidle, hports, hfeeder, Feeder.isFeeding]⟩
  · obtain ⟨r, rest, hcons⟩ := List.exists_cons_of_ne_nil hresults
    exact ⟨.take, by simp, by simp [scanStep, hcons]⟩

/-- What a scan has done when somebody looks at it. -/
structure Scanned (cfg : AttackSurfaceConfig) (dial : String → Int → Option Bytes) (host : String)
    (s : Scan n) : Prop where
  /-- Only open ports are reported, each at most once. -/
  sound : s.pushed.Subperm ((openPorts cfg dial host).map scanEvent)
  once : (s.taken.map (·.port)).Nodup
  /-- A scan that runs to its end reports all of them. -/
  complete : s.Over → s.cancelled = false → s.pushed.Perm ((openPorts cfg dial host).map scanEvent)
  /-- What a cancelled scan leaves out. -/
  left : s.Over → ∀ r ∈ openPorts cfg dial host,
    r ∈ s.taken ∨ r.port ∉ s.fed ∨ r.port ∈ s.portCh ∨ r.port ∈ s.dropped
  few : s.portCh.length ≤ cfg.concurrentScans.toNat ∧ s.dropped.length ≤ n
  /-- Nobody sends on the closed channel. -/
  safe : s.feeder = .closed → ∀ i, s.workers i = .returned
  /-- The goroutines do not wait for each other. -/
  progress : ¬ s.Over → ∃ a, a ≠ .cancel ∧ (scanStep cfg dial host s a).isSome

theorem gone_le (s : Scan n) : ∑ i, (s.workers i).gone ≤ n := by
  have hle : ∀ i ∈ Finset.univ, (s.workers i).gone ≤ 1 := by
    intro i _
    cases s.workers i <;> simp [Worker.gone]
  calc ∑ i, (s.workers i).gone ≤ ∑ _ : Fin n, 1 := Finset.sum_le_sum hle
    _ = n := by simp

theorem ScanOk.left (hok : ScanOk cfg dial host s) (hover : s.Over) {r : PortResult}
    (hr : r ∈ openPorts cfg dial host) :
    r ∈ s.taken ∨ r.port ∉ s.fed ∨ r.port ∈ s.portCh ∨ r.port ∈ s.dropped := by
  obtain ⟨p, _, hresult⟩ := mem_openPorts.mp hr
  rw [result_port hresult]
  by_cases hprobed : p ∈ s.probed
  · exact .inl ((hok.taken_perm hover).mem_iff.mpr (List.mem_filterMap.mpr ⟨p, hprobed, hresult⟩))
  · right
    have hplaces := hok.places p
    have hheld := Scan.idle_sum (f := fun w => w.ports.count p) rfl (hok.workers.closed hover.1)
    simp only [Scan.places, hheld, List.count_eq_zero_of_not_mem hprobed] at hplaces
    by_cases hfed : p ∈ s.fed
    · have hpos := List.count_pos_iff.mpr hfed
      rw [← List.count_pos_iff (a := p) (l := s.portCh), ← List.count_pos_iff (a := p) (l := s.dropped)]
      omega
    · exact .inl hfed

theorem ScanOk.scanned (hok : ScanOk cfg dial host s) (hpos : 0 < n) : Scanned cfg dial host s := by
  obtain ⟨l, hperm, hsub⟩ := hok.taken
  constructor
  · exact ⟨l.map scanEvent, hperm.map _, hsub.map _⟩
  · apply (hperm.map _).nodup_iff.mp
    exact (hsub.map _).nodup (nodup_openPorts cfg dial host)
  · intro hover hcancelled
    apply List.Perm.map
    exact (hok.taken_perm hover).trans ((hok.probed_perm hpos hover hcancelled).filterMap _)
  · exact fun hover r hr => hok.left hover hr
  · exact ⟨hok.capacity, hok.workers.dropped.trans (gone_le s)⟩
  · exact hok.workers.closed
  · exact hok.progress hpos

theorem workers_pos (cfg : AttackSurfaceConfig) : 0 < cfg.workers := by
  unfold AttackSurfaceConfig.workers
  split <;> omega

/-- **The scan**: in whichever order the goroutines take their steps, and whenever the
    context is cancelled, a run has a bounded number of steps, and until its end some
    goroutine can go on.  Only open ports of the range are reported, each of them once,
    and all of them unless the context was cancelled. -/
theorem scan_reports {ls : List (ScanAction cfg.workers)} {s : Scan cfg.workers}
    (hrun : scanRun cfg dial host ls = some s) :
    ls.length ≤ 6 * cfg.count + cfg.workers + 3 ∧ Scanned cfg dial host s := by
  unfold scanRun at hrun
  rw [Option.bind_eq_some_iff] at hrun
  obtain ⟨s₀, hstart, hsteps⟩ := hrun
  obtain ⟨hok, hwork⟩ := scanOk_start dial host hstart
  obtain ⟨hok', hused⟩ := scanOk_foldlM hok hsteps
  exact ⟨by omega, hok'.scanned (workers_pos cfg)⟩

def sshConfig : AttackSurfaceConfig := ⟨1, 22, 24, true⟩

/-- Only port 22 answers. -/
def sshDial (_ : String) (port : Int) : Option Bytes := if port = 22 then some [83, 83, 72] else none

def sshWorker : Fin sshConfig.workers := ⟨0, workers_pos sshConfig⟩

/-- The worker probes one port while the next one waits in the channel. -/
def sshSteps : List (ScanAction sshConfig.workers) :=
  [.handOver sshWorker, .feed, .checkContext sshWorker, .probe sshWorker, .report sshWorker,
    .receive sshWorker, .feed, .closePorts, .take, .checkContext sshWorker, .probe sshWorker,
    .receive sshWorker, .checkContext sshWorker, .probe sshWorker, .exhaust sshWorker, .closeResults]

/-- After a cancellation the worker drops the port that waits, and the last one is not fed. -/
def cancelledSteps : List (ScanAction sshConfig.workers) :=
  [.handOver sshWorker, .feed, .checkContext sshWorker, .probe sshWorker, .report sshWorker,
    .cancel, .receive sshWorker, .checkContext sshWorker, .quit, .closeResults, .take]

theorem scan_reports_ssh : ∃ s s', scanRun sshConfig sshDial "10.0.0.1" sshSteps = some s
    ∧ scanRun sshConfig sshDial "10.0.0.1" cancelledSteps = some s' ∧ s'.dropped = [23]
    ∧ sshSteps.length ≤ 6 * sshConfig.count + sshConfig.workers + 3
    ∧ Scanned sshConfig sshDial "10.0.0.1" s ∧ Scanned sshConfig sshDial "10.0.0.1" s' := by
  have hruns : (scanRun sshConfig sshDial "10.0.0.1" sshSteps).isSome = true := by decide +kernel
  have hcancelled : (scanRun sshConfig sshDial "10.0.0.1" cancelledSteps).map Scan.dropped
      = some [23] := by decide +kernel
  obtain ⟨s, hrun⟩ := Option.isSome_iff_exists.mp hruns
  obtain ⟨s', hrun', hdropped⟩ := Option.map_eq_some_iff.mp hcancelled
  obtain ⟨hlength, hscanned⟩ := scan_reports hrun
  exact ⟨s, s', hrun, hrun', hdropped, hlength, hscanned, (scan_reports hrun').2⟩

/-! ## Section 9: The targets -/

theorem mem_distinctIPs {ip : String} {seen : List String} {assets : List Asset} :
    ip ∈ distinctIPs seen assets ↔ ip ≠ "" ∧ ip ∉ seen ∧ ∃ a ∈ assets, a.ip = ip := by
  induction assets generalizing seen with
  | nil => simp [distinctIPs]
  | cons a rest ih =>
    by_cases hnew : a.ip ≠ "" ∧ a.ip ∉ seen
    · rw [distinctIPs, if_pos hnew, List.mem_cons, ih, List.exists_mem_cons_iff]
      by_cases heq : ip = a.ip
      · subst heq
        simp [hnew]
      · simp [heq, Ne.symm heq]
    · rw [distinctIPs, if_neg hnew, ih, List.exists_mem_cons_iff]
      by_cases heq : a.ip = ip
      · subst heq
        rw [not_and, not_not] at hnew
        constructor
        · intro hrest
          exact ⟨hrest.1, hrest.2.1, .inl rfl⟩
        · intro hthis
          exact absurd (hnew hthis.1) hthis.2.1
      · simp [heq]

/-- **Targets**: every address of an asset is scanned by one goroutine, and localhost
    where there is none. -/
theorem resolveTargets_assets (assets : List Asset) :
    (resolveTargets (some (some assets))).Nodup ∧ resolveTargets (some (some assets)) ≠ []
      ∧ ∀ a ∈ assets, a.ip ≠ "" → a.ip ∈ resolveTargets (some (some assets)) := by
  have hnodup : ∀ (assets : List Asset) (seen : List String), (distinctIPs seen assets).Nodup := by
    intro assets
    induction assets with
    | nil => exact fun _ => List.nodup_nil
    | cons a rest ih =>
      intro seen
      unfold distinctIPs
      split
      · apply List.nodup_cons.mpr
        exact ⟨fun hmem => (mem_distinctIPs.mp hmem).2.1 List.mem_cons_self, ih _⟩
      · exact ih _
  have hall : ∀ a ∈ assets, a.ip ≠ "" → a.ip ∈ distinctIPs [] assets := by
    intro a ha hip
    exact mem_distinctIPs.mpr ⟨hip, List.not_mem_nil, a, ha, rfl⟩
  by_cases hempty : distinctIPs [] assets = []
  · rw [resolveTargets, if_pos hempty]
    rw [hempty] at hall
    exact ⟨List.nodup_singleton _, List.cons_ne_nil _ _,
      fun a ha hip => absurd (hall a ha hip) List.not_mem_nil⟩
  · rw [resolveTargets, if_neg hempty]
    exact ⟨hnodup assets [], hempty, hall⟩

end Owasaka.Discovery
