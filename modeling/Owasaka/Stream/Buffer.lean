import Mathlib.Data.List.Induction
import Owasaka.Events.Pipeline
import Owasaka.Foundation.RingBuffer

/-! # The event buffer (`analytics/stream/buffer.go`)

    A ring of fixed capacity with a slot to write next, a count and a counter of drops.
    A full buffer displaces its oldest event or refuses the new one.

    The main result: the buffer is a list of bounded length.  Every push does to the
    buffer what it does to the list, so after any pushes it holds the last events, or
    the first ones, and every push is counted once. -/

namespace Owasaka.Stream

open Events

/-! ## Section 1: Model -/

/-- `BackpressurePolicy` is a Go string; these are its constants, and any other text. -/
inductive BackpressurePolicy where
  | dropOldest
  | dropNewest
  | other (text : String)
  deriving DecidableEq

inductive BufferError where
  | bufferFull
  deriving DecidableEq

structure CircularBuffer where
  data : List NetworkEvent
  head : Nat
  count : Nat
  capacity : Nat
  policy : BackpressurePolicy
  dropped : UInt64

/-- The zero value of `models.NetworkEvent`. -/
def zeroEvent : NetworkEvent where
  id := ""
  type := .other ""
  source := ""
  destination := ""
  metadata := ∅
  timestamp := zeroTime
  signature := []
  signerKeyID := ""

def newCircularBuffer (capacity : Int) (policy : BackpressurePolicy) : CircularBuffer :=
  let capacity := if capacity ≤ 0 then 10000 else capacity.toNat
  { data := List.replicate capacity zeroEvent
    head := 0
    count := 0
    capacity := capacity
    policy := if policy ≠ .dropNewest then .dropOldest else policy
    dropped := 0 }

def push (b : CircularBuffer) (e : NetworkEvent) : Option BufferError × CircularBuffer :=
  if b.count = b.capacity ∧ b.policy = .dropNewest then
    (some .bufferFull, { b with dropped := b.dropped + 1 })
  else
    -- the entry at head is the oldest
    let dropped := if b.count = b.capacity then b.dropped + 1 else b.dropped
    (none,
      { b with
        data := b.data.set b.head e
        head := (b.head + 1) % b.capacity
        count := if b.count < b.capacity then b.count + 1 else b.count
        dropped := dropped })

def CircularBuffer.len (b : CircularBuffer) : Nat := b.count

/-- Oldest first; `none` when an index is out of range. -/
def snapshot (b : CircularBuffer) : Option (List NetworkEvent) :=
  let start := ((b.head : Int) - b.count + b.capacity).tmod b.capacity
  readRing b.data start.toNat b.capacity b.count 0

/-! ## Section 2: The bounded list -/

/-- A list that holds `capacity` elements at most. -/
structure BoundedList (α : Type) where
  items : List α
  dropped : Nat

/-- Offers an element; the result tells whether it was taken. -/
def BoundedList.offer {α : Type} (capacity : Nat) (refuses : Bool) (l : BoundedList α) (a : α) :
    Bool × BoundedList α :=
  if l.items.length < capacity then (true, { l with items := l.items ++ [a] })
  else if refuses then (false, { l with dropped := l.dropped + 1 })
  else (true, ⟨l.items.tail ++ [a], l.dropped + 1⟩)

/-- A sequence of calls, with their results. -/
def calls {σ α ρ : Type} (call : σ → α → ρ × σ) (s : σ) (args : List α) : List ρ × σ :=
  args.foldl (fun run a => (run.1 ++ [(call run.2 a).1], (call run.2 a).2)) ([], s)

section Calls

variable {σ τ α ρ ρ' : Type} {call : σ → α → ρ × σ} {call' : τ → α → ρ' × τ}

theorem calls_concat (s : σ) (args : List α) (a : α) :
    calls call s (args ++ [a]) = ((calls call s args).1 ++ [(call (calls call s args).2 a).1],
      (call (calls call s args).2 a).2) := by
  unfold calls
  rw [List.foldl_append, List.foldl_cons, List.foldl_nil]

/-- **Simulation rule**: when every call keeps a relation and gives related results, so
    does every sequence of calls. -/
theorem calls_simulate {R : σ → τ → Prop} {f : ρ' → ρ}
    (hcall : ∀ s t a, R s t → (call s a).1 = f (call' t a).1 ∧ R (call s a).2 (call' t a).2)
    {s : σ} {t : τ} (hst : R s t) (args : List α) :
    (calls call s args).1 = (calls call' t args).1.map f
      ∧ R (calls call s args).2 (calls call' t args).2 := by
  induction args using List.reverseRecOn with
  | nil => exact ⟨rfl, hst⟩
  | append_singleton args a ih =>
    obtain ⟨hresult, hkeep⟩ := hcall _ _ a ih.2
    rw [calls_concat, calls_concat]
    refine ⟨?_, hkeep⟩
    rw [List.map_append, ih.1, hresult]
    rfl

end Calls

section BoundedList

variable {α : Type} {capacity : Nat}

/-- The list that displaces has the last elements, and takes every one. -/
theorem offers_displace (hpos : 0 < capacity) (args : List α) :
    calls (BoundedList.offer capacity false) ⟨[], 0⟩ args
      = (List.replicate args.length true,
        ⟨args.drop (args.length - capacity), args.length - capacity⟩) := by
  induction args using List.reverseRecOn with
  | nil => simp [calls]
  | append_singleton args a ih =>
    rw [calls_concat, ih]
    unfold BoundedList.offer
    simp only [List.length_drop, List.length_append, List.length_singleton, List.replicate_succ']
    by_cases hroom : args.length < capacity
    · rw [if_pos (by omega), show args.length - capacity = 0 by omega,
        show args.length + 1 - capacity = 0 by omega]
      rfl
    · rw [if_neg (by omega), show args.length + 1 - capacity = args.length - capacity + 1 by omega,
        List.drop_append_of_le_length (by omega), List.tail_drop]
      rfl

/-- The list that refuses has the first elements, and takes no other. -/
theorem offers_refuse (args : List α) :
    calls (BoundedList.offer capacity true) ⟨[], 0⟩ args
      = ((List.range args.length).map fun i => decide (i < capacity),
        ⟨args.take capacity, args.length - capacity⟩) := by
  induction args using List.reverseRecOn with
  | nil => simp [calls]
  | append_singleton args a ih =>
    rw [calls_concat, ih]
    unfold BoundedList.offer
    simp only [List.length_take, List.length_append, List.length_singleton, List.range_succ,
      List.map_append, List.map_singleton]
    by_cases hroom : args.length < capacity
    · rw [if_pos (by omega), List.take_of_length_le (by omega), List.take_of_length_le (by simp; omega),
        show args.length + 1 - capacity = args.length - capacity by omega, decide_eq_true hroom]
    · rw [if_neg (by omega), List.take_append_of_le_length (by omega),
        show args.length + 1 - capacity = args.length - capacity + 1 by omega,
        decide_eq_false hroom]
      rfl

end BoundedList

/-! ## Section 3: The buffer is a bounded list -/

/-- The error of a push that was taken, or not. -/
def pushResult (taken : Bool) : Option BufferError := if taken then none else some .bufferFull

/-- The buffer holds the list, and counts its drops modulo 2 ^ 64. -/
structure Refines (policy : BackpressurePolicy) (capacity : Nat) (b : CircularBuffer)
    (l : BoundedList NetworkEvent) : Prop where
  holds : RingHolds b.data b.head l.items
  count : b.count = l.items.length
  length : b.data.length = capacity
  capacity : b.capacity = capacity
  policy : b.policy = policy
  dropped : b.dropped = UInt64.ofNat l.dropped

variable {policy : BackpressurePolicy} {capacity : Nat} {b : CircularBuffer} {l : BoundedList NetworkEvent}

theorem refines_new {capacity : Int} (hpos : 0 < capacity) (policy : BackpressurePolicy) :
    Refines (if policy ≠ .dropNewest then .dropOldest else policy) capacity.toNat
      (newCircularBuffer capacity policy) ⟨[], 0⟩ := by
  have hnot : ¬ capacity ≤ 0 := Int.not_le.mpr hpos
  unfold newCircularBuffer
  simp only [if_neg hnot]
  refine ⟨RingHolds.nil ?_, rfl, List.length_replicate, rfl, rfl, rfl⟩
  rw [List.length_replicate]
  omega

theorem push_room (e : NetworkEvent) (hroom : b.count < b.capacity) :
    push b e = (none, { b with
      data := b.data.set b.head e
      head := (b.head + 1) % b.capacity
      count := b.count + 1 }) := by
  have hne : b.count ≠ b.capacity := Nat.ne_of_lt hroom
  simp only [push, hne, hroom, false_and, if_false, if_true]

theorem push_refuse (e : NetworkEvent) (hfull : b.count = b.capacity) (hnewest : b.policy = .dropNewest) :
    push b e = (some .bufferFull, { b with dropped := b.dropped + 1 }) := if_pos ⟨hfull, hnewest⟩

theorem push_displace (e : NetworkEvent) (hfull : b.count = b.capacity) (hoff : b.policy ≠ .dropNewest) :
    push b e = (none, { b with
      data := b.data.set b.head e
      head := (b.head + 1) % b.capacity
      dropped := b.dropped + 1 }) := by
  have hnlt : ¬ b.count < b.capacity := by omega
  simp only [push, hoff, hfull, and_false, if_false, if_true, lt_irrefl]

/-- **Step lemma**: a push does to the buffer what it does to the list. -/
theorem Refines.push (href : Refines policy capacity b l) (e : NetworkEvent) :
    (push b e).1 = pushResult (l.offer capacity (decide (policy = .dropNewest)) e).1
      ∧ Refines policy capacity (push b e).2 (l.offer capacity (decide (policy = .dropNewest)) e).2 := by
  obtain ⟨hholds, hcount, hlength, hcapacity, hpolicy, hdropped⟩ := href
  have hfits := hholds.fits
  have hdrop : b.dropped + 1 = UInt64.ofNat (l.dropped + 1) := by
    rw [hdropped, UInt64.ofNat_add]
    rfl
  rw [hlength] at hfits
  unfold BoundedList.offer
  by_cases hroom : l.items.length < capacity
  · rw [push_room e (by omega), if_pos hroom]
    refine ⟨rfl, ?_, ?_, ?_, hcapacity, hpolicy, hdropped⟩
    · rw [hcapacity, ← hlength]
      exact hholds.push (by omega) e
    · simp only [List.length_append, List.length_singleton, hcount]
    · simp only [List.length_set, hlength]
  · have hfull : b.count = b.capacity := by omega
    rw [if_neg hroom]
    by_cases hnewest : policy = .dropNewest
    · rw [push_refuse e hfull (hpolicy.trans hnewest), if_pos (decide_eq_true hnewest)]
      exact ⟨rfl, hholds, hcount, hlength, hcapacity, hpolicy, hdrop⟩
    · rw [push_displace e hfull (hpolicy ▸ hnewest), if_neg (by simpa using hnewest)]
      refine ⟨rfl, ?_, ?_, ?_, hcapacity, hpolicy, hdrop⟩
      · rw [hcapacity, ← hlength]
        exact hholds.displace (by omega) e
      · have hpos := hholds.head_lt
        simp only [List.length_append, List.length_tail, List.length_singleton]
        omega
      · simp only [List.length_set, hlength]

theorem Refines.snapshot (href : Refines policy capacity b l) : snapshot b = some l.items := by
  have hfits := href.holds.fits
  have hstart : (((b.head : Int) - b.count + b.capacity).tmod b.capacity).toNat
      = (b.head + (b.data.length - l.items.length)) % b.data.length := by
    have hsum : (b.head : Int) - b.count + b.capacity
        = ((b.head + (b.data.length - l.items.length) : Nat) : Int) := by
      rw [href.count, href.capacity, ← href.length]
      omega
    rw [hsum, href.capacity, ← href.length, ← Int.ofNat_tmod, Int.toNat_natCast]
  unfold Stream.snapshot
  simp only
  rw [hstart, href.capacity, ← href.length, href.count]
  exact href.holds.read

theorem Refines.len (href : Refines policy capacity b l) : b.len = l.items.length := href.count

/-- **Run lemma**: pushes into a new buffer are offers to an empty list. -/
theorem refines_pushes {capacity : Int} (hpos : 0 < capacity) (policy : BackpressurePolicy)
    (events : List NetworkEvent) :
    (calls push (newCircularBuffer capacity policy) events).1
        = (calls (BoundedList.offer capacity.toNat (decide (policy = .dropNewest))) ⟨[], 0⟩ events).1.map
            pushResult
      ∧ Refines (if policy ≠ .dropNewest then .dropOldest else policy) capacity.toNat
          (calls push (newCircularBuffer capacity policy) events).2
          (calls (BoundedList.offer capacity.toNat (decide (policy = .dropNewest))) ⟨[], 0⟩ events).2 := by
  have hrefuses : decide ((if policy ≠ .dropNewest then .dropOldest else policy) = .dropNewest)
      = decide (policy = .dropNewest) := by
    by_cases hnewest : policy = .dropNewest
    · simp [hnewest]
    · simp [hnewest]
  rw [← hrefuses]
  exact calls_simulate (fun _ _ e href => href.push e) (refines_new hpos policy) events

/-! ## Section 4: The pushed events -/

/-- The counter wraps around, but not before `2 ^ 64` events. -/
theorem dropped_add_len {b : CircularBuffer} {n capacity : Nat}
    (hdropped : b.dropped = UInt64.ofNat (n - capacity)) (hlen : b.len = min n capacity)
    (hlt : n < 2 ^ 64) : b.dropped.toNat + b.len = n := by
  rw [hlen, hdropped, UInt64.toNat_ofNat_of_lt' (Nat.lt_of_le_of_lt (Nat.sub_le _ _) hlt)]
  exact Nat.sub_add_min_cancel _ _

/-- After any pushes into a new buffer that displaces, it holds the last events and every
    push was taken; one that refuses holds the first events, and refused exactly the others.
    Either way it holds as many as were pushed and fit, and counts the rest as dropped. -/
theorem circularBuffer_refines_list {capacity : Int} (hpos : 0 < capacity) (policy : BackpressurePolicy)
    (events : List NetworkEvent) :
    let run := calls push (newCircularBuffer capacity policy) events
    (policy ≠ .dropNewest →
        snapshot run.2 = some (events.drop (events.length - capacity.toNat))
          ∧ run.1 = List.replicate events.length none)
      ∧ (policy = .dropNewest →
        snapshot run.2 = some (events.take capacity.toNat)
          ∧ run.1 = (List.range events.length).map fun i =>
              if i < capacity.toNat then none else some .bufferFull)
      ∧ run.2.len = min events.length capacity.toNat
      ∧ (events.length < 2 ^ 64 → run.2.dropped.toNat + run.2.len = events.length) := by
  intro run
  obtain ⟨hresults, href⟩ := refines_pushes hpos policy events
  have hcapacity : 0 < capacity.toNat := by omega
  by_cases hnewest : policy = .dropNewest
  · rw [decide_eq_true hnewest, offers_refuse] at hresults href
    have hlen : run.2.len = min events.length capacity.toNat := by
      rw [href.len, List.length_take, Nat.min_comm]
    refine ⟨fun hnot => absurd hnewest hnot, fun _ => ⟨href.snapshot, ?_⟩, hlen, ?_⟩
    · rw [hresults, List.map_map]
      apply List.map_congr_left
      intro i _
      simp [pushResult]
    · exact dropped_add_len href.dropped hlen
  · rw [decide_eq_false hnewest, offers_displace hcapacity] at hresults href
    have hlen : run.2.len = min events.length capacity.toNat := by
      rw [href.len, List.length_drop]
      omega
    refine ⟨fun _ => ⟨href.snapshot, ?_⟩, fun heq => absurd heq hnewest, hlen, ?_⟩
    · rw [hresults, List.map_replicate]
      rfl
    · exact dropped_add_len href.dropped hlen

/-- Three pushes into a buffer for two events. -/
theorem circularBuffer_refines_list_two :
    let run := calls push (newCircularBuffer 2 .dropOldest)
      [{ zeroEvent with id := "a" }, { zeroEvent with id := "b" }, { zeroEvent with id := "c" }]
    snapshot run.2 = some [{ zeroEvent with id := "b" }, { zeroEvent with id := "c" }] :=
  ((circularBuffer_refines_list (show (0 : Int) < 2 by decide) .dropOldest
    [{ zeroEvent with id := "a" }, { zeroEvent with id := "b" }, { zeroEvent with id := "c" }]).1
      (by decide)).1

end Owasaka.Stream
