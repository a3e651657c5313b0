import Owasaka.Events.Pipeline
import Owasaka.Foundation.Descending
import Owasaka.Foundation.System

/-! # Sliding windows (`analytics/stream/window.go`)

    Fifteen buckets of counts in a ring.  `record` goes on to the next bucket when
    the minute has ticked, by one bucket however many minutes have passed; `stats`
    sums the most recent buckets and does not look at the clock.

    The buckets therefore stand for the last minutes in which something was
    recorded.  The main result: the counts of an IP are right if and only if each of
    its records that is out of a window has been overtaken by as many later minutes
    with records as the window is long.  Times are nanoseconds. -/

namespace Owasaka.Stream

open Events

/-! ## Section 1: Model -/

def bucketDuration : Int := 60 * 10 ^ 9
def totalBuckets : Nat := 15

/-- `Truncate(bucketDuration)`. -/
def truncate (t : Int) : Int := t / bucketDuration * bucketDuration

/-- The counts of an IP by type; an IP without an entry has none. -/
structure Bucket where
  ts : Int
  counts : String → List (EventType × Nat)

def newBucket (ts : Int) : Bucket := ⟨ts, fun _ => []⟩

/-- `m[t]++` in a map of counts. -/
def increment (t : EventType) : List (EventType × Nat) → List (EventType × Nat)
  | [] => [(t, 1)]
  | (type, n) :: rest => if type = t then (type, n + 1) :: rest else (type, n) :: increment t rest

def Bucket.record (b : Bucket) (ip : String) (t : EventType) : Bucket :=
  { b with counts := fun ip' => if ip' = ip then increment t (b.counts ip) else b.counts ip' }

/-- The sum of the counts of an IP. -/
def Bucket.total (b : Bucket) (ip : String) : Nat := ((b.counts ip).map (·.2)).sum

structure Windower where
  /-- The ring; slots from `totalBuckets` on are not used. -/
  buckets : Nat → Bucket
  current : Nat

def newWindower (now : Int) : Windower := ⟨fun _ => newBucket (truncate now), 0⟩

def setBucket (w : Windower) (i : Nat) (b : Bucket) : Windower :=
  { w with buckets := fun j => if j = i then b else w.buckets j }

/-- The ring goes on to a new bucket. -/
def rotate (w : Windower) (now : Int) : Windower :=
  let next := (w.current + 1) % totalBuckets
  { setBucket w next (newBucket now) with current := next }

def record (w : Windower) (time : Int) (ip : String) (t : EventType) : Windower :=
  let now := truncate time
  -- one bucket on, however many minutes have passed
  let w := if now > (w.buckets w.current).ts then rotate w now else w
  setBucket w w.current ((w.buckets w.current).record ip t)

/-- The bucket that is `i` back in the ring. -/
def back (w : Windower) (i : Nat) : Bucket :=
  w.buckets ((w.current + totalBuckets - i) % totalBuckets)

/-- `WindowStats`, less the rate, which is a float. -/
structure WindowStats where
  ip : String
  count1m : Nat
  count5m : Nat
  count15m : Nat

/-- One round of the loop of `stats`. -/
def addBucket (w : Windower) (ip : String) (acc : WindowStats) (i : Nat) : WindowStats :=
  let total := (back w i).total ip
  { acc with
    count15m := acc.count15m + total
    count5m := if i < 5 then acc.count5m + total else acc.count5m
    count1m := if i < 1 then acc.count1m + total else acc.count1m }

def stats (w : Windower) (ip : String) : WindowStats :=
  (List.range totalBuckets).foldl (addBucket w ip) ⟨ip, 0, 0, 0⟩

/-! ## Section 2: Runs -/

/-- A call of `record`. -/
structure Record where
  ip : String
  time : Int

def minuteOf (t : Int) : Int := t / bucketDuration

structure WindowState where
  windower : Windower
  /-- The calls of `record` so far. -/
  records : List Record
  /-- The time of the last call. -/
  now : Int

def WindowState.record (s : WindowState) (time : Int) (ip : String) (t : EventType) :
    WindowState :=
  ⟨Stream.record s.windower time ip t, s.records ++ [⟨ip, time⟩], time⟩

/-- Calls of `record` under a clock that does not go back.  `stats` changes nothing. -/
def windowing : System WindowState (Int × String × EventType) where
  init := fun s => s = ⟨newWindower s.now, [], s.now⟩
  step := fun s l s' => s.now ≤ l.1 ∧ s' = s.record l.1 l.2.1 l.2.2

/-- The records of the IP in the last `n` minutes, ending with that of `t`. -/
def recentCount (s : WindowState) (ip : String) (t : Int) (n : Nat) : Nat :=
  s.records.countP fun r => r.ip = ip && decide (minuteOf t - n < minuteOf r.time)

structure CountsRight (s : WindowState) (ip : String) (t : Int) : Prop where
  count1m : (stats s.windower ip).count1m = recentCount s ip t 1
  count5m : (stats s.windower ip).count5m = recentCount s ip t 5
  count15m : (stats s.windower ip).count15m = recentCount s ip t 15

/-- Each record of the IP before the last `n` minutes has `n` later minutes with
    records, of any IP. -/
def Overtaken (s : WindowState) (ip : String) (t : Int) (n : Nat) : Prop :=
  ∀ r ∈ s.records, r.ip = ip → minuteOf r.time ≤ minuteOf t - n →
    ∃ later : List Int, later.Nodup ∧ later.length = n
      ∧ ∀ m ∈ later, minuteOf r.time < m ∧ ∃ r' ∈ s.records, minuteOf r'.time = m

/-! ## Section 3: The ring -/

variable {w : Windower} {s : WindowState} {ip : String} {t : EventType} {time : Int}

theorem sum_increment (t : EventType) (counts : List (EventType × Nat)) :
    ((increment t counts).map (·.2)).sum = (counts.map (·.2)).sum + 1 := by
  induction counts with
  | nil => rfl
  | cons entry rest ih =>
    obtain ⟨type, n⟩ := entry
    unfold increment
    split
    · simp only [List.map_cons, List.sum_cons]
      omega
    · simp only [List.map_cons, List.sum_cons, ih]
      omega

theorem total_record (b : Bucket) (ip ip' : String) (t : EventType) :
    (b.record ip t).total ip' = b.total ip' + if ip' = ip then 1 else 0 := by
  unfold Bucket.total Bucket.record
  by_cases heq : ip' = ip
  · subst heq
    simp [sum_increment]
  · simp [heq]

/-- The ring from its current bucket backwards. -/
theorem back_zero (hcurrent : w.current < totalBuckets) : back w 0 = w.buckets w.current := by
  unfold back
  have hindex : (w.current + totalBuckets - 0) % totalBuckets = w.current := by
    unfold totalBuckets at *
    omega
  rw [hindex]

theorem back_setBucket_zero (hcurrent : w.current < totalBuckets) (b : Bucket) :
    back (setBucket w w.current b) 0 = b := by
  rw [back_zero (show (setBucket w w.current b).current < totalBuckets from hcurrent)]
  exact if_pos rfl

theorem back_setBucket_succ (hcurrent : w.current < totalBuckets) (b : Bucket) {i : Nat}
    (hi : i + 1 < totalBuckets) : back (setBucket w w.current b) (i + 1) = back w (i + 1) := by
  have hne : (w.current + totalBuckets - (i + 1)) % totalBuckets ≠ w.current := by
    unfold totalBuckets at *
    omega
  exact if_neg hne

theorem back_rotate (hcurrent : w.current < totalBuckets) (now : Int) {i : Nat}
    (hi : i + 1 < totalBuckets) : back (rotate w now) (i + 1) = back w i := by
  unfold back rotate setBucket
  have hindex : ((w.current + 1) % totalBuckets + totalBuckets - (i + 1)) % totalBuckets
      = (w.current + totalBuckets - i) % totalBuckets := by
    unfold totalBuckets at *
    omega
  -- fourteen back from the new bucket is the oldest one that is kept
  have hne : (w.current + totalBuckets - i) % totalBuckets ≠ (w.current + 1) % totalBuckets := by
    unfold totalBuckets at *
    omega
  simp only [hindex, hne, if_false]

theorem buckets_rotate (w : Windower) (now : Int) :
    (rotate w now).buckets (rotate w now).current = newBucket now := if_pos rfl

theorem current_rotate (w : Windower) (now : Int) : (rotate w now).current < totalBuckets :=
  Nat.mod_lt _ (by decide)

/-- What a record leaves in the ring: the bucket of its minute is first, a new one if
    the minute has ticked, and counts it. -/
structure Recorded (w' : Windower) (ip : String) (t : EventType) (first : Bucket)
    (rest : Nat → Bucket) : Prop where
  current : w'.current < totalBuckets
  first : back w' 0 = first.record ip t
  rest : ∀ i, i + 1 < totalBuckets → back w' (i + 1) = rest i

theorem recorded_tick (ip : String) (t : EventType) (hcurrent : w.current < totalBuckets)
    (htick : truncate time > (back w 0).ts) :
    Recorded (record w time ip t) ip t (newBucket (truncate time)) (back w) := by
  rw [back_zero hcurrent] at htick
  have hrecord : record w time ip t = setBucket (rotate w (truncate time))
      (rotate w (truncate time)).current ((newBucket (truncate time)).record ip t) := by
    unfold record
    simp only [htick, if_true, buckets_rotate]
  rw [hrecord]
  have hnext := current_rotate w (truncate time)
  refine ⟨hnext, back_setBucket_zero hnext _, ?_⟩
  intro i hi
  rw [back_setBucket_succ hnext _ hi, back_rotate hcurrent _ hi]

theorem recorded_same (ip : String) (t : EventType) (hcurrent : w.current < totalBuckets)
    (hsame : ¬ truncate time > (back w 0).ts) :
    Recorded (record w time ip t) ip t (back w 0) (fun i => back w (i + 1)) := by
  rw [back_zero hcurrent] at hsame
  have hrecord : record w time ip t
      = setBucket w w.current ((w.buckets w.current).record ip t) := by
    unfold record
    simp [hsame]
  rw [hrecord]
  refine ⟨hcurrent, ?_, fun i hi => back_setBucket_succ hcurrent _ hi⟩
  rw [back_zero hcurrent]
  exact back_setBucket_zero hcurrent _

/-- The counts are sums over the most recent buckets. -/
theorem stats_eq (w : Windower) (ip : String) :
    (stats w ip).count1m = ((List.range 1).map fun i => (back w i).total ip).sum
      ∧ (stats w ip).count5m = ((List.range 5).map fun i => (back w i).total ip).sum
      ∧ (stats w ip).count15m = ((List.range 15).map fun i => (back w i).total ip).sum := by
  -- the loop of fifteen rounds, written out
  have hrange : List.range totalBuckets = [0, 1, 2, 3, 4, 5, 6, 7, 8, 9, 10, 11, 12, 13, 14] := rfl
  unfold stats
  rw [hrange]
  refine ⟨?_, ?_, ?_⟩
  · simp [addBucket]
  · simp [addBucket, List.range_succ, Nat.add_assoc]
  · simp [addBucket, List.range_succ, Nat.add_assoc]

/-! ## Section 4: The buckets are the recorded minutes -/

/-- The records of the IP in the minute. -/
def countAt (records : List Record) (ip : String) (m : Int) : Nat :=
  records.countP fun r => r.ip = ip && decide (minuteOf r.time = m)

theorem countAt_append (records : List Record) (ip ip' : String) (time m : Int) :
    countAt (records ++ [⟨ip, time⟩]) ip' m
      = countAt records ip' m + if ip' = ip ∧ minuteOf time = m then 1 else 0 := by
  unfold countAt
  rw [List.countP_append, List.countP_singleton]
  by_cases hip : ip' = ip
  · subst hip
    simp
  · simp [hip, Ne.symm hip]

/-- The ring holds the counts of the most recent minutes with records. -/
structure RingOf (s : WindowState) (minutes : List Int) : Prop where
  current : s.windower.current < totalBuckets
  descending : minutes.Pairwise (· > ·)
  recorded : ∀ m, m ∈ minutes ↔ ∃ r ∈ s.records, minuteOf r.time = m
  past : ∀ m ∈ minutes, m ≤ minuteOf s.now
  /-- The current bucket is that of the last minute with a record. -/
  last : ∀ m, minutes.head? = some m → (back s.windower 0).ts = m * bucketDuration
  start : minutes = [] → (back s.windower 0).ts ≤ truncate s.now
  totals : ∀ i < totalBuckets, ∀ ip, (back s.windower i).total ip
    = (minutes[i]?.map (countAt s.records ip)).getD 0

theorem ringOf_init (hinit : windowing.init s) : RingOf s [] := by
  rw [show s = _ from hinit]
  refine ⟨?_, List.Pairwise.nil, by simp, by simp, by simp, fun _ => Int.le_refl _, ?_⟩
  · show 0 < totalBuckets
    decide
  · simp [back, newWindower, newBucket, Bucket.total]

theorem truncate_eq (t : Int) : truncate t = minuteOf t * bucketDuration := rfl

theorem minuteOf_mono {t t' : Int} (hle : t ≤ t') : minuteOf t ≤ minuteOf t' := by
  unfold minuteOf bucketDuration
  omega

/-- The counts of other minutes stay. -/
theorem countAt_append_of_ne (records : List Record) (ip ip' : String) {time m : Int}
    (hne : minuteOf time ≠ m) :
    countAt (records ++ [⟨ip, time⟩]) ip' m = countAt records ip' m := by
  rw [countAt_append, if_neg (fun hboth => hne hboth.2), Nat.add_zero]

/-- ... and so do those of a list of them. -/
theorem getD_countAt_append (records : List Record) (ip ip' : String) {time : Int}
    {minutes : List Int} (hne : ∀ m ∈ minutes, minuteOf time ≠ m) (i : Nat) :
    (minutes[i]?.map (countAt (records ++ [⟨ip, time⟩]) ip')).getD 0
      = (minutes[i]?.map (countAt records ip')).getD 0 := by
  cases hget : minutes[i]? with
  | none => rfl
  | some m =>
    simp only [Option.map_some, Option.getD_some]
    exact countAt_append_of_ne records ip ip' (hne m (List.mem_of_getElem? hget))

/-- A record in a new minute. -/
theorem RingOf.tick {minutes : List Int} (hring : RingOf s minutes)
    (htick : truncate time > (back s.windower 0).ts) :
    RingOf (s.record time ip t) (minuteOf time :: minutes) := by
  have hrecorded := recorded_tick ip t hring.current htick
  -- the current bucket is that of the latest minute with a record
  have hlater : ∀ m ∈ minutes, m < minuteOf time := by
    intro m hm
    cases minutes with
    | nil => contradiction
    | cons m₀ rest =>
      have hlast := hring.last m₀ rfl
      have hle : m ≤ m₀ := by
        rcases List.mem_cons.mp hm with rfl | hm
        · exact Int.le_refl _
        · exact Int.le_of_lt (List.rel_of_pairwise_cons hring.descending hm)
      rw [hlast, truncate_eq] at htick
      unfold bucketDuration at htick
      omega
  refine ⟨hrecorded.current, List.pairwise_cons.mpr ⟨hlater, hring.descending⟩, ?_, ?_, ?_,
    by simp, ?_⟩
  · -- the minutes with records: one more
    intro m
    show m ∈ minuteOf time :: minutes ↔ ∃ r ∈ s.records ++ [⟨ip, time⟩], minuteOf r.time = m
    simp only [List.mem_cons, hring.recorded, List.mem_append]
    grind
  · rw [List.forall_mem_cons]
    refine ⟨Int.le_refl _, fun m hm => ?_⟩
    exact Int.le_of_lt (hlater m hm)
  · intro m hm
    cases hm
    show (back (record s.windower time ip t) 0).ts = _
    rw [hrecorded.first]
    rfl
  · intro i hi ip'
    show (back (record s.windower time ip t) i).total ip'
      = ((minuteOf time :: minutes)[i]?.map (countAt (s.records ++ [⟨ip, time⟩]) ip')).getD 0
    cases i with
    | zero =>
      -- the new bucket counts one record, the first of its minute
      have hnone : countAt s.records ip' (minuteOf time) = 0 := by
        unfold countAt
        rw [List.countP_eq_zero]
        intro r hr hboth
        simp only [Bool.and_eq_true, decide_eq_true_eq] at hboth
        exact absurd (hlater _ ((hring.recorded _).mpr ⟨r, hr, hboth.2⟩)) (Int.lt_irrefl _)
      rw [hrecorded.first, total_record, List.getElem?_cons_zero, Option.map_some, Option.getD_some,
        countAt_append, hnone]
      simp [newBucket, Bucket.total]
    | succ i =>
      -- the buckets move one back, and no older minute has a new record
      rw [hrecorded.rest i hi, hring.totals i (by omega), List.getElem?_cons_succ]
      exact (getD_countAt_append _ _ _ (fun m hm => Int.ne_of_gt (hlater m hm)) i).symm

/-- A record in the minute of the current bucket. -/
theorem RingOf.same {m₀ : Int} {rest : List Int} (hring : RingOf s (m₀ :: rest))
    (hclock : s.now ≤ time) (hsame : ¬ truncate time > (back s.windower 0).ts) :
    RingOf (s.record time ip t) (m₀ :: rest) := by
  have hrecorded := recorded_same ip t hring.current hsame
  have hlast := hring.last m₀ rfl
  -- the clock does not go back, so the record is of the same minute
  have hminute : minuteOf time = m₀ := by
    have hmono := minuteOf_mono hclock
    have hpast := hring.past m₀ List.mem_cons_self
    rw [hlast, truncate_eq] at hsame
    unfold bucketDuration at hsame
    omega
  refine ⟨hrecorded.current, hring.descending, ?_, ?_, ?_, by simp, ?_⟩
  · intro m
    show m ∈ m₀ :: rest ↔ ∃ r ∈ s.records ++ [⟨ip, time⟩], minuteOf r.time = m
    have hold := hring.recorded m
    simp only [List.mem_append]
    grind
  · intro m hm
    exact Int.le_trans (hring.past m hm) (minuteOf_mono hclock)
  · intro m hm
    show (back (record s.windower time ip t) 0).ts = _
    rw [hrecorded.first]
    exact hring.last m hm
  · -- only the current bucket counts one more
    intro i hi ip'
    show (back (record s.windower time ip t) i).total ip'
      = ((m₀ :: rest)[i]?.map (countAt (s.records ++ [⟨ip, time⟩]) ip')).getD 0
    cases i with
    | zero =>
      rw [hrecorded.first, total_record, hring.totals 0 hi]
      simp [countAt_append, hminute]
    | succ i =>
      rw [hrecorded.rest i hi, hring.totals (i + 1) hi, List.getElem?_cons_succ]
      refine (getD_countAt_append _ _ _ ?_ i).symm
      intro m hm
      rw [hminute]
      exact Int.ne_of_gt (List.rel_of_pairwise_cons hring.descending hm)

/-- The first record, in the minute in which the ring was made. -/
theorem RingOf.first (hring : RingOf s []) (hclock : s.now ≤ time)
    (hsame : ¬ truncate time > (back s.windower 0).ts) :
    RingOf (s.record time ip t) [minuteOf time] := by
  have hrecorded := recorded_same ip t hring.current hsame
  have hempty : s.records = [] := by
    rw [List.eq_nil_iff_forall_not_mem]
    intro r hr
    have hmem := (hring.recorded (minuteOf r.time)).mpr ⟨r, hr, rfl⟩
    contradiction
  -- the ring was made in the minute of this record
  have hts : (back s.windower 0).ts = truncate time := by
    have hstart := hring.start rfl
    have hmono := minuteOf_mono hclock
    rw [truncate_eq] at hstart hsame ⊢
    unfold bucketDuration at hstart hsame ⊢
    omega
  refine ⟨hrecorded.current, by simp, ?_, by simp [WindowState.record], ?_, by simp, ?_⟩
  · intro m
    show m ∈ [minuteOf time] ↔ ∃ r ∈ s.records ++ [⟨ip, time⟩], minuteOf r.time = m
    simp [hempty, eq_comm]
  · intro m hm
    cases hm
    show (back (record s.windower time ip t) 0).ts = _
    rw [hrecorded.first]
    exact hts
  · intro i hi ip'
    show (back (record s.windower time ip t) i).total ip'
      = ([minuteOf time][i]?.map (countAt (s.records ++ [⟨ip, time⟩]) ip')).getD 0
    cases i with
    | zero =>
      rw [hrecorded.first, total_record, hring.totals 0 hi, List.getElem?_cons_zero,
        Option.map_some, Option.getD_some, countAt_append, hempty]
      simp [countAt]
    | succ i =>
      rw [hrecorded.rest i hi, hring.totals (i + 1) hi]
      rfl

/-- **Run lemma**: the ring holds the counts of the most recent minutes with records. -/
theorem ringOf_of_reachable (hreach : windowing.Reachable s) : ∃ minutes, RingOf s minutes := by
  refine hreach.invariant (P := fun s => ∃ minutes, RingOf s minutes) ?_ ?_
  · intro s hinit
    exact ⟨[], ringOf_init hinit⟩
  · intro s l s' hring hstep
    obtain ⟨minutes, hring⟩ := hring
    obtain ⟨hclock, rfl⟩ := hstep
    by_cases htick : truncate l.1 > (back s.windower 0).ts
    · exact ⟨_, hring.tick htick⟩
    · cases minutes with
      | nil => exact ⟨_, hring.first hclock htick⟩
      | cons m₀ rest => exact ⟨_, hring.same hclock htick⟩

/-! ## Section 5: The counts -/

/-- The sum over the last `n` buckets counts the records in the last `n` minutes with
    records. -/
theorem RingOf.sum_eq {minutes : List Int} (hring : RingOf s minutes) (ip : String) {n : Nat}
    (hn : n ≤ totalBuckets) :
    ((List.range n).map fun i => (back s.windower i).total ip).sum
      = s.records.countP fun r => r.ip = ip && decide (minuteOf r.time ∈ minutes.take n) := by
  induction n with
  | zero => simp
  | succ n ih =>
    rw [List.range_succ, List.map_append, List.sum_append, ih (by omega), List.map_singleton,
      List.sum_singleton, hring.totals n (by omega), List.take_add_one]
    cases hget : minutes[n]? with
    | none => simp
    | some m =>
      -- the minute is not among the ones before it
      have hnew : m ∉ minutes.take n := by
        obtain ⟨hlen, rfl⟩ := List.getElem?_eq_some_iff.mp hget
        intro hmem
        have hdrop : minutes[n] ∈ minutes.drop n := by
          rw [List.drop_eq_getElem_cons hlen]
          exact List.mem_cons_self
        have hsplit := hring.descending
        rw [← List.take_append_drop n minutes] at hsplit
        exact absurd ((List.pairwise_append.mp hsplit).2.2 _ hmem _ hdrop) (Int.lt_irrefl _)
      rw [Option.toList_some, countP_mem_append_singleton _ hnew]
      rfl

theorem RingOf.overtaken_iff {minutes : List Int} (hring : RingOf s minutes) (ip : String)
    (t : Int) (n : Nat) :
    Overtaken s ip t n ↔ ∀ r ∈ s.records, r.ip = ip → minuteOf r.time ∈ minutes.take n →
      minuteOf t - n < minuteOf r.time := by
  unfold Overtaken
  refine forall₂_congr fun r hr => forall_congr' fun _ => ?_
  rw [mem_take_iff_not_surpassed hring.descending ((hring.recorded _).mpr ⟨r, hr, rfl⟩),
    ← Int.not_le, not_imp_not]
  unfold Surpassed
  simp only [hring.recorded]

/-- The sum over the last `n` buckets is right exactly when the records before the
    last `n` minutes are overtaken. -/
theorem RingOf.count_iff {minutes : List Int} (hring : RingOf s minutes) (ip : String) {t : Int}
    (hclock : s.now ≤ t) {n : Nat} (hn : n ≤ totalBuckets) :
    ((List.range n).map fun i => (back s.windower i).total ip).sum = recentCount s ip t n ↔
      Overtaken s ip t n := by
  rw [hring.sum_eq ip hn, hring.overtaken_iff]
  unfold recentCount
  -- what is recent is in the buckets, so the counts agree when the converse holds
  rw [countP_eq_iff_of_imp]
  · refine forall₂_congr fun r _ => ?_
    simp only [Bool.and_eq_true, decide_eq_true_eq, and_imp]
    grind
  · intro r hr hboth
    simp only [Bool.and_eq_true, decide_eq_true_eq] at hboth ⊢
    refine ⟨hboth.1, mem_take_of_close hring.descending ?_ ?_ hboth.2⟩
    · exact fun m hm => Int.le_trans (hring.past m hm) (minuteOf_mono hclock)
    · exact (hring.recorded _).mpr ⟨r, hr, rfl⟩

/-- **Sliding windows**: at any time from the last call on, the counts of an IP are
    right exactly when its records before the last 1, 5 and 15 minutes are
    overtaken. -/
theorem stats_right_iff (hreach : windowing.Reachable s) (ip : String) {t : Int}
    (hclock : s.now ≤ t) :
    CountsRight s ip t ↔ ∀ n : Nat, n = 1 ∨ n = 5 ∨ n = 15 → Overtaken s ip t n := by
  obtain ⟨minutes, hring⟩ := ringOf_of_reachable hreach
  obtain ⟨hone, hfive, hfifteen⟩ := stats_eq s.windower ip
  have hcount : ∀ n : Nat, n ≤ totalBuckets → _ := fun n hn => hring.count_iff ip hclock hn
  constructor
  · rintro ⟨hone', hfive', hfifteen'⟩ n (rfl | rfl | rfl)
    · exact (hcount 1 (by decide)).mp (hone ▸ hone')
    · exact (hcount 5 (by decide)).mp (hfive ▸ hfive')
    · exact (hcount 15 (by decide)).mp (hfifteen ▸ hfifteen')
  · intro hall
    refine ⟨?_, ?_, ?_⟩
    · rw [hone]
      exact (hcount 1 (by decide)).mpr (hall 1 (Or.inl rfl))
    · rw [hfive]
      exact (hcount 5 (by decide)).mpr (hall 5 (Or.inr (Or.inl rfl)))
    · rw [hfifteen]
      exact (hcount 15 (by decide)).mpr (hall 15 (Or.inr (Or.inr rfl)))

/-! ## Section 6: Three minutes, and an idle IP -/

/-- Three addresses in three minutes. -/
def busyRecords : List (Int × String × EventType) :=
  [(0, "10.0.0.5", .dns), (bucketDuration, "10.0.0.6", .dns), (bucketDuration, "10.0.0.6", .arp),
    (2 * bucketDuration, "10.0.0.7", .dns), (2 * bucketDuration, "10.0.0.6", .dns),
    (2 * bucketDuration, "10.0.0.7", .arp)]

def busyWindow : WindowState :=
  busyRecords.foldl (fun s l => s.record l.1 l.2.1 l.2.2) ⟨newWindower 0, [], 0⟩

theorem busyWindow_reachable : windowing.Reachable busyWindow := by
  -- any calls, of which the clock lets those through that do not go back
  let calls : System WindowState (Int × String × EventType) :=
    ⟨windowing.init, fun s l s' => s' = s.record l.1 l.2.1 l.2.2⟩
  have hrun : (calls.restrict fun s l => s.now ≤ l.1).Reachable busyWindow :=
    System.Reachable.of_foldl (fun _ _ => rfl) (System.Reachable.init rfl) (by decide)
  exact hrun

theorem stats_right_iff_busy :
    (stats busyWindow.windower "10.0.0.6").count1m = 1 ∧ (stats busyWindow.windower "10.0.0.6").count5m = 3
      ∧ (CountsRight busyWindow "10.0.0.6" (2 * bucketDuration) ↔
        ∀ n : Nat, n = 1 ∨ n = 5 ∨ n = 15 →
          Overtaken busyWindow "10.0.0.6" (2 * bucketDuration) n) :=
  ⟨by decide, by decide, stats_right_iff busyWindow_reachable "10.0.0.6" (Int.le_refl _)⟩

/-- One record, in the minute of the start. -/
def oneRecord : WindowState :=
  WindowState.record ⟨newWindower 0, [], 0⟩ 0 "10.0.0.5" .dns

theorem oneRecord_reachable : windowing.Reachable oneRecord := by
  have hnone : windowing.Reachable ⟨newWindower 0, [], 0⟩ := System.Reachable.init rfl
  exact hnone.tail (l := (0, "10.0.0.5", .dns)) ⟨Int.le_refl _, rfl⟩

/-- Ten minutes later nothing else was recorded, and the record still counts as one of
    the last minute. -/
theorem idle_record_stays_recent :
    windowing.Reachable oneRecord ∧ oneRecord.now ≤ 10 * bucketDuration
      ∧ (stats oneRecord.windower "10.0.0.5").count1m = 1
      ∧ recentCount oneRecord "10.0.0.5" (10 * bucketDuration) 1 = 0
      ∧ ¬ CountsRight oneRecord "10.0.0.5" (10 * bucketDuration) := by
  have hone : (stats oneRecord.windower "10.0.0.5").count1m = 1 := by decide
  have hzero : recentCount oneRecord "10.0.0.5" (10 * bucketDuration) 1 = 0 := by decide
  refine ⟨oneRecord_reachable, by decide, hone, hzero, ?_⟩
  intro hright
  have heq := hright.count1m
  rw [hone, hzero] at heq
  contradiction

end Owasaka.Stream
