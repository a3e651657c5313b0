import Mathlib.Data.Set.Card
import Owasaka.Foundation.InsertionSort
import Owasaka.Foundation.Lookup
import Owasaka.Stream.Window

/-! # Top talkers

    `topIPs` collects the addresses of the five most recent buckets in a map of totals,
    asks `stats` for each of them and sorts the answers by their counts of five minutes.
    It keeps the addresses of the map and throws the totals away; they are the counts
    that `stats` sums again.

    Maps are iterated in any order.  The main result: whatever the orders, the answer has
    the addresses with the largest counts, in descending order. -/

namespace Owasaka.Stream

open Events

/-! ## Section 1: Model -/

/-- `totals[ip] += cnt` for each type.  Any order of the types gives the same (`addIP_perm`). -/
def addIP (b : Bucket) (m : Std.ExtTreeMap String Nat) (ip : String) : Std.ExtTreeMap String Nat :=
  (b.counts ip).foldl (fun m entry => m.insert ip (m[ip]?.getD 0 + entry.2)) m

/-- `orders i` is the order in which the bucket that is `i` back is iterated. -/
def addTotals (w : Windower) (orders : Nat → List String) (m : Std.ExtTreeMap String Nat) (i : Nat) :
    Std.ExtTreeMap String Nat :=
  (orders i).foldl (addIP (back w i)) m

def totals (w : Windower) (orders : Nat → List String) : Std.ExtTreeMap String Nat :=
  (List.range (min 5 totalBuckets)).foldl (addTotals w orders) ∅

/-- `order` is the order in which the totals are iterated. -/
def topIPs (w : Windower) (n : Int) (order : List String) : List WindowStats :=
  let result := sortSlice WindowStats.count5m (order.map (stats w))
  if n > 0 ∧ (result.length : Int) > n then result.take n.toNat else result

/-- The bucket's map has an entry for the address. -/
def Bucket.Has (b : Bucket) (ip : String) : Prop := b.counts ip ≠ []

instance Bucket.decidableHas (b : Bucket) (ip : String) : Decidable (b.Has ip) :=
  inferInstanceAs (Decidable (b.counts ip ≠ []))

/-- The orders go through every entry of the five most recent buckets once. -/
def Iterates (w : Windower) (orders : Nat → List String) : Prop :=
  ∀ i < 5, (orders i).Nodup ∧ ∀ ip, ip ∈ orders i ↔ (back w i).Has ip

/-- The address was recorded in one of the five most recent buckets. -/
def Recent (w : Windower) (ip : String) : Prop := ∃ i < 5, (back w i).Has ip

/-- The first `n` of the recent addresses by their counts of five minutes. -/
structure TopOf (w : Windower) (n : Nat) (result : List WindowStats) : Prop where
  distinct : (result.map WindowStats.ip).Nodup
  stats : ∀ s ∈ result, Recent w s.ip ∧ s = stats w s.ip
  descending : result.Pairwise fun s s' => s'.count5m ≤ s.count5m
  length : result.length = min n {ip | Recent w ip}.ncard
  top : ∀ ip, Recent w ip → ip ∉ result.map WindowStats.ip →
    ∀ s ∈ result, (Stream.stats w ip).count5m ≤ s.count5m

variable {w : Windower} {orders : Nat → List String} {order : List String} {s : WindowState}
  {ip : String}

/-! ## Section 2: The totals -/

theorem getElem?_foldl_add (entries : List (EventType × Nat)) (m : Std.ExtTreeMap String Nat)
    (ip ip' : String) :
    (entries.foldl (fun m entry => m.insert ip (m[ip]?.getD 0 + entry.2)) m)[ip']?
      = if ip' = ip ∧ entries ≠ [] then some (m[ip]?.getD 0 + (entries.map (·.2)).sum) else m[ip']? := by
  induction entries generalizing m with
  | nil => simp
  | cons entry entries ih =>
    rw [List.foldl_cons, ih, getElem?_insert_ite, getElem?_insert_ite]
    by_cases heq : ip' = ip
    · cases entries with
      | nil => simp [heq]
      | cons entry' entries => simp [heq, Nat.add_assoc]
    · simp [heq]

theorem getElem?_addIP (b : Bucket) (m : Std.ExtTreeMap String Nat) (ip ip' : String) :
    (addIP b m ip)[ip']?
      = if ip' = ip ∧ b.counts ip ≠ [] then some (m[ip]?.getD 0 + b.total ip) else m[ip']? :=
  getElem?_foldl_add (b.counts ip) m ip ip'

/-- The order in which the types of an address are iterated does not matter. -/
theorem addIP_perm {b b' : Bucket} (hperm : (b.counts ip).Perm (b'.counts ip))
    (m : Std.ExtTreeMap String Nat) : addIP b m ip = addIP b' m ip := by
  apply Std.ExtTreeMap.ext_getElem?
  intro ip'
  have htotal : b.total ip = b'.total ip := (hperm.map _).sum_eq
  have hempty : b.counts ip = [] ↔ b'.counts ip = [] := by
    rw [← List.length_eq_zero_iff, hperm.length_eq, List.length_eq_zero_iff]
  rw [getElem?_addIP, getElem?_addIP, htotal]
  simp only [ne_eq, hempty]

theorem getElem?_foldl_addIP (b : Bucket) (ips : List String) (m : Std.ExtTreeMap String Nat)
    (hnodup : ips.Nodup) (ip : String) :
    (ips.foldl (addIP b) m)[ip]?
      = if ip ∈ ips ∧ b.Has ip then some (m[ip]?.getD 0 + b.total ip) else m[ip]? := by
  induction ips generalizing m with
  | nil => simp
  | cons ip' ips ih =>
    obtain ⟨hnew, hnodup⟩ := List.nodup_cons.mp hnodup
    rw [List.foldl_cons, ih (addIP b m ip') hnodup, getElem?_addIP]
    unfold Bucket.Has
    by_cases heq : ip = ip'
    · subst heq
      simp [hnew]
    · simp [heq]

/-- One bucket, whatever its order. -/
theorem getElem?_addTotals (horders : Iterates w orders) (m : Std.ExtTreeMap String Nat) {i : Nat}
    (hi : i < 5) (ip : String) :
    (addTotals w orders m i)[ip]?.getD 0 = m[ip]?.getD 0 + (back w i).total ip
      ∧ (ip ∈ addTotals w orders m i ↔ ip ∈ m ∨ (back w i).Has ip) := by
  obtain ⟨hnodup, hmem⟩ := horders i hi
  have hget := getElem?_foldl_addIP (back w i) (orders i) m hnodup ip
  simp only [hmem, and_self] at hget
  simp only [Std.ExtTreeMap.mem_iff_isSome_getElem?]
  unfold addTotals
  rw [hget]
  by_cases hhas : (back w i).Has ip
  · simp [hhas]
  · have htotal : (back w i).total ip = 0 := by
      unfold Bucket.Has at hhas
      rw [ne_eq, not_not] at hhas
      simp [Bucket.total, hhas]
    simp [hhas, htotal]

/-- **The totals** have the recent addresses, with the counts that `stats` gives. -/
theorem totals_spec (horders : Iterates w orders) (ip : String) :
    (totals w orders)[ip]?.getD 0 = (stats w ip).count5m ∧ (ip ∈ totals w orders ↔ Recent w ip) := by
  have hrange : List.range (min 5 totalBuckets) = [0, 1, 2, 3, 4] := rfl
  have hbucket := fun m i hi => @getElem?_addTotals w orders horders m i hi ip
  have hrecent : Recent w ip ↔ (back w 0).Has ip ∨ (back w 1).Has ip ∨ (back w 2).Has ip
      ∨ (back w 3).Has ip ∨ (back w 4).Has ip := by
    unfold Recent
    simp only [← List.mem_range]
    rw [show List.range 5 = [0, 1, 2, 3, 4] from rfl]
    simp
  unfold totals
  rw [hrange]
  simp only [List.foldl_cons, List.foldl_nil]
  constructor
  · rw [(hbucket _ 4 (by decide)).1, (hbucket _ 3 (by decide)).1, (hbucket _ 2 (by decide)).1,
      (hbucket _ 1 (by decide)).1, (hbucket _ 0 (by decide)).1, (stats_eq w ip).2.1]
    simp [List.range_succ]
    omega
  · rw [(hbucket _ 4 (by decide)).2, (hbucket _ 3 (by decide)).2, (hbucket _ 2 (by decide)).2,
      (hbucket _ 1 (by decide)).2, (hbucket _ 0 (by decide)).2, hrecent]
    simp [or_assoc]

/-! ## Section 3: The answer -/

theorem stats_ip (w : Windower) (ip : String) : (stats w ip).ip = ip := by
  have hkeep : ∀ (is : List Nat) (acc : WindowStats), (is.foldl (addBucket w ip) acc).ip = acc.ip := by
    intro is
    induction is with
    | nil => exact fun _ => rfl
    | cons i is ih => exact fun acc => ih _
  exact hkeep _ _

/-- The order is one of the recent addresses. -/
theorem order_spec (horders : Iterates w orders) (horder : order.Perm (totals w orders).keys) :
    (∀ ip, ip ∈ order ↔ Recent w ip) ∧ order.Nodup ∧ order.length = {ip | Recent w ip}.ncard := by
  have hmem : ∀ ip, ip ∈ order ↔ Recent w ip := by
    intro ip
    rw [horder.mem_iff, Std.ExtTreeMap.mem_keys, (totals_spec horders ip).2]
  have hnodup : order.Nodup := horder.nodup_iff.mpr Std.ExtTreeMap.nodup_keys
  refine ⟨hmem, hnodup, ?_⟩
  have hset : {ip | Recent w ip} = (order.toFinset : Set String) := by
    ext ip
    simp [hmem]
  rw [hset, Set.ncard_coe_finset, List.toFinset_card_of_nodup hnodup]

/-- The statistics of the addresses, sorted. -/
def ranking (w : Windower) (order : List String) : List WindowStats :=
  sortSlice WindowStats.count5m (order.map (stats w))

theorem topIPs_eq_take {n : Int} (hn : 0 < n) (w : Windower) (order : List String) :
    topIPs w n order = (ranking w order).take n.toNat := by
  unfold topIPs ranking
  simp only
  split
  · rfl
  · rw [List.take_of_length_le (by omega)]

theorem ranking_spec (w : Windower) (order : List String) :
    (ranking w order).Perm (order.map (stats w)) ∧ Descending WindowStats.count5m (ranking w order) :=
  @sortSlice_spec WindowStats Nat _ WindowStats.count5m (order.map (stats w))

theorem map_ip_ranking (w : Windower) (order : List String) :
    ((ranking w order).map WindowStats.ip).Perm order := by
  have hmap := (ranking_spec w order).1.map WindowStats.ip
  rw [List.map_map] at hmap
  have hid : order.map (WindowStats.ip ∘ stats w) = order := by
    rw [show WindowStats.ip ∘ stats w = id from funext (stats_ip w), List.map_id]
  rwa [hid] at hmap

/-- `topIPs` answers with the top of the recent addresses, whatever the orders in which it
    iterates its maps. -/
theorem topIPs_top {n : Int} (hn : 0 < n) (horders : Iterates w orders)
    (horder : order.Perm (totals w orders).keys) : TopOf w n.toNat (topIPs w n order) := by
  obtain ⟨hmem, hnodup, hcard⟩ := order_spec horders horder
  obtain ⟨hperm, hdesc⟩ := ranking_spec w order
  have hlength : (ranking w order).length = order.length := by
    rw [hperm.length_eq, List.length_map]
  have hstats : ∀ s ∈ ranking w order, Recent w s.ip ∧ s = stats w s.ip := by
    intro s hs
    obtain ⟨ip, hip, rfl⟩ := List.mem_map.mp (hperm.mem_iff.mp hs)
    rw [stats_ip]
    exact ⟨(hmem ip).mp hip, rfl⟩
  rw [topIPs_eq_take hn]
  refine ⟨?_, ?_, ?_, ?_, ?_⟩
  · rw [List.map_take]
    exact ((map_ip_ranking w order).nodup_iff.mpr hnodup).sublist (List.take_sublist _ _)
  · exact fun s hs => hstats s (List.mem_of_mem_take hs)
  · exact hdesc.sublist (List.take_sublist _ _)
  · rw [List.length_take, hlength, hcard]
  · intro ip hrecent hout s hs
    have hin : stats w ip ∈ ranking w order :=
      hperm.mem_iff.mpr (List.mem_map_of_mem ((hmem ip).mpr hrecent))
    rw [← List.take_append_drop n.toNat (ranking w order), List.mem_append] at hin
    rcases hin with htake | hdrop
    · exact absurd (List.mem_map.mpr ⟨stats w ip, htake, stats_ip w ip⟩) hout
    -- the statistics that are left out are not above those in front
    · exact hdesc.le_of_mem_take hs hdrop

/-! ## Section 4: Reachable windows -/

/-- The map of every bucket is finite. -/
def FinitelyMany (w : Windower) : Prop := ∀ i, {ip | (w.buckets i).Has ip}.Finite

theorem FinitelyMany.setBucket (hfin : FinitelyMany w) {b : Bucket} (hb : {ip | b.Has ip}.Finite)
    (i : Nat) : FinitelyMany (setBucket w i b) := by
  intro j
  by_cases heq : j = i
  · subst heq
    simpa [Stream.setBucket] using hb
  · simpa [Stream.setBucket, heq] using hfin j

theorem finite_record {b : Bucket} (hb : {ip | b.Has ip}.Finite) (ip : String) (t : EventType) :
    {ip' | (b.record ip t).Has ip'}.Finite := by
  refine (hb.insert ip).subset ?_
  intro ip' hhas
  by_cases heq : ip' = ip
  · exact .inl heq
  · refine .inr ?_
    simpa [Bucket.Has, Bucket.record, heq] using hhas

theorem finite_newBucket (ts : Int) : {ip | (newBucket ts).Has ip}.Finite := by
  simp [Bucket.Has, newBucket]

theorem FinitelyMany.record (hfin : FinitelyMany w) (time : Int) (ip : String) (t : EventType) :
    FinitelyMany (record w time ip t) := by
  have hrotated : ∀ now, FinitelyMany (rotate w now) := fun now =>
    hfin.setBucket (finite_newBucket now) _
  unfold Stream.record
  simp only
  split
  · exact (hrotated _).setBucket (finite_record (hrotated _ _) ip t) _
  · exact hfin.setBucket (finite_record (hfin _) ip t) _

/-- The maps of a reachable state can be iterated. -/
theorem exists_iterates (hreach : windowing.Reachable s) : ∃ orders, Iterates s.windower orders := by
  have hfin : FinitelyMany s.windower := by
    apply hreach.invariant (P := fun s => FinitelyMany s.windower)
    · intro s hinit
      rw [show s = _ from hinit]
      exact fun i => finite_newBucket _
    · rintro s l s' hfin ⟨_, rfl⟩
      exact hfin.record _ _ _
  refine ⟨fun i => (hfin ((s.windower.current + totalBuckets - i) % totalBuckets)).toFinset.toList, ?_⟩
  intro i _
  refine ⟨Finset.nodup_toList _, fun ip => ?_⟩
  rw [Finset.mem_toList, Set.Finite.mem_toFinset]
  rfl

/-! ## Section 5: Three addresses -/

def busyOrders (i : Nat) : List String :=
  [["10.0.0.6", "10.0.0.7"], ["10.0.0.6"], ["10.0.0.5"]].getD i []

theorem increment_ne_nil (t : EventType) (counts : List (EventType × Nat)) : increment t counts ≠ [] := by
  intro hnil
  have hsum := sum_increment t counts
  rw [hnil] at hsum
  simp at hsum

theorem has_record (b : Bucket) (ip ip' : String) (t : EventType) :
    (b.record ip t).Has ip' ↔ ip' = ip ∨ b.Has ip' := by
  unfold Bucket.Has Bucket.record
  by_cases heq : ip' = ip
  · subst heq
    simp only [if_true, true_or, iff_true]
    exact increment_ne_nil _ _
  · simp [heq]

theorem not_has_newBucket (ts : Int) (ip : String) : ¬ (newBucket ts).Has ip := by
  simp [Bucket.Has, newBucket]

/-- What the last three minutes have left in the ring. -/
theorem iterates_busy : Iterates busyWindow.windower busyOrders := by
  have hlast : back busyWindow.windower 0 = (((newBucket (2 * bucketDuration)).record
      "10.0.0.7" .dns).record "10.0.0.6" .dns).record "10.0.0.7" .arp := rfl
  have hsecond : back busyWindow.windower 1
      = ((newBucket bucketDuration).record "10.0.0.6" .dns).record "10.0.0.6" .arp := rfl
  have hfirst : back busyWindow.windower 2 = (newBucket 0).record "10.0.0.5" .dns := rfl
  have hthird : back busyWindow.windower 3 = newBucket 0 := rfl
  have hfourth : back busyWindow.windower 4 = newBucket 0 := rfl
  intro i hi
  rcases i with _ | _ | _ | _ | _ | i
  · refine ⟨by decide, fun ip => ?_⟩
    rw [hlast, has_record, has_record, has_record]
    simp only [not_has_newBucket, busyOrders, List.getD_cons_zero, List.mem_cons, List.not_mem_nil]
    tauto
  · refine ⟨by decide, fun ip => ?_⟩
    rw [hsecond, has_record, has_record]
    simp [not_has_newBucket, busyOrders]
  · refine ⟨by decide, fun ip => ?_⟩
    rw [hfirst, has_record]
    simp [not_has_newBucket, busyOrders]
  · refine ⟨by decide, fun ip => ?_⟩
    rw [hthird]
    simp [not_has_newBucket, busyOrders]
  · refine ⟨by decide, fun ip => ?_⟩
    rw [hfourth]
    simp [not_has_newBucket, busyOrders]
  · omega

/-- Two of three addresses. -/
theorem topIPs_top_busy : TopOf busyWindow.windower 2
    (topIPs busyWindow.windower 2 (totals busyWindow.windower busyOrders).keys) :=
  topIPs_top (show (0 : Int) < 2 by decide) iterates_busy (.refl _)

end Owasaka.Stream
