import Mathlib.Data.List.Induction
import Mathlib.Data.List.Nodup
import Owasaka.Backup.LocalSink
import Owasaka.Foundation.CivilOrder

/-! # The rotation of backups (`backup/sinks.go`)

    `rotate` takes the order of the names for the order of the writes.  A name has the
    second of its backup and then the size of the log in decimal digits, without leading
    zeros: backups of one second are in the order of the texts of their sizes.

    Every write keeps the newest backups exactly when, among any `keepLast + 1` writes
    in a row, the first has the name that sorts first. -/

namespace Owasaka.Backup

open Directory

/-! ## Section 1: The statement -/

/-- A call of which nothing fails, and no removal either. -/
def undisturbed : SinkEnv := ⟨false, none, none, false, fun _ => false⟩

/-- The directory after successful writes of these artifacts, from an empty one. -/
def afterWrites (keepLast : Nat) (arts : List Artifact) : Directory Bytes :=
  arts.foldl (fun d a => (write keepLast a undisturbed d).2) ∅

/-- The directory of exactly these artifacts, each with its sidecar. -/
def dirOf (arts : List Artifact) : Directory Bytes := arts.foldl store ∅

/-- After every write there are exactly the last artifacts, at most `keepLast` of them. -/
def KeepsNewest (keepLast : Nat) (arts : List Artifact) : Prop :=
  ∀ written, written <+: arts →
    afterWrites keepLast written = dirOf (written.drop (written.length - keepLast))

/-- Artifacts with the names of their times and sizes: whole seconds, up to the year
    9999, in order, and no time and size twice. -/
structure Timely (arts : List Artifact) : Prop where
  named : ∀ a ∈ arts, a.filename = formatFilename a.createdAt a.treeSize
  seconds : ∀ a ∈ arts, 1000000000 ∣ a.createdAt
  years : ∀ a ∈ arts, Civil.yearOf a.createdAt ≤ 9999
  ordered : arts.Pairwise fun a b => a.createdAt ≤ b.createdAt ∧ a.treeSize ≤ b.treeSize
    ∧ (a.createdAt, a.treeSize) ≠ (b.createdAt, b.treeSize)

/-- Of two backups of one second, the first has the size whose text sorts first.  Those of
    later seconds sort later, but for two years before 0. -/
def SortsBefore (a b : Artifact) : Prop :=
  if a.createdAt = b.createdAt then toString a.treeSize.toNat < toString b.treeSize.toNat
  else 0 ≤ Civil.yearOf b.createdAt ∨ Civil.stamp a.createdAt < Civil.stamp b.createdAt

/-! ## Section 2: The order of names -/

theorem toList_toString (n : Nat) : (toString n).toList = Nat.toDigits 10 n := Nat.toList_repr

theorem isDigit_toString {n : Nat} {c : Char} (hc : c ∈ (toString n).toList) : c.isDigit = true := by
  rw [toList_toString] at hc
  exact Nat.isDigit_of_mem_toDigits (by decide) (by decide) hc

theorem dot_not_mem_toString (n : Nat) : '.' ∉ (toString n).toList := by
  intro hmem
  have hdigit := isDigit_toString hmem
  revert hdigit
  decide

/-- The parts of a name up to the `Z` of the stamp and the first dot. -/
theorem exists_toList_formatFilename (t : Int) : ∃ front, (Civil.stamp t).toList = front ++ ['Z']
    ∧ 'Z' ∉ front ∧ ∀ treeSize, (formatFilename t treeSize).toList = "backup-".toList
      ++ (front ++ 'Z' :: ("-tree".toList ++ ((toString treeSize.toNat).toList
        ++ '.' :: "db.age".toList))) := by
  obtain ⟨front, hfront, hZ⟩ := Civil.exists_stamp_front t
  refine ⟨front, hfront, hZ, fun treeSize => ?_⟩
  have hdot : ".db.age".toList = '.' :: "db.age".toList := rfl
  unfold formatFilename
  simp only [String.toList_append, hfront, hdot, List.append_assoc, List.cons_append,
    List.nil_append]

theorem append_left_lt_iff {l r s : List Char} : l ++ r < l ++ s ↔ r < s := by
  rw [Civil.append_lt_append_iff rfl]
  simp

theorem formatFilename_lt_iff {t t' : Int} {n n' : UInt64} :
    formatFilename t n < formatFilename t' n' ↔ Civil.stamp t < Civil.stamp t'
      ∨ (Civil.stamp t = Civil.stamp t' ∧ toString n.toNat < toString n'.toNat) := by
  obtain ⟨front, hfront, hZ, hname⟩ := exists_toList_formatFilename t
  obtain ⟨front', hfront', hZ', hname'⟩ := exists_toList_formatFilename t'
  have hdigits : ∀ n : Nat, ∀ c ∈ (toString n).toList, '.' < c := fun n c hc =>
    Civil.lt_of_isDigit (by decide) (isDigit_toString hc)
  have hstamps : Civil.stamp t = Civil.stamp t' ↔ front = front' := by
    rw [← String.toList_inj, hfront, hfront', List.append_left_inj]
  rw [String.lt_iff_toList_lt, String.lt_iff_toList_lt, String.lt_iff_toList_lt, hname, hname',
    hfront, hfront', hstamps, append_left_lt_iff, Civil.append_cons_lt_iff hZ hZ',
    append_left_lt_iff, Civil.append_cons_lt_iff (dot_not_mem_toString _) (dot_not_mem_toString _),
    Civil.append_singleton_lt_iff (hdigits _) (hdigits _)]
  simp

theorem formatFilename_inj {t t' : Int} {n n' : UInt64}
    (heq : formatFilename t n = formatFilename t' n') :
    t / 1000000000 = t' / 1000000000 ∧ n = n' := by
  obtain ⟨front, hfront, hZ, hname⟩ := exists_toList_formatFilename t
  obtain ⟨front', hfront', hZ', hname'⟩ := exists_toList_formatFilename t'
  have hlist := congrArg String.toList heq
  rw [hname, hname', List.append_right_inj, Civil.append_cons_inj_iff hZ hZ', List.append_right_inj,
    Civil.append_cons_inj_iff (dot_not_mem_toString _) (dot_not_mem_toString _)] at hlist
  obtain ⟨rfl, htext, _⟩ := hlist
  refine ⟨Civil.stamp_inj (String.toList_inj.mp (hfront.trans hfront'.symm)), ?_⟩
  rw [toList_toString, toList_toString] at htext
  have hvalue := congrArg (fun l => Nat.ofDigitChars 10 l 0) htext
  simp only [Nat.ofDigitChars_ten_toDigits] at hvalue
  exact UInt64.toNat_inj.mp hvalue

/-- **Names sort in the order of the writes** exactly as `SortsBefore` says. -/
theorem filename_lt_iff {arts : List Artifact} (harts : Timely arts) {a b : Artifact}
    (ha : a ∈ arts) (hb : b ∈ arts) (hle : a.createdAt ≤ b.createdAt) :
    a.filename < b.filename ↔ SortsBefore a b := by
  rw [harts.named a ha, harts.named b hb, formatFilename_lt_iff]
  unfold SortsBefore
  have hsa := harts.seconds a ha
  have hsb := harts.seconds b hb
  by_cases heq : a.createdAt = b.createdAt
  · rw [if_pos heq, heq]
    simp
  · rw [if_neg heq]
    have hlater : a.createdAt / 1000000000 < b.createdAt / 1000000000 := by omega
    have hstamps : Civil.stamp a.createdAt ≠ Civil.stamp b.createdAt := by
      intro hsame
      have hsec := Civil.stamp_inj hsame
      omega
    constructor
    · rintro (hlt | ⟨hsame, _⟩)
      · exact .inr hlt
      · exact absurd hsame hstamps
    · rintro (hyear | hlt)
      · left
        by_cases hneg : Civil.yearOf a.createdAt < 0
        · exact Civil.stamp_lt_of_neg hneg hyear
        · exact Civil.stamp_lt hlater (by omega) (harts.years b hb)
      · exact .inl hlt

/-! ## Section 3: The directory of some artifacts -/

variable {arts later : List Artifact} {a first : Artifact} {name : String} {body : Bytes}
  {keepLast : Nat} {d : Directory Bytes}

/-- Names of artifacts, no two of them equal. -/
structure Named (arts : List Artifact) : Prop where
  names : ∀ a ∈ arts, IsBackupName a.filename
  nodup : (arts.map Artifact.filename).Nodup

theorem Named.sublist {arts' : List Artifact} (harts : Named arts) (hsub : arts'.Sublist arts) :
    Named arts' :=
  ⟨fun a ha => harts.names a (hsub.subset ha), harts.nodup.sublist (hsub.map _)⟩

theorem dirOf_concat (arts : List Artifact) (a : Artifact) :
    dirOf (arts ++ [a]) = store (dirOf arts) a := by
  unfold dirOf
  rw [List.foldl_append, List.foldl_cons, List.foldl_nil]

theorem getElem?_dirOf (harts : Named arts) : (dirOf arts)[name]? = some body ↔
    ∃ a ∈ arts, name = a.filename ∧ body = a.encrypted
      ∨ name = sidePath a.filename ∧ body = a.sidecar := by
  induction arts using List.reverseRecOn with
  | nil => simp [dirOf]
  | append_singleton arts a ih =>
    have hbefore := ih (harts.sublist (List.sublist_append_left _ _))
    have hnodup := harts.nodup
    rw [List.map_append, List.nodup_append] at hnodup
    have hname := harts.names a (by simp)
    -- the new name is none of the earlier ones, so the store replaces nothing
    have hfresh : ∀ b ∈ arts, b.filename ≠ a.filename := fun b hb =>
      hnodup.2.2 _ (List.mem_map_of_mem hb) _ (by simp)
    rw [dirOf_concat, getElem?_store]
    constructor
    · intro hget
      split at hget
      · next hside => exact ⟨a, by simp, .inr ⟨hside, (Option.some.inj hget).symm⟩⟩
      · split at hget
        · next hfile => exact ⟨a, by simp, .inl ⟨hfile, (Option.some.inj hget).symm⟩⟩
        · obtain ⟨b, hb, hcases⟩ := hbefore.mp hget
          exact ⟨b, List.mem_append_left _ hb, hcases⟩
    · rintro ⟨b, hb, hcases⟩
      rcases List.mem_append.mp hb with hb | hb
      · have hother := harts.names b (List.mem_append_left _ hb)
        have hne := hfresh b hb
        rcases hcases with ⟨rfl, rfl⟩ | ⟨rfl, rfl⟩
        · rw [if_neg (ne_sidePath hother _), if_neg hne]
          exact hbefore.mpr ⟨b, hb, .inl ⟨rfl, rfl⟩⟩
        · rw [if_neg fun heq => hne (sidePath_inj heq), if_neg (ne_sidePath hname _).symm]
          exact hbefore.mpr ⟨b, hb, .inr ⟨rfl, rfl⟩⟩
      · obtain rfl := List.mem_singleton.mp hb
        rcases hcases with ⟨rfl, rfl⟩ | ⟨rfl, rfl⟩
        · rw [if_neg (ne_sidePath hname _), if_pos rfl]
        · rw [if_pos rfl]

theorem getElem?_dirOf_tmp (harts : Named arts) (hname : ext name = ".tmp") :
    (dirOf arts)[name]? = none := by
  rw [Option.eq_none_iff_forall_ne_some]
  intro body hget
  obtain ⟨a, ha, ⟨rfl, _⟩ | ⟨rfl, _⟩⟩ := (getElem?_dirOf harts).mp hget
  · have hbackup : ext a.filename = ".age" := harts.names a ha
    rw [hname] at hbackup
    revert hbackup
    decide
  · rw [ext_sidePath] at hname
    revert hname
    decide

theorem mem_pairs_dirOf (harts : Named arts) :
    name ∈ pairs (dirOf arts) ↔ ∃ a ∈ arts, a.filename = name := by
  unfold pairs
  rw [List.mem_filter, mem_readDir, Bool.and_eq_true, decide_eq_true_eq]
  constructor
  · rintro ⟨hsome, hext, _⟩
    obtain ⟨body, hbody⟩ := Option.isSome_iff_exists.mp hsome
    obtain ⟨a, ha, ⟨rfl, _⟩ | ⟨rfl, _⟩⟩ := (getElem?_dirOf harts).mp hbody
    · exact ⟨a, ha, rfl⟩
    · exact absurd rfl (ne_sidePath hext a.filename)
  · rintro ⟨a, ha, rfl⟩
    have hfile := (getElem?_dirOf harts).mpr ⟨a, ha, .inl ⟨rfl, rfl⟩⟩
    have hside := (getElem?_dirOf harts).mpr ⟨a, ha, .inr ⟨rfl, rfl⟩⟩
    rw [hfile, hside]
    exact ⟨rfl, harts.names a ha, rfl⟩

theorem pairs_sorted (d : Directory Bytes) : (pairs d).Pairwise (· < ·) :=
  (readDir_sorted d).filter _

theorem length_pairs_dirOf (harts : Named arts) : (pairs (dirOf arts)).length = arts.length := by
  have hperm : (pairs (dirOf arts)).Perm (arts.map Artifact.filename) := by
    rw [List.perm_ext_iff_of_nodup ((pairs_sorted _).imp ne_of_lt) harts.nodup]
    intro name
    rw [mem_pairs_dirOf harts, List.mem_map]
  rw [hperm.length_eq, List.length_map]

/-! ## Section 4: One rotation -/

/-- With one pair too many, the one whose name sorts first is removed. -/
theorem rotate_one (hlength : (pairs d).length = keepLast + 1) :
    ∃ least rest, pairs d = least :: rest
      ∧ rotate keepLast undisturbed.removeFails d = removePair undisturbed.removeFails d least := by
  obtain ⟨least, rest, hpairs⟩ := List.exists_cons_of_length_eq_add_one hlength
  refine ⟨least, rest, hpairs, ?_⟩
  have hsorted : ((pairs d).mergeSort fun a b => decide (a ≤ b)) = pairs d := by
    apply List.mergeSort_of_pairwise
    exact (pairs_sorted d).imp fun h => decide_eq_true h.le
  unfold rotate
  rw [if_neg (by omega), hsorted, hlength, Nat.add_sub_cancel_left, hpairs]
  rfl

theorem getElem?_removePair {base : String} : (removePair undisturbed.removeFails d base)[name]?
    = if name = sidePath base then none else if name = base then none else d[name]? := by
  unfold removePair
  simp only [getElem?_removeFile, undisturbed, and_true]

/-- Without the files of its first artifact, a directory is that of the later ones. -/
theorem removePair_dirOf (harts : Named (first :: later)) :
    removePair undisturbed.removeFails (dirOf (first :: later)) first.filename = dirOf later := by
  have hlater : Named later := harts.sublist (List.sublist_cons_self _ _)
  have hfirst : first.filename ∉ later.map Artifact.filename := (List.nodup_cons.mp harts.nodup).1
  have hfirstName := harts.names first List.mem_cons_self
  apply Std.ExtTreeMap.ext_getElem?
  intro name
  apply Option.ext
  intro body
  rw [getElem?_removePair, getElem?_dirOf hlater]
  by_cases hside : name = sidePath first.filename
  · rw [if_pos hside]
    constructor
    · intro h
      contradiction
    · rintro ⟨b, hb, ⟨hfile, _⟩ | ⟨hside', _⟩⟩
      · exact absurd (hfile.symm.trans hside) (ne_sidePath (hlater.names b hb) _)
      · have hsame := sidePath_inj (hside.symm.trans hside')
        exact absurd (hsame ▸ List.mem_map_of_mem hb) hfirst
  · rw [if_neg hside]
    by_cases hfile : name = first.filename
    · rw [if_pos hfile]
      constructor
      · intro h
        contradiction
      · rintro ⟨b, hb, ⟨hfile', _⟩ | ⟨hside', _⟩⟩
        · exact absurd (hfile.symm.trans hfile' ▸ List.mem_map_of_mem hb) hfirst
        · exact absurd (hfile.symm.trans hside') (ne_sidePath hfirstName _)
    · rw [if_neg hfile, getElem?_dirOf harts]
      simp [hfile, hside]

/-- **One rotation keeps the newest** exactly when the oldest has the first name. -/
theorem rotate_dirOf_iff (harts : Named (first :: later)) (hlength : later.length = keepLast) :
    rotate keepLast undisturbed.removeFails (dirOf (first :: later)) = dirOf later
      ↔ ∀ b ∈ later, first.filename < b.filename := by
  have hlater : Named later := harts.sublist (List.sublist_cons_self _ _)
  have hfirst : first.filename ∉ later.map Artifact.filename := (List.nodup_cons.mp harts.nodup).1
  have hfirstName := harts.names first List.mem_cons_self
  obtain ⟨least, rest, hpairs, hrotate⟩ := rotate_one
    ((length_pairs_dirOf harts).trans (by rw [List.length_cons, hlength]))
  have hsorted : (least :: rest).Pairwise (· < ·) := hpairs ▸ pairs_sorted _
  have hmem : ∀ name, name ∈ least :: rest ↔ ∃ a ∈ first :: later, a.filename = name := by
    intro name
    rw [← hpairs, mem_pairs_dirOf harts]
  rw [hrotate]
  constructor
  · intro heq
    have hleast : first.filename = least := by
      by_contra hne
      -- otherwise the oldest artifact is still there
      have hget := (getElem?_dirOf harts).mpr ⟨first, List.mem_cons_self, .inl ⟨rfl, rfl⟩⟩
      have hkept : (removePair undisturbed.removeFails (dirOf (first :: later)) least)[first.filename]?
          = some first.encrypted := by
        rw [getElem?_removePair, if_neg (ne_sidePath hfirstName _), if_neg hne, hget]
      rw [heq] at hkept
      obtain ⟨a, ha, ⟨hfile, _⟩ | ⟨hside, _⟩⟩ := (getElem?_dirOf hlater).mp hkept
      · exact hfirst (hfile ▸ List.mem_map_of_mem ha)
      · exact ne_sidePath hfirstName _ hside
    intro b hb
    have hbmem := (hmem b.filename).mpr ⟨b, List.mem_cons_of_mem _ hb, rfl⟩
    rcases List.mem_cons.mp hbmem with hsame | hrest
    · rw [← hleast] at hsame
      exact absurd (hsame ▸ List.mem_map_of_mem hb) hfirst
    · rw [hleast]
      exact (List.pairwise_cons.mp hsorted).1 _ hrest
  · intro hleast
    have hfirstMem := (hmem first.filename).mpr ⟨first, List.mem_cons_self, rfl⟩
    obtain ⟨a, ha, haleast⟩ := (hmem least).mp List.mem_cons_self
    have heq : least = first.filename := by
      rcases List.mem_cons.mp hfirstMem with heq | hrest
      · exact heq.symm
      · have hlt := (List.pairwise_cons.mp hsorted).1 _ hrest
        rcases List.mem_cons.mp ha with rfl | ha
        · exact haleast.symm
        · exact absurd (haleast ▸ hleast a ha) hlt.not_gt
    rw [heq]
    exact removePair_dirOf harts

/-! ## Section 5: All writes -/

theorem afterWrites_concat (keepLast : Nat) (arts : List Artifact) (a : Artifact) :
    afterWrites keepLast (arts ++ [a]) = (write keepLast a undisturbed (afterWrites keepLast arts)).2 := by
  unfold afterWrites
  rw [List.foldl_append, List.foldl_cons, List.foldl_nil]

/-- The newest artifacts after one more write, as the newest before it with the new one:
    either all are kept, or the first of them goes. -/
theorem newest_concat (keepLast : Nat) (arts : List Artifact) (a : Artifact) :
    (arts.length < keepLast ∧ arts.drop (arts.length - keepLast) ++ [a]
        = (arts ++ [a]).drop ((arts ++ [a]).length - keepLast))
      ∨ (keepLast ≤ arts.length ∧ ∃ first later, arts.drop (arts.length - keepLast) ++ [a] = first :: later
        ∧ later.length = keepLast ∧ (arts ++ [a]).drop ((arts ++ [a]).length - keepLast) = later
        ∧ (first :: later) <:+ arts ++ [a]) := by
  have hlength : (arts ++ [a]).length = arts.length + 1 := by simp
  by_cases hfew : arts.length < keepLast
  · left
    refine ⟨hfew, ?_⟩
    rw [hlength, show arts.length - keepLast = 0 by omega, show arts.length + 1 - keepLast = 0 by omega]
    rfl
  · right
    -- the window of the longer list has one artifact too many: its first
    have hwindow : arts.drop (arts.length - keepLast) ++ [a]
        = (arts ++ [a]).drop (arts.length - keepLast) :=
      (List.drop_append_of_le_length (by omega)).symm
    have hwindowLength : ((arts ++ [a]).drop (arts.length - keepLast)).length = keepLast + 1 := by
      rw [List.length_drop, hlength]
      omega
    obtain ⟨first, later, hcons⟩ := List.exists_cons_of_length_eq_add_one hwindowLength
    refine ⟨by omega, first, later, hwindow.trans hcons, ?_, ?_, ?_⟩
    · rw [hcons, List.length_cons] at hwindowLength
      omega
    · rw [hlength, show arts.length + 1 - keepLast = arts.length - keepLast + 1 by omega,
        ← List.drop_drop, hcons]
      rfl
    · rw [← hcons]
      exact List.drop_suffix _ _

/-- **Step lemma**: a write after which the newest artifacts are there. -/
theorem afterWrites_concat_iff (hkeep : 0 < keepLast) (harts : Named (arts ++ [a]))
    (hbefore : afterWrites keepLast arts = dirOf (arts.drop (arts.length - keepLast))) :
    afterWrites keepLast (arts ++ [a])
        = dirOf ((arts ++ [a]).drop ((arts ++ [a]).length - keepLast))
      ↔ ∀ first later, (first :: later) <:+ arts ++ [a] → later.length = keepLast →
        ∀ b ∈ later, first.filename < b.filename := by
  have hnewest : Named (arts.drop (arts.length - keepLast) ++ [a]) :=
    harts.sublist ((List.drop_sublist _ _).append_right _)
  have hold : Named (arts.drop (arts.length - keepLast)) :=
    hnewest.sublist (List.sublist_append_left _ _)
  have hwrite : afterWrites keepLast (arts ++ [a])
      = rotate keepLast undisturbed.removeFails
          (dirOf (arts.drop (arts.length - keepLast) ++ [a])) := by
    rw [afterWrites_concat, hbefore, write_of_writes (harts.names a (by simp)) keepLast
      (fun _ hname => getElem?_dirOf_tmp hold hname) ⟨rfl, rfl, rfl⟩ rfl, if_pos hkeep, dirOf_concat]
  rw [hwrite]
  rcases newest_concat keepLast arts a with ⟨hfew, hall⟩ | ⟨_, first, later, hcons, hlength, hdrop, hsuffix⟩
  · have hrotate : rotate keepLast undisturbed.removeFails
        (dirOf (arts.drop (arts.length - keepLast) ++ [a]))
        = dirOf (arts.drop (arts.length - keepLast) ++ [a]) := by
      unfold rotate
      rw [length_pairs_dirOf hnewest, if_pos]
      rw [List.length_append, List.length_drop, List.length_singleton]
      omega
    rw [hrotate, hall]
    refine iff_of_true rfl ?_
    -- there are no `keepLast + 1` writes yet
    intro first later hsuffix hlength
    have hle := hsuffix.length_le
    simp only [List.length_cons, List.length_append, List.length_nil] at hle
    omega
  · rw [hcons, hdrop, rotate_dirOf_iff (hcons ▸ hnewest) hlength]
    constructor
    · intro hleast first' later' hsuffix' hlength'
      have hsame : first' :: later' = first :: later := by
        rw [List.suffix_iff_eq_drop.mp hsuffix', List.suffix_iff_eq_drop.mp hsuffix, List.length_cons,
          List.length_cons, hlength, hlength']
      obtain ⟨rfl, rfl⟩ := List.cons.inj hsame
      exact hleast
    · intro hall
      exact hall first later hsuffix hlength

/-- **Run lemma**: all writes keep the newest artifacts exactly when among any
    `keepLast + 1` in a row the first has the first name. -/
theorem keepsNewest_iff_names (hkeep : 0 < keepLast) (harts : Named arts) :
    KeepsNewest keepLast arts ↔ ∀ first later, (first :: later) <:+: arts →
      later.length = keepLast → ∀ b ∈ later, first.filename < b.filename := by
  induction arts using List.reverseRecOn with
  | nil =>
    refine iff_of_true ?_ ?_
    · intro written hwritten
      rw [List.prefix_nil.mp hwritten, List.drop_nil]
      rfl
    · intro first later hrow
      exact absurd (List.infix_nil.mp hrow) (List.cons_ne_nil _ _)
  | append_singleton arts a ih =>
    have hbefore := ih (harts.sublist (List.sublist_append_left _ _))
    constructor
    · intro hkeeps
      have hwas : KeepsNewest keepLast arts := fun written hwritten =>
        hkeeps written (hwritten.trans (List.prefix_append _ _))
      have hstep := (afterWrites_concat_iff hkeep harts (hwas arts List.prefix_rfl)).mp
        (hkeeps _ List.prefix_rfl)
      intro first later hrow
      -- a row that ends at the new artifact, or one within the earlier ones
      rcases List.infix_concat_iff.mp hrow with hsuffix | hrow
      · exact hstep first later hsuffix
      · exact hbefore.mp hwas first later hrow
    · intro hnames
      have hwas : KeepsNewest keepLast arts := hbefore.mpr fun first later hrow =>
        hnames first later (List.infix_append_of_infix_left hrow)
      intro written hwritten
      rcases List.prefix_concat_iff.mp hwritten with rfl | hwritten
      · exact (afterWrites_concat_iff hkeep harts (hwas arts List.prefix_rfl)).mpr
          fun first later hsuffix => hnames first later hsuffix.isInfix
      · exact hwas written hwritten

theorem Timely.named' (harts : Timely arts) : Named arts := by
  refine ⟨?_, ?_⟩
  · intro a ha
    rw [harts.named a ha]
    exact isBackupName_formatFilename _ _
  · unfold List.Nodup
    rw [List.pairwise_map]
    apply harts.ordered.imp_of_mem
    intro a b ha hb hpair heq
    rw [harts.named a ha, harts.named b hb] at heq
    obtain ⟨hsec, hsize⟩ := formatFilename_inj heq
    have hsa := harts.seconds a ha
    have hsb := harts.seconds b hb
    have htime : a.createdAt = b.createdAt := by omega
    exact hpair.2.2 (by rw [htime, hsize])

/-- All writes keep the newest backups exactly when, among any `keepLast + 1` in a row,
    the first is in an earlier second than the others or has a size whose text sorts
    before theirs. -/
theorem rotation_keeps_newest_iff (hkeep : 0 < keepLast) (harts : Timely arts) :
    KeepsNewest keepLast arts ↔ ∀ first later, (first :: later) <:+: arts →
      later.length = keepLast → ∀ b ∈ later, SortsBefore first b := by
  rw [keepsNewest_iff_names hkeep harts.named']
  have hpair : ∀ first later, (first :: later) <:+: arts → ∀ b ∈ later,
      (first.filename < b.filename ↔ SortsBefore first b) := by
    intro first later hrow b hb
    have hordered := harts.ordered.sublist hrow.sublist
    have hle := ((List.pairwise_cons.mp hordered).1 b hb).1
    exact filename_lt_iff harts (hrow.subset List.mem_cons_self)
      (hrow.subset (List.mem_cons_of_mem _ hb)) hle
  constructor
  · intro hnames first later hrow hlength b hb
    exact (hpair first later hrow b hb).mp (hnames first later hrow hlength b hb)
  · intro hsorts first later hrow hlength b hb
    exact (hpair first later hrow b hb).mpr (hsorts first later hrow hlength b hb)

/-- Backups of different seconds are rotated in their order. -/
theorem keepsNewest_of_later_seconds (hkeep : 0 < keepLast) (harts : Timely arts)
    (hyears : ∀ a ∈ arts, 0 ≤ Civil.yearOf a.createdAt)
    (hlater : arts.Pairwise fun a b => a.createdAt < b.createdAt) : KeepsNewest keepLast arts := by
  rw [keepsNewest_iff_names hkeep harts.named']
  intro first later hrow _ b hb
  have hb' := hrow.subset (List.mem_cons_of_mem _ hb)
  have hlt := (List.pairwise_cons.mp (hlater.sublist hrow.sublist)).1 b hb
  rw [filename_lt_iff harts (hrow.subset List.mem_cons_self) hb' hlt.le]
  unfold SortsBefore
  rw [if_neg hlt.ne]
  exact .inl (hyears b hb')

/-! ## Section 6: Two backups of one second -/

/-- A backup of 2026-05-18T12-00-00Z with an empty body. -/
def noonBackup (treeSize : UInt64) : Artifact :=
  { filename := formatFilename 1779105600000000000 treeSize, encrypted := [], sidecar := sidecarOf [],
    createdAt := 1779105600000000000, treeSize := treeSize, rootHashHex := "" }

theorem timely_noon {n n' : UInt64} (hlt : n < n') : Timely [noonBackup n, noonBackup n'] := by
  have hyear : Civil.yearOf 1779105600000000000 ≤ 9999 := by decide +kernel
  have hpair : ∀ a ∈ [noonBackup n, noonBackup n'], ∃ size, a = noonBackup size := by simp
  refine ⟨?_, ?_, ?_, ?_⟩
  · intro a ha
    obtain ⟨size, rfl⟩ := hpair a ha
    rfl
  · intro a ha
    obtain ⟨size, rfl⟩ := hpair a ha
    exact ⟨1779105600, rfl⟩
  · intro a ha
    obtain ⟨size, rfl⟩ := hpair a ha
    exact hyear
  · rw [List.pairwise_pair]
    have hne : n ≠ n' := by
      rintro rfl
      exact absurd hlt (UInt64.lt_irrefl n)
    exact ⟨le_refl _, UInt64.le_of_lt hlt, fun heq => hne (Prod.mk.inj heq).2⟩

theorem rotation_keeps_newest_iff_noon : KeepsNewest 1 [noonBackup 10, noonBackup 11] ↔
    ∀ first later, (first :: later) <:+: [noonBackup 10, noonBackup 11] → later.length = 1 →
      ∀ b ∈ later, SortsBefore first b :=
  rotation_keeps_newest_iff (by decide) (timely_noon (by decide))

/-- The backup of size 10 is removed by its own write: its name sorts before that of
    size 9. -/
theorem rotation_removes_newest : ¬ KeepsNewest 1 [noonBackup 9, noonBackup 10] := by
  have harts : Timely [noonBackup 9, noonBackup 10] := timely_noon (by decide)
  rw [keepsNewest_iff_names (by decide) harts.named']
  intro hnames
  have hlt := hnames (noonBackup 9) [noonBackup 10] (List.infix_refl _) rfl _ List.mem_cons_self
  have htime : (noonBackup 9).createdAt = (noonBackup 10).createdAt := rfl
  rw [filename_lt_iff harts (by simp) (by simp) htime.le] at hlt
  unfold SortsBefore at hlt
  rw [if_pos htime, String.lt_iff_toList_lt] at hlt
  revert hlt
  decide +kernel

end Owasaka.Backup
