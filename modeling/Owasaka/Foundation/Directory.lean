import Mathlib.Data.String.Basic
import Owasaka.Foundation.Lookup

/-! # A directory of files

    Names and the contents of the files behind them, for programs that open, write and
    close a file in one call: replacing a file, renaming, removing and listing.

    `ext` is the ending of a name from its last dot.  Names with different endings are
    different, which keeps apart the files that a program derives from one name. -/

universe u

abbrev Directory (α : Type) : Type := Std.ExtTreeMap String α

namespace Directory

variable {α : Type}

/-- The file behind a name after it was created or truncated, and written. -/
def writeFile (name : String) (body : α) (d : Directory α) : Directory α := d.insert name body

/-- `rename(src, dst)`; without effect when there is no `src`. -/
def rename (src dst : String) (d : Directory α) : Directory α :=
  match d[src]? with
  | none => d
  | some body => (d.erase src).insert dst body

def remove (name : String) (d : Directory α) : Directory α := d.erase name

/-- The names, in their order. -/
def readDir (d : Directory α) : List String := d.keys

/-- The ending of a name from its last dot; empty when there is none. -/
def ext (name : String) : String :=
  if '.' ∈ name.toList then
    String.ofList ('.' :: (name.toList.reverse.takeWhile (· ≠ '.')).reverse)
  else ""

variable {d : Directory α} {name other src dst : String} {body : α}

/-! ## Section 1: What is behind a name -/

@[simp] theorem getElem?_writeFile :
    (d.writeFile name body)[other]? = if other = name then some body else d[other]? :=
  getElem?_insert_ite d name other body

@[simp] theorem getElem?_remove :
    (d.remove name)[other]? = if other = name then none else d[other]? := by
  unfold remove
  rw [Std.ExtTreeMap.getElem?_erase]
  by_cases heq : other = name
  · simp [heq]
  · have hne : compare name other ≠ .eq := by
      intro hcmp
      exact heq (Std.LawfulEqCmp.eq_of_compare hcmp).symm
    rw [if_neg hne, if_neg heq]

theorem getElem?_rename (hsrc : d[src]? = some body) : (d.rename src dst)[other]?
    = if other = dst then some body else if other = src then none else d[other]? := by
  have hremove : (d.erase src)[other]? = if other = src then none else d[other]? := getElem?_remove
  unfold rename
  rw [hsrc]
  simp only
  rw [getElem?_insert_ite, hremove]

theorem mem_readDir : name ∈ d.readDir ↔ (d[name]?).isSome = true := by
  unfold readDir
  rw [Std.ExtTreeMap.mem_keys, Std.ExtTreeMap.mem_iff_isSome_getElem?]

theorem readDir_sorted (d : Directory α) : d.readDir.Pairwise (· < ·) :=
  Std.ExtTreeMap.ordered_keys.imp fun h => compare_lt_iff_lt.mp h

/-! ## Section 2: Endings -/

/-- The ending of a name is what was appended to it, from a dot without another. -/
theorem ext_append {suffix : String} (base : String) {rest : List Char}
    (hsuffix : suffix.toList = '.' :: rest) (hrest : '.' ∉ rest) :
    ext (base ++ suffix) = suffix := by
  unfold ext
  have hdot : '.' ∈ (base ++ suffix).toList := by
    rw [String.toList_append, hsuffix]
    simp
  have hplain : ∀ c ∈ rest.reverse, decide (c ≠ '.') = true := by
    intro c hc
    rw [List.mem_reverse] at hc
    exact decide_eq_true fun heq => hrest (heq ▸ hc)
  rw [if_pos hdot, String.toList_append, hsuffix, List.reverse_append, List.reverse_cons,
    List.append_assoc, List.takeWhile_append_of_pos hplain, List.singleton_append,
    List.takeWhile_cons_of_neg (by simp), List.append_nil, List.reverse_reverse, ← hsuffix,
    String.ofList_toList]

theorem ne_of_ext_ne (hne : ext name ≠ ext other) : name ≠ other := by
  rintro rfl
  exact hne rfl

end Directory
