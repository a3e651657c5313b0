import Mathlib.Logic.Function.Basic

/-! # Names and files

    A directory maps names to files.  A process that has a file open keeps that
    file, whatever happens to its name: after a rename over the name, the name
    is another file and the process still has the old one.

    This file defines:
    - `Disk`: a directory without hard links, and the contents of its files
    - `write`: replacing the contents of an open file
    - `create`: opening a name for writing, truncated, and writing it
    - `rename`: the POSIX move
    - `remove`: taking a name away
    and what each of them does to names and contents. -/

universe u

/-- `fresh` is above every file in use. -/
structure Disk (α : Type u) where
  names : String → Option Nat
  files : Nat → α
  fresh : Nat
  lt_fresh : ∀ name i, names name = some i → i < fresh
  inj : ∀ name other i, names name = some i → names other = some i → name = other

namespace Disk

variable {α : Type u} {d d' : Disk α} {name other : String} {i : Nat} {a : α}

/-- A disk without names. -/
def empty (a : α) : Disk α := ⟨fun _ => none, fun _ => a, 0, by simp, by simp⟩

/-- The contents of the file behind a name. -/
def content (d : Disk α) (name : String) : Option α := (d.names name).map d.files

/-- Replaces the contents of an open file. -/
def write (d : Disk α) (i : Nat) (a : α) : Disk α :=
  { d with files := Function.update d.files i a }

/-- A new file behind `name`. -/
def createNew (d : Disk α) (name : String) (a : α) : Disk α where
  names := Function.update d.names name (some d.fresh)
  files := Function.update d.files d.fresh a
  fresh := d.fresh + 1
  lt_fresh := by
    intro other i hother
    by_cases heq : other = name
    · subst heq
      simp only [Function.update_self, Option.some.injEq] at hother
      omega
    · rw [Function.update_of_ne heq] at hother
      exact Nat.lt_succ_of_lt (d.lt_fresh other i hother)
  inj := by
    -- the new file is not yet behind any name
    have hnew : ∀ m, d.names m ≠ some d.fresh := fun m hm =>
      Nat.lt_irrefl _ (d.lt_fresh m _ hm)
    intro m n i hm hn
    simp only [Function.update_apply] at hm hn
    split at hm <;> split at hn
    · simp_all
    · simp only [Option.some.injEq] at hm
      exact absurd (hm ▸ hn) (hnew n)
    · simp only [Option.some.injEq] at hn
      exact absurd (hn ▸ hm) (hnew m)
    · exact d.inj m n i hm hn

/-- Opens `name` with `O_CREATE|O_TRUNC` and writes `a`. -/
def create (d : Disk α) (name : String) (a : α) : Disk α :=
  match d.names name with
  | some i => d.write i a
  | none => d.createNew name a

/-- `rename(src, dst)`; it fails when there is no `src`. -/
def rename (d : Disk α) (src dst : String) : Option (Disk α) :=
  match h : d.names src with
  | none => none
  | some i =>
    if src = dst then some d
    else some
      { d with
        names := Function.update (Function.update d.names src none) dst (some i)
        lt_fresh := by
          intro name j hname
          simp only [Function.update_apply] at hname
          split at hname
          · cases hname
            exact d.lt_fresh src i h
          · split at hname
            · contradiction
            · exact d.lt_fresh name j hname
        inj := by
          intro m n j hm hn
          simp only [Function.update_apply] at hm hn
          grind [d.inj] }

/-- `unlink(name)`; nothing happens when there is no such name. -/
def remove (d : Disk α) (name : String) : Disk α where
  names := Function.update d.names name none
  files := d.files
  fresh := d.fresh
  lt_fresh := by
    intro other i hother
    simp only [Function.update_apply] at hother
    split at hother
    · contradiction
    · exact d.lt_fresh other i hother
  inj := by
    intro m n i hm hn
    simp only [Function.update_apply] at hm hn
    split at hm
    · contradiction
    · split at hn
      · contradiction
      · exact d.inj m n i hm hn

/-! ## Section 1: Writing an open file -/

@[simp] theorem names_write : (d.write i a).names = d.names := rfl

@[simp] theorem files_write_self : (d.write i a).files i = a := by simp [write]

theorem content_write_self (hname : d.names name = some i) :
    (d.write i a).content name = some a := by simp [content, hname]

theorem content_write_of_ne (hname : d.names name ≠ some i) :
    (d.write i a).content name = d.content name := by
  unfold content
  cases hfile : d.names name with
  | none => simp [hfile]
  | some j =>
    have hne : j ≠ i := fun heq => hname (heq ▸ hfile)
    simp [hfile, write, Function.update_of_ne hne]

/-! ## Section 2: Creating a name -/

theorem fresh_le_create : d.fresh ≤ (d.create name a).fresh := by
  unfold create
  split
  · exact Nat.le_refl _
  · exact Nat.le_succ _

theorem content_create_self : (d.create name a).content name = some a := by
  unfold create
  cases hfile : d.names name with
  | none => simp [content, createNew]
  | some j => exact content_write_self hfile

theorem names_create_of_ne (hne : other ≠ name) :
    (d.create name a).names other = d.names other := by
  unfold create
  split
  · rfl
  · simp [createNew, Function.update_of_ne hne]

/-- The created name is behind no file that was there under another name or none. -/
theorem names_create_self_ne (hlt : i < d.fresh) (hne : d.names name ≠ some i) :
    (d.create name a).names name ≠ some i := by
  unfold create
  split
  · exact hne
  · simp only [createNew, Function.update_self, ne_eq, Option.some.injEq]
    omega

theorem files_create_of_ne (hlt : i < d.fresh) (hne : d.names name ≠ some i) :
    (d.create name a).files i = d.files i := by
  unfold create
  cases hfile : d.names name with
  | none =>
    have : i ≠ d.fresh := Nat.ne_of_lt hlt
    simp [createNew, Function.update_of_ne this]
  | some j =>
    have : i ≠ j := fun heq => hne (heq ▸ hfile)
    simp [write, Function.update_of_ne this]

theorem content_create_of_ne (hne : other ≠ name) :
    (d.create name a).content other = d.content other := by
  unfold content
  rw [names_create_of_ne hne]
  cases hfile : d.names other with
  | none => rfl
  | some j =>
    have hother : d.names name ≠ some j := fun hname => hne (d.inj _ _ _ hfile hname)
    simp [files_create_of_ne (d.lt_fresh _ _ hfile) hother]

/-! ## Section 3: Renaming -/

theorem rename_eq_none {src : String} (dst : String) (hsrc : d.names src = none) :
    d.rename src dst = none := by
  unfold rename
  split
  · rfl
  · rename_i j hj
    simp [hsrc] at hj

theorem rename_self {src : String} (hsrc : d.names src = some i) : d.rename src src = some d := by
  unfold rename
  split
  · rename_i hnone
    simp [hsrc] at hnone
  · rw [if_pos rfl]

/-- A rename moves the file behind `src` to `dst` and touches no contents. -/
theorem rename_spec {src dst : String} (hne : src ≠ dst) (hsrc : d.names src = some i) :
    ∃ d', d.rename src dst = some d' ∧ d'.files = d.files ∧ d'.fresh = d.fresh
      ∧ d'.names src = none ∧ d'.names dst = some i
      ∧ ∀ name, name ≠ src → name ≠ dst → d'.names name = d.names name := by
  unfold rename
  split
  · rename_i hnone
    simp [hsrc] at hnone
  · rename_i j hj
    rw [if_neg hne]
    refine ⟨_, rfl, rfl, rfl, ?_, ?_, ?_⟩
    · simp [Function.update_of_ne hne]
    · simpa [hj] using hsrc
    · intro name hnsrc hndst
      simp [Function.update_of_ne hndst, Function.update_of_ne hnsrc]

end Disk
