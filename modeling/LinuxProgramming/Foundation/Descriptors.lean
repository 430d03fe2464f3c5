import Mathlib.Logic.Function.Basic
import Mathlib.Data.List.Basic
import Mathlib.Data.Set.Insert

/-! File descriptor tables.

A table has finitely many open descriptors, and a new one is the lowest that is
free. What a descriptor refers to is a parameter.
-/

set_option autoImplicit false

namespace LinuxProgramming.Foundation

/-- All descriptors from `bound` on are closed. -/
structure Table (File : Type) where
  file : Nat → Option File
  bound : Nat
  closed : ∀ fd, bound ≤ fd → file fd = none

namespace Table

variable {File : Type}

/-- The descriptor that the next allocation returns. -/
def lowest (table : Table File) : Nat :=
  ((List.range table.bound).find? fun fd => (table.file fd).isNone).getD table.bound

/-- Let a descriptor refer to a file, as `open`, `pipe` and `dup2` do. -/
def install (table : Table File) (fd : Nat) (file : File) : Table File where
  file := Function.update table.file fd (some file)
  bound := max table.bound (fd + 1)
  closed other outside := by
    have different : other ≠ fd := by omega
    rw [Function.update_of_ne different]
    exact table.closed other (by omega)

def close (table : Table File) (fd : Nat) : Table File where
  file := Function.update table.file fd none
  bound := table.bound
  closed other outside := by
    by_cases same : other = fd
    · rw [same, Function.update_self]
    · rw [Function.update_of_ne same]
      exact table.closed other outside

@[simp] theorem install_file (table : Table File) (fd : Nat) (file : File) :
    (table.install fd file).file = Function.update table.file fd (some file) := rfl

@[simp] theorem close_file (table : Table File) (fd : Nat) :
    (table.close fd).file = Function.update table.file fd none := rfl

/-- Opening two free descriptors, and closing both once a third one is installed,
changes that one only. -/
theorem update_between {file : Nat → Option File} {first second target : Nat}
    (first_free : file first = none) (second_free : file second = none)
    (first_ne : first ≠ target) (second_ne : second ≠ target)
    (a b : Option File) {earlier later : Nat} (both : ({first, second} : Set Nat) = {earlier, later})
    (c : Option File) :
    Function.update (Function.update (Function.update (Function.update (Function.update file first a)
      second b) earlier none) target c) later none = Function.update file target c := by
  funext fd
  have pair : fd = first ∨ fd = second ↔ fd = earlier ∨ fd = later := by
    simpa using congrArg (fd ∈ ·) both
  -- On the target only the last update counts; on the pair both were free before and are closed after.
  by_cases on_target : fd = target
  · have apart : ¬(fd = earlier ∨ fd = later) := by
      rw [← pair, on_target]
      exact not_or.mpr ⟨first_ne.symm, second_ne.symm⟩
    rw [not_or] at apart
    simp [on_target ▸ apart.2, on_target]
  · by_cases touched : fd = earlier ∨ fd = later
    · have free : file fd = none := by
        rcases pair.mpr touched with rfl | rfl
        · exact first_free
        · exact second_free
      simp only [Function.update_apply, if_neg on_target, free]
      split_ifs <;> simp_all
    · have untouched := mt pair.mp touched
      rw [not_or] at touched untouched
      simp [touched, untouched, on_target]

/-- A new descriptor was free before. -/
theorem lowest_free (table : Table File) : table.file table.lowest = none := by
  unfold lowest
  cases found : (List.range table.bound).find? fun fd => (table.file fd).isNone with
  | none => exact table.closed _ (Nat.le_refl _)
  | some fd => simpa using List.find?_some found

theorem lowest_ne {table : Table File} {fd : Nat} (opened : table.file fd ≠ none) :
    table.lowest ≠ fd := by
  rintro rfl
  exact opened table.lowest_free

/-- The descriptors below a new one were open before. -/
theorem open_of_lt_lowest {table : Table File} {fd : Nat} (below : fd < table.lowest) :
    table.file fd ≠ none := by
  intro free
  unfold lowest at below
  cases found : (List.range table.bound).find? fun fd => (table.file fd).isNone with
  | none =>
    rw [found, Option.getD_none] at below
    simpa [free] using List.find?_range_eq_none.mp found fd below
  | some first =>
    rw [found, Option.getD_some] at below
    simpa [free] using (List.find?_range_eq_some.mp found).2.2 fd below

end Table

end LinuxProgramming.Foundation
