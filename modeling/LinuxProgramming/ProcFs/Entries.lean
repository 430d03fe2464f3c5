import LinuxProgramming.Foundation.Numerals

/-! The entries of `/proc`, as a loop over `readdir` finds them.

A process has a directory that is named by its pid. What a program opens in this
directory may be out of its reach, or gone with the process.
-/

set_option autoImplicit false

namespace LinuxProgramming.ProcFs
open Foundation

def DT_DIR : Nat := 4
def DT_LNK : Nat := 10

variable {Inside : Type}

/-- A process with what is opened in its directory, or one of the other entries. None of
those is a directory with a name that starts with a number. -/
inductive Entry (Inside : Type) where
  | process (pid : Nat) (positive : 0 < pid) (bounded : pid < 2 ^ 31) (inside : Option Inside)
  | other (name : List Byte) (type : Nat) (skipped : type = DT_DIR → atoi name = 0)

namespace Entry

def d_name : Entry Inside → List Byte
  | .process pid _ _ _ => decimal pid
  | .other name _ _ => name

def d_type : Entry Inside → Nat
  | .process _ _ _ _ => DT_DIR
  | .other _ type _ => type

/-- The file or directory of the process, if it can be opened. -/
def inside : Entry Inside → Option Inside
  | .process _ _ _ inside => inside
  | .other _ _ _ => none

/-- The test of the loops: a directory, named by a number. -/
def isProcess (entry : Entry Inside) : Bool := entry.d_type = DT_DIR && atoi entry.d_name ≠ 0

@[simp] theorem isProcess_process (pid : Nat) (positive : 0 < pid) (bounded : pid < 2 ^ 31)
    (inside : Option Inside) : (process pid positive bounded inside).isProcess = true := by
  have number : atoi (decimal pid) ≠ 0 := by
    rw [atoi_decimal bounded]
    omega
  simp [isProcess, d_type, d_name, number]

@[simp] theorem isProcess_other (name : List Byte) (type : Nat)
    (skipped : type = DT_DIR → atoi name = 0) :
    (other name type skipped : Entry Inside).isProcess = false := by
  by_cases directory : type = DT_DIR
  · simp [isProcess, d_name, skipped directory]
  · simp [isProcess, d_type, directory]

end Entry

/-- The entries that one pass over the directory finds. -/
structure Snapshot (Inside : Type) where
  entries : List (Entry Inside)
  distinct : (entries.map Entry.d_name).Nodup

end LinuxProgramming.ProcFs
