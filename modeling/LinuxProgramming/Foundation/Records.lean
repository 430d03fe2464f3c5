import LinuxProgramming.Foundation.CString
import Mathlib.Algebra.Group.Nat.Defs

/-! Records of different sizes that lie back to back.

The size of a record is a fixed part, and as many bytes more as the record itself
says. A loop that reads its next stride off the record at hand stays at the
boundaries of the records as long as every stride is right.
-/

set_option autoImplicit false

namespace LinuxProgramming.Foundation

/-- An unsigned number in memory, its lowest byte first. -/
def littleEndian : Nat → Nat → List Byte
  | 0, _ => []
  | width + 1, value => UInt8.ofNat value :: littleEndian width (value / 256)

def ofLittleEndian : List Byte → Nat
  | [] => 0
  | byte :: bytes => byte.toNat + 256 * ofLittleEndian bytes

@[simp] theorem littleEndian_length (width value : Nat) :
    (littleEndian width value).length = width := by
  induction width generalizing value with
  | zero => rfl
  | succ width ih => rw [littleEndian, List.length_cons, ih]

theorem ofLittleEndian_littleEndian {width value : Nat} (fits : value < 256 ^ width) :
    ofLittleEndian (littleEndian width value) = value := by
  induction width generalizing value with
  | zero =>
    have zero : value = 0 := by simpa using fits
    rw [zero]
    rfl
  | succ width ih =>
    have higher : value / 256 < 256 ^ width := by
      apply Nat.div_lt_of_lt_mul
      rwa [Nat.pow_succ, Nat.mul_comm] at fits
    have lowest : (UInt8.ofNat value).toNat = value % 256 := UInt8.toNat_ofNat'
    rw [littleEndian, ofLittleEndian, ih higher, lowest]
    omega

variable {Visit : Type} {fixed : Nat}

/-- Visit the records between a position and the end. `visit` gives what is seen at a
position and how many bytes the record has behind its fixed part; it has no result
where the record cannot be read. -/
def walk (positive : 0 < fixed) (visit : Nat → Option (Visit × Nat)) (stop ptr : Nat) :
    Option (List Visit) :=
  if ptr < stop then
    match visit ptr with
    | none => none
    | some (seen, len) => (walk positive visit stop (ptr + (fixed + len))).map (seen :: ·)
  else some []
termination_by stop - ptr

/-- Records from one position to another, with what a visit sees of each. -/
inductive Laid (fixed : Nat) (visit : Nat → Option (Visit × Nat)) : Nat → List Visit → Nat → Prop where
  | nil (ptr : Nat) : Laid fixed visit ptr [] ptr
  | cons {ptr len stop : Nat} {seen : Visit} {later : List Visit}
    (read : visit ptr = some (seen, len)) (rest : Laid fixed visit (ptr + (fixed + len)) later stop) :
    Laid fixed visit ptr (seen :: later) stop

theorem Laid.le {visit : Nat → Option (Visit × Nat)} {ptr stop : Nat} {seen : List Visit}
    (laid : Laid fixed visit ptr seen stop) : ptr + fixed * seen.length ≤ stop := by
  induction laid with
  | nil ptr => simp
  | cons read rest ih =>
    rw [List.length_cons, Nat.mul_succ]
    omega

/-- The loop visits the records in order, and ends. -/
theorem Laid.walk (positive : 0 < fixed) {visit : Nat → Option (Visit × Nat)} {ptr stop : Nat}
    {seen : List Visit} (laid : Laid fixed visit ptr seen stop) :
    walk positive visit stop ptr = some seen := by
  induction laid with
  | nil ptr => rw [Foundation.walk, if_neg (Nat.lt_irrefl ptr)]
  | @cons ptr len stop seen later read rest ih =>
    have inside : ptr < stop := by
      have behind := rest.le
      omega
    rw [Foundation.walk, if_pos inside, read]
    simp only [ih, Option.map_some]

end LinuxProgramming.Foundation
