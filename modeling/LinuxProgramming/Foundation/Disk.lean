import LinuxProgramming.Foundation.CString

/-! Files with contents, reached by path.

A path stands for the directory entry that it resolves to, so two paths may
name one file. Reads and writes go to the file that was opened, not to its path.
-/

set_option autoImplicit false

namespace LinuxProgramming.Foundation

abbrev Inode := Nat

/-- Every file with a path has a number below `next`. -/
structure Disk where
  entry : String → Option Inode
  content : Inode → List Byte
  next : Inode
  used : ∀ path inode, entry path = some inode → inode < next

namespace Disk

def store (disk : Disk) (inode : Inode) (bytes : List Byte) : Disk :=
  { disk with content := Function.update disk.content inode bytes }

/-- A new empty file at a path. -/
def create (disk : Disk) (path : String) : Disk where
  entry := Function.update disk.entry path (some disk.next)
  content := Function.update disk.content disk.next []
  next := disk.next + 1
  used other inode found := by
    by_cases same : other = path
    · rw [same, Function.update_self, Option.some.injEq] at found
      exact found ▸ Nat.lt_succ_self disk.next
    · rw [Function.update_of_ne same] at found
      exact Nat.lt_succ_of_lt (disk.used other inode found)

/-- `open` with `O_CREAT | O_TRUNC`: the file with nothing in it. -/
def openTruncate (disk : Disk) (path : String) : Disk × Inode :=
  match disk.entry path with
  | some inode => (disk.store inode [], inode)
  | none => (disk.create path, disk.next)

/-- At most `count` bytes from the offset on; none at the end of the file. -/
def read (disk : Disk) (inode : Inode) (offset count : Nat) : List Byte :=
  ((disk.content inode).drop offset).take count

/-- Write at an offset; a gap after the end of the file is filled with zeros. -/
def write (disk : Disk) (inode : Inode) (offset : Nat) (bytes : List Byte) : Disk :=
  let old := disk.content inode
  disk.store inode
    (old.take offset ++ List.replicate (offset - old.length) 0 ++ bytes ++ old.drop (offset + bytes.length))

def ftruncate (disk : Disk) (inode : Inode) (size : Nat) : Disk :=
  let old := disk.content inode
  disk.store inode (old.take size ++ List.replicate (size - old.length) 0)

/-- What the path names, if anything. -/
def file (disk : Disk) (path : String) : Option (List Byte) := (disk.entry path).map disk.content

variable {disk : Disk} {path : String} {inode other : Inode}

@[simp] theorem store_entry (bytes : List Byte) : (disk.store inode bytes).entry = disk.entry := rfl

@[simp] theorem store_content (bytes : List Byte) : (disk.store inode bytes).content inode = bytes := by
  simp [store]

theorem store_other (bytes : List Byte) (different : other ≠ inode) :
    (disk.store inode bytes).content other = disk.content other := by
  simp [store, different]

theorem store_self : disk.store inode (disk.content inode) = disk := by
  simp [store]

@[simp] theorem store_store (first second : List Byte) :
    (disk.store inode first).store inode second = disk.store inode second := by
  simp [store]

/-- A read that returns nothing is at the end. -/
theorem read_eq_nil {offset count : Nat} (positive : 0 < count) :
    disk.read inode offset count = [] ↔ (disk.content inode).length ≤ offset := by
  rw [read, List.take_eq_nil_iff, List.drop_eq_nil_iff]
  omega

/-- What a read returns continues what was read before it. -/
theorem take_append_read (offset count : Nat) :
    (disk.content inode).take offset ++ disk.read inode offset count =
      (disk.content inode).take (offset + (disk.read inode offset count).length) := by
  rw [List.take_add, read]
  congr 1
  rw [List.length_take, List.take_eq_take_min]

theorem read_length_le {offset : Nat} (count : Nat) (within : offset ≤ (disk.content inode).length) :
    offset + (disk.read inode offset count).length ≤ (disk.content inode).length := by
  rw [read, List.length_take, List.length_drop]
  omega

/-- Truncation gives the path an empty file. -/
theorem openTruncate_entry (disk : Disk) (path : String) :
    (disk.openTruncate path).1.entry path = some (disk.openTruncate path).2 := by
  unfold openTruncate
  split
  next found => exact found
  next => simp [create]

theorem openTruncate_content (disk : Disk) (path : String) :
    (disk.openTruncate path).1.content (disk.openTruncate path).2 = [] := by
  unfold openTruncate
  split <;> simp [create]

/-- A file that is not the one at the path keeps its content. -/
theorem openTruncate_other (used : inode < disk.next) (different : disk.entry path ≠ some inode) :
    (disk.openTruncate path).1.content inode = disk.content inode ∧
      inode ≠ (disk.openTruncate path).2 := by
  unfold openTruncate
  split
  next found entry =>
    have unequal : inode ≠ found := by
      rintro rfl
      exact different entry
    exact ⟨store_other [] unequal, unequal⟩
  next =>
    have fresh : inode ≠ disk.next := Nat.ne_of_lt used
    exact ⟨by simp [create, fresh], fresh⟩

theorem write_end (bytes : List Byte) {offset : Nat} (position : (disk.content inode).length = offset) :
    disk.write inode offset bytes = disk.store inode (disk.content inode ++ bytes) := by
  subst position
  have rest : (disk.content inode).drop ((disk.content inode).length + bytes.length) = [] := by
    rw [List.drop_eq_nil_iff]
    omega
  simp [write, rest]

/-- Growing an empty file fills it with zeros. -/
theorem ftruncate_empty (size : Nat) (empty : disk.content inode = []) :
    disk.ftruncate inode size = disk.store inode (List.replicate size 0) := by
  simp [ftruncate, empty]

/-- A write from the start to the end replaces the content. -/
theorem write_whole (bytes : List Byte) (size : (disk.content inode).length = bytes.length) :
    disk.write inode 0 bytes = disk.store inode bytes := by
  have rest : (disk.content inode).drop bytes.length = [] := by
    rw [List.drop_eq_nil_iff]
    omega
  simp [write, rest]

end Disk

end LinuxProgramming.Foundation
