import LinuxProgramming.Foundation.Disk
import LinuxProgramming.Foundation.Fuel

/-! Two programs that copy a file: with `read` and `write`, and through mappings.

Both truncate the destination when they open it, the first before it has read
anything, the second after it has mapped the source but before it copies.
-/

set_option autoImplicit false

namespace LinuxProgramming.FileCopy
open Foundation

def BUFSIZ : Nat := 8192

inductive Call where
  | openSource
  | openTarget
  | read (number : Nat)
  | write (number : Nat)
  | fstat
  | mmapSource
  | mmapTarget
  | ftruncate
  deriving DecidableEq, Repr

/-- What is not decided by the programs: the calls that fail for an external
reason, how much a failing `write` has written, and how `read` splits the source. -/
structure World where
  failing : Call → Bool
  short : Nat → Nat
  split : Nat → Nat

/-- A read returns at least one byte unless the file is at its end. -/
def World.count (world : World) (number : Nat) : Nat := max 1 (min (world.split number) BUFSIZ)

inductive Ending where
  | exited (status : Nat)
  | crashed
  deriving DecidableEq, Repr

/-- How the program ends, what it writes to standard error and the files it leaves. -/
structure Outcome where
  ending : Ending
  complaint : Option String
  disk : Disk

namespace ReadWrite

def errexit (message : String) (disk : Disk) : Outcome := ⟨.exited 1, some message, disk⟩

/-- The loop; both descriptors stand at `offset`, and `calls` reads were made before. -/
def copy (world : World) (source_fd target_fd : Inode) (disk : Disk) (offset calls : Nat) :
    Nat → Option Outcome
  | 0 => none
  | fuel + 1 =>
    if world.failing (.read calls) then some (errexit "Failed to Read !" disk)
    else
      let buffer := disk.read source_fd offset (world.count calls)
      if buffer = [] then some ⟨.exited 0, none, disk⟩
      else if world.failing (.write calls) then
        some (errexit "Failed to Write !"
          (disk.write target_fd offset (buffer.take (world.short calls))))
      else
        copy world source_fd target_fd (disk.write target_fd offset buffer)
          (offset + buffer.length) (calls + 1) fuel

def main (world : World) (disk : Disk) (source target : String) (fuel : Nat) : Option Outcome :=
  match disk.entry source with
  | none => some (errexit "Failed to open the source file !" disk)
  | some source_fd =>
    if world.failing .openSource then some (errexit "Failed to open the source file !" disk)
    else if world.failing .openTarget then some (errexit "Failed to open the target file !" disk)
    else
      let opened := disk.openTruncate target
      copy world source_fd opened.2 opened.1 0 0 fuel

end ReadWrite

namespace Mapped

/-- `perror` and `exit(1)`, with the text that is passed to `perror`. -/
def give_up (message : String) (disk : Disk) : Outcome := ⟨.exited 1, some message, disk⟩

/-- `memcpy` between two shared mappings of `size` bytes, from the start of each
file; it ends with a bus error when the source has become shorter. -/
def memcpy (disk : Disk) (target source : Inode) (size : Nat) : Outcome :=
  if (disk.content source).length < size then ⟨.crashed, none, disk⟩
  else ⟨.exited 0, none, disk.write target 0 ((disk.content source).take size)⟩

def main (world : World) (disk : Disk) : List String → Outcome
  | [_, source, target] =>
    match disk.entry source with
    | none => give_up "open source" disk
    | some fd1 =>
      if world.failing .openSource then give_up "open source" disk
      else if world.failing .fstat then give_up "fstat" disk
      else
        let st_size := (disk.content fd1).length
        -- `mmap` refuses a length of zero.
        if st_size = 0 || world.failing .mmapSource then give_up "mmap" disk
        else if world.failing .openTarget then give_up "open destination" disk
        else
          let opened := disk.openTruncate target
          if world.failing .ftruncate then give_up "ftruncate" opened.1
          else
            let grown := opened.1.ftruncate opened.2 st_size
            -- The second `mmap` is not checked, so its failure shows in `memcpy`.
            if world.failing .mmapTarget then ⟨.crashed, none, grown⟩
            else memcpy grown opened.2 fd1 st_size
  | _ => ⟨.exited 1, none, disk⟩

end Mapped

/-- What a copier is for: success, and the old bytes of the source at the destination. -/
def Copied (disk : Disk) (source target : String) (outcome : Outcome) : Prop :=
  outcome.ending = .exited 0 ∧ outcome.disk.file target = disk.file source

variable {world : World} {disk : Disk} {source target : String}

namespace ReadWrite

/-- The loop between two files, from a point where the target holds what was read so far. -/
theorem copy_distinct (granted : ∀ call, world.failing call = false) {source_fd target_fd : Inode}
    (different : source_fd ≠ target_fd) (disk : Disk) (offset calls : Nat)
    (so_far : disk.content target_fd = (disk.content source_fd).take offset)
    (within : offset ≤ (disk.content source_fd).length) :
    Yields (copy world source_fd target_fd disk offset calls)
      ⟨.exited 0, none, disk.store target_fd (disk.content source_fd)⟩ := by
  -- Every read that is not the last one shortens what is left, so the induction is on that.
  induction left : (disk.content source_fd).length - offset using Nat.strong_induction_on
    generalizing disk offset calls with
  | _ left ih =>
    have positive : 0 < world.count calls := Nat.lt_of_lt_of_le Nat.zero_lt_one (Nat.le_max_left _ _)
    by_cases ended : disk.read source_fd offset (world.count calls) = []
    · have whole : disk.content target_fd = disk.content source_fd := by
        rw [so_far, List.take_of_length_le ((Disk.read_eq_nil positive).mp ended)]
      have unchanged : disk.store target_fd (disk.content source_fd) = disk := by
        rw [← whole, Disk.store_self]
      rw [unchanged]
      exact (Yields.const _).step fun fuel => by simp [copy, granted, ended]
    · have shorter : 0 < (disk.read source_fd offset (world.count calls)).length :=
        List.length_pos_iff.mpr ended
      have bounded := Disk.read_length_le (world.count calls) within
      have position : (disk.content target_fd).length = offset := by
        rw [so_far, List.length_take, Nat.min_eq_left within]
      have written := Disk.write_end (disk.read source_fd offset (world.count calls)) position
      rw [so_far, Disk.take_append_read] at written
      generalize fetched : disk.read source_fd offset (world.count calls) = buffer
        at ended shorter bounded written
      have kept : (disk.write target_fd offset buffer).content source_fd = disk.content source_fd := by
        rw [written, Disk.store_other _ different]
      have rest := ih ((disk.content source_fd).length - (offset + buffer.length)) (by omega)
        (disk.write target_fd offset buffer) (offset + buffer.length) (calls + 1)
        (by rw [kept, written, Disk.store_content]) (by rw [kept]; exact bounded) (by rw [kept])
      rw [kept, written, Disk.store_store] at rest
      exact rest.step fun fuel => by simp [copy, granted, fetched, ended, written]

theorem main_yields (granted : ∀ call, world.failing call = false) {source_fd : Inode}
    (present : disk.entry source = some source_fd) (different : disk.entry target ≠ some source_fd) :
    ∃ outcome, Yields (main world disk source target) outcome ∧ Copied disk source target outcome := by
  obtain ⟨kept, unequal⟩ :=
    Disk.openTruncate_other (disk.used source source_fd present) different
  have copied := copy_distinct granted unequal (disk.openTruncate target).1 0 0
    (by rw [Disk.openTruncate_content, List.take_zero]) (Nat.zero_le _)
  have whole : Yields (main world disk source target)
      ⟨.exited 0, none, (disk.openTruncate target).1.store (disk.openTruncate target).2
        (disk.content source_fd)⟩ := by
    have starts : main world disk source target =
        copy world source_fd (disk.openTruncate target).2 (disk.openTruncate target).1 0 0 := by
      funext fuel
      simp [main, present, granted]
    rw [starts, ← kept]
    exact copied
  refine ⟨_, whole, rfl, ?_⟩
  simp [Disk.file, Disk.openTruncate_entry, present]

/-- A file copied to itself is emptied before it is read. -/
theorem main_same (granted : ∀ call, world.failing call = false) {source_fd : Inode}
    (present : disk.entry source = some source_fd) (same : disk.entry target = some source_fd) :
    Yields (main world disk source target) ⟨.exited 0, none, disk.store source_fd []⟩ := by
  refine (Yields.const _).step fun fuel => ?_
  simp [main, present, granted, Disk.openTruncate, same, copy, Disk.read]

end ReadWrite

namespace Mapped

theorem main_distinct (granted : ∀ call, world.failing call = false) {fd1 : Inode} (name : String)
    (present : disk.entry source = some fd1) (different : disk.entry target ≠ some fd1)
    (filled : disk.content fd1 ≠ []) :
    Copied disk source target (main world disk [name, source, target]) := by
  obtain ⟨kept, unequal⟩ := Disk.openTruncate_other (disk.used source fd1 present) different
  have size : (disk.content fd1).length ≠ 0 := by simpa using filled
  have grown := Disk.ftruncate_empty (disk.content fd1).length
    (Disk.openTruncate_content disk target)
  have mapped : ((disk.openTruncate target).1.store (disk.openTruncate target).2
      (List.replicate (disk.content fd1).length 0)).content fd1 = disk.content fd1 := by
    rw [Disk.store_other _ unequal, kept]
  have ended : main world disk [name, source, target] =
      ⟨.exited 0, none, (disk.openTruncate target).1.store (disk.openTruncate target).2
        (disk.content fd1)⟩ := by
    have zeros : (((disk.openTruncate target).1.store (disk.openTruncate target).2
        (List.replicate (disk.content fd1).length 0)).content (disk.openTruncate target).2).length =
          (disk.content fd1).length := by simp
    have written := Disk.write_whole (disk.content fd1) zeros
    rw [Disk.store_store] at written
    simp [main, present, granted, size, grown, memcpy, mapped, written]
  rw [ended]
  exact ⟨rfl, by simp [Disk.file, Disk.openTruncate_entry, present]⟩

theorem main_empty (granted : ∀ call, world.failing call = false) {fd1 : Inode} (name : String)
    (present : disk.entry source = some fd1) (empty : disk.content fd1 = []) :
    main world disk [name, source, target] = give_up "mmap" disk := by
  simp [main, present, granted, empty]

end Mapped

/-- Both copiers do their work exactly when there is something to copy and the
two paths name different files. -/
theorem copiers_right_iff (granted : ∀ call, world.failing call = false) (name : String)
    (inode : Inode) (present : disk.entry source = some inode) :
    ((∃ outcome, Yields (ReadWrite.main world disk source target) outcome ∧
        Copied disk source target outcome) ∧
      Copied disk source target (Mapped.main world disk [name, source, target])) ↔
    disk.content inode ≠ [] ∧ disk.entry target ≠ some inode := by
  constructor
  · rintro ⟨⟨outcome, yields, copied⟩, mapped⟩
    have filled : disk.content inode ≠ [] := by
      intro empty
      rw [Mapped.main_empty granted name present empty] at mapped
      cases mapped.1
    refine ⟨filled, fun same => filled ?_⟩
    have emptied := yields.unique (ReadWrite.main_same granted present same)
    have left := copied.2
    rw [emptied] at left
    have nothing : [] = disk.content inode := by
      simpa [Disk.file, same, present] using left
    exact nothing.symm
  · rintro ⟨filled, different⟩
    exact ⟨ReadWrite.main_yields granted present different,
      Mapped.main_distinct granted name present different filled⟩

/-- One file `a` with five bytes, of which a read returns two at most, and no calls fail. -/
def single : Disk where
  entry path := if path = "a" then some 0 else none
  content _ := [65, 66, 0, 66, 10]
  next := 1
  used path inode found := by
    split at found
    · cases found
      decide
    · cases found

def willing : World := ⟨fun _ => false, fun _ => 0, fun _ => 2⟩

theorem copiers_right_pieces :
    (∃ outcome, Yields (ReadWrite.main willing single "a" "b") outcome ∧
        Copied single "a" "b" outcome) ∧
      Copied single "a" "b" (Mapped.main willing single ["cp", "a", "b"]) :=
  (copiers_right_iff (fun _ => rfl) "cp" 0 rfl).mpr ⟨by decide, by decide⟩

/-- Copying the file to itself loses its bytes. -/
theorem same_file_not_copied : ∃ outcome, Yields (ReadWrite.main willing single "a" "a") outcome ∧
    single.file "a" = some [65, 66, 0, 66, 10] ∧ outcome.ending = .exited 0 ∧
      outcome.disk.file "a" = some [] := by
  have present : single.entry "a" = some 0 := rfl
  have emptied := ReadWrite.main_same (fun _ => rfl : ∀ call, willing.failing call = false)
    present present
  exact ⟨_, emptied, rfl, rfl, by simp [Disk.file, single]⟩

end LinuxProgramming.FileCopy
