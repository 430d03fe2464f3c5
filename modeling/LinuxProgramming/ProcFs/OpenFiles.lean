import LinuxProgramming.ProcFs.Entries
import LinuxProgramming.Foundation.Splits
import Mathlib.Data.List.Perm.Basic

/-! The search for the processes that have a file open.

The search goes through the `fd` directories of the processes. An `fd` directory that
cannot be opened ends the whole search, so a file shows exactly as long as no process
has it open that comes behind.
-/

set_option autoImplicit false

namespace LinuxProgramming.ProcFs
open Foundation

/-- What a link in an `fd` directory leads to. -/
structure Target where
  text : List Byte
  plain : NUL ∉ text
  short : text.length < 511

/-- An entry of an `fd` directory. A descriptor that was closed since has no target. -/
inductive FdEntry where
  | dots (name : List Byte)
  | link (fd : Nat) (target : Option Target)

namespace FdEntry

def d_name : FdEntry → List Byte
  | .dots name => name
  | .link fd _ => decimal fd

def d_type : FdEntry → Nat
  | .dots _ => DT_DIR
  | .link _ _ => DT_LNK

/-- What `readlink` stores, into an array with room for `size` characters. -/
def readlink (entry : FdEntry) (size : Nat) : Option (List Byte) :=
  match entry with
  | .dots _ => none
  | .link _ target => target.map fun target => target.text.take size

end FdEntry

/-- A line of the output. -/
structure OpenFile where
  pid : List Byte
  fd : List Byte
  targetFile : List Byte
  deriving DecidableEq, Repr

/-- The entry of an `fd` directory. The string is what stands before the NUL that is
stored behind the target. -/
def inspectEntry (filePath d_name : List Byte) (fdEntry : FdEntry) : List OpenFile :=
  if fdEntry.d_type = DT_LNK then
    match fdEntry.readlink (512 - 1) with
    | none => []
    | some target =>
      let targetPath := cstr (target ++ [NUL])
      if strcmp targetPath filePath = .eq then [⟨d_name, fdEntry.d_name, targetPath⟩] else []
  else []

/-- The loop over `/proc`. -/
def inspectLoop (filePath : List Byte) : List (Entry (List FdEntry)) → List OpenFile
  | [] => []
  | entry :: entries =>
    if entry.isProcess then
      match entry.inside with
      -- The source returns here, and not only from this process.
      | none => []
      | some fds =>
        fds.flatMap (inspectEntry filePath entry.d_name) ++ inspectLoop filePath entries
    else inspectLoop filePath entries

/-- The search ends the process if `/proc` cannot be opened. -/
def inspectFD (filePath : List Byte) (dir : Option (List (Entry (List FdEntry)))) :
    Option (List OpenFile) :=
  dir.map (inspectLoop filePath)

/-! What the search is for. -/

/-- The line for an entry of an `fd` directory, where it is due. -/
def openFile (path : List Byte) (pid : Nat) : FdEntry → List OpenFile
  | .link fd (some target) =>
    if target.text = path then [⟨decimal pid, decimal fd, target.text⟩] else []
  | _ => []

/-- The lines that are due for an entry of `/proc`. -/
def openFiles (path : List Byte) : Entry (List FdEntry) → List OpenFile
  | .process pid _ _ (some fds) => fds.flatMap (openFile path pid)
  | _ => []

/-- A process with a directory that cannot be opened. -/
def Unreadable : Entry (List FdEntry) → Prop
  | .process _ _ _ none => True
  | _ => False

/-- A process with a descriptor for the path, in a directory that can be read. -/
def Opens (path : List Byte) : Entry (List FdEntry) → Prop
  | .process _ _ _ (some fds) => ∃ fd target, .link fd (some target) ∈ fds ∧ target.text = path
  | _ => False

theorem openFiles_eq_nil_iff {path : List Byte} {entry : Entry (List FdEntry)} :
    openFiles path entry = [] ↔ ¬ Opens path entry := by
  match entry with
  | .other _ _ _ | .process _ _ _ none => simp [openFiles, Opens]
  | .process pid _ _ (some fds) =>
    rw [openFiles, List.flatMap_eq_nil_iff, Opens]
    constructor
    · rintro none_due ⟨fd, target, member, same⟩
      have due := none_due _ member
      rw [openFile, if_pos same] at due
      cases due
    · intro closed fdEntry member
      cases fdEntry with
      | dots name => rfl
      | link fd target =>
        cases target with
        | none => rfl
        | some target =>
          rw [openFile, if_neg]
          exact fun same => closed ⟨fd, target, member, same⟩

theorem inspectEntry_eq (path : List Byte) (pid : Nat) (fdEntry : FdEntry) :
    inspectEntry path (decimal pid) fdEntry = openFile path pid fdEntry := by
  match fdEntry with
  | .dots _ | .link _ none => rfl
  | .link fd (some target) =>
    have whole : target.text.take (512 - 1) = target.text :=
      List.take_of_length_le (Nat.le_of_lt target.short)
    simp only [inspectEntry, FdEntry.d_type, FdEntry.readlink, Option.map_some, whole,
      cstr_append_NUL target.plain, strcmp_eq_iff, FdEntry.d_name, openFile, if_true]

/-- A process that can be inspected has its lines, and the loop goes on. -/
theorem inspectLoop_process (path : List Byte) {pid : Nat} (positive : 0 < pid)
    (bounded : pid < 2 ^ 31) (fds : List FdEntry) (entries : List (Entry (List FdEntry))) :
    inspectLoop path (.process pid positive bounded (some fds) :: entries) =
      openFiles path (.process pid positive bounded (some fds)) ++ inspectLoop path entries := by
  have lines : inspectEntry path (decimal pid) = openFile path pid :=
    funext (inspectEntry_eq path pid)
  rw [inspectLoop, if_pos (Entry.isProcess_process pid positive bounded (some fds))]
  simp only [Entry.inside, Entry.d_name, lines, openFiles]

/-- The first process that cannot be inspected ends the loop. -/
theorem inspectLoop_unreadable (path : List Byte) {process : Entry (List FdEntry)}
    (unreadable : Unreadable process) (entries : List (Entry (List FdEntry))) :
    inspectLoop path (process :: entries) = [] := by
  match process with
  | .process pid positive bounded none =>
    rw [inspectLoop, if_pos (Entry.isProcess_process pid positive bounded none)]
    rfl

theorem inspectLoop_readable (path : List Byte) {entry : Entry (List FdEntry)}
    (readable : ¬ Unreadable entry) (entries : List (Entry (List FdEntry))) :
    inspectLoop path (entry :: entries) = openFiles path entry ++ inspectLoop path entries := by
  match entry with
  | .other name type skipped =>
    rw [inspectLoop, Entry.isProcess_other, if_neg Bool.false_ne_true]
    rfl
  | .process _ _ _ none => exact absurd trivial readable
  | .process pid positive bounded (some fds) =>
    exact inspectLoop_process path positive bounded fds entries

/-- What the loop has shown is missing exactly the lines behind an unreadable process. -/
theorem inspectLoop_perm_iff (path : List Byte) (entries : List (Entry (List FdEntry))) :
    (inspectLoop path entries).Perm (entries.flatMap (openFiles path)) ↔
      ∀ before process after, entries = before ++ process :: after → Unreadable process →
        ∀ entry ∈ after, ¬ Opens path entry := by
  induction entries with
  | nil => exact iff_of_true .nil splits_nil
  | cons entry entries ih =>
    rw [splits_cons_iff]
    by_cases unreadable : Unreadable entry
    · have due : openFiles path entry = [] := by
        match entry with
        | .process _ _ _ none => rfl
      rw [inspectLoop_unreadable path unreadable, List.flatMap_cons, due, List.nil_append,
        List.nil_perm, List.flatMap_eq_nil_iff]
      constructor
      · intro none_due
        have closed : ∀ other ∈ entries, ¬ Opens path other :=
          fun other member => openFiles_eq_nil_iff.mp (none_due other member)
        refine ⟨fun _ => closed, fun before process after split _ other member => ?_⟩
        rw [split] at closed
        exact closed other (List.mem_append_right before (List.mem_cons_of_mem process member))
      · rintro ⟨closed, _⟩ other member
        exact openFiles_eq_nil_iff.mpr (closed unreadable other member)
    · rw [inspectLoop_readable path unreadable, List.flatMap_cons, List.perm_append_left_iff, ih,
        and_iff_right fun other => absurd other unreadable]

/-- The search is complete as long as no process has the file open that comes behind an
unreadable one. -/
theorem inspectFD_complete_iff (path : List Byte) (entries : List (Entry (List FdEntry))) :
    (∃ lines, inspectFD path (some entries) = some lines ∧
      lines.Perm (entries.flatMap (openFiles path))) ↔
      ∀ before process after, entries = before ++ process :: after → Unreadable process →
        ∀ entry ∈ after, ¬ Opens path entry := by
  rw [← inspectLoop_perm_iff]
  constructor
  · rintro ⟨lines, printed, same⟩
    rwa [Option.some.inj printed]
  · intro same
    exact ⟨_, rfl, same⟩

/-- Process 2 belongs to somebody else, and process 3 has the file open. -/
def hidden : List (Entry (List FdEntry)) :=
  [.process 2 Nat.two_pos (by decide) none,
   .process 3 (Nat.succ_pos 2) (by decide)
    (some [.link 0 (some ⟨['/'.toUInt8, 'f'.toUInt8], by decide, by decide⟩)])]

theorem inspectFD_hidden : ¬ ∃ lines, inspectFD ['/'.toUInt8, 'f'.toUInt8] (some hidden) =
    some lines ∧ lines.Perm (hidden.flatMap (openFiles ['/'.toUInt8, 'f'.toUInt8])) := by
  rintro ⟨lines, printed, same⟩
  have count := same.length_eq
  rw [← Option.some.inj printed] at count
  revert count
  decide

end LinuxProgramming.ProcFs
