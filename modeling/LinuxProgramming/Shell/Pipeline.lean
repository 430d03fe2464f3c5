import LinuxProgramming.Foundation.Process

/-! The pipeline of the shell.

An argument vector is an array of strings up to a NULL. The shell cuts it at
the first pipe symbol: the running process becomes the command on the left, and
its child goes on with the vector on the right.
-/

set_option autoImplicit false

namespace LinuxProgramming.Shell
open Foundation

/-- The entries of an argument vector, from a pointer into it to the end of its array. -/
abbrev Argv := List (Option String)

/-- A vector with these strings, then NULL, then whatever its array holds behind it. -/
def Holds (argv : Argv) (tokens : List String) : Prop :=
  ∃ rest, argv = tokens.map some ++ none :: rest

/-- The loop of `pipe_present`, at an index. -/
def pipe_presentFrom : Nat → Argv → Int
  | _, [] | _, none :: _ => 0
  | index, some token :: rest =>
    if token = "|" then
      if index = 0 ∨ rest.head? = some none then -1 else index
    else pipe_presentFrom (index + 1) rest

/-- The index of the first pipe symbol, -1 if it is the first or the last entry, 0 if there is none. -/
def pipe_present (myCurrentArgv : Argv) : Int := pipe_presentFrom 0 myCurrentArgv

def EXIT_FAILURE : Nat := 1
def STDIN_FILENO : Nat := 0
def STDOUT_FILENO : Nat := 1

/-- `depth` bounds the recursion; the right part is shorter than the vector. -/
def pipe_and_execWithin : Nat → Argv → System Unit
  | 0, _ => pure ()
  | depth + 1, myArgv => do
    let index := pipe_present myArgv
    if index = -1 then
      System.message "Missing command next to pipe in commandline.\n"
      System.setErrno EINVAL
    else if index = 0 then
      System.execvp myArgv
      System.perror "execvp"
    else
      let left_argv := myArgv.set index.toNat none
      let right_argv := left_argv.drop (index.toNat + 1)
      match ← System.pipe with
      | none =>
        System.perror "pipe"
        System.exit EXIT_FAILURE
      | some (readEnd, writeEnd) =>
        match ← System.fork with
        | .failed =>
          System.perror "fork"
          System.exit EXIT_FAILURE
        | .parent _ =>
          -- The results of these calls are not looked at.
          let _ ← System.close readEnd
          let _ ← System.dup2 writeEnd STDOUT_FILENO
          let _ ← System.close writeEnd
          System.execvp left_argv
          System.perror "execvp"
          System.exit EXIT_FAILURE
        | .child =>
          let _ ← System.close writeEnd
          let _ ← System.dup2 readEnd STDIN_FILENO
          let _ ← System.close readEnd
          pipe_and_execWithin depth right_argv

def pipe_and_exec (myArgv : Argv) : System Unit := pipe_and_execWithin (myArgv.length + 1) myArgv

theorem pipe_presentFrom_absent {argv : Argv} {tokens : List String} (holds : Holds argv tokens)
    (absent : "|" ∉ tokens) (index : Nat) : pipe_presentFrom index argv = 0 := by
  obtain ⟨rest, rfl⟩ := holds
  induction tokens generalizing index with
  | nil => rfl
  | cons token tokens ih =>
    simp only [List.mem_cons, not_or] at absent
    simp [pipe_presentFrom, Ne.symm absent.1, ih absent.2]

theorem pipe_presentFrom_ge (index : Nat) (argv : Argv) : -1 ≤ pipe_presentFrom index argv := by
  induction argv generalizing index with
  | nil => exact Int.le_of_lt (Int.negSucc_lt_zero 0)
  | cons entry rest ih =>
    cases entry with
    | none => exact Int.le_of_lt (Int.negSucc_lt_zero 0)
    | some token =>
      rw [pipe_presentFrom]
      split
      · split <;> omega
      · exact ih (index + 1)

/-- The search stops at the first pipe symbol. -/
theorem pipe_presentFrom_first {left right : List String} (absent : "|" ∉ left) (rest : Argv)
    (index : Nat) :
    pipe_presentFrom index (left.map some ++ some "|" :: (right.map some ++ none :: rest)) =
      if index + left.length = 0 ∨ right = [] then -1 else ((index + left.length : Nat) : Int) := by
  induction left generalizing index with
  | nil => cases right <;> simp [pipe_presentFrom]
  | cons token left ih =>
    simp only [List.mem_cons, not_or] at absent
    simp only [List.map_cons, List.cons_append, pipe_presentFrom, if_neg (Ne.symm absent.1),
      ih absent.2, List.length_cons]
    rw [show index + 1 + left.length = index + (left.length + 1) by omega]

section Stages

variable {oracle : Oracle} {process : Process}

/-- The end of a stage: one call of `execvp`, whether it succeeds or not. -/
theorem execCalls_execvp {argv : Argv} {next : System Unit}
    (quiet : ∀ after, execCalls (next oracle after) = execCalls [Life.running () after]) :
    execCalls ((do System.execvp argv; next) oracle process) =
      List.map (fun exec => (process.pid, exec)) (process.execs ++ [⟨argv, process.fds⟩]) := by
  rw [System.bind_run, System.execvp]
  split
  next => simp [System.andThen]
  next =>
    split
    next => simp [System.andThen, quiet]
    next => simp [System.andThen]

/-- What the four system calls behind a fork need. -/
structure Granted (oracle : Oracle) : Prop where
  pipe : oracle.Grants .pipe
  fork : oracle.Grants .fork
  dup2 : oracle.Grants .dup2
  close : oracle.Grants .close

/-- Both sides of a pipe: the writer runs the left vector, and the reader goes
on with the right one. Each keeps the side it needs in place of its standard
descriptor, and nothing else of the pipe. -/
theorem pipe_and_exec_split (granted : Granted oracle)
    (input : process.fds.file STDIN_FILENO ≠ none)
    (output : process.fds.file STDOUT_FILENO ≠ none) {argv : Argv} {index : Nat}
    (present : pipe_present argv = index) (inside : index ≠ 0) (depth : Nat) :
    ∃ writer reader : Process,
      pipe_and_execWithin (depth + 1) argv oracle process =
        (do System.execvp (argv.set index none); System.perror "execvp"
            System.exit EXIT_FAILURE : System Unit) oracle writer ++
        pipe_and_execWithin depth ((argv.set index none).drop (index + 1)) oracle reader ∧
      writer.pid = process.pid ∧ writer.execs = process.execs ∧
      writer.fds.file = Function.update process.fds.file STDOUT_FILENO
        (some (.pipe ⟨process.pid, process.calls⟩ .write)) ∧
      reader.pid = process.pid ++ [process.calls + 1] ∧ reader.execs = [] ∧
      reader.fds.file = Function.update process.fds.file STDIN_FILENO
        (some (.pipe ⟨process.pid, process.calls⟩ .read)) := by
  have not_missing : (index : Int) ≠ -1 := by omega
  have not_absent : (index : Int) ≠ 0 := by omega
  rw [pipe_and_execWithin]
  simp only [present, if_neg not_missing, if_neg not_absent, Int.toNat_natCast]
  rw [System.bind_running (System.pipe_granted granted.pipe)]
  simp only
  rw [System.bind_run, System.fork_granted granted.fork]
  simp only [List.flatMap_cons, List.flatMap_nil, System.andThen, List.append_nil]
  generalize name_eq : PipeName.mk process.pid process.calls = name
  have read_free := process.fds.lowest_free
  generalize read_eq : process.fds.lowest = readEnd at read_free ⊢
  have write_free := (process.fds.install readEnd (.pipe name .read)).lowest_free
  generalize write_eq : (process.fds.install readEnd (.pipe name .read)).lowest = writeEnd
    at write_free ⊢
  generalize table_eq : (process.fds.install readEnd (.pipe name .read)).install writeEnd
    (.pipe name .write) = table
  have apart : writeEnd ≠ readEnd := by
    rintro rfl
    simp at write_free
  have reading : table.file readEnd = some (.pipe name .read) := by
    simp [← table_eq, apart.symm]
  have writing : table.file writeEnd = some (.pipe name .write) := by
    simp [← table_eq]
  have standard : ∀ {fd}, process.fds.file fd ≠ none → readEnd ≠ fd ∧ writeEnd ≠ fd := by
    intro fd opened
    have read_ne : readEnd ≠ fd := read_eq ▸ Table.lowest_ne opened
    refine ⟨read_ne, write_eq ▸ Table.lowest_ne ?_⟩
    simpa [read_ne.symm] using opened
  have write_was_free : process.fds.file writeEnd = none := by
    simpa [apart] using write_free
  have pair : ({readEnd, writeEnd} : Set Nat) = {writeEnd, readEnd} := Set.pair_comm _ _
  -- Each side closes both ends in its own order; apart from the standard one, nothing changes.
  have restored : ∀ (earlier later target : Nat) (file : File), process.fds.file target ≠ none →
      ({readEnd, writeEnd} : Set Nat) = {earlier, later} →
      Function.update (Function.update (Function.update table.file earlier none)
        target (some file)) later none = Function.update process.fds.file target (some file) := by
    intro earlier later target file opened both
    rw [← table_eq]
    exact Table.update_between read_free write_was_free (standard opened).1 (standard opened).2
      _ _ both _
  obtain ⟨writer, writer_pid, writer_execs, writer_file, writes⟩ :=
    System.move_end granted.close granted.dup2 ((process.succeed table).succeed table) (by simp [reading])
      writing apart STDOUT_FILENO
  obtain ⟨reader, reader_pid, reader_execs, reader_file, reads⟩ :=
    System.move_end granted.close granted.dup2 (process.succeed table).child (by simp [writing])
      reading apart.symm STDIN_FILENO
  refine ⟨writer, reader, ?_, writer_pid, writer_execs, ?_, reader_pid, reader_execs, ?_⟩
  · exact congrArg₂ (· ++ ·) (writes _) (reads _)
  · exact writer_file.trans (restored _ _ _ _ output rfl)
  · exact reader_file.trans (restored _ _ _ _ input pair)

end Stages

end LinuxProgramming.Shell
