import LinuxProgramming.CustomPopen.Streams
import LinuxProgramming.Foundation.Process

/-! The two ends of the pipe of `custom_popen`, in the caller and in the command.

Both processes close one end before they look at the mode, which is the right one
for reading only. A call that fails behind the first system call leaves what the
calls before it have made.
-/

set_option autoImplicit false

namespace LinuxProgramming.CustomPopen.Ends
open Foundation

def STDIN_FILENO : Nat := 0
def STDOUT_FILENO : Nat := 1

def ENOMEM : Nat := 12

/-- The vector of the shell that runs a command. -/
def shell (command : String) : List (Option String) :=
  [some "sh", some "-c", some command, none]

/-- `execl("/bin/sh", "sh", "-c", command, (char *)0)` -/
def execl (command : String) : System Unit := System.execvp (shell command)

/-- `fdopen` looks whether the descriptor is open; it can also run out of memory. -/
def fdopen (fails : Bool) (fd : Nat) : System Bool := fun _ process =>
  match process.fds.file fd with
  | none => [.running false { process with errno := EBADF }]
  | some _ =>
    if fails then [.running false { process with errno := ENOMEM }] else [.running true process]

/-- The case of the child. -/
def popenChild (command : String) (mode : List Byte) (read write : Nat) : System (Option Nat) := do
  let _ ← System.close read
  if strcmp mode readMode = .eq then
    let _ ← System.dup2 write STDOUT_FILENO
    let _ ← System.close write
    execl command
    System.exit 1
  else if strcmp mode writeMode = .eq then
    -- This end was closed above.
    let _ ← System.dup2 read STDIN_FILENO
    let _ ← System.close read
    execl command
    System.exit 1
  else
    System.perror "Invalid mode"
    System.exit 1

/-- The case of the parent; the stream is the descriptor that it is made of. -/
def popenParent (fdopenFails : Bool) (mode : List Byte) (read write : Nat) :
    System (Option Nat) := do
  let _ ← System.close write
  if strcmp mode readMode = .eq then
    if ← fdopen fdopenFails read then return some read
    else
      System.perror "fdopen error"
      let _ ← System.close read
      return none
  else if strcmp mode writeMode = .eq then
    if ← fdopen fdopenFails write then return some write
    else
      System.perror "fdopen error"
      let _ ← System.close write
      return none
  else
    System.perror "Invalid mode"
    return none

def custom_popen (fdopenFails : Bool) (command : String) (mode : List Byte) :
    System (Option Nat) := do
  match ← System.pipe with
  | none =>
    System.perror "pipe error"
    return none
  | some (read, write) =>
    match ← System.fork with
    | .failed =>
      System.perror "fork error"
      return none
    | .child => popenChild command mode read write
    | .parent _ => popenParent fdopenFails mode read write

/-- The stream in the caller and the standard descriptor of the command are the ends of
a new pipe; all other descriptors are those of the caller before the call. -/
def Connects (process : Process) (command : String) (own other : Side) (standard : Nat)
    (lives : List (Life (Option Nat))) : Prop :=
  ∃ fd name caller child, lives = [.running (some fd) caller, .executing child] ∧
    process.fds.file fd = none ∧
    caller.fds.file = Function.update process.fds.file fd (some (.pipe name own)) ∧
    child.execs = [⟨shell command, child.fds⟩] ∧
    child.fds.file = Function.update process.fds.file standard (some (.pipe name other))

/-- Where NULL is returned, there is no child, and the descriptors are those before. -/
def LeavesNoTrace (process : Process) (lives : List (Life (Option Nat))) : Prop :=
  ∀ caller others, lives = .running none caller :: others →
    others = [] ∧ caller.fds.file = process.fds.file

/-- The system calls that can fail all succeed. -/
structure Succeeds (oracle : Oracle) (process : Process) (fdopenFails : Bool) : Prop where
  pipe : oracle process.pid process.calls .pipe = none
  fork : oracle process.pid (process.calls + 1) .fork = none
  fdopen : fdopenFails = false
  execl : ∀ calls, oracle (process.pid ++ [process.calls + 1]) calls .execvp = none

/-- The stream is connected, or there is no trace of the call. -/
structure Right (oracle : Oracle) (process : Process) (fdopenFails : Bool) (command : String)
    (mode : List Byte) : Prop where
  reads : Succeeds oracle process fdopenFails → mode = readMode →
    Connects process command .read .write STDOUT_FILENO
      (custom_popen fdopenFails command mode oracle process)
  writes : Succeeds oracle process fdopenFails → mode = writeMode →
    Connects process command .write .read STDIN_FILENO
      (custom_popen fdopenFails command mode oracle process)
  fails : LeavesNoTrace process (custom_popen fdopenFails command mode oracle process)

variable {oracle : Oracle} {process : Process}

/-- The child never comes back as two processes. -/
theorem sequential_popenChild (command : String) (mode : List Byte) (read write : Nat) :
    System.Sequential (popenChild command mode read write) := by
  have exits : System.Sequential (do execl command; System.exit 1 : System (Option Nat)) :=
    (System.sequential_execvp (shell command)).bind fun _ => System.sequential_exit 1
  refine (System.sequential_close read).bind fun _ => ?_
  split
  · exact (System.sequential_dup2 write STDOUT_FILENO).bind fun _ =>
      (System.sequential_close write).bind fun _ => exits
  · split
    · exact (System.sequential_dup2 read STDIN_FILENO).bind fun _ =>
        (System.sequential_close read).bind fun _ => exits
    · exact (System.sequential_perror "Invalid mode").bind fun _ => System.sequential_exit 1

theorem fdopen_open {fd : Nat} (opened : process.fds.file fd ≠ none) :
    fdopen false fd oracle process = [.running true process] := by
  obtain ⟨file, same⟩ := Option.ne_none_iff_exists'.mp opened
  simp [fdopen, same]

/-- A stream is refused for a closed descriptor, as for want of memory. -/
theorem fdopen_refused {fails : Bool} {fd : Nat}
    (refused : process.fds.file fd = none ∨ fails = true) :
    ∃ error, fdopen fails fd oracle process = [.running false { process with errno := error }] := by
  cases file : process.fds.file fd with
  | none => exact ⟨EBADF, by simp [fdopen, file]⟩
  | some opened =>
    have denied : fails = true := refused.resolve_left (by simp [file])
    exact ⟨ENOMEM, by simp [fdopen, file, denied]⟩

/-- What follows a refused stream: the text, and the descriptor that is closed. -/
theorem refused_none (fails : Bool) (fd closing : Nat)
    (refused : process.fds.file fd = none ∨ fails = true) :
    ∃ caller, (do
      if ← fdopen fails fd then return some fd
      else
        System.perror "fdopen error"
        let _ ← System.close closing
        return none : System (Option Nat)) oracle process = [.running none caller] := by
  obtain ⟨error, ran⟩ := @fdopen_refused oracle process fails fd refused
  rw [System.bind_running ran]
  simp only [Bool.false_eq_true, ↓reduceIte]
  generalize { process with errno := error } = after
  have told : System.perror "fdopen error" oracle after =
    [.running () { after with stderr := after.stderr ++ ["fdopen error"] }] := rfl
  rw [System.bind_running told]
  obtain ⟨value, caller, closed⟩ : ∃ value caller, System.close closing oracle
      { after with stderr := after.stderr ++ ["fdopen error"] } = [.running value caller] := by
    unfold System.close
    split
    · exact ⟨_, _, rfl⟩
    · split <;> exact ⟨_, _, rfl⟩
  rw [System.bind_running closed]
  exact ⟨caller, rfl⟩

/-- The parent has a stream exactly as the calls of `custom_popen` say that it has. -/
theorem popenParent_stream (closes : oracle.Grants .close) {read write : Nat}
    (reading : process.fds.file read ≠ none) (writing : process.fds.file write ≠ none)
    (apart : read ≠ write) (mode : List Byte) (fdopenFails : Bool) :
    ∃ caller, popenParent fdopenFails mode read write oracle process =
        [.running (if makesStream mode fdopenFails then some read else none) caller] ∧
      (makesStream mode fdopenFails = true →
        caller.fds.file = Function.update process.fds.file write none) := by
  have closed : (process.succeed (process.fds.close write)).fds.file write = none := by simp
  have still : (process.succeed (process.fds.close write)).fds.file read ≠ none := by
    simpa [apart] using reading
  rw [popenParent, System.bind_running (System.close_granted closes writing)]
  by_cases reads : mode = readMode
  · simp only [strcmp_eq_iff, reads, ↓reduceIte]
    cases fdopenFails with
    | false =>
      have stream : makesStream readMode false = true := makesStream_iff.mpr ⟨rfl, rfl⟩
      rw [System.bind_running (fdopen_open still), stream]
      exact ⟨_, rfl, fun _ => rfl⟩
    | true =>
      have none_made : makesStream readMode true = false := by decide
      obtain ⟨caller, ran⟩ := @refused_none oracle _ true read read (.inr rfl)
      rw [none_made]
      exact ⟨caller, ran, fun made => by cases made⟩
  · have none_made : makesStream mode fdopenFails = false :=
      Bool.eq_false_iff.mpr fun made => reads (makesStream_iff.mp made).1
    rw [none_made]
    simp only [strcmp_eq_iff, reads, ↓reduceIte]
    by_cases writes : mode = writeMode
    · simp only [writes, ↓reduceIte]
      obtain ⟨caller, ran⟩ := @refused_none oracle _ fdopenFails write write (.inl closed)
      exact ⟨caller, ran, fun made => by cases made⟩
    · simp only [writes, ↓reduceIte]
      exact ⟨_, rfl, fun made => by cases made⟩

/-- The two descriptors of a new pipe, both of which were free. -/
structure PipeEnds (process : Process) (write : Nat) (table : Foundation.Table File) : Prop where
  apart : write ≠ process.fds.lowest
  free : process.fds.file write = none
  other : ∀ fd, process.fds.file fd ≠ none → write ≠ fd
  file : table.file = Function.update (Function.update process.fds.file process.fds.lowest
    (some (.pipe ⟨process.pid, process.calls⟩ .read))) write
    (some (.pipe ⟨process.pid, process.calls⟩ .write))

theorem PipeEnds.read_file {write : Nat} {table : Foundation.Table File}
    (ends : PipeEnds process write table) :
    table.file process.fds.lowest = some (.pipe ⟨process.pid, process.calls⟩ .read) := by
  rw [ends.file, Function.update_of_ne ends.apart.symm, Function.update_self]

theorem PipeEnds.write_file {write : Nat} {table : Foundation.Table File}
    (ends : PipeEnds process write table) :
    table.file write = some (.pipe ⟨process.pid, process.calls⟩ .write) := by
  rw [ends.file, Function.update_self]

theorem pipe_made (made : oracle process.pid process.calls .pipe = none) :
    ∃ write table, PipeEnds process write table ∧
      System.pipe oracle process =
        [.running (some (process.fds.lowest, write)) (process.succeed table)] := by
  let reading := process.fds.install process.fds.lowest (.pipe ⟨process.pid, process.calls⟩ .read)
  have apart : reading.lowest ≠ process.fds.lowest := Table.lowest_ne (by simp [reading])
  refine ⟨reading.lowest, reading.install reading.lowest (.pipe ⟨process.pid, process.calls⟩ .write),
    ⟨apart, ?_, fun fd opened => Table.lowest_ne ?_, rfl⟩, ?_⟩
  · simpa [reading, apart] using reading.lowest_free
  · have other : fd ≠ process.fds.lowest := (Table.lowest_ne opened).symm
    simpa [reading, other] using opened
  · simp only [System.pipe, made]
    rfl

/-- Both processes behind a fork, with both ends of the pipe open. -/
theorem custom_popen_forked (made : oracle process.pid process.calls .pipe = none)
    (forks : oracle process.pid (process.calls + 1) .fork = none) (fdopenFails : Bool)
    (command : String) (mode : List Byte) :
    ∃ write table, PipeEnds process write table ∧
      custom_popen fdopenFails command mode oracle process =
        popenParent fdopenFails mode process.fds.lowest write oracle
            ((process.succeed table).succeed table) ++
          popenChild command mode process.fds.lowest write oracle (process.succeed table).child := by
  obtain ⟨write, table, ends, piped⟩ := pipe_made made
  have forked : System.fork oracle (process.succeed table) =
      [.running (.parent (process.succeed table).child.pid) ((process.succeed table).succeed table),
        .running .child (process.succeed table).child] := by
    simp only [System.fork, Process.succeed, forks]
  refine ⟨write, table, ends, ?_⟩
  rw [custom_popen, System.bind_running piped]
  simp only
  rw [System.bind_run, forked]
  simp only [List.flatMap_cons, List.flatMap_nil, System.andThen, List.append_nil]

/-- The child for reading runs the command with its end as standard output. -/
theorem popenChild_reads (closes : oracle.Grants .close) (dups : oracle.Grants .dup2)
    (executes : ∀ calls, oracle process.pid calls .execvp = none) {read write : Nat} {file : File}
    (reading : process.fds.file read ≠ none) (writing : process.fds.file write = some file)
    (apart : write ≠ read) (command : String) (silent : process.execs = []) :
    ∃ child, popenChild command readMode read write oracle process = [.executing child] ∧
      child.execs = [⟨shell command, child.fds⟩] ∧
      child.fds.file = Function.update (Function.update (Function.update process.fds.file read none)
        STDOUT_FILENO (some file)) write none := by
  obtain ⟨after, pid, execs, moved, ran⟩ :=
    @System.move_end (Option Nat) oracle closes dups process read write file reading writing apart
      STDOUT_FILENO
  have started : execl command oracle after = [.executing (after.execute (shell command))] :=
    System.execvp_executing rfl (by rw [pid, executes])
  refine ⟨after.execute (shell command), ?_, ?_, moved⟩
  · have body := ran (do execl command; System.exit 1)
    rw [popenChild]
    simp only [strcmp_self, ↓reduceIte]
    rw [body, System.bind_run, started]
    rfl
  · rw [Process.execute_execs, execs, silent]
    rfl

theorem exists_refused_pipe {error : Nat}
    (refused : oracle process.pid process.calls .pipe = some error) (fdopenFails : Bool)
    (command : String) (mode : List Byte) :
    ∃ caller, custom_popen fdopenFails command mode oracle process = [.running none caller] ∧
      caller.fds = process.fds := by
  have failed : System.pipe oracle process = [.running none (process.fail error)] := by
    simp only [System.pipe, refused]
  rw [custom_popen, System.bind_running failed]
  exact ⟨_, rfl, rfl⟩

/-- Both ends stay open in the caller where it cannot fork. -/
theorem exists_refused_fork {error : Nat} (made : oracle process.pid process.calls .pipe = none)
    (refused : oracle process.pid (process.calls + 1) .fork = some error) (fdopenFails : Bool)
    (command : String) (mode : List Byte) :
    ∃ caller, custom_popen fdopenFails command mode oracle process = [.running none caller] ∧
      caller.fds.file process.fds.lowest ≠ none := by
  obtain ⟨write, table, ends, piped⟩ := pipe_made made
  have failed : System.fork oracle (process.succeed table) =
      [.running .failed ((process.succeed table).fail error)] := by
    simp only [System.fork, Process.succeed, refused]
  refine ⟨{ (process.succeed table).fail error with
    stderr := ((process.succeed table).fail error).stderr ++ ["fork error"] }, ?_, ?_⟩
  · rw [custom_popen, System.bind_running piped]
    simp only
    rw [System.bind_running failed]
    rfl
  · have opened := ends.read_file
    simp [Process.fail, opened]

/-- Where the call meets no failure, and in mode "r" only, the stream is connected. -/
theorem connects_reading (closes : oracle.Grants .close) (dups : oracle.Grants .dup2)
    (output : process.fds.file STDOUT_FILENO ≠ none) {fdopenFails : Bool}
    (succeeds : Succeeds oracle process fdopenFails) (command : String) :
    Connects process command .read .write STDOUT_FILENO
      (custom_popen fdopenFails command readMode oracle process) := by
  obtain ⟨write, table, ends, run⟩ :=
    custom_popen_forked succeeds.pipe succeeds.fork fdopenFails command readMode
  have reading : table.file process.fds.lowest ≠ none := by simp [ends.read_file]
  have writing : table.file write ≠ none := by simp [ends.write_file]
  obtain ⟨caller, parent, closed⟩ := @popenParent_stream oracle
    ((process.succeed table).succeed table) closes _ _ reading writing ends.apart.symm readMode
    fdopenFails
  obtain ⟨child, executing, execs, moved⟩ := @popenChild_reads oracle (process.succeed table).child
    closes dups succeeds.execl _ _ _ reading ends.write_file ends.apart command rfl
  have stream : makesStream readMode fdopenFails = true := makesStream_iff.mpr ⟨rfl, succeeds.fdopen⟩
  rw [stream] at parent
  refine ⟨process.fds.lowest, ⟨process.pid, process.calls⟩, caller, child, ?_,
    process.fds.lowest_free, ?_, execs, ?_⟩
  · rw [run, parent, executing]
    rfl
  · rw [closed stream]
    -- The end for writing was free before, and is closed again.
    have back : Function.update process.fds.file write none = process.fds.file :=
      Function.update_eq_self_iff.mpr ends.free.symm
    simp only [Process.succeed_fds, ends.file, Function.update_idem]
    rw [Function.update_comm ends.apart.symm, back]
  · have read_ne : process.fds.lowest ≠ STDOUT_FILENO := Table.lowest_ne output
    have write_ne : write ≠ STDOUT_FILENO := ends.other STDOUT_FILENO output
    rw [moved]
    simp only [Process.child_fds, Process.succeed_fds, ends.file]
    exact Table.update_between process.fds.lowest_free ends.free read_ne write_ne _ _ rfl _

/-- The stream is connected or the call leaves no trace, exactly if the pipe is refused,
or the mode is "r" and neither the fork nor the stream is refused. -/
theorem custom_popen_right_iff (closes : oracle.Grants .close) (dups : oracle.Grants .dup2)
    (output : process.fds.file STDOUT_FILENO ≠ none) (fdopenFails : Bool) (command : String)
    (mode : List Byte) :
    Right oracle process fdopenFails command mode ↔
      oracle process.pid process.calls .pipe ≠ none ∨
        mode = readMode ∧ oracle process.pid (process.calls + 1) .fork = none ∧
          fdopenFails = false := by
  cases piped : oracle process.pid process.calls .pipe with
  | some error =>
    refine iff_of_true ?_ (.inl (by simp))
    obtain ⟨caller, run, same⟩ := exists_refused_pipe piped fdopenFails command mode
    have never : ¬ Succeeds oracle process fdopenFails := by
      intro succeeds
      rw [succeeds.pipe] at piped
      cases piped
    refine ⟨fun succeeds => (never succeeds).elim, fun succeeds => (never succeeds).elim, ?_⟩
    intro after others lives
    rw [run] at lives
    cases lives
    exact ⟨rfl, congrArg Table.file same⟩
  | none =>
    rw [or_iff_right (by simp)]
    cases forked : oracle process.pid (process.calls + 1) .fork with
    | some error =>
      refine iff_of_false (fun right => ?_) (by simp)
      obtain ⟨caller, run, opened⟩ := exists_refused_fork piped forked fdopenFails command mode
      have same := (right.fails caller [] run).2
      rw [same, process.fds.lowest_free] at opened
      exact opened rfl
    | none =>
      obtain ⟨write, table, ends, run⟩ := custom_popen_forked piped forked fdopenFails command mode
      have reading : table.file process.fds.lowest ≠ none := by simp [ends.read_file]
      have writing : table.file write ≠ none := by simp [ends.write_file]
      obtain ⟨caller, parent, -⟩ := @popenParent_stream oracle
        ((process.succeed table).succeed table) closes _ _ reading writing ends.apart.symm mode
        fdopenFails
      obtain ⟨life, child⟩ := sequential_popenChild command mode process.fds.lowest write oracle
        (process.succeed table).child
      rw [parent, child] at run
      have stream := @makesStream_iff mode fdopenFails
      simp only [true_and]
      rw [← stream]
      constructor
      · intro right
        by_contra none_made
        rw [Bool.not_eq_true] at none_made
        rw [none_made] at run
        cases (right.fails caller [life] run).1
      · intro made
        obtain ⟨rfl, granted⟩ := stream.mp made
        refine ⟨fun succeeds _ => connects_reading closes dups output succeeds command,
          fun _ writes => absurd writes (by decide), fun after others lives => ?_⟩
        rw [run, made] at lives
        cases lives

/-- No system call is refused. -/
def granting : Oracle := fun _ _ _ => none

/-- A process with the three standard descriptors. -/
def standard : Process := .entering [] ⟨fun fd => if fd ≤ 2 then some (.inherited fd) else none, 3,
  fun _ outside => if_neg (Nat.not_le.mpr outside)⟩

theorem custom_popen_right_reading : Right granting standard false "ls" readMode ↔
    granting standard.pid standard.calls .pipe ≠ none ∨
      readMode = readMode ∧ granting standard.pid (standard.calls + 1) .fork = none ∧
        false = false :=
  custom_popen_right_iff (fun _ _ => rfl) (fun _ _ => rfl) (show _ ≠ none by decide) false "ls"
    readMode

/-- With mode "w" the call fails when all system calls succeed, and leaves its child. -/
theorem custom_popen_writing_fails : ¬ ∀ (oracle : Oracle) (process : Process) (fdopenFails : Bool)
    (command : String) (mode : List Byte), oracle.Grants .close → oracle.Grants .dup2 →
      (∀ fd < 3, process.fds.file fd ≠ none) → Right oracle process fdopenFails command mode := by
  intro always
  have right := always granting standard false "ls" writeMode (fun _ _ => rfl) (fun _ _ => rfl)
    (by decide)
  have alone := (right.fails _ _ rfl).1
  cases alone

end LinuxProgramming.CustomPopen.Ends
