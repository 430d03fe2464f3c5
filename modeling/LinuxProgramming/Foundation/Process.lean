import LinuxProgramming.Foundation.Descriptors

/-! Sequential programs of processes that fork.

A program runs one process to the list of the processes it has become, each of
them still running, executing another program, exited, or killed by a signal. Only what processes
inherit from each other is modelled: a process shares no memory with its
children, so the order in which they run does not matter here.

A system call can fail for a reason of its own, such as a descriptor that is
not open; every other failure is decided by an oracle.
-/

set_option autoImplicit false

namespace LinuxProgramming.Foundation

/-- A process is named after its parent and the system calls that the parent
had made when it forked. -/
abbrev Pid := List Nat

/-- A pipe is named after the process that has created it, and its system calls by then. -/
structure PipeName where
  creator : Pid
  serial : Nat
  deriving DecidableEq, Repr

inductive Side where
  | read
  | write
  deriving DecidableEq, Repr

inductive Access where
  | readOnly
  | writeCreateTruncate
  deriving DecidableEq, Repr

/-- What a descriptor refers to; `inherited` stands for all that was open before. -/
inductive File where
  | inherited (name : Nat)
  | pipe (name : PipeName) (side : Side)
  | disk (path : String) (access : Access)
  deriving DecidableEq, Repr

inductive SystemCall where
  | pipe
  | fork
  | dup2
  | close
  | openFile
  | execvp
  deriving DecidableEq, Repr

/-- The error with which the n-th system call of a process fails, if it does. -/
abbrev Oracle := Pid → Nat → SystemCall → Option Nat

/-- These system calls fail for reasons of their own only. -/
def Oracle.Grants (oracle : Oracle) (call : SystemCall) : Prop :=
  ∀ pid calls, oracle pid calls call = none

def EBADF : Nat := 9
def EFAULT : Nat := 14
def EINVAL : Nat := 22

def SIGSEGV : Nat := 11

/-- A call of `execvp`: the vector, up to the end of its array, and the descriptors. -/
structure Exec where
  argv : List (Option String)
  fds : Table File

structure Process where
  pid : Pid
  calls : Nat
  fds : Table File
  errno : Nat
  stderr : List String
  execs : List Exec

namespace Process

/-- A process with nothing done yet. -/
def entering (pid : Pid) (fds : Table File) : Process := ⟨pid, 0, fds, 0, [], []⟩

/-- After a successful system call. -/
def succeed (process : Process) (fds : Table File) : Process :=
  { process with calls := process.calls + 1, fds := fds }

def fail (process : Process) (error : Nat) : Process :=
  { process with calls := process.calls + 1, errno := error }

/-- The child that a fork creates. -/
def child (process : Process) : Process :=
  { process with pid := process.pid ++ [process.calls], calls := 0, stderr := [], execs := [] }

def execute (process : Process) (argv : List (Option String)) : Process :=
  { process with
    calls := process.calls + 1
    execs := process.execs ++ [⟨argv, process.fds⟩] }

@[simp] theorem succeed_pid (process : Process) (fds : Table File) :
    (process.succeed fds).pid = process.pid := rfl
@[simp] theorem succeed_fds (process : Process) (fds : Table File) :
    (process.succeed fds).fds = fds := rfl
@[simp] theorem succeed_execs (process : Process) (fds : Table File) :
    (process.succeed fds).execs = process.execs := rfl
@[simp] theorem child_pid (process : Process) :
    process.child.pid = process.pid ++ [process.calls] := rfl
@[simp] theorem child_fds (process : Process) : process.child.fds = process.fds := rfl
@[simp] theorem child_execs (process : Process) : process.child.execs = [] := rfl
@[simp] theorem execute_pid (process : Process) (argv : List (Option String)) :
    (process.execute argv).pid = process.pid := rfl
@[simp] theorem execute_execs (process : Process) (argv : List (Option String)) :
    (process.execute argv).execs = process.execs ++ [⟨argv, process.fds⟩] := rfl

end Process

/-- What has become of a process. -/
inductive Life (α : Type) where
  | running (value : α) (process : Process)
  | executing (process : Process)
  | exited (process : Process) (status : Nat)
  | killed (process : Process) (signal : Nat)

variable {α β : Type}

def Life.process : Life α → Process
  | .running _ process | .executing process | .exited process _ | .killed process _ => process

@[simp] theorem Life.running_process (value : α) (process : Process) :
    (Life.running value process).process = process := rfl
@[simp] theorem Life.executing_process (process : Process) :
    (Life.executing process : Life α).process = process := rfl
@[simp] theorem Life.exited_process (process : Process) (status : Nat) :
    (Life.exited process status : Life α).process = process := rfl
@[simp] theorem Life.killed_process (process : Process) (signal : Nat) :
    (Life.killed process signal : Life α).process = process := rfl

/-- The calls of `execvp` that all these processes have made. -/
def execCalls (lives : List (Life α)) : List (Pid × Exec) :=
  lives.flatMap fun life => life.process.execs.map fun exec => (life.process.pid, exec)

@[simp] theorem execCalls_singleton (life : Life α) :
    execCalls [life] = life.process.execs.map fun exec => (life.process.pid, exec) :=
  List.flatMap_singleton ..

@[simp] theorem execCalls_append (first second : List (Life α)) :
    execCalls (first ++ second) = execCalls first ++ execCalls second := by
  simp [execCalls]

def System (α : Type) := Oracle → Process → List (Life α)

namespace System

/-- A process that still runs goes on; the others stay what they have become. -/
def andThen (next : α → System β) (oracle : Oracle) : Life α → List (Life β)
  | .running value process => next value oracle process
  | .executing process => [.executing process]
  | .exited process status => [.exited process status]
  | .killed process signal => [.killed process signal]

instance : Monad System where
  pure value := fun _ process => [.running value process]
  bind first next := fun oracle process => (first oracle process).flatMap (andThen next oracle)

variable {oracle : Oracle} {process : Process}

theorem bind_run (first : System α) (next : α → System β) :
    (first >>= next) oracle process = (first oracle process).flatMap (andThen next oracle) := rfl

/-- The sequence rule, for a first part that only changes its process. -/
theorem bind_running {first : System α} {value : α} {after : Process}
    (ran : first oracle process = [.running value after]) (next : α → System β) :
    (first >>= next) oracle process = next value oracle after := by
  simp [bind_run, ran, andThen]

def exit (status : Nat) : System α := fun _ process => [.exited process status]

/-- Exit with the error of the last failed call. -/
def exitErrno : System α := fun _ process => [.exited process process.errno]

def setErrno (error : Nat) : System Unit := fun _ process =>
  [.running () { process with errno := error }]

def message (text : String) : System Unit := fun _ process =>
  [.running () { process with stderr := process.stderr ++ [text] }]

/-- The program's own part of the text; the rest depends on the error. -/
def perror (text : String) : System Unit := message text

/-- The two lowest free descriptors, for reading and for writing. -/
def pipe : System (Option (Nat × Nat)) := fun oracle process =>
  match oracle process.pid process.calls .pipe with
  | some error => [.running none (process.fail error)]
  | none =>
    let name : PipeName := ⟨process.pid, process.calls⟩
    let read := process.fds.lowest
    let reading := process.fds.install read (.pipe name .read)
    -- `lowest` of the table in which the read end is open already.
    let write := reading.lowest
    [.running (some (read, write)) (process.succeed (reading.install write (.pipe name .write)))]

inductive Forked where
  | failed
  | parent (pid : Pid)
  | child

/-- The parent comes first. -/
def fork : System Forked := fun oracle process =>
  match oracle process.pid process.calls .fork with
  | some error => [.running .failed (process.fail error)]
  | none =>
    [.running (.parent process.child.pid) (process.succeed process.fds),
      .running .child process.child]

/-- The results of `dup2` and `close` tell success from failure. -/
def dup2 (fd target : Nat) : System Bool := fun oracle process =>
  match oracle process.pid process.calls .dup2 with
  | some error => [.running false (process.fail error)]
  | none =>
    match process.fds.file fd with
    | none => [.running false (process.fail EBADF)]
    | some file => [.running true (process.succeed (process.fds.install target file))]

def close (fd : Nat) : System Bool := fun oracle process =>
  match oracle process.pid process.calls .close with
  | some error => [.running false (process.fail error)]
  | none =>
    match process.fds.file fd with
    | none => [.running false (process.fail EBADF)]
    | some _ => [.running true (process.succeed (process.fds.close fd))]

/-- The path is a vector entry; NULL is no address. -/
def openFile (path : Option String) (access : Access) : System (Option Nat) := fun oracle process =>
  match oracle process.pid process.calls .openFile with
  | some error => [.running none (process.fail error)]
  | none =>
    match path with
    | none => [.running none (process.fail EFAULT)]
    | some path =>
      let fd := process.fds.lowest
      [.running (some fd) (process.succeed (process.fds.install fd (.disk path access)))]

/-- Returns only when it fails. The file is the first entry of the vector, and it is read:
with NULL there the process does not survive the call. -/
def execvp (argv : List (Option String)) : System Unit := fun oracle process =>
  -- The call is recorded either way: a failed one has been made as well.
  match argv.head?.join with
  | none => [.killed (process.execute argv) SIGSEGV]
  | some _ =>
    match oracle process.pid process.calls .execvp with
    | some error => [.running () { process.execute argv with errno := error }]
    | none => [.executing (process.execute argv)]

theorem pipe_granted (granted : oracle.Grants .pipe) :
    pipe oracle process =
      let name : PipeName := ⟨process.pid, process.calls⟩
      let reading := process.fds.install process.fds.lowest (.pipe name .read)
      [.running (some (process.fds.lowest, reading.lowest))
        (process.succeed (reading.install reading.lowest (.pipe name .write)))] := by
  rw [pipe, granted]

theorem fork_granted (granted : oracle.Grants .fork) :
    fork oracle process =
      [.running (.parent process.child.pid) (process.succeed process.fds),
        .running .child process.child] := by
  rw [fork, granted]

theorem dup2_granted (granted : oracle.Grants .dup2) {fd : Nat} {file : File}
    (opened : process.fds.file fd = some file) (target : Nat) :
    dup2 fd target oracle process =
      [.running true (process.succeed (process.fds.install target file))] := by
  rw [dup2, granted]
  simp [opened]

theorem close_granted (granted : oracle.Grants .close) {fd : Nat}
    (opened : process.fds.file fd ≠ none) :
    close fd oracle process = [.running true (process.succeed (process.fds.close fd))] := by
  obtain ⟨file, same⟩ := Option.ne_none_iff_exists'.mp opened
  rw [close, granted]
  simp [same]

theorem openFile_granted (granted : oracle.Grants .openFile) (path : String) (access : Access) :
    openFile (some path) access oracle process =
      [.running (some process.fds.lowest)
        (process.succeed (process.fds.install process.fds.lowest (.disk path access)))] := by
  rw [openFile, granted]

/-- With a file, a call of `execvp` that nothing keeps from succeeding does not return. -/
theorem execvp_executing {argv : List (Option String)} {file : String}
    (named : argv.head?.join = some file)
    (granted : oracle process.pid process.calls .execvp = none) :
    execvp argv oracle process = [.executing (process.execute argv)] := by
  simp only [execvp, named, granted]

/-- A process drops one end of a pipe, and moves the other one to a standard descriptor. -/
theorem move_end (closes : oracle.Grants .close) (dups : oracle.Grants .dup2) (process : Process)
    {dropped kept : Nat} {file : File} (dropped_open : process.fds.file dropped ≠ none)
    (kept_open : process.fds.file kept = some file) (distinct : kept ≠ dropped) (target : Nat) :
    ∃ after : Process, after.pid = process.pid ∧ after.execs = process.execs ∧
      after.fds.file = Function.update (Function.update (Function.update process.fds.file dropped none)
        target (some file)) kept none ∧
      ∀ next : System α,
        (do let _ ← System.close dropped
            let _ ← System.dup2 kept target
            let _ ← System.close kept
            next) oracle process = next oracle after := by
  have still : (process.fds.close dropped).file kept = some file := by
    simpa [distinct] using kept_open
  have moved : ((process.fds.close dropped).install target file).file kept ≠ none := by
    by_cases same : kept = target
    · simp [same]
    · simp [same, distinct, kept_open]
  refine ⟨((process.succeed (process.fds.close dropped)).succeed
    ((process.fds.close dropped).install target file)).succeed
    (((process.fds.close dropped).install target file).close kept), rfl, rfl, rfl, fun next => ?_⟩
  rw [System.bind_running (System.close_granted closes dropped_open),
    System.bind_running (System.dup2_granted dups still target)]
  exact System.bind_running (System.close_granted closes moved) _

/-- The process goes on, ends or executes a program, but does not fork. -/
def Sequential (program : System α) : Prop :=
  ∀ oracle process, ∃ life, program oracle process = [life]

theorem Sequential.bind {first : System α} {next : α → System β} (before : Sequential first)
    (after : ∀ value, Sequential (next value)) : Sequential (first >>= next) := by
  intro oracle process
  obtain ⟨life, ran⟩ := before oracle process
  rw [bind_run, ran, List.flatMap_singleton]
  cases life with
  | running value process => exact after value oracle process
  | executing process => exact ⟨_, rfl⟩
  | exited process status => exact ⟨_, rfl⟩
  | killed process signal => exact ⟨_, rfl⟩

theorem sequential_exit (status : Nat) : Sequential (exit status : System α) :=
  fun _ process => ⟨.exited process status, rfl⟩

theorem sequential_perror (text : String) : Sequential (perror text) := fun _ _ => ⟨_, rfl⟩

theorem sequential_close (fd : Nat) : Sequential (close fd) := by
  intro oracle process
  unfold close
  split
  · exact ⟨_, rfl⟩
  · split <;> exact ⟨_, rfl⟩

theorem sequential_dup2 (fd target : Nat) : Sequential (dup2 fd target) := by
  intro oracle process
  unfold dup2
  split
  · exact ⟨_, rfl⟩
  · split <;> exact ⟨_, rfl⟩

theorem sequential_execvp (argv : List (Option String)) : Sequential (execvp argv) := by
  intro oracle process
  unfold execvp
  split
  · exact ⟨_, rfl⟩
  · split <;> exact ⟨_, rfl⟩

end System

end LinuxProgramming.Foundation
