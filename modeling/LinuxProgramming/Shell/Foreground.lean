import LinuxProgramming.Foundation.Family
import LinuxProgramming.Shell.Command

/-! When the prompt returns after a command.

The shell waits for the process it has forked, which becomes the first stage of
a pipeline; the other stages are children and grandchildren of that process, and
nobody waits for them. Whether the shell waits at all depends on the value of
`is_background`.
-/

set_option autoImplicit false

namespace LinuxProgramming.Shell
open Foundation

/-- The processes forked for a command, with the shell's child as their root. -/
def family (indeterminate : Int) (argv : Argv) (oracle : Oracle) (shell : Process) : Family Pid where
  members := (pids (run_command indeterminate argv oracle shell)).tail
  root := shell.child.pid
  parent := List.dropLast
  waits := decide (is_background indeterminate argv = 0)

/-- The pipeline is not cut at a pipe symbol, or the cut fails. -/
def Unsplit (oracle : Oracle) (process : Process) (argv : Argv) : Prop :=
  pipe_present argv = -1 ∨ pipe_present argv = 0 ∨
    oracle process.pid process.calls .pipe ≠ none ∨
    oracle process.pid (process.calls + 1) .fork ≠ none

variable {oracle : Oracle}

/-- Exactly a pipeline that is cut leaves more than one process. -/
theorem pipe_and_exec_single_iff (argv : Argv) (process : Process) :
    (pipe_and_exec argv oracle process).length = 1 ↔ Unsplit oracle process argv := by
  have lineal : Lineal process.pid (pipe_and_exec argv oracle process) :=
    lineal_pipe_and_exec _ argv oracle process
  rw [pipe_and_exec, pipe_and_execWithin] at lineal ⊢
  dsimp only at lineal ⊢
  rw [Unsplit]
  by_cases missing : pipe_present argv = -1
  · simp [missing, System.bind_run, System.message, System.setErrno, System.andThen]
  rw [if_neg missing] at lineal ⊢
  by_cases absent : pipe_present argv = 0
  · have execvp_single : (System.execvp argv oracle process).length = 1 := by
      obtain ⟨life, ran⟩ := System.sequential_execvp argv oracle process
      rw [ran]
      rfl
    rw [if_pos absent, System.bind_run, length_bind_single fun _ _ => rfl, execvp_single]
    simp [absent]
  rw [if_neg absent] at lineal ⊢
  simp only [missing, absent, false_or]
  cases piped : oracle process.pid process.calls .pipe with
  | some error =>
    simp [System.bind_run, System.pipe, piped, System.andThen, System.perror, System.message,
      System.exit]
  | none =>
    obtain ⟨⟨readEnd, writeEnd⟩, after, ran, pid, calls⟩ : ∃ ends after,
        System.pipe oracle process = [.running (some ends) after] ∧
          after.pid = process.pid ∧ after.calls = process.calls + 1 := by
      simp only [System.pipe, piped]
      exact ⟨_, _, rfl, rfl, rfl⟩
    rw [System.bind_running ran] at lineal ⊢
    dsimp only at lineal ⊢
    cases forked : oracle process.pid (process.calls + 1) .fork with
    | some error =>
      simp [System.bind_run, System.fork, pid, calls, forked, System.andThen, System.perror,
        System.message, System.exit]
    | none =>
      simp only [ne_eq, not_true_eq_false, or_self, iff_false]
      rw [lineal.length_eq_one_iff]
      intro alone
      have granted : oracle after.pid after.calls .fork = none := by rw [pid, calls, forked]
      have born := alone after.child.pid (LinealProgram.mem_fork ((StraightProgram.close _).lineal.bind
        fun _ => (StraightProgram.dup2 _ _).lineal.bind fun _ => (StraightProgram.close _).lineal.bind
          fun _ => lineal_pipe_and_exec _ _) granted)
      rw [Process.child_pid, pid] at born
      simp at born

theorem run_commandChild_single_iff {argv left : Argv} {process child : Process}
    (redirected : redirections argv oracle process = [.running left child]) :
    (run_commandChild argv oracle process).length = 1 ↔ Unsplit oracle child left := by
  rw [run_commandChild, System.bind_running redirected, System.bind_run,
    length_bind_single fun _ _ => rfl]
  exact pipe_and_exec_single_iff left child

end LinuxProgramming.Shell
