import LinuxProgramming.Shell.Command
import LinuxProgramming.Shell.Malformed

/-! What a failed redirection leads to.

Both passes return -1 for an error and for a vector without their operator, and
the child goes on in either case. A vector that the failure has left uncut is
executed with its operator.
-/

set_option autoImplicit false

namespace LinuxProgramming.Shell
open Foundation

/-- A file name is missing, or a pass has found its operator and returned -1. -/
def Fails (oracle : Oracle) (process : Process) (argv : Argv) (tokens : List String) : Prop :=
  tokens.getLast? = some "<" ∨ tokens.getLast? = some ">" ∨
    ∃ code first middle, redirect_in argv oracle process = [.running (code, first) middle] ∧
      (findFrom "<" 0 argv ≠ none ∧ code = -1 ∨
        ∃ other second next, redirect_out first oracle middle = [.running (other, second) next] ∧
          findFrom ">" 0 first ≠ none ∧ other = -1)

/-- No program is executed, and the process itself exits with an error; only its
standard descriptors can have changed by then. -/
structure Stopped (process : Process) (lives : List (Life Unit)) : Prop where
  silent : ∀ after, Life.executing after ∉ lives
  exits : ∃ after status others, lives = .exited after status :: others ∧ status ≠ 0 ∧
    ∀ fd, fd ≠ STD_INPUT → fd ≠ STD_OUTPUT → after.fds.file fd = process.fds.file fd

section Passes

variable {oracle : Oracle}

/-- The first occurrence of an operator that is not only the last token has a file name. -/
theorem operator_with_path {operator : String} {tokens : List String} (inside : operator ∈ tokens.dropLast) :
    ∃ before path after, tokens = before ++ operator :: path :: after ∧ operator ∉ before := by
  obtain ⟨before, rest, same, absent⟩ :=
    List.eq_append_cons_of_mem (List.dropLast_subset tokens inside)
  cases rest with
  | nil =>
    rw [same, List.dropLast_concat] at inside
    exact absurd inside absent
  | cons path after => exact ⟨before, path, after, same, absent⟩

/-- An operator without a file name: NULL cannot be opened. -/
theorem redirect_missing (operator : String) (access : Access) (standard : Nat) {argv : Argv}
    {tokens : List String} (holds : Holds argv tokens)
    (outside : operator ∉ tokens.dropLast) (oracle : Oracle) (process : Process) :
    ∃ next : Process, redirect operator access standard argv oracle process =
        [.running (-1, argv) next] ∧ next.fds = process.fds := by
  by_cases member : operator ∈ tokens
  · obtain ⟨before, rest, same, absent⟩ := List.eq_append_cons_of_mem member
    have ended : rest = [] := by
      by_contra filled
      apply outside
      rw [same, List.dropLast_append_of_ne_nil (List.cons_ne_nil _ _),
        List.dropLast_cons_of_ne_nil filled]
      simp
    subst ended same
    have found := findFrom_first holds absent 0
    have entry := holds.entry_behind
    obtain ⟨next, denied, kept⟩ : ∃ next, System.openFile none access oracle process =
        [.running none next] ∧ next.fds = process.fds := by
      unfold System.openFile
      split <;> exact ⟨_, rfl, rfl⟩
    refine ⟨{ next with stderr := next.stderr ++ ["open"] }, ?_, kept⟩
    rw [redirect, found, Nat.zero_add]
    simp only [entry, List.head?_nil]
    rw [System.bind_running denied]
    rfl
  · exact ⟨process, redirect_absent holds member, rfl⟩

/-- A file that was opened stays open when it cannot be moved to the standard descriptor. -/
theorem redirect_leaks (operator : String) (access : Access) (standard : Nat)
    (opens : oracle.Grants .openFile)
    (denied : ∀ pid calls, oracle pid calls .dup2 ≠ none) {argv : Argv} {tokens : List String}
    (holds : Holds argv tokens) (process : Process) :
    ∃ next : Process, redirect operator access standard argv oracle process =
        [.running (-1, argv) next] ∧
      (∀ fd, process.fds.file fd ≠ none → next.fds.file fd ≠ none) ∧
      (operator ∈ tokens.dropLast → next.fds.file process.fds.lowest ≠ none) := by
  by_cases inside : operator ∈ tokens.dropLast
  · obtain ⟨before, path, after, rfl, absent⟩ := operator_with_path inside
    have found := findFrom_first holds absent 0
    have entry := holds.entry_behind
    obtain ⟨error, refused⟩ := Option.ne_none_iff_exists'.mp (denied process.pid (process.calls + 1))
    generalize opened_eq :
      process.succeed (process.fds.install process.fds.lowest (.disk path access)) = opened
    have fds : opened.fds = process.fds.install process.fds.lowest (.disk path access) := by
      rw [← opened_eq]
      rfl
    have moves : System.dup2 process.fds.lowest standard oracle opened =
        [.running false (opened.fail error)] := by
      simp only [← opened_eq, System.dup2, Process.succeed, refused]
    refine ⟨{ opened.fail error with stderr := opened.stderr ++ ["dup2"] }, ?_, ?_, ?_⟩
    · rw [redirect, found, Nat.zero_add]
      simp only [entry, List.head?_cons]
      rw [System.bind_running (System.openFile_granted opens path access), opened_eq]
      simp only
      rw [System.bind_running moves]
      rfl
    · intro fd kept
      by_cases same : fd = process.fds.lowest <;> simp [Process.fail, fds, same, kept]
    · intro _
      simp [Process.fail, fds]
  · obtain ⟨next, run, kept⟩ := redirect_missing operator access standard holds inside oracle process
    exact ⟨next, run, fun fd opened => by rw [kept]; exact opened, fun there => absurd there inside⟩

end Passes

section Execution

variable {oracle : Oracle}

/-- Who executes another program is not affected by what comes behind. -/
theorem executing_mem_bind {α β : Type} {first : System α} {process after : Process}
    (executes : Life.executing after ∈ first oracle process) (next : α → System β) :
    Life.executing after ∈ (first >>= next) oracle process := by
  rw [System.bind_run]
  exact List.mem_flatMap.mpr ⟨_, executes, List.mem_singleton_self _⟩

theorem execvp_executes (granted : oracle.Grants .execvp) {argv : Argv}
    (named : argv.head?.join ≠ none) (process : Process) :
    ∃ after, Life.executing after ∈ System.execvp argv oracle process := by
  obtain ⟨file, same⟩ := Option.ne_none_iff_exists'.mp named
  rw [System.execvp_executing same (granted _ _)]
  exact ⟨_, List.mem_singleton_self _⟩

/-- A straight part in front, whatever it changes, does not keep the rest from executing. -/
theorem executes_behind {α β : Type} {first : System α} (straight : StraightProgram first)
    {next : α → System β}
    (rest : ∀ value process, ∃ after, Life.executing after ∈ next value oracle process)
    (process : Process) : ∃ after, Life.executing after ∈ (first >>= next) oracle process := by
  obtain ⟨value, middle, run, -⟩ := straight oracle process
  rw [System.bind_running run]
  exact rest value middle

/-- Unless a command is missing, the first stage of the vector is executed. -/
theorem pipe_and_exec_executes (pipe : oracle.Grants .pipe) (fork : oracle.Grants .fork)
    (execvp : oracle.Grants .execvp) {argv : Argv} (named : argv.head?.join ≠ none)
    (present : pipe_present argv ≠ -1) (process : Process) :
    ∃ after, Life.executing after ∈ pipe_and_exec argv oracle process := by
  rw [pipe_and_exec, pipe_and_execWithin]
  simp only [if_neg present]
  by_cases absent : pipe_present argv = 0
  · rw [if_pos absent]
    obtain ⟨after, executes⟩ := execvp_executes execvp named process
    exact ⟨after, executing_mem_bind executes _⟩
  · rw [if_neg absent, System.bind_running (System.pipe_granted pipe)]
    simp only
    rw [System.bind_run, System.fork_granted fork, List.flatMap_cons, System.andThen]
    -- The cut is behind the first entry, at the pipe symbol.
    have left_named : (argv.set (pipe_present argv).toNat none).head?.join ≠ none := by
      have inside : (pipe_present argv).toNat ≠ 0 := by
        have least : -1 ≤ pipe_present argv := pipe_presentFrom_ge 0 argv
        omega
      obtain ⟨place, same⟩ := Nat.exists_eq_succ_of_ne_zero inside
      rw [same]
      cases argv with
      | nil => exact named
      | cons entry rest => exact named
    -- The parent closes and moves its descriptors, whether or not that succeeds.
    obtain ⟨after, executes⟩ := executes_behind (StraightProgram.close process.fds.lowest)
      (fun _ => executes_behind (StraightProgram.dup2 _ STDOUT_FILENO) fun _ =>
        executes_behind (StraightProgram.close _) fun _ caller =>
          (execvp_executes execvp left_named caller).imp
            fun after executes => executing_mem_bind executes fun _ => do
              System.perror "execvp"
              System.exit EXIT_FAILURE) _
    exact ⟨after, List.mem_append_left _ executes⟩

/-- With a missing command the child exits, and has only reported it. -/
theorem run_commandChild_missing {argv left : Argv} {process next : Process}
    (redirected : redirections argv oracle process = [.running left next])
    (missing : pipe_present left = -1) :
    run_commandChild argv oracle process =
      [.exited { next with
        stderr := next.stderr ++ [missingCommand]
        errno := EINVAL } EINVAL] := by
  rw [run_commandChild, System.bind_running redirected, pipe_and_exec,
    System.bind_running (pipe_and_exec_missing missing oracle next _)]
  rfl

theorem run_commandChild_executes (pipe : oracle.Grants .pipe) (fork : oracle.Grants .fork)
    (execvp : oracle.Grants .execvp) {argv left : Argv} {process next : Process}
    (redirected : redirections argv oracle process = [.running left next])
    (named : left.head?.join ≠ none) (present : pipe_present left ≠ -1) :
    ∃ after, Life.executing after ∈ run_commandChild argv oracle process := by
  obtain ⟨after, executes⟩ := pipe_and_exec_executes pipe fork execvp named present next
  refine ⟨after, ?_⟩
  rw [run_commandChild, System.bind_running redirected]
  exact executing_mem_bind executes fun _ => System.exitErrno

/-- A descriptor that was left open is there when the child exits, if it does. -/
theorem not_stopped_of_leak (pipe : oracle.Grants .pipe) (fork : oracle.Grants .fork)
    (execvp : oracle.Grants .execvp) {argv left : Argv} {process next : Process}
    (redirected : redirections argv oracle process = [.running left next])
    (named : left.head?.join ≠ none) {fd : Nat}
    (other : fd ≠ STD_INPUT ∧ fd ≠ STD_OUTPUT) (closed : process.fds.file fd = none)
    (opened : next.fds.file fd ≠ none) :
    ¬Stopped process (run_commandChild argv oracle process) := by
  intro stopped
  by_cases missing : pipe_present left = -1
  · rw [run_commandChild_missing redirected missing] at stopped
    obtain ⟨after, status, others, same, -, kept⟩ := stopped.exits
    obtain ⟨rfl, rfl⟩ := (Life.exited.injEq ..).mp (List.cons.inj same).1
    exact opened ((kept fd other.1 other.2).trans closed)
  · obtain ⟨after, executes⟩ := run_commandChild_executes pipe fork execvp redirected named missing
    exact stopped.silent after executes

end Execution

/-- Only moving a descriptor fails. -/
def dup2Denied : Oracle := fun _ _ call => if call = .dup2 then some EBADF else none

section Layouts

variable {argv : Argv} {tokens : List String}

/-- An operator with a file name: the file was opened, and stays open. -/
theorem leaks_with_path (holds : Holds argv tokens)
    (inside : "<" ∈ tokens.dropLast ∨ ">" ∈ tokens.dropLast) :
    Fails dup2Denied (Process.entering [] terminal) argv tokens ∧
      ¬Stopped (Process.entering [] terminal)
        (run_commandChild argv dup2Denied (Process.entering [] terminal)) := by
  have denied : ∀ pid calls, dup2Denied pid calls .dup2 ≠ none := by simp [dup2Denied]
  have opens : dup2Denied.Grants .openFile := fun _ _ => rfl
  generalize entering_eq : Process.entering [] terminal = entering
  have fds : entering.fds = terminal := by rw [← entering_eq]; rfl
  have found : ∀ operator, operator ∈ tokens.dropLast → findFrom operator 0 argv ≠ none := by
    intro operator member
    obtain ⟨before, path, after, rfl, absent⟩ := operator_with_path member
    rw [findFrom_first holds absent]
    simp
  have not_standard : ∀ {fd}, terminal.file fd = none → fd ≠ STD_INPUT ∧ fd ≠ STD_OUTPUT := by
    intro fd closed
    refine ⟨?_, ?_⟩ <;>
    · rintro rfl
      cases closed
  obtain ⟨middle, input, kept_in, leaked_in⟩ :=
    redirect_leaks "<" .readOnly STD_INPUT opens denied holds entering
  obtain ⟨next, output, kept_out, leaked_out⟩ :=
    redirect_leaks ">" .writeCreateTruncate STD_OUTPUT opens denied holds middle
  have redirected := redirections_run input output
  have named : argv.head?.join ≠ none := by
    refine mt holds.head_iff.mp fun empty => ?_
    simp [empty] at inside
  by_cases first : "<" ∈ tokens.dropLast
  · have closed : entering.fds.file entering.fds.lowest = none := entering.fds.lowest_free
    have opened := kept_out _ (leaked_in first)
    refine ⟨.inr (.inr ⟨_, _, _, input, .inl ⟨found "<" first, rfl⟩⟩), ?_⟩
    exact not_stopped_of_leak (fun _ _ => rfl) (fun _ _ => rfl) (fun _ _ => rfl) redirected
      named (not_standard (fds ▸ closed)) closed opened
  · have second : ">" ∈ tokens.dropLast := inside.resolve_left first
    have closed : entering.fds.file middle.fds.lowest = none := by
      by_contra open_before
      exact kept_in _ open_before middle.fds.lowest_free
    refine ⟨.inr (.inr ⟨_, _, _, input, .inr ⟨_, _, _, output, found ">" second, rfl⟩⟩), ?_⟩
    exact not_stopped_of_leak (fun _ _ => rfl) (fun _ _ => rfl) (fun _ _ => rfl) redirected
      named (not_standard (fds ▸ closed)) closed (leaked_out second)

/-- Without a file name nothing is opened, and the vector stays as it is. -/
theorem redirections_missing (holds : Holds argv tokens)
    (outside : "<" ∉ tokens.dropLast ∧ ">" ∉ tokens.dropLast) (oracle : Oracle)
    (process : Process) :
    ∃ next : Process, redirections argv oracle process = [.running argv next] ∧
      next.fds = process.fds := by
  obtain ⟨middle, input, kept⟩ :=
    redirect_missing "<" .readOnly STD_INPUT holds outside.1 oracle process
  obtain ⟨next, output, same⟩ :=
    redirect_missing ">" .writeCreateTruncate STD_OUTPUT holds outside.2 oracle middle
  exact ⟨next, redirections_run input output, same.trans kept⟩

/-- A vector that ends in an operator starts a pipeline, unless a pipe symbol comes first. -/
theorem pipe_present_operator_last (holds : Holds argv tokens)
    (last : tokens.getLast? ≠ some "|") :
    pipe_present argv = -1 ↔ tokens.head? = some "|" := by
  by_cases member : "|" ∈ tokens
  · obtain ⟨left, right, rfl, absent⟩ := List.eq_append_cons_of_mem member
    have some_right : right ≠ [] := by
      rintro rfl
      exact last (by simp)
    rw [pipe_present_missing_iff holds absent, starts_with_pipe_iff absent]
    by_cases first : left = []
    · simp [first]
    · simp only [first, some_right, or_self, if_false, iff_false]
      omega
  · rw [pipe_present, pipe_presentFrom_absent holds member]
    refine iff_of_false (by decide) fun first => member (List.mem_of_head? first)

/-- Every failing redirection stops the command exactly when the vector is
rejected for a pipe symbol in front, and no operator has a file name. -/
theorem failed_redirection_stops_iff (holds : Holds argv tokens)
    (operator : "<" ∈ tokens ∨ ">" ∈ tokens) :
    (∀ (oracle : Oracle) (process : Process), Fails oracle process argv tokens →
        Stopped process (run_commandChild argv oracle process)) ↔
      tokens.head? = some "|" ∧ "<" ∉ tokens.dropLast ∧ ">" ∉ tokens.dropLast := by
  by_cases inside : "<" ∈ tokens.dropLast ∨ ">" ∈ tokens.dropLast
  · obtain ⟨fails, not_stopped⟩ := leaks_with_path holds inside
    refine iff_of_false (fun always => not_stopped (always _ _ fails)) fun ⟨_, outside⟩ => ?_
    exact inside.elim outside.1 outside.2
  · rw [not_or] at inside
    -- The operator is the last token, so a pipe symbol is not.
    have last : tokens.getLast? = some "<" ∨ tokens.getLast? = some ">" := by
      have at_end : ∀ token ∈ tokens, token ∉ tokens.dropLast → tokens.getLast? = some token := by
        intro token member outside
        have filled : tokens ≠ [] := List.ne_nil_of_mem member
        rw [← List.dropLast_append_getLast filled] at member ⊢
        simpa [outside, eq_comm] using member
      exact operator.imp (fun member => at_end _ member inside.1) fun member =>
        at_end _ member inside.2
    have present := pipe_present_operator_last holds (by rcases last with last | last <;> simp [last])
    simp only [inside, not_false_eq_true, and_true, ← present]
    constructor
    · intro always
      by_contra missing
      obtain ⟨next, redirected, -⟩ :=
        redirections_missing holds inside allGranted (Process.entering [] terminal)
      have named : argv.head?.join ≠ none := by
        refine mt holds.head_iff.mp fun empty => ?_
        simp [empty] at operator
      obtain ⟨after, executes⟩ := run_commandChild_executes (fun _ _ => rfl) (fun _ _ => rfl)
        (fun _ _ => rfl) redirected named missing
      have fails : Fails allGranted (Process.entering [] terminal) argv tokens :=
        last.imp_right .inl
      exact (always _ _ fails).silent after executes
    · intro missing oracle process _
      obtain ⟨next, redirected, kept⟩ := redirections_missing holds inside oracle process
      rw [run_commandChild_missing redirected missing]
      refine ⟨fun after executes => ?_, _, _, [], rfl, by decide, fun fd _ _ => ?_⟩
      · cases List.mem_singleton.mp executes
      · rw [← kept]

end Layouts

/-- `| cat >` is rejected, whatever happens. -/
theorem failed_redirection_stops_rejected :
    (∀ (oracle : Oracle) (process : Process),
        Fails oracle process [some "|", some "cat", some ">", none] ["|", "cat", ">"] →
          Stopped process (run_commandChild [some "|", some "cat", some ">", none] oracle process)) ↔
      ["|", "cat", ">"].head? = some "|" ∧ "<" ∉ ["|", "cat", ">"].dropLast ∧
        ">" ∉ ["|", "cat", ">"].dropLast :=
  failed_redirection_stops_iff ⟨[], rfl⟩ (.inr (by decide))

/-- No file can be opened. -/
def noFile : Oracle := fun _ _ call => if call = .openFile then some 2 else none

theorem failed_open_goes_on : ∃ after, run_commandChild [some "cat", some "<", some "f", none] noFile
    (Process.entering [] terminal) = [.executing after] := ⟨_, rfl⟩

/-- `cat < f` runs cat with both of these arguments when f cannot be opened. -/
theorem failed_open_not_stopped :
    ¬ ∀ (argv : Argv) (tokens : List String), Holds argv tokens → "<" ∈ tokens ∨ ">" ∈ tokens →
      ∀ (oracle : Oracle) (process : Process), Fails oracle process argv tokens →
        Stopped process (run_commandChild argv oracle process) := by
  intro always
  have stopped := always [some "cat", some "<", some "f", none] ["cat", "<", "f"] ⟨[], rfl⟩
    (.inl (by decide)) noFile (Process.entering [] terminal)
    (.inr (.inr ⟨_, _, _, rfl, .inl ⟨by decide, rfl⟩⟩))
  obtain ⟨after, goes_on⟩ := failed_open_goes_on
  apply stopped.silent after
  rw [goes_on]
  exact List.mem_singleton_self _

end LinuxProgramming.Shell
