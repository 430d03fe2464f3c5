import LinuxProgramming.Shell.Wiring

/-! Pipelines with a missing command.

The check for a missing command looks at the first pipe symbol of the vector only,
and the recursion makes it again behind every cut. By then the stages in front
have been executed.
-/

set_option autoImplicit false

namespace LinuxProgramming.Shell
open Foundation

/-- A command is missing next to a pipe symbol. -/
def Malformed (tokens : List String) : Prop :=
  tokens.head? = some "|" ∨ tokens.getLast? = some "|" ∨ ["|", "|"] <:+: tokens

/-- The text that tells of a missing command. -/
def missingCommand : String := "Missing command next to pipe in commandline.\n"

/-- A process has reported the missing command. -/
def Reports (lives : List (Life Unit)) : Prop :=
  ∃ life ∈ lives, missingCommand ∈ life.process.stderr

/-- The missing command is reported, and nothing is executed for the vector. -/
def Rejected (lives : List (Life Unit)) : Prop := Reports lives ∧ execCalls lives = []

theorem Malformed.present {tokens : List String} (malformed : Malformed tokens) : "|" ∈ tokens := by
  rcases malformed with first | last | adjacent
  · exact List.mem_of_head? first
  · exact List.mem_of_getLast? last
  · exact adjacent.subset List.mem_cons_self

/-- Behind the first pipe symbol that has both of its commands, one is missing still. -/
theorem Malformed.right {left right : List String}
    (malformed : Malformed (left ++ "|" :: right)) (absent : "|" ∉ left) (some_left : left ≠ [])
    (some_right : right ≠ []) : Malformed right := by
  obtain ⟨first, rest, rfl⟩ := List.exists_cons_of_ne_nil some_right
  rcases malformed with at_start | last | adjacent
  · rw [List.head?_append_of_ne_nil _ some_left] at at_start
    exact absurd (List.mem_of_head? at_start) absent
  · refine .inr (.inl ?_)
    rw [List.getLast?_append, List.getLast?_cons_cons] at last
    simpa using last
  · obtain ⟨before, after, same⟩ := adjacent
    -- The two symbols stand together, so the first of them is not in front of the cut.
    rcases List.append_eq_append_iff.mp (show before ++ "|" :: "|" :: after =
      left ++ "|" :: first :: rest by simpa using same) with ⟨middle, left_eq, behind⟩ | ⟨middle, before_eq, behind⟩
    · cases middle with
      | nil =>
        simp only [List.nil_append, List.cons.injEq, true_and] at behind
        exact .inl (by simp [← behind.1])
      | cons token middle =>
        simp only [List.cons_append, List.cons.injEq] at behind
        exact absurd (by simp [left_eq, ← behind.1]) absent
    · cases middle with
      | nil =>
        simp only [List.nil_append, List.cons.injEq, true_and] at behind
        exact .inl (by simp [behind.1])
      | cons token middle =>
        simp only [List.cons_append, List.cons.injEq] at behind
        exact .inr (.inr ⟨middle, after, by simp [behind.2]⟩)

/-- The first pipe symbol stands in front where there is no command before it. -/
theorem starts_with_pipe_iff {left : List String} (absent : "|" ∉ left) (right : List String) :
    (left ++ "|" :: right).head? = some "|" ↔ left = [] := by
  cases left with
  | nil => simp
  | cons token left =>
    simp only [List.mem_cons, not_or] at absent
    simp [Ne.symm absent.1]

/-- A first pipe symbol without one of its commands is all that the check finds. -/
theorem pipe_present_missing_iff {argv : Argv} {left right : List String}
    (holds : Holds argv (left ++ "|" :: right)) (absent : "|" ∉ left) :
    pipe_present argv = if left = [] ∨ right = [] then -1 else (left.length : Int) := by
  obtain ⟨rest, same⟩ := holds
  have shape : argv = left.map some ++ some "|" :: (right.map some ++ none :: rest) := by
    simp [same]
  rw [shape, pipe_present, pipe_presentFrom_first absent]
  simp

theorem pipe_and_exec_missing {argv : Argv} (missing : pipe_present argv = -1) (oracle : Oracle)
    (process : Process) (depth : Nat) :
    pipe_and_execWithin (depth + 1) argv oracle process =
      [.running () { process with
        stderr := process.stderr ++ [missingCommand]
        errno := EINVAL }] := by
  simp [pipe_and_execWithin, missing, System.bind_run, System.message, System.setErrno,
    System.andThen, missingCommand]

theorem rejected_of_missing {argv : Argv} (missing : pipe_present argv = -1) {oracle : Oracle}
    {process : Process} (silent : process.execs = []) (depth : Nat) :
    Rejected (pipe_and_execWithin (depth + 1) argv oracle process) := by
  rw [pipe_and_exec_missing missing]
  refine ⟨⟨_, List.mem_singleton_self _, ?_⟩, ?_⟩
  · simp
  · simp [silent]

/-- The fault is always reported, by the process that comes to it. -/
theorem malformed_reports {oracle : Oracle} (granted : Granted oracle) {depth : Nat} {argv : Argv}
    {tokens : List String} (holds : Holds argv tokens) (malformed : Malformed tokens)
    (enough : tokens.length < depth) {process : Process} (silent : process.execs = [])
    (input : process.fds.file STDIN_FILENO ≠ none)
    (output : process.fds.file STDOUT_FILENO ≠ none) :
    Reports (pipe_and_execWithin depth argv oracle process) := by
  induction depth generalizing argv tokens process with
  | zero => omega
  | succ depth ih =>
    obtain ⟨left, right, rfl, absent⟩ := List.eq_append_cons_of_mem malformed.present
    have index := pipe_present_missing_iff holds absent
    by_cases missing : left = [] ∨ right = []
    · rw [if_pos missing] at index
      exact (rejected_of_missing index silent depth).1
    · rw [if_neg missing] at index
      rw [not_or] at missing
      obtain ⟨writer, reader, run, -, -, -, -, reader_execs, reader_fds⟩ :=
        pipe_and_exec_split granted input output index (by simpa using missing.1) depth
      have behind : Holds ((argv.set left.length none).drop (left.length + 1)) right := by
        obtain ⟨rest, _, _, dropped⟩ := holds.cut absent missing.1 missing.2
        exact ⟨rest, dropped⟩
      have reading : reader.fds.file STDIN_FILENO ≠ none := by simp [reader_fds]
      have writing : reader.fds.file STDOUT_FILENO ≠ none := by
        rw [reader_fds, Function.update_of_ne (by decide)]
        exact output
      obtain ⟨life, member, reported⟩ := ih behind (malformed.right absent missing.1 missing.2)
        (by simp at enough; omega) reader_execs reading writing
      exact ⟨life, run ▸ List.mem_append_right _ member, reported⟩

/-- Nothing is executed, whatever else goes wrong, exactly when the first pipe
symbol is the first or the last token. -/
theorem malformed_rejected_iff {argv : Argv} {tokens : List String} (holds : Holds argv tokens)
    (malformed : Malformed tokens) :
    (∀ (oracle : Oracle) (process : Process), process.execs = [] →
        Rejected (pipe_and_exec argv oracle process)) ↔
      tokens.head? = some "|" ∨ "|" ∉ tokens.dropLast := by
  obtain ⟨left, right, rfl, absent⟩ := List.eq_append_cons_of_mem malformed.present
  have index := pipe_present_missing_iff holds absent
  have sides : (left ++ "|" :: right).head? = some "|" ∨ "|" ∉ (left ++ "|" :: right).dropLast ↔
      left = [] ∨ right = [] := by
    have ends : "|" ∉ (left ++ "|" :: right).dropLast ↔ right = [] := by
      rw [List.dropLast_append_of_ne_nil (by simp)]
      cases right with
      | nil => simpa using absent
      | cons token right => simp
    rw [starts_with_pipe_iff absent, ends]
  rw [sides]
  by_cases missing : left = [] ∨ right = []
  · rw [if_pos missing] at index
    exact iff_of_true (fun oracle process silent => rejected_of_missing index silent _) missing
  · rw [if_neg missing] at index
    rw [not_or] at missing
    refine iff_of_false (fun always => ?_) (not_or.mpr missing)
    -- The first stage is executed before the child looks at the rest.
    obtain ⟨writer, reader, run, -⟩ := @pipe_and_exec_split allGranted (Process.entering [] terminal)
      allGranted_granted (by decide) (by decide) argv left.length index (by simpa using missing.1)
      argv.length
    have nothing := (always allGranted (Process.entering [] terminal) rfl).2
    rw [pipe_and_exec, run, execCalls_append, execCalls_execvp (fun after => rfl)] at nothing
    simp at nothing

theorem malformed_rejected_first :
    (∀ (oracle : Oracle) (process : Process), process.execs = [] →
        Rejected (pipe_and_exec [some "|", some "b", none] oracle process)) ↔
      ["|", "b"].head? = some "|" ∨ "|" ∉ ["|", "b"].dropLast :=
  malformed_rejected_iff ⟨[], rfl⟩ (.inl rfl)

theorem adjacent_pipes_run :
    (execCalls (pipe_and_exec [some "a", some "|", some "|", some "b", none] allGranted
      (Process.entering [] terminal))).map (fun call => call.2.argv) =
        [[some "a", none, some "|", some "b", none]] := rfl

/-- `a | | b` is reported, but a runs. -/
theorem adjacent_pipes_not_rejected :
    ¬ ∀ (argv : Argv) (tokens : List String), Holds argv tokens → Malformed tokens →
      ∀ (oracle : Oracle) (process : Process), process.execs = [] →
        Rejected (pipe_and_exec argv oracle process) := by
  intro always
  have nothing := (always [some "a", some "|", some "|", some "b", none] ["a", "|", "|", "b"]
    ⟨[], rfl⟩ (.inr (.inr ⟨["a"], ["b"], rfl⟩)) allGranted (Process.entering [] terminal) rfl).2
  have run := adjacent_pipes_run
  rw [nothing] at run
  cases run

end LinuxProgramming.Shell
