import LinuxProgramming.Shell.Pipeline
import Mathlib.Data.List.Nodup

/-! Every stage of a pipeline is one process, wired to its neighbours only. -/

set_option autoImplicit false

namespace LinuxProgramming.Shell
open Foundation

/-- No pipe symbol is first, last or next to another one. -/
structure Proper (tokens : List String) : Prop where
  first : tokens.head? ≠ some "|"
  last : tokens.getLast? ≠ some "|"
  apart : ¬["|", "|"] <:+: tokens

/-- The calls of the stages, in order: the input of the first one is given, and
each of them has the descriptors of the entry but for the two sides of its pipes. -/
inductive Stages (entry : Nat → Option File) :
    Option File → List (List String) → List PipeName → List (Pid × Exec) → Prop where
  | last {stdin : Option File} {segment : List String} {pid : Pid} {exec : Exec}
      (argv : Holds exec.argv segment)
      (fds : exec.fds.file = Function.update entry STDIN_FILENO stdin) :
      Stages entry stdin [segment] [] [(pid, exec)]
  | stage {stdin : Option File} {segment : List String} {segments : List (List String)}
      {name : PipeName} {names : List PipeName} {exec : Exec} {calls : List (Pid × Exec)}
      (argv : Holds exec.argv segment)
      (fds : exec.fds.file = Function.update (Function.update entry STDIN_FILENO stdin)
        STDOUT_FILENO (some (.pipe name .write)))
      (deeper : ∀ call ∈ calls, name.creator.length < call.1.length)
      (others : Stages entry (some (.pipe name .read)) segments names calls) :
      Stages entry stdin (segment :: segments) (name :: names) ((name.creator, exec) :: calls)

theorem Proper.right {left right : List String} (proper : Proper (left ++ "|" :: right)) :
    Proper right := by
  have some_right : right ≠ [] := by
    rintro rfl
    exact proper.last (by simp)
  refine ⟨?_, ?_, ?_⟩
  · intro first
    obtain ⟨rest, rfl⟩ := List.head?_eq_some_iff.mp first
    exact proper.apart ⟨left, rest, by simp⟩
  · intro last
    apply proper.last
    rw [List.getLast?_append, List.getLast?_cons, last]
    rfl
  · intro adjacent
    exact proper.apart (adjacent.trans ⟨left ++ ["|"], [], by simp⟩)

theorem Proper.sides {left right : List String} (proper : Proper (left ++ "|" :: right)) :
    left ≠ [] ∧ right ≠ [] := by
  constructor
  · rintro rfl
    exact proper.first rfl
  · rintro rfl
    exact proper.last (by simp)

/-- A vector is cut at its first pipe symbol, with the sides before and behind a NULL. -/
theorem Holds.cut {argv : Argv} {left right : List String}
    (holds : Holds argv (left ++ "|" :: right)) (absent : "|" ∉ left) (some_left : left ≠ [])
    (some_right : right ≠ []) :
    ∃ rest, pipe_present argv = left.length ∧
      argv.set left.length none = left.map some ++ none :: (right.map some ++ none :: rest) ∧
      (argv.set left.length none).drop (left.length + 1) = right.map some ++ none :: rest := by
  obtain ⟨rest, same⟩ := holds
  have shape : argv = left.map some ++ some "|" :: (right.map some ++ none :: rest) := by
    simp [same]
  have cut : argv.set left.length none =
      left.map some ++ none :: (right.map some ++ none :: rest) := by
    rw [shape, List.set_append_right _ _ (by simp)]
    simp
  refine ⟨rest, ?_, cut, ?_⟩
  · rw [shape, pipe_present, pipe_presentFrom_first absent]
    simp [some_left, some_right]
  · rw [cut, List.drop_append, List.drop_of_length_le (by simp)]
    simp

variable {oracle : Oracle}

/-- Without a pipe symbol the process executes the vector itself. -/
theorem execCalls_last {argv : Argv} {tokens : List String} (holds : Holds argv tokens)
    (absent : "|" ∉ tokens) (depth : Nat) {process : Process} (silent : process.execs = []) :
    execCalls (pipe_and_execWithin (depth + 1) argv oracle process) =
      [(process.pid, ⟨argv, process.fds⟩)] := by
  have nothing := pipe_presentFrom_absent holds absent 0
  rw [pipe_and_execWithin]
  simp only [pipe_present, nothing, if_true]
  rw [if_neg (by decide), execCalls_execvp (fun after => rfl)]
  simp [silent]

/-- The recursion crosses a fork: the induction is on the vector that is left,
for any process whose input is the pipe of the stage before. -/
theorem stages_of_exec (granted : Granted oracle) {entry : Nat → Option File}
    (output : entry STDOUT_FILENO ≠ none) {depth : Nat} {argv : Argv} {tokens : List String}
    (holds : Holds argv tokens) (proper : Proper tokens) (enough : tokens.length < depth)
    {process : Process} {stdin : Option File} (input : stdin ≠ none)
    (fds : process.fds.file = Function.update entry STDIN_FILENO stdin)
    (silent : process.execs = []) :
    ∃ names, Stages entry stdin (tokens.splitOn "|") names
        (execCalls (pipe_and_execWithin depth argv oracle process)) ∧
      ∀ call ∈ execCalls (pipe_and_execWithin depth argv oracle process),
        process.pid.length ≤ call.1.length := by
  induction depth generalizing argv tokens process stdin with
  | zero => omega
  | succ depth ih =>
    -- With a pipe symbol the process forks, and the child runs the induction; without one it executes.
    by_cases present : "|" ∈ tokens
    · obtain ⟨left, right, rfl, absent⟩ := List.eq_append_cons_of_mem present
      obtain ⟨some_left, some_right⟩ := proper.sides
      obtain ⟨rest, index, cut, dropped⟩ := holds.cut absent some_left some_right
      have stdin_open : process.fds.file STDIN_FILENO ≠ none := by
        simpa [fds] using input
      have stdout_open : process.fds.file STDOUT_FILENO ≠ none := by
        rw [fds, Function.update_of_ne (by decide)]
        exact output
      obtain ⟨writer, reader, run, writer_pid, writer_execs, writer_fds, reader_pid, reader_execs,
        reader_fds⟩ := pipe_and_exec_split granted stdin_open stdout_open index
          (by simpa using some_left) depth
      rw [dropped] at run
      rw [fds, Function.update_idem] at reader_fds
      obtain ⟨names, others, deeper⟩ := ih ⟨rest, rfl⟩ proper.right
        (by simp at enough; omega) (by simp) reader_fds reader_execs
      have calls : execCalls (pipe_and_execWithin (depth + 1) argv oracle process) =
          (process.pid, ⟨argv.set left.length none, writer.fds⟩) ::
            execCalls (pipe_and_execWithin depth (right.map some ++ none :: rest) oracle reader) := by
        rw [run, execCalls_append, execCalls_execvp (fun after => rfl)]
        simp [writer_execs, writer_pid, silent]
      have segments : (left ++ "|" :: right).splitOn "|" = left :: right.splitOn "|" :=
        List.splitOn_append_cons_self_of_not_mem absent right
      rw [calls, segments]
      refine ⟨⟨process.pid, process.calls⟩ :: names, ?_, ?_⟩
      · refine .stage ⟨_, cut⟩ ?_ ?_ others
        · rw [← fds]
          exact writer_fds
        · intro call member
          have := deeper call member
          rw [reader_pid, List.length_append, List.length_singleton] at this
          exact this
      · intro call member
        rcases List.mem_cons.mp member with rfl | later
        · exact Nat.le_refl _
        · have := deeper call later
          rw [reader_pid, List.length_append, List.length_singleton] at this
          omega
    · rw [execCalls_last holds present depth silent, List.splitOn_eq_singleton present]
      refine ⟨[], .last holds fds, ?_⟩
      simp

/-- The wiring of a pipeline entered with these descriptors. -/
structure Wired (fds : Table File) (segments : List (List String)) (calls : List (Pid × Exec)) :
    Prop where
  argv : List.Forall₂ (fun call segment => Holds call.2.argv segment) calls segments
  distinct : (calls.map Prod.fst).Nodup
  pipes : ∃ names : List PipeName, names.Nodup ∧ names.length + 1 = calls.length ∧
    ∀ index call, calls[index]? = some call →
      call.2.fds.file STDIN_FILENO =
        (if index = 0 then fds.file STDIN_FILENO else names[index - 1]?.map (File.pipe · .read)) ∧
      call.2.fds.file STDOUT_FILENO =
        (if index = names.length then fds.file STDOUT_FILENO
          else names[index]?.map (File.pipe · .write)) ∧
      ∀ fd name side, call.2.fds.file fd = some (.pipe name side) →
        fd = STDIN_FILENO ∨ fd = STDOUT_FILENO

namespace Stages

variable {entry : Nat → Option File} {stdin : Option File} {segments : List (List String)}
  {names : List PipeName} {calls : List (Pid × Exec)}

theorem argv (stages : Stages entry stdin segments names calls) :
    List.Forall₂ (fun call segment => Holds call.2.argv segment) calls segments := by
  induction stages with
  | last argv => exact .cons argv .nil
  | stage argv _ _ _ ih => exact .cons argv ih

theorem count (stages : Stages entry stdin segments names calls) :
    names.length + 1 = calls.length := by
  induction stages with
  | last => rfl
  | stage _ _ _ _ ih => simp [ih]

theorem distinct (stages : Stages entry stdin segments names calls) :
    (calls.map Prod.fst).Nodup := by
  induction stages with
  | last => simp
  | stage _ _ deeper _ ih =>
    refine List.nodup_cons.mpr ⟨?_, ih⟩
    intro member
    obtain ⟨call, inside, same⟩ := List.mem_map.mp member
    have longer := deeper call inside
    rw [same] at longer
    exact Nat.lt_irrefl _ longer

/-- Every pipe was created by the stage that writes into it. -/
theorem creators (stages : Stages entry stdin segments names calls) :
    (names.map PipeName.creator).Sublist (calls.map Prod.fst) := by
  induction stages with
  | last => exact List.nil_sublist _
  | stage _ _ _ _ ih => exact ih.cons_cons _

/-- The descriptors of each stage. -/
theorem descriptors (stages : Stages entry stdin segments names calls) {index : Nat}
    {call : Pid × Exec} (at_index : calls[index]? = some call) :
    call.2.fds.file STDIN_FILENO =
        (if index = 0 then stdin else names[index - 1]?.map (File.pipe · .read)) ∧
      call.2.fds.file STDOUT_FILENO =
        (if index = names.length then entry STDOUT_FILENO
          else names[index]?.map (File.pipe · .write)) ∧
      ∀ fd, fd ≠ STDIN_FILENO → fd ≠ STDOUT_FILENO → call.2.fds.file fd = entry fd := by
  have apart : STDOUT_FILENO ≠ STDIN_FILENO := by decide
  induction stages generalizing index with
  | last _ fds =>
    obtain ⟨rfl, rfl⟩ : index = 0 ∧ _ := by simpa [List.getElem?_singleton] using at_index
    refine ⟨by simp [fds], by simp [fds, apart], fun fd other _ => by simp [fds, other]⟩
  | stage _ fds _ _ ih =>
    cases index with
    | zero =>
      cases at_index
      refine ⟨by simp [fds, apart.symm], by simp [fds], fun fd other another => ?_⟩
      simp [fds, other, another]
    | succ index =>
      obtain ⟨stdin_of, stdout_of, rest⟩ := ih (by simpa using at_index)
      refine ⟨?_, by simpa using stdout_of, rest⟩
      cases index with
      | zero => simpa using stdin_of
      | succ index => simpa using stdin_of

end Stages

/-- A pipeline is wired for any process that has these descriptors. -/
theorem wired_of_process (granted : Granted oracle) {process : Process}
    (silent : process.execs = []) (standard : ∀ fd ≤ 2, process.fds.file fd ≠ none)
    (fresh : ∀ fd name side, process.fds.file fd ≠ some (.pipe name side))
    {argv : Argv} {tokens : List String} (holds : Holds argv tokens) (proper : Proper tokens) :
    Wired process.fds (tokens.splitOn "|") (execCalls (pipe_and_exec argv oracle process)) := by
  -- The fuel of the recursion is the length of the vector, which holds the tokens and a NULL.
  have enough : tokens.length < argv.length + 1 := by
    obtain ⟨rest, rfl⟩ := holds
    simp only [List.length_append, List.length_map, List.length_cons]
    omega
  obtain ⟨names, stages, -⟩ := stages_of_exec granted (standard STDOUT_FILENO (by decide)) holds
    proper enough (standard STDIN_FILENO (by decide))
    (Function.update_eq_self STDIN_FILENO process.fds.file).symm silent
  refine ⟨stages.argv, stages.distinct, names, ?_, stages.count, ?_⟩
  · exact List.Nodup.of_map _ (stages.creators.nodup stages.distinct)
  · intro index call at_index
    obtain ⟨input, output, others⟩ := stages.descriptors at_index
    refine ⟨input, output, fun fd name side held => ?_⟩
    by_contra outside
    rw [not_or] at outside
    rw [others fd outside.1 outside.2] at held
    exact fresh fd name side held

/-- Every proper pipeline is wired, whether or not its commands can be executed. -/
theorem pipe_and_exec_wired (granted : Granted oracle) (pid : Pid) {fds : Table File}
    (standard : ∀ fd ≤ 2, fds.file fd ≠ none)
    (fresh : ∀ fd name side, fds.file fd ≠ some (.pipe name side))
    {argv : Argv} {tokens : List String} (holds : Holds argv tokens) (proper : Proper tokens) :
    Wired fds (tokens.splitOn "|")
      (execCalls (pipe_and_exec argv oracle (Process.entering pid fds))) := by
  have silent : (Process.entering pid fds).execs = [] := rfl
  exact wired_of_process granted silent standard fresh holds proper

/-- The descriptors of a shell at a terminal. -/
def terminal : Table File where
  file fd := if fd < 3 then some (.inherited fd) else none
  bound := 3
  closed _ outside := if_neg (Nat.not_lt.mpr outside)

/-- Every system call succeeds. -/
def allGranted : Oracle := fun _ _ _ => none

theorem allGranted_granted : Granted allGranted :=
  ⟨fun _ _ => rfl, fun _ _ => rfl, fun _ _ => rfl, fun _ _ => rfl⟩

theorem terminal_fresh (fd : Nat) (name : PipeName) (side : Side) :
    terminal.file fd ≠ some (.pipe name side) := by
  simp only [terminal]
  split <;> simp

theorem terminal_standard : ∀ fd ≤ 2, terminal.file fd ≠ none := by decide

/-- Three stages: the inner one has both an input and an output pipe. -/
theorem three_stages_wired :
    Wired terminal [["ls"], ["sort", "-r"], ["wc"]]
      (execCalls (pipe_and_exec
        [some "ls", some "|", some "sort", some "-r", some "|", some "wc", none]
        allGranted (Process.entering [] terminal))) := by
  have holds : Holds [some "ls", some "|", some "sort", some "-r", some "|", some "wc", none]
      ["ls", "|", "sort", "-r", "|", "wc"] := ⟨[], rfl⟩
  have proper : Proper ["ls", "|", "sort", "-r", "|", "wc"] :=
    ⟨by decide, by decide, by decide⟩
  have segments : ["ls", "|", "sort", "-r", "|", "wc"].splitOn "|" =
      [["ls"], ["sort", "-r"], ["wc"]] := by decide
  rw [← segments]
  exact pipe_and_exec_wired allGranted_granted [] terminal_standard terminal_fresh holds proper

end LinuxProgramming.Shell
