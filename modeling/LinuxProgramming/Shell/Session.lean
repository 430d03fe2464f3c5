import LinuxProgramming.Shell.Command
import LinuxProgramming.Shell.Dispatch

/-! A session of the shell, from the bytes on its input to the programs that are executed.

The main loop hands the vectors of its lines to the builtin commands, which fork nobody,
or to the processes of the commands. What the lines of a session mean is said without
the shell: the parts of a line between its pipe symbols, each with the descriptors of
the shell, and the two ends of the line with the files that it redirects to.
-/

set_option autoImplicit false

namespace LinuxProgramming.Shell
open Foundation

/-- A token as an argument of a system call. -/
def text (token : List Byte) : String := String.ofList (token.map fun c => Char.ofNat c.toNat)

/-- An argument that is not there: the read of a NULL pointer. -/
def fault : System Unit := fun _ process => [.killed process SIGSEGV]

/-- What becomes of the shell's processes for one vector. -/
def perform (indeterminate : Int) (command : Dispatched) : System Unit :=
  match command.target with
  | .builtin entry =>
    if comesBack false command then pure ()
    else if entry = .bi_quit then System.exit 0
    else fault
  | .run_command => run_command indeterminate (command.argv.map (Option.map text))

/-- The commands in their order, and the exit at the end of the input. What `is_background`
returns for a vector without `&` may differ from command to command. -/
def performAll (indeterminate : Nat → Int) : Nat → List Dispatched → System Unit
  | _, [] => System.exit 0
  | count, command :: later => do
    perform (indeterminate count) command
    performAll indeterminate (count + 1) later

/-- One session, whose input the commands leave to the shell; each round reads some of it. -/
def shell (indeterminate : Nat → Int) (this : Option Nat) (stdin : List Byte) : System Unit :=
  match main calm this stdin (stdin.length + 1) with
  | some commands => performAll indeterminate 0 commands
  | none => System.exit EXIT_FAILURE

/-! What a session means. -/

/-- The files of a line's redirections in place of the standard descriptors. -/
def redirected : List Item → (Nat → Option File) → Nat → Option File
  | [], file => file
  | .word _ :: items, file => redirected items file
  | .input path :: items, file =>
    redirected items (Function.update file STD_INPUT (some (.disk path .readOnly)))
  | .output path :: items, file =>
    redirected items (Function.update file STD_OUTPUT (some (.disk path .writeCreateTruncate)))

/-- A line leads to these calls: one for each of its parts, wired to each other and, at
the ends, to what the line redirects to. -/
def Executes (fds : Table File) (line : Line) (calls : List (Pid × Exec)) : Prop :=
  ∃ entered : Table File, entered.file = redirected line.items fds.file ∧
    Wired entered (line.kept.splitOn "|") calls

/-- The vectors that go to `run_command`. -/
def external : List Dispatched → List Argv
  | [] => []
  | command :: later =>
    match command.target with
    | .builtin _ => external later
    | .run_command => command.argv.map (Option.map text) :: external later

/-- The shell is the first of the processes, with its own descriptors. All of them have
ended, each program is executed in a process of its own, and the programs are those of the
lines; the ones of a later line come first. -/
structure Ran (process : Process) (lines : List Line) (lives : List (Life Unit)) : Prop where
  shell : ∃ caller children, lives = caller :: children ∧ caller.process.pid = process.pid ∧
    caller.process.fds = process.fds
  ended : ∀ life ∈ lives, life.ended = true
  calls : ∃ groups, execCalls lives = groups.reverse.flatten ∧
    List.Forall₂ (Executes process.fds) lines groups
  distinct : ((execCalls lives).map Prod.fst).Nodup

/-! The redirections of one line. -/

theorem redirected_dropWhile (items : List Item) (file : Nat → Option File) :
    redirected (items.dropWhile Item.isWord) file = redirected items file := by
  induction items with
  | nil => rfl
  | cons item items ih =>
    cases item with
    | word token => exact ih
    | input path => rfl
    | output path => rfl

/-- What the redirections of a line leave of it is entered with these files. -/
theorem redirections_enter {oracle : Oracle} (redirectable : Redirectable oracle)
    {process : Process} (standard : ∀ fd ≤ 2, process.fds.file fd ≠ none) {argv : Argv}
    {line : Line} (holds : Holds argv line.tokens) (kept : Kept process.fds line.tail) :
    ∃ left next, redirections argv oracle process = [.running left next] ∧
      Lossless line left next.fds ∧
      next.fds.file = redirected line.items process.fds.file := by
  have input_open := standard STD_INPUT (by decide)
  have output_open := standard STD_OUTPUT (by decide)
  have apart : STD_OUTPUT ≠ STD_INPUT := by decide
  have tail_files : redirected line.items process.fds.file =
      redirected line.tail process.fds.file := (redirected_dropWhile ..).symm
  rw [tail_files]
  -- Each of the four shapes that lose nothing has an outcome of its own.
  have lossless : ∀ fds, Outcome oracle process argv line fds →
      fds = redirected line.tail process.fds.file →
      ((∀ item ∈ line.tail, item.isWord = false) ∧
        (∀ path, .input path ∈ line.tail → fds STD_INPUT = some (.disk path .readOnly)) ∧
        (∀ path, .output path ∈ line.tail →
          fds STD_OUTPUT = some (.disk path .writeCreateTruncate))) →
      ∃ left next, redirections argv oracle process = [.running left next] ∧
        Lossless line left next.fds ∧
        next.fds.file = redirected line.tail process.fds.file := by
    rintro _ ⟨left, next, run, cut, _, rfl⟩ same all
    exact ⟨left, next, run, (lossless_iff line cut next.fds).mpr all, same⟩
  unfold Kept at kept
  split at kept
  next tail =>
    apply lossless _ (outcome_none holds tail)
    · rw [tail]
      rfl
    · simp [tail]
  next path tail =>
    apply lossless _ (outcome_input redirectable holds tail)
    · rw [tail, (installed_input _ _).mpr input_open]
      rfl
    · simp [tail, Item.isWord, (installed_input _ _).mpr input_open]
  next path tail =>
    apply lossless _ (outcome_output redirectable holds tail (by simp))
    · rw [tail, (installed_output _ _).mpr (.inr output_open)]
      rfl
    · simp [tail, Item.isWord, (installed_output _ _).mpr (.inr output_open)]
  next target source tail =>
    have shape : line.tail = .output target :: ([] ++ .input source :: []) := tail
    obtain ⟨middle, fds, outcome⟩ := outcome_both redirectable process holds shape (by simp)
    have middle_open : middle.file STD_OUTPUT ≠ none := by
      rw [fds, Function.update_of_ne apart]
      exact output_open
    rw [(installed_output _ _).mpr (.inr middle_open), fds,
      (installed_input _ _).mpr input_open] at outcome
    apply lossless _ outcome
    · rw [tail]
      exact (Function.update_comm apart _ _ _).symm
    · simp [tail, Item.isWord, apart.symm]
  next => exact kept.elim

/-! The processes of a session. -/

theorem andThen_ended {oracle : Oracle} {next : Unit → System Unit} {lives : List (Life Unit)}
    (ended : ∀ life ∈ lives, life.ended = true) :
    lives.flatMap (System.andThen next oracle) = lives := by
  induction lives with
  | nil => rfl
  | cons life lives ih =>
    have rest := ih fun other member => ended other (List.mem_cons_of_mem life member)
    have here := ended life List.mem_cons_self
    cases life with
    | running value process => cases here
    | executing process => rw [List.flatMap_cons, rest]; rfl
    | exited process status => rw [List.flatMap_cons, rest]; rfl
    | killed process signal => rw [List.flatMap_cons, rest]; rfl

section Session

variable {oracle : Oracle} {process : Process} {indeterminate : Int}

/-- Behind a command, the shell goes on as it was, and the command's processes are left. -/
theorem run_command_then (granted : oracle.Grants .fork) (argv : Argv) (next : Unit → System Unit) :
    (run_command indeterminate argv >>= next) oracle process =
      next () oracle (process.succeed process.fds) ++
        run_commandChild argv oracle process.child := by
  rw [System.bind_run, run_command_forked (granted _ _), List.flatMap_cons,
    andThen_ended (run_commandChild_ended argv oracle process.child)]
  rfl

/-- The calls for one line, in processes below the child that was forked for it. -/
theorem line_calls (granted : Granted oracle) (redirectable : Redirectable oracle)
    (standard : ∀ fd ≤ 2, process.fds.file fd ≠ none)
    (fresh : ∀ fd name side, process.fds.file fd ≠ some (.pipe name side)) {argv : Argv}
    {line : Line} (holds : Holds argv line.tokens) (kept : Kept process.fds line.tail)
    (proper : Proper line.kept) :
    Executes process.fds line (execCalls (run_commandChild argv oracle process.child)) ∧
      ∀ call ∈ execCalls (run_commandChild argv oracle process.child),
        process.pid ++ [process.calls] <+: call.1 := by
  constructor
  · have silent : process.child.execs = [] := rfl
    have child_standard : ∀ fd ≤ 2, process.child.fds.file fd ≠ none := standard
    obtain ⟨left, next, run, lossless, files⟩ :=
      redirections_enter redirectable child_standard holds kept
    exact ⟨next.fds, files, run_commandChild_wired granted redirectable silent child_standard
      fresh holds run lossless proper⟩
  · intro call member
    obtain ⟨life, inside, executed⟩ := List.mem_flatMap.mp member
    obtain ⟨exec, _, rfl⟩ := List.mem_map.mp executed
    exact (lineal_run_commandChild argv oracle process.child).descends _
      (List.mem_map_of_mem inside)

/-- All calls of a session are made below a child that the shell has forked in it. -/
def Below (process : Process) (lives : List (Life Unit)) : Prop :=
  ∀ call ∈ execCalls lives, ∃ serial, process.calls ≤ serial ∧
    process.pid ++ [serial] <+: call.1

/-- The processes of one line, and then those of the later ones. -/
theorem Ran.line {line : Line} {lines : List Line} {lives children : List (Life Unit)}
    (ran : Ran (process.succeed process.fds) lines lives)
    (below : Below (process.succeed process.fds) lives)
    (ended : ∀ life ∈ children, life.ended = true)
    (executes : Executes process.fds line (execCalls children))
    (forked : ∀ call ∈ execCalls children, process.pid ++ [process.calls] <+: call.1) :
    Ran process (line :: lines) (lives ++ children) ∧ Below process (lives ++ children) := by
  obtain ⟨caller, others, split, same, fds⟩ := ran.shell
  obtain ⟨groups, calls, each⟩ := ran.calls
  refine ⟨⟨⟨caller, others ++ children, by rw [split, List.cons_append], same, fds⟩, ?_, ?_, ?_⟩, ?_⟩
  · intro life member
    rcases List.mem_append.mp member with later | here
    · exact ran.ended life later
    · exact ended life here
  · refine ⟨execCalls children :: groups, ?_, .cons executes each⟩
    simp [calls]
  · have one : ((execCalls children).map Prod.fst).Nodup := by
      obtain ⟨_, _, wired⟩ := executes
      exact wired.distinct
    rw [execCalls_append, List.map_append]
    apply List.nodup_append'.mpr
    refine ⟨ran.distinct, one, ?_⟩
    intro pid later here
    obtain ⟨call, member, rfl⟩ := List.mem_map.mp later
    obtain ⟨other, child, same_pid⟩ := List.mem_map.mp here
    obtain ⟨serial, above, under⟩ := below call member
    have beside := forked other child
    rw [same_pid] at beside
    -- Two children of the shell with one descendant are the same one.
    have equal := List.IsPrefix.eq_of_length_le
      (List.prefix_of_prefix_length_le under beside (by simp)) (by simp)
    have serials := List.append_cancel_left equal
    simp only [Process.succeed] at above
    cases serials
    omega
  · intro call member
    rw [execCalls_append] at member
    rcases List.mem_append.mp member with later | here
    · obtain ⟨serial, above, under⟩ := below call later
      exact ⟨serial, Nat.le_of_succ_le above, under⟩
    · exact ⟨process.calls, Nat.le_refl _, forked call here⟩

/-- The shell itself has executed nothing when it ends. -/
theorem ran_ended (silent : process.execs = []) {life : Life Unit} (ended : life.ended = true)
    (same : life.process = process) : Ran process [] [life] ∧ Below process [life] := by
  have none : execCalls [life] = [] := by simp [same, silent]
  refine ⟨⟨⟨life, [], rfl, by rw [same], by rw [same]⟩, ?_, ⟨[], by simp [none], .nil⟩,
    by simp [none]⟩, ?_⟩
  · intro other member
    rw [List.mem_singleton.mp member]
    exact ended
  · intro call member
    rw [none] at member
    cases member

theorem ran_performAll (granted : Granted oracle) (redirectable : Redirectable oracle)
    (indeterminate : Nat → Int) {commands : List Dispatched} {lines : List Line} (count : Nat)
    (silent : process.execs = []) (standard : ∀ fd ≤ 2, process.fds.file fd ≠ none)
    (fresh : ∀ fd name side, process.fds.file fd ≠ some (.pipe name side))
    (typed : List.Forall₂ (fun argv line => Holds argv line.tokens)
      (external (untilEnd calm count commands)) lines)
    (kept : ∀ line ∈ lines, Kept process.fds line.tail)
    (proper : ∀ line ∈ lines, Proper line.kept) :
    Ran process lines (performAll indeterminate count commands oracle process) ∧
      Below process (performAll indeterminate count commands oracle process) := by
  induction commands generalizing lines count process with
  | nil =>
    cases typed
    exact @ran_ended process silent (.exited process 0) rfl rfl
  | cons command later ih =>
    rw [untilEnd] at typed
    rw [performAll]
    cases target : command.target with
    | builtin entry =>
      cases back : comesBack (calm.fails count) command with
      | true =>
        have comes : comesBack false command = true := back
        simp only [back, if_true, external, target] at typed
        simp only [perform, target, comes, if_true]
        have goes_on : ((pure () : System Unit) >>= fun _ =>
            performAll indeterminate (count + 1) later) oracle process =
              performAll indeterminate (count + 1) later oracle process :=
          System.bind_running rfl _
        rw [goes_on]
        exact ih (count + 1) silent standard fresh typed kept proper
      | false =>
        have stays : comesBack false command = false := back
        simp only [back, Bool.false_eq_true, if_false, external, target] at typed
        simp only [perform, target, stays, Bool.false_eq_true, if_false]
        cases typed
        split
        · exact @ran_ended process silent (.exited process 0) rfl rfl
        · exact @ran_ended process silent (.killed process SIGSEGV) rfl rfl
    | run_command =>
      have back : comesBack (calm.fails count) command = true := by rw [comesBack, target]; rfl
      simp only [back, if_true, external, target] at typed
      simp only [perform, target]
      cases typed with
      | cons holds typed =>
        rename_i line lines
        rw [run_command_then granted.fork]
        obtain ⟨calls, forked⟩ := line_calls granted redirectable standard fresh holds
          (kept line List.mem_cons_self) (proper line List.mem_cons_self)
        have succeeded : (process.succeed process.fds).execs = [] := silent
        obtain ⟨ran, below⟩ := ih (count + 1) succeeded standard fresh typed
          (fun line member => kept line (List.mem_cons_of_mem _ member))
          fun line member => proper line (List.mem_cons_of_mem _ member)
        exact ran.line below (run_commandChild_ended _ oracle process.child) calls forked

end Session

/-- The first command after which the prompt does not come back is the last one. -/
theorem untilEnd_idem (world : World) (count : Nat) (commands : List Dispatched) :
    untilEnd world count (untilEnd world count commands) = untilEnd world count commands := by
  induction commands generalizing count with
  | nil => rfl
  | cons command later ih =>
    rw [untilEnd]
    cases back : comesBack (world.fails count) command with
    | true => simp only [if_true, untilEnd, back, ih]
    | false => simp [untilEnd, back]

/-- `pwd`, then `ls -l | wc > n`, then the end of the session. -/
def pwdThenPipe : List Byte := ascii "pwd\nls -l | wc > n\nbye\nls\n"

def pipeLine : Line :=
  ⟨"ls", [.word "-l", .word "|", .word "wc", .output "n"], by decide, by decide, by decide,
    by decide⟩

end LinuxProgramming.Shell
