import LinuxProgramming.Foundation.Lineage
import LinuxProgramming.Shell.Redirection

/-! A command of the shell, from the fork to the end of its processes.

The recursion of the pipeline returns in several processes when a command is
missing or cannot be executed; all of them are below the child that was forked
here, whose last statement is an exit.
-/

set_option autoImplicit false

namespace LinuxProgramming.Shell
open Foundation

/-- The loop that looks for `&`. A vector without it ends the function without
a return value; what the caller then reads is an argument here. -/
def searchBackground (indeterminate : Int) : Argv → Int
  | [] | none :: _ => indeterminate
  | some token :: rest => if token = "&" then 1 else searchBackground indeterminate rest

def is_background (indeterminate : Int) (myArgv : Argv) : Int :=
  if myArgv.head? = some none then 0 else searchBackground indeterminate myArgv

/-- Waiting changes when the caller goes on, but not what the processes become. -/
def waitpid (_pid : Pid) : System Unit := pure ()

/-- The parent's report on the status of its child is left out. -/
def run_command (indeterminate : Int) (myArgv : Argv) : System Unit := do
  let run_in_background := is_background indeterminate myArgv
  match ← System.fork with
  | .failed =>
    System.perror "fork"
    System.exitErrno
  | .parent pid => if run_in_background = 0 then waitpid pid else pure ()
  | .child => run_commandChild myArgv

theorem searchBackground_absent {argv : Argv} {tokens : List String} (holds : Holds argv tokens)
    (absent : "&" ∉ tokens) (indeterminate : Int) :
    searchBackground indeterminate argv = indeterminate := by
  obtain ⟨rest, rfl⟩ := holds
  induction tokens with
  | nil => rfl
  | cons token tokens ih =>
    simp only [List.mem_cons, not_or] at absent
    simp [searchBackground, Ne.symm absent.1, ih absent.2]

/-- A command without `&` is in the background or not as the indeterminate value has it. -/
theorem is_background_absent {argv : Argv} {tokens : List String} (holds : Holds argv tokens)
    (filled : tokens ≠ []) (absent : "&" ∉ tokens) (indeterminate : Int) :
    is_background indeterminate argv = indeterminate := by
  have first : argv.head? ≠ some none := by
    obtain ⟨rest, rfl⟩ := holds
    obtain ⟨token, tokens, rfl⟩ := List.exists_cons_of_ne_nil filled
    simp
  rw [is_background, if_neg first, searchBackground_absent holds absent]

/-- With a pipe in the vector, the part on the right of it is shorter. -/
theorem right_shorter {argv : Argv} (present : pipe_present argv ≠ 0) (index : Nat) :
    ((argv.set index none).drop (index + 1)).length < argv.length := by
  have filled : argv.length ≠ 0 := by
    intro empty
    rw [List.length_eq_zero_iff] at empty
    subst empty
    exact present rfl
  rw [List.length_drop, List.length_set]
  omega

theorem pipe_and_execWithin_mono {less more : Nat} {argv : Argv} (enough : argv.length < less)
    (below : less ≤ more) : pipe_and_execWithin less argv = pipe_and_execWithin more argv := by
  induction less generalizing more argv with
  | zero => omega
  | succ less ih =>
    obtain ⟨more, rfl⟩ := Nat.exists_eq_succ_of_ne_zero (by omega : more ≠ 0)
    rw [pipe_and_execWithin, pipe_and_execWithin]
    by_cases absent : pipe_present argv = 0
    · simp [absent]
    · have shorter := right_shorter absent (pipe_present argv).toNat
      have rest := ih (Nat.lt_of_lt_of_le shorter (by omega)) (show less ≤ more by omega)
      simp only [rest]

/-- The recursion never runs out of depth: more of it gives the same processes. -/
theorem pipe_and_execWithin_depth {argv : Argv} {depth : Nat} (enough : argv.length < depth) :
    pipe_and_execWithin depth argv = pipe_and_exec argv :=
  (pipe_and_execWithin_mono (Nat.lt_succ_self _) enough).symm

theorem straight_redirect (operator : String) (access : Access) (standard : Nat) (argv : Argv) :
    StraightProgram (redirect operator access standard argv) := by
  unfold redirect
  split
  · exact .pure _
  · refine (StraightProgram.openFile _ _).bind fun opened => ?_
    cases opened with
    | none => exact (StraightProgram.message _).bind fun _ => .pure _
    | some fd =>
      refine (StraightProgram.dup2 _ _).bind fun moved => ?_
      cases moved with
      | false => exact (StraightProgram.message _).bind fun _ => .pure _
      | true =>
        refine (StraightProgram.close _).bind fun closed => ?_
        cases closed with
        | false => exact (StraightProgram.message _).bind fun _ => .pure _
        | true => exact .pure _

theorem straight_redirections (argv : Argv) : StraightProgram (redirections argv) :=
  (straight_redirect _ _ _ _).bind fun _ => (straight_redirect _ _ _ _).bind fun _ => .pure _

/-- At every depth, whichever of the calls fail. -/
theorem lineal_pipe_and_exec (depth : Nat) (argv : Argv) :
    LinealProgram (pipe_and_execWithin depth argv) := by
  induction depth generalizing argv with
  | zero => exact .pure _
  | succ depth ih =>
    rw [pipe_and_execWithin]
    split
    · exact (StraightProgram.message _).lineal.bind fun _ => (StraightProgram.setErrno _).lineal
    split
    · exact (LinealProgram.execvp _).bind fun _ => (StraightProgram.message _).lineal
    refine LinealProgram.pipe.bind fun ends => ?_
    cases ends with
    | none => exact (StraightProgram.message _).lineal.bind fun _ => .exit _
    | some ends =>
      refine LinealProgram.fork.bind fun forked => ?_
      cases forked with
      | failed => exact (StraightProgram.message _).lineal.bind fun _ => .exit _
      | parent =>
        exact (StraightProgram.close _).lineal.bind fun _ =>
          (StraightProgram.dup2 _ _).lineal.bind fun _ =>
            (StraightProgram.close _).lineal.bind fun _ => (LinealProgram.execvp _).bind fun _ =>
              (StraightProgram.message _).lineal.bind fun _ => .exit _
      | child =>
        exact (StraightProgram.close _).lineal.bind fun _ =>
          (StraightProgram.dup2 _ _).lineal.bind fun _ =>
            (StraightProgram.close _).lineal.bind fun _ => ih _

theorem lineal_run_commandChild (argv : Argv) : LinealProgram (run_commandChild argv) :=
  (straight_redirections argv).lineal.bind fun _ => (lineal_pipe_and_exec _ _).bind fun _ => .exitErrno

theorem lineal_run_command (indeterminate : Int) (argv : Argv) :
    LinealProgram (run_command indeterminate argv) := by
  refine LinealProgram.fork.bind fun forked => ?_
  cases forked with
  | failed => exact (StraightProgram.message _).lineal.bind fun _ => .exitErrno
  | parent =>
    dsimp only
    split <;> exact .pure _
  | child => exact lineal_run_commandChild argv

/-- Without a failure to fork, the parent goes on and the child runs the command. -/
theorem run_command_forked {oracle : Oracle} {process : Process}
    (granted : oracle process.pid process.calls .fork = none)
    (indeterminate : Int) (argv : Argv) : run_command indeterminate argv oracle process =
      .running () (process.succeed process.fds) :: run_commandChild argv oracle process.child := by
  by_cases waits : is_background indeterminate argv = 0 <;>
    simp [run_command, System.bind_run, System.fork, granted, System.andThen, waits, waitpid, pure]

theorem run_command_failed {oracle : Oracle} {process : Process} {error : Nat}
    (denied : oracle process.pid process.calls .fork = some error)
    (indeterminate : Int) (argv : Argv) :
    ∃ caller, run_command indeterminate argv oracle process = [.exited caller error] ∧
      caller.pid = process.pid := by
  simp [run_command, System.bind_run, System.fork, denied, System.andThen, System.perror,
    System.message, System.exitErrno, Process.fail]

theorem run_commandChild_ended (argv : Argv) : EndingProgram (run_commandChild argv) :=
  .bind _ fun _ => .bind _ fun _ => .exitErrno

/-- Only the caller can still be running the shell when a command has been handled: all
processes forked for it are below the caller and have ended. -/
theorem run_command_first (indeterminate : Int) (argv : Argv) (oracle : Oracle)
    (process : Process) :
    ∃ caller children, run_command indeterminate argv oracle process = caller :: children ∧
      caller.process.pid = process.pid ∧
      ∀ life ∈ children, process.pid <+: life.process.pid ∧ life.process.pid ≠ process.pid ∧
        life.ended = true := by
  obtain ⟨caller, children, split, same, below⟩ :=
    (lineal_run_command indeterminate argv oracle process).first
  refine ⟨caller, children, split, same, fun life member => ?_⟩
  obtain ⟨above, different⟩ := below life member
  refine ⟨above, different, ?_⟩
  cases granted : oracle process.pid process.calls .fork with
  | none =>
    have forked := run_command_forked granted indeterminate argv
    obtain ⟨-, rfl⟩ := List.cons_eq_cons.mp (forked.symm.trans split)
    exact run_commandChild_ended argv oracle process.child life member
  | some error =>
    obtain ⟨exited, alone, -⟩ := run_command_failed granted indeterminate argv
    obtain ⟨-, rfl⟩ := List.cons_eq_cons.mp (alone.symm.trans split)
    cases member

/-! Which of the processes end in a program or in `exit`. -/

/-- The command returns in its caller only: every process forked for it is below the caller
and has ended in a successful `execvp` or in `exit`. -/
def ReturnsInCaller (process : Process) (lives : List (Life Unit)) : Prop :=
  ∃ caller children, lives = caller :: children ∧ caller.process.pid = process.pid ∧
    ∀ life ∈ children, process.pid <+: life.process.pid ∧ life.process.pid ≠ process.pid ∧
      ((∃ after, life = .executing after) ∨ ∃ after status, life = .exited after status)

/-- The first token is an operator with a file name behind it. -/
def OperatorFirst (tokens : List String) : Prop :=
  (tokens.head? = some "<" ∨ tokens.head? = some ">") ∧ 1 < tokens.length

theorem Holds.head_iff {argv : Argv} {tokens : List String} (holds : Holds argv tokens) :
    argv.head?.join = none ↔ tokens = [] := by
  obtain ⟨rest, rfl⟩ := holds
  cases tokens <;> simp

theorem OperatorFirst.of_prefix {kept tokens : List String} (front : kept <+: tokens)
    (first : OperatorFirst kept) : OperatorFirst tokens := by
  obtain ⟨behind, rfl⟩ := front
  obtain ⟨operator, longer⟩ := first
  have filled : kept ≠ [] := by
    rintro rfl
    cases longer
  refine ⟨?_, ?_⟩
  · rwa [List.head?_append_of_ne_nil _ filled]
  · rw [List.length_append]
    omega

section Survival

variable {oracle : Oracle} {argv : Argv} {tokens : List String}

/-- What a pass leaves of a vector; it leaves nothing only of one that it is first in. -/
theorem redirect_keeps {operator : String} (operates : operator = "<" ∨ operator = ">")
    (access : Access) (standard : Nat) (holds : Holds argv tokens) (process : Process) :
    ∃ code left next kept,
      redirect operator access standard argv oracle process = [.running (code, left) next] ∧
      Holds left kept ∧ kept <+: tokens ∧
      (tokens ≠ [] → ¬OperatorFirst tokens → kept ≠ []) := by
  obtain ⟨code, left, next, run, rfl | ⟨before, path, after, rfl, absent, rfl⟩⟩ :=
    @redirect_cases oracle process operator access standard argv tokens holds
  · exact ⟨code, left, next, tokens, run, holds, List.prefix_rfl, fun filled _ => filled⟩
  · refine ⟨code, _, next, before, run, holds.set, List.prefix_append before _, ?_⟩
    rintro - plain rfl
    refine plain ⟨?_, by simp⟩
    rcases operates with rfl | rfl
    · exact .inl rfl
    · exact .inr rfl

theorem redirections_keep (holds : Holds argv tokens) (process : Process) :
    ∃ left next kept, redirections argv oracle process = [.running left next] ∧
      Holds left kept ∧ (tokens ≠ [] → ¬OperatorFirst tokens → kept ≠ []) := by
  obtain ⟨one, first, middle, some_kept, input, first_holds, front, some_left⟩ :=
    @redirect_keeps oracle argv tokens "<" (.inl rfl) .readOnly STD_INPUT holds process
  obtain ⟨other, second, next, kept, output, second_holds, -, left⟩ :=
    @redirect_keeps oracle first some_kept ">" (.inr rfl) .writeCreateTruncate STD_OUTPUT
      first_holds middle
  refine ⟨second, next, kept, redirections_run input output, second_holds, fun filled plain => ?_⟩
  exact left (some_left filled plain) fun first => plain (first.of_prefix front)

/-- Every stage of a pipeline that has a first entry has a file to execute. -/
theorem surviving_pipe_and_exec (depth : Nat) (holds : Holds argv tokens) (filled : tokens ≠ []) :
    SurvivingProgram (pipe_and_execWithin depth argv) := by
  induction depth generalizing argv tokens with
  | zero => exact (StraightProgram.pure _).surviving
  | succ depth ih =>
    rw [pipe_and_execWithin]
    split
    · exact (StraightProgram.message _).surviving.bind fun _ => (StraightProgram.setErrno _).surviving
    next proper =>
      split
      · exact (SurvivingProgram.execvp (mt holds.head_iff.mp filled)).bind fun _ =>
          (StraightProgram.message _).surviving
      next present =>
        have cut : ∃ left right, tokens = left ++ "|" :: right ∧ "|" ∉ left := by
          by_cases member : "|" ∈ tokens
          · exact List.eq_append_cons_of_mem member
          · exact absurd (pipe_presentFrom_absent holds member 0) present
        obtain ⟨left, right, rfl, absent⟩ := cut
        -- A pipe with nothing on a side is refused, so neither half runs without a program.
        have sides : left ≠ [] ∧ right ≠ [] := by
          rw [← not_or]
          intro missing
          obtain ⟨rest, rfl⟩ := holds
          apply proper
          rw [pipe_present, List.map_append, List.map_cons, List.append_assoc, List.cons_append,
            pipe_presentFrom_first absent, if_pos (by simpa using missing)]
        obtain ⟨rest, index, written, read⟩ := holds.cut absent sides.1 sides.2
        have left_holds : Holds (argv.set left.length none) left := ⟨_, written⟩
        have right_holds : Holds ((argv.set left.length none).drop (left.length + 1)) right :=
          ⟨_, read⟩
        simp only [index, Int.toNat_natCast]
        refine SurvivingProgram.pipe.bind fun ends => ?_
        cases ends with
        | none => exact (StraightProgram.message _).surviving.bind fun _ => .exit _
        | some ends =>
          refine SurvivingProgram.fork.bind fun forked => ?_
          cases forked with
          | failed => exact (StraightProgram.message _).surviving.bind fun _ => .exit _
          | parent =>
            exact (StraightProgram.close _).surviving.bind fun _ =>
              (StraightProgram.dup2 _ _).surviving.bind fun _ =>
                (StraightProgram.close _).surviving.bind fun _ =>
                  (SurvivingProgram.execvp (mt left_holds.head_iff.mp sides.1)).bind fun _ =>
                    (StraightProgram.message _).surviving.bind fun _ => .exit _
          | child =>
            exact (StraightProgram.close _).surviving.bind fun _ =>
              (StraightProgram.dup2 _ _).surviving.bind fun _ =>
                (StraightProgram.close _).surviving.bind fun _ => ih right_holds sides.2

/-- A child whose vector has nothing left in it is killed in `execvp`. -/
theorem run_commandChild_killed {left : Argv} {process next : Process}
    (redirected : redirections argv oracle process = [.running left next])
    (nothing : left.head?.join = none) :
    ∃ after, run_commandChild argv oracle process = [.killed after SIGSEGV] := by
  have absent : pipe_present left = 0 := by
    cases left with
    | nil => rfl
    | cons entry rest =>
      cases entry with
      | none => rfl
      | some token => cases nothing
  have killed : System.execvp left oracle next = [.killed (next.execute left) SIGSEGV] := by
    simp only [System.execvp, nothing]
  refine ⟨next.execute left, ?_⟩
  rw [run_commandChild, System.bind_running redirected, pipe_and_exec, pipe_and_execWithin]
  simp [absent, System.bind_run, killed, System.andThen]

/-- For one outcome of the system calls, it is the entry that the redirections leave first. -/
theorem returnsInCaller_iff (holds : Holds argv tokens) (indeterminate : Int) (process : Process)
    {left : Argv} {next : Process}
    (redirected : redirections argv oracle process.child = [.running left next]) :
    ReturnsInCaller process (run_command indeterminate argv oracle process) ↔
      oracle process.pid process.calls .fork ≠ none ∨ left.head?.join ≠ none := by
  obtain ⟨caller, children, split, same, below⟩ := run_command_first indeterminate argv oracle process
  cases granted : oracle process.pid process.calls .fork with
  | some error =>
    obtain ⟨exited, alone, own⟩ := run_command_failed granted indeterminate argv
    refine iff_of_true ⟨_, [], alone, own, fun life member => ?_⟩ (.inl (Option.some_ne_none error))
    cases member
  | none =>
    have forked := run_command_forked granted indeterminate argv
    obtain ⟨rfl, rfl⟩ := List.cons_eq_cons.mp (forked.symm.trans split)
    simp only [ne_eq, not_true_eq_false, false_or]
    constructor
    · rintro ⟨caller, children, lives, -, proper⟩ nothing
      obtain ⟨after, killed⟩ := run_commandChild_killed redirected nothing
      rw [forked, killed] at lives
      obtain ⟨rfl, rfl⟩ := List.cons_eq_cons.mp lives
      rcases (proper _ (List.mem_singleton_self _)).2.2 with ⟨_, other⟩ | ⟨_, _, other⟩ <;> cases other
    · intro named
      obtain ⟨other, after, kept, run, left_holds, -⟩ :=
        @redirections_keep oracle argv tokens holds process.child
      cases redirected.symm.trans run
      have surviving : ∀ life ∈ run_commandChild argv oracle process.child, life.survives = true := by
        intro life member
        rw [run_commandChild, System.bind_running run] at member
        exact ((surviving_pipe_and_exec _ left_holds (mt left_holds.head_iff.mpr named)).bind
          fun _ => .exitErrno) oracle _ life member
      refine ⟨_, _, forked, same, fun life member => ?_⟩
      obtain ⟨above, different, ended⟩ := below life member
      refine ⟨above, different, ?_⟩
      have survives := surviving life member
      cases life with
      | running => cases ended
      | executing after => exact .inl ⟨after, rfl⟩
      | exited after status => exact .inr ⟨after, status, rfl⟩
      | killed => cases survives

end Survival

/-- The first call of a process fails if it is an `open`. -/
def firstOpenFails : Oracle := fun _ calls call =>
  if call = .openFile ∧ calls = 0 then some 2 else none

/-- With an operator and its file name in front there are outcomes that leave nothing. -/
theorem operatorFirst_left {argv : Argv} {tokens : List String} (holds : Holds argv tokens)
    (first : OperatorFirst tokens) : ∃ (oracle : Oracle) (left : Argv) (next : Process),
      (∀ pid calls, oracle pid calls .fork = none) ∧
      redirections argv oracle (Process.entering [] terminal).child = [.running left next] ∧
      left.head?.join = none := by
  obtain ⟨operator, longer⟩ := first
  obtain ⟨token, path, after, rfl⟩ : ∃ token path after, tokens = token :: path :: after := by
    match tokens, longer with
    | token :: path :: after, _ => exact ⟨token, path, after, rfl⟩
  have emptied : Holds (argv.set 0 none) [] := @Holds.set argv [] (path :: after) token holds
  have nothing : (argv.set 0 none).head?.join = none := emptied.head_iff.mpr rfl
  -- An operator in front is carried out by its pass, if the other one has not cut the vector.
  have carried : ∀ (oracle : Oracle) (operator : String) (access : Access) (standard : Nat)
      (process : Process), token = operator →
      oracle process.pid process.calls .openFile = none →
      oracle process.pid (process.calls + 1) .dup2 = none →
      oracle process.pid (process.calls + 2) .close = none →
      ∃ next, redirect operator access standard argv oracle process =
        [.running (0, argv.set 0 none) next] := by
    rintro oracle _ access standard process rfl opens dups closes
    exact @redirect_carried oracle process token access standard argv [] after path holds
      List.not_mem_nil opens dups closes
  rcases operator with first | first
  · obtain ⟨middle, input⟩ := carried allGranted "<" .readOnly STD_INPUT
      (Process.entering [] terminal).child (Option.some.inj first) rfl rfl rfl
    exact ⟨allGranted, _, _, fun _ _ => rfl,
      redirections_run input (redirect_absent emptied List.not_mem_nil), nothing⟩
  · by_cases input_present : "<" ∈ token :: path :: after
    -- The pass for input may not cut the vector first, so its file is one that cannot be opened.
    · obtain ⟨middle, input, pid, calls⟩ : ∃ middle, redirect_in argv firstOpenFails
          (Process.entering [] terminal).child = [.running (-1, argv) middle] ∧
            middle.pid = (Process.entering [] terminal).child.pid ∧
            middle.calls = (Process.entering [] terminal).child.calls + 1 :=
        redirect_denied holds input_present rfl
      have later : middle.calls = 1 := calls
      obtain ⟨next, output⟩ := carried firstOpenFails ">" .writeCreateTruncate STD_OUTPUT middle
        (Option.some.inj first) (by simp [firstOpenFails, later]) rfl rfl
      exact ⟨firstOpenFails, _, _, fun _ _ => rfl, redirections_run input output, nothing⟩
    · obtain ⟨next, output⟩ := carried allGranted ">" .writeCreateTruncate STD_OUTPUT
        (Process.entering [] terminal).child (Option.some.inj first) rfl rfl rfl
      exact ⟨allGranted, _, _, fun _ _ => rfl,
        redirections_run (redirect_absent holds input_present) output, nothing⟩

/-- A command returns in its caller only exactly if its child has a file to execute: in one
outcome of the system calls, if the redirections leave a first entry, and in all of them if
there is a token and the first one is no operator with a file name. -/
theorem run_command_returns_in_caller_iff {argv : Argv} {tokens : List String}
    (holds : Holds argv tokens) :
    (∀ (indeterminate : Int) (oracle : Oracle) (process : Process), ∃ left next,
      redirections argv oracle process.child = [.running left next] ∧
      (ReturnsInCaller process (run_command indeterminate argv oracle process) ↔
        oracle process.pid process.calls .fork ≠ none ∨ left.head?.join ≠ none)) ∧
    ((∀ (indeterminate : Int) (oracle : Oracle) (process : Process),
        ReturnsInCaller process (run_command indeterminate argv oracle process)) ↔
      tokens ≠ [] ∧ ¬OperatorFirst tokens) := by
  refine ⟨fun indeterminate oracle process => ?_, fun always => ⟨?_, fun first => ?_⟩, ?_⟩
  · obtain ⟨left, next, redirected, -⟩ := straight_redirections argv oracle process.child
    exact ⟨left, next, redirected, returnsInCaller_iff holds indeterminate process redirected⟩
  · rintro rfl
    have redirected : redirections argv allGranted (Process.entering [] terminal).child =
        [.running argv (Process.entering [] terminal).child] :=
      redirections_run (redirect_absent holds List.not_mem_nil)
        (redirect_absent holds List.not_mem_nil)
    rcases (returnsInCaller_iff holds 0 (Process.entering [] terminal) redirected).mp
      (always 0 allGranted (Process.entering [] terminal)) with denied | named
    · exact denied rfl
    · exact named (holds.head_iff.mpr rfl)
  · obtain ⟨oracle, left, next, forks, redirected, nothing⟩ := operatorFirst_left holds first
    rcases (returnsInCaller_iff holds 0 (Process.entering [] terminal) redirected).mp
      (always 0 oracle (Process.entering [] terminal)) with denied | named
    · exact denied (forks _ _)
    · exact named nothing
  · rintro ⟨filled, plain⟩ indeterminate oracle process
    obtain ⟨left, next, kept, redirected, left_holds, some_left⟩ :=
      @redirections_keep oracle argv tokens holds process.child
    exact (returnsInCaller_iff holds indeterminate process redirected).mpr
      (.inr (mt left_holds.head_iff.mp (some_left filled plain)))

/-- `cat < f | wc` -/
theorem run_command_returns_in_caller_pipe :
    (∀ (indeterminate : Int) (oracle : Oracle) (process : Process), ∃ left next,
      redirections [some "cat", some "<", some "f", some "|", some "wc", none] oracle process.child =
        [.running left next] ∧
      (ReturnsInCaller process (run_command indeterminate
          [some "cat", some "<", some "f", some "|", some "wc", none] oracle process) ↔
        oracle process.pid process.calls .fork ≠ none ∨ left.head?.join ≠ none)) ∧
    ((∀ (indeterminate : Int) (oracle : Oracle) (process : Process),
        ReturnsInCaller process (run_command indeterminate
          [some "cat", some "<", some "f", some "|", some "wc", none] oracle process)) ↔
      ["cat", "<", "f", "|", "wc"] ≠ [] ∧ ¬OperatorFirst ["cat", "<", "f", "|", "wc"]) :=
  run_command_returns_in_caller_iff ⟨[], rfl⟩

theorem output_only_killed : ∃ caller child, run_command 0 [some ">", some "g", none] allGranted
    (Process.entering [] terminal) = [.running () caller, .killed child SIGSEGV] := ⟨_, _, rfl⟩

/-- The child for `> g` does not survive its `execvp`. -/
theorem output_only_not_ended :
    ¬ ∀ (argv : Argv) (tokens : List String), Holds argv tokens →
      ∀ (indeterminate : Int) (oracle : Oracle) (process : Process),
        ReturnsInCaller process (run_command indeterminate argv oracle process) := by
  intro always
  obtain ⟨caller, child, killed⟩ := output_only_killed
  obtain ⟨first, others, split, -, proper⟩ := always [some ">", some "g", none] [">", "g"] ⟨[], rfl⟩
    0 allGranted (Process.entering [] terminal)
  rw [killed] at split
  obtain ⟨rfl, rfl⟩ := List.cons_eq_cons.mp split
  rcases (proper _ (List.mem_singleton_self _)).2.2 with ⟨_, other⟩ | ⟨_, _, other⟩ <;> cases other

end LinuxProgramming.Shell
