import LinuxProgramming.Shell.AnyChild

/-! The background marker.

Neither version of the shell takes the marker out of the vector, and each of them
finds it anywhere. The later version has no return value for a vector without it.
-/

set_option autoImplicit false

namespace LinuxProgramming.Shell
open Foundation

/-- Which child it waits for makes no difference to what the processes become. -/
def AnyChild.wait : System Unit := pure ()

def AnyChild.run_commandChild (myArgv : Argv) : System Unit := do
  System.execvp myArgv
  System.exitErrno

def AnyChild.run_command (myArgv : Argv) : System Unit := do
  let is_wait := AnyChild.is_background myArgv = 0
  match ← System.fork with
  | .failed =>
    System.perror "fork"
    System.exitErrno
  | .parent _ => if is_wait then AnyChild.wait else pure ()
  | .child => AnyChild.run_commandChild myArgv

/-- The tokens without a marker at their end. -/
def unmarked (tokens : List String) : List String :=
  if tokens.getLast? = some "&" then tokens.dropLast else tokens

/-- A shell recognises the marker and removes it: the value tells whether it is
there, and the child runs the command with a vector without it. -/
structure Recognised (value : Int) (run child : Argv → System Unit) (argv : Argv)
    (tokens : List String) : Prop where
  value : value = if tokens.getLast? = some "&" then 1 else 0
  passed : ∃ vector, Holds vector (unmarked tokens) ∧ ∀ (oracle : Oracle) (process : Process),
    oracle process.pid process.calls .fork = none →
      run argv oracle process =
        .running () (process.succeed process.fds) :: child vector oracle process.child

theorem searchBackground_present {argv : Argv} {tokens : List String} (holds : Holds argv tokens)
    (present : "&" ∈ tokens) (indeterminate : Int) : searchBackground indeterminate argv = 1 := by
  obtain ⟨rest, rfl⟩ := holds
  induction tokens with
  | nil => cases present
  | cons token tokens ih =>
    by_cases marker : token = "&"
    · simp [searchBackground, marker]
    · have later : "&" ∈ tokens := by simpa [Ne.symm marker] using present
      simp [searchBackground, marker, ih later]

theorem is_background_present {argv : Argv} {tokens : List String} (holds : Holds argv tokens)
    (present : "&" ∈ tokens) (indeterminate : Int) : is_background indeterminate argv = 1 := by
  have first : argv.head? ≠ some none := by
    obtain ⟨rest, rfl⟩ := holds
    obtain ⟨token, tokens, rfl⟩ := List.exists_cons_of_ne_nil (List.ne_nil_of_mem present)
    simp
  rw [is_background, if_neg first, searchBackground_present holds present]

theorem AnyChild.run_command_forked {oracle : Oracle} {process : Process}
    (granted : oracle process.pid process.calls .fork = none) (argv : Argv) :
    AnyChild.run_command argv oracle process =
      .running () (process.succeed process.fds) ::
        AnyChild.run_commandChild argv oracle process.child := by
  by_cases waits : AnyChild.is_background argv = 0 <;>
    simp [AnyChild.run_command, System.bind_run, System.fork, granted, System.andThen, waits,
      AnyChild.wait, pure]

section Marker

variable {argv : Argv} {tokens : List String}

theorem unmarked_ne_of_last (last : tokens.getLast? = some "&") : unmarked tokens ≠ tokens := by
  rw [unmarked, if_pos last]
  intro same
  have shorter := congrArg List.length same
  have filled : tokens ≠ [] := by
    rintro rfl
    cases last
  have := List.length_pos_iff.mpr filled
  rw [List.length_dropLast] at shorter
  omega

/-- What both versions have in common: the value that they search for, and a child
that runs the command with the vector as it is. -/
structure Searches (absent value : Int) (run child : Argv → System Unit) (argv : Argv)
    (tokens : List String) : Prop where
  value : value = if "&" ∈ tokens then 1 else absent
  forked : ∀ (oracle : Oracle) (process : Process),
    oracle process.pid process.calls .fork = none →
      run argv oracle process =
        .running () (process.succeed process.fds) :: child argv oracle process.child

theorem searches_later (holds : Holds argv tokens) (filled : tokens ≠ []) (indeterminate : Int) :
    Searches indeterminate (is_background indeterminate argv) (run_command indeterminate)
      run_commandChild argv tokens where
  value := by
    split
    next present => exact is_background_present holds present indeterminate
    next absent => exact is_background_absent holds filled absent indeterminate
  forked _ _ granted := run_command_forked granted indeterminate argv

theorem searches_first (holds : Holds argv tokens) (filled : tokens ≠ []) :
    Searches 0 (AnyChild.is_background argv) AnyChild.run_command AnyChild.run_commandChild argv
      tokens where
  value := (searches_later holds filled 0).value
  forked _ _ granted := AnyChild.run_command_forked granted argv

variable {absent value : Int} {run child : Argv → System Unit}

/-- Without a marker there is nothing to remove. -/
theorem Searches.recognised_of_absent (searches : Searches absent value run child argv tokens)
    (holds : Holds argv tokens) (outside : "&" ∉ tokens) (zero : absent = 0) :
    Recognised value run child argv tokens := by
  have not_last : tokens.getLast? ≠ some "&" := fun last => outside (List.mem_of_getLast? last)
  refine ⟨?_, argv, ?_, searches.forked⟩
  · rw [searches.value, if_neg outside, if_neg not_last, zero]
  · rwa [unmarked, if_neg not_last]

theorem Searches.zero_of_recognised (searches : Searches absent value run child argv tokens)
    (outside : "&" ∉ tokens) (recognised : Recognised value run child argv tokens) :
    absent = 0 := by
  have not_last : tokens.getLast? ≠ some "&" := fun last => outside (List.mem_of_getLast? last)
  have right := recognised.value
  rwa [searches.value, if_neg outside, if_neg not_last] at right

/-- A child that shows which vector it runs shows the marker in it. -/
theorem Searches.absent_of_recognised (searches : Searches absent value run child argv tokens)
    (holds : Holds argv tokens)
    (shows : ∀ vector, Holds vector (unmarked tokens) →
      child argv allGranted (Process.entering [] terminal).child =
        child vector allGranted (Process.entering [] terminal).child → argv = vector)
    (recognised : Recognised value run child argv tokens) : "&" ∉ tokens := by
  intro present
  obtain ⟨right, vector, trimmed, same⟩ := recognised
  rw [searches.value, if_pos present] at right
  have last : tokens.getLast? = some "&" := by
    by_contra other
    rw [if_neg other] at right
    cases right
  have entering := same allGranted (Process.entering [] terminal) rfl
  rw [searches.forked allGranted (Process.entering [] terminal) rfl, List.cons.injEq] at entering
  rw [← shows vector trimmed entering.2] at trimmed
  exact unmarked_ne_of_last last (trimmed.unique holds)

/-- The end of a child that executes one vector, where nothing fails. -/
def executed (argv : Argv) (process : Process) : Life Unit :=
  match argv.head?.join with
  | none => .killed (process.execute argv) SIGSEGV
  | some _ => .executing (process.execute argv)

theorem executed_process (argv : Argv) (process : Process) :
    (executed argv process).process = process.execute argv := by
  unfold executed
  split <;> rfl

theorem executed_injective {first second : Argv} {process : Process}
    (same : [executed first process] = [executed second process]) : first = second := by
  have ends := congrArg Life.process (List.singleton_inj.mp same)
  rw [executed_process, executed_process] at ends
  simpa [Process.execute] using ends

/-- Behind `execvp` there is nothing more to do. -/
theorem execvp_then (argv : Argv) (process : Process) (next : System Unit) :
    (do System.execvp argv; next : System Unit) allGranted process = [executed argv process] := by
  have called : System.execvp argv allGranted process = [executed argv process] := by
    simp only [System.execvp, executed]
    cases argv.head?.join <;> rfl
  rw [System.bind_run, called, List.flatMap_singleton, executed]
  split <;> rfl

/-- A vector without a pipe symbol and without redirections is executed as it is. -/
theorem run_commandChild_simple (holds : Holds argv tokens) (pipe : "|" ∉ tokens)
    (input : "<" ∉ tokens) (output : ">" ∉ tokens) (process : Process) :
    run_commandChild argv allGranted process = [executed argv process] := by
  have redirected : redirections argv allGranted process = [.running argv process] :=
    redirections_run (redirect_absent holds input) (redirect_absent holds output)
  have present : pipe_present argv = 0 := pipe_presentFrom_absent holds pipe 0
  rw [run_commandChild, System.bind_running redirected, pipe_and_exec, pipe_and_execWithin]
  simp only [present, if_true]
  rw [if_neg (by decide), System.bind_run, execvp_then, List.flatMap_singleton, executed]
  split <;> rfl

theorem unmarked_subset : ∀ token ∈ unmarked tokens, token ∈ tokens := by
  intro token member
  unfold unmarked at member
  split at member
  next => exact List.dropLast_subset tokens member
  next => exact member

/-- The later version on its own, for one command without redirections. -/
theorem later_recognised_iff (holds : Holds argv tokens) (filled : tokens ≠ [])
    (pipe : "|" ∉ tokens) (input : "<" ∉ tokens) (output : ">" ∉ tokens) (indeterminate : Int) :
    Recognised (is_background indeterminate argv) (run_command indeterminate) run_commandChild
        argv tokens ↔
      "&" ∉ tokens ∧ indeterminate = 0 := by
  have searches := searches_later holds filled indeterminate
  constructor
  · intro recognised
    have outside := searches.absent_of_recognised holds (fun vector trimmed same => by
      rw [run_commandChild_simple holds pipe input output,
        run_commandChild_simple trimmed (mt (unmarked_subset _) pipe)
          (mt (unmarked_subset _) input) (mt (unmarked_subset _) output)] at same
      exact executed_injective same) recognised
    exact ⟨outside, searches.zero_of_recognised outside recognised⟩
  · rintro ⟨outside, zero⟩
    exact searches.recognised_of_absent holds outside zero

/-- Both versions recognise and remove the marker exactly where there is none, if
the later one happens to return 0 behind its loop. -/
theorem marker_recognised_iff (holds : Holds argv tokens) (filled : tokens ≠ [])
    (indeterminate : Int) :
    (Recognised (is_background indeterminate argv) (run_command indeterminate) run_commandChild
        argv tokens ∧
      Recognised (AnyChild.is_background argv) AnyChild.run_command AnyChild.run_commandChild
        argv tokens) ↔
      "&" ∉ tokens ∧ indeterminate = 0 := by
  have later := searches_later holds filled indeterminate
  have first := searches_first holds filled
  constructor
  · rintro ⟨recognised, other⟩
    have outside := first.absent_of_recognised holds (fun vector _ same => by
      rw [AnyChild.run_commandChild, execvp_then, AnyChild.run_commandChild, execvp_then] at same
      exact executed_injective same) other
    exact ⟨outside, later.zero_of_recognised outside recognised⟩
  · rintro ⟨outside, zero⟩
    exact ⟨later.recognised_of_absent holds outside zero, first.recognised_of_absent holds outside rfl⟩

end Marker

/-- A command without a marker, and a caller that reads 0. -/
theorem marker_recognised_absent :
    (Recognised (is_background 0 [some "ls", none]) (run_command 0) run_commandChild
        [some "ls", none] ["ls"] ∧
      Recognised (AnyChild.is_background [some "ls", none]) AnyChild.run_command
        AnyChild.run_commandChild [some "ls", none] ["ls"]) ↔
      "&" ∉ ["ls"] ∧ (0 : Int) = 0 :=
  marker_recognised_iff (show Holds [some "ls", none] ["ls"] from ⟨[], rfl⟩) (by decide) 0

/-- `sleep 1 &` runs sleep with the marker as an argument. -/
theorem marker_not_removed :
    ¬ ∀ (argv : Argv) (tokens : List String), Holds argv tokens → tokens ≠ [] →
      tokens.head? ≠ some "&" → ∀ indeterminate : Int,
        Recognised (is_background indeterminate argv) (run_command indeterminate) run_commandChild
            argv tokens ∧
          Recognised (AnyChild.is_background argv) AnyChild.run_command AnyChild.run_commandChild
            argv tokens := by
  intro always
  have holds : Holds [some "sleep", some "1", some "&", none] ["sleep", "1", "&"] := ⟨[], rfl⟩
  have recognised := (always _ _ holds (by decide) (by decide) 0).1
  have outside := (later_recognised_iff holds (by decide) (by decide) (by decide) (by decide) 0).mp
    recognised
  exact outside.1 (by decide)

end LinuxProgramming.Shell
