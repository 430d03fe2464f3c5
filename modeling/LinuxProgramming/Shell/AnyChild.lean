import LinuxProgramming.Foundation.Machine
import LinuxProgramming.Shell.Command

/-! The first version of the shell, which waits for any child.

A foreground command is over for this shell when some child has ended. A child
of an earlier background command that has ended in the meantime will do.
-/

set_option autoImplicit false

namespace LinuxProgramming.Shell.AnyChild
open Foundation

/-- The same search as in the later version, with a `return 0` behind the loop. -/
def is_background (myArgv : Argv) : Int := Shell.is_background 0 myArgv

/-- The child that the n-th call of `run_command` forks has the number n; `waiting`
is the child of the call that is inside `wait`, and `returned` lists the children
of the foreground calls that have returned. -/
structure State where
  left : List Argv
  forked : Nat
  waiting : Option Nat
  ended : Nat → Bool
  reaped : Nat → Bool
  returned : List Nat
  exited : Bool

inductive Action where
  | run
  | failFork
  | finish (child : Nat)
  | reap (child : Nat)
  deriving DecidableEq, Repr

def step (state : State) : Action → Option State
  | .run =>
    match state.exited, state.waiting, state.left with
    | false, none, myArgv :: rest =>
      let is_wait := is_background myArgv = 0
      some { state with
        left := rest
        forked := state.forked + 1
        waiting := if is_wait then some state.forked else none }
    | _, _, _ => none
  | .failFork =>
    match state.exited, state.waiting, state.left with
    | false, none, _ :: _ => some { state with exited := true }
    | _, _, _ => none
  | .finish child =>
    -- The command ends, or it could not be executed and the child exits.
    if child < state.forked ∧ state.ended child = false then
      some { state with ended := Function.update state.ended child true }
    else none
  | .reap child =>
    match state.waiting with
    | some current =>
      -- `wait` returns for any child that has ended and was not waited for before.
      if child < state.forked ∧ state.ended child = true ∧ state.reaped child = false then
        some { state with
          waiting := none
          reaped := Function.update state.reaped child true
          returned := state.returned ++ [current] }
      else none
    | none => none

def machine (commands : List Argv) : Machine State Action where
  start := ⟨commands, 0, none, fun _ => false, fun _ => false, [], false⟩
  step := step

/-- Each foreground call has returned after its own child had ended. -/
def Over (commands : List Argv) : Prop :=
  ∀ state, (machine commands).Reachable state → ∀ call ∈ state.returned, state.ended call = true

/-- Nothing runs in the foreground any more once something runs in the background. -/
def BackgroundLast (commands : List Argv) : Prop :=
  commands.Pairwise fun earlier later => is_background earlier ≠ 0 → is_background later ≠ 0

variable {commands : List Argv} {state next : State}

/-- As long as nothing was put in the background, no child is left but the one
that the shell waits for; afterwards the shell never waits. -/
structure Kept (state : State) : Prop where
  returned : ∀ call ∈ state.returned, state.ended call = true
  children : (∀ child < state.forked, state.reaped child = true ∨ state.waiting = some child) ∧
      BackgroundLast state.left ∨
    state.waiting = none ∧ ∀ argv ∈ state.left, is_background argv ≠ 0

theorem Kept.run (kept : Kept state) (taken : step state .run = some next) : Kept next := by
  obtain ⟨returned, children⟩ := kept
  simp only [step] at taken
  split at taken
  next argv rest exited idle left =>
    cases taken
    refine ⟨returned, ?_⟩
    rw [left] at children
    by_cases background : is_background argv = 0
    · rcases children with ⟨reaped, order⟩ | ⟨-, later⟩
      · refine .inl ⟨fun child below => ?_, (List.pairwise_cons.mp order).2⟩
        rcases Nat.lt_succ_iff_lt_or_eq.mp below with earlier | same
        · exact .inl ((reaped child earlier).resolve_right (by simp [idle]))
        · exact .inr (by simp [background, same])
      · exact absurd background (later argv List.mem_cons_self)
    · refine .inr ⟨by simp [background], fun other member => ?_⟩
      rcases children with ⟨-, order⟩ | ⟨-, later⟩
      · exact (List.pairwise_cons.mp order).1 other member background
      · exact later other (List.mem_cons_of_mem argv member)
  next => cases taken

theorem Kept.step {action : Action} (kept : Kept state) (taken : step state action = some next) :
    Kept next := by
  cases action with
  | run => exact kept.run taken
  | failFork =>
    simp only [AnyChild.step] at taken
    split at taken
    next =>
      cases taken
      exact ⟨kept.returned, kept.children⟩
    next => cases taken
  | finish child =>
    simp only [AnyChild.step] at taken
    split at taken
    next =>
      cases taken
      refine ⟨fun call member => ?_, kept.children⟩
      by_cases same : call = child
      · simp [same]
      · simpa [same] using kept.returned call member
    next => cases taken
  | reap child =>
    obtain ⟨returned, children⟩ := kept
    simp only [AnyChild.step] at taken
    split at taken
    next current waiting =>
      split at taken
      next enabled =>
        cases taken
        obtain ⟨below, ended, unreaped⟩ := enabled
        obtain ⟨reaped, order⟩ := children.resolve_right (by simp [waiting])
        -- Only the child that the shell waits for is there to be found by `wait`.
        have own : current = child := by
          have only := (reaped child below).resolve_left (by simp [unreaped])
          exact Option.some.inj (waiting.symm.trans only)
        refine ⟨fun call member => ?_, .inl ⟨fun other earlier => .inl ?_, order⟩⟩
        · rcases List.mem_append.mp member with member | member
          · exact returned call member
          · rw [List.mem_singleton.mp member, own]
            exact ended
        · by_cases same : other = child
          · simp [same]
          · have found := (reaped other earlier).resolve_right
              (by simp [waiting, own, Ne.symm same])
            simpa [same] using found
      next => cases taken
    next => cases taken

theorem over_of_backgroundLast (order : BackgroundLast commands) : Over commands := by
  intro state reached
  have start : Kept (machine commands).start :=
    ⟨fun call member => (List.not_mem_nil member).elim, .inl ⟨fun child below => by
      exact absurd below (Nat.not_lt_zero child), order⟩⟩
  exact (Machine.invariant start (fun kept taken => kept.step taken) reached).returned

/-- At the prompt, with every child ended. -/
structure Prompt (commands rest : List Argv) (state : State) : Prop where
  reached : (machine commands).Reachable state
  left : state.left = rest
  idle : state.waiting = none
  going : state.exited = false
  ended : ∀ child, state.ended child = true ↔ child < state.forked
  reaped : ∀ child, state.reaped child = true → child < state.forked

/-- A child that has ended and that nobody has waited for. -/
def Zombie (state : State) : Prop := ∃ child < state.forked, state.reaped child = false

/-- A foreground command can be waited for properly, so it need not change which
zombies there are; a background command leaves one. -/
theorem Prompt.command {argv : Argv} {rest : List Argv} (prompt : Prompt commands (argv :: rest) state) :
    ∃ after, Prompt commands rest after ∧
      (Zombie state ∨ is_background argv ≠ 0 → Zombie after) := by
  obtain ⟨reached, left, idle, going, ended, reaped⟩ := prompt
  have fresh : state.ended state.forked = false := by
    simpa using (ended state.forked).not.mpr (Nat.lt_irrefl _)
  have unreaped : state.reaped state.forked = false := by
    simpa using mt (reaped state.forked) (Nat.lt_irrefl _)
  have forked : (machine commands).step state .run = some { state with
      left := rest
      forked := state.forked + 1
      waiting := if is_background argv = 0 then some state.forked else none } := by
    simp [machine, step, going, idle, left]
  have finished : (machine commands).step { state with
      left := rest
      forked := state.forked + 1
      waiting := if is_background argv = 0 then some state.forked else none } (.finish state.forked) =
        some { state with
          left := rest
          forked := state.forked + 1
          waiting := if is_background argv = 0 then some state.forked else none
          ended := Function.update state.ended state.forked true } := by
    simp [machine, step, fresh]
  have all_ended : ∀ child, Function.update state.ended state.forked true child = true ↔
      child < state.forked + 1 := by
    intro child
    by_cases same : child = state.forked
    · simp [same]
    · simp only [ne_eq, same, not_false_eq_true, Function.update_of_ne, ended]
      omega
  by_cases background : is_background argv = 0
  · rw [if_pos background] at forked finished
    have returned : (machine commands).step { state with
        left := rest
        forked := state.forked + 1
        waiting := some state.forked
        ended := Function.update state.ended state.forked true } (.reap state.forked) =
          some { state with
            left := rest
            forked := state.forked + 1
            waiting := none
            ended := Function.update state.ended state.forked true
            reaped := Function.update state.reaped state.forked true
            returned := state.returned ++ [state.forked] } := by
      simp [machine, step, unreaped]
    refine ⟨_, ⟨((reached.step forked).step finished).step returned, rfl, rfl, going, all_ended,
      fun child => ?_⟩, ?_⟩
    · by_cases same : child = state.forked
      · simp [same]
      · simpa [same] using fun before => Nat.lt_succ_of_lt (reaped child before)
    · rintro (⟨child, below, waiting⟩ | loose)
      · refine ⟨child, Nat.lt_succ_of_lt below, ?_⟩
        simpa [Nat.ne_of_lt below] using waiting
      · exact absurd background loose
  · rw [if_neg background] at forked finished
    refine ⟨_, ⟨(reached.step forked).step finished, rfl, rfl, going, all_ended,
      fun child before => Nat.lt_succ_of_lt (reaped child before)⟩, fun _ => ?_⟩
    exact ⟨state.forked, Nat.lt_succ_self _, unreaped⟩

theorem Prompt.run {earlier rest : List Argv} (prompt : Prompt commands (earlier ++ rest) state) :
    ∃ after, Prompt commands rest after ∧
      (Zombie state ∨ (∃ argv ∈ earlier, is_background argv ≠ 0) → Zombie after) := by
  induction earlier generalizing state with
  | nil => exact ⟨state, prompt, by simp⟩
  | cons argv earlier ih =>
    obtain ⟨between, first, leaves⟩ := prompt.command
    obtain ⟨after, later, keeps⟩ := ih first
    refine ⟨after, later, fun before => keeps ?_⟩
    rcases before with zombie | ⟨other, member, background⟩
    · exact .inl (leaves (.inl zombie))
    · rcases List.mem_cons.mp member with rfl | member
      · exact .inl (leaves (.inr background))
      · exact .inr ⟨other, member, background⟩

/-- A foreground call that finds a zombie can return before its own child has ended. -/
theorem Prompt.not_over {argv : Argv} {rest : List Argv}
    (prompt : Prompt commands (argv :: rest) state) (zombie : Zombie state)
    (foreground : is_background argv = 0) : ¬ Over commands := by
  intro waited
  obtain ⟨reached, left, idle, going, ended, reaped⟩ := prompt
  obtain ⟨child, below, waiting⟩ := zombie
  have forked : (machine commands).step state .run = some { state with
      left := rest
      forked := state.forked + 1
      waiting := some state.forked } := by
    simp [machine, step, going, idle, left, foreground]
  have returned : (machine commands).step { state with
      left := rest
      forked := state.forked + 1
      waiting := some state.forked } (.reap child) = some { state with
        left := rest
        forked := state.forked + 1
        waiting := none
        reaped := Function.update state.reaped child true
        returned := state.returned ++ [state.forked] } := by
    simp [machine, step, waiting, (ended child).mpr below, Nat.lt_succ_of_lt below]
  have early := waited _ ((reached.step forked).step returned) state.forked
    (List.mem_append_right _ (List.mem_singleton.mpr rfl))
  exact Nat.lt_irrefl _ ((ended state.forked).mp early)

/-- Each foreground call returns after its own child exactly when no background
command was run before a foreground one. -/
theorem any_child_over_iff (commands : List Argv) : Over commands ↔ BackgroundLast commands := by
  refine ⟨fun waited => ?_, over_of_backgroundLast⟩
  rw [BackgroundLast, List.pairwise_iff_forall_sublist]
  intro earlier later inside background
  by_contra foreground
  obtain ⟨front, back, rfl, in_front, rest⟩ := List.cons_sublist_iff.mp inside
  obtain ⟨middle, last, rfl⟩ := List.append_of_mem (List.singleton_sublist.mp rest)
  have start : Prompt (front ++ (middle ++ later :: last)) ((front ++ middle) ++ later :: last)
      (machine (front ++ (middle ++ later :: last))).start :=
    ⟨.start, (List.append_assoc ..).symm, rfl, rfl, by simp [machine], by simp [machine]⟩
  obtain ⟨state, prompt, leaves⟩ := start.run
  exact prompt.not_over
    (leaves (.inr ⟨earlier, List.mem_append_left middle in_front, background⟩)) foreground waited

/-- `sleep 1 &` has ended while the next command is running. -/
theorem background_first_not_over : ¬ Over [[some "sleep", some "1", some "&", none],
    [some "sleep", some "10", none]] := by
  intro waited
  obtain ⟨state, reached, facts⟩ := Machine.exists_reachable
    (show ((machine [[some "sleep", some "1", some "&", none], [some "sleep", some "10", none]]).exec
      (machine [[some "sleep", some "1", some "&", none], [some "sleep", some "10", none]]).start
      [.run, .finish 0, .run, .reap 0]).map (fun state => (state.returned, state.ended 1)) =
        some ([1], false) by decide)
  obtain ⟨returned, running⟩ := Prod.mk.inj facts
  have early := waited state reached 1 (by simp [returned])
  rw [running] at early
  cases early

end LinuxProgramming.Shell.AnyChild
