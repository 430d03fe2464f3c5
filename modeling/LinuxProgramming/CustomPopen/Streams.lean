import LinuxProgramming.Foundation.CString
import LinuxProgramming.Foundation.Machine
import Mathlib.Data.List.Nodup

/-! Streams to child processes, opened by `custom_popen` and closed by `custom_pclose`.

No record is kept of the child behind a stream: `custom_pclose` waits for any
child of the caller.
-/

set_option autoImplicit false

namespace LinuxProgramming.CustomPopen
open Foundation

/-- The system call of `custom_popen` that fails. -/
inductive Failure where
  | pipe
  | fork
  | fdopen
  deriving DecidableEq, Repr

/-- The two ends of a pipe. -/
inductive End where
  | read
  | write
  deriving DecidableEq, Repr

/-- `fdopen` needs an open descriptor. -/
def fdopen (opened : List End) (fd : End) (fails : Bool) : Bool := fd ∈ opened && !fails

def readMode : List Byte := ['r'.toUInt8]

def writeMode : List Byte := ['w'.toUInt8]

/-- Whether the parent gets a stream, after the fork. -/
def makesStream (mode : List Byte) (fails : Bool) : Bool :=
  -- The parent closes `pd[1]` in every mode.
  let pd := [End.read, End.write].erase .write
  if strcmp mode readMode = .eq then fdopen pd .read fails
  else if strcmp mode writeMode = .eq then fdopen pd .write fails
  else false

/-- There is no stream for writing: its end of the pipe was closed before. -/
theorem makesStream_iff {mode : List Byte} {fails : Bool} :
    makesStream mode fails = true ↔ mode = readMode ∧ fails = false := by
  simp only [makesStream, strcmp_eq_iff]
  split
  next reads => simp [fdopen, reads]
  next other => split <;> simp [fdopen, other]

/-- What the calls of the program have led to. Children are numbered in the order
of their forks; `child` is the one that was forked for an open stream. -/
structure Table (Stream : Type) where
  forks : Nat
  unwaited : List Nat
  child : Stream → Option Nat
  forked : ∀ child ∈ unwaited, child < forks
  distinct : unwaited.Nodup

namespace Table

variable {Stream : Type} [DecidableEq Stream]

def empty : Table Stream := ⟨0, [], fun _ => none, by simp, List.nodup_nil⟩

def fork (table : Table Stream) : Table Stream where
  forks := table.forks + 1
  unwaited := table.unwaited ++ [table.forks]
  child := table.child
  forked child member := by
    rcases List.mem_append.mp member with before | new
    · exact Nat.lt_succ_of_lt (table.forked child before)
    · rw [List.mem_singleton.mp new]
      exact Nat.lt_succ_self _
  distinct := by
    refine List.nodup_append.mpr ⟨table.distinct, List.nodup_singleton _, ?_⟩
    rintro child member other new rfl
    rw [List.mem_singleton.mp new] at member
    exact Nat.lt_irrefl _ (table.forked _ member)

def waited (table : Table Stream) (child : Nat) : Table Stream where
  forks := table.forks
  unwaited := table.unwaited.erase child
  child := table.child
  forked other member := table.forked other (List.mem_of_mem_erase member)
  distinct := table.distinct.erase child

def fclose (table : Table Stream) (fp : Stream) : Table Stream :=
  { table with child := Function.update table.child fp none }

/-- A child that was forked stays, even if there is no stream to it. -/
def custom_popen (table : Table Stream) (mode : List Byte) (fp : Stream)
    (failure : Option Failure) : Option (Table Stream) :=
  if failure = some .pipe ∨ failure = some .fork then some table
  else if makesStream mode (failure = some .fdopen) = false then some table.fork
  else if table.child fp = none then
    some { table.fork with child := Function.update table.child fp (some table.forks) }
  -- The memory of an open stream is not given out again.
  else none

end Table

/-- A call of the caller, with the failures that it meets. -/
inductive Call (Stream : Type) where
  | custom_popen (mode : List Byte) (fp : Stream) (failure : Option Failure)
  | fork
  | custom_pclose (fp : Stream) (fcloseFails : Bool)
  deriving DecidableEq

/-- A return from `custom_pclose`: the child of the stream, the child that was waited
for, and the result. -/
structure Closed where
  own : Nat
  reaped : Option Nat
  result : Int
  deriving DecidableEq, Repr

/-- `closing` is the child of the stream whose `custom_pclose` is inside `waitpid`;
`status` is what a child has ended with. -/
structure State (Stream : Type) where
  calls : List (Call Stream)
  table : Table Stream
  status : Nat → Option Int
  closing : Option Nat
  closed : List Closed

inductive Action where
  | call
  | exit (child : Nat) (status : Int)
  | waitpid (child : Nat)
  | echild
  deriving DecidableEq, Repr

section Streams

variable {Stream : Type} [DecidableEq Stream]

def State.returns (state : State Stream) (closed : Closed) : State Stream :=
  { state with closing := none, closed := state.closed ++ [closed] }

def issue (state : State Stream) : Call Stream → Option (State Stream)
  | .custom_popen mode fp failure =>
    match state.table.custom_popen mode fp failure with
    | some table => some { state with table := table }
    | none => none
  | .fork => some { state with table := state.table.fork }
  | .custom_pclose fp fcloseFails =>
    match state.table.child fp with
    | none => none
    | some own =>
      let state := { state with table := state.table.fclose fp }
      if fcloseFails then some (state.returns ⟨own, none, -1⟩)
      else some { state with closing := some own }

def step (state : State Stream) : Action → Option (State Stream)
  | .call =>
    match state.closing, state.calls with
    | none, call :: rest => issue { state with calls := rest } call
    | _, _ => none
  | .exit child status =>
    if child ∈ state.table.unwaited ∧ state.status child = none then
      some { state with status := Function.update state.status child (some status) }
    else none
  | .waitpid child =>
    -- With -1 it returns for any child that has ended.
    match state.closing, state.status child with
    | some own, some status =>
      if child ∈ state.table.unwaited then
        some ({ state with table := state.table.waited child }.returns ⟨own, some child, status⟩)
      else none
    | _, _ => none
  | .echild =>
    -- There is no handler that could interrupt the call, so it fails for want of a child only.
    match state.closing with
    | some own =>
      if state.table.unwaited = [] then some (state.returns ⟨own, none, -1⟩) else none
    | none => none

def machine (calls : List (Call Stream)) : Machine (State Stream) Action where
  start := ⟨calls, .empty, fun _ => none, none, []⟩
  step := step

/-- The result is the status of the child of the stream, and no other child was waited for. -/
def Right (state : State Stream) (closed : Closed) : Prop :=
  closed.reaped = some closed.own ∧ state.status closed.own = some closed.result

/-- Every return is right, and a call that waits has its child to wait for. -/
def ClosesOwn (calls : List (Call Stream)) : Prop :=
  ∀ state, (machine calls).Reachable state →
    (∀ closed ∈ state.closed, Right state closed) ∧
      ∀ own, state.closing = some own → own ∈ state.table.unwaited

/-- At each close the child of the stream is the only child of the caller. -/
def Alone : Table Stream → List (Call Stream) → Prop
  | _, [] => True
  | table, .custom_popen mode fp failure :: rest =>
    ∀ next, table.custom_popen mode fp failure = some next → Alone next rest
  | table, .fork :: rest => Alone table.fork rest
  | table, .custom_pclose fp fcloseFails :: rest =>
    ∀ own, table.child fp = some own →
      fcloseFails = false ∧ table.unwaited = [own] ∧ Alone ((table.fclose fp).waited own) rest

variable {calls : List (Call Stream)} {state next : State Stream}

/-- Where the calls are such, `waitpid` finds no child but the right one. -/
structure Kept (state : State Stream) : Prop where
  right : ∀ closed ∈ state.closed, Right state closed
  idle : state.closing = none → Alone state.table state.calls
  waits : ∀ own, state.closing = some own →
    state.table.unwaited = [own] ∧ Alone (state.table.waited own) state.calls

theorem Kept.issue {call : Call Stream} (right : ∀ closed ∈ state.closed, Right state closed)
    (going : state.closing = none) (alone : Alone state.table (call :: state.calls))
    (taken : issue state call = some next) : Kept next := by
  cases call with
  | custom_popen mode fp failure =>
    simp only [CustomPopen.issue] at taken
    split at taken
    next table opened =>
      cases taken
      exact ⟨right, fun _ => alone table opened, fun own waiting => by simp [going] at waiting⟩
    next => cases taken
  | fork =>
    cases taken
    exact ⟨right, fun _ => alone, fun own waiting => by simp [going] at waiting⟩
  | custom_pclose fp fcloseFails =>
    simp only [CustomPopen.issue] at taken
    split at taken
    next => cases taken
    next own open_stream =>
      obtain ⟨succeeds, only, later⟩ := alone own open_stream
      simp only [succeeds, Bool.false_eq_true, if_false, Option.some.injEq] at taken
      subst taken
      refine ⟨right, fun idle => (by cases idle), fun child waiting => ?_⟩
      cases waiting
      exact ⟨only, later⟩

theorem Kept.step {action : Action} (kept : Kept state) (taken : step state action = some next) :
    Kept next := by
  cases action with
  | call =>
    simp only [CustomPopen.step] at taken
    split at taken
    next call rest idle calls =>
      have alone := kept.idle idle
      rw [calls] at alone
      exact @Kept.issue Stream _ { state with calls := rest } next call kept.right idle alone taken
    next => cases taken
  | exit child status =>
    simp only [CustomPopen.step] at taken
    split at taken
    next enabled =>
      cases taken
      refine ⟨fun closed member => ?_, kept.idle, kept.waits⟩
      obtain ⟨own, ended⟩ := kept.right closed member
      -- A child that has been waited for has ended already.
      have other : closed.own ≠ child := by
        rintro rfl
        rw [enabled.2] at ended
        cases ended
      exact ⟨own, by simpa [other] using ended⟩
    next => cases taken
  | waitpid child =>
    simp only [CustomPopen.step] at taken
    split at taken
    next own status closing ended =>
      split at taken
      next there =>
        cases taken
        obtain ⟨only, later⟩ := kept.waits own closing
        rw [only, List.mem_singleton] at there
        subst there
        refine ⟨fun closed member => ?_, fun _ => later, fun own waiting => by cases waiting⟩
        rcases List.mem_append.mp member with before | new
        · exact kept.right closed before
        · rw [List.mem_singleton.mp new]
          exact ⟨rfl, ended⟩
      next => cases taken
    next => cases taken
  | echild =>
    simp only [CustomPopen.step] at taken
    split at taken
    next own closing =>
      rw [(kept.waits own closing).1, if_neg (List.cons_ne_nil _ _)] at taken
      cases taken
    next => cases taken

theorem closesOwn_of_alone (alone : Alone .empty calls) : ClosesOwn calls := by
  intro state reached
  have start : Kept (machine calls).start :=
    ⟨fun closed member => (List.not_mem_nil member).elim, fun _ => alone,
      fun own waiting => by cases waiting⟩
  have kept := Machine.invariant start (fun kept taken => kept.step taken) reached
  exact ⟨kept.right, fun own waiting => by simp [(kept.waits own waiting).1]⟩

/-- A child that has not been waited for can be the next to end. -/
theorem can_be_reaped {own child : Nat} (reached : (machine calls).Reachable state)
    (closing : state.closing = some own) (there : child ∈ state.table.unwaited) :
    ∃ status result, status child = some result ∧ (machine calls).Reachable
      { state with
        table := state.table.waited child
        status := status
        closing := none
        closed := state.closed ++ [⟨own, some child, result⟩] } := by
  obtain ⟨status, result, ended, before⟩ : ∃ status result, status child = some result ∧
      (machine calls).Reachable { state with status := status } := by
    cases ended : state.status child with
    | some result => exact ⟨state.status, result, ended, reached⟩
    | none =>
      have exits : (machine calls).step state (.exit child 0) =
          some { state with status := Function.update state.status child (some 0) } := by
        simp [machine, step, there, ended]
      exact ⟨_, 0, Function.update_self .., reached.step exits⟩
  have found : (machine calls).step { state with status := status } (.waitpid child) =
      some ({ state with table := state.table.waited child, status := status }.returns
        ⟨own, some child, result⟩) := by
    simp [machine, step, closing, ended, there]
  exact ⟨status, result, ended, before.step found⟩

/-- A call that waits can only be right if there is no child but the right one. -/
theorem only_of_right (right : ∀ state, (machine calls).Reachable state →
    ∀ closed ∈ state.closed, Right state closed) {own : Nat}
    (reached : (machine calls).Reachable state) (closing : state.closing = some own) :
    state.table.unwaited = [own] := by
  have reaps : ∀ child ∈ state.table.unwaited, child = own := by
    intro child there
    obtain ⟨status, result, ended, after⟩ := can_be_reaped reached closing there
    have entry := right _ after ⟨own, some child, result⟩
      (List.mem_append_right _ (List.mem_singleton_self _))
    exact Option.some.inj entry.1
  have filled : state.table.unwaited ≠ [] := by
    intro none_left
    have failed : (machine calls).step state .echild = some (state.returns ⟨own, none, -1⟩) := by
      simp [machine, step, closing, none_left]
    have wrong := right _ (reached.step failed) ⟨own, none, -1⟩
      (List.mem_append_right _ (List.mem_singleton_self _))
    cases wrong.1
  obtain ⟨child, others, children⟩ := List.exists_cons_of_ne_nil filled
  have distinct := state.table.distinct
  rw [children] at reaps distinct ⊢
  obtain rfl := reaps child List.mem_cons_self
  have alone : others = [] := by
    refine List.eq_nil_iff_forall_not_mem.mpr fun other member => ?_
    have same := reaps other (List.mem_cons_of_mem _ member)
    exact (List.nodup_cons.mp distinct).1 (same ▸ member)
  rw [alone]

/-- Where every return is right, the calls keep to one child at a time. -/
theorem alone_of_right (right : ∀ state, (machine calls).Reachable state →
    ∀ closed ∈ state.closed, Right state closed) {rest : List (Call Stream)}
    (reached : (machine calls).Reachable state) (idle : state.closing = none)
    (left : state.calls = rest) : Alone state.table rest := by
  induction rest generalizing state with
  | nil => trivial
  | cons call rest ih =>
    have called : (machine calls).step state .call = issue { state with calls := rest } call := by
      simp [machine, step, idle, left]
    cases call with
    | custom_popen mode fp failure =>
      intro table opened
      have stepped : (machine calls).step state .call =
          some { state with calls := rest, table := table } := by
        simp [called, issue, opened]
      exact ih (reached.step stepped) idle rfl
    | fork => exact ih (reached.step called) idle rfl
    | custom_pclose fp fcloseFails =>
      intro own open_stream
      cases fcloseFails with
      | true =>
        have stepped : (machine calls).step state .call =
            some ({ state with calls := rest, table := state.table.fclose fp }.returns
              ⟨own, none, -1⟩) := by
          simp [called, issue, open_stream]
        have wrong := right _ (reached.step stepped) ⟨own, none, -1⟩
          (List.mem_append_right _ (List.mem_singleton_self _))
        cases wrong.1
      | false =>
        have stepped : (machine calls).step state .call =
            some { state with
              calls := rest
              table := state.table.fclose fp
              closing := some own } := by
          simp [called, issue, open_stream]
        have waiting := reached.step stepped
        have only := only_of_right right waiting rfl
        have there : own ∈ state.table.unwaited := by
          rw [show state.table.unwaited = [own] from only]
          exact List.mem_singleton_self own
        obtain ⟨status, result, ended, after⟩ := can_be_reaped waiting rfl there
        exact ⟨rfl, only, ih after rfl rfl⟩

/-- `custom_pclose` keeps to the child of its stream, in whatever order the children
end, exactly when that child is the only one at every close. -/
theorem closes_own_iff (calls : List (Call Stream)) : ClosesOwn calls ↔ Alone .empty calls := by
  refine ⟨fun closes => ?_, closesOwn_of_alone⟩
  exact alone_of_right (fun state reached => (closes state reached).1) .start rfl rfl

end Streams

/-- Of two streams the first is closed when the child of the second has ended. -/
theorem two_streams_not_own :
    ¬ ∀ (Stream : Type) [DecidableEq Stream] (calls : List (Call Stream)), ClosesOwn calls := by
  intro always
  let calls : List (Call Bool) :=
    [.custom_popen readMode false none, .custom_popen readMode true none,
      .custom_pclose false false]
  obtain ⟨state, reached, closed⟩ := Machine.exists_reachable
    (show ((machine calls).exec (machine calls).start
      [.call, .call, .call, .exit 1 7, .waitpid 1]).map State.closed = some [⟨0, some 1, 7⟩] by decide)
  have wrong := (always Bool calls state reached).1 ⟨0, some 1, 7⟩ (by simp [closed])
  cases wrong.1

end LinuxProgramming.CustomPopen
