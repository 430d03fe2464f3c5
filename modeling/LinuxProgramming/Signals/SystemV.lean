import LinuxProgramming.Foundation.Signals

/-! The System V signal functions on top of `sigaction` and `sigprocmask`.

`sigset` leaves its local `oact` unwritten when it only blocks the signal and
still returns its handler; what the variable held is an argument here.
-/

set_option autoImplicit false

namespace LinuxProgramming.Signals
open Foundation

/-- `#define SIG_HOLD ((void (*)(int))2)` -/
def SIG_HOLD : Handler := 2

def sigset (signals : SignalState) (oact : Sigaction) (signo : Nat) (func : Handler) :
    SignalState × Handler :=
  let set := sigaddset sigemptyset signo
  if func = SIG_HOLD then
    ((sigprocmask signals .SIG_BLOCK set).1, oact.sa_handler)
  else
    let act : Sigaction := ⟨func, set, 0⟩
    -- A failing `sigaction` writes nothing to `oact` either.
    let installed := (sigaction signals signo act).getD (signals, oact)
    ((sigprocmask installed.1 .SIG_UNBLOCK set).1, installed.2.sa_handler)

def sighold (signals : SignalState) (signo : Nat) : SignalState × Int :=
  ((sigprocmask signals .SIG_BLOCK (sigaddset sigemptyset signo)).1, 0)

def sigrelse (signals : SignalState) (signo : Nat) : SignalState × Int :=
  ((sigprocmask signals .SIG_UNBLOCK (sigaddset sigemptyset signo)).1, 0)

def sigignore (signals : SignalState) (signo : Nat) : SignalState × Int :=
  match sigaction signals signo ⟨SIG_IGN, sigemptyset, 0⟩ with
  | some installed => (installed.1, 0)
  | none => (signals, -1)

inductive Call where
  | sigset (signo : Nat) (func : Handler)
  | sighold (signo : Nat)
  | sigrelse (signo : Nat)
  | sigignore (signo : Nat)
  deriving DecidableEq, Repr

def Call.signo : Call → Nat
  | .sigset signo _ | .sighold signo | .sigrelse signo | .sigignore signo => signo

/-- One call: the state it leaves, and the handler that `sigset` returns. -/
def execute (signals : SignalState) (oact : Sigaction) : Call →
    SignalState × Option Handler
  | .sigset signo func =>
    let returned := sigset signals oact signo func
    (returned.1, some returned.2)
  | .sighold signo => ((sighold signals signo).1, none)
  | .sigrelse signo => ((sigrelse signals signo).1, none)
  | .sigignore signo => ((sigignore signals signo).1, none)

/-! The purpose: the signal functions of System V on a set of held signals. -/

@[ext] structure SystemV where
  held : Nat → Bool
  disposition : Nat → Handler

namespace SystemV

def hold (state : SystemV) (signo : Nat) : SystemV :=
  { state with held := Function.update state.held signo true }

def release (state : SystemV) (signo : Nat) : SystemV :=
  { state with held := Function.update state.held signo false }

def install (state : SystemV) (signo : Nat) (func : Handler) : SystemV :=
  { state with disposition := Function.update state.disposition signo func }

/-- What `sigset` returns: the state of the signal just before the call. -/
def previous (state : SystemV) (signo : Nat) : Handler :=
  if state.held signo then SIG_HOLD else state.disposition signo

def step (state : SystemV) : Call → SystemV × Option Handler
  | .sigset signo func =>
    (if func = SIG_HOLD then state.hold signo else (state.install signo func).release signo,
      some (state.previous signo))
  | .sighold signo => (state.hold signo, none)
  | .sigrelse signo => (state.release signo, none)
  | .sigignore signo => (state.install signo SIG_IGN, none)

/-- The state after each call and what the call returned. -/
def trace (state : SystemV) : List Call → List (SystemV × Option Handler)
  | [] => []
  | call :: calls => state.step call :: (state.step call).1.trace calls

end SystemV

/-- Signals seen through the System V interface: the mask and the handlers. -/
def view (signals : SignalState) : SystemV where
  held := signals.mask
  disposition signo := (signals.dispositions signo).sa_handler

/-- The run of the code on a sequence of calls; the n-th call finds `oacts n` in
its uninitialised variable. -/
def trace (signals : SignalState) (oacts : Nat → Sigaction) : List Call →
    List (SystemV × Option Handler)
  | [] => []
  | call :: calls =>
    let after := execute signals (oacts 0) call
    (view after.1, after.2) :: trace after.1 (fun n => oacts (n + 1)) calls

variable {signals : SignalState} {signo : Nat}

theorem view_block (admitted : catchable signo = true) :
    view (sigprocmask signals .SIG_BLOCK (sigaddset sigemptyset signo)).1 =
      (view signals).hold signo := by
  ext other
  · by_cases same : other = signo
    · simp [view, sigprocmask, SystemV.hold, sigaddset_empty (valid_of_catchable admitted), same,
        admitted]
    · simp [view, sigprocmask, SystemV.hold, sigaddset_empty (valid_of_catchable admitted), same]
  · rfl

theorem view_unblock (admitted : catchable signo = true) :
    view (sigprocmask signals .SIG_UNBLOCK (sigaddset sigemptyset signo)).1 =
      (view signals).release signo := by
  ext other
  · by_cases same : other = signo
    · simp [view, sigprocmask, SystemV.release, sigaddset_empty (valid_of_catchable admitted), same,
        admitted]
    · simp [view, sigprocmask, SystemV.release, sigaddset_empty (valid_of_catchable admitted), same]
  · rfl

theorem view_installed {after : SignalState} {act : Sigaction} (mask : after.mask = signals.mask)
    (dispositions : after.dispositions = Function.update signals.dispositions signo act) :
    view after = (view signals).install signo act.sa_handler := by
  ext other
  · simp [view, SystemV.install, mask]
  · by_cases same : other = signo
    · simp [view, SystemV.install, dispositions, same]
    · simp [view, SystemV.install, dispositions, same]

/-- What a call does to the state never depends on the uninitialised variable. -/
theorem execute_state (signals : SignalState) (first second : Sigaction) (call : Call) :
    (execute signals first call).1 = (execute signals second call).1 := by
  cases call with
  | sigset signo func =>
    simp only [execute, sigset]
    split
    · rfl
    · cases sigaction signals signo ⟨func, sigaddset sigemptyset signo, 0⟩ <;> rfl
  | sighold signo | sigrelse signo | sigignore signo => rfl

/-- Each call refines the System V call as far as the state goes. -/
theorem view_execute (signals : SignalState) (oact : Sigaction) {call : Call} (admitted : catchable call.signo = true) :
    view (execute signals oact call).1 = ((view signals).step call).1 := by
  cases call with
  | sigset signo func =>
    have caught : catchable signo = true := admitted
    obtain ⟨after, installed, mask, dispositions⟩ :=
      sigaction_catchable signals caught ⟨func, sigaddset sigemptyset signo, 0⟩
    by_cases held : func = SIG_HOLD
    · simp only [execute, sigset, held, ↓reduceIte, SystemV.step]
      exact view_block caught
    · simp only [execute, sigset, held, ↓reduceIte, SystemV.step, installed, Option.getD_some]
      rw [view_unblock caught, view_installed mask dispositions]
  | sighold signo => exact view_block admitted
  | sigrelse signo => exact view_unblock admitted
  | sigignore signo =>
    have caught : catchable signo = true := admitted
    obtain ⟨after, installed, mask, dispositions⟩ :=
      sigaction_catchable signals caught ⟨SIG_IGN, sigemptyset, 0⟩
    simp only [execute, sigignore, installed]
    exact view_installed mask dispositions

/-- The states after the calls are those of System V, whatever is returned. -/
theorem trace_states (signals : SignalState) (oacts : Nat → Sigaction) (calls : List Call)
    (admitted : ∀ call ∈ calls, catchable call.signo = true) :
    (trace signals oacts calls).map Prod.fst = ((view signals).trace calls).map Prod.fst := by
  induction calls generalizing signals oacts with
  | nil => rfl
  | cons call calls ih =>
    have after := view_execute signals (oacts 0) (admitted call List.mem_cons_self)
    simp only [trace, SystemV.trace, List.map_cons]
    rw [ih _ _ fun later member => admitted later (List.mem_cons_of_mem call member), after]

/-- A `sigset` call that neither holds the signal nor finds it held. The last
alternative is a process whose installed handler has the address `SIG_HOLD`. -/
def Plain (state : SystemV) : Call → Prop
  | .sigset signo func =>
    func ≠ SIG_HOLD ∧ (state.held signo = false ∨ state.disposition signo = SIG_HOLD)
  | .sighold _ | .sigrelse _ | .sigignore _ => True

/-- Each call of the sequence is plain in the state that the calls before it leave. -/
def AllPlain (state : SystemV) : List Call → Prop
  | [] => True
  | call :: calls => Plain state call ∧ AllPlain (state.step call).1 calls

theorem returned_iff {call : Call} (admitted : catchable call.signo = true) :
    (∀ oact, (execute signals oact call).2 = ((view signals).step call).2) ↔
      Plain (view signals) call := by
  cases call with
  | sigset signo func =>
    have caught : catchable signo = true := admitted
    obtain ⟨after, installed, -, -⟩ :=
      sigaction_catchable signals caught ⟨func, sigaddset sigemptyset signo, 0⟩
    by_cases hold : func = SIG_HOLD
    · -- Two contents of the variable give two returned values, so one of them is wrong.
      refine iff_of_false (fun same => ?_) (fun plain => plain.1 hold)
      have zero := same ⟨0, sigemptyset, 0⟩
      have one := same ⟨1, sigemptyset, 0⟩
      simp only [execute, sigset, hold, ↓reduceIte] at zero one
      rw [← one] at zero
      simp at zero
    · have returned : ∀ oact, (execute signals oact (.sigset signo func)).2 =
          some ((view signals).disposition signo) := by
        intro oact
        simp only [execute, sigset, hold, ↓reduceIte, installed]
        rfl
      simp only [returned, SystemV.step, SystemV.previous, Plain, hold, ne_eq, not_false_eq_true,
        true_and, forall_const, Option.some.injEq]
      cases (view signals).held signo with
      | false => simp
      | true => simp [eq_comm]
  | sighold signo | sigrelse signo | sigignore signo => simp [execute, SystemV.step, Plain]

/-- The traces agree whatever the uninitialised variables hold exactly when
every `sigset` of the sequence is plain. -/
theorem trace_agrees_iff (signals : SignalState) (calls : List Call)
    (admitted : ∀ call ∈ calls, catchable call.signo = true) :
    (∀ oacts, trace signals oacts calls = (view signals).trace calls) ↔
      AllPlain (view signals) calls := by
  induction calls generalizing signals with
  | nil => simp [trace, SystemV.trace, AllPlain]
  | cons call calls ih =>
    have catch_first := admitted call List.mem_cons_self
    have catch_rest : ∀ later ∈ calls, catchable later.signo = true :=
      fun later member => admitted later (List.mem_cons_of_mem call member)
    have rest := ih (execute signals default call).1 catch_rest
    rw [view_execute signals default catch_first] at rest
    rw [AllPlain, ← returned_iff catch_first, ← rest]
    constructor
    · intro same
      refine ⟨fun oact => ?_, fun oacts => ?_⟩
      · have heads := (List.cons_eq_cons.mp (same fun _ => oact)).1
        exact congrArg Prod.snd heads
      · -- The first call may find anything, the later ones find `oacts`.
        have tails := (List.cons_eq_cons.mp (same fun n => if n = 0 then default else oacts (n - 1))).2
        exact tails
    · rintro ⟨first, later⟩ oacts
      refine List.cons_eq_cons.mpr ⟨Prod.ext (view_execute _ _ catch_first) (first _), ?_⟩
      rw [execute_state signals (oacts 0) default call]
      exact later _

/-- A handler is installed and the signal is held and released around work. -/
def protect : List Call :=
  [.sigset SIGUSR1 100, .sighold SIGUSR1, .sigrelse SIGUSR1, .sigset SIGUSR1 SIG_DFL]

theorem trace_agrees_protect : AllPlain (view .initial) protect ∧
    ∀ oacts, trace .initial oacts protect = (view .initial).trace protect := by
  have plain : AllPlain (view .initial) protect := by
    simp [protect, AllPlain, Plain, view, SignalState.initial, SystemV.step, SystemV.hold,
      SystemV.release, SystemV.install, SIG_HOLD, SIG_DFL, sigemptyset]
  exact ⟨plain, (trace_agrees_iff .initial protect (by decide)).mpr plain⟩

/-- A new handler for a held signal: `SIG_DFL` is returned where `SIG_HOLD` is due. -/
theorem held_sigset_disagrees : ¬ ∀ signals oacts calls,
    (∀ call ∈ calls, catchable call.signo = true) →
      trace signals oacts calls = (view signals).trace calls := by
  intro agrees
  have same := agrees .initial (fun _ => default) [.sighold SIGUSR1, .sigset SIGUSR1 100] (by decide)
  have returned := congrArg (List.map Prod.snd) same
  revert returned
  decide

end LinuxProgramming.Signals
