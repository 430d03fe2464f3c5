import Mathlib.Logic.Function.Basic

/-! The signal state of one process.

A standard signal is pending or it is not: one that is sent while it is pending
is merged with it. A blocked signal stays pending until it is unblocked or until
the process accepts it; one that is ignored is dropped.
-/

set_option autoImplicit false

namespace LinuxProgramming.Foundation

/-- A value of `sa_handler`: the address of a function, or `SIG_DFL` or `SIG_IGN`. -/
abbrev Handler := Nat

def SIG_DFL : Handler := 0
def SIG_IGN : Handler := 1

def SIGKILL : Nat := 9
def SIGUSR1 : Nat := 10
def SIGCHLD : Nat := 17
def SIGSTOP : Nat := 19
def SIGURG : Nat := 23
def SIGWINCH : Nat := 28
def SIGCANCEL : Nat := 32
def SIGSETXID : Nat := 33

/-- The largest signal number. -/
def SIGRTMAX : Nat := 64

/-- The C library keeps two signals for itself; to its callers they are none. -/
def validSignal (signo : Nat) : Bool :=
  1 ≤ signo && signo ≤ SIGRTMAX && signo != SIGCANCEL && signo != SIGSETXID

/-- Two signals can be neither caught, nor ignored, nor blocked. -/
def catchable (signo : Nat) : Bool := validSignal signo && signo != SIGKILL && signo != SIGSTOP

def ignoredByDefault (signo : Nat) : Bool :=
  signo == SIGCHLD || signo == SIGURG || signo == SIGWINCH

/-- A `sigset_t` by its characteristic function. -/
abbrev SignalSet := Nat → Bool

def sigemptyset : SignalSet := fun _ => false

def sigaddset (set : SignalSet) (signo : Nat) : SignalSet :=
  if validSignal signo then Function.update set signo true else set

def sigdelset (set : SignalSet) (signo : Nat) : SignalSet :=
  if validSignal signo then Function.update set signo false else set

structure Sigaction where
  sa_handler : Handler
  sa_mask : SignalSet
  sa_flags : Nat
  deriving Inhabited

def Sigaction.ignores (act : Sigaction) (signo : Nat) : Bool :=
  act.sa_handler == SIG_IGN || act.sa_handler == SIG_DFL && ignoredByDefault signo

/-- A function was installed for the signal. -/
def Sigaction.caught (act : Sigaction) : Bool := act.sa_handler != SIG_DFL && act.sa_handler != SIG_IGN

structure SignalState where
  mask : SignalSet
  pending : SignalSet
  dispositions : Nat → Sigaction

inductive How where
  | SIG_BLOCK
  | SIG_UNBLOCK
  | SIG_SETMASK
  deriving DecidableEq, Repr

/-- The new state and the mask from before. -/
def sigprocmask (signals : SignalState) (how : How) (set : SignalSet) : SignalState × SignalSet :=
  -- Signals that cannot be blocked are removed from the set without an error.
  let allowed := fun signo => set signo && catchable signo
  let mask := fun signo => match how with
    | .SIG_BLOCK => signals.mask signo || allowed signo
    | .SIG_UNBLOCK => signals.mask signo && !allowed signo
    | .SIG_SETMASK => allowed signo
  ({ signals with mask := mask }, signals.mask)

/-- The new state and the action from before. Ignoring a signal discards a pending one. -/
def sigaction (signals : SignalState) (signo : Nat) (act : Sigaction) : Option (SignalState × Sigaction) :=
  if catchable signo then
    some ({ signals with
        dispositions := Function.update signals.dispositions signo act
        pending := if act.ignores signo then Function.update signals.pending signo false
          else signals.pending },
      signals.dispositions signo)
  else none

namespace SignalState

/-- A blocked signal is kept even if it would be ignored, since that may change. -/
def generate (signals : SignalState) (signo : Nat) : SignalState :=
  if !signals.mask signo && (signals.dispositions signo).ignores signo then signals
  else { signals with pending := Function.update signals.pending signo true }

/-- A pending signal that is not blocked interrupts the process. -/
def deliverable (signals : SignalState) (signo : Nat) : Bool :=
  signals.pending signo && !signals.mask signo

/-- Take a pending signal out, to deliver it or to return it from `sigwaitinfo`. -/
def take (signals : SignalState) (signo : Nat) : SignalState :=
  { signals with pending := Function.update signals.pending signo false }

/-- A child inherits the mask and the dispositions, but nothing that is pending. -/
def inherit (signals : SignalState) : SignalState :=
  { signals with pending := sigemptyset }

/-- The mask while a handler runs; its own signal is blocked as well. -/
def handlerMask (signals : SignalState) (signo : Nat) : SignalSet := fun other =>
  signals.mask other || (signals.dispositions signo).sa_mask other && catchable other || other == signo

/-- What `execve` leaves to a new program: no handlers, and nothing is blocked or
pending unless the caller arranged for it. -/
def initial : SignalState := ⟨sigemptyset, sigemptyset, fun _ => ⟨SIG_DFL, sigemptyset, 0⟩⟩

end SignalState

variable {signals : SignalState} {signo : Nat}

@[simp] theorem generate_mask (signals : SignalState) (signo : Nat) :
    (signals.generate signo).mask = signals.mask := by
  unfold SignalState.generate
  split <;> rfl

@[simp] theorem generate_dispositions (signals : SignalState) (signo : Nat) :
    (signals.generate signo).dispositions = signals.dispositions := by
  unfold SignalState.generate
  split <;> rfl

theorem ignores_of_caught {act : Sigaction} (caught : act.caught = true) :
    act.ignores signo = false := by
  simp only [Sigaction.caught, Bool.and_eq_true, bne_iff_ne] at caught
  simp [Sigaction.ignores, caught.1, caught.2]

/-- A signal with a handler is not dropped. -/
theorem generate_caught (caught : (signals.dispositions signo).caught = true) :
    signals.generate signo =
      { signals with pending := Function.update signals.pending signo true } := by
  simp [SignalState.generate, ignores_of_caught caught]

theorem valid_of_catchable (admitted : catchable signo = true) : validSignal signo = true := by
  unfold catchable at admitted
  simp only [Bool.and_eq_true] at admitted
  exact admitted.1.1

theorem sigaddset_empty (valid : validSignal signo = true) (other : Nat) :
    sigaddset sigemptyset signo other = decide (other = signo) := by
  by_cases same : other = signo
  · simp [sigaddset, valid, same]
  · simp [sigaddset, valid, same, sigemptyset]

theorem sigaction_catchable (signals : SignalState) (admitted : catchable signo = true) (act : Sigaction) :
    ∃ after, sigaction signals signo act = some (after, signals.dispositions signo) ∧
      after.mask = signals.mask ∧
      after.dispositions = Function.update signals.dispositions signo act := by
  simp only [sigaction, admitted, ↓reduceIte]
  exact ⟨_, rfl, rfl, rfl⟩

end LinuxProgramming.Foundation
