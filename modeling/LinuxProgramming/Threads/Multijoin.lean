import LinuxProgramming.Foundation.Announcement
import LinuxProgramming.Foundation.Splits

/-! The main thread that joins whichever thread terminates next.

A thread reports its end under the mutex and then signals. The main thread waits until
somebody has reported, and joins all who have; the join itself waits for the return of a
thread that has reported and still has to signal.
-/

set_option autoImplicit false

namespace LinuxProgramming.Threads
open Foundation

inductive tstate where
  | TS_ALIVE
  | TS_TERMINATED
  | TS_JOINED
  deriving DecidableEq, Repr

/-- The variables under the mutex and `numLive`, which only the main thread uses. `reaped`
lists the lines it prints: a thread and `numLive`, the last line first. -/
structure Global (totThreads : Nat) where
  thread : Fin totThreads → tstate
  numUnjoined : Int
  numLive : Int
  reaped : List (Fin totThreads × Int)

variable {totThreads : Nat}

def Global.terminated (state : Global totThreads) (idx : Fin totThreads) : Global totThreads :=
  { state with
    numUnjoined := state.numUnjoined + 1
    thread := Function.update state.thread idx .TS_TERMINATED }

def Global.join (state : Global totThreads) (idx : Fin totThreads) : Global totThreads :=
  { thread := Function.update state.thread idx .TS_JOINED
    numLive := state.numLive - 1
    numUnjoined := state.numUnjoined - 1
    reaped := (idx, state.numLive - 1) :: state.reaped }

/-- The loop over all threads, at one of them: `pthread_join` blocks until it has returned. -/
def scan (returned : Fin totThreads → Bool) (state : Global totThreads) (idx : Nat) :
    Option (Global totThreads × Option Nat) :=
  if inside : idx < totThreads then
    if state.thread ⟨idx, inside⟩ = .TS_TERMINATED then
      if returned ⟨idx, inside⟩ then some (state.join ⟨idx, inside⟩, some (idx + 1)) else none
    else some (state, some (idx + 1))
  else some (state, none)

/-- `numLive` gets its value behind the creation of the threads, and nobody reads it before. -/
def multijoin (totThreads : Nat) : Announcement totThreads (Global totThreads) Nat where
  start := ⟨fun _ => .TS_ALIVE, 0, totThreads, []⟩
  rounds _ := 1
  publish idx state := state.terminated idx
  again state := 0 < state.numLive
  ready state := state.numUnjoined ≠ 0
  enter := 0
  body := scan

def weight (state : tstate) : Nat := if state = .TS_TERMINATED then 1 else 0

/-- The counters count, each thread is joined once, and the lines count the live threads. -/
structure Counted (left : Fin totThreads → Nat) (idx : Option Nat) (state : Global totThreads) :
    Prop where
  alive : ∀ thread, left thread = if state.thread thread = .TS_ALIVE then 1 else 0
  unjoined : state.numUnjoined = (∑ thread, weight (state.thread thread) : Nat)
  live : state.numLive + state.reaped.length = totThreads
  once : (state.reaped.map Prod.fst).Nodup
  joined : ∀ thread, thread ∈ state.reaped.map Prod.fst ↔ state.thread thread = .TS_JOINED
  lines : ∀ before (line : Fin totThreads × Int) after, state.reaped = before ++ line :: after →
    line.2 + (after.length + 1) = totThreads
  scanned : ∀ number, idx = some number → ∀ thread : Fin totThreads, thread.val < number →
    state.thread thread ≠ .TS_TERMINATED

/-- What is left of the scan, and a scan of its own for those who have terminated. -/
def debt : Option Nat → Global totThreads → Nat
  | none, state => if state.numUnjoined = 0 then 0 else totThreads + 7
  | some idx, _ => totThreads - idx + 6

variable {left : Fin totThreads → Nat} {returned : Fin totThreads → Bool}
  {state next : Global totThreads} {thread : Fin totThreads} {idx rest : Nat}

theorem Counted.terminated (counted : Counted left none state) (alive : left thread = rest + 1) :
    Counted (Function.update left thread rest) none (state.terminated thread) := by
  have here := counted.alive thread
  have running : state.thread thread = .TS_ALIVE := by
    by_contra other
    rw [if_neg other] at here
    omega
  rw [if_pos running] at here
  have moved := sum_update weight state.thread thread .TS_TERMINATED
  rw [running] at moved
  refine ⟨?_, ?_, counted.live, counted.once, ?_, counted.lines, by simp⟩
  · intro other
    by_cases same : other = thread
    · subst same
      simp only [Global.terminated, Function.update_self]
      simp only [reduceCtorEq, if_false]
      omega
    · simp only [Global.terminated, Function.update_of_ne same]
      exact counted.alive other
  · have before := counted.unjoined
    rw [show weight .TS_ALIVE = 0 from rfl, show weight .TS_TERMINATED = 1 from rfl] at moved
    simp only [Global.terminated]
    omega
  · intro other
    rw [Global.terminated, counted.joined other]
    by_cases same : other = thread
    · subst same
      simp [running]
    · simp only [Function.update_of_ne same]

theorem Counted.join (counted : Counted left (some idx) state) (inside : idx < totThreads)
    (here : state.thread ⟨idx, inside⟩ = .TS_TERMINATED) :
    Counted left (some (idx + 1)) (state.join ⟨idx, inside⟩) := by
  have moved := sum_update weight state.thread ⟨idx, inside⟩ .TS_JOINED
  rw [here] at moved
  have fresh : (⟨idx, inside⟩ : Fin totThreads) ∉ state.reaped.map Prod.fst := by
    rw [counted.joined, here]
    simp
  have live := counted.live
  refine ⟨?_, ?_, ?_, ?_, ?_, ?_, ?_⟩
  · intro other
    rw [counted.alive other]
    by_cases same : other = ⟨idx, inside⟩
    · subst same
      simp [Global.join, here]
    · simp [Global.join, same]
  · have before := counted.unjoined
    rw [show weight .TS_TERMINATED = 1 from rfl, show weight .TS_JOINED = 0 from rfl] at moved
    simp only [Global.join]
    omega
  · simp only [Global.join, List.length_cons]
    omega
  · exact List.nodup_cons.mpr ⟨fresh, counted.once⟩
  · intro other
    simp only [Global.join, List.map_cons, List.mem_cons, counted.joined other]
    by_cases same : other = ⟨idx, inside⟩
    · simp [same]
    · simp [same]
  · simp only [Global.join]
    rw [splits_cons_iff]
    refine ⟨?_, ?_⟩
    · simp only
      omega
    · intro before line after split
      exact counted.lines before line after split
  · intro number same other below
    cases same
    by_cases equal : other = ⟨idx, inside⟩
    · subst equal
      simp [Global.join]
    · have apart : other.val ≠ idx := fun val => equal (Fin.ext val)
      simp only [Global.join, Function.update_of_ne equal]
      exact counted.scanned idx rfl other (by omega)

theorem Counted.passes (counted : Counted left (some idx) state) (inside : idx < totThreads)
    (here : state.thread ⟨idx, inside⟩ ≠ .TS_TERMINATED) :
    Counted left (some (idx + 1)) state := by
  refine ⟨counted.alive, counted.unjoined, counted.live, counted.once, counted.joined,
    counted.lines, ?_⟩
  intro number same other below
  cases same
  by_cases equal : other = ⟨idx, inside⟩
  · rw [equal]
    exact here
  · have apart : other.val ≠ idx := fun val => equal (Fin.ext val)
    exact counted.scanned idx rfl other (by omega)

/-- A scan that is through has joined everybody who had terminated. -/
theorem Counted.through (counted : Counted left (some idx) state) (all : totThreads ≤ idx) :
    Counted left none state ∧ state.numUnjoined = 0 := by
  refine ⟨⟨counted.alive, counted.unjoined, counted.live, counted.once, counted.joined,
    counted.lines, by simp⟩, ?_⟩
  have none : ∀ thread, weight (state.thread thread) = 0 :=
    fun thread => if_neg (counted.scanned idx rfl thread (Nat.lt_of_lt_of_le thread.isLt all))
  rw [counted.unjoined, Finset.sum_congr rfl fun thread _ => none thread]
  simp

theorem Counted.nobody {work : Option Nat} (counted : Counted left work state)
    (none : state.numUnjoined = 0) (thread : Fin totThreads) :
    state.thread thread ≠ .TS_TERMINATED := by
  have sum : ∑ thread, weight (state.thread thread) = 0 := by
    have count := counted.unjoined
    omega
  have here := Finset.sum_eq_zero_iff.mp sum thread (Finset.mem_univ thread)
  intro terminated
  rw [terminated] at here
  cases here

/-- All threads are joined when none is live. -/
theorem Counted.everybody {work : Option Nat} (counted : Counted left work state) :
    (∀ thread, thread ∈ state.reaped.map Prod.fst) ↔ state.numLive ≤ 0 := by
  have live := counted.live
  have size := List.toFinset_card_of_nodup counted.once
  rw [List.length_map] at size
  constructor
  · intro all
    have whole : (state.reaped.map Prod.fst).toFinset = Finset.univ := by
      rw [Finset.eq_univ_iff_forall]
      intro thread
      rw [List.mem_toFinset]
      exact all thread
    rw [whole, Finset.card_fin] at size
    omega
  · intro none thread
    have most := Finset.card_le_univ (state.reaped.map Prod.fst).toFinset
    rw [Fintype.card_fin] at most
    have whole : (state.reaped.map Prod.fst).toFinset = Finset.univ := by
      apply Finset.eq_univ_of_card
      rw [Fintype.card_fin]
      omega
    rw [← List.mem_toFinset, whole]
    exact Finset.mem_univ thread

theorem debt_le (state : Global totThreads) : debt none state ≤ totThreads + 7 := by
  rw [debt]
  split
  · exact Nat.zero_le _
  · exact Nat.le_refl _

theorem lawful (totThreads : Nat) :
    (multijoin totThreads).Lawful Counted debt (totThreads + 7) where
  start := by
    refine ⟨by simp [multijoin], by simp [multijoin, weight], by simp [multijoin],
      by simp [multijoin], by simp [multijoin], ?_, by simp⟩
    intro before line after split
    simp [multijoin] at split
  publish counted alive := by
    exact ⟨counted.terminated alive, rfl, Nat.le_trans (debt_le _) (Nat.le_add_left _ _)⟩
  enter counted again ready := by
    refine ⟨⟨counted.alive, counted.unjoined, counted.live, counted.once, counted.joined,
      counted.lines, ?_⟩, ?_⟩
    · intro number same thread below
      cases same
      exact absurd below (Nat.not_lt_zero _)
    · have some_unjoined := of_decide_eq_true ready
      simp only [multijoin, debt, if_neg some_unjoined]
      omega
  stays counted work := by
    simp only [multijoin, scan] at work
    split at work
    next inside =>
      split at work
      next here =>
        split at work
        next =>
          cases work
          refine ⟨counted.join inside here, ?_⟩
          simp only [debt]
          omega
        next => cases work
      next here =>
        cases work
        refine ⟨counted.passes inside here, ?_⟩
        simp only [debt]
        omega
    next => cases work
  leaves counted work := by
    simp only [multijoin, scan] at work
    split at work
    next inside =>
      split at work
      next =>
        split at work
        next => cases work
        next => cases work
      next => cases work
    next outside =>
      cases work
      obtain ⟨through, none⟩ := counted.through (Nat.le_of_not_lt outside)
      refine ⟨through, ?_⟩
      simp only [debt, if_pos none]
      omega
  blocked counted work := by
    simp only [multijoin, scan] at work
    split at work
    next inside =>
      split at work
      next here =>
        split at work
        next => cases work
        next still =>
          refine ⟨⟨_, inside⟩, ?_, Bool.eq_false_of_not_eq_true still⟩
          rw [counted.alive, here]
          rfl
      next => cases work
    next => cases work

section Runs

open Announcement

variable {spurious : Nat} {state next : Announcement.State totThreads (Global totThreads) Nat}

theorem counted_of_reachable (reached : ((multijoin totThreads).machine spurious).Reachable state) :
    Sound (multijoin totThreads) Counted state :=
  sound_of_reachable (lawful totThreads) reached

/-- One thread of the scan is joined when it has returned, and no other one. -/
theorem scan_joined {returned : Fin totThreads → Bool} {before after : Global totThreads}
    {idx : Nat} {more : Option Nat} (work : scan returned before idx = some (after, more))
    {thread : Fin totThreads} (joined : after.thread thread = .TS_JOINED) :
    returned thread = true ∨ before.thread thread = .TS_JOINED := by
  unfold scan at work
  split at work
  next inside =>
    split at work
    next =>
      split at work
      next has_returned =>
        cases work
        by_cases same : thread = ⟨idx, inside⟩
        · rw [same]
          exact .inl has_returned
        · exact .inr ((Function.update_of_ne same ..).symm.trans joined)
      next => cases work
    next =>
      cases work
      exact .inr joined
  next =>
    cases work
    exact .inr joined

theorem joined_returned (reached : ((multijoin totThreads).machine spurious).Reachable state)
    (thread : Fin totThreads) (joined : state.data.thread thread = .TS_JOINED) :
    state.worker thread = .returned := by
  induction reached with
  | start => cases joined
  | step reached taken ih =>
    cases (counted_of_reachable reached).effect taken with
    | keeps data stays =>
      rw [data] at joined
      exact stays thread (ih joined)
    | publishes worker left _ data stays =>
      rw [data] at joined
      by_cases same : thread = worker
      · subst same
        simp [multijoin, Global.terminated] at joined
      · exact stays thread (ih ((Function.update_of_ne same ..).symm.trans joined))
    | works idx more work workers =>
      rw [workers]
      rcases scan_joined work joined with returned | before
      · exact of_decide_eq_true returned
      · exact ih before

/-- Every run ends, and unless a thread could not be created it ends with the exit of the
main thread behind the joins of all threads; nobody is joined twice or before it returns. -/
theorem multijoin_joins (totThreads spurious : Nat) :
    ((multijoin totThreads).machine spurious).Terminates ∧
    ∀ state, ((multijoin totThreads).machine spurious).Reachable state →
      (state.data.reaped.map Prod.fst).Nodup ∧
      (∀ thread ∈ state.data.reaped.map Prod.fst, state.worker thread = .returned) ∧
      (∀ before (line : Fin totThreads × Int) after,
        state.data.reaped = before ++ line :: after → line.2 + (after.length + 1) = totThreads) ∧
      (((multijoin totThreads).machine spurious).Stuck state → state.main = .failed ∨
        state.main = .exited ∧ ∀ thread, thread ∈ state.data.reaped.map Prod.fst) := by
  refine ⟨terminates (lawful totThreads) spurious, fun state reached => ?_⟩
  have sound := counted_of_reachable reached
  have counted := sound.law
  refine ⟨counted.once, ?_, counted.lines, fun stuck => ?_⟩
  · intro thread member
    exact joined_returned reached thread ((counted.joined thread).mp member)
  · rcases sound.stuck (lawful totThreads) stuck with failed | exited | ⟨waiting, ready, through⟩
    · exact .inl failed
    · have none_live : state.data.numLive ≤ 0 := by
        have again := sound.exited exited
        simpa [multijoin] using again
      exact .inr ⟨exited, counted.everybody.mpr none_live⟩
    · exfalso
      have some_live : 0 < state.data.numLive := by
        have again := sound.again (by rw [waiting]; rfl)
        simpa [multijoin] using again
      have nobody : state.data.numUnjoined = 0 := by simpa [multijoin] using ready
      have all : ∀ thread, thread ∈ state.data.reaped.map Prod.fst := by
        intro thread
        rw [counted.joined]
        have alive := counted.alive thread
        rw [State.left, through thread] at alive
        cases here : state.data.thread thread with
        | TS_JOINED => rfl
        | TS_ALIVE => simp [here, WorkerPlace.left] at alive
        | TS_TERMINATED => exact absurd here (counted.nobody nobody thread)
      have none_live := counted.everybody.mp all
      omega

end Runs

end LinuxProgramming.Threads
