import LinuxProgramming.Foundation.Announcement
import LinuxProgramming.GetNum.GetInt

/-! Producers that count up, and a consumer that waits for what they have produced.

The variables are of type `int`. They are counted here without a bound, and the results are
about arguments with which no sum leaves the range.
-/

set_option autoImplicit false

namespace LinuxProgramming.Threads.ProdCondvar
open Foundation
open GetNum (INT_MIN INT_MAX)

/-- `avail` is under the mutex; the other variables are those of the main thread. -/
structure Units where
  avail : Int
  numConsumed : Int
  done : Bool
  deriving DecidableEq, Repr

/-- The loop that consumes all available units, at one unit. -/
def consume (totRequired : Int) (units : Units) : Option (Units × Option Unit) :=
  if 0 < units.avail then
    some ({
      avail := units.avail - 1
      numConsumed := units.numConsumed + 1
      done := totRequired ≤ units.numConsumed + 1 }, some ())
  else some (units, none)

variable {count : Nat}

/-- One more argument is added; a sum outside of the range of an `int` is undefined. -/
def require (required cnt : Int) : Option Int :=
  if INT_MIN ≤ required + cnt ∧ required + cnt ≤ INT_MAX then some (required + cnt) else none

/-- The sum that the main thread makes of the arguments while it creates the threads. -/
def totRequired (cnt : Fin count → Int) : Option Int := (List.ofFn cnt).foldlM require 0

/-- The arguments are the numbers of units; a thread with a negative one produces none. -/
def prodCondvar (cnt : Fin count → Int) (required : Int) : Announcement count Units Unit where
  start := ⟨0, 0, false⟩
  rounds thread := (cnt thread).toNat
  publish _ units := { units with avail := units.avail + 1 }
  again units := !units.done
  ready units := units.avail ≠ 0
  enter := ()
  body _ units _ := consume required units

/-- The units that all threads will have produced. -/
def produced (cnt : Fin count → Int) : Nat := ∑ thread, (cnt thread).toNat

/-- A unit is still to be produced, or available, or consumed. -/
structure Conserved (cnt : Fin count → Int) (required : Int) (left : Fin count → Nat)
    (units : Units) : Prop where
  avail : 0 ≤ units.avail
  consumed : 0 ≤ units.numConsumed
  all : units.numConsumed + units.avail + (∑ thread, left thread : Nat) = produced cnt
  done : units.done = true ↔ 0 < units.numConsumed ∧ required ≤ units.numConsumed

def debt : Option Unit → Units → Nat
  | none, units => if units.avail = 0 then 0 else units.avail.toNat + 6
  | some (), units => units.avail.toNat + 6

variable {cnt : Fin count → Int} {required : Int} {left : Fin count → Nat} {units : Units}

theorem foldlM_require {cnts : List Int} {before : Int}
    (fits : cnts.foldlM require before = some required) : required = before + cnts.sum := by
  induction cnts generalizing before with
  | nil =>
    cases fits
    simp
  | cons cnt cnts ih =>
    rw [List.foldlM_cons] at fits
    obtain ⟨sum, added, rest⟩ := Option.bind_eq_some_iff.mp fits
    obtain ⟨_, same⟩ := Option.ite_none_right_eq_some.mp added
    obtain rfl := Option.some.inj same
    rw [ih rest, List.sum_cons, Int.add_assoc]

theorem required_le (fits : totRequired cnt = some required) : required ≤ produced cnt := by
  rw [foldlM_require fits, Int.zero_add, List.sum_ofFn, produced, Nat.cast_sum]
  exact Finset.sum_le_sum fun thread _ => Int.self_le_toNat (cnt thread)

theorem Conserved.publish (conserved : Conserved cnt required left units) {thread : Fin count}
    {rest : Nat} (more : left thread = rest + 1) :
    Conserved cnt required (Function.update left thread rest)
      { units with avail := units.avail + 1 } := by
  have all := conserved.all
  have avail := conserved.avail
  have moved := sum_update id left thread rest
  simp only [id, more] at moved
  refine ⟨?_, conserved.consumed, ?_, conserved.done⟩
  · simp only
    omega
  · simp only
    omega

theorem Conserved.debt_publish (conserved : Conserved cnt required left units) :
    debt none { units with avail := units.avail + 1 } ≤ debt none units + 7 := by
  have avail := conserved.avail
  simp only [debt]
  split <;> split <;> omega

/-- Behind the loop nothing is available. -/
theorem Conserved.debt_leaves (conserved : Conserved cnt required left units)
    (none_avail : ¬0 < units.avail) :
    debt none units + 6 ≤ debt (some ()) units := by
  have avail := conserved.avail
  have zero : units.avail = 0 := by omega
  simp only [debt, zero, if_true]
  omega

theorem lawful (cnt : Fin count → Int) (required : Int) :
    (prodCondvar cnt required).Lawful (fun left _ => Conserved cnt required left) debt 7 where
  start := ⟨Int.le_refl 0, Int.le_refl 0, by simp [prodCondvar, produced], by simp [prodCondvar]⟩
  publish conserved more := by
    exact ⟨conserved.publish more, rfl, conserved.debt_publish⟩
  enter conserved again ready := by
    have some_avail := of_decide_eq_true ready
    refine ⟨conserved, ?_⟩
    simp only [debt, if_neg some_avail]
    omega
  stays conserved work := by
    have all := conserved.all
    have avail := conserved.avail
    have consumed := conserved.consumed
    simp only [prodCondvar, consume] at work
    split at work
    next some_avail =>
      cases work
      refine ⟨⟨?_, ?_, ?_, ?_⟩, ?_⟩
      · simp only
        omega
      · simp only
        omega
      · simp only
        omega
      · simp only [decide_eq_true_eq]
        omega
      · simp only [debt]
        omega
    next => cases work
  leaves conserved work := by
    simp only [prodCondvar, consume] at work
    split at work
    next => cases work
    next none_avail =>
      cases work
      exact ⟨conserved, conserved.debt_leaves none_avail⟩
  blocked conserved work := by
    simp only [prodCondvar, consume] at work
    split at work <;> cases work

section Runs

open Announcement

/-- Every run ends. Units are conserved, and no counter leaves the range. Unless a thread
could not be created, a run ends with the exit of the main thread behind the units that it
has counted on, or nothing was to be produced and it waits for ever. -/
theorem prod_condvar_completes (cnt : Fin count → Int) (required : Int)
    (fits : totRequired cnt = some required) (small : produced cnt ≤ INT_MAX) (spurious : Nat) :
    ((prodCondvar cnt required).machine spurious).Terminates ∧
    ∀ state, ((prodCondvar cnt required).machine spurious).Reachable state →
      (0 ≤ state.data.avail ∧ state.data.avail ≤ INT_MAX ∧
        0 ≤ state.data.numConsumed ∧ state.data.numConsumed ≤ INT_MAX ∧
        state.data.numConsumed + state.data.avail +
          (∑ thread, state.left (prodCondvar cnt required) thread : Nat) = produced cnt) ∧
      (state.main = .exited →
        required ≤ state.data.numConsumed ∧ 0 < state.data.numConsumed) ∧
      (((prodCondvar cnt required).machine spurious).Stuck state → state.main = .failed ∨
        state.main = .exited ∨
        state.main = .waiting ∧ ∀ thread, cnt thread ≤ 0) := by
  refine ⟨terminates (lawful cnt required) spurious, fun state reached => ?_⟩
  have sound := sound_of_reachable (lawful cnt required) reached
  have conserved := sound.law
  refine ⟨?_, fun exited => ?_, fun stuck => ?_⟩
  · have avail := conserved.avail
    have consumed := conserved.consumed
    have all := conserved.all
    refine ⟨avail, ?_, consumed, ?_, all⟩
    · omega
    · omega
  · have again := sound.exited exited
    have done : state.data.done = true := by simpa [prodCondvar] using again
    obtain ⟨some_consumed, enough⟩ := conserved.done.mp done
    exact ⟨enough, some_consumed⟩
  · rcases sound.stuck (lawful cnt required) stuck with failed | exited | ⟨waiting, ready, through⟩
    · exact .inl failed
    · exact .inr (.inl exited)
    · refine .inr (.inr ⟨waiting, ?_⟩)
      have nothing_left : ∑ thread, state.left (prodCondvar cnt required) thread = 0 := by
        apply Finset.sum_eq_zero
        intro thread _
        rw [State.left, through thread]
        rfl
      have none_avail : state.data.avail = 0 := by simpa [prodCondvar] using ready
      have not_done : ¬state.data.done = true := by
        have again := sound.again (by rw [waiting]; rfl)
        simpa [prodCondvar] using again
      rw [conserved.done] at not_done
      have all := conserved.all
      have most := required_le fits
      have none_produced : produced cnt = 0 := by omega
      intro thread
      have here := Finset.sum_eq_zero_iff.mp none_produced thread (Finset.mem_univ thread)
      omega

/-- One unit is produced, and two are taken off what is required. -/
def takenOff : Fin 3 → Int := ![0, 1, -2]

def onlyUnit : List (Action 3) :=
  [.main, .main, .main, .worker 1, .worker 1, .worker 1, .main, .main, .main, .worker 1, .main,
    .main, .main, .main, .main]

theorem onlyUnit_runs :
    (((prodCondvar takenOff (-1)).machine 0).exec ((prodCondvar takenOff (-1)).machine 0).start
      onlyUnit).map (fun state => state.main) = some .exited := by decide

/-- One unit is consumed though less than none is required. -/
theorem prod_condvar_completes_takenOff :
    ∃ state, ((prodCondvar takenOff (-1)).machine 0).Reachable state ∧ state.main = .exited ∧
      0 < state.data.numConsumed := by
  obtain ⟨state, reached, exited⟩ := Machine.exists_reachable onlyUnit_runs
  obtain ⟨-, always⟩ := prod_condvar_completes takenOff (-1) (by decide) (by decide) 0
  exact ⟨state, reached, exited, ((always state reached).2.1 exited).2⟩

end Runs

end LinuxProgramming.Threads.ProdCondvar
