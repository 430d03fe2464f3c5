import LinuxProgramming.SharedStack.Operations

/-! How many pushers and poppers wait, and how many are on their way to the stack.

One condition variable serves both sides, so a signal may wake a call that only
goes back to waiting. Whether that loses a wakeup is a matter of numbers: here a
state is the index and two counts for each side.
-/

set_option autoImplicit false

namespace LinuxProgramming.SharedStack

inductive Side where
  | pushers
  | poppers
  deriving DecidableEq, Repr

namespace Side

def other : Side → Side
  | .pushers => .poppers
  | .poppers => .pushers

@[simp] theorem other_other (side : Side) : side.other.other = side := by cases side <;> rfl

theorem eq_or_eq_other (first second : Side) : first = second ∨ first = second.other := by
  cases first <;> cases second <;> simp [other]

end Side

def Call.side : Call → Side
  | .push _ => .pushers
  | .pop => .poppers

/-- How many calls of one side could finish in a row. -/
def supply (index : Int) : Side → Int
  | .pushers => STACK_SIZE - index
  | .poppers => index

theorem supply_other (index : Int) (side : Side) :
    supply index side.other = STACK_SIZE - supply index side := by
  cases side
  · exact (Int.sub_sub_self STACK_SIZE index).symm
  · rfl

/-- The calls of one side that wait, and those that test the index next. -/
structure Count where
  waiting : Nat
  active : Nat
  deriving DecidableEq, Repr

/-- `signalling` says that a call has changed the index and not yet signalled. -/
structure Headcount where
  index : Int
  count : Side → Count
  signalling : Bool

/-- What one step can change; `side` is the side of the call that steps or is woken. -/
inductive Turn (before after : Headcount) : Prop where
  | stay (index : after.index = before.index) (count : ∀ side, after.count side = before.count side)
    (signalling : after.signalling = before.signalling)
  | call (side : Side) (waiting active : Nat) (index : after.index = before.index)
    (was : before.count side = ⟨waiting, active⟩) (mine : after.count side = ⟨waiting, active + 1⟩)
    (theirs : after.count side.other = before.count side.other)
    (signalling : after.signalling = before.signalling)
  | wait (side : Side) (waiting active : Nat) (quiet : before.signalling = false)
    (none_left : supply before.index side = 0) (index : after.index = before.index)
    (was : before.count side = ⟨waiting, active + 1⟩)
    (mine : after.count side = ⟨waiting + 1, active⟩)
    (theirs : after.count side.other = before.count side.other)
    (signalling : after.signalling = false)
  | finish (side : Side) (waiting active : Nat) (quiet : before.signalling = false)
    (some_left : supply before.index side ≠ 0)
    (index : supply after.index side = supply before.index side - 1)
    (was : before.count side = ⟨waiting, active + 1⟩) (mine : after.count side = ⟨waiting, active⟩)
    (theirs : after.count side.other = before.count side.other)
    (signalling : after.signalling = true)
  | wake (side : Side) (waiting active : Nat) (pending : before.signalling = true)
    (index : after.index = before.index) (was : before.count side = ⟨waiting + 1, active⟩)
    (mine : after.count side = ⟨waiting, active + 1⟩)
    (theirs : after.count side.other = before.count side.other)
    (signalling : after.signalling = false)
  | wakeNone (pending : before.signalling = true) (index : after.index = before.index)
    (nobody : ∀ side, (before.count side).waiting = 0)
    (count : ∀ side, after.count side = before.count side)
    (signalling : after.signalling = false)

/-- Seen from one side: the active calls make up for those that wait. If only one side
waits, its active calls use up the supply, except that a single call may wait for a
supply of one while three calls of the other side are active. If both wait, the stack is
empty or full and three calls that can go on are active. -/
structure Balanced (supply : Int) (mine theirs : Count) : Prop where
  lower : 0 ≤ supply
  upper : supply ≤ STACK_SIZE
  alone : 0 < mine.waiting → theirs.waiting = 0 →
    supply ≤ mine.active ∨ supply = 1 ∧ mine.waiting = 1 ∧ 3 ≤ theirs.active
  others : 0 < theirs.waiting → mine.waiting = 0 →
    STACK_SIZE - supply ≤ theirs.active ∨
      STACK_SIZE - supply = 1 ∧ theirs.waiting = 1 ∧ 3 ≤ mine.active
  both : 0 < mine.waiting → 0 < theirs.waiting →
    supply = 0 ∧ 3 ≤ theirs.active ∨ supply = STACK_SIZE ∧ 3 ≤ mine.active

/-- Balanced whichever call the signal wakes. -/
structure Pending (supply : Int) (mine theirs : Count) : Prop where
  wakesMine : 0 < mine.waiting → Balanced supply ⟨mine.waiting - 1, mine.active + 1⟩ theirs
  wakesTheirs : 0 < theirs.waiting → Balanced supply mine ⟨theirs.waiting - 1, theirs.active + 1⟩
  wakesNone : mine.waiting = 0 → theirs.waiting = 0 → Balanced supply mine theirs

variable {left : Int} {mine theirs : Count}

theorem Balanced.swap (balanced : Balanced left mine theirs) :
    Balanced (STACK_SIZE - left) theirs mine where
  lower := Int.sub_nonneg_of_le balanced.upper
  upper := Int.sub_le_self _ balanced.lower
  alone := balanced.others
  others waits free := by
    rw [Int.sub_sub_self]
    exact balanced.alone waits free
  both theirs_wait mine_wait := by
    rcases balanced.both mine_wait theirs_wait with ⟨empty, enough⟩ | ⟨full, enough⟩
    · exact .inr ⟨by rw [empty, Int.sub_zero], enough⟩
    · exact .inl ⟨by rw [full, Int.sub_self], enough⟩

theorem Pending.swap (pending : Pending left mine theirs) :
    Pending (STACK_SIZE - left) theirs mine where
  wakesMine waits := (pending.wakesTheirs waits).swap
  wakesTheirs waits := (pending.wakesMine waits).swap
  wakesNone theirs_free mine_free := (pending.wakesNone mine_free theirs_free).swap

/-- One more active call can only help. -/
theorem Balanced.call {waiting active : Nat} (balanced : Balanced left ⟨waiting, active⟩ theirs) :
    Balanced left ⟨waiting, active + 1⟩ theirs := by
  obtain ⟨lower, upper, alone, others, both⟩ := balanced
  dsimp only at alone others both
  refine ⟨lower, upper, ?_, ?_, ?_⟩ <;> dsimp only <;> omega

theorem Pending.call {waiting active : Nat} (pending : Pending left ⟨waiting, active⟩ theirs) :
    Pending left ⟨waiting, active + 1⟩ theirs where
  wakesMine waits := (pending.wakesMine waits).call
  wakesTheirs waits := (pending.wakesTheirs waits).call
  wakesNone mine_free theirs_free := (pending.wakesNone mine_free theirs_free).call

/-- A call that finds nothing left goes to wait. -/
theorem Balanced.wait {waiting active : Nat} (balanced : Balanced 0 ⟨waiting, active + 1⟩ theirs) :
    Balanced 0 ⟨waiting + 1, active⟩ theirs := by
  have size : STACK_SIZE = 3 := rfl
  obtain ⟨lower, upper, alone, others, both⟩ := balanced
  dsimp only at alone others both
  refine ⟨lower, upper, ?_, ?_, ?_⟩ <;> dsimp only <;> omega

/-- A call that finishes leaves one less for its side and one more for the other. The
bound is needed here: a sixth process lets a call of the wrong side take the signal. -/
theorem Balanced.finish {waiting active : Nat} (balanced : Balanced left ⟨waiting, active + 1⟩ theirs)
    (some_left : left ≠ 0) (few : waiting + (active + 1) + (theirs.waiting + theirs.active) ≤ 5) :
    Pending (left - 1) ⟨waiting, active⟩ theirs := by
  have size : STACK_SIZE = 3 := rfl
  obtain ⟨lower, upper, alone, others, both⟩ := balanced
  dsimp only at alone others both
  constructor
  · intro waits
    dsimp only at waits
    refine ⟨by omega, by omega, ?_, ?_, ?_⟩ <;> dsimp only <;> omega
  · intro waits
    refine ⟨by omega, by omega, ?_, ?_, ?_⟩ <;> dsimp only <;> omega
  · intro mine_free theirs_free
    refine ⟨by omega, by omega, ?_, ?_, ?_⟩ <;> dsimp only <;> omega

namespace Headcount

def crowd (headcount : Headcount) : Nat :=
  (headcount.count .pushers).waiting + (headcount.count .pushers).active +
    ((headcount.count .poppers).waiting + (headcount.count .poppers).active)

theorem crowd_eq (headcount : Headcount) (side : Side) :
    headcount.crowd = (headcount.count side).waiting + (headcount.count side).active +
      ((headcount.count side.other).waiting + (headcount.count side.other).active) := by
  cases side
  · rfl
  · exact Nat.add_comm _ _

/-- The invariant, seen from one side. -/
def Kept (headcount : Headcount) (side : Side) : Prop :=
  let left := supply headcount.index side
  if headcount.signalling then Pending left (headcount.count side) (headcount.count side.other)
  else Balanced left (headcount.count side) (headcount.count side.other)

variable {before after : Headcount}

theorem kept_other {side : Side} (kept : before.Kept side) : before.Kept side.other := by
  unfold Kept at kept ⊢
  rw [supply_other, Side.other_other]
  dsimp only at kept ⊢
  split at kept
  next signalling =>
    rw [if_pos signalling]
    exact kept.swap
  next quiet =>
    rw [if_neg quiet]
    exact kept.swap

/-- What holds from one side holds from both. -/
theorem kept_all {side : Side} (kept : before.Kept side) (seen : Side) : before.Kept seen := by
  rcases Side.eq_or_eq_other seen side with rfl | rfl
  · exact kept
  · exact kept_other kept

theorem Kept.balanced {side : Side} (kept : before.Kept side) (quiet : before.signalling = false) :
    Balanced (supply before.index side) (before.count side) (before.count side.other) := by
  simpa [Kept, quiet] using kept

theorem Kept.pending {side : Side} (kept : before.Kept side) (signalling : before.signalling = true) :
    Pending (supply before.index side) (before.count side) (before.count side.other) := by
  simpa [Kept, signalling] using kept

/-- With at most five calls under way the invariant survives every turn. -/
theorem kept_of_turn (turn : Turn before after) (few : before.crowd ≤ 5)
    (kept : ∀ side, before.Kept side) (side : Side) : after.Kept side := by
  cases turn with
  | stay index count signalling =>
    simpa [Kept, index, count, signalling] using kept side
  | call mover waiting active index was mine theirs signalling =>
    refine kept_all (?_ : after.Kept mover) side
    unfold Kept
    rw [index, mine, theirs, signalling]
    cases signalling : before.signalling with
    | true =>
      have pending := (kept mover).pending signalling
      rw [was] at pending
      exact pending.call
    | false =>
      have balanced := (kept mover).balanced signalling
      rw [was] at balanced
      exact balanced.call
  | wait mover waiting active quiet none_left index was mine theirs signalling =>
    refine kept_all (?_ : after.Kept mover) side
    have balanced := (kept mover).balanced quiet
    rw [none_left, was] at balanced
    unfold Kept
    rw [index, none_left, mine, theirs, signalling]
    exact balanced.wait
  | finish mover waiting active quiet some_left index was mine theirs signalling =>
    refine kept_all (?_ : after.Kept mover) side
    have balanced := (kept mover).balanced quiet
    rw [was] at balanced
    rw [before.crowd_eq mover, was] at few
    unfold Kept
    rw [index, mine, theirs, signalling]
    exact balanced.finish some_left few
  | wake mover waiting active pending index was mine theirs signalling =>
    refine kept_all (?_ : after.Kept mover) side
    have woken := ((kept mover).pending pending).wakesMine
    rw [was] at woken
    unfold Kept
    rw [index, mine, theirs, signalling]
    exact woken waiting.succ_pos
  | wakeNone pending index nobody count signalling =>
    have quiet := ((kept side).pending pending).wakesNone (nobody side) (nobody side.other)
    unfold Kept
    rw [index, count, count, signalling]
    exact quiet

/-- A balanced headcount without active calls has no waiting call that could finish. -/
theorem Kept.not_lost {side : Side} (kept : before.Kept side) (quiet : before.signalling = false)
    (stopped : ∀ side, (before.count side).active = 0) (waits : 0 < (before.count side).waiting) :
    supply before.index side ≤ 0 := by
  obtain ⟨-, -, alone, -, both⟩ := kept.balanced quiet
  have mine := stopped side
  have theirs := stopped side.other
  omega

end Headcount

end LinuxProgramming.SharedStack
