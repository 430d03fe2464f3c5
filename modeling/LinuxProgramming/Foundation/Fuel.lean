import Mathlib.Data.List.Basic

/-! Runs that need enough fuel, and what they yield. -/

set_option autoImplicit false

namespace LinuxProgramming.Foundation

variable {α β : Type}

/-- The run terminates with this value, given enough fuel. -/
def Yields (run : Nat → Option α) (value : α) : Prop :=
  ∃ least, ∀ fuel, least ≤ fuel → run fuel = some value

namespace Yields

variable {run : Nat → Option α} {value : α}

theorem unique {other : α} (one : Yields run value) (another : Yields run other) : value = other := by
  obtain ⟨least, first⟩ := one
  obtain ⟨more, second⟩ := another
  have same := first (max least more) (Nat.le_max_left _ _)
  rw [second (max least more) (Nat.le_max_right _ _)] at same
  exact (Option.some.inj same).symm

theorem const (value : α) : Yields (fun _ => some value) value := ⟨0, fun _ _ => rfl⟩

/-- One step of a loop uses one unit of fuel. -/
theorem step {rest : Nat → Option α} (yields : Yields rest value)
    (unfolds : ∀ fuel, run (fuel + 1) = rest fuel) : Yields run value := by
  obtain ⟨least, first⟩ := yields
  refine ⟨least + 1, fun fuel enough => ?_⟩
  obtain ⟨fuel, rfl⟩ := Nat.exists_eq_succ_of_ne_zero (by omega : fuel ≠ 0)
  rw [unfolds]
  exact first fuel (by omega)

theorem map (yields : Yields run value) (f : α → β) :
    Yields (fun fuel => (run fuel).map f) (f value) := by
  obtain ⟨least, first⟩ := yields
  exact ⟨least, fun fuel enough => by simp [first fuel enough]⟩

theorem bind (yields : Yields run value) {next : α → Nat → Option β} {result : β}
    (continues : Yields (next value) result) :
    Yields (fun fuel => (run fuel).bind fun value => next value fuel) result := by
  obtain ⟨least, first⟩ := yields
  obtain ⟨more, second⟩ := continues
  refine ⟨max least more, fun fuel enough => ?_⟩
  simp only [first fuel (Nat.le_trans (Nat.le_max_left _ _) enough), Option.bind_some]
  exact second fuel (Nat.le_trans (Nat.le_max_right _ _) enough)

end Yields

end LinuxProgramming.Foundation
