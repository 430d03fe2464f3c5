import Mathlib.Algebra.BigOperators.Group.Finset.Basic
import Mathlib.Algebra.BigOperators.Fin
import Mathlib.Algebra.Order.BigOperators.Group.Finset

/-! Sums over the members of a finite family of which one changes. -/

set_option autoImplicit false

namespace LinuxProgramming.Foundation

variable {ι α : Type} [Fintype ι] [DecidableEq ι]

/-- Replacing one member exchanges its contribution, stated without subtraction. -/
theorem sum_update (weight : α → Nat) (family : ι → α) (i : ι) (value : α) :
    ∑ j, weight (Function.update family i value j) + weight (family i) =
      ∑ j, weight (family j) + weight value := by
  have rest : ∑ j ∈ Finset.univ.erase i, weight (Function.update family i value j) =
      ∑ j ∈ Finset.univ.erase i, weight (family j) := by
    apply Finset.sum_congr rfl
    intro j member
    rw [Function.update_of_ne (Finset.ne_of_mem_erase member)]
  rw [← Finset.add_sum_erase _ _ (Finset.mem_univ i), ← Finset.add_sum_erase _ _ (Finset.mem_univ i),
    rest, Function.update_self]
  omega

/-- The other members contribute the same before and after. -/
theorem sum_update_rest (weight : α → Nat) (family : ι → α) (i : ι) (value : α) :
    ∃ rest, ∑ j, weight (family j) = rest + weight (family i) ∧
      ∑ j, weight (Function.update family i value j) = rest + weight value := by
  have exchanged := sum_update weight family i value
  have part : weight (family i) ≤ ∑ j, weight (family j) :=
    Finset.single_le_sum (fun j _ => Nat.zero_le (weight (family j))) (Finset.mem_univ i)
  exact ⟨∑ j, weight (family j) - weight (family i), by omega, by omega⟩

/-- A member that does not gain weight does not raise the sum. -/
theorem sum_update_le (weight : α → Nat) (family : ι → α) (i : ι) (value : α)
    (light : weight value ≤ weight (family i)) :
    ∑ j, weight (Function.update family i value j) ≤ ∑ j, weight (family j) := by
  have exchanged := sum_update weight family i value
  omega

end LinuxProgramming.Foundation
