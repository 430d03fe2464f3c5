/-! What holds at every member of a list, of the members before it and behind it. -/

set_option autoImplicit false

namespace LinuxProgramming.Foundation

variable {α : Type} {P : List α → α → List α → Prop}

theorem splits_nil (before : List α) (x : α) (after : List α) (split : [] = before ++ x :: after) :
    P before x after := by
  simp at split

theorem splits_cons_iff {first : α} {rest : List α} :
    (∀ before x after, first :: rest = before ++ x :: after → P before x after) ↔
      P [] first rest ∧
        ∀ before x after, rest = before ++ x :: after → P (first :: before) x after := by
  constructor
  · intro all
    refine ⟨all [] first rest rfl, ?_⟩
    intro before x after split
    exact all (first :: before) x after (by rw [split, List.cons_append])
  · rintro ⟨here, later⟩ before x after split
    cases before with
    | nil =>
      obtain ⟨rfl, rfl⟩ := List.cons.inj split
      exact here
    | cons other before =>
      obtain ⟨rfl, same⟩ := List.cons.inj split
      exact later before x after same

end LinuxProgramming.Foundation
