import LinuxProgramming.Foundation.Fuel

/-! A descriptor as the calls of `read` find it.

What a `read` returns depends on what has arrived, on a signal that interrupts it and on
errors. A list of arrivals fixes all of it; the end of the list is the end of the file.
-/

set_option autoImplicit false

namespace LinuxProgramming.Foundation

variable {α : Type}

/-- Bytes that arrive together, an interrupted call or a failing one. -/
inductive Arrival (α : Type) where
  | bytes (first : α) (rest : List α)
  | interrupted
  | failed
  deriving Repr

abbrev Arrivals (α : Type) := List (Arrival α)

inductive Fetched (α : Type) where
  | bytes (chunk : List α)
  | interrupted
  | failed
  deriving Repr

namespace Arrivals

/-- What has not been asked for stays where it is. -/
def later (rest : List α) (arrivals : Arrivals α) : Arrivals α :=
  match rest with
  | [] => arrivals
  | first :: rest => .bytes first rest :: arrivals

/-- At most `count` bytes, of those that have arrived together. -/
def read (count : Nat) : Arrivals α → Fetched α × Arrivals α
  | [] => (.bytes [], [])
  | .interrupted :: arrivals => (.interrupted, arrivals)
  | .failed :: arrivals => (.failed, arrivals)
  | .bytes first rest :: arrivals =>
    (.bytes ((first :: rest).take count), later ((first :: rest).drop count) arrivals)

/-- All bytes in their order. -/
def content : Arrivals α → List α
  | [] => []
  | .bytes first rest :: arrivals => first :: rest ++ content arrivals
  | .interrupted :: arrivals | .failed :: arrivals => content arrivals

/-- No call fails. -/
def Reliable : Arrivals α → Prop
  | [] => True
  | .bytes _ _ :: arrivals | .interrupted :: arrivals => Reliable arrivals
  | .failed :: _ => False

/-- No call is interrupted, and none fails. -/
def Calm : Arrivals α → Prop
  | [] => True
  | .bytes _ _ :: arrivals => Calm arrivals
  | .interrupted :: _ | .failed :: _ => False

theorem Calm.reliable {arrivals : Arrivals α} (calm : arrivals.Calm) : arrivals.Reliable := by
  induction arrivals with
  | nil => trivial
  | cons arrival arrivals ih =>
    cases arrival with
    | bytes first rest => exact ih calm
    | interrupted | failed => cases calm

theorem content_later (rest : List α) (arrivals : Arrivals α) :
    (later rest arrivals).content = rest ++ arrivals.content := by
  cases rest with
  | nil => rfl
  | cons first rest => rfl

theorem reliable_later {rest : List α} {arrivals : Arrivals α} (reliable : arrivals.Reliable) :
    (later rest arrivals).Reliable := by
  cases rest with
  | nil => exact reliable
  | cons first rest => exact reliable

theorem calm_later {rest : List α} {arrivals : Arrivals α} (calm : arrivals.Calm) :
    (later rest arrivals).Calm := by
  cases rest with
  | nil => exact calm
  | cons first rest => exact calm

/-- A `read` on a descriptor that does not fail: an interruption, the end, or some bytes. -/
theorem read_cases {arrivals : Arrivals α} (reliable : arrivals.Reliable) {count : Nat}
    (positive : 0 < count) :
    (∃ rest : Arrivals α, arrivals = .interrupted :: rest ∧ arrivals.read count = (.interrupted, rest)) ∨
    (arrivals = [] ∧ arrivals.read count = (.bytes [], [])) ∨
    ∃ (chunk : List α) (rest : Arrivals α), chunk ≠ [] ∧ chunk.length ≤ count ∧
      arrivals.read count = (.bytes chunk, rest) ∧ arrivals.content = chunk ++ rest.content ∧
      rest.Reliable ∧ (arrivals.Calm → rest.Calm) := by
  cases arrivals with
  | nil => exact .inr (.inl ⟨rfl, rfl⟩)
  | cons arrival arrivals =>
    cases arrival with
    | interrupted => exact .inl ⟨arrivals, rfl, rfl⟩
    | failed => cases reliable
    | bytes first rest =>
      refine .inr (.inr ⟨(first :: rest).take count, later ((first :: rest).drop count) arrivals,
        ?_, List.length_take_le _ _, rfl, ?_, reliable_later reliable, fun calm => calm_later calm⟩)
      · obtain ⟨count, rfl⟩ := Nat.exists_eq_succ_of_ne_zero (Nat.ne_of_gt positive)
        exact List.cons_ne_nil _ _
      · rw [content_later, ← List.append_assoc, List.take_append_drop]
        rfl

/-- The calls of `read` that may come: each takes a byte, is interrupted or fails. -/
def size : Arrivals α → Nat
  | [] => 0
  | .bytes _ rest :: arrivals => rest.length + 1 + size arrivals
  | .interrupted :: arrivals | .failed :: arrivals => size arrivals + 1

theorem size_later (rest : List α) (arrivals : Arrivals α) :
    (later rest arrivals).size = rest.length + arrivals.size := by
  cases rest with
  | nil => exact (Nat.zero_add _).symm
  | cons first rest => rfl

theorem size_read {arrivals rest : Arrivals α} {chunk : List α} {count : Nat}
    (fetched : arrivals.read count = (.bytes chunk, rest)) :
    arrivals.size = chunk.length + rest.size := by
  cases arrivals with
  | nil =>
    cases fetched
    rfl
  | cons arrival arrivals =>
    cases arrival with
    | interrupted | failed => cases fetched
    | bytes first more =>
      cases fetched
      rw [size_later, ← Nat.add_assoc, ← List.length_append, List.take_append_drop]
      rfl

end Arrivals

end LinuxProgramming.Foundation
