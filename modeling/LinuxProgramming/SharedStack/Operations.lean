import LinuxProgramming.Foundation.Monitor

/-! The stack that several processes share through a mapped file.

`push` and `pop` differ in the condition of their waiting loop and in their one
statement on the buffer; locking, waiting, signalling and unlocking are the
common monitor's. These are the operations without the texts that they print.
-/

set_option autoImplicit false

namespace LinuxProgramming.SharedStack
open Foundation

def STACK_SIZE : Int := 3

/-- The structure `data` without its mutex and condition variable. `buffer` has
a cell at every index, so that a store outside the array would be visible in
`accesses`, which records the index of each access. -/
structure Data where
  index : Int
  buffer : Int → Int
  accesses : List Int

inductive Call where
  | push (oneInt : Int)
  | pop
  deriving DecidableEq, Repr

/-- The conditions of the two loops around `pthread_cond_wait`. -/
def blocked (globalStack : Data) : Call → Bool
  | .push _ => globalStack.index == STACK_SIZE
  | .pop => globalStack.index == 0

/-- `buffer[index++] = oneInt` -/
def push (globalStack : Data) (oneInt : Int) : Data where
  index := globalStack.index + 1
  buffer := Function.update globalStack.buffer globalStack.index oneInt
  accesses := globalStack.accesses ++ [globalStack.index]

/-- `toReturn = buffer[--index]` -/
def pop (globalStack : Data) : Data × Int :=
  let index := globalStack.index - 1
  ({ globalStack with index := index, accesses := globalStack.accesses ++ [index] },
    globalStack.buffer index)

def update (globalStack : Data) : Call → Data × Option Int
  | .push oneInt => (push globalStack oneInt, none)
  | .pop => ((pop globalStack).1, some (pop globalStack).2)

/-- Initially the index is zero; the cells hold whatever the mapped file held. -/
def monitor (cells : Int → Int) : Monitor Data Call (Option Int) where
  start := ⟨0, cells, []⟩
  blocked := blocked
  update := update

/-- All processes of one type share one stack. -/
abbrev shared (Process : Type) [DecidableEq Process] (cells : Int → Int) :=
  Monitor.machine Process (monitor cells)

/-! The purpose of the component: a bounded last-in-first-out sequence, top first. -/

/-- One operation together with what it returned, if the specification allows it. -/
def lifo : List Int → Call × Option Int → Option (List Int)
  | stack, (.push oneInt, none) =>
    if (stack.length : Int) < STACK_SIZE then some (oneInt :: stack) else none
  | top :: stack, (.pop, some value) => if value = top then some stack else none
  | _, _ => none

/-- The sequence after a history, if every operation of the history is legal. -/
def replay (history : List (Call × Option Int)) : Option (List Int) :=
  history.foldlM lifo []

/-- The pushed values that the structure holds, top first. -/
def Data.contents (globalStack : Data) : List Int :=
  (List.range globalStack.index.toNat).reverse.map fun (cell : Nat) => globalStack.buffer cell

/-- The index is within the array and so was every access to it. -/
structure Data.InBounds (globalStack : Data) : Prop where
  lower : 0 ≤ globalStack.index
  upper : globalStack.index ≤ STACK_SIZE
  accessed : ∀ cell ∈ globalStack.accesses, 0 ≤ cell ∧ cell < STACK_SIZE

theorem push_contents (globalStack : Data) (oneInt : Int) (lower : 0 ≤ globalStack.index) :
    (push globalStack oneInt).contents = oneInt :: globalStack.contents := by
  -- The index is an int in the source; as a height it counts the cells of the contents.
  obtain ⟨height, same⟩ := Int.eq_ofNat_of_zero_le lower
  have grown : (push globalStack oneInt).index.toNat = height + 1 := by
    simp only [push]
    omega
  have old : globalStack.index.toNat = height := by omega
  simp only [Data.contents, grown, old, List.range_succ, List.reverse_append,
    List.reverse_singleton, List.singleton_append, List.map_cons]
  congr 1
  · simp [push, same]
  · apply List.map_congr_left
    intro cell member
    have below : cell < height := by simpa using member
    apply Function.update_of_ne
    omega

theorem pop_contents (globalStack : Data) (positive : 0 < globalStack.index) :
    globalStack.contents = (pop globalStack).2 :: (pop globalStack).1.contents := by
  obtain ⟨height, same⟩ := Int.eq_ofNat_of_zero_le (show 0 ≤ globalStack.index - 1 by omega)
  have old : globalStack.index.toNat = height + 1 := by omega
  have shrunk : (pop globalStack).1.index.toNat = height := by
    simp only [pop]
    omega
  simp only [Data.contents, old, shrunk, List.range_succ, List.reverse_append,
    List.reverse_singleton, List.singleton_append, List.map_cons]
  simp [pop, same]

/-- The loops test for equality only; the bounds turn it into inequalities. -/
theorem Data.InBounds.free {globalStack : Data} (bounds : globalStack.InBounds) {oneInt : Int}
    (admitted : blocked globalStack (.push oneInt) = false) : globalStack.index < STACK_SIZE := by
  have upper := bounds.upper
  simp only [blocked, beq_eq_false_iff_ne] at admitted
  omega

theorem Data.InBounds.filled {globalStack : Data} (bounds : globalStack.InBounds)
    (admitted : blocked globalStack .pop = false) : 0 < globalStack.index := by
  have lower := bounds.lower
  simp only [blocked, beq_eq_false_iff_ne] at admitted
  omega

/-- A call that is not blocked stays in bounds and is a legal operation. -/
theorem update_legal (globalStack : Data) (call : Call) (bounds : globalStack.InBounds)
    (admitted : blocked globalStack call = false) :
    (update globalStack call).1.InBounds ∧
      lifo globalStack.contents (call, (update globalStack call).2) =
        some (update globalStack call).1.contents := by
  have ⟨lower, upper, accessed⟩ := bounds
  cases call with
  | push oneInt =>
    have room := bounds.free admitted
    refine ⟨⟨?_, ?_, ?_⟩, ?_⟩
    · simp only [update, push]
      omega
    · simp only [update, push]
      omega
    · simp only [update, push, List.mem_append, List.mem_singleton]
      rintro cell (member | rfl)
      · exact accessed cell member
      · exact ⟨lower, room⟩
    · have size : (globalStack.contents.length : Int) = globalStack.index := by
        simp only [Data.contents, List.length_map, List.length_reverse, List.length_range]
        omega
      simp only [update, lifo, size, room, ↓reduceIte, push_contents globalStack oneInt lower]
  | pop =>
    have filled := bounds.filled admitted
    refine ⟨⟨?_, ?_, ?_⟩, ?_⟩
    · simp only [update, pop]
      omega
    · simp only [update, pop]
      omega
    · simp only [update, pop, List.mem_append, List.mem_singleton]
      rintro cell (member | rfl)
      · exact accessed cell member
      · omega
    · rw [pop_contents globalStack filled]
      simp [update, lifo]

/-- The faithful operations, run one after the other, refine the specification. -/
theorem serial_legal {cells : Int → Int} {history : List (Call × Option Int)} {globalStack : Data}
    (serial : (monitor cells).Serial history globalStack) :
    globalStack.InBounds ∧ replay history = some globalStack.contents := by
  induction serial with
  | nil => exact ⟨⟨Int.le_refl 0, show (0 : Int) ≤ 3 by decide, by simp [monitor]⟩, rfl⟩
  | @snoc history globalStack call _ admitted ih =>
    obtain ⟨bounds, legal⟩ := ih
    obtain ⟨kept, next⟩ := update_legal globalStack call bounds admitted
    refine ⟨kept, ?_⟩
    unfold replay at legal ⊢
    rw [List.foldlM_append, legal]
    simpa [monitor] using next

end LinuxProgramming.SharedStack
