import Mathlib.Data.List.Basic

/-! A channel for datagrams, which may be lost, duplicated, delayed and reordered.

Any message in the channel can be the next one to be delivered, so the order in
which the channel lists its messages does not matter.
-/

set_option autoImplicit false

namespace LinuxProgramming.Foundation.Channel

variable {α : Type}

inductive Fault where
  | lose (index : Nat)
  | duplicate (index : Nat)
  deriving DecidableEq, Repr

def fault (channel : List α) : Fault → Option (List α)
  | .lose index => if index < channel.length then some (channel.eraseIdx index) else none
  | .duplicate index => channel[index]?.map fun message => channel ++ [message]

/-- A message, and the channel without it. -/
def deliver (channel : List α) (index : Nat) : Option (α × List α) :=
  channel[index]?.map fun message => (message, channel.eraseIdx index)

variable {channel after : List α} {message : α} {index : Nat}

/-- A fault makes no message up. -/
theorem mem_of_fault {happened : Fault} (taken : fault channel happened = some after) :
    ∀ other ∈ after, other ∈ channel := by
  intro other member
  cases happened with
  | lose index =>
    simp only [fault] at taken
    split at taken
    next =>
      cases taken
      exact List.mem_of_mem_eraseIdx member
    next => cases taken
  | duplicate index =>
    obtain ⟨copied, found, rfl⟩ := Option.map_eq_some_iff.mp taken
    rcases List.mem_append.mp member with member | member
    · exact member
    · rw [List.mem_singleton.mp member]
      exact List.mem_of_getElem? found

theorem length_of_lose (taken : fault channel (.lose index) = some after) :
    after.length + 1 = channel.length := by
  simp only [fault] at taken
  split at taken
  next inside =>
    cases taken
    rw [List.length_eraseIdx_of_lt inside]
    omega
  next => cases taken

theorem mem_of_deliver (taken : deliver channel index = some (message, after)) :
    message ∈ channel ∧ ∀ other ∈ after, other ∈ channel := by
  obtain ⟨found, at_index, same⟩ := Option.map_eq_some_iff.mp taken
  cases same
  exact ⟨List.mem_of_getElem? at_index, fun _ member => List.mem_of_mem_eraseIdx member⟩

theorem length_of_deliver (taken : deliver channel index = some (message, after)) :
    after.length + 1 = channel.length := by
  obtain ⟨found, at_index, same⟩ := Option.map_eq_some_iff.mp taken
  cases same
  obtain ⟨inside, -⟩ := List.getElem?_eq_some_iff.mp at_index
  rw [List.length_eraseIdx_of_lt inside]
  omega

end LinuxProgramming.Foundation.Channel
