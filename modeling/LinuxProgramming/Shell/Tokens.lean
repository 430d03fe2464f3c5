import LinuxProgramming.Shell.Parse

/-! What both versions of `parse` return, for every line.

The first version of the shell has no early return for an empty line.
-/

set_option autoImplicit false

namespace LinuxProgramming.Shell
open Foundation

/-- The first version, without the tokens that it prints. -/
def AnyChild.parse (line : List Byte) : Option (Option (List (Option (List Byte)))) :=
  match strtok isDelim line with
  | none => some none
  | some (token, rest) => do
    let newArgv ← (Allocated.malloc 2).store 0 (some token)
    let newArgv ← parseLoop rest.length rest newArgv 1
    some (some newArgv.cells)

/-- The early return makes no difference: an empty line has no token. -/
theorem AnyChild.parse_eq (line : List Byte) : AnyChild.parse line = Shell.parse line := by
  rw [AnyChild.parse, Shell.parse]
  split_ifs with newline_only
  · subst newline_only
    rfl
  · rfl

/-- A vector's strings as one line again. -/
def joined (argv : List (List Byte)) : List Byte := (ascii " ").intercalate argv

theorem tokens_joined (line : List Byte) : tokens (joined (tokens line)) = tokens line :=
  runs_intercalate (show isDelim ' '.toUInt8 = true by decide) (fun _ member => runs_filled member)
    fun _ member => runs_plain member

theorem tokens_eq_nil_iff {line : List Byte} : tokens line = [] ↔ ∀ c ∈ line, c ∈ delim := by
  rw [tokens, runs_eq_nil_iff]
  simp [isDelim]

/-- `parse` always returns, so it never stores outside its array. It returns NULL
for a blank line, and else the runs of the line, from which it gets the same vector. -/
theorem parse_exact (line : List Byte) :
    ∃ result, parse line = some result ∧ AnyChild.parse line = some result ∧
      (result = none ↔ ∀ c ∈ line, c ∈ delim) ∧
      ∀ argv, result = some argv →
        argv = vector (tokens line) ∧ parse (joined (tokens line)) = some (some argv) := by
  have again := parse_spec (joined (tokens line))
  rw [tokens_joined] at again
  refine ⟨_, parse_spec line, ?_, ?_, ?_⟩
  · rw [AnyChild.parse_eq, parse_spec]
  · rw [← tokens_eq_nil_iff]
    split <;> simp [*]
  · intro argv returned
    split at returned
    next => cases returned
    next filled =>
      cases returned
      exact ⟨rfl, by rw [again, if_neg filled]⟩

example : parse (ascii " ls\t-l  x\n") = some (some (vector [ascii "ls", ascii "-l", ascii "x"])) := by
  decide

end LinuxProgramming.Shell
