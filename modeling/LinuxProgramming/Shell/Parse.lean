import LinuxProgramming.Foundation.CString
import LinuxProgramming.Foundation.Strtok

/-! The command line as a vector of tokens.

The vector grows with every token, by `realloc`, and each token gets a copy of
its own. A store outside the cells that were allocated last has no result.
-/

set_option autoImplicit false

namespace LinuxProgramming.Shell
open Foundation

/-- SPACE or TAB or NL. -/
def delim : List Byte := ascii " \t\n"

def isDelim (c : Byte) : Bool := c ∈ delim

/-- An allocated array of strings: its size, and the cells that were stored so far. -/
structure Allocated where
  slots : Nat
  cells : List (Option (List Byte))

namespace Allocated

def malloc (slots : Nat) : Allocated := ⟨slots, []⟩

def realloc (array : Allocated) (slots : Nat) : Allocated := ⟨slots, array.cells.take slots⟩

/-- Cells are stored in order, and again only where they were stored before. -/
def store (array : Allocated) (index : Nat) (value : Option (List Byte)) : Option Allocated :=
  if index < array.slots ∧ index ≤ array.cells.length then
    some { array with cells := array.cells.take index ++ value :: array.cells.drop (index + 1) }
  else none

end Allocated

/-- The loop of `parse`; each round takes a token, so the length of what is left
bounds their number. -/
def parseLoop : Nat → List Byte → Allocated → Nat → Option Allocated
  | 0, _, newArgv, count => newArgv.store count none
  | rounds + 1, line, newArgv, count =>
    match strtok isDelim line with
    | none => newArgv.store count none
    | some (token, rest) => do
      let newArgv ← (newArgv.realloc (count + 2)).store count (some token)
      parseLoop rounds rest newArgv (count + 1)

/-- The vector, or NULL for a line without a token. -/
def parse (line : List Byte) : Option (Option (List (Option (List Byte)))) :=
  if line = [newline] then some none
  else
    match strtok isDelim line with
    | none => some none
    | some (token, rest) => do
      let newArgv ← (Allocated.malloc 2).store 0 (some token)
      let newArgv ← parseLoop rest.length rest newArgv 1
      some (some newArgv.cells)

/-- The tokens of a line: the maximal runs of characters other than the delimiters. -/
def tokens (line : List Byte) : List (List Byte) := runs isDelim line

/-- A vector in memory: the strings and the NULL behind them. -/
def vector (tokens : List (List Byte)) : List (Option (List Byte)) := tokens.map some ++ [none]

theorem store_end {slots : Nat} {cells : List (Option (List Byte))} (room : cells.length < slots)
    (value : Option (List Byte)) :
    (Allocated.mk slots cells).store cells.length value = some ⟨slots, cells ++ [value]⟩ := by
  simp [Allocated.store, room]

/-- The NULL behind the last token. -/
theorem store_null (before : List (List Byte)) :
    (Allocated.mk (before.length + 1) (before.map some)).store before.length none =
      some ⟨before.length + 1, vector before⟩ := by
  have stored := store_end (show (before.map some).length < before.length + 1 by simp) none
  rw [List.length_map] at stored
  exact stored

/-- One more token, with room for the NULL behind it. -/
theorem store_token (before : List (List Byte)) (token : List Byte) :
    ((Allocated.mk (before.length + 1) (before.map some)).realloc (before.length + 2)).store
        before.length (some token) =
      some ⟨(before ++ [token]).length + 1, (before ++ [token]).map some⟩ := by
  have stored := store_end (show (before.map some).length < before.length + 2 by simp) (some token)
  rw [List.length_map] at stored
  simpa [Allocated.realloc, List.take_of_length_le] using stored

/-- With one cell left for the NULL the loop never stores outside its array. -/
theorem parseLoop_spec {rounds : Nat} {line : List Byte} (enough : line.length ≤ rounds)
    (before : List (List Byte)) :
    parseLoop rounds line ⟨before.length + 1, before.map some⟩ before.length =
      some ⟨(before ++ tokens line).length + 1, vector (before ++ tokens line)⟩ := by
  induction rounds generalizing line before with
  | zero =>
    have nothing : line = [] := List.length_eq_zero_iff.mp (Nat.le_zero.mp enough)
    simp only [parseLoop, nothing, tokens, runs_nil, List.append_nil]
    exact store_null before
  | succ rounds ih =>
    have spec := strtok_spec isDelim line
    rw [parseLoop, tokens]
    cases next : strtok isDelim line with
    | none =>
      rw [next] at spec
      simp only [spec, List.append_nil]
      exact store_null before
    | some found =>
      obtain ⟨token, rest⟩ := found
      rw [next] at spec
      have shorter := strtok_shorter next
      have later := ih (show rest.length ≤ rounds by omega) (before ++ [token])
      simp only [spec, Option.bind_eq_bind, store_token, Option.bind_some]
      rw [List.length_append, List.length_singleton, List.append_assoc] at later
      simpa [tokens] using later

/-- `parse` returns NULL for a line without a token, and otherwise its tokens. -/
theorem parse_spec (line : List Byte) : parse line =
    some (if tokens line = [] then none else some (vector (tokens line))) := by
  have spec := strtok_spec isDelim line
  unfold parse
  split
  next newline_only =>
    have blank : tokens line = [] := by rw [newline_only]; decide
    simp [blank]
  next =>
    cases next : strtok isDelim line with
    | none =>
      rw [next] at spec
      simp [tokens, spec]
    | some found =>
      obtain ⟨token, rest⟩ := found
      rw [next] at spec
      have first : (Allocated.malloc 2).store 0 (some token) = some ⟨2, [some token]⟩ := rfl
      have loop := parseLoop_spec (Nat.le_refl rest.length) [token]
      simp only [List.length_singleton, List.map_cons, List.map_nil, List.singleton_append] at loop
      have filled : tokens line = token :: tokens rest := spec
      simp [first, loop, filled]

end LinuxProgramming.Shell
