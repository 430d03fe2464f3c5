import LinuxProgramming.Coprocess.Client
import LinuxProgramming.Foundation.Lines

/-! The coprocess `add2`, for any way in which its input is cut into pieces.

It answers every piece as if it were one line; only a client that waits for
each reply makes it so.
-/

set_option autoImplicit false

namespace LinuxProgramming.Coprocess
open Foundation

/-- The loop of `add2` over what successive calls of `read` return: each piece, with what is
written for it. -/
def exchanges : List (List Byte) → Option (List (List Byte × List Byte))
  | [] => some []
  | piece :: pieces => do
    let reply ← add2 piece
    let later ← exchanges pieces
    some ((piece, reply) :: later)

/-- A way to read a stream: each call returns some bytes, no more than it asks for. -/
structure Pieces (stream : List Byte) (pieces : List (List Byte)) : Prop where
  whole : pieces.flatten = stream
  sizes : ∀ piece ∈ pieces, 1 ≤ piece.length ∧ piece.length ≤ MAXLINE

/-- One exchange for each line in order, and in it the reply to this line. -/
def lineExchanges (stream : List Byte) : List (List Byte × List Byte) :=
  (lines newline stream).map fun line => (line, answer (cstr line))

/-- Every store is inside the array, and each line gets its own reply. -/
def Handles (stream : List Byte) (pieces : List (List Byte)) : Prop :=
  exchanges pieces = some (lineExchanges stream)

instance (stream : List Byte) (pieces : List (List Byte)) : Decidable (Handles stream pieces) :=
  inferInstanceAs (Decidable (_ = _))

theorem add2_eq_some {piece reply : List Byte} :
    add2 piece = some reply ↔
      (piece.length < MAXLINE ∧ Fits (cstr piece)) ∧ reply = answer (cstr piece) := by
  unfold add2
  split
  next enabled => simp [enabled, eq_comm]
  next refused => simp [refused]

/-- Every piece is answered for itself, or the loop is left by a piece that it cannot hold. -/
theorem exchanges_eq_some {pieces : List (List Byte)} {result : List (List Byte × List Byte)} :
    exchanges pieces = some result ↔
      (∀ piece ∈ pieces, piece.length < MAXLINE ∧ Fits (cstr piece)) ∧
        result = pieces.map fun piece => (piece, answer (cstr piece)) := by
  induction pieces generalizing result with
  | nil => simp [exchanges, eq_comm]
  | cons piece pieces ih =>
    simp only [exchanges, Option.bind_eq_bind, Option.bind_eq_some_iff, add2_eq_some, ih]
    constructor
    · rintro ⟨_, ⟨first, rfl⟩, _, ⟨others, rfl⟩, same⟩
      exact ⟨List.forall_mem_cons.mpr ⟨first, others⟩, (Option.some.inj same).symm⟩
    · rintro ⟨all, rfl⟩
      obtain ⟨first, others⟩ := List.forall_mem_cons.mp all
      exact ⟨_, ⟨first, rfl⟩, _, ⟨others, rfl⟩, rfl⟩

/-- There are as many replies as pieces, however many lines there are. -/
theorem exchanges_length {pieces : List (List Byte)} {result : List (List Byte × List Byte)}
    (loop : exchanges pieces = some result) : result.length = pieces.length := by
  obtain ⟨-, rfl⟩ := exchanges_eq_some.mp loop
  exact List.length_map _

end LinuxProgramming.Coprocess
