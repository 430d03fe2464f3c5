import LinuxProgramming.Foundation.Stdio

/-! A child that converts a line to upper case, with a pipe in each direction.

The parent writes its whole array, which is smaller than PIPE_BUF, so the child
reads it whole. The reply comes back into the array that still holds the line.
-/

set_option autoImplicit false

namespace LinuxProgramming.ToUpper
open Foundation

/-- `sizeof(buf)` -/
def SIZE : Nat := 1024

def isLower (c : Byte) : Bool := 'a'.toUInt8 ≤ c && c ≤ 'z'.toUInt8

def upper (c : Byte) : Byte := if isLower c then c - 32 else c

/-- The loop up to the NUL: the bytes afterwards, and the index where it stops. -/
def convert : Nat → List Byte → Option (List Byte × Nat)
  | _, [] => none
  | i, c :: rest =>
    if c = NUL then some (c :: rest, i)
    else (convert (i + 1) rest).map fun converted => (upper c :: converted.1, converted.2)

/-- What the child writes for the bytes it has read; the array is a copy of the parent's. -/
def child (buf : Buffer SIZE) (received : List Byte) : Option (List Byte) :=
  match convert 0 (buf.overwrite received).bytes with
  | none => none
  | some (converted, i) =>
    -- For an empty string the number of bytes would be the largest there is.
    if i = 0 then none else some (converted.take (i - 1))

/-- What the parent prints for a line that `fgets` has stored. -/
def toUpper (memory : Buffer SIZE) (line : List Byte) : Option (List Byte) :=
  let buf := memory.overwrite (line ++ [NUL])
  match child buf buf.bytes with
  | none => none
  | some written => (buf.overwrite written).string

theorem convert_line {line : List Byte} (plain : NUL ∉ line) (i : Nat) (rest : List Byte) :
    convert i (line ++ NUL :: rest) = some (line.map upper ++ NUL :: rest, i + line.length) := by
  induction line generalizing i with
  | nil => simp [convert]
  | cons c line ih =>
    simp only [List.mem_cons, not_or] at plain
    rw [List.cons_append, convert, if_neg (Ne.symm plain.1), ih plain.2]
    simp only [Option.map_some, List.map_cons, List.cons_append, List.length_cons]
    rw [Nat.add_assoc, Nat.add_comm 1]

theorem isLower_iff {c : Byte} : isLower c = true ↔ 97 ≤ c.toNat ∧ c.toNat ≤ 122 := by
  simp only [isLower, Bool.and_eq_true, decide_eq_true_eq, UInt8.le_iff_toNat_le]
  exact Iff.rfl

theorem upper_toNat {c : Byte} (lower : isLower c = true) : (upper c).toNat = c.toNat - 32 := by
  have range := isLower_iff.mp lower
  have offset : (32 : Byte).toNat = 32 := rfl
  rw [upper, if_pos lower, UInt8.toNat_sub]
  omega

theorem upper_eq_self_iff (c : Byte) : upper c = c ↔ isLower c = false := by
  cases lower : isLower c with
  | false => simp [upper, lower]
  | true =>
    refine iff_of_false (fun same => ?_) (by decide)
    have number := upper_toNat lower
    have range := isLower_iff.mp lower
    rw [same] at number
    omega

theorem upper_ne_NUL {c : Byte} (some_char : c ≠ NUL) : upper c ≠ NUL := by
  cases lower : isLower c with
  | false => rwa [(upper_eq_self_iff c).mpr lower]
  | true =>
    intro zero
    have number := upper_toNat lower
    have range := isLower_iff.mp lower
    have nothing : (upper c).toNat = 0 := congrArg UInt8.toNat zero
    omega

theorem NUL_not_mem_upper {text : List Byte} (plain : NUL ∉ text) : NUL ∉ text.map upper := by
  intro member
  obtain ⟨c, inside, zero⟩ := List.mem_map.mp member
  exact upper_ne_NUL (ne_of_mem_of_not_mem inside plain) zero

/-- All characters come back but the last one, which is still that of the line. -/
theorem toUpper_line (memory : Buffer SIZE) {front : List Byte} {last : Byte}
    (plain : NUL ∉ front ++ [last]) (fits : (front ++ [last]).length < SIZE) :
    toUpper memory (front ++ [last]) = some (front.map upper ++ [last]) := by
  have stored : (front ++ [last] ++ [NUL]).length ≤ SIZE := by
    rw [List.length_append, List.length_singleton]
    exact fits
  have bytes := @Buffer.bytes_overwrite _ memory _ stored
  rw [toUpper]
  generalize memory.overwrite (front ++ [last] ++ [NUL]) = buf at bytes ⊢
  generalize memory.bytes.drop _ = rest at bytes
  have written : child buf buf.bytes = some (front.map upper) := by
    rw [child, Buffer.overwrite_bytes, bytes, List.append_assoc _ [NUL], List.singleton_append,
      convert_line plain]
    simp
  have plain_front : NUL ∉ front.map upper ++ [last] := by
    simp only [List.mem_append, not_or] at plain ⊢
    exact ⟨NUL_not_mem_upper plain.1, plain.2⟩
  have spliced : (buf.overwrite (front.map upper)).bytes =
      front.map upper ++ [last] ++ NUL :: rest := by
    have inside : (front.map upper).length ≤ SIZE := by
      rw [List.length_map]
      simp only [List.length_append] at fits
      omega
    rw [Buffer.bytes_overwrite inside, bytes, List.length_map]
    simp
  simp only [written]
  exact Buffer.string_of_bytes plain_front spliced

/-- The line is printed in upper case exactly when its last character is no small letter. -/
theorem toUpper_iff (memory : Buffer SIZE) {stdin line rest : List Byte}
    (delivered : fgets SIZE stdin = some (line, rest)) (plain : NUL ∉ line) :
    toUpper memory line = some (line.map upper) ↔ ∀ c ∈ line.getLast?, isLower c = false := by
  have short := fgets_length_lt (by decide) delivered
  obtain ⟨front, last, rfl⟩ : ∃ front last, line = front ++ [last] :=
    ⟨_, _, (List.dropLast_concat_getLast (fgets_filled (by decide) delivered)).symm⟩
  rw [toUpper_line memory plain short, Option.some.injEq, List.map_append,
    List.append_cancel_left_eq]
  have final : [last] = [last].map upper ↔ isLower last = false := by
    rw [← upper_eq_self_iff, List.map_singleton, List.cons.injEq, eq_comm]
    exact and_iff_left rfl
  rw [final, List.getLast?_concat]
  simp

/-- A line with its newline. -/
theorem toUpper_newline :
    toUpper .zero ['a'.toUInt8, newline] = some (['a'.toUInt8, newline].map upper) ↔
      ∀ c ∈ ['a'.toUInt8, newline].getLast?, isLower c = false :=
  toUpper_iff .zero (show fgets SIZE ['a'.toUInt8, newline] =
    some (['a'.toUInt8, newline], []) from rfl) (by decide)

/-- Without a newline the last letter stays small. -/
theorem toUpper_last_letter :
    ¬ ∀ (memory : Buffer SIZE) (stdin line rest : List Byte),
      fgets SIZE stdin = some (line, rest) → NUL ∉ line →
        toUpper memory line = some (line.map upper) := by
  intro always
  have shown := always .zero ['a'.toUInt8] ['a'.toUInt8] [] rfl (by decide)
  have kept := toUpper_line .zero (show NUL ∉ [] ++ ['a'.toUInt8] by decide) (by decide)
  rw [List.nil_append, shown] at kept
  revert kept
  decide

end LinuxProgramming.ToUpper
