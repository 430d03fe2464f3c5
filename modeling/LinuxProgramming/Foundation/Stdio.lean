import LinuxProgramming.Foundation.CString

/-! Reading a stream line by line.

A stream is the list of the bytes that are still to be read.
-/

set_option autoImplicit false

namespace LinuxProgramming.Foundation

/-- At most `room` bytes of the stream, up to the first newline, and what is left. -/
def takeLine : Nat → List Byte → List Byte × List Byte
  | 0, stream => ([], stream)
  | _, [] => ([], [])
  | room + 1, byte :: stream =>
    if byte = newline then ([byte], stream)
    else (byte :: (takeLine room stream).1, (takeLine room stream).2)

/-- The characters that `fgets` stores before the NUL, into an array of `size` characters. -/
def fgets (size : Nat) (stream : List Byte) : Option (List Byte × List Byte) :=
  if stream = [] then none else some (takeLine (size - 1) stream)

/-- The results of successive calls of `fgets`, at most `calls` of them. -/
def fgetsTimes (size : Nat) : Nat → List Byte → List (List Byte)
  | 0, _ => []
  | calls + 1, stream =>
    match fgets size stream with
    | none => []
    | some (line, rest) => line :: fgetsTimes size calls rest

/-- What a loop over `fgets` reads until the end of the stream. Each call reads
a byte, so no more calls than bytes are needed. -/
def fgetsAll (size : Nat) (stream : List Byte) : List (List Byte) :=
  fgetsTimes size stream.length stream

theorem takeLine_append (room : Nat) (stream : List Byte) :
    (takeLine room stream).1 ++ (takeLine room stream).2 = stream := by
  induction room generalizing stream with
  | zero => simp [takeLine]
  | succ room ih =>
    cases stream with
    | nil => simp [takeLine]
    | cons byte stream =>
      simp only [takeLine]
      split
      · rfl
      · simpa using ih stream

theorem takeLine_length_le (room : Nat) (stream : List Byte) :
    (takeLine room stream).1.length ≤ room := by
  induction room generalizing stream with
  | zero => simp [takeLine]
  | succ room ih =>
    cases stream with
    | nil => simp [takeLine]
    | cons byte stream =>
      simp only [takeLine]
      split
      · simp
      · simpa using ih stream

/-- A line with its newline is read whole if the array has room for it. -/
theorem takeLine_line {room : Nat} {line : List Byte} (single : newline ∉ line)
    (fits : line.length < room) (rest : List Byte) :
    takeLine room (line ++ newline :: rest) = (line ++ [newline], rest) := by
  induction line generalizing room with
  | nil =>
    obtain ⟨room, rfl⟩ := Nat.exists_eq_succ_of_ne_zero (Nat.ne_of_gt fits)
    simp [takeLine]
  | cons byte line ih =>
    obtain ⟨room, rfl⟩ := Nat.exists_eq_succ_of_ne_zero (Nat.ne_zero_of_lt fits)
    have other : byte ≠ newline := fun same => single (by simp [same])
    have tail := ih (fun member => single (List.mem_cons_of_mem _ member))
      (Nat.lt_of_succ_lt_succ fits)
    simp [takeLine, other, tail]

/-- A line that does not fit is read as far as the array has room. -/
theorem takeLine_part {room : Nat} {line : List Byte} (single : newline ∉ line)
    (long : room ≤ line.length) (rest : List Byte) :
    takeLine room (line ++ rest) = (line.take room, line.drop room ++ rest) := by
  induction room generalizing line with
  | zero => simp [takeLine]
  | succ room ih =>
    obtain ⟨byte, line, rfl⟩ := List.exists_cons_of_length_pos (Nat.lt_of_lt_of_le room.succ_pos long)
    have other : byte ≠ newline := fun same => single (by simp [same])
    have tail := ih (fun member => single (List.mem_cons_of_mem _ member))
      (Nat.le_of_succ_le_succ long)
    simp [takeLine, other, tail]

/-- The end of the stream ends a line as well. -/
theorem takeLine_last {room : Nat} {line : List Byte} (single : newline ∉ line)
    (fits : line.length < room) : takeLine room line = (line, []) := by
  induction line generalizing room with
  | nil =>
    obtain ⟨room, rfl⟩ := Nat.exists_eq_succ_of_ne_zero (Nat.ne_of_gt fits)
    rfl
  | cons byte line ih =>
    obtain ⟨room, rfl⟩ := Nat.exists_eq_succ_of_ne_zero (Nat.ne_zero_of_lt fits)
    have other : byte ≠ newline := fun same => single (by simp [same])
    have tail := ih (fun member => single (List.mem_cons_of_mem _ member))
      (Nat.lt_of_succ_lt_succ fits)
    simp [takeLine, other, tail]

/-- The array of a reading call has room for one character and the NUL. -/
theorem fgets_progress {size : Nat} (room : 1 < size) {stream line rest : List Byte}
    (read : fgets size stream = some (line, rest)) : rest.length < stream.length := by
  simp only [fgets] at read
  split at read
  next => cases read
  next full =>
    obtain ⟨byte, stream, rfl⟩ := List.exists_cons_of_ne_nil full
    obtain ⟨more, rfl⟩ := Nat.exists_eq_add_of_lt room
    have whole := congrArg List.length (takeLine_append (more + 1) (byte :: stream))
    have some_read : 0 < (takeLine (more + 1) (byte :: stream)).1.length := by
      simp only [takeLine]
      split <;> simp
    simp only [show 1 + more + 1 - 1 = more + 1 by omega, Option.some.injEq] at read
    rw [read] at whole some_read
    simp only [List.length_append] at whole some_read
    omega

theorem fgets_takeLine {size : Nat} {stream line rest : List Byte}
    (read : fgets size stream = some (line, rest)) : takeLine (size - 1) stream = (line, rest) := by
  simp only [fgets] at read
  split at read
  next => cases read
  next => exact Option.some.inj read

theorem fgets_append {size : Nat} {stream line rest : List Byte}
    (read : fgets size stream = some (line, rest)) : line ++ rest = stream := by
  have whole := takeLine_append (size - 1) stream
  rw [fgets_takeLine read] at whole
  exact whole

theorem fgets_filled {size : Nat} (room : 1 < size) {stream line rest : List Byte}
    (read : fgets size stream = some (line, rest)) : line ≠ [] := by
  rintro rfl
  have progress := fgets_progress room read
  rw [← fgets_append read] at progress
  exact Nat.lt_irrefl _ progress

/-- There is room for the NUL behind what is read. -/
theorem fgets_length_lt {size : Nat} (room : 0 < size) {stream line rest : List Byte}
    (read : fgets size stream = some (line, rest)) : line.length < size := by
  have short := takeLine_length_le (size - 1) stream
  rw [fgets_takeLine read] at short
  simp only at short
  omega

theorem fgetsTimes_eq {size : Nat} (room : 1 < size) {calls : Nat} {stream : List Byte}
    (enough : stream.length ≤ calls) : fgetsTimes size calls stream = fgetsAll size stream := by
  -- A call can read several bytes, so the induction is on the number of calls that are allowed.
  induction calls using Nat.strong_induction_on generalizing stream with
  | h calls ih =>
    cases calls with
    | zero =>
      rw [List.length_eq_zero_iff.mp (Nat.le_zero.mp enough)]
      rfl
    | succ calls =>
      cases stream with
      | nil => simp [fgetsTimes, fgetsAll, fgets]
      | cons byte stream =>
        simp only [fgetsAll, List.length_cons, fgetsTimes]
        split
        next => rfl
        next line rest read =>
          have progress := fgets_progress room read
          simp only [List.length_cons] at progress enough
          rw [ih calls (by omega) (by omega), ih stream.length (by omega) (by omega)]

/-- The loop: one call, then the loop on the rest of the stream. -/
theorem fgetsAll_eq {size : Nat} (room : 1 < size) (stream : List Byte) :
    fgetsAll size stream =
      match fgets size stream with
      | none => []
      | some (line, rest) => line :: fgetsAll size rest := by
  cases stream with
  | nil => rfl
  | cons byte stream =>
    simp only [fgetsAll, List.length_cons, fgetsTimes]
    split
    next => rfl
    next line rest read =>
      have progress := fgets_progress room read
      rw [fgetsTimes_eq room (Nat.le_of_lt_succ progress)]
      rfl

/-- The lines are the stream, cut into pieces. -/
theorem fgetsAll_flatten {size : Nat} (room : 1 < size) (stream : List Byte) :
    (fgetsAll size stream).flatten = stream := by
  induction length : stream.length using Nat.strong_induction_on generalizing stream with
  | h count ih =>
    rw [fgetsAll_eq room]
    cases read : fgets size stream with
    | none =>
      simp only [fgets] at read
      split at read
      next empty => simp [empty]
      next => cases read
    | some found =>
      obtain ⟨line, rest⟩ := found
      have progress := fgets_progress room read
      have later := ih rest.length (by omega) rest rfl
      simp only [fgets] at read
      split at read
      next => cases read
      next =>
        have whole := takeLine_append (size - 1) stream
        rw [Option.some.inj read] at whole
        simp only [List.flatten_cons, later, whole]

theorem fgetsAll_length_lt {size : Nat} (room : 1 < size) {stream line : List Byte}
    (member : line ∈ fgetsAll size stream) : line.length < size := by
  induction length : stream.length using Nat.strong_induction_on generalizing stream with
  | h count ih =>
    rw [fgetsAll_eq room] at member
    cases read : fgets size stream with
    | none => simp [read] at member
    | some found =>
      obtain ⟨first, rest⟩ := found
      simp only [read, List.mem_cons] at member
      rcases member with rfl | later
      · exact fgets_length_lt (Nat.zero_lt_of_lt room) read
      · exact ih rest.length (length ▸ fgets_progress room read) later rfl

theorem fgetsAll_line {size : Nat} {line : List Byte} (single : newline ∉ line)
    (fits : line.length + 1 < size) (rest : List Byte) :
    fgetsAll size (line ++ newline :: rest) = (line ++ [newline]) :: fgetsAll size rest := by
  rw [fgetsAll_eq (by omega), fgets, if_neg (by simp)]
  rw [takeLine_line single (by omega)]

/-- Without room for its newline, or without one, a line is read as far as there is room. -/
theorem fgetsAll_part {size : Nat} (room : 1 < size) {line after : List Byte}
    (single : newline ∉ line) (filled : line ++ after ≠ [])
    (ends : after = [] ∨ size - 1 ≤ line.length) :
    fgetsAll size (line ++ after) =
      line.take (size - 1) :: fgetsAll size (line.drop (size - 1) ++ after) := by
  have piece : takeLine (size - 1) (line ++ after) =
      (line.take (size - 1), line.drop (size - 1) ++ after) := by
    by_cases long : size - 1 ≤ line.length
    · exact takeLine_part single long after
    · have short : line.length < size - 1 := Nat.lt_of_not_le long
      rw [ends.resolve_right long, List.append_nil, takeLine_last single short,
        List.take_of_length_le (Nat.le_of_lt short), List.drop_of_length_le (Nat.le_of_lt short)]
      rfl
  rw [fgetsAll_eq room, fgets, if_neg filled, piece]

/-- After a newline the stream is read as if it began there. -/
theorem fgetsAll_append {size : Nat} (room : 1 < size) {line : List Byte}
    (single : newline ∉ line) (rest : List Byte) :
    fgetsAll size (line ++ newline :: rest) =
      fgetsAll size (line ++ [newline]) ++ fgetsAll size rest := by
  induction length : line.length using Nat.strong_induction_on generalizing line with
  | h count ih =>
    by_cases fits : line.length + 1 < size
    · have empty : fgetsAll size [] = [] := rfl
      rw [fgetsAll_line single fits, fgetsAll_line single fits, empty, List.singleton_append]
    · have long : size - 1 ≤ line.length := by omega
      have shorter : (line.drop (size - 1)).length < count := by
        rw [List.length_drop]
        omega
      have later := ih _ shorter (fun member => single (List.mem_of_mem_drop member)) rfl
      rw [fgetsAll_part room single (by simp) (.inr long),
        fgetsAll_part room single (by simp) (.inr long), later, List.cons_append]

end LinuxProgramming.Foundation
