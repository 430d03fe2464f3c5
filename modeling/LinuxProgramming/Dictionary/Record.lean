import LinuxProgramming.Foundation.CString

/-! Dictionary records, and files of them.

Every version of the dictionary keeps its words in a file of fixed-length
records. Both fields are padded arrays of characters, so a record is well
formed when both hold a NUL.
-/

set_option autoImplicit false

namespace LinuxProgramming.Dictionary
open Foundation

abbrev WORD : Nat := 32
abbrev TEXT : Nat := 480

inductive Code where
  | found
  | notfound
  | unavail
  deriving DecidableEq, Repr

structure Dictrec where
  word : Buffer WORD
  text : Buffer TEXT
  deriving DecidableEq

/-- `sizeof(Dictrec)`. -/
abbrev sizeof : Nat := WORD + TEXT

namespace Dictrec

def zero : Dictrec := ⟨Buffer.zero, Buffer.zero⟩

/-- The record in memory: its fields lie next to each other. -/
def bytes (dr : Dictrec) : List Byte := dr.word.bytes ++ dr.text.bytes

@[simp] theorem bytes_length (dr : Dictrec) : dr.bytes.length = sizeof := by
  simp [bytes, dr.word.length_eq, dr.text.length_eq]

/-- The record after its first bytes were stored over. -/
def overwrite (dr : Dictrec) (source : List Byte) : Dictrec where
  word := dr.word.overwrite (source.take WORD)
  text := dr.text.overwrite (source.drop WORD)

theorem overwrite_bytes (dr source : Dictrec) : dr.overwrite source.bytes = source := by
  have word : source.bytes.take WORD = source.word.bytes :=
    List.take_left' source.word.length_eq
  have text : source.bytes.drop WORD = source.text.bytes :=
    List.drop_left' source.word.length_eq
  rw [overwrite, word, text, Buffer.overwrite_bytes, Buffer.overwrite_bytes]

theorem bytes_injective : Function.Injective bytes := by
  intro first second same
  rw [← first.overwrite_bytes first, same, overwrite_bytes]

/-- Both fields can be read as strings. -/
structure WellFormed (dr : Dictrec) : Prop where
  word : dr.word.Terminated
  text : dr.text.Terminated

end Dictrec

/-- A file of fixed-length records. -/
def file (records : List Dictrec) : List Byte := records.flatMap Dictrec.bytes

@[simp] theorem file_cons (dr : Dictrec) (records : List Dictrec) :
    file (dr :: records) = dr.bytes ++ file records := rfl

@[simp] theorem file_length (records : List Dictrec) :
    (file records).length = sizeof * records.length := by
  induction records with
  | nil => rfl
  | cons dr records ih =>
    rw [file_cons, List.length_append, Dictrec.bytes_length, ih, List.length_cons, Nat.mul_succ,
      Nat.add_comm]

/-- The first `numrec` records of a file or of its mapping. -/
def recordsOf : Nat → List Byte → List Dictrec
  | 0, _ => []
  | numrec + 1, bytes => Dictrec.zero.overwrite (bytes.take sizeof) ::
      recordsOf numrec (bytes.drop sizeof)

/-- The whole records of a file; a partial record at its end is left out. -/
def table (bytes : List Byte) : List Dictrec := recordsOf (bytes.length / sizeof) bytes

theorem file_append (first second : List Dictrec) :
    file (first ++ second) = file first ++ file second := List.flatMap_append

/-- The index of the record that is read whole by a read of `n` bytes at a position. -/
def recordAt (position n : Nat) : Option Nat :=
  if n = sizeof ∧ position % sizeof = 0 then some (position / sizeof) else none

theorem file_drop (records : List Dictrec) (count : Nat) :
    (file records).drop (sizeof * count) = file (records.drop count) := by
  induction count generalizing records with
  | zero => simp
  | succ count ih =>
    cases records with
    | nil => simp [file]
    | cons dr records =>
      rw [Nat.mul_succ, Nat.add_comm, ← List.drop_drop, file_cons, List.drop_left' dr.bytes_length,
        ih, List.drop_succ_cons]

/-- A read that stays inside the file reads one of its records. -/
theorem recordAt_inside {records : List Dictrec} {position n index : Nat}
    (whole : recordAt position n = some index)
    (inside : position + n ≤ (file records).length) : index < records.length := by
  unfold recordAt at whole
  split at whole
  next aligned =>
    cases whole
    rw [file_length, aligned.1] at inside
    exact Nat.div_lt_of_lt_mul (Nat.lt_of_lt_of_le (Nat.lt_add_of_pos_right (by decide)) inside)
  next => cases whole

theorem file_recordAt {records : List Dictrec} {position n index : Nat} {dr : Dictrec}
    (whole : recordAt position n = some index) (present : records[index]? = some dr) :
    ((file records).drop position).take n = dr.bytes := by
  unfold recordAt at whole
  split at whole
  next aligned =>
    obtain ⟨rfl, multiple⟩ := aligned
    cases whole
    obtain ⟨inside, same⟩ := List.getElem?_eq_some_iff.mp present
    have start : sizeof * (position / sizeof) = position := by
      have := Nat.div_add_mod position sizeof
      omega
    have rest := List.drop_eq_getElem_cons inside
    rw [same] at rest
    have read := file_drop records (position / sizeof)
    rw [start, rest, file_cons] at read
    rw [read, List.take_left' dr.bytes_length]
  next => cases whole

theorem recordsOf_file (records : List Dictrec) (rest : List Byte) :
    recordsOf records.length (file records ++ rest) = records := by
  induction records with
  | nil => rfl
  | cons dr records ih =>
    -- One record is exactly the first `sizeof` bytes, so the file is read off record by record.
    have first : (file (dr :: records) ++ rest).take sizeof = dr.bytes := by
      rw [file_cons, List.append_assoc, List.take_left' dr.bytes_length]
    have others : (file (dr :: records) ++ rest).drop sizeof = file records ++ rest := by
      rw [file_cons, List.append_assoc, List.drop_left' dr.bytes_length]
    rw [List.length_cons, recordsOf, first, others, ih, Dictrec.overwrite_bytes]

theorem table_file (records : List Dictrec) {rest : List Byte} (part : rest.length < sizeof) :
    table (file records ++ rest) = records := by
  have whole : (file records ++ rest).length / sizeof = records.length := by
    rw [List.length_append, file_length, Nat.mul_add_div (by decide), Nat.div_eq_of_lt part,
      Nat.add_zero]
  rw [table, whole, recordsOf_file]

theorem table_of_file (records : List Dictrec) : table (file records) = records := by
  simpa using table_file records (by decide : ([] : List Byte).length < sizeof)

theorem file_injective : Function.Injective file := by
  intro first second same
  rw [← table_of_file first, same, table_of_file]

/-- A word that a caller can ask for: a line that fits into the field. -/
structure Word where
  chars : List Byte
  plain : NUL ∉ chars
  fits : chars.length < WORD
  deriving DecidableEq

/-- The caller's record after the word was typed into it. -/
def Dictrec.ask (tryit : Dictrec) (word : Word) : Dictrec :=
  { tryit with word := tryit.word.overwrite (word.chars ++ [NUL]) }

@[simp] theorem Dictrec.ask_word_text (tryit : Dictrec) (word : Word) :
    (tryit.ask word).word.text = word.chars := Buffer.text_overwrite word.plain word.fits

theorem Dictrec.ask_terminated (tryit : Dictrec) (word : Word) :
    (tryit.ask word).word.Terminated := Buffer.terminated_overwrite word.fits

/-- What a call tells its caller: the code, and the text if there is one. -/
def observed (result : Code × Dictrec) : Code × Option (List Byte) :=
  (result.1, if result.1 = .found then some result.2.text.text else none)

/-- The first record that holds the word. -/
def entry (records : List Dictrec) (word : List Byte) : Option Dictrec :=
  records.find? fun dr => dr.word.text = word

/-- The answer that a dictionary with these records gives for a word. -/
def answer (records : List Dictrec) (word : List Byte) : Code × Option (List Byte) :=
  match entry records word with
  | some dr => (.found, some dr.text.text)
  | none => (.notfound, none)

theorem mem_of_entry {records : List Dictrec} {word : List Byte} {dr : Dictrec}
    (found : entry records word = some dr) : dr ∈ records ∧ dr.word.text = word := by
  have holds := List.find?_some found
  exact ⟨List.mem_of_find?_eq_some found, by simpa using holds⟩

end LinuxProgramming.Dictionary
