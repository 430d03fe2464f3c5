import LinuxProgramming.Dictionary.Record
import LinuxProgramming.Foundation.Stdio

/-! From a text file of definitions to a file of records.

`convert` reads a word, then its definition up to a blank line, and writes one
record at each blank line. The line that holds the word is also appended to the
definition, and nothing is written at the end of the file.
-/

set_option autoImplicit false

namespace LinuxProgramming.Dictionary
open Foundation

abbrev BIGLINE : Nat := 512

/-- The variables of the reading loop, and what was written to `out`. -/
structure Conversion where
  is_word : Bool
  dr : Dictrec
  out : List Byte
  deriving DecidableEq

/-- The word is copied up to its newline, which is replaced in the line itself. -/
def takeWord (state : Conversion) (line : List Byte) : Option (Conversion × List Byte) :=
  if state.is_word then
    -- The newline goes from `line` itself, which is then read again by `takeText`.
    let line := line.set (strcspn (cstr line) [newline]) NUL
    match state.dr.word.strcpy (cstr line) with
    | some word => some ({ state with dr := { state.dr with word := word }, is_word := false }, line)
    | none => none
  else some (state, line)

/-- A blank line ends the record; every other line is appended to its text. -/
def takeText (state : Conversion) (line : List Byte) : Option Conversion :=
  if line.head? = some newline then
    -- `memset` clears both fields before the next word.
    some { is_word := true, dr := Dictrec.zero, out := state.out ++ state.dr.bytes }
  else
    match state.dr.text.strcat (cstr line) with
    | some text => some { state with dr := { state.dr with text := text } }
    | none => none

/-- The body of the loop, for the characters that `fgets` has stored. -/
def convertLine (state : Conversion) (read : List Byte) : Option Conversion :=
  match takeWord state (read ++ [NUL]) with
  -- There is no else: the line of the word goes on to the second half of the body.
  | some (state, line) => takeText state line
  | none => none

def convertFrom (state : Conversion) (input : List Byte) : Option Conversion :=
  (fgetsAll BIGLINE input).foldlM convertLine state

/-- The bytes that `convert` writes for an input file. -/
def convert (input : List Byte) : Option (List Byte) :=
  (convertFrom ⟨true, Dictrec.zero, []⟩ input).map Conversion.out

/-- A non-empty line of a text file, without its newline. -/
structure Line (chars : List Byte) : Prop where
  some_char : chars ≠ []
  plain : NUL ∉ chars
  single : newline ∉ chars

/-- The lines of a definition with their newlines. -/
def joinLines (lines : List (List Byte)) : List Byte := lines.flatMap (· ++ [newline])

/-- A headword and its definition, both of a length that fits into a record. -/
structure Entry where
  word : List Byte
  definition : List (List Byte)
  word_line : Line word
  word_fits : word.length < WORD
  definition_lines : ∀ line ∈ definition, Line line
  defined : definition ≠ []
  definition_fits : (joinLines definition).length < TEXT

namespace Entry

def text (entry : Entry) : List Byte := joinLines entry.definition

/-- The record that the format calls for. -/
def record (entry : Entry) : Dictrec := ⟨Buffer.padded entry.word, Buffer.padded entry.text⟩

/-- The lines of the input file for one entry. -/
def source (entry : Entry) : List Byte := entry.word ++ newline :: entry.text

/-- The text that the loop collects: the line of the word is part of it. -/
def collected (entry : Entry) : List Byte := entry.word ++ entry.text

def written (entry : Entry) : Dictrec := ⟨Buffer.padded entry.word, Buffer.padded entry.collected⟩

def Fits (entry : Entry) : Prop := entry.collected.length < TEXT

instance (entry : Entry) : Decidable entry.Fits := inferInstanceAs (Decidable (_ < _))

end Entry

/-- Entries separated by one blank line, and perhaps one after the last. -/
def sourceFile (entries : List Entry) (trailing : Bool) : List Byte :=
  [newline].intercalate (entries.map Entry.source) ++ if trailing then [newline] else []

/-- The entries that a blank line follows. -/
def ended (entries : List Entry) (trailing : Bool) : List Entry :=
  if trailing then entries else entries.dropLast

theorem joinLines_plain {lines : List (List Byte)} (each : ∀ line ∈ lines, Line line) :
    NUL ∉ joinLines lines := by
  intro member
  simp only [joinLines, List.mem_flatMap, List.mem_append, List.mem_singleton] at member
  obtain ⟨line, inside, held | ending⟩ := member
  · exact (each line inside).plain held
  · exact absurd ending (by decide)

theorem length_le_joinLines {lines : List (List Byte)} {line : List Byte} (member : line ∈ lines) :
    line.length + 1 ≤ (joinLines lines).length := by
  have part := (List.sublist_flatten_of_mem (List.mem_map_of_mem member :
    line ++ [newline] ∈ lines.map (· ++ [newline]))).length_le
  simpa [joinLines, List.flatMap] using part

theorem cstr_line {line : List Byte} (whole : Line line) :
    cstr (line ++ [newline]) = line ++ [newline] := by
  apply cstr_eq_self
  simpa using ⟨whole.plain, by decide⟩

@[simp] theorem convertFrom_nil (state : Conversion) : convertFrom state [] = some state := rfl

theorem convertFrom_line {line : List Byte} (single : newline ∉ line)
    (short : line.length + 1 < BIGLINE) (state : Conversion) (rest : List Byte) :
    convertFrom state (line ++ newline :: rest) =
      (convertLine state (line ++ [newline])).bind fun next => convertFrom next rest := by
  rw [convertFrom, fgetsAll_line single short, List.foldlM_cons]
  rfl

/-- The word on a line: what `fgets` has stored, up to its newline or NUL. -/
def heading (line : List Byte) : List Byte := (cstr line).takeWhile (· ∉ [newline])

theorem heading_plain (line : List Byte) : NUL ∉ heading line :=
  fun member => NUL_not_mem_cstr line ((List.takeWhile_prefix _).subset member)

theorem heading_line {word : List Byte} (line : Line word) : heading (word ++ [newline]) = word := by
  have before : ∀ byte ∈ word, decide (byte ∉ [newline]) = true := by
    intro byte member
    simpa using ne_of_mem_of_not_mem member line.single
  rw [heading, cstr_line line, List.takeWhile_append_of_pos before]
  simp

/-- After the line of a word, the word stands in both fields. -/
theorem convertLine_heading (line out : List Byte) :
    convertLine ⟨true, Dictrec.zero, out⟩ line =
      if (heading line).length < WORD then
        some ⟨false, ⟨Buffer.padded (heading line), Buffer.padded (heading line)⟩, out⟩
      else none := by
  have read : cstr (line ++ [NUL]) = cstr line := cstr_append_NUL_cons line []
  have position : strcspn (cstr (line ++ [NUL])) [newline] = (heading line).length := by
    rw [strcspn, read, heading]
  have part : heading line <+: cstr line := List.takeWhile_prefix _
  have inside : (heading line).length < (line ++ [NUL]).length := by
    have shorter := (List.takeWhile_prefix (· != NUL) (l := line)).length_le
    have := part.length_le
    simp only [cstr, List.length_append, List.length_singleton] at shorter this ⊢
    omega
  have cut : cstr ((line ++ [NUL]).set (heading line).length NUL) = heading line := by
    rw [cstr_set_NUL inside, read]
    exact (List.prefix_iff_eq_take.mp part).symm
  -- The newline itself was replaced, so the line of the word is never blank.
  have first : ((line ++ [NUL]).set (heading line).length NUL).head? ≠ some newline := by
    intro blank
    obtain ⟨rest, same⟩ := List.head?_eq_some_iff.mp blank
    have member : newline ∈ heading line := by
      rw [← cut, same, cstr, List.takeWhile_cons_of_pos (by decide)]
      exact List.mem_cons_self
    simpa using List.mem_takeWhile_imp member
  have appended : (Dictrec.zero.text).strcat (heading line) =
      if (heading line).length < TEXT then some (Buffer.padded (heading line)) else none := by
    have empty : Dictrec.zero.text = Buffer.padded [] := Buffer.padded_nil.symm
    rw [empty, Buffer.strcat_padded List.not_mem_nil (by decide), List.nil_append]
  rw [convertLine, takeWord]
  simp only [if_true, position, cut]
  by_cases fits : (heading line).length < WORD
  · have room : (heading line).length < TEXT := Nat.lt_trans fits (by decide)
    have copied : (Dictrec.zero.word).strcpy (heading line) = some (Buffer.padded (heading line)) := by
      rw [Buffer.strcpy_fits _ fits]
      exact congrArg some (Buffer.overwrite_zero fits)
    simp only [copied, takeText, if_neg first, cut, appended, if_pos room, if_pos fits]
  · have overflow : (Dictrec.zero.word).strcpy (heading line) = none := if_neg fits
    simp only [overflow, if_neg fits]

/-- A line of the definition is appended as far as its NUL; a blank one ends the record. -/
theorem convertLine_more {held : List Byte} (plain : NUL ∉ held) (fits : held.length < TEXT)
    (line : List Byte) (word : Buffer WORD) (out : List Byte) :
    convertLine ⟨false, ⟨word, Buffer.padded held⟩, out⟩ line =
      if line.head? = some newline then
        some ⟨true, Dictrec.zero, out ++ (Dictrec.mk word (Buffer.padded held)).bytes⟩
      else if (held ++ cstr line).length < TEXT then
        some ⟨false, ⟨word, Buffer.padded (held ++ cstr line)⟩, out⟩
      else none := by
  have read : cstr (line ++ [NUL]) = cstr line := cstr_append_NUL_cons line []
  have first : (line ++ [NUL]).head? = some newline ↔ line.head? = some newline := by
    cases line with
    | nil => exact iff_of_false (by decide) (by decide)
    | cons byte rest => rfl
  rw [convertLine, takeWord]
  simp only [Bool.false_eq_true, if_false, takeText, first, read, Buffer.strcat_padded plain fits]
  split
  next => rfl
  next =>
    by_cases room : (held ++ cstr line).length < TEXT
    · simp only [if_pos room]
    · simp only [if_neg room]

theorem convertLine_word {word : List Byte} (line : Line word) (fits : word.length < WORD)
    (out : List Byte) :
    convertLine ⟨true, Dictrec.zero, out⟩ (word ++ [newline]) =
      some ⟨false, ⟨Buffer.padded word, Buffer.padded word⟩, out⟩ := by
  rw [convertLine_heading, heading_line line, if_pos fits]

/-- A line of the definition is appended with its newline. -/
theorem convertLine_text {line held : List Byte} (whole : Line line) (plain : NUL ∉ held)
    (fits : held.length < TEXT) (word : Buffer WORD) (out : List Byte) :
    convertLine ⟨false, ⟨word, Buffer.padded held⟩, out⟩ (line ++ [newline]) =
      if (held ++ (line ++ [newline])).length < TEXT then
        some ⟨false, ⟨word, Buffer.padded (held ++ (line ++ [newline]))⟩, out⟩
      else none := by
  have filled : (line ++ [newline]).head? ≠ some newline := by
    obtain ⟨byte, rest, same⟩ := List.exists_cons_of_ne_nil whole.some_char
    have := whole.single
    simp only [same, List.mem_cons, not_or] at this
    simpa [same] using Ne.symm this.1
  rw [convertLine_more plain fits, if_neg filled, cstr_line whole]

/-- A blank line writes the record and clears it. -/
theorem convertLine_blank (dr : Dictrec) (out : List Byte) :
    convertLine ⟨false, dr, out⟩ [newline] = some ⟨true, Dictrec.zero, out ++ dr.bytes⟩ := rfl

theorem convertFrom_definition {lines : List (List Byte)} (each : ∀ line ∈ lines, Line line)
    (short : ∀ line ∈ lines, line.length + 1 < BIGLINE) {held : List Byte} (plain : NUL ∉ held)
    (fits : held.length < TEXT) (word : Buffer WORD) (out rest : List Byte) :
    convertFrom ⟨false, ⟨word, Buffer.padded held⟩, out⟩ (joinLines lines ++ rest) =
      if (held ++ joinLines lines).length < TEXT then
        convertFrom ⟨false, ⟨word, Buffer.padded (held ++ joinLines lines)⟩, out⟩ rest
      else none := by
  induction lines generalizing held with
  | nil => simp [joinLines, fits]
  | cons line lines ih =>
    have whole := each line List.mem_cons_self
    have input : joinLines (line :: lines) ++ rest =
        line ++ newline :: (joinLines lines ++ rest) := by simp [joinLines]
    have collected : held ++ joinLines (line :: lines) =
        held ++ (line ++ [newline]) ++ joinLines lines := by simp [joinLines]
    rw [input, convertFrom_line whole.single (short line List.mem_cons_self),
      convertLine_text whole plain fits, collected]
    split
    next room =>
      have still_plain : NUL ∉ held ++ (line ++ [newline]) := by
        simpa using ⟨plain, whole.plain, by decide⟩
      rw [Option.bind_some, ih (fun other member => each other (List.mem_cons_of_mem _ member))
        (fun other member => short other (List.mem_cons_of_mem _ member)) still_plain room]
    next overflow =>
      rw [if_neg]
      · rfl
      · simp only [List.length_append] at overflow ⊢
        omega

/-- One entry: its record is complete, but not yet written. -/
theorem convertFrom_entry (entry : Entry) (out rest : List Byte) :
    convertFrom ⟨true, Dictrec.zero, out⟩ (entry.source ++ rest) =
      if entry.Fits then convertFrom ⟨false, entry.written, out⟩ rest else none := by
  have short : ∀ line ∈ entry.definition, line.length + 1 < BIGLINE := by
    intro line member
    have := length_le_joinLines member
    have := entry.definition_fits
    have : TEXT < BIGLINE := by decide
    omega
  have word_short : entry.word.length + 1 < BIGLINE := by
    have := entry.word_fits
    have : WORD < BIGLINE := by decide
    omega
  rw [Entry.source, List.append_assoc, List.cons_append,
    convertFrom_line entry.word_line.single word_short,
    convertLine_word entry.word_line entry.word_fits, Option.bind_some]
  exact convertFrom_definition entry.definition_lines short entry.word_line.plain
    (Nat.lt_trans entry.word_fits (by decide)) _ out rest

theorem convertFrom_blank (dr : Dictrec) (out rest : List Byte) :
    convertFrom ⟨false, dr, out⟩ (newline :: rest) =
      convertFrom ⟨true, Dictrec.zero, out ++ dr.bytes⟩ rest := by
  have line := convertFrom_line (List.not_mem_nil : newline ∉ []) (by decide)
    ⟨false, dr, out⟩ rest
  rw [List.nil_append] at line
  rw [line, List.nil_append, convertLine_blank, Option.bind_some]

theorem convertFrom_sourceFile (entries : List Entry) (trailing : Bool) (out : List Byte) :
    (convertFrom ⟨true, Dictrec.zero, out⟩ (sourceFile entries trailing)).map Conversion.out =
      if ∀ entry ∈ entries, entry.Fits then
        some (out ++ file ((ended entries trailing).map Entry.written))
      else none := by
  induction entries generalizing out with
  | nil =>
    cases trailing
    · simp [sourceFile, ended, file]
    · simpa [sourceFile, ended, file] using ⟨_, rfl, rfl⟩
  | cons entry entries ih =>
    cases entries with
    | nil =>
      have last : sourceFile [entry] trailing =
          entry.source ++ if trailing then [newline] else [] := by simp [sourceFile]
      rw [last, convertFrom_entry]
      by_cases fits : entry.Fits
      · cases trailing
        · simp [fits, ended, file]
        · simp [fits, ended, file, convertFrom_blank]
      · simp [fits]
    | cons next entries =>
      have first : sourceFile (entry :: next :: entries) trailing =
          entry.source ++ newline :: sourceFile (next :: entries) trailing := by
        simp [sourceFile, List.intercalate]
      have others : ended (entry :: next :: entries) trailing =
          entry :: ended (next :: entries) trailing := by
        cases trailing <;> rfl
      rw [first, convertFrom_entry, others]
      by_cases fits : entry.Fits
      · rw [if_pos fits, convertFrom_blank, ih]
        simp [fits, file]
      · simp [fits]

/-- What `convert` does: the last entry needs its blank line, and an entry that
overflows the text field together with its word is outside the array. -/
theorem convert_sourceFile (entries : List Entry) (trailing : Bool) :
    convert (sourceFile entries trailing) =
      if ∀ entry ∈ entries, entry.Fits then
        some (file ((ended entries trailing).map Entry.written))
      else none := by
  simpa only [convert, List.nil_append] using convertFrom_sourceFile entries trailing []

theorem Entry.written_ne_record (entry : Entry) (fits : entry.Fits) :
    entry.written ≠ entry.record := by
  intro same
  have plain : NUL ∉ entry.text := joinLines_plain entry.definition_lines
  have collected_plain : NUL ∉ entry.collected := by
    simpa [collected] using ⟨entry.word_line.plain, plain⟩
  have texts : entry.written.text.text = entry.record.text.text := by rw [same]
  rw [written, record, Buffer.text_padded collected_plain fits,
    Buffer.text_padded plain entry.definition_fits, collected] at texts
  exact entry.word_line.some_char (by simpa using texts)

/-- The conversion is faithful for a file without entries only: the word of the
first entry is always in front of its definition. -/
theorem convert_faithful_iff (entries : List Entry) (trailing : Bool) :
    convert (sourceFile entries trailing) = some (file (entries.map Entry.record)) ↔
      entries = [] := by
  rw [convert_sourceFile]
  constructor
  · intro faithful
    split at faithful
    next all_fit =>
      have records := file_injective (Option.some.inj faithful)
      cases entries with
      | nil => rfl
      -- A first record is written in either case, and its text has the word in front.
      | cons entry entries =>
        have fits := all_fit entry List.mem_cons_self
        have first : (ended (entry :: entries) trailing).head? = some entry := by
          have shown := congrArg List.length records
          cases trailing
          · cases entries with
            | nil => simp [ended] at shown
            | cons next entries => rfl
          · rfl
        have heads := congrArg List.head? records
        simp only [List.head?_map, first, List.map_cons, List.head?_cons, Option.map_some,
          Option.some.injEq] at heads
        exact absurd heads (entry.written_ne_record fits)
    next => cases faithful
  · rintro rfl
    cases trailing <;> rfl

/-- The word "w", defined as "d". -/
def shortEntry : Entry where
  word := ['w'.toUInt8]
  definition := [['d'.toUInt8]]
  word_line := ⟨by decide, by decide, by decide⟩
  word_fits := by decide
  definition_lines := by
    intro line member
    rw [List.mem_singleton.mp member]
    exact ⟨by decide, by decide, by decide⟩
  defined := by decide
  definition_fits := by decide

/-- The file "w\nd\n\n" gives the text "wd\n" instead of "d\n". -/
theorem convert_not_faithful :
    ¬ ∀ (entries : List Entry) (trailing : Bool),
      convert (sourceFile entries trailing) = some (file (entries.map Entry.record)) := by
  intro always
  have fits : ∀ entry ∈ [shortEntry], entry.Fits := by decide
  have faithful := always [shortEntry] true
  rw [convert_sourceFile, if_pos fits] at faithful
  have records := file_injective (Option.some.inj faithful)
  simp only [ended, if_true, List.map_cons, List.map_nil, List.cons.injEq, and_true] at records
  exact shortEntry.written_ne_record (by decide) records

end LinuxProgramming.Dictionary
