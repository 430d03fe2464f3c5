import LinuxProgramming.Dictionary.Convert

/-! The fields of the record while a file is converted.

Nothing is cut: a word, or a word with its definition, that does not fit is
stored outside its field.
-/

set_option autoImplicit false

namespace LinuxProgramming.Dictionary
open Foundation

/-- A word and the lines that are read for its definition. -/
structure Block where
  word : List Byte
  definition : List (List Byte)
  deriving DecidableEq

namespace Block

/-- The characters that a definition adds to the text. -/
def size (definition : List (List Byte)) : Nat := (definition.flatMap cstr).length

/-- The word fits into its field, and with its definition into the other one. -/
def Fits (block : Block) : Prop :=
  (heading block.word).length < WORD ∧ (heading block.word).length + size block.definition < TEXT

instance (block : Block) : Decidable block.Fits := inferInstanceAs (Decidable (_ ∧ _))

end Block

def isBlank (line : List Byte) : Bool := line.head? = some newline

/-- The lines up to the next blank one. -/
def definitionOf (lines : List (List Byte)) : List (List Byte) := lines.takeWhile fun line => !isBlank line

/-- The lines behind the next blank one. -/
def behind (lines : List (List Byte)) : List (List Byte) :=
  (lines.dropWhile fun line => !isBlank line).tail

theorem behind_length_le (lines : List (List Byte)) : (behind lines).length ≤ lines.length := by
  have rest := (lines.dropWhile_suffix fun line => !isBlank line).length_le
  rw [behind, List.length_tail]
  omega

/-- The words of a file with their definitions; the line behind a blank one is a word,
whatever it is. -/
def blocks : List (List Byte) → List Block
  | [] => []
  | word :: lines => ⟨word, definitionOf lines⟩ :: blocks (behind lines)
termination_by lines => lines.length
decreasing_by exact Nat.lt_succ_of_le (behind_length_le lines)

/-- Every line is converted with the stores inside the record; both fields are
strings afterwards, and the word is the one of its line, cut to the field. -/
def StaysInside (input : List Byte) : Prop :=
  ∀ front line, front ++ [line] <+: fgetsAll BIGLINE input →
    ∃ before after, front.foldlM convertLine ⟨true, Dictrec.zero, []⟩ = some before ∧
      convertLine before line = some after ∧ after.dr.WellFormed ∧
      (before.is_word = true → after.dr.word.text = (heading line).take (WORD - 1))

/-- The states of the loop: before a word the record is cleared. -/
inductive Between : Conversion → Prop where
  | start (out : List Byte) : Between ⟨true, Dictrec.zero, out⟩
  | collecting (word : Buffer WORD) (held out : List Byte) (terminated : word.Terminated)
      (plain : NUL ∉ held) (fits : held.length < TEXT) :
      Between ⟨false, ⟨word, Buffer.padded held⟩, out⟩

theorem Between.wellFormed {state : Conversion} (between : Between state) : state.dr.WellFormed := by
  cases between with
  | start out =>
    have terminated : Dictrec.zero.WellFormed := ⟨by decide, by decide⟩
    exact terminated
  | collecting word held out terminated plain fits =>
    exact ⟨terminated, Buffer.terminated_padded fits⟩

/-- One line: the next state, and the word if it was the line of one. -/
theorem Between.line {before after : Conversion} {line : List Byte} (between : Between before)
    (converted : convertLine before line = some after) :
    Between after ∧
      (before.is_word = true → after.dr.word.text = (heading line).take (WORD - 1)) := by
  have plain_line := heading_plain line
  cases between with
  | start out =>
    rw [convertLine_heading] at converted
    split at converted
    next fits =>
      cases converted
      refine ⟨.collecting _ _ out (Buffer.terminated_padded fits) plain_line
        (Nat.lt_trans fits (by decide)), fun _ => ?_⟩
      rw [List.take_of_length_le (by omega)]
      exact Buffer.text_padded plain_line fits
    next => cases converted
  | collecting word held out terminated plain fits =>
    rw [convertLine_more plain fits] at converted
    refine ⟨?_, fun first => by cases first⟩
    split at converted
    next =>
      cases converted
      exact .start _
    next =>
      split at converted
      next room =>
        cases converted
        refine .collecting _ _ out terminated ?_ room
        simpa using ⟨plain, NUL_not_mem_cstr line⟩
      next => cases converted

theorem Between.lines {before after : Conversion} {lines : List (List Byte)}
    (between : Between before) (converted : lines.foldlM convertLine before = some after) :
    Between after := by
  induction lines generalizing before with
  | nil =>
    cases converted
    exact between
  | cons line lines ih =>
    rw [List.foldlM_cons] at converted
    obtain ⟨middle, first, later⟩ := Option.bind_eq_some_iff.mp converted
    exact ih (between.line first).1 later

/-- A file is converted to its end, from a new word or within a definition, exactly
if what is still to be stored fits. -/
theorem converts_iff (lines : List (List Byte)) :
    (∀ out, (lines.foldlM convertLine ⟨true, Dictrec.zero, out⟩).isSome ↔
        ∀ block ∈ blocks lines, block.Fits) ∧
      ∀ word held out, NUL ∉ held → held.length < TEXT →
        ((lines.foldlM convertLine ⟨false, ⟨word, Buffer.padded held⟩, out⟩).isSome ↔
          held.length + Block.size (definitionOf lines) < TEXT ∧
            ∀ block ∈ blocks (behind lines), block.Fits) := by
  induction lines with
  | nil =>
    refine ⟨fun out => ?_, fun word held out plain fits => ?_⟩
    · simp [blocks]
    · simp [blocks, behind, definitionOf, Block.size, fits]
  | cons line lines ih =>
    obtain ⟨from_word, from_text⟩ := ih
    constructor
    · intro out
      rw [List.foldlM_cons, convertLine_heading, blocks, List.forall_mem_cons, Block.Fits]
      by_cases fits : (heading line).length < WORD
      · have room : (heading line).length < TEXT := Nat.lt_trans fits (by decide)
        have later := from_text (Buffer.padded (heading line)) (heading line) out
          (heading_plain line) room
        simpa [fits] using later
      · simp [fits]
    · intro word held out plain fits
      rw [List.foldlM_cons, convertLine_more plain fits]
      by_cases blank : line.head? = some newline
      · have marked : isBlank line = true := decide_eq_true blank
        have later := from_word (out ++ (Dictrec.mk word (Buffer.padded held)).bytes)
        simpa [blank, marked, definitionOf, behind, Block.size, fits] using later
      · have marked : isBlank line = false := decide_eq_false blank
        have same : behind (line :: lines) = behind lines := by simp [behind, marked]
        have more : Block.size (definitionOf (line :: lines)) =
            (cstr line).length + Block.size (definitionOf lines) := by
          simp [definitionOf, marked, Block.size]
        rw [if_neg blank, same, more, ← Nat.add_assoc, ← List.length_append]
        by_cases room : (held ++ cstr line).length < TEXT
        · have later := from_text word (held ++ cstr line) out
            (by simpa using ⟨plain, NUL_not_mem_cstr line⟩) room
          rw [if_pos room]
          exact later
        · have overflow : ¬ (held ++ cstr line).length + Block.size (definitionOf lines) < TEXT := by
            omega
          rw [if_neg room]
          exact iff_of_false Bool.false_ne_true fun all => overflow all.1

/-- The stores stay inside exactly if every word fits, and with its definition as well. -/
theorem staysInside_iff (input : List Byte) :
    StaysInside input ↔ ∀ block ∈ blocks (fgetsAll BIGLINE input), block.Fits := by
  rw [← (converts_iff (fgetsAll BIGLINE input)).1 []]
  constructor
  · intro inside
    rcases List.eq_nil_or_concat (fgetsAll BIGLINE input) with nothing | ⟨front, line, last⟩
    · rw [nothing]
      rfl
    · obtain ⟨before, after, front_read, line_read, -⟩ := inside front line
        ⟨[], by rw [last, List.concat_eq_append, List.append_nil]⟩
      rw [last, List.concat_eq_append, List.foldlM_append, front_read]
      simp [line_read]
  · rintro converted front line ⟨rest, same⟩
    rw [← same, List.append_assoc, List.foldlM_append] at converted
    obtain ⟨final, whole⟩ := Option.isSome_iff_exists.mp converted
    obtain ⟨before, front_read, later⟩ := Option.bind_eq_some_iff.mp whole
    rw [List.singleton_append, List.foldlM_cons] at later
    obtain ⟨after, line_read, -⟩ := Option.bind_eq_some_iff.mp later
    have between : Between before := (Between.start []).lines front_read
    obtain ⟨next, cut⟩ := between.line line_read
    exact ⟨before, after, front_read, line_read, next.wellFormed, cut⟩

/-- A word of as many characters as its field leaves no room for the NUL. -/
theorem long_word_outside : ¬ ∀ input, StaysInside input := by
  intro always
  have read : fgetsAll BIGLINE (List.replicate WORD 'a'.toUInt8) =
    [List.replicate WORD 'a'.toUInt8] := by decide +kernel
  obtain ⟨before, after, start, converted, -⟩ := always (List.replicate WORD 'a'.toUInt8) []
    (List.replicate WORD 'a'.toUInt8) (by rw [read]; exact List.prefix_refl _)
  cases start
  rw [convertLine_heading, if_neg (by decide)] at converted
  cases converted

end LinuxProgramming.Dictionary
