import LinuxProgramming.Dictionary.Record

/-! The linear lookup and its static stream.

`lookup1` opens the file at its first call only. It rewinds the stream at the
start of every call, but closes it when the word is missing, so a call after a
missing word rewinds a closed stream.
-/

set_option autoImplicit false

namespace LinuxProgramming.Dictionary
open Foundation

/-- The static `FILE *in`, with the records that `fread` has not read yet. -/
inductive Stream where
  | unopened
  | opened (left : List Dictrec)
  | closed
  deriving DecidableEq

/-- The static variables of `lookup1`. -/
structure Static where
  first_time : Bool
  input : Stream
  deriving DecidableEq

def unused : Static := ⟨true, .unopened⟩

/-- The first call opens the file. -/
def openOnce (bytes : List Byte) (static : Static) : Static :=
  if static.first_time then ⟨false, .opened (table bytes)⟩ else static

/-- Only an open stream can be rewound. -/
def rewind (bytes : List Byte) : Stream → Option (List Dictrec)
  | .opened _ => some (table bytes)
  | .unopened | .closed => none

/-- The `fread` loop: the record that holds the word, and the records behind it. -/
def scan (sought : Dictrec) : List Dictrec → Option (Option Dictrec × List Dictrec)
  | [] => some (none, [])
  | dr :: left => do
    let held ← dr.word.string
    let word ← sought.word.string
    if strcmp held word = .eq then some (some dr, left) else scan sought left

def lookup1 (bytes : List Byte) (static : Static) (sought : Dictrec) :
    Option (Static × Code × Dictrec) := do
  let static := openOnce bytes static
  let top ← rewind bytes static.input
  match ← scan sought top with
  | (some dr, left) =>
    let held ← dr.text.string
    let text ← sought.text.strcpy held
    some ({ static with input := .opened left }, .found, { sought with text := text })
  | (none, _) =>
    -- `fclose(in)` leaves `in` and `first_time` as they are.
    some ({ static with input := .closed }, .notfound, sought)

/-- The loop of `main`: every word is typed into the same record. -/
def dialogue (bytes : List Byte) : Static → Dictrec → List Word → Option (List (Code × Dictrec))
  | _, _, [] => some []
  | static, tryit, word :: words => do
    let (static, code, tryit) ← lookup1 bytes static (tryit.ask word)
    let results ← dialogue bytes static tryit words
    some ((code, tryit) :: results)

/-- The next call has a stream to rewind. -/
def Static.Usable (static : Static) : Prop :=
  static.first_time = true ∨ ∃ left, static.input = .opened left

theorem scan_entry {records : List Dictrec} (wellFormed : ∀ dr ∈ records, dr.WellFormed)
    {sought : Dictrec} (terminated : sought.word.Terminated) :
    ∃ left, scan sought records = some (entry records sought.word.text, left) := by
  induction records with
  | nil => exact ⟨[], rfl⟩
  | cons dr records ih =>
    have held := Buffer.string_of_terminated (wellFormed dr List.mem_cons_self).word
    have word := Buffer.string_of_terminated terminated
    by_cases same : dr.word.text = sought.word.text
    · exact ⟨records, by simp [scan, held, word, entry, same]⟩
    · obtain ⟨left, scanned⟩ := ih fun other member => wellFormed other (List.mem_cons_of_mem _ member)
      exact ⟨left, by simpa [scan, held, word, entry, same] using scanned⟩

theorem openOnce_usable (records : List Dictrec) {static : Static} (usable : static.Usable) :
    (openOnce (file records) static).first_time = false ∧
      rewind (file records) (openOnce (file records) static).input = some records := by
  obtain ⟨first_time, input⟩ := static
  cases first_time with
  | true => simp [openOnce, rewind, table_of_file]
  | false =>
    obtain first | ⟨left, same⟩ := usable
    · cases first
    · simp only at same
      simp [openOnce, same, rewind, table_of_file]

/-- A call on an open stream answers correctly, and only a hit leaves the stream open. -/
theorem lookup1_usable {records : List Dictrec} (wellFormed : ∀ dr ∈ records, dr.WellFormed)
    {static : Static} (usable : static.Usable) {sought : Dictrec}
    (terminated : sought.word.Terminated) :
    ∃ next result, lookup1 (file records) static sought = some (next, result) ∧
      observed result = answer records sought.word.text ∧
      (next.Usable ↔ (entry records sought.word.text).isSome) := by
  obtain ⟨left, scanned⟩ := scan_entry wellFormed terminated
  obtain ⟨again, rewound⟩ := openOnce_usable records usable
  simp only [lookup1, rewound, Option.bind_eq_bind, Option.bind_some, scanned]
  cases found : entry records sought.word.text with
  | none =>
    refine ⟨_, _, rfl, ?_, ?_⟩
    · simp [observed, answer, found]
    · simp [Static.Usable, again]
  | some dr =>
    have whole := (wellFormed dr (mem_of_entry found).1).text
    have fits := Buffer.text_length whole
    simp only [Buffer.string_of_terminated whole, Buffer.strcpy_fits _ fits, Option.bind_some]
    refine ⟨_, _, rfl, ?_, ?_⟩
    · simpa [observed, answer, found] using Buffer.text_overwrite dr.text.plain_text fits
    · simp [Static.Usable]

/-- A call on a closed stream is undefined. -/
theorem lookup1_unusable (bytes : List Byte) {static : Static} (closed : ¬static.Usable)
    (sought : Dictrec) : lookup1 bytes static sought = none := by
  obtain ⟨first_time, input⟩ := static
  simp only [Static.Usable, not_or, not_exists] at closed
  cases input with
  | opened left => exact absurd rfl (closed.2 left)
  | unopened => simp [lookup1, openOnce, closed.1, rewind]
  | closed => simp [lookup1, openOnce, closed.1, rewind]

/-- The answers are those of the dictionary exactly when every word but the
last one is in it: a missing word closes the stream that the next call rewinds. -/
theorem dialogue_answers_iff (records : List Dictrec)
    (wellFormed : ∀ dr ∈ records, dr.WellFormed) (tryit : Dictrec) (queries : List Word) :
    (dialogue (file records) unused tryit queries).map (List.map observed) =
        some (queries.map fun word => answer records word.chars) ↔
      ∀ word ∈ queries.dropLast, (entry records word.chars).isSome := by
  have usable : unused.Usable := .inl rfl
  -- Generalised to any static state on which a call can be made; a hit leads to such a state again.
  revert usable
  generalize unused = static
  intro usable
  induction queries generalizing static tryit with
  | nil => simp [dialogue]
  | cons word words ih =>
    obtain ⟨next, result, called, right, stays⟩ :=
      lookup1_usable wellFormed usable (tryit.ask_terminated word)
    rw [Dictrec.ask_word_text] at right stays
    simp only [dialogue, called, Option.bind_eq_bind, Option.bind_some]
    cases words with
    | nil => simp [dialogue, ← right]
    | cons following words =>
      by_cases hit : (entry records word.chars).isSome
      · have others := ih result.2 next (stays.mpr hit)
        have split_queries : (∀ asked ∈ (word :: following :: words).dropLast,
            (entry records asked.chars).isSome) ↔
            ∀ asked ∈ (following :: words).dropLast, (entry records asked.chars).isSome := by
          simp only [List.dropLast_cons_cons, List.forall_mem_cons, and_iff_right hit]
        refine Iff.trans ?_ (others.trans split_queries.symm)
        cases dialogue (file records) next result.2 (following :: words) <;> simp [right]
      · have closed := lookup1_unusable (file records) (mt stays.mp hit) (result.2.ask following)
        simp [dialogue, closed, hit]

/-- A dictionary that holds the word "a" only. -/
def onlyA : List Dictrec := [⟨Buffer.padded ['a'.toUInt8], Buffer.padded ['x'.toUInt8, newline]⟩]

def wordA : Word := ⟨['a'.toUInt8], by decide, by decide⟩

def wordB : Word := ⟨['b'.toUInt8], by decide, by decide⟩

theorem onlyA_wellFormed : ∀ dr ∈ onlyA, dr.WellFormed := by
  intro dr member
  rw [List.mem_singleton.mp member]
  exact ⟨Buffer.terminated_padded (by decide), Buffer.terminated_padded (by decide)⟩

/-- A hit, then a miss: both answers are right, as only the last word is missing. -/
theorem dialogue_answers_hit_miss :
    (dialogue (file onlyA) unused Dictrec.zero [wordA, wordB]).map (List.map observed) =
      some [(.found, some ['x'.toUInt8, newline]), (.notfound, none)] := by
  have answers := (dialogue_answers_iff onlyA onlyA_wellFormed Dictrec.zero [wordA, wordB]).mpr
    (by decide +kernel)
  rw [answers]
  decide +kernel

theorem miss_hit_undefined : dialogue (file onlyA) unused Dictrec.zero [wordB, wordA] = none := by
  decide +kernel

/-- A miss, then a word that the dictionary holds: the second call has no stream. -/
theorem dialogue_depends_on_history :
    ¬ ∀ records : List Dictrec, (∀ dr ∈ records, dr.WellFormed) →
      ∀ (tryit : Dictrec) (queries : List Word),
        (dialogue (file records) unused tryit queries).map (List.map observed) =
          some (queries.map fun word => answer records word.chars) := by
  intro always
  have answered := always onlyA onlyA_wellFormed Dictrec.zero [wordB, wordA]
  rw [miss_hit_undefined] at answered
  cases answered

end LinuxProgramming.Dictionary
