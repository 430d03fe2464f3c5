import LinuxProgramming.Dictionary.LinearLookup
import LinuxProgramming.Dictionary.MappedLookup

/-! The linear and the binary search give the same answers.

Both programs take their records from the same file: `lookup1` reads as many
as `fread` delivers, `lookup5` counts them by the size of the file.
-/

set_option autoImplicit false

namespace LinuxProgramming.Dictionary
open Foundation

/-- The code and the caller's record after a search of these records. -/
def outcome (records : List Dictrec) (sought : Dictrec) : Code × Dictrec :=
  match entry records sought.word.text with
  | some dr => (.found, fill sought dr)
  | none => (.notfound, sought)

theorem outcome_word (records : List Dictrec) (sought : Dictrec) :
    (outcome records sought).2.word = sought.word := by
  unfold outcome
  split
  next dr _ => exact fill_word sought dr
  next => rfl

/-- A search tells whether a record holds the word, and copies the text of one that does. -/
theorem outcome_found {records : List Dictrec} (wellFormed : ∀ dr ∈ records, dr.WellFormed)
    (sought : Dictrec) :
    (∃ dr ∈ records, dr.word.text = sought.word.text ∧ (outcome records sought).1 = .found ∧
      (outcome records sought).2.text.text = dr.text.text) ∨
    ((∀ dr ∈ records, dr.word.text ≠ sought.word.text) ∧
      outcome records sought = (.notfound, sought)) := by
  cases found : entry records sought.word.text with
  | some dr =>
    obtain ⟨member, same⟩ := mem_of_entry found
    refine .inl ⟨dr, member, same, ?_⟩
    simpa [outcome, found] using fill_text sought (wellFormed dr member).text
  | none =>
    have missing := List.find?_eq_none.mp found
    exact .inr ⟨fun dr member => by simpa using missing dr member, by simp [outcome, found]⟩

variable {records : List Dictrec} {rest : List Byte}

/-- The first call of the linear lookup, on a file that may end with a partial record. -/
theorem lookup1_first (wellFormed : ∀ dr ∈ records, dr.WellFormed) (part : rest.length < sizeof)
    {sought : Dictrec} (terminated : sought.word.Terminated) :
    ∃ static, lookup1 (file records ++ rest) unused sought =
      some (static, outcome records sought) := by
  obtain ⟨left, scanned⟩ := scan_entry wellFormed terminated
  have opened : openOnce (file records ++ rest) unused = ⟨false, .opened records⟩ := by
    simp [openOnce, unused, table_file records part]
  have rewound : rewind (file records ++ rest) (.opened records) = some records := by
    rw [rewind, table_file records part]
  simp only [lookup1, opened, rewound, Option.bind_eq_bind, Option.bind_some, scanned]
  rw [outcome]
  cases found : entry records sought.word.text with
  | none => exact ⟨_, rfl⟩
  | some dr =>
    have whole := (wellFormed dr (mem_of_entry found).1).text
    simp only [Buffer.string_of_terminated whole, Buffer.strcpy_fits _ (Buffer.text_length whole),
      Option.bind_some]
    exact ⟨_, rfl⟩

/-- The first call of the binary lookup: the size of the file gives the same records. -/
theorem lookup5_first (sorted : Sorted records) (part : rest.length < sizeof)
    (nonempty : file records ++ rest ≠ []) {sought : Dictrec}
    (terminated : sought.word.Terminated) :
    lookup5 (file records ++ rest) none sought = some (records, outcome records sought) := by
  have mapped : mapOnce (file records ++ rest) none = some records := by
    rw [mapOnce, if_neg nonempty, table_file records part]
  rw [lookup5_eq _ _ terminated, mapped, Option.bind_some, lookedUp, sorted.search, outcome]
  cases found : entry records sought.word.text with
  | none => rfl
  | some dr =>
    have whole := (sorted.wellFormed dr (mem_of_entry found).1).text
    simp [whole]

/-- On a sorted file both first calls return the same code and fill the record alike. -/
theorem lookup1_lookup5_agree (sorted : Sorted records) (part : rest.length < sizeof)
    (nonempty : file records ++ rest ≠ []) {sought : Dictrec}
    (terminated : sought.word.Terminated) :
    ∃ static mapped code filled,
      lookup1 (file records ++ rest) unused sought = some (static, code, filled) ∧
      lookup5 (file records ++ rest) none sought = some (mapped, code, filled) ∧
      filled.word = sought.word ∧
      ((∃ dr ∈ records, dr.word.text = sought.word.text ∧ code = .found ∧
          filled.text.text = dr.text.text) ∨
        ((∀ dr ∈ records, dr.word.text ≠ sought.word.text) ∧ code = .notfound ∧
          filled = sought)) := by
  obtain ⟨static, linear⟩ := lookup1_first sorted.wellFormed part terminated
  have binary := lookup5_first sorted part nonempty terminated
  refine ⟨static, records, _, _, linear, binary, outcome_word records sought, ?_⟩
  rcases outcome_found sorted.wellFormed sought with hit | ⟨missing, unchanged⟩
  · exact .inl hit
  · obtain ⟨code, filled⟩ := Prod.ext_iff.mp unchanged
    exact .inr ⟨missing, code, filled⟩

/-- Words of which one is the start of another. -/
def threeWords : List Dictrec :=
  [⟨Buffer.padded ['a'.toUInt8], Buffer.padded ['x'.toUInt8, newline]⟩,
    ⟨Buffer.padded ['b'.toUInt8], Buffer.padded ['y'.toUInt8, newline]⟩,
    ⟨Buffer.padded ['b'.toUInt8, 'c'.toUInt8], Buffer.padded []⟩]

theorem threeWords_sorted : Sorted threeWords where
  wellFormed := by
    intro dr member
    simp only [threeWords, List.mem_cons, List.not_mem_nil, or_false] at member
    rcases member with rfl | rfl | rfl <;>
      exact ⟨Buffer.terminated_padded (by decide), Buffer.terminated_padded (by decide)⟩
  increasing := by decide +kernel

/-- A file with three records and the first byte of another, asked for the word in the middle. -/
theorem lookup1_lookup5_agree_threeWords :
    ∃ static mapped code filled,
      lookup1 (file threeWords ++ [newline]) unused (Dictrec.zero.ask wordB) =
        some (static, code, filled) ∧
      lookup5 (file threeWords ++ [newline]) none (Dictrec.zero.ask wordB) =
        some (mapped, code, filled) ∧
      filled.word = (Dictrec.zero.ask wordB).word ∧
      ((∃ dr ∈ threeWords, dr.word.text = (Dictrec.zero.ask wordB).word.text ∧ code = .found ∧
          filled.text.text = dr.text.text) ∨
        ((∀ dr ∈ threeWords, dr.word.text ≠ (Dictrec.zero.ask wordB).word.text) ∧
          code = .notfound ∧ filled = Dictrec.zero.ask wordB)) :=
  lookup1_lookup5_agree threeWords_sorted (by decide) (by simp) (Dictrec.ask_terminated _ _)

end LinuxProgramming.Dictionary
