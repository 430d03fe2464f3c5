import LinuxProgramming.Dictionary.Record
import LinuxProgramming.Foundation.BinarySearch

/-! The lookup that maps the file and searches it with `bsearch`. -/

set_option autoImplicit false

namespace LinuxProgramming.Dictionary
open Foundation

/-- Compares a word with the word part of a record. -/
def dict_cmp (word : List Byte) (dr : Dictrec) : Ordering := strcmp word dr.word.text

/-- The first call maps the file, and an empty file cannot be mapped; `static` is
the table of an earlier call. -/
def mapOnce (bytes : List Byte) (static : Option (List Dictrec)) : Option (List Dictrec) :=
  match static with
  | some mapped => some mapped
  | none => if bytes = [] then none else some (table bytes)

/-- The table that is kept for the next call, the code, and the caller's record. -/
def lookup5 (bytes : List Byte) (static : Option (List Dictrec)) (sought : Dictrec) :
    Option (List Dictrec × Code × Dictrec) := do
  let mapped ← mapOnce bytes static
  let word ← sought.word.string
  match bsearch (dict_cmp word) mapped with
  | some dr =>
    let held ← dr.text.string
    let text ← sought.text.strcpy held
    some (mapped, .found, { sought with text := text })
  | none => some (mapped, .notfound, sought)

/-- A dictionary that `bsearch` can be used on. -/
structure Sorted (records : List Dictrec) : Prop where
  wellFormed : ∀ dr ∈ records, dr.WellFormed
  increasing : records.Pairwise fun earlier later =>
    strcmp earlier.word.text later.word.text = .lt

/-- The server's table, before or after its first lookup. -/
def Maps (static : Option (List Dictrec)) (records : List Dictrec) : Prop :=
  ∀ mapped, static = some mapped → mapped = records

theorem Sorted.ordered {records : List Dictrec} (sorted : Sorted records) (word : List Byte) :
    Ordered (dict_cmp word) records := by
  apply sorted.increasing.imp
  intro earlier later below reached
  apply strcmp_gt_iff.mpr
  cases against : strcmp word later.word.text with
  | lt => exact absurd against reached
  | eq => rw [strcmp_eq_iff.mp against]; exact below
  | gt => exact strcmp_trans below (strcmp_gt_iff.mp against)

theorem Sorted.search {records : List Dictrec} (sorted : Sorted records) (word : List Byte) :
    bsearch (dict_cmp word) records = entry records word := by
  rw [bsearch_eq_find? (sorted.ordered word), entry]
  congr 1
  funext dr
  simp only [dict_cmp, strcmp_eq_iff, decide_eq_decide]
  exact eq_comm

/-- No two records hold the same word. -/
theorem Sorted.entry_of_mem {records : List Dictrec} (sorted : Sorted records) {dr : Dictrec}
    (member : dr ∈ records) : entry records dr.word.text = some dr := by
  obtain ⟨-, increasing⟩ := sorted
  induction records with
  | nil => cases member
  | cons first records ih =>
    obtain ⟨least, increasing⟩ := List.pairwise_cons.mp increasing
    rcases List.mem_cons.mp member with rfl | later
    · simp [entry]
    · have different : first.word.text ≠ dr.word.text := by
        intro same
        have below := least dr later
        rw [same, strcmp_self] at below
        cases below
      have found := ih later increasing
      simpa [entry, different] using found

theorem mapOnce_file {records : List Dictrec} {static : Option (List Dictrec)}
    (maps : Maps static records) :
    mapOnce (file records) static = if static = none ∧ records = [] then none else some records := by
  cases static with
  | some mapped =>
    rw [maps mapped rfl]
    simp [mapOnce]
  | none =>
    have empty : file records = [] ↔ records = [] := by
      rw [← List.length_eq_zero_iff, file_length, ← List.length_eq_zero_iff]
      exact Nat.mul_eq_zero.trans (or_iff_right (by decide))
    simp [mapOnce, table_of_file, empty]

/-- What a found record makes of the caller's record. -/
def fill (sought dr : Dictrec) : Dictrec :=
  { sought with text := sought.text.overwrite (dr.text.text ++ [NUL]) }

@[simp] theorem fill_word (sought dr : Dictrec) : (fill sought dr).word = sought.word := rfl

theorem fill_text (sought : Dictrec) {dr : Dictrec} (terminated : dr.text.Terminated) :
    (fill sought dr).text.text = dr.text.text :=
  Buffer.text_overwrite dr.text.plain_text (Buffer.text_length terminated)

theorem fill_terminated (sought : Dictrec) {dr : Dictrec} (terminated : dr.text.Terminated) :
    (fill sought dr).text.Terminated :=
  Buffer.terminated_overwrite (Buffer.text_length terminated)

/-- What a lookup in the table makes of the caller's record, for any table at all. -/
def lookedUp (mapped : List Dictrec) (word : List Byte) (sought : Dictrec) :
    Option (Code × Dictrec) :=
  match bsearch (dict_cmp word) mapped with
  | some dr => if dr.text.Terminated then some (.found, fill sought dr) else none
  | none => some (.notfound, sought)

theorem lookup5_eq (bytes : List Byte) (static : Option (List Dictrec)) {sought : Dictrec}
    (terminated : sought.word.Terminated) :
    lookup5 bytes static sought =
      (mapOnce bytes static).bind fun mapped =>
        (lookedUp mapped sought.word.text sought).map fun result => (mapped, result) := by
  cases kept : mapOnce bytes static with
  | none => simp [lookup5, kept]
  | some mapped =>
    simp only [lookup5, kept, Option.bind_eq_bind, Option.bind_some,
      Buffer.string_of_terminated terminated, lookedUp]
    cases bsearch (dict_cmp sought.word.text) mapped with
    | none => rfl
    | some dr =>
      by_cases whole : dr.text.Terminated
      · simp [Buffer.string, whole, Buffer.strcpy_fits _ (Buffer.text_length whole), fill]
      · simp [Buffer.string, whole]

/-- A lookup that does not die finds the entry of the word. -/
theorem lookup5_file {records : List Dictrec} (sorted : Sorted records)
    {static : Option (List Dictrec)} (maps : Maps static records) {sought : Dictrec}
    (terminated : sought.word.Terminated) :
    lookup5 (file records) static sought =
      if static = none ∧ records = [] then none
      else
        match entry records sought.word.text with
        | some dr => some (records, .found, fill sought dr)
        | none => some (records, .notfound, sought) := by
  rw [lookup5_eq _ _ terminated, mapOnce_file maps]
  split
  next => rfl
  next =>
    simp only [Option.bind_some, lookedUp, sorted.search]
    cases found : entry records sought.word.text with
    | none => rfl
    | some dr =>
      have whole := (sorted.wellFormed dr (mem_of_entry found).1).text
      simp [whole]

end LinuxProgramming.Dictionary
