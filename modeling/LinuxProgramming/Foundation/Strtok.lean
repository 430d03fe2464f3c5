import Mathlib.Data.List.TakeWhile

/-! Cutting a list into the maximal runs between delimiters, as `strtok` does.

`strtok` keeps the place behind the last token between its calls; here the place
is the part of the string that is left.
-/

set_option autoImplicit false

namespace LinuxProgramming.Foundation

variable {α : Type} {delim : α → Bool}

/-- The maximal runs without a delimiter, in order. -/
def runs (delim : α → Bool) (text : List α) : List (List α) :=
  (text.splitOnP delim).filter fun run => run ≠ []

/-- The next token, and what is left behind the delimiter that ends it. -/
def strtok (delim : α → Bool) (text : List α) : Option (List α × List α) :=
  match text.dropWhile delim with
  | [] => none
  | start => some (start.takeWhile fun c => !delim c, (start.dropWhile fun c => !delim c).tail)

theorem runs_nil : runs delim [] = [] := by simp [runs]

theorem runs_cons_delim {c : α} (skipped : delim c = true) (text : List α) :
    runs delim (c :: text) = runs delim text := by
  simp [runs, List.splitOnP_cons_eq_if_modifyHead, skipped]

/-- A delimiter at the end does not matter. -/
theorem runs_append_delim {c : α} (ended : delim c = true) (text : List α) :
    runs delim (text ++ [c]) = runs delim text := by
  rw [runs, List.splitOnP_append_cons _ _ ended, List.splitOnP_nil, List.filter_append, runs]
  simp

theorem runs_dropWhile (text : List α) : runs delim (text.dropWhile delim) = runs delim text := by
  induction text with
  | nil => rfl
  | cons c text ih =>
    by_cases skipped : delim c = true
    · rw [List.dropWhile_cons_of_pos skipped, ih, runs_cons_delim skipped]
    · rw [List.dropWhile_cons_of_neg skipped]

/-- The first run ends the list, or it ends at a delimiter. -/
theorem runs_word {word : List α} (filled : word ≠ []) (plain : ∀ c ∈ word, delim c = false) :
    runs delim word = [word] ∧ ∀ {c : α} (text : List α), delim c = true →
      runs delim (word ++ c :: text) = word :: runs delim text := by
  constructor
  · simp [runs, List.splitOnP_eq_singleton plain, filled]
  · intro c text ended
    simp [runs, List.splitOnP_append_cons_of_forall_mem plain c ended, filled]

theorem splitOnP_plain (text : List α) : ∀ run ∈ text.splitOnP delim, ∀ c ∈ run, delim c = false := by
  induction text with
  | nil => simp
  | cons first text ih =>
    rw [List.splitOnP_cons_eq_if_modifyHead]
    split
    next => simpa using ih
    next kept =>
      -- The first piece grows by a character that is no delimiter.
      cases pieces : text.splitOnP delim with
      | nil => exact absurd pieces (List.splitOnP_ne_nil _ _)
      | cons piece others =>
        rw [pieces] at ih
        simp only [List.forall_mem_cons] at ih
        simpa [kept] using ih

theorem runs_plain {text run : List α} (member : run ∈ runs delim text) :
    ∀ c ∈ run, delim c = false := splitOnP_plain text run (List.mem_filter.mp member).1

theorem runs_filled {text run : List α} (member : run ∈ runs delim text) : run ≠ [] := by
  simpa using (List.mem_filter.mp member).2

/-- There is no run where every character is a delimiter. -/
theorem runs_eq_nil_iff {text : List α} : runs delim text = [] ↔ ∀ c ∈ text, delim c = true := by
  constructor
  · intro none_left c member
    have pieces := List.filter_eq_nil_iff.mp none_left
    induction text with
    | nil => cases member
    | cons first text ih =>
      rw [List.splitOnP_cons_eq_if_modifyHead] at pieces
      split at pieces
      next skipped =>
        rw [runs_cons_delim skipped] at none_left
        rcases List.mem_cons.mp member with rfl | later
        · exact skipped
        · exact ih none_left later (by simpa using pieces)
      next kept =>
        cases others : text.splitOnP delim with
        | nil => exact absurd others (List.splitOnP_ne_nil _ _)
        | cons piece more => simp [others] at pieces
  · intro all
    induction text with
    | nil => exact runs_nil
    | cons first text ih =>
      rw [runs_cons_delim (all first List.mem_cons_self)]
      exact ih fun c later => all c (List.mem_cons_of_mem _ later)

/-- Words that are joined by a delimiter are the runs of the joined text. -/
theorem runs_intercalate {c : α} (ended : delim c = true) {words : List (List α)}
    (filled : ∀ word ∈ words, word ≠ []) (plain : ∀ word ∈ words, ∀ c ∈ word, delim c = false) :
    runs delim ([c].intercalate words) = words := by
  induction words with
  | nil => exact runs_nil
  | cons word words ih =>
    obtain ⟨last, more⟩ := runs_word (filled word List.mem_cons_self) (plain word List.mem_cons_self)
    cases words with
    | nil => simpa using last
    | cons following words =>
      have others := ih (fun word later => filled word (List.mem_cons_of_mem _ later))
        fun word later => plain word (List.mem_cons_of_mem _ later)
      rw [List.intercalate_cons_cons, List.append_assoc, List.singleton_append, more _ ended, others]

theorem strtok_spec (delim : α → Bool) (text : List α) : runs delim text =
    match strtok delim text with
    | none => []
    | some (token, rest) => token :: runs delim rest := by
  rw [← runs_dropWhile, strtok]
  cases start : text.dropWhile delim with
  | nil => exact runs_nil
  | cons first rest =>
    have head : delim first = false := by
      have stops := List.head?_dropWhile_not delim text
      rw [start] at stops
      simpa using stops
    have word : ∀ c ∈ (first :: rest).takeWhile (fun c => !delim c), delim c = false := by
      intro c member
      simpa using List.mem_takeWhile_imp member
    have filled : (first :: rest).takeWhile (fun c => !delim c) ≠ [] := by
      simp [head]
    obtain ⟨last, more⟩ := runs_word filled word
    calc runs delim (first :: rest)
      _ = runs delim ((first :: rest).takeWhile (fun c => !delim c) ++
            (first :: rest).dropWhile fun c => !delim c) := by
          rw [List.takeWhile_append_dropWhile]
      _ = (first :: rest).takeWhile (fun c => !delim c) ::
            runs delim ((first :: rest).dropWhile fun c => !delim c).tail := by
          cases behind : (first :: rest).dropWhile (fun c => !delim c) with
          | nil => rw [List.append_nil, last, List.tail_nil, runs_nil]
          | cons c after =>
            have ended : delim c = true := by
              have stops := List.head?_dropWhile_not (fun c => !delim c) (first :: rest)
              rw [behind] at stops
              simpa using stops
            rw [more after ended, List.tail_cons]

/-- A call that finds a token takes at least one character. -/
theorem strtok_shorter {text token rest : List α} (found : strtok delim text = some (token, rest)) :
    rest.length < text.length := by
  rw [strtok] at found
  have skipped := (List.dropWhile_suffix delim : text.dropWhile delim <:+ text).length_le
  cases start : text.dropWhile delim with
  | nil => simp [start] at found
  | cons first more =>
    simp only [start, Option.some.injEq, Prod.mk.injEq] at found skipped
    have taken := (List.dropWhile_suffix (fun c => !delim c) :
      (first :: more).dropWhile (fun c => !delim c) <:+ _).length_le
    rw [← found.2, List.length_tail]
    simp only [List.length_cons] at taken skipped
    omega

end LinuxProgramming.Foundation
