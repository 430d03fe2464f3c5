import Mathlib.Data.List.Basic
import Mathlib.Data.List.Count

/-! The lines of a text, and the last ones of them.

A line ends behind a stop, or at the end of the text. The last lines are a
suffix of the text: all of it, or what stands behind some stop.
-/

set_option autoImplicit false

namespace LinuxProgramming.Foundation

variable {α : Type} [DecidableEq α] {stop : α}

/-- The lines with the stops that end them. -/
def lines (stop : α) : List α → List (List α)
  | [] => []
  | c :: rest =>
    if c = stop then [c] :: lines stop rest
    else
      match lines stop rest with
      | [] => [[c]]
      | line :: others => (c :: line) :: others

def lastLines (stop : α) (n : Nat) (text : List α) : List α :=
  ((lines stop text).drop ((lines stop text).length - n)).flatten

theorem lines_flatten (text : List α) : (lines stop text).flatten = text := by
  induction text with
  | nil => rfl
  | cons c rest ih =>
    rw [lines]
    split
    next => rw [List.flatten_cons, ih, List.singleton_append]
    next =>
      cases others : lines stop rest with
      | nil =>
        rw [others] at ih
        simp [← ih]
      | cons line others =>
        rw [others, List.flatten_cons] at ih
        simp [← ih]

theorem lines_eq_nil_iff {text : List α} : lines stop text = [] ↔ text = [] := by
  constructor
  · intro none_left
    rw [← @lines_flatten α _ stop text, none_left]
    rfl
  · rintro rfl
    rfl

/-- No line is empty: it has its stop, or it is the last one. -/
theorem lines_ne_nil {text line : List α} (part : line ∈ lines stop text) : line ≠ [] := by
  induction text generalizing line with
  | nil => cases part
  | cons c rest ih =>
    rw [lines] at part
    split at part
    next =>
      rcases List.mem_cons.mp part with rfl | later
      · exact List.cons_ne_nil c []
      · exact ih later
    next =>
      cases others : lines stop rest with
      | nil =>
        rw [others] at part
        rw [List.mem_singleton.mp part]
        exact List.cons_ne_nil c []
      | cons first others =>
        rw [others] at part ih
        rcases List.mem_cons.mp part with rfl | later
        · exact List.cons_ne_nil c first
        · exact ih (List.mem_cons_of_mem first later)

/-- A last line without a stop. -/
theorem lines_last {text : List α} (filled : text ≠ []) (single : stop ∉ text) :
    lines stop text = [text] := by
  induction text with
  | nil => contradiction
  | cons c rest ih =>
    simp only [List.mem_cons, not_or] at single
    rw [lines, if_neg (Ne.symm single.1)]
    cases rest with
    | nil => rfl
    | cons d rest => rw [ih (List.cons_ne_nil d rest) single.2]

theorem lines_stopped {text : List α} (single : stop ∉ text) (rest : List α) :
    lines stop (text ++ stop :: rest) = (text ++ [stop]) :: lines stop rest := by
  induction text with
  | nil => simp [lines]
  | cons c text ih =>
    simp only [List.mem_cons, not_or] at single
    rw [List.cons_append, lines, if_neg (Ne.symm single.1), ih single.2]
    rfl

/-- The lines behind a stop are those of the rest. -/
theorem lines_append_stop (front rest : List α) :
    lines stop (front ++ stop :: rest) = lines stop (front ++ [stop]) ++ lines stop rest := by
  induction front with
  | nil => simp [lines]
  | cons c front ih =>
    rw [List.cons_append, List.cons_append, lines, lines, ih]
    split
    next => rfl
    next =>
      cases first : lines stop (front ++ [stop]) with
      | nil => simp [lines_eq_nil_iff] at first
      | cons line others => rfl

/-- Each stop ends a line; one more ends with the text. -/
theorem length_lines (text : List α) :
    (lines stop text).length =
      text.count stop + if text = [] ∨ text.getLast? = some stop then 0 else 1 := by
  induction text with
  | nil => rfl
  | cons c rest ih =>
    rw [lines]
    split
    next ended =>
      rw [List.length_cons, ih, ended, List.count_cons_self]
      cases rest with
      | nil => simp
      | cons d rest =>
        simp only [List.getLast?_cons_cons, reduceCtorEq, false_or]
        omega
    next open_line =>
      rw [List.count_cons_of_ne open_line]
      cases rest with
      | nil => simp [lines, open_line]
      | cons d rest =>
        cases others : lines stop (d :: rest) with
        | nil => simp [lines_eq_nil_iff] at others
        | cons line others =>
          rw [others] at ih
          simpa using ih

theorem lastLines_of_few {n : Nat} {text : List α} (few : (lines stop text).length ≤ n) :
    lastLines stop n text = text := by
  rw [lastLines, Nat.sub_eq_zero_of_le few, List.drop_zero, lines_flatten]

theorem lastLines_behind {n : Nat} {front rest : List α} (lines_behind : (lines stop rest).length = n) :
    lastLines stop n (front ++ stop :: rest) = rest := by
  rw [lastLines, lines_append_stop, List.length_append, lines_behind, Nat.add_sub_cancel,
    List.drop_left, lines_flatten]

/-- The last lines are the whole text, or stand behind a stop of it. -/
theorem lastLines_cases {n : Nat} (positive : 0 < n) (text : List α) :
    (lines stop text).length ≤ n ∧ lastLines stop n text = text ∨
      ∃ front, text = front ++ stop :: lastLines stop n text ∧
        (lines stop (lastLines stop n text)).length = n := by
  have split_or_few : (lines stop text).length ≤ n ∨
      ∃ front rest, text = front ++ stop :: rest ∧ (lines stop rest).length = n := by
    induction text with
    | nil => exact .inl (Nat.zero_le _)
    | cons c rest ih =>
      rcases ih with few | ⟨front, last, same, counted⟩
      · by_cases ended : c = stop
        · rcases Nat.lt_or_eq_of_le few with fewer | exactly
          · left
            rw [lines, if_pos ended, List.length_cons]
            omega
          · exact .inr ⟨[], rest, by rw [ended]; rfl, exactly⟩
        · left
          rw [lines, if_neg ended]
          cases others : lines stop rest with
          | nil => exact positive
          | cons line others =>
            rw [others] at few
            exact few
      · exact .inr ⟨c :: front, last, by rw [same]; rfl, counted⟩
  rcases split_or_few with few | ⟨front, rest, rfl, counted⟩
  · exact .inl ⟨few, lastLines_of_few few⟩
  · rw [lastLines_behind counted]
    exact .inr ⟨front, rfl, counted⟩

end LinuxProgramming.Foundation
