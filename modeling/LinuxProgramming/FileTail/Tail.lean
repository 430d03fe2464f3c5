import LinuxProgramming.Foundation.CString
import LinuxProgramming.Foundation.Lines

/-! The last lines of a file.

The program reads once, so it knows the start of the file only. It then looks
backwards for the start of a line with one newline less behind it than lines were
asked for; a newline is never taken for the start of a line.
-/

set_option autoImplicit false

namespace LinuxProgramming.FileTail
open Foundation

/-- The number of bytes that are read. -/
def READ : Nat := 1024

/-- The loop from the end of the buffer to its start; the first number is that of
the bytes that are still to be looked at, and `lines` counts the newlines so far. -/
def search (numLines : Int) (buf : List Byte) : Nat → Nat → Option Nat
  | 0, _ => none
  | i + 1, lines =>
    if buf[i]? = some newline then search numLines buf i (lines + 1)
    else if 0 < i ∧ (lines : Int) = numLines - 1 ∧ buf[i - 1]? = some newline then some i
    else search numLines buf i lines

/-- What is written. -/
def tail (numLines : Int) (content : List Byte) : List Byte :=
  let buf := content.take READ
  let cur := (search numLines buf buf.length 0).getD 0
  buf.drop cur

/-- What stands behind the n-th newline from the end, if a line that is not empty starts there. -/
def Cut (n : Nat) (buf rest : List Byte) : Prop :=
  ∃ front, buf = front ++ newline :: rest ∧ rest ≠ [] ∧ rest.head? ≠ some newline ∧
    rest.count newline + 1 = n

/-- An index where the loop stops. -/
structure Stop (n : Nat) (buf : List Byte) (i : Nat) : Prop where
  positive : 0 < i
  inside : i < buf.length
  here : buf[i]? ≠ some newline
  before : buf[i - 1]? = some newline
  counted : (buf.drop i).count newline + 1 = n

/-- What a search among the first indices comes to. -/
def Found (n : Nat) (buf : List Byte) (left : Nat) : Option Nat → Prop
  | some i => Stop n buf i
  | none => ∀ i < left, ¬Stop n buf i

variable {n : Nat} {buf : List Byte}

theorem Found.succ {left : Nat} {result : Option Nat} (found : Found n buf left result)
    (not_here : ¬Stop n buf left) : Found n buf (left + 1) result := by
  cases result with
  | some i => exact found
  | none =>
    intro i below
    rcases Nat.lt_succ_iff_lt_or_eq.mp below with earlier | rfl
    · exact found i earlier
    · exact not_here

/-- The loop finds an index where it can stop; its count of newlines is that of
the bytes it has passed. -/
theorem search_found {left lines : Nat} (bound : left ≤ buf.length)
    (passed : lines = (buf.drop left).count newline) :
    Found n buf left (search n buf left lines) := by
  induction left generalizing lines with
  | zero => exact fun i below => absurd below (Nat.not_lt_zero i)
  | succ i ih =>
    have inside : i < buf.length := bound
    have here : buf[i]? = some buf[i] := List.getElem?_eq_getElem inside
    have drop : buf.drop i = buf[i] :: buf.drop (i + 1) := List.drop_eq_getElem_cons inside
    rw [search]
    split_ifs with ended start
    · have counted : lines + 1 = (buf.drop i).count newline := by
        rw [here, Option.some.injEq] at ended
        rw [drop, ended, List.count_cons_self, passed]
      exact (ih (Nat.le_of_lt inside) counted).succ fun stop => stop.here ended
    all_goals
      have counted : lines = (buf.drop i).count newline := by
        rw [here, Option.some.injEq] at ended
        rw [drop, List.count_cons_of_ne ended, passed]
    · obtain ⟨positive, enough, before⟩ := start
      exact ⟨positive, inside, ended, before, by omega⟩
    · refine (ih (Nat.le_of_lt inside) counted).succ fun stop => start ⟨stop.positive, ?_, stop.before⟩
      have enough := stop.counted
      omega

/-- An index where the loop stops is a place to cut the buffer. -/
theorem Stop.cut {i : Nat} (stop : Stop n buf i) : Cut n buf (buf.drop i) := by
  obtain ⟨positive, inside, here, before, counted⟩ := stop
  obtain ⟨i, rfl⟩ := Nat.exists_eq_add_of_lt positive
  simp only [Nat.zero_add, Nat.add_sub_cancel] at inside here before counted ⊢
  obtain ⟨bound, same⟩ := List.getElem?_eq_some_iff.mp before
  refine ⟨buf.take i, ?_, ?_, ?_, counted⟩
  · have tail : newline :: buf.drop (i + 1) = buf.drop i := by
      rw [List.drop_eq_getElem_cons bound]
      congr 1
      exact same.symm
    rw [tail, List.take_append_drop]
  · simpa using inside
  · rwa [List.head?_drop]

theorem Cut.stop {rest : List Byte} (cut : Cut n buf rest) :
    ∃ i, Stop n buf i ∧ rest = buf.drop i := by
  obtain ⟨front, rfl, filled, head, counted⟩ := cut
  have behind : (front ++ newline :: rest).drop (front.length + 1) = rest := by simp
  refine ⟨front.length + 1, ⟨Nat.succ_pos _, ?_, ?_, ?_, by rw [behind, counted]⟩, behind.symm⟩
  · have := List.length_pos_iff.mpr filled
    simp only [List.length_append, List.length_cons]
    omega
  · rwa [← List.head?_drop, behind]
  · simp

/-- There is one place to cut at most, as each newline in front changes the count. -/
theorem Cut.unique {rest other : List Byte} (cut : Cut n buf rest) (another : Cut n buf other) :
    rest = other := by
  obtain ⟨front, rfl, -, -, counted⟩ := cut
  obtain ⟨before, same, -, -, number⟩ := another
  have fewer : ∀ {first second middle : List Byte}, first = middle ++ newline :: second →
      first.count newline ≠ second.count newline := by
    rintro first second middle rfl
    rw [List.count_append, List.count_cons_self]
    omega
  rcases List.append_eq_append_iff.mp same with ⟨middle, -, behind⟩ | ⟨middle, -, behind⟩
  · cases middle with
    | nil => exact (List.cons.inj behind).2
    | cons c middle =>
      exact absurd (by omega) (fewer (List.cons.inj behind).2)
  · cases middle with
    | nil => exact (List.cons.inj behind).2.symm
    | cons c middle =>
      exact absurd (by omega) (fewer (List.cons.inj behind).2)

/-- What is written begins at the cut, or with the file. -/
theorem tail_cases (n : Nat) (content : List Byte) :
    Cut n (content.take READ) (tail n content) ∨
      (∀ rest, ¬Cut n (content.take READ) rest) ∧ tail n content = content.take READ := by
  have found := search_found (n := n) (Nat.le_refl (content.take READ).length)
    (show 0 = _ by rw [List.drop_length, List.count_nil])
  simp only [tail]
  cases stopped : search n (content.take READ) (content.take READ).length 0 with
  | some i =>
    rw [stopped] at found
    exact .inl (Stop.cut found)
  | none =>
    rw [stopped] at found
    refine .inr ⟨fun rest cut => ?_, by rw [Option.getD_none, List.drop_zero]⟩
    obtain ⟨i, stop, -⟩ := cut.stop
    exact found i stop.inside stop

/-- The lines that were asked for are shown: the bytes that are read are just these
lines, or they end in them behind a newline. In the first case lines that end in a newline
must not be cut, in the second one there must be a line that can be found. -/
def Shown (n : Nat) (content : List Byte) : Prop :=
  let last := lastLines newline n content
  let seen := content.take READ
  last = seen ∧ (seen.getLast? = some newline →
      seen.count newline < n ∨ n = 1 ∨ (lines newline seen)[1]? = some [newline]) ∨
    newline :: last <:+ seen ∧ last.head? ≠ some newline ∧ last.getLast? ≠ some newline

instance (n : Nat) (content : List Byte) : Decidable (Shown n content) :=
  inferInstanceAs (Decidable (_ ∨ _))

theorem count_of_closed {text : List Byte} (closed : text = [] ∨ text.getLast? = some newline) :
    (lines newline text).length = text.count newline := by
  rw [length_lines, if_pos closed, Nat.add_zero]

theorem count_of_open {text : List Byte} (filled : text ≠ [])
    (opened : text.getLast? ≠ some newline) :
    (lines newline text).length = text.count newline + 1 := by
  rw [length_lines, if_neg (by simp [filled, opened])]

/-- The line behind the first newline. -/
theorem second_line {front : List Byte} (single : newline ∉ front) (rest : List Byte) :
    (lines newline (front ++ newline :: rest))[1]? = (lines newline rest)[0]? := by
  have first : (lines newline (front ++ [newline])).length = 1 := by
    rw [count_of_closed (by simp), List.count_append, List.count_eq_zero_of_not_mem single]
    simp
  rw [lines_append_stop, List.getElem?_append_right (by omega), first]

theorem head_of_empty_line {rest : List Byte} :
    (lines newline rest)[0]? = some [newline] ↔ rest.head? = some newline := by
  cases rest with
  | nil => simp [lines]
  | cons c rest =>
    rw [lines]
    split
    next ended => simp [ended]
    next other => cases lines newline rest <;> simp [other]

/-- Few lines are cut where the second one begins, if at all. -/
theorem not_cut (few : (lines newline buf).length ≤ n)
    (ends : buf.getLast? = some newline →
      buf.count newline < n ∨ n = 1 ∨ (lines newline buf)[1]? = some [newline]) (rest : List Byte) :
    ¬Cut n buf rest := by
  rintro ⟨front, rfl, filled, head, counted⟩
  have total : (front ++ newline :: rest).count newline = front.count newline + n := by
    rw [List.count_append, List.count_cons_self, counted]
  by_cases ended : (front ++ newline :: rest).getLast? = some newline
  · rw [count_of_closed (.inr ended), total] at few
    have single : newline ∉ front := List.count_eq_zero.mp (by omega)
    rcases ends ended with fewer | one | empty
    · omega
    · -- The only line would have no newline behind it.
      have last : rest.getLast? = some newline := by
        rw [List.getLast?_append, List.getLast?_cons_of_ne_nil filled] at ended
        cases behind : rest.getLast? with
        | none => exact absurd (List.getLast?_eq_none_iff.mp behind) filled
        | some c => rwa [behind, Option.some_or] at ended
      have present := List.count_pos_iff.mpr (List.mem_of_getLast? last)
      omega
    · rw [second_line single] at empty
      exact head (head_of_empty_line.mp empty)
  · rw [count_of_open (by simp) ended, total] at few
    omega

theorem ends_of_not_cut (few : (lines newline buf).length ≤ n)
    (whole : ∀ rest, ¬Cut n buf rest) (ended : buf.getLast? = some newline) :
    buf.count newline < n ∨ n = 1 ∨ (lines newline buf)[1]? = some [newline] := by
  rw [count_of_closed (.inr ended)] at few
  by_contra others
  simp only [not_or] at others
  obtain ⟨front, rest, rfl, single⟩ := List.eq_append_cons_of_mem (List.mem_of_getLast? ended)
  have counted : rest.count newline + 1 = n := by
    rw [List.count_append, List.count_cons_self, List.count_eq_zero_of_not_mem single] at few others
    omega
  have filled : rest ≠ [] := by
    rintro rfl
    rw [List.count_nil] at counted
    omega
  refine whole rest ⟨front, rfl, filled, fun head => others.2.2 ?_, counted⟩
  rw [second_line single, head_of_empty_line, head]

/-- The lines that were asked for are written exactly when they are shown in what
the program has read. -/
theorem tail_last_iff (positive : 0 < n) (content : List Byte) :
    tail n content = lastLines newline n content ↔ Shown n content := by
  have cases_last := @lastLines_cases Byte _ newline n positive content
  rw [Shown]
  generalize lastLines newline n content = last at cases_last ⊢
  have few : (lines newline last).length ≤ n := by
    rcases cases_last with ⟨few, rfl⟩ | ⟨front, -, counted⟩
    · exact few
    · omega
  -- A proper part of what was read is not the whole file.
  have proper : newline :: last <:+ content.take READ → (lines newline last).length = n := by
    intro part
    rcases cases_last with ⟨-, rfl⟩ | ⟨front, -, counted⟩
    · have shorter := part.length_le
      rw [List.length_cons, List.length_take] at shorter
      omega
    · exact counted
  constructor
  · intro same
    rcases tail_cases n content with cut | ⟨whole, all⟩
    · rw [same] at cut
      obtain ⟨front, behind, filled, head, counted⟩ := cut
      have part : newline :: last <:+ content.take READ := ⟨front, behind.symm⟩
      refine .inr ⟨part, head, fun ended => ?_⟩
      have closed := count_of_closed (.inr ended)
      rw [proper part] at closed
      omega
    · rw [same] at all
      subst all
      exact .inl ⟨rfl, ends_of_not_cut few whole⟩
  · rintro (⟨rfl, ends⟩ | ⟨part, head, opened⟩)
    · rcases tail_cases n content with cut | ⟨-, all⟩
      · exact absurd cut (not_cut few ends _)
      · exact all
    · have counted := proper part
      have filled : last ≠ [] := by
        rintro rfl
        rw [lines, List.length_nil] at counted
        omega
      rw [count_of_open filled opened] at counted
      obtain ⟨front, behind⟩ := part
      have cut : Cut n (content.take READ) last := ⟨front, behind.symm, filled, head, counted⟩
      rcases tail_cases n content with found | ⟨whole, -⟩
      · exact found.unique cut
      · exact absurd cut (whole last)

/-- Two of three lines, with no newline at the end. -/
theorem tail_last_two :
    tail 2 ['a'.toUInt8, newline, 'b'.toUInt8, newline, 'c'.toUInt8] =
      lastLines newline 2 ['a'.toUInt8, newline, 'b'.toUInt8, newline, 'c'.toUInt8] ↔
    Shown 2 ['a'.toUInt8, newline, 'b'.toUInt8, newline, 'c'.toUInt8] :=
  tail_last_iff (by decide) _

/-- Both lines are written where the last one is asked for. -/
theorem tail_last_too_many :
    ¬ ∀ (n : Nat) (content : List Byte), 0 < n → tail n content = lastLines newline n content := by
  intro always
  have same := always 1 ['a'.toUInt8, newline, 'b'.toUInt8, newline] (by decide)
  exact absurd same (by decide)

end LinuxProgramming.FileTail
