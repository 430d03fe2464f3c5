import LinuxProgramming.Dictionary.Record
import LinuxProgramming.Foundation.Lines
import LinuxProgramming.Foundation.Stdio

/-! The client that asks for one word after the other.

All versions of the dictionary share this `main`. It takes the last character of
what `fgets` has stored for the newline, whatever character it is.
-/

set_option autoImplicit false

namespace LinuxProgramming.Dictionary
open Foundation

/-- `word[strlen(word) - 1] = '\0'` -/
def chop (word : Buffer WORD) : Option (Buffer WORD) :=
  match word.string with
  | none => none
  | some text =>
    -- In front of an empty string is the byte before the array.
    if text.length = 0 then none else some (word.store (text.length - 1) NUL)

/-- What a lookup leaves in the record and returns, by the number of the call; some
lookups end the process. -/
abbrev Lookups := Nat → Option (Code × Dictrec)

/-- The words that are looked up for the lines of `fgets`; UNAVAIL ends the client. -/
def client (lookup : Lookups) : List (List Byte) → Nat → Dictrec → Option (List (List Byte))
  | [], _, _ => some []
  | line :: lines, count, tryit => do
    let word ← chop (tryit.word.overwrite (line ++ [NUL]))
    let sought ← word.string
    match lookup count with
    | some (.found, tryit) | some (.notfound, tryit) =>
      let later ← client lookup lines (count + 1) tryit
      some (sought :: later)
    | some (.unavail, _) | none => some [sought]

def clientMain (lookup : Lookups) (tryit : Dictrec) (stdin : List Byte) :
    Option (List (List Byte)) :=
  client lookup (fgetsAll WORD stdin) 0 tryit

/-! The purpose: each line is a word. -/

/-- The lines that were typed, without their newlines and as far as the field holds them. -/
def typed (stdin : List Byte) : List (List Byte) :=
  (lines newline stdin).map fun line => (line.takeWhile (· ≠ newline)).take (WORD - 1)

/-- The client goes on after a call. -/
def goesOn (lookup : Lookups) (count : Nat) : Bool :=
  match lookup count with
  | some (code, _) => code ≠ .unavail
  | none => false

/-- The words up to the first after which the client ends. -/
def upToEnd (lookup : Lookups) : Nat → List (List Byte) → List (List Byte)
  | _, [] => []
  | count, word :: words =>
    if goesOn lookup count then word :: upToEnd lookup (count + 1) words else [word]

/-- One lookup for each line, whatever the lookups return. -/
def AsksTyped (stdin : List Byte) : Prop :=
  ∀ lookup tryit, clientMain lookup tryit stdin = some (upToEnd lookup 0 (typed stdin))

/-- A line with its newline that the field has room for. -/
def TypedLine (line : List Byte) : Prop :=
  ∃ text, line = text ++ [newline] ∧ NUL ∉ text ∧ text.length + 1 < WORD

/-- The word that is made of what `fgets` has stored. -/
def chopped (line : List Byte) : Option (List Byte) :=
  if cstr line = [] then none else some (cstr line).dropLast

theorem chop_string (word : Buffer WORD) {line : List Byte} (fits : line.length < WORD) :
    (chop (word.overwrite (line ++ [NUL]))).bind Buffer.string = chopped line := by
  have terminated := @Buffer.terminated_overwrite _ word _ fits
  have text := @Buffer.text_overwrite_cstr _ word _ fits
  have inside := Buffer.text_length terminated
  rw [chop, Buffer.string_of_terminated terminated, chopped]
  simp only [List.length_eq_zero_iff, text]
  split
  next => rfl
  next =>
    rw [text] at inside
    have last : (cstr line).length - 1 < WORD := by omega
    have stored : ((word.overwrite (line ++ [NUL])).store ((cstr line).length - 1) NUL).Terminated :=
      List.mem_set (by rw [Buffer.length_eq]; exact last) NUL
    rw [Option.bind_some, Buffer.string_of_terminated stored, Buffer.text_store_NUL last, text,
      List.dropLast_eq_take]

/-- A character is always lost, so the line is never the word. -/
theorem chopped_shorter {line word : List Byte} (asked : chopped line = some word) :
    word.length < line.length := by
  have part := (List.takeWhile_prefix (· != NUL) (l := line)).length_le
  rw [chopped] at asked
  split at asked
  next => cases asked
  next filled =>
    cases asked
    have some_char := List.length_pos_iff.mpr filled
    rw [List.length_dropLast]
    simp only [cstr] at some_char part ⊢
    omega

theorem chopped_line {text : List Byte} (plain : NUL ∉ text) :
    chopped (text ++ [newline]) = some text := by
  have whole : cstr (text ++ [newline]) = text ++ [newline] := by
    apply cstr_eq_self
    simpa using ⟨plain, by decide⟩
  rw [chopped, whole, if_neg (by simp), List.dropLast_concat]

theorem chopped_NUL {text : List Byte} (cut : NUL ∈ text) :
    chopped (text ++ [newline]) ≠ some text := by
  intro asked
  obtain ⟨front, rest, rfl⟩ := List.append_of_mem cut
  have short : cstr (front ++ NUL :: rest ++ [newline]) = cstr front := by
    rw [List.append_assoc, List.cons_append, cstr_append_NUL_cons]
  have part := (List.takeWhile_prefix (· != NUL) (l := front)).length_le
  rw [chopped, short] at asked
  split at asked
  next => cases asked
  next =>
    have sizes := congrArg List.length (Option.some.inj asked)
    simp only [List.length_dropLast, List.length_append, List.length_cons, cstr] at sizes part
    omega

/-- The loop looks up what is left of each line. -/
theorem client_spec (lookup : Lookups) {lines words : List (List Byte)}
    (fits : ∀ line ∈ lines, line.length < WORD) (asked : lines.mapM chopped = some words)
    (count : Nat) (tryit : Dictrec) :
    client lookup lines count tryit = some (upToEnd lookup count words) := by
  induction lines generalizing words count tryit with
  | nil =>
    cases asked
    rfl
  | cons line lines ih =>
    rw [List.mapM_cons] at asked
    obtain ⟨word, chop_line, others⟩ := Option.bind_eq_some_iff.mp asked
    obtain ⟨later, rest, same⟩ := Option.bind_eq_some_iff.mp others
    cases same
    have later_fits := fun line member => fits line (List.mem_cons_of_mem _ member)
    have first := chop_string tryit.word (fits line List.mem_cons_self)
    rw [chop_line] at first
    obtain ⟨stored, chopped_word, text⟩ := Option.bind_eq_some_iff.mp first
    rw [client, chopped_word, upToEnd, goesOn]
    simp only [Option.bind_eq_bind, Option.bind_some, text]
    cases lookup count with
    | none => rfl
    | some result =>
      obtain ⟨code, tryit⟩ := result
      cases code with
      | found | notfound => simp [ih later_fits rest (count + 1) tryit]
      | unavail => rfl

/-- Where every lookup returns, the words are what is left of all lines. -/
theorem client_always {lines : List (List Byte)} (fits : ∀ line ∈ lines, line.length < WORD)
    (count : Nat) (tryit : Dictrec) :
    client (fun _ => some (.notfound, tryit)) lines count tryit = lines.mapM chopped := by
  induction lines generalizing count with
  | nil => rfl
  | cons line lines ih =>
    have first := chop_string tryit.word (fits line List.mem_cons_self)
    have later := ih (fun line member => fits line (List.mem_cons_of_mem _ member)) (count + 1)
    rw [client, List.mapM_cons, ← first]
    cases chop (tryit.word.overwrite (line ++ [NUL])) with
    | none => rfl
    | some stored => simp [later]

theorem upToEnd_always (tryit : Dictrec) (count : Nat) (words : List (List Byte)) :
    upToEnd (fun _ => some (.notfound, tryit)) count words = words := by
  induction words generalizing count with
  | nil => rfl
  | cons word words ih => simp [upToEnd, goesOn, ih]

theorem asksTyped_iff (stdin : List Byte) :
    AsksTyped stdin ↔ (fgetsAll WORD stdin).mapM chopped = some (typed stdin) := by
  have fits : ∀ line ∈ fgetsAll WORD stdin, line.length < WORD :=
    fun line member => fgetsAll_length_lt (by decide) member
  constructor
  · intro always
    have asked := always (fun _ => some (.notfound, Dictrec.zero)) Dictrec.zero
    rw [clientMain, client_always fits, upToEnd_always] at asked
    exact asked
  · intro asked lookup tryit
    exact client_spec lookup fits asked 0 tryit

theorem mapM_chopped_cons {first word : List Byte} {pieces words : List (List Byte)} :
    (first :: pieces).mapM chopped = some (word :: words) ↔
      chopped first = some word ∧ pieces.mapM chopped = some words := by
  rw [List.mapM_cons]
  cases chopped first with
  | none => simp
  | some asked => cases pieces.mapM chopped <;> simp

theorem typedLine_iff (text : List Byte) :
    TypedLine (text ++ [newline]) ↔ NUL ∉ text ∧ text.length + 1 < WORD := by
  constructor
  · rintro ⟨other, same, typed_text⟩
    rwa [List.append_cancel_right same]
  · exact fun typed_text => ⟨text, rfl, typed_text⟩

theorem typed_stopped {text : List Byte} (single : newline ∉ text) (rest : List Byte) :
    typed (text ++ newline :: rest) = text.take (WORD - 1) :: typed rest := by
  have before : ∀ c ∈ text, decide (c ≠ newline) = true := by
    intro c member
    simpa using ne_of_mem_of_not_mem member single
  rw [typed, lines_stopped single, List.map_cons, List.takeWhile_append_of_pos before]
  simp [typed]

theorem typed_last {text : List Byte} (filled : text ≠ []) (single : newline ∉ text) :
    typed text = [text.take (WORD - 1)] := by
  have whole : text.takeWhile (· ≠ newline) = text := by
    refine List.takeWhile_eq_self_iff.mpr fun c member => ?_
    simpa using ne_of_mem_of_not_mem member single
  rw [typed, lines_last filled single, List.map_singleton, whole]

/-- What is asked first for a line that is not read with its newline. -/
theorem part_not_asked {line after : List Byte} (single : newline ∉ line)
    (filled : line ++ after ≠ []) (ends : after = [] ∨ WORD - 1 ≤ line.length)
    (words : List (List Byte)) :
    (fgetsAll WORD (line ++ after)).mapM chopped ≠ some (line.take (WORD - 1) :: words) := by
  intro asked
  rw [fgetsAll_part (by decide) single filled ends, mapM_chopped_cons] at asked
  exact Nat.lt_irrefl _ (chopped_shorter asked.1)

/-- The words are the lines exactly if each line has its newline and fits. -/
theorem asksTyped_iff_lines (stdin : List Byte) :
    AsksTyped stdin ↔ ∀ line ∈ lines newline stdin, TypedLine line := by
  rw [asksTyped_iff]
  induction length : stdin.length using Nat.strong_induction_on generalizing stdin with
  | h count ih =>
    by_cases stopped : newline ∈ stdin
    · obtain ⟨text, rest, rfl, single⟩ := List.eq_append_cons_of_mem stopped
      have shorter : rest.length < count := by
        rw [← length, List.length_append, List.length_cons]
        omega
      rw [typed_stopped single, lines_stopped single, List.forall_mem_cons, typedLine_iff]
      by_cases fits : text.length + 1 < WORD
      · have whole : text.take (WORD - 1) = text := List.take_of_length_le (by omega)
        rw [fgetsAll_line single fits, mapM_chopped_cons, whole, ih rest.length shorter rest rfl]
        refine and_congr_left fun _ => ⟨fun asked => ⟨fun cut => chopped_NUL cut asked, fits⟩, ?_⟩
        exact fun plain => chopped_line plain.1
      · refine iff_of_false ?_ fun all => fits all.1.2
        exact part_not_asked single (by simp) (.inr (by omega)) (typed rest)
    · cases stdin with
      | nil => exact iff_of_true rfl fun line member => by cases member
      | cons c rest =>
        have filled := List.cons_ne_nil c rest
        rw [typed_last filled stopped, lines_last filled stopped]
        refine iff_of_false (fun asked => ?_) fun all => ?_
        · have first := part_not_asked stopped (List.append_ne_nil_of_left_ne_nil filled [])
            (.inl rfl) []
          rw [List.append_nil] at first
          exact first asked
        · obtain ⟨text, same, -⟩ := all _ (List.mem_singleton_self _)
          exact stopped (same ▸ List.mem_append_right _ (List.mem_singleton_self _))

/-- A last line without a newline loses its last character. -/
theorem last_line_not_asked : ¬ ∀ stdin, AsksTyped stdin := by
  intro always
  have asked := (asksTyped_iff ['a'.toUInt8]).mp (always _)
  revert asked
  decide

end LinuxProgramming.Dictionary
