import LinuxProgramming.Foundation.Fuel
import LinuxProgramming.Foundation.Numerals
import LinuxProgramming.Foundation.Stdio
import LinuxProgramming.Shell.Parse

/-! The main loop of the shell: which command each line is dispatched to.

The search for a builtin command leaves a cursor into the table, and the
dispatcher runs whatever the cursor is at. A `builtin` command searches the table
again and so moves the cursor while it runs.
-/

set_option autoImplicit false

namespace LinuxProgramming.Shell
open Foundation

def LONGLINE : Nat := 255

inductive Builtin where
  | bi_builtin
  | bi_echo
  | bi_quit
  | bi_cd
  | bi_pwd
  | bi_id
  | bi_hostname
  deriving DecidableEq, Repr

/-- The table up to its NULL entry. -/
def inbuilts : List (List Byte × Builtin) :=
  [(ascii "builtin", .bi_builtin), (ascii "echo", .bi_echo), (ascii "quit", .bi_quit),
    (ascii "exit", .bi_quit), (ascii "bye", .bi_quit), (ascii "logout", .bi_quit),
    (ascii "cd", .bi_cd), (ascii "pwd", .bi_pwd), (ascii "id", .bi_id),
    (ascii "hostname", .bi_hostname)]

/-- The loop of `is_builtin`, from an entry on; the place where it stops. -/
def search (cmd : List Byte) : Nat → List (List Byte × Builtin) → Option Nat
  | _, [] => none
  | index, (keyword, _) :: rest =>
    if strcmp keyword cmd = .eq then some index else search cmd (index + 1) rest

/-- The cursor and whether the command is in the table; without a match the cursor stays. -/
def is_builtin (this : Option Nat) (cmd : List Byte) : Option Nat × Bool :=
  match search cmd 0 inbuilts with
  | some tableCommand => (some tableCommand, true)
  | none => (this, false)

/-- What is not decided by the shell: whether the n-th command that is dispatched meets with
a failure outside the shell, and what its processes leave of the stream that the shell has
not read yet. They share the offset of the file with the shell. -/
structure World where
  fails : Nat → Bool
  left : Nat → List Byte → List Byte

/-- Nothing fails, and the stream is left to the shell. -/
def calm : World := ⟨fun _ => false, fun _ rest => rest⟩

def INT_MAX : Nat := 2147483647

/-- Whether the prompt comes back after `bi_echo`. It does not where a missing argument is
handed to `strcmp` or `isdigit`, or where there is no argument with the number. -/
def echoReturns (argv : List (Option (List Byte))) : Bool :=
  match argv[1]?.join with
  | none => false
  | some option =>
    if strcmp option (ascii "-n") = .eq then
      match argv[2]?.join with
      | none => false
      | some text =>
        if isdigit (text.headD NUL) then
          leading text + 2 ≤ INT_MAX && argv[leading text + 2]?.join.isSome
        else true
    else true

/-- The cursor that a builtin command leaves, and whether the prompt comes back. -/
def do_it (failing : Bool) (this : Option Nat) (argv : List (Option (List Byte))) :
    Builtin → Option Nat × Bool
  | .bi_builtin =>
    match argv[1]?.join with
    | none => (this, true)
    | some cmd => ((is_builtin this cmd).1, true)
  | .bi_echo => (this, echoReturns argv)
  | .bi_quit => (this, false)
  | .bi_pwd => (this, !failing)
  | .bi_cd | .bi_id | .bi_hostname => (this, true)

inductive Target where
  | builtin (entry : Builtin)
  | run_command
  deriving DecidableEq, Repr

structure Dispatched where
  argv : List (Option (List Byte))
  target : Target
  deriving DecidableEq, Repr

/-- The dispatch of one vector: where it goes, the cursor behind it, and whether
the prompt comes back. `run_command` ends the shell when it cannot fork. -/
def dispatch (failing : Bool) (this : Option Nat) (argv : List (Option (List Byte))) :
    Option (Target × Option Nat × Bool) := do
  let cmd ← argv[0]?.join
  let (this, builtin) := is_builtin this cmd
  if builtin then
    -- `do_builtin` looks at the cursor only.
    let entry ← this
    let (_, function) ← inbuilts[entry]?
    let (this, back) := do_it failing this argv function
    some (.builtin function, this, back)
  else some (.run_command, this, !failing)

/-- The stream behind a command; only `run_command` starts processes. -/
def afterwards (world : World) (count : Nat) (rest : List Byte) : Target → List Byte
  | .builtin _ => rest
  | .run_command => world.left count rest

/-- The loop over what `fgets` returns, each up to its NUL. Processes that move the stream back
can keep the loop running, so it has fuel. -/
def loop (world : World) : Nat → List Byte → Option Nat → Nat → Option (List Dispatched)
  | 0, _, _, _ => none
  | fuel + 1, stdin, this, count =>
    match fgets LONGLINE stdin with
    | none => some []
    | some (line, rest) => do
      match ← parse (cstr line) with
      | none => loop world fuel rest this count
      | some argv =>
        let (target, this, back) ← dispatch (world.fails count) this argv
        if back then
          let later ← loop world fuel (afterwards world count rest target) this (count + 1)
          some (⟨argv, target⟩ :: later)
        else some [⟨argv, target⟩]

/-- All commands that are dispatched for a stream. -/
def main (world : World) (this : Option Nat) (stdin : List Byte) (fuel : Nat) :
    Option (List Dispatched) :=
  loop world fuel stdin this 0

/-! The purpose: every line is a command, up to one that ends the shell. -/

/-- Consecutive parts of this size; the last one is shorter, and may be empty. -/
def parts (size : Nat) (line : List Byte) : List (List Byte) :=
  (List.range (line.length / size + 1)).map fun index => (line.drop (index * size)).take size

/-- The lines of a stream, a long one in as many parts as the line buffer needs. -/
def linesOf (stream : List Byte) : List (List Byte) :=
  (stream.splitOn newline).flatMap (parts (LONGLINE - 1))

/-- The token lists of these lines, without those that are blank. -/
def commands (lines : List (List Byte)) : List (List (List Byte)) :=
  (lines.map tokens).filter fun command => command ≠ []

/-- The entry of the table for a command word. -/
def targetOf (cmd : List Byte) : Target :=
  match inbuilts.find? fun entry => entry.1 = cmd with
  | some entry => .builtin entry.2
  | none => .run_command

def dispatched (command : List (List Byte)) : Dispatched where
  argv := vector command
  target := targetOf (command.headD [])

/-- Whether the prompt comes back after a command. -/
def comesBack (failing : Bool) (command : Dispatched) : Bool :=
  match command.target with
  | .builtin entry => (do_it failing none command.argv entry).2
  | .run_command => !failing

/-- The commands up to and including the first after which the prompt does not come back. -/
def untilEnd (world : World) : Nat → List Dispatched → List Dispatched
  | _, [] => []
  | count, command :: later =>
    if comesBack (world.fails count) command then command :: untilEnd world (count + 1) later
    else [command]

/-! The dispatch of one vector. -/

/-- The loop stops at the first entry with the keyword. -/
theorem search_spec (cmd : List Byte) (entries : List (List Byte × Builtin)) (index : Nat) :
    match search cmd index entries with
    | none => entries.find? (fun entry => entry.1 = cmd) = none
    | some place => ∃ entry, entries[place - index]? = some entry ∧ index ≤ place ∧
        entries.find? (fun entry => entry.1 = cmd) = some entry := by
  induction entries generalizing index with
  | nil => rfl
  | cons first rest ih =>
    obtain ⟨keyword, function⟩ := first
    by_cases same : keyword = cmd
    · simp [search, same]
    · have later := ih (index + 1)
      simp only [search, strcmp_eq_iff, same, ↓reduceIte, decide_false, Bool.false_eq_true,
        not_false_eq_true, List.find?_cons_of_neg]
      cases found : search cmd (index + 1) rest with
      | none => simpa [found] using later
      | some place =>
        simp only [found] at later
        obtain ⟨entry, at_place, after, first⟩ := later
        refine ⟨entry, ?_, by omega, first⟩
        rw [show place - index = (place - (index + 1)) + 1 by omega, List.getElem?_cons_succ]
        exact at_place

/-- Whether the prompt comes back does not depend on the cursor. -/
theorem do_it_back (failing : Bool) (this : Option Nat) (argv : List (Option (List Byte)))
    (function : Builtin) :
    (do_it failing this argv function).2 = (do_it failing none argv function).2 := by
  cases function with
  | bi_builtin =>
    simp only [do_it]
    cases argv[1]?.join <;> rfl
  | bi_echo | bi_quit | bi_cd | bi_pwd | bi_id | bi_hostname => rfl

/-- Whatever the cursor is at before, the search moves it to the entry for the command. -/
theorem dispatch_spec (failing : Bool) (this : Option Nat) {command : List (List Byte)}
    (filled : command ≠ []) :
    ∃ left, dispatch failing this (dispatched command).argv =
      some ((dispatched command).target, left, comesBack failing (dispatched command)) := by
  obtain ⟨cmd, rest, rfl⟩ := List.exists_cons_of_ne_nil filled
  have word : (dispatched (cmd :: rest)).argv[0]?.join = some cmd := rfl
  have target : (dispatched (cmd :: rest)).target = targetOf cmd := rfl
  have spec := search_spec cmd inbuilts 0
  cases found : search cmd 0 inbuilts with
  | none =>
    rw [found] at spec
    have missing : targetOf cmd = .run_command := by simp [targetOf, spec]
    exact ⟨this, by simp [dispatch, word, is_builtin, found, comesBack, target, missing]⟩
  | some place =>
    rw [found] at spec
    obtain ⟨entry, at_place, -, first⟩ := spec
    have present : targetOf cmd = .builtin entry.2 := by simp [targetOf, first]
    refine ⟨(do_it failing (some place) (dispatched (cmd :: rest)).argv entry.2).1, ?_⟩
    rw [Nat.sub_zero] at at_place
    have back := do_it_back failing (some place) (dispatched (cmd :: rest)).argv entry.2
    rw [comesBack, target, present]
    dsimp only
    rw [← back]
    simp [dispatch, word, is_builtin, found, at_place]

/-! The loop over the lines. -/

theorem commands_cons (line : List Byte) (lines : List (List Byte)) :
    commands (line :: lines) =
      if tokens line = [] then commands lines else tokens line :: commands lines := by
  by_cases blank : tokens line = [] <;> simp [commands, blank]

theorem commands_append (first second : List (List Byte)) :
    commands (first ++ second) = commands first ++ commands second := by
  simp [commands]

/-- The loop dispatches every command, in order, until the prompt does not come back. -/
theorem loop_spec {world : World} (own : ∀ count rest, world.left count rest = rest) {fuel : Nat}
    {stdin : List Byte} (enough : stdin.length < fuel) (plain : NUL ∉ stdin) (this : Option Nat)
    (count : Nat) : loop world fuel stdin this count =
      some (untilEnd world count ((commands (fgetsAll LONGLINE stdin)).map dispatched)) := by
  -- Each round takes something from the stream.
  induction fuel generalizing stdin this count with
  | zero => exact absurd enough (Nat.not_lt_zero _)
  | succ fuel ih =>
    rw [loop, fgetsAll_eq (by decide)]
    cases read : fgets LONGLINE stdin with
    | none => rfl
    | some result =>
      obtain ⟨line, rest⟩ := result
      have progress := fgets_progress (by decide) read
      have whole := fgets_append read
      have inside : NUL ∉ line := fun member => plain (whole ▸ List.mem_append_left rest member)
      have later := fun this count => @ih rest (by omega)
        (fun member => plain (whole ▸ List.mem_append_right line member)) this count
      have behind : ∀ target, afterwards world count rest target = rest := by
        intro target
        cases target with
        | builtin entry => rfl
        | run_command => exact own count rest
      dsimp only
      rw [cstr_eq_self inside, parse_spec, commands_cons]
      by_cases blank : tokens line = []
      · simpa [blank] using later this count
      · obtain ⟨cursor, sent⟩ := dispatch_spec (world.fails count) this blank
        have same : vector (tokens line) = (dispatched (tokens line)).argv := rfl
        cases back : comesBack (world.fails count) (dispatched (tokens line)) with
        | false => simp [blank, sent, untilEnd, back, same]
        | true => simp [blank, sent, untilEnd, back, same, later, behind]

/-! The lines that the line buffer holds. -/

theorem parts_short {size : Nat} {line : List Byte} (fits : line.length < size) :
    parts size line = [line] := by
  simp [parts, Nat.div_eq_of_lt fits, List.take_of_length_le (Nat.le_of_lt fits)]

theorem parts_long {size : Nat} (room : 0 < size) {line : List Byte} (long : size ≤ line.length) :
    parts size line = line.take size :: parts size (line.drop size) := by
  have one_more : line.length / size = (line.length - size) / size + 1 :=
    Nat.div_eq_sub_div room long
  rw [parts, one_more, List.range_succ_eq_map, List.map_cons, List.map_map, parts,
    List.length_drop]
  simp only [Nat.zero_mul, List.drop_zero, List.cons.injEq, true_and]
  refine List.map_congr_left fun index _ => ?_
  rw [Function.comp_apply, List.drop_drop, Nat.succ_mul, Nat.add_comm size]

theorem tokens_newline (line : List Byte) : tokens (line ++ [newline]) = tokens line :=
  runs_append_delim (by decide) line

/-- One line of the stream is dispatched in the parts that the line buffer holds. -/
theorem commands_line {line : List Byte} (single : newline ∉ line) {after : List Byte}
    (ends : after = [] ∨ after.head? = some newline) :
    commands (fgetsAll LONGLINE (line ++ after)) =
      commands (parts (LONGLINE - 1) line) ++ commands (fgetsAll LONGLINE after.tail) := by
  -- Each call of `fgets` takes one part, so the induction is on the length of the line.
  induction length : line.length using Nat.strong_induction_on generalizing line with
  | h count ih =>
    by_cases fits : line.length < LONGLINE - 1
    · rw [parts_short fits, ← commands_append, List.singleton_append]
      obtain rfl | newline_next := ends
      · by_cases empty : line = []
        · rw [empty]
          decide
        · rw [List.append_nil, fgetsAll_eq (by decide), fgets, if_neg empty,
            takeLine_last single fits]
          rfl
      · obtain ⟨rest, rfl⟩ := List.head?_eq_some_iff.mp newline_next
        rw [fgetsAll_line single (Nat.add_lt_of_lt_sub fits), commands_cons, commands_cons,
          tokens_newline]
        rfl
    · have long : LONGLINE - 1 ≤ line.length := Nat.le_of_not_lt fits
      have size : 0 < LONGLINE - 1 := by decide
      have filled : line ++ after ≠ [] := by
        intro empty
        rw [(List.append_eq_nil_iff.mp empty).1] at long
        exact absurd long (by decide)
      have later := ih (line.drop (LONGLINE - 1)).length (by rw [List.length_drop]; omega)
        (fun member => single (List.mem_of_mem_drop member)) rfl
      rw [fgetsAll_eq (by decide), fgets, if_neg filled, takeLine_part single long,
        parts_long size long]
      simp only [commands_cons, later]
      split <;> rfl

/-- `fgets` reads the lines of the stream, except that it leaves blank remainders out. -/
theorem commands_linesOf (stream : List Byte) :
    commands (fgetsAll LONGLINE stream) = commands (linesOf stream) := by
  induction length : stream.length using Nat.strong_induction_on generalizing stream with
  | h count ih =>
    by_cases several : newline ∈ stream
    · obtain ⟨line, rest, rfl, single⟩ := List.eq_append_cons_of_mem several
      have shorter : rest.length < count := by
        rw [← length, List.length_append, List.length_cons]
        omega
      have first : linesOf (line ++ newline :: rest) =
          parts (LONGLINE - 1) line ++ linesOf rest := by
        rw [linesOf, List.splitOn_append_cons_self_of_not_mem single]
        rfl
      have read := @commands_line line single (newline :: rest) (.inr rfl)
      rw [read, List.tail_cons, ih rest.length shorter rest rfl, first, commands_append]
    · have last := commands_line several (.inl rfl)
      rw [List.append_nil] at last
      rw [last, linesOf, List.splitOn_eq_singleton several]
      simp [commands, fgetsAll, fgetsTimes]

theorem main_spec {world : World} (own : ∀ count rest, world.left count rest = rest) {fuel : Nat}
    {stdin : List Byte} (enough : stdin.length < fuel) (plain : NUL ∉ stdin) (this : Option Nat) :
    main world this stdin fuel =
      some (untilEnd world 0 ((commands (linesOf stdin)).map dispatched)) := by
  rw [main, loop_spec own enough plain, commands_linesOf]

/-- Every line as one command, whatever its length and whatever came before. -/
def eachLine (stdin : List Byte) : List Dispatched :=
  (commands (stdin.splitOn newline)).map dispatched

/-- What the loop yields is the only thing it yields. -/
theorem not_yields_eachLine {stdin : List Byte} (plain : NUL ∉ stdin)
    (differs : untilEnd calm 0 ((commands (linesOf stdin)).map dispatched) ≠ eachLine stdin) :
    ¬ Yields (main calm none stdin) (eachLine stdin) := by
  rintro ⟨least, yields⟩
  have given := yields (max least (stdin.length + 1)) (Nat.le_max_left _ _)
  have enough : stdin.length < max least (stdin.length + 1) := Nat.le_max_right _ _
  rw [main_spec (fun _ _ => rfl) enough plain] at given
  exact differs (Option.some.inj given)

end LinuxProgramming.Shell
