import LinuxProgramming.Foundation.Lineage
import LinuxProgramming.Shell.Wiring
import Mathlib.Data.List.TakeWhile

/-! The redirections of the shell.

Each of the two passes cuts the argument vector at its operator instead of
taking two entries out of it, so what stands behind the first operator is lost,
and a second operator there is not seen if it is the one for the output.
-/

set_option autoImplicit false

namespace LinuxProgramming.Shell
open Foundation

def STD_INPUT : Nat := 0
def STD_OUTPUT : Nat := 1

/-- The loop that searches a vector for an operator. -/
def findFrom (operator : String) : Nat → Argv → Option Nat
  | _, [] | _, none :: _ => none
  | index, some token :: rest =>
    if token = operator then some index else findFrom operator (index + 1) rest

/-- Redirect a standard descriptor to the file behind an operator; 0 is success, and -1 is not. -/
def redirect (operator : String) (access : Access) (standard : Nat) (myArgv : Argv) :
    System (Int × Argv) := do
  match findFrom operator 0 myArgv with
  | none => pure (-1, myArgv)
  | some index =>
    match ← System.openFile myArgv[index + 1]?.join access with
    | none =>
      System.perror "open"
      pure (-1, myArgv)
    | some fd =>
      if ← System.dup2 fd standard then
        if ← System.close fd then
          -- Only the operator is overwritten, so the vector ends there.
          pure (0, myArgv.set index none)
        else
          System.perror "close"
          pure (-1, myArgv)
      else
        System.perror "dup2"
        pure (-1, myArgv)

def redirect_in : Argv → System (Int × Argv) := redirect "<" .readOnly STD_INPUT
def redirect_out : Argv → System (Int × Argv) := redirect ">" .writeCreateTruncate STD_OUTPUT

/-- Both passes; their results are ignored. -/
def redirections (myArgv : Argv) : System Argv := do
  let (_, myArgv) ← redirect_in myArgv
  let (_, myArgv) ← redirect_out myArgv
  pure myArgv

/-- The child of `run_command`. -/
def run_commandChild (myArgv : Argv) : System Unit := do
  let myArgv ← redirections myArgv
  pipe_and_exec myArgv
  System.exitErrno

/-- What a command line is made of behind its command word. -/
inductive Item where
  | word (token : String)
  | input (path : String)
  | output (path : String)
  deriving DecidableEq, Repr

namespace Item

def text : Item → String
  | .word text | .input text | .output text => text

def tokens : Item → List String
  | .word token => [token]
  | .input path => ["<", path]
  | .output path => [">", path]

/-- What is left of an item without its redirection. -/
def kept : Item → List String
  | .word token => [token]
  | .input _ | .output _ => []

def isWord : Item → Bool
  | .word _ => true
  | .input _ | .output _ => false

def isInput : Item → Bool
  | .input _ => true
  | .word _ | .output _ => false

def isOutput : Item → Bool
  | .output _ => true
  | .word _ | .input _ => false

end Item

/-- No word, and no file name, is itself an operator. -/
def Plain (token : String) : Prop := token ≠ "<" ∧ token ≠ ">"

instance (token : String) : Decidable (Plain token) := inferInstanceAs (Decidable (_ ∧ _))

/-- A command word, then ordinary words and at most one redirection of each kind. -/
structure Line where
  command : String
  items : List Item
  command_plain : Plain command
  items_plain : ∀ item ∈ items, Plain item.text
  one_input : items.countP Item.isInput ≤ 1
  one_output : items.countP Item.isOutput ≤ 1

namespace Line

def tokens (line : Line) : List String := line.command :: line.items.flatMap Item.tokens

def kept (line : Line) : List String := line.command :: line.items.flatMap Item.kept

/-- The words in front of the first operator. -/
def front (line : Line) : List Item := line.items.takeWhile Item.isWord

/-- The first operator and everything behind it. -/
def tail (line : Line) : List Item := line.items.dropWhile Item.isWord

/-- The vector that is left when it is cut at the first operator. -/
def cut (line : Line) : List String := line.command :: line.front.flatMap Item.tokens

end Line

/-- The redirections that have lost nothing. -/
structure Lossless (line : Line) (argv : Argv) (fds : Table File) : Prop where
  argv : Holds argv line.kept
  input : ∀ path, .input path ∈ line.items → fds.file STD_INPUT = some (.disk path .readOnly)
  output : ∀ path, .output path ∈ line.items →
    fds.file STD_OUTPUT = some (.disk path .writeCreateTruncate)

/-- Only redirections stand behind the first operator, the one of the output in
front, and the file to be installed does not get the standard descriptor itself. -/
def Kept (fds : Table File) : List Item → Prop
  | [] => True
  | [.input _] => fds.file STD_INPUT ≠ none
  | [.output _] => fds.file STD_INPUT = none ∨ fds.file STD_OUTPUT ≠ none
  | [.output _, .input _] => fds.file STD_INPUT ≠ none ∧ fds.file STD_OUTPUT ≠ none
  | _ => False

theorem Holds.unique {argv : Argv} {first second : List String} (one : Holds argv first)
    (other : Holds argv second) : first = second := by
  obtain ⟨rest, rfl⟩ := one
  obtain ⟨more, same⟩ := other
  induction first generalizing second with
  | nil =>
    cases second with
    | nil => rfl
    | cons token second => simp at same
  | cons token first ih =>
    cases second with
    | nil => simp at same
    | cons other second =>
      simp only [List.map_cons, List.cons_append, List.cons.injEq, Option.some.injEq] at same
      rw [same.1, ih same.2]

/-- Storing NULL over an entry ends the vector there. -/
theorem Holds.set {argv : Argv} {before after : List String} {token : String}
    (holds : Holds argv (before ++ token :: after)) :
    Holds (argv.set before.length none) before := by
  obtain ⟨rest, rfl⟩ := holds
  refine ⟨after.map some ++ none :: rest, ?_⟩
  rw [List.map_append, List.append_assoc, List.set_append_right _ _ (by simp)]
  simp

theorem findFrom_absent {operator : String} {argv : Argv} {tokens : List String}
    (holds : Holds argv tokens) (absent : operator ∉ tokens) (index : Nat) :
    findFrom operator index argv = none := by
  obtain ⟨rest, rfl⟩ := holds
  induction tokens generalizing index with
  | nil => rfl
  | cons token tokens ih =>
    simp only [List.mem_cons, not_or] at absent
    simp [findFrom, Ne.symm absent.1, ih absent.2]

/-- What the vector holds behind a token: the next one, or NULL. -/
theorem Holds.entry_behind {token : String} {argv : Argv} {before after : List String}
    (holds : Holds argv (before ++ token :: after)) :
    argv[before.length + 1]?.join = after.head? := by
  obtain ⟨rest, rfl⟩ := holds
  cases after <;> simp

theorem findFrom_first {operator : String} {argv : Argv} {before after : List String}
    (holds : Holds argv (before ++ operator :: after)) (absent : operator ∉ before) (index : Nat) :
    findFrom operator index argv = some (index + before.length) := by
  obtain ⟨rest, rfl⟩ := holds
  induction before generalizing index with
  | nil => simp [findFrom]
  | cons token before ih =>
    simp only [List.mem_cons, not_or] at absent
    have found := ih absent.2 (index + 1)
    simp only [List.cons_append, List.map_cons, findFrom, if_neg (Ne.symm absent.1), found,
      List.length_cons, Option.some.injEq]
    omega

section Passes

variable {oracle : Oracle} {process : Process} {operator : String} {access : Access}
  {standard : Nat}

/-- What the three system calls of a redirection need. -/
structure Redirectable (oracle : Oracle) : Prop where
  openFile : oracle.Grants .openFile
  dup2 : oracle.Grants .dup2
  close : oracle.Grants .close

theorem redirect_absent {argv : Argv} {tokens : List String} (holds : Holds argv tokens)
    (absent : operator ∉ tokens) :
    redirect operator access standard argv oracle process = [.running (-1, argv) process] := by
  rw [redirect, findFrom_absent holds absent]
  rfl

/-- Whatever fails, a pass leaves the vector as it is or ends it at its operator; for that
there has to be a file name. -/
theorem redirect_cases {argv : Argv} {tokens : List String} (holds : Holds argv tokens) :
    ∃ code left next,
      redirect operator access standard argv oracle process = [.running (code, left) next] ∧
      (left = argv ∨ ∃ before path after, tokens = before ++ operator :: path :: after ∧
        operator ∉ before ∧ left = argv.set before.length none) := by
  by_cases present : operator ∈ tokens
  · obtain ⟨before, rest, rfl, absent⟩ := List.eq_append_cons_of_mem present
    have found := findFrom_first holds absent 0
    rw [Nat.zero_add] at found
    rw [redirect, found]
    simp only [holds.entry_behind]
    obtain ⟨opened, opening, opens, -⟩ := StraightProgram.openFile rest.head? access oracle process
    rw [System.bind_running opens]
    cases opened with
    | none => exact ⟨-1, argv, _, rfl, .inl rfl⟩
    | some fd =>
      obtain ⟨moved, moving, moves, -⟩ := StraightProgram.dup2 fd standard oracle opening
      simp only
      rw [System.bind_running moves]
      cases moved with
      | false => exact ⟨-1, argv, _, rfl, .inl rfl⟩
      | true =>
        obtain ⟨closed, closing, closes, -⟩ := StraightProgram.close fd oracle moving
        rw [if_pos rfl, System.bind_running closes]
        cases closed with
        | false => exact ⟨-1, argv, _, rfl, .inl rfl⟩
        | true =>
          refine ⟨0, _, _, rfl, .inr ?_⟩
          cases rest with
          | nil =>
            unfold System.openFile at opens
            split at opens <;> cases opens
          | cons path after => exact ⟨before, path, after, rfl, absent, rfl⟩
  · exact ⟨-1, argv, process, redirect_absent holds present, .inl rfl⟩

/-- A pass whose calls are not kept from succeeding ends the vector at its operator. -/
theorem redirect_carried {argv : Argv} {before after : List String} {path : String}
    (holds : Holds argv (before ++ operator :: path :: after)) (absent : operator ∉ before)
    (opens : oracle process.pid process.calls .openFile = none)
    (dups : oracle process.pid (process.calls + 1) .dup2 = none)
    (closes : oracle process.pid (process.calls + 2) .close = none) :
    ∃ next, redirect operator access standard argv oracle process =
      [.running (0, argv.set before.length none) next] := by
  have found := findFrom_first holds absent 0
  rw [Nat.zero_add] at found
  rw [redirect, found]
  simp only [holds.entry_behind, List.head?_cons]
  generalize fd_eq : process.fds.lowest = fd
  have opened : System.openFile (some path) access oracle process =
      [.running (some fd) (process.succeed (process.fds.install fd (.disk path access)))] := by
    simp only [System.openFile, opens, fd_eq]
  have moved : System.dup2 fd standard oracle
      (process.succeed (process.fds.install fd (.disk path access))) =
      [.running true ((process.succeed (process.fds.install fd (.disk path access))).succeed
        ((process.fds.install fd (.disk path access)).install standard (.disk path access)))] := by
    simp [System.dup2, Process.succeed, dups]
  have still : ((process.fds.install fd (.disk path access)).install standard
      (.disk path access)).file fd = some (.disk path access) := by
    by_cases same : fd = standard <;> simp [same]
  have closed : System.close fd oracle
      ((process.succeed (process.fds.install fd (.disk path access))).succeed
        ((process.fds.install fd (.disk path access)).install standard (.disk path access))) =
      [.running true (((process.succeed (process.fds.install fd (.disk path access))).succeed
        ((process.fds.install fd (.disk path access)).install standard (.disk path access))).succeed
          (((process.fds.install fd (.disk path access)).install standard
            (.disk path access)).close fd))] := by
    simp [System.close, Process.succeed, closes, still]
  rw [System.bind_running opened]
  simp only
  rw [System.bind_running moved, if_pos rfl, System.bind_running closed, if_pos rfl]
  exact ⟨_, rfl⟩

/-- A pass that cannot open its file makes this one call, and changes nothing. -/
theorem redirect_denied {argv : Argv} {tokens : List String} (holds : Holds argv tokens)
    (present : operator ∈ tokens) {error : Nat}
    (denied : oracle process.pid process.calls .openFile = some error) :
    ∃ next, redirect operator access standard argv oracle process = [.running (-1, argv) next] ∧
      next.pid = process.pid ∧ next.calls = process.calls + 1 := by
  obtain ⟨before, rest, rfl, absent⟩ := List.eq_append_cons_of_mem present
  have found := findFrom_first holds absent 0
  rw [Nat.zero_add] at found
  have refused : System.openFile (argv[before.length + 1]?.join) access oracle process =
      [.running none (process.fail error)] := by
    simp only [System.openFile, denied]
  refine ⟨{ process.fail error with stderr := process.stderr ++ ["open"] }, ?_, rfl, rfl⟩
  rw [redirect, found]
  simp only
  rw [System.bind_running refused]
  rfl

/-- The new descriptor is closed again, even if it is the standard one. -/
def installed (table : Table File) (standard : Nat) (file : File) : Option File :=
  if table.lowest = standard then none else some file

theorem redirect_first (redirectable : Redirectable oracle) {argv : Argv}
    {before after : List String} {path : String}
    (holds : Holds argv (before ++ operator :: path :: after)) (absent : operator ∉ before) :
    ∃ next : Process,
      redirect operator access standard argv oracle process =
        [.running (0, argv.set before.length none) next] ∧
      next.execs = process.execs ∧
      next.fds.file = Function.update process.fds.file standard
        (installed process.fds standard (.disk path access)) := by
  have entry := holds.entry_behind
  have found := findFrom_first holds absent 0
  rw [Nat.zero_add] at found
  have free := process.fds.lowest_free
  generalize fd_eq : process.fds.lowest = fd at free
  have opened : (process.fds.install fd (.disk path access)).file fd =
      some (.disk path access) := by simp
  have moved : ((process.fds.install fd (.disk path access)).install standard
      (.disk path access)).file fd ≠ none := by
    by_cases same : fd = standard <;> simp [same]
  refine ⟨((process.succeed (process.fds.install fd (.disk path access))).succeed
    ((process.fds.install fd (.disk path access)).install standard (.disk path access))).succeed
    (((process.fds.install fd (.disk path access)).install standard (.disk path access)).close fd),
    ?_, rfl, ?_⟩
  · rw [redirect, found]
    simp only [entry, List.head?_cons]
    rw [System.bind_running (System.openFile_granted redirectable.openFile path access), fd_eq]
    simp only
    rw [System.bind_running (System.dup2_granted redirectable.dup2 opened standard), if_pos rfl,
      System.bind_running (System.close_granted redirectable.close moved), if_pos rfl]
    rfl
  · rw [installed, fd_eq]
    by_cases same : fd = standard
    · simp [same]
    · have apart : ∀ other, other = standard → other ≠ fd := fun other at_standard at_fd =>
        same (at_fd ▸ at_standard)
      funext other
      by_cases at_fd : other = fd
      · simp [at_fd, same, free]
      · by_cases at_standard : other = standard <;> simp [at_fd, at_standard, same, Ne.symm same]

/-- The input's own descriptor is the lowest one when it is closed. -/
theorem installed_input (table : Table File) (file : File) :
    installed table STD_INPUT file = some file ↔ table.file STD_INPUT ≠ none := by
  unfold installed
  constructor
  · intro same free
    have lowest : table.lowest = STD_INPUT := by
      by_contra other
      exact Table.open_of_lt_lowest (Nat.pos_of_ne_zero other) free
    simp [lowest] at same
  · intro opened
    rw [if_neg (Table.lowest_ne opened)]

/-- The output's own descriptor is the lowest one when it alone is closed. -/
theorem installed_output (table : Table File) (file : File) :
    installed table STD_OUTPUT file = some file ↔
      table.file STD_INPUT = none ∨ table.file STD_OUTPUT ≠ none := by
  unfold installed
  constructor
  · intro same
    by_contra closed
    rw [not_or, not_not] at closed
    have not_input := Table.lowest_ne closed.1
    have lowest : table.lowest = STD_OUTPUT := by
      by_contra other
      have above : STD_OUTPUT < table.lowest := by
        simp only [STD_INPUT, STD_OUTPUT] at not_input other ⊢
        omega
      exact Table.open_of_lt_lowest above closed.2
    simp [lowest] at same
  · intro opened
    have other : table.lowest ≠ STD_OUTPUT := by
      rcases opened with closed | opened
      · intro lowest
        have below : STD_INPUT < table.lowest := by rw [lowest]; decide
        exact Table.open_of_lt_lowest below closed
      · exact Table.lowest_ne opened
    rw [if_neg other]

theorem redirections_run {argv first second : Argv} {middle next : Process} {one other : Int}
    (input : redirect_in argv oracle process = [.running (one, first) middle])
    (output : redirect_out first oracle middle = [.running (other, second) next]) :
    redirections argv oracle process = [.running second next] := by
  exact (System.bind_running input _).trans (System.bind_running output _)

end Passes

namespace Line

variable (line : Line)

theorem tokens_eq : line.tokens = line.cut ++ line.tail.flatMap Item.tokens := by
  rw [tokens, cut, List.cons_append, ← List.flatMap_append, front, tail,
    List.takeWhile_append_dropWhile]

theorem front_words {item : Item} (member : item ∈ line.front) : item.isWord = true :=
  List.mem_takeWhile_imp member

theorem kept_eq : line.kept = line.cut ++ line.tail.flatMap Item.kept := by
  have words : line.front.flatMap Item.tokens = line.front.flatMap Item.kept := by
    apply List.flatMap_congr
    intro item member
    have word := line.front_words member
    cases item with
    | word => rfl
    | input => cases word
    | output => cases word
  rw [kept, cut, words, List.cons_append, ← List.flatMap_append, front, tail,
    List.takeWhile_append_dropWhile]

/-- The redirections of a line are all in its tail. -/
theorem mem_tail {item : Item} (redirection : item.isWord = false) :
    item ∈ line.items ↔ item ∈ line.tail := by
  have parts : item ∈ line.items ↔ item ∈ line.front ∨ item ∈ line.tail := by
    rw [← List.mem_append, front, tail, List.takeWhile_append_dropWhile]
  rw [parts, or_iff_right]
  intro member
  rw [line.front_words member] at redirection
  cases redirection

theorem mem_of_tail {item : Item} (member : item ∈ line.tail) : item ∈ line.items :=
  (List.dropWhile_sublist _).subset member

theorem tail_one_input : line.tail.countP Item.isInput ≤ 1 :=
  Nat.le_trans (List.dropWhile_sublist _).countP_le line.one_input

theorem tail_one_output : line.tail.countP Item.isOutput ≤ 1 :=
  Nat.le_trans (List.dropWhile_sublist _).countP_le line.one_output

end Line

/-- An operator comes from a redirection of its kind only. -/
theorem Item.input_mem {item : Item} (plain : Plain item.text) :
    "<" ∈ item.tokens ↔ item.isInput = true := by
  have other := plain.1.symm
  cases item <;> simp_all [tokens, text, isInput]

theorem Item.output_mem {item : Item} (plain : Plain item.text) :
    ">" ∈ item.tokens ↔ item.isOutput = true := by
  have other := plain.2.symm
  cases item <;> simp_all [tokens, text, isOutput]

theorem input_not_mem {items : List Item} (plain : ∀ item ∈ items, Plain item.text)
    (none_input : ∀ item ∈ items, item.isInput = false) : "<" ∉ items.flatMap Item.tokens := by
  intro member
  obtain ⟨item, inside, token⟩ := List.mem_flatMap.mp member
  simpa [none_input item inside] using (Item.input_mem (plain item inside)).mp token

theorem output_not_mem {items : List Item} (plain : ∀ item ∈ items, Plain item.text)
    (none_output : ∀ item ∈ items, item.isOutput = false) : ">" ∉ items.flatMap Item.tokens := by
  intro member
  obtain ⟨item, inside, token⟩ := List.mem_flatMap.mp member
  simpa [none_output item inside] using (Item.output_mem (plain item inside)).mp token

theorem Line.cut_plain (line : Line) : "<" ∉ line.cut ∧ ">" ∉ line.cut := by
  have plain : ∀ item ∈ line.front, Plain item.text := fun item member =>
    line.items_plain item ((List.takeWhile_sublist _).subset member)
  have words : ∀ item ∈ line.front, item.isInput = false ∧ item.isOutput = false := by
    intro item member
    have word := line.front_words member
    cases item with
    | word => exact ⟨rfl, rfl⟩
    | input => cases word
    | output => cases word
  rw [Line.cut, List.mem_cons, List.mem_cons, not_or, not_or]
  exact ⟨⟨line.command_plain.1.symm, input_not_mem plain fun item member => (words item member).1⟩,
    ⟨line.command_plain.2.symm, output_not_mem plain fun item member => (words item member).2⟩⟩

/-- A vector that was cut at its first operator is what is to be left exactly
when there are only redirections from there on. -/
theorem lossless_iff (line : Line) {argv : Argv} (holds : Holds argv line.cut) (fds : Table File) :
    Lossless line argv fds ↔
      (∀ item ∈ line.tail, item.isWord = false) ∧
      (∀ path, .input path ∈ line.tail → fds.file STD_INPUT = some (.disk path .readOnly)) ∧
      (∀ path, .output path ∈ line.tail →
        fds.file STD_OUTPUT = some (.disk path .writeCreateTruncate)) := by
  have words : Holds argv line.kept ↔ ∀ item ∈ line.tail, item.isWord = false := by
    constructor
    · intro left item member
      have same := holds.unique left
      rw [line.kept_eq, List.self_eq_append_right, List.flatMap_eq_nil_iff] at same
      have nothing := same item member
      cases item with
      | word => cases nothing
      | input => rfl
      | output => rfl
    · intro none_word
      have nothing : line.tail.flatMap Item.kept = [] := by
        rw [List.flatMap_eq_nil_iff]
        intro item member
        have redirection := none_word item member
        cases item with
        | word => cases redirection
        | input => rfl
        | output => rfl
      rw [line.kept_eq, nothing, List.append_nil]
      exact holds
  constructor
  · rintro ⟨left, input, output⟩
    exact ⟨words.mp left, fun path member => input path (line.mem_of_tail member),
      fun path member => output path (line.mem_of_tail member)⟩
  · rintro ⟨none_word, input, output⟩
    exact ⟨words.mpr none_word, fun path member => input path ((line.mem_tail rfl).mp member),
      fun path member => output path ((line.mem_tail rfl).mp member)⟩

section Outcomes

variable {oracle : Oracle} {process : Process} {argv : Argv} {line : Line}

/-- What both passes make of a line: the vector is cut, and the descriptors are these. -/
def Outcome (oracle : Oracle) (process : Process) (argv : Argv) (line : Line)
    (fds : Nat → Option File) : Prop :=
  ∃ left next, redirections argv oracle process = [.running left next] ∧
    Holds left line.cut ∧ next.execs = process.execs ∧ next.fds.file = fds

theorem outcome_none (holds : Holds argv line.tokens) (none_redirected : line.tail = []) :
    Outcome oracle process argv line process.fds.file := by
  rw [line.tokens_eq, none_redirected, List.flatMap_nil, List.append_nil] at holds
  exact ⟨argv, process, redirections_run (redirect_absent holds line.cut_plain.1)
    (redirect_absent holds line.cut_plain.2), holds, rfl, rfl⟩

theorem outcome_input (redirectable : Redirectable oracle) (holds : Holds argv line.tokens)
    {path : String} {more : List Item} (tail : line.tail = .input path :: more) :
    Outcome oracle process argv line (Function.update process.fds.file STD_INPUT
      (installed process.fds STD_INPUT (.disk path .readOnly))) := by
  rw [line.tokens_eq, tail] at holds
  obtain ⟨next, input, execs, fds⟩ := redirect_first redirectable holds line.cut_plain.1
  exact ⟨_, next, redirections_run input (redirect_absent holds.set line.cut_plain.2),
    holds.set, execs, fds⟩

theorem outcome_output (redirectable : Redirectable oracle) (holds : Holds argv line.tokens)
    {path : String} {more : List Item} (tail : line.tail = .output path :: more)
    (none_input : ∀ item ∈ more, item.isInput = false) :
    Outcome oracle process argv line (Function.update process.fds.file STD_OUTPUT
      (installed process.fds STD_OUTPUT (.disk path .writeCreateTruncate))) := by
  have absent : "<" ∉ line.tokens := by
    rw [line.tokens_eq, List.mem_append, not_or]
    refine ⟨line.cut_plain.1, input_not_mem
      (fun item member => line.items_plain item (line.mem_of_tail member)) fun item member => ?_⟩
    rcases List.mem_cons.mp (tail ▸ member) with rfl | later
    · rfl
    · exact none_input item later
  have unchanged : redirect_in argv oracle process = [.running (-1, argv) process] :=
    redirect_absent holds absent
  rw [line.tokens_eq, tail] at holds
  obtain ⟨next, output, execs, fds⟩ := redirect_first redirectable holds line.cut_plain.2
  exact ⟨_, next, redirections_run unchanged output, holds.set, execs, fds⟩

/-- The input is redirected first, although it comes behind the output. -/
theorem outcome_both (redirectable : Redirectable oracle) (process : Process)
    (holds : Holds argv line.tokens)
    {source target : String} {between after : List Item}
    (tail : line.tail = .output target :: (between ++ .input source :: after))
    (none_between : ∀ item ∈ between, item.isInput = false) :
    ∃ middle : Table File,
      middle.file = Function.update process.fds.file STD_INPUT
        (installed process.fds STD_INPUT (.disk source .readOnly)) ∧
      Outcome oracle process argv line (Function.update middle.file STD_OUTPUT
        (installed middle STD_OUTPUT (.disk target .writeCreateTruncate))) := by
  have absent : "<" ∉ line.cut ++ (Item.output target :: between).flatMap Item.tokens := by
    rw [List.mem_append, not_or]
    refine ⟨line.cut_plain.1, input_not_mem (fun item member => ?_) fun item member => ?_⟩
    · apply line.items_plain item (line.mem_of_tail _)
      rw [tail]
      rcases List.mem_cons.mp member with rfl | later
      · exact List.mem_cons_self
      · exact List.mem_cons_of_mem _ (List.mem_append_left _ later)
    · rcases List.mem_cons.mp member with rfl | later
      · rfl
      · exact none_between item later
  have split_tokens : line.tokens = (line.cut ++ (Item.output target :: between).flatMap Item.tokens) ++
      "<" :: source :: after.flatMap Item.tokens := by
    rw [line.tokens_eq, tail]
    simp [Item.tokens]
  rw [split_tokens] at holds
  obtain ⟨middle, input, middle_execs, middle_fds⟩ := redirect_first redirectable holds absent
  have left := holds.set
  obtain ⟨next, output, execs, fds⟩ := redirect_first redirectable left line.cut_plain.2
  exact ⟨middle.fds, middle_fds, _, next, redirections_run input output, left.set,
    execs.trans middle_execs, fds⟩

theorem Line.tail_head {line : Line} {first : Item} {more : List Item}
    (tail : line.tail = first :: more) : first.isWord = false := by
  have stopped := List.head?_dropWhile_not Item.isWord line.items
  rw [← Line.tail, tail] at stopped
  exact stopped

/-- Some input redirection is the first one. -/
theorem first_input {items : List Item} (some_input : ∃ item ∈ items, item.isInput = true) :
    ∃ between path after, items = between ++ .input path :: after ∧
      ∀ item ∈ between, item.isInput = false := by
  induction items with
  | nil => simp at some_input
  | cons first items ih =>
    cases here : first.isInput with
    | true =>
      cases first with
      | input path => exact ⟨[], path, items, rfl, by simp⟩
      | word => cases here
      | output => cases here
    | false =>
      obtain ⟨between, path, after, same, none_between⟩ := ih (by simpa [here] using some_input)
      exact ⟨first :: between, path, after, by simp [same], by simpa [here] using none_between⟩

/-- Every descriptor is as before, or refers to a file that was opened. -/
def Reopened (before : Table File) (after : Nat → Option File) : Prop :=
  ∀ fd, after fd = before.file fd ∨ ∃ path access, after fd = some (.disk path access)

theorem Reopened.update {before middle : Table File} (reopened : Reopened before middle.file)
    {standard : Nat} (opened : middle.file standard ≠ none) (path : String) (access : Access) :
    Reopened before (Function.update middle.file standard
      (installed middle standard (.disk path access))) := by
  intro fd
  by_cases same : fd = standard
  · subst same
    right
    exact ⟨path, access, by rw [Function.update_self, installed, if_neg (Table.lowest_ne opened)]⟩
  · rw [Function.update_of_ne same]
    exact reopened fd

/-- Both passes come to an end for every line, and with the standard descriptors
open at the start they close none of the others. -/
theorem outcome_exists (redirectable : Redirectable oracle) (holds : Holds argv line.tokens) :
    ∃ fds, Outcome oracle process argv line fds ∧
      ((∀ fd ≤ 2, process.fds.file fd ≠ none) → Reopened process.fds fds) := by
  have unchanged : Reopened process.fds process.fds.file := fun _ => .inl rfl
  cases tail : line.tail with
  | nil => exact ⟨_, outcome_none holds tail, fun _ => unchanged⟩
  | cons first more =>
    cases first with
    | word => cases Line.tail_head tail
    | input path =>
      exact ⟨_, outcome_input redirectable holds tail, fun standard =>
        unchanged.update (standard STD_INPUT (by decide)) _ _⟩
    | output path =>
      by_cases none_input : ∀ item ∈ more, item.isInput = false
      · exact ⟨_, outcome_output redirectable holds tail none_input, fun standard =>
          unchanged.update (standard STD_OUTPUT (by decide)) _ _⟩
      · obtain ⟨between, source, after, rfl, none_between⟩ := first_input (by simpa using none_input)
        obtain ⟨middle, fds, outcome⟩ := outcome_both redirectable process holds tail
          none_between
        refine ⟨_, outcome, fun standard => ?_⟩
        have input : Reopened process.fds middle.file := by
          rw [fds]
          exact unchanged.update (standard STD_INPUT (by decide)) _ _
        have apart : STD_OUTPUT ≠ STD_INPUT := by decide
        have output : middle.file STD_OUTPUT ≠ none := by
          rw [fds, Function.update_of_ne apart]
          exact standard STD_OUTPUT (by decide)
        exact input.update output _ _

end Outcomes

/-- A list of redirections only, with at most one of each kind. -/
theorem redirection_shapes {items : List Item} (none_word : ∀ item ∈ items, item.isWord = false)
    (one_input : items.countP Item.isInput ≤ 1) (one_output : items.countP Item.isOutput ≤ 1) :
    items = [] ∨ (∃ path, items = [.input path]) ∨ (∃ path, items = [.output path]) ∨
      (∃ source target, items = [.input source, .output target]) ∨
      ∃ source target, items = [.output target, .input source] := by
  rcases items with _ | ⟨first, _ | ⟨second, _ | ⟨third, rest⟩⟩⟩
  · exact .inl rfl
  · cases first with
    | word token => simp [Item.isWord] at none_word
    | input path => exact .inr (.inl ⟨path, rfl⟩)
    | output path => exact .inr (.inr (.inl ⟨path, rfl⟩))
  · cases first with
    | word token => simp [Item.isWord] at none_word
    | input source =>
      cases second with
      | word token => simp [Item.isWord] at none_word
      | input other => simp [List.countP_cons, Item.isInput] at one_input
      | output target => exact .inr (.inr (.inr (.inl ⟨source, target, rfl⟩)))
    | output target =>
      cases second with
      | word token => simp [Item.isWord] at none_word
      | input source => exact .inr (.inr (.inr (.inr ⟨source, target, rfl⟩)))
      | output other => simp [List.countP_cons, Item.isOutput] at one_output
  · -- A third redirection repeats one of the first two.
    exfalso
    cases first <;> cases second <;> cases third <;>
      simp [List.countP_cons, Item.isInput, Item.isOutput, Item.isWord] at none_word one_input one_output

/-- No file that a redirection opens was open before. -/
def Fresh (fds : Table File) : Prop := ∀ fd path access, fds.file fd ≠ some (.disk path access)

theorem Kept.none_word {fds : Table File} {items : List Item} (kept : Kept fds items) :
    ∀ item ∈ items, item.isWord = false := by
  unfold Kept at kept
  split at kept
  · simp
  · simp [Item.isWord]
  · simp [Item.isWord]
  · simp [Item.isWord]
  · exact kept.elim

/-- Nothing is lost exactly when nothing but redirections stands behind the first
operator, the input behind the output, and the standard descriptors are open as needed. -/
theorem redirections_lossless_iff {oracle : Oracle} (redirectable : Redirectable oracle)
    {process : Process} (fresh : Fresh process.fds) {argv : Argv} (line : Line)
    (holds : Holds argv line.tokens) :
    (∃ left next, redirections argv oracle process = [.running left next] ∧
      Lossless line left next.fds) ↔ Kept process.fds line.tail := by
  have reduce : ∀ fds, Outcome oracle process argv line fds →
      ((∃ left next, redirections argv oracle process = [.running left next] ∧
        Lossless line left next.fds) ↔
      (∀ item ∈ line.tail, item.isWord = false) ∧
      (∀ path, .input path ∈ line.tail → fds STD_INPUT = some (.disk path .readOnly)) ∧
      (∀ path, .output path ∈ line.tail →
        fds STD_OUTPUT = some (.disk path .writeCreateTruncate))) := by
    rintro fds ⟨left, next, run, cut, -, rfl⟩
    rw [← lossless_iff line cut]
    constructor
    · rintro ⟨other, after, same, lossless⟩
      cases run.symm.trans same
      exact lossless
    · exact fun lossless => ⟨left, next, run, lossless⟩
  -- Any word behind the first operator is cut off; without one there are five shapes.
  by_cases none_word : ∀ item ∈ line.tail, item.isWord = false
  · have apart : STD_OUTPUT ≠ STD_INPUT := by decide
    rcases redirection_shapes none_word line.tail_one_input line.tail_one_output with
      tail | ⟨path, tail⟩ | ⟨path, tail⟩ | ⟨source, target, tail⟩ | ⟨source, target, tail⟩
    · simp [reduce _ (outcome_none holds tail), tail, Kept]
    · rw [reduce _ (outcome_input redirectable holds tail), tail]
      simp [Kept, Item.isWord, installed_input]
    · rw [reduce _ (outcome_output redirectable holds tail (by simp)), tail]
      simp [Kept, Item.isWord, installed_output]
    · rw [reduce _ (outcome_input redirectable holds tail), tail]
      simp [Kept, apart, fresh STD_OUTPUT target .writeCreateTruncate]
    · have shape : line.tail = .output target :: ([] ++ .input source :: []) := tail
      obtain ⟨middle, fds, outcome⟩ := outcome_both redirectable process holds shape (by simp)
      have middle_input : middle.file STD_INPUT =
          installed process.fds STD_INPUT (.disk source .readOnly) := by simp [fds]
      have middle_output : middle.file STD_OUTPUT = process.fds.file STD_OUTPUT := by
        simp [fds, apart]
      have both : installed process.fds STD_INPUT (.disk source .readOnly) =
            some (.disk source .readOnly) ∧
          installed middle STD_OUTPUT (.disk target .writeCreateTruncate) =
            some (.disk target .writeCreateTruncate) ↔ Kept process.fds line.tail := by
        rw [tail, installed_output, middle_input, middle_output]
        constructor
        · rintro ⟨input, output⟩
          exact ⟨(installed_input _ _).mp input, output.resolve_left (by simp [input])⟩
        · rintro ⟨input, output⟩
          exact ⟨(installed_input _ _).mpr input, .inr output⟩
      rw [reduce _ outcome, ← both, tail]
      simp [Item.isWord, apart.symm, middle_input]
  · obtain ⟨fds, outcome, -⟩ := outcome_exists redirectable holds
    rw [reduce fds outcome]
    exact ⟨fun kept => absurd kept.1 none_word, fun kept => absurd kept.none_word none_word⟩

/-- The child makes no call of `execvp` behind its pipeline. -/
theorem execCalls_exitErrno {oracle : Oracle} (program : System Unit) (process : Process) :
    execCalls ((do program; System.exitErrno : System Unit) oracle process) =
      execCalls (program oracle process) := by
  rw [System.bind_run]
  induction program oracle process with
  | nil => rfl
  | cons life lives ih =>
    rw [List.flatMap_cons, execCalls_append, ih, ← List.singleton_append, execCalls_append]
    cases life <;> rfl

/-- The child of the shell runs what is left of a line as a wired pipeline, with
the descriptors that the redirections have installed. -/
theorem run_commandChild_wired {oracle : Oracle} (granted : Granted oracle)
    (redirectable : Redirectable oracle) {process : Process} (silent : process.execs = [])
    (standard : ∀ fd ≤ 2, process.fds.file fd ≠ none)
    (fresh : ∀ fd name side, process.fds.file fd ≠ some (.pipe name side)) {argv : Argv}
    {line : Line} (holds : Holds argv line.tokens) {left : Argv} {next : Process}
    (run : redirections argv oracle process = [.running left next])
    (lossless : Lossless line left next.fds) (proper : Proper line.kept) :
    Wired next.fds (line.kept.splitOn "|") (execCalls (run_commandChild argv oracle process)) := by
  obtain ⟨fds, outcome, reopened⟩ : ∃ fds, Outcome oracle process argv line fds ∧ _ :=
    outcome_exists redirectable holds
  obtain ⟨other, after, same, -, execs, rfl⟩ := outcome
  cases run.symm.trans same
  have child : execCalls (run_commandChild argv oracle process) =
      execCalls (pipe_and_exec left oracle next) := by
    rw [run_commandChild, System.bind_running run]
    exact execCalls_exitErrno _ _
  rw [child]
  refine wired_of_process granted (execs.trans silent) (fun fd inside => ?_)
    (fun fd name side => ?_) lossless.argv proper
  · rcases reopened standard fd with kept | ⟨path, access, opened⟩
    · rw [kept]
      exact standard fd inside
    · simp [opened]
  · rcases reopened standard fd with kept | ⟨path, access, opened⟩
    · rw [kept]
      exact fresh fd name side
    · simp [opened]

theorem allGranted_redirectable : Redirectable allGranted :=
  ⟨fun _ _ => rfl, fun _ _ => rfl, fun _ _ => rfl⟩

theorem terminal_nothing_open : Fresh terminal := by
  intro fd path access
  simp only [terminal]
  split <;> simp

/-- `sort > g < f`, and the same redirections the other way round. -/
def outputFirst : Line :=
  ⟨"sort", [.output "g", .input "f"], by decide, by decide, by decide, by decide⟩

def inputFirst : Line :=
  ⟨"sort", [.input "f", .output "g"], by decide, by decide, by decide, by decide⟩

theorem outputFirst_lossless :
    ∃ left next, redirections [some "sort", some ">", some "g", some "<", some "f", none]
        allGranted (Process.entering [] terminal) = [.running left next] ∧
      Lossless outputFirst left next.fds :=
  (redirections_lossless_iff allGranted_redirectable terminal_nothing_open outputFirst
    ⟨[], rfl⟩).mpr ⟨by decide, by decide⟩

theorem inputFirst_runs :
    (redirections [some "sort", some "<", some "f", some ">", some "g", none] allGranted
      (Process.entering [] terminal)).map (fun life => life.process.fds.file STD_OUTPUT) =
        [some (.inherited 1)] := rfl

/-- `sort < f > g` is not redirected to g. -/
theorem inputFirst_loses_output :
    ¬ ∀ (oracle : Oracle) (process : Process) (argv : Argv) (line : Line), Redirectable oracle →
      Fresh process.fds → Holds argv line.tokens →
        ∃ left next, redirections argv oracle process = [.running left next] ∧
          Lossless line left next.fds := by
  intro always
  obtain ⟨left, next, run, lossless⟩ := always allGranted (Process.entering [] terminal)
    [some "sort", some "<", some "f", some ">", some "g", none] inputFirst
    allGranted_redirectable terminal_nothing_open ⟨[], rfl⟩
  have redirected := lossless.output "g" (by decide)
  have terminal_output := inputFirst_runs
  rw [run, List.map_singleton, Life.running_process, redirected] at terminal_output
  exact absurd terminal_output (by decide)

end LinuxProgramming.Shell
