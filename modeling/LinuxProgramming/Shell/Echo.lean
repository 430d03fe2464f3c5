import LinuxProgramming.Shell.Dispatch

/-! The builtin `echo` of both shells, with every access to its vector.

There is no result where an entry outside the vector is read, or where NULL is
handed to a function that wants a string.
-/

set_option autoImplicit false

namespace LinuxProgramming.Shell
open Foundation

/-- The entry of the vector with this index. -/
def entry (argv : List (Option (List Byte))) (index : Int) : Option (Option (List Byte)) :=
  if 0 ≤ index then argv[index.toNat]? else none

/-- The entry for a function that wants a string. -/
def argument (argv : List (Option (List Byte))) (index : Int) : Option (List Byte) :=
  (entry argv index).join

/-- `while (argv[count]) printf("%s ", argv[count++])` from an entry on. -/
def echoLoop : List (Option (List Byte)) → Option (List Byte)
  | [] => none
  | none :: _ => some []
  | some text :: rest => (echoLoop rest).map fun later => text ++ ascii " " ++ later

/-- The test for `-n` and a digit; without `-n` the second operand is not evaluated. -/
def selects (argv : List (Option (List Byte))) : Option Bool := do
  let option ← argument argv 1
  if strcmp option (ascii "-n") = .eq then
    let text ← argument argv 2
    some (isdigit (text.headD NUL))
  else some false

/-- For leading digits whose number is outside `int`, `atoi` is undefined. -/
def atoiLine (undefined : Int) (text : List Byte) : Int :=
  if leading text ≤ INT_MAX then atoi text else undefined

/-- `printf("%s\n", argv[line + 2])`; a sum outside `int` is no index. -/
def echoSelected (undefined : Int) (argv : List (Option (List Byte))) : Option (List Byte) := do
  let text ← argument argv 2
  let line := atoiLine undefined text
  if line + 2 ≤ INT_MAX then
    let selected ← argument argv (line + 2)
    some (selected ++ [newline])
  else none

/-- The part that both shells share; the loop starts at the entry `count`. -/
def echo (count : Nat) (undefined : Int) (argv : List (Option (List Byte))) :
    Option (List Byte) := do
  let selected ← selects argv
  if selected then echoSelected undefined argv
  else
    let printed ← echoLoop (argv.drop count)
    some (printed ++ [newline])

/-- What the second version of the shell prints. -/
def bi_echo (undefined : Int) (argv : List (Option (List Byte))) : Option (List Byte) :=
  echo 1 undefined argv

/-- What the first version prints; it looks whether there is an argument. -/
def AnyChild.bi_echo (undefined : Int) (argv : List (Option (List Byte))) : Option (List Byte) := do
  match ← entry argv 1 with
  | none =>
    let name ← argument argv 0
    some (name ++ [newline])
  | some _ => echo 0 undefined argv

/-- There is an argument, and behind `-n` another one; where that starts with a
digit it is the number of one that exists. -/
def Answerable (tokens : List (List Byte)) : Prop :=
  ∃ option, tokens[1]? = some option ∧
    (option = ascii "-n" → ∃ text, tokens[2]? = some text ∧
      (isdigit (text.headD NUL) = true →
        leading text + 2 < tokens.length ∧ leading text + 2 ≤ INT_MAX))

/-- What the loop prints for some tokens. -/
def spaced (tokens : List (List Byte)) : List Byte := tokens.flatMap fun text => text ++ ascii " "

theorem argument_vector (tokens : List (List Byte)) (index : Nat) :
    argument (vector tokens) index = tokens[index]? := by
  rw [argument, entry, if_pos (Int.natCast_nonneg index), Int.toNat_natCast, vector]
  by_cases inside : index < tokens.length
  · rw [List.getElem?_append_left (by simpa using inside), List.getElem?_map]
    cases tokens[index]? <;> rfl
  · have outside : tokens.length ≤ index := Nat.le_of_not_lt inside
    rw [List.getElem?_append_right (by simpa using outside), List.getElem?_eq_none outside]
    cases (index - (tokens.map some).length) <;> rfl

/-- The loop stops at the NULL behind the last token. -/
theorem echoLoop_vector (tokens : List (List Byte)) :
    echoLoop (vector tokens) = some (spaced tokens) := by
  induction tokens with
  | nil => rfl
  | cons text tokens ih =>
    have later : vector (text :: tokens) = some text :: vector tokens := rfl
    rw [later, echoLoop, ih]
    simp [spaced]

theorem drop_vector {tokens : List (List Byte)} {count : Nat} (inside : count ≤ tokens.length) :
    (vector tokens).drop count = vector (tokens.drop count) := by
  rw [vector, List.drop_append_of_le_length (by simpa using inside), vector, List.map_drop]

/-- The number is that of an entry in front of the NULL, whatever `atoi` does outside `int`. -/
theorem echoSelected_iff {tokens : List (List Byte)} {text : List Byte}
    (second : tokens[2]? = some text) (digit : isdigit (text.headD NUL) = true) :
    (∀ undefined, (echoSelected undefined (vector tokens)).isSome) ↔
      leading text + 2 < tokens.length ∧ leading text + 2 ≤ INT_MAX := by
  have read : argument (vector tokens) 2 = some text := by
    rw [← second]
    exact argument_vector tokens 2
  have printed : ∀ undefined, (echoSelected undefined (vector tokens)).isSome ↔
      atoiLine undefined text + 2 ≤ INT_MAX ∧
        (argument (vector tokens) (atoiLine undefined text + 2)).isSome := by
    intro undefined
    simp only [echoSelected, read, Option.bind_eq_bind, Option.bind_some]
    split
    next small =>
      cases argument (vector tokens) (atoiLine undefined text + 2) <;> simp [small]
    next large => simp [large]
  simp only [printed]
  by_cases number : leading text ≤ INT_MAX
  · have index : ∀ undefined, atoiLine undefined text + 2 = ((leading text + 2 : Nat) : Int) := by
      intro undefined
      rw [atoiLine, if_pos number, atoi_leading digit (Nat.lt_succ_of_le number)]
      rfl
    simp only [index, argument_vector, isSome_getElem?, Int.ofNat_le]
    exact ⟨fun inside => (inside 0).symm, fun inside _ => inside.symm⟩
  · refine iff_of_false (fun always => ?_) fun inside => number (by omega)
    -- With a negative number the entry is in front of the vector.
    have outside := (always (-3)).2
    rw [atoiLine, if_neg number] at outside
    have before : argument (vector tokens) (-3 + 2) = none := rfl
    rw [before] at outside
    cases outside

theorem selects_vector (tokens : List (List Byte)) : selects (vector tokens) =
    tokens[1]?.bind fun option =>
      if option = ascii "-n" then tokens[2]?.map fun text => isdigit (text.headD NUL)
      else some false := by
  have first : argument (vector tokens) 1 = tokens[1]? := argument_vector tokens 1
  have second : argument (vector tokens) 2 = tokens[2]? := argument_vector tokens 2
  simp only [selects, first, second, strcmp_eq_iff, Option.bind_eq_bind]
  cases tokens[1]? with
  | none => rfl
  | some option => cases tokens[2]? <;> rfl

/-- The loop never fails, so it is the options that decide. -/
theorem echo_iff {tokens : List (List Byte)} {count : Nat} (inside : count ≤ tokens.length) :
    (∀ undefined, (echo count undefined (vector tokens)).isSome) ↔ Answerable tokens := by
  have looped := echoLoop_vector (tokens.drop count)
  rw [← drop_vector inside] at looped
  simp only [echo, selects_vector, looped]
  cases first : tokens[1]? with
  | none => simp [Answerable, first]
  | some option =>
    by_cases dash : option = ascii "-n"
    · cases second : tokens[2]? with
      | none => simp [Answerable, first, second, dash]
      | some text =>
        cases number : isdigit (text.head?.getD NUL) with
        | false => simp [Answerable, first, second, dash, number]
        | true =>
          have selected := echoSelected_iff second (by simpa using number)
          simpa [Answerable, first, second, dash, number] using selected
    · simp [Answerable, first, dash]

theorem any_child_echo_iff {tokens : List (List Byte)} (filled : tokens ≠ []) :
    (∀ undefined, (AnyChild.bi_echo undefined (vector tokens)).isSome) ↔
      tokens.length = 1 ∨ Answerable tokens := by
  obtain ⟨name, arguments, rfl⟩ := List.exists_cons_of_ne_nil filled
  cases arguments with
  | nil =>
    have printed : ∀ undefined,
        AnyChild.bi_echo undefined (vector [name]) = some (name ++ [newline]) := fun _ => rfl
    simp [printed]
  | cons option arguments =>
    have shared : ∀ undefined, AnyChild.bi_echo undefined (vector (name :: option :: arguments)) =
      echo 0 undefined (vector (name :: option :: arguments)) := fun _ => rfl
    simp [shared, echo_iff]

/-- Both shells stay inside the vector exactly for the lines that `Answerable` describes. -/
theorem bi_echo_inside_iff {line : List Byte} {argv : List (Option (List Byte))}
    (parsed : parse line = some (some argv)) :
    (∀ undefined, (bi_echo undefined argv).isSome ∧ (AnyChild.bi_echo undefined argv).isSome) ↔
      Answerable (tokens line) := by
  rw [parse_spec, Option.some.injEq] at parsed
  split at parsed
  next => cases parsed
  next filled =>
    cases parsed
    have inside : 1 ≤ (tokens line).length := List.length_pos_iff.mpr filled
    rw [forall_and, any_child_echo_iff filled]
    have second : (∀ undefined, (bi_echo undefined (vector (tokens line))).isSome) ↔
      Answerable (tokens line) := echo_iff inside
    rw [second]
    exact ⟨And.left, fun answerable => ⟨answerable, .inr answerable⟩⟩

theorem bi_echo_inside_number :
    (∀ undefined, (bi_echo undefined (vector [ascii "echo", ascii "-n", ascii "1", ascii "a"])).isSome ∧
        (AnyChild.bi_echo undefined
          (vector [ascii "echo", ascii "-n", ascii "1", ascii "a"])).isSome) ↔
      Answerable (tokens (ascii "echo -n 1 a\n")) :=
  bi_echo_inside_iff (by decide)

/-- `echo` alone hands NULL to `strcmp`. -/
theorem bi_echo_alone :
    ¬ ∀ (line : List Byte) (argv : List (Option (List Byte))), parse line = some (some argv) →
      argv[0]?.join = some (ascii "echo") →
        ∀ undefined, (bi_echo undefined argv).isSome ∧ (AnyChild.bi_echo undefined argv).isSome := by
  intro always
  have printed := (always (ascii "echo\n") (vector [ascii "echo"]) (by decide) rfl 0).1
  cases printed

/-- Without `-n` the arguments are printed, by the first version with the name of the command. -/
theorem bi_echo_arguments {name option : List Byte} (plain : option ≠ ascii "-n")
    (arguments : List (List Byte)) (undefined : Int) :
    bi_echo undefined (vector (name :: option :: arguments)) =
        some (spaced (option :: arguments) ++ [newline]) ∧
      AnyChild.bi_echo undefined (vector (name :: option :: arguments)) =
        some (spaced (name :: option :: arguments) ++ [newline]) := by
  have unselected : selects (vector (name :: option :: arguments)) = some false := by
    rw [selects_vector]
    simp [plain]
  have shared : AnyChild.bi_echo undefined (vector (name :: option :: arguments)) =
    echo 0 undefined (vector (name :: option :: arguments)) := rfl
  rw [shared, bi_echo]
  constructor
  · have looped := echoLoop_vector (option :: arguments)
    rw [echo, unselected, drop_vector (by simp)]
    simp [looped]
  · have looped := echoLoop_vector (name :: option :: arguments)
    rw [echo, unselected, List.drop_zero]
    simp [looped]

/-- The prompt comes back exactly from the lines that both shells answer. -/
theorem echoReturns_iff (tokens : List (List Byte)) :
    echoReturns (vector tokens) = true ↔ Answerable tokens := by
  have read : ∀ index : Nat, (vector tokens)[index]?.join = tokens[index]? := by
    intro index
    rw [← argument_vector, argument, entry, if_pos (Int.natCast_nonneg index), Int.toNat_natCast]
  simp only [echoReturns, read, strcmp_eq_iff]
  cases first : tokens[1]? with
  | none => simp [Answerable, first]
  | some option =>
    by_cases dash : option = ascii "-n"
    · cases second : tokens[2]? with
      | none => simp [Answerable, first, second, dash]
      | some text =>
        cases number : isdigit (text.head?.getD NUL) with
        | false => simp [Answerable, first, second, dash, number]
        | true => simp [Answerable, first, second, dash, number, and_comm]
    · simp [Answerable, first, dash]

end LinuxProgramming.Shell
