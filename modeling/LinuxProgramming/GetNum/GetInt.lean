import LinuxProgramming.Foundation.Numerals

/-! Numbers from the command line, checked as a whole.

A text is accepted exactly if it is one number from its start to its end, in the
base that the flags give, in the range of the result, and with the sign that the
flags ask for. The checks are made in a fixed order, and the first that fails
ends the program with its message.
-/

set_option autoImplicit false

namespace LinuxProgramming.GetNum
open Foundation
open Foundation.Numerals (Strtol strtol IsNumeral written shown LONG_MAX LONG_MIN)

def GN_NONNEG : Nat := 0o1
def GN_GT_0 : Nat := 0o2
def GN_ANY_BASE : Nat := 0o100
def GN_BASE_8 : Nat := 0o200
def GN_BASE_16 : Nat := 0o400

def INT_MAX : Int := 2147483647
def INT_MIN : Int := -2147483648

def has (flags flag : Nat) : Bool := flags &&& flag != 0

/-- What `gnFail` reports before it ends the program. -/
structure Failure where
  fname : String
  msg : String
  arg : Option (List Byte)
  name : Option String
  deriving DecidableEq, Repr

/-- The text on standard error. -/
def gnFail (failure : Failure) : List Byte :=
  ascii failure.fname ++ ascii " error" ++
  (match failure.name with
    | some name => ascii " (in " ++ ascii name ++ ascii ")"
    | none => []) ++
  ascii ": " ++ ascii failure.msg ++ [newline] ++
  match failure.arg with
  | some (c :: rest) => ascii "        offending text: " ++ (c :: rest) ++ [newline]
  | _ => []

def baseOf (flags : Nat) : Nat :=
  if has flags GN_ANY_BASE then 0
  else if has flags GN_BASE_8 then 8
  else if has flags GN_BASE_16 then 16
  else 10

/-- `none` is the null pointer, as `argv` has it behind its last argument. -/
def getNum (fname : String) (arg : Option (List Byte)) (flags : Nat) (name : Option String) :
    Except Failure Int :=
  match arg with
  | none | some [] => .error ⟨fname, "null or empty string", arg, name⟩
  | some text =>
    let result := strtol text (baseOf flags)
    if result.erange then .error ⟨fname, "strtol() failed", arg, name⟩
    else if result.endptr ≠ [] then .error ⟨fname, "nonnumeric characters", arg, name⟩
    else if has flags GN_NONNEG && result.res < 0 then
      .error ⟨fname, "negative value not allowed", arg, name⟩
    else if has flags GN_GT_0 && result.res ≤ 0 then
      .error ⟨fname, "value must be > 0", arg, name⟩
    else .ok result.res

def getLong (arg : Option (List Byte)) (flags : Nat) (name : Option String) : Except Failure Int :=
  getNum "getLong" arg flags name

def getInt (arg : Option (List Byte)) (flags : Nat) (name : Option String) : Except Failure Int :=
  match getNum "getInt" arg flags name with
  | .error failure => .error failure
  | .ok res =>
    if INT_MAX < res || res < INT_MIN then .error ⟨"getInt", "integer out of range", arg, name⟩
    else .ok res

/-- The sign is one that the flags admit. -/
def SignAllowed (flags : Nat) (value : Int) : Prop :=
  (has flags GN_NONNEG = true → 0 ≤ value) ∧ (has flags GN_GT_0 = true → 0 < value)

variable {fname : String} {arg : Option (List Byte)} {flags : Nat} {name : Option String} {value : Int}

theorem baseOf_le (flags : Nat) : baseOf flags ≤ 36 := by
  unfold baseOf
  repeat' split
  all_goals decide

/-- A number in range is refused for its sign only, and otherwise comes out as it is. -/
theorem getNum_numeral {text : List Byte} (numeral : IsNumeral (baseOf flags) text value)
    (range : LONG_MIN ≤ value ∧ value ≤ LONG_MAX) :
    getNum fname (some text) flags name =
      if has flags GN_NONNEG && value < 0 then
        .error ⟨fname, "negative value not allowed", some text, name⟩
      else if has flags GN_GT_0 && value ≤ 0 then
        .error ⟨fname, "value must be > 0", some text, name⟩
      else .ok value := by
  have read := Numerals.strtol_of_numeral (baseOf_le flags) numeral
  have clamped : max LONG_MIN (min value LONG_MAX) = value := by omega
  have inside : (value < LONG_MIN || LONG_MAX < value) = false := by
    simp only [Bool.or_eq_false_iff, decide_eq_false_iff_not]
    omega
  rw [clamped, inside] at read
  cases text with
  | nil =>
    obtain ⟨spaces, sign, negative, lead, digits, radix, whole, _, _, _, filled, _⟩ := numeral.parts
    simp only [List.nil_eq, List.append_eq_nil_iff] at whole
    exact absurd whole.2.2.2 filled
  | cons c rest => simp [getNum, read]

theorem getNum_ok {text : List Byte} (numeral : IsNumeral (baseOf flags) text value)
    (range : LONG_MIN ≤ value ∧ value ≤ LONG_MAX) (sign : SignAllowed flags value) :
    getNum fname (some text) flags name = .ok value := by
  have negative : (has flags GN_NONNEG && decide (value < 0)) = false := by
    cases asked : has flags GN_NONNEG with
    | false => rfl
    | true => simpa using sign.1 asked
  have small : (has flags GN_GT_0 && decide (value ≤ 0)) = false := by
    cases asked : has flags GN_GT_0 with
    | false => rfl
    | true => simpa using sign.2 asked
  rw [getNum_numeral numeral range, negative, small]
  rfl

/-- What is accepted is a number, in range, with the right sign. -/
theorem numeral_of_getNum (accepted : getNum fname arg flags name = .ok value) :
    ∃ text, arg = some text ∧ IsNumeral (baseOf flags) text value ∧
      (LONG_MIN ≤ value ∧ value ≤ LONG_MAX) ∧ SignAllowed flags value := by
  unfold getNum at accepted
  split at accepted
  next => cases accepted
  next => cases accepted
  next text filled =>
    refine ⟨text, rfl, ?_⟩
    simp only at accepted
    split at accepted
    next => cases accepted
    next inside =>
      split at accepted
      next => cases accepted
      next whole =>
        split at accepted
        next => cases accepted
        next nonneg =>
          split at accepted
          next => cases accepted
          next positive =>
            obtain rfl := Except.ok.inj accepted
            obtain ⟨value, numeral⟩ := Numerals.numeral_of_strtol (not_not.mp whole)
              (fun none => filled (by rw [none]))
            have read := Numerals.strtol_of_numeral (baseOf_le flags) numeral
            rw [read] at inside nonneg positive ⊢
            simp only [Bool.or_eq_true, decide_eq_true_eq, not_or, not_lt] at inside
            have clamped : max LONG_MIN (min value LONG_MAX) = value := by omega
            simp only [clamped] at nonneg positive ⊢
            refine ⟨numeral, inside, fun asked => ?_, fun asked => ?_⟩
            · simpa [asked] using nonneg
            · simpa [asked] using positive

theorem getLong_ok_iff : getLong arg flags name = .ok value ↔
    ∃ text, arg = some text ∧ IsNumeral (baseOf flags) text value ∧
      (LONG_MIN ≤ value ∧ value ≤ LONG_MAX) ∧ SignAllowed flags value := by
  constructor
  · exact numeral_of_getNum
  · rintro ⟨text, rfl, numeral, range, sign⟩
    exact getNum_ok numeral range sign

/-- The texts that `getInt` accepts are the numbers of the language of the flags. -/
theorem getInt_ok_iff : getInt arg flags name = .ok value ↔
    ∃ text, arg = some text ∧ IsNumeral (baseOf flags) text value ∧
      (INT_MIN ≤ value ∧ value ≤ INT_MAX) ∧ SignAllowed flags value := by
  have wide : LONG_MIN ≤ INT_MIN ∧ INT_MAX ≤ LONG_MAX := by decide
  unfold getInt
  constructor
  · intro accepted
    split at accepted
    next => cases accepted
    next res taken =>
      obtain ⟨text, given, numeral, range, sign⟩ := numeral_of_getNum taken
      split at accepted
      next => cases accepted
      next inside =>
        obtain rfl := Except.ok.inj accepted
        simp only [Bool.or_eq_true, decide_eq_true_eq, not_or, not_lt] at inside
        exact ⟨text, given, numeral, ⟨inside.2, inside.1⟩, sign⟩
  · rintro ⟨text, rfl, numeral, range, sign⟩
    rw [getNum_ok numeral (by omega) sign]
    have inside : (decide (INT_MAX < value) || decide (value < INT_MIN)) = false := by
      simp only [Bool.or_eq_false_iff, decide_eq_false_iff_not]
      omega
    simp only
    rw [inside, if_neg Bool.false_ne_true]

/-- Every failure is reported with the argument and under the name that the caller gave. -/
theorem failure_of_getInt {failure : Failure} (failed : getInt arg flags name = .error failure) :
    failure.fname = "getInt" ∧ failure.arg = arg ∧ failure.name = name := by
  have of_getNum : ∀ {failure}, getNum "getInt" arg flags name = .error failure →
      failure.fname = "getInt" ∧ failure.arg = arg ∧ failure.name = name := by
    intro failure failed
    unfold getNum at failed
    split at failed
    next =>
      obtain rfl := Except.error.inj failed
      exact ⟨rfl, rfl, rfl⟩
    next =>
      obtain rfl := Except.error.inj failed
      exact ⟨rfl, rfl, rfl⟩
    next =>
      simp only at failed
      split_ifs at failed <;> obtain rfl := Except.error.inj failed <;> exact ⟨rfl, rfl, rfl⟩
  unfold getInt at failed
  split at failed
  next first =>
    obtain rfl := Except.error.inj failed
    exact of_getNum first
  next =>
    split at failed
    next =>
      obtain rfl := Except.error.inj failed
      exact ⟨rfl, rfl, rfl⟩
    next => cases failed

/-- The base to write a number in, for a reader with these flags. -/
def writtenBase (flags : Nat) : Nat := if baseOf flags = 0 then 10 else baseOf flags

theorem numeral_writtenBase (flags : Nat) (value : Int) :
    IsNumeral (baseOf flags) (written (writtenBase flags) value)
      (shown (writtenBase flags) value) := by
  have bases : baseOf flags = 0 ∨ 1 < baseOf flags ∧ baseOf flags ≤ 16 := by
    unfold baseOf
    split_ifs <;> decide
  rcases bases with any | ⟨least, most⟩
  · rw [writtenBase, if_pos any, any]
    exact Numerals.numeral_any_base value
  · rw [writtenBase, if_neg (by omega)]
    exact Numerals.numeral_written least most value

/-- What `%d`, `%o` and `%x` write is read back, in the base that the flags give, if the
flags admit its sign. A negative number in octal or hexadecimal is out of range, because
it has been written without its sign. -/
theorem getInt_written (flags : Nat) (name : Option String)
    (range : INT_MIN ≤ value ∧ value ≤ INT_MAX) :
    getInt (some (written (writtenBase flags) value)) flags name =
      if value < 0 ∧ writtenBase flags ≠ 10 then
        .error ⟨"getInt", "integer out of range", some (written (writtenBase flags) value), name⟩
      else if has flags GN_NONNEG && value < 0 then
        .error ⟨"getInt", "negative value not allowed",
          some (written (writtenBase flags) value), name⟩
      else if has flags GN_GT_0 && value ≤ 0 then
        .error ⟨"getInt", "value must be > 0", some (written (writtenBase flags) value), name⟩
      else .ok value := by
  have numeral := numeral_writtenBase flags value
  have bounds : LONG_MIN ≤ shown (writtenBase flags) value ∧
      shown (writtenBase flags) value ≤ LONG_MAX := by
    simp only [shown, LONG_MIN, LONG_MAX, INT_MIN, INT_MAX] at *
    split <;> omega
  have read := @getNum_numeral "getInt" flags name _ _ numeral bounds
  by_cases unsigned : value < 0 ∧ writtenBase flags ≠ 10
  · -- As an `unsigned int` it is above every `int`, so no check of the sign fails.
    have large : shown (writtenBase flags) value = value + 2 ^ 32 := by
      rw [shown, if_neg unsigned.2]
      simp only [INT_MIN, INT_MAX] at range
      omega
    have above : INT_MAX < value + 2 ^ 32 := by
      simp only [INT_MIN, INT_MAX] at range ⊢
      omega
    have positive : ¬value + 2 ^ 32 < 0 ∧ ¬value + 2 ^ 32 ≤ 0 := by
      simp only [INT_MAX] at above
      omega
    rw [large] at read
    simp only [positive.1, positive.2, decide_false, Bool.and_false, Bool.false_eq_true,
      if_false] at read
    simp only [getInt, read, above, decide_true, Bool.true_or, if_true, if_pos unsigned]
  · have same : shown (writtenBase flags) value = value := by
      simp only [shown, INT_MIN, INT_MAX] at range ⊢
      split
      · rfl
      · omega
    have inside : (decide (INT_MAX < value) || decide (value < INT_MIN)) = false := by
      simp only [Bool.or_eq_false_iff, decide_eq_false_iff_not]
      omega
    rw [same] at read
    rw [if_neg unsigned, getInt, read]
    cases has flags GN_NONNEG && decide (value < 0) with
    | true => rfl
    | false =>
      cases has flags GN_GT_0 && decide (value ≤ 0) with
      | true => rfl
      | false => simp [inside]

theorem getInt_written_hex :
    getInt (some (written 16 (-1))) GN_BASE_16 none =
      .error ⟨"getInt", "integer out of range", some (ascii "ffffffff"), none⟩ :=
  getInt_written GN_BASE_16 none (by decide)

example : getInt (some (ascii " -0x1f")) GN_ANY_BASE none = .ok (-31) := by decide

example : gnFail ⟨"getInt", "value must be > 0", some (ascii "0"), some "seq-len"⟩ =
    ascii "getInt error (in seq-len): value must be > 0\n        offending text: 0\n" := by decide

end LinuxProgramming.GetNum
