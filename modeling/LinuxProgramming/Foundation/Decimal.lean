import LinuxProgramming.Foundation.CString
import Mathlib.Data.Nat.Digits.Defs

/-! Decimal numbers in strings: the conversion `%d`, for output and for input. -/

set_option autoImplicit false

namespace LinuxProgramming.Foundation

/-- White space in the C locale. -/
def isspace (c : Byte) : Bool := c = ' '.toUInt8 || (9 ≤ c.toNat && c.toNat ≤ 13)

def isdigit (c : Byte) : Bool := 48 ≤ c.toNat && c.toNat ≤ 57

def minus : Byte := '-'.toUInt8

def plus : Byte := '+'.toUInt8

/-- The number that a sequence of decimal digits stands for. -/
def ofDecimal (digits : List Byte) : Nat :=
  Nat.ofDigits 10 (digits.reverse.map fun c => c.toNat - 48)

/-- What `%d` writes. -/
def decimal (value : Int) : List Byte :=
  (if value < 0 then [minus] else []) ++ (Nat.toDigits 10 value.natAbs).map Char.toUInt8

/-- Whether a minus sign stands first, and what is behind the sign. -/
def scanSign : List Byte → Bool × List Byte
  | [] => (false, [])
  | c :: rest =>
    if c = minus then (true, rest) else if c = plus then (false, rest) else (false, c :: rest)

/-- The number that `%d` reads, and what is left. White space and a sign may
stand before the digits. -/
def scanInt (text : List Byte) : Option (Int × List Byte) :=
  let item := scanSign (text.dropWhile isspace)
  let digits := item.2.takeWhile isdigit
  if digits = [] then none
  else some (if item.1 then -ofDecimal digits else ofDecimal digits, item.2.dropWhile isdigit)

/-- What `sscanf` stores for `count` times `%d`: the first conversion that fails is the last. -/
def scanInts : Nat → List Byte → List Int
  | 0, _ => []
  | count + 1, text =>
    match scanInt text with
    | none => []
    | some (value, rest) => value :: scanInts count rest

/-- A number that was read: the `lead` is white space and the sign. -/
structure Scanned (text lead digits rest : List Byte) (value : Int) : Prop where
  whole : text = lead ++ digits ++ rest
  filled : digits ≠ []
  all_digits : ∀ c ∈ digits, isdigit c = true
  ended : ∀ c ∈ rest.head?, isdigit c = false
  bounded : value.natAbs < 10 ^ digits.length
  signed : value < 0 → lead ≠ []

theorem ofDecimal_lt {digits : List Byte} (all_digits : ∀ c ∈ digits, isdigit c = true) :
    ofDecimal digits < 10 ^ digits.length := by
  have bounded : ∀ d ∈ digits.reverse.map fun c => c.toNat - 48, d < 10 := by
    intro d member
    obtain ⟨c, inside, rfl⟩ := List.mem_map.mp member
    have digit := all_digits c (List.mem_reverse.mp inside)
    simp only [isdigit, Bool.and_eq_true, decide_eq_true_eq] at digit
    omega
  simpa [ofDecimal] using Nat.ofDigits_lt_base_pow_length (by decide) bounded

theorem scanSign_append (text : List Byte) :
    ∃ sign, text = sign ++ (scanSign text).2 ∧ ((scanSign text).1 = true → sign ≠ []) := by
  cases text with
  | nil => exact ⟨[], rfl, by simp [scanSign]⟩
  | cons c rest =>
    simp only [scanSign]
    split
    next => exact ⟨[c], rfl, by simp⟩
    next =>
      split
      next => exact ⟨[c], rfl, by simp⟩
      next => exact ⟨[], rfl, by simp⟩

theorem scanned_of_scanInt {text rest : List Byte} {value : Int}
    (read : scanInt text = some (value, rest)) :
    ∃ lead digits, Scanned text lead digits rest value := by
  obtain ⟨sign, signed, negative⟩ := scanSign_append (text.dropWhile isspace)
  simp only [scanInt] at read
  generalize scanSign (text.dropWhile isspace) = item at read signed negative
  split at read
  next => cases read
  next filled =>
    simp only [Option.some.injEq, Prod.mk.injEq] at read
    obtain ⟨rfl, rfl⟩ := read
    have all_digits : ∀ c ∈ item.2.takeWhile isdigit, isdigit c = true :=
      fun c member => List.mem_takeWhile_imp member
    refine ⟨text.takeWhile isspace ++ sign, item.2.takeWhile isdigit, ?_, filled, all_digits,
      ?_, ?_, ?_⟩
    · calc
        text = text.takeWhile isspace ++ text.dropWhile isspace := by
          rw [List.takeWhile_append_dropWhile]
        _ = text.takeWhile isspace ++ (sign ++ item.2) := by rw [signed]
        _ = _ := by rw [List.append_assoc, List.append_assoc, List.takeWhile_append_dropWhile]
    · intro c first
      have outside := List.head?_dropWhile_not isdigit item.2
      rw [Option.mem_def.mp first] at outside
      simpa using outside
    · have bounded := ofDecimal_lt all_digits
      split <;> simpa
    · intro below
      have minus_first : item.1 = true := by
        by_contra other
        rw [if_neg other] at below
        omega
      simp [negative minus_first]

/-- Two numbers that follow each other are separated. -/
theorem Scanned.lead_ne_nil {text before digits rest lead more left : List Byte}
    {first second : Int} (scanned : Scanned text before digits rest first)
    (next : Scanned rest lead more left second) : lead ≠ [] := by
  rintro rfl
  obtain ⟨c, others, rfl⟩ := List.exists_cons_of_ne_nil next.filled
  have digit := next.all_digits c (List.mem_cons_self)
  have other := scanned.ended c (by simp [next.whole])
  rw [digit] at other
  cases other

theorem decimal_length {value : Int} {count : Nat} (positive : 0 < count)
    (bounded : value.natAbs < 10 ^ count) :
    (decimal value).length ≤ (if value < 0 then 1 else 0) + count := by
  have digits := (Nat.length_toDigits_le_iff (by decide) positive).mpr bounded
  simp only [decimal, List.length_append, List.length_map]
  split <;> simpa using digits

/-- The sum of two numbers is written in fewer characters than the two of them. -/
theorem decimal_sum_length {text : List Byte} {first second : Int}
    (read : scanInts 2 text = [first, second]) :
    (decimal (first + second)).length < text.length := by
  simp only [scanInts] at read
  split at read
  next => cases read
  next value rest one =>
    split at read
    next => cases read
    next other left two =>
      simp only [List.cons.injEq, and_true] at read
      obtain ⟨rfl, rfl⟩ := read
      obtain ⟨before, digits, scanned⟩ := scanned_of_scanInt one
      obtain ⟨lead, more, next⟩ := scanned_of_scanInt two
      have separated := List.length_pos_iff.mpr (scanned.lead_ne_nil next)
      have here := List.length_pos_iff.mpr scanned.filled
      have there := List.length_pos_iff.mpr next.filled
      have length : text.length =
          before.length + digits.length + (lead.length + more.length + left.length) := by
        rw [scanned.whole, next.whole]
        simp [Nat.add_assoc]
      have sum : (value + other).natAbs < 10 ^ (digits.length + more.length) := by
        have small := Nat.pow_le_pow_right (show 0 < 10 by decide) here
        have large := Nat.pow_le_pow_right (show 0 < 10 by decide) there
        have := scanned.bounded
        have := next.bounded
        rw [Nat.pow_add]
        nlinarith [Int.natAbs_add_le value other]
      by_cases signed : value < 0
      · have sign := List.length_pos_iff.mpr (scanned.signed signed)
        have written := decimal_length (by omega) sum
        split at written <;> omega
      · by_cases below : value + other < 0
        · -- Only the second number is negative, and it is the larger one.
          have smaller : (value + other).natAbs < 10 ^ more.length :=
            Nat.lt_of_le_of_lt (by omega) next.bounded
          have written := decimal_length there smaller
          rw [if_pos below] at written
          omega
        · have written := decimal_length (by omega) sum
          rw [if_neg below] at written
          omega

theorem isdigit_toDigits {value : Nat} {c : Byte}
    (member : c ∈ (Nat.toDigits 10 value).map Char.toUInt8) : isdigit c = true := by
  obtain ⟨character, inside, rfl⟩ := List.mem_map.mp member
  have known := Nat.isDigit_of_mem_toDigits (by decide) (by decide) inside
  simp only [Char.isDigit, Bool.and_eq_true, decide_eq_true_eq, ge_iff_le,
    UInt32.le_iff_toNat_le] at known
  have low : 48 ≤ character.val.toNat := known.1
  have high : character.val.toNat ≤ 57 := known.2
  simp only [isdigit, Char.toUInt8, UInt32.toNat_toUInt8, Bool.and_eq_true, decide_eq_true_eq]
  omega

theorem decimal_character {value : Int} {c : Byte} (member : c ∈ decimal value) :
    c = minus ∨ isdigit c = true := by
  rcases List.mem_append.mp member with sign | digit
  · split at sign
    · exact .inl (List.mem_singleton.mp sign)
    · cases sign
  · exact .inr (isdigit_toDigits digit)

theorem NUL_not_mem_decimal (value : Int) : NUL ∉ decimal value := by
  intro member
  rcases decimal_character member with same | digit
  · revert same
    decide
  · revert digit
    decide

theorem newline_not_mem_decimal (value : Int) : newline ∉ decimal value := by
  intro member
  rcases decimal_character member with same | digit
  · revert same
    decide
  · revert digit
    decide

theorem ofDecimal_append (digits : List Byte) (c : Byte) :
    ofDecimal (digits ++ [c]) = (c.toNat - 48) + 10 * ofDecimal digits := by
  rw [ofDecimal, List.reverse_append, List.reverse_singleton, List.singleton_append, List.map_cons,
    Nat.ofDigits_cons]
  rfl

theorem digitChar_value {digit : Nat} (small : digit < 10) :
    (Nat.digitChar digit).toUInt8.toNat - 48 = digit := by
  have all : ∀ digit < 10, (Nat.digitChar digit).toUInt8.toNat - 48 = digit := by decide
  exact all digit small

theorem ofDecimal_toDigits (value : Nat) :
    ofDecimal ((Nat.toDigits 10 value).map Char.toUInt8) = value := by
  induction value using Nat.strong_induction_on with
  | h value ih =>
    by_cases single : value < 10
    · rw [Nat.toDigits_of_lt_base single]
      have digit := ofDecimal_append [] (Nat.digitChar value).toUInt8
      rw [digitChar_value single] at digit
      exact digit
    · have higher := ih (value / 10) (by omega)
      rw [Nat.toDigits_of_base_le (by decide) (Nat.le_of_not_lt single), List.map_append,
        List.map_singleton, ofDecimal_append, higher, digitChar_value (Nat.mod_lt value (by decide))]
      exact Nat.mod_add_div value 10

theorem decimal_natCast (value : Nat) :
    decimal value = (Nat.toDigits 10 value).map Char.toUInt8 := by
  rw [decimal, if_neg (Int.not_lt.mpr (Int.natCast_nonneg value)), List.nil_append,
    Int.natAbs_natCast]

theorem scanInt_space {c : Byte} (space : isspace c = true) (text : List Byte) :
    scanInt (c :: text) = scanInt text := by
  rw [scanInt, List.dropWhile_cons, if_pos space]
  rfl

theorem digit_plain {c : Byte} (digit : isdigit c = true) :
    isspace c = false ∧ c ≠ minus ∧ c ≠ plus := by
  simp only [isdigit, Bool.and_eq_true, decide_eq_true_eq] at digit
  have other : ∀ sign : Byte, sign.toNat < 48 → c ≠ sign := by
    rintro _ low rfl
    omega
  refine ⟨?_, other minus (by decide), other plus (by decide)⟩
  have blank := other ' '.toUInt8 (by decide)
  simp only [isspace, blank, decide_false, Bool.false_or, Bool.and_eq_false_iff,
    decide_eq_false_iff_not]
  omega

theorem takeWhile_ended {digits rest : List Byte} (all_digits : ∀ c ∈ digits, isdigit c = true)
    (ended : ∀ c ∈ rest.head?, isdigit c = false) :
    (digits ++ rest).takeWhile isdigit = digits ∧ (digits ++ rest).dropWhile isdigit = rest := by
  rw [List.takeWhile_append_of_pos all_digits, List.dropWhile_append_of_pos all_digits]
  cases rest with
  | nil => exact ⟨List.append_nil digits, rfl⟩
  | cons c rest =>
    have stop := ended c rfl
    simp [stop]

theorem scanInt_digits {digits rest : List Byte} (filled : digits ≠ [])
    (all_digits : ∀ c ∈ digits, isdigit c = true) (ended : ∀ c ∈ rest.head?, isdigit c = false) :
    scanInt (digits ++ rest) = some ((ofDecimal digits : Int), rest) := by
  obtain ⟨taken, dropped⟩ := takeWhile_ended all_digits ended
  obtain ⟨c, more, rfl⟩ := List.exists_cons_of_ne_nil filled
  obtain ⟨blank, negative, positive⟩ := digit_plain (all_digits c List.mem_cons_self)
  have start : ((c :: more) ++ rest).dropWhile isspace = (c :: more) ++ rest := by
    rw [List.cons_append, List.dropWhile_cons, blank]
    rfl
  have unsigned : scanSign ((c :: more) ++ rest) = (false, (c :: more) ++ rest) := by
    rw [List.cons_append, scanSign, if_neg negative, if_neg positive]
  rw [scanInt, start, unsigned]
  simp only [taken, dropped]
  rw [if_neg filled, if_neg Bool.false_ne_true]

/-- What `%d` has written, it reads back. -/
theorem scanInt_decimal (value : Nat) {rest : List Byte}
    (ended : ∀ c ∈ rest.head?, isdigit c = false) :
    scanInt (decimal value ++ rest) = some ((value : Int), rest) := by
  rw [decimal_natCast, scanInt_digits (mt List.map_eq_nil_iff.mp Nat.toDigits_ne_nil)
    (fun _ => isdigit_toDigits) ended, ofDecimal_toDigits]

end LinuxProgramming.Foundation
