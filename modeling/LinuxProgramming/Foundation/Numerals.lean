import LinuxProgramming.Foundation.Decimal

/-! Numbers in any base up to 36, as `strtol` reads them and the `printf` family writes them.

White space and one sign may stand first. In base 16 a prefix may follow; base 0 takes
the base from the prefix: hexadecimal with `0x`, octal with `0`, and decimal otherwise.
-/

set_option autoImplicit false

namespace LinuxProgramming.Foundation

namespace Numerals

def zero : Byte := '0'.toUInt8

/-- The value of a digit; 36 stands for a character that is a digit in no base. -/
def digitValue (c : Byte) : Nat :=
  if isdigit c then c.toNat - 48
  else if 97 ≤ c.toNat ∧ c.toNat ≤ 122 then c.toNat - 87
  else if 65 ≤ c.toNat ∧ c.toNat ≤ 90 then c.toNat - 55
  else 36

def isDigitOf (base : Nat) (c : Byte) : Bool := digitValue c < base

/-- The number that a sequence of digits stands for. -/
def ofDigits (base : Nat) (digits : List Byte) : Nat :=
  Nat.ofDigits base (digits.reverse.map digitValue)

def isX (c : Byte) : Bool := c = 'x'.toUInt8 || c = 'X'.toUInt8

/-- The prefix of a hexadecimal number counts as one only with a digit behind it. -/
def hexPrefixed : List Byte → Bool
  | first :: second :: digit :: _ => first = zero && isX second && isDigitOf 16 digit
  | _ => false

/-- The base to read in, and where the digits begin. -/
def resolve (base : Nat) (text : List Byte) : Nat × List Byte :=
  if (base = 0 || base = 16) && hexPrefixed text then (16, text.drop 2)
  else if base = 0 then (if text.head? = some zero then 8 else 10, text)
  else (base, text)

def LONG_MAX : Int := 9223372036854775807
def LONG_MIN : Int := -9223372036854775808

/-- What `strtol` gives: the value, the text from `endptr` on, and whether it sets `errno`. -/
structure Strtol where
  res : Int
  endptr : List Byte
  erange : Bool
  deriving DecidableEq, Repr

/-- Without a digit, `endptr` is the start of the text. -/
def strtol (text : List Byte) (base : Nat) : Strtol :=
  let item := scanSign (text.dropWhile isspace)
  let read := resolve base item.2
  let digits := read.2.takeWhile (isDigitOf read.1)
  let value : Int := if item.1 then -ofDigits read.1 digits else ofDigits read.1 digits
  if digits = [] then ⟨0, text, false⟩
  else
    { res := max LONG_MIN (min value LONG_MAX)
      endptr := read.2.dropWhile (isDigitOf read.1)
      erange := value < LONG_MIN || LONG_MAX < value }

/-- The sign that may stand before a number. -/
inductive Sign : List Byte → Bool → Prop where
  | none : Sign [] false
  | plus : Sign [plus] false
  | minus : Sign [minus] true

/-- How the base of a number is given: by the caller, or before or by its digits. -/
inductive Radix : Nat → List Byte → List Byte → Nat → Prop where
  | given {base : Nat} {digits : List Byte} : base ≠ 0 → Radix base [] digits base
  | hex {base : Nat} {digits : List Byte} {x : Byte} : base = 0 ∨ base = 16 → isX x = true →
      Radix base [zero, x] digits 16
  | octal {digits : List Byte} : Radix 0 [] (zero :: digits) 8
  | decimal {digits : List Byte} : digits.head? ≠ some zero → Radix 0 [] digits 10

/-- The text is a number from its start to its end. -/
structure IsNumeral (base : Nat) (text : List Byte) (value : Int) : Prop where
  parts : ∃ spaces sign negative lead digits radix,
    text = spaces ++ (sign ++ (lead ++ digits)) ∧ (∀ c ∈ spaces, isspace c = true) ∧
      Sign sign negative ∧ Radix base lead digits radix ∧ digits ≠ [] ∧
        (∀ c ∈ digits, isDigitOf radix c = true) ∧
          value = if negative then -(ofDigits radix digits : Int) else ofDigits radix digits

variable {base radix : Nat} {text rest lead digits : List Byte} {value : Int}

theorem digitValue_lt {c : Byte} (small : digitValue c < 36) :
    48 ≤ c.toNat ∧ c.toNat ≤ 57 ∨ 97 ≤ c.toNat ∧ c.toNat ≤ 122 ∨ 65 ≤ c.toNat ∧ c.toNat ≤ 90 := by
  unfold digitValue at small
  split at small
  next digit =>
    simp only [isdigit, Bool.and_eq_true, decide_eq_true_eq] at digit
    exact .inl digit
  next =>
    split at small
    next lower => exact .inr (.inl lower)
    next =>
      split at small
      next upper => exact .inr (.inr upper)
      next => omega

theorem isDigitOf_ten {c : Byte} (digit : isdigit c = true) : isDigitOf 10 c = true := by
  have range := digit
  simp only [isdigit, Bool.and_eq_true, decide_eq_true_eq] at range
  rw [isDigitOf, digitValue, if_pos digit, decide_eq_true_eq]
  omega

/-- A digit is neither white space nor a sign. -/
theorem digit_plain {c : Byte} (most : base ≤ 36) (digit : isDigitOf base c = true) :
    isspace c = false ∧ c ≠ minus ∧ c ≠ plus := by
  have graph := digitValue_lt (Nat.lt_of_lt_of_le (of_decide_eq_true digit) most)
  have other : ∀ sign : Byte, sign.toNat < 48 → c ≠ sign := by
    rintro _ low rfl
    omega
  refine ⟨?_, other minus (by decide), other plus (by decide)⟩
  have blank := other ' '.toUInt8 (by decide)
  simp only [isspace, blank, decide_false, Bool.false_or, Bool.and_eq_false_iff,
    decide_eq_false_iff_not]
  omega

/-- The letter of the prefix is no digit in a base up to 33. -/
theorem x_no_digit {c : Byte} (small : base ≤ 33) (x : isX c = true) : isDigitOf base c = false := by
  have letter : digitValue c = 33 := by
    simp only [isX, Bool.or_eq_true, decide_eq_true_eq] at x
    rcases x with rfl | rfl <;> decide
  simp [isDigitOf, letter]
  omega

theorem hexPrefixed_iff : hexPrefixed text = true ↔
    ∃ x digit more, text = zero :: x :: digit :: more ∧ isX x = true ∧ isDigitOf 16 digit = true := by
  unfold hexPrefixed
  split
  next first second digit more =>
    simp only [Bool.and_eq_true, decide_eq_true_eq]
    constructor
    · rintro ⟨⟨rfl, x⟩, one⟩
      exact ⟨second, digit, more, rfl, x, one⟩
    · rintro ⟨_, _, _, same, x, one⟩
      simp only [List.cons.injEq] at same
      obtain ⟨rfl, rfl, rfl, rfl⟩ := same
      exact ⟨⟨rfl, x⟩, one⟩
  next other =>
    refine iff_of_false Bool.false_ne_true ?_
    rintro ⟨x, digit, more, rfl, _⟩
    exact other _ _ _ _ rfl

/-- Digits of a base up to 16 do not begin with the prefix. -/
theorem not_hexPrefixed (small : base ≤ 33) (all_digits : ∀ c ∈ digits, isDigitOf base c = true) :
    hexPrefixed digits = false := by
  rw [← Bool.not_eq_true, hexPrefixed_iff]
  rintro ⟨x, digit, more, rfl, letter, _⟩
  have one := all_digits x (by simp)
  rw [x_no_digit small letter] at one
  cases one

/-- The base that the text gives is the one it is read in. -/
theorem resolve_of_radix (given : Radix base lead digits radix) (filled : digits ≠ [])
    (all_digits : ∀ c ∈ digits, isDigitOf radix c = true) :
    resolve base (lead ++ digits) = (radix, digits) := by
  cases given with
  | given some_base =>
    have zero_base : (base = 0) = False := eq_false some_base
    by_cases sixteen : base = 16
    · subst sixteen
      simp [resolve, not_hexPrefixed (by decide) all_digits]
    · simp [resolve, some_base, sixteen]
  | @hex _ _ x either letter =>
    obtain ⟨digit, more, rfl⟩ := List.exists_cons_of_ne_nil filled
    have marked : hexPrefixed (zero :: x :: digit :: more) = true :=
      hexPrefixed_iff.mpr ⟨x, digit, more, rfl, letter, all_digits digit List.mem_cons_self⟩
    simp [resolve, marked, either]
  | octal => simp [resolve, not_hexPrefixed (by decide) all_digits]
  | decimal other => simp [resolve, not_hexPrefixed (by decide) all_digits, other]

theorem radix_of_resolve (filled : (resolve base rest).2 ≠ []) :
    ∃ lead, rest = lead ++ (resolve base rest).2 ∧
      Radix base lead (resolve base rest).2 (resolve base rest).1 := by
  unfold resolve at filled ⊢
  split
  next marked =>
    simp only [Bool.and_eq_true, Bool.or_eq_true, decide_eq_true_eq] at marked
    obtain ⟨either, start⟩ := marked
    obtain ⟨x, digit, more, rfl, letter, _⟩ := hexPrefixed_iff.mp start
    exact ⟨[zero, x], rfl, .hex either letter⟩
  next unmarked =>
    rw [if_neg unmarked] at filled
    split
    next none =>
      subst none
      simp only [if_true] at filled
      obtain ⟨first, more, rfl⟩ := List.exists_cons_of_ne_nil filled
      by_cases octal : first = zero
      · subst octal
        exact ⟨[], rfl, .octal⟩
      · refine ⟨[], rfl, ?_⟩
        rw [List.head?_cons, if_neg (by simpa using octal)]
        exact .decimal (by simpa using octal)
    next some_base => exact ⟨[], rfl, .given some_base⟩

theorem Radix.le (given : Radix base lead digits radix) (most : base ≤ 36) : radix ≤ 36 := by
  cases given with
  | given => exact most
  | hex => decide
  | octal => decide
  | decimal => decide

/-- The first character behind the sign is a digit. -/
theorem Radix.first_plain (given : Radix base lead digits radix) (most : base ≤ 36)
    (filled : digits ≠ []) (all_digits : ∀ c ∈ digits, isDigitOf radix c = true) :
    ∃ c more, lead ++ digits = c :: more ∧ isspace c = false ∧ c ≠ minus ∧ c ≠ plus := by
  obtain ⟨digit, others, rfl⟩ := List.exists_cons_of_ne_nil filled
  have plain := digit_plain (given.le most) (all_digits digit List.mem_cons_self)
  cases given with
  | hex => exact ⟨zero, _, rfl, by decide, by decide, by decide⟩
  | given | octal | decimal => exact ⟨_, _, rfl, plain⟩

theorem dropWhile_plain {predicate : Byte → Bool} {front : List Byte} {c : Byte} {more : List Byte}
    (all : ∀ c ∈ front, predicate c = true) (stop : predicate c = false) :
    (front ++ c :: more).dropWhile predicate = c :: more := by
  rw [List.dropWhile_append_of_pos all, List.dropWhile_cons, stop]
  rfl

/-- White space and the sign are taken off the number. -/
theorem scanSign_spaces {spaces sign : List Byte} {negative : Bool} {c : Byte} {more : List Byte}
    (blank : ∀ c ∈ spaces, isspace c = true) (signed : Sign sign negative)
    (plain : isspace c = false ∧ c ≠ minus ∧ c ≠ plus) :
    scanSign ((spaces ++ (sign ++ c :: more)).dropWhile isspace) = (negative, c :: more) := by
  obtain ⟨solid, negative_free, positive_free⟩ := plain
  cases signed with
  | none =>
    rw [List.nil_append, dropWhile_plain blank solid]
    simp [scanSign, negative_free, positive_free]
  | plus =>
    rw [List.cons_append, List.nil_append, dropWhile_plain blank (by decide)]
    rfl
  | minus =>
    rw [List.cons_append, List.nil_append, dropWhile_plain blank (by decide)]
    rfl

/-- A number that fills its text is read to its end. -/
theorem strtol_of_numeral (most : base ≤ 36) (numeral : IsNumeral base text value) :
    strtol text base =
      ⟨max LONG_MIN (min value LONG_MAX), [], value < LONG_MIN || LONG_MAX < value⟩ := by
  obtain ⟨spaces, sign, negative, lead, digits, radix, rfl, blank, signed, given, filled, all_digits,
    rfl⟩ := numeral.parts
  obtain ⟨c, more, start, plain⟩ := given.first_plain most filled all_digits
  have scanned : scanSign ((spaces ++ (sign ++ (lead ++ digits))).dropWhile isspace) =
      (negative, lead ++ digits) := by
    rw [start]
    exact scanSign_spaces blank signed plain
  have taken : digits.takeWhile (isDigitOf radix) = digits :=
    List.takeWhile_eq_self_iff.mpr all_digits
  have dropped : digits.dropWhile (isDigitOf radix) = [] :=
    List.dropWhile_eq_nil_iff.mpr all_digits
  simp only [strtol, scanned, resolve_of_radix given filled all_digits, taken, dropped, if_neg filled]

theorem scanSign_sign (text : List Byte) :
    ∃ sign, text = sign ++ (scanSign text).2 ∧ Sign sign (scanSign text).1 := by
  cases text with
  | nil => exact ⟨[], rfl, .none⟩
  | cons c rest =>
    simp only [scanSign]
    split
    next same => exact ⟨[c], rfl, same ▸ .minus⟩
    next =>
      split
      next same => exact ⟨[c], rfl, same ▸ .plus⟩
      next => exact ⟨[], rfl, .none⟩

/-- A text that is read to its end is a number. -/
theorem numeral_of_strtol (whole : (strtol text base).endptr = []) (filled : text ≠ []) :
    ∃ value, IsNumeral base text value := by
  obtain ⟨sign, signed, negative⟩ := scanSign_sign (text.dropWhile isspace)
  unfold strtol at whole
  simp only at whole
  split at whole
  next => exact absurd whole filled
  next some_digits =>
    generalize scanSign (text.dropWhile isspace) = item at whole some_digits signed negative
    have all_digits : ∀ c ∈ (resolve base item.2).2, isDigitOf (resolve base item.2).1 c = true :=
      List.dropWhile_eq_nil_iff.mp whole
    have present : (resolve base item.2).2 ≠ [] := by
      intro none
      rw [none] at some_digits
      exact some_digits rfl
    obtain ⟨lead, behind, given⟩ := radix_of_resolve present
    refine ⟨_, ⟨text.takeWhile isspace, sign, item.1, lead, (resolve base item.2).2, _, ?_,
      fun c member => List.mem_takeWhile_imp member, negative, given, present, all_digits, rfl⟩⟩
    rw [← behind, ← signed, List.takeWhile_append_dropWhile]

/-- What `%d` writes, and `%o` and `%x` in their bases: these show the bits of an
`int` as those of an `unsigned int`. -/
def written (base : Nat) (value : Int) : List Byte :=
  if base = 10 then decimal value
  else (Nat.toDigits base (value % 2 ^ 32).toNat).map Char.toUInt8

/-- The number that these digits stand for. -/
def shown (base : Nat) (value : Int) : Int := if base = 10 then value else value % 2 ^ 32

theorem digitChar_value {digit : Nat} (small : digit < 16) :
    digitValue (Nat.digitChar digit).toUInt8 = digit := by
  have all : ∀ digit < 16, digitValue (Nat.digitChar digit).toUInt8 = digit := by decide
  exact all digit small

theorem ofDigits_append (base : Nat) (digits : List Byte) (c : Byte) :
    ofDigits base (digits ++ [c]) = digitValue c + base * ofDigits base digits := by
  rw [ofDigits, List.reverse_append, List.reverse_singleton, List.singleton_append, List.map_cons,
    Nat.ofDigits_cons]
  rfl

theorem ofDigits_toDigits (least : 1 < base) (most : base ≤ 16) (number : Nat) :
    ofDigits base ((Nat.toDigits base number).map Char.toUInt8) = number := by
  induction number using Nat.strong_induction_on with
  | h number ih =>
    by_cases single : number < base
    · rw [Nat.toDigits_of_lt_base single]
      have digit := ofDigits_append base [] (Nat.digitChar number).toUInt8
      rw [digitChar_value (Nat.lt_of_lt_of_le single most)] at digit
      simpa [ofDigits] using digit
    · have higher := ih (number / base) (Nat.div_lt_self (by omega) least)
      have low := Nat.mod_lt number (Nat.lt_of_succ_lt least)
      rw [Nat.toDigits_of_base_le least (Nat.le_of_not_lt single), List.map_append,
        List.map_singleton, ofDigits_append, higher,
        digitChar_value (Nat.lt_of_lt_of_le low most)]
      exact Nat.mod_add_div number base

theorem isDigitOf_toDigits (least : 1 < base) (most : base ≤ 16) (number : Nat) :
    ∀ c ∈ (Nat.toDigits base number).map Char.toUInt8, isDigitOf base c = true := by
  induction number using Nat.strong_induction_on with
  | h number ih =>
    intro c member
    by_cases single : number < base
    · rw [Nat.toDigits_of_lt_base single] at member
      obtain rfl := List.mem_singleton.mp member
      simpa [isDigitOf, digitChar_value (Nat.lt_of_lt_of_le single most)] using single
    · have low := Nat.mod_lt number (Nat.lt_of_succ_lt least)
      rw [Nat.toDigits_of_base_le least (Nat.le_of_not_lt single), List.map_append,
        List.mem_append] at member
      rcases member with higher | last
      · exact ih (number / base) (Nat.div_lt_self (by omega) least) c higher
      · obtain rfl := List.mem_singleton.mp last
        simpa [isDigitOf, digitChar_value (Nat.lt_of_lt_of_le low most)] using low

/-- A number that is not 0 does not begin with the digit 0. -/
theorem toDigits_head (least : 1 < base) (most : base ≤ 16) {number : Nat} (positive : 0 < number) :
    ((Nat.toDigits base number).map Char.toUInt8).head? ≠ some zero := by
  induction number using Nat.strong_induction_on with
  | h number ih =>
    by_cases single : number < base
    · rw [Nat.toDigits_of_lt_base single]
      intro same
      have value := digitChar_value (Nat.lt_of_lt_of_le single most)
      rw [show (Nat.digitChar number).toUInt8 = zero from Option.some.inj same] at value
      have : digitValue zero = 0 := by decide
      omega
    · have larger := Nat.div_pos (Nat.le_of_not_lt single) (Nat.lt_of_succ_lt least)
      have higher := ih (number / base) (Nat.div_lt_self positive least) larger
      obtain ⟨first, more, start⟩ := List.exists_cons_of_ne_nil
        (mt List.map_eq_nil_iff.mp (Nat.toDigits_ne_nil (b := base) (n := number / base)) :
          (Nat.toDigits base (number / base)).map Char.toUInt8 ≠ [])
      rw [start] at higher
      rw [Nat.toDigits_of_base_le least (Nat.le_of_not_lt single), List.map_append, start]
      exact higher

/-- A minus sign and the digits of the absolute value. -/
theorem numeral_of_signed (least : 1 < radix) (most : radix ≤ 16) (value : Int)
    (given : Radix base [] ((Nat.toDigits radix value.natAbs).map Char.toUInt8) radix) :
    IsNumeral base ((if value < 0 then [minus] else []) ++
      (Nat.toDigits radix value.natAbs).map Char.toUInt8) value := by
  have present : (Nat.toDigits radix value.natAbs).map Char.toUInt8 ≠ [] :=
    mt List.map_eq_nil_iff.mp Nat.toDigits_ne_nil
  have digits := isDigitOf_toDigits least most value.natAbs
  have number := ofDigits_toDigits least most value.natAbs
  by_cases below : value < 0
  · refine ⟨[], [minus], true, [], _, radix, ?_, by simp, .minus, given, present, digits, ?_⟩
    · rw [if_pos below]
      rfl
    · rw [number, if_pos rfl]
      omega
  · refine ⟨[], [], false, [], _, radix, ?_, by simp, .none, given, present, digits, ?_⟩
    · rw [if_neg below]
      rfl
    · rw [number, if_neg Bool.false_ne_true]
      omega

/-- What is written in a base is a number of that base. -/
theorem numeral_written (least : 1 < base) (most : base ≤ 16) (value : Int) :
    IsNumeral base (written base value) (shown base value) := by
  have given : ∀ digits, Radix base [] digits base := fun _ => .given (by omega)
  by_cases ten : base = 10
  · subst ten
    exact numeral_of_signed least most value (given _)
  · have nonneg := Int.emod_nonneg value (show (2 : Int) ^ 32 ≠ 0 by decide)
    have unsigned := numeral_of_signed least most (value % 2 ^ 32) (given _)
    rw [if_neg (Int.not_lt.mpr nonneg), List.nil_append] at unsigned
    have magnitude : (value % 2 ^ 32).toNat = (value % 2 ^ 32).natAbs := by omega
    rw [written, shown, if_neg ten, if_neg ten, magnitude]
    exact unsigned

/-- Where the text decides on the base, a decimal number is read as one. -/
theorem numeral_any_base (value : Int) : IsNumeral 0 (written 10 value) value := by
  by_cases none : value = 0
  · subst none
    exact ⟨[], [], false, [], [zero], 8, rfl, by simp, .none, .octal, by simp,
      List.forall_mem_singleton.mpr rfl, rfl⟩
  · exact numeral_of_signed (by decide) (by decide) value
      (.decimal (toDigits_head (by decide) (by decide) (Int.natAbs_pos.mpr none)))

end Numerals

/-- The conversion cuts what `strtol` gives down to an `int`. -/
def atoi (text : List Byte) : Int := (Numerals.strtol text 10).res.bmod (2 ^ 32)

/-- The value of the digits at the start of a text. -/
def leading (text : List Byte) : Nat :=
  Numerals.ofDigits 10 (text.takeWhile (Numerals.isDigitOf 10))

/-- Without white space and sign, the number is that of the leading digits. -/
theorem atoi_leading {text : List Byte} (digit : isdigit (text.headD NUL) = true)
    (small : leading text < 2 ^ 31) : atoi text = leading text := by
  cases text with
  | nil => exact absurd digit (by decide)
  | cons c rest =>
    have first : Numerals.isDigitOf 10 c = true := Numerals.isDigitOf_ten digit
    obtain ⟨blank, negative, positive⟩ := Numerals.digit_plain (by decide) first
    have start : (c :: rest).dropWhile isspace = c :: rest := by
      rw [List.dropWhile_cons, blank]
      rfl
    have unsigned : scanSign (c :: rest) = (false, c :: rest) := by
      rw [scanSign, if_neg negative, if_neg positive]
    have ten : Numerals.resolve 10 (c :: rest) = (10, c :: rest) := rfl
    have filled : (c :: rest).takeWhile (Numerals.isDigitOf 10) ≠ [] := by simp [first]
    have value : (leading (c :: rest) : Int) =
        Numerals.ofDigits 10 ((c :: rest).takeWhile (Numerals.isDigitOf 10)) := rfl
    have clamped : max Numerals.LONG_MIN (min (leading (c :: rest) : Int) Numerals.LONG_MAX) =
        leading (c :: rest) := by
      simp only [Numerals.LONG_MIN, Numerals.LONG_MAX]
      omega
    rw [atoi, Numerals.strtol, start, unsigned, ten]
    dsimp only
    rw [if_neg filled, if_neg Bool.false_ne_true, ← value]
    dsimp only
    rw [clamped]
    exact Int.bmod_eq_of_le (by omega) (by omega)

theorem atoi_decimal {value : Nat} (small : value < 2 ^ 31) : atoi (decimal value) = value := by
  have numeral : Numerals.IsNumeral 10 (decimal value) value :=
    Numerals.numeral_written (by decide) (by decide) value
  have clamped : max Numerals.LONG_MIN (min (value : Int) Numerals.LONG_MAX) = value := by
    simp only [Numerals.LONG_MIN, Numerals.LONG_MAX]
    omega
  rw [atoi, Numerals.strtol_of_numeral (by decide) numeral]
  simp only [clamped]
  exact Int.bmod_eq_of_le (by omega) (by omega)

end LinuxProgramming.Foundation
