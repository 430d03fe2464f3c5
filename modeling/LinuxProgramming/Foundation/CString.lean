import Mathlib.Data.List.TakeWhile
import Mathlib.Order.Compare

/-! Bytes, C strings and the fixed arrays that hold them.

A C string is the list of its characters, without the NUL that ends it in
memory. The string functions return `none` where the C function would read or
store outside the array.
-/

set_option autoImplicit false

namespace LinuxProgramming.Foundation

abbrev Byte := UInt8

def NUL : Byte := 0

def newline : Byte := '\n'.toUInt8

/-- The characters of a text in the source. -/
def ascii (text : String) : List Byte := text.toList.map Char.toUInt8

/-- What a string function reads from a sequence of bytes. -/
def cstr (bytes : List Byte) : List Byte := bytes.takeWhile (· != NUL)

/-- What is behind a NUL does not belong to the string. -/
theorem cstr_append_NUL_cons (text rest : List Byte) : cstr (text ++ NUL :: rest) = cstr text := by
  induction text with
  | nil => simp [cstr]
  | cons byte text ih =>
    simp only [cstr] at ih
    simp only [cstr, List.cons_append, List.takeWhile_cons, ih]

theorem cstr_eq_self {text : List Byte} (plain : NUL ∉ text) : cstr text = text := by
  have all : ∀ byte ∈ text, (byte != NUL) = true := by
    intro byte member
    simpa using ne_of_mem_of_not_mem member plain
  exact List.takeWhile_eq_self_iff.mpr all

/-- A string is read where it lies with its NUL. -/
theorem cstr_eq_iff {text bytes : List Byte} (plain : NUL ∉ text)
    (longer : text.length < bytes.length) : cstr bytes = text ↔ text ++ [NUL] <+: bytes := by
  constructor
  · intro same
    have whole := List.takeWhile_append_dropWhile (p := (· != NUL)) (l := bytes)
    change cstr bytes ++ _ = bytes at whole
    rw [same] at whole
    cases behind : bytes.dropWhile (· != NUL) with
    | nil =>
      rw [behind, List.append_nil] at whole
      rw [whole] at longer
      exact absurd longer (Nat.lt_irrefl _)
    | cons byte rest =>
      have stop : byte = NUL := by
        have first := List.head?_dropWhile_not (· != NUL) bytes
        rw [behind] at first
        simpa using first
      rw [behind, stop] at whole
      exact ⟨rest, by rw [← whole, List.append_assoc]; rfl⟩
  · rintro ⟨rest, rfl⟩
    rw [List.append_assoc]
    exact (cstr_append_NUL_cons text rest).trans (cstr_eq_self plain)

/-- What stands at the front of two sequences one after the other, is in the first as far as
that goes, and in the second behind it. -/
theorem prefix_append_iff (text first second : List Byte) :
    text <+: first ++ second ↔
      text.take first.length <+: first ∧ text.drop first.length <+: second := by
  induction first generalizing text with
  | nil => simp
  | cons byte first ih =>
    cases text with
    | nil => simp
    | cons c text => simp [List.cons_prefix_cons, ih, and_assoc]

theorem cstr_append_NUL {text : List Byte} (plain : NUL ∉ text) (rest : List Byte) :
    cstr (text ++ NUL :: rest) = text := by
  rw [cstr_append_NUL_cons, cstr_eq_self plain]

theorem NUL_not_mem_cstr (bytes : List Byte) : NUL ∉ cstr bytes := by
  intro member
  simpa using List.mem_takeWhile_imp member

theorem cstr_cstr (bytes : List Byte) : cstr (cstr bytes) = cstr bytes :=
  cstr_eq_self (NUL_not_mem_cstr bytes)

theorem cstr_set_NUL {bytes : List Byte} {index : Nat} (inside : index < bytes.length) :
    cstr (bytes.set index NUL) = (cstr bytes).take index := by
  induction bytes generalizing index with
  | nil => simp at inside
  | cons byte bytes ih =>
    cases index with
    | zero => simp [cstr]
    | succ index =>
      simp only [cstr] at ih
      simp only [cstr, List.set_cons_succ, List.takeWhile_cons]
      split
      next => rw [List.take_succ_cons, ih (Nat.lt_of_succ_lt_succ inside)]
      next => rfl

/-- Only the sign of its result is ever used; characters compare as `unsigned char`. -/
def strcmp (first second : List Byte) : Ordering := compare first second

@[simp] theorem strcmp_eq_iff {first second : List Byte} :
    strcmp first second = .eq ↔ first = second := Std.compare_eq_iff_eq

@[simp] theorem strcmp_self (text : List Byte) : strcmp text text = .eq := strcmp_eq_iff.mpr rfl

theorem strcmp_gt_iff {first second : List Byte} :
    strcmp first second = .gt ↔ strcmp second first = .lt := by
  unfold strcmp
  exact Std.OrientedCmp.gt_iff_lt

theorem strcmp_trans {first second third : List Byte} (before : strcmp first second = .lt)
    (after : strcmp second third = .lt) : strcmp first third = .lt := by
  unfold strcmp at before after ⊢
  exact Std.TransCmp.lt_trans before after

/-- The length of the part of `text` that holds no character of `reject`. -/
def strcspn (text reject : List Byte) : Nat := (text.takeWhile (· ∉ reject)).length

/-- An array of `size` characters. -/
structure Buffer (size : Nat) where
  bytes : List Byte
  length_eq : bytes.length = size
  deriving DecidableEq

namespace Buffer

variable {size : Nat}

@[ext] theorem ext {first second : Buffer size} (same : first.bytes = second.bytes) :
    first = second := by
  cases first
  cases second
  simpa using same

/-- What `memset` with 0, or the storage of a static variable, holds. -/
def zero : Buffer size := ⟨List.replicate size NUL, List.length_replicate⟩

/-- The array after its first bytes were stored over; what does not fit is dropped. -/
def overwrite (buffer : Buffer size) (source : List Byte) : Buffer size where
  bytes := (source ++ buffer.bytes.drop source.length).take size
  length_eq := by
    have := buffer.length_eq
    simp only [List.length_take, List.length_append, List.length_drop]
    omega

/-- The array after one character was stored over. -/
def store (buffer : Buffer size) (index : Nat) (byte : Byte) : Buffer size where
  bytes := buffer.bytes.set index byte
  length_eq := by rw [List.length_set, buffer.length_eq]

/-- The array holds a NUL, so a string function that reads it stays inside. -/
def Terminated (buffer : Buffer size) : Prop := NUL ∈ buffer.bytes

instance (buffer : Buffer size) : Decidable buffer.Terminated :=
  inferInstanceAs (Decidable (NUL ∈ buffer.bytes))

/-- The characters before the first NUL. -/
def text (buffer : Buffer size) : List Byte := cstr buffer.bytes

/-- The string in the array, for a function that reads it to its end. -/
def string (buffer : Buffer size) : Option (List Byte) :=
  if buffer.Terminated then some buffer.text else none

def strcpy (buffer : Buffer size) (source : List Byte) : Option (Buffer size) :=
  if source.length < size then some (buffer.overwrite (source ++ [NUL])) else none

def strcat (buffer : Buffer size) (source : List Byte) : Option (Buffer size) :=
  match buffer.string with
  | some held => buffer.strcpy (held ++ source)
  | none => none

theorem bytes_overwrite {buffer : Buffer size} {source : List Byte} (fits : source.length ≤ size) :
    (buffer.overwrite source).bytes = source ++ buffer.bytes.drop source.length := by
  have := buffer.length_eq
  apply List.take_of_length_le
  simp only [List.length_append, List.length_drop]
  omega

@[simp] theorem overwrite_nil (buffer : Buffer size) : buffer.overwrite [] = buffer := by
  ext1
  rw [bytes_overwrite (Nat.zero_le size), List.length_nil, List.drop_zero, List.nil_append]

/-- Behind what is stored the array keeps its bytes. -/
theorem overwrite_getElem? (buffer : Buffer size) {source : List Byte} {index : Nat}
    (beyond : source.length ≤ index) (inside : index < size) :
    (buffer.overwrite source).bytes[index]? = buffer.bytes[index]? := by
  rw [bytes_overwrite (by omega), List.getElem?_append_right beyond, List.getElem?_drop]
  congr 1
  omega

/-- Where all bytes are stored over, nothing of the array is left. -/
theorem overwrite_whole (first second : Buffer size) {source : List Byte}
    (whole : source.length = size) : first.overwrite source = second.overwrite source := by
  ext1
  have drop : ∀ buffer : Buffer size, buffer.bytes.drop source.length = [] := by
    intro buffer
    rw [List.drop_eq_nil_iff, buffer.length_eq, whole]
  rw [bytes_overwrite (Nat.le_of_eq whole), bytes_overwrite (Nat.le_of_eq whole), drop, drop]

/-- Storing all bytes of an array of the same size copies it. -/
theorem overwrite_bytes (buffer source : Buffer size) : buffer.overwrite source.bytes = source := by
  ext1
  have whole : buffer.bytes.drop source.bytes.length = [] := by
    simp [buffer.length_eq, source.length_eq]
  rw [bytes_overwrite (Nat.le_of_eq source.length_eq), whole, List.append_nil]

theorem plain_text (buffer : Buffer size) : NUL ∉ buffer.text := NUL_not_mem_cstr buffer.bytes

theorem string_of_terminated {buffer : Buffer size} (terminated : buffer.Terminated) :
    buffer.string = some buffer.text := if_pos terminated

theorem string_of_bytes {buffer : Buffer size} {source rest : List Byte} (plain : NUL ∉ source)
    (same : buffer.bytes = source ++ NUL :: rest) : buffer.string = some source := by
  have terminated : buffer.Terminated := by
    rw [Terminated, same]
    exact List.mem_append_right _ List.mem_cons_self
  rw [string_of_terminated terminated, text, same, cstr_append_NUL plain]

theorem text_length {buffer : Buffer size} (terminated : buffer.Terminated) :
    buffer.text.length < size := by
  have sizes := buffer.length_eq
  by_contra large
  -- A text as long as its array would be the whole array, which holds a NUL.
  have whole : buffer.text = buffer.bytes := by
    apply (List.takeWhile_prefix _).eq_of_length_le
    simp only [text, cstr] at large
    omega
  have outside := NUL_not_mem_cstr buffer.bytes
  rw [← text, whole] at outside
  exact outside terminated

/-- A NUL that is stored cuts the string. -/
theorem text_store_NUL {buffer : Buffer size} {index : Nat} (inside : index < size) :
    (buffer.store index NUL).text = buffer.text.take index :=
  cstr_set_NUL (by rwa [buffer.length_eq])

theorem strcpy_fits (buffer : Buffer size) {source : List Byte} (fits : source.length < size) :
    buffer.strcpy source = some (buffer.overwrite (source ++ [NUL])) := if_pos fits

/-- Of what is stored, a string function sees the part before its first NUL. -/
theorem text_overwrite_cstr {buffer : Buffer size} {source : List Byte}
    (fits : source.length < size) :
    (buffer.overwrite (source ++ [NUL])).text = cstr source := by
  rw [text, bytes_overwrite (by simpa using Nat.succ_le_of_lt fits), List.append_assoc]
  exact cstr_append_NUL_cons source _

/-- A copied string can be read back, whatever the array held before. -/
theorem text_overwrite {buffer : Buffer size} {source : List Byte} (plain : NUL ∉ source)
    (fits : source.length < size) : (buffer.overwrite (source ++ [NUL])).text = source := by
  rw [text_overwrite_cstr fits, cstr_eq_self plain]

/-- The first bytes of an array, as many as its string is long, are the string. -/
theorem take_text (buffer : Buffer size) :
    buffer.bytes.take buffer.text.length = buffer.text :=
  (List.prefix_iff_eq_take.mp (List.takeWhile_prefix _)).symm

theorem terminated_overwrite {buffer : Buffer size} {source : List Byte}
    (fits : source.length < size) : (buffer.overwrite (source ++ [NUL])).Terminated := by
  rw [Terminated, bytes_overwrite (by simpa using Nat.succ_le_of_lt fits)]
  simp

/-- The array that holds a string and is NUL from there on. -/
def padded (source : List Byte) : Buffer size := zero.overwrite source

theorem bytes_padded {source : List Byte} (fits : source.length ≤ size) :
    (padded source : Buffer size).bytes = source ++ List.replicate (size - source.length) NUL := by
  rw [padded, bytes_overwrite fits]
  simp [zero]

theorem padded_nil : (padded [] : Buffer size) = zero := by
  ext1
  simp [bytes_padded, zero]

/-- Copying a string into a zeroed array pads it. -/
theorem overwrite_zero {source : List Byte} (fits : source.length < size) :
    (zero : Buffer size).overwrite (source ++ [NUL]) = padded source := by
  ext1
  -- The NUL of the copy is the first one of the padding.
  obtain ⟨more, room⟩ := Nat.exists_eq_add_of_lt fits
  rw [bytes_overwrite (by simpa using Nat.succ_le_of_lt fits), bytes_padded (Nat.le_of_lt fits)]
  have left : size - source.length = more + 1 := by omega
  rw [left, List.replicate_succ]
  simp [zero]
  omega

theorem text_padded {source : List Byte} (plain : NUL ∉ source) (fits : source.length < size) :
    (padded source : Buffer size).text = source := by
  rw [← overwrite_zero fits]
  exact text_overwrite plain fits

theorem terminated_padded {source : List Byte} (fits : source.length < size) :
    (padded source : Buffer size).Terminated := by
  rw [← overwrite_zero fits]
  exact terminated_overwrite fits

/-- Copying a longer string over a padded one leaves a padded array. -/
theorem overwrite_padded {held source : List Byte} (longer : held.length ≤ source.length)
    (fits : source.length < size) :
    (padded held : Buffer size).overwrite (source ++ [NUL]) = padded source := by
  ext1
  obtain ⟨more, room⟩ := Nat.exists_eq_add_of_lt fits
  rw [bytes_overwrite (by simpa using Nat.succ_le_of_lt fits), bytes_padded (by omega), bytes_padded (by omega)]
  subst room
  rw [List.drop_append]
  simp only [List.length_append, List.length_singleton, List.append_assoc, List.append_cancel_left_eq]
  rw [List.drop_eq_nil_of_le (by omega)]
  simp only [List.nil_append, List.drop_replicate, List.singleton_append]
  rw [show source.length + more + 1 - source.length = more + 1 by omega, List.replicate_succ]
  congr 2
  omega

theorem strcat_padded {held source : List Byte} (plain : NUL ∉ held)
    (fits : held.length < size) :
    (padded held : Buffer size).strcat source =
      if (held ++ source).length < size then some (padded (held ++ source)) else none := by
  rw [strcat, string_of_terminated (terminated_padded fits), text_padded plain fits]
  simp only [strcpy]
  split
  next room => rw [overwrite_padded (by simp) room]
  next => rfl

end Buffer

end LinuxProgramming.Foundation
