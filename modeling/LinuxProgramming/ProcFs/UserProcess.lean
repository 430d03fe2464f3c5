import LinuxProgramming.ProcFs.Entries
import LinuxProgramming.Foundation.Stdio
import Mathlib.Data.List.Perm.Basic
import Mathlib.Data.List.Nodup

/-! The list of the processes of one user.

The status files are read piece by piece, and a piece that starts with one of two
labels is taken for the line with this label. Of the name that was found, the last
character is dropped: it is meant to be the newline, which `%s` never reads.
-/

set_option autoImplicit false

namespace LinuxProgramming.ProcFs
open Foundation

def uidLabel : List Byte := ['U', 'i', 'd', ':'].map Char.toUInt8

def nameLabel : List Byte := ['N', 'a', 'm', 'e', ':'].map Char.toUInt8

/-- What is behind the text that a format begins with, where the line begins with it too. -/
def literal (label line : List Byte) : Option (List Byte) :=
  if label <+: line then some (line.drop label.length) else none

/-- What `%u` stores for a number. It goes through `strtoul`. -/
def toUnsigned (value : Int) : UInt32 :=
  if value.natAbs < 2 ^ 64 then UInt32.ofNat (value % 2 ^ 32).toNat else UInt32.ofNat (2 ^ 32 - 1)

/-- The format `Uid: %u`. -/
def scanUid (line : List Byte) : Option UInt32 :=
  (literal uidLabel line).bind fun rest => (scanInt rest).map fun found => toUnsigned found.1

def solid (c : Byte) : Bool := !isspace c

/-- The format `Name: %s`. -/
def scanName (line : List Byte) : Option (List Byte) :=
  (literal nameLabel line).bind fun rest =>
    let word := (rest.dropWhile isspace).takeWhile solid
    if word = [] then none else some word

/-- A line of the output. -/
structure UserLine where
  pid : List Byte
  command : List Byte
  deriving DecidableEq, Repr

/-- The loop over the pieces of a status file. What a piece says of the name is left for
the pieces behind it. -/
def scanStatus (userId : UInt32) (d_name command : List Byte) : List (List Byte) → List UserLine
  | [] => []
  | line :: lines =>
    if scanUid (cstr line) = some userId then [⟨d_name, command⟩]
    else
      match scanName (cstr line) with
      | some word => scanStatus userId d_name word.dropLast lines
      | none => scanStatus userId d_name command lines

/-! A status file. -/

/-- A line without the two labels. -/
structure OtherLine where
  text : List Byte
  single : newline ∉ text
  unnamed : ¬ nameLabel <:+: text ++ [newline]
  unowned : ¬ uidLabel <:+: text ++ [newline]
  deriving DecidableEq

def OtherLine.bytes (line : OtherLine) : List Byte := line.text ++ [newline]

def tab : Byte := '\t'.toUInt8

def idField (id : UInt32) : List Byte := tab :: decimal id.toNat

structure Status where
  before : List OtherLine
  name : List Byte
  named : name ≠ []
  unbroken : ∀ c ∈ name, solid c = true ∧ c ≠ NUL
  between : List OtherLine
  real : UInt32
  effective : UInt32
  saved : UInt32
  filesystem : UInt32
  after : List OtherLine
  deriving DecidableEq

namespace Status

def nameLine (status : Status) : List Byte := nameLabel ++ tab :: status.name ++ [newline]

def ids (status : Status) : List UInt32 :=
  [status.real, status.effective, status.saved, status.filesystem]

def uidLine (status : Status) : List Byte :=
  uidLabel ++ status.ids.flatMap idField ++ [newline]

def bytes (status : Status) : List Byte :=
  status.before.flatMap OtherLine.bytes ++ (status.nameLine ++
    (status.between.flatMap OtherLine.bytes ++ (status.uidLine ++
      status.after.flatMap OtherLine.bytes)))

end Status

/-- The array `line` has 256 characters. -/
def pieces (stream : List Byte) : List (List Byte) := fgetsAll 256 stream

/-- The body of the loop over `/proc`. -/
def printProcess (userId : UInt32) (entry : Entry Status) : List UserLine :=
  if entry.isProcess then
    match entry.inside with
    | none => []
    | some status => scanStatus userId entry.d_name [] (pieces status.bytes)
  else []

def userProcess (userId : UInt32) (dir : Option (List (Entry Status))) : Option (List UserLine) :=
  dir.map fun entries => entries.flatMap (printProcess userId)

/-- The lines that are due for an entry. -/
def userLines (userId : UInt32) : Entry Status → List UserLine
  | .process pid _ _ (some status) =>
    if status.real = userId then [⟨decimal pid, status.name⟩] else []
  | _ => []

/-- The process has the user id, or a piece of its name is taken for a line that says so. -/
def Caught (userId : UInt32) : Entry Status → Prop
  | .process _ _ _ (some status) => status.real = userId ∨
    ∃ line ∈ pieces status.nameLine, scanUid (cstr line) = some userId
  | _ => False

theorem eq_of_literal {label line rest : List Byte} (found : literal label line = some rest) :
    line = label ++ rest := by
  rw [literal] at found
  split at found
  next start =>
    obtain ⟨behind, rfl⟩ := start
    rw [List.drop_left] at found
    rw [Option.some.inj found]
  next => cases found

theorem literal_append (label rest : List Byte) : literal label (label ++ rest) = some rest := by
  rw [literal, if_pos (List.prefix_append label rest), List.drop_left]

/-- A name that is found takes as many characters that are not blank, and the label does. -/
theorem scanName_solid {line word : List Byte} (found : scanName line = some word) :
    word ≠ [] ∧ nameLabel.length + word.length ≤ line.countP solid := by
  obtain ⟨rest, behind, read⟩ := Option.bind_eq_some_iff.mp found
  simp only at read
  split at read
  next => cases read
  next filled =>
    rw [Option.some.inj read] at filled
    refine ⟨filled, ?_⟩
    have within : word.Sublist rest := by
      rw [← Option.some.inj read]
      exact (List.takeWhile_sublist solid).trans (List.dropWhile_sublist isspace)
    have all : word.countP solid = word.length := by
      rw [List.countP_eq_length, ← Option.some.inj read]
      exact fun c member => List.mem_takeWhile_imp member
    have label : nameLabel.countP solid = nameLabel.length := by decide
    rw [eq_of_literal behind, List.countP_append, label]
    have := within.countP_le (p := solid)
    omega

theorem infix_of_piece {stream line : List Byte} (member : line ∈ pieces stream) :
    cstr line <:+: stream := by
  have start : cstr line <+: line := List.takeWhile_prefix _
  have whole := start.isInfix.trans (List.infix_of_mem_flatten member)
  rwa [pieces, fgetsAll_flatten (by decide)] at whole

/-- A piece that starts with a label has it from the bytes that were cut. -/
theorem infix_of_label {label stream line rest : List Byte} (member : line ∈ pieces stream)
    (found : literal label (cstr line) = some rest) : label <:+: stream := by
  have start : label <+: cstr line := ⟨rest, (eq_of_literal found).symm⟩
  exact start.isInfix.trans (infix_of_piece member)

theorem scan_other {other : OtherLine} {line : List Byte} (member : line ∈ pieces other.bytes) :
    scanUid (cstr line) = none ∧ scanName (cstr line) = none := by
  constructor
  · cases found : literal uidLabel (cstr line) with
    | none => rw [scanUid, found, Option.bind_none]
    | some rest => exact absurd (infix_of_label member found) other.unowned
  · cases found : literal nameLabel (cstr line) with
    | none => rw [scanName, found, Option.bind_none]
    | some rest => exact absurd (infix_of_label member found) other.unnamed

theorem pieces_others (others : List OtherLine) (rest : List Byte) :
    pieces (others.flatMap OtherLine.bytes ++ rest) =
      others.flatMap (fun other => pieces other.bytes) ++ pieces rest := by
  induction others with
  | nil => rfl
  | cons other others ih =>
    have first := @fgetsAll_append 256 (by decide) other.text other.single
      (others.flatMap OtherLine.bytes ++ rest)
    rw [List.flatMap_cons, List.flatMap_cons, List.append_assoc, List.append_assoc, ← ih]
    rw [OtherLine.bytes, pieces, List.append_assoc, List.singleton_append, first]
    rfl

theorem idField_length (id : UInt32) : (idField id).length ≤ 11 := by
  have small : (id.toNat : Int).natAbs < 10 ^ 10 := by
    have := id.toNat_lt
    omega
  have digits := decimal_length (by decide) small
  rw [if_neg (by omega)] at digits
  rw [idField, List.length_cons]
  omega

theorem plain_idField {id : UInt32} {c : Byte} (member : c ∈ idField id) :
    c ≠ newline ∧ c ≠ NUL := by
  obtain rfl | digit := List.mem_cons.mp member
  · decide
  · exact ⟨fun same => newline_not_mem_decimal _ (same ▸ digit),
      fun same => NUL_not_mem_decimal _ (same ▸ digit)⟩

theorem plain_uids (status : Status) {c : Byte}
    (member : c ∈ uidLabel ++ status.ids.flatMap idField) : c ≠ newline ∧ c ≠ NUL := by
  rcases List.mem_append.mp member with label | number
  · have all : uidLabel.all (fun c => c ≠ newline ∧ c ≠ NUL) = true := by decide
    exact of_decide_eq_true (List.all_eq_true.mp all c label)
  · obtain ⟨id, _, inside⟩ := List.mem_flatMap.mp number
    exact plain_idField inside

theorem pieces_uidLine (status : Status) : pieces status.uidLine = [status.uidLine] := by
  have fits : (uidLabel ++ status.ids.flatMap idField).length + 1 < 256 := by
    simp only [Status.ids, List.flatMap_cons, List.flatMap_nil, List.length_append,
      List.length_nil]
    have label : uidLabel.length = 4 := by decide
    have := idField_length status.real
    have := idField_length status.effective
    have := idField_length status.saved
    have := idField_length status.filesystem
    omega
  exact fgetsAll_line (fun member => (plain_uids status member).1 rfl) fits []

theorem cstr_uidLine (status : Status) : cstr status.uidLine = status.uidLine := by
  apply cstr_eq_self
  intro member
  rcases List.mem_append.mp member with inside | last
  · exact (plain_uids status inside).2 rfl
  · revert last
    decide

theorem scanUid_uidLine (status : Status) : scanUid (cstr status.uidLine) = some status.real := by
  have line : status.uidLine = uidLabel ++ (tab :: (decimal status.real.toNat ++
      ([status.effective, status.saved, status.filesystem].flatMap idField ++ [newline]))) := by
    simp [Status.uidLine, Status.ids, idField]
  have ended : ∀ c ∈ ([status.effective, status.saved, status.filesystem].flatMap idField ++
      [newline]).head?, isdigit c = false := by
    intro c first
    cases first
    decide
  have stored : toUnsigned status.real.toNat = status.real := by
    have small := status.real.toNat_lt
    have whole : ((status.real.toNat : Int) % 2 ^ 32).toNat = status.real.toNat := by omega
    rw [toUnsigned, if_pos (by omega), whole, UInt32.ofNat_toNat]
  rw [cstr_uidLine, line, scanUid, literal_append, Option.bind_some, scanInt_space (by decide),
    scanInt_decimal _ ended, Option.map_some, stored]

theorem scanName_uidLine (status : Status) : scanName (cstr status.uidLine) = none := by
  have other : ¬ nameLabel <+: status.uidLine := by
    intro start
    obtain ⟨rest, same⟩ := start
    have first : 'N'.toUInt8 = 'U'.toUInt8 := (List.cons.inj same).1
    revert first
    decide
  rw [cstr_uidLine, scanName, literal, if_neg other, Option.bind_none]

theorem newline_not_mem_name (status : Status) : newline ∉ nameLabel ++ tab :: status.name := by
  intro member
  rcases List.mem_append.mp member with label | inside
  · revert label
    decide
  · obtain same | letter := List.mem_cons.mp inside
    · revert same
      decide
    · have := (status.unbroken newline letter).1
      revert this
      decide

/-- The name itself is the longest word that a piece of its line can name. -/
theorem scanName_nameLine {status : Status} {line word : List Byte}
    (member : line ∈ pieces status.nameLine) (found : scanName (cstr line) = some word) :
    word.dropLast.length < status.name.length := by
  have cut : (cstr line).Sublist status.nameLine := (infix_of_piece member).sublist
  have count : status.nameLine.countP solid = nameLabel.length + status.name.length := by
    have all : status.name.countP solid = status.name.length :=
      List.countP_eq_length.mpr fun c letter => (status.unbroken c letter).1
    have label : nameLabel.countP solid = nameLabel.length := by decide
    have blank : solid tab = false := by decide
    have ends : solid newline = false := by decide
    simp [Status.nameLine, all, label, blank, ends]
  obtain ⟨filled, letters⟩ := scanName_solid found
  have less := cut.countP_le (p := solid)
  have some_letter := List.length_pos_iff.mpr filled
  rw [List.length_dropLast]
  omega

theorem pieces_nameLine (status : Status) (rest : List Byte) :
    pieces (status.nameLine ++ rest) = pieces status.nameLine ++ pieces rest := by
  have read := @fgetsAll_append 256 (by decide) _ (newline_not_mem_name status) rest
  rw [Status.nameLine, List.append_assoc, List.singleton_append]
  exact read

theorem pieces_uidLine_append (status : Status) (rest : List Byte) :
    pieces (status.uidLine ++ rest) = status.uidLine :: pieces rest := by
  have single : newline ∉ uidLabel ++ status.ids.flatMap idField :=
    fun member => (plain_uids status member).1 rfl
  have read := @fgetsAll_append 256 (by decide) _ single rest
  have own : pieces (uidLabel ++ status.ids.flatMap idField ++ [newline]) = [status.uidLine] :=
    pieces_uidLine status
  rw [Status.uidLine, List.append_assoc, List.singleton_append, pieces, read]
  rw [← pieces, own]
  rfl

theorem pieces_status (status : Status) :
    pieces status.bytes =
      status.before.flatMap (fun other => pieces other.bytes) ++ (pieces status.nameLine ++
        (status.between.flatMap (fun other => pieces other.bytes) ++ (status.uidLine ::
          status.after.flatMap fun other => pieces other.bytes))) := by
  have after := pieces_others status.after []
  have empty : pieces [] = [] := rfl
  rw [List.append_nil, empty, List.append_nil] at after
  rw [Status.bytes, pieces_others, pieces_nameLine, pieces_others, pieces_uidLine_append, after]

/-- A piece of the file is one of a line that says nothing, of the name, or the uids. -/
theorem piece_cases {status : Status} {line : List Byte} (member : line ∈ pieces status.bytes) :
    scanUid (cstr line) = none ∧ scanName (cstr line) = none ∨
      line ∈ pieces status.nameLine ∨ line = status.uidLine := by
  have nothing : ∀ others : List OtherLine,
      line ∈ others.flatMap (fun other => pieces other.bytes) →
        scanUid (cstr line) = none ∧ scanName (cstr line) = none := by
    intro others inside
    obtain ⟨other, _, here⟩ := List.mem_flatMap.mp inside
    exact scan_other here
  rw [pieces_status, List.mem_append, List.mem_append, List.mem_append, List.mem_cons] at member
  rcases member with before | name | between | uids | after
  · exact .inl (nothing _ before)
  · exact .inr (.inl name)
  · exact .inl (nothing _ between)
  · exact .inr (.inr uids)
  · exact .inl (nothing _ after)

/-- A piece says that the process has the user id. -/
def Status.Says (status : Status) (userId : UInt32) : Prop :=
  ∃ line ∈ pieces status.bytes, scanUid (cstr line) = some userId

theorem says_iff {status : Status} {userId : UInt32} :
    status.Says userId ↔ status.real = userId ∨
      ∃ line ∈ pieces status.nameLine, scanUid (cstr line) = some userId := by
  constructor
  · rintro ⟨line, member, read⟩
    rcases piece_cases member with ⟨nothing, _⟩ | name | rfl
    · rw [nothing] at read
      cases read
    · exact .inr ⟨line, name, read⟩
    · rw [scanUid_uidLine] at read
      exact .inl (Option.some.inj read)
  · rintro (rfl | ⟨line, name, read⟩)
    · refine ⟨status.uidLine, ?_, scanUid_uidLine status⟩
      rw [pieces_status]
      simp
    · refine ⟨line, ?_, read⟩
      rw [pieces_status]
      simp [name]

theorem scanName_status {status : Status} {line word : List Byte}
    (member : line ∈ pieces status.bytes) (found : scanName (cstr line) = some word) :
    word.dropLast.length < status.name.length := by
  rcases piece_cases member with ⟨_, nothing⟩ | name | rfl
  · rw [nothing] at found
    cases found
  · exact scanName_nameLine name found
  · rw [scanName_uidLine] at found
    cases found

/-- Where no piece says so, there is no line. -/
theorem scanStatus_other {userId : UInt32} {d_name command : List Byte} {lines : List (List Byte)}
    (other : ∀ line ∈ lines, scanUid (cstr line) ≠ some userId) :
    scanStatus userId d_name command lines = [] := by
  induction lines generalizing command with
  | nil => rfl
  | cons line lines ih =>
    have later := fun command => @ih command fun line member =>
      other line (List.mem_cons_of_mem _ member)
    rw [scanStatus, if_neg (other line List.mem_cons_self)]
    split
    next word _ => exact later word.dropLast
    next => exact later command

/-- The line that is printed has one of the names that were found, or the first one. -/
theorem scanStatus_said {userId : UInt32} {d_name command : List Byte} {lines : List (List Byte)}
    {bound : Nat} (said : ∃ line ∈ lines, scanUid (cstr line) = some userId)
    (start : command.length < bound)
    (names : ∀ line ∈ lines, ∀ word, scanName (cstr line) = some word →
      word.dropLast.length < bound) :
    ∃ printed, printed.length < bound ∧
      scanStatus userId d_name command lines = [⟨d_name, printed⟩] := by
  induction lines generalizing command with
  | nil =>
    obtain ⟨line, member, _⟩ := said
    cases member
  | cons line lines ih =>
    rw [scanStatus]
    by_cases here : scanUid (cstr line) = some userId
    · exact ⟨command, start, if_pos here⟩
    · have later : ∃ line ∈ lines, scanUid (cstr line) = some userId := by
        obtain ⟨other, member, read⟩ := said
        obtain rfl | behind := List.mem_cons.mp member
        · exact absurd read here
        · exact ⟨other, behind, read⟩
      have rest : ∀ line ∈ lines, ∀ word, scanName (cstr line) = some word →
          word.dropLast.length < bound :=
        fun line member => names line (List.mem_cons_of_mem _ member)
      rw [if_neg here]
      split
      next word found => exact ih later (names line List.mem_cons_self word found) rest
      next => exact ih later start rest

theorem printProcess_status (userId : UInt32) {pid : Nat} (positive : 0 < pid)
    (bounded : pid < 2 ^ 31) (status : Status) :
    printProcess userId (.process pid positive bounded (some status)) =
      scanStatus userId (decimal pid) [] (pieces status.bytes) := by
  rw [printProcess, if_pos (Entry.isProcess_process pid positive bounded (some status))]
  rfl

theorem printProcess_other {userId : UInt32} {entry : Entry Status}
    (other : ¬ Caught userId entry) :
    printProcess userId entry = [] ∧ userLines userId entry = [] := by
  match entry with
  | .other name type skipped =>
    rw [printProcess, Entry.isProcess_other, if_neg Bool.false_ne_true]
    exact ⟨rfl, rfl⟩
  | .process pid positive bounded none =>
    rw [printProcess, if_pos (Entry.isProcess_process pid positive bounded none)]
    exact ⟨rfl, rfl⟩
  | .process pid positive bounded (some status) =>
    have silent : ¬ status.Says userId := fun said => other (says_iff.mp said)
    rw [printProcess_status, userLines, if_neg fun same => other (.inl same)]
    exact ⟨scanStatus_other fun line member read => silent ⟨line, member, read⟩, rfl⟩

/-- One line is printed, and the name in it is not complete. -/
theorem printProcess_caught {userId : UInt32} {entry : Entry Status}
    (caught : Caught userId entry) :
    ∃ command, printProcess userId entry = [⟨entry.d_name, command⟩] ∧
      ∀ line ∈ userLines userId entry, command.length < line.command.length := by
  match entry with
  | .process pid positive bounded (some status) =>
    have start : ([] : List Byte).length < status.name.length :=
      List.length_pos_iff.mpr status.named
    obtain ⟨command, short, printed⟩ := @scanStatus_said userId (decimal pid) [] _ _
      (says_iff.mpr caught) start fun line member word found => scanName_status member found
    refine ⟨command, (printProcess_status userId positive bounded status).trans printed, ?_⟩
    intro line due
    rw [userLines] at due
    split at due
    next =>
      rw [List.mem_singleton.mp due]
      exact short
    next => cases due

theorem userLines_pid {userId : UInt32} {entry : Entry Status} {line : UserLine}
    (due : line ∈ userLines userId entry) : line.pid = entry.d_name := by
  match entry with
  | .process pid _ _ (some status) =>
    rw [userLines] at due
    split at due
    next =>
      rw [List.mem_singleton.mp due]
      rfl
    next => cases due

/-- The list is exact for a user who has no process, as long as no process has a name that
says otherwise. -/
theorem userProcess_exact_iff (userId : UInt32) (snapshot : Snapshot Status) :
    (∃ lines, userProcess userId (some snapshot.entries) = some lines ∧
      lines.Perm (snapshot.entries.flatMap (userLines userId))) ↔
        ∀ entry ∈ snapshot.entries, ¬ Caught userId entry := by
  constructor
  · rintro ⟨lines, printed, same⟩ entry member caught
    rw [← Option.some.inj printed] at same
    obtain ⟨command, one, short⟩ := printProcess_caught caught
    have shown : ⟨entry.d_name, command⟩ ∈ snapshot.entries.flatMap (printProcess userId) := by
      refine List.mem_flatMap.mpr ⟨entry, member, ?_⟩
      rw [one]
      exact List.mem_singleton_self _
    obtain ⟨other, inside, due⟩ := List.mem_flatMap.mp (same.mem_iff.mp shown)
    have key : entry.d_name = other.d_name := userLines_pid due
    obtain rfl := List.inj_on_of_nodup_map snapshot.distinct member inside key
    exact Nat.lt_irrefl _ (short _ due)
  · intro others
    refine ⟨snapshot.entries.flatMap (printProcess userId), rfl, ?_⟩
    have printed : snapshot.entries.flatMap (printProcess userId) = [] :=
      List.flatMap_eq_nil_iff.mpr fun entry member => (printProcess_other (others entry member)).1
    have due : snapshot.entries.flatMap (userLines userId) = [] :=
      List.flatMap_eq_nil_iff.mpr fun entry member => (printProcess_other (others entry member)).2
    rw [printed, due]

/-- The only process is `init`, of the user 0. -/
def initOnly : Snapshot Status where
  entries := [.process 1 Nat.one_pos (by decide) (some {
    before := []
    name := ['i', 'n', 'i', 't'].map Char.toUInt8
    named := by decide
    unbroken := fun c member => of_decide_eq_true (List.all_eq_true.mp
      (show (['i', 'n', 'i', 't'].map Char.toUInt8).all (fun c => solid c = true ∧ c ≠ NUL) = true
        by decide) c member)
    between := []
    real := 0
    effective := 0
    saved := 0
    filesystem := 0
    after := [] })]
  distinct := by decide

theorem userProcess_init : ¬ ∃ lines, userProcess 0 (some initOnly.entries) = some lines ∧
    lines.Perm (initOnly.entries.flatMap (userLines 0)) := by
  rintro ⟨lines, printed, same⟩
  have shown : userProcess 0 (some initOnly.entries) =
      some [⟨['1'.toUInt8], ['i', 'n', 'i'].map Char.toUInt8⟩] := by decide
  rw [printed] at shown
  rw [Option.some.inj shown] at same
  have due := List.singleton_perm.mp same
  revert due
  decide

end LinuxProgramming.ProcFs
