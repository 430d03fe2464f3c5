import LinuxProgramming.Foundation.Decimal
import LinuxProgramming.Foundation.Machine
import LinuxProgramming.Foundation.Stdio
import Mathlib.Data.List.Basic

/-! A client and its coprocess `add2`, over two pipes.

The client keeps its request and the reply in one array, with one length for
both, so it cuts every reply to the length of the request.
-/

set_option autoImplicit false

namespace LinuxProgramming.Coprocess
open Foundation

def MAXLINE : Nat := 4096

def invalidArgs : List Byte := ascii "invalid args\n"

/-- A value of the type `int`. -/
def InInt (value : Int) : Prop := -2147483648 ≤ value ∧ value ≤ 2147483647

instance (value : Int) : Decidable (InInt value) := inferInstanceAs (Decidable (_ ∧ _))

/-- The integers that `sscanf` finds, and their sum, are values of an `int`. -/
def Fits (text : List Byte) : Prop :=
  (∀ value ∈ scanInts 2 text, InInt value) ∧ InInt (scanInts 2 text).sum

instance (text : List Byte) : Decidable (Fits text) := inferInstanceAs (Decidable (_ ∧ _))

def answer (text : List Byte) : List Byte :=
  match scanInts 2 text with
  | [int1, int2] => decimal (int1 + int2) ++ [newline]
  | _ => invalidArgs

/-- What `add2` writes for the bytes of one `read`. It stores a NUL behind them,
and an addition that leaves `int` is undefined. -/
def add2 (request : List Byte) : Option (List Byte) :=
  if request.length < MAXLINE ∧ Fits (cstr request) then some (answer (cstr request)) else none

/-- The client is in `fgets` on its standard input, in `fgets` on the pipe from
the child, or behind its loop. -/
inductive Place where
  | asking
  | waiting
  | ended
  deriving DecidableEq, Repr

/-- `toChild` and `fromChild` are the two pipes. -/
structure State where
  stdin : List Byte
  place : Place
  n : Nat
  line : Buffer MAXLINE
  toChild : List Byte
  fromChild : List Byte
  stdout : List Byte

inductive Action where
  | ask
  | answer
  | print
  deriving DecidableEq, Repr

def step (state : State) : Action → Option State
  | .ask =>
    if state.place = .asking then
      match fgets MAXLINE state.stdin with
      | none => some { state with place := .ended }
      | some (text, rest) =>
        let line := state.line.overwrite (text ++ [NUL])
        let n := line.text.length
        some { state with
          stdin := rest
          place := .waiting
          n := n
          line := line
          toChild := state.toChild ++ line.bytes.take n }
    else none
  | .answer =>
    -- `read` blocks as long as the pipe is empty.
    if state.toChild = [] then none
    else
      match add2 (state.toChild.take MAXLINE) with
      | none => none
      | some reply => some { state with
          toChild := state.toChild.drop MAXLINE
          fromChild := state.fromChild ++ reply }
  | .print =>
    if state.place = .waiting then
      match fgets MAXLINE state.fromChild with
      -- The child writes a reply as a whole, so `fgets` blocks on an empty pipe only.
      | none => none
      | some (text, rest) =>
        let line := state.line.overwrite (text ++ [NUL])
        if state.n = 0 then some { state with place := .ended, line := line, fromChild := rest }
        else
          let line := line.store state.n NUL
          some { state with
            place := .asking
            line := line
            fromChild := rest
            stdout := state.stdout ++ line.text }
    else none

/-- The variables `n` and `line` are not initialised. -/
def machine (stdin : List Byte) (n : Nat) (line : Buffer MAXLINE) : Machine State Action where
  start := ⟨stdin, .asking, n, line, [], [], []⟩
  step := step

/-- A line of input without its newline. -/
structure Line where
  text : List Byte
  single : newline ∉ text
  short : text.length + 1 < MAXLINE
  fits : Fits (cstr (text ++ [newline]))

namespace Line

def bytes (line : Line) : List Byte := line.text ++ [newline]

/-- What `strlen` and `sscanf` see of the line. -/
def string (line : Line) : List Byte := cstr line.bytes

def reply (line : Line) : List Byte := answer line.string

/-- What the client prints: the reply, as far as the request was long. -/
def printed (line : Line) : List Byte := line.reply.take line.string.length

theorem string_length_lt (line : Line) : line.string.length < MAXLINE := by
  have prefix_length := (List.takeWhile_prefix (· != NUL) (l := line.bytes)).length_le
  have whole : line.bytes.length = line.text.length + 1 := by simp [bytes]
  have short := line.short
  simp only [string, cstr]
  omega

/-- A reply is one line, and the client has room for it. -/
theorem reply_line (line : Line) : ∃ body, line.reply = body ++ [newline] ∧ newline ∉ body ∧
    NUL ∉ body ∧ body.length + 1 < MAXLINE := by
  simp only [reply, answer]
  split
  next int1 int2 read =>
    have short := decimal_sum_length read
    have fits := line.string_length_lt
    exact ⟨decimal (int1 + int2), rfl, newline_not_mem_decimal _, NUL_not_mem_decimal _, by omega⟩
  next => exact ⟨invalidArgs.dropLast, by decide, by decide, by decide, by decide⟩

theorem reply_filled (line : Line) : 0 < line.reply.length := by
  obtain ⟨body, reply, -⟩ := line.reply_line
  simp [reply]

/-- The answer to a valid request is never longer than the request. -/
theorem reply_length_le_iff (line : Line) :
    line.reply.length ≤ line.string.length ↔
      (scanInts 2 line.string).length = 2 ∨ 13 ≤ line.string.length := by
  simp only [reply, answer]
  split
  next int1 int2 read =>
    have short := decimal_sum_length read
    simp only [List.length_append, List.length_singleton]
    exact iff_of_true short (.inl (by rw [read]; rfl))
  next other =>
    have refused : (scanInts 2 line.string).length ≠ 2 := by
      intro two
      obtain ⟨int1, int2, read⟩ := List.length_eq_two.mp two
      exact other int1 int2 read
    simp only [refused, false_or]
    exact Iff.rfl

theorem add2_string (line : Line) : add2 (line.string.take MAXLINE) = some line.reply := by
  have fits := line.fits
  have short := line.string_length_lt
  rw [List.take_of_length_le (Nat.le_of_lt short)]
  rw [add2, if_pos]
  · rw [string, cstr_cstr]
    rfl
  · exact ⟨short, by rwa [string, cstr_cstr]⟩

theorem fgets_bytes (line : Line) (rest : List Byte) :
    fgets MAXLINE (line.bytes ++ rest) = some (line.bytes, rest) := by
  have short := line.short
  rw [fgets, if_neg (by simp [bytes]), bytes, List.append_assoc]
  exact congrArg some (takeLine_line line.single (by omega) rest)

theorem fgets_reply (line : Line) : fgets MAXLINE line.reply = some (line.reply, []) := by
  obtain ⟨body, reply, single, -, short⟩ := line.reply_line
  rw [fgets, reply, if_neg (by simp)]
  exact congrArg some (takeLine_line single (by omega) [])

theorem bytes_fits (line : Line) : line.bytes.length < MAXLINE := by
  simpa [bytes] using line.short

theorem reply_fits (line : Line) : line.reply.length < MAXLINE := by
  obtain ⟨body, reply, -, -, short⟩ := line.reply_line
  simpa [reply] using short

theorem cstr_reply (line : Line) : cstr line.reply = line.reply := by
  obtain ⟨body, reply, -, plain, -⟩ := line.reply_line
  apply cstr_eq_self
  rw [reply]
  simpa [plain] using (by decide : NUL ≠ newline)

end Line

/-- Every run ends, and then the client has printed the replies. -/
def ShowsReplies (lines : List Line) : Prop :=
  ∀ n line, (machine (lines.flatMap Line.bytes) n line).Terminates ∧
    ∀ state, (machine (lines.flatMap Line.bytes) n line).Reachable state →
      (machine (lines.flatMap Line.bytes) n line).Stuck state →
        state.stdout = lines.flatMap Line.reply

/-- The states that a run goes through, with the lines behind and before it. -/
inductive Phase (lines : List Line) : State → Prop where
  | asking {done left : List Line} {n : Nat} {line : Buffer MAXLINE} : lines = done ++ left →
      Phase lines ⟨left.flatMap Line.bytes, .asking, n, line, [], [], done.flatMap Line.printed⟩
  | asked {done left : List Line} {request : Line} {line : Buffer MAXLINE} :
      lines = done ++ request :: left →
      Phase lines ⟨left.flatMap Line.bytes, .waiting, request.string.length, line,
        request.string, [], done.flatMap Line.printed⟩
  | answered {done left : List Line} {request : Line} {line : Buffer MAXLINE} :
      lines = done ++ request :: left → request.string ≠ [] →
      Phase lines ⟨left.flatMap Line.bytes, .waiting, request.string.length, line,
        [], request.reply, done.flatMap Line.printed⟩
  | ended {n : Nat} {line : Buffer MAXLINE} :
      Phase lines ⟨[], .ended, n, line, [], [], lines.flatMap Line.printed⟩

/-- Every step either reads input or goes on with the line that was read. -/
def remaining (state : State) : Nat :=
  3 * state.stdin.length +
    match state.place with
    | .asking => 1
    | .waiting => if state.toChild = [] then 2 else 3
    | .ended => 0

section Run

variable {lines : List Line} {state next : State}

theorem ask_line {request : Line} {input : List Byte} {n : Nat} {line : Buffer MAXLINE}
    {out : List Byte} :
    step ⟨request.bytes ++ input, .asking, n, line, [], [], out⟩ .ask =
      some ⟨input, .waiting, request.string.length, line.overwrite (request.bytes ++ [NUL]),
        request.string, [], out⟩ := by
  have string : (line.overwrite (request.bytes ++ [NUL])).text = request.string :=
    Buffer.text_overwrite_cstr request.bytes_fits
  simp only [step, if_pos, request.fgets_bytes]
  rw [Buffer.take_text, string]
  rfl

theorem ask_end {n : Nat} {line : Buffer MAXLINE} {out : List Byte} :
    step ⟨[], .asking, n, line, [], [], out⟩ .ask =
      some ⟨[], .ended, n, line, [], [], out⟩ := rfl

theorem answer_request {request : Line} {input : List Byte} {n : Nat} {line : Buffer MAXLINE}
    {out : List Byte} (filled : request.string ≠ []) :
    step ⟨input, .waiting, n, line, request.string, [], out⟩ .answer =
      some ⟨input, .waiting, n, line, [], request.reply, out⟩ := by
  have read : request.string.drop MAXLINE = [] :=
    List.drop_eq_nil_iff.mpr (Nat.le_of_lt request.string_length_lt)
  simp only [step, if_neg filled, request.add2_string, read, List.nil_append]

theorem print_reply {request : Line} {input : List Byte} {line : Buffer MAXLINE}
    {out : List Byte} (filled : request.string ≠ []) :
    step ⟨input, .waiting, request.string.length, line, [], request.reply, out⟩ .print =
      some ⟨input, .asking, request.string.length,
        (line.overwrite (request.reply ++ [NUL])).store request.string.length NUL,
        [], [], out ++ request.printed⟩ := by
  have cut : ((line.overwrite (request.reply ++ [NUL])).store request.string.length NUL).text =
      request.printed := by
    rw [Buffer.text_store_NUL request.string_length_lt,
      Buffer.text_overwrite_cstr request.reply_fits, request.cstr_reply]
    rfl
  have nonzero : request.string.length ≠ 0 := mt List.length_eq_zero_iff.mp filled
  simp only [step, if_pos, request.fgets_reply, if_neg nonzero, cut]

theorem phase_step {action : Action} (phase : Phase lines state)
    (taken : step state action = some next) :
    Phase lines next ∧ remaining next < remaining state := by
  cases phase with
  | @asking done left n line split_lines =>
    cases action with
    | ask =>
      cases left with
      | nil =>
        rw [List.flatMap_nil, ask_end] at taken
        cases taken
        rw [List.append_nil] at split_lines
        subst split_lines
        exact ⟨.ended, by simp [remaining]⟩
      | cons request left =>
        rw [List.flatMap_cons, ask_line] at taken
        cases taken
        refine ⟨.asked split_lines, ?_⟩
        have read : 0 < request.bytes.length := by simp [Line.bytes]
        simp only [remaining, List.flatMap_cons, List.length_append]
        split <;> omega
    | answer | print => simp [step] at taken
  | @asked done left request line split_lines =>
    cases action with
    | answer =>
      have filled : request.string ≠ [] := by
        rintro blank
        simp [step, blank] at taken
      rw [answer_request filled] at taken
      cases taken
      exact ⟨.answered split_lines filled, by simp [remaining, filled]⟩
    | ask => simp [step] at taken
    | print => simp [step, fgets] at taken
  | @answered done left request line split_lines filled =>
    cases action with
    | print =>
      rw [print_reply filled] at taken
      cases taken
      refine ⟨?_, by simp [remaining]⟩
      have printed : done.flatMap Line.printed ++ request.printed =
          (done ++ [request]).flatMap Line.printed := by simp
      rw [printed]
      exact .asking (by simpa using split_lines)
    | ask | answer => simp [step] at taken
  | ended => cases action <;> simp [step] at taken

/-- The client hangs at a line that begins with a NUL: it sends nothing, and waits
for the answer. -/
theorem stuck_phase (phase : Phase lines state) (stuck : ∀ action, step state action = none) :
    state.stdout = lines.flatMap Line.printed ∨
      ∃ done request left, lines = done ++ request :: left ∧ request.string = [] ∧
        state.stdout = done.flatMap Line.printed := by
  cases phase with
  | @asking done left n line _ =>
    have enabled := stuck .ask
    cases left with
    | nil =>
      rw [List.flatMap_nil, ask_end] at enabled
      cases enabled
    | cons request left =>
      rw [List.flatMap_cons, ask_line] at enabled
      cases enabled
  | @asked done left request line split_lines =>
    by_cases blank : request.string = []
    · exact .inr ⟨done, request, left, split_lines, blank, rfl⟩
    · have enabled := stuck .answer
      rw [answer_request blank] at enabled
      cases enabled
  | answered _ filled =>
    have enabled := stuck .print
    rw [print_reply filled] at enabled
    cases enabled
  | ended => exact .inl rfl

theorem phase_reachable {n : Nat} {line : Buffer MAXLINE}
    (reached : (machine (lines.flatMap Line.bytes) n line).Reachable state) : Phase lines state := by
  have start : Phase lines (machine (lines.flatMap Line.bytes) n line).start :=
    @Phase.asking lines [] lines n line rfl
  exact Machine.invariant start (fun phase taken => (phase_step phase taken).1) reached

theorem remaining_decreases {n : Nat} {line : Buffer MAXLINE} {action : Action}
    (reached : (machine (lines.flatMap Line.bytes) n line).Reachable state)
    (taken : (machine (lines.flatMap Line.bytes) n line).step state action = some next) :
    remaining next < remaining state :=
  (phase_step (phase_reachable reached) taken).2

theorem printed_length_le (lines : List Line) :
    (lines.flatMap Line.printed).length ≤ (lines.flatMap Line.reply).length := by
  induction lines with
  | nil => simp
  | cons line lines ih =>
    have cut : line.printed.length ≤ line.reply.length := by simp [Line.printed]
    simp only [List.flatMap_cons, List.length_append]
    omega

/-- Nothing is missing as a whole only where nothing is missing of any line. -/
theorem printed_eq_iff (lines : List Line) :
    lines.flatMap Line.printed = lines.flatMap Line.reply ↔
      ∀ line ∈ lines, line.reply.length ≤ line.string.length := by
  constructor
  · intro same
    induction lines with
    | nil => simp
    | cons line lines ih =>
      have lengths := congrArg List.length same
      have others := printed_length_le lines
      simp only [List.flatMap_cons, List.length_append] at lengths
      have cut : line.printed.length = min line.string.length line.reply.length := by
        simp [Line.printed]
      have enough : line.reply.length ≤ line.string.length := by omega
      have whole : line.printed = line.reply := List.take_of_length_le enough
      rw [List.flatMap_cons, List.flatMap_cons, whole] at same
      exact List.forall_mem_cons.mpr ⟨enough, ih (List.append_cancel_left same)⟩
  · intro enough
    refine List.flatMap_congr fun line member => ?_
    exact List.take_of_length_le (enough line member)

theorem shows_replies_iff_length :
    ShowsReplies lines ↔ ∀ line ∈ lines, line.reply.length ≤ line.string.length := by
  constructor
  · intro shows
    obtain ⟨-, shown⟩ := shows 0 Buffer.zero
    obtain ⟨state, reached, stuck⟩ := Machine.exists_stuck remaining_decreases
    have replies := shown state reached stuck
    rcases stuck_phase (phase_reachable reached) stuck with all | ⟨done, request, left, rfl, -, some⟩
    · exact (printed_eq_iff lines).mp (all.symm.trans replies)
    · -- The reply to the last request is missing.
      have lengths := congrArg List.length (some.symm.trans replies)
      have printed := printed_length_le done
      have reply := request.reply_filled
      simp only [List.flatMap_append, List.flatMap_cons, List.length_append] at lengths
      omega
  · intro enough n line
    refine ⟨Machine.terminates_of_measure remaining_decreases, fun state reached stuck => ?_⟩
    rcases stuck_phase (phase_reachable reached) stuck with all | ⟨done, request, left, rfl, blank, -⟩
    · exact all.trans ((printed_eq_iff lines).mpr enough)
    · have room := enough request (by simp)
      have reply := request.reply_filled
      rw [blank] at room
      exact absurd reply (Nat.not_lt.mpr room)

/-- The client shows the replies exactly when every line that is no request for a
sum is at least as long as the refusal. -/
theorem shows_replies_iff (lines : List Line) : ShowsReplies lines ↔
    ∀ line ∈ lines, (scanInts 2 line.string).length = 2 ∨ 13 ≤ line.string.length := by
  rw [shows_replies_iff_length]
  exact forall₂_congr fun line _ => line.reply_length_le_iff

end Run

/-- A single number is refused with `in`. -/
theorem not_shows_single_number : ¬ ∀ lines : List Line, ShowsReplies lines := by
  intro always
  let line : Line := ⟨['1'.toUInt8], by decide, by decide, by decide⟩
  have enough := shows_replies_iff_length.mp (always [line]) line (List.mem_singleton_self _)
  revert enough
  decide

end LinuxProgramming.Coprocess
