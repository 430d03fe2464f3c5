import LinuxProgramming.Foundation.Arrivals
import LinuxProgramming.Foundation.CString
import LinuxProgramming.Foundation.Lines

/-! Two functions that read a line: byte by byte, and through a buffer.

Both keep as much of a line as there is room for, and discard the rest of it. The first
one makes a call of `read` for every byte, and takes nothing that stands behind the line;
the second one takes what comes, and has the next line wait in its buffer.
-/

set_option autoImplicit false

namespace LinuxProgramming.Sockets
open Foundation

/-- The value that is returned, and the bytes that were stored at the start of the array. -/
structure Returned where
  numRead : Int
  buffer : List Byte
  deriving DecidableEq, Repr

namespace ReadLine

/-- The loop, behind which the NUL is stored. `stored` has the bytes before `buf`. -/
def loop (n : Nat) (stored : List Byte) (arrivals : Arrivals Byte) :
    Nat → Option (Returned × Arrivals Byte)
  | 0 => none
  | fuel + 1 =>
    match arrivals.read 1 with
    | (.interrupted, arrivals) => loop n stored arrivals fuel
    | (.failed, arrivals) => some (⟨-1, stored⟩, arrivals)
    | (.bytes [], arrivals) =>
      if stored.length = 0 then some (⟨0, stored⟩, arrivals)
      else some (⟨stored.length, stored ++ [NUL]⟩, arrivals)
    | (.bytes (ch :: _), arrivals) =>
      let stored := if stored.length < n - 1 then stored ++ [ch] else stored
      if ch = newline then some (⟨stored.length, stored ++ [NUL]⟩, arrivals)
      else loop n stored arrivals fuel

def readLine (n : Nat) (arrivals : Arrivals Byte) (fuel : Nat) :
    Option (Returned × Arrivals Byte) :=
  if n = 0 then some (⟨-1, []⟩, arrivals) else loop n [] arrivals fuel

end ReadLine

def RL_MAX_BUF : Nat := 10

/-- The descriptor of the source is the list of arrivals that goes with it. -/
structure ReadLineBuf where
  buf : Buffer RL_MAX_BUF
  next : Nat
  len : Int

namespace ReadLineBuf

/-- The array is not initialised. -/
def readLineBufInit (memory : Buffer RL_MAX_BUF) : ReadLineBuf := ⟨memory, 0, 0⟩

/-- What the call of `read` leads to, when the buffer is empty. -/
inductive Refilled where
  | ready
  | ended
  | failed
  deriving DecidableEq, Repr

def refill (rlbuf : ReadLineBuf) (arrivals : Arrivals Byte) :
    Refilled × ReadLineBuf × Arrivals Byte :=
  if rlbuf.next < rlbuf.len then (.ready, rlbuf, arrivals)
  else
    match arrivals.read RL_MAX_BUF with
    | (.interrupted, arrivals) | (.failed, arrivals) =>
      (.failed, { rlbuf with len := -1 }, arrivals)
    | (.bytes chunk, arrivals) =>
      if chunk = [] then (.ended, { rlbuf with len := 0 }, arrivals)
      else (.ready, ⟨rlbuf.buf.overwrite chunk, 0, chunk.length⟩, arrivals)

def loop (n : Nat) (stored : List Byte) (rlbuf : ReadLineBuf) (arrivals : Arrivals Byte) :
    Nat → Option (Returned × ReadLineBuf × Arrivals Byte)
  | 0 => none
  | fuel + 1 =>
    match refill rlbuf arrivals with
    | (.failed, rlbuf, arrivals) => some (⟨-1, stored⟩, rlbuf, arrivals)
    | (.ended, rlbuf, arrivals) => some (⟨stored.length, stored⟩, rlbuf, arrivals)
    | (.ready, rlbuf, arrivals) =>
      let c := rlbuf.buf.bytes.getD rlbuf.next NUL
      let rlbuf := { rlbuf with next := rlbuf.next + 1 }
      let stored := if stored.length < n then stored ++ [c] else stored
      if c = newline then some (⟨stored.length, stored⟩, rlbuf, arrivals)
      else loop n stored rlbuf arrivals fuel

def readLineBuf (n : Nat) (state : ReadLineBuf × Arrivals Byte) (fuel : Nat) :
    Option (Returned × ReadLineBuf × Arrivals Byte) :=
  if n = 0 then some (⟨-1, []⟩, state) else loop n [] state.1 state.2 fuel

/-- What is in the buffer and was not given out. -/
def unread (rlbuf : ReadLineBuf) : List Byte :=
  (rlbuf.buf.bytes.take rlbuf.len.toNat).drop rlbuf.next

/-- No more is in the buffer than fits. -/
def Valid (rlbuf : ReadLineBuf) : Prop := rlbuf.len ≤ RL_MAX_BUF

end ReadLineBuf

/-- The line at the start of a text, with its newline, and what stands behind it. -/
def splitLine : List Byte → List Byte × List Byte
  | [] => ([], [])
  | c :: rest =>
    if c = newline then ([c], rest) else (c :: (splitLine rest).1, (splitLine rest).2)

theorem splitLine_append (text : List Byte) :
    (splitLine text).1 ++ (splitLine text).2 = text := by
  induction text with
  | nil => rfl
  | cons c rest ih =>
    rw [splitLine]
    split
    next => rfl
    next => exact congrArg (c :: ·) ih

theorem lines_splitLine {text : List Byte} (filled : text ≠ []) :
    lines newline text = (splitLine text).1 :: lines newline (splitLine text).2 := by
  induction text with
  | nil => contradiction
  | cons c rest ih =>
    rw [lines, splitLine]
    split
    next => rfl
    next =>
      cases rest with
      | nil => rfl
      | cons d rest => rw [ih (List.cons_ne_nil d rest)]

/-- A byte is kept while there is room, and with the first byte of a line the rest follows. -/
theorem keep_cons {room : Nat} {stored : List Byte} (fits : stored.length ≤ room) (c : Byte)
    (line : List Byte) :
    stored ++ (c :: line).take (room - stored.length) =
      (if stored.length < room then stored ++ [c] else stored) ++
        line.take (room - (if stored.length < room then stored ++ [c] else stored).length) := by
  by_cases more : stored.length < room
  · obtain ⟨spare, spare_eq⟩ := Nat.exists_eq_add_of_lt more
    have before : room - stored.length = spare + 1 := by omega
    have after : room - (stored.length + 1) = spare := by omega
    simp [if_pos more, before, after]
  · have full : room - stored.length = 0 := by omega
    simp [if_neg more, full]

theorem keep_length {room : Nat} {stored : List Byte} (fits : stored.length ≤ room) (c : Byte) :
    (if stored.length < room then stored ++ [c] else stored).length ≤ room := by
  split
  next more =>
    rw [List.length_append]
    exact more
  next => exact fits

namespace ReadLine

/-- What is returned behind a line of which `stored` was kept. The end of the file behind
nothing that was kept is reported, and then no NUL is stored. -/
def finish (stored line : List Byte) : Returned :=
  if stored = [] ∧ newline ∉ line then ⟨0, []⟩ else ⟨stored.length, stored ++ [NUL]⟩

theorem loop_yields {n : Nat} {stored : List Byte} {arrivals : Arrivals Byte}
    (reliable : arrivals.Reliable) (room : stored.length ≤ n - 1) :
    ∃ rest : Arrivals Byte, rest.content = (splitLine arrivals.content).2 ∧ rest.Reliable ∧
      ∀ line, line = (splitLine arrivals.content).1 →
        Yields (loop n stored arrivals)
          (finish (stored ++ line.take (n - 1 - stored.length)) line, rest) := by
  -- Each call of `read` that is not the last one leaves less to read.
  induction left : arrivals.size using Nat.strong_induction_on generalizing stored arrivals with
  | _ left ih =>
    rcases Arrivals.read_cases reliable Nat.zero_lt_one with
      ⟨rest, rfl, fetched⟩ | ⟨rfl, fetched⟩ |
      ⟨chunk, rest, filled, short, fetched, content, reliable_rest, _⟩
    · obtain ⟨final, content, reliable_final, yields⟩ := ih rest.size
        (by rw [← left]; exact Nat.lt_succ_self _) (show rest.Reliable from reliable) room rfl
      refine ⟨final, content, reliable_final, fun line same => (yields line same).step ?_⟩
      intro fuel
      rw [loop, fetched]
    · refine ⟨[], rfl, trivial, ?_⟩
      rintro line rfl
      refine (Yields.const _).step fun fuel => ?_
      rw [loop, fetched]
      by_cases empty : stored = []
      · simp [empty, Arrivals.content, splitLine, finish]
      · simp [empty, Arrivals.content, splitLine, finish]
    · obtain ⟨ch, rfl⟩ : ∃ ch, chunk = [ch] := by
        rw [← List.length_eq_one_iff]
        have positive := List.length_pos_iff.mpr filled
        omega
      have smaller := Arrivals.size_read fetched
      rw [content]
      by_cases ended : ch = newline
      · refine ⟨rest, by simp [splitLine, ended], reliable_rest, ?_⟩
        rintro line rfl
        refine (Yields.const _).step fun fuel => ?_
        rw [loop, fetched]
        simp only [List.cons_append, List.nil_append, splitLine, if_pos ended]
        rw [keep_cons room]
        simp [finish, ended]
      · obtain ⟨final, content_final, reliable_final, yields⟩ := ih rest.size
          (by rw [← left, smaller]; exact Nat.lt_add_of_pos_left Nat.zero_lt_one) reliable_rest
          (keep_length room ch) rfl
        refine ⟨final, by simp [splitLine, ended, content_final], reliable_final, ?_⟩
        rintro line rfl
        have same : finish (stored ++ ((splitLine ([ch] ++ rest.content)).1).take
            (n - 1 - stored.length)) (splitLine ([ch] ++ rest.content)).1 =
          finish ((if stored.length < n - 1 then stored ++ [ch] else stored) ++
            ((splitLine rest.content).1).take
              (n - 1 - (if stored.length < n - 1 then stored ++ [ch] else stored).length))
            (splitLine rest.content).1 := by
          have apart : ¬newline = ch := fun equal => ended equal.symm
          simp only [List.cons_append, List.nil_append, splitLine, if_neg ended]
          rw [keep_cons room]
          simp [finish, apart]
        rw [same]
        refine (yields _ rfl).step fun fuel => ?_
        rw [loop, fetched]
        simp only [if_neg ended]

end ReadLine

namespace ReadLineBuf

variable {rlbuf : ReadLineBuf} {arrivals : Arrivals Byte}

/-- There is a byte, in the buffer or behind the next call of `read`. -/
theorem refill_ready (valid : rlbuf.Valid) (calm : arrivals.Calm) {c : Byte} {text : List Byte}
    (remaining : rlbuf.unread ++ arrivals.content = c :: text) :
    ∃ (filled : ReadLineBuf) (rest : Arrivals Byte),
      refill rlbuf arrivals = (.ready, filled, rest) ∧
      filled.buf.bytes.getD filled.next NUL = c ∧
      { filled with next := filled.next + 1 }.unread ++ rest.content = text ∧
      filled.Valid ∧ rest.Calm := by
  have size := rlbuf.buf.length_eq
  by_cases some_unread : rlbuf.next < rlbuf.len
  · have inside : rlbuf.next < (rlbuf.buf.bytes.take rlbuf.len.toNat).length := by
      rw [List.length_take, size]
      have most : rlbuf.len ≤ RL_MAX_BUF := valid
      omega
    have next_byte := List.drop_eq_getElem_cons inside
    rw [unread, next_byte, List.cons_append, List.cons.injEq] at remaining
    refine ⟨rlbuf, arrivals, by rw [refill, if_pos some_unread], ?_, ?_, valid, calm⟩
    · rw [List.length_take] at inside
      rw [← remaining.1, List.getElem_take, List.getD_eq_getElem?_getD,
        List.getElem?_eq_getElem (by omega), Option.getD_some]
    · exact remaining.2
  · have nothing : rlbuf.unread = [] := by
      rw [unread, List.drop_eq_nil_iff, List.length_take]
      omega
    rw [nothing, List.nil_append] at remaining
    rcases Arrivals.read_cases calm.reliable (show 0 < RL_MAX_BUF from Nat.succ_pos _) with
      ⟨rest, rfl, _⟩ | ⟨rfl, _⟩ | ⟨chunk, rest, filled, short, fetched, content, _, calm_rest⟩
    · cases calm
    · cases remaining
    · rw [content] at remaining
      obtain ⟨first, more, rfl⟩ := List.exists_cons_of_ne_nil filled
      rw [List.cons_append, List.cons.injEq] at remaining
      refine ⟨⟨rlbuf.buf.overwrite (first :: more), 0, (first :: more).length⟩, rest, ?_, ?_, ?_,
        ?_, calm_rest calm⟩
      · rw [refill, if_neg some_unread, fetched]
        rfl
      · rw [Buffer.bytes_overwrite short]
        exact remaining.1
      · rw [unread, Buffer.bytes_overwrite short, Int.toNat_natCast, List.take_left]
        exact remaining.2
      · exact Int.ofNat_le.mpr short

theorem refill_ended (calm : arrivals.Calm) (remaining : rlbuf.unread ++ arrivals.content = [])
    (valid : rlbuf.Valid) :
    ∃ ended : ReadLineBuf, refill rlbuf arrivals = (.ended, ended, []) ∧ ended.unread = [] ∧
      ended.Valid := by
  have size := rlbuf.buf.length_eq
  obtain ⟨nothing, none_left⟩ := List.append_eq_nil_iff.mp remaining
  have empty : ¬rlbuf.next < rlbuf.len := by
    rw [unread, List.drop_eq_nil_iff, List.length_take, size] at nothing
    have most : rlbuf.len ≤ RL_MAX_BUF := valid
    omega
  rcases Arrivals.read_cases calm.reliable (show 0 < RL_MAX_BUF from Nat.succ_pos _) with
    ⟨rest, rfl, _⟩ | ⟨rfl, fetched⟩ | ⟨chunk, rest, filled, _, _, content, _⟩
  · cases calm
  · refine ⟨{ rlbuf with len := 0 }, ?_, ?_, ?_⟩
    · rw [refill, if_neg empty, fetched]
      rfl
    · rw [unread, Int.toNat_zero, List.take_zero, List.drop_nil]
    · exact Int.natCast_nonneg RL_MAX_BUF
  · rw [content] at none_left
    exact absurd (List.append_eq_nil_iff.mp none_left).1 filled

/-- What the buffer is filled from does not depend on what comes later. -/
theorem refill_append {filled : ReadLineBuf} {rest : Arrivals Byte} (tail : Arrivals Byte)
    (fetched : refill rlbuf arrivals = (.ready, filled, rest)) :
    refill rlbuf (arrivals ++ tail) = (.ready, filled, rest ++ tail) := by
  unfold refill at fetched ⊢
  split at fetched
  next some_unread =>
    cases fetched
    rw [if_pos some_unread]
  next empty =>
    rw [if_neg empty]
    cases arrivals with
    | nil => cases fetched
    | cons arrival arrivals =>
      cases arrival with
      | interrupted | failed => cases fetched
      | bytes first more =>
        have apart : Arrivals.later ((first :: more).drop RL_MAX_BUF) (arrivals ++ tail) =
            Arrivals.later ((first :: more).drop RL_MAX_BUF) arrivals ++ tail := by
          cases (first :: more).drop RL_MAX_BUF with
          | nil => rfl
          | cons first more => rfl
        have filled : (first :: more).take RL_MAX_BUF ≠ [] := List.cons_ne_nil _ _
        simp only [Arrivals.read, if_neg filled] at fetched
        cases fetched
        simp only [List.cons_append, Arrivals.read, if_neg filled, apart]

theorem loop_interrupted {n : Nat} {stored text : List Byte} {later : Arrivals Byte}
    (valid : rlbuf.Valid) (calm : arrivals.Calm) (room : stored.length ≤ n)
    (remaining : rlbuf.unread ++ arrivals.content = text) (inside : newline ∉ text) :
    ∃ final : ReadLineBuf, final.unread = [] ∧
      ∀ kept, kept = stored ++ text.take (n - stored.length) →
        Yields (loop n stored rlbuf (arrivals ++ .interrupted :: later)) (⟨-1, kept⟩, final, later) := by
  induction text generalizing stored rlbuf arrivals with
  | nil =>
    obtain ⟨nothing, none_left⟩ := List.append_eq_nil_iff.mp remaining
    have none_arrive : arrivals = [] := by
      cases arrivals with
      | nil => rfl
      | cons arrival arrivals =>
        cases arrival with
        | bytes first more => cases none_left
        | interrupted | failed => cases calm
    subst none_arrive
    have empty : ¬rlbuf.next < rlbuf.len := by
      have size := rlbuf.buf.length_eq
      rw [unread, List.drop_eq_nil_iff, List.length_take, size] at nothing
      have most : rlbuf.len ≤ RL_MAX_BUF := valid
      omega
    refine ⟨{ rlbuf with len := -1 }, ?_, ?_⟩
    · rw [unread, show (-1 : Int).toNat = 0 from rfl, List.take_zero, List.drop_nil]
    · rintro kept rfl
      refine (Yields.const _).step fun fuel => ?_
      rw [loop, List.nil_append, refill, if_neg empty]
      simp [Arrivals.read]
  | cons c text ih =>
    obtain ⟨filled, rest, fetched, byte, behind, valid_filled, calm_rest⟩ :=
      refill_ready valid calm remaining
    rw [List.mem_cons, not_or] at inside
    obtain ⟨final, empty, yields⟩ :=
      ih (show ReadLineBuf.Valid { filled with next := filled.next + 1 } from valid_filled)
        calm_rest (keep_length room c) behind inside.2
    refine ⟨final, empty, ?_⟩
    rintro kept rfl
    rw [keep_cons room]
    refine (yields _ rfl).step fun fuel => ?_
    rw [loop, refill_append _ fetched]
    simp only [byte, if_neg (Ne.symm inside.1)]

theorem loop_yields {n : Nat} {stored text : List Byte} (valid : rlbuf.Valid)
    (calm : arrivals.Calm) (room : stored.length ≤ n)
    (remaining : rlbuf.unread ++ arrivals.content = text) :
    ∃ (final : ReadLineBuf) (rest : Arrivals Byte),
      final.unread ++ rest.content = (splitLine text).2 ∧ final.Valid ∧ rest.Calm ∧
      ∀ kept, kept = stored ++ (splitLine text).1.take (n - stored.length) →
        Yields (loop n stored rlbuf arrivals) (⟨kept.length, kept⟩, final, rest) := by
  induction text generalizing stored rlbuf arrivals with
  | nil =>
    obtain ⟨ended, fetched, nothing, valid_ended⟩ := refill_ended calm remaining valid
    refine ⟨ended, [], by rw [nothing]; rfl, valid_ended, trivial, ?_⟩
    rintro kept rfl
    refine (Yields.const _).step fun fuel => ?_
    rw [loop, fetched]
    simp [splitLine]
  | cons c text ih =>
    obtain ⟨filled, rest, fetched, byte, behind, valid_filled, calm_rest⟩ :=
      refill_ready valid calm remaining
    by_cases ended : c = newline
    · refine ⟨{ filled with next := filled.next + 1 }, rest, ?_, valid_filled, calm_rest, ?_⟩
      · rw [behind, splitLine, if_pos ended]
      · rintro kept rfl
        refine (Yields.const _).step fun fuel => ?_
        rw [loop, fetched]
        simp only [byte, splitLine, if_pos ended]
        rw [keep_cons room]
        simp
    · obtain ⟨final, last, content, valid_final, calm_last, yields⟩ :=
        ih (show ReadLineBuf.Valid { filled with next := filled.next + 1 } from valid_filled)
          calm_rest (keep_length room c) behind
      refine ⟨final, last, ?_, valid_final, calm_last, ?_⟩
      · rw [splitLine, if_neg ended]
        exact content
      · rintro kept rfl
        rw [splitLine, if_neg ended, keep_cons room]
        refine (yields _ rfl).step fun fuel => ?_
        rw [loop, fetched]
        simp only [byte, if_neg ended]

end ReadLineBuf

/-- The results of successive calls, and what the one behind them returns that has no line:
0 at the end of the text, or -1. -/
def calls {State : Type} (call : State → Nat → Option (Returned × State)) (state : State) :
    Nat → Option (List Returned × Int)
  | 0 => none
  | fuel + 1 =>
    (call state fuel).bind fun result =>
      if result.1.numRead ≤ 0 then some ([], result.1.numRead)
      else (calls call result.2 fuel).map fun later => (result.1 :: later.1, later.2)

theorem splitLine_shorter {text : List Byte} (filled : text ≠ []) :
    (splitLine text).1 ≠ [] ∧ (splitLine text).2.length < text.length := by
  obtain ⟨c, rest, rfl⟩ := List.exists_cons_of_ne_nil filled
  have parts := congrArg List.length (splitLine_append rest)
  rw [List.length_append] at parts
  rw [splitLine]
  split
  next => exact ⟨List.cons_ne_nil _ _, Nat.lt_succ_self _⟩
  next =>
    refine ⟨List.cons_ne_nil _ _, ?_⟩
    simp only [List.length_cons]
    omega

/-- A function that gives out a line in each call gives out all of them. -/
theorem calls_yields {State : Type} {call : State → Nat → Option (Returned × State)}
    (remaining : State → List Byte) (good : State → Prop) {give : List Byte → Returned}
    (ends : ∀ state, good state → remaining state = [] →
      ∃ result : Returned × State, result.1.numRead = 0 ∧ Yields (call state) result)
    (goes : ∀ state, good state → remaining state ≠ [] →
      ∃ next, good next ∧ remaining next = (splitLine (remaining state)).2 ∧
        0 < (give (splitLine (remaining state)).1).numRead ∧
        Yields (call state) (give (splitLine (remaining state)).1, next))
    {state : State} (start : good state) :
    Yields (calls call state) ((lines newline (remaining state)).map give, 0) := by
  induction left : (remaining state).length using Nat.strong_induction_on generalizing state with
  | _ left ih =>
    by_cases ended : remaining state = []
    · obtain ⟨result, none_read, least, yields⟩ := ends state start ended
      refine ⟨least + 1, fun fuel enough => ?_⟩
      obtain ⟨fuel, rfl⟩ := Nat.exists_eq_succ_of_ne_zero (by omega : fuel ≠ 0)
      rw [calls, yields fuel (by omega), Option.bind_some, if_pos (Int.le_of_eq none_read),
        none_read, ended]
      rfl
    · obtain ⟨next, good_next, behind, some_read, least, yields⟩ := goes state start ended
      have shorter := (splitLine_shorter ended).2
      obtain ⟨more, rest⟩ := ih (remaining next).length (by rw [behind]; omega) good_next rfl
      refine ⟨max least more + 1, fun fuel enough => ?_⟩
      obtain ⟨fuel, rfl⟩ := Nat.exists_eq_succ_of_ne_zero (by omega : fuel ≠ 0)
      rw [calls, yields fuel (by omega), Option.bind_some, if_neg (Int.not_le.mpr some_read),
        rest fuel (by omega), lines_splitLine ended, behind]
      rfl

theorem readLine_yields {n : Nat} (room : 1 < n) {arrivals : Arrivals Byte}
    (reliable : arrivals.Reliable) :
    Yields (calls (ReadLine.readLine n) arrivals)
      ((lines newline arrivals.content).map fun line =>
        ⟨(line.take (n - 1)).length, line.take (n - 1) ++ [NUL]⟩, 0) := by
  have single : ∀ state : Arrivals Byte, state.Reliable →
      ∃ rest : Arrivals Byte, rest.content = (splitLine state.content).2 ∧ rest.Reliable ∧
        Yields (ReadLine.readLine n state)
          (ReadLine.finish ((splitLine state.content).1.take (n - 1)) (splitLine state.content).1,
            rest) := by
    intro state reliable
    obtain ⟨rest, content, reliable_rest, yields⟩ :=
      ReadLine.loop_yields reliable (show ([] : List Byte).length ≤ n - 1 from Nat.zero_le _)
    refine ⟨rest, content, reliable_rest, ?_⟩
    have opened : ReadLine.readLine n state = ReadLine.loop n [] state := by
      funext fuel
      rw [ReadLine.readLine, if_neg (by omega)]
    rw [opened]
    exact yields _ rfl
  refine calls_yields Arrivals.content Arrivals.Reliable ?_ ?_ reliable
  · intro state reliable ended
    obtain ⟨rest, _, _, yields⟩ := single state reliable
    rw [ended] at yields
    exact ⟨_, by simp [ReadLine.finish, splitLine], yields⟩
  · intro state reliable filled
    obtain ⟨rest, content, reliable_rest, yields⟩ := single state reliable
    have kept : (splitLine state.content).1.take (n - 1) ≠ [] := by
      rw [Ne, List.take_eq_nil_iff, not_or]
      exact ⟨by omega, (splitLine_shorter filled).1⟩
    rw [ReadLine.finish, if_neg (fun empty => kept empty.1)] at yields
    exact ⟨rest, reliable_rest, content, Int.ofNat_lt.mpr (List.length_pos_iff.mpr kept), yields⟩

theorem readLineBuf_yields {n : Nat} (room : 0 < n) {rlbuf : ReadLineBuf}
    {arrivals : Arrivals Byte} (valid : rlbuf.Valid) (calm : arrivals.Calm) :
    Yields (calls (ReadLineBuf.readLineBuf n) (rlbuf, arrivals))
      ((lines newline (rlbuf.unread ++ arrivals.content)).map fun line =>
        ⟨(line.take n).length, line.take n⟩, 0) := by
  have single : ∀ state : ReadLineBuf × Arrivals Byte, state.1.Valid ∧ state.2.Calm →
      ∃ next : ReadLineBuf × Arrivals Byte, (next.1.Valid ∧ next.2.Calm) ∧
        next.1.unread ++ next.2.content = (splitLine (state.1.unread ++ state.2.content)).2 ∧
        ∀ kept, kept = (splitLine (state.1.unread ++ state.2.content)).1.take n →
          Yields (ReadLineBuf.readLineBuf n state) (⟨kept.length, kept⟩, next) := by
    rintro state ⟨valid, calm⟩
    obtain ⟨final, rest, content, valid_final, calm_rest, yields⟩ :=
      ReadLineBuf.loop_yields valid calm (show ([] : List Byte).length ≤ n from Nat.zero_le n) rfl
    refine ⟨(final, rest), ⟨valid_final, calm_rest⟩, content, ?_⟩
    rintro kept rfl
    have opened : ReadLineBuf.readLineBuf n state = ReadLineBuf.loop n [] state.1 state.2 := by
      funext fuel
      rw [ReadLineBuf.readLineBuf, if_neg (by omega)]
    rw [opened]
    exact yields _ rfl
  refine calls_yields (fun state : ReadLineBuf × Arrivals Byte =>
      state.1.unread ++ state.2.content)
    (fun state => state.1.Valid ∧ state.2.Calm) ?_ ?_ ⟨valid, calm⟩
  · intro state good ended
    obtain ⟨next, _, _, yields⟩ := single state good
    rw [ended] at yields
    exact ⟨_, by simp [splitLine], yields _ rfl⟩
  · intro state good filled
    obtain ⟨next, good_next, content, yields⟩ := single state good
    have kept : (splitLine (state.1.unread ++ state.2.content)).1.take n ≠ [] := by
      rw [Ne, List.take_eq_nil_iff, not_or]
      exact ⟨by omega, (splitLine_shorter filled).1⟩
    exact ⟨next, good_next, content, Int.ofNat_lt.mpr (List.length_pos_iff.mpr kept), yields _ rfl⟩

/-- A signal in the middle of a line: what the buffered function has given out of the line
is lost with the error, and the other function goes on. -/
theorem readLineBuf_interrupted {n : Nat} (room : 0 < n) {rlbuf : ReadLineBuf}
    {front : Arrivals Byte} (valid : rlbuf.Valid) (calm : front.Calm)
    (inside : newline ∉ rlbuf.unread ++ front.content) (later : Arrivals Byte) :
    ∃ final : ReadLineBuf, final.unread = [] ∧
      Yields (ReadLineBuf.readLineBuf n (rlbuf, front ++ .interrupted :: later))
        (⟨-1, (rlbuf.unread ++ front.content).take n⟩, final, later) := by
  obtain ⟨final, empty, yields⟩ :=
    ReadLineBuf.loop_interrupted valid calm (show ([] : List Byte).length ≤ n from Nat.zero_le n) rfl
      inside
  refine ⟨final, empty, ?_⟩
  have opened : ReadLineBuf.readLineBuf n (rlbuf, front ++ .interrupted :: later) =
      ReadLineBuf.loop n [] rlbuf (front ++ .interrupted :: later) := by
    funext fuel
    rw [ReadLineBuf.readLineBuf, if_neg (by omega)]
  rw [opened]
  exact yields _ rfl

/-- For texts that arrive in any pieces, and any signals that interrupt the plain function,
both give the same lines where there is room for a byte and the NUL: those of the text, each
as far as there is room. Behind them both return 0. -/
theorem readLineBuf_agrees {n : Nat} (room : 1 < n) (memory : Buffer RL_MAX_BUF)
    {plain buffered : Arrivals Byte} (reliable : plain.Reliable) (calm : buffered.Calm)
    (same : buffered.content = plain.content) :
    ∃ texts, texts = (lines newline plain.content).map (·.take (n - 1)) ∧
      Yields (calls (ReadLine.readLine n) plain)
        (texts.map fun text => ⟨text.length, text ++ [NUL]⟩, 0) ∧
      Yields (calls (ReadLineBuf.readLineBuf (n - 1))
          (ReadLineBuf.readLineBufInit memory, buffered))
        (texts.map fun text => ⟨text.length, text⟩, 0) ∧
      ∀ text ∈ texts, text ≠ [] ∧ text.length < n := by
  have fresh : (ReadLineBuf.readLineBufInit memory).unread = [] := rfl
  have empty : (ReadLineBuf.readLineBufInit memory).Valid := Int.natCast_nonneg RL_MAX_BUF
  have first := readLine_yields room reliable
  have second := readLineBuf_yields (show 0 < n - 1 by omega) empty calm
  rw [fresh, List.nil_append, same] at second
  refine ⟨_, rfl, ?_, ?_, ?_⟩
  · rw [List.map_map]
    exact first
  · rw [List.map_map]
    exact second
  · intro text member
    obtain ⟨line, part, rfl⟩ := List.mem_map.mp member
    rw [Ne, List.take_eq_nil_iff, not_or, List.length_take]
    exact ⟨⟨by omega, lines_ne_nil part⟩, by omega⟩

/-- Bytes, a newline and more bytes, read one by one and in two pieces. -/
theorem readLineBuf_agrees_pieces :
    ∃ texts, texts = [[97, 98, 10], [99]] ∧
      Yields (calls (ReadLine.readLine 4) [.interrupted, .bytes 97 [98, 10, 99]])
        (texts.map fun text => ⟨text.length, text ++ [NUL]⟩, 0) ∧
      Yields (calls (ReadLineBuf.readLineBuf 3)
          (ReadLineBuf.readLineBufInit Buffer.zero, [.bytes 97 [98], .bytes 10 [99]]))
        (texts.map fun text => ⟨text.length, text⟩, 0) ∧
      ∀ text ∈ texts, text ≠ [] ∧ text.length < 4 :=
  readLineBuf_agrees (show 1 < 4 by decide) Buffer.zero
    (show Arrivals.Reliable [.interrupted, .bytes 97 [98, 10, 99]] from trivial)
    (show Arrivals.Calm [.bytes 97 [98], .bytes 10 [99]] from trivial) rfl

end LinuxProgramming.Sockets
