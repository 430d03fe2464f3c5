import LinuxProgramming.Foundation.Arrivals
import LinuxProgramming.Foundation.CString

/-! Reading and writing a given number of bytes, in as many calls as it takes.

What one process writes in pieces the other one reads in pieces, and the two need not be
the same. With records whose lengths both sides know, every record arrives as a whole.
-/

set_option autoImplicit false

namespace LinuxProgramming.Sockets
open Foundation

/-- What comes of a call of `write`: at most `count` of the bytes are taken, or none, with
or without a signal as the reason. -/
inductive Outcome where
  | partly (count : Nat)
  | interrupted
  | failed
  deriving DecidableEq, Repr

/-- The outcomes of the calls to come; behind them everything is taken at once. -/
abbrev Outcomes := List Outcome

inductive Wrote where
  | wrote (numWritten : Nat)
  | interrupted
  | failed
  deriving DecidableEq, Repr

/-- The result, and the bytes that were taken. -/
def write (buf : List Byte) : Outcomes → Wrote × List Byte × Outcomes
  | [] => (.wrote buf.length, buf, [])
  | .partly count :: later => (.wrote (buf.take count).length, buf.take count, later)
  | .interrupted :: later => (.interrupted, [], later)
  | .failed :: later => (.failed, [], later)

/-- What has happened to the descriptor so far. -/
structure Sent where
  returned : Int
  output : List Byte
  outcomes : Outcomes
  deriving DecidableEq, Repr

/-- The loop of `writen`, with the bytes behind `buf`. -/
def writenLoop (buffer : List Byte) (n totWritten : Nat) (output : List Byte)
    (outcomes : Outcomes) : Nat → Option Sent
  | 0 => none
  | fuel + 1 =>
    if totWritten < n then
      match write ((buffer.drop totWritten).take (n - totWritten)) outcomes with
      | (.interrupted, _, outcomes) => writenLoop buffer n totWritten output outcomes fuel
      | (.failed, _, outcomes) => some ⟨-1, output, outcomes⟩
      | (.wrote numWritten, taken, outcomes) =>
        -- A call that takes nothing is not repeated.
        if numWritten = 0 then some ⟨-1, output, outcomes⟩
        else writenLoop buffer n (totWritten + numWritten) (output ++ taken) outcomes fuel
    else some ⟨totWritten, output, outcomes⟩

def writen (buffer : List Byte) (n : Nat) (output : List Byte) (outcomes : Outcomes) (fuel : Nat) :
    Option Sent :=
  writenLoop buffer n 0 output outcomes fuel

/-- The value that is returned, the bytes that were stored and what is still to arrive. -/
structure Received where
  returned : Int
  buffer : List Byte
  arrivals : Arrivals Byte

def readnLoop (n : Nat) (buffer : List Byte) (arrivals : Arrivals Byte) : Nat → Option Received
  | 0 => none
  | fuel + 1 =>
    if buffer.length < n then
      match arrivals.read (n - buffer.length) with
      | (.interrupted, arrivals) => readnLoop n buffer arrivals fuel
      | (.failed, arrivals) => some ⟨-1, buffer, arrivals⟩
      | (.bytes chunk, arrivals) =>
        if chunk = [] then some ⟨buffer.length, buffer, arrivals⟩
        else readnLoop n (buffer ++ chunk) arrivals fuel
    else some ⟨buffer.length, buffer, arrivals⟩

def readn (n : Nat) (arrivals : Arrivals Byte) (fuel : Nat) : Option Received :=
  readnLoop n [] arrivals fuel

/-- Every call takes something, or is interrupted. -/
def Outcomes.Taking (outcomes : Outcomes) : Prop :=
  ∀ outcome ∈ outcomes, outcome = .interrupted ∨ ∃ count, outcome = .partly (count + 1)

theorem readnLoop_yields {n : Nat} {buffer : List Byte} {arrivals : Arrivals Byte}
    (reliable : arrivals.Reliable) (room : buffer.length ≤ n) :
    ∃ rest : Arrivals Byte, rest.Reliable ∧ rest.content = arrivals.content.drop (n - buffer.length) ∧
      ∀ stored, stored = buffer ++ arrivals.content.take (n - buffer.length) →
        Yields (readnLoop n buffer arrivals) ⟨stored.length, stored, rest⟩ := by
  induction left : arrivals.size using Nat.strong_induction_on generalizing buffer arrivals with
  | _ left ih =>
    by_cases more : buffer.length < n
    · rcases Arrivals.read_cases reliable (Nat.sub_pos_of_lt more) with
        ⟨rest, rfl, fetched⟩ | ⟨rfl, fetched⟩ |
        ⟨chunk, rest, filled, short, fetched, content, reliable_rest, _⟩
      · obtain ⟨final, reliable_final, behind, yields⟩ := ih rest.size
          (by rw [← left]; exact Nat.lt_succ_self _) (show rest.Reliable from reliable) room rfl
        refine ⟨final, reliable_final, behind, fun stored same => (yields stored same).step ?_⟩
        intro fuel
        rw [readnLoop, if_pos more, fetched]
      · refine ⟨[], trivial, by simp [Arrivals.content], ?_⟩
        rintro stored rfl
        refine (Yields.const _).step fun fuel => ?_
        rw [readnLoop, if_pos more, fetched]
        simp [Arrivals.content]
      · have smaller := Arrivals.size_read fetched
        have positive := List.length_pos_iff.mpr filled
        have spare : n - buffer.length = chunk.length + (n - (buffer ++ chunk).length) := by
          rw [List.length_append]
          omega
        obtain ⟨final, reliable_final, behind, yields⟩ := ih rest.size (by omega) reliable_rest
          (show (buffer ++ chunk).length ≤ n by rw [List.length_append]; omega) rfl
        refine ⟨final, reliable_final, ?_, ?_⟩
        · rw [behind, content, spare, List.drop_length_add_append]
        · rintro stored rfl
          refine (yields _ ?_).step fun fuel => ?_
          · rw [content, spare, List.take_length_add_append, List.append_assoc]
          · rw [readnLoop, if_pos more, fetched]
            simp only [if_neg filled]
    · have full : n - buffer.length = 0 := by omega
      refine ⟨arrivals, reliable, by rw [full, List.drop_zero], ?_⟩
      rintro stored rfl
      refine (Yields.const _).step fun fuel => ?_
      rw [readnLoop, if_neg more, full, List.take_zero, List.append_nil]

/-- A call continues where the one before it has stopped. -/
theorem take_drop_add (bytes : List Byte) (first taken count : Nat) :
    (bytes.drop first).take taken ++ (bytes.drop (first + taken)).take count =
      (bytes.drop first).take (taken + count) := by
  rw [List.take_add, List.drop_drop]

/-- The bytes from `totWritten` on are written in their order and once: all of them, or as
many as were taken before a call took nothing. -/
def Writes (buffer : List Byte) (n totWritten : Nat) (output : List Byte) (outcomes : Outcomes) :
    Prop :=
  ∃ sent : Sent, Yields (writenLoop buffer n totWritten output outcomes) sent ∧
    (sent.returned = n ∧ sent.output = output ++ (buffer.drop totWritten).take (n - totWritten) ∨
      sent.returned = -1 ∧ ∃ count, totWritten + count < n ∧
        sent.output = output ++ (buffer.drop totWritten).take count) ∧
    (outcomes.Taking → sent.returned = n ∧ sent.outcomes.Taking)

theorem writenLoop_writes {buffer : List Byte} {n totWritten : Nat} {output : List Byte}
    {outcomes : Outcomes} (inside : n ≤ buffer.length) (part : totWritten ≤ n) :
    Writes buffer n totWritten output outcomes := by
  induction left : n - totWritten + outcomes.length using Nat.strong_induction_on
    generalizing totWritten output outcomes with
  | _ left ih =>
    by_cases more : totWritten < n
    · have size : ((buffer.drop totWritten).take (n - totWritten)).length = n - totWritten := by
        rw [List.length_take, List.length_drop]
        omega
      have again : ∀ (taken : List Byte) {later : Outcomes} {count : Nat},
          0 < count → totWritten + count ≤ n → taken = (buffer.drop totWritten).take count →
          later.length ≤ outcomes.length →
          (∀ fuel, writenLoop buffer n totWritten output outcomes (fuel + 1) =
            writenLoop buffer n (totWritten + count) (output ++ taken) later fuel) →
          (outcomes.Taking → later.Taking) → Writes buffer n totWritten output outcomes := by
        rintro _ later count positive within rfl fewer unfolds kept
        obtain ⟨sent, yields, result, taking⟩ := ih (n - (totWritten + count) + later.length)
          (by omega) within rfl
        refine ⟨sent, yields.step unfolds, ?_, fun all => taking (kept all)⟩
        rcases result with ⟨returned, whole⟩ | ⟨returned, less, short, part⟩
        · refine .inl ⟨returned, ?_⟩
          rw [whole, List.append_assoc, take_drop_add]
          congr 2
          omega
        · refine .inr ⟨returned, count + less, by omega, ?_⟩
          rw [part, List.append_assoc, take_drop_add]
      cases outcomes with
      | nil =>
        refine again _ (Nat.sub_pos_of_lt more) (by omega) rfl (Nat.le_refl _) ?_ id
        intro fuel
        rw [writenLoop, if_pos more, write, size]
        simp only [if_neg (Nat.ne_of_gt (Nat.sub_pos_of_lt more))]
      | cons outcome later =>
        cases outcome with
        | interrupted =>
          obtain ⟨sent, yields, result, taking⟩ := ih (n - totWritten + later.length)
            (by rw [← left]; exact Nat.lt_succ_self _) part rfl
          refine ⟨sent, yields.step fun fuel => ?_, result, fun all => taking ?_⟩
          · rw [writenLoop, if_pos more, write]
          · exact fun outcome member => all outcome (List.mem_cons_of_mem _ member)
        | failed =>
          refine ⟨⟨-1, output, later⟩, (Yields.const _).step fun fuel => ?_,
            .inr ⟨rfl, 0, more, by simp⟩, fun all => ?_⟩
          · rw [writenLoop, if_pos more, write]
          · rcases all .failed List.mem_cons_self with same | ⟨_, same⟩ <;> cases same
        | partly asked =>
          by_cases nothing : asked = 0
          · subst nothing
            refine ⟨⟨-1, output, later⟩, (Yields.const _).step fun fuel => ?_,
              .inr ⟨rfl, 0, more, by simp⟩, fun all => ?_⟩
            · rw [writenLoop, if_pos more, write]
              simp
            · rcases all (.partly 0) List.mem_cons_self with same | ⟨_, same⟩ <;> cases same
          · have count_eq : (((buffer.drop totWritten).take (n - totWritten)).take asked).length =
                min asked (n - totWritten) := by
              rw [List.length_take, size]
            have positive : 0 < min asked (n - totWritten) := by omega
            refine again (((buffer.drop totWritten).take (n - totWritten)).take asked) positive
              (by omega) ?_ (Nat.le_succ _) ?_ ?_
            · rw [List.take_take]
            · intro fuel
              rw [writenLoop, if_pos more, write, count_eq]
              simp only [if_neg (Nat.ne_of_gt positive)]
            · exact fun all outcome member => all outcome (List.mem_cons_of_mem _ member)
    · have whole : totWritten = n := by omega
      refine ⟨⟨totWritten, output, outcomes⟩, ?_, .inl ⟨by rw [whole], ?_⟩,
        fun taking => ⟨by rw [whole], taking⟩⟩
      · refine (Yields.const _).step fun fuel => ?_
        rw [writenLoop, if_neg more]
      · rw [whole, Nat.sub_self, List.take_zero, List.append_nil]

/-! ### Records of known lengths -/

/-- Write records one after the other, until a call of `writen` fails. -/
def sendAll (output : List Byte) (outcomes : Outcomes) : List (List Byte) → Nat → Option Sent
  | [], _ => some ⟨0, output, outcomes⟩
  | record :: records, fuel =>
    (writen record record.length output outcomes fuel).bind fun sent =>
      if sent.returned = record.length then sendAll sent.output sent.outcomes records fuel
      else some sent

/-- Read records of the given lengths, until a call of `readn` returns less. -/
def receiveAll (arrivals : Arrivals Byte) : List Nat → Nat → Option (List (List Byte))
  | [], _ => some []
  | n :: lengths, fuel =>
    (readn n arrivals fuel).bind fun received =>
      if received.returned = n then
        (receiveAll received.arrivals lengths fuel).map (received.buffer :: ·)
      else some []

theorem sendAll_yields (output : List Byte) (outcomes : Outcomes) (records : List (List Byte)) :
    ∃ sent : Sent, Yields (sendAll output outcomes records) sent ∧
      sent.output <+: output ++ records.flatten ∧
      (outcomes.Taking → sent.output = output ++ records.flatten) := by
  induction records generalizing output outcomes with
  | nil => exact ⟨_, Yields.const _, by simp, fun _ => by simp⟩
  | cons record records ih =>
    obtain ⟨sent, yields, result, taking⟩ :
        Writes record record.length 0 output outcomes :=
      writenLoop_writes (Nat.le_refl _) (Nat.zero_le _)
    rw [List.drop_zero] at result
    rcases result with ⟨returned, whole⟩ | ⟨failed, count, _, part⟩
    · rw [Nat.sub_zero, List.take_length] at whole
      obtain ⟨final, later, prefix_final, all⟩ := ih sent.output sent.outcomes
      rw [whole, List.append_assoc] at prefix_final all
      refine ⟨final, yields.bind ?_, prefix_final, fun every => all (taking every).2⟩
      simp only [if_pos returned]
      exact later
    · have short : ¬sent.returned = record.length := by
        rw [failed]
        omega
      refine ⟨sent, yields.bind ?_, ?_, fun every => absurd (taking every).1 short⟩
      · simp only [if_neg short]
        exact Yields.const sent
      · rw [part, List.flatten_cons, ← List.append_assoc]
        exact ((List.prefix_append_right_inj output).mpr (List.take_prefix count record)).trans
          (List.prefix_append _ _)

theorem receiveAll_yields {arrivals : Arrivals Byte} (reliable : arrivals.Reliable)
    {records : List (List Byte)} (arrived : arrivals.content <+: records.flatten) :
    ∃ received, Yields (receiveAll arrivals (records.map List.length)) received ∧
      received <+: records ∧ (arrivals.content = records.flatten → received = records) := by
  induction records generalizing arrivals with
  | nil => exact ⟨[], Yields.const _, List.nil_prefix, fun _ => rfl⟩
  | cons record records ih =>
    obtain ⟨rest, reliable_rest, behind, yields⟩ :=
      readnLoop_yields reliable (show ([] : List Byte).length ≤ record.length from Nat.zero_le _)
    have read := yields _ rfl
    simp only [List.length_nil, Nat.sub_zero, List.nil_append] at behind read
    obtain ⟨more, parts⟩ := arrived
    rw [List.flatten_cons] at parts
    by_cases enough : record.length ≤ arrivals.content.length
    · have front : arrivals.content.take record.length = record := by
        have taken := congrArg (List.take record.length) parts
        rw [List.take_append_of_le_length enough, List.take_left] at taken
        exact taken
      rw [front] at read
      have tail : rest.content <+: records.flatten := by
        refine ⟨more, ?_⟩
        have dropped := congrArg (List.drop record.length) parts
        rw [List.drop_append_of_le_length enough, List.drop_left] at dropped
        rw [behind]
        exact dropped
      obtain ⟨received, later, prefix_received, all⟩ := ih reliable_rest tail
      refine ⟨record :: received, read.bind ?_, ?_, fun whole => ?_⟩
      · simp only [if_true]
        exact later.map _
      · exact (List.prefix_cons_inj record).mpr prefix_received
      · rw [all ?_]
        rw [behind, whole, List.flatten_cons, List.drop_left]
    · have short : ¬((arrivals.content.take record.length).length : Int) = record.length := by
        rw [List.length_take]
        omega
      refine ⟨[], read.bind ?_, List.nil_prefix, fun whole => ?_⟩
      · simp only [if_neg short]
        exact Yields.const []
      · rw [whole, List.flatten_cons, List.length_append] at enough
        omega

/-- However the bytes are split by the calls on both sides, the records are written in their
order as far as they are, and a record that is received is one that was sent, and in its
place; and all of them are, unless a `write` took nothing or the bytes stop before. -/
theorem records_arrive (records : List (List Byte)) (outcomes : Outcomes) :
    ∃ sent : Sent, Yields (sendAll [] outcomes records) sent ∧
      sent.output <+: records.flatten ∧
      (outcomes.Taking → sent.output = records.flatten) ∧
      ∀ arrivals : Arrivals Byte, arrivals.Reliable → arrivals.content <+: sent.output →
        ∃ received, Yields (receiveAll arrivals (records.map List.length)) received ∧
          received <+: records ∧
          (outcomes.Taking → arrivals.content = sent.output → received = records) := by
  obtain ⟨sent, yields, part, all⟩ := sendAll_yields [] outcomes records
  rw [List.nil_append] at part all
  refine ⟨sent, yields, part, all, fun arrivals reliable arrived => ?_⟩
  obtain ⟨received, reads, prefix_received, whole⟩ :=
    receiveAll_yields reliable (arrived.trans part)
  exact ⟨received, reads, prefix_received, fun taking same => whole (same.trans (all taking))⟩

end LinuxProgramming.Sockets
