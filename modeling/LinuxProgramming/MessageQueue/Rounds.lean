import LinuxProgramming.MessageQueue.Servers

/-! Rounds of a server that all went on, and what it answers in them. -/

set_option autoImplicit false

namespace LinuxProgramming.MessageQueue
open Foundation

variable {turn : Buffer BUFSIZ → Int → Option Message → Turn} {Quiet : Buffer BUFSIZ → Prop}
  {data memory next : Buffer BUFSIZ} {count more : Int} {receipts : List (Option Message)}

/-- The array and the count behind rounds after each of which the loop went on. -/
def after (turn : Buffer BUFSIZ → Int → Option Message → Turn) (data : Buffer BUFSIZ)
    (count : Int) : List (Option Message) → Option (Buffer BUFSIZ × Int)
  | [] => some (data, count)
  | received :: later =>
    match (turn data count received).next with
    | .counts more => after turn (receive data received) more later
    | _ => none

theorem after_concat (received : Option Message)
    (goes_on : after turn data count receipts = some (next, more)) :
    after turn data count (receipts ++ [received]) =
      match (turn next more received).next with
      | .counts last => some (receive next received, last)
      | _ => none := by
  induction receipts generalizing data count with
  | nil =>
    cases goes_on
    rfl
  | cons first receipts ih =>
    rw [List.cons_append, after]
    rw [after] at goes_on
    cases here : (turn data count first).next with
    | counts last =>
      simp only [here] at goes_on ⊢
      exact ih goes_on
    | stops | undefined => simp [here] at goes_on

theorem serve_concat (received : Option Message)
    (goes_on : after turn data count receipts = some (next, more)) :
    serve turn data count (receipts ++ [received]) =
      serve turn data count receipts ++ [turn next more received] := by
  induction receipts generalizing data count with
  | nil =>
    cases goes_on
    cases here : (turn next more received).next with
    | counts last => exact serve_counts here []
    | stops | undefined =>
      apply serve_ends
      intro last same
      rw [here] at same
      cases same
  | cons first receipts ih =>
    rw [after] at goes_on
    cases here : (turn data count first).next with
    | counts last =>
      simp only [here] at goes_on
      rw [List.cons_append, serve_counts here, serve_counts here, ih goes_on, List.cons_append]
    | stops | undefined => simp [here] at goes_on

/-- The loop does not go on behind a message that stops it. -/
theorem Treats.open_of_goes_on (treats : Treats turn Quiet)
    (goes_on : after turn data count receipts = some (next, more)) : Open receipts := by
  induction receipts generalizing data count with
  | nil =>
    intro message member
    cases member
  | cons received receipts ih =>
    rw [after] at goes_on
    cases received with
    | none =>
      rw [open_cons_none]
      split at goes_on
      next => exact ih goes_on
      next => cases goes_on
    | some message =>
      rw [treats.message, respond_message] at goes_on
      rw [open_cons_some]
      cases stops : ends message.text with
      | true => simp [stops] at goes_on
      | false =>
        refine ⟨rfl, ?_⟩
        by_cases room : InInt (count + atoi message.text)
        · simp only [stops, room, if_true, Bool.false_eq_true, if_false] at goes_on
          exact ih goes_on
        · simp [stops, room] at goes_on

/-- Where a receive that fails changes nothing, the array holds the last message, and the
count is the sum. -/
theorem Treats.held_total (treats : Treats turn Quiet) {earlier : List Message}
    (inside : InInt (total earlier)) (steady : none ∈ receipts → ∀ data, Quiet data)
    (goes_on : after turn (held memory earlier) (total earlier) receipts = some (next, more)) :
    next = held memory (earlier ++ receipts.filterMap id) ∧
      more = total (earlier ++ receipts.filterMap id) ∧ InInt more := by
  induction receipts generalizing earlier with
  | nil =>
    cases goes_on
    simp [inside]
  | cons received receipts ih =>
    have later : none ∈ receipts → ∀ data, Quiet data :=
      fun member => steady (List.mem_cons_of_mem received member)
    rw [after] at goes_on
    cases received with
    | none =>
      have next := (treats.failed (held memory earlier) (total earlier) inside).mpr
        (steady (List.mem_cons_self ..) _)
      simp only [next] at goes_on
      exact ih inside later goes_on
    | some message =>
      rw [treats.message, respond_message] at goes_on
      cases stops : ends message.text with
      | true => simp [stops] at goes_on
      | false =>
        by_cases room : InInt (total earlier + atoi message.text)
        · simp only [stops, room, if_true, Bool.false_eq_true, if_false] at goes_on
          rw [← total_concat] at goes_on room
          have stored : receive (held memory earlier) (some message) =
              held memory (earlier ++ [message]) := (held_concat memory earlier message).symm
          rw [stored] at goes_on
          have rest := ih room later goes_on
          rwa [List.append_assoc] at rest
        · simp [stops, room] at goes_on

/-- Every message is answered with the sum of those before it. -/
def Answered (earlier : List Message) (turns : List Turn) : Prop :=
  ∀ before turn after, turns = before ++ turn :: after → ∀ message,
    turn.received = some message →
      turn.response = some (total (earlier ++ before.filterMap Turn.received))

theorem answered_cons {earlier : List Message} {turn : Turn} {turns : List Turn}
    (here : ∀ message, turn.received = some message → turn.response = some (total earlier))
    (later : Answered (earlier ++ turn.received.toList) turns) :
    Answered earlier (turn :: turns) := by
  rw [Answered, splits_cons_iff]
  refine ⟨by simpa using here, ?_⟩
  intro before round after split message received
  rw [later before round after split message received]
  cases first : turn.received with
  | none => simp [first]
  | some message => simp [first]

theorem Treats.answered (treats : Treats turn Quiet) (memory : Buffer BUFSIZ)
    {earlier : List Message} (inside : InInt (total earlier))
    (steady : none ∈ receipts → ∀ data, Quiet data) :
    Answered earlier (serve turn (held memory earlier) (total earlier) receipts) := by
  induction receipts generalizing earlier with
  | nil => exact splits_nil
  | cons received receipts ih =>
    have later : none ∈ receipts → ∀ data, Quiet data :=
      fun member => steady (List.mem_cons_of_mem received member)
    cases received with
    | none =>
      have next := (treats.failed (held memory earlier) (total earlier) inside).mpr
        (steady (List.mem_cons_self ..) _)
      rw [serve_counts next]
      apply answered_cons
      · intro message received
        rw [treats.received] at received
        cases received
      · rw [treats.received, Option.toList_none, List.append_nil]
        exact ih inside later
    | some message =>
      have here : turn (held memory earlier) (total earlier) (some message) = _ :=
        (treats.message _ _ _).trans (respond_message _ _ _)
      have response : ∀ also,
          (turn (held memory earlier) (total earlier) (some message)).received = some also →
          (turn (held memory earlier) (total earlier) (some message)).response =
            some (total earlier) := by
        intro _ _
        rw [here]
      cases next : (turn (held memory earlier) (total earlier) (some message)).next with
      | counts last =>
        rw [serve_counts next]
        apply answered_cons response
        rw [here] at next ⊢
        cases stops : ends message.text with
        | true => simp [stops] at next
        | false =>
          by_cases room : InInt (total earlier + atoi message.text)
          · simp only [stops, room, if_true, Bool.false_eq_true, if_false] at next
            cases next
            rw [← total_concat] at room ⊢
            have stored : receive (held memory earlier) (some message) =
                held memory (earlier ++ [message]) := (held_concat memory earlier message).symm
            rw [stored]
            exact ih room later
          · simp [stops, room] at next
      | stops | undefined =>
        rw [serve_ends (by simp [next])]
        exact answered_cons response splits_nil

end LinuxProgramming.MessageQueue
