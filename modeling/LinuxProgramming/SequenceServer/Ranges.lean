import LinuxProgramming.GetNum.GetInt
import LinuxProgramming.SequenceServer.Fifo

/-! The numbers that the server hands out.

A client gets the numbers from the one in its response on, as many as it has asked for.
The server counts on also when the response is lost with its client, so no number is
handed out twice; where no client is killed, none is left out either.
-/

set_option autoImplicit false

namespace LinuxProgramming.SequenceServer
open Foundation

section Ranges

variable {Client : Type} [DecidableEq Client]

/-- The client may use the number. -/
def Owns (seqLen : Client → Int) (state : State Client) (client : Client) (number : Int) : Prop :=
  ∃ seqNum, state.responses client = some seqNum ∧ seqNum ≤ number ∧ number < seqNum + seqLen client

/-- The responses are below the counter and apart from each other. -/
structure Allotted (seqLen : Client → Int) (state : State Client) : Prop where
  counted : 0 ≤ state.seqNum
  received : ∀ client seqNum, state.place client = .got seqNum →
    state.responses client = some seqNum
  below : ∀ client seqNum, state.responses client = some seqNum →
    0 ≤ seqNum ∧ seqNum + seqLen client ≤ state.seqNum
  apart : ∀ first second firstNum secondNum, first ≠ second →
    state.responses first = some firstNum → state.responses second = some secondNum →
    firstNum + seqLen first ≤ secondNum ∨ secondNum + seqLen second ≤ firstNum

/-- Every number below the counter has an owner. -/
def Covered (seqLen : Client → Int) (state : State Client) : Prop :=
  ∀ number, 0 ≤ number → number < state.seqNum → ∃ client, Owns seqLen state client number

/-- No client is killed. -/
def peaceful (_ : State Client) : Action Client → Bool
  | .kill _ => false
  | _ => true

variable {seqLen : Client → Int} {state next : State Client}

/-- A client that moves by itself receives only what is in its FIFO. -/
theorem Allotted.moves (allotted : Allotted seqLen state) {client : Client} {place : Place}
    (moves : Moves state client place) : Allotted seqLen (state.move client place) := by
  refine ⟨allotted.counted, fun other seqNum got => ?_, allotted.below, allotted.apart⟩
  by_cases same : other = client
  · subst same
    rw [move_place_self] at got
    subst got
    cases moves with
    | got reading answered => exact answered
  · rw [move_place_other same] at got
    exact allotted.received other seqNum got

theorem Allotted.place (allotted : Allotted seqLen state) {client : Client} {place : Place}
    (waiting : ∀ seqNum, place ≠ .got seqNum) (requests : List Client) (serving : Serving Client) :
    Allotted seqLen { state.move client place with requests := requests, serving := serving } := by
  refine ⟨allotted.counted, fun other seqNum got => ?_, allotted.below, allotted.apart⟩
  by_cases same : other = client
  · subst same
    exact absurd (by simpa using got) (waiting seqNum)
  · exact allotted.received other seqNum (by simpa [same] using got)

/-- The new range begins where all others end. -/
theorem Allotted.responds (positive : ∀ client, 0 < seqLen client) (allotted : Allotted seqLen state)
    {client : Client} (silent : state.responses client = none) :
    Allotted seqLen { state with
      serving := .reading
      seqNum := state.seqNum + seqLen client
      responses :=
        if state.place client = .reading then
          Function.update state.responses client (some state.seqNum)
        else state.responses } := by
  have more := positive client
  have counted := allotted.counted
  have answer : ∀ other seqNum, (if state.place client = .reading then
      Function.update state.responses client (some state.seqNum) else state.responses) other =
        some seqNum → other = client ∧ seqNum = state.seqNum ∨
          other ≠ client ∧ state.responses other = some seqNum := by
    intro other seqNum answered
    by_cases same : other = client
    · subst same
      split at answered
      · exact .inl ⟨rfl, by simpa using answered.symm⟩
      · rw [silent] at answered
        cases answered
    · split at answered
      · exact .inr ⟨same, by rwa [Function.update_of_ne same] at answered⟩
      · exact .inr ⟨same, answered⟩
  refine ⟨by simp only; omega, fun other seqNum got => ?_, fun other seqNum answered => ?_,
    fun first second firstNum secondNum different firstGot secondGot => ?_⟩
  · have before := allotted.received other seqNum got
    have different : other ≠ client := by
      rintro rfl
      rw [silent] at before
      cases before
    simp only
    split
    · rwa [Function.update_of_ne different]
    · exact before
  · simp only
    rcases answer other seqNum answered with ⟨rfl, rfl⟩ | ⟨_, before⟩
    · omega
    · have := allotted.below other seqNum before
      omega
  · rcases answer first firstNum firstGot with ⟨rfl, rfl⟩ | ⟨_, firstBefore⟩
    · rcases answer second secondNum secondGot with ⟨rfl, _⟩ | ⟨_, before⟩
      · exact absurd rfl different
      · exact .inr (allotted.below second secondNum before).2
    · rcases answer second secondNum secondGot with ⟨rfl, rfl⟩ | ⟨_, secondBefore⟩
      · exact .inl (allotted.below first firstNum firstBefore).2
      · exact allotted.apart first second firstNum secondNum different firstBefore secondBefore

theorem allotted_step (positive : ∀ client, 0 < seqLen client) {action : Action Client}
    (once : Once state) (allotted : Allotted seqLen state)
    (taken : step seqLen state action = some next) : Allotted seqLen next := by
  cases effect_of_step taken with
  | moved moves _ => exact allotted.moves moves
  | sent created => exact allotted.place (by simp) _ _
  | taken => exact ⟨allotted.counted, allotted.received, allotted.below, allotted.apart⟩
  | reached => exact allotted.place (by simp) _ _
  | missed => exact ⟨allotted.counted, allotted.received, allotted.below, allotted.apart⟩
  | responded opened =>
    exact allotted.responds positive (once.unanswered _ (.inr (.inr opened)))

theorem allotted_reachable (positive : ∀ client, 0 < seqLen client)
    (reached : (machine seqLen).Reachable state) : Allotted seqLen state := by
  induction reached with
  | start => exact ⟨Int.le_refl 0, by simp [machine], by simp [machine], by simp [machine]⟩
  | step before taken allotted =>
    exact allotted_step positive (once_reachable before) allotted taken

/-- Every number has an owner, and no client has ended without its response. -/
structure Answered (seqLen : Client → Int) (state : State Client) : Prop where
  ended : ∀ client, state.place client = .ended → state.responses client ≠ none
  covered : Covered seqLen state

theorem Answered.moves (answered : Answered seqLen state) {client : Client} {place : Place}
    {requests : List Client} {serving : Serving Client} (going : place ≠ .ended) :
    Answered seqLen { state.move client place with requests := requests, serving := serving } := by
  refine ⟨fun other ended => ?_, answered.covered⟩
  by_cases same : other = client
  · subst same
    exact absurd (by simpa using ended) going
  · exact answered.ended other (by simpa [same] using ended)

/-- The client that is answered is still there, and owns the numbers that are new. -/
theorem Answered.responds (once : Once state) (answered : Answered seqLen state) {client : Client}
    (opened : state.serving = .opened client) : Answered seqLen { state with
      serving := .reading
      seqNum := state.seqNum + seqLen client
      responses :=
        if state.place client = .reading then
          Function.update state.responses client (some state.seqNum)
        else state.responses } := by
  have silent := once.unanswered client (.inr (.inr opened))
  have reading : state.place client = .reading := by
    refine (once.opened client opened).resolve_right fun ended => ?_
    exact answered.ended client ended silent
  rw [if_pos reading]
  refine ⟨fun other ended => ?_, fun number least below => ?_⟩
  · have different : other ≠ client := by
      rintro rfl
      cases reading.symm.trans ended
    simp only
    rw [Function.update_of_ne different]
    exact answered.ended other ended
  · by_cases fresh : number < state.seqNum
    · obtain ⟨owner, seqNum, given, from_there, upto⟩ := answered.covered number least fresh
      have different : owner ≠ client := by
        rintro rfl
        cases silent.symm.trans given
      refine ⟨owner, seqNum, ?_, from_there, upto⟩
      simp only
      rwa [Function.update_of_ne different]
    · exact ⟨client, state.seqNum, by simp, by omega, below⟩

theorem answered_step {action : Action Client} (once : Once state)
    (allotted : Allotted seqLen state) (answered : Answered seqLen state)
    (admitted : peaceful state action = true) (taken : step seqLen state action = some next) :
    Answered seqLen next := by
  cases action with
  | kill client => cases admitted
  | exit client =>
    simp only [step] at taken
    split at taken
    next seqNum got =>
      obtain rfl := Option.some.inj taken
      have given := allotted.received client seqNum got
      refine ⟨fun other ended => ?_, answered.covered⟩
      by_cases same : other = client
      · subst same
        exact Option.ne_none_iff_exists'.mpr ⟨seqNum, given⟩
      · exact answered.ended other (by simpa [same] using ended)
    next => cases taken
  | mkfifo client | openOwn client =>
    obtain ⟨_, same⟩ := Option.ite_none_right_eq_some.mp taken
    obtain rfl := Option.some.inj same
    exact answered.moves Place.noConfusion
  | receive client =>
    simp only [step] at taken
    split at taken
    next =>
      obtain rfl := Option.some.inj taken
      exact answered.moves Place.noConfusion
    next => cases taken
  | send client =>
    obtain ⟨_, same⟩ := Option.ite_none_right_eq_some.mp taken
    obtain rfl := Option.some.inj same
    exact answered.moves Place.noConfusion
  | read =>
    cases effect_of_step taken with
    | @moved _ client _ _ client_step => exact absurd rfl (client_step client).2.1
    | taken => exact ⟨answered.ended, answered.covered⟩
  | openClient =>
    cases effect_of_step taken with
    | @moved _ client _ _ client_step => exact absurd rfl (client_step client).2.2.1
    | reached => exact answered.moves Place.noConfusion
    | missed => exact ⟨answered.ended, answered.covered⟩
  | respond =>
    cases effect_of_step taken with
    | @moved _ client _ _ client_step => exact absurd rfl (client_step client).2.2.2
    | responded opened => exact answered.responds once opened

theorem answered_reachable (positive : ∀ client, 0 < seqLen client)
    (reached : ((machine seqLen).guarded peaceful).Reachable state) : Answered seqLen state := by
  induction reached with
  | start =>
    refine ⟨fun client ended => (by cases ended), fun number least below => ?_⟩
    exact absurd below (by simp [Machine.guarded, machine]; omega)
  | step before taken answered =>
    obtain ⟨admitted, stepped⟩ := Machine.guarded_step.mp taken
    have earlier := before.of_guarded
    exact answered_step (once_reachable earlier) (allotted_reachable positive earlier) answered
      admitted stepped

/-- The length that a client asks for: its argument, or 1 without one. -/
def requestLen (argument : Option (List Byte)) : Except GetNum.Failure Int :=
  match argument with
  | some text => GetNum.getInt (some text) GetNum.GN_GT_0 (some "seq-len")
  | none => .ok 1

/-- A client with a length that is not positive does not come to its request. -/
theorem requestLen_pos {argument : Option (List Byte)} {length : Int}
    (accepted : requestLen argument = .ok length) : 0 < length := by
  cases argument with
  | none =>
    obtain rfl := Except.ok.inj accepted
    decide
  | some text =>
    obtain ⟨_, _, _, _, sign⟩ := GetNum.getInt_ok_iff.mp accepted
    exact sign.2 (by decide)

/-- A response is there for good. -/
theorem responses_step {action : Action Client} {client : Client} {seqNum : Int} (once : Once state)
    (served : state.responses client = some seqNum)
    (taken : step seqLen state action = some next) : next.responses client = some seqNum := by
  cases effect_of_step taken with
  | moved | sent | taken | reached | missed => exact served
  | @responded other opened =>
    have different : client ≠ other := by
      rintro rfl
      cases served.symm.trans (once.unanswered client (.inr (.inr opened)))
    simp only
    split
    · rwa [Function.update_of_ne different]
    · exact served

theorem responses_run {schedule : List (Action Client)} {client : Client} {seqNum : Int}
    (reached : (machine seqLen).Reachable state) (served : state.responses client = some seqNum)
    (run : (machine seqLen).exec state schedule = some next) :
    next.responses client = some seqNum := by
  induction schedule generalizing state with
  | nil =>
    cases run
    exact served
  | cons action rest ih =>
    obtain ⟨middle, taken, later⟩ := Machine.exec_cons.mp run
    exact ih (reached.step taken) (responses_step (once_reachable reached) served taken) later

/-- The server is through with the client: it has no other request of it, and the response
is never replaced. -/
def ServedOnce (seqLen : Client → Int) (state : State Client) (client : Client) (seqNum : Int) :
    Prop :=
  ¬Pending state client ∧ ∀ schedule next,
    (machine seqLen).exec state schedule = some next → next.responses client = some seqNum

/-- No number is handed out twice, what a client receives is a range of its own, and it is
served once; if no client is killed, every number below the counter has exactly one owner.
All of this is as long as the counter is an `int`. -/
theorem numbers_owned (arguments : Client → Option (List Byte))
    (accepted : ∀ client, requestLen (arguments client) = .ok (seqLen client))
    (reached : (machine seqLen).Reachable state) (fits : state.seqNum ≤ GetNum.INT_MAX) :
    (∀ client seqNum, state.place client = .got seqNum →
      0 ≤ seqNum ∧ seqNum + seqLen client ≤ GetNum.INT_MAX ∧
        ∀ number, seqNum ≤ number → number < seqNum + seqLen client →
          Owns seqLen state client number) ∧
    (∀ client seqNum, state.responses client = some seqNum →
      ServedOnce seqLen state client seqNum) ∧
    (∀ first second number, Owns seqLen state first number → Owns seqLen state second number →
      first = second) ∧
    (((machine seqLen).guarded peaceful).Reachable state → ∀ number, 0 ≤ number →
      (number < state.seqNum ↔ ∃ client, Owns seqLen state client number)) := by
  have positive := fun client => requestLen_pos (accepted client)
  have allotted := allotted_reachable positive reached
  refine ⟨?_, ?_, ?_, ?_⟩
  · intro client seqNum got
    have given := allotted.received client seqNum got
    obtain ⟨least, below⟩ := allotted.below client seqNum given
    exact ⟨least, Int.le_trans below fits, fun number low high => ⟨seqNum, given, low, high⟩⟩
  · intro client seqNum served
    refine ⟨fun pending => ?_, fun schedule next run => responses_run reached served run⟩
    cases served.symm.trans ((once_reachable reached).unanswered client pending)
  · rintro first second number ⟨firstNum, firstGot, low, high⟩ ⟨secondNum, secondGot, least, most⟩
    by_contra different
    rcases allotted.apart first second firstNum secondNum different firstGot secondGot with
      before | behind
    · omega
    · omega
  · intro peaceful number least
    refine ⟨(answered_reachable positive peaceful).covered number least, ?_⟩
    rintro ⟨client, seqNum, given, low, high⟩
    exact Int.lt_of_lt_of_le high (allotted.below client seqNum given).2

end Ranges

/-- One client asks for three numbers, and one for a single number. -/
def argumentOf : Bool → Option (List Byte)
  | true => some ['3'.toUInt8]
  | false => none

def askedFor : Bool → Int
  | true => 3
  | false => 1

def bothServed : List (Action Bool) :=
  [.mkfifo true, .mkfifo false, .send false, .send true, .openOwn false, .openOwn true, .read,
    .openClient, .respond, .read, .openClient, .respond, .receive true]

theorem bothServed_runs :
    ((machine askedFor).exec (machine askedFor).start bothServed).map (fun state =>
      (state.place true, state.seqNum)) = some (.got 1, 4) := by decide

/-- The client that was answered second owns the numbers from 1 to 3. -/
theorem numbers_owned_bothServed : ∃ state, (machine askedFor).Reachable state ∧
    Owns askedFor state true 3 ∧ ¬Owns askedFor state false 3 := by
  obtain ⟨state, reached, facts⟩ := Machine.exists_reachable bothServed_runs
  obtain ⟨got, seqNum⟩ := Prod.mk.inj facts
  have accepted : ∀ client, requestLen (argumentOf client) = .ok (askedFor client) := by decide
  have fits : state.seqNum ≤ GetNum.INT_MAX := by
    rw [seqNum]
    decide
  obtain ⟨ranges, -, owners, -⟩ := numbers_owned argumentOf accepted reached fits
  have owns : Owns askedFor state true 3 := (ranges true 1 got).2.2 3 (by decide) (by decide)
  exact ⟨state, reached, owns, fun other => by cases owners true false 3 owns other⟩

end LinuxProgramming.SequenceServer
