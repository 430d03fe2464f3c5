import LinuxProgramming.Foundation.Machine

/-! The server of sequence numbers, with its clients.

Every client makes a FIFO of its own before it sends its request, and opens it
only afterwards. The server does not wait when it opens that FIFO, so it gives
up a client that has not come to its own open by then.
-/

set_option autoImplicit false

namespace LinuxProgramming.SequenceServer
open Foundation

/-- How far a client has come; `opening` is inside the open of its own FIFO,
which blocks until there is a writer. -/
inductive Place where
  | start
  | created
  | sent
  | opening
  | reading
  | got (seqNum : Int)
  | ended
  deriving DecidableEq, Repr

/-- The loop of the server: in `read`, with a request, or with the FIFO of a client open. -/
inductive Serving (Client : Type) where
  | reading
  | holding (client : Client)
  | opened (client : Client)
  deriving DecidableEq

/-- `requests` is what the well-known FIFO holds, and a response is what the FIFO
of its client holds. A request is smaller than PIPE_BUF, so it is never split. The counter
is the `int` of the server as long as that has room for it. -/
structure State (Client : Type) where
  place : Client → Place
  requests : List Client
  serving : Serving Client
  seqNum : Int
  responses : Client → Option Int

inductive Action (Client : Type) where
  | mkfifo (client : Client)
  | send (client : Client)
  | openOwn (client : Client)
  | receive (client : Client)
  | exit (client : Client)
  | kill (client : Client)
  | read
  | openClient
  | respond
  deriving DecidableEq

section Server

variable {Client : Type}

/-- The client has sent its request, and goes on to wait for the response. -/
def Waits (state : State Client) (client : Client) : Prop :=
  state.place client = .sent ∨ state.place client = .opening ∨ state.place client = .reading

/-- The server has yet to deal with the request. -/
def Pending (state : State Client) (client : Client) : Prop :=
  client ∈ state.requests ∨ state.serving = .holding client ∨ state.serving = .opened client

/-- The server is past the request of a client that waits for a response. -/
def Abandoned (state : State Client) (client : Client) : Prop :=
  Waits state client ∧ ¬Pending state client ∧ state.responses client = none

/-- No server opens the FIFO of a client that is between its write and its own open. -/
def inTime (state : State Client) : Action Client → Bool
  | .openClient =>
    match state.serving with
    | .holding client => state.place client ≠ .sent
    | _ => true
  | _ => true

/-- What holds of every client: a request is sent once, and answered once. -/
structure Once (state : State Client) : Prop where
  unsent : ∀ client, state.place client = .start ∨ state.place client = .created →
    ¬Pending state client ∧ state.responses client = none
  distinct : state.requests.Nodup
  taken : ∀ client, state.serving = .holding client ∨ state.serving = .opened client →
    client ∉ state.requests
  unanswered : ∀ client, Pending state client → state.responses client = none
  opened : ∀ client, state.serving = .opened client →
    state.place client = .reading ∨ state.place client = .ended
  reading : ∀ client, state.place client = .reading →
    state.serving = .opened client ∨ state.responses client ≠ none

section Pending

variable {state : State Client}

theorem pending_of_reading (idle : state.serving = .reading) (client : Client) :
    Pending state client ↔ client ∈ state.requests := by
  simp [Pending, idle]

theorem pending_of_holding {holder : Client} (holding : state.serving = .holding holder)
    (client : Client) : Pending state client ↔ client ∈ state.requests ∨ client = holder := by
  simp [Pending, holding, eq_comm]

theorem pending_of_opened {holder : Client} (opened : state.serving = .opened holder)
    (client : Client) : Pending state client ↔ client ∈ state.requests ∨ client = holder := by
  simp [Pending, opened, eq_comm]

theorem late_open {action : Action Client} (late : inTime state action = false) :
    action = .openClient ∧ ∃ client, state.serving = .holding client ∧
      state.place client = .sent := by
  unfold inTime at late
  split at late
  next =>
    split at late
    next client holding => exact ⟨rfl, client, holding, by simpa using late⟩
    next => cases late
  next => cases late

/-- An abandoned client is not at its `read`, as nobody has opened its FIFO. -/
theorem Once.abandoned_place {client : Client} (once : Once state)
    (abandoned : Abandoned state client) :
    state.place client = .sent ∨ state.place client = .opening := by
  obtain ⟨sent | opening | reading, gone, silent⟩ := abandoned
  · exact .inl sent
  · exact .inr opening
  · exact (once.reading client reading).elim (fun opened => absurd (.inr (.inr opened)) gone)
      (absurd silent)

theorem Once.takes (once : Once state) {client : Client} {rest : List Client}
    (idle : state.serving = .reading) (first : state.requests = client :: rest) :
    Once { state with requests := rest, serving := .holding client } := by
  have same : ∀ other, Pending { state with requests := rest, serving := .holding client } other ↔
      Pending state other := by
    intro other
    rw [pending_of_holding rfl, pending_of_reading idle, first, List.mem_cons, or_comm]
  obtain ⟨outside, distinct⟩ := List.nodup_cons.mp (first ▸ once.distinct)
  refine ⟨fun other fresh => ?_, distinct, fun other serving => ?_, fun other pending => ?_,
    fun other opened => (by cases opened), fun other reading => ?_⟩
  · rw [same]
    exact once.unsent other fresh
  · have holder : client = other := by simpa using serving
    exact holder ▸ outside
  · exact once.unanswered other ((same other).mp pending)
  · exact .inr ((once.reading other reading).resolve_left (by simp [idle]))

theorem Once.misses (once : Once state) {client : Client}
    (holding : state.serving = .holding client) :
    Once { state with serving := .reading } := by
  refine ⟨fun other fresh => ?_, once.distinct, fun other serving => by simp at serving,
    fun other pending => ?_, fun other opened => (by cases opened), fun other reading => ?_⟩
  · obtain ⟨not_pending, kept⟩ := once.unsent other fresh
    rw [pending_of_reading rfl]
    exact ⟨fun member => not_pending (.inl member), kept⟩
  · have member := (pending_of_reading rfl other).mp pending
    exact once.unanswered other (.inl member)
  · exact .inr ((once.reading other reading).resolve_left (by simp [holding]))

end Pending

variable [DecidableEq Client]

/-- A client goes on to its next place. -/
def State.move (state : State Client) (client : Client) (place : Place) : State Client :=
  { state with place := Function.update state.place client place }

def step (seqLen : Client → Int) (state : State Client) : Action Client → Option (State Client)
  | .mkfifo client => if state.place client = .start then some (state.move client .created) else none
  | .send client =>
    if state.place client = .created then
      some { state.move client .sent with requests := state.requests ++ [client] }
    else none
  | .openOwn client => if state.place client = .sent then some (state.move client .opening) else none
  | .receive client =>
    match state.place client, state.responses client with
    | .reading, some seqNum => some (state.move client (.got seqNum))
    | _, _ => none
  | .exit client =>
    match state.place client with
    | .got _ => some (state.move client .ended)
    | _ => none
  | .kill client => some (state.move client .ended)
  | .read =>
    match state.serving, state.requests with
    | .reading, client :: rest => some { state with requests := rest, serving := .holding client }
    | _, _ => none
  | .openClient =>
    match state.serving with
    | .holding client =>
      -- ENXIO unless a process has the FIFO open for reading, or is inside that open.
      if state.place client = .opening then
        some { state.move client .reading with serving := .opened client }
      else some { state with serving := .reading }
    | _ => none
  | .respond =>
    match state.serving with
    | .opened client => some { state with
        serving := .reading
        seqNum := state.seqNum + seqLen client
        -- Without a reader the write fails, and the server goes on.
        responses :=
          if state.place client = .reading then
            Function.update state.responses client (some state.seqNum)
          else state.responses }
    | _ => none

def machine (seqLen : Client → Int) : Machine (State Client) (Action Client) where
  start := ⟨fun _ => .start, [], .reading, 0, fun _ => none⟩
  step := step seqLen

variable {seqLen : Client → Int} {state next : State Client}

@[simp] theorem move_serving (client : Client) (place : Place) :
    (state.move client place).serving = state.serving := rfl
@[simp] theorem move_place_self (client : Client) (place : Place) :
    (state.move client place).place client = place := Function.update_self ..
@[simp] theorem move_place_other {client other : Client} (different : other ≠ client)
    (place : Place) : (state.move client place).place other = state.place other :=
  Function.update_of_ne different ..

/-- Where a client can go on its own, without sending anything. -/
inductive Moves (state : State Client) (client : Client) : Place → Prop where
  | created (start : state.place client = .start) : Moves state client .created
  | opening (sent : state.place client = .sent) : Moves state client .opening
  | got {seqNum : Int} (reading : state.place client = .reading)
      (answered : state.responses client = some seqNum) : Moves state client (.got seqNum)
  | ended : Moves state client .ended

/-- What a step can do; those of the clients but for `send` only move the client. -/
inductive Effect (seqLen : Client → Int) (state : State Client) : Action Client → State Client → Prop where
  | moved {action : Action Client} {client : Client} {place : Place}
      (moves : Moves state client place)
      (client_step : ∀ other, action ≠ .send other ∧ action ≠ .read ∧ action ≠ .openClient ∧
        action ≠ .respond) :
      Effect seqLen state action (state.move client place)
  | sent {client : Client} (created : state.place client = .created) :
      Effect seqLen state (.send client)
        { state.move client .sent with requests := state.requests ++ [client] }
  | taken {client : Client} {rest : List Client} (idle : state.serving = .reading)
      (first : state.requests = client :: rest) :
      Effect seqLen state .read { state with requests := rest, serving := .holding client }
  | reached {client : Client} (holding : state.serving = .holding client)
      (opening : state.place client = .opening) :
      Effect seqLen state .openClient { state.move client .reading with serving := .opened client }
  | missed {client : Client} (holding : state.serving = .holding client)
      (closed : state.place client ≠ .opening) :
      Effect seqLen state .openClient { state with serving := .reading }
  | responded {client : Client} (opened : state.serving = .opened client) :
      Effect seqLen state .respond { state with
        serving := .reading
        seqNum := state.seqNum + seqLen client
        responses :=
          if state.place client = .reading then
            Function.update state.responses client (some state.seqNum)
          else state.responses }

theorem effect_of_step {action : Action Client} (taken : step seqLen state action = some next) :
    Effect seqLen state action next := by
  cases action with
  | mkfifo client =>
    simp only [step] at taken
    split at taken
    next start =>
      cases taken
      exact .moved (.created start) (by simp)
    next => cases taken
  | send client =>
    simp only [step] at taken
    split at taken
    next created =>
      cases taken
      exact .sent created
    next => cases taken
  | openOwn client =>
    simp only [step] at taken
    split at taken
    next sent =>
      cases taken
      exact .moved (.opening sent) (by simp)
    next => cases taken
  | receive client =>
    simp only [step] at taken
    split at taken
    next seqNum reading answered =>
      cases taken
      exact .moved (.got reading answered) (by simp)
    next => cases taken
  | exit client =>
    simp only [step] at taken
    split at taken
    next =>
      cases taken
      exact .moved .ended (by simp)
    next => cases taken
  | kill client =>
    cases taken
    exact .moved .ended (by simp)
  | read =>
    simp only [step] at taken
    split at taken
    next client rest idle first =>
      cases taken
      exact .taken idle first
    next => cases taken
  | openClient =>
    simp only [step] at taken
    split at taken
    next client holding =>
      split at taken
      next opening =>
        cases taken
        exact .reached holding opening
      next closed =>
        cases taken
        exact .missed holding closed
    next => cases taken
  | respond =>
    simp only [step] at taken
    split at taken
    next client opened =>
      cases taken
      exact .responded opened
    next => cases taken

/-- A client that goes on without a message changes what is known of it alone. -/
theorem Once.moves (once : Once state) {client : Client} {place : Place}
    (moves : Moves state client place) : Once (state.move client place) := by
  refine ⟨fun other fresh => ?_, once.distinct, once.taken, once.unanswered, fun other opened => ?_,
    fun other reading => ?_⟩
  · by_cases same : other = client
    · subst same
      rw [move_place_self] at fresh
      cases moves with
      | created start => exact once.unsent other (.inl start)
      | opening | got | ended => simp at fresh
    · rw [move_place_other same] at fresh
      exact once.unsent other fresh
  · by_cases same : other = client
    · subst same
      rw [move_place_self]
      have before := once.opened other opened
      cases moves with
      | created start => simp [start] at before
      | opening sent => simp [sent] at before
      | got _ answered => simp [once.unanswered other (.inr (.inr opened))] at answered
      | ended => exact .inr rfl
    · rw [move_place_other same]
      exact once.opened other opened
  · by_cases same : other = client
    · subst same
      rw [move_place_self] at reading
      cases moves <;> cases reading
    · rw [move_place_other same] at reading
      exact once.reading other reading

/-- A client that sends is in the queue for the first time. -/
theorem Once.sends (once : Once state) {client : Client} (created : state.place client = .created) :
    Once { state.move client .sent with requests := state.requests ++ [client] } := by
  obtain ⟨absent, silent⟩ := once.unsent client (.inr created)
  have outside : client ∉ state.requests := fun member => absent (.inl member)
  have elsewhere : ∀ other, state.serving = .holding other ∨ state.serving = .opened other →
      other ≠ client := by
    rintro other serving rfl
    exact absent (.inr serving)
  refine ⟨fun other fresh => ?_, ?_, fun other serving => ?_, fun other pending => ?_,
    fun other opened => ?_, fun other reading => ?_⟩
  · by_cases same : other = client
    · simp [same] at fresh
    · obtain ⟨not_pending, kept⟩ := once.unsent other (by simpa [same] using fresh)
      refine ⟨fun pending => not_pending ?_, kept⟩
      simpa [Pending, same] using pending
  · exact List.nodup_append.mpr ⟨once.distinct, by simp, fun a member b single => by
      rw [List.mem_singleton.mp single]
      exact fun equal => outside (equal ▸ member)⟩
  · simpa [elsewhere other serving] using once.taken other serving
  · by_cases same : other = client
    · exact same ▸ silent
    · exact once.unanswered other (by simpa [Pending, same] using pending)
  · have different := elsewhere other (.inr opened)
    simpa [different] using once.opened other opened
  · have different : other ≠ client := by
      rintro rfl
      simp at reading
    exact once.reading other (by simpa [different] using reading)

theorem Once.reaches (once : Once state) {client : Client} (holding : state.serving = .holding client)
    (opening : state.place client = .opening) :
    Once { state.move client .reading with serving := .opened client } := by
  have same : ∀ other, Pending { state.move client .reading with serving := .opened client } other ↔
      Pending state other := by
    intro other
    rw [pending_of_opened rfl, pending_of_holding holding]
    rfl
  refine ⟨fun other fresh => ?_, once.distinct, fun other serving => ?_, fun other pending => ?_,
    fun other opened => ?_, fun other reading => ?_⟩
  · have different : other ≠ client := by
      rintro rfl
      simp at fresh
    rw [same]
    exact once.unsent other (by simpa [different] using fresh)
  · have holder : client = other := by simpa using serving
    exact holder ▸ once.taken client (.inl holding)
  · exact once.unanswered other ((same other).mp pending)
  · have holder : client = other := by simpa using opened
    exact .inl (by simp [← holder])
  · by_cases holder : other = client
    · exact .inl (by rw [holder])
    · have before := once.reading other (by simpa [holder] using reading)
      exact .inr (before.resolve_left (by simp [holding]))

/-- The client that is answered is in the queue no more. -/
theorem Once.responds (once : Once state) {client : Client} {seqNum : Int}
    (opened : state.serving = .opened client) :
    Once { state with
      serving := .reading
      seqNum := seqNum
      responses :=
        if state.place client = .reading then
          Function.update state.responses client (some state.seqNum)
        else state.responses } := by
  have outside := once.taken client (.inr opened)
  have kept : ∀ other, other ≠ client → (if state.place client = .reading then
      Function.update state.responses client (some state.seqNum) else state.responses) other =
        state.responses other := by
    intro other different
    split
    · exact Function.update_of_ne different ..
    · rfl
  have apart : ∀ other, other ∈ state.requests → other ≠ client := by
    rintro other member rfl
    exact outside member
  refine ⟨fun other fresh => ?_, once.distinct, fun other serving => by simp at serving,
    fun other pending => ?_, fun other again => (by cases again), fun other reading => ?_⟩
  · obtain ⟨not_pending, silent⟩ := once.unsent other fresh
    have different : other ≠ client := by
      rintro rfl
      exact not_pending (.inr (.inr opened))
    rw [pending_of_reading rfl]
    exact ⟨fun member => not_pending (.inl member), (kept other different).trans silent⟩
  · have member := (pending_of_reading rfl other).mp pending
    exact (kept other (apart other member)).trans (once.unanswered other (.inl member))
  · by_cases same : other = client
    · subst same
      right
      have here : state.place other = .reading := reading
      simp [here]
    · have before := (once.reading other reading).resolve_left (by
        simpa [opened] using Ne.symm same)
      exact .inr fun silent => before ((kept other same).symm.trans silent)

theorem Once.step {action : Action Client} (once : Once state)
    (taken : step seqLen state action = some next) : Once next := by
  cases effect_of_step taken with
  | moved moves _ => exact once.moves moves
  | sent created => exact once.sends created
  | taken idle first => exact once.takes idle first
  | reached holding opening => exact once.reaches holding opening
  | missed holding _ => exact once.misses holding
  | responded opened => exact once.responds opened

theorem once_reachable (reached : (machine seqLen).Reachable state) : Once state := by
  refine Machine.invariant ⟨fun client _ => ?_, List.nodup_nil, ?_, ?_, ?_, ?_⟩
    (fun once taken => once.step taken) reached
  · exact ⟨by simp [Pending, machine], rfl⟩
  all_goals simp [machine, Pending]

theorem waits_of_move {client other : Client} {place : Place} (moves : Moves state client place)
    (waits : Waits (state.move client place) other) : Waits state other := by
  by_cases same : other = client
  · subst same
    rw [Waits, move_place_self] at waits
    cases moves with
    | opening sent => exact .inl sent
    | created | got | ended => simp at waits
  · rwa [Waits, move_place_other same] at waits

/-- As long as every open is in time, nobody is abandoned. -/
theorem kept_step {action : Action Client} (once : Once state)
    (kept : ∀ client, ¬Abandoned state client) (admitted : inTime state action = true)
    (taken : step seqLen state action = some next) (other : Client) : ¬Abandoned next other := by
  rintro ⟨waits, gone, silent⟩
  cases effect_of_step taken with
  | moved moves _ => exact kept other ⟨waits_of_move moves waits, gone, silent⟩
  | @sent client created =>
    have different : other ≠ client := by
      rintro rfl
      exact gone (.inl (List.mem_append_right _ (List.mem_singleton_self other)))
    refine kept other ⟨?_, fun pending => gone (pending.imp_left (List.mem_append_left _)), silent⟩
    simpa [Waits, different] using waits
  | @taken client rest idle first =>
    refine kept other ⟨waits, fun pending => gone ?_, silent⟩
    rw [pending_of_reading idle, first, List.mem_cons] at pending
    rw [pending_of_holding rfl]
    exact pending.symm
  | @reached client holding opening =>
    have different : other ≠ client := by
      rintro rfl
      exact gone (.inr (.inr rfl))
    refine kept other ⟨?_, fun pending => gone (.inl ?_), silent⟩
    · simpa [Waits, different] using waits
    · exact ((pending_of_holding holding other).mp pending).resolve_right different
  | @missed client holding closed =>
    by_cases same : other = client
    · subst same
      -- It is not at its own open yet, nor past it: that would have taken the server's open.
      have early : state.place other ≠ .sent := by simpa [inTime, holding] using admitted
      rcases waits with sent | opening | reading
      · exact early sent
      · exact closed opening
      · exact (once.reading other reading).elim (by simp [holding]) (absurd silent)
    · refine kept other ⟨waits, fun pending => gone (.inl ?_), silent⟩
      exact ((pending_of_holding holding other).mp pending).resolve_right same
  | @responded client opened =>
    by_cases same : other = client
    · subst same
      have here := once.opened other opened
      rcases waits with place | place | place <;>
        simp [show state.place other = _ from place] at here silent
    · refine kept other ⟨waits, fun pending => gone (.inl ?_), ?_⟩
      · exact ((pending_of_opened opened other).mp pending).resolve_right same
      · simp only at silent
        split at silent
        · rwa [Function.update_of_ne same] at silent
        · exact silent

/-- An open that is not in time abandons its client. -/
theorem abandoned_of_late {action : Action Client} (once : Once state)
    (late : inTime state action = false) (taken : step seqLen state action = some next) :
    ∃ client, Abandoned next client := by
  obtain ⟨rfl, client, holding, sent⟩ := late_open late
  have outside := once.taken client (.inl holding)
  have silent := once.unanswered client (.inr (.inl holding))
  cases effect_of_step taken with
  | moved _ client_step => exact absurd rfl (client_step client).2.2.1
  | reached again opening =>
    rw [holding] at again
    cases again
    rw [sent] at opening
    cases opening
  | missed =>
    refine ⟨client, .inl sent, ?_, silent⟩
    rw [pending_of_reading rfl]
    exact outside

/-- Once abandoned, a client is never served: all it can do is wait, or end. -/
theorem abandoned_step {action : Action Client} {client : Client} (once : Once state)
    (abandoned : Abandoned state client) (taken : step seqLen state action = some next) :
    Abandoned next client ∨ next.place client = .ended := by
  have place := once.abandoned_place abandoned
  obtain ⟨waits, gone, silent⟩ := abandoned
  cases effect_of_step taken with
  | @moved _ other _ moves _ =>
    by_cases same : client = other
    · subst same
      cases moves with
      | created start => simp [start] at place
      | opening sent => exact .inl ⟨.inr (.inl (move_place_self ..)), gone, silent⟩
      | got reading => simp [reading] at place
      | ended => exact .inr (move_place_self ..)
    · refine .inl ⟨?_, gone, silent⟩
      rwa [Waits, move_place_other same]
  | @sent other created =>
    have different : client ≠ other := by
      rintro rfl
      simp [created] at place
    refine .inl ⟨by simpa [Waits, different] using waits, fun pending => gone ?_, silent⟩
    simpa [Pending, different] using pending
  | @taken other rest idle first =>
    refine .inl ⟨waits, fun pending => gone ?_, silent⟩
    rw [pending_of_reading idle, first, List.mem_cons]
    exact ((pending_of_holding rfl client).mp pending).symm
  | @reached other holding opening =>
    have different : client ≠ other := by
      rintro rfl
      exact gone (.inr (.inl holding))
    refine .inl ⟨by simpa [Waits, different] using waits, fun pending => gone (.inl ?_), silent⟩
    exact ((pending_of_opened rfl client).mp pending).resolve_right different
  | missed =>
    refine .inl ⟨waits, fun pending => gone (.inl ?_), silent⟩
    have member := (pending_of_reading rfl client).mp pending
    exact member
  | @responded other opened =>
    have different : client ≠ other := by
      rintro rfl
      exact gone (.inr (.inr opened))
    refine .inl ⟨waits, fun pending => gone (.inl ?_), ?_⟩
    · have member := (pending_of_reading rfl client).mp pending
      exact member
    · simp only
      split
      · rwa [Function.update_of_ne different]
      · exact silent

theorem ended_step {action : Action Client} {client : Client} (ended : state.place client = .ended)
    (taken : step seqLen state action = some next) : next.place client = .ended := by
  cases effect_of_step taken with
  | @moved _ other _ moves _ =>
    by_cases same : client = other
    · subst same
      cases moves with
      | created before | opening before | got before => simp [ended] at before
      | ended => exact move_place_self ..
    · rw [move_place_other same, ended]
  | @sent other before | @reached other _ before =>
    have different : client ≠ other := by
      rintro rfl
      simp [ended] at before
    simpa [different] using ended
  | taken | missed | responded => exact ended

/-- The client hangs for the rest of the run, whatever the others do. -/
theorem abandoned_never_served {schedule : List (Action Client)} {client : Client}
    (reached : (machine seqLen).Reachable state) (abandoned : Abandoned state client)
    (run : (machine seqLen).exec state schedule = some next) :
    Abandoned next client ∨ next.place client = .ended := by
  have lost : Abandoned state client ∨ state.place client = .ended := .inl abandoned
  clear abandoned
  induction schedule generalizing state with
  | nil =>
    cases run
    exact lost
  | cons action rest ih =>
    obtain ⟨middle, taken, later⟩ := Machine.exec_cons.mp run
    apply ih (reached.step taken) later
    rcases lost with abandoned | ended
    · exact abandoned_step (once_reachable reached) abandoned taken
    · exact .inr (ended_step ended taken)

theorem in_time_kept (reached : ((machine seqLen).guarded inTime).Reachable state)
    (client : Client) : ¬Abandoned state client := by
  have kept : ∀ client, ¬Abandoned state client := by
    refine @Machine.guarded_invariant _ _ (machine seqLen) inTime Once
      (fun state => ∀ client, ¬Abandoned state client) (fun reached => once_reachable reached)
      (fun client abandoned => ?_) (fun once kept admitted taken => kept_step once kept admitted taken)
      state reached
    rcases abandoned.1 with place | place | place <;> cases place
  exact kept client

/-- No state of the run has a client that was abandoned. -/
def NeverAbandons (seqLen : Client → Int) (schedule : List (Action Client)) : Prop :=
  ∀ before, before <+: schedule → ∀ state,
    (machine seqLen).exec (machine seqLen).start before = some state →
      ∀ client, ¬Abandoned state client

theorem guarded_of_never {schedule : List (Action Client)} {final : State Client}
    (reached : (machine seqLen).Reachable state)
    (run : (machine seqLen).exec state schedule = some final)
    (never : ∀ before, before <+: schedule → ∀ after,
      (machine seqLen).exec state before = some after → ∀ client, ¬Abandoned after client) :
    ((machine seqLen).guarded inTime).exec state schedule = some final := by
  induction schedule generalizing state with
  | nil => exact run
  | cons action rest ih =>
    obtain ⟨middle, taken, later⟩ := Machine.exec_cons.mp run
    have admitted : inTime state action = true := by
      by_contra late
      obtain ⟨client, abandoned⟩ :=
        abandoned_of_late (once_reachable reached) (by simpa using late) taken
      have alone : (machine seqLen).exec state [action] = some middle :=
        Machine.exec_cons.mpr ⟨middle, taken, rfl⟩
      exact never [action] ⟨rest, rfl⟩ middle alone client abandoned
    refine Machine.exec_cons.mpr ⟨middle, Machine.guarded_step.mpr ⟨admitted, taken⟩, ?_⟩
    refine ih (reached.step taken) later fun before inside after stepped => ?_
    refine never (action :: before) ((List.cons_prefix_cons).mpr ⟨rfl, inside⟩) after ?_
    exact Machine.exec_cons.mpr ⟨middle, taken, stepped⟩

/-- A run abandons nobody exactly when no client is between its write and its own
open at the server's open. -/
theorem never_abandons_iff {schedule : List (Action Client)}
    (runs : ((machine seqLen).exec (machine seqLen).start schedule).isSome) :
    NeverAbandons seqLen schedule ↔
      (((machine seqLen).guarded inTime).exec (machine seqLen).start schedule).isSome := by
  obtain ⟨final, run⟩ := Option.isSome_iff_exists.mp runs
  constructor
  · intro never
    rw [guarded_of_never .start run never]
    rfl
  · rintro guarded before ⟨after, rfl⟩ state reached
    obtain ⟨other, guarded⟩ := Option.isSome_iff_exists.mp guarded
    rw [Machine.exec_append] at guarded
    obtain ⟨middle, first, -⟩ := Option.bind_eq_some_iff.mp guarded
    have same := Machine.exec_of_guarded first
    rw [reached] at same
    cases same
    exact in_time_kept (Machine.reachable_of_exec .start first)

end Server

/-- The client is at its own open before the server has read the request. -/
theorem never_abandons_served :
    NeverAbandons (fun _ : Unit => 1)
        [.mkfifo (), .send (), .openOwn (), .read, .openClient, .respond, .receive (), .exit ()] ↔
      (((machine fun _ : Unit => 1).guarded inTime).exec (machine fun _ : Unit => 1).start
        [.mkfifo (), .send (), .openOwn (), .read, .openClient, .respond, .receive (),
          .exit ()]).isSome :=
  never_abandons_iff (by decide)

theorem early_server_runs :
    ((machine fun _ : Unit => 1).exec (machine fun _ : Unit => 1).start
      [.mkfifo (), .send (), .read, .openClient]).map (fun state =>
        (state.place (), state.requests, state.serving, state.responses ())) =
      some (.sent, [], .reading, none) := by decide

/-- The server is faster than the client: it has given the client up before that
comes to its own open. -/
theorem early_server_abandons :
    ¬ ∀ (Client : Type) [DecidableEq Client] (seqLen : Client → Int) (state : State Client),
      (machine seqLen).Reachable state → ∀ client, ¬Abandoned state client := by
  intro always
  obtain ⟨state, reached, facts⟩ := Machine.exists_reachable early_server_runs
  simp only [Prod.mk.injEq] at facts
  obtain ⟨sent, requests, serving, silent⟩ := facts
  refine always Unit (fun _ => 1) state reached () ⟨.inl sent, ?_, silent⟩
  simp [Pending, requests, serving]

end LinuxProgramming.SequenceServer
