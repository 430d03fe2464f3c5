import LinuxProgramming.Foundation.Tally
import LinuxProgramming.MessageQueue.Delivery

/-! Every run of the server and its clients comes to an end. -/

set_option autoImplicit false

namespace LinuxProgramming.MessageQueue
open Foundation

variable {Client : Type} [DecidableEq Client] {program : Program Client}
  {state next : State Client} {client : Client} {place : ClientPlace} {msqid : Nat}

def ClientPlace.work : ClientPlace → Nat
  | .opening => 4
  | .sending _ _ => 3
  | .sent | .failed | .undefined => 0

def ServerPlace.work : ServerPlace → Nat
  | .opening => 3
  | .receiving _ => 2
  | .removing _ => 1
  | .exited | .failed | .undefined => 0

/-- The calls that are left, where a message that is sent is one that will be received. -/
def State.work [Fintype Client] (state : State Client) : Nat :=
  (∑ client, (state.client client).work) + 2 * (state.sent.length - state.taken.length) +
    state.signals + state.server.work

omit [DecidableEq Client] in
theorem round_place (received : Option (Entry Client)) :
    (state.round program msqid received).server.work ≤ 2 := by
  simp only [State.round]
  split <;> simp [ServerPlace.work]

variable [Fintype Client]

omit [DecidableEq Client] in
/-- A round leaves less to be received. -/
theorem round_work (received : Option (Entry Client)) :
    (state.round program msqid received).work ≤ (∑ client, (state.client client).work) +
      2 * (state.sent.length - (state.taken ++ received.toList).length) + state.signals + 2 := by
  have taken : (state.round program msqid received).taken = state.taken ++ received.toList := by
    cases received <;> simp [State.taken, State.round]
  rw [State.work, taken]
  exact Nat.add_le_add_left (round_place received) _

/-- A client that goes on does less than before. -/
theorem goto_work {lost : Nat} (lighter : place.work + lost ≤ (state.client client).work) :
    (∑ other, ((state.goto client place).client other).work) + lost ≤
      ∑ other, (state.client other).work := by
  obtain ⟨rest, before, behind⟩ := sum_update_rest ClientPlace.work state.client client place
  rw [State.goto, before, behind]
  omega

theorem opened_work (ipc : Ipc Client) (lighter : place.work + 1 ≤ (state.client client).work) :
    State.work { state.goto client place with ipc := ipc } < state.work := by
  have clients := goto_work lighter
  have waiting : State.taken { state.goto client place with ipc := ipc } = state.taken := rfl
  simp only [State.work, waiting]
  simp only [State.goto] at clients ⊢
  omega

/-- A message that is sent will be received. -/
theorem put_work (ipc : Ipc Client) (entry : Entry Client)
    (here : 3 ≤ (state.client client).work) :
    State.work { state.goto client .sent with ipc := ipc, sent := state.sent ++ [entry] } <
      state.work := by
  have clients : (∑ other, ((state.goto client .sent).client other).work) + 3 ≤
      ∑ other, (state.client other).work := goto_work here
  have waiting : State.taken { state.goto client .sent with
    ipc := ipc, sent := state.sent ++ [entry] } = state.taken := rfl
  simp only [State.work, waiting, List.length_append, List.length_singleton]
  simp only [State.goto] at clients ⊢
  omega

theorem clientStep_work (taken : clientStep program state client = some next) :
    next.work < state.work := by
  unfold clientStep at taken
  cases here : state.client client with
  | opening =>
    simp only [here] at taken
    cases text : program.message client with
    | some message =>
      rw [text] at taken
      cases taken
      exact opened_work _ (by simp [here, ClientPlace.work])
    | none =>
      rw [text] at taken
      cases taken
      exact opened_work _ (by simp [here, ClientPlace.work])
  | sending msqid message =>
    simp only [here] at taken
    cases present : state.ipc.queue msqid with
    | none =>
      rw [present] at taken
      cases taken
      exact opened_work state.ipc (by simp [here, ClientPlace.work])
    | some queued =>
      simp only [present] at taken
      split at taken
      next =>
        cases taken
        exact put_work _ _ (by simp [here, ClientPlace.work])
      next => cases taken
  | sent | failed | undefined => simp [here] at taken

omit [DecidableEq Client] in
theorem serverStep_work (sound : Sound program state)
    (taken : serverStep program state = some next) : next.work < state.work := by
  unfold serverStep at taken
  cases sound.serving with
  | opening place =>
    simp only [place] at taken
    cases taken
    simp [State.work, State.taken, place, ServerPlace.work]
  | receiving msqid place holds =>
    obtain ⟨queued, present, order⟩ := holds.queue
    simp only [place, present] at taken
    cases queued with
    | nil => cases taken
    | cons entry queued =>
      cases taken
      have room := congrArg List.length order
      simp only [State.taken, List.length_append, List.length_cons] at room
      apply Nat.lt_of_le_of_lt (round_work (some entry))
      simp only [State.taken, List.length_append, Option.toList_some, List.length_singleton,
        State.work, place, ServerPlace.work]
      omega
  | removing msqid place =>
    simp only [place] at taken
    cases taken
    simp [State.work, State.taken, place, ServerPlace.work]
  | exited place | failed place | undefined place => simp [place] at taken

theorem work_decreases {action : Action Client} (reached : (machine program).Reachable state)
    (taken : (machine program).step state action = some next) : next.work < state.work := by
  have sound := sound_of_reachable reached
  cases action with
  | client client => exact clientStep_work taken
  | clientFails client =>
    simp only [machine, MessageQueue.step] at taken
    split at taken
    next here =>
      cases taken
      exact opened_work state.ipc (by simp [here, ClientPlace.work])
    next here =>
      cases taken
      exact opened_work state.ipc (by simp [here, ClientPlace.work])
    all_goals cases taken
  | server => exact serverStep_work sound taken
  | serverFails =>
    simp only [machine, MessageQueue.step] at taken
    cases place : state.server with
    | opening | removing _ =>
      simp only [place] at taken
      cases taken
      simp [State.work, State.taken, place, ServerPlace.work]
    | receiving _ | exited | failed | undefined => simp [place] at taken
  | interrupt =>
    simp only [machine, MessageQueue.step] at taken
    cases place : state.server with
    | receiving msqid =>
      cases left : state.signals with
      | zero => simp [place, left] at taken
      | succ signals =>
        simp only [place, left] at taken
        cases taken
        apply Nat.lt_of_le_of_lt (round_work none)
        simp only [State.taken, Option.toList_none, List.append_nil, State.work, place, left,
          ServerPlace.work]
        omega
    | opening | removing _ | exited | failed | undefined => simp [place] at taken

/-- Nothing is left for the client to do. -/
def ClientPlace.idle : ClientPlace → Prop
  | .sent | .failed | .undefined => True
  | .opening | .sending _ _ => False

/-- The client waits for room in a queue that nobody reads any more. -/
def Abandoned (program : Program Client) (state : State Client) (client : Client) : Prop :=
  ∃ msqid message queued, state.client client = .sending msqid message ∧
    state.ipc.queue msqid = some queued ∧ program.capacity ≤ queued.length

/-- How a run ends: the server has no queue; the sum left the range of an `int`; the
server waits behind the messages of all clients, none of which told it to stop; or one did,
and some clients that came too late may wait for ever. -/
inductive Ended (program : Program Client) (state : State Client) : Prop where
  | failed : state.server = .failed → Ended program state
  | undefined : state.server = .undefined →
      (Steady program state → ¬ InInt (total (state.taken.map Entry.message))) →
      Ended program state
  | waiting (msqid : Nat) : state.server = .receiving msqid → state.taken = state.sent →
      (∀ client, (state.client client).idle) →
      (∀ entry ∈ state.sent, ends entry.message.text = false) → Ended program state
  | exited : state.server = .exited → (Steady program state → Stopped state) →
      (∀ client, (state.client client).idle ∨ Abandoned program state client) →
      Ended program state

omit [Fintype Client] in
/-- A client that cannot go on is done, or its queue is full. -/
theorem client_stuck (stuck : clientStep program state client = none) :
    (state.client client).idle ∨ Abandoned program state client := by
  unfold clientStep at stuck
  cases here : state.client client with
  | opening =>
    simp only [here] at stuck
    cases text : program.message client <;> simp [text] at stuck
  | sending msqid message =>
    simp only [here] at stuck
    cases present : state.ipc.queue msqid with
    | none => simp [present] at stuck
    | some queued =>
      simp only [present] at stuck
      split at stuck
      next => cases stuck
      next full => exact .inr ⟨msqid, message, queued, here, present, Nat.le_of_not_lt full⟩
  | sent | failed | undefined => exact .inl trivial

/-- A call that does what it is asked to. -/
def going (_ : State Client) : Action Client → Bool
  | .client _ | .server => true
  | .clientFails _ | .serverFails | .interrupt => false

omit [Fintype Client] in
theorem ended_of_stuck (reached : (machine program).Reachable state)
    (stuck : ((machine program).guarded going).Stuck state) : Ended program state := by
  have sound := sound_of_reachable reached
  have clients : ∀ client, (state.client client).idle ∨ Abandoned program state client :=
    fun client => client_stuck (stuck (.client client))
  have server : serverStep program state = none := stuck .server
  unfold serverStep at server
  cases sound.serving with
  | opening place => simp [place] at server
  | removing msqid place => simp [place] at server
  | receiving msqid place holds goes_on =>
    obtain ⟨queued, present, order⟩ := holds.queue
    cases queued with
    | cons entry queued => simp [place, present] at server
    | nil =>
      rw [List.append_nil] at order
      apply Ended.waiting msqid place order
      · intro client
        rcases clients client with idle | ⟨other, message, queued, here, found, full⟩
        · exact idle
        · cases holds.senders client other message here
          cases present.symm.trans found
          exact absurd full (Nat.not_le_of_lt program.positive)
      · intro entry member
        apply program.kind.treats.open_of_goes_on goes_on
        rw [← order, State.taken, List.mem_filterMap] at member
        obtain ⟨received, inside, same⟩ := member
        rw [id] at same
        subst same
        exact List.mem_map.mpr ⟨some entry, inside, rfl⟩
  | exited place _ known => exact .exited place known clients
  | failed place => exact .failed place
  | undefined place _ known => exact .undefined place known

/-- Every run ends. Where only a failure could go on, all messages have been received or the
server was told to stop. -/
theorem service_ends (program : Program Client) :
    (machine program).Terminates ∧
    ∀ state, (machine program).Reachable state → ((machine program).guarded going).Stuck state →
      Ended program state := by
  have decreases : ∀ {state : State Client} {action next},
      (machine program).Reachable state → (machine program).step state action = some next →
        next.work < state.work := work_decreases
  exact ⟨Machine.terminates_of_measure decreases, fun _ => ended_of_stuck⟩

end LinuxProgramming.MessageQueue
