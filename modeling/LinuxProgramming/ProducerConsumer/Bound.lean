import LinuxProgramming.Foundation.Tally
import LinuxProgramming.ProducerConsumer.Sending

/-! The counter never exceeds what the signals sent so far can account for.

Every signal sent is worth the size of its batch. A pending signal or a running
handler owes at most what its signal is worth, because the advertised size only
shrinks; a store adds what its handler owed. Overlapping updates only lose.
-/

set_option autoImplicit false

namespace LinuxProgramming.ProducerConsumer
open Foundation

variable {arguments : Arguments} {state next : State arguments.N}

/-- What the handler can still add to the counter. -/
def Handler.owed (batch : Nat) : Handler → Nat
  | .entered => batch
  | .printing num_batch _ _ => num_batch
  | .storing count _ => count

/-- What a consumer can still add on the signals it has been sent. -/
def Consumer.owed (batch : Nat) (consumer : Consumer) : Nat :=
  (if consumer.usr1 then batch else 0) +
    match consumer.mode.handler with
    | some handler => handler.owed batch
    | none => 0

/-- The locals of a running handler: it counts what it prints, and the counter
value that it has loaded was stored before. -/
def Handler.Fits (stored : Nat) : Handler → Prop
  | .entered => True
  | .printing num_batch i count => count = i ∧ i ≤ num_batch
  | .storing _ loaded => 0 ≤ loaded ∧ loaded ≤ stored

def Consumer.Fits (stored : Nat) (consumer : Consumer) : Prop :=
  ∀ handler, consumer.mode.handler = some handler → handler.Fits stored

theorem Handler.Fits.mono {stored later : Nat} {handler : Handler} (fits : handler.Fits stored)
    (grown : stored ≤ later) : handler.Fits later := by
  cases handler with
  | entered => trivial
  | printing num_batch i count => exact fits
  | storing count loaded =>
    obtain ⟨lower, upper⟩ := fits
    exact ⟨lower, by omega⟩

structure Ledger (arguments : Arguments) (state : State arguments.N) : Prop where
  credit : state.stored + ∑ c, (state.consumer c).owed state.batch ≤ state.sent.sum
  lower : 0 ≤ state.received
  upper : state.received ≤ state.stored
  fits : ∀ c, (state.consumer c).Fits state.stored

theorem ledger_start : Ledger arguments (start arguments) where
  credit := by simp [start, Consumer.owed, Mode.handler]
  lower := le_refl _
  upper := le_refl _
  fits c handler active := by simp [start, Mode.handler] at active

/-- A consumer changes without storing and without owing more than before. -/
theorem Ledger.change (ledger : Ledger arguments state) (c : Fin arguments.N) (consumer : Consumer)
    (owed : consumer.owed state.batch ≤ (state.consumer c).owed state.batch)
    (fits : consumer.Fits state.stored) : Ledger arguments (state.setConsumer c consumer) where
  credit := by
    have shrunk := sum_update_le (Consumer.owed state.batch) state.consumer c consumer owed
    have credit := ledger.credit
    simp only [setConsumer_stored, setConsumer_consumer, setConsumer_batch, setConsumer_sent]
    omega
  lower := ledger.lower
  upper := ledger.upper
  fits other := by
    by_cases same : other = c
    · subst same
      simpa using fits
    · simpa [same] using ledger.fits other

theorem int_of_bounds {value : Int} (lower : 0 ≤ value) (upper : value < 2 ^ 31) :
    int value = value := by
  unfold int
  rw [Int.bmod_eq_iff (by decide)]
  refine ⟨?_, ?_, by simp⟩ <;> omega

theorem owed_of_handler {consumer : Consumer} {handler : Handler} (batch : Nat)
    (active : consumer.mode.handler = some handler) :
    consumer.owed batch = (if consumer.usr1 then batch else 0) + handler.owed batch := by
  simp [Consumer.owed, active]

/-- Moving on in the running handler. -/
theorem Ledger.resume (ledger : Ledger arguments state) (c : Fin arguments.N)
    {handler following : Handler} (printed : List (Option Nat))
    (active : (state.consumer c).mode.handler = some handler)
    (owed : following.owed state.batch ≤ handler.owed state.batch)
    (fits : following.Fits state.stored) :
    Ledger arguments (state.setConsumer c { state.consumer c with
      printed := printed, mode := (state.consumer c).mode.resume (some following) }) := by
  have resumed := handler_resume (some following) active
  apply ledger.change
  · rw [owed_of_handler _ resumed, owed_of_handler _ active]
    exact Nat.add_le_add_left owed _
  · intro other running
    cases resumed.symm.trans running
    exact fits

/-- The store of the counter adds what the handler owed, and nothing wraps. -/
theorem Ledger.store (ledger : Ledger arguments state) (c : Fin arguments.N) {count : Nat}
    {loaded : Int} (active : (state.consumer c).mode.handler = some (.storing count loaded))
    (small : state.sent.sum < 2 ^ 31) :
    Ledger arguments { state.setConsumer c { state.consumer c with
        mode := (state.consumer c).mode.resume none } with
      received := int (loaded + count), stored := state.stored + count } := by
  obtain ⟨lower, upper⟩ : 0 ≤ loaded ∧ loaded ≤ state.stored := ledger.fits c _ active
  have returned := handler_resume none active
  have before : (state.consumer c).owed state.batch =
      (if (state.consumer c).usr1 then state.batch else 0) + count :=
    owed_of_handler _ active
  have exchanged := sum_update (Consumer.owed state.batch) state.consumer c
    { state.consumer c with mode := (state.consumer c).mode.resume none }
  have after : Consumer.owed state.batch { state.consumer c with
      mode := (state.consumer c).mode.resume none } =
      if (state.consumer c).usr1 then state.batch else 0 := by
    simp [Consumer.owed, returned]
  have credit := ledger.credit
  have paid : state.stored + count +
      ∑ other, (Function.update state.consumer c { state.consumer c with
        mode := (state.consumer c).mode.resume none } other).owed state.batch ≤ state.sent.sum := by
    omega
  -- What was loaded had been stored before and the credit covers the rest, so the sum is no larger than what was sent.
  have exact_value : int (loaded + count) = loaded + count :=
    int_of_bounds (by omega) (by omega)
  refine ⟨paid, ?_, ?_, fun other => ?_⟩
  · simp only [exact_value]
    omega
  · simp only [exact_value]
    omega
  · intro handler running
    by_cases same : other = c
    · subst same
      simp [returned] at running
    · have kept := ledger.fits other handler (by simpa [same] using running)
      exact kept.mono (Nat.le_add_right _ _)

theorem Ledger.consume (ledger : Ledger arguments state) {c : Fin arguments.N}
    {action : Action arguments.N} (taken : ConsumerStep state c action next)
    (small : state.sent.sum < 2 ^ 31) : Ledger arguments next := by
  cases taken with
  | deliverData mode alive pending outside entered =>
    apply ledger.change
    · simp [Consumer.owed, pending, outside, entered, Handler.owed]
    · intro handler running
      cases entered.symm.trans running
      trivial
  | deliverTerm mode alive pending outside =>
    apply ledger.change
    · simp [Consumer.owed, outside]
    · intro handler running
      cases outside.symm.trans running
  | read active => exact ledger.resume c _ active (advertised_le state) ⟨rfl, Nat.zero_le _⟩
  | print num_batch i count more active =>
    obtain ⟨counted, _⟩ : count = i ∧ i ≤ num_batch := ledger.fits c _ active
    exact ledger.resume c _ active (le_refl _) ⟨by omega, more⟩
  | load num_batch i count done active =>
    obtain ⟨counted, bound⟩ : count = i ∧ i ≤ num_batch := ledger.fits c _ active
    refine ledger.resume c _ active ?_ ⟨ledger.lower, ledger.upper⟩
    simp only [Handler.owed]
    omega
  | store count loaded active => exact ledger.store c active small
  | exit blocked exiting =>
    apply ledger.change
    · simp [Consumer.owed, exiting, Mode.handler]
    · intro handler running
      simp [Mode.handler] at running

theorem Consumer.owed_mono {batch smaller : Nat} (consumer : Consumer) (shrunk : smaller ≤ batch) :
    consumer.owed smaller ≤ consumer.owed batch := by
  unfold Consumer.owed
  apply Nat.add_le_add
  · split <;> omega
  · split
    next handler _ => cases handler <;> simp [Handler.owed, shrunk]
    next => exact le_refl _

/-- The ledger does not depend on where the parent is. -/
theorem Ledger.goto (ledger : Ledger arguments state) (parent : Parent) :
    Ledger arguments { state with parent := parent } :=
  ⟨ledger.credit, ledger.lower, ledger.upper, ledger.fits⟩

/-- A signal worth `size` lets its receiver owe that much more. -/
theorem Ledger.signal (ledger : Ledger arguments state) (c : Fin arguments.N) (consumer : Consumer)
    (size : Nat) (owed : consumer.owed state.batch ≤ (state.consumer c).owed state.batch + size)
    (fits : consumer.Fits state.stored) :
    Ledger arguments { state.setConsumer c consumer with sent := state.sent ++ [size] } where
  credit := by
    have exchanged := sum_update (Consumer.owed state.batch) state.consumer c consumer
    have credit := ledger.credit
    simp only [setConsumer_stored, setConsumer_consumer, setConsumer_batch, List.sum_append,
      List.sum_cons, List.sum_nil]
    omega
  lower := ledger.lower
  upper := ledger.upper
  fits other := by
    by_cases same : other = c
    · subst same
      simpa using fits
    · simpa [same] using ledger.fits other

theorem Ledger.produce (ledger : Ledger arguments state) (sending : Sending arguments state)
    (taken : ParentStep arguments state next) : Ledger arguments next := by
  unfold Sending at sending
  cases taken with
  | round num_of_data at_batch more =>
    simp only [at_batch] at sending
    refine ⟨?_, ledger.lower, ledger.upper, ledger.fits⟩
    -- The only write to the advertised size replaces B by a smaller last batch.
    have shrunk : (if batch_size arguments num_of_data < arguments.B
        then batch_size arguments num_of_data else state.batch) ≤ state.batch := by
      have full := sending.2.1 more
      split <;> omega
    have lighter := Finset.sum_le_sum fun c (_ : c ∈ Finset.univ) =>
      (state.consumer c).owed_mono shrunk
    exact (Nat.add_le_add_left lighter _).trans ledger.credit
  | done num_of_data at_batch done => exact ledger.goto _
  | copy num_of_data size j at_copy more =>
    exact ⟨ledger.credit, ledger.lower, ledger.upper, ledger.fits⟩
  | copied num_of_data size j at_copy done => exact ledger.goto _
  | signal num_of_data size i bound at_kill =>
    simp only [at_kill] at sending
    obtain ⟨-, -, -, -, -, advertised, -⟩ := sending
    have owed : Consumer.owed state.batch { state.consumer ⟨i, bound⟩ with usr1 := true } ≤
        (state.consumer ⟨i, bound⟩).owed state.batch + size := by
      simp only [Consumer.owed, ↓reduceIte]
      omega
    exact (ledger.signal ⟨i, bound⟩ _ size owed (ledger.fits ⟨i, bound⟩)).goto _
  | signalled num_of_data size i at_kill done => exact ledger.goto _
  | terminate i bound at_terminate =>
    exact (ledger.change ⟨i, bound⟩ { state.consumer ⟨i, bound⟩ with term := true } (le_refl _)
      (ledger.fits ⟨i, bound⟩)).goto _
  | terminated i at_terminate done => exact ledger.goto _
  | reap i bound at_wait exited => exact ledger.goto _
  | report at_report => exact ledger.goto _

theorem ledger_of_reachable (small : arguments.M * arguments.N < 2 ^ 31)
    (reached : (machine arguments).Reachable state) : Ledger arguments state := by
  induction reached with
  | start => exact ledger_start
  | @step state next action before taken ih =>
    have sending := sending_of_reachable before
    have sum_small := Nat.lt_of_le_of_lt sending.sent_le small
    rcases step_cases taken with ⟨-, rfl⟩ | ⟨-, produced⟩ | ⟨c, consumed⟩
    · exact ⟨ih.credit, ih.lower, ih.upper, ih.fits⟩
    · exact ih.produce sending produced
    · exact ih.consume consumed sum_small

/-- The parent reports a value that the counter had. -/
theorem reported_of_reachable (small : arguments.M * arguments.N < 2 ^ 31)
    (reached : (machine arguments).Reachable state) {receivedMessage : Int}
    (finished : state.parent = .finished receivedMessage) :
    0 ≤ receivedMessage ∧ receivedMessage ≤ (arguments.M * arguments.N : Nat) := by
  induction reached generalizing receivedMessage with
  | start => cases finished
  | @step state next action before taken ih =>
    rcases step_cases taken with ⟨-, rfl⟩ | ⟨-, produced⟩ | ⟨c, consumed⟩
    · exact ih finished
    · cases produced with
      | report at_report =>
        have ledger := ledger_of_reachable small before
        have sent := (sending_of_reachable before).sent_le
        have credit := ledger.credit
        have upper := ledger.upper
        cases finished
        exact ⟨ledger.lower, by omega⟩
      | _ => cases finished
    · rw [consumed.frame.1] at finished
      exact ih finished

/-- In every reachable state the counter is at least zero and at most the sum,
over the signals sent so far, of the sizes of their batches; so the loss rate
that is computed from it is not negative. -/
theorem received_le_sent (small : arguments.M * arguments.N < 2 ^ 31)
    (reached : (machine arguments).Reachable state) :
    0 ≤ state.received ∧ state.received ≤ state.sent.sum ∧
      state.received ≤ (arguments.M * arguments.N : Nat) ∧
      ∀ receivedMessage, state.parent = .finished receivedMessage →
        0 ≤ receivedMessage ∧ receivedMessage ≤ (arguments.M * arguments.N : Nat) := by
  have ledger := ledger_of_reachable small reached
  have sent := (sending_of_reachable reached).sent_le
  have credit := ledger.credit
  have upper := ledger.upper
  refine ⟨ledger.lower, ?_, ?_, fun _ finished => reported_of_reachable small reached finished⟩
  · omega
  · omega

/-- Three messages to one consumer through a buffer of two. -/
def threeMessages : Arguments := ⟨3, 1, 2, by decide⟩

/-- The signal for the first batch is delivered after the last batch has been advertised,
and the page has been written back before that. -/
def delayed : List (Action 1) :=
  [.parent, .parent, .parent, .parent, .parent, .writeback, .parent, .parent,
    .deliverData 0, .handler 0, .handler 0, .handler 0, .handler 0]

theorem delayed_runs :
    ((machine threeMessages).exec (start threeMessages) delayed).map
      (fun state => (state.received, state.sent)) = some (1, [2]) := by
  decide

/-- The bound at the state after that run. -/
theorem received_le_sent_delayed :
    ∃ state : State 1, (machine threeMessages).Reachable state ∧ state.received = 1 ∧
      state.sent = [2] ∧
      0 ≤ state.received ∧ state.received ≤ state.sent.sum ∧ state.received ≤ 3 := by
  obtain ⟨state, reached, same⟩ := Machine.exists_reachable delayed_runs
  have bounds := received_le_sent (by decide) reached
  refine ⟨state, reached, congrArg Prod.fst same, congrArg Prod.snd same, bounds.1, bounds.2.1, ?_⟩
  exact bounds.2.2.1

end LinuxProgramming.ProducerConsumer
