import LinuxProgramming.ProducerConsumer.Bound

/-! Runs in which the counter is exact.

Two things make the counter lose prints: another store between a handler's load
and its store, and a SIGTERM that ends the process inside a handler that has
printed but not stored. A third makes it count wrong prints: a buffer that the
parent overwrites while a consumer still has to read it. The first guard excludes
the steps that start one of the first two, the second guard those that start the third,
and nothing else.
-/

set_option autoImplicit false

namespace LinuxProgramming.ProducerConsumer
open Foundation

/-- The handler is between the load and the store of `shared_count[0] += count`. -/
def Handler.updating : Handler → Bool
  | .storing _ _ => true
  | .entered | .printing _ _ _ => false

/-- The handler has yet to read the batch size or a message of the buffer. -/
def Handler.reading : Handler → Bool
  | .entered => true
  | .printing num_batch i _ => i < num_batch
  | .storing _ _ => false

/-- What the handler has printed and not yet added to the counter. -/
def Handler.unpaid : Handler → Nat
  | .entered => 0
  | .printing _ _ count => count
  | .storing count _ => count

def Consumer.updating (consumer : Consumer) : Bool := consumer.mode.handler.any Handler.updating

def Consumer.reading (consumer : Consumer) : Bool :=
  consumer.usr1 || consumer.mode.handler.any Handler.reading

def Consumer.unpaid (consumer : Consumer) : Nat := (consumer.mode.handler.map Handler.unpaid).getD 0

/-- No consumer has a SIGUSR1 pending or still reads the buffer. -/
def State.quiet {N : Nat} (state : State N) : Bool := decide (∀ c, (state.consumer c).reading = false)

/-- A handler loads the counter only when no other is about to store it; SIGTERM is
delivered only to a process that has nothing left to add. -/
def counts {N : Nat} (state : State N) : Action N → Bool
  | .handler c =>
    match (state.consumer c).mode.handler with
    | some (.printing num_batch i _) =>
      decide (i < num_batch) || decide (∀ other, (state.consumer other).updating = false)
    | _ => true
  | .deliverTerm c => (state.consumer c).unpaid == 0
  | .parent | .writeback | .deliverData _ | .exit _ => true

/-- The parent writes to the shared memory only when no consumer still needs what is there. -/
def preserves (arguments : Arguments) (state : State arguments.N) : Action arguments.N → Bool
  | .parent =>
    match state.parent with
    | .batch num_of_data =>
      if num_of_data < arguments.M ∧ batch_size arguments num_of_data < arguments.B then state.quiet
      else true
    | .copy _ size j => if j < size then state.quiet else true
    | _ => true
  | .handler _ | .writeback | .deliverTerm _ | .deliverData _ | .exit _ => true

/-- Both. -/
def admits (arguments : Arguments) (state : State arguments.N) (action : Action arguments.N) : Bool :=
  counts state action && preserves arguments state action

/-- Prints are accounted for: what is not in the counter yet is owed by running
handlers, and a handler about to store has loaded the current value. -/
structure Counted (arguments : Arguments) (state : State arguments.N) : Prop where
  received : state.received = state.stored
  prints : ∑ c, (state.consumer c).printed.length =
    state.stored + ∑ c, (state.consumer c).unpaid
  loaded : ∀ c count loaded, (state.consumer c).mode.handler = some (.storing count loaded) →
    loaded = state.received
  alone : ∀ c other, (state.consumer c).updating = true → (state.consumer other).updating = true →
    c = other

variable {arguments : Arguments} {state next : State arguments.N}

theorem counted_start : Counted arguments (start arguments) where
  received := rfl
  prints := by simp [start, Consumer.unpaid, Mode.handler]
  loaded c count loaded active := by simp [start, Mode.handler] at active
  alone c other updating := by simp [start, Consumer.updating, Mode.handler] at updating

theorem updating_iff {consumer : Consumer} :
    consumer.updating = true ↔ ∃ count loaded, consumer.mode.handler = some (.storing count loaded) := by
  unfold Consumer.updating
  cases consumer.mode.handler with
  | none => simp
  | some handler => cases handler <;> simp [Handler.updating]

theorem unpaid_of_handler {consumer : Consumer} {handler : Handler}
    (active : consumer.mode.handler = some handler) : consumer.unpaid = handler.unpaid := by
  simp [Consumer.unpaid, active]

theorem unpaid_of_none {consumer : Consumer} (outside : consumer.mode.handler = none) :
    consumer.unpaid = 0 := by
  simp [Consumer.unpaid, outside]

/-- A consumer that prints owes that much more, and one that is not about to
store does not interfere. -/
theorem Counted.change (counted : Counted arguments state) (c : Fin arguments.N)
    (consumer : Consumer)
    (prints : consumer.printed.length + (state.consumer c).unpaid =
      (state.consumer c).printed.length + consumer.unpaid)
    (loaded : ∀ count loaded, consumer.mode.handler = some (.storing count loaded) →
      loaded = state.received)
    (alone : consumer.updating = true →
      ∀ other, other ≠ c → (state.consumer other).updating = false) :
    Counted arguments (state.setConsumer c consumer) where
  received := counted.received
  prints := by
    have lengths := sum_update (fun consumer => consumer.printed.length) state.consumer c consumer
    have debts := sum_update Consumer.unpaid state.consumer c consumer
    have before := counted.prints
    simp only [setConsumer_consumer, setConsumer_stored]
    omega
  loaded other count value active := by
    by_cases same : other = c
    · subst same
      exact loaded count value (by simpa using active)
    · exact counted.loaded other count value (by simpa [same] using active)
  alone first second updating updating' := by
    simp only [setConsumer_consumer] at updating updating'
    by_cases left : first = c
    · by_cases right : second = c
      · rw [left, right]
      · subst left
        rw [Function.update_self] at updating
        rw [Function.update_of_ne right, alone updating second right] at updating'
        cases updating'
    · rw [Function.update_of_ne left] at updating
      by_cases right : second = c
      · subst right
        rw [Function.update_self] at updating'
        rw [alone updating' first left] at updating
        cases updating
      · rw [Function.update_of_ne right] at updating'
        exact counted.alone first second updating updating'

/-- A change that leaves the handler and the prints as they are. -/
theorem Counted.signal (counted : Counted arguments state) (c : Fin arguments.N)
    (consumer : Consumer) (printed : consumer.printed = (state.consumer c).printed)
    (mode : consumer.mode = (state.consumer c).mode) :
    Counted arguments (state.setConsumer c consumer) := by
  have updating : consumer.updating = (state.consumer c).updating := by
    simp [Consumer.updating, mode]
  apply counted.change
  · simp [printed, Consumer.unpaid, mode]
  · intro count loaded active
    exact counted.loaded c count loaded (mode ▸ active)
  · intro active other different
    by_contra busy
    exact different (counted.alone other c (by simpa using busy) (updating ▸ active))

/-- The store of the only consumer that updates, which then returns from its handler. -/
theorem Counted.store (counted : Counted arguments state) (c : Fin arguments.N)
    (consumer : Consumer) {count : Nat} {loaded : Int}
    (active : (state.consumer c).mode.handler = some (.storing count loaded))
    (printed : consumer.printed = (state.consumer c).printed)
    (returned : consumer.mode.handler = none)
    (fits : int (loaded + count) = loaded + count) :
    Counted arguments { state.setConsumer c consumer with
      received := int (loaded + count), stored := state.stored + count } := by
  have idle : ∀ other, (Function.update state.consumer c consumer other).updating = false :=
    fun other => by
      by_cases same : other = c
      · subst same
        simp [Consumer.updating, returned]
      · rw [Function.update_of_ne same]
        by_contra busy
        exact same (counted.alone other c (by simpa using busy) (updating_iff.mpr ⟨_, _, active⟩))
  refine ⟨?_, ?_, fun other count loaded storing => ?_, fun first second updating _ => ?_⟩
  · have received := counted.received
    have current := counted.loaded c count loaded active
    simp only [fits]
    omega
  · have lengths := sum_update (fun consumer => consumer.printed.length) state.consumer c consumer
    have debts := sum_update Consumer.unpaid state.consumer c consumer
    have before := counted.prints
    have paid : consumer.unpaid = 0 := unpaid_of_none returned
    have debt : (state.consumer c).unpaid = count := unpaid_of_handler active
    simp only [setConsumer_consumer, printed] at lengths ⊢
    omega
  · have busy : (Function.update state.consumer c consumer other).updating = true :=
      updating_iff.mpr ⟨count, loaded, storing⟩
    rw [idle other] at busy
    cases busy
  · have busy : (Function.update state.consumer c consumer first).updating = true := updating
    rw [idle first] at busy
    cases busy

theorem Counted.consume (counted : Counted arguments state) (ledger : Ledger arguments state)
    (small : state.sent.sum < 2 ^ 31) {c : Fin arguments.N} {action : Action arguments.N}
    (admitted : counts state action = true) (taken : ConsumerStep state c action next) :
    Counted arguments next := by
  -- Without a handler that updates afterwards there is nothing to show about the others.
  have quietly : ∀ {consumer : Consumer} {following : Handler},
      consumer.mode.handler = some following → following.updating = false →
        consumer.updating = true → ∀ other, other ≠ c → (state.consumer other).updating = false := by
    intro consumer following active idle busy
    simp [Consumer.updating, active, idle] at busy
  cases taken with
  | deliverData mode alive pending outside entered =>
    apply counted.change
    · simp [Consumer.unpaid, outside, entered, Handler.unpaid]
    · intro count loaded active
      cases entered.symm.trans active
    · exact quietly entered rfl
  | deliverTerm mode alive pending outside =>
    have nothing : (state.consumer c).unpaid = 0 := by simpa [counts] using admitted
    apply counted.change
    · rw [nothing, unpaid_of_none outside]
    · intro count loaded active
      cases outside.symm.trans active
    · intro busy
      simp [Consumer.updating, outside] at busy
  | read active =>
    have resumed := handler_resume (some (.printing state.advertised 0 0)) active
    apply counted.change
    · simp [Consumer.unpaid, resumed, active, Handler.unpaid]
    · intro count loaded storing
      cases resumed.symm.trans storing
    · exact quietly resumed rfl
  | print num_batch i count more active =>
    have resumed := handler_resume (some (.printing num_batch (i + 1) (count + 1))) active
    apply counted.change
    · simp only [Consumer.unpaid, resumed, active, Option.map_some, Option.getD_some,
        Handler.unpaid, List.length_append, List.length_singleton]
      omega
    · intro value loaded storing
      cases resumed.symm.trans storing
    · exact quietly resumed rfl
  | load num_batch i count done active =>
    have resumed := handler_resume (some (.storing count state.received)) active
    have free : ∀ other, (state.consumer other).updating = false := by
      simpa [counts, active, done] using admitted
    apply counted.change
    · simp [Consumer.unpaid, resumed, active, Handler.unpaid]
    · intro value loaded storing
      cases resumed.symm.trans storing
      rfl
    · exact fun _ other _ => free other
  | store count loaded active =>
    have owed : (state.consumer c).owed state.batch ≥ count := by
      rw [owed_of_handler _ active]
      exact Nat.le_add_left _ _
    have single : (state.consumer c).owed state.batch ≤
        ∑ other, (state.consumer other).owed state.batch :=
      Finset.single_le_sum (fun other _ => Nat.zero_le ((state.consumer other).owed state.batch))
        (Finset.mem_univ c)
    have credit := ledger.credit
    have lower := ledger.lower
    have received := counted.received
    have current := counted.loaded c count loaded active
    exact counted.store c _ active rfl (handler_resume none active)
      (int_of_bounds (by omega) (by omega))
  | exit blocked exiting =>
    apply counted.change
    · simp [Consumer.unpaid, exiting, Mode.handler]
    · intro count loaded active
      simp [Mode.handler] at active
    · intro busy
      simp [Consumer.updating, Mode.handler] at busy

theorem Counted.goto (counted : Counted arguments state) (parent : Parent) (batch : Nat)
    (zeroed : Bool) (addr : Nat → Option Nat) (sent : List Nat) :
    Counted arguments { state with
      parent := parent, batch := batch, zeroed := zeroed, addr := addr, sent := sent } :=
  ⟨counted.received, counted.prints, counted.loaded, counted.alone⟩

/-- The parent neither prints nor stores. -/
theorem Counted.produce (counted : Counted arguments state)
    (taken : ParentStep arguments state next) : Counted arguments next := by
  cases taken with
  | signal num_of_data size i bound at_kill =>
    have raised := counted.signal ⟨i, bound⟩ { state.consumer ⟨i, bound⟩ with usr1 := true } rfl rfl
    exact raised.goto _ _ _ _ _
  | terminate i bound at_terminate =>
    have raised := counted.signal ⟨i, bound⟩ { state.consumer ⟨i, bound⟩ with term := true } rfl rfl
    exact raised.goto _ _ _ _ _
  | _ => exact counted.goto _ _ _ _ _

/-- In a run whose steps are all admitted, no print is lost and none is counted twice. -/
theorem counted_of_reachable (small : arguments.M * arguments.N < 2 ^ 31)
    (reached : ((machine arguments).guarded counts).Reachable state) :
    Counted arguments state := by
  refine Machine.guarded_invariant (fun before => before) counted_start ?_ reached
  intro state action next before counted admitted taken
  have ledger := ledger_of_reachable small before
  have sent_small := Nat.lt_of_le_of_lt (sending_of_reachable before).sent_le small
  rcases step_cases taken with ⟨-, rfl⟩ | ⟨-, produced⟩ | ⟨c, consumed⟩
  · exact counted.goto _ _ _ _ _
  · exact counted.produce produced
  · exact counted.consume ledger sent_small admitted consumed

end LinuxProgramming.ProducerConsumer
