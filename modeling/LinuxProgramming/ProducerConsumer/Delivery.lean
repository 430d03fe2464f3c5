import LinuxProgramming.ProducerConsumer.Counting
import Mathlib.Data.List.Perm.Subperm

/-! Which messages the consumers print in admitted runs.

At any time a consumer has printed distinct messages below a limit that depends
on whether it has been signalled for the batch in the buffer and on how much of
that batch its handler has printed. The limit follows the batches, so no
message is printed twice.
-/

set_option autoImplicit false

namespace LinuxProgramming.ProducerConsumer
open Foundation

variable {arguments : Arguments} {state next : State arguments.N}

/-- How many messages have been handed to the buffer in finished copies. -/
def State.total (arguments : Arguments) (state : State arguments.N) : Nat :=
  match state.parent with
  | .batch num_of_data | .copy num_of_data _ _ | .kill num_of_data _ _ => num_of_data
  | .terminate _ | .waitpid _ | .report | .finished _ => arguments.M

/-- The buffer holds the last `batch` of those messages. -/
def Held (arguments : Arguments) (state : State arguments.N) : Prop :=
  state.batch ≤ state.total arguments ∧
    ∀ k < state.batch, state.addr k = some (state.total arguments - state.batch + k)

/-- What the parent has copied, and when a whole batch is in the buffer. -/
def Filled (arguments : Arguments) (state : State arguments.N) : Prop :=
  match state.parent with
  | .batch num_of_data => num_of_data ≠ 0 → Held arguments state
  | .copy num_of_data size j =>
    (∀ k < j, state.addr k = some (num_of_data + k)) ∧
      (j = 0 → size = arguments.B → num_of_data ≠ 0 → Held arguments state)
  | .kill _ _ _ => Held arguments state
  | .terminate _ | .waitpid _ | .report | .finished _ => arguments.M ≠ 0 → Held arguments state

/-- The parent has sent consumer `c` the signal for the batch in the buffer,
and has not started to replace that batch. -/
def Available (arguments : Arguments) (state : State arguments.N) (c : Fin arguments.N) : Prop :=
  match state.parent with
  | .batch num_of_data => num_of_data ≠ 0
  | .copy num_of_data size j => j = 0 ∧ size = arguments.B ∧ num_of_data ≠ 0
  | .kill _ _ i => c.val < i
  | .terminate _ | .waitpid _ | .report | .finished _ => arguments.M ≠ 0

/-- The messages below this have been announced to consumer `c`. -/
def announced (arguments : Arguments) (state : State arguments.N) (c : Fin arguments.N) : Nat :=
  match state.parent with
  | .kill num_of_data _ i => if c.val < i then num_of_data else num_of_data - state.batch
  | _ => state.total arguments

/-- The messages that a consumer has printed are below this. -/
def limit (arguments : Arguments) (state : State arguments.N) (c : Fin arguments.N)
    (consumer : Consumer) : Nat :=
  let first := state.total arguments - state.batch
  if consumer.usr1 then first
  else
    match consumer.mode.handler with
    | some .entered => first
    | some (.printing num_batch i _) =>
      if i < num_batch then first + i else announced arguments state c
    | some (.storing _ _) | none => announced arguments state c

theorem filled_start : Filled arguments (start arguments) := by
  simp [Filled, start]

theorem Held.goto (held : Held arguments state) {parent : Parent}
    (total : ({ state with parent := parent } : State arguments.N).total arguments =
      state.total arguments) :
    Held arguments { state with parent := parent } := by
  unfold Held
  rw [total]
  exact held

theorem Filled.produce (filled : Filled arguments state) (sending : Sending arguments state)
    (taken : ParentStep arguments state next) : Filled arguments next := by
  unfold Filled at filled ⊢
  unfold Sending at sending
  cases taken with
  | round num_of_data at_batch more =>
    simp only [at_batch] at filled
    refine ⟨fun k below => absurd below (Nat.not_lt_zero k), fun _ whole started => ?_⟩
    have held := filled started
    simp only [Held, State.total, at_batch, whole, Nat.lt_irrefl, ↓reduceIte] at held ⊢
    exact held
  | done num_of_data at_batch done =>
    simp only [at_batch] at filled sending
    intro some_data
    have all : num_of_data = arguments.M := by omega
    exact (filled (by omega)).goto (by simp [State.total, at_batch, all])
  | copy num_of_data size j at_copy more =>
    simp only [at_copy] at filled sending
    refine ⟨fun k below => ?_, fun zero => absurd zero (Nat.succ_ne_zero j)⟩
    by_cases last : k = j
    · subst last
      have inside : num_of_data + k < arguments.M := by omega
      simp [generator, List.getElem?_range inside]
    · simp only [Function.update_of_ne last]
      exact filled.1 k (by omega)
  | copied num_of_data size j at_copy done =>
    simp only [at_copy] at filled sending
    obtain ⟨positive, bound, -, position, advertised, -⟩ := sending
    refine ⟨?_, fun k below => ?_⟩
    · simp only [State.total]
      omega
    · simp only [State.total]
      simp only [advertised] at below ⊢
      rw [filled.1 k (by omega)]
      congr 1
      omega
  | signal num_of_data size i bound at_kill =>
    simp only [at_kill] at filled
    simpa [Held, State.total, at_kill] using filled
  | signalled num_of_data size i at_kill done =>
    simp only [at_kill] at filled
    exact fun _ => filled.goto (by simp [State.total, at_kill])
  | terminate i bound at_terminate =>
    simp only [at_terminate] at filled
    simpa [Held, State.total, at_terminate] using filled
  | terminated i at_terminate done =>
    simp only [at_terminate] at filled
    exact fun some_data => (filled some_data).goto (by simp [State.total, at_terminate])
  | reap i bound at_wait exited =>
    simp only [at_wait] at filled
    exact fun some_data => (filled some_data).goto (by simp [State.total, at_wait])
  | report at_report =>
    simp only [at_report] at filled
    exact fun some_data => (filled some_data).goto (by simp [State.total, at_report])

theorem Filled.step (filled : Filled arguments state) (sending : Sending arguments state)
    {action : Action arguments.N} (taken : step arguments state action = some next) :
    Filled arguments next := by
  rcases step_cases taken with ⟨-, rfl⟩ | ⟨-, produced⟩ | ⟨c, consumed⟩
  · exact filled
  · exact filled.produce sending produced
  · obtain ⟨parent, batch, addr, -⟩ := consumed.frame
    simpa only [Filled, Held, State.total, parent, batch, addr] using filled

theorem filled_of_reachable (reached : (machine arguments).Reachable state) :
    Filled arguments state := by
  induction reached with
  | start => exact filled_start
  | step before taken ih => exact ih.step (sending_of_reachable before) taken

theorem Filled.held (filled : Filled arguments state) {c : Fin arguments.N}
    (available : Available arguments state c) : Held arguments state := by
  unfold Filled at filled
  unfold Available at available
  cases parent : state.parent with
  | batch num_of_data => simp_all
  | copy num_of_data size j => simp_all
  | kill num_of_data size i => simp_all
  | terminate i => simp_all
  | waitpid i => simp_all
  | report => simp_all
  | finished receivedMessage => simp_all

/-- The invariant of one consumer. A consumer that still has to read is owed the
batch in the buffer, and is owed it once. -/
structure Follows (arguments : Arguments) (state : State arguments.N) (c : Fin arguments.N)
    (consumer : Consumer) : Prop where
  printed : ∃ messages : List Nat, consumer.printed = messages.map some ∧ messages.Nodup ∧
    ∀ message ∈ messages, message < limit arguments state c consumer
  available : consumer.reading = true → Available arguments state c
  once : consumer.usr1 = true → consumer.mode.handler.any Handler.reading = false
  whole : ∀ num_batch i count, consumer.mode.handler = some (.printing num_batch i count) →
    i < num_batch → num_batch = state.batch

def Delivered (arguments : Arguments) (state : State arguments.N) : Prop :=
  ∀ c, Follows arguments state c (state.consumer c)

theorem delivered_start : Delivered arguments (start arguments) := fun c =>
  ⟨⟨[], rfl, .nil, by simp⟩, by simp [start, Consumer.reading, Mode.handler],
    by simp [start], by simp [start, Mode.handler]⟩

/-- A consumer that is signalled for a batch in the buffer has been announced all of it. -/
theorem announced_of_available {c : Fin arguments.N} (available : Available arguments state c) :
    announced arguments state c = state.total arguments := by
  unfold Available at available
  cases parent : state.parent <;> simp_all [announced, State.total]

theorem limit_of_not_reading {c : Fin arguments.N} {consumer : Consumer}
    (idle : consumer.reading = false) :
    limit arguments state c consumer = announced arguments state c := by
  simp only [Consumer.reading, Bool.or_eq_false_iff] at idle
  obtain ⟨usr1, handler⟩ := idle
  unfold limit
  cases active : consumer.mode.handler with
  | none => simp [usr1]
  | some handler =>
    cases handler <;> simp_all [Handler.reading]

/-- Reading or not, a consumer prints nothing that it has not been announced. -/
theorem Follows.limit_le {c : Fin arguments.N} {consumer : Consumer}
    (follows : Follows arguments state c consumer) (filled : Filled arguments state) :
    limit arguments state c consumer ≤ announced arguments state c := by
  cases reading : consumer.reading with
  | false => exact (limit_of_not_reading reading).le
  | true =>
    have available := follows.available reading
    obtain ⟨inside, -⟩ := filled.held available
    rw [announced_of_available available]
    unfold limit
    dsimp only
    split
    · omega
    · split
      · omega
      · split
        next active more =>
          have size := follows.whole _ _ _ active more
          omega
        next => exact (announced_of_available available).le
      · exact (announced_of_available available).le
      · exact (announced_of_available available).le

/-- A handler that reads was entered for a signal that is no longer pending. -/
theorem Follows.delivered {c : Fin arguments.N} {consumer : Consumer} {handler : Handler}
    (follows : Follows arguments state c consumer) (active : consumer.mode.handler = some handler)
    (reading : handler.reading = true) : consumer.usr1 = false := by
  cases pending : consumer.usr1 with
  | false => rfl
  | true => simpa [active, reading] using follows.once pending

/-- The consumer changes, without printing and without a lower limit. -/
theorem Follows.move {c : Fin arguments.N} {consumer changed : Consumer}
    (follows : Follows arguments state c consumer) (printed : changed.printed = consumer.printed)
    (limits : limit arguments state c consumer ≤ limit arguments state c changed)
    (reading : changed.reading = true → consumer.reading = true)
    (once : changed.usr1 = true → changed.mode.handler.any Handler.reading = false)
    (whole : ∀ num_batch i count, changed.mode.handler = some (.printing num_batch i count) →
      i < num_batch → num_batch = state.batch) : Follows arguments state c changed := by
  obtain ⟨messages, same, distinct, below⟩ := follows.printed
  exact ⟨⟨messages, printed.trans same, distinct,
      fun message member => Nat.lt_of_lt_of_le (below message member) limits⟩,
    fun active => follows.available (reading active), once, whole⟩

/-- Printing the next message of the batch. -/
theorem Follows.print {c : Fin arguments.N} {consumer : Consumer} {num_batch i count : Nat}
    (follows : Follows arguments state c consumer) (filled : Filled arguments state)
    (more : i < num_batch)
    (active : consumer.mode.handler = some (.printing num_batch i count)) :
    Follows arguments state c { consumer with
      printed := consumer.printed ++ [state.addr i]
      mode := consumer.mode.resume (some (.printing num_batch (i + 1) (count + 1))) } := by
  have resumed := handler_resume (some (.printing num_batch (i + 1) (count + 1))) active
  have pending := follows.delivered active (by simp [Handler.reading, more])
  have available := follows.available (by simp [Consumer.reading, active, Handler.reading, more])
  obtain ⟨inside, filled_slots⟩ := filled.held available
  have size := follows.whole _ _ _ active more
  obtain ⟨messages, same, distinct, below⟩ := follows.printed
  have slot := filled_slots i (by omega)
  simp only [limit, pending, active, more, Bool.false_eq_true, ↓reduceIte] at below
  refine ⟨⟨messages ++ [state.total arguments - state.batch + i], ?_, ?_, ?_⟩, fun _ => available,
    ?_, ?_⟩
  · simp [same, slot]
  · rw [List.nodup_append]
    refine ⟨distinct, by simp, fun message member last final => ?_⟩
    have := below message member
    simp only [List.mem_singleton] at final
    omega
  · have bound : state.total arguments - state.batch + i <
        limit arguments state c { consumer with
          printed := consumer.printed ++ [state.addr i]
          mode := consumer.mode.resume (some (.printing num_batch (i + 1) (count + 1))) } := by
      simp only [limit, pending, resumed, Bool.false_eq_true, ↓reduceIte]
      split
      · omega
      · rw [announced_of_available available]
        omega
    intro message member
    rcases List.mem_append.mp member with member | member
    · exact Nat.lt_trans (below message member) bound
    · rw [List.mem_singleton.mp member]
      exact bound
  · simp [pending]
  · intro _ _ _ running _
    cases resumed.symm.trans running
    exact size

theorem Follows.consume {c : Fin arguments.N} {action : Action arguments.N}
    (follows : Follows arguments state c (state.consumer c)) (filled : Filled arguments state)
    (taken : ConsumerStep state c action next) :
    Follows arguments state c (next.consumer c) := by
  cases taken with
  | deliverData mode alive pending outside entered =>
    simp only [setConsumer_consumer, Function.update_self]
    refine follows.move rfl ?_ ?_ (by simp) ?_
    · simp [limit, pending, entered]
    · simp [Consumer.reading, pending]
    · intro _ _ _ running
      cases entered.symm.trans running
  | deliverTerm mode alive pending outside =>
    simp only [setConsumer_consumer, Function.update_self]
    refine follows.move rfl ?_ ?_ (by simp [outside]) ?_
    · cases usr1 : (state.consumer c).usr1 with
      | true => simp [limit, usr1]
      | false =>
        refine (follows.limit_le filled).trans (limit_of_not_reading ?_).ge
        simp [Consumer.reading, outside]
    · simp only [Consumer.reading, outside, Option.any_none, Bool.or_false]
      intro usr1
      simp [usr1]
    · intro _ _ _ running
      cases outside.symm.trans running
  | read active =>
    have resumed := handler_resume (some (.printing state.advertised 0 0)) active
    have pending := follows.delivered active rfl
    simp only [setConsumer_consumer, Function.update_self]
    refine follows.move rfl ?_ (by simp [Consumer.reading, active, Handler.reading])
      (by simp [pending]) ?_
    · rw [show limit arguments state c (state.consumer c) =
          state.total arguments - state.batch by simp [limit, pending, active]]
      simp only [limit, pending, resumed, Bool.false_eq_true, ↓reduceIte]
      split
      · omega
      · rw [announced_of_available (follows.available
          (by simp [Consumer.reading, active, Handler.reading]))]
        exact Nat.sub_le _ _
    · intro _ _ _ running more
      cases resumed.symm.trans running
      exact advertised_of_pos more
  | print num_batch i count more active =>
    simp only [setConsumer_consumer, Function.update_self]
    exact follows.print filled more active
  | load num_batch i count done active =>
    have resumed := handler_resume (some (.storing count state.received)) active
    simp only [setConsumer_consumer, Function.update_self]
    refine follows.move rfl ?_ ?_ (by simp [resumed, Handler.reading]) ?_
    · simp [limit, active, resumed, done]
    · simp [Consumer.reading, resumed, Handler.reading]
      intro usr1
      simp [usr1]
    · intro _ _ _ running
      cases resumed.symm.trans running
  | store count loaded active =>
    have resumed := handler_resume none active
    simp only [setConsumer_consumer, Function.update_self]
    refine follows.move rfl ?_ ?_ (by simp [resumed]) ?_
    · simp [limit, active, resumed]
    · simp [Consumer.reading, resumed]
      intro usr1
      simp [usr1]
    · intro _ _ _ running
      cases resumed.symm.trans running
  | exit blocked exiting =>
    simp only [setConsumer_consumer, Function.update_self]
    refine follows.move rfl ?_ ?_ (by simp [Mode.handler]) (by simp [Mode.handler])
    · simp [limit, exiting, Mode.handler]
    · simp [Consumer.reading, Mode.handler]
      intro usr1
      simp [usr1]

/-- The parent moves on within the same batch, or past it when nobody reads. -/
theorem Follows.carry {c : Fin arguments.N} {consumer : Consumer}
    (follows : Follows arguments state c consumer)
    (announced_le : announced arguments state c ≤ announced arguments next c)
    (kept : consumer.reading = true → Available arguments next c ∧ next.batch = state.batch ∧
      next.total arguments = state.total arguments) : Follows arguments next c consumer := by
  cases reading : consumer.reading with
  | false =>
    have idle := reading
    simp only [Consumer.reading, Bool.or_eq_false_iff] at idle
    obtain ⟨messages, same, distinct, below⟩ := follows.printed
    refine ⟨⟨messages, same, distinct, fun message member => ?_⟩, by simp [reading], fun _ => idle.2,
      fun num_batch i count active more => ?_⟩
    · have before := below message member
      rw [limit_of_not_reading reading] at before ⊢
      exact Nat.lt_of_lt_of_le before announced_le
    · simp [active, Handler.reading, more] at idle
  -- A reader stays at the same batch, so its limit is the same.
  | true =>
    obtain ⟨available, batch, total⟩ := kept reading
    have now := announced_of_available available
    have before := announced_of_available (follows.available reading)
    obtain ⟨messages, same, distinct, below⟩ := follows.printed
    refine ⟨⟨messages, same, distinct, ?_⟩, fun _ => available, follows.once, ?_⟩
    · simp only [limit, batch, total, now, before] at below ⊢
      exact below
    · rw [batch]
      exact follows.whole

theorem quiet_iff : state.quiet = true ↔ ∀ c, (state.consumer c).reading = false := by
  simp [State.quiet]

/-- Once everything has been sent, the parent's steps change nothing for a consumer. -/
theorem Follows.ended {c : Fin arguments.N} {consumer : Consumer}
    (follows : Follows arguments state c consumer) {parent : Parent}
    (total : ({ state with parent := parent } : State arguments.N).total arguments =
      state.total arguments)
    (same_announced : announced arguments { state with parent := parent } c =
      announced arguments state c)
    (same_available : Available arguments state c → Available arguments { state with parent := parent } c) :
    Follows arguments { state with parent := parent } c consumer :=
  follows.carry same_announced.ge fun reading =>
    ⟨same_available (follows.available reading), rfl, total⟩

/-- The invariant of a consumer depends on the parent's program point and on what
the parent has written, not on the other consumers. -/
theorem Follows.setConsumer {c : Fin arguments.N} {consumer : Consumer}
    (follows : Follows arguments state c consumer) (other : Fin arguments.N) (changed : Consumer) :
    Follows arguments (state.setConsumer other changed) c consumer :=
  ⟨follows.printed, follows.available, follows.once, follows.whole⟩

/-- Consumer `i` is signalled now, and the others are where they were. -/
theorem Delivered.signal (delivered : Delivered arguments state) {num_of_data size i : Nat}
    (bound : i < arguments.N) (at_kill : state.parent = .kill num_of_data size i) :
    Delivered arguments { state.setConsumer ⟨i, bound⟩
        { state.consumer ⟨i, bound⟩ with usr1 := true } with
      sent := state.sent ++ [size], parent := .kill num_of_data size (i + 1) } := by
  intro c
  have follows := delivered c
  by_cases same : c = ⟨i, bound⟩
  · subst same
    have idle : (state.consumer ⟨i, bound⟩).reading = false := by
      by_contra busy
      have available := follows.available (by simpa using busy)
      simp [Available, at_kill] at available
    obtain ⟨messages, printed, distinct, below⟩ := follows.printed
    simp only [Consumer.reading, Bool.or_eq_false_iff] at idle
    refine ⟨⟨messages, ?_, distinct, fun message member => ?_⟩, fun _ => ?_, fun _ => ?_,
      fun num_batch j count active more => ?_⟩
    · simpa using printed
    · have before := below message member
      rw [limit_of_not_reading (by simp [Consumer.reading, idle])] at before
      simpa [limit, announced, State.total, at_kill] using before
    · simp [Available]
    · simpa using idle.2
    · simp only [setConsumer_consumer, Function.update_self] at active
      simp [active, Handler.reading, more] at idle
  · have different : c.val ≠ i := fun equal => same (Fin.ext equal)
    have position : c.val < i + 1 ↔ c.val < i := by omega
    simp only [setConsumer_consumer, Function.update_of_ne same]
    refine follows.carry ?_ fun reading => ⟨?_, rfl, by simp [State.total, at_kill]⟩
    · simp [announced, at_kill, position]
    · have available := follows.available reading
      simpa [Available, at_kill, position] using available

theorem Delivered.produce (delivered : Delivered arguments state)
    (sending : Sending arguments state) (admitted : preserves arguments state .parent = true)
    (taken : ParentStep arguments state next) : Delivered arguments next := by
  unfold Sending at sending
  cases taken with
  | round num_of_data at_batch more =>
    intro c
    refine (delivered c).carry (by simp [announced, State.total, at_batch]) fun reading => ?_
    -- A last, smaller batch is only started when nobody reads.
    have size : ¬ batch_size arguments num_of_data < arguments.B := by
      intro smaller
      simp only [preserves, at_batch, more, smaller, and_self, ↓reduceIte, quiet_iff] at admitted
      rw [admitted c] at reading
      cases reading
    have full := batch_size_le arguments num_of_data
    have available := (delivered c).available reading
    simp only [Available, at_batch] at available
    exact ⟨⟨rfl, by omega, available⟩, by simp [size], by simp [State.total, at_batch]⟩
  | done num_of_data at_batch done =>
    simp only [at_batch] at sending
    have all : num_of_data = arguments.M := by omega
    intro c
    apply (delivered c).ended
    · simp [State.total, at_batch, all]
    · simp [announced, State.total, at_batch, all]
    · simp [Available, at_batch, all]
  | copy num_of_data size j at_copy more =>
    intro c
    refine (delivered c).carry (by simp [announced, State.total, at_copy]) fun reading => ?_
    simp only [preserves, at_copy, more, ↓reduceIte, quiet_iff] at admitted
    rw [admitted c] at reading
    cases reading
  | copied num_of_data size j at_copy done =>
    simp only [at_copy] at sending
    obtain ⟨positive, -, -, position, advertised, -⟩ := sending
    intro c
    refine (delivered c).carry ?_ fun reading => ?_
    · simp only [announced, State.total, at_copy, Nat.not_lt_zero, ↓reduceIte, advertised]
      omega
    · have available := (delivered c).available reading
      simp only [Available, at_copy] at available
      omega
  | signal num_of_data size i bound at_kill => exact delivered.signal bound at_kill
  | signalled num_of_data size i at_kill done =>
    simp only [at_kill] at sending
    obtain ⟨positive, inside, -⟩ := sending
    intro c
    have signalled : c.val < i := by have := c.isLt; omega
    refine (delivered c).carry ?_ fun reading => ⟨?_, rfl, by simp [State.total, at_kill]⟩
    · simp [announced, State.total, at_kill, signalled]
    · simp only [Available]
      omega
  | terminate i bound at_terminate =>
    intro c
    have unchanged : Follows arguments { state with parent := .waitpid i } c (state.consumer c) := by
      apply (delivered c).ended <;> simp [State.total, announced, Available, at_terminate]
    have raised := unchanged.setConsumer ⟨i, bound⟩ { state.consumer ⟨i, bound⟩ with term := true }
    by_cases same : c = ⟨i, bound⟩
    · subst same
      simp only [setConsumer_consumer, Function.update_self]
      exact ⟨raised.printed, raised.available, raised.once, raised.whole⟩
    · simp only [setConsumer_consumer, Function.update_of_ne same]
      exact raised
  | terminated i at_terminate done =>
    intro c
    apply (delivered c).ended <;> simp [State.total, announced, Available, at_terminate]
  | reap i bound at_wait exited =>
    intro c
    apply (delivered c).ended <;> simp [State.total, announced, Available, at_wait]
  | report at_report =>
    intro c
    apply (delivered c).ended <;> simp [State.total, announced, Available, at_report]

theorem ConsumerStep.others {N : Nat} {state next : State N} {c other : Fin N} {action : Action N}
    (taken : ConsumerStep state c action next) (different : other ≠ c) :
    next.consumer other = state.consumer other := by
  cases taken <;> simp [State.setConsumer, different]

theorem delivered_of_reachable
    (reached : ((machine arguments).guarded (preserves arguments)).Reachable state) :
    Delivered arguments state := by
  refine Machine.guarded_invariant (fun before => before) delivered_start ?_ reached
  intro state action next before delivered admitted taken
  have filled := filled_of_reachable before
  rcases step_cases taken with ⟨-, rfl⟩ | ⟨rfl, produced⟩ | ⟨c, consumed⟩
  · exact fun c => ⟨(delivered c).printed, (delivered c).available, (delivered c).once,
      (delivered c).whole⟩
  · exact delivered.produce (sending_of_reachable before) admitted produced
  · obtain ⟨parent, batch, addr, sent⟩ := consumed.frame
    -- The invariant of a consumer depends on the parent's data only.
    have carry : ∀ {other : Fin arguments.N} {consumer : Consumer},
        Follows arguments state other consumer → Follows arguments next other consumer := by
      intro other consumer follows
      refine follows.carry (by simp [announced, State.total, parent, batch]) fun reading => ?_
      have available := follows.available reading
      exact ⟨by simpa [Available, parent] using available, batch, by simp [State.total, parent]⟩
    intro other
    by_cases same : other = c
    · subst same
      exact carry ((delivered other).consume filled consumed)
    · rw [consumed.others same]
      exact carry (delivered other)

end LinuxProgramming.ProducerConsumer
