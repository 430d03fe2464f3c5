import LinuxProgramming.ProducerConsumer.Delivery

/-! The batches of the send loop, over every run of the program.

A batch is what the buffer holds when a copy is finished and the signals for it
begin. Consumers can run at any time, but the loop does not depend on them. The size of
the batch is lost when the page is written back, unless it is stored anew in time.
-/

set_option autoImplicit false

namespace LinuxProgramming.ProducerConsumer
open Foundation

variable {arguments : Arguments} {state next : State arguments.N}

/-- The batch that a step finishes. -/
def finishedBatch {N : Nat} (state : State N) : Action N → List (List (Option Nat))
  | .parent =>
    match state.parent with
    | .copy _ size j => if j < size then [] else [(List.range size).map state.addr]
    | _ => []
  | _ => []

/-- The batches of a run, in order. -/
def batches (arguments : Arguments) : State arguments.N → List (Action arguments.N) →
    List (List (Option Nat))
  | _, [] => []
  | state, action :: rest =>
    match step arguments state action with
    | some next => finishedBatch state action ++ batches arguments next rest
    | none => []

/-- The parent is in the send loop. -/
def Parent.sends : Parent → Bool
  | .batch _ | .copy _ _ _ | .kill _ _ _ => true
  | .terminate _ | .waitpid _ | .report | .finished _ => false

/-- One message for one consumer, through a buffer of one. -/
def oneOfOne : Arguments := ⟨1, 1, 1, Nat.zero_lt_one⟩

/-- The least number of batches for so many messages. -/
def rounds (arguments : Arguments) (messages : Nat) : Nat :=
  (messages + arguments.B - 1) / arguments.B

/-- More steps than the parent ever takes in its loop. -/
def loopSteps (arguments : Arguments) : Parent → Nat
  | .batch num_of_data => (arguments.M - num_of_data) * (arguments.N + 4) + 1
  | .copy num_of_data size j =>
    (arguments.M - (num_of_data + size)) * (arguments.N + 4) + (arguments.N + 2) + (size - j) + 1
  | .kill num_of_data _ i =>
    (arguments.M - num_of_data) * (arguments.N + 4) + 1 + (arguments.N - i) + 1
  | .terminate _ | .waitpid _ | .report | .finished _ => 0

/-- No signal is left that goes with the size that was stored last: there is nobody to
signal, or the loop is over, or the next round stores a size of its own. -/
def State.expendable (arguments : Arguments) (state : State arguments.N) : Bool :=
  arguments.N == 0 ||
    match state.parent with
    | .batch num_of_data => batch_size arguments num_of_data < arguments.B
    | .copy _ _ _ => false
    | .kill num_of_data _ i =>
      arguments.N ≤ i && batch_size arguments num_of_data < arguments.B
    | .terminate _ | .waitpid _ | .report | .finished _ => true

/-- The page is written back only while the size in it is not needed. -/
def harmless (arguments : Arguments) (state : State arguments.N) : Action arguments.N → Bool
  | .writeback => state.expendable arguments
  | .parent | .deliverData _ | .deliverTerm _ | .handler _ | .exit _ => true

/-- With every signal the size of its batch is advertised. -/
def Advertised (arguments : Arguments) (state : State arguments.N) : Prop :=
  ∀ num_of_data size i, state.parent = .kill num_of_data size i → i < arguments.N →
    state.advertised = size

/-- The accesses of the send loop, in one state. -/
structure Inside (arguments : Arguments) (state : State arguments.N) : Prop where
  copies : ∀ num_of_data size j, state.parent = .copy num_of_data size j → j < size →
    j < arguments.B ∧ num_of_data + j < arguments.M
  kills : ∀ num_of_data size i, state.parent = .kill num_of_data size i →
    size ≤ arguments.B ∧ size ≤ num_of_data ∧
      (List.range size).map state.addr =
        (((generator arguments.M).take num_of_data).drop (num_of_data - size)).map some

/-- The loop goes on, and it has an end. -/
structure Ends (arguments : Arguments) (state : State arguments.N)
    (schedule : List (Action arguments.N)) : Prop where
  enabled : state.parent.sends = true → (step arguments state .parent).isSome
  bounded : state.parent.sends = true →
    schedule.count .parent ≤ arguments.M * (arguments.N + 4)

/-- The batches so far are the messages so far. -/
def Batched (arguments : Arguments) (state : State arguments.N)
    (log : List (List (Option Nat))) : Prop :=
  log.flatten = ((generator arguments.M).take (state.total arguments)).map some ∧
    log.length = rounds arguments (state.total arguments)

/-- All but the last of the batches fill the buffer. -/
def Full (arguments : Arguments) (state : State arguments.N) (count : Nat) : Prop :=
  match state.parent with
  | .batch num_of_data => num_of_data < arguments.M → count * arguments.B = num_of_data
  | .copy num_of_data size _ => size ≤ arguments.B ∧ count * arguments.B = num_of_data
  | .kill num_of_data size _ =>
    size ≤ arguments.B ∧ (num_of_data < arguments.M → count * arguments.B = num_of_data)
  | .terminate _ | .waitpid _ | .report | .finished _ => True

theorem rounds_whole (arguments : Arguments) (count : Nat) :
    rounds arguments (count * arguments.B) = count := by
  have room := arguments.buffer
  rw [rounds, Nat.add_sub_assoc room, Nat.mul_comm, Nat.mul_add_div room,
    Nat.div_eq_of_lt (Nat.sub_lt room Nat.zero_lt_one), Nat.add_zero]

/-- One more batch, short or full. -/
theorem rounds_next {arguments : Arguments} {count size : Nat} (some_data : 0 < size)
    (fits : size ≤ arguments.B) :
    rounds arguments (count * arguments.B + size) = count + 1 := by
  have room := arguments.buffer
  have shape : count * arguments.B + size + arguments.B - 1 =
      arguments.B * (count + 1) + (size - 1) := by
    rw [Nat.mul_succ, Nat.mul_comm]
    omega
  rw [rounds, shape, Nat.mul_add_div room, Nat.div_eq_of_lt (by omega), Nat.add_zero]

theorem take_generator {data_num count : Nat} (inside : count ≤ data_num) :
    (generator data_num).take count = List.range count := by
  rw [generator, List.take_range, Nat.min_eq_left inside]

/-- The batches of a run, with what the next one needs. -/
structure Logged (arguments : Arguments) (state : State arguments.N)
    (log : List (List (Option Nat))) : Prop where
  batched : Batched arguments state log
  full : Full arguments state log.length

theorem logged_start : Logged arguments (start arguments) [] where
  batched := by
    have none_yet := rounds_whole arguments 0
    rw [Nat.zero_mul] at none_yet
    simp [Batched, State.total, start, none_yet]
  full := by simp [Full, start]

/-- A step that finishes no batch and hands over no messages. -/
theorem Logged.goto {log : List (List (Option Nat))} (logged : Logged arguments state log)
    (same : next.total arguments = state.total arguments) (full : Full arguments next log.length) :
    Logged arguments next (log ++ []) := by
  rw [List.append_nil]
  refine ⟨?_, full⟩
  rw [Batched, same]
  exact logged.batched

theorem Logged.produce {log : List (List (Option Nat))} (logged : Logged arguments state log)
    (sending : Sending arguments state) (filled : Filled arguments state)
    (taken : ParentStep arguments state next) :
    Logged arguments next (log ++ finishedBatch state .parent) := by
  have full := logged.full
  unfold Full at full
  unfold Sending at sending
  cases taken with
  | round num_of_data at_batch more =>
    simp only [at_batch] at full
    simp only [finishedBatch, at_batch]
    apply logged.goto (by simp [State.total, at_batch])
    exact ⟨(batch_size_le arguments num_of_data).1, full more⟩
  | done num_of_data at_batch done =>
    simp only [at_batch] at sending
    simp only [finishedBatch, at_batch]
    have all : num_of_data = arguments.M := by omega
    exact logged.goto (by simp [State.total, at_batch, all]) trivial
  | copy num_of_data size j at_copy more =>
    simp only [at_copy] at full
    simp only [finishedBatch, at_copy, more, ↓reduceIte]
    exact logged.goto (by simp [State.total, at_copy]) full
  | copied num_of_data size j at_copy done =>
    simp only [at_copy] at full sending
    simp only [Filled, at_copy] at filled
    obtain ⟨positive, bound, whole, position, -, -⟩ := sending
    obtain ⟨flat, count⟩ := logged.batched
    simp only [State.total, at_copy] at flat count
    rw [take_generator (by omega)] at flat
    -- The copy is finished, so the slots of this batch are the messages behind the earlier ones.
    have batch : (List.range size).map state.addr =
        ((List.range size).map (num_of_data + ·)).map some := by
      rw [List.map_map]
      refine List.map_congr_left fun k member => ?_
      exact filled.1 k (by have := List.mem_range.mp member; omega)
    simp only [finishedBatch, at_copy, done, ↓reduceIte]
    refine ⟨⟨?_, ?_⟩, ?_⟩
    · simp only [State.total]
      rw [take_generator bound, List.flatten_append, flat, List.flatten_singleton, batch,
        List.range_add, List.map_append]
    · simp only [State.total]
      rw [List.length_append, List.length_singleton, ← full.2, rounds_next positive full.1]
    · refine ⟨full.1, fun more => ?_⟩
      rw [List.length_append, List.length_singleton, Nat.succ_mul, full.2, whole more]
  | signal num_of_data size i bound at_kill =>
    simp only [at_kill] at full
    simp only [finishedBatch, at_kill]
    exact logged.goto (by simp [State.total, at_kill]) full
  | signalled num_of_data size i at_kill done =>
    simp only [at_kill] at full
    simp only [finishedBatch, at_kill]
    exact logged.goto (by simp [State.total, at_kill]) full.2
  | terminate i bound at_terminate =>
    simp only [finishedBatch, at_terminate]
    exact logged.goto (by simp [State.total, at_terminate]) trivial
  | terminated i at_terminate done =>
    simp only [finishedBatch, at_terminate]
    exact logged.goto (by simp [State.total, at_terminate]) trivial
  | reap i bound at_wait exited =>
    simp only [finishedBatch, at_wait]
    exact logged.goto (by simp [State.total, at_wait]) trivial
  | report at_report =>
    simp only [finishedBatch, at_report]
    exact logged.goto (by simp [State.total, at_report]) trivial

theorem Logged.step {log : List (List (Option Nat))} (logged : Logged arguments state log)
    (sending : Sending arguments state) (filled : Filled arguments state)
    {action : Action arguments.N} (taken : step arguments state action = some next) :
    Logged arguments next (log ++ finishedBatch state action) := by
  rcases step_cases taken with ⟨rfl, rfl⟩ | ⟨rfl, produced⟩ | ⟨c, consumed⟩
  · exact logged.goto rfl logged.full
  · exact logged.produce sending filled produced
  · have nothing : finishedBatch state action = [] := by cases consumed <;> rfl
    obtain ⟨parent, -, -, -⟩ := consumed.frame
    rw [nothing]
    apply logged.goto (by simp only [State.total, parent])
    simpa only [Full, parent] using logged.full

/-- The batches of a run that starts in the middle of another one. -/
theorem Logged.run {log : List (List (Option Nat))} (logged : Logged arguments state log)
    (reached : (machine arguments).Reachable state) {schedule : List (Action arguments.N)}
    {final : State arguments.N} (run : (machine arguments).exec state schedule = some final) :
    Logged arguments final (log ++ batches arguments state schedule) := by
  induction schedule generalizing state log with
  | nil =>
    cases run
    simpa [batches] using logged
  | cons action rest ih =>
    obtain ⟨next, taken, following⟩ := Machine.exec_cons.mp run
    have stepped : ProducerConsumer.step arguments state action = some next := taken
    have first := logged.step (sending_of_reachable reached) (filled_of_reachable reached) stepped
    have later := ih first (reached.step taken) following
    rw [batches, stepped, ← List.append_assoc]
    exact later

/-- The loop is left for good. -/
theorem sends_of_step {action : Action arguments.N}
    (taken : step arguments state action = some next) (sends : next.parent.sends = true) :
    state.parent.sends = true := by
  rcases step_cases taken with ⟨-, rfl⟩ | ⟨-, produced⟩ | ⟨c, consumed⟩
  · exact sends
  · cases produced with
    | round num_of_data at_batch more => rw [at_batch]; rfl
    | done num_of_data at_batch done => cases sends
    | copy num_of_data size j at_copy more => rw [at_copy]; rfl
    | copied num_of_data size j at_copy done => rw [at_copy]; rfl
    | signal num_of_data size i bound at_kill => rw [at_kill]; rfl
    | signalled num_of_data size i at_kill done => rw [at_kill]; rfl
    | terminate i bound at_terminate => cases sends
    | terminated i at_terminate done => cases sends
    | reap i bound at_wait exited => cases sends
    | report at_report => cases sends
  · rwa [consumed.frame.1] at sends

theorem sends_of_exec {schedule : List (Action arguments.N)} {final : State arguments.N}
    (run : (machine arguments).exec state schedule = some final)
    (sends : final.parent.sends = true) : state.parent.sends = true :=
  @Machine.backwards _ _ (machine arguments) (fun state => state.parent.sends = true)
    (fun taken => sends_of_step taken) _ _ _ run sends

/-- Every step of the parent in the loop brings it closer to the end. -/
theorem loopSteps_decreases (taken : ParentStep arguments state next)
    (sends : state.parent.sends = true) :
    loopSteps arguments next.parent < loopSteps arguments state.parent := by
  cases taken with
  | round num_of_data at_batch more =>
    have sizes := batch_size_le arguments num_of_data
    have positive := batch_size_pos arguments num_of_data more
    simp only [at_batch, loopSteps]
    obtain ⟨rest, left⟩ := Nat.exists_eq_add_of_le sizes.2
    have split_rest : arguments.M - (num_of_data + batch_size arguments num_of_data) = rest := by omega
    rw [split_rest, left, Nat.add_mul]
    -- A round takes two steps more than it copies and signals, which `N + 4` for each message cover.
    have round := Nat.mul_le_mul_right (arguments.N + 3) positive
    have one_each : batch_size arguments num_of_data * (arguments.N + 4) =
        batch_size arguments num_of_data * (arguments.N + 3) +
          batch_size arguments num_of_data := by ring
    omega
  | done num_of_data at_batch done => simp [at_batch, loopSteps]
  | copy num_of_data size j at_copy more =>
    simp only [at_copy, loopSteps]
    omega
  | copied num_of_data size j at_copy done =>
    simp only [at_copy, loopSteps]
    omega
  | signal num_of_data size i bound at_kill =>
    simp only [at_kill, loopSteps]
    omega
  | signalled num_of_data size i at_kill done =>
    simp only [at_kill, loopSteps]
    omega
  | terminate i bound at_terminate => simp [at_terminate, Parent.sends] at sends
  | terminated i at_terminate done => simp [at_terminate, Parent.sends] at sends
  | reap i bound at_wait exited => simp [at_wait, Parent.sends] at sends
  | report at_report => simp [at_report, Parent.sends] at sends

theorem count_le_loopSteps {schedule : List (Action arguments.N)} {final : State arguments.N}
    (run : (machine arguments).exec state schedule = some final)
    (sends : final.parent.sends = true) :
    schedule.count .parent + loopSteps arguments final.parent ≤
      loopSteps arguments state.parent := by
  induction schedule generalizing state with
  | nil =>
    cases run
    simp
  | cons action rest ih =>
    have before := sends_of_exec run sends
    obtain ⟨next, taken, following⟩ := Machine.exec_cons.mp run
    have later := ih following
    rcases step_cases taken with ⟨rfl, rfl⟩ | ⟨rfl, produced⟩ | ⟨c, consumed⟩
    · have other : (Action.writeback : Action arguments.N) ≠ .parent := nofun
      rw [List.count_cons_of_ne other]
      exact later
    · have closer := loopSteps_decreases produced before
      rw [List.count_cons_self]
      omega
    · have other : action ≠ .parent := by
        rintro rfl
        cases consumed
      rw [List.count_cons_of_ne other, ← consumed.frame.1]
      exact later

theorem loop_enabled (sends : state.parent.sends = true) :
    (step arguments state .parent).isSome := by
  simp only [step, parentStep]
  cases parent : state.parent with
  | batch num_of_data => simp only; split <;> rfl
  | copy num_of_data size j => simp only; split <;> rfl
  | kill num_of_data size i => simp only; split <;> rfl
  | terminate i | waitpid i | report | finished receivedMessage =>
    simp [parent, Parent.sends] at sends

theorem inside_of_reachable {log : List (List (Option Nat))} (logged : Logged arguments state log)
    (reached : (machine arguments).Reachable state) : Inside arguments state where
  copies := by
    intro num_of_data size j at_copy more
    have sending := sending_of_reachable reached
    have full := logged.full
    simp only [Sending, Full, at_copy] at sending full
    omega
  kills := by
    intro num_of_data size i at_kill
    have sending := sending_of_reachable reached
    have filled := filled_of_reachable reached
    have full := logged.full
    simp only [Sending, Filled, Full, Held, State.total, at_kill] at sending filled full
    obtain ⟨positive, inside, bound, -, -, advertised, -⟩ := sending
    refine ⟨full.1, inside, ?_⟩
    have last : (List.range num_of_data).drop (num_of_data - size) =
        (List.range size).map (num_of_data - size + ·) := by
      rw [List.range_eq_range', List.drop_range', Nat.sub_sub_self inside, Nat.mul_one, Nat.zero_add,
        List.range'_eq_map_range]
    rw [take_generator bound, last, List.map_map]
    refine List.map_congr_left fun k member => ?_
    rw [filled.2 k (by rw [advertised]; exact List.mem_range.mp member), advertised]
    rfl

/-- At a signal the size is not needed if all were sent and the next round has its own. -/
theorem ended_of_expendable {num_of_data size i : Nat}
    (at_kill : state.parent = .kill num_of_data size i)
    (expendable : state.expendable arguments = true) :
    arguments.N = 0 ∨ arguments.N ≤ i ∧ batch_size arguments num_of_data < arguments.B := by
  simpa [State.expendable, at_kill] using expendable

/-- A size that was zeroed is not needed any more. -/
theorem expendable_of_step {action : Action arguments.N} (zeroed : state.zeroed = true →
    state.expendable arguments = true) (admitted : harmless arguments state action = true)
    (taken : step arguments state action = some next) :
    next.zeroed = true → next.expendable arguments = true := by
  intro lost
  rcases step_cases taken with ⟨rfl, rfl⟩ | ⟨-, produced⟩ | ⟨c, consumed⟩
  · exact admitted
  · cases produced with
    | round num_of_data at_batch more =>
      -- Either this round stores its size, or it relies on the one that was there.
      by_cases smaller : batch_size arguments num_of_data < arguments.B
      · simp [smaller] at lost
      · have before : state.zeroed = true := by simpa [smaller] using lost
        simpa [State.expendable, at_batch, smaller] using zeroed before
    | copy num_of_data size j at_copy more =>
      simpa [State.expendable, at_copy] using zeroed lost
    | copied num_of_data size j at_copy done =>
      have nobody : arguments.N = 0 := by simpa [State.expendable, at_copy] using zeroed lost
      simp [State.expendable, nobody]
    -- A signal left to send would need the size, so there is nobody to send it to.
    | signal num_of_data size i bound at_kill =>
      have ended := ended_of_expendable at_kill (zeroed lost)
      omega
    | signalled num_of_data size i at_kill done =>
      have ended := ended_of_expendable at_kill (zeroed lost)
      simpa [State.expendable] using ended.imp_right And.right
    | done | terminate | terminated | reap | report => simp [State.expendable]
  · rw [consumed.zeroed] at lost
    have before := zeroed lost
    simpa only [State.expendable, consumed.frame.1] using before

theorem advertised_of_reachable
    (reached : ((machine arguments).guarded (harmless arguments)).Reachable state) :
    Advertised arguments state := by
  have zeroed : state.zeroed = true → state.expendable arguments = true := by
    induction reached with
    | start =>
      intro lost
      have stored : false = true := lost
      cases stored
    | step _ taken ih =>
      obtain ⟨admitted, stepped⟩ := Machine.guarded_step.mp taken
      exact expendable_of_step ih admitted stepped
  intro num_of_data size i at_kill signals
  have sending := sending_of_reachable reached.of_guarded
  simp only [Sending, at_kill] at sending
  obtain ⟨-, -, -, -, -, stored, -⟩ := sending
  have kept : ¬ state.zeroed = true := by
    intro lost
    have ended := ended_of_expendable at_kill (zeroed lost)
    omega
  rw [State.advertised, if_neg kept, stored]

/-- What every run of the program shows of the send loop. -/
structure Sent (arguments : Arguments) (schedule : List (Action arguments.N))
    (state : State arguments.N) : Prop where
  inside : Inside arguments state
  ends : Ends arguments state schedule
  so_far : Batched arguments state (batches arguments (start arguments) schedule)
  all : state.parent.sends = false →
    (batches arguments (start arguments) schedule).flatten = (generator arguments.M).map some ∧
      (batches arguments (start arguments) schedule).length = rounds arguments arguments.M

theorem sent_of_exec {schedule : List (Action arguments.N)}
    (run : (machine arguments).exec (start arguments) schedule = some state) :
    Sent arguments schedule state := by
  have begins : (machine arguments).Reachable (start arguments) := .start
  have reached := Machine.reachable_of_exec begins run
  have logged := logged_start.run begins run
  rw [List.nil_append] at logged
  refine ⟨inside_of_reachable logged reached, ⟨loop_enabled, fun sends => ?_⟩, logged.batched, ?_⟩
  · have count := count_le_loopSteps run sends
    have more : 0 < loopSteps arguments state.parent := by
      cases parent : state.parent with
      | batch num_of_data | copy num_of_data size j | kill num_of_data size i => simp [loopSteps]
      | terminate i | waitpid i | report | finished receivedMessage =>
        simp [parent, Parent.sends] at sends
    have bound : loopSteps arguments (start arguments).parent =
      arguments.M * (arguments.N + 4) + 1 := rfl
    omega
  · intro left
    have batched := logged.batched
    have total : state.total arguments = arguments.M := by
      cases parent : state.parent with
      | batch num_of_data | copy num_of_data size j | kill num_of_data size i =>
        simp [parent, Parent.sends] at left
      | terminate i | waitpid i | report | finished receivedMessage => simp [State.total, parent]
    rw [Batched, total, take_generator (Nat.le_refl _)] at batched
    exact batched

/-- The batches of all rounds are the messages in order, whatever the consumers do. The
size is advertised with every signal, as long as the page is not written back with a
size that is needed. -/
theorem sent_of_run {arguments : Arguments} {schedule : List (Action arguments.N)}
    {state : State arguments.N}
    (run : (machine arguments).exec (start arguments) schedule = some state) :
    Sent arguments schedule state ∧
      (((machine arguments).guarded (harmless arguments)).exec (start arguments) schedule =
        some state → Advertised arguments state) := by
  refine ⟨sent_of_exec run, fun admitted => ?_⟩
  have begins : ((machine arguments).guarded (harmless arguments)).Reachable (start arguments) :=
    .start
  exact advertised_of_reachable (Machine.reachable_of_exec begins admitted)

/-- A full batch for one consumer up to its signal, then a short one; the page is written
back before the short one is started. -/
def shortBatchRenews : List (Action 1) :=
  [.parent, .parent, .parent, .parent, .parent, .writeback, .parent, .parent, .parent, .parent]

theorem shortBatch_runs :
    (((machine threeMessages).guarded (harmless threeMessages)).exec (start threeMessages)
      shortBatchRenews).map (fun state => state.parent) = some (.kill 3 1 0) := by
  decide

/-- The second signal goes with the size of the short batch. -/
theorem sent_of_run_shortBatch :
    ∃ state : State 1, (machine threeMessages).exec (start threeMessages) shortBatchRenews =
        some state ∧
      state.parent = .kill 3 1 0 ∧ Sent threeMessages shortBatchRenews state ∧
      Advertised threeMessages state := by
  obtain ⟨state, admitted, parent⟩ := Option.map_eq_some_iff.mp shortBatch_runs
  have run := Machine.exec_of_guarded admitted
  obtain ⟨sent, advertised⟩ := sent_of_run run
  exact ⟨state, run, parent, sent, advertised admitted⟩

theorem writeback_runs :
    ((machine oneOfOne).exec (start oneOfOne) [.parent, .writeback, .parent, .parent]).map
      (fun state => (state.parent, state.advertised)) = some (.kill 1 1 0, 0) := by
  decide

/-- The page is written back while the only batch is copied: the signal goes with no size. -/
theorem size_not_advertised :
    ∃ state : State 1, (machine oneOfOne).Reachable state ∧ state.parent = .kill 1 1 0 ∧
      state.advertised = 0 ∧ ¬ Advertised oneOfOne state := by
  obtain ⟨state, reached, same⟩ := Machine.exists_reachable writeback_runs
  have at_kill : state.parent = .kill 1 1 0 := congrArg Prod.fst same
  have zero : state.advertised = 0 := congrArg Prod.snd same
  refine ⟨state, reached, at_kill, zero, fun advertised => ?_⟩
  have one := advertised 1 1 0 at_kill (by decide)
  rw [zero] at one
  cases one

end LinuxProgramming.ProducerConsumer
