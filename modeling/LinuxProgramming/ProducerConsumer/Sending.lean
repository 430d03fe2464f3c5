import LinuxProgramming.ProducerConsumer.Program
import Mathlib.Tactic.Ring

/-! What the parent alone determines: the batch sizes and the signals sent.

No step of a consumer touches the parent, the advertised batch size, the buffer
or the list of sent signals, so these facts hold under every schedule.
-/

set_option autoImplicit false

namespace LinuxProgramming.ProducerConsumer
open Foundation

variable {arguments : Arguments} {state next : State arguments.N}

@[simp] theorem setConsumer_received {N : Nat} (state : State N) (c : Fin N) (consumer : Consumer) :
    (state.setConsumer c consumer).received = state.received := rfl
@[simp] theorem setConsumer_batch {N : Nat} (state : State N) (c : Fin N) (consumer : Consumer) :
    (state.setConsumer c consumer).batch = state.batch := rfl
@[simp] theorem setConsumer_zeroed {N : Nat} (state : State N) (c : Fin N) (consumer : Consumer) :
    (state.setConsumer c consumer).zeroed = state.zeroed := rfl
@[simp] theorem setConsumer_addr {N : Nat} (state : State N) (c : Fin N) (consumer : Consumer) :
    (state.setConsumer c consumer).addr = state.addr := rfl
@[simp] theorem setConsumer_sent {N : Nat} (state : State N) (c : Fin N) (consumer : Consumer) :
    (state.setConsumer c consumer).sent = state.sent := rfl
@[simp] theorem setConsumer_stored {N : Nat} (state : State N) (c : Fin N) (consumer : Consumer) :
    (state.setConsumer c consumer).stored = state.stored := rfl
@[simp] theorem setConsumer_consumer {N : Nat} (state : State N) (c : Fin N) (consumer : Consumer) :
    (state.setConsumer c consumer).consumer = Function.update state.consumer c consumer := rfl

/-- The size that a handler reads, zeroed or not. -/
theorem advertised_le {N : Nat} (state : State N) : state.advertised ≤ state.batch := by
  unfold State.advertised
  split
  · exact Nat.zero_le _
  · exact Nat.le_refl _

/-- What a handler reads is not zero unless it is what was stored. -/
theorem advertised_of_pos {N : Nat} {state : State N} (some_data : 0 < state.advertised) :
    state.advertised = state.batch := by
  by_cases zeroed : state.zeroed = true
  · rw [State.advertised, if_pos zeroed] at some_data
    exact absurd some_data (Nat.lt_irrefl 0)
  · exact if_neg zeroed

/-- Everything that the process of consumer `c` can do in one step. -/
inductive ConsumerStep {N : Nat} (state : State N) (c : Fin N) : Action N → State N → Prop where
  | deliverData (mode : Mode) : (state.consumer c).mode ≠ .exited →
      (state.consumer c).usr1 = true → (state.consumer c).mode.handler = none → mode.handler = some .entered →
      ConsumerStep state c (.deliverData c)
        (state.setConsumer c { state.consumer c with usr1 := false, mode := mode })
  | deliverTerm (mode : Mode) : (state.consumer c).mode ≠ .exited →
      (state.consumer c).term = true → mode.handler = none →
      ConsumerStep state c (.deliverTerm c)
        (state.setConsumer c { state.consumer c with term := false, mode := mode })
  | read : (state.consumer c).mode.handler = some .entered →
      ConsumerStep state c (.handler c) (state.setConsumer c { state.consumer c with
        mode := (state.consumer c).mode.resume (some (.printing state.advertised 0 0)) })
  | print (num_batch i count : Nat) : i < num_batch →
      (state.consumer c).mode.handler = some (.printing num_batch i count) →
      ConsumerStep state c (.handler c) (state.setConsumer c { state.consumer c with
        printed := (state.consumer c).printed ++ [state.addr i]
        mode := (state.consumer c).mode.resume (some (.printing num_batch (i + 1) (count + 1))) })
  | load (num_batch i count : Nat) : ¬ i < num_batch →
      (state.consumer c).mode.handler = some (.printing num_batch i count) →
      ConsumerStep state c (.handler c) (state.setConsumer c { state.consumer c with
        mode := (state.consumer c).mode.resume (some (.storing count state.received)) })
  | store (count : Nat) (loaded : Int) :
      (state.consumer c).mode.handler = some (.storing count loaded) →
      ConsumerStep state c (.handler c) { state.setConsumer c { state.consumer c with
          mode := (state.consumer c).mode.resume none } with
        received := int (loaded + count), stored := state.stored + count }
  | exit (blocked : Bool) : (state.consumer c).mode = .exiting blocked →
      ConsumerStep state c (.exit c) (state.setConsumer c { state.consumer c with mode := .exited })

/-- Everything that the parent can do in one step. -/
inductive ParentStep (arguments : Arguments) (state : State arguments.N) :
    State arguments.N → Prop where
  | round (num_of_data : Nat) : state.parent = .batch num_of_data → num_of_data < arguments.M →
      ParentStep arguments state { state with
        batch := if batch_size arguments num_of_data < arguments.B
          then batch_size arguments num_of_data else state.batch
        zeroed := if batch_size arguments num_of_data < arguments.B then false else state.zeroed
        parent := .copy num_of_data (batch_size arguments num_of_data) 0 }
  | done (num_of_data : Nat) : state.parent = .batch num_of_data → ¬num_of_data < arguments.M →
      ParentStep arguments state { state with parent := .terminate 0 }
  | copy (num_of_data size j : Nat) : state.parent = .copy num_of_data size j → j < size →
      ParentStep arguments state { state with
        addr := Function.update state.addr j (generator arguments.M)[num_of_data + j]?
        parent := .copy num_of_data size (j + 1) }
  | copied (num_of_data size j : Nat) : state.parent = .copy num_of_data size j → ¬j < size →
      ParentStep arguments state { state with parent := .kill (num_of_data + size) size 0 }
  | signal (num_of_data size i : Nat) (bound : i < arguments.N) :
      state.parent = .kill num_of_data size i →
      ParentStep arguments state { state.setConsumer ⟨i, bound⟩
          { state.consumer ⟨i, bound⟩ with usr1 := true } with
        sent := state.sent ++ [size], parent := .kill num_of_data size (i + 1) }
  | signalled (num_of_data size i : Nat) : state.parent = .kill num_of_data size i →
      ¬i < arguments.N → ParentStep arguments state { state with parent := .batch num_of_data }
  | terminate (i : Nat) (bound : i < arguments.N) : state.parent = .terminate i →
      ParentStep arguments state { state.setConsumer ⟨i, bound⟩
          { state.consumer ⟨i, bound⟩ with term := true } with
        parent := .waitpid i }
  | terminated (i : Nat) : state.parent = .terminate i → ¬i < arguments.N →
      ParentStep arguments state { state with parent := .report }
  | reap (i : Nat) (bound : i < arguments.N) : state.parent = .waitpid i →
      (state.consumer ⟨i, bound⟩).mode = .exited →
      ParentStep arguments state { state with parent := .terminate (i + 1) }
  | report : state.parent = .report →
      ParentStep arguments state { state with parent := .finished state.received }

theorem parentStep_cases (taken : parentStep arguments state = some next) :
    ParentStep arguments state next := by
  simp only [parentStep] at taken
  split at taken
  next num_of_data at_batch =>
    split at taken <;> cases taken
    · exact .round num_of_data at_batch ‹_›
    · exact .done num_of_data at_batch ‹_›
  next num_of_data size j at_copy =>
    split at taken <;> cases taken
    · exact .copy num_of_data size j at_copy ‹_›
    · exact .copied num_of_data size j at_copy ‹_›
  next num_of_data size i at_kill =>
    split at taken <;> cases taken
    · exact .signal num_of_data size i ‹_› at_kill
    · exact .signalled num_of_data size i at_kill ‹_›
  next i at_terminate =>
    split at taken <;> cases taken
    · exact .terminate i ‹_› at_terminate
    · exact .terminated i at_terminate ‹_›
  next i at_wait =>
    split at taken
    next bound =>
      split at taken <;> cases taken
      exact .reap i bound at_wait ‹_›
    next => cases taken
  next at_report =>
    cases taken
    exact .report at_report
  next => cases taken

@[simp] theorem handler_resume {mode : Mode} {handler : Handler} (next : Option Handler)
    (active : mode.handler = some handler) : (mode.resume next).handler = next := by
  cases mode <;> cases next <;> simp_all [Mode.handler, Mode.resume]

/-- A step is the system's, the parent's or a consumer's, with the guards of its case. -/
theorem step_cases {action : Action arguments.N}
    (taken : step arguments state action = some next) :
    (action = .writeback ∧ next = { state with zeroed := true }) ∨
      (action = .parent ∧ ParentStep arguments state next) ∨
        ∃ c, ConsumerStep state c action next := by
  cases action with
  | parent => exact .inr (.inl ⟨rfl, parentStep_cases taken⟩)
  | writeback =>
    cases taken
    exact .inl ⟨rfl, rfl⟩
  | deliverData c =>
    simp only [step] at taken
    split at taken
    next pending =>
      split at taken
      next running =>
        cases taken
        exact .inr (.inr ⟨c, .deliverData _ (by simp [running]) pending (by simp [running, Mode.handler]) rfl⟩)
      next exiting =>
        cases taken
        exact .inr (.inr ⟨c, .deliverData _ (by simp [exiting]) pending (by simp [exiting, Mode.handler]) rfl⟩)
      next => cases taken
    next => cases taken
  | deliverTerm c =>
    simp only [step] at taken
    split at taken
    next pending =>
      split at taken
      next running =>
        cases taken
        exact .inr (.inr ⟨c, .deliverTerm _ (by simp [running]) pending rfl⟩)
      next handling =>
        cases taken
        exact .inr (.inr ⟨c, .deliverTerm _ (by simp [handling]) pending rfl⟩)
      next => cases taken
    next => cases taken
  | handler c =>
    simp only [step] at taken
    split at taken
    next handler active =>
      cases taken
      cases handler with
      | entered => exact .inr (.inr ⟨c, .read active⟩)
      | printing num_batch i count =>
        simp only [sig_handler_data]
        split
        next more => exact .inr (.inr ⟨c, .print num_batch i count more active⟩)
        next done => exact .inr (.inr ⟨c, .load num_batch i count done active⟩)
      | storing count loaded => exact .inr (.inr ⟨c, .store count loaded active⟩)
    next => cases taken
  | exit c =>
    simp only [step] at taken
    split at taken
    next blocked exiting =>
      cases taken
      exact .inr (.inr ⟨c, .exit blocked exiting⟩)
    next => cases taken

/-- A consumer leaves the parent and the parent's data alone. -/
theorem ConsumerStep.frame {N : Nat} {state next : State N} {c : Fin N} {action : Action N}
    (taken : ConsumerStep state c action next) :
    next.parent = state.parent ∧ next.batch = state.batch ∧ next.addr = state.addr ∧
      next.sent = state.sent := by
  cases taken <;> exact ⟨rfl, rfl, rfl, rfl⟩

theorem ConsumerStep.zeroed {N : Nat} {state next : State N} {c : Fin N} {action : Action N}
    (taken : ConsumerStep state c action next) : next.zeroed = state.zeroed := by
  cases taken <;> rfl

/-- The parent's progress: how much of the data the rounds before have sent and
how large the advertised batch is. Only the last batch can be smaller than the
buffer, so the advertised size never grows. -/
def Sending (arguments : Arguments) (state : State arguments.N) : Prop :=
  match state.parent with
  | .batch num_of_data =>
    num_of_data ≤ arguments.M ∧ (num_of_data < arguments.M → state.batch = arguments.B) ∧
      state.sent.sum = arguments.N * num_of_data
  | .copy num_of_data size j =>
    0 < size ∧ num_of_data + size ≤ arguments.M ∧
      (num_of_data + size < arguments.M → size = arguments.B) ∧ j ≤ size ∧ state.batch = size ∧
      state.sent.sum = arguments.N * num_of_data
  | .kill num_of_data size i =>
    0 < size ∧ size ≤ num_of_data ∧ num_of_data ≤ arguments.M ∧
      (num_of_data < arguments.M → size = arguments.B) ∧ i ≤ arguments.N ∧ state.batch = size ∧
      state.sent.sum = arguments.N * (num_of_data - size) + i * size
  | .terminate _ | .waitpid _ | .report | .finished _ =>
    state.sent.sum = arguments.N * arguments.M

theorem batch_size_le (arguments : Arguments) (num_of_data : Nat) :
    batch_size arguments num_of_data ≤ arguments.B ∧
      batch_size arguments num_of_data ≤ arguments.M - num_of_data := by
  unfold batch_size
  split <;> omega

theorem batch_size_pos (arguments : Arguments) (num_of_data : Nat)
    (more : num_of_data < arguments.M) : 0 < batch_size arguments num_of_data := by
  have := arguments.buffer
  unfold batch_size
  split <;> omega

theorem batch_size_eq (arguments : Arguments) (num_of_data : Nat)
    (more : num_of_data + batch_size arguments num_of_data < arguments.M) :
    batch_size arguments num_of_data = arguments.B := by
  unfold batch_size at more ⊢
  split <;> split at more <;> omega

theorem sending_start : Sending arguments (start arguments) := by
  simp [Sending, start]

theorem Sending.produce (sending : Sending arguments state) (taken : ParentStep arguments state next) :
    Sending arguments next := by
  unfold Sending at sending ⊢
  cases taken with
  | round num_of_data at_batch more =>
    simp only [at_batch] at sending
    obtain ⟨bound, full, total⟩ := sending
    have sizes := batch_size_le arguments num_of_data
    refine ⟨batch_size_pos arguments num_of_data more, by omega,
      batch_size_eq arguments num_of_data, Nat.zero_le _, ?_, total⟩
    dsimp only
    split
    · rfl
    · have := full more
      omega
  | done num_of_data at_batch done =>
    simp only [at_batch] at sending
    obtain ⟨bound, full, total⟩ := sending
    have all : num_of_data = arguments.M := by omega
    rw [all] at total
    exact total
  | copy num_of_data size j at_copy more =>
    simp only [at_copy] at sending
    obtain ⟨positive, bound, full, position, advertised, total⟩ := sending
    exact ⟨positive, bound, full, more, advertised, total⟩
  | copied num_of_data size j at_copy done =>
    simp only [at_copy] at sending
    obtain ⟨positive, bound, full, position, advertised, total⟩ := sending
    refine ⟨positive, by omega, bound, full, Nat.zero_le _, advertised, ?_⟩
    simpa using total
  | signal num_of_data size i more at_kill =>
    simp only [at_kill] at sending
    obtain ⟨positive, inside, bound, full, position, advertised, total⟩ := sending
    refine ⟨positive, inside, bound, full, more, advertised, ?_⟩
    simp only [List.sum_append, List.sum_cons, List.sum_nil, total]
    ring
  | signalled num_of_data size i at_kill done =>
    simp only [at_kill] at sending
    obtain ⟨positive, inside, bound, full, position, advertised, total⟩ := sending
    have all : i = arguments.N := by omega
    refine ⟨bound, fun more => ?_, ?_⟩
    · rw [← full more]
      exact advertised
    · rw [total, all, ← Nat.mul_add, Nat.sub_add_cancel inside]
  | terminate i bound at_terminate => simpa only [at_terminate, setConsumer_sent] using sending
  | terminated i at_terminate done => simpa only [at_terminate] using sending
  | reap i bound at_wait exited => simpa only [at_wait] using sending
  | report at_report => simpa only [at_report] using sending

theorem Sending.step (sending : Sending arguments state) {action : Action arguments.N}
    (taken : step arguments state action = some next) : Sending arguments next := by
  rcases step_cases taken with ⟨-, rfl⟩ | ⟨-, produced⟩ | ⟨c, consumed⟩
  · exact sending
  · exact sending.produce produced
  · obtain ⟨parent, batch, -, sent⟩ := consumed.frame
    simpa only [Sending, parent, batch, sent] using sending

theorem sending_of_reachable (reached : (machine arguments).Reachable state) :
    Sending arguments state :=
  Machine.invariant sending_start (fun sending taken => sending.step taken) reached

/-- The signals sent so far were sent for at most `M` messages to each of `N` consumers. -/
theorem Sending.sent_le (sending : Sending arguments state) :
    state.sent.sum ≤ arguments.M * arguments.N := by
  unfold Sending at sending
  rw [Nat.mul_comm]
  split at sending
  · obtain ⟨bound, -, total⟩ := sending
    rw [total]
    exact Nat.mul_le_mul_left _ bound
  · obtain ⟨-, bound, -, -, -, total⟩ := sending
    rw [total]
    exact Nat.mul_le_mul_left _ (by omega)
  · obtain ⟨-, inside, bound, -, position, -, total⟩ := sending
    rename_i num_of_data size i _
    calc state.sent.sum
        = arguments.N * (num_of_data - size) + i * size := total
      _ ≤ arguments.N * (num_of_data - size) + arguments.N * size :=
        Nat.add_le_add_left (Nat.mul_le_mul_right _ position) _
      _ = arguments.N * num_of_data := by rw [← Nat.mul_add, Nat.sub_add_cancel inside]
      _ ≤ arguments.N * arguments.M := Nat.mul_le_mul_left _ bound
  all_goals exact sending.le

end LinuxProgramming.ProducerConsumer
