import LinuxProgramming.ProducerConsumer.Delivery

/-! The reported number of messages, in the runs that the guard admits and outside them. -/

set_option autoImplicit false

namespace LinuxProgramming.ProducerConsumer
open Foundation

variable {arguments : Arguments} {state next : State arguments.N}

/-- The parent waits for one consumer after the other, and reports when all have exited. -/
def Reaped (state : State arguments.N) : Prop :=
  match state.parent with
  | .batch _ | .copy _ _ _ | .kill _ _ _ => True
  | .terminate i | .waitpid i => ∀ c, c.val < i → (state.consumer c).mode = .exited
  | .report => ∀ c, (state.consumer c).mode = .exited
  | .finished receivedMessage =>
    (∀ c, (state.consumer c).mode = .exited) ∧ receivedMessage = state.received

/-- An exited process takes no step. -/
theorem ConsumerStep.alive {N : Nat} {state next : State N} {c : Fin N} {action : Action N}
    (taken : ConsumerStep state c action next) : (state.consumer c).mode ≠ .exited := by
  intro exited
  cases taken with
  | deliverData mode alive pending outside entered => exact alive exited
  | deliverTerm mode alive pending outside => exact alive exited
  | read active => simp [exited, Mode.handler] at active
  | print num_batch i count more active => simp [exited, Mode.handler] at active
  | load num_batch i count done active => simp [exited, Mode.handler] at active
  | store count loaded active => simp [exited, Mode.handler] at active
  | exit blocked exiting => simp [exited] at exiting

theorem Reaped.produce (reaped : Reaped state) (taken : ParentStep arguments state next) :
    Reaped next := by
  unfold Reaped at reaped ⊢
  cases taken with
  | round | copy | copied | signal | signalled => trivial
  | done num_of_data at_batch done => exact fun c below => absurd below (Nat.not_lt_zero _)
  | terminate i bound at_terminate =>
    simp only [at_terminate] at reaped
    intro c below
    have different : c ≠ ⟨i, bound⟩ := fun same => by simp [same] at below
    simpa [different] using reaped c below
  | terminated i at_terminate done =>
    simp only [at_terminate] at reaped
    exact fun c => reaped c (by have := c.isLt; omega)
  | reap i bound at_wait exited =>
    simp only [at_wait] at reaped
    intro c below
    by_cases last : c.val = i
    · have same : c = ⟨i, bound⟩ := Fin.ext last
      rw [same]
      exact exited
    · exact reaped c (by omega)
  | report at_report =>
    simp only [at_report] at reaped
    exact ⟨reaped, rfl⟩

/-- The exited processes stay exited, whatever the others do. -/
theorem Reaped.consume (reaped : Reaped state) {c : Fin arguments.N} {action : Action arguments.N}
    (consumed : ConsumerStep state c action next) : Reaped next := by
  have parent := consumed.frame.1
  have survive : ∀ other, (state.consumer other).mode = .exited →
      (next.consumer other).mode = .exited := by
    intro other exited
    have different : other ≠ c := fun same => consumed.alive (same ▸ exited)
    rw [consumed.others different]
    exact exited
  unfold Reaped at reaped ⊢
  rw [parent]
  cases at_parent : state.parent with
  | batch | copy | kill => trivial
  | terminate i | waitpid i =>
    simp only [at_parent] at reaped
    exact fun other below => survive other (reaped other below)
  | report =>
    simp only [at_parent] at reaped
    exact fun other => survive other (reaped other)
  | finished receivedMessage =>
    simp only [at_parent] at reaped
    exact absurd (reaped.1 c) consumed.alive

theorem Reaped.step (reaped : Reaped state) {action : Action arguments.N}
    (taken : step arguments state action = some next) : Reaped next := by
  rcases step_cases taken with ⟨-, rfl⟩ | ⟨-, produced⟩ | ⟨c, consumed⟩
  · exact reaped
  · exact reaped.produce produced
  · exact reaped.consume consumed

theorem reaped_of_reachable (reached : (machine arguments).Reachable state) : Reaped state :=
  Machine.invariant (by trivial) (fun reaped taken => reaped.step taken) reached

/-- The print events of all consumers. -/
def State.prints {N : Nat} (state : State N) : Nat := ∑ c, (state.consumer c).printed.length

/-- Distinct messages below `M`, as many as there are. -/
theorem perm_generator {messages : List Nat} {data_num : Nat} (distinct : messages.Nodup)
    (below : ∀ message ∈ messages, message < data_num) :
    messages.length ≤ data_num ∧
      (messages.length = data_num → messages.Perm (generator data_num)) := by
  have within : messages.Subperm (generator data_num) :=
    List.subperm_of_subset distinct fun message member => List.mem_range.mpr (below message member)
  have sizes := within.length_le
  simp only [generator, List.length_range] at sizes
  refine ⟨sizes, fun all => within.perm_of_length_le ?_⟩
  simp [generator, all]

/-- What the program claims about its report: the counter is the number of
print events, and a full counter means that every consumer printed every
message once. -/
def ReportsExactly (arguments : Arguments) (state : State arguments.N) : Prop :=
  ∀ receivedMessage, state.parent = .finished receivedMessage →
    receivedMessage = state.prints ∧
    (receivedMessage = (arguments.M * arguments.N : Nat) →
      ∀ c, (state.consumer c).printed.Perm ((generator arguments.M).map some))

/-- What a consumer has printed once the parent has reported. -/
theorem finished_messages
    (reached : ((machine arguments).guarded (preserves arguments)).Reachable state)
    {receivedMessage : Int} (finished : state.parent = .finished receivedMessage)
    (c : Fin arguments.N) :
    ∃ messages : List Nat, (state.consumer c).printed = messages.map some ∧ messages.Nodup ∧
      ∀ message ∈ messages, message < arguments.M := by
  have follows := delivered_of_reachable reached c
  have bound := follows.limit_le (filled_of_reachable reached.of_guarded)
  have announced_all : announced arguments state c = arguments.M := by
    simp [announced, State.total, finished]
  obtain ⟨messages, same, distinct, below⟩ := follows.printed
  exact ⟨messages, same, distinct, fun message member =>
    Nat.lt_of_lt_of_le (below message member) (announced_all ▸ bound)⟩

/-- Every print has been counted once when the parent reports. -/
theorem report_counted (small : arguments.M * arguments.N < 2 ^ 31)
    (reached : ((machine arguments).guarded counts).Reachable state) {receivedMessage : Int}
    (finished : state.parent = .finished receivedMessage) : receivedMessage = state.prints := by
  have counted := counted_of_reachable small reached
  have reaped := reaped_of_reachable reached.of_guarded
  simp only [Reaped, finished] at reaped
  obtain ⟨exited, reported⟩ := reaped
  have settled : ∑ c, (state.consumer c).unpaid = 0 := by
    apply Finset.sum_eq_zero
    intro c _
    exact unpaid_of_none (by simp [exited c, Mode.handler])
  have received := counted.received
  have prints := counted.prints
  simp only [State.prints]
  omega

/-- Each consumer prints at most M messages, so a full report leaves none of them short. -/
theorem report_full (reached : ((machine arguments).guarded (preserves arguments)).Reachable state)
    {receivedMessage : Int} (finished : state.parent = .finished receivedMessage)
    (all : state.prints = arguments.M * arguments.N) (c : Fin arguments.N) :
    (state.consumer c).printed.Perm ((generator arguments.M).map some) := by
  have each : ∀ other, (state.consumer other).printed.length ≤ arguments.M := by
    intro other
    obtain ⟨messages, same, distinct, below⟩ := finished_messages reached finished other
    rw [same, List.length_map]
    exact (perm_generator distinct below).1
  have sum : ∑ other, (state.consumer other).printed.length = ∑ _ : Fin arguments.N, arguments.M := by
    simp only [State.prints] at all
    simp only [all, Finset.sum_const, Finset.card_univ, Fintype.card_fin, smul_eq_mul]
    exact Nat.mul_comm _ _
  have tight := (Finset.sum_eq_sum_iff_of_le fun other _ => each other).mp sum c (Finset.mem_univ c)
  obtain ⟨messages, same, distinct, below⟩ := finished_messages reached finished c
  rw [same, List.length_map] at tight
  rw [same]
  exact ((perm_generator distinct below).2 tight).map some

theorem counts_of_admits (state : State arguments.N) (action : Action arguments.N)
    (admitted : admits arguments state action = true) : counts state action = true :=
  (Bool.and_eq_true_iff.mp admitted).1

theorem preserves_of_admits (state : State arguments.N) (action : Action arguments.N)
    (admitted : admits arguments state action = true) : preserves arguments state action = true :=
  (Bool.and_eq_true_iff.mp admitted).2

/-- In every run whose steps all let the counter count, it counts the prints; where they
all preserve the buffer as well, the whole report is exact. -/
theorem report_exact (small : arguments.M * arguments.N < 2 ^ 31) :
    (((machine arguments).guarded counts).Reachable state →
      ∀ receivedMessage, state.parent = .finished receivedMessage →
        receivedMessage = state.prints) ∧
    (((machine arguments).guarded (admits arguments)).Reachable state →
      ReportsExactly arguments state) := by
  refine ⟨fun reached _ finished => report_counted small reached finished,
    fun reached receivedMessage finished => ?_⟩
  have total := report_counted small (reached.admitted counts_of_admits) finished
  refine ⟨total, fun full c => ?_⟩
  have all : state.prints = arguments.M * arguments.N := by omega
  exact report_full (reached.admitted preserves_of_admits) finished all c

/-- One message for two consumers. -/
def oneMessage : Arguments := ⟨1, 2, 1, by decide⟩

/-- The parent's steps up to the end of the only round. -/
def sendOnce : List (Action 2) := [.parent, .parent, .parent, .parent, .parent, .parent]

/-- The parent's steps from there on, with each consumer ended at once. -/
def reapBoth : List (Action 2) :=
  [.parent, .parent, .deliverTerm 0, .exit 0, .parent, .parent, .deliverTerm 1, .exit 1,
    .parent, .parent, .parent]

/-- Both handlers load the counter before either of them stores it. -/
def overlapping : List (Action 2) :=
  [.deliverData 0, .deliverData 1, .handler 0, .handler 1, .handler 0, .handler 1,
    .handler 0, .handler 1, .handler 0, .handler 1]

/-- One handler after the other. -/
def separate : List (Action 2) :=
  [.deliverData 0, .handler 0, .handler 0, .handler 0, .handler 0,
    .deliverData 1, .handler 1, .handler 1, .handler 1, .handler 1]

theorem separate_runs :
    (((machine oneMessage).guarded (admits oneMessage)).exec (start oneMessage)
      (sendOnce ++ separate ++ reapBoth)).map (fun state => state.parent) = some (.finished 2) := by
  decide

/-- The exact report of that run: both consumers have printed the message. -/
theorem report_exact_separate :
    ∃ state : State 2, ((machine oneMessage).guarded (admits oneMessage)).Reachable state ∧
      state.parent = .finished 2 ∧ (2 : Int) = state.prints ∧
      ∀ c, (state.consumer c).printed.Perm ((generator 1).map some) := by
  obtain ⟨state, reached, finished⟩ := Machine.exists_reachable separate_runs
  obtain ⟨total, once⟩ := (report_exact (by decide)).2 reached 2 finished
  exact ⟨state, reached, finished, total, once (by decide)⟩

theorem overlapping_runs :
    ((machine oneMessage).exec (start oneMessage) (sendOnce ++ overlapping ++ reapBoth)).map
      (fun state => (state.parent, state.prints)) = some (.finished 1, 2) := by
  decide

/-- Not every run reports exactly: two prints, of which one update is lost. -/
theorem report_not_exact :
    ¬ ∀ (arguments : Arguments) (state : State arguments.N), 0 < arguments.N →
      (machine arguments).Reachable state → ReportsExactly arguments state := by
  intro always
  obtain ⟨state, reached, same⟩ := Machine.exists_reachable overlapping_runs
  have finished : state.parent = .finished 1 := congrArg Prod.fst same
  have prints : state.prints = 2 := congrArg Prod.snd same
  have total := (always oneMessage state (by decide) reached 1 finished).1
  rw [prints] at total
  exact absurd total (by decide)

end LinuxProgramming.ProducerConsumer
