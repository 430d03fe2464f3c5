import LinuxProgramming.BlockTransfer.Program

/-! What reaches standard output is a beginning of what standard input had.

The invariant follows the turn: the writer has it, it is on its way to the reader,
the reader has it, or it is on its way back. A program that ends early takes the
turn with it.
-/

set_option autoImplicit false

namespace LinuxProgramming.BlockTransfer
open Foundation

/-- The reader is not in the segment: it has not begun, or waits for its turn. -/
def Reader.Outside (reader : Reader) : Prop :=
  reader = .semget ∨ reader = .shmget ∨ reader = .reserve ∨ reader = .failed

/-- The reader has its turn. It is given back with `releaseSem`. -/
def Reader.turn : Reader → Bool
  | .test | .add | .write | .release | .detach | .finish => true
  | _ => false

/-- The writer has its turn, the last one apart. -/
def Writer.turn : Writer → Bool
  | .read | .store _ | .release => true
  | _ => false

/-- The reader looks at the segment; it has mapped it for reading only. -/
def Reader.inside : Reader → Bool
  | .test | .add | .write => true
  | _ => false

/-- The writer stores to the segment. -/
def Writer.stores : Writer → Bool
  | .read | .store _ => true
  | _ => false

/-- The writer looks at the segment or stores to it, in its turn and behind it. -/
def Writer.inside : Writer → Bool
  | .read | .store _ | .test | .add => true
  | _ => false

/-- The writer removes the set and the segment. -/
def Writer.removes : Writer → Bool
  | .removeSet | .removeSegment | .exited => true
  | _ => false

/-- The writer has given its turn away, and may still look at `cnt`. -/
inductive Behind (writer : Writer) (cnt : Int) : Prop where
  | test : writer = .test → Behind writer cnt
  | more : writer = .add ∨ writer = .reserve → cnt ≠ 0 → Behind writer cnt
  | finish : writer = .finish → cnt = 0 → Behind writer cnt
  | failed : writer = .failed → Behind writer cnt

/-- The writer goes on to its next block, and the reader is through with the last one. -/
inductive Resuming (writer : Writer) (cnt : Int) : Prop where
  | more : writer = .test ∨ writer = .add → cnt ≠ 0 → Resuming writer cnt
  | reserve : writer = .reserve → Resuming writer cnt
  | failed : writer = .failed → Resuming writer cnt

/-- The bytes on their way are the block in the segment, and an empty block is the last. -/
structure Block (shmp : Shmseg) (remaining transit : List Byte) : Prop where
  bytes : transit = shmp.buf.bytes.take shmp.cnt.toNat
  least : 0 ≤ shmp.cnt
  most : shmp.cnt ≤ BUF_SIZE
  last : shmp.cnt = 0 → remaining = []

/-- The writer inside its turn. -/
inductive Filling (writer : Writer) (shmp : Shmseg) (remaining transit : List Byte) : Prop where
  | read : writer = .read → transit = [] → Filling writer shmp remaining transit
  | store (count : Nat) : writer = .store count → transit = shmp.buf.bytes.take count →
      count ≤ BUF_SIZE → (count = 0 → remaining = []) → Filling writer shmp remaining transit
  | release : writer = .release → Block shmp remaining transit →
      Filling writer shmp remaining transit
  | failed : writer = .failed → Filling writer shmp remaining transit

/-- The reader inside its turn. -/
inductive Draining (reader : Reader) (shmp : Shmseg) (remaining transit : List Byte) : Prop where
  | test : reader = .test → Block shmp remaining transit → Draining reader shmp remaining transit
  | use : reader = .add ∨ reader = .write → shmp.cnt ≠ 0 → Block shmp remaining transit →
      Draining reader shmp remaining transit
  | release : reader = .release → shmp.cnt ≠ 0 → transit = [] →
      Draining reader shmp remaining transit
  | leave : reader = .detach ∨ reader = .finish → shmp.cnt = 0 → transit = [] → remaining = [] →
      Draining reader shmp remaining transit
  | failed : reader = .failed → Draining reader shmp remaining transit

/-- The writer behind the last turn, which the reader has given back. -/
inductive Cleaning (writer : Writer) (semaphores : Option Semaphores) (segment : Bool) : Prop where
  | removeSet : writer = .removeSet → semaphores.isSome = true → Cleaning writer semaphores segment
  | removeSegment : writer = .removeSegment → semaphores = none →
      Cleaning writer semaphores segment
  | exited : writer = .exited → semaphores = none → segment = false →
      Cleaning writer semaphores segment
  | failed : writer = .failed → Cleaning writer semaphores segment

/-- How far the writer is before there is a segment. -/
inductive Preparing (writer : Writer) (semaphores : Option Semaphores) : Prop where
  | semget : writer = .semget → Preparing writer semaphores
  | initSemAvailable : writer = .initSemAvailable → semaphores.isSome = true →
      Preparing writer semaphores
  | initSemInUse (read : Nat) : writer = .initSemInUse → semaphores = some ⟨1, read⟩ →
      Preparing writer semaphores
  | shmget : writer = .shmget → semaphores = some ⟨1, 0⟩ → Preparing writer semaphores
  | failed : writer = .failed → Preparing writer semaphores

/-- Where the turn is, and what is on its way with it. -/
inductive Kept (input : Input) (state : State) : Prop where
  | preparing : state.segment = false →
      state.reader = .semget ∨ state.reader = .shmget ∨ state.reader = .failed →
      Preparing state.writer state.semaphores → state.shmp.cnt = 0 →
      state.output = [] → state.remaining = input.content → Kept input state
  | filling (transit : List Byte) : state.segment = true → state.semaphores = some ⟨0, 0⟩ →
      state.reader.Outside → Filling state.writer state.shmp state.remaining transit →
      state.output ++ transit ++ state.remaining = input.content → Kept input state
  | given (transit : List Byte) : state.segment = true → state.semaphores = some ⟨0, 1⟩ →
      state.reader.Outside → Behind state.writer state.shmp.cnt →
      Block state.shmp state.remaining transit →
      state.output ++ transit ++ state.remaining = input.content → Kept input state
  | draining (transit : List Byte) : state.segment = true → state.semaphores = some ⟨0, 0⟩ →
      Behind state.writer state.shmp.cnt →
      Draining state.reader state.shmp state.remaining transit →
      state.output ++ transit ++ state.remaining = input.content → Kept input state
  | returned : state.segment = true → state.semaphores = some ⟨1, 0⟩ → state.reader.Outside →
      Resuming state.writer state.shmp.cnt →
      state.output ++ state.remaining = input.content → Kept input state
  | ended : state.segment = true → state.semaphores = some ⟨1, 0⟩ → state.reader = .exited →
      Behind state.writer state.shmp.cnt → state.shmp.cnt = 0 → state.remaining = [] →
      state.output = input.content → Kept input state
  | cleaning : state.reader = .exited → Cleaning state.writer state.semaphores state.segment →
      state.remaining = [] → state.output = input.content → Kept input state

variable {input : Input} {state next : State} {transit : List Byte}

/-- A signal that arrives while a program blocks is not seen by either of them. -/
theorem Kept.signals (kept : Kept input state) (signals : Nat) :
    Kept input { state with signals := signals } := by
  cases kept with
  | preparing segment early preparing zero silent unread =>
    exact .preparing segment early preparing zero silent unread
  | filling transit segment values outside filling whole =>
    exact .filling transit segment values outside filling whole
  | given transit segment values outside behind block whole =>
    exact .given transit segment values outside behind block whole
  | draining transit segment values behind draining whole =>
    exact .draining transit segment values behind draining whole
  | returned segment values outside resuming whole =>
    exact .returned segment values outside resuming whole
  | ended segment values exited behind zero last whole =>
    exact .ended segment values exited behind zero last whole
  | cleaning exited cleaning last whole => exact .cleaning exited cleaning last whole

/-- A writer that ends takes its turn with it, if it has it. Its `cnt` changes only
inside its turn. -/
theorem Kept.writerFails (kept : Kept input state) {cnt : Int}
    (same : state.writer ≠ .read → cnt = state.shmp.cnt) :
    Kept input { state with writer := .failed, shmp := { state.shmp with cnt := cnt } } := by
  have unread : Behind state.writer state.shmp.cnt → cnt = state.shmp.cnt := by
    intro behind
    apply same
    intro read
    cases behind <;> simp_all
  cases kept with
  | preparing segment early preparing zero silent unread =>
    have kept : cnt = state.shmp.cnt := by
      apply same
      intro read
      cases preparing <;> simp_all
    exact .preparing segment early (.failed rfl) (kept.trans zero) silent unread
  | filling transit segment values outside filling whole =>
    exact .filling transit segment values outside (.failed rfl) whole
  | given transit segment values outside behind block whole =>
    obtain rfl := unread behind
    exact .given transit segment values outside (.failed rfl) block whole
  | draining transit segment values behind draining whole =>
    obtain rfl := unread behind
    exact .draining transit segment values (.failed rfl) draining whole
  | returned segment values outside resuming whole =>
    exact .returned segment values outside (.failed rfl) whole
  | ended segment values exited behind zero last whole =>
    obtain rfl := unread behind
    exact .ended segment values exited (.failed rfl) zero last whole
  | cleaning exited cleaning last whole => exact .cleaning exited (.failed rfl) last whole

/-- A reader that ends takes its turn with it, if it has it. -/
theorem Kept.readerFails (kept : Kept input state) (running : state.reader ≠ .exited) :
    Kept input { state with reader := .failed } := by
  cases kept with
  | preparing segment early preparing zero silent unread =>
    exact .preparing segment (.inr (.inr rfl)) preparing zero silent unread
  | filling transit segment values outside filling whole =>
    exact .filling transit segment values (.inr (.inr (.inr rfl))) filling whole
  | given transit segment values outside behind block whole =>
    exact .given transit segment values (.inr (.inr (.inr rfl))) behind block whole
  | draining transit segment values behind draining whole =>
    exact .draining transit segment values behind (.failed rfl) whole
  | returned segment values outside resuming whole =>
    exact .returned segment values (.inr (.inr (.inr rfl))) resuming whole
  | ended segment values exited => exact absurd exited running
  | cleaning exited => exact absurd exited running

theorem Reader.Outside.no_turn {reader : Reader} (outside : reader.Outside) :
    reader.turn = false := by
  rcases outside with rfl | rfl | rfl | rfl <;> rfl

theorem Behind.no_turn {writer : Writer} {cnt : Int} (behind : Behind writer cnt) :
    writer.turn = false := by
  cases behind with
  | test place => rw [place]; rfl
  | more place _ => rcases place with rfl | rfl <;> rfl
  | finish place _ => rw [place]; rfl
  | failed place => rw [place]; rfl

theorem Behind.not_removes {writer : Writer} {cnt : Int} (behind : Behind writer cnt) :
    writer.removes = false := by
  cases behind with
  | test place => rw [place]; rfl
  | more place _ => rcases place with rfl | rfl <;> rfl
  | finish place _ => rw [place]; rfl
  | failed place => rw [place]; rfl

theorem Resuming.no_turn {writer : Writer} {cnt : Int} (resuming : Resuming writer cnt) :
    writer.turn = false := by
  cases resuming with
  | more place _ => rcases place with rfl | rfl <;> rfl
  | reserve place => rw [place]; rfl
  | failed place => rw [place]; rfl

theorem Resuming.not_removes {writer : Writer} {cnt : Int} (resuming : Resuming writer cnt) :
    writer.removes = false := by
  cases resuming with
  | more place _ => rcases place with rfl | rfl <;> rfl
  | reserve place => rw [place]; rfl
  | failed place => rw [place]; rfl

/-- Where the turn is while the reader has it. -/
theorem Kept.reader_turn (kept : Kept input state) (turn : state.reader.turn = true) :
    ∃ transit, state.segment = true ∧ state.semaphores = some ⟨0, 0⟩ ∧
      Behind state.writer state.shmp.cnt ∧
      Draining state.reader state.shmp state.remaining transit ∧
      state.output ++ transit ++ state.remaining = input.content := by
  cases kept with
  | preparing segment early =>
    rcases early with place | place | place <;> simp [place, Reader.turn] at turn
  | filling transit segment values outside => simp [outside.no_turn] at turn
  | given transit segment values outside => simp [outside.no_turn] at turn
  | draining transit segment values behind draining whole =>
    exact ⟨transit, segment, values, behind, draining, whole⟩
  | returned segment values outside => simp [outside.no_turn] at turn
  | ended segment values exited => simp [exited, Reader.turn] at turn
  | cleaning exited => simp [exited, Reader.turn] at turn

/-- Where the turn is while the writer has it. -/
theorem Kept.writer_turn (kept : Kept input state) (turn : state.writer.turn = true) :
    ∃ transit, state.segment = true ∧ state.semaphores = some ⟨0, 0⟩ ∧ state.reader.Outside ∧
      Filling state.writer state.shmp state.remaining transit ∧
      state.output ++ transit ++ state.remaining = input.content := by
  cases kept with
  | preparing segment early preparing => cases preparing <;> simp_all [Writer.turn]
  | filling transit segment values outside filling whole =>
    exact ⟨transit, segment, values, outside, filling, whole⟩
  | given transit segment values outside behind => simp [behind.no_turn] at turn
  | draining transit segment values behind => simp [behind.no_turn] at turn
  | returned segment values outside resuming => simp [resuming.no_turn] at turn
  | ended segment values exited behind => simp [behind.no_turn] at turn
  | cleaning exited cleaning => cases cleaning <;> simp_all [Writer.turn]

theorem Kept.partialWrite (kept : Kept input state) (place : state.reader = .write) {count : Nat}
    (part : count < state.shmp.cnt) : Kept input { state with
      reader := .failed, output := state.output ++ state.shmp.buf.bytes.take count } := by
  obtain ⟨transit, segment, values, behind, draining, whole⟩ := kept.reader_turn (by rw [place]; rfl)
  cases draining with
  | use _ more block =>
    have short : count ≤ state.shmp.cnt.toNat := by omega
    have begins : state.shmp.buf.bytes.take count = transit.take count := by
      rw [block.bytes, List.take_take, Nat.min_eq_left short]
    refine .draining (transit.drop count) segment values behind (.failed rfl) ?_
    rw [begins, List.append_assoc state.output, List.take_append_drop, whole]
  | test other => cases place.symm.trans other
  | release other => cases place.symm.trans other
  | leave other => rcases other with other | other <;> cases place.symm.trans other
  | failed other => cases place.symm.trans other

/-- The writer takes the beginning of what is left, into the segment. -/
theorem Kept.read (kept : Kept input state) (place : state.writer = .read) {count : Nat}
    (takes : Takes state count) : Kept input { state with
      writer := .store count
      shmp := { state.shmp with
        buf := state.shmp.buf.overwrite (state.remaining.take count) }
      remaining := state.remaining.drop count } := by
  obtain ⟨transit, segment, values, outside, filling, whole⟩ := kept.writer_turn (by rw [place]; rfl)
  obtain ⟨room, most, last⟩ := takes
  have size : (state.remaining.take count).length = count := by
    rw [List.length_take, Nat.min_eq_left most]
  have stored : (state.shmp.buf.overwrite (state.remaining.take count)).bytes.take count =
      state.remaining.take count := by
    rw [Buffer.bytes_overwrite (by rwa [size]), List.take_left' size]
  cases filling with
  | read _ none =>
    subst none
    rw [List.append_nil] at whole
    refine .filling (state.remaining.take count) segment values outside ?_ ?_
    · refine .store count rfl stored.symm room (fun zero => ?_)
      rw [zero, List.drop_zero, last zero]
    · rw [List.append_assoc, List.take_append_drop, whole]
  | store _ other => cases place.symm.trans other
  | release other => cases place.symm.trans other
  | failed other => cases place.symm.trans other

/-- Until there is a segment, the writer prepares it. -/
theorem preparing_step (segment : state.segment = false)
    (early : state.reader = .semget ∨ state.reader = .shmget ∨ state.reader = .failed)
    (preparing : Preparing state.writer state.semaphores) (zero : state.shmp.cnt = 0)
    (silent : state.output = []) (unread : state.remaining = input.content)
    (taken : writerStep input state = some next) : Kept input next := by
  cases preparing with
  | semget place =>
    simp only [writerStep, place] at taken
    obtain rfl := Option.some.inj taken
    exact .preparing segment early (.initSemAvailable rfl rfl) zero silent unread
  | initSemAvailable place present =>
    obtain ⟨values, present⟩ := Option.isSome_iff_exists.mp present
    simp only [writerStep, place, present] at taken
    obtain rfl := Option.some.inj taken
    exact .preparing segment early (.initSemInUse values.read rfl rfl) zero silent unread
  | initSemInUse read place values =>
    simp only [writerStep, place, values] at taken
    obtain rfl := Option.some.inj taken
    exact .preparing segment early (.shmget rfl rfl) zero silent unread
  | shmget place values =>
    simp only [writerStep, place] at taken
    obtain rfl := Option.some.inj taken
    have outside : state.reader.Outside := by
      rcases early with place | place | place
      · exact .inl place
      · exact .inr (.inl place)
      · exact .inr (.inr (.inr place))
    refine .returned rfl values outside (.reserve rfl) ?_
    rw [silent, unread, List.nil_append]
  | failed place => simp [writerStep, place] at taken

/-- The writer in its turn stores the count, and then gives the turn away. -/
theorem filling_step (segment : state.segment = true)
    (values : state.semaphores = some ⟨0, 0⟩) (outside : state.reader.Outside)
    (filling : Filling state.writer state.shmp state.remaining transit)
    (whole : state.output ++ transit ++ state.remaining = input.content)
    (taken : writerStep input state = some next) : Kept input next := by
  cases filling with
  | read place _ => simp [writerStep, place] at taken
  | store count place stored room last =>
    simp only [writerStep, place] at taken
    obtain rfl := Option.some.inj taken
    refine .filling transit segment values outside (.release rfl ⟨?_, ?_, ?_, ?_⟩) whole
    · exact stored
    · exact Int.natCast_nonneg count
    · exact Int.ofNat_le.mpr room
    · exact fun zero => last (Int.ofNat_eq_zero.mp zero)
  | release place block =>
    simp only [writerStep, place, values] at taken
    obtain rfl := Option.some.inj taken
    exact .given transit segment rfl outside (.test rfl) block whole
  | failed place => simp [writerStep, place] at taken

/-- Behind its release the writer looks at `cnt` and waits; it does not come back
into the segment before the turn does. -/
theorem behind_step (behind : Behind state.writer state.shmp.cnt) (write : ∀ values,
      state.semaphores = some values → values.write = 0) (present : state.semaphores.isSome = true)
    (taken : writerStep input state = some next) :
    ∃ writer sent, next = { state with writer := writer, sent := sent } ∧
      Behind writer state.shmp.cnt := by
  obtain ⟨values, present⟩ := Option.isSome_iff_exists.mp present
  have none_left : reserveSem state.semaphores .WRITE_SEM = .blocks := by
    rw [present]
    simp [reserveSem, Semaphores.value, write values present]
  cases behind with
  | test place =>
    simp only [writerStep, place] at taken
    obtain rfl := Option.some.inj taken
    refine ⟨_, state.sent, rfl, ?_⟩
    split
    next zero => exact .finish rfl zero
    next more => exact .more (.inl rfl) more
  | more place more =>
    rcases place with place | place
    · simp only [writerStep, place] at taken
      obtain rfl := Option.some.inj taken
      exact ⟨_, _, rfl, .more (.inr rfl) more⟩
    · simp [writerStep, place, none_left, writerSemop] at taken
  | finish place _ => simp [writerStep, place, none_left, writerSemop] at taken
  | failed place => simp [writerStep, place] at taken

theorem Kept.writer (kept : Kept input state) (taken : writerStep input state = some next) :
    Kept input next := by
  cases kept with
  | preparing segment early preparing zero silent unread =>
    exact preparing_step segment early preparing zero silent unread taken
  | filling transit segment values outside filling whole =>
    exact filling_step segment values outside filling whole taken
  | given transit segment values outside behind block whole =>
    obtain ⟨writer, sent, rfl, behind⟩ := behind_step behind (by simp [values]) (by simp [values]) taken
    exact .given transit segment values outside behind block whole
  | draining transit segment values behind draining whole =>
    obtain ⟨writer, sent, rfl, behind⟩ := behind_step behind (by simp [values]) (by simp [values]) taken
    exact .draining transit segment values behind draining whole
  | returned segment values outside resuming whole =>
    cases resuming with
    | more place more =>
      rcases place with place | place
      · simp only [writerStep, place, more, if_false] at taken
        obtain rfl := Option.some.inj taken
        exact .returned segment values outside (.more (.inr rfl) more) whole
      · simp only [writerStep, place] at taken
        obtain rfl := Option.some.inj taken
        exact .returned segment values outside (.reserve rfl) whole
    | reserve place =>
      simp only [writerStep, place, values] at taken
      obtain rfl := Option.some.inj taken
      exact .filling [] segment rfl outside (.read rfl rfl) (by rwa [List.append_nil])
    | failed place => simp [writerStep, place] at taken
  | ended segment values exited behind zero last whole =>
    cases behind with
    | test place =>
      simp only [writerStep, place, zero, if_true] at taken
      obtain rfl := Option.some.inj taken
      exact .ended segment values exited (.finish rfl zero) zero last whole
    | more _ more => exact absurd zero more
    | finish place _ =>
      simp only [writerStep, place, values] at taken
      obtain rfl := Option.some.inj taken
      exact .cleaning exited (.removeSet rfl rfl) last whole
    | failed place => simp [writerStep, place] at taken
  | cleaning exited cleaning last whole =>
    cases cleaning with
    | removeSet place _ =>
      simp only [writerStep, place] at taken
      obtain rfl := Option.some.inj taken
      exact .cleaning exited (.removeSegment rfl rfl) last whole
    | removeSegment place gone =>
      simp only [writerStep, place] at taken
      obtain rfl := Option.some.inj taken
      exact .cleaning exited (.exited rfl gone rfl) last whole
    | exited place => simp [writerStep, place] at taken
    | failed place => simp [writerStep, place] at taken

/-- Before its first turn the reader only looks for the keys. -/
theorem outside_step (outside : state.reader.Outside) (taken : readerStep state = some next) :
    (∃ reader : Reader, next = { state with reader := reader } ∧ reader.Outside) ∨
      state.reader = .reserve := by
  rcases outside with place | place | place | place
  · simp only [readerStep, place] at taken
    obtain rfl := Option.some.inj taken
    refine .inl ⟨_, rfl, ?_⟩
    split
    · exact .inr (.inl rfl)
    · exact .inr (.inr (.inr rfl))
  · simp only [readerStep, place] at taken
    obtain rfl := Option.some.inj taken
    refine .inl ⟨_, rfl, ?_⟩
    split
    · exact .inr (.inr (.inl rfl))
    · exact .inr (.inr (.inr rfl))
  · exact .inr place
  · simp [readerStep, place] at taken

theorem blocked_step {write : Nat} (values : state.semaphores = some ⟨write, 0⟩)
    (place : state.reader = .reserve) : readerStep state = none := by
  simp [readerStep, place, values, reserveSem, Semaphores.value, readerSemop]

theorem early_step (segment : state.segment = false)
    (early : state.reader = .semget ∨ state.reader = .shmget ∨ state.reader = .failed)
    (taken : readerStep state = some next) :
    ∃ reader : Reader, next = { state with reader := reader } ∧
      (reader = .semget ∨ reader = .shmget ∨ reader = .failed) := by
  rcases early with place | place | place
  · simp only [readerStep, place] at taken
    obtain rfl := Option.some.inj taken
    refine ⟨_, rfl, ?_⟩
    split
    · exact .inr (.inl rfl)
    · exact .inr (.inr rfl)
  · simp only [readerStep, place, segment] at taken
    obtain rfl := Option.some.inj taken
    exact ⟨.failed, by rw [segment]; rfl, .inr (.inr rfl)⟩
  · simp [readerStep, place] at taken

/-- The reader in its turn writes the block, and gives the turn back; behind the empty
block it leaves the segment first. -/
theorem draining_step (segment : state.segment = true)
    (values : state.semaphores = some ⟨0, 0⟩)
    (behind : Behind state.writer state.shmp.cnt)
    (draining : Draining state.reader state.shmp state.remaining transit)
    (whole : state.output ++ transit ++ state.remaining = input.content)
    (taken : readerStep state = some next) : Kept input next := by
  cases draining with
  | test place block =>
    by_cases zero : state.shmp.cnt = 0
    · simp only [readerStep, place, zero, if_true] at taken
      obtain rfl := Option.some.inj taken
      have none : transit = [] := by rw [block.bytes, zero]; rfl
      exact .draining transit segment values behind (.leave (.inl rfl) zero none (block.last zero)) whole
    · simp only [readerStep, place, zero, if_false] at taken
      obtain rfl := Option.some.inj taken
      exact .draining transit segment values behind (.use (.inl rfl) zero block) whole
  | use place more block =>
    rcases place with place | place
    · simp only [readerStep, place] at taken
      obtain rfl := Option.some.inj taken
      exact .draining transit segment values behind (.use (.inr rfl) more block) whole
    · simp only [readerStep, place] at taken
      obtain rfl := Option.some.inj taken
      refine .draining [] segment values behind (.release rfl more rfl) ?_
      rw [List.append_nil, ← block.bytes, whole]
  | release place more none =>
    simp only [readerStep, place, values] at taken
    obtain rfl := Option.some.inj taken
    subst none
    rw [List.append_nil] at whole
    refine .returned segment rfl (.inr (.inr (.inl rfl))) ?_ whole
    cases behind with
    | test place => exact .more (.inl place) more
    | more place _ =>
      rcases place with place | place
      · exact .more (.inr place) more
      · exact .reserve place
    | finish _ zero => exact absurd zero more
    | failed place => exact .failed place
  | leave place zero none last =>
    rcases place with place | place
    · simp only [readerStep, place] at taken
      obtain rfl := Option.some.inj taken
      exact .draining transit segment values behind (.leave (.inr rfl) zero none last) whole
    · simp only [readerStep, place, values] at taken
      obtain rfl := Option.some.inj taken
      rw [none, last, List.append_nil, List.append_nil] at whole
      exact .ended segment rfl rfl behind zero last whole
  | failed place => simp [readerStep, place] at taken

theorem Kept.reader (kept : Kept input state) (taken : readerStep state = some next) :
    Kept input next := by
  cases kept with
  | preparing segment early preparing zero silent unread =>
    obtain ⟨reader, rfl, early⟩ := early_step segment early taken
    exact .preparing segment early preparing zero silent unread
  | filling transit segment values outside filling whole =>
    rcases outside_step outside taken with ⟨reader, rfl, outside⟩ | place
    · exact .filling transit segment values outside filling whole
    · simp [blocked_step values place] at taken
  | given transit segment values outside behind block whole =>
    rcases outside_step outside taken with ⟨reader, rfl, outside⟩ | place
    · exact .given transit segment values outside behind block whole
    · simp only [readerStep, place, values] at taken
      obtain rfl := Option.some.inj taken
      exact .draining transit segment rfl behind (.test rfl block) whole
  | draining transit segment values behind draining whole =>
    exact draining_step segment values behind draining whole taken
  | returned segment values outside resuming whole =>
    rcases outside_step outside taken with ⟨reader, rfl, outside⟩ | place
    · exact .returned segment values outside resuming whole
    · simp [blocked_step values place] at taken
  | ended segment values exited => simp [readerStep, exited] at taken
  | cleaning exited => simp [readerStep, exited] at taken

theorem kept_start : Kept input (machine input).start :=
  .preparing rfl (.inl rfl) (.semget rfl) rfl rfl rfl

theorem kept_step {action : Action} (kept : Kept input state)
    (taken : step input state action = some next) : Kept input next := by
  cases action with
  | writer => exact kept.writer taken
  | read count =>
    obtain ⟨⟨place, takes⟩, same⟩ := Option.ite_none_right_eq_some.mp taken
    obtain rfl := Option.some.inj same
    exact kept.read place takes
  | readFails =>
    obtain ⟨place, same⟩ := Option.ite_none_right_eq_some.mp taken
    obtain rfl := Option.some.inj same
    exact kept.writerFails fun other => absurd place other
  | writerFails =>
    obtain ⟨_, same⟩ := Option.ite_none_right_eq_some.mp taken
    obtain rfl := Option.some.inj same
    exact kept.writerFails fun _ => rfl
  | writerInterrupted =>
    obtain ⟨_, same⟩ := Option.ite_none_right_eq_some.mp taken
    obtain rfl := Option.some.inj same
    exact kept.signals _
  | reader => exact kept.reader taken
  | partialWrite count =>
    obtain ⟨⟨place, part⟩, same⟩ := Option.ite_none_right_eq_some.mp taken
    obtain rfl := Option.some.inj same
    exact kept.partialWrite place part
  | readerFails =>
    obtain ⟨⟨running, _⟩, same⟩ := Option.ite_none_right_eq_some.mp taken
    obtain rfl := Option.some.inj same
    exact kept.readerFails running
  | readerInterrupted =>
    obtain ⟨_, same⟩ := Option.ite_none_right_eq_some.mp taken
    obtain rfl := Option.some.inj same
    exact kept.signals _

theorem kept_reachable (reached : (machine input).Reachable state) : Kept input state :=
  Machine.invariant kept_start kept_step reached

/-- What a maintainer relies on, in every state of every run. At most one program has the
turn; both may be in the segment, but then neither of them stores to it. -/
structure Safe (input : Input) (state : State) : Prop where
  delivered : state.output <+: input.content
  turns : ¬(state.writer.turn = true ∧ state.reader.turn = true)
  undisturbed : state.writer.inside = true → state.reader.inside = true →
    state.writer.stores = false
  bounded : state.reader = .write → 0 < state.shmp.cnt ∧ state.shmp.cnt ≤ BUF_SIZE
  initialised : state.reader = .reserve ∨ state.reader.turn = true →
    ∃ values, state.semaphores = some values ∧ values.write + values.read ≤ 1
  finished : state.reader = .exited → state.output = input.content
  removed : state.writer.removes = true → state.reader = .exited

theorem Kept.delivered (kept : Kept input state) : state.output <+: input.content := by
  cases kept with
  | preparing _ _ _ _ silent _ => rw [silent]; exact List.nil_prefix
  | filling transit _ _ _ _ whole =>
    exact ⟨transit ++ state.remaining, by rw [← List.append_assoc, whole]⟩
  | given transit _ _ _ _ _ whole =>
    exact ⟨transit ++ state.remaining, by rw [← List.append_assoc, whole]⟩
  | draining transit _ _ _ _ whole =>
    exact ⟨transit ++ state.remaining, by rw [← List.append_assoc, whole]⟩
  | returned _ _ _ _ whole => exact ⟨state.remaining, whole⟩
  | ended _ _ _ _ _ _ whole => exact whole ▸ List.prefix_rfl
  | cleaning _ _ _ whole => exact whole ▸ List.prefix_rfl

/-- The reader has not yet left, and is not at work: it has not seen the last turn. -/
theorem Reader.Outside.not_exited {reader : Reader} (outside : reader.Outside) :
    reader ≠ .exited := by
  rcases outside with rfl | rfl | rfl | rfl <;> exact Reader.noConfusion

theorem Draining.not_exited {reader : Reader} {shmp : Shmseg} {remaining : List Byte}
    (draining : Draining reader shmp remaining transit) : reader ≠ .exited := by
  rintro rfl
  cases draining <;> simp_all

/-- The reader exits only behind the last block. -/
theorem Kept.finished (kept : Kept input state) (exited : state.reader = .exited) :
    state.output = input.content := by
  cases kept with
  | preparing _ early => rcases early with place | place | place <;> cases exited.symm.trans place
  | filling transit _ _ outside => exact absurd exited outside.not_exited
  | given transit _ _ outside => exact absurd exited outside.not_exited
  | draining transit _ _ _ draining => exact absurd exited draining.not_exited
  | returned _ _ outside => exact absurd exited outside.not_exited
  | ended _ _ _ _ _ _ whole => exact whole
  | cleaning _ _ _ whole => exact whole

theorem Kept.initialised (kept : Kept input state)
    (waits : state.reader = .reserve ∨ state.reader.turn = true) :
    ∃ values, state.semaphores = some values ∧ values.write + values.read ≤ 1 := by
  cases kept with
  | preparing _ early => rcases early with place | place | place <;> simp_all [Reader.turn]
  | filling _ _ values => exact ⟨_, values, Nat.zero_le 1⟩
  | given _ _ values => exact ⟨_, values, Nat.le_refl 1⟩
  | draining _ _ values => exact ⟨_, values, Nat.zero_le 1⟩
  | returned _ values => exact ⟨_, values, Nat.le_refl 1⟩
  | ended _ _ exited => simp [exited, Reader.turn] at waits
  | cleaning exited => simp [exited, Reader.turn] at waits

/-- The writer removes the objects only when nobody is left to use them. -/
theorem Kept.removed (kept : Kept input state) (removes : state.writer.removes = true) :
    state.reader = .exited := by
  cases kept with
  | preparing _ _ preparing => cases preparing <;> simp_all [Writer.removes]
  | filling _ _ _ _ filling => cases filling <;> simp_all [Writer.removes]
  | given _ _ _ _ behind => simp [behind.not_removes] at removes
  | draining _ _ _ behind => simp [behind.not_removes] at removes
  | returned _ _ _ resuming => simp [resuming.not_removes] at removes
  | ended _ _ exited => exact exited
  | cleaning exited => exact exited

theorem Writer.turn_of_stores {writer : Writer} (stores : writer.stores = true) :
    writer.turn = true := by
  cases writer <;> first | rfl | cases stores

theorem Reader.turn_of_inside {reader : Reader} (inside : reader.inside = true) :
    reader.turn = true := by
  cases reader <;> first | rfl | cases inside

theorem Kept.turns (kept : Kept input state) :
    ¬(state.writer.turn = true ∧ state.reader.turn = true) := by
  rintro ⟨writer, reader⟩
  obtain ⟨_, _, _, outside, _⟩ := kept.writer_turn writer
  simp [outside.no_turn] at reader

theorem transfer_safe (reached : (machine input).Reachable state) : Safe input state := by
  have kept := kept_reachable reached
  refine ⟨kept.delivered, kept.turns, ?_, ?_, kept.initialised, kept.finished, kept.removed⟩
  · intro _ inside
    cases stores : state.writer.stores with
    | false => rfl
    | true =>
      exact absurd ⟨Writer.turn_of_stores stores, Reader.turn_of_inside inside⟩ kept.turns
  · intro place
    obtain ⟨_, _, _, _, draining, _⟩ := kept.reader_turn (by rw [place]; rfl)
    cases draining with
    | use _ more block => exact ⟨by have := block.least; omega, block.most⟩
    | test other => cases place.symm.trans other
    | release other => cases place.symm.trans other
    | leave other => rcases other with other | other <;> cases place.symm.trans other
    | failed other => cases place.symm.trans other

/-- One byte, and a set that an earlier run has left in disorder. -/
def oneByte : Input where
  content := ['x'.toUInt8]
  left := some ⟨5, 7⟩
  created := ⟨0, 0⟩
  signals := 0

/-- The reader comes to its `write` while the writer looks at `cnt`. -/
theorem transfer_safe_one_byte : ∃ state,
    (machine oneByte).exec (machine oneByte).start
      [.reader, .writer, .writer, .writer, .writer, .reader, .writer, .read 1, .writer, .writer,
        .reader, .reader, .reader] = some state ∧ Safe oneByte state := by
  obtain ⟨state, run⟩ := Option.isSome_iff_exists.mp (show ((machine oneByte).exec
    (machine oneByte).start [.reader, .writer, .writer, .writer, .writer, .reader, .writer, .read 1,
      .writer, .writer, .reader, .reader, .reader]).isSome = true from rfl)
  exact ⟨state, run, transfer_safe (Machine.reachable_of_exec .start run)⟩

end LinuxProgramming.BlockTransfer
