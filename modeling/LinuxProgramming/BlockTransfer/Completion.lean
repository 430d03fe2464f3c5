import LinuxProgramming.BlockTransfer.Delivery

/-! Every run of the transfer comes to its end, with the whole file and equal counters.

A byte that the writer has yet to read is worth more than all the steps its block
can cause, and a turn on its way to the reader is worth the steps of the reader.
-/

set_option autoImplicit false

namespace LinuxProgramming.BlockTransfer
open Foundation

/-- Both programs are through, the objects are removed, and both have counted
the bytes of the whole file and the same transfers. -/
structure Complete (input : Input) (state : State) : Prop where
  writer : state.writer = .exited
  reader : state.reader = .exited
  removed : state.semaphores = none ∧ state.segment = false
  output : state.output = input.content
  bytes : state.sent.bytes = BitVec.ofNat 32 input.content.length
  counters : state.received = state.sent

/-- What the writer has read and not yet counted. -/
def Writer.uncounted (writer : Writer) (cnt : Int) : BitVec 32 :=
  match writer with
  | .store count => BitVec.ofInt 32 count
  | .release | .test | .add => BitVec.ofInt 32 cnt
  | _ => 0

/-- What the reader has counted and not yet written. -/
def Reader.unwritten (reader : Reader) (cnt : Int) : BitVec 32 :=
  match reader with
  | .write => BitVec.ofInt 32 cnt
  | _ => 0

/-- The transfer the writer has made and not yet counted. -/
def Writer.late (writer : Writer) (cnt : Int) : BitVec 32 :=
  match writer with
  | .test => if cnt = 0 then 0 else 1
  | .add => 1
  | _ => 0

/-- The transfer that is made and that the reader has not yet counted. -/
def uncounted (reader : Reader) (semaphores : Option Semaphores) (cnt : Int) : BitVec 32 :=
  match reader with
  | .test | .add | .write | .release => if cnt = 0 then 0 else 1
  | .semget | .shmget | .reserve => if semaphores = some ⟨0, 1⟩ ∧ cnt ≠ 0 then 1 else 0
  | _ => 0

/-- What the counters stand for, while no program has ended early. -/
structure Counted (input : Input) (state : State) : Prop where
  sent : state.writer ≠ .failed →
    state.sent.bytes + state.writer.uncounted state.shmp.cnt =
      BitVec.ofNat 32 (input.content.length - state.remaining.length)
  received : state.reader ≠ .failed →
    state.received.bytes = BitVec.ofNat 32 state.output.length + state.reader.unwritten state.shmp.cnt
  transfers : state.writer ≠ .failed → state.reader ≠ .failed →
    state.sent.xfrs + state.writer.late state.shmp.cnt =
      state.received.xfrs + uncounted state.reader state.semaphores state.shmp.cnt

variable {input : Input} {state next : State} {transit : List Byte}

theorem counted_start : Counted input (machine input).start := by
  refine ⟨fun _ => ?_, fun _ => ?_, fun _ _ => ?_⟩
  · simp [machine, Writer.uncounted]
  · simp [machine, Reader.unwritten]
  · simp [machine, Writer.late, uncounted]

@[simp] theorem uncounted_zero (reader : Reader) (semaphores : Option Semaphores) :
    uncounted reader semaphores 0 = 0 := by
  cases reader <;> simp [uncounted]

theorem Reader.Outside.unwritten {reader : Reader} (outside : reader.Outside) (cnt : Int) :
    reader.unwritten cnt = 0 := by
  rcases outside with rfl | rfl | rfl | rfl <;> rfl

/-- No transfer is on its way to a reader that waits, unless the turn is. -/
theorem Reader.Outside.uncounted {reader : Reader} (outside : reader.Outside)
    {semaphores : Option Semaphores} (other : semaphores ≠ some ⟨0, 1⟩) (cnt : Int) :
    uncounted reader semaphores cnt = 0 := by
  rcases outside with rfl | rfl | rfl | rfl <;> simp [BlockTransfer.uncounted, other]

theorem Reader.Outside.given {reader : Reader} (outside : reader.Outside)
    (running : reader ≠ .failed) (cnt : Int) :
    BlockTransfer.uncounted reader (some ⟨0, 1⟩) cnt = if cnt = 0 then 0 else 1 := by
  rcases outside with rfl | rfl | rfl | rfl
  · simp [BlockTransfer.uncounted]
  · simp [BlockTransfer.uncounted]
  · simp [BlockTransfer.uncounted]
  · exact absurd rfl running

/-- A step of the writer that leaves `cnt` as it is: what it counts is no longer uncounted. -/
theorem Counted.of_writer (counted : Counted input state) (running : state.writer ≠ .failed)
    {writer : Writer} {semaphores : Option Semaphores} {segment : Bool} {sent : Totals}
    (bytes : sent.bytes + writer.uncounted state.shmp.cnt =
      state.sent.bytes + state.writer.uncounted state.shmp.cnt)
    (late : sent.xfrs + writer.late state.shmp.cnt =
      state.sent.xfrs + state.writer.late state.shmp.cnt)
    (same : uncounted state.reader semaphores state.shmp.cnt =
      uncounted state.reader state.semaphores state.shmp.cnt) :
    Counted input { state with
      writer := writer, semaphores := semaphores, segment := segment, sent := sent } := by
  refine ⟨fun _ => bytes.trans (counted.sent running), counted.received, fun _ reading => ?_⟩
  exact late.trans ((counted.transfers running reading).trans (congrArg _ same.symm))

/-- Behind its release, the writer counts what it has stored. -/
theorem counted_behind (counted : Counted input state)
    (behind : Behind state.writer state.shmp.cnt)
    (write : ∀ values, state.semaphores = some values → values.write = 0)
    (present : state.semaphores.isSome = true)
    (taken : writerStep input state = some next) : Counted input next := by
  obtain ⟨values, present⟩ := Option.isSome_iff_exists.mp present
  have none_left : reserveSem state.semaphores .WRITE_SEM = .blocks := by
    rw [present]
    simp [reserveSem, Semaphores.value, write values present]
  cases behind with
  | test place =>
    simp only [writerStep, place] at taken
    obtain rfl := Option.some.inj taken
    refine counted.of_writer (by simp [place]) ?_ ?_ rfl
    · by_cases zero : state.shmp.cnt = 0 <;> simp [place, zero, Writer.uncounted]
    · by_cases zero : state.shmp.cnt = 0 <;> simp [place, zero, Writer.late]
  | more place more =>
    rcases place with place | place
    · simp only [writerStep, place] at taken
      obtain rfl := Option.some.inj taken
      refine counted.of_writer (by simp [place]) ?_ ?_ rfl
      · simp [place, Writer.uncounted]
      · simp [place, Writer.late]
    · simp [writerStep, place, none_left, writerSemop] at taken
  | finish place _ => simp [writerStep, place, none_left, writerSemop] at taken
  | failed place => simp [writerStep, place] at taken

theorem counted_preparing (counted : Counted input state)
    (preparing : Preparing state.writer state.semaphores) (zero : state.shmp.cnt = 0)
    (taken : writerStep input state = some next) : Counted input next := by
  cases preparing with
  | failed place => simp [writerStep, place] at taken
  | semget place | initSemAvailable place _ | initSemInUse _ place _ | shmget place _ =>
    simp only [writerStep, place] at taken
    obtain rfl := Option.some.inj taken
    refine counted.of_writer (by simp [place]) ?_ ?_ ?_
    · simp [place, Writer.uncounted]
    · simp [place, Writer.late]
    · simp [zero]

theorem counted_filling (counted : Counted input state)
    (values : state.semaphores = some ⟨0, 0⟩) (outside : state.reader.Outside)
    (filling : Filling state.writer state.shmp state.remaining transit)
    (taken : writerStep input state = some next) : Counted input next := by
  have absent : ∀ cnt, uncounted state.reader state.semaphores cnt = 0 :=
    outside.uncounted (by simp [values])
  cases filling with
  | read place _ => simp [writerStep, place] at taken
  | store count place stored room last =>
    simp only [writerStep, place] at taken
    obtain rfl := Option.some.inj taken
    refine ⟨fun _ => ?_, fun reading => ?_, fun _ reading => ?_⟩
    · have before := counted.sent (by simp [place])
      rwa [place] at before
    · have before := counted.received reading
      rwa [outside.unwritten] at before ⊢
    · have before := counted.transfers (by simp [place]) reading
      rw [place, absent] at before
      show state.sent.xfrs + 0 = state.received.xfrs + uncounted state.reader state.semaphores count
      rwa [absent]
  | release place block =>
    simp only [writerStep, place, values] at taken
    obtain rfl := Option.some.inj taken
    refine ⟨fun _ => ?_, counted.received, fun _ reading => ?_⟩
    · have before := counted.sent (by simp [place])
      rwa [place] at before
    · have before := counted.transfers (by simp [place]) reading
      rw [absent, place] at before
      have level : state.sent.xfrs = state.received.xfrs := by simpa [Writer.late] using before
      show state.sent.xfrs + (if state.shmp.cnt = 0 then 0 else 1) =
        state.received.xfrs + uncounted state.reader (some ⟨0, 1⟩) state.shmp.cnt
      rw [outside.given reading, level]
  | failed place => simp [writerStep, place] at taken

theorem counted_writer (kept : Kept input state) (counted : Counted input state)
    (taken : writerStep input state = some next) : Counted input next := by
  cases kept with
  | preparing _ _ preparing zero => exact counted_preparing counted preparing zero taken
  | filling _ _ values outside filling => exact counted_filling counted values outside filling taken
  | given _ _ values _ behind =>
    exact counted_behind counted behind (by simp [values]) (by simp [values]) taken
  | draining _ _ values behind =>
    exact counted_behind counted behind (by simp [values]) (by simp [values]) taken
  | returned _ values outside resuming =>
    cases resuming with
    | more place more =>
      rcases place with place | place
      · simp only [writerStep, place] at taken
        obtain rfl := Option.some.inj taken
        refine counted.of_writer (by simp [place]) ?_ ?_ rfl
        · simp [place, more, Writer.uncounted]
        · simp [place, more, Writer.late]
      · simp only [writerStep, place] at taken
        obtain rfl := Option.some.inj taken
        refine counted.of_writer (by simp [place]) ?_ ?_ rfl
        · simp [place, Writer.uncounted]
        · simp [place, Writer.late]
    | reserve place =>
      simp only [writerStep, place, values] at taken
      obtain rfl := Option.some.inj taken
      refine counted.of_writer (by simp [place]) ?_ ?_ ?_
      · simp [place, Writer.uncounted]
      · simp [place, Writer.late]
      · rw [values, outside.uncounted (by decide), outside.uncounted (by decide)]
    | failed place => simp [writerStep, place] at taken
  | ended _ values exited behind zero =>
    cases behind with
    | test place =>
      simp only [writerStep, place] at taken
      obtain rfl := Option.some.inj taken
      refine counted.of_writer (by simp [place]) ?_ ?_ rfl
      · simp [place, zero, Writer.uncounted]
      · simp [place, zero, Writer.late]
    | more _ more => exact absurd zero more
    | finish place _ =>
      simp only [writerStep, place, values] at taken
      obtain rfl := Option.some.inj taken
      refine counted.of_writer (by simp [place]) ?_ ?_ (by simp [zero])
      · simp [place, Writer.uncounted]
      · simp [place, Writer.late]
    | failed place => simp [writerStep, place] at taken
  | cleaning exited cleaning =>
    cases cleaning with
    | removeSet place _ | removeSegment place _ =>
      simp only [writerStep, place] at taken
      obtain rfl := Option.some.inj taken
      refine counted.of_writer (by simp [place]) ?_ ?_ (by simp [exited, uncounted])
      · simp [place, Writer.uncounted]
      · simp [place, Writer.late]
    | exited place => simp [writerStep, place] at taken
    | failed place => simp [writerStep, place] at taken

/-- A step of the reader that writes nothing. -/
theorem Counted.of_reader (counted : Counted input state) (running : state.reader ≠ .failed)
    {reader : Reader} {semaphores : Option Semaphores} {received : Totals}
    (bytes : received.bytes + state.reader.unwritten state.shmp.cnt =
      state.received.bytes + reader.unwritten state.shmp.cnt)
    (transfers : received.xfrs + uncounted reader semaphores state.shmp.cnt =
      state.received.xfrs + uncounted state.reader state.semaphores state.shmp.cnt) :
    Counted input { state with reader := reader, semaphores := semaphores, received := received } := by
  refine ⟨counted.sent, fun _ => ?_, fun writing _ => ?_⟩
  · have before := counted.received running
    simp only
    grind
  · exact (counted.transfers writing running).trans transfers.symm

/-- A reader that has failed is no longer counted. -/
theorem Counted.readerFails (counted : Counted input state) (output : List Byte) :
    Counted input { state with reader := .failed, output := output } :=
  ⟨counted.sent, fun running => absurd rfl running, fun _ running => absurd rfl running⟩

theorem counted_outside (counted : Counted input state) (outside : state.reader.Outside)
    (taken : readerStep state = some next) : Counted input next ∨ state.reader = .reserve := by
  rcases outside with place | place | place | place
  · simp only [readerStep, place] at taken
    obtain rfl := Option.some.inj taken
    split
    · refine .inl (counted.of_reader (by simp [place]) ?_ ?_)
      · simp [place, Reader.unwritten]
      · simp [place, uncounted]
    · exact .inl (counted.readerFails _)
  · simp only [readerStep, place] at taken
    obtain rfl := Option.some.inj taken
    split
    · refine .inl (counted.of_reader (by simp [place]) ?_ ?_)
      · simp [place, Reader.unwritten]
      · simp [place, uncounted]
    · exact .inl (counted.readerFails _)
  · exact .inr place
  · simp [readerStep, place] at taken

/-- The bytes of a block are as many as `cnt` tells. -/
theorem Block.length {shmp : Shmseg} {remaining : List Byte} (block : Block shmp remaining transit) :
    (transit.length : Int) = shmp.cnt := by
  have size := shmp.buf.length_eq
  have least := block.least
  have most := block.most
  rw [block.bytes, List.length_take, size]
  omega

theorem counted_draining (counted : Counted input state)
    (values : state.semaphores = some ⟨0, 0⟩)
    (draining : Draining state.reader state.shmp state.remaining transit)
    (taken : readerStep state = some next) : Counted input next := by
  cases draining with
  | test place block =>
    simp only [readerStep, place] at taken
    obtain rfl := Option.some.inj taken
    refine counted.of_reader (by simp [place]) ?_ ?_
    · by_cases zero : state.shmp.cnt = 0 <;> simp [place, zero, Reader.unwritten]
    · by_cases zero : state.shmp.cnt = 0 <;> simp [place, zero, uncounted]
  | use place more block =>
    rcases place with place | place
    · simp only [readerStep, place] at taken
      obtain rfl := Option.some.inj taken
      refine counted.of_reader (by simp [place]) ?_ ?_
      · simp [place, Reader.unwritten]
      · simp [place, uncounted]
    · simp only [readerStep, place] at taken
      obtain rfl := Option.some.inj taken
      refine ⟨counted.sent, fun _ => ?_, fun writing _ => ?_⟩
      · have before := counted.received (by simp [place])
        have length := block.length
        simp only [place, Reader.unwritten] at before ⊢
        rw [before, ← block.bytes, List.length_append, ← length, BitVec.ofNat_add]
        simp
      · have before := counted.transfers writing (by simp [place])
        rwa [place] at before
  | release place more _ =>
    simp only [readerStep, place, values] at taken
    obtain rfl := Option.some.inj taken
    refine counted.of_reader (by simp [place]) ?_ ?_
    · simp [place, Reader.unwritten]
    · simp [place, more, uncounted, Semaphores.set]
  | leave place _ _ _ =>
    rcases place with place | place
    · simp only [readerStep, place] at taken
      obtain rfl := Option.some.inj taken
      refine counted.of_reader (by simp [place]) ?_ ?_
      · simp [place, Reader.unwritten]
      · simp [place, uncounted]
    · simp only [readerStep, place, values] at taken
      obtain rfl := Option.some.inj taken
      refine counted.of_reader (by simp [place]) ?_ ?_
      · simp [place, Reader.unwritten]
      · simp [place, uncounted]
  | failed place => simp [readerStep, place] at taken

theorem counted_reader (kept : Kept input state) (counted : Counted input state)
    (taken : readerStep state = some next) : Counted input next := by
  cases kept with
  | preparing _ early =>
    have outside : state.reader.Outside := by
      rcases early with place | place | place
      · exact .inl place
      · exact .inr (.inl place)
      · exact .inr (.inr (.inr place))
    rcases counted_outside counted outside taken with counted | place
    · exact counted
    · rcases early with other | other | other <;> cases place.symm.trans other
  | filling _ _ values outside =>
    rcases counted_outside counted outside taken with counted | place
    · exact counted
    · simp [blocked_step values place] at taken
  | given _ _ values outside _ block =>
    rcases counted_outside counted outside taken with counted | place
    · exact counted
    · simp only [readerStep, place, values] at taken
      obtain rfl := Option.some.inj taken
      refine counted.of_reader (by simp [place]) ?_ ?_
      · simp [place, Reader.unwritten]
      · simp [place, values, uncounted]
  | draining _ _ values _ draining => exact counted_draining counted values draining taken
  | returned _ values outside =>
    rcases counted_outside counted outside taken with counted | place
    · exact counted
    · simp [blocked_step values place] at taken
  | ended _ _ exited => simp [readerStep, exited] at taken
  | cleaning exited => simp [readerStep, exited] at taken

theorem counted_step {action : Action} (kept : Kept input state) (counted : Counted input state)
    (taken : step input state action = some next) : Counted input next := by
  cases action with
  | writer => exact counted_writer kept counted taken
  | reader => exact counted_reader kept counted taken
  | read count =>
    obtain ⟨⟨place, _, most, _⟩, same⟩ := Option.ite_none_right_eq_some.mp taken
    obtain rfl := Option.some.inj same
    refine ⟨fun _ => ?_, counted.received, fun _ reading => ?_⟩
    · have before := counted.sent (by simp [place])
      obtain ⟨transit, _, _, _, _, whole⟩ := kept.writer_turn (by rw [place]; rfl)
      have lengths := congrArg List.length whole
      simp only [List.length_append] at lengths
      have taken : input.content.length - (state.remaining.length - count) =
          input.content.length - state.remaining.length + count := by omega
      simp only [place, Writer.uncounted] at before ⊢
      rw [List.length_drop, taken, BitVec.ofNat_add, ← before]
      simp
    · have before := counted.transfers (by simp [place]) reading
      rwa [place] at before
  | readFails =>
    obtain ⟨place, same⟩ := Option.ite_none_right_eq_some.mp taken
    obtain rfl := Option.some.inj same
    refine ⟨fun running => absurd rfl running, fun reading => ?_, fun running => absurd rfl running⟩
    have before := counted.received reading
    obtain ⟨_, _, _, outside, _⟩ := kept.writer_turn (by rw [place]; rfl)
    rwa [outside.unwritten] at before ⊢
  | writerFails =>
    obtain ⟨_, same⟩ := Option.ite_none_right_eq_some.mp taken
    obtain rfl := Option.some.inj same
    exact ⟨fun running => absurd rfl running, counted.received, fun running => absurd rfl running⟩
  | partialWrite count =>
    obtain ⟨_, same⟩ := Option.ite_none_right_eq_some.mp taken
    obtain rfl := Option.some.inj same
    exact counted.readerFails _
  | readerFails =>
    obtain ⟨_, same⟩ := Option.ite_none_right_eq_some.mp taken
    obtain rfl := Option.some.inj same
    exact counted.readerFails _
  | writerInterrupted =>
    obtain ⟨_, same⟩ := Option.ite_none_right_eq_some.mp taken
    obtain rfl := Option.some.inj same
    exact ⟨counted.sent, counted.received, counted.transfers⟩
  | readerInterrupted =>
    obtain ⟨_, same⟩ := Option.ite_none_right_eq_some.mp taken
    obtain rfl := Option.some.inj same
    exact ⟨counted.sent, counted.received, counted.transfers⟩

theorem counted_reachable (reached : (machine input).Reachable state) : Counted input state := by
  have both : Kept input state ∧ Counted input state := by
    induction reached with
    | start => exact ⟨kept_start, counted_start⟩
    | step _ taken both => exact ⟨kept_step both.1 taken, counted_step both.1 both.2 taken⟩
  exact both.2

/-- How far the writer is from its end, the bytes it has yet to read apart. A block
that is not empty leads back to the loop. -/
def Writer.rank (writer : Writer) (cnt : Int) : Nat :=
  match writer with
  | .semget => 14
  | .initSemAvailable => 13
  | .initSemInUse => 12
  | .shmget => 11
  | .reserve => 10
  | .read => 9
  | .store count => if count = 0 then 8 else 14
  | .release => if cnt = 0 then 7 else 13
  | .test => if cnt = 0 then 6 else 12
  | .add => 11
  | .finish => 5
  | .removeSet => 4
  | .removeSegment => 3
  | .exited => 0
  | .failed => 0

def Reader.rank : Reader → Nat
  | .semget => 6
  | .shmget => 5
  | .reserve => 4
  | .test => 8
  | .add => 7
  | .write => 6
  | .release => 5
  | .detach => 3
  | .finish => 2
  | .exited => 0
  | .failed => 0

/-- The turns that a reader which finds the segment can take at once. -/
def turns (segment : Bool) (semaphores : Option Semaphores) : Nat :=
  match segment, semaphores with
  | true, some values => values.read
  | _, _ => 0

def measure (state : State) : Nat :=
  400 * state.remaining.length + 20 * state.writer.rank state.shmp.cnt + state.reader.rank +
    10 * turns state.segment state.semaphores + state.signals

theorem Writer.rank_pos {writer : Writer} (cnt : Int) (running : writer ≠ .exited)
    (going : writer ≠ .failed) : 0 < writer.rank cnt := by
  cases writer <;> simp_all [Writer.rank] <;> split <;> simp

theorem Reader.rank_pos {reader : Reader} (running : reader ≠ .exited) (going : reader ≠ .failed) :
    0 < reader.rank := by
  cases reader <;> simp_all [Reader.rank]

/-- The rank of the writer pays for a turn that it gives away. -/
theorem less_of_writer {writer : Writer} {shmp : Shmseg} {semaphores : Option Semaphores}
    {segment : Bool} {sent : Totals}
    (rank : writer.rank shmp.cnt < state.writer.rank state.shmp.cnt)
    (given : turns segment semaphores ≤ turns state.segment state.semaphores + 1) :
    measure { state with
      writer := writer, shmp := shmp, semaphores := semaphores, segment := segment, sent := sent } <
        measure state := by
  simp only [measure]
  omega

theorem less_preparing (segment : state.segment = false)
    (preparing : Preparing state.writer state.semaphores)
    (taken : writerStep input state = some next) : measure next < measure state := by
  cases preparing with
  | failed place => simp [writerStep, place] at taken
  | semget place | initSemAvailable place _ | initSemInUse _ place _ =>
    simp only [writerStep, place] at taken
    obtain rfl := Option.some.inj taken
    exact less_of_writer (by simp [place, Writer.rank]) (by simp [turns, segment])
  | shmget place values =>
    simp only [writerStep, place] at taken
    obtain rfl := Option.some.inj taken
    exact less_of_writer (by simp [place, Writer.rank]) (by simp [turns, values])

theorem less_filling (values : state.semaphores = some ⟨0, 0⟩)
    (filling : Filling state.writer state.shmp state.remaining transit)
    (taken : writerStep input state = some next) : measure next < measure state := by
  cases filling with
  | read place _ => simp [writerStep, place] at taken
  | store count place =>
    simp only [writerStep, place] at taken
    obtain rfl := Option.some.inj taken
    refine less_of_writer ?_ (Nat.le_succ _)
    by_cases zero : count = 0 <;> simp [place, zero, Writer.rank]
  | release place block =>
    simp only [writerStep, place, values] at taken
    obtain rfl := Option.some.inj taken
    refine less_of_writer ?_ ?_
    · by_cases zero : state.shmp.cnt = 0 <;> simp [place, zero, Writer.rank]
    · cases state.segment <;> simp [turns, Semaphores.set, Semaphores.value]
  | failed place => simp [writerStep, place] at taken

/-- Whatever the turn does, the writer goes on to the end of its loop. -/
theorem less_late (late : state.writer = .test ∨ state.writer = .add)
    (taken : writerStep input state = some next) : measure next < measure state := by
  rcases late with place | place
  · simp only [writerStep, place] at taken
    obtain rfl := Option.some.inj taken
    refine less_of_writer ?_ (Nat.le_succ _)
    by_cases zero : state.shmp.cnt = 0 <;> simp [place, zero, Writer.rank]
  · simp only [writerStep, place] at taken
    obtain rfl := Option.some.inj taken
    exact less_of_writer (by simp [place, Writer.rank]) (Nat.le_succ _)

theorem less_behind (behind : Behind state.writer state.shmp.cnt)
    (write : ∀ values, state.semaphores = some values → values.write = 0)
    (present : state.semaphores.isSome = true)
    (taken : writerStep input state = some next) : measure next < measure state := by
  obtain ⟨values, present⟩ := Option.isSome_iff_exists.mp present
  have none_left : reserveSem state.semaphores .WRITE_SEM = .blocks := by
    rw [present]
    simp [reserveSem, Semaphores.value, write values present]
  cases behind with
  | test place => exact less_late (.inl place) taken
  | more place _ =>
    rcases place with place | place
    · exact less_late (.inr place) taken
    · simp [writerStep, place, none_left, writerSemop] at taken
  | finish place _ => simp [writerStep, place, none_left, writerSemop] at taken
  | failed place => simp [writerStep, place] at taken

theorem writer_decreases (kept : Kept input state) (taken : writerStep input state = some next) :
    measure next < measure state := by
  cases kept with
  | preparing segment _ preparing => exact less_preparing segment preparing taken
  | filling _ _ values _ filling => exact less_filling values filling taken
  | given _ _ values _ behind =>
    exact less_behind behind (by simp [values]) (by simp [values]) taken
  | draining _ _ values behind =>
    exact less_behind behind (by simp [values]) (by simp [values]) taken
  | returned _ values outside resuming =>
    cases resuming with
    | more place _ => exact less_late place taken
    | reserve place =>
      simp only [writerStep, place, values] at taken
      obtain rfl := Option.some.inj taken
      refine less_of_writer (by simp [place, Writer.rank]) ?_
      cases state.segment <;> simp [turns, Semaphores.set]
    | failed place => simp [writerStep, place] at taken
  | ended _ values exited behind zero =>
    cases behind with
    | test place => exact less_late (.inl place) taken
    | more _ more => exact absurd zero more
    | finish place _ =>
      simp only [writerStep, place, values] at taken
      obtain rfl := Option.some.inj taken
      refine less_of_writer (by simp [place, Writer.rank]) ?_
      cases state.segment <;> simp [turns, Semaphores.set]
    | failed place => simp [writerStep, place] at taken
  | cleaning exited cleaning =>
    cases cleaning with
    | removeSet place _ | removeSegment place _ =>
      simp only [writerStep, place] at taken
      obtain rfl := Option.some.inj taken
      exact less_of_writer (by simp [place, Writer.rank]) (by simp [turns])
    | exited place => simp [writerStep, place] at taken
    | failed place => simp [writerStep, place] at taken

/-- A turn that arrives pays for the steps of the reader up to its next wait. -/
theorem less_of_reader {reader : Reader} {semaphores : Option Semaphores} {output : List Byte}
    {received : Totals}
    (less : reader.rank + 10 * turns state.segment semaphores <
      state.reader.rank + 10 * turns state.segment state.semaphores) :
    measure { state with
      reader := reader, semaphores := semaphores, output := output, received := received } <
        measure state := by
  simp only [measure]
  omega

/-- The reader takes a turn only where it finds the segment. -/
theorem reader_decreases (kept : Kept input state) (taken : readerStep state = some next) :
    measure next < measure state := by
  cases place : state.reader with
  | semget =>
    simp only [readerStep, place] at taken
    obtain rfl := Option.some.inj taken
    refine less_of_reader ?_
    split <;> simp [place, Reader.rank]
  | shmget =>
    simp only [readerStep, place] at taken
    obtain rfl := Option.some.inj taken
    refine less_of_reader ?_
    split <;> simp [place, Reader.rank]
  | reserve =>
    have given : state.segment = true ∧ state.semaphores = some ⟨0, 1⟩ := by
      cases kept with
      | preparing _ early =>
        rcases early with other | other | other <;> cases place.symm.trans other
      | filling _ _ values => simp [blocked_step values place] at taken
      | given _ segment values => exact ⟨segment, values⟩
      | draining _ _ values => simp [blocked_step values place] at taken
      | returned _ values => simp [blocked_step values place] at taken
      | ended _ _ exited => cases place.symm.trans exited
      | cleaning exited => cases place.symm.trans exited
    obtain ⟨segment, values⟩ := given
    simp only [readerStep, place, values] at taken
    obtain rfl := Option.some.inj taken
    refine less_of_reader ?_
    simp [turns, segment, values, place, Reader.rank, Semaphores.set, Semaphores.value]
  | test =>
    simp only [readerStep, place] at taken
    obtain rfl := Option.some.inj taken
    refine less_of_reader ?_
    split <;> simp [place, Reader.rank]
  | add | write | detach =>
    simp only [readerStep, place] at taken
    obtain rfl := Option.some.inj taken
    exact less_of_reader (by simp [place, Reader.rank])
  | release | finish =>
    obtain ⟨_, segment, values, _⟩ := kept.reader_turn (by rw [place]; rfl)
    simp only [readerStep, place, values] at taken
    obtain rfl := Option.some.inj taken
    simp [measure, place, Reader.rank, turns, segment, values, Semaphores.set]
  | exited => simp [readerStep, place] at taken
  | failed => simp [readerStep, place] at taken

theorem step_decreases {action : Action} (kept : Kept input state)
    (taken : step input state action = some next) : measure next < measure state := by
  cases action with
  | writer => exact writer_decreases kept taken
  | reader => exact reader_decreases kept taken
  | read count =>
    obtain ⟨⟨place, _, most, last⟩, same⟩ := Option.ite_none_right_eq_some.mp taken
    obtain rfl := Option.some.inj same
    simp only [measure, place, Writer.rank, List.length_drop]
    split
    next zero => omega
    next more => omega
  | readFails =>
    obtain ⟨place, same⟩ := Option.ite_none_right_eq_some.mp taken
    obtain rfl := Option.some.inj same
    exact less_of_writer (Writer.rank_pos _ (by simp [place]) (by simp [place])) (Nat.le_succ _)
  | writerFails =>
    obtain ⟨⟨running, going⟩, same⟩ := Option.ite_none_right_eq_some.mp taken
    obtain rfl := Option.some.inj same
    exact less_of_writer (Writer.rank_pos _ running going) (Nat.le_succ _)
  | readerFails =>
    obtain ⟨⟨running, going⟩, same⟩ := Option.ite_none_right_eq_some.mp taken
    obtain rfl := Option.some.inj same
    exact less_of_reader (Nat.add_lt_add_right (Reader.rank_pos running going) _)
  | partialWrite count =>
    obtain ⟨⟨place, _⟩, same⟩ := Option.ite_none_right_eq_some.mp taken
    obtain rfl := Option.some.inj same
    exact less_of_reader (by simp [place, Reader.rank])
  | writerInterrupted | readerInterrupted =>
    obtain ⟨⟨some_left, _⟩, same⟩ := Option.ite_none_right_eq_some.mp taken
    obtain rfl := Option.some.inj same
    simp only [measure]
    omega

/-- A step that ends no program early. -/
def going (_ : State) : Action → Bool
  | .readFails | .writerFails | .readerFails | .partialWrite _ => false
  | .writer | .read _ | .writerInterrupted | .reader | .readerInterrupted => true

/-- No program ends early, and the reader is started once the segment is there. -/
def calm (state : State) : Action → Bool
  | .readFails | .writerFails | .readerFails | .partialWrite _ => false
  | .reader => state.segment || !(state.reader = .semget || state.reader = .shmget)
  | _ => true

/-- Where neither program has ended early, and not both have exited, a step is possible
that ends no program early. -/
theorem Kept.progress (kept : Kept input state) (writing : state.writer ≠ .failed)
    (reading : state.reader ≠ .failed) : (state.writer = .exited ∧ state.reader = .exited ∧
      (state.semaphores = none ∧ state.segment = false) ∧ state.remaining = []) ∨
        ∃ action next, calm state action = true ∧ step input state action = some next := by
  cases kept with
  | preparing segment early preparing =>
    refine .inr ⟨.writer, ?_⟩
    cases preparing <;> simp_all [step, writerStep, calm]
  | filling transit segment values outside filling =>
    cases filling with
    | read place _ =>
      refine .inr ⟨.read (min BUF_SIZE state.remaining.length), _, rfl, if_pos ⟨place, ?_⟩⟩
      refine ⟨Nat.min_le_left _ _, Nat.min_le_right _ _, fun zero => ?_⟩
      have : 0 < BUF_SIZE := by decide
      exact List.eq_nil_of_length_eq_zero (by omega)
    | store count place => exact .inr ⟨.writer, _, rfl, by simp only [step, writerStep, place]; rfl⟩
    | release place _ =>
      exact .inr ⟨.writer, _, rfl, by simp only [step, writerStep, place, values]; rfl⟩
    | failed place => exact absurd place writing
  | given transit segment values outside =>
    refine .inr ⟨.reader, ?_⟩
    rcases outside with place | place | place | place
    · exact ⟨_, by simp [calm, segment], by simp only [step, readerStep, place]; rfl⟩
    · exact ⟨_, by simp [calm, segment], by simp only [step, readerStep, place]; rfl⟩
    · exact ⟨_, by simp [calm, segment], by simp only [step, readerStep, place, values]; rfl⟩
    · exact absurd place reading
  | draining transit segment values behind draining =>
    refine .inr ⟨.reader, ?_⟩
    cases draining with
    | test place _ => exact ⟨_, by simp [calm, segment], by simp only [step, readerStep, place]; rfl⟩
    | use place _ _ =>
      rcases place with place | place
      · exact ⟨_, by simp [calm, segment], by simp only [step, readerStep, place]; rfl⟩
      · exact ⟨_, by simp [calm, segment], by simp only [step, readerStep, place]; rfl⟩
    | release place _ _ =>
      exact ⟨_, by simp [calm, segment], by simp only [step, readerStep, place, values]; rfl⟩
    | leave place _ _ _ =>
      rcases place with place | place
      · exact ⟨_, by simp [calm, segment], by simp only [step, readerStep, place]; rfl⟩
      · exact ⟨_, by simp [calm, segment], by simp only [step, readerStep, place, values]; rfl⟩
    | failed place => exact absurd place reading
  | returned segment values outside resuming =>
    refine .inr ⟨.writer, ?_⟩
    cases resuming with
    | more place _ =>
      rcases place with place | place
      · exact ⟨_, rfl, by simp only [step, writerStep, place]; rfl⟩
      · exact ⟨_, rfl, by simp only [step, writerStep, place]; rfl⟩
    | reserve place => exact ⟨_, rfl, by simp only [step, writerStep, place, values]; rfl⟩
    | failed place => exact absurd place writing
  | ended segment values exited behind zero =>
    refine .inr ⟨.writer, ?_⟩
    cases behind with
    | test place => exact ⟨_, rfl, by simp only [step, writerStep, place]; rfl⟩
    | more _ more => exact absurd zero more
    | finish place _ => exact ⟨_, rfl, by simp only [step, writerStep, place, values]; rfl⟩
    | failed place => exact absurd place writing
  | cleaning exited cleaning last =>
    cases cleaning with
    | removeSet place _ =>
      exact .inr ⟨.writer, _, rfl, by simp only [step, writerStep, place]; rfl⟩
    | removeSegment place _ =>
      exact .inr ⟨.writer, _, rfl, by simp only [step, writerStep, place]; rfl⟩
    | exited place gone removed => exact .inl ⟨place, exited, ⟨gone, removed⟩, last⟩
    | failed place => exact absurd place writing

theorem complete_of_exited (reached : (machine input).Reachable state)
    (writer : state.writer = .exited) (reader : state.reader = .exited)
    (removed : state.semaphores = none ∧ state.segment = false) (last : state.remaining = []) :
    Complete input state := by
  have output := (kept_reachable reached).finished reader
  have counted := counted_reachable reached
  have sent := counted.sent (by simp [writer])
  have received := counted.received (by simp [reader])
  have transfers := counted.transfers (by simp [writer]) (by simp [reader])
  rw [writer, last] at sent
  rw [reader, output] at received
  rw [writer, reader] at transfers
  have bytes : state.sent.bytes = BitVec.ofNat 32 input.content.length := by
    simpa [Writer.uncounted] using sent
  have counters : state.received = state.sent := by
    ext1
    · simpa [Reader.unwritten] using received.trans (congrArg (· + 0) bytes.symm)
    · simpa [Writer.late, uncounted] using transfers.symm
  exact ⟨writer, reader, removed, output, bytes, counters⟩

theorem semop_present {semaphores : Option Semaphores} (present : semaphores.isSome = true)
    (semNum : SemNum) :
    reserveSem semaphores semNum ≠ .removed ∧ releaseSem semaphores semNum ≠ .removed := by
  obtain ⟨values, rfl⟩ := Option.isSome_iff_exists.mp present
  simp only [reserveSem, releaseSem]
  constructor
  · split <;> exact Semop.noConfusion
  · exact Semop.noConfusion

theorem writerSemop_running {place : Writer} {semop : Semop} (present : semop ≠ .removed)
    (going : place ≠ .failed) (taken : writerSemop state place semop = some next) :
    next.writer ≠ .failed ∧ next.reader = state.reader := by
  cases semop with
  | done semaphores =>
    obtain rfl := Option.some.inj taken
    exact ⟨going, rfl⟩
  | blocks => cases taken
  | removed => exact absurd rfl present

theorem readerSemop_running {place : Reader} {semop : Semop} (present : semop ≠ .removed)
    (going : place ≠ .failed) (taken : readerSemop state place semop = some next) :
    next.reader ≠ .failed ∧ next.writer = state.writer := by
  cases semop with
  | done semaphores =>
    obtain rfl := Option.some.inj taken
    exact ⟨going, rfl⟩
  | blocks => cases taken
  | removed => exact absurd rfl present

/-- The set is there as long as the writer, or a reader that has found the segment, uses it. -/
theorem Kept.present (kept : Kept input state)
    (uses : state.writer = .reserve ∨ state.writer = .release ∨ state.writer = .finish ∨
      state.segment = true ∧ state.reader ≠ .exited) : state.semaphores.isSome = true := by
  cases kept with
  | preparing absent _ preparing => cases preparing <;> simp_all
  | filling _ _ values => rw [values]; rfl
  | given _ _ values => rw [values]; rfl
  | draining _ _ values => rw [values]; rfl
  | returned _ values => rw [values]; rfl
  | ended _ values => rw [values]; rfl
  | cleaning exited cleaning => cases cleaning <;> simp_all

theorem writer_running (kept : Kept input state) (writing : state.writer ≠ .failed)
    (taken : writerStep input state = some next) :
    next.writer ≠ .failed ∧ next.reader = state.reader := by
  cases place : state.writer with
  | reserve =>
    have present := kept.present (.inl place)
    simp only [writerStep, place] at taken
    exact writerSemop_running (semop_present present _).1 Writer.noConfusion taken
  | release =>
    have present := kept.present (.inr (.inl place))
    simp only [writerStep, place] at taken
    exact writerSemop_running (semop_present present _).2 Writer.noConfusion taken
  | finish =>
    have present := kept.present (.inr (.inr (.inl place)))
    simp only [writerStep, place] at taken
    exact writerSemop_running (semop_present present _).1 Writer.noConfusion taken
  | test =>
    simp only [writerStep, place] at taken
    obtain rfl := Option.some.inj taken
    refine ⟨?_, rfl⟩
    simp only
    split <;> exact Writer.noConfusion
  | semget | initSemAvailable | initSemInUse | shmget | store _ | add | removeSet | removeSegment =>
    simp only [writerStep, place] at taken
    obtain rfl := Option.some.inj taken
    exact ⟨Writer.noConfusion, rfl⟩
  | read | exited => simp [writerStep, place] at taken
  | failed => exact absurd place writing

/-- A reader that is started behind the writer finds both keys. -/
theorem reader_running (kept : Kept input state) (reading : state.reader ≠ .failed)
    (admitted : calm state .reader = true) (taken : readerStep state = some next) :
    next.reader ≠ .failed ∧ next.writer = state.writer := by
  cases place : state.reader with
  | semget =>
    have segment : state.segment = true := by simpa [calm, place] using admitted
    have present := kept.present (.inr (.inr (.inr ⟨segment, by simp [place]⟩)))
    simp only [readerStep, place, present, if_true] at taken
    obtain rfl := Option.some.inj taken
    exact ⟨Reader.noConfusion, rfl⟩
  | shmget =>
    have segment : state.segment = true := by simpa [calm, place] using admitted
    simp only [readerStep, place, segment, if_true] at taken
    obtain rfl := Option.some.inj taken
    exact ⟨Reader.noConfusion, rfl⟩
  | reserve =>
    obtain ⟨values, present, _⟩ := kept.initialised (.inl place)
    simp only [readerStep, place] at taken
    exact readerSemop_running (semop_present (by rw [present]; rfl) _).1 Reader.noConfusion taken
  | release | finish =>
    obtain ⟨values, present, _⟩ := kept.initialised (.inr (by rw [place]; rfl))
    simp only [readerStep, place] at taken
    rw [present] at taken
    have going := readerSemop_running (semop_present rfl _).2 Reader.noConfusion taken
    exact going
  | test =>
    simp only [readerStep, place] at taken
    obtain rfl := Option.some.inj taken
    refine ⟨?_, rfl⟩
    simp only
    split <;> exact Reader.noConfusion
  | add | write | detach =>
    simp only [readerStep, place] at taken
    obtain rfl := Option.some.inj taken
    exact ⟨Reader.noConfusion, rfl⟩
  | exited => simp [readerStep, place] at taken
  | failed => exact absurd place reading

theorem calm_running {action : Action} (kept : Kept input state)
    (running : state.writer ≠ .failed ∧ state.reader ≠ .failed)
    (admitted : calm state action = true) (taken : step input state action = some next) :
    next.writer ≠ .failed ∧ next.reader ≠ .failed := by
  cases action with
  | writer =>
    obtain ⟨writing, same⟩ := writer_running kept running.1 taken
    exact ⟨writing, same ▸ running.2⟩
  | reader =>
    obtain ⟨reading, same⟩ := reader_running kept running.2 admitted taken
    exact ⟨same ▸ running.1, reading⟩
  | read count =>
    obtain ⟨_, same⟩ := Option.ite_none_right_eq_some.mp taken
    obtain rfl := Option.some.inj same
    exact ⟨Writer.noConfusion, running.2⟩
  | writerInterrupted | readerInterrupted =>
    obtain ⟨_, same⟩ := Option.ite_none_right_eq_some.mp taken
    obtain rfl := Option.some.inj same
    exact running
  | readFails | writerFails | readerFails | partialWrite _ => cases admitted

theorem going_of_calm {action : Action} (admitted : calm state action = true) :
    going state action = true := by
  cases action <;> first | rfl | cases admitted

/-- Every run is finite. Where only a failure could go on, both programs are through, unless
one has ended early; in a calm run none does. -/
theorem transfer_completes (input : Input) : (machine input).Terminates ∧
    (∀ state, (machine input).Reachable state → ((machine input).guarded going).Stuck state →
      state.writer = .failed ∨ state.reader = .failed ∨ Complete input state) ∧
    ∀ state, ((machine input).guarded calm).Reachable state →
      ((machine input).guarded calm).Stuck state → Complete input state := by
  refine ⟨?_, ?_, ?_⟩
  · exact Machine.terminates_of_measure fun reached taken =>
      step_decreases (kept_reachable reached) taken
  · intro state reached stuck
    by_cases writing : state.writer = .failed
    · exact .inl writing
    by_cases reading : state.reader = .failed
    · exact .inr (.inl reading)
    rcases (kept_reachable reached).progress writing reading with through | enabled
    · obtain ⟨writer, reader, removed, last⟩ := through
      exact .inr (.inr (complete_of_exited reached writer reader removed last))
    · obtain ⟨action, next, admitted, taken⟩ := enabled
      cases (stuck action).symm.trans (Machine.guarded_step.mpr ⟨going_of_calm admitted, taken⟩)
  · intro state reached stuck
    have running := Machine.guarded_invariant kept_reachable (by simp [machine]) calm_running reached
    rcases (kept_reachable reached.of_guarded).progress running.1 running.2 with through | enabled
    · obtain ⟨writer, reader, removed, last⟩ := through
      exact complete_of_exited reached.of_guarded writer reader removed last
    · obtain ⟨action, next, admitted, taken⟩ := enabled
      cases (stuck action).symm.trans (Machine.guarded_step.mpr ⟨admitted, taken⟩)

end LinuxProgramming.BlockTransfer
