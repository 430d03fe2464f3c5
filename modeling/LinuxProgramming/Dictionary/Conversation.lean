import LinuxProgramming.Dictionary.Remote
import LinuxProgramming.Foundation.Machine

/-! A client and its server over a stream socket.

The kernel keeps the bytes of each direction in order, and each `recv` returns
some of those that are there. Both programs take whatever one `recv` returns
for a whole record, so the bytes of one message can end up in the next.
-/

set_option autoImplicit false

namespace LinuxProgramming.Dictionary
open Foundation

/-- The server's file, and what the two records hold before the first message. -/
structure Connection where
  transport : Transport
  stream : transport ≠ .datagram
  bytes : List Byte
  tryit : Dictrec
  sought : Dictrec

/-- The server's child and the client, with the bytes in flight between them.
`waiting` is the word of a call that has not returned; the answers are those of
the calls that have. -/
structure Conversation where
  serving : Bool
  static : Option (List Dictrec)
  tryit : Dictrec
  sought : Dictrec
  waiting : Option Word
  requests : List Byte
  replies : List Byte
  answers : List (Word × Code × Option (List Byte))
  deriving DecidableEq

inductive Action where
  | send (word : Word)
  | serverRecv (n : Nat)
  | clientRecv (n : Nat)
  deriving DecidableEq

namespace Connection

/-- The client sends its record, and waits for the answer. -/
def ask (state : Conversation) (word : Word) : Option Conversation :=
  match state.waiting with
  | some _ => none
  | none => some { state with
      sought := state.sought.ask word
      waiting := some word
      requests := state.requests ++ (state.sought.ask word).bytes }

/-- The server answers what one `recv` has left in its record; a server that
cannot answer has ended. -/
def serve (connection : Connection) (state : Conversation) (n : Nat) : Option Conversation :=
  if state.serving ∧ 1 ≤ n ∧ n ≤ sizeof ∧ n ≤ state.requests.length then
    -- The number of bytes is not looked at: what is missing is what the record held before.
    let received := state.tryit.overwrite (state.requests.take n)
    match connection.transport.server connection.bytes state.static received with
    | some (mapped, reply) => some { state with
        static := some mapped
        tryit := reply
        requests := state.requests.drop n
        replies := state.replies ++ reply.bytes }
    | none => some { state with serving := false, requests := state.requests.drop n }
  else none

/-- The client's `recv`, which returns 0 when the server has ended and all is read. -/
def receive (state : Conversation) (n : Nat) : Option Conversation :=
  match state.waiting with
  | none => none
  | some word =>
    if n ≤ sizeof ∧ n ≤ state.replies.length ∧
        (1 ≤ n ∨ state.serving = false ∧ state.replies = []) then
      match decode (state.sought.overwrite (state.replies.take n)) with
      | some (code, sought) => some { state with
          sought := sought
          waiting := none
          replies := state.replies.drop n
          answers := state.answers ++ [(word, observed (code, sought))] }
      | none => none
    else none

def machine (connection : Connection) : Machine Conversation Action where
  start := {
    serving := true
    static := none
    tryit := connection.tryit
    sought := connection.sought
    waiting := none
    requests := []
    replies := []
    answers := [] }
  step
    | state, .send word => ask state word
    | state, .serverRecv n => connection.serve state n
    | state, .clientRecv n => receive state n

/-- What the server's lookup finds for a word. -/
def expected (bytes : List Byte) (word : Word) : Option (Code × Option (List Byte)) :=
  (lookup5 bytes none (Dictrec.zero.ask word)).map fun result => observed result.2

/-- Every `recv` returns a whole record, and no word is asked whose text is that of a miss. -/
def whole (connection : Connection) (_ : Conversation) : Action → Bool
  | .send word => expected connection.bytes word ≠ some (.found, some XXXX)
  | .serverRecv n | .clientRecv n => n = sizeof

/-- All calls that have returned, have returned what the server's lookup finds. -/
def Right (connection : Connection) (state : Conversation) : Prop :=
  ∀ answered ∈ state.answers, expected connection.bytes answered.1 = some answered.2

/-- Where a conversation in whole records can stand. -/
inductive InStep (bytes : List Byte) (state : Conversation) : Prop where
  | idle (serving : state.serving = true) (waiting : state.waiting = none)
      (requests : state.requests = []) (replies : state.replies = [])
  | asked (word : Word) (serving : state.serving = true) (waiting : state.waiting = some word)
      (same : state.sought.word.text = word.chars) (terminated : state.sought.word.Terminated)
      (distinct : expected bytes word ≠ some (.found, some XXXX))
      (requests : state.requests = state.sought.bytes) (replies : state.replies = [])
  | replied (word : Word) (reply : Dictrec) (code : Code) (serving : state.serving = true)
      (waiting : state.waiting = some word) (decoded : decode reply = some (code, reply))
      (right : expected bytes word = some (observed (code, reply)))
      (requests : state.requests = []) (replies : state.replies = reply.bytes)
  | ended (word : Word) (serving : state.serving = false) (waiting : state.waiting = some word)
      (lost : expected bytes word = none)
      (requests : state.requests = []) (replies : state.replies = [])

/-- The table that the server keeps is the one that a first lookup would map. -/
def Kept (bytes : List Byte) (static : Option (List Dictrec)) : Prop :=
  ∀ mapped, static = some mapped → mapOnce bytes none = some mapped

theorem Kept.mapOnce {bytes : List Byte} {static : Option (List Dictrec)} (kept : Kept bytes static) :
    mapOnce bytes static = Dictionary.mapOnce bytes none := by
  cases static with
  | none => rfl
  | some mapped => exact (kept mapped rfl).symm

/-- The outcome of a lookup depends on the word only. -/
theorem expected_eq (bytes : List Byte) (word : Word) :
    expected bytes word = (mapOnce bytes none).bind fun mapped =>
      (lookedUp mapped word.chars (Dictrec.zero.ask word)).map observed := by
  rw [expected, lookup5_eq _ _ (Dictrec.ask_terminated _ word), Dictrec.ask_word_text]
  cases mapOnce bytes none with
  | none => rfl
  | some mapped => simp [Option.map_map, Function.comp_def]

/-- One exchange in whole records: the reply is read as what the lookup finds,
or there is no reply and no outcome. -/
theorem respond_expected {bytes : List Byte} {static : Option (List Dictrec)}
    (kept : Kept bytes static) {sought : Dictrec} {word : Word}
    (terminated : sought.word.Terminated) (same : sought.word.text = word.chars)
    (distinct : expected bytes word ≠ some (.found, some XXXX)) :
    (respond bytes static sought = none ∧ expected bytes word = none) ∨
      ∃ mapped reply code, respond bytes static sought = some (mapped, reply) ∧
        mapOnce bytes none = some mapped ∧ decode reply = some (code, reply) ∧
        expected bytes word = some (observed (code, reply)) := by
  rw [expected_eq] at distinct ⊢
  rw [respond, lookup5_eq _ _ terminated, kept.mapOnce, same]
  cases table : mapOnce bytes none with
  | none => exact .inl ⟨rfl, rfl⟩
  | some mapped =>
    simp only [table, Option.bind_some, lookedUp] at distinct ⊢
    cases found : bsearch (dict_cmp word.chars) mapped with
    | none =>
      refine .inr ⟨mapped, missing sought, .notfound, ?_, rfl, ?_, rfl⟩
      · simp [missing, Buffer.strcpy_fits _ (by decide : XXXX.length < TEXT)]
      · have reply : (missing sought).text.Terminated := Buffer.terminated_overwrite (by decide)
        simp [decode, Buffer.string_of_terminated reply, missing_text]
    | some dr =>
      simp only [found] at distinct
      by_cases stored : dr.text.Terminated
      · have text : dr.text.text ≠ XXXX := by
          simpa [stored, observed, fill_text _ stored] using distinct
        refine .inr ⟨mapped, fill sought dr, .found, ?_, rfl, ?_, ?_⟩
        · simp [stored]
        · simp [decode, Buffer.string_of_terminated (fill_terminated sought stored),
            fill_text sought stored, text]
        · simp [stored, observed, fill_text _ stored]
      · exact .inl (by simp [stored])

theorem server_eq (transport : Transport) : transport.server = respond := by
  cases transport <;> rfl

/-- A `recv` of a whole record that is alone in flight. -/
theorem overwrite_record (dr sent : Dictrec) : dr.overwrite (sent.bytes.take sizeof) = sent := by
  rw [List.take_of_length_le (Nat.le_of_eq sent.bytes_length), Dictrec.overwrite_bytes]

theorem drop_record (sent : Dictrec) : sent.bytes.drop sizeof = [] :=
  List.drop_of_length_le (Nat.le_of_eq sent.bytes_length)

/-- The invariant of the conversations in whole records. -/
structure Steady (connection : Connection) (state : Conversation) : Prop where
  kept : Kept connection.bytes state.static
  right : Right connection state
  inStep : InStep connection.bytes state

variable {connection : Connection} {state next : Conversation}

theorem Steady.send (steady : Steady connection state) {word : Word}
    (distinct : expected connection.bytes word ≠ some (.found, some XXXX))
    (taken : ask state word = some next) : Steady connection next := by
  obtain ⟨kept, right, inStep⟩ := steady
  unfold ask at taken
  cases inStep with
  | idle serving waiting requests replies =>
    simp only [waiting, Option.some.injEq] at taken
    subst taken
    refine ⟨kept, right, .asked word serving rfl ?_ ?_ distinct ?_ replies⟩
    · exact Dictrec.ask_word_text _ word
    · exact Dictrec.ask_terminated _ word
    · simp [requests]
  | asked _ _ waiting => simp [waiting] at taken
  | replied _ _ _ _ waiting => simp [waiting] at taken
  | ended _ _ waiting => simp [waiting] at taken

theorem Steady.serve (steady : Steady connection state)
    (taken : connection.serve state sizeof = some next) : Steady connection next := by
  obtain ⟨kept, right, inStep⟩ := steady
  unfold Connection.serve at taken
  split at taken
  next guard =>
    obtain ⟨-, -, -, available⟩ := guard
    cases inStep with
    | asked word serving waiting same terminated distinct requests replies =>
      simp only [requests, overwrite_record, drop_record, replies, server_eq, List.nil_append] at taken
      rcases respond_expected kept terminated same distinct with
        ⟨died, lost⟩ | ⟨mapped, reply, code, responded, table, decoded, outcome⟩
      · simp only [died, Option.some.injEq] at taken
        subst taken
        exact ⟨kept, right, .ended word rfl waiting lost rfl rfl⟩
      · simp only [responded, Option.some.injEq] at taken
        subst taken
        refine ⟨?_, right, .replied word reply code serving waiting decoded outcome rfl rfl⟩
        rintro other ⟨⟩
        exact table
    | idle _ _ requests => simp [requests] at available
    | replied _ _ _ _ _ _ _ requests => simp [requests] at available
    | ended _ _ _ _ requests => simp [requests] at available
  next => cases taken

theorem Steady.receive (steady : Steady connection state)
    (taken : receive state sizeof = some next) : Steady connection next := by
  obtain ⟨kept, right, inStep⟩ := steady
  unfold Connection.receive at taken
  cases inStep with
  | replied word reply code serving waiting decoded outcome requests replies =>
    simp only [waiting, replies, overwrite_record, drop_record, decoded] at taken
    split at taken
    next =>
      cases taken
      refine ⟨kept, ?_, .idle serving rfl requests rfl⟩
      intro answered member
      rcases List.mem_append.mp member with earlier | last
      · exact right answered earlier
      · rw [List.mem_singleton.mp last]
        exact outcome
    next => cases taken
  | idle _ waiting => simp [waiting] at taken
  | asked _ _ waiting _ _ _ _ replies => simp [waiting, replies] at taken
  | ended _ _ waiting _ _ replies => simp [waiting, replies] at taken

theorem steady_of_reachable
    (reached : (connection.machine.guarded (whole connection)).Reachable state) :
    Steady connection state := by
  refine Machine.invariant ?_ ?_ reached
  · refine ⟨?_, ?_, .idle rfl rfl rfl rfl⟩
    · rintro mapped ⟨⟩
    · rintro answered ⟨⟩
  · intro state action next steady stepped
    obtain ⟨admitted, taken⟩ := Machine.guarded_step.mp stepped
    cases action with
    | send word => exact steady.send (of_decide_eq_true admitted) taken
    | serverRecv n =>
      rw [of_decide_eq_true admitted] at taken
      exact steady.serve taken
    | clientRecv n =>
      rw [of_decide_eq_true admitted] at taken
      exact steady.receive taken

/-- Every call that waits can still return: its server answers, unless it has no answer. -/
def CanReturn (connection : Connection) (state : Conversation) : Prop :=
  ∀ word, state.waiting = some word → (expected connection.bytes word).isSome →
    ∃ schedule next, (connection.machine.guarded (whole connection)).exec state schedule = some next ∧
      next.waiting = none

theorem receive_replied (connection : Connection) {word : Word} {reply : Dictrec} {code : Code}
    (waiting : state.waiting = some word) (decoded : decode reply = some (code, reply))
    (replies : state.replies = reply.bytes) :
    ∃ next, (connection.machine.guarded (whole connection)).step state (.clientRecv sizeof) =
      some next ∧ next.waiting = none := by
  have taken : ∃ next, receive state sizeof = some next ∧ next.waiting = none := by
    have some_read : 1 ≤ sizeof := by decide
    simp [receive, waiting, replies, overwrite_record, decoded, some_read]
  obtain ⟨next, received, returned⟩ := taken
  exact ⟨next, Machine.guarded_step.mpr ⟨by simp [whole], received⟩, returned⟩

theorem serve_asked (connection : Connection) (serving : state.serving = true)
    (requests : state.requests = state.sought.bytes) :
    ∃ next, (connection.machine.guarded (whole connection)).step state (.serverRecv sizeof) =
      some next ∧ next.waiting = state.waiting ∧ next.requests = [] := by
  have taken : ∃ next, connection.serve state sizeof = some next ∧
      next.waiting = state.waiting ∧ next.requests = [] := by
    simp only [serve, serving, requests, drop_record]
    rw [if_pos ⟨trivial, by decide, Nat.le_refl _, Nat.le_of_eq (Dictrec.bytes_length _).symm⟩]
    split <;> simp
  obtain ⟨next, served, same, read⟩ := taken
  exact ⟨next, Machine.guarded_step.mpr ⟨by simp [whole], served⟩, same, read⟩

theorem canReturn_of_steady (steady : Steady connection state) : CanReturn connection state := by
  intro word waiting found
  cases steady.inStep with
  | idle _ nothing => simp [nothing] at waiting
  | ended asked _ same lost =>
    cases waiting.symm.trans same
    simp [lost] at found
  | replied _ reply code _ same decoded _ _ replies =>
    obtain ⟨next, received, returned⟩ := receive_replied connection same decoded replies
    exact ⟨[.clientRecv sizeof], next, by simp [Machine.exec, received], returned⟩
  -- The server has to read the request first; what it leaves behind is the reply to wait for.
  | asked asked serving same _ _ _ requests _ =>
    cases waiting.symm.trans same
    obtain ⟨middle, served, still, read⟩ := serve_asked connection serving requests
    have after := steady.serve (Machine.guarded_step.mp served).2
    cases after.inStep with
    | idle _ nothing => simp [nothing, waiting] at still
    | asked _ _ _ _ _ _ full =>
      have sizes := congrArg List.length (full.symm.trans read)
      simp at sizes
    | ended _ _ also lost =>
      cases (still.trans waiting).symm.trans also
      simp [lost] at found
    | replied _ reply code _ also decoded _ _ replies =>
      obtain ⟨next, received, returned⟩ := receive_replied connection also decoded replies
      exact ⟨[.serverRecv sizeof, .clientRecv sizeof], next,
        by simp [Machine.exec, served, received], returned⟩

/-- In every run whose `recv`s return whole records, every answer is that of the
server's lookup, and every call whose word has an answer can return. -/
theorem answers_right
    (reached : (connection.machine.guarded (whole connection)).Reachable state) :
    Right connection state ∧ CanReturn connection state := by
  have steady := steady_of_reachable reached
  exact ⟨steady.right, canReturn_of_steady steady⟩

/-- The client's first record is empty, and so is the server's. -/
def onlyX : Connection where
  transport := .unix
  stream := by decide
  bytes := file (defining ['x'.toUInt8])
  tryit := Dictrec.zero
  sought := Dictrec.zero

def wordZ : Word := ⟨['z'.toUInt8], by decide, by decide⟩

theorem whole_runs :
    ((onlyX.machine.guarded (whole onlyX)).exec onlyX.machine.start
      [.send wordZ, .serverRecv sizeof, .clientRecv sizeof]).map (·.answers) =
        some [(wordZ, .notfound, none)] := by
  decide +kernel

/-- A missing word, answered in whole records. -/
theorem answers_right_whole :
    ∃ state : Conversation, (onlyX.machine.guarded (whole onlyX)).Reachable state ∧
      state.answers = [(wordZ, .notfound, none)] ∧ Right onlyX state ∧ CanReturn onlyX state := by
  obtain ⟨state, reached, answers⟩ := Machine.exists_reachable whole_runs
  exact ⟨state, reached, answers, answers_right reached⟩

theorem short_runs :
    (onlyX.machine.exec onlyX.machine.start
      [.send wordZ, .serverRecv sizeof, .clientRecv WORD]).map (·.answers) =
        some [(wordZ, .found, some [])] := by
  decide +kernel

theorem expected_wordZ : expected onlyX.bytes wordZ = some (.notfound, none) := by
  decide +kernel

/-- The client's first `recv` returns the word of the reply only, and takes the
empty text that it has sent for the text of the missing word. -/
theorem short_recv_not_right :
    ¬ ∀ (connection : Connection) (state : Conversation),
      connection.machine.Reachable state → Right connection state := by
  intro always
  obtain ⟨state, reached, answers⟩ := Machine.exists_reachable short_runs
  have right := always onlyX state reached (wordZ, .found, some []) (by simp [answers])
  rw [expected_wordZ] at right
  cases right

end Connection

end LinuxProgramming.Dictionary
