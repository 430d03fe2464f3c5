import LinuxProgramming.Dictionary.MappedLookup

/-! Lookup by a server, for messages that are delivered whole and once.

Request and reply are the same record. The server has no field for the code: a
missing word is answered with the text "XXXX", so a dictionary that stores this
text for a word cannot be told from one without the word.
-/

set_option autoImplicit false

namespace LinuxProgramming.Dictionary
open Foundation

/-- The text that stands for a missing word. -/
def XXXX : List Byte := ['X'.toUInt8, 'X'.toUInt8, 'X'.toUInt8, 'X'.toUInt8]

/-- The server's part of an exchange; the reply is made in the record of the request. -/
def respond (bytes : List Byte) (static : Option (List Dictrec)) (tryit : Dictrec) :
    Option (List Dictrec × Dictrec) := do
  let (mapped, code, tryit) ← lookup5 bytes static tryit
  match code with
  | .found => some (mapped, tryit)
  | .notfound =>
    -- The record has no field for the code.
    let text ← tryit.text.strcpy XXXX
    some (mapped, { tryit with text := text })
  | .unavail => none

/-- How the client reads a reply. -/
def decode (sought : Dictrec) : Option (Code × Dictrec) := do
  let text ← sought.text.string
  if strcmp text XXXX ≠ .eq then some (.found, sought) else some (.notfound, sought)

/-- The client's part: send the record, and receive the reply into it. -/
def request (exchange : List Byte → Option (List Byte)) (sought : Dictrec) :
    Option (Code × Dictrec) := do
  let reply ← exchange sought.bytes
  decode (sought.overwrite reply)

def usock_server := respond
def isock_server := respond
def udp_server := respond

def lookup7 := request
def lookup8 := request
def lookup9 := request

inductive Transport where
  | unix
  | internet
  | datagram
  deriving DecidableEq, Repr

def Transport.server : Transport →
    List Byte → Option (List Dictrec) → Dictrec → Option (List Dictrec × Dictrec)
  | .unix => usock_server
  | .internet => isock_server
  | .datagram => udp_server

def Transport.lookup : Transport →
    (List Byte → Option (List Byte)) → Dictrec → Option (Code × Dictrec)
  | .unix => lookup7
  | .internet => lookup8
  | .datagram => lookup9

/-- The client's lookup with its server, which keeps a table and a record of its own. -/
def remoteLookup (transport : Transport) (bytes : List Byte) (static : Option (List Dictrec))
    (tryit sought : Dictrec) : Option (Code × Dictrec) :=
  transport.lookup
    (fun message => (transport.server bytes static (tryit.overwrite message)).map (·.2.bytes))
    sought

/-- The lookup on the file itself, at its first call. -/
def localLookup (bytes : List Byte) (sought : Dictrec) : Option (Code × Dictrec) :=
  (lookup5 bytes none sought).map Prod.snd

/-- Whatever the local lookup returns, the remote one returns too. -/
def Agrees (here remote : Option (Code × Dictrec)) : Prop :=
  ∀ result, here = some result → ∃ reply, remote = some reply ∧ reply.1 = result.1 ∧
    (result.1 = .found →
      reply.2.word.text = result.2.word.text ∧ reply.2.text.text = result.2.text.text)

/-- The caller's record after a reply without an entry. -/
def missing (sought : Dictrec) : Dictrec :=
  { sought with text := sought.text.overwrite (XXXX ++ [NUL]) }

theorem missing_text (sought : Dictrec) : (missing sought).text.text = XXXX :=
  Buffer.text_overwrite (by decide) (by decide)

/-- The record that the server sends back. -/
def replyTo (records : List Dictrec) (sought : Dictrec) : Dictrec :=
  match entry records sought.word.text with
  | some dr => fill sought dr
  | none => missing sought

variable {records : List Dictrec} {static : Option (List Dictrec)} {sought : Dictrec}

theorem respond_file (sorted : Sorted records) (maps : Maps static records)
    (terminated : sought.word.Terminated) :
    respond (file records) static sought =
      if static = none ∧ records = [] then none else some (records, replyTo records sought) := by
  rw [respond, lookup5_file sorted maps terminated]
  split
  next => rfl
  next =>
    cases found : entry records sought.word.text with
    | some dr => simp [replyTo, found]
    | none => simp [replyTo, found, missing, Buffer.strcpy_fits _ (by decide : XXXX.length < TEXT)]

theorem replyTo_terminated (sorted : Sorted records) :
    (replyTo records sought).text.Terminated := by
  unfold replyTo
  split
  next dr found => exact fill_terminated sought (sorted.wellFormed dr (mem_of_entry found).1).text
  next => exact Buffer.terminated_overwrite (by decide)

/-- The client takes a reply for a hit unless it carries the text of a miss. -/
theorem decode_reply (sorted : Sorted records) :
    decode (replyTo records sought) =
      some (if (replyTo records sought).text.text = XXXX then .notfound else .found,
        replyTo records sought) := by
  rw [decode, Buffer.string_of_terminated (replyTo_terminated sorted)]
  simp only [Option.bind_eq_bind, Option.bind_some, ne_eq, strcmp_eq_iff, ite_not]
  split <;> rfl

theorem remoteLookup_file (transport : Transport) (sorted : Sorted records)
    (maps : Maps static records) (terminated : sought.word.Terminated) (tryit : Dictrec) :
    remoteLookup transport (file records) static tryit sought =
      if static = none ∧ records = [] then none
      else decode (replyTo records sought) := by
  -- The three transports run the same code; only the socket calls differ.
  have exchange : remoteLookup transport (file records) static tryit sought =
      request (fun message => (respond (file records) static (tryit.overwrite message)).map
        (·.2.bytes)) sought := by
    cases transport <;> rfl
  rw [exchange, request, Dictrec.overwrite_bytes, respond_file sorted maps terminated]
  split
  next => rfl
  next => simp [Dictrec.overwrite_bytes]

/-- Remote lookup refines local lookup unless the dictionary stores the text of a miss. -/
theorem remoteLookup_agrees_iff (transport : Transport) (sorted : Sorted records)
    (maps : Maps static records) (terminated : sought.word.Terminated) (tryit : Dictrec) :
    Agrees (localLookup (file records) sought)
        (remoteLookup transport (file records) static tryit sought) ↔
      ¬∃ dr ∈ records, dr.word.text = sought.word.text ∧ dr.text.text = XXXX := by
  have nothing : Maps none records := fun mapped same => by cases same
  rw [localLookup, lookup5_file sorted nothing terminated,
    remoteLookup_file transport sorted maps terminated, decode_reply sorted]
  by_cases empty : records = []
  · simp [Agrees, empty]
  · rw [if_neg (by simp [empty]), if_neg (by simp [empty])]
    cases found : entry records sought.word.text with
    | none =>
      have absent : ¬∃ dr ∈ records, dr.word.text = sought.word.text ∧ dr.text.text = XXXX := by
        rintro ⟨dr, member, same, -⟩
        rw [← same, sorted.entry_of_mem member] at found
        cases found
      simp [Agrees, replyTo, found, missing_text, absent]
    | some dr =>
      obtain ⟨member, same⟩ := mem_of_entry found
      have stored : (∃ dr ∈ records, dr.word.text = sought.word.text ∧ dr.text.text = XXXX) ↔
          dr.text.text = XXXX := by
        constructor
        · rintro ⟨other, inside, word, text⟩
          have unique := sorted.entry_of_mem inside
          rw [word, found] at unique
          rw [Option.some.inj unique]
          exact text
        · exact fun text => ⟨dr, member, same, text⟩
      rw [stored]
      simp [Agrees, replyTo, found, fill_text sought (sorted.wellFormed dr member).text]

/-- A dictionary with the word "a" and this text. -/
def defining (text : List Byte) : List Dictrec :=
  [⟨Buffer.padded ['a'.toUInt8], Buffer.padded text⟩]

theorem defining_sorted {text : List Byte} (fits : text.length < TEXT) : Sorted (defining text) where
  wellFormed := by
    intro dr member
    rw [List.mem_singleton.mp member]
    exact ⟨Buffer.terminated_padded (by decide), Buffer.terminated_padded fits⟩
  increasing := List.pairwise_singleton _ _

/-- The caller's record with the word "a" in it. -/
def askA : Dictrec := ⟨Buffer.padded ['a'.toUInt8], Buffer.zero⟩

theorem askA_terminated : askA.word.Terminated := Buffer.terminated_padded (by decide)

/-- A word with another text is found by its server. -/
theorem remoteLookup_agrees_found :
    Agrees (localLookup (file (defining ['x'.toUInt8])) askA)
      (remoteLookup .unix (file (defining ['x'.toUInt8])) none Dictrec.zero askA) :=
  (remoteLookup_agrees_iff .unix (defining_sorted (by decide)) (fun _ same => by cases same)
    askA_terminated Dictrec.zero).mpr (by decide +kernel)

theorem stored_XXXX :
    (localLookup (file (defining XXXX)) askA).map Prod.fst = some .found ∧
      (remoteLookup .unix (file (defining XXXX)) none Dictrec.zero askA).map Prod.fst =
        some .notfound := by
  decide +kernel

/-- The word "a" with the text "XXXX": lookup5 finds it, and the client does not. -/
theorem remoteLookup_disagrees :
    ¬ ∀ (transport : Transport) (records : List Dictrec) (sought tryit : Dictrec),
      Sorted records → sought.word.Terminated →
        Agrees (localLookup (file records) sought)
          (remoteLookup transport (file records) none tryit sought) := by
  intro always
  have agrees := always .unix (defining XXXX) askA Dictrec.zero (defining_sorted (by decide))
    askA_terminated
  obtain ⟨here, remote⟩ := stored_XXXX
  obtain ⟨result, looked_up, found⟩ := Option.map_eq_some_iff.mp here
  obtain ⟨reply, replied, same, -⟩ := agrees result looked_up
  rw [replied, Option.map_some, Option.some.injEq, same, found] at remote
  cases remote

end LinuxProgramming.Dictionary
