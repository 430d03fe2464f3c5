import LinuxProgramming.Dictionary.Remote

/-! The datagram server between its clients.

There is one record for all of them: a datagram is received over what the last
reply has left in it, and the reply is made in place. What a datagram and its
answer do not cover is therefore still there from earlier clients.
-/

set_option autoImplicit false

namespace LinuxProgramming.Dictionary
open Foundation

abbrev Address := Nat

/-- What a client sends: at least one byte, and no more than a record has. -/
structure Datagram where
  client : Address
  bytes : List Byte
  nonempty : 0 < bytes.length
  fits : bytes.length ≤ sizeof
  deriving DecidableEq

/-- The static table of `lookup`, the record, and the address structure. -/
structure Server where
  static : Option (List Dictrec)
  dr : Dictrec
  server : Address

structure Reply where
  client : Address
  bytes : List Byte
  deriving DecidableEq

/-- The lookup on a word that came over the network and need not hold a NUL:
a comparison stops at the NUL of the word in the table, if that holds one. -/
def lookupReceived (bytes : List Byte) (static : Option (List Dictrec)) (sought : Dictrec) :
    Option (List Dictrec × Code × Dictrec) := do
  let mapped ← mapOnce bytes static
  if sought.word.Terminated ∨ ∀ dr ∈ mapped, dr.word.Terminated then
    match bsearch (dict_cmp sought.word.text) mapped with
    | some dr =>
      let held ← dr.text.string
      let text ← sought.text.strcpy held
      some (mapped, .found, { sought with text := text })
    | none => some (mapped, .notfound, sought)
  else none

/-- One round of the loop; no result means that the server has ended. -/
def serve (bytes : List Byte) (state : Server) (datagram : Datagram) : Option (Server × Reply) := do
  let received := state.dr.overwrite datagram.bytes
  let (mapped, code, tryit) ← lookupReceived bytes state.static received
  match code with
  | .found => some (⟨some mapped, tryit, datagram.client⟩, ⟨datagram.client, tryit.bytes⟩)
  | .notfound =>
    let text ← tryit.text.strcpy XXXX
    let dr := { tryit with text := text }
    some (⟨some mapped, dr, datagram.client⟩, ⟨datagram.client, dr.bytes⟩)
  | .unavail => none

/-- The replies to a sequence of datagrams, in order. -/
def serveAll (bytes : List Byte) : Server → List Datagram → Option (List Reply)
  | _, [] => some []
  | state, datagram :: datagrams => do
    let (next, reply) ← serve bytes state datagram
    let replies ← serveAll bytes next datagrams
    some (reply :: replies)

/-- The reply to the last datagram of a sequence. -/
def lastReply (bytes : List Byte) (state : Server) (earlier : List Datagram) (datagram : Datagram) :
    Option Reply :=
  (serveAll bytes state (earlier ++ [datagram])).bind List.getLast?

/-- On a word that is a string it is the lookup of the other versions. -/
theorem lookupReceived_terminated (bytes : List Byte) (static : Option (List Dictrec))
    {sought : Dictrec} (terminated : sought.word.Terminated) :
    lookupReceived bytes static sought = lookup5 bytes static sought := by
  rw [lookupReceived, lookup5, Buffer.string_of_terminated terminated]
  refine congrArg _ (funext fun mapped => ?_)
  exact if_pos (.inl terminated)

/-- What the server makes of its record. -/
def answered (records : List Dictrec) (dr : Dictrec) : Dictrec :=
  match bsearch (dict_cmp dr.word.text) records with
  | some found => fill dr found
  | none => missing dr

@[simp] theorem answered_word (records : List Dictrec) (dr : Dictrec) :
    (answered records dr).word = dr.word := by
  unfold answered
  split <;> rfl

/-- A dictionary that the server can map, in which both fields of every record are strings. -/
structure Served (records : List Dictrec) : Prop where
  nonempty : records ≠ []
  wellFormed : ∀ dr ∈ records, dr.WellFormed

variable {records : List Dictrec} {state : Server}

theorem serve_file (served : Served records) (maps : Maps state.static records)
    (datagram : Datagram) : serve (file records) state datagram =
      some (⟨some records, answered records (state.dr.overwrite datagram.bytes), datagram.client⟩,
        ⟨datagram.client, (answered records (state.dr.overwrite datagram.bytes)).bytes⟩) := by
  have mapped : mapOnce (file records) state.static = some records := by
    rw [mapOnce_file maps, if_neg fun both => served.nonempty both.2]
  have readable : ∀ dr ∈ records, dr.word.Terminated := fun dr member =>
    (served.wellFormed dr member).word
  unfold serve lookupReceived answered
  generalize state.dr.overwrite datagram.bytes = received
  simp only [mapped, Option.bind_eq_bind, Option.bind_some]
  rw [if_pos (.inr readable)]
  cases found : bsearch (dict_cmp received.word.text) records with
  | none => simp [Buffer.strcpy_fits _ (by decide : XXXX.length < TEXT), missing]
  | some dr =>
    have whole := (served.wellFormed dr (probe_sound found).1).text
    simp [Buffer.string, whole, Buffer.strcpy_fits _ (Buffer.text_length whole), fill]

/-- The server's record after a sequence of datagrams. -/
def recordAfter (records : List Dictrec) (dr : Dictrec) (datagrams : List Datagram) : Dictrec :=
  datagrams.foldl (fun dr datagram => answered records (dr.overwrite datagram.bytes)) dr

/-- Every datagram is answered to its sender, from the record that the earlier ones have left. -/
theorem lastReply_file (served : Served records) (maps : Maps state.static records)
    (earlier : List Datagram) (datagram : Datagram) :
    lastReply (file records) state earlier datagram = some ⟨datagram.client,
      (answered records ((recordAfter records state.dr earlier).overwrite datagram.bytes)).bytes⟩ := by
  have all : ∃ replies, serveAll (file records) state (earlier ++ [datagram]) =
      some (replies ++ [⟨datagram.client, (answered records
        ((recordAfter records state.dr earlier).overwrite datagram.bytes)).bytes⟩]) := by
    induction earlier generalizing state with
    | nil =>
      exact ⟨[], by simp [serveAll, serve_file served maps, recordAfter]⟩
    | cons first earlier ih =>
      have kept : Maps (some records) records := fun mapped same => (Option.some.inj same).symm
      obtain ⟨replies, rest⟩ := @ih ⟨some records,
        answered records (state.dr.overwrite first.bytes), first.client⟩ kept
      refine ⟨⟨first.client, (answered records (state.dr.overwrite first.bytes)).bytes⟩ :: replies, ?_⟩
      simp [serveAll, serve_file served maps, rest, recordAfter]
  obtain ⟨replies, same⟩ := all
  simp [lastReply, same]

/-- The reply goes to the sender, and whatever came earlier it is the same one. -/
def Unmixed (bytes : List Byte) (datagram : Datagram) : Prop :=
  ∀ (dr : Dictrec) (server : Address) (first second : List Datagram),
    ∃ reply, reply.client = datagram.client ∧
      lastReply bytes ⟨none, dr, server⟩ first datagram = some reply ∧
      lastReply bytes ⟨none, dr, server⟩ second datagram = some reply

/-- The reply depends on what the record held exactly when the record shows through. -/
theorem unmixed_iff_record (served : Served records) (datagram : Datagram) :
    Unmixed (file records) datagram ↔ ∀ (dr : Dictrec) (first second : List Datagram),
      answered records ((recordAfter records dr first).overwrite datagram.bytes) =
        answered records ((recordAfter records dr second).overwrite datagram.bytes) := by
  have nothing : Maps none records := fun mapped same => by cases same
  constructor
  · intro unmixed dr first second
    obtain ⟨reply, -, one, another⟩ := unmixed dr 0 first second
    rw [lastReply_file served nothing] at one another
    have same := congrArg Reply.bytes (Option.some.inj (one.trans another.symm))
    exact Dictrec.bytes_injective same
  · intro same dr server first second
    refine ⟨_, rfl, lastReply_file served nothing first datagram, ?_⟩
    rw [same dr first second]
    exact lastReply_file served nothing second datagram

/-- A datagram covers the record if it is a whole record, or if it brings a whole
word whose text fills the rest. -/
def Covers (records : List Dictrec) (datagram : Datagram) : Prop :=
  datagram.bytes.length = sizeof ∨ WORD ≤ datagram.bytes.length ∧
    ∃ dr, bsearch (dict_cmp (cstr (datagram.bytes.take WORD))) records = some dr ∧
      dr.text.text.length + 1 = TEXT

/-- The word that a datagram brings, if it is long enough for one. -/
theorem overwrite_word {source : List Byte} (long : WORD ≤ source.length) (dr : Dictrec) :
    (dr.overwrite source).word.bytes = source.take WORD := by
  have size : (source.take WORD).length = WORD := List.length_take_of_le long
  have rest : dr.word.bytes.drop (source.take WORD).length = [] := by
    rw [List.drop_eq_nil_iff, dr.word.length_eq, size]
  rw [Dictrec.overwrite, Buffer.bytes_overwrite (Nat.le_of_eq size), rest, List.append_nil]

theorem same_of_covers {datagram : Datagram} (covers : Covers records datagram)
    (first second : Dictrec) : answered records (first.overwrite datagram.bytes) =
      answered records (second.overwrite datagram.bytes) := by
  rcases covers with whole | ⟨long, dr, found, filling⟩
  · have word : (datagram.bytes.take WORD).length = WORD := by simp [whole]
    have text : (datagram.bytes.drop WORD).length = TEXT := by simp [whole]
    have same : first.overwrite datagram.bytes = second.overwrite datagram.bytes := by
      rw [Dictrec.overwrite, Dictrec.overwrite, Buffer.overwrite_whole first.word second.word word,
        Buffer.overwrite_whole first.text second.text text]
    rw [same]
  · have answer : ∀ record : Dictrec, answered records (record.overwrite datagram.bytes) =
        fill (record.overwrite datagram.bytes) dr := by
      intro record
      have word : (record.overwrite datagram.bytes).word.text =
          cstr (datagram.bytes.take WORD) := congrArg cstr (overwrite_word long record)
      simp only [answered, word, found]
    have text : (dr.text.text ++ [NUL]).length = TEXT := by simpa using filling
    have word : (first.overwrite datagram.bytes).word = (second.overwrite datagram.bytes).word := by
      ext1
      rw [overwrite_word long, overwrite_word long]
    rw [answer, answer, fill, fill, word,
      Buffer.overwrite_whole (first.overwrite datagram.bytes).text _ text]

/-- The last byte of the record shows through an answer that is not long enough. -/
theorem answered_last (served : Served records) {dr : Dictrec}
    (short : ∀ found, bsearch (dict_cmp dr.word.text) records = some found →
      found.text.text.length + 1 ≠ TEXT) :
    (answered records dr).text.bytes[TEXT - 1]? = dr.text.bytes[TEXT - 1]? := by
  unfold answered
  split
  next found searched =>
    have terminated := (served.wellFormed found (probe_sound searched).1).text
    have below := Buffer.text_length terminated
    have unequal := short found searched
    refine Buffer.overwrite_getElem? _ ?_ (by decide)
    rw [List.length_append, List.length_singleton]
    omega
  next => exact Buffer.overwrite_getElem? _ (by decide) (by decide)

/-- A client that sends a whole record. -/
def wholeRecord (dr : Dictrec) : Datagram where
  client := 0
  bytes := dr.bytes
  nonempty := by rw [dr.bytes_length]; decide
  fits := Nat.le_of_eq dr.bytes_length

theorem recordAfter_whole (records : List Dictrec) (before dr : Dictrec) :
    recordAfter records before [wholeRecord dr] = answered records dr := by
  simp [recordAfter, wholeRecord, Dictrec.overwrite_bytes]

theorem covers_of_same (served : Served records) {datagram : Datagram}
    (same : ∀ (dr : Dictrec) (first second : List Datagram),
      answered records ((recordAfter records dr first).overwrite datagram.bytes) =
        answered records ((recordAfter records dr second).overwrite datagram.bytes)) :
    Covers records datagram := by
  have fits := datagram.fits
  by_contra uncovered
  rw [Covers, not_or] at uncovered
  obtain ⟨partly, missed⟩ := uncovered
  have after := fun first second => same Dictrec.zero [wholeRecord first] [wholeRecord second]
  simp only [recordAfter_whole] at after
  by_cases long : WORD ≤ datagram.bytes.length
  · -- Two earlier records with the word of the datagram, which differ in their last byte only.
    have size : (datagram.bytes.take WORD).length = WORD := List.length_take_of_le long
    let word : Buffer WORD := ⟨datagram.bytes.take WORD, size⟩
    have short : ∀ {dr : Dictrec}, dr.word.bytes = datagram.bytes.take WORD →
        ∀ found, bsearch (dict_cmp dr.word.text) records = some found →
          found.text.text.length + 1 ≠ TEXT := by
      intro dr own found searched filling
      have read : dr.word.text = cstr (datagram.bytes.take WORD) := congrArg cstr own
      exact missed ⟨long, found, read ▸ searched, filling⟩
    have shows : ∀ text : Buffer TEXT, (answered records
        ((answered records ⟨word, text⟩).overwrite datagram.bytes)).text.bytes[TEXT - 1]? =
          text.bytes[TEXT - 1]? := by
      intro text
      have kept : ((answered records ⟨word, text⟩).overwrite datagram.bytes).text.bytes[TEXT - 1]? =
          (answered records ⟨word, text⟩).text.bytes[TEXT - 1]? := by
        have total : sizeof = WORD + TEXT := rfl
        refine Buffer.overwrite_getElem? _ ?_ (by decide)
        rw [List.length_drop]
        omega
      have first : (answered records ⟨word, text⟩).text.bytes[TEXT - 1]? = text.bytes[TEXT - 1]? :=
        answered_last served (short rfl)
      rw [answered_last served (short (overwrite_word long _)), kept, first]
    have equal := congrArg (fun dr : Dictrec => dr.text.bytes[TEXT - 1]?)
      (after ⟨word, Buffer.zero⟩ ⟨word, ⟨List.replicate TEXT 1, List.length_replicate⟩⟩)
    simp only [shows] at equal
    revert equal
    decide
  · -- Two earlier records that differ in the last byte of their word, which nobody overwrites.
    have shows : ∀ dr : Dictrec, (answered records
        ((answered records dr).overwrite datagram.bytes)).word.bytes[WORD - 1]? =
          dr.word.bytes[WORD - 1]? := by
      intro dr
      rw [answered_word, Dictrec.overwrite,
        Buffer.overwrite_getElem? _ (by rw [List.length_take]; omega) (by decide), answered_word]
    have equal := congrArg (fun dr : Dictrec => dr.word.bytes[WORD - 1]?)
      (after Dictrec.zero ⟨⟨List.replicate WORD 1, List.length_replicate⟩, Buffer.zero⟩)
    simp only [shows] at equal
    revert equal
    decide

/-- A reply depends on its datagram alone exactly when the datagram and its
answer cover the record of the server. -/
theorem unmixed_iff_covers (served : Served records) (datagram : Datagram) :
    Unmixed (file records) datagram ↔ Covers records datagram := by
  rw [unmixed_iff_record served]
  exact ⟨covers_of_same served, fun covers _ _ _ => same_of_covers covers _ _⟩

theorem defining_served : Served (defining ['x'.toUInt8]) where
  nonempty := List.cons_ne_nil _ _
  wellFormed := (defining_sorted (by decide)).wellFormed

/-- A client that sends a whole record gets nothing of the others. -/
theorem unmixed_whole_record : Unmixed (file (defining ['x'.toUInt8])) (wholeRecord askA) :=
  (unmixed_iff_covers defining_served (wholeRecord askA)).mpr (.inl askA.bytes_length)

/-- The reply to a single byte holds the rest of an earlier client's word. -/
theorem single_byte_mixed : ¬ ∀ (records : List Dictrec) (datagram : Datagram),
    Served records → Unmixed (file records) datagram := by
  intro unmixed
  let single : Datagram := ⟨0, [NUL], by decide, by decide⟩
  have same := (unmixed_iff_record defining_served single).mp (unmixed _ single defining_served)
  rcases covers_of_same defining_served same with whole | ⟨long, -⟩
  · revert whole
    decide
  · revert long
    decide

end LinuxProgramming.Dictionary
