import LinuxProgramming.Foundation.Records
import Mathlib.Data.List.Forall2

/-! The display of the events that a `read` of the inotify descriptor returns.

The events lie back to back in the buffer, each of them a header and as many bytes
of name as the header says. The loop reads its stride off the header.
-/

set_option autoImplicit false

namespace LinuxProgramming.Inotify
open Foundation

def IN_MOVED_FROM : UInt32 := 0x40
def IN_MOVED_TO : UInt32 := 0x80
def IN_CREATE : UInt32 := 0x100
def IN_DELETE : UInt32 := 0x200

def MAX_EVENTS : Nat := 1024

/-- `sizeof(struct inotify_event)`, the header without the name. -/
def EVENT_SIZE : Nat := 16

def BUF_LEN : Nat := MAX_EVENTS * (EVENT_SIZE + 16)

/-- A line that is printed: the text and the name behind it. -/
structure Line where
  text : String
  name : List Byte
  deriving DecidableEq, Repr

/-- What the loop reads of the header at a position, and the line that it prints. -/
structure Visit where
  ptr : Nat
  mask : UInt32
  len : Nat
  line : Option Line
  deriving DecidableEq, Repr

/-- The text for the first bit of the mask that is one of the four. -/
def heading (mask : UInt32) : Option String :=
  if mask &&& IN_CREATE ≠ 0 then some "File/directory created: "
  else if mask &&& IN_DELETE ≠ 0 then some "File/directory deleted: "
  else if mask &&& IN_MOVED_FROM ≠ 0 then some "File/directory moved from: "
  else if mask &&& IN_MOVED_TO ≠ 0 then some "File/directory moved to: "
  else none

/-- A number in the buffer. -/
def field (buffer : Buffer BUF_LEN) (offset width : Nat) : Nat :=
  ofLittleEndian ((buffer.bytes.drop offset).take width)

/-- `event->name`, for a function that reads it as a string. -/
def nameAt (buffer : Buffer BUF_LEN) (ptr : Nat) : Option (List Byte) :=
  let behind := buffer.bytes.drop (ptr + EVENT_SIZE)
  if NUL ∈ behind then some (cstr behind) else none

/-- One round of the loop, with the length of the name. -/
def visit (buffer : Buffer BUF_LEN) (ptr : Nat) : Option (Visit × Nat) :=
  if ptr + EVENT_SIZE ≤ BUF_LEN then
    let mask := UInt32.ofNat (field buffer (ptr + 4) 4)
    let len := field buffer (ptr + 12) 4
    match heading mask with
    | none => some (⟨ptr, mask, len, none⟩, len)
    | some text => (nameAt buffer ptr).map fun name => (⟨ptr, mask, len, some ⟨text, name⟩⟩, len)
  else none

/-- The process ends, the loop reads outside the buffer, or it shows some events. -/
inductive Displayed where
  | exits
  | outside
  | shown (visits : List Visit)
  deriving DecidableEq, Repr

theorem EVENT_SIZE_pos : 0 < EVENT_SIZE := by decide

/-- The array holds what it held before; `read` fails, or returns some bytes. -/
def display_event (buffer : Buffer BUF_LEN) (bytesRead : Option (List Byte)) : Displayed :=
  match bytesRead with
  | none | some [] => .exits
  | some bytes =>
    match walk EVENT_SIZE_pos (visit (buffer.overwrite bytes)) bytes.length 0 with
    | none => .outside
    | some visits => .shown visits

/-! The events as the kernel lays them out. -/

/-- One of the four kinds that are watched. -/
def watched (mask : UInt32) : Bool :=
  mask &&& IN_CREATE ≠ 0 || mask &&& IN_DELETE ≠ 0 || mask &&& IN_MOVED_FROM ≠ 0 ||
    mask &&& IN_MOVED_TO ≠ 0

/-- An event with its name, behind which there is a NUL and then some more. -/
structure Event where
  wd : UInt32
  mask : UInt32
  cookie : UInt32
  name : List Byte
  padding : Nat
  plain : NUL ∉ name
  padded : name ≠ [] → 0 < padding
  named : watched mask = true → 0 < padding
  bounded : name.length + padding < 2 ^ 32

namespace Event

/-- The field `len`. -/
def len (event : Event) : Nat := event.name.length + event.padding

def header (event : Event) : List Byte :=
  littleEndian 4 event.wd.toNat ++ littleEndian 4 event.mask.toNat ++
    littleEndian 4 event.cookie.toNat ++ littleEndian 4 event.len

def bytes (event : Event) : List Byte :=
  event.header ++ (event.name ++ List.replicate event.padding NUL)

@[simp] theorem header_length (event : Event) : event.header.length = EVENT_SIZE := by
  simp [header, EVENT_SIZE]

@[simp] theorem bytes_length (event : Event) : event.bytes.length = EVENT_SIZE + event.len := by
  simp [bytes, len]

end Event

/-- The events one behind the other. -/
def laid (events : List Event) : List Byte := events.flatMap Event.bytes

/-- The positions where the events begin. -/
def boundaries : Nat → List Event → List Nat
  | _, [] => []
  | ptr, event :: events => ptr :: boundaries (ptr + (EVENT_SIZE + event.len)) events

/-- A watched event has one line, with its own name, and another one has none. -/
def Announces (event : Event) (line : Option Line) : Prop :=
  if watched event.mask then ∃ text, line = some ⟨text, event.name⟩ else line = none

/-- The loop has visited exactly these events, in order. -/
structure Decodes (events : List Event) (visits : List Visit) : Prop where
  pointers : visits.map Visit.ptr = boundaries 0 events
  headers : visits.map (fun visit => (visit.mask, visit.len)) =
    events.map fun event => (event.mask, event.len)
  inside : ∀ visit ∈ visits, visit.ptr + EVENT_SIZE ≤ (laid events).length
  lines : List.Forall₂ Announces events (visits.map Visit.line)

theorem heading_watched {mask : UInt32} (kind : watched mask = true) :
    ∃ text, heading mask = some text := by
  unfold heading
  unfold watched at kind
  split
  next => exact ⟨_, rfl⟩
  next =>
    split
    next => exact ⟨_, rfl⟩
    next =>
      split
      next => exact ⟨_, rfl⟩
      next =>
        split
        next => exact ⟨_, rfl⟩
        next => simp_all

theorem heading_other {mask : UInt32} (kind : watched mask = false) : heading mask = none := by
  simp only [watched, Bool.or_eq_false_iff, decide_eq_false_iff_not] at kind
  simp [heading, kind]

theorem field_laid {buffer : Buffer BUF_LEN} {front rest : List Byte} {width value : Nat}
    (same : buffer.bytes = front ++ (littleEndian width value ++ rest)) (fits : value < 256 ^ width) :
    field buffer front.length width = value := by
  rw [field, same, List.drop_left, List.take_left' (littleEndian_length width value),
    ofLittleEndian_littleEndian fits]

/-- The line for an event at hand. -/
def Event.line (event : Event) : Option Line :=
  (heading event.mask).map fun text => ⟨text, event.name⟩

theorem announces_line (event : Event) : Announces event event.line := by
  unfold Announces
  cases kind : watched event.mask with
  | true =>
    obtain ⟨text, same⟩ := heading_watched kind
    exact ⟨text, by rw [Event.line, same]; rfl⟩
  | false =>
    rw [Event.line, heading_other kind]
    rfl

/-- Behind the header of an event there is its own name. -/
theorem nameAt_event {buffer : Buffer BUF_LEN} {front rest : List Byte} {event : Event}
    (same : buffer.bytes = front ++ (event.bytes ++ rest)) (padding : 0 < event.padding) :
    nameAt buffer front.length = some event.name := by
  obtain ⟨more, one⟩ := Nat.exists_eq_succ_of_ne_zero (Nat.ne_of_gt padding)
  have behind : buffer.bytes.drop (front.length + EVENT_SIZE) =
      event.name ++ NUL :: (List.replicate more NUL ++ rest) := by
    rw [same, ← List.append_assoc, Event.bytes, List.append_assoc, List.append_assoc,
      ← List.append_assoc front, List.drop_left' (by simp), one, List.replicate_succ]
    simp
  rw [nameAt]
  simp only [behind]
  rw [if_pos (by simp), cstr_append_NUL event.plain]

/-- At an event the loop reads its header and its name. -/
theorem visit_event {buffer : Buffer BUF_LEN} {front rest : List Byte} {event : Event}
    (same : buffer.bytes = front ++ (event.bytes ++ rest)) :
    visit buffer front.length =
      some (⟨front.length, event.mask, event.len, event.line⟩, event.len) := by
  have inside : front.length + EVENT_SIZE ≤ BUF_LEN := by
    have size := congrArg List.length same
    rw [buffer.length_eq] at size
    simp at size
    omega
  have mask : field buffer (front.length + 4) 4 = event.mask.toNat := by
    have place : (front ++ littleEndian 4 event.wd.toNat).length = front.length + 4 := by simp
    have held : buffer.bytes = (front ++ littleEndian 4 event.wd.toNat) ++
        (littleEndian 4 event.mask.toNat ++ (littleEndian 4 event.cookie.toNat ++
          (littleEndian 4 event.len ++ (event.name ++
            (List.replicate event.padding NUL ++ rest))))) := by
      rw [same]
      simp [Event.bytes, Event.header]
    rw [← place]
    exact field_laid held event.mask.toNat_lt
  have len : field buffer (front.length + 12) 4 = event.len := by
    have place : (front ++ (littleEndian 4 event.wd.toNat ++ (littleEndian 4 event.mask.toNat ++
        littleEndian 4 event.cookie.toNat))).length = front.length + 12 := by simp
    have held : buffer.bytes = (front ++ (littleEndian 4 event.wd.toNat ++
        (littleEndian 4 event.mask.toNat ++ littleEndian 4 event.cookie.toNat))) ++
          (littleEndian 4 event.len ++ (event.name ++
            (List.replicate event.padding NUL ++ rest))) := by
      rw [same]
      simp [Event.bytes, Event.header]
    rw [← place]
    exact field_laid held event.bounded
  rw [visit, if_pos inside, mask, len, UInt32.ofNat_toNat]
  cases kind : watched event.mask with
  | true =>
    obtain ⟨text, told⟩ := heading_watched kind
    simp only [told, Event.line, nameAt_event same (event.named kind), Option.map_some]
  | false => simp only [heading_other kind, Event.line, Option.map_none]

/-- What the loop sees of the events from a position on. -/
def seen : Nat → List Event → List Visit
  | _, [] => []
  | ptr, event :: events =>
    ⟨ptr, event.mask, event.len, event.line⟩ :: seen (ptr + (EVENT_SIZE + event.len)) events

/-- From the start of an event on, the records that the loop walks are the events. -/
theorem laid_events {buffer : Buffer BUF_LEN} {front rest : List Byte} {events : List Event}
    (same : buffer.bytes = front ++ (laid events ++ rest)) :
    Laid EVENT_SIZE (visit buffer) front.length (seen front.length events)
      (front.length + (laid events).length) := by
  induction events generalizing front with
  | nil => exact .nil front.length
  | cons event events ih =>
    have at_event : buffer.bytes = front ++ (event.bytes ++ (laid events ++ rest)) := by
      rw [same, laid, List.flatMap_cons, List.append_assoc]
      rfl
    have behind : buffer.bytes = (front ++ event.bytes) ++ (laid events ++ rest) := by
      rw [at_event, List.append_assoc]
    have place : (front ++ event.bytes).length = front.length + (EVENT_SIZE + event.len) := by
      rw [List.length_append, Event.bytes_length]
    have later := ih behind
    rw [place] at later
    have stop : front.length + (laid (event :: events)).length =
        front.length + (EVENT_SIZE + event.len) + (laid events).length := by
      rw [laid, List.flatMap_cons, List.length_append, Event.bytes_length, ← Nat.add_assoc]
      rfl
    rw [stop]
    exact .cons (visit_event at_event) later

/-- Every event lies before the end of the bytes. -/
theorem inside_seen {ptr : Nat} {events : List Event} {visit : Visit}
    (member : visit ∈ seen ptr events) :
    visit.ptr + EVENT_SIZE ≤ ptr + (laid events).length := by
  induction events generalizing ptr with
  | nil => cases member
  | cons event events ih =>
    have size : (laid (event :: events)).length =
        EVENT_SIZE + event.len + (laid events).length := by
      rw [laid, List.flatMap_cons, List.length_append, Event.bytes_length]
      rfl
    rw [size]
    obtain rfl | later := List.mem_cons.mp member
    · simp only
      omega
    · have := ih later
      omega

theorem pointers_seen (ptr : Nat) (events : List Event) :
    (seen ptr events).map Visit.ptr = boundaries ptr events := by
  induction events generalizing ptr with
  | nil => rfl
  | cons event events ih => rw [seen, List.map_cons, ih, boundaries]

theorem headers_seen (ptr : Nat) (events : List Event) :
    (seen ptr events).map (fun visit => (visit.mask, visit.len)) =
      events.map fun event => (event.mask, event.len) := by
  induction events generalizing ptr with
  | nil => rfl
  | cons event events ih => rw [seen, List.map_cons, ih, List.map_cons]

theorem lines_seen (ptr : Nat) (events : List Event) :
    List.Forall₂ Announces events ((seen ptr events).map Visit.line) := by
  induction events generalizing ptr with
  | nil => exact .nil
  | cons event events ih => exact .cons (announces_line event) (ih _)

theorem decodes_seen (events : List Event) : Decodes events (seen 0 events) where
  pointers := pointers_seen 0 events
  headers := headers_seen 0 events
  inside := by
    intro visit member
    have := inside_seen member
    rwa [Nat.zero_add] at this
  lines := lines_seen 0 events

/-- The loop ends, at the end of the bytes, and has shown the events one by one. Were there
no byte, the process would end. -/
theorem display_event_decodes (buffer : Buffer BUF_LEN) {events : List Event}
    (fits : (laid events).length ≤ BUF_LEN) :
    (events = [] ∧ display_event buffer (some (laid events)) = .exits) ∨
      ∃ visits, display_event buffer (some (laid events)) = .shown visits ∧
        Decodes events visits := by
  have held : (buffer.overwrite (laid events)).bytes =
      [] ++ (laid events ++ buffer.bytes.drop (laid events).length) := by
    rw [List.nil_append, Buffer.bytes_overwrite fits]
  have walked := (laid_events held).walk EVENT_SIZE_pos
  rw [List.length_nil, Nat.zero_add] at walked
  cases events with
  | nil => exact .inl ⟨rfl, rfl⟩
  | cons event events =>
    refine .inr ⟨seen 0 (event :: events), ?_, decodes_seen _⟩
    cases bytes : laid (event :: events) with
    | nil =>
      have size := congrArg List.length bytes
      rw [laid, List.flatMap_cons, List.length_append, Event.bytes_length, EVENT_SIZE,
        List.length_nil] at size
      omega
    | cons byte rest =>
      rw [bytes] at walked
      simp only [display_event, walked]

/-- A file `n` is created and something that is not watched happens to it. -/
def created : List Event :=
  [⟨1, IN_CREATE, 0, ['n'.toUInt8], 15, by decide, by decide, by decide, by decide⟩,
   ⟨1, 0x20, 0, [], 0, by decide, by decide, by decide, by decide⟩]

theorem display_event_decodes_created :
    (laid created).length ≤ BUF_LEN ∧
      ∃ visits, display_event Buffer.zero (some (laid created)) = .shown visits ∧
        Decodes created visits :=
  have fits : (laid created).length ≤ BUF_LEN := by decide
  ⟨fits, (display_event_decodes Buffer.zero fits).resolve_left fun none => by
    cases none.1⟩

end LinuxProgramming.Inotify
