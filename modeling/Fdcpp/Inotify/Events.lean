/-
Reading events from an inotify descriptor. `inotify::read` fills a buffer with events, each a `struct
inotify_event` followed by the bytes of its name, and `FOR_EACH_INOTIFY_EVENT` walks over them. A
pointer is its offset from the start of the buffer, a natural number, since a step of the walk does
not wrap the addresses of a 64-bit process. The memory from there on is a function of the offset: the
walk may look behind the end of a buffer that does not hold whole events.
-/
import Fdcpp.Lib.Stride
import Fdcpp.Records.Loop

namespace Fdcpp.Inotify

open Bytes

/-! ## Events -/

/-- A `struct inotify_event`, whose `len` is the length of its `name`. -/
structure InotifyEvent where
  wd : Int32
  mask : UInt32
  cookie : UInt32
  name : List UInt8
  len_lt : name.length < 2 ^ 32
  deriving DecidableEq, Repr

/-- `sizeof(struct inotify_event)`. -/
def sizeofEvent : Nat := 16

/-- The bytes of an event, as the kernel stores them. -/
def InotifyEvent.encode (e : InotifyEvent) : List UInt8 :=
  toLE 4 e.wd.toUInt32.toNat ++ (toLE 4 e.mask.toNat ++ (toLE 4 e.cookie.toNat ++ (toLE 4 e.name.length ++ e.name)))

/-- Events back to back. -/
def serialise (events : List InotifyEvent) : List UInt8 := events.flatMap InotifyEvent.encode

/-- The number in the four bytes at an offset. -/
def field (buffer : Nat → UInt8) (o : Nat) : UInt32 := .ofNat (ofLE (peek buffer o 4))

/-- `event->len`. -/
def len (buffer : Nat → UInt8) (event : Nat) : UInt32 := field buffer (event + 12)

/-- What the body of the loop finds at `event`. -/
def eventAt (buffer : Nat → UInt8) (event : Nat) : InotifyEvent where
  wd := (field buffer event).toInt32
  mask := field buffer (event + 4)
  cookie := field buffer (event + 8)
  name := peek buffer (event + sizeofEvent) (len buffer event).toNat
  len_lt := by
    rw [length_peek]
    exact UInt32.toNat_lt _

/-! ## The walk -/

/-- `event = (char *) event + sizeof(*event) + event->len`. -/
def advance (buffer : Nat → UInt8) : Stride where
  next event := event + sizeofEvent + (len buffer event).toNat
  lt_next event := by
    simp only [sizeofEvent]
    omega

/-- A finished loop: where its body was entered, the offsets that the loop itself has read, and where
`event` is. -/
structure Walk where
  visited : List Nat
  reads : List Nat
  stop : Nat
  deriving DecidableEq, Repr

/-- `FOR_EACH_INOTIFY_EVENT(buffer, size, event)`: from the start of the buffer on, as long as `event` is
below `buffer + size`. Only `event->len` is read. -/
def forEachInotifyEvent (buffer : Nat → UInt8) (size : Nat) : Walk where
  visited := (advance buffer).visited size 0
  reads := ((advance buffer).visited size 0).flatMap fun event => List.range' (event + 12) 4
  stop := (advance buffer).stop size 0

/-- `idescriptor::read` into a buffer: the buffer then, and the count. -/
def read (buffer : List UInt8) : Records.Answer → Except SystemError (List UInt8 × Nat)
  | .error e => .error (throwSystemError "idescriptor" "read()" e)
  | .ok bs => .ok (splice buffer 0 bs, bs.length)

/-! ## What the walk finds -/

/-- The walk steps over a header at least each time, and ends. -/
structure Bounded (size : Nat) (w : Walk) : Prop where
  apart : w.visited.Pairwise fun a b => a + sizeofEvent ≤ b
  steps : w.visited.length ≤ size / 16 + 1
  ended : size ≤ w.stop

/-- The walk finds these events and no others, each where it was stored; it stays in the buffer, and
ends at its end. -/
structure Finds (buffer : Nat → UInt8) (size : Nat) (events : List InotifyEvent) (w : Walk) : Prop where
  visited : w.visited = (List.range events.length).map fun i => (serialise (events.take i)).length
  events : w.visited.map (eventAt buffer) = events
  inside : ∀ event ∈ w.visited, event + sizeofEvent + (len buffer event).toNat ≤ size
  reads : ∀ o ∈ w.reads, o < size
  stop : w.stop = size

section Stored

variable {buffer : Nat → UInt8} {o size : Nat} {e : InotifyEvent} {events : List InotifyEvent}

theorem length_encode (e : InotifyEvent) : e.encode.length = sizeofEvent + e.name.length := by
  simp [InotifyEvent.encode, sizeofEvent]
  omega

theorem field_toLE {n : Nat} (h : peek buffer o 4 = toLE 4 n) : field buffer o = .ofNat n := by
  rw [field, h, ofLE_toLE]
  apply UInt32.toNat_inj.1
  simp

/-- An event that was stored at an offset is found there. -/
theorem eventAt_encode (h : peek buffer o e.encode.length = e.encode) : eventAt buffer o = e := by
  obtain ⟨hwd, h⟩ := peek_append.1 h
  obtain ⟨hmask, h⟩ := peek_append.1 h
  obtain ⟨hcookie, h⟩ := peek_append.1 h
  obtain ⟨hlen, hname⟩ := peek_append.1 h
  simp only [length_toLE, Nat.add_assoc, Nat.reduceAdd] at hwd hmask hcookie hlen hname
  have hl : (len buffer o).toNat = e.name.length := by
    rw [len, field_toLE hlen, UInt32.toNat_ofNat_of_lt' e.len_lt]
  rcases e with ⟨wd, mask, cookie, name, hlt⟩
  simp only [eventAt, hl, sizeofEvent, field_toLE hwd, field_toLE hmask, field_toLE hcookie, hname]
  simp

/-- From an event that was stored the walk goes on behind it. -/
theorem next_encode (h : peek buffer o e.encode.length = e.encode) : (advance buffer).next o = o + e.encode.length := by
  have hname : (eventAt buffer o).name.length = (len buffer o).toNat := length_peek
  rw [eventAt_encode h] at hname
  rw [length_encode, hname, ← Nat.add_assoc]
  rfl

theorem serialise_cons (e : InotifyEvent) (events : List InotifyEvent) :
    serialise (e :: events) = e.encode ++ serialise events := rfl

theorem length_serialise (events : List InotifyEvent) :
    (serialise events).length = (events.map fun e => e.encode.length).sum := List.length_flatMap

theorem advance_follows (h : peek buffer o (serialise events).length = serialise events) :
    (advance buffer).Follows o (events.map fun e => e.encode.length) := by
  induction events generalizing o with
  | nil => trivial
  | cons e events ih =>
    rw [serialise_cons] at h
    obtain ⟨he, hes⟩ := peek_append.1 h
    exact ⟨next_encode he, ih hes⟩

/-- The walk from where events were stored finds these. -/
theorem map_eventAt (h : peek buffer o (serialise events).length = serialise events) :
    ((advance buffer).visited (o + (serialise events).length) o).map (eventAt buffer) = events := by
  induction events generalizing o with
  | nil => simp [serialise, Stride.visited_of_le]
  | cons e events ih =>
    rw [serialise_cons] at h ⊢
    obtain ⟨he, hes⟩ := peek_append.1 h
    have hlen := length_encode e
    simp only [sizeofEvent] at hlen
    rw [List.length_append, ← Nat.add_assoc, Stride.visited_of_lt (by omega), next_encode he, List.map_cons,
      eventAt_encode he, ih hes]

theorem finds_of_stored (h : peek buffer 0 size = serialise events) :
    Finds buffer size events (forEachInotifyEvent buffer size) := by
  have hsize : size = (serialise events).length := by rw [← h, length_peek]
  rw [hsize] at h
  have hf := advance_follows h
  have hsum : 0 + (events.map fun e => e.encode.length).sum = size := by rw [Nat.zero_add, ← length_serialise, hsize]
  have hin : ∀ event ∈ (advance buffer).visited size 0, event + sizeofEvent + (len buffer event).toNat ≤ size := by
    intro event he
    rw [← hsum] at he ⊢
    exact hf.inside he
  constructor
  · show (advance buffer).visited size 0 = _
    rw [← hsum, hf.visited]
    simp [length_serialise, List.map_take]
  · have hm := map_eventAt h
    rwa [Nat.zero_add, ← hsize] at hm
  · exact hin
  · intro o ho
    obtain ⟨event, he, ho⟩ := List.mem_flatMap.1 ho
    have hlt := hin event he
    simp only [List.mem_range'_1, sizeofEvent] at ho hlt
    omega
  · show (advance buffer).stop size 0 = size
    rw [← hsum, hf.stop]

end Stored

theorem bounded (buffer : Nat → UInt8) (size : Nat) : Bounded size (forEachInotifyEvent buffer size) := by
  have hk : ∀ o, o + 16 ≤ (advance buffer).next o := fun o => Nat.le_add_right ..
  constructor
  · exact Stride.pairwise_visited hk size 0
  · exact Stride.length_visited_le (by omega) hk size 0
  · exact Stride.le_stop ..

/-- What `inotify::read` gets of whole events is what the loop over the buffer finds, whatever the buffer
held before and whatever lies behind it. -/
theorem read_finds {old buffer : List UInt8} {n : Nat} {events : List InotifyEvent} {mem : Nat → UInt8}
    (hr : read old (.ok (serialise events)) = .ok (buffer, n)) (hmem : peek mem 0 buffer.length = buffer) :
    Finds mem n events (forEachInotifyEvent mem n) := by
  cases hr
  apply finds_of_stored
  rw [splice_zero] at hmem
  exact (peek_append.1 hmem).1

/-- The walk over any buffer is bounded, and the walk over a buffer that starts with events finds exactly
these. -/
theorem for_each_finds (buffer : Nat → UInt8) (size : Nat) :
    Bounded size (forEachInotifyEvent buffer size) ∧
    ∀ events, peek buffer 0 size = serialise events → Finds buffer size events (forEachInotifyEvent buffer size) :=
  ⟨bounded buffer size, fun _ => finds_of_stored⟩

/-- An event with a name and one without, in a buffer with other bytes behind them. -/
theorem for_each_finds_two : ∃ events buffer, events.length = 2 ∧ peek buffer 0 36 = serialise events ∧
    (forEachInotifyEvent buffer 36).visited = [0, 20] ∧ Finds buffer 36 events (forEachInotifyEvent buffer 36) := by
  let events : List InotifyEvent := [⟨1, 2, 0, [97, 0, 0, 0], by simp⟩, ⟨2, 32, 7, [], by simp⟩]
  let buffer : Nat → UInt8 := fun i => (serialise events).getD i 255
  have hstored : peek buffer 0 36 = serialise events := by decide +kernel
  have hfinds := (for_each_finds buffer 36).2 events hstored
  refine ⟨events, buffer, rfl, hstored, ?_, hfinds⟩
  rw [hfinds.visited]
  decide +kernel

end Fdcpp.Inotify
