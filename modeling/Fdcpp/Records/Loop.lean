/-
Reading a record of a fixed size from a descriptor: the loop that `timerfd::read`, `eventfd::read` and
`signalfd::read` share, `do n += read(buf + n, size - n); while (n != size)`, over the answers that
its reads get.
-/
import Fdcpp.Lib.Bytes
import Fdcpp.Util.Throw

namespace Fdcpp.Records

open Bytes

/-- A record that is being read: its bytes, and the `n` of the loop. -/
structure Record where
  buf : List UInt8
  n : Nat
  deriving DecidableEq, Repr

/-- The bytes that a `read` stores, or its `errno`. -/
abbrev Answer : Type := Except Errno (List UInt8)

/-- Where the loop is after some answers: still going, or ended. -/
inductive Outcome
  | going (r : Record)
  | returned (buf : List UInt8)
  | thrown (e : SystemError)
  deriving DecidableEq, Repr

/-- The size that the next read asks for. -/
def Record.asks (r : Record) : Nat := r.buf.length - r.n

/-- A pass of the loop, with the `read` of the class `tag`. -/
def Record.pass (tag : String) (r : Record) : Answer → Outcome
  | .error e => .thrown (throwSystemError tag "read()" e)
  | .ok bs =>
    let r : Record := ⟨splice r.buf r.n bs, r.n + bs.length⟩
    if r.n ≠ r.buf.length then .going r else .returned r.buf

/-- The loop: the reads it makes of these answers, with the sizes it asks for, and where that leaves it. -/
def Record.loop (tag : String) : Record → List Answer → List (Nat × Answer) × Outcome
  | r, [] => ([], .going r)
  | r, a :: as =>
    match r.pass tag a with
    | .going r' =>
      let rest := r'.loop tag as
      ((r.asks, a) :: rest.1, rest.2)
    | o => ([(r.asks, a)], o)

section Loop

variable {tag : String} {r : Record} {bs : List UInt8} {e : Errno} {as : List Answer}

theorem loop_error : r.loop tag (.error e :: as) = ([(r.asks, .error e)], .thrown (throwSystemError tag "read()" e)) := rfl

/-- The first answer is to a read of what is missing. -/
theorem loop_calls (tag : String) (r : Record) (a : Answer) (as : List Answer) :
    ∃ calls, (r.loop tag (a :: as)).1 = (r.asks, a) :: calls := by
  unfold Record.loop
  cases r.pass tag a with
  | going r' => exact ⟨_, rfl⟩
  | returned buf => exact ⟨_, rfl⟩
  | thrown e => exact ⟨_, rfl⟩

/-- A read that stores a whole record ends the loop. -/
theorem loop_whole {junk : List UInt8} (h : bs.length = junk.length) :
    (⟨junk, 0⟩ : Record).loop tag (.ok bs :: as) = ([(junk.length, .ok bs)], .returned bs) := by
  have hbuf : splice junk 0 bs = bs := by
    rw [splice_zero, h, List.drop_length, List.append_nil]
  have hpass : (⟨junk, 0⟩ : Record).pass tag (.ok bs) = .returned bs := by
    simp [Record.pass, hbuf]
  simp [Record.loop, hpass, Record.asks]

end Loop

end Fdcpp.Records
