/-
`easy::buffered_socket`: the system calls it makes, its state, and its functions as the source
computes them. The two buffers are the halves of the array that `new char[]` returned, which has
`input + output` bytes unless that sum wraps; an access that leaves the array is a `fault`, which
nothing catches. The array also keeps the ranges the code has handed to `memmove`, `strlen`, `recv` and `send`.
Sizes are natural numbers, but a difference of two `size_t` wraps as `size_t` does.
-/
import Fdcpp.Lib.Prog
import Fdcpp.Lib.Bytes
import Fdcpp.Lib.SizeT
import Fdcpp.Util.Throw

namespace Fdcpp.Buffered

open Bytes

/-! ## The socket -/

/-- The flags of a `recv`, beside `MSG_NOSIGNAL`. -/
inductive Flags
  | dontwait | waitall
  deriving DecidableEq, Repr

/-- The system calls on `_socket`. -/
inductive Call
  | send (buffer : List UInt8)
  | recv (size : Nat) (flags : Flags)
  deriving DecidableEq

/-- How many bytes a `send` accepted: one at least when there is one to send. -/
abbrev SendCount (buffer : List UInt8) : Type := {n : Nat // n ≤ buffer.length ∧ (buffer ≠ [] → 0 < n)}

/-- The bytes a `recv` got: as many as it asked for at most. -/
abbrev Received (size : Nat) : Type := {bs : List UInt8 // bs.length ≤ size}

/-- What the kernel may answer. -/
abbrev Answer : Call → Type
  | .send buffer => Except Errno (SendCount buffer)
  | .recv size _ => Except Errno (Received size)

instance : ∀ q, DecidableEq (Answer q)
  | .send buffer => inferInstanceAs (DecidableEq (Except Errno (SendCount buffer)))
  | .recv size _ => inferInstanceAs (DecidableEq (Except Errno (Received size)))

/-- What an operation throws, and the undefined behaviour of an access outside the array. -/
inductive Exc
  | system (e : SystemError)
  | fault
  deriving DecidableEq, Repr

/-! ## The state -/

/-- The half of the allocation that a pointer points into. -/
inductive Half
  | input | output
  deriving DecidableEq, Repr

/-- A range handed to `memmove`, `strlen`, `recv` or `send`, relative to the pointer it uses. -/
structure Access where
  half : Half
  off : Nat
  len : Nat
  deriving DecidableEq, Repr

/-- The array that `_buffer_in` points to, and the ranges of it accessed so far. -/
structure Alloc where
  bytes : List UInt8
  log : List Access
  deriving DecidableEq, Repr

structure BufferedSocket where
  bufferIn : Alloc
  inRd : Nat
  inSize : Nat
  inCapacity : Nat
  /-- The offset of `_buffer_out` from `_buffer_in`. -/
  bufferOut : Nat
  outSize : Nat
  outCapacity : Nat
  deriving DecidableEq, Repr

/-- The constructor, on the `array` that `new char[input_buffer_size + output_buffer_size]` returned,
whatever it holds. -/
def BufferedSocket.make (inputBufferSize outputBufferSize : Nat) (array : List UInt8) : BufferedSocket where
  bufferIn := ⟨array, []⟩
  inRd := 0
  inSize := 0
  inCapacity := inputBufferSize
  bufferOut := inputBufferSize
  outSize := 0
  outCapacity := outputBufferSize

/-- Programs over the object: a state that survives an exception, and system calls. -/
abbrev SockM : Type → Type := Eff Call Answer BufferedSocket Exc

/-! ## Memory and system calls -/

def BufferedSocket.base (s : BufferedSocket) : Half → Nat
  | .input => 0
  | .output => s.bufferOut

/-- An access to `len` bytes from `off` on. -/
def touch (h : Half) (off len : Nat) : SockM Unit := do
  let s ← get
  set { s with bufferIn.log := ⟨h, off, len⟩ :: s.bufferIn.log }
  if s.base h + off + len ≤ s.bufferIn.bytes.length then pure () else throw .fault

def load (h : Half) (off len : Nat) : SockM (List UInt8) := do
  touch h off len
  let s ← get
  pure (slice s.bufferIn.bytes (s.base h + off) len)

def store (h : Half) (off : Nat) (bs : List UInt8) : SockM Unit := do
  touch h off bs.length
  modify fun s => { s with bufferIn.bytes := splice s.bufferIn.bytes (s.base h + off) bs }

/-- `strlen(_buffer_in + off)`: it scans the array, not the half. -/
def strlenAt (off : Nat) : SockM Nat := do
  let s ← get
  match strlen (s.bufferIn.bytes.drop off) with
  | some n => touch .input off (n + 1); pure n
  -- no zero byte up to the end of the array: the scan leaves it
  | none => touch .input off (s.bufferIn.bytes.length - off + 1); throw .fault

/-- The result of a system call, or the exception that reports its error. -/
def checked {α : Type} (func : String) : Except Errno α → SockM α
  | .ok a => pure a
  | .error e => throw (.system (throwSystemError "socket" func e))

/-- `socket::send`. -/
def socketSend (buffer : List UInt8) : SockM (SendCount buffer) :=
  Eff.call (Call.send buffer) >>= checked "send()"

/-- `socket::recv`. -/
def socketRecv (size : Nat) (flags : Flags) : SockM (Received size) :=
  Eff.call (Call.recv size flags) >>= checked "recv()"

/-! ## The private functions -/

/-- `send_all`, for the bytes `buffer + n, …` that it still owes. -/
def sendAll (buffer : List UInt8) : SockM Unit := do
  let n ← socketSend buffer
  if n.1 = buffer.length then pure () else sendAll (buffer.drop n.1)
termination_by buffer.length
decreasing_by
  have hle := n.2.1
  have hne : buffer ≠ [] := by rintro rfl; simp at hle; simp_all
  have := n.2.2 hne
  have := List.length_pos_iff.2 hne
  simp only [List.length_drop]; omega

def recvIfPossible : SockM Unit := do
  let s ← get
  if s.inSize ≥ s.inCapacity then pure ()
  else
    let size := szSub s.inCapacity s.inSize
    tryCatch (do
        touch .input s.inSize size
        let bs ← socketRecv size .dontwait
        modify fun s => { s with
          bufferIn.bytes := splice s.bufferIn.bytes s.inSize bs.1, inSize := s.inSize + bs.1.length })
      -- a socket with nothing to read is no error
      fun
        | .system e => if e.code ≠ EAGAIN ∧ e.code ≠ EWOULDBLOCK then throw (.system e) else pure ()
        | .fault => throw .fault

/-- `read_input_buffer(buffer, size)`: the new contents of the caller's `size` bytes. -/
def readInputBuffer (buffer : List UInt8) : SockM (List UInt8) := do
  let size := buffer.length
  recvIfPossible
  let s ← get
  if s.inRd + size ≥ s.inSize then
    let copySize := szSub s.inSize s.inRd
    let recvSize := szSub size copySize
    let head ← load .input s.inRd copySize
    -- `memmove` past the end of the caller's bytes
    if size < copySize then throw .fault
    else
      let tail ← if recvSize ≠ 0 then do
          let bs ← socketRecv recvSize .waitall
          pure bs.1
        else pure []
      modify fun s => { s with inRd := 0, inSize := 0 }
      pure (head ++ splice (buffer.drop copySize) 0 tail)
  else
    let head ← load .input s.inRd size
    modify fun s => { s with inRd := s.inRd + size }
    pure head

def writeOutputBuffer (buffer : List UInt8) : SockM Unit := do
  let size := buffer.length
  let s ← get
  -- the pending bytes stay behind
  if size ≥ s.outCapacity then sendAll buffer
  else
    if s.outSize + size ≥ s.outCapacity then
      let pending ← load .output 0 s.outSize
      sendAll pending
      modify fun s => { s with outSize := 0 }
    else pure ()
    let s ← get
    store .output s.outSize buffer
    modify fun s => { s with outSize := s.outSize + size }

def flush : SockM Unit := do
  let s ← get
  let pending ← load .output 0 s.outSize
  sendAll pending
  modify fun s => { s with outSize := 0 }

end Fdcpp.Buffered
