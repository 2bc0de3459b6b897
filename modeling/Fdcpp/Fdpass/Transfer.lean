/-
`easy::fdpass`: `send` and `recv` as the source computes them, and what the kernel does with the
control message between them. `send` is a program over `sendmsg`; `recv` runs over the messages
that are on their way to its socket, and waits where they end. An access outside the control buffer
is a fault. The state of `recv` also keeps the numbers that the kernel installed during the call,
and whether its copy loop has run more often than the message at hand had descriptors.
-/
import Fdcpp.Lib.Bytes
import Fdcpp.Lib.Prog
import Fdcpp.Lib.SizeT
import Fdcpp.Lib.Table
import Fdcpp.Util.Throw

namespace Fdcpp.Fdpass

open Bytes

/-- `MAX_BATCH_SIZE`. -/
def maxBatchSize : Nat := 10

/-! ## Control messages -/

def cmsgAlign (len : Nat) : Nat := (len + 7) / 8 * 8

/-- `sizeof(struct cmsghdr)`. -/
def cmsghdrSize : Nat := 16

/-- `CMSG_SPACE`. -/
def cmsgSpace (len : Nat) : Nat := cmsgAlign len + cmsgAlign cmsghdrSize

/-- `CMSG_LEN`. -/
def cmsgLen (len : Nat) : Nat := cmsgAlign cmsghdrSize + len

/-- `sizeof(int)`. -/
def intSize : Nat := 4

/-- What `sendmsg` is given: the announced size, the lengths, and the ints of the control buffer. -/
structure Outgoing where
  size : UInt64
  controllen : Nat
  cmsgLen : Nat
  data : List Int
  deriving DecidableEq, Repr

/-- The descriptor numbers that the kernel finds in it. -/
def Outgoing.attached (o : Outgoing) : List Int := o.data.take ((o.cmsgLen - cmsgAlign cmsghdrSize) / intSize)

/-- A message on its way: the announced size, and the open files attached, which are those that `recvmsg`
delivers to a receiver that has numbers free for them. -/
structure Message (α : Type) where
  size : UInt64
  attached : List α
  deriving DecidableEq, Repr

/-- The message that the kernel makes of it for a sender with the descriptors `t`, if they are all open. -/
def Outgoing.message {α : Type} (t : Table α) (o : Outgoing) : Option (Message α) :=
  (o.attached.mapM t.file).map (Message.mk o.size)

/-! ## `send` -/

abbrev SendM : Type → Type := Eff Outgoing (fun _ => Except Errno Nat) Unit SystemError

/-- `socket::sendmsg`. -/
def sendmsg (o : Outgoing) : SendM Unit := do
  match ← Eff.call o with
  | .ok _ => pure ()
  | .error e => throw (throwSystemError "socket" "sendmsg()" e)

/-- The loop of `send` over what is left of the range, `data` being the ints of its buffer. -/
def sendLoop (size : UInt64) (data : List Int) (range : List Int) : SendM Unit := do
  if range = [] then pure ()
  else
    let batchSize := min range.length maxBatchSize
    let bytes := batchSize * intSize
    -- behind a shorter batch the ints of the last one stay
    let data := splice data 0 (range.take batchSize)
    sendmsg ⟨size, cmsgSpace bytes, cmsgLen bytes, data⟩
    sendLoop size data (range.drop batchSize)
termination_by range.length
decreasing_by
  rename_i hne
  have := List.length_pos_iff.2 hne
  simp only [List.length_drop, maxBatchSize] at *; omega

/-- `fdpass::send`, with the contents `junk` of its control buffer. -/
def send (junk : List Int) (range : List Int) : SendM Unit := sendLoop (.ofNat range.length) junk range

/-! ## `recv` -/

/-- The variables of `recv`: the numbers in the vector, the last announced size, `msg_controllen`,
the ints of the control buffer; the descriptors of the process; and the history of the call. -/
structure Receiver (α : Type) where
  v : List Int
  size : UInt64
  controllen : Nat
  data : List Int
  table : Table α
  installed : List Int
  overran : Bool

section Recv

variable {α : Type} (A : Table.Alloc α)

/-- How many descriptors fit in a control buffer. -/
def maxFds (controllen : Nat) : Nat :=
  if controllen ≤ cmsghdrSize then 0 else (controllen - cmsghdrSize) / intSize

/-- `recvmsg` of the message `m`, in a process that has numbers free: the kernel installs the descriptors
that fit into the buffer and drops the others, and sets `msg_controllen` to the length it used. -/
def recvmsg (s : Receiver α) (m : Message α) : Receiver α :=
  let fit := m.attached.take (maxFds s.controllen)
  let r := s.table.installAll A fit
  { s with
    size := m.size
    -- nothing restores the length before the next message
    controllen := if fit = [] then 0 else min (cmsgSpace (fit.length * intSize)) s.controllen
    data := splice s.data 0 r.1
    table := r.2
    installed := s.installed ++ r.1 }

/-- `std::min(diff, MAX_BATCH_SIZE)`, where `diff` is `size - v.size()` as a `long`. -/
def batchSize (size : UInt64) (vsize : Nat) : Int :=
  min (asLong (szSub size.toNat (vsize % 2 ^ 64))) maxBatchSize

/-- `while (batch_size--) v.push_back(descriptor(*ptr++))`, with the ints from `ptr` on: the vector,
and whether `ptr` has left the buffer. -/
def copyLoop (batchSize : Int) (v : List Int) : List Int → List Int × Bool
  | [] => (v, decide (batchSize ≠ 0))
  | n :: data => if batchSize = 0 then (v, false) else copyLoop (batchSize - 1) (v ++ [n]) data

/-- How a `recv` ends: with the vector; waiting for a message; with an exception, which destroys the
vector and closes its descriptors; or with undefined behaviour. `rest` is what it has not received. -/
inductive Outcome (α : Type)
  | returned (s : Receiver α) (rest : List (Except Errno (Message α)))
  | blocked (s : Receiver α)
  | thrown (e : SystemError) (s : Receiver α) (rest : List (Except Errno (Message α)))
  | fault (s : Receiver α)

/-- The variables of `recv` at its end. -/
def Outcome.state : Outcome α → Receiver α
  | .returned s _ => s
  | .blocked s => s
  | .thrown _ s _ => s
  | .fault s => s

/-- The state after the copy loop for the message `m`, and whether it left the buffer; the first
header of the control data is null when there are none. -/
def adopt (s : Receiver α) (m : Message α) : Receiver α × Bool :=
  let batch := batchSize s.size s.v.length
  let overran := s.overran || decide (batch < 0 ∨ (m.attached.length : Int) < batch)
  -- without a header the loop reads from a null pointer on
  let r := if s.controllen < cmsghdrSize then (s.v, decide (batch ≠ 0)) else copyLoop batch s.v s.data
  ({ s with v := r.1, overran := overran }, r.2)

/-- The loop of `recv`, over the messages, or failures of `recvmsg`, that follow. -/
def recvLoop (s : Receiver α) : List (Except Errno (Message α)) → Outcome α
  | [] => .blocked s
  | .error e :: queue => .thrown (throwSystemError "socket" "recvmsg()" e) s queue
  | .ok m :: queue =>
    match adopt (recvmsg A s m) m with
    | (s', true) => .fault s'
    | (s', false) => if s'.v.length % 2 ^ 64 = s'.size.toNat then .returned s' queue else recvLoop s' queue

/-- Where a call of `recv` starts: the descriptors of the process, and the contents of the
uninitialised variables `size` and `buf`. -/
structure Env (α : Type) where
  table : Table α
  size : UInt64
  data : {ints : List Int // ints.length = maxBatchSize}

/-- `fdpass::recv`. -/
def recv (env : Env α) (queue : List (Except Errno (Message α))) : Outcome α :=
  recvLoop A
    { v := [], size := env.size, controllen := cmsgSpace (maxBatchSize * intSize), data := env.data.1,
      table := env.table, installed := [], overran := false }
    queue

end Recv

end Fdcpp.Fdpass
