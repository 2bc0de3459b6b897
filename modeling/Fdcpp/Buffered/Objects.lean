/-
Populations of `buffered_socket` objects: the constructor, the two moves and the destructor, over a
heap of arrays whose addresses are used again, and the operators on any of the objects, objects that
were moved from included. The heap numbers the allocations and records which of them each `delete[]`
ended.
-/
import Fdcpp.Buffered.Halves
import Fdcpp.Lib.Ledger

namespace Fdcpp.Buffered

open Bytes

/-! ## Objects -/

/-- A `buffered_socket`: `_socket`, and the pointers as they are. `_buffer_in` is null or the address
of an array, `_buffer_out` an address with an offset. -/
structure Object where
  socket : Int
  bufferIn : Option Nat
  inRd : Nat
  inSize : Nat
  inCapacity : Nat
  bufferOut : Nat × Nat
  outSize : Nat
  outCapacity : Nat
  deriving DecidableEq, Repr

namespace Object

/-- The constructor, with the address `p` that `new char[]` returned. -/
def make (socket : Int) (inputBufferSize outputBufferSize p : Nat) : Object where
  socket := socket
  bufferIn := some p
  inRd := 0
  inSize := 0
  inCapacity := inputBufferSize
  bufferOut := (p, inputBufferSize)
  outSize := 0
  outCapacity := outputBufferSize

/-- `buffered_socket(buffered_socket &&other)`: the new object, and what is left of `other`. -/
def moveMake (other : Object) : Object × Object :=
  (other, { other with socket := -1, bufferIn := none })

/-- `operator=(buffered_socket &&other)`: what becomes of the two objects. The socket and the pointers
are swapped, the sizes are copied. -/
def moveAssign (this other : Object) : Object × Object :=
  ({ socket := other.socket
     bufferIn := other.bufferIn
     inRd := other.inRd
     inSize := other.inSize
     inCapacity := other.inCapacity
     bufferOut := other.bufferOut
     outSize := other.outSize
     outCapacity := other.outCapacity },
   { other with
     socket := this.socket
     bufferIn := this.bufferIn
     bufferOut := this.bufferOut })

end Object

/-! ## The heap -/

/-- A live array, and the number of the allocation that made it. -/
structure Block where
  bytes : List UInt8
  alloc : Nat
  deriving DecidableEq, Repr

/-- The live arrays by their addresses; how many allocations there were; and each `delete[]` with the
allocation it ended, if any. -/
structure Heap where
  blocks : Nat → Option Block
  allocs : Nat
  deletes : List (Option Nat)

namespace Heap

/-- `new char[]` returns `p`, an array with the contents `bytes`. -/
def new (h : Heap) (p : Nat) (bytes : List UInt8) : Heap :=
  ⟨Function.update h.blocks p (some ⟨bytes, h.allocs⟩), h.allocs + 1, h.deletes⟩

/-- `delete[] p`. -/
def delete (h : Heap) (p : Nat) : Heap :=
  ⟨Function.update h.blocks p none, h.allocs, h.deletes ++ [(h.blocks p).map Block.alloc]⟩

/-- The array at `p` has been written to. -/
def write (h : Heap) (p : Nat) (bytes : List UInt8) : Heap :=
  { h with blocks := Function.update h.blocks p ((h.blocks p).map fun b => { b with bytes }) }

end Heap

/-! ## Populations -/

/-- The live objects by their addresses, the heap, and the sockets that destructors have closed. -/
structure Population where
  objs : Nat → Option Object
  heap : Heap
  closes : List Int

namespace Population

def init : Population := ⟨fun _ => none, ⟨fun _ => none, 0, []⟩, []⟩

/-- The unread input of an object that has an array. -/
def unread (w : Population) (x : Object) : Option (List UInt8) :=
  x.bufferIn.bind fun p => (w.heap.blocks p).map fun b => slice b.bytes x.inRd (x.inSize - x.inRd)

/-- The output that an object has not sent yet. -/
def pending (w : Population) (x : Object) : Option (List UInt8) :=
  (w.heap.blocks x.bufferOut.1).map fun b => slice b.bytes x.bufferOut.2 x.outSize

/-- Two objects are what a move has made of them; a self-assignment leaves one. -/
def set₂ (w : Population) (a : Nat) (x : Object) (other : Nat) (y : Object) : Population :=
  { w with objs := Function.update (Function.update w.objs other (some y)) a (some x) }

/-- `~buffered_socket()`, and the destructor of `_socket` after it. -/
def destroyed (w : Population) (a : Nat) (x : Object) : Population where
  objs := Function.update w.objs a none
  heap := match x.bufferIn with
    | some p => w.heap.delete p
    | none => w.heap
  closes := if 0 ≤ x.socket then w.closes ++ [x.socket] else w.closes

end Population

/-! ## Operators on an object of a population -/

/-- The array that an operator goes to: a write or `flush` through `_buffer_out`, a read through
`_buffer_in`. -/
def Object.target (x : Object) : Op → Option Nat
  | .put _ | .flush => some x.bufferOut.1
  | .get _ | .getString _ => x.bufferIn

namespace Population

/-- The object as its operators see it. Where the pointer leads to no live array an operator ends with
its first access, which leaves everything as it is; so does the kernel when it refuses the call of an
object that has no socket. -/
def view (w : Population) (x : Object) (op : Op) : BufferedSocket where
  bufferIn := ⟨((x.target op).bind w.heap.blocks).elim [] Block.bytes, []⟩
  inRd := x.inRd
  inSize := x.inSize
  inCapacity := x.inCapacity
  bufferOut := x.bufferOut.2
  outSize := x.outSize
  outCapacity := x.outCapacity

/-- The population after an operator on the object `x` at `a` has left `s` of it. -/
def used (w : Population) (a : Nat) (x : Object) (op : Op) (s : BufferedSocket) : Population where
  objs := Function.update w.objs a (some { x with
    inRd := s.inRd
    inSize := s.inSize
    inCapacity := s.inCapacity
    bufferOut := (x.bufferOut.1, s.bufferOut)
    outSize := s.outSize
    outCapacity := s.outCapacity })
  heap := match x.target op with
    | some p => w.heap.write p s.bufferIn.bytes
    | none => w.heap
  closes := w.closes

end Population

/-! ## Runs -/

inductive PopAct
  | make (a : Nat) (socket : Int) (inputBufferSize outputBufferSize p : Nat)
  | moveMake (a other : Nat)
  | moveAssign (this other : Nat)
  | destroy (a : Nat)
  | use (a : Nat) (op : Op) (evs : List Event) (r : Except Exc (Option Value))

inductive PopStep : Population → PopAct → Population → Prop
  | make {w : Population} {a : Nat} {socket : Int} {i o p : Nat} {junk : List UInt8} (ha : w.objs a = none)
      (hp : w.heap.blocks p = none) (hjunk : junk.length = i + o) :
      PopStep w (.make a socket i o p)
        ⟨Function.update w.objs a (some (.make socket i o p)), w.heap.new p junk, w.closes⟩
  | moveMake {w : Population} {a other : Nat} {y : Object} (ha : w.objs a = none) (ho : w.objs other = some y) :
      PopStep w (.moveMake a other) (w.set₂ a y.moveMake.1 other y.moveMake.2)
  | moveAssign {w : Population} {this other : Nat} {x y : Object} (ht : w.objs this = some x)
      (ho : w.objs other = some y) :
      PopStep w (.moveAssign this other) (w.set₂ this (x.moveAssign y).1 other (x.moveAssign y).2)
  | destroy {w : Population} {a : Nat} {x : Object} (ha : w.objs a = some x) :
      PopStep w (.destroy a) (w.destroyed a x)
  | use {w : Population} {a : Nat} {x : Object} {op : Op} {evs : List Event} {r : Except Exc (Option Value)}
      {s : BufferedSocket} (ha : w.objs a = some x) (hop : op.IsFixed) (hr : (op.exec.prog (w.view x op)).Runs evs (r, s)) :
      PopStep w (.use a op evs r) (w.used a x op s)

/-! ## Playing a run -/

/-- What is to happen next; an array starts out with zero bytes, and an operator comes with the script
of its kernel. -/
inductive PopCue
  | make (a : Nat) (socket : Int) (inputBufferSize outputBufferSize p : Nat)
  | moveMake (a other : Nat)
  | moveAssign (this other : Nat)
  | destroy (a : Nat)
  | use (a : Nat) (op : Op) (script : List Reply)

instance : ∀ op : Op, Decidable op.IsFixed
  | .getString _ => .isFalse id
  | .put _ | .flush | .get _ => .isTrue trivial

def Population.play (w : Population) : PopCue → Option (PopAct × Population)
  | .make a socket i o p =>
    if w.objs a = none ∧ w.heap.blocks p = none then
      some (.make a socket i o p,
        ⟨Function.update w.objs a (some (.make socket i o p)), w.heap.new p (List.replicate (i + o) 0), w.closes⟩)
    else none
  | .moveMake a other =>
    if w.objs a = none then
      (w.objs other).map fun y => (.moveMake a other, w.set₂ a y.moveMake.1 other y.moveMake.2)
    else none
  | .moveAssign this other =>
    (w.objs this).bind fun x => (w.objs other).map fun y =>
      (.moveAssign this other, w.set₂ this (x.moveAssign y).1 other (x.moveAssign y).2)
  | .destroy a => (w.objs a).map fun x => (.destroy a, w.destroyed a x)
  | .use a op script =>
    (w.objs a).bind fun x =>
      let run := (w.view x op).perform script op
      if op.IsFixed then some (.use a op run.1 run.2.1, w.used a x op run.2.2) else none

theorem pop_play_step (w : Population) (c : PopCue) (p : PopAct × Population) (h : w.play c = some p) :
    PopStep w p.1 p.2 := by
  cases c with
  | make a socket i o q =>
    obtain ⟨⟨ha, hq⟩, h⟩ := Option.ite_none_right_eq_some.1 h
    cases h
    exact .make ha hq (List.length_replicate ..)
  | moveMake a other =>
    obtain ⟨ha, h⟩ := Option.ite_none_right_eq_some.1 h
    obtain ⟨y, ho, rfl⟩ := Option.map_eq_some_iff.1 h
    exact .moveMake ha ho
  | moveAssign this other =>
    obtain ⟨x, ht, h⟩ := Option.bind_eq_some_iff.1 h
    obtain ⟨y, ho, rfl⟩ := Option.map_eq_some_iff.1 h
    exact .moveAssign ht ho
  | destroy a =>
    obtain ⟨x, ha, rfl⟩ := Option.map_eq_some_iff.1 h
    exact .destroy ha
  | use a op script =>
    obtain ⟨x, ha, h⟩ := Option.bind_eq_some_iff.1 h
    obtain ⟨hop, h⟩ := Option.ite_none_right_eq_some.1 h
    cases h
    exact .use ha hop (perform_runs _ _ _ rfl)

end Fdcpp.Buffered
