/-
`epoll`: the `struct epoll_event` that each overload of `ctl` builds out of the mask and the datum, in memory
that is not initialised, the member functions as programs over the two system calls, and the kernel's
interest list, with the events that it may report.
-/
import Fdcpp.Lib.Bytes
import Fdcpp.Lib.Prog
import Fdcpp.Util.Throw
import Mathlib.Logic.Function.Basic

namespace Fdcpp.Epoll

open Bytes

/-! ## Events -/

/-- A `struct epoll_event`, which is packed: `events`, and from byte 4 on the union `data`. -/
abbrev EpollEvent : Type := Block 12

namespace EpollEvent

def setEvents (ev : EpollEvent) (mask : UInt32) : EpollEvent := ev.store 0 (toLE 4 mask.toNat) (by simp)

def setU32 (ev : EpollEvent) (data : UInt32) : EpollEvent := ev.store 4 (toLE 4 data.toNat) (by simp)

def setFd (ev : EpollEvent) (data : Int32) : EpollEvent := ev.setU32 data.toUInt32

def setU64 (ev : EpollEvent) (data : UInt64) : EpollEvent := ev.store 4 (toLE 8 data.toNat) (by simp)

/-- A pointer is its address. -/
def setPtr (ev : EpollEvent) (data : UInt64) : EpollEvent := ev.setU64 data

def events (ev : EpollEvent) : UInt32 := UInt32.ofNat (ofLE (slice ev.val 0 4))

def u32 (ev : EpollEvent) : UInt32 := UInt32.ofNat (ofLE (slice ev.val 4 4))

def fd (ev : EpollEvent) : Int32 := ev.u32.toInt32

def u64 (ev : EpollEvent) : UInt64 := UInt64.ofNat (ofLE (slice ev.val 4 8))

def ptr (ev : EpollEvent) : UInt64 := ev.u64

/-- The event with these two fields. -/
def of (mask : UInt32) (data : UInt64) : EpollEvent := ⟨toLE 4 mask.toNat ++ toLE 8 data.toNat, by simp⟩

end EpollEvent

/-- The datum of an overload, with the member of the union that it goes to. -/
inductive Data
  | fd (data : Int32)
  | u32 (data : UInt32)
  | u64 (data : UInt64)
  | ptr (data : UInt64)
  deriving DecidableEq

namespace Data

/-- The stores of the overloads into `ev.data`: those of a narrow member clear the union first. -/
def store (ev : EpollEvent) : Data → EpollEvent
  | fd data => (ev.setU64 0).setFd data
  | u32 data => (ev.setU64 0).setU32 data
  | u64 data => ev.setU64 data
  | ptr data => ev.setPtr data

/-- What the union then holds. -/
def word : Data → UInt64
  | fd data => data.toUInt32.toUInt64
  | u32 data => data.toUInt64
  | u64 data | ptr data => data

/-- The datum is what the event has in the member that it is for. -/
def In (ev : EpollEvent) : Data → Prop
  | fd data => ev.fd = data
  | u32 data => ev.u32 = data
  | u64 data => ev.u64 = data
  | ptr data => ev.ptr = data

instance (ev : EpollEvent) : ∀ data : Data, Decidable (data.In ev)
  | fd data => inferInstanceAs (Decidable (ev.fd = data))
  | u32 data => inferInstanceAs (Decidable (ev.u32 = data))
  | u64 data => inferInstanceAs (Decidable (ev.u64 = data))
  | ptr data => inferInstanceAs (Decidable (ev.ptr = data))

end Data

/-- The event that the overloads with a datum pass on, out of uninitialised memory. -/
def makeEvent (junk : EpollEvent) (mask : UInt32) (data : Data) : EpollEvent := (data.store junk).setEvents mask

section Layout

variable {ev : EpollEvent} {mask : UInt32} {data : Data} {w : UInt64}

theorem drop_setU64 (ev : EpollEvent) (w : UInt64) : (ev.setU64 w).val.drop 4 = toLE 8 w.toNat := by
  have hev := ev.property
  show (splice ev.val 4 (toLE 8 w.toNat)).drop 4 = toLE 8 w.toNat
  have htail : ev.val.drop (4 + (toLE 8 w.toNat).length) = [] := List.drop_eq_nil_of_le (by rw [length_toLE]; omega)
  rw [splice, htail, List.append_nil, List.drop_append, List.drop_eq_nil_of_le (by rw [List.length_take]; omega),
    List.length_take, hev]
  rfl

/-- A narrow member is the low half of the union. -/
theorem drop_setU32 (h : ev.val.drop 4 = toLE 8 0) (d : UInt32) :
    (ev.setU32 d).val.drop 4 = toLE 8 d.toUInt64.toNat := by
  have hev := ev.property
  have hd : d.toNat / 256 ^ 4 = 0 := Nat.div_eq_of_lt d.toNat_lt
  have hword : toLE 8 d.toUInt64.toNat = toLE 4 d.toNat ++ toLE 4 0 := by
    rw [UInt32.toNat_toUInt64, toLE_add 4 4, hd]
  have htail : ev.val.drop (4 + (toLE 4 d.toNat).length) = toLE 4 0 := by
    rw [length_toLE, ← List.drop_drop, h]
    rfl
  show (splice ev.val 4 (toLE 4 d.toNat)).drop 4 = _
  rw [splice, htail, hword, List.append_assoc, List.drop_append,
    List.drop_eq_nil_of_le (by rw [List.length_take]; omega), List.length_take, hev]
  rfl

theorem drop_store (ev : EpollEvent) (data : Data) : (data.store ev).val.drop 4 = toLE 8 data.word.toNat := by
  cases data with
  | fd d => exact drop_setU32 (drop_setU64 ev 0) d.toUInt32
  | u32 d => exact drop_setU32 (drop_setU64 ev 0) d
  | u64 d => exact drop_setU64 ev d
  | ptr d => exact drop_setU64 ev d

/-- Nothing of the uninitialised memory is in the event. -/
theorem makeEvent_eq (junk : EpollEvent) (mask : UInt32) (data : Data) :
    makeEvent junk mask data = .of mask data.word := by
  apply Subtype.ext
  show splice (data.store junk).val 0 (toLE 4 mask.toNat) = toLE 4 mask.toNat ++ toLE 8 data.word.toNat
  rw [splice_zero, length_toLE, drop_store]

@[simp] theorem events_of (mask : UInt32) (w : UInt64) : (EpollEvent.of mask w).events = mask := by
  have hslice : slice (toLE 4 mask.toNat ++ toLE 8 w.toNat) 0 4 = toLE 4 mask.toNat := by
    rw [slice, List.drop_zero, List.take_left' (length_toLE ..)]
  have hlt : mask.toNat < 256 ^ 4 := mask.toNat_lt
  rw [EpollEvent.events, EpollEvent.of, hslice, ofLE_toLE, Nat.mod_eq_of_lt hlt, UInt32.ofNat_toNat]

theorem slice_of {n : Nat} (mask : UInt32) (w : UInt64) (hn : n ≤ 8) :
    slice (EpollEvent.of mask w).val 4 n = toLE n w.toNat := by
  obtain ⟨m, hm⟩ := Nat.exists_eq_add_of_le hn
  show ((toLE 4 mask.toNat ++ toLE 8 w.toNat).drop 4).take n = toLE n w.toNat
  rw [List.drop_left' (length_toLE ..), hm, toLE_add, List.take_left' (length_toLE ..)]

@[simp] theorem u64_of (mask : UInt32) (w : UInt64) : (EpollEvent.of mask w).u64 = w := by
  have hlt : w.toNat < 256 ^ 8 := w.toNat_lt
  rw [EpollEvent.u64, slice_of mask w (Nat.le_refl 8), ofLE_toLE, Nat.mod_eq_of_lt hlt, UInt64.ofNat_toNat]

theorem u32_of (mask : UInt32) (w : UInt64) : (EpollEvent.of mask w).u32 = w.toUInt32 := by
  apply UInt32.toNat_inj.1
  rw [EpollEvent.u32, slice_of mask w (by omega), ofLE_toLE, UInt32.toNat_ofNat', UInt64.toNat_toUInt32]
  exact Nat.mod_mod ..

/-- An event has nothing but its two fields. -/
theorem of_events_u64 (ev : EpollEvent) : .of ev.events ev.u64 = ev := by
  have hev := ev.property
  have hmask : toLE 4 ev.events.toNat = slice ev.val 0 4 := by
    have hlen : (slice ev.val 0 4).length = 4 := length_slice (by omega)
    have hlt := ofLE_lt (slice ev.val 0 4)
    have hbytes := toLE_ofLE (slice ev.val 0 4)
    rw [hlen] at hlt hbytes
    rw [EpollEvent.events, UInt32.toNat_ofNat_of_lt' hlt, hbytes]
  have hdata : toLE 8 ev.u64.toNat = slice ev.val 4 8 := by
    have hlen : (slice ev.val 4 8).length = 8 := length_slice (by omega)
    have hlt := ofLE_lt (slice ev.val 4 8)
    have hbytes := toLE_ofLE (slice ev.val 4 8)
    rw [hlen] at hlt hbytes
    rw [EpollEvent.u64, UInt64.toNat_ofNat_of_lt' hlt, hbytes]
  apply Subtype.ext
  show toLE 4 ev.events.toNat ++ toLE 8 ev.u64.toNat = ev.val
  rw [hmask, hdata, ← Nat.zero_add 4, ← slice_add, slice, List.drop_zero, List.take_of_length_le (by omega)]

/-- A datum is read back through the member that it went to. -/
theorem word_in (mask : UInt32) (data : Data) : data.In (.of mask data.word) := by
  cases data with
  | fd d =>
    show (EpollEvent.of mask d.toUInt32.toUInt64).u32.toInt32 = d
    rw [u32_of, UInt32.toUInt32_toUInt64]
    rfl
  | u32 d =>
    show (EpollEvent.of mask d.toUInt64).u32 = d
    rw [u32_of, UInt32.toUInt32_toUInt64]
  | u64 d => exact u64_of mask d
  | ptr d => exact u64_of mask d

end Layout

/-! ## Member functions -/

/-- The system calls; `epoll_wait` is an `epoll_pwait` without a mask. -/
inductive Sys
  | ctl (op fd : Int) (ev : Option EpollEvent)
  | pwait (size timeout : Int) (sigmask : Option (List Nat))
  deriving DecidableEq

/-- What a call returns or the `errno` it sets; a wait that succeeds stores this many events. -/
abbrev Sys.Answer : Sys → Type
  | .ctl .. => Except Errno Unit
  | .pwait .. => Except Errno (List EpollEvent)

abbrev SysM : Type → Type := Eff Sys Sys.Answer Unit SystemError

def EPOLL_CTL_ADD : Int := 1
def EPOLL_CTL_DEL : Int := 2
def EPOLL_CTL_MOD : Int := 3

/-- `epoll::ctl` with a pointer, which is null by default, or with a reference. -/
def ctl (op fd : Int) (ev : Option EpollEvent) : SysM Unit := do
  match ← Eff.call (Sys.ctl op fd ev) with
  | .ok () => pure ()
  | .error e => throw (throwSystemError "epoll" "ctl()" e)

/-- The overloads of `epoll::ctl` with a mask and a datum. -/
def ctlData (junk : EpollEvent) (op fd : Int) (mask : UInt32) (data : Data) : SysM Unit :=
  ctl op fd (some (makeEvent junk mask data))

/-- The overloads of `epoll::add`. -/
def add (junk : EpollEvent) (fd : Int) (mask : UInt32) (data : Data) : SysM Unit :=
  ctlData junk EPOLL_CTL_ADD fd mask data

/-- The overloads of `epoll::mod`. -/
def mod (junk : EpollEvent) (fd : Int) (mask : UInt32) (data : Data) : SysM Unit :=
  ctlData junk EPOLL_CTL_MOD fd mask data

def del (fd : Int) : SysM Unit := ctl EPOLL_CTL_DEL fd none

/-- The events that a wait stores, whose number it returns. -/
def waitAs (func : String) (size timeout : Int) (sigmask : Option (List Nat)) : SysM (List EpollEvent) := do
  match ← Eff.call (Sys.pwait size timeout sigmask) with
  | .ok evs => pure evs
  | .error e => throw (throwSystemError "epoll" func e)

def wait (size timeout : Int) : SysM (List EpollEvent) := waitAs "wait()" size timeout none

def pwait (size timeout : Int) (sigmask : List Nat) : SysM (List EpollEvent) :=
  waitAs "pwait()" size timeout (some sigmask)

/-! ## The kernel -/

def EPOLLERR : UInt32 := 0x8
def EPOLLHUP : UInt32 := 0x10
def EPOLLONESHOT : UInt32 := 0x40000000

/-- A descriptor that is watched: one with `EPOLLONESHOT` is not armed after its report. -/
structure Item (δ : Type) where
  mask : UInt32
  data : δ
  armed : Bool
  deriving DecidableEq

/-- What a descriptor becomes with a report. -/
def Item.fired {δ : Type} (x : Item δ) : Item δ := if x.mask &&& EPOLLONESHOT ≠ 0 then { x with armed := false } else x

/-- The events that may be reported of a descriptor with this mask. -/
def Reportable (mask revents : UInt32) : Prop := revents ≠ 0 ∧ revents &&& (mask ||| EPOLLERR ||| EPOLLHUP) = revents

instance (mask revents : UInt32) : Decidable (Reportable mask revents) :=
  inferInstanceAs (Decidable (revents ≠ 0 ∧ revents &&& (mask ||| EPOLLERR ||| EPOLLHUP) = revents))

/-- The open file of each descriptor, and what is watched: a descriptor together with the file that it had
when it was added. -/
structure Watch (δ : Type) where
  files : Int → Option Nat
  items : Int × Nat → Option (Item δ)

namespace Watch

variable {δ : Type}

def put (w : Watch δ) (t : Int × Nat) (x : Item δ) : Watch δ := { w with items := Function.update w.items t (some x) }

def drop (w : Watch δ) (t : Int × Nat) : Watch δ := { w with items := Function.update w.items t none }

/-- What is watched after a report. -/
def fired (w : Watch δ) (ts : List (Int × Nat)) : Watch δ :=
  { w with items := fun t => if t ∈ ts then (w.items t).map Item.fired else w.items t }

/-- A descriptor is closed, or it refers to a file from now on. -/
def refer (w : Watch δ) (fd : Int) (file : Option Nat) : Watch δ := { w with files := Function.update w.files fd file }

/-- The last descriptor of a file is closed. -/
def release (w : Watch δ) (file : Nat) : Watch δ := { w with items := fun t => if t.2 = file then none else w.items t }

end Watch

/-- The report of a descriptor has its datum. -/
def Reports (k : Watch UInt64) (t : Int × Nat) (ev : EpollEvent) : Prop :=
  ∃ x, k.items t = some x ∧ x.armed = true ∧ ∃ revents, Reportable x.mask revents ∧ ev = .of revents x.data

/-- What the kernel may answer to a call, and what it watches after it: a descriptor is added if it is not
watched, and changed or deleted if it is; a wait reports some that are armed, each once; and any
call may fail. -/
inductive Gives : Watch UInt64 → (q : Sys) → q.Answer → Watch UInt64 → Prop
  | add {k : Watch UInt64} {fd : Int} {file : Nat} {ev : EpollEvent} (hfile : k.files fd = some file)
    (new : k.items (fd, file) = none) :
    Gives k (.ctl EPOLL_CTL_ADD fd (some ev)) (Except.ok () : Except Errno Unit)
      (k.put (fd, file) ⟨ev.events, ev.u64, true⟩)
  | mod {k : Watch UInt64} {fd : Int} {file : Nat} {ev : EpollEvent} (hfile : k.files fd = some file)
    (old : k.items (fd, file) ≠ none) :
    Gives k (.ctl EPOLL_CTL_MOD fd (some ev)) (Except.ok () : Except Errno Unit)
      (k.put (fd, file) ⟨ev.events, ev.u64, true⟩)
  | del {k : Watch UInt64} {fd : Int} {file : Nat} {ev : Option EpollEvent} (hfile : k.files fd = some file)
    (old : k.items (fd, file) ≠ none) :
    Gives k (.ctl EPOLL_CTL_DEL fd ev) (Except.ok () : Except Errno Unit) (k.drop (fd, file))
  | ctlFails {k : Watch UInt64} {op fd : Int} {ev : Option EpollEvent} (e : Errno) :
    Gives k (.ctl op fd ev) (Except.error e : Except Errno Unit) k
  | pwait {k : Watch UInt64} {size timeout : Int} {sigmask : Option (List Nat)} {ts : List (Int × Nat)}
    {evs : List EpollEvent} (once : ts.Nodup) (fits : ts.length ≤ size) (reports : List.Forall₂ (Reports k) ts evs) :
    Gives k (.pwait size timeout sigmask) (Except.ok evs : Except Errno (List EpollEvent)) (k.fired ts)
  | pwaitFails {k : Watch UInt64} {size timeout : Int} {sigmask : Option (List Nat)} (e : Errno) :
    Gives k (.pwait size timeout sigmask) (Except.error e : Except Errno (List EpollEvent)) k

/-- The kernel answers some calls, one after the other. -/
def Answers : Watch UInt64 → List (Ev Sys Sys.Answer) → Watch UInt64 → Prop
  | k, [], k' => k = k'
  | k, e :: evs, k' => ∃ k₁, Gives k e.1 e.2 k₁ ∧ Answers k₁ evs k'

/-! ## Runs -/

/-- The member functions; `ctl` has an overload for a `struct epoll_event` and the others for a datum. -/
inductive Call
  | ctl (op fd : Int) (ev : Option EpollEvent)
  | ctlData (op fd : Int) (mask : UInt32) (data : Data)
  | add (fd : Int) (mask : UInt32) (data : Data)
  | mod (fd : Int) (mask : UInt32) (data : Data)
  | del (fd : Int)
  | wait (size timeout : Int)
  | pwait (size timeout : Int) (sigmask : List Nat)
  deriving DecidableEq

/-- A function, with what is in the memory of its `struct epoll_event`. -/
def Call.exec (junk : EpollEvent) : Call → SysM (List EpollEvent)
  | ctl op fd ev => Epoll.ctl op fd ev *> pure []
  | ctlData op fd mask data => Epoll.ctlData junk op fd mask data *> pure []
  | add fd mask data => Epoll.add junk fd mask data *> pure []
  | mod fd mask data => Epoll.mod junk fd mask data *> pure []
  | del fd => Epoll.del fd *> pure []
  | wait size timeout => Epoll.wait size timeout
  | pwait size timeout sigmask => Epoll.pwait size timeout sigmask

/-- A function with its result, or what becomes of the descriptors and files of the process. -/
inductive Act
  | call (f : Call) (r : Except SystemError (List EpollEvent))
  | refer (fd : Int) (file : Option Nat)
  | release (file : Nat)

inductive Step : Watch UInt64 → Act → Watch UInt64 → Prop
  | call {k k' : Watch UInt64} {f : Call} {junk : EpollEvent} {evs : List (Ev Sys Sys.Answer)}
    {r : Except SystemError (List EpollEvent)} (runs : ((f.exec junk).prog ()).Runs evs (r, ()))
    (answers : Answers k evs k') : Step k (.call f r) k'
  | refer {k : Watch UInt64} (fd : Int) (file : Option Nat) : Step k (.refer fd file) (k.refer fd file)
  | release {k : Watch UInt64} {file : Nat} (closed : ∀ fd, k.files fd ≠ some file) :
    Step k (.release file) (k.release file)

end Fdcpp.Epoll
