/-
The descriptor classes: `descriptor` with its constructors, its destructor and its move assignment,
and over it the opening, adopting and copying constructors, `dup` and `dup2` of the eight classes,
as programs over the system calls. The objects live in a memory, where only `_fd` and the class of
each is kept; the state of a program is that memory and `errno`. An object that a constructor is
building has no place in the memory yet: a constructor returns its `_fd`.
-/
import Fdcpp.Lib.Bytes
import Fdcpp.Lib.Prog
import Fdcpp.Util.Throw
import Mathlib.Logic.Function.Basic

namespace Fdcpp.Descriptor

/-! ## System calls -/

/-- The system calls that open a new file, with their arguments. -/
inductive Opener
  | epollCreate1 (flags : Int)
  | eventfd (initval : UInt32) (flags : Int)
  | openFile (path : List UInt8) (flags : Int) (mode : Option UInt32)
  | inotifyInit1 (flags : Int)
  | memfdCreate (name : List UInt8) (flags : Int)
  | signalfd (fd : Int) (mask : List Nat) (flags : Int)
  | socket (domain type protocol : Int)
  | timerfdCreate (clockid flags : Int)
  deriving DecidableEq, Repr

inductive Sys
  | opens (o : Opener)
  | dup (oldfd : Int)
  | dup2 (oldfd newfd : Int)
  | accept (fd : Int)
  | close (fd : Int)
  deriving DecidableEq, Repr

/-- What a call returns, or the `errno` it sets when it returns -1. -/
abbrev Answer (_ : Sys) : Type := Except Errno Nat

/-! ## Objects -/

inductive Class
  | epoll | eventfd | file | inotify | memfd | signalfd | socket | timerfd
  deriving DecidableEq, Repr

structure Object where
  cls : Class
  fd : Int
  deriving DecidableEq, Repr

/-- The live objects by their addresses, and `errno`. -/
structure Memory where
  objs : Nat → Option Object
  errno : Errno

namespace Memory

/-- The `_fd` of the object at `a`; only asked for live objects. -/
def fd (m : Memory) (a : Nat) : Int :=
  match m.objs a with
  | some o => o.fd
  | none => -1

def setFd (m : Memory) (a : Nat) (n : Int) : Memory :=
  { m with objs := Function.update m.objs a ((m.objs a).map fun o => { o with fd := n }) }

def place (m : Memory) (a : Nat) (o : Object) : Memory := { m with objs := Function.update m.objs a (some o) }

def remove (m : Memory) (a : Nat) : Memory := { m with objs := Function.update m.objs a none }

section Fd

variable {m : Memory} {a b : Nat}

theorem fd_of_none (h : m.objs a = none) : m.fd a = -1 := by
  unfold fd
  rw [h]

theorem fd_of_some {o : Object} (h : m.objs a = some o) : m.fd a = o.fd := by
  unfold fd
  rw [h]

theorem fd_congr {m' : Memory} (h : m'.objs = m.objs) : m'.fd = m.fd := by
  funext b
  unfold fd
  rw [h]

theorem fd_place (m : Memory) (a b : Nat) (o : Object) : (m.place a o).fd b = if b = a then o.fd else m.fd b := by
  unfold fd place
  dsimp only
  by_cases h : b = a
  · rw [h, Function.update_self, if_pos rfl]
  · rw [Function.update_of_ne h, if_neg h]

theorem fd_remove (m : Memory) (a b : Nat) : (m.remove a).fd b = if b = a then -1 else m.fd b := by
  unfold fd remove
  dsimp only
  by_cases h : b = a
  · rw [h, Function.update_self, if_pos rfl]
  · rw [Function.update_of_ne h, if_neg h]

theorem fd_setFd {o : Object} (ho : m.objs a = some o) (n : Int) (b : Nat) :
    (m.setFd a n).fd b = if b = a then n else m.fd b := by
  unfold fd setFd
  dsimp only
  by_cases h : b = a
  · rw [h, Function.update_self, if_pos rfl, ho]; rfl
  · rw [Function.update_of_ne h, if_neg h]

theorem exists_objs_setFd {o : Object} (h : m.objs b = some o) (a : Nat) (n : Int) :
    ∃ o', (m.setFd a n).objs b = some o' := by
  unfold setFd
  dsimp only
  by_cases hb : b = a
  · rw [← hb, Function.update_self, h]; exact ⟨_, rfl⟩
  · rw [Function.update_of_ne hb]; exact ⟨o, h⟩

end Fd

end Memory

abbrev SysM : Type → Type := Eff Sys Answer Memory SystemError

/-- A system call: its result is -1 when it fails, and `errno` says why. -/
def sys (q : Sys) : SysM Int := do
  match ← Eff.call q with
  | .ok n => pure n
  | .error e => do
    modify fun m => { m with errno := e }
    pure (-1)

/-- The exception of `throw_system_error(tag, func)`. -/
def lastError (tag func : String) : SysM SystemError := do
  return throwSystemError tag func (← get).errno

/-! ## `descriptor` -/

/-- `descriptor::descriptor(descriptor &&other)`. -/
def moveFrom (other : Nat) : SysM Int := do
  let fd := (← get).fd other
  modify fun m => m.setFd other (-1)
  pure fd

/-- `descriptor::~descriptor`. -/
def destroy (fd : Int) : SysM Unit := do
  if 0 ≤ fd then
    let _ ← sys (.close fd)

/-- `descriptor::operator=(descriptor &&other)`. -/
def moveAssign (this other : Nat) : SysM Unit :=
  modify fun m => (m.setFd this (m.fd other)).setFd other (m.fd this)

/-! ## What the classes have in common -/

/-- The body of a constructor over the base `fd`; an exception destroys the base. -/
def checked (fd : Int) (e : SystemError) : SysM Int := do
  if fd < 0 then
    destroy fd
    throw e
  else pure fd

def openWith (o : Opener) (tag func : String) : SysM Int := do
  let fd ← sys (.opens o)
  checked fd (← lastError tag func)

def adoptWith (other : Nat) (tag func : String) : SysM Int := do
  let fd ← moveFrom other
  checked fd (throwSystemError tag func EBADF)

def copyWith (other : Nat) (tag : String) : SysM Int := do
  let fd ← sys (.dup ((← get).fd other))
  checked fd (← lastError tag "dup()")

def dup2With (this other : Nat) (tag : String) : SysM Unit := do
  let m ← get
  let err ← sys (.dup2 (m.fd other) (m.fd this))
  if err < 0 then throw (← lastError tag "dup2()")

/-! ## The classes -/

namespace Epoll

def make (flags : Int) : SysM Int := openWith (.epollCreate1 flags) "epoll" "epoll()"
def copy (other : Nat) : SysM Int := copyWith other "epoll"
def adopt (other : Nat) : SysM Int := adoptWith other "epoll" "epoll()"
def assign (this other : Nat) : SysM Unit := dup2With this other "epoll"
def dup (this : Nat) : SysM Int := copy this
def dup2 (this other : Nat) : SysM Unit := assign this other

end Epoll

namespace Eventfd

def make (initval : UInt32) (flags : Int) : SysM Int := openWith (.eventfd initval flags) "eventfd" "eventfd()"
def adopt (other : Nat) : SysM Int := adoptWith other "eventfd" "eventfd()"
def copy (other : Nat) : SysM Int := copyWith other "eventfd"
def assign (this other : Nat) : SysM Unit := dup2With this other "eventfd"
def dup (this : Nat) : SysM Int := copy this
def dup2 (this other : Nat) : SysM Unit := assign this other

end Eventfd

namespace File

def make (path : List UInt8) (flags : Int) : SysM Int := openWith (.openFile path flags none) "file" "file()"
def makeMode (path : List UInt8) (flags : Int) (mode : UInt32) : SysM Int :=
  openWith (.openFile path flags (some mode)) "file" "file()"
def ofString (path : List UInt8) (flags : Int) : SysM Int := make (Bytes.cstring path) flags
def ofStringMode (path : List UInt8) (flags : Int) (mode : UInt32) : SysM Int :=
  makeMode (Bytes.cstring path) flags mode
def adopt (other : Nat) : SysM Int := adoptWith other "file" "file()"
-- the base is initialised with `other._fd` itself
def copy (other : Nat) : SysM Int := do
  let fd := (← get).fd other
  checked fd (← lastError "file" "dup()")
def assign (this other : Nat) : SysM Unit := dup2With this other "file"
def dup (this : Nat) : SysM Int := copy this
def dup2 (this other : Nat) : SysM Unit := assign this other

end File

namespace Inotify

def make (flags : Int) : SysM Int := openWith (.inotifyInit1 flags) "inotify" "inotify()"
def adopt (other : Nat) : SysM Int := adoptWith other "inotify" "inotify()"
def copy (other : Nat) : SysM Int := copyWith other "inotify"
def assign (this other : Nat) : SysM Unit := dup2With this other "inotify"
def dup (this : Nat) : SysM Int := copy this
def dup2 (this other : Nat) : SysM Unit := assign this other

end Inotify

namespace Memfd

def make (name : List UInt8) (flags : Int) : SysM Int := openWith (.memfdCreate name flags) "memfd" "memfd()"
def ofString (name : List UInt8) (flags : Int) : SysM Int := make (Bytes.cstring name) flags
def adopt (other : Nat) : SysM Int := adoptWith other "memfd" "memfd()"
def copy (other : Nat) : SysM Int := copyWith other "memfd"
def assign (this other : Nat) : SysM Unit := dup2With this other "memfd"
def dup (this : Nat) : SysM Int := copy this
def dup2 (this other : Nat) : SysM Unit := assign this other

end Memfd

namespace Signalfd

def make (mask : List Nat) (flags : Int) : SysM Int := openWith (.signalfd (-1) mask flags) "signalfd" "signalfd()"
def adopt (other : Nat) : SysM Int := adoptWith other "signalfd" "signalfd()"
def copy (other : Nat) : SysM Int := copyWith other "signalfd"
def assign (this other : Nat) : SysM Unit := dup2With this other "signalfd"
def dup (this : Nat) : SysM Int := copy this
def dup2 (this other : Nat) : SysM Unit := assign this other

end Signalfd

namespace Socket

def make (domain type protocol : Int) : SysM Int := openWith (.socket domain type protocol) "socket" "socket()"
/-- `socket::socket(int fd)`. -/
def ofFd (fd : Int) : SysM Int := checked fd (throwSystemError "socket" "socket()" EBADF)
def adopt (other : Nat) : SysM Int := adoptWith other "socket" "socket()"
def copy (other : Nat) : SysM Int := copyWith other "socket"
def assign (this other : Nat) : SysM Unit := dup2With this other "socket"
def dup (this : Nat) : SysM Int := copy this
def dup2 (this other : Nat) : SysM Unit := assign this other
def accept (this : Nat) : SysM Int := do
  let fd ← sys (.accept ((← get).fd this))
  if fd < 0 then throw (← lastError "socket" "accept()")
  else ofFd fd

end Socket

namespace Timerfd

def make (clockid flags : Int) : SysM Int := openWith (.timerfdCreate clockid flags) "timerfd" "timerfd()"
def adopt (other : Nat) : SysM Int := adoptWith other "timerfd" "timerfd()"
def copy (other : Nat) : SysM Int := copyWith other "timerfd"
def assign (this other : Nat) : SysM Unit := dup2With this other "timerfd"
def dup (this : Nat) : SysM Int := copy this
def dup2 (this other : Nat) : SysM Unit := assign this other

end Timerfd

/-! ## The members of an object's class -/

/-- The constructors that open a file, with their arguments. -/
inductive Ctor
  | epoll (flags : Int)
  | eventfd (initval : UInt32) (flags : Int)
  | file (path : List UInt8) (flags : Int)
  | fileMode (path : List UInt8) (flags : Int) (mode : UInt32)
  | fileString (path : List UInt8) (flags : Int)
  | fileStringMode (path : List UInt8) (flags : Int) (mode : UInt32)
  | inotify (flags : Int)
  | memfd (name : List UInt8) (flags : Int)
  | memfdString (name : List UInt8) (flags : Int)
  | signalfd (mask : List Nat) (flags : Int)
  | socket (domain type protocol : Int)
  | timerfd (clockid flags : Int)
  deriving DecidableEq, Repr

namespace Ctor

def run : Ctor → SysM Int
  | epoll flags => Epoll.make flags
  | eventfd initval flags => Eventfd.make initval flags
  | file path flags => File.make path flags
  | fileMode path flags mode => File.makeMode path flags mode
  | fileString path flags => File.ofString path flags
  | fileStringMode path flags mode => File.ofStringMode path flags mode
  | inotify flags => Inotify.make flags
  | memfd name flags => Memfd.make name flags
  | memfdString name flags => Memfd.ofString name flags
  | signalfd mask flags => Signalfd.make mask flags
  | socket domain type protocol => Socket.make domain type protocol
  | timerfd clockid flags => Timerfd.make clockid flags

/-- The class of the object that is made. -/
def cls : Ctor → Class
  | epoll _ => .epoll
  | eventfd _ _ => .eventfd
  | file _ _ | fileMode _ _ _ | fileString _ _ | fileStringMode _ _ _ => .file
  | inotify _ => .inotify
  | memfd _ _ | memfdString _ _ => .memfd
  | signalfd _ _ => .signalfd
  | socket _ _ _ => .socket
  | timerfd _ _ => .timerfd

end Ctor

namespace Class

def adopt : Class → Nat → SysM Int
  | epoll => Epoll.adopt
  | eventfd => Eventfd.adopt
  | file => File.adopt
  | inotify => Inotify.adopt
  | memfd => Memfd.adopt
  | signalfd => Signalfd.adopt
  | socket => Socket.adopt
  | timerfd => Timerfd.adopt

def dup : Class → Nat → SysM Int
  | epoll => Epoll.dup
  | eventfd => Eventfd.dup
  | file => File.dup
  | inotify => Inotify.dup
  | memfd => Memfd.dup
  | signalfd => Signalfd.dup
  | socket => Socket.dup
  | timerfd => Timerfd.dup

def dup2 : Class → Nat → Nat → SysM Unit
  | epoll => Epoll.dup2
  | eventfd => Eventfd.dup2
  | file => File.dup2
  | inotify => Inotify.dup2
  | memfd => Memfd.dup2
  | signalfd => Signalfd.dup2
  | socket => Socket.dup2
  | timerfd => Timerfd.dup2

/-- The `tag` of the class. -/
def tag : Class → String
  | epoll => "epoll"
  | eventfd => "eventfd"
  | file => "file"
  | inotify => "inotify"
  | memfd => "memfd"
  | signalfd => "signalfd"
  | socket => "socket"
  | timerfd => "timerfd"

theorem adopt_eq (c : Class) (other : Nat) : ∃ func, c.adopt other = adoptWith other c.tag func := by
  cases c <;> exact ⟨_, rfl⟩

theorem dup_eq {c : Class} (hc : c ≠ .file) (this : Nat) : c.dup this = copyWith this c.tag := by
  cases c with
  | file => exact absurd rfl hc
  | _ => rfl

theorem dup2_eq (c : Class) (this other : Nat) : c.dup2 this other = dup2With this other c.tag := by
  cases c <;> rfl

end Class

theorem Ctor.run_eq (c : Ctor) : ∃ o func, c.run = openWith o c.cls.tag func := by
  cases c <;> exact ⟨_, _, rfl⟩

/-! ## What they do -/

abbrev Event : Type := Ev Sys Answer

section Specs

variable {L : (q : Sys) → Answer q → Prop} {m : Memory}

theorem sat_sys {q : Sys} {Post : List Event → Except SystemError Int → Memory → Prop}
    (hok : ∀ n : Nat, Post [⟨q, .ok n⟩] (.ok n) m)
    (herr : ∀ e, Post [⟨q, .error e⟩] (.ok (-1)) { m with errno := e }) : Eff.Sat L (sys q) m Post := by
  unfold sys
  rw [Eff.sat_bind, Eff.sat_call]
  intro r _
  cases r with
  | ok n => exact hok n
  | error e => exact herr e

theorem sat_checked {fd : Int} {e : SystemError} {Post : List Event → Except SystemError Int → Memory → Prop}
    (hok : 0 ≤ fd → Post [] (.ok fd) m) (herr : fd < 0 → Post [] (.error e) m) :
    Eff.Sat L (checked fd e) m Post := by
  unfold checked destroy
  by_cases h : fd < 0
  · rw [if_pos h, if_neg (by omega)]
    exact herr h
  · rw [if_neg h]
    exact hok (by omega)

/-- What a function does whose result is the number that the call `q` returns. -/
def Opened (m : Memory) (q : Sys) (tag func : String) (evs : List Event) (r : Except SystemError Int)
    (m' : Memory) : Prop :=
  (∃ n : Nat, evs = [⟨q, .ok n⟩] ∧ r = .ok (n : Int) ∧ m' = m) ∨
  (∃ e, evs = [⟨q, .error e⟩] ∧ r = .error (throwSystemError tag func e) ∧ m' = { m with errno := e })

theorem sat_lastError {tag func : String} {f : SystemError → SysM Int}
    {Post : List Event → Except SystemError Int → Memory → Prop} :
    Eff.Sat L (lastError tag func >>= f) m Post ↔ Eff.Sat L (f (throwSystemError tag func m.errno)) m Post :=
  Iff.rfl

theorem sat_opened {q : Sys} {tag func : String} :
    Eff.Sat L (do let fd ← sys q; checked fd (← lastError tag func)) m (Opened m q tag func) := by
  rw [Eff.sat_bind]
  refine sat_sys (fun n => ?_) fun e => ?_
  · refine sat_lastError.2 (sat_checked (fun _ => ?_) fun hlt => ?_)
    · exact .inl ⟨n, rfl, rfl, rfl⟩
    · exact absurd hlt (by omega)
  · refine sat_lastError.2 (sat_checked (fun hle => ?_) fun _ => ?_)
    · exact absurd hle (by omega)
    · exact .inr ⟨e, rfl, rfl, rfl⟩

theorem openWith_spec (o : Opener) (tag func : String) :
    Eff.Sat L (openWith o tag func) m (Opened m (.opens o) tag func) := sat_opened

theorem copyWith_spec (a : Nat) (tag : String) :
    Eff.Sat L (copyWith a tag) m (Opened m (.dup (m.fd a)) tag "dup()") := sat_opened

theorem accept_spec (a : Nat) :
    Eff.Sat L (Socket.accept a) m (Opened m (.accept (m.fd a)) "socket" "accept()") := by
  unfold Socket.accept
  rw [Eff.sat_get_bind, Eff.sat_bind]
  refine sat_sys (fun n => ?_) fun e => .inr ⟨e, rfl, rfl, rfl⟩
  show Eff.Sat L (if (n : Int) < 0 then _ else _) m _
  rw [if_neg (by omega)]
  refine sat_checked (fun _ => ?_) fun hlt => ?_
  · exact .inl ⟨n, rfl, rfl, rfl⟩
  · exact absurd hlt (by omega)

/-- The source of an adoption is left with -1, also when it held no number and the constructor throws. -/
theorem adoptWith_spec (other : Nat) (tag func : String) :
    Eff.Sat L (adoptWith other tag func) m fun evs r m' => evs = [] ∧ m' = m.setFd other (-1) ∧
      r = if 0 ≤ m.fd other then .ok (m.fd other) else .error (throwSystemError tag func EBADF) := by
  unfold adoptWith moveFrom
  rw [Eff.sat_bind, Eff.sat_get_bind, Eff.sat_modify_bind, Eff.sat_pure]
  refine sat_checked (fun hle => ?_) fun hlt => ?_
  · exact ⟨rfl, rfl, (if_pos hle).symm⟩
  · exact ⟨rfl, rfl, (if_neg (by omega)).symm⟩

/-- `file::dup` makes no system call: the copy has the number of the original. -/
theorem file_dup_spec (this : Nat) :
    Eff.Sat L (File.dup this) m fun evs r m' => evs = [] ∧ m' = m ∧
      r = if 0 ≤ m.fd this then .ok (m.fd this) else .error (throwSystemError "file" "dup()" m.errno) := by
  unfold File.dup File.copy
  rw [Eff.sat_get_bind]
  refine sat_lastError.2 (sat_checked (fun hle => ?_) fun hlt => ?_)
  · exact ⟨rfl, rfl, (if_pos hle).symm⟩
  · exact ⟨rfl, rfl, (if_neg (by omega)).symm⟩

theorem dup2With_spec (this other : Nat) (tag : String) :
    Eff.Sat L (dup2With this other tag) m fun evs r m' =>
      (∃ n, evs = [⟨.dup2 (m.fd other) (m.fd this), .ok n⟩] ∧ r = .ok () ∧ m' = m) ∨
      (∃ e, evs = [⟨.dup2 (m.fd other) (m.fd this), .error e⟩] ∧ r = .error (throwSystemError tag "dup2()" e) ∧
        m' = { m with errno := e }) := by
  unfold dup2With
  rw [Eff.sat_get_bind, Eff.sat_bind]
  refine sat_sys (fun n => ?_) fun e => .inr ⟨e, rfl, rfl, rfl⟩
  show Eff.Sat L (if (n : Int) < 0 then _ else _) m _
  rw [if_neg (by omega)]
  exact .inl ⟨n, rfl, rfl, rfl⟩

theorem destroy_spec (fd : Int) :
    Eff.Sat L (destroy fd) m fun evs r m' => r = .ok () ∧ m'.objs = m.objs ∧
      (fd < 0 ∧ evs = [] ∨ 0 ≤ fd ∧ ∃ ans, evs = [⟨.close fd, ans⟩]) := by
  unfold destroy
  by_cases h : 0 ≤ fd
  · rw [if_pos h, Eff.sat_bind]
    refine sat_sys (fun n => ?_) fun e => ?_
    · exact ⟨rfl, rfl, .inr ⟨h, _, rfl⟩⟩
    · exact ⟨rfl, rfl, .inr ⟨h, _, rfl⟩⟩
  · rw [if_neg h]
    exact ⟨rfl, rfl, .inl ⟨by omega, rfl⟩⟩

end Specs

end Fdcpp.Descriptor
