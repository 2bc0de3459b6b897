/-
Programs that use the descriptor classes: the kernel's table of open descriptors, which reuses
numbers, the live objects, and the steps of a run, which apply any operation of any class to any
object in any order. The kernel numbers the openings it made for the library and logs, for every
`close` of the library, the opening that it ended; the rest of the process opens and closes numbers
of its own.
-/
import Fdcpp.Descriptor.Classes
import Fdcpp.Lib.Ledger
import Fdcpp.Lib.Run
import Fdcpp.Lib.Table

namespace Fdcpp.Descriptor

/-! ## The kernel -/

/-- What a number refers to: an open file, and the opening by the library that made the number, if
the library did. -/
structure OpenFile where
  file : Nat
  opening : Option Nat
  deriving DecidableEq, Repr

/-- The open descriptors; how many files and how many openings by the library there were; and each
`close` of the library with the opening it ended, if any. -/
structure Kernel where
  table : Table OpenFile
  files : Nat
  openings : Nat
  closes : List (Int × Option Nat)

namespace Kernel

/-- The opening by the library that the number `n` comes from. -/
def opening (k : Kernel) (n : Int) : Option Nat := (k.table.file n).bind OpenFile.opening

/-- The library gets the number `n` for `file`. -/
def lend (k : Kernel) (n : Int) (file : Nat) : Kernel :=
  { k with table := (n, ⟨file, some k.openings⟩) :: k.table, openings := k.openings + 1 }

/-- The library gets the number `n` for a new file. -/
def openNew (k : Kernel) (n : Int) : Kernel := { k.lend n k.files with files := k.files + 1 }

def release (k : Kernel) (n : Int) : Kernel :=
  { k with
    table := k.table.close n
    closes := k.closes ++ [(n, k.opening n)] }

/-- `dup2`: `n` refers to `file` from now on. -/
def redirect (k : Kernel) (n : Int) (file : Nat) : Kernel :=
  match k.table.file n with
  | some f => { k with table := (n, { f with file := file }) :: k.table.close n }
  | none => k.lend n file

/-- The rest of the process gets the number `n` for a new file. -/
def othersOpen (k : Kernel) (n : Int) : Kernel :=
  { k with table := (n, ⟨k.files, none⟩) :: k.table, files := k.files + 1 }

/-- The rest of the process closes its number `n`. -/
def othersClose (k : Kernel) (n : Int) : Kernel := { k with table := k.table.close n }

/-- The kernel after the call `q` with the answer `r`, if it may answer so: a new number is one that
is not open, and `close` releases an open number whatever it reports. -/
def answer (k : Kernel) : (q : Sys) → Answer q → Option Kernel
  | .opens _, .ok n => if (n : Int) ∈ k.table.nums then none else some (k.openNew n)
  | .accept fd, .ok n =>
    match k.table.file fd with
    | some _ => if (n : Int) ∈ k.table.nums then none else some (k.openNew n)
    | none => none
  | .dup oldfd, .ok n =>
    match k.table.file oldfd with
    | some f => if (n : Int) ∈ k.table.nums then none else some (k.lend n f.file)
    | none => none
  | .dup2 oldfd newfd, .ok n =>
    match k.table.file oldfd with
    | some f => if (n : Int) = newfd then some (k.redirect newfd f.file) else none
    | none => none
  -- also a `close` that reports an error has released the number
  | .close fd, r => if fd ∈ k.table.nums ∨ r = .error EBADF then some (k.release fd) else none
  | .opens _, .error _ | .accept _, .error _ | .dup _, .error _ | .dup2 _ _, .error _ => some k

/-- The kernel after the calls and answers `evs`, if it may answer so. -/
def answers (k : Kernel) : List Event → Option Kernel
  | [] => some k
  | e :: evs => (k.answer e.1 e.2).bind fun k' => k'.answers evs

/-- The openings by the library as leases on numbers. -/
def ledger (k : Kernel) : Ledger Int := ⟨k.opening, k.openings, k.closes.map Prod.snd⟩

end Kernel

/-! ## Operations -/

inductive Op
  | make (a : Nat) (c : Ctor)
  | adopt (a : Nat) (c : Class) (other : Nat)
  | moveMake (a : Nat) (c : Class) (other : Nat)
  | moveAssign (c : Class) (this other : Nat)
  | dup (a : Nat) (c : Class) (this : Nat)
  | dup2 (c : Class) (this other : Nat)
  | accept (a : Nat) (this : Nat)
  | destroy (a : Nat)
  deriving DecidableEq, Repr

/-- A new object at `a` over the number that a constructor returns. -/
def placeNew (a : Nat) (c : Class) (ctor : SysM Int) : SysM Unit := do
  let fd ← ctor
  modify fun m => m.place a ⟨c, fd⟩

namespace Op

def exec : Op → SysM Unit
  | make a c => placeNew a c.cls c.run
  | adopt a c other => placeNew a c (c.adopt other)
  | moveMake a c other => placeNew a c (moveFrom other)
  | moveAssign _ this other => Descriptor.moveAssign this other
  | dup a c this => placeNew a c (c.dup this)
  | dup2 c this other => c.dup2 this other
  | accept a this => placeNew a .socket (Socket.accept this)
  | destroy a => do
    Descriptor.destroy ((← get).fd a)
    modify fun m => m.remove a

/-- There is an object of the class `c` at `a`. -/
def LiveAt (m : Memory) (c : Class) (a : Nat) : Prop := (m.objs a).map Object.cls = some c

/-- The objects that the operation is applied to exist, and its result goes where there is none. -/
def Allowed (m : Memory) : Op → Prop
  | make a _ => m.objs a = none
  | adopt a _ other => m.objs a = none ∧ m.objs other ≠ none
  | moveMake a c other => m.objs a = none ∧ LiveAt m c other
  | moveAssign c this other => LiveAt m c this ∧ LiveAt m c other
  | dup a c this => m.objs a = none ∧ LiveAt m c this
  | dup2 c this other => LiveAt m c this ∧ LiveAt m c other
  | accept a this => m.objs a = none ∧ LiveAt m .socket this
  | destroy a => m.objs a ≠ none

instance (m : Memory) (c : Class) (a : Nat) : Decidable (LiveAt m c a) :=
  inferInstanceAs (Decidable ((m.objs a).map Object.cls = some c))

instance (m : Memory) : ∀ o : Op, Decidable (o.Allowed m)
  | make a _ => inferInstanceAs (Decidable (m.objs a = none))
  | adopt a _ other => inferInstanceAs (Decidable (m.objs a = none ∧ m.objs other ≠ none))
  | moveMake a c other => inferInstanceAs (Decidable (m.objs a = none ∧ LiveAt m c other))
  | moveAssign c this other => inferInstanceAs (Decidable (LiveAt m c this ∧ LiveAt m c other))
  | dup a c this => inferInstanceAs (Decidable (m.objs a = none ∧ LiveAt m c this))
  | dup2 c this other => inferInstanceAs (Decidable (LiveAt m c this ∧ LiveAt m c other))
  | accept a this => inferInstanceAs (Decidable (m.objs a = none ∧ LiveAt m .socket this))
  | destroy a => inferInstanceAs (Decidable (m.objs a ≠ none))

theorem LiveAt.some {m : Memory} {c : Class} {a : Nat} (h : LiveAt m c a) : ∃ o, m.objs a = some o := by
  obtain ⟨o, ho, -⟩ := Option.map_eq_some_iff.1 h
  exact ⟨o, ho⟩

end Op

/-! ## Runs -/

structure World where
  mem : Memory
  kernel : Kernel

/-- Before the library is used: the process has the descriptors `others` already. -/
def World.start (others : List Int) : World where
  mem := ⟨fun _ => none, 0⟩
  kernel := ⟨others.zipIdx.map fun p => (p.1, ⟨p.2, none⟩), others.length, 0, []⟩

/-- An operation with its system calls, or what the rest of the process does. -/
inductive Act
  | op (o : Op) (evs : List Event)
  | opened (n : Nat)
  | closed (n : Nat)

inductive Step : World → Act → World → Prop
  | op {w : World} {o : Op} {evs : List Event} {r : Except SystemError Unit} {m' : Memory} {k' : Kernel}
      (ha : o.Allowed w.mem) (hr : (o.exec.prog w.mem).Runs evs (r, m')) (hk : w.kernel.answers evs = some k') :
      Step w (.op o evs) ⟨m', k'⟩
  | opened {w : World} {n : Nat} (hn : (n : Int) ∉ w.kernel.table.nums) :
      Step w (.opened n) ⟨w.mem, w.kernel.othersOpen n⟩
  | closed {w : World} {n f : Nat} (hn : w.kernel.table.file n = some ⟨f, none⟩) :
      Step w (.closed n) ⟨w.mem, w.kernel.othersClose n⟩

/-! ## Playing a run -/

/-- What is to happen next; an operation comes with the answers to its system calls. -/
inductive Cue
  | op (o : Op) (rs : List (Except Errno Nat))
  | opened (n : Nat)
  | closed (n : Nat)

def World.play (w : World) : Cue → Option (Act × World)
  | .op o rs =>
    let run := (o.exec.prog w.mem).play (fun past _ => rs.getD past.length (.error 0)) []
    if o.Allowed w.mem then (w.kernel.answers run.1).map fun k' => (.op o run.1, ⟨run.2.2, k'⟩) else none
  | .opened n =>
    if (n : Int) ∈ w.kernel.table.nums then none else some (.opened n, ⟨w.mem, w.kernel.othersOpen n⟩)
  | .closed n =>
    match w.kernel.table.file n with
    | some ⟨_, none⟩ => some (.closed n, ⟨w.mem, w.kernel.othersClose n⟩)
    | _ => none

theorem play_step (w : World) (c : Cue) (p : Act × World) (h : w.play c = some p) : Step w p.1 p.2 := by
  unfold World.play at h
  cases c with
  | op o rs =>
    dsimp only at h
    split at h
    · rename_i ha
      obtain ⟨k', hk, rfl⟩ := Option.map_eq_some_iff.1 h
      exact .op ha (Prog.play_runs _ _ _) hk
    · cases h
  | opened n =>
    dsimp only at h
    split at h
    · cases h
    · rename_i hn
      cases h
      exact .opened hn
  | closed n =>
    dsimp only at h
    split at h
    · rename_i hn
      cases h
      exact .closed hn
    · cases h

end Fdcpp.Descriptor
