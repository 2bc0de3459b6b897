/-
`easy::mmap` and programs that use it: the class as programs over its two system calls, the kernel's
page table with the mappings that it made for the library, and the runs of a program, which makes,
moves and destroys objects in any order while the rest of the process maps and unmaps pages of its
own. An object that a constructor is building has no place in the memory yet.
-/
import Fdcpp.Lib.Ledger
import Fdcpp.Lib.Prog
import Fdcpp.Lib.Run
import Fdcpp.Util.Throw

namespace Fdcpp.Mapping

/-! ## System calls -/

inductive Sys
  | mmap (addr len : Nat) (prot flags fd off : Int)
  | munmap (addr len : Nat)
  deriving DecidableEq, Repr

/-- What a call returns, or the `errno` it sets when it fails. -/
abbrev Answer (_ : Sys) : Type := Except Errno Nat

abbrev Event : Type := Ev Sys Answer

/-- `(void *) -1`. -/
def MAP_FAILED : Nat := 0xFFFFFFFFFFFFFFFF

/-- The bit 0x10 of the flags. -/
def Fixed (flags : Int) : Prop := flags / 16 % 2 = 1

instance (flags : Int) : Decidable (Fixed flags) := inferInstanceAs (Decidable (flags / 16 % 2 = 1))

/-! ## Objects -/

/-- `_addr`, which is 0 for a null pointer, and `_size`. -/
structure Mmap where
  addr : Nat
  size : Nat
  deriving DecidableEq, Repr

/-- The live objects by their addresses, and `errno`. -/
structure Memory where
  objs : Nat → Option Mmap
  errno : Errno

namespace Memory

/-- The object at `a`; only asked for live objects. -/
def obj (m : Memory) (a : Nat) : Mmap := (m.objs a).getD ⟨0, 0⟩

def place (m : Memory) (a : Nat) (o : Mmap) : Memory := { m with objs := Function.update m.objs a (some o) }

def remove (m : Memory) (a : Nat) : Memory := { m with objs := Function.update m.objs a none }

end Memory

abbrev SysM : Type → Type := Eff Sys Answer Memory SystemError

/-! ## The class -/

/-- `::mmap`. -/
def sysMmap (addr len : Nat) (prot flags fd off : Int) : SysM Nat := do
  match ← Eff.call (Sys.mmap addr len prot flags fd off) with
  | .ok a => pure a
  | .error e => do
    modify fun m => { m with errno := e }
    pure MAP_FAILED

/-- The constructor with an address. The destructor does not run when it throws. -/
def makeAt (addr len : Nat) (prot flags fd off : Int) : SysM Mmap := do
  let a ← sysMmap addr len prot flags fd off
  if a = MAP_FAILED then throw (throwSystemError "mmap" "mmap()" (← get).errno)
  else pure ⟨a, len⟩

def make (len : Nat) (prot flags fd off : Int) : SysM Mmap := makeAt 0 len prot flags fd off

/-- `mmap::mmap(mmap &&other)`. -/
def moveFrom (other : Nat) : SysM Mmap := do
  let o := (← get).obj other
  modify fun m => m.place other ⟨0, 0⟩
  pure o

/-- `mmap::~mmap`. -/
def destroy (o : Mmap) : SysM Unit := do
  if o.addr ≠ 0 then
    match ← Eff.call (Sys.munmap o.addr o.size) with
    | .ok _ => pure ()
    | .error e => modify fun m => { m with errno := e }

/-- `mmap::operator=(mmap &&other)`. -/
def moveAssign (this other : Nat) : SysM Unit :=
  modify fun m => (m.place this (m.obj other)).place other (m.obj this)

/-- The address of the byte that `operator[]` and `operator+` give. -/
def Mmap.at (o : Mmap) (i : Nat) : Nat := o.addr + i

/-! ## The kernel -/

def pageSize : Nat := 4096

/-- The pages of the `len` bytes from the page boundary `addr` on. -/
def pagesOf (addr len : Nat) : List Nat := List.range' (addr / pageSize) ((len + pageSize - 1) / pageSize)

/-- The pages that are mapped, each by a mapping made for the library or, with `none`, by the rest of the
process; the mappings of the library by their addresses and sizes; how many there were; and each
`munmap` of the library with the mapping it ended, if any. -/
structure Kernel where
  pages : Nat → Option (Option Nat)
  regions : Nat × Nat → Option Nat
  mappings : Nat
  unmaps : List ((Nat × Nat) × Option Nat)

namespace Kernel

def setPages (k : Kernel) (addr len : Nat) (x : Option (Option Nat)) : Kernel :=
  { k with pages := fun p => if p ∈ pagesOf addr len then x else k.pages p }

/-- A new mapping for the library. -/
def map (k : Kernel) (addr len : Nat) : Kernel :=
  { k.setPages addr len (some (some k.mappings)) with
    regions := Function.update k.regions (addr, len) (some k.mappings), mappings := k.mappings + 1 }

/-- The library gives back a mapping. -/
def unmap (k : Kernel) (addr len : Nat) : Kernel :=
  { k with
    regions := Function.update k.regions (addr, len) none
    unmaps := k.unmaps ++ [((addr, len), k.regions (addr, len))] }

/-- Whether `mmap` may return `a`: with `MAP_FIXED` it is the address asked for, whatever is mapped
there, and else a place other than 0 with no mapped page. -/
def Grants (k : Kernel) (addr len : Nat) (flags : Int) (a : Nat) : Prop :=
  a % pageSize = 0 ∧ 0 < len ∧ a + len ≤ 0x800000000000 ∧
    if Fixed flags then a = addr else a ≠ 0 ∧ ∀ p ∈ pagesOf a len, k.pages p = none

instance (k : Kernel) (addr len : Nat) (flags : Int) (a : Nat) : Decidable (k.Grants addr len flags a) :=
  inferInstanceAs (Decidable (a % pageSize = 0 ∧ 0 < len ∧ a + len ≤ 0x800000000000 ∧
    if Fixed flags then a = addr else a ≠ 0 ∧ ∀ p ∈ pagesOf a len, k.pages p = none))

/-- The kernel after the call `q` with the answer `r`, if it may answer so. A `munmap` that fails leaves
the pages mapped. -/
def answer (k : Kernel) : (q : Sys) → Answer q → Option Kernel
  | .mmap addr len _ flags _ _, .ok a => if k.Grants addr len flags a then some (k.map a len) else none
  | .mmap .., .error _ => some k
  | .munmap addr len, .ok _ =>
    if addr % pageSize = 0 ∧ 0 < len then some ((k.setPages addr len none).unmap addr len) else none
  | .munmap addr len, .error _ => some (k.unmap addr len)

/-- The kernel after the calls and answers `evs`, if it may answer so. -/
def answers (k : Kernel) : List Event → Option Kernel
  | [] => some k
  | e :: evs => (k.answer e.1 e.2).bind fun k' => k'.answers evs

/-- The mappings of the library as leases on regions. -/
def ledger (k : Kernel) : Ledger (Nat × Nat) := ⟨k.regions, k.mappings, k.unmaps.map Prod.snd⟩

end Kernel

/-! ## Operations -/

inductive Op
  | make (a len : Nat) (prot flags fd off : Int)
  | makeAt (a addr len : Nat) (prot flags fd off : Int)
  | moveMake (a other : Nat)
  | moveAssign (this other : Nat)
  | destroy (a : Nat)
  deriving DecidableEq, Repr

/-- A new object at `a`. -/
def placeNew (a : Nat) (ctor : SysM Mmap) : SysM Unit := do
  let o ← ctor
  modify fun m => m.place a o

namespace Op

def exec : Op → SysM Unit
  | make a len prot flags fd off => placeNew a (Mapping.make len prot flags fd off)
  | makeAt a addr len prot flags fd off => placeNew a (Mapping.makeAt addr len prot flags fd off)
  | moveMake a other => placeNew a (moveFrom other)
  | moveAssign this other => Mapping.moveAssign this other
  | destroy a => do
    Mapping.destroy ((← get).obj a)
    modify fun m => m.remove a

/-- The objects that the operation is applied to exist, and its result goes where there is none. -/
def Allowed (m : Memory) : Op → Prop
  | make a .. | makeAt a .. => m.objs a = none
  | moveMake a other => m.objs a = none ∧ m.objs other ≠ none
  | moveAssign this other => m.objs this ≠ none ∧ m.objs other ≠ none
  | destroy a => m.objs a ≠ none

instance (m : Memory) : ∀ o : Op, Decidable (o.Allowed m)
  | make a .. | makeAt a .. => inferInstanceAs (Decidable (m.objs a = none))
  | moveMake a other => inferInstanceAs (Decidable (m.objs a = none ∧ m.objs other ≠ none))
  | moveAssign this other => inferInstanceAs (Decidable (m.objs this ≠ none ∧ m.objs other ≠ none))
  | destroy a => inferInstanceAs (Decidable (m.objs a ≠ none))

end Op

/-! ## Runs -/

structure World where
  mem : Memory
  kernel : Kernel

/-- Before the library is used: the rest of the process has mapped the pages `others`. -/
def World.start (others : List Nat) : World where
  mem := ⟨fun _ => none, 0⟩
  kernel := ⟨fun p => if p ∈ others then some none else none, fun _ => none, 0, []⟩

/-- An operation with its system calls, or what the rest of the process does. -/
inductive Act
  | op (o : Op) (evs : List Event)
  | mapped (addr len : Nat)
  | unmapped (addr len : Nat)

inductive Step : World → Act → World → Prop
  | op {w : World} {o : Op} {evs : List Event} {r : Except SystemError Unit} {m' : Memory} {k' : Kernel}
      (ha : o.Allowed w.mem) (hr : (o.exec.prog w.mem).Runs evs (r, m')) (hk : w.kernel.answers evs = some k') :
      Step w (.op o evs) ⟨m', k'⟩
  | mapped {w : World} {addr len : Nat} (hp : ∀ p ∈ pagesOf addr len, w.kernel.pages p = none) :
      Step w (.mapped addr len) ⟨w.mem, w.kernel.setPages addr len (some none)⟩
  | unmapped {w : World} {addr len : Nat}
    (hp : ∀ p ∈ pagesOf addr len, w.kernel.pages p ≠ none → w.kernel.pages p = some none) :
      Step w (.unmapped addr len) ⟨w.mem, w.kernel.setPages addr len none⟩

/-! ## Playing a run -/

/-- What is to happen next; an operation comes with the answer to its system call, if it makes one. -/
inductive Cue
  | op (o : Op) (r : Except Errno Nat)
  | mapped (addr len : Nat)
  | unmapped (addr len : Nat)

def World.play (w : World) : Cue → Option (Act × World)
  | .op o r =>
    let run := (o.exec.prog w.mem).play (fun _ _ => r) []
    if o.Allowed w.mem then (w.kernel.answers run.1).map fun k' => (.op o run.1, ⟨run.2.2, k'⟩) else none
  | .mapped addr len =>
    if ∀ p ∈ pagesOf addr len, w.kernel.pages p = none
    then some (.mapped addr len, ⟨w.mem, w.kernel.setPages addr len (some none)⟩) else none
  | .unmapped addr len =>
    if ∀ p ∈ pagesOf addr len, w.kernel.pages p ≠ none → w.kernel.pages p = some none
    then some (.unmapped addr len, ⟨w.mem, w.kernel.setPages addr len none⟩) else none

theorem play_step (w : World) (c : Cue) (p : Act × World) (h : w.play c = some p) : Step w p.1 p.2 := by
  unfold World.play at h
  cases c with
  | op o r =>
    dsimp only at h
    split at h
    · rename_i ha
      obtain ⟨k', hk, rfl⟩ := Option.map_eq_some_iff.1 h
      exact .op ha (Prog.play_runs _ _ _) hk
    · cases h
  | mapped addr len =>
    dsimp only at h
    split at h
    · rename_i hp
      cases h
      exact .mapped hp
    · cases h
  | unmapped addr len =>
    dsimp only at h
    split at h
    · rename_i hp
      cases h
      exact .unmapped hp
    · cases h

/-! ## What the functions do -/

section Specs

variable {L : (q : Sys) → Answer q → Prop} {m : Memory}

theorem sat_sysMmap {addr len : Nat} {prot flags fd off : Int}
    {Post : List Event → Except SystemError Nat → Memory → Prop}
    (hok : ∀ a, Post [⟨.mmap addr len prot flags fd off, .ok a⟩] (.ok a) m)
    (herr : ∀ e, Post [⟨.mmap addr len prot flags fd off, .error e⟩] (.ok MAP_FAILED) { m with errno := e }) :
    Eff.Sat L (sysMmap addr len prot flags fd off) m Post := by
  unfold sysMmap
  rw [Eff.sat_bind, Eff.sat_call]
  intro r _
  cases r with
  | ok a => exact hok a
  | error e => exact herr e

theorem makeAt_spec (addr len : Nat) (prot flags fd off : Int) :
    Eff.Sat L (makeAt addr len prot flags fd off) m fun evs r m' =>
      (∃ a, evs = [⟨.mmap addr len prot flags fd off, .ok a⟩] ∧ m' = m ∧ (a ≠ MAP_FAILED → r = .ok ⟨a, len⟩)) ∨
      (∃ e, evs = [⟨.mmap addr len prot flags fd off, .error e⟩] ∧ m'.objs = m.objs ∧
        r = .error (throwSystemError "mmap" "mmap()" e)) := by
  unfold makeAt
  rw [Eff.sat_bind]
  refine sat_sysMmap (fun a => ?_) fun e => .inr ⟨e, rfl, rfl, rfl⟩
  show Eff.Sat L (if a = MAP_FAILED then _ else _) m _
  by_cases ha : a = MAP_FAILED
  · rw [if_pos ha]
    exact .inl ⟨a, rfl, rfl, fun hne => absurd ha hne⟩
  · rw [if_neg ha]
    exact .inl ⟨a, rfl, rfl, fun _ => rfl⟩

theorem destroy_spec (o : Mmap) :
    Eff.Sat L (destroy o) m fun evs r m' => r = .ok () ∧ m'.objs = m.objs ∧
      (o.addr = 0 ∧ evs = [] ∨ o.addr ≠ 0 ∧ ∃ ans, evs = [⟨.munmap o.addr o.size, ans⟩]) := by
  unfold destroy
  by_cases h : o.addr = 0
  · rw [if_neg fun hn => hn h]
    exact ⟨rfl, rfl, .inl ⟨h, rfl⟩⟩
  · rw [if_pos h, Eff.sat_bind, Eff.sat_call]
    rintro (e | n) -
    · exact ⟨rfl, rfl, .inr ⟨h, _, rfl⟩⟩
    · exact ⟨rfl, rfl, .inr ⟨h, _, rfl⟩⟩

end Specs

end Fdcpp.Mapping
