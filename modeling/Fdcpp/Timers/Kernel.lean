/-
Kernel timers and the times they are programmed with, and the runs of a population of `timer`
objects over them: operations on any of the timers, calls of the kernel that fail, moves, time that
passes and expirations that the kernel gets to once they are due. Of each kernel timer the last
setting it was programmed with is recorded, and how often it has expired since.
-/
import Fdcpp.Lib.Ledger
import Fdcpp.Lib.Run
import Fdcpp.Timers.Timer

namespace Fdcpp.Timers

/-! ## Times -/

namespace Timespec

/-- What the kernel accepts. -/
def Valid (t : Timespec) : Prop := 0 ≤ t.tvSec ∧ 0 ≤ t.tvNsec ∧ t.tvNsec < 1000000000

instance (t : Timespec) : Decidable t.Valid :=
  inferInstanceAs (Decidable (0 ≤ t.tvSec ∧ 0 ≤ t.tvNsec ∧ t.tvNsec < 1000000000))

/-- The time in nanoseconds. -/
def ns (t : Timespec) : Nat := (t.tvSec * 1000000000 + t.tvNsec).toNat

def ofNs (n : Nat) : Timespec := ⟨(n / 1000000000 : Nat), (n % 1000000000 : Nat)⟩

@[simp] theorem ns_ofNs (n : Nat) : (ofNs n).ns = n := by
  unfold ns ofNs
  dsimp only
  omega

theorem valid_ofNs (n : Nat) : (ofNs n).Valid := by
  unfold Valid ofNs
  dsimp only
  omega

theorem ns_eq_zero {t : Timespec} (h : t.Valid) : t.ns = 0 ↔ t.tvSec = 0 ∧ t.tvNsec = 0 := by
  unfold Valid at h
  unfold ns
  omega

end Timespec

namespace Itimerspec

def Valid (s : Itimerspec) : Prop := s.itInterval.Valid ∧ s.itValue.Valid

instance (s : Itimerspec) : Decidable s.Valid := inferInstanceAs (Decidable (s.itInterval.Valid ∧ s.itValue.Valid))

/-- A zero value only with a zero interval. -/
def Normal (s : Itimerspec) : Prop :=
  s.itValue.tvSec = 0 ∧ s.itValue.tvNsec = 0 → s.itInterval.tvSec = 0 ∧ s.itInterval.tvNsec = 0

theorem repaired_normal (s : Itimerspec) : s.repaired.Normal := by
  unfold repaired Normal
  split
  · exact id
  · rename_i h; exact fun h' => absurd h' h

theorem zero_normal : zero.Normal := fun _ => ⟨rfl, rfl⟩

theorem Normal.ns {s : Itimerspec} (h : s.Normal) (hv : s.Valid) (h0 : s.itValue.ns = 0) :
    s.itInterval.ns = 0 :=
  (Timespec.ns_eq_zero hv.1).2 (h ((Timespec.ns_eq_zero hv.2).1 h0))

end Itimerspec

/-! ## Kernel timers -/

/-- A kernel timer: whether it is armed, the time to its next expiration, its interval; the setting
it was last programmed with, and the number of its expirations since. -/
structure KTimer where
  armed : Bool
  left : Nat
  interval : Nat
  programmed : Itimerspec
  fired : Nat
  deriving DecidableEq, Repr

namespace KTimer

/-- After `timerfd_create`. -/
def new : KTimer := ⟨false, 0, 0, zero, 0⟩

/-- After `timerfd_settime` with `s`: a zero value disarms the timer. -/
def arm (s : Itimerspec) : KTimer := ⟨decide (s.itValue.ns ≠ 0), s.itValue.ns, s.itInterval.ns, s, 0⟩

/-- The old setting: zero remaining time when the timer is disarmed, or armed and due. -/
def report (k : KTimer) : Itimerspec := ⟨.ofNs k.interval, .ofNs (if k.armed then k.left else 0)⟩

/-- `timerfd_settime`: the old setting and the new timer. -/
def settime (k : KTimer) (s : Itimerspec) : Except Errno (Itimerspec × KTimer) :=
  if s.Valid then .ok (k.report, arm s) else .error EINVAL

/-- Time passes; a timer that is due may have to wait for its expiration. -/
def elapse (k : KTimer) (d : Nat) : KTimer := { k with left := k.left - d }

/-- The expiration of a timer that is due; `next` is left to the one after it. -/
def expire (k : KTimer) (next : Nat) : KTimer :=
  if k.interval = 0 then { k with armed := false, fired := k.fired + 1 }
  else { k with left := next, fired := k.fired + 1 }

end KTimer

/-- The kernel timers, by descriptor numbers. -/
abbrev Kernel : Type := Int → Option KTimer

namespace Kernel

/-- The kernel after the call `q` with the answer `r`, if it may answer so. Any call may fail. -/
def answer (kern : Kernel) : (q : Call) → Answer q → Option Kernel
  | .timerfdCreate _ _, .ok n =>
    match kern n with
    | some _ => none
    | none => some (Function.update kern n (some .new))
  | .timerfdSettime fd _ new, .ok old =>
    match kern fd with
    | some k =>
      match k.settime new with
      -- a call that has no use for the old setting is answered with it all the same
      | .ok (o, k') => if old = o then some (Function.update kern fd (some k')) else none
      | .error _ => none
    | none => none
  | .timerfdCreate _ _, .error _ | .timerfdSettime _ _ _, .error _ => some kern

def answers (kern : Kernel) : List Event → Option Kernel
  | [] => some kern
  | e :: evs => (kern.answer e.1 e.2).bind fun kern' => kern'.answers evs

/-- The numbers that are open. -/
def out (kern : Kernel) : Set Int := {fd | kern fd ≠ none}

end Kernel

/-! ## Runs -/

inductive Op
  | settime (ts : Itimerspec)
  | start | pause | resume | stop
  deriving DecidableEq, Repr

def Op.exec : Op → TimerM Unit
  | settime ts => modify (Timers.settime ts)
  | start => Timers.start
  | pause => Timers.pause
  | resume => Timers.resume
  | stop => Timers.stop

/-- The live timers by their addresses, those of them that were moved from, and the kernel. -/
structure World where
  timers : Nat → Option Timer
  moved : Nat → Bool
  kernel : Kernel

def World.init : World := ⟨fun _ => none, fun _ => false, fun _ => none⟩

inductive Act
  | make (a : Nat) (ts : Option Itimerspec) (evs : List Event)
  | op (a : Nat) (o : Op) (evs : List Event) (r : Except SystemError Unit)
  | moveMake (a other : Nat)
  | moveAssign (this other : Nat)
  | destroy (a : Nat)
  | elapse (d : Nat)
  | expire (fd : Int)

inductive Step : World → Act → World → Prop
  | make {w : World} {a : Nat} {ts : Option Itimerspec} {evs : List Event} {r : Except SystemError Timer}
      {kern : Kernel} (ha : w.timers a = none) (hr : ((make ts).prog ()).Runs evs (r, ()))
      (hk : w.kernel.answers evs = some kern) :
      Step w (.make a ts evs) ⟨Function.update w.timers a r.toOption, Function.update w.moved a false, kern⟩
  | op {w : World} {a : Nat} {o : Op} {evs : List Event} {r : Except SystemError Unit} {t t' : Timer}
      {kern : Kernel} (ha : w.timers a = some t) (hr : (o.exec.prog t).Runs evs (r, t'))
      (hk : w.kernel.answers evs = some kern) :
      Step w (.op a o evs r) ⟨Function.update w.timers a (some t'), w.moved, kern⟩
  | moveMake {w : World} {a other : Nat} {t : Timer} (ha : w.timers a = none) (ho : w.timers other = some t)
      (hm : w.moved other = false) :
      Step w (.moveMake a other)
        ⟨Function.update (Function.update w.timers other (some (moveMake t).2)) a (some (moveMake t).1),
          Function.update (Function.update w.moved other true) a false, w.kernel⟩
  | moveAssign {w : World} {this other : Nat} {t u : Timer} (ht : w.timers this = some t)
      (ho : w.timers other = some u) (hm : w.moved other = false) :
      Step w (.moveAssign this other)
        ⟨Function.update (Function.update w.timers other (some (moveAssign t u).2)) this (some (moveAssign t u).1),
          Function.update (Function.update w.moved other true) this false, w.kernel⟩
  | destroy {w : World} {a : Nat} {t : Timer} (ha : w.timers a = some t) :
      Step w (.destroy a)
        ⟨Function.update w.timers a none, w.moved, if 0 ≤ t.fd then Function.update w.kernel t.fd none else w.kernel⟩
  | elapse {w : World} (d : Nat) :
      Step w (.elapse d) ⟨w.timers, w.moved, fun fd => (w.kernel fd).map fun k => k.elapse d⟩
  | expire {w : World} {fd : Int} {k : KTimer} {next : Nat} (hk : w.kernel fd = some k)
      (hdue : k.armed = true ∧ k.left = 0) (hnext : next ≤ k.interval) :
      Step w (.expire fd) ⟨w.timers, w.moved, Function.update w.kernel fd (some (k.expire next))⟩

/-! ## Playing a run -/

/-- What is to happen next; `n` is the answer to `timerfd_create`, `fail` the error of a
`timerfd_settime` that fails. -/
inductive Cue
  | make (a : Nat) (ts : Option Itimerspec) (n : Except Errno Nat)
  | op (a : Nat) (o : Op) (fail : Option Errno)
  | moveMake (a other : Nat)
  | moveAssign (this other : Nat)
  | destroy (a : Nat)
  | elapse (d : Nat)
  | expire (fd : Int) (next : Nat)

def Kernel.reply (kern : Kernel) (n : Except Errno Nat) (fail : Option Errno) : (q : Call) → Answer q
  | .timerfdCreate _ _ => n
  | .timerfdSettime fd _ new =>
    match fail, kern fd with
    | some e, _ => .error e
    | none, some k => (k.settime new).map Prod.fst
    | none, none => .error EBADF

def World.play (w : World) : Cue → Option (Act × World)
  | .make a ts n =>
    let run := ((Timers.make ts).prog ()).play (fun _ => w.kernel.reply n none) []
    if w.timers a = none then
      (w.kernel.answers run.1).map fun kern =>
        (.make a ts run.1, ⟨Function.update w.timers a run.2.1.toOption, Function.update w.moved a false, kern⟩)
    else none
  | .op a o fail =>
    (w.timers a).bind fun t =>
      let run := (o.exec.prog t).play (fun _ => w.kernel.reply (.error EINVAL) fail) []
      (w.kernel.answers run.1).map fun kern =>
        (.op a o run.1 run.2.1, ⟨Function.update w.timers a (some run.2.2), w.moved, kern⟩)
  | .moveMake a other =>
    if w.timers a = none ∧ w.moved other = false then
      (w.timers other).map fun t =>
        (.moveMake a other,
          ⟨Function.update (Function.update w.timers other (some (Timers.moveMake t).2)) a
            (some (Timers.moveMake t).1), Function.update (Function.update w.moved other true) a false, w.kernel⟩)
    else none
  | .moveAssign this other =>
    if w.moved other = false then
      (w.timers this).bind fun t => (w.timers other).map fun u =>
        (.moveAssign this other,
          ⟨Function.update (Function.update w.timers other (some (Timers.moveAssign t u).2)) this
            (some (Timers.moveAssign t u).1), Function.update (Function.update w.moved other true) this false, w.kernel⟩)
    else none
  | .destroy a =>
    (w.timers a).map fun t => (.destroy a, ⟨Function.update w.timers a none, w.moved,
      if 0 ≤ t.fd then Function.update w.kernel t.fd none else w.kernel⟩)
  | .elapse d => some (.elapse d, ⟨w.timers, w.moved, fun fd => (w.kernel fd).map fun k => k.elapse d⟩)
  | .expire fd next =>
    (w.kernel fd).bind fun k =>
      if (k.armed = true ∧ k.left = 0) ∧ next ≤ k.interval then
        some (.expire fd, ⟨w.timers, w.moved, Function.update w.kernel fd (some (k.expire next))⟩)
      else none

theorem play_step (w : World) (c : Cue) (p : Act × World) (h : w.play c = some p) : Step w p.1 p.2 := by
  cases c with
  | make a ts n =>
    obtain ⟨ha, h⟩ := Option.ite_none_right_eq_some.1 h
    obtain ⟨kern, hk, rfl⟩ := Option.map_eq_some_iff.1 h
    exact .make ha (Prog.play_runs _ _ _) hk
  | op a o fail =>
    obtain ⟨t, ha, h⟩ := Option.bind_eq_some_iff.1 h
    obtain ⟨kern, hk, rfl⟩ := Option.map_eq_some_iff.1 h
    exact .op ha (Prog.play_runs _ _ _) hk
  | moveMake a other =>
    obtain ⟨⟨ha, hm⟩, h⟩ := Option.ite_none_right_eq_some.1 h
    obtain ⟨t, ho, rfl⟩ := Option.map_eq_some_iff.1 h
    exact .moveMake ha ho hm
  | moveAssign this other =>
    obtain ⟨hm, h⟩ := Option.ite_none_right_eq_some.1 h
    obtain ⟨t, ht, h⟩ := Option.bind_eq_some_iff.1 h
    obtain ⟨u, ho, rfl⟩ := Option.map_eq_some_iff.1 h
    exact .moveAssign ht ho hm
  | destroy a =>
    obtain ⟨t, ha, rfl⟩ := Option.map_eq_some_iff.1 h
    exact .destroy ha
  | elapse d =>
    cases h
    exact .elapse d
  | expire fd next =>
    obtain ⟨k, hk, h⟩ := Option.bind_eq_some_iff.1 h
    obtain ⟨⟨hdue, hnext⟩, h⟩ := Option.ite_none_right_eq_some.1 h
    cases h
    exact .expire hk hdue hnext

end Fdcpp.Timers
