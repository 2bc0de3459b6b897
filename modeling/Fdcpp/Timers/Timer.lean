/-
`easy::timer`: its functions as programs over the calls of `timerfd`. The state of a program is the
timer it belongs to, and a `settime` of `timerfd` is answered with what the kernel stores in `old`.
-/
import Fdcpp.Lib.Prog
import Fdcpp.Util.Throw

namespace Fdcpp.Timers

/-! ## Data -/

structure Timespec where
  tvSec : Int
  tvNsec : Int
  deriving DecidableEq, Repr

structure Itimerspec where
  itInterval : Timespec
  itValue : Timespec
  deriving DecidableEq, Repr

inductive State
  | started | paused | stopped
  deriving DecidableEq, Repr

/-- A `timer`: `_fd`, `_spec`, `_remaining` and `_state`. -/
structure Timer where
  fd : Int
  spec : Itimerspec
  remaining : Itimerspec
  state : State
  deriving DecidableEq, Repr

/-! ## `timerfd` -/

inductive Call
  | timerfdCreate (clockid flags : Int)
  | timerfdSettime (fd flags : Int) (new : Itimerspec)
  deriving DecidableEq, Repr

/-- The new number, or the old setting; or the `errno` of the call. -/
abbrev Answer : Call → Type
  | .timerfdCreate _ _ => Except Errno Nat
  | .timerfdSettime _ _ _ => Except Errno Itimerspec

abbrev Event : Type := Ev Call Answer

abbrev TimerM : Type → Type := Eff Call Answer Timer SystemError

/-- The result of a call of `timerfd`. -/
def checked {σ α : Type} (func : String) : Except Errno α → Eff Call Answer σ SystemError α
  | .ok a => pure a
  | .error e => throw (throwSystemError "timerfd" func e)

/-- `timerfd::timerfd(clockid, flags)`: the new `_fd`. -/
def timerfdMake (clockid flags : Int) : Eff Call Answer Unit SystemError Nat :=
  Eff.call (Call.timerfdCreate clockid flags) >>= checked "timerfd()"

/-- `timerfd::settime(spec, old, flags)`, which returns `old`. -/
def timerfdSettimeOld (spec : Itimerspec) (flags : Int) : TimerM Itimerspec := do
  let fd := (← get).fd
  Eff.call (Call.timerfdSettime fd flags spec) >>= checked "settime()"

/-- `timerfd::settime(spec, flags)`. -/
def timerfdSettime (spec : Itimerspec) (flags : Int) : TimerM Unit := do
  let _ ← timerfdSettimeOld spec flags

/-! ## `timer` -/

/-- `CLOCK_MONOTONIC`. -/
def clockMonotonic : Int := 1

def zero : Itimerspec := ⟨⟨0, 0⟩, ⟨0, 0⟩⟩

def settime (ts : Itimerspec) (t : Timer) : Timer :=
  { t with spec :=
    { itInterval := ts.itInterval
      itValue := if ts.itValue.tvSec ≠ 0 ∨ ts.itValue.tvNsec ≠ 0 then ts.itValue else ts.itInterval } }

/-- `timer::timer()`, or `timer::timer(ts)`. -/
def make (ts : Option Itimerspec) : Eff Call Answer Unit SystemError Timer := do
  let fd ← timerfdMake clockMonotonic 0
  let t : Timer := ⟨fd, zero, zero, .stopped⟩
  pure (match ts with
    | none => t
    | some ts => settime ts t)

/-- `timer::timer(timer &&other)`: the new timer, and what is left of `other`. -/
def moveMake (other : Timer) : Timer × Timer :=
  (⟨other.fd, other.spec, other.remaining, other.state⟩, { other with fd := -1 })

/-- `timer::operator=(timer &&other)`: what becomes of the two timers. -/
def moveAssign (this other : Timer) : Timer × Timer :=
  (⟨other.fd, other.spec, other.remaining, other.state⟩, { other with fd := this.fd })

def start : TimerM Unit := do
  let t ← get
  if t.state ≠ .started then
    timerfdSettime t.spec 0
    modify fun t => { t with state := .started }

def pause : TimerM Unit := do
  let t ← get
  if t.state = .started then
    let old ← timerfdSettimeOld zero 0
    modify fun t => { t with remaining := old }
    modify fun t => { t with state := .paused }

def resume : TimerM Unit := do
  let t ← get
  if t.state = .paused then
    -- the timer had expired for good, or was due
    if t.remaining.itValue.tvSec = 0 ∧ t.remaining.itValue.tvNsec = 0 then
      modify fun t => { t with remaining := { t.remaining with itValue := t.remaining.itInterval } }
    timerfdSettime (← get).remaining 0
    modify fun t => { t with state := .started }

def stop : TimerM Unit := do
  let t ← get
  if t.state ≠ .stopped then
    timerfdSettime zero 0
    modify fun t => { t with state := .stopped }

/-! ## What they do -/

section Specs

variable {L : (q : Call) → Answer q → Prop} {t : Timer}

/-- A function that does nothing. -/
def Skips (t : Timer) (evs : List Event) (r : Except SystemError Unit) (t' : Timer) : Prop :=
  evs = [] ∧ r = .ok () ∧ t' = t

/-- A function that programs the kernel timer with `new`, and leaves `done old` when the call
returns `old`, or `failed` when it fails and the function throws. -/
def Programs (t : Timer) (new : Itimerspec) (failed : Timer) (done : Itimerspec → Timer) (evs : List Event)
    (r : Except SystemError Unit) (t' : Timer) : Prop :=
  (∃ old : Itimerspec, evs = [⟨.timerfdSettime t.fd 0 new, Except.ok old⟩] ∧ r = .ok () ∧ t' = done old) ∨
  (∃ e : Errno, evs = [⟨.timerfdSettime t.fd 0 new, Except.error e⟩] ∧
    r = .error (throwSystemError "timerfd" "settime()" e) ∧ t' = failed)

/-- The value that is programmed for `ts`: a zero value stands for the interval. -/
def Itimerspec.repaired (ts : Itimerspec) : Itimerspec :=
  if ts.itValue.tvSec = 0 ∧ ts.itValue.tvNsec = 0 then { ts with itValue := ts.itInterval } else ts

theorem settime_eq (ts : Itimerspec) (t : Timer) : settime ts t = { t with spec := ts.repaired } := by
  unfold settime Itimerspec.repaired
  by_cases h : ts.itValue.tvSec = 0 ∧ ts.itValue.tvNsec = 0
  · rw [if_pos h, if_neg (by tauto)]
  · rw [if_neg h, if_pos (by tauto)]

theorem sat_timerfdSettimeOld {spec : Itimerspec} {Post : List Event → Except SystemError Itimerspec → Timer → Prop}
    (hok : ∀ old : Itimerspec, Post [⟨.timerfdSettime t.fd 0 spec, Except.ok old⟩] (.ok old) t)
    (herr : ∀ e : Errno, Post [⟨.timerfdSettime t.fd 0 spec, Except.error e⟩]
      (.error (throwSystemError "timerfd" "settime()" e)) t) :
    Eff.Sat L (timerfdSettimeOld spec 0) t Post := by
  unfold timerfdSettimeOld
  rw [Eff.sat_get_bind, Eff.sat_bind, Eff.sat_call]
  intro r _
  cases r with
  | ok old => exact hok old
  | error e => exact herr e

theorem start_spec : Eff.Sat L start t (if t.state ≠ .started then
    Programs t t.spec t (fun _ => { t with state := .started }) else Skips t) := by
  unfold start timerfdSettime
  rw [Eff.sat_get_bind]
  by_cases h : t.state ≠ .started
  · rw [if_pos h, if_pos h, Eff.sat_bind, Eff.sat_bind]
    exact sat_timerfdSettimeOld (fun old => .inl ⟨old, rfl, rfl, rfl⟩) fun e => .inr ⟨e, rfl, rfl, rfl⟩
  · rw [if_neg h, if_neg h]
    exact ⟨rfl, rfl, rfl⟩

theorem pause_spec : Eff.Sat L pause t (if t.state = .started then
    Programs t zero t (fun old => { t with remaining := old, state := .paused }) else Skips t) := by
  unfold pause
  rw [Eff.sat_get_bind]
  by_cases h : t.state = .started
  · rw [if_pos h, if_pos h, Eff.sat_bind]
    exact sat_timerfdSettimeOld (fun old => .inl ⟨old, rfl, rfl, rfl⟩) fun e => .inr ⟨e, rfl, rfl, rfl⟩
  · rw [if_neg h, if_neg h]
    exact ⟨rfl, rfl, rfl⟩

theorem resume_spec : Eff.Sat L resume t (if t.state = .paused then
    Programs t t.remaining.repaired { t with remaining := t.remaining.repaired }
      (fun _ => { t with remaining := t.remaining.repaired, state := .started }) else Skips t) := by
  unfold resume timerfdSettime
  rw [Eff.sat_get_bind]
  by_cases h : t.state = .paused
  · rw [if_pos h, if_pos h]
    unfold Itimerspec.repaired
    by_cases h0 : t.remaining.itValue.tvSec = 0 ∧ t.remaining.itValue.tvNsec = 0
    · rw [if_pos h0, if_pos h0, Eff.sat_modify_bind, Eff.sat_get_bind, Eff.sat_bind, Eff.sat_bind]
      exact sat_timerfdSettimeOld (fun old => .inl ⟨old, rfl, rfl, rfl⟩) fun e => .inr ⟨e, rfl, rfl, rfl⟩
    · rw [if_neg h0, if_neg h0, Eff.sat_get_bind, Eff.sat_bind, Eff.sat_bind]
      exact sat_timerfdSettimeOld (fun old => .inl ⟨old, rfl, rfl, rfl⟩) fun e => .inr ⟨e, rfl, rfl, rfl⟩
  · rw [if_neg h, if_neg h]
    exact ⟨rfl, rfl, rfl⟩

theorem stop_spec : Eff.Sat L stop t (if t.state ≠ .stopped then
    Programs t zero t (fun _ => { t with state := .stopped }) else Skips t) := by
  unfold stop timerfdSettime
  rw [Eff.sat_get_bind]
  by_cases h : t.state ≠ .stopped
  · rw [if_pos h, if_pos h, Eff.sat_bind, Eff.sat_bind]
    exact sat_timerfdSettimeOld (fun old => .inl ⟨old, rfl, rfl, rfl⟩) fun e => .inr ⟨e, rfl, rfl, rfl⟩
  · rw [if_neg h, if_neg h]
    exact ⟨rfl, rfl, rfl⟩

end Specs

end Fdcpp.Timers
