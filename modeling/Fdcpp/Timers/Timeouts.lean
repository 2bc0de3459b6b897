/-
The counts that `timer::timeouts()` returns. A kernel timer counts its expirations since it was last
read or programmed; `pause` and `resume` program it. From a `start` on, every expiration is returned
by `timeouts`, can still be read, or had not been read when a `pause` stopped the timer.
-/
import Fdcpp.Records.Loop
import Fdcpp.Timers.Kernel

namespace Fdcpp.Timers

open Bytes Records

/-! ## The counter of the kernel -/

/-- `timer::timeouts()`, which is `timerfd::read()`, with the bytes `val` of its variable: the reads it
makes of the answers, and its result if they suffice. -/
def timeouts (val : List UInt8) (answers : List Records.Answer) :
    List (Nat × Records.Answer) × Option (Except SystemError Nat) :=
  match (⟨val, 0⟩ : Record).loop "idescriptor" answers with
  | (calls, .returned buf) => (calls, some (.ok (ofLE buf)))
  | (calls, .thrown e) => (calls, some (.error e))
  | (calls, .going _) => (calls, none)

/-- What the reads leave of the count `unread`, if the kernel may serve them so: a read of eight bytes
gets the count and clears it, and any read may fail. -/
def serve (unread : Nat) : List (Nat × Records.Answer) → Option Nat
  | [] => some unread
  | (size, .ok bs) :: calls =>
    if 8 ≤ size ∧ 0 < unread ∧ bs.length = 8 ∧ ofLE bs = unread then serve 0 calls else none
  | (_, .error _) :: calls => serve unread calls

/-- A timer with its kernel timer and the count of the expirations that have not been read. -/
structure Meter where
  timer : Timer
  kernel : KTimer
  unread : Nat
  deriving DecidableEq, Repr

/-- The kernel timer and the count after the calls and answers `evs`, if these may be its answers.
Any call may fail. -/
def program (k : KTimer) (unread : Nat) : List Event → Option (KTimer × Nat)
  | [] => some (k, unread)
  | ⟨.timerfdSettime _ _ new, .ok old⟩ :: evs =>
    match k.settime new with
    | .ok (o, k') => if old = o then program k' 0 evs else none
    | .error _ => none
  | ⟨.timerfdSettime _ _ _, .error _⟩ :: evs => program k unread evs
  | ⟨.timerfdCreate _ _, _⟩ :: _ => none

/-! ## Schedules -/

/-- `s` is the timer `t` right after it was started, from the stopped state. -/
structure Begins (t : Timer) (k : KTimer) (unread : Nat) (s : Meter) : Prop where
  stopped : t.state = .stopped
  run : ∃ evs, (start.prog t).Runs evs (.ok (), s.timer) ∧ program k unread evs = some (s.kernel, s.unread)

inductive MeterAct
  | pause (r : Except SystemError Unit)
  | resume (r : Except SystemError Unit)
  | timeouts (r : Except SystemError Nat)
  | elapse (d : Nat)
  | expire
  deriving DecidableEq, Repr

inductive MeterStep : Meter → MeterAct → Meter → Prop
  | pause {s : Meter} {evs : List Event} {r : Except SystemError Unit} {t' : Timer} {k' : KTimer} {u' : Nat}
      (hr : (pause.prog s.timer).Runs evs (r, t')) (hk : program s.kernel s.unread evs = some (k', u')) :
      MeterStep s (.pause r) ⟨t', k', u'⟩
  | resume {s : Meter} {evs : List Event} {r : Except SystemError Unit} {t' : Timer} {k' : KTimer} {u' : Nat}
      (hr : (resume.prog s.timer).Runs evs (r, t')) (hk : program s.kernel s.unread evs = some (k', u')) :
      MeterStep s (.resume r) ⟨t', k', u'⟩
  | timeouts {s : Meter} {val : List UInt8} {answers : List Records.Answer} {calls : List (Nat × Records.Answer)}
      {r : Except SystemError Nat} {u' : Nat} (hval : val.length = 8) (hu : 0 < s.unread)
      (hr : Timers.timeouts val answers = (calls, some r)) (hk : serve s.unread calls = some u') :
      MeterStep s (.timeouts r) { s with unread := u' }
  | elapse {s : Meter} (d : Nat) : MeterStep s (.elapse d) { s with kernel := s.kernel.elapse d }
  | expire {s : Meter} {next : Nat} (hdue : s.kernel.armed = true ∧ s.kernel.left = 0)
      (hnext : next ≤ s.kernel.interval) :
      MeterStep s .expire { s with kernel := s.kernel.expire next, unread := s.unread + 1 }

/-- The count that a step returns. -/
def counted (_ : Meter) (a : MeterAct) (_ : Meter) : Nat :=
  match a with
  | .timeouts (.ok n) => n
  | _ => 0

/-- The expirations in a step. -/
def expirations (_ : Meter) (a : MeterAct) (_ : Meter) : Nat :=
  match a with
  | .expire => 1
  | _ => 0

/-- The count that had not been read when a step paused the running timer. -/
def dropped (s : Meter) (a : MeterAct) (_ : Meter) : Nat :=
  match a with
  | .pause (.ok ()) => if s.timer.state = .started then s.unread else 0
  | _ => 0

/-! ## The balance -/

/-- A paused timer has no expirations, and none that could be read. -/
structure MeterInv (s : Meter) : Prop where
  disarmed : s.timer.state = .paused → s.kernel.armed = false
  unread : s.timer.state = .paused → s.unread = 0

section Balance

variable {s s' : Meter} {k k' : KTimer} {u u' : Nat} {new old : Itimerspec} {fd flags : Int}

theorem program_ok (h : program k u [⟨.timerfdSettime fd flags new, Except.ok old⟩] = some (k', u')) :
    k' = .arm new ∧ u' = 0 := by
  unfold program KTimer.settime at h
  split_ifs at h
  dsimp only at h
  split_ifs at h
  rw [program] at h
  cases h
  exact ⟨rfl, rfl⟩

/-- A function that programs the kernel timer clears the count, or throws and leaves it. -/
theorem Programs.program {t t' failed : Timer} {done : Itimerspec → Timer} {evs : List Event}
    {r : Except SystemError Unit} (h : Programs t new failed done evs r t') (hk : program k u evs = some (k', u')) :
    (∃ old, r = .ok () ∧ t' = done old ∧ k' = .arm new ∧ u' = 0) ∨
    (∃ e, r = .error e ∧ t' = failed ∧ k' = k ∧ u' = u) := by
  rcases h with ⟨old, rfl, hr, ht⟩ | ⟨e, rfl, hr, ht⟩
  · left
    exact ⟨old, hr, ht, program_ok hk⟩
  · right
    cases hk
    exact ⟨_, hr, ht, rfl, rfl⟩

theorem timeouts_calls (val : List UInt8) (answers : List Records.Answer) :
    (timeouts val answers).1 = ((⟨val, 0⟩ : Record).loop "idescriptor" answers).1 := by
  unfold timeouts
  split
  all_goals
    rename_i h
    rw [h]

/-- `timeouts` returns the count and clears it, or throws and leaves it. -/
theorem timeouts_spec {val : List UInt8} {answers : List Records.Answer} {calls : List (Nat × Records.Answer)}
    {r : Except SystemError Nat} (hval : val.length = 8) (hr : timeouts val answers = (calls, some r))
    (hk : serve u calls = some u') : (r = .ok u ∧ u' = 0) ∨ ((∃ e, r = .error e) ∧ u' = u) := by
  cases answers with
  | nil => cases hr
  | cons a as =>
    obtain ⟨calls', hcalls⟩ := loop_calls "idescriptor" ⟨val, 0⟩ a as
    cases a with
    | error e =>
      rw [timeouts, loop_error] at hr
      cases hr
      rw [serve, serve] at hk
      cases hk
      exact .inr ⟨⟨_, rfl⟩, rfl⟩
    | ok bs =>
      have hserved : bs.length = 8 ∧ ofLE bs = u := by
        rw [← timeouts_calls, hr] at hcalls
        rw [show calls = _ from hcalls, serve] at hk
        split_ifs at hk with h
        exact h.2.2
      obtain ⟨hlen, hcount⟩ := hserved
      rw [timeouts, loop_whole (by rw [hlen, hval])] at hr
      cases hr
      rw [serve, serve] at hk
      split_ifs at hk
      cases hk
      exact .inl ⟨by rw [hcount], rfl⟩

/-- Nothing is lost in a step but what a pause drops. -/
theorem meterStep_balance {a : MeterAct} (h : MeterStep s a s') (hi : MeterInv s) :
    MeterInv s' ∧ counted s a s' + dropped s a s' + s'.unread = s.unread + expirations s a s' := by
  cases h with
  | @pause evs r t' k' u' hr hk =>
    have hs := Eff.sat_iff_runs.1 (pause_spec (L := fun _ _ => True)) _ _ _ hr fun _ _ => trivial
    by_cases hst : s.timer.state = .started
    · rw [if_pos hst] at hs
      rcases hs.program hk with ⟨old, rfl, rfl, rfl, rfl⟩ | ⟨e, rfl, rfl, rfl, rfl⟩
      · refine ⟨⟨fun _ => rfl, fun _ => rfl⟩, ?_⟩
        simp [counted, dropped, expirations, hst]
      · exact ⟨hi, by simp [counted, dropped, expirations]⟩
    · rw [if_neg hst] at hs
      obtain ⟨rfl, rfl, rfl⟩ := hs
      cases hk
      exact ⟨hi, by simp [counted, dropped, expirations, hst]⟩
  | @resume evs r t' k' u' hr hk =>
    have hs := Eff.sat_iff_runs.1 (resume_spec (L := fun _ _ => True)) _ _ _ hr fun _ _ => trivial
    by_cases hst : s.timer.state = .paused
    · rw [if_pos hst] at hs
      rcases hs.program hk with ⟨old, rfl, rfl, rfl, rfl⟩ | ⟨e, rfl, rfl, rfl, rfl⟩
      · refine ⟨⟨nofun, nofun⟩, ?_⟩
        simp [counted, dropped, expirations, hi.unread hst]
      · exact ⟨⟨hi.disarmed, hi.unread⟩, by simp [counted, dropped, expirations]⟩
    · rw [if_neg hst] at hs
      obtain ⟨rfl, rfl, rfl⟩ := hs
      cases hk
      exact ⟨hi, by simp [counted, dropped, expirations]⟩
  | timeouts hval hu hr hk =>
    rcases timeouts_spec hval hr hk with ⟨rfl, rfl⟩ | ⟨⟨e, rfl⟩, rfl⟩
    · exact ⟨⟨hi.disarmed, fun _ => rfl⟩, by simp [counted, dropped, expirations]⟩
    · exact ⟨⟨hi.disarmed, hi.unread⟩, by simp [counted, dropped, expirations]⟩
  | elapse d => exact ⟨⟨hi.disarmed, hi.unread⟩, by simp [counted, dropped, expirations]⟩
  | @expire next hdue hnext =>
    have hne : s.timer.state ≠ .paused := by
      intro hst
      rw [hi.disarmed hst] at hdue
      cases hdue.1
    exact ⟨⟨fun hst => absurd hst hne, fun hst => absurd hst hne⟩, by simp [counted, dropped, expirations]⟩

theorem begins_inv {t : Timer} (h : Begins t k u s) : MeterInv s ∧ s.unread = 0 := by
  obtain ⟨hst, evs, hr, hk⟩ := h
  have hs := Eff.sat_iff_runs.1 (start_spec (L := fun _ _ => True)) _ _ _ hr fun _ _ => trivial
  rw [if_pos (by rw [hst]; decide)] at hs
  rcases hs.program hk with ⟨old, -, htimer, -, hzero⟩ | ⟨e, hok, -⟩
  · have hne : s.timer.state ≠ .paused := by simp [htimer]
    exact ⟨⟨fun h => absurd h hne, fun h => absurd h hne⟩, hzero⟩
  · cases hok

end Balance

/-- Under any schedule after a `start` from the stopped state, the counts that `timeouts` has returned,
the count that can still be read and the counts that had not been read when a `pause` stopped the timer
add up to the expirations. -/
theorem timeouts_balance {t : Timer} {k : KTimer} {unread : Nat} {s : Meter} (hs : Begins t k unread s)
    (r : List (MeterAct × Meter)) (h : Run.Chain MeterStep s r) :
    Run.total counted s r + (Run.last s r).unread + Run.total dropped s r = Run.total expirations s r := by
  obtain ⟨hinv, hzero⟩ := begins_inv hs
  have hbal := h.total_balance (fun s a s' => counted s a s' + dropped s a s') expirations Meter.unread
    (fun _ _ _ h hi => meterStep_balance h hi) hinv
  rw [Run.total_add, hzero, Nat.zero_add] at hbal
  omega

/-! ## Playing a schedule -/

/-- What is to happen next; every call succeeds. -/
inductive MeterCue
  | pause | resume | timeouts
  | elapse (d : Nat)
  | expire (next : Nat)

def Meter.reply (s : Meter) (_ : List Event) : (q : Call) → Answer q :=
  Kernel.reply (fun _ => some s.kernel) (.error EINVAL) none

def Meter.play (s : Meter) : MeterCue → Option (MeterAct × Meter)
  | .pause =>
    let run := (Timers.pause.prog s.timer).play s.reply []
    (program s.kernel s.unread run.1).map fun p => (.pause run.2.1, ⟨run.2.2, p.1, p.2⟩)
  | .resume =>
    let run := (Timers.resume.prog s.timer).play s.reply []
    (program s.kernel s.unread run.1).map fun p => (.resume run.2.1, ⟨run.2.2, p.1, p.2⟩)
  | .timeouts =>
    let run := Timers.timeouts (List.replicate 8 0) [.ok (toLE 8 s.unread)]
    if 0 < s.unread then
      run.2.bind fun r => (serve s.unread run.1).map fun u => (.timeouts r, { s with unread := u })
    else none
  | .elapse d => some (.elapse d, { s with kernel := s.kernel.elapse d })
  | .expire next =>
    if (s.kernel.armed = true ∧ s.kernel.left = 0) ∧ next ≤ s.kernel.interval then
      some (.expire, { s with kernel := s.kernel.expire next, unread := s.unread + 1 })
    else none

theorem meter_play_step (s : Meter) (c : MeterCue) (p : MeterAct × Meter) (h : s.play c = some p) :
    MeterStep s p.1 p.2 := by
  cases c with
  | pause =>
    obtain ⟨q, hk, rfl⟩ := Option.map_eq_some_iff.1 h
    exact .pause (Prog.play_runs _ _ _) hk
  | resume =>
    obtain ⟨q, hk, rfl⟩ := Option.map_eq_some_iff.1 h
    exact .resume (Prog.play_runs _ _ _) hk
  | timeouts =>
    obtain ⟨hu, h⟩ := Option.ite_none_right_eq_some.1 h
    obtain ⟨r, hr, h⟩ := Option.bind_eq_some_iff.1 h
    obtain ⟨u, hk, rfl⟩ := Option.map_eq_some_iff.1 h
    exact .timeouts (by simp) hu (Prod.ext rfl hr) hk
  | elapse d =>
    cases h
    exact .elapse d
  | expire next =>
    obtain ⟨⟨hdue, hnext⟩, h⟩ := Option.ite_none_right_eq_some.1 h
    cases h
    exact .expire hdue hnext

/-- A timer that expires every three nanoseconds, right after its `start`. -/
def threes : Meter :=
  ⟨⟨3, ⟨⟨0, 3⟩, ⟨0, 3⟩⟩, zero, .started⟩, .arm ⟨⟨0, 3⟩, ⟨0, 3⟩⟩, 0⟩

theorem threes_begins : Begins ⟨3, ⟨⟨0, 3⟩, ⟨0, 3⟩⟩, zero, .stopped⟩ .new 0 threes :=
  ⟨rfl, _, Prog.play_runs (fun _ => Kernel.reply (fun _ => some .new) (.error EINVAL) none) _ [], rfl⟩

/-- Two expirations are read, the third is not when the timer is paused, the fourth can be. -/
theorem timeouts_balance_threes : ∃ r, Run.Chain MeterStep threes r ∧ (Run.last threes r).unread = 1 ∧
    Run.total counted threes r + (Run.last threes r).unread + Run.total dropped threes r =
      Run.total expirations threes r := by
  have hplays : (Run.plays Meter.play threes [.elapse 3, .expire 3, .elapse 3, .expire 3, .timeouts, .elapse 4, .expire 2,
      .pause, .elapse 9, .resume, .elapse 2, .expire 3]).map (fun r => (Run.last threes r).unread) = some 1 := by
    decide +kernel
  obtain ⟨r, hr, hlast⟩ := Option.map_eq_some_iff.1 hplays
  have h := Run.plays_chain _ meter_play_step hr
  exact ⟨r, h, hlast, timeouts_balance threes_begins r h⟩

/-- An expiration that nobody has read when the timer is paused is lost. -/
theorem pause_drops : ∃ t k unread s r, Begins t k unread s ∧ Run.Chain MeterStep s r ∧
    Run.total counted s r + (Run.last s r).unread = 0 ∧ Run.total expirations s r = 1 := by
  have hplays : (Run.plays Meter.play threes [.elapse 3, .expire 3, .pause, .resume]).map (fun r =>
      (Run.total counted threes r + (Run.last threes r).unread, Run.total expirations threes r)) = some (0, 1) := by
    decide +kernel
  obtain ⟨r, hr, htotal⟩ := Option.map_eq_some_iff.1 hplays
  exact ⟨_, _, _, threes, r, threes_begins, Run.plays_chain _ meter_play_step hr,
    congrArg Prod.fst htotal, congrArg Prod.snd htotal⟩

end Fdcpp.Timers
