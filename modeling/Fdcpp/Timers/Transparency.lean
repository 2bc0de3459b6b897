/-
Pausing a `timer` is transparent: between a `start` from the stopped state and the next `stop`, in
the time that the timer spends started, it expires exactly when a timer that is never paused would.
The kernel timer is exact here: it expires in the nanosecond in which it is due, and reports the time
that is left. At each moment that time is `dueIn`, in the kernel timer of a started timer and in
`_remaining` of a paused one.
-/
import Fdcpp.Lib.Periodic
import Fdcpp.Timers.Kernel

namespace Fdcpp.Timers

open Periodic

/-! ## An exact kernel timer -/

namespace KTimer

/-- One nanosecond passes, and an expiration that is due takes place; whether one did. -/
def tick (k : KTimer) : KTimer × Bool :=
  let k := k.elapse 1
  if k.armed = true ∧ k.left = 0 then (k.expire k.interval, true) else (k, false)

/-- The timer after the calls and answers `evs`, if these are its answers. -/
def answers (k : KTimer) : List Event → Option KTimer
  | [] => some k
  | ⟨.timerfdSettime _ _ new, r⟩ :: evs =>
    match k.settime new, r with
    | .ok (o, k'), .ok old => if old = o then k'.answers evs else none
    | .error e, .error e' => if e' = e then k.answers evs else none
    | _, _ => none
  | ⟨.timerfdCreate _ _, _⟩ :: _ => none

end KTimer

/-! ## One timer -/

/-- A timer with its kernel timer; the time it has spent started since its `start`, and the times,
so counted, at which it has expired. -/
structure Solo where
  timer : Timer
  kernel : KTimer
  running : Nat
  expired : List Nat

/-- `s` is the timer `t` right after it was started, from the stopped state. -/
structure Starts (t : Timer) (k : KTimer) (s : Solo) : Prop where
  stopped : t.state = .stopped
  run : ∃ evs, (start.prog t).Runs evs (.ok (), s.timer) ∧ k.answers evs = some s.kernel
  running : s.running = 0
  expired : s.expired = []

/-- What may be called before the next `stop`: a `start` only while the timer is started. -/
def Scheduled (t : Timer) : Op → Prop
  | .settime _ | .pause | .resume => True
  | .start => t.state = .started
  | .stop => False

inductive SoloAct
  | tick
  | op (o : Op) (r : Except SystemError Unit)

/-- A nanosecond of `s`. -/
def Solo.tick (s : Solo) : Solo :=
  let running := if s.timer.state = .started then s.running + 1 else s.running
  { timer := s.timer
    kernel := s.kernel.tick.1
    running := running
    expired := if s.kernel.tick.2 then s.expired ++ [running] else s.expired }

inductive SoloStep : Solo → SoloAct → Solo → Prop
  | tick {s : Solo} : SoloStep s .tick s.tick
  | op {s : Solo} {o : Op} {evs : List Event} {r : Except SystemError Unit} {t' : Timer} {k' : KTimer}
      (ho : Scheduled s.timer o) (hr : (o.exec.prog s.timer).Runs evs (r, t')) (hk : s.kernel.answers evs = some k') :
      SoloStep s (.op o r) { s with timer := t', kernel := k' }

/-- The first expiration that `ts` asks for: its value, or its interval if that is zero. -/
def first (ts : Itimerspec) : Nat := if ts.itValue.ns ≠ 0 then ts.itValue.ns else ts.itInterval.ns

/-! ## Playing a schedule -/

def KTimer.reply (k : KTimer) : (q : Call) → Answer q
  | .timerfdCreate _ _ => .error EINVAL
  | .timerfdSettime _ _ new => (k.settime new).map Prod.fst

instance (t : Timer) : ∀ o : Op, Decidable (Scheduled t o)
  | .settime _ | .pause | .resume => .isTrue trivial
  | .start => inferInstanceAs (Decidable (t.state = .started))
  | .stop => .isFalse id

/-- A nanosecond, or an operation. -/
def Solo.play (s : Solo) : Option Op → Option (SoloAct × Solo)
  | none => some (.tick, s.tick)
  | some o =>
    let run := (o.exec.prog s.timer).play (fun _ => s.kernel.reply) []
    if Scheduled s.timer o then
      (s.kernel.answers run.1).map fun k' => (.op o run.2.1, { s with timer := run.2.2, kernel := k' })
    else none

theorem solo_play_step (s : Solo) (c : Option Op) (p : SoloAct × Solo) (h : s.play c = some p) :
    SoloStep s p.1 p.2 := by
  cases c with
  | none =>
    cases h
    exact .tick
  | some o =>
    obtain ⟨ho, h⟩ := Option.ite_none_right_eq_some.1 h
    obtain ⟨k', hk, rfl⟩ := Option.map_eq_some_iff.1 h
    exact .op ho (Prog.play_runs _ _ _) hk

/-! ## The kernel timer of a started timer -/

/-- The kernel timer has `d` left, with the interval `i`; it is disarmed if `d` is zero. -/
structure Ready (k : KTimer) (d i : Nat) : Prop where
  armed : k.armed = decide (d ≠ 0)
  left : d ≠ 0 → k.left = d
  interval : k.interval = i

section Ready

variable {k k' : KTimer} {d v i t : Nat} {s old : Itimerspec}

theorem Ready.report (h : Ready k d i) : k.report = ⟨.ofNs i, .ofNs d⟩ := by
  unfold KTimer.report
  rw [h.interval, h.armed]
  by_cases hd : d = 0
  · subst hd; rfl
  · rw [if_pos (decide_eq_true hd), h.left hd]

theorem arm_ready (s : Itimerspec) : Ready (.arm s) s.itValue.ns s.itInterval.ns := ⟨rfl, fun _ => rfl, rfl⟩

/-- A disarmed timer lets time pass. -/
theorem tick_of_disarmed (h : k.armed = false) : k.tick = (k.elapse 1, false) := by
  refine if_neg ?_
  rintro ⟨harm, -⟩
  rw [show (k.elapse 1).armed = k.armed from rfl, h] at harm
  cases harm

theorem Ready.tick (h : Ready k (dueIn v i t) i) :
    Ready k.tick.1 (dueIn v i (t + 1)) i ∧ k.tick.2 = decide (IsExpiry v i (t + 1)) := by
  by_cases h0 : dueIn v i t = 0
  · obtain ⟨hi, hex, hnext⟩ := dueIn_zero h0
    -- the one shot has been fired
    have harm : k.armed = false := by rw [h.armed, h0]; rfl
    rw [tick_of_disarmed harm, hnext]
    exact ⟨⟨harm, fun hn => absurd rfl hn, h.interval⟩, (decide_eq_false hex).symm⟩
  · unfold KTimer.tick
    dsimp only
    have harm : (k.elapse 1).armed = true := by
      rw [show (k.elapse 1).armed = k.armed from rfl, h.armed]; exact decide_eq_true h0
    have hleft : (k.elapse 1).left = dueIn v i t - 1 := by
      rw [← h.left h0]; rfl
    by_cases h1 : dueIn v i t = 1
    · obtain ⟨hex, hnext⟩ := dueIn_one h1
      rw [if_pos ⟨harm, by omega⟩, hnext]
      refine ⟨?_, (decide_eq_true hex).symm⟩
      unfold KTimer.expire
      have hint : (k.elapse 1).interval = i := h.interval
      rw [hint]
      by_cases hi : i = 0
      · subst hi
        rw [if_pos rfl]
        exact ⟨rfl, fun hn => absurd rfl hn, rfl⟩
      · rw [if_neg hi]
        exact ⟨by rw [decide_eq_true hi]; exact harm, fun _ => rfl, rfl⟩
    · obtain ⟨hex, hnext⟩ := dueIn_more (show 1 < dueIn v i t by omega)
      rw [if_neg (by omega), hnext]
      refine ⟨⟨?_, fun _ => hleft, h.interval⟩, (decide_eq_false hex).symm⟩
      rw [decide_eq_true (show dueIn v i t - 1 ≠ 0 by omega)]
      exact harm

end Ready

/-! ## Schedules -/

/-- Where the time that is left is kept. -/
inductive Keeps (d i : Nat) (s : Solo) : Prop
  | started (hst : s.timer.state = .started) (hk : Ready s.kernel d i)
  | paused (hst : s.timer.state = .paused) (hk : s.kernel.armed = false)
      (hrem : s.timer.remaining = ⟨.ofNs i, .ofNs d⟩)

structure SoloInv (v i : Nat) (s : Solo) : Prop where
  expired : s.expired = expiries v i s.running
  keeps : Keeps (dueIn v i s.running) i s

section Schedules

variable {s s' : Solo} {v i : Nat} {k k' : KTimer} {new old : Itimerspec} {fd flags : Int}

theorem answers_settime (h : k.answers [⟨.timerfdSettime fd flags new, Except.ok old⟩] = some k') :
    k.settime new = .ok (old, k') := by
  unfold KTimer.answers at h
  split at h
  · rename_i o k₁ old' hs ho
    split at h
    · rename_i he
      cases h
      cases ho
      rw [hs, he]
    · cases h
  · rename_i hs ho; cases ho
  · cases h

theorem answers_error {e : Errno} (h : k.answers [⟨.timerfdSettime fd flags new, Except.error e⟩] = some k') :
    ¬ new.Valid := by
  intro hv
  unfold KTimer.answers KTimer.settime at h
  rw [if_pos hv] at h
  cases h

theorem settime_ok (h : k.settime new = .ok (old, k')) : new.Valid ∧ old = k.report ∧ k' = .arm new := by
  unfold KTimer.settime at h
  split at h
  · rename_i hv
    cases h
    exact ⟨hv, rfl, rfl⟩
  · cases h

/-- What is left of a paused timer needs no repair: the value is zero only when the interval is. -/
theorem repaired_left {t : Nat} : (⟨.ofNs i, .ofNs (dueIn v i t)⟩ : Itimerspec).repaired = ⟨.ofNs i, .ofNs (dueIn v i t)⟩ := by
  unfold Itimerspec.repaired
  split
  · rename_i h0
    have hd : dueIn v i t = 0 := by
      rw [← Timespec.ns_ofNs (dueIn v i t)]
      exact (Timespec.ns_eq_zero (Timespec.valid_ofNs _)).2 h0
    rw [hd, (dueIn_zero hd).1]
  · rfl

theorem valid_left (d i : Nat) : (⟨.ofNs i, .ofNs d⟩ : Itimerspec).Valid :=
  ⟨Timespec.valid_ofNs i, Timespec.valid_ofNs d⟩

theorem tick_inv (h : SoloInv v i s) : SoloInv v i s.tick := by
  cases h.keeps with
  | started hst hk =>
    obtain ⟨hready, hfired⟩ := hk.tick
    have hrun : s.tick.running = s.running + 1 := if_pos hst
    refine ⟨?_, .started hst (by rw [hrun]; exact hready)⟩
    rw [hrun, expiries_succ, ← h.expired]
    show (if s.kernel.tick.2 then s.expired ++ [s.tick.running] else s.expired) = _
    rw [hfired, hrun]
    by_cases hex : IsExpiry v i (s.running + 1)
    · rw [if_pos hex, if_pos (decide_eq_true hex)]
    · rw [if_neg hex, if_neg (by rwa [decide_eq_true_iff]), List.append_nil]
  | paused hst hk hrem =>
    have hne : s.timer.state ≠ .started := by rw [hst]; decide
    have hrun : s.tick.running = s.running := if_neg hne
    -- neither the running time nor the kernel timer moves
    have htick : s.kernel.tick = (s.kernel.elapse 1, false) := tick_of_disarmed hk
    refine ⟨?_, .paused hst ?_ (by rw [hrun]; exact hrem)⟩
    · show (if s.kernel.tick.2 then s.expired ++ [s.tick.running] else s.expired) = _
      rw [htick, hrun]
      exact h.expired
    · show s.kernel.tick.1.armed = false
      rw [htick]
      exact hk

theorem skips_inv {evs : List Event} {r : Except SystemError Unit} {t' : Timer} (h : SoloInv v i s)
    (hskip : Skips s.timer evs r t') (hk : s.kernel.answers evs = some k') :
    SoloInv v i { s with timer := t', kernel := k' } ∧ r = .ok () := by
  obtain ⟨rfl, rfl, rfl⟩ := hskip
  cases hk
  exact ⟨h, rfl⟩

/-- A pause takes the time that is left out of the kernel timer. -/
theorem pause_inv {evs : List Event} {r : Except SystemError Unit} {t' : Timer} (h : SoloInv v i s)
    (hr : (pause.prog s.timer).Runs evs (r, t')) (hk : s.kernel.answers evs = some k') :
    SoloInv v i { s with timer := t', kernel := k' } ∧ r = .ok () := by
  have hs := Eff.sat_iff_runs.1 (pause_spec (L := fun _ _ => True)) _ _ _ hr fun _ _ => trivial
  cases h.keeps with
  | started hst hready =>
    rw [if_pos hst] at hs
    rcases hs with ⟨old, rfl, rfl, rfl⟩ | ⟨e, rfl, -⟩
    · obtain ⟨-, hold, rfl⟩ := settime_ok (answers_settime hk)
      -- what the kernel reports goes into `_remaining`
      rw [hready.report] at hold
      exact ⟨⟨h.expired, .paused rfl rfl hold⟩, rfl⟩
    · exact absurd (by decide) (answers_error hk)
  | paused hst _ _ =>
    rw [if_neg (by rw [hst]; decide)] at hs
    exact skips_inv h hs hk

/-- A resume puts it back. -/
theorem resume_inv {evs : List Event} {r : Except SystemError Unit} {t' : Timer} (h : SoloInv v i s)
    (hr : (resume.prog s.timer).Runs evs (r, t')) (hk : s.kernel.answers evs = some k') :
    SoloInv v i { s with timer := t', kernel := k' } ∧ r = .ok () := by
  have hs := Eff.sat_iff_runs.1 (resume_spec (L := fun _ _ => True)) _ _ _ hr fun _ _ => trivial
  cases h.keeps with
  | started hst _ =>
    rw [if_neg (by rw [hst]; decide)] at hs
    exact skips_inv h hs hk
  | paused hst _ hrem =>
    rw [if_pos hst, hrem, repaired_left] at hs
    rcases hs with ⟨old, rfl, rfl, rfl⟩ | ⟨e, rfl, -⟩
    · obtain ⟨-, -, rfl⟩ := settime_ok (answers_settime hk)
      have hready := arm_ready ⟨.ofNs i, .ofNs (dueIn v i s.running)⟩
      rw [Timespec.ns_ofNs, Timespec.ns_ofNs] at hready
      exact ⟨⟨h.expired, .started rfl hready⟩, rfl⟩
    · exact absurd (valid_left _ _) (answers_error hk)

theorem settime_inv {ts : Itimerspec} {evs : List Event} {r : Except SystemError Unit} {t' : Timer}
    (h : SoloInv v i s) (hr : ((Op.settime ts).exec.prog s.timer).Runs evs (r, t'))
    (hk : s.kernel.answers evs = some k') : SoloInv v i { s with timer := t', kernel := k' } ∧ r = .ok () := by
  have hs : Eff.Sat (fun _ _ => True) (Op.settime ts).exec s.timer fun evs r t' =>
      evs = [] ∧ r = .ok () ∧ t' = settime ts s.timer := ⟨rfl, rfl, rfl⟩
  obtain ⟨rfl, rfl, rfl⟩ := Eff.sat_iff_runs.1 hs _ _ _ hr fun _ _ => trivial
  cases hk
  refine ⟨⟨h.expired, ?_⟩, rfl⟩
  cases h.keeps with
  | started hst hready => exact .started hst hready
  | paused hst harm hrem => exact .paused hst harm hrem

/-- A step keeps the invariant, and no operation throws. -/
theorem soloStep_inv {a : SoloAct} (h : SoloStep s a s') (hi : SoloInv v i s) :
    SoloInv v i s' ∧ ∀ o r, a = .op o r → r = .ok () := by
  cases h with
  | tick => exact ⟨tick_inv hi, nofun⟩
  | @op o evs r t' k' ho hr hk =>
    have hboth : SoloInv v i { s with timer := t', kernel := k' } ∧ r = .ok () := by
      cases o with
      | settime ts => exact settime_inv hi hr hk
      | start =>
        have hs := Eff.sat_iff_runs.1 (start_spec (L := fun _ _ => True)) _ _ _ hr fun _ _ => trivial
        rw [if_neg (not_not.2 (show s.timer.state = .started from ho))] at hs
        exact skips_inv hi hs hk
      | pause => exact pause_inv hi hr hk
      | resume => exact resume_inv hi hr hk
      | stop => exact ho.elim
    refine ⟨hboth.1, ?_⟩
    rintro o r ⟨⟩
    exact hboth.2

/-- What `start` programs for the setting `ts`. -/
theorem repaired_first {ts : Itimerspec} (hv : ts.repaired.Valid) :
    ts.repaired.itValue.ns = first ts ∧ ts.repaired.itInterval = ts.itInterval := by
  unfold Itimerspec.repaired first at *
  by_cases h0 : ts.itValue.tvSec = 0 ∧ ts.itValue.tvNsec = 0
  · have hns : ts.itValue.ns = 0 := by
      unfold Timespec.ns
      rw [h0.1, h0.2]
      rfl
    rw [if_pos h0, if_neg (not_not.2 hns)]
    exact ⟨rfl, rfl⟩
  · rw [if_neg h0] at hv ⊢
    rw [if_pos fun hns => h0 ((Timespec.ns_eq_zero hv.2).1 hns)]
    exact ⟨rfl, rfl⟩

theorem starts_inv {t : Timer} {ts : Itimerspec} (h : Starts (settime ts t) k s) (hne : first ts ≠ 0) :
    SoloInv (first ts) ts.itInterval.ns s := by
  obtain ⟨hst, ⟨evs, hr, hk⟩, hrun, hexp⟩ := h
  have hs := Eff.sat_iff_runs.1 (start_spec (L := fun _ _ => True)) _ _ _ hr fun _ _ => trivial
  rw [if_pos (by rw [hst]; decide)] at hs
  rcases hs with ⟨old, rfl, -, htimer⟩ | ⟨e, -, hok, -⟩
  · obtain ⟨hv, -, hkernel⟩ := settime_ok (answers_settime hk)
    rw [settime_eq] at hv hkernel
    obtain ⟨hvalue, hint⟩ := repaired_first hv
    have hready := arm_ready ts.repaired
    rw [hvalue, hint, ← hkernel] at hready
    have hdue : dueIn (first ts) ts.itInterval.ns 0 = first ts := if_pos (Nat.pos_of_ne_zero hne)
    refine ⟨?_, .started (by rw [htimer]) ?_⟩
    · rw [hexp, hrun, expiries_zero (Nat.pos_of_ne_zero hne)]
    · rw [hrun, hdue]
      exact hready
  · cases hok

/-- One call of `timerfd_settime` at most. -/
def OneCall (evs : List Event) : Prop := evs = [] ∨ ∃ fd new r, evs = [⟨.timerfdSettime fd 0 new, r⟩]

theorem Programs.oneCall {t t' failed : Timer} {done : Itimerspec → Timer} {evs : List Event}
    {r : Except SystemError Unit} (h : Programs t new failed done evs r t') : OneCall evs := by
  rcases h with ⟨old, rfl, -⟩ | ⟨e, rfl, -⟩
  · exact .inr ⟨_, _, _, rfl⟩
  · exact .inr ⟨_, _, _, rfl⟩

theorem op_oneCall {L : (q : Call) → Answer q → Prop} (t : Timer) (o : Op) :
    Eff.Sat L o.exec t fun evs _ _ => OneCall evs := by
  cases o with
  | settime ts => exact .inl rfl
  | start =>
    refine start_spec.mono fun evs r t' _ h => ?_
    split at h
    · exact Programs.oneCall h
    · exact .inl h.1
  | pause =>
    refine pause_spec.mono fun evs r t' _ h => ?_
    split at h
    · exact Programs.oneCall h
    · exact .inl h.1
  | resume =>
    refine resume_spec.mono fun evs r t' _ h => ?_
    split at h
    · exact Programs.oneCall h
    · exact .inl h.1
  | stop =>
    refine stop_spec.mono fun evs r t' _ h => ?_
    split at h
    · exact Programs.oneCall h
    · exact .inl h.1

/-- The kernel always has an answer. -/
theorem exists_soloStep {o : Op} (ho : Scheduled s.timer o) : ∃ r s', SoloStep s (.op o r) s' := by
  let L : (q : Call) → Answer q → Prop := fun q r => r = s.kernel.reply q
  obtain ⟨evs, ⟨r, t'⟩, hr, hl⟩ := Prog.exists_runs (L := L) (fun q => ⟨s.kernel.reply q, rfl⟩) (o.exec.prog s.timer)
  obtain ⟨k', hk⟩ : ∃ k', s.kernel.answers evs = some k' := by
    rcases Eff.sat_iff_runs.1 (op_oneCall s.timer o) _ _ _ hr hl with rfl | ⟨fd, new, ans, rfl⟩
    · exact ⟨_, rfl⟩
    · have hans : ans = s.kernel.reply (.timerfdSettime fd 0 new) := hl _ (List.mem_singleton_self _)
      rw [hans]
      unfold KTimer.answers KTimer.reply
      dsimp only
      cases s.kernel.settime new with
      | ok p => exact ⟨p.2, if_pos rfl⟩
      | error e => exact ⟨s.kernel, if_pos rfl⟩
  exact ⟨r, _, .op ho hr hk⟩

end Schedules

/-- After a `start` with a setting that the kernel accepts and that is not zero, under any schedule
until the next `stop`, a timer has expired at exactly those of the times `first ts`, `first ts + i`,
… that its running time has passed, and no call of the schedule throws. -/
theorem expirations_transparent (ts : Itimerspec) (t : Timer) (k : KTimer) (s : Solo)
    (hs : Starts (settime ts t) k s) (hne : ts.itValue.ns ≠ 0 ∨ ts.itInterval.ns ≠ 0)
    (r : List (SoloAct × Solo)) (h : Run.Chain SoloStep s r) :
    Run.Always (fun s => s.expired = expiries (first ts) ts.itInterval.ns s.running) s r ∧
    Run.Chain (fun _ a _ => ∀ o res, a = .op o res → res = .ok ()) s r := by
  have hfirst : first ts ≠ 0 := by
    unfold first
    split
    · assumption
    · rename_i h0; exact hne.resolve_left h0
  obtain ⟨hinv, hok⟩ := h.always_chain (P := SoloInv (first ts) ts.itInterval.ns)
    (fun _ _ _ h _ hi => soloStep_inv h hi) h (starts_inv hs hfirst)
  exact ⟨hinv.imp fun _ hi => hi.expired, hok⟩

/-- A periodic timer with a zero value, paused twice. -/
theorem expirations_transparent_threes :
    let ts : Itimerspec := ⟨⟨0, 3⟩, ⟨0, 0⟩⟩
    let s : Solo := ⟨⟨3, ts.repaired, zero, .started⟩, .arm ts.repaired, 0, []⟩
    ∃ r, Run.Chain SoloStep s r ∧ (Run.last s r).running = 7 ∧ (Run.last s r).expired = [3, 6] ∧
      Run.Always (fun s => s.expired = expiries (first ts) ts.itInterval.ns s.running) s r := by
  intro ts s
  have hplays : (Run.plays Solo.play s [none, none, some .pause, none, none, some (.settime zero), some .resume,
      some .start, none, some .pause, none, some .pause, some .resume, some .resume, none, none, none, none]).map
      (fun r => ((Run.last s r).running, (Run.last s r).expired)) = some (7, [3, 6]) := by decide +kernel
  obtain ⟨r, hr, hlast⟩ := Option.map_eq_some_iff.1 hplays
  have h := Run.plays_chain _ solo_play_step hr
  have hstarts : Starts (settime ts ⟨3, zero, zero, .stopped⟩) .new s :=
    ⟨rfl, ⟨_, Prog.play_runs (fun _ => KTimer.new.reply) _ [], rfl⟩, rfl, rfl⟩
  exact ⟨r, h, congrArg Prod.fst hlast, congrArg Prod.snd hlast,
    (expirations_transparent ts _ _ s hstarts (.inr (by decide)) r h).1⟩

end Fdcpp.Timers
