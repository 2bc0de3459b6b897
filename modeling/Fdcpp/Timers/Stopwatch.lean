/-
A `timer` is a stopwatch. The stopwatch of a timer keeps the setting for the next `start`, the one of
the last `start` and the time that it has been started since; its expirations are due at the times that
follow from these two. Along every run of any number of timers, with moves, restarts and calls that
fail, over exact kernel timers, each timer shows what its stopwatch does, and at every time when an
expiration was due the timer has expired, unless it was paused or stopped in that moment before the
kernel got to it.
-/
import Fdcpp.Timers.Agreement
import Fdcpp.Timers.Transparency

namespace Fdcpp.Timers

open Periodic

/-! ## Stopwatches -/

/-- The setting that the next `start` uses and the one that the last did; the state; the time spent
started since the last `start`; and the times, so counted, at which an expiration has been due, each
with whether the timer has expired. -/
structure Watch where
  setting : Itimerspec
  running : Itimerspec
  state : State
  time : Nat
  past : List (Nat × Bool)

namespace Watch

/-- The time to the first expiration. -/
def first (s : Watch) : Nat := s.running.itValue.ns

/-- The time from one expiration to the next; there is only one if it is zero. -/
def every (s : Watch) : Nat := s.running.itInterval.ns

/-- The times at which an expiration should have been due by now. -/
def plan (s : Watch) : List Nat := if s.first = 0 then [] else expiries s.first s.every s.time

def new (ts : Option Itimerspec) : Watch := ⟨ts.elim zero Itimerspec.repaired, zero, .stopped, 0, []⟩

def elapse (s : Watch) (d : Nat) : Watch := if s.state = .started then { s with time := s.time + d } else s

/-- The expiration that is due takes place. -/
def expire (s : Watch) : Watch := { s with past := s.past ++ [(s.time, true)] }

/-- The expiration that is due, if one is, does not take place. -/
def cut (s : Watch) (due : Bool) : Watch := { s with past := s.past ++ if due then [(s.time, false)] else [] }

/-- An operation that returns, at a time when an expiration is due or not. -/
def op (s : Watch) (due : Bool) : Op → Watch
  | .settime ts => { s with setting := ts.repaired }
  | .start =>
    if s.state = .started then s
    else { s with running := s.setting, state := .started, time := 0, past := [] }
  | .pause => if s.state = .started then { s.cut due with state := .paused } else s
  | .resume => if s.state = .paused then { s with state := .started } else s
  | .stop => { s.cut due with state := .stopped }

/-- An operation that throws leaves the stopwatch as it is. -/
def after (s : Watch) (due : Bool) (o : Op) : Except SystemError Unit → Watch
  | .ok () => s.op due o
  | .error _ => s

end Watch

/-! ## A timer and its stopwatch -/

namespace KTimer

/-- An expiration is due. -/
def Due (k : KTimer) : Prop := k.armed = true ∧ k.left = 0

instance (k : KTimer) : Decidable k.Due := inferInstanceAs (Decidable (k.armed = true ∧ k.left = 0))

end KTimer

/-- The timer shows the state and the setting of its stopwatch, and an expiration has been due at the
times that are planned. -/
structure Shows (t : Timer) (k : KTimer) (s : Watch) : Prop where
  state : t.state = s.state
  setting : t.spec = s.setting
  past : s.past.map Prod.fst ++ (if k.Due then [s.time] else []) = s.plan

/-- Where the time to the next expiration is. -/
inductive Reading (t : Timer) (k : KTimer) (s : Watch) : Prop
  | going (hst : s.state = .started) (hk : Ready k (dueIn s.first s.every s.time) s.every)
      (hpast : s.past.map Prod.fst = s.plan)
  | due (hst : s.state = .started) (hk : k.Due) (hint : k.interval = s.every)
      (hex : IsExpiry s.first s.every s.time) (hpast : s.past.map Prod.fst ++ [s.time] = s.plan)
  | paused (hst : s.state = .paused) (hk : k.armed = false)
      (hrem : t.remaining.repaired = ⟨.ofNs s.every, .ofNs (dueIn s.first s.every s.time)⟩)
      (hpast : s.past.map Prod.fst = s.plan)
  | stopped (hst : s.state = .stopped) (hk : k.armed = false) (hpast : s.past.map Prod.fst = s.plan)

structure Follows (t : Timer) (k : KTimer) (s : Watch) : Prop where
  state : t.state = s.state
  setting : t.spec = s.setting
  normal : s.setting.Normal
  single : s.first = 0 → s.every = 0
  reading : Reading t k s

section Follows

variable {t t' : Timer} {k k' : KTimer} {s : Watch} {d i : Nat}

theorem Ready.not_due (h : Ready k d i) : ¬ k.Due := by
  rintro ⟨harm, hleft⟩
  have hd : d ≠ 0 := of_decide_eq_true (h.armed ▸ harm)
  rw [h.left hd] at hleft
  exact hd hleft

theorem Ready.elapse {e : Nat} (h : Ready k d i) (he : e < d ∨ d = 0) : Ready (k.elapse e) (d - e) i where
  armed := by
    show k.armed = _
    rw [h.armed, decide_eq_decide]
    omega
  left h0 := by
    show k.left - e = d - e
    rw [h.left (by omega)]
  interval := h.interval

theorem expire_ready {next : Nat} (harm : k.armed = true)
    (hnext : (k.expire next).armed = true → (k.expire next).left = (k.expire next).interval) :
    Ready (k.expire next) k.interval k.interval := by
  unfold KTimer.expire at *
  by_cases h0 : k.interval = 0
  · rw [if_pos h0, h0]
    exact ⟨rfl, fun h => absurd rfl h, rfl⟩
  · rw [if_neg h0] at hnext ⊢
    exact ⟨harm.trans (decide_eq_true h0).symm, fun _ => hnext harm, rfl⟩

theorem not_due_of_disarmed (h : k.armed = false) : ¬ k.Due := by
  rintro ⟨harm, -⟩
  rw [h] at harm
  cases harm

theorem Follows.shows (h : Follows t k s) : Shows t k s := by
  refine ⟨h.state, h.setting, ?_⟩
  cases h.reading with
  | going _ hk hpast => rw [if_neg hk.not_due, List.append_nil, hpast]
  | due _ hk _ _ hpast => rw [if_pos hk, hpast]
  | paused _ hk _ hpast => rw [if_neg (not_due_of_disarmed hk), List.append_nil, hpast]
  | stopped _ hk hpast => rw [if_neg (not_due_of_disarmed hk), List.append_nil, hpast]

theorem new_follows (ts : Option Itimerspec) (fd : Int) :
    Follows ⟨fd, ts.elim zero Itimerspec.repaired, zero, .stopped⟩ .new (.new ts) where
  state := rfl
  setting := rfl
  normal := by
    cases ts with
    | none => exact Itimerspec.zero_normal
    | some ts => exact ts.repaired_normal
  single _ := rfl
  reading := .stopped rfl rfl rfl

/-! ### Time -/

theorem elapse_follows (h : Follows t k s) (hd : k.armed = true → d ≤ k.left) :
    Follows t (k.elapse d) (s.elapse d) := by
  by_cases hst : s.state = .started
  · have helapse : s.elapse d = { s with time := s.time + d } := if_pos hst
    rw [helapse]
    refine ⟨h.state, h.setting, h.normal, h.single, ?_⟩
    cases h.reading with
    | going _ hk hpast =>
      by_cases hwait : d < dueIn s.first s.every s.time ∨ dueIn s.first s.every s.time = 0
      · obtain ⟨hdue, hsame⟩ := wait hwait
        refine .going hst ?_ ?_
        · show Ready _ (dueIn s.first s.every (s.time + d)) s.every
          rw [hdue]
          exact hk.elapse hwait
        · show _ = if s.first = 0 then [] else expiries s.first s.every (s.time + d)
          rw [hsame]
          exact hpast
      · have h0 : dueIn s.first s.every s.time ≠ 0 := fun h0 => hwait (.inr h0)
        have harm : k.armed = true := hk.armed.trans (decide_eq_true h0)
        have hle := hd harm
        rw [hk.left h0] at hle
        obtain rfl : d = dueIn s.first s.every s.time := by omega
        obtain ⟨hex, hnext⟩ := arrive h0
        -- a setting that is zero has no expiration
        have hfirst : s.first ≠ 0 := by
          intro hfirst
          rw [hfirst, h.single hfirst] at h0
          exact h0 rfl
        refine .due hst ⟨harm, ?_⟩ hk.interval hex ?_
        · show k.left - _ = 0
          rw [hk.left h0, Nat.sub_self]
        · show _ = if s.first = 0 then [] else expiries s.first s.every (s.time + _)
          rw [if_neg hfirst, hnext, hpast]
          unfold Watch.plan
          rw [if_neg hfirst]
    | due _ hk hint hex hpast =>
      -- no time passes before the expiration
      have hd0 : d = 0 := Nat.le_zero.1 (hk.2 ▸ hd hk.1)
      subst hd0
      exact .due hst hk hint hex hpast
    | paused hst' => rw [hst] at hst'; cases hst'
    | stopped hst' => rw [hst] at hst'; cases hst'
  · have helapse : s.elapse d = s := if_neg hst
    rw [helapse]
    refine ⟨h.state, h.setting, h.normal, h.single, ?_⟩
    cases h.reading with
    | going hst' => exact absurd hst' hst
    | due hst' => exact absurd hst' hst
    | paused hst' hk hrem hpast => exact .paused hst' hk hrem hpast
    | stopped hst' hk hpast => exact .stopped hst' hk hpast

theorem expire_follows (h : Follows t k s) (hdue : k.Due) {next : Nat}
    (hnext : (k.expire next).armed = true → (k.expire next).left = (k.expire next).interval) :
    Follows t (k.expire next) s.expire := by
  refine ⟨h.state, h.setting, h.normal, h.single, ?_⟩
  cases h.reading with
  | going _ hk => exact absurd hdue hk.not_due
  | paused _ hk => exact absurd hdue (not_due_of_disarmed hk)
  | stopped _ hk => exact absurd hdue (not_due_of_disarmed hk)
  | due hst _ hint hex hpast =>
    refine .going hst ?_ ?_
    · show Ready (k.expire next) (dueIn s.first s.every s.time) s.every
      rw [dueIn_isExpiry hex, ← hint]
      exact expire_ready hdue.1 hnext
    · show (s.past ++ [(s.time, true)]).map Prod.fst = s.plan
      rw [List.map_append, ← hpast]
      rfl

/-! ### Operations -/

theorem Follows.cut_past (h : Follows t k s) : (s.cut (decide k.Due)).past.map Prod.fst = s.plan := by
  rw [← h.shows.past]
  show (s.past ++ _).map Prod.fst = _
  rw [List.map_append]
  by_cases hdue : k.Due
  · rw [if_pos hdue, if_pos (decide_eq_true hdue)]
    rfl
  · rw [if_neg hdue, if_neg (by rwa [decide_eq_true_iff])]
    rfl

/-- What the kernel reports to a `pause` is what a `resume` should program. -/
theorem report_repaired (h : Follows t k s) (hst : s.state = .started) :
    k.report.repaired = ⟨.ofNs s.every, .ofNs (dueIn s.first s.every s.time)⟩ := by
  cases h.reading with
  | going _ hk => rw [hk.report, repaired_left]
  | due _ hk hint hex =>
    -- the kernel reports no time left, which stands for the interval
    unfold KTimer.report Itimerspec.repaired
    rw [if_pos hk.1, hk.2, hint, dueIn_isExpiry hex]
    rfl
  | paused hst' => rw [hst] at hst'; cases hst'
  | stopped hst' => rw [hst] at hst'; cases hst'

theorem settime_follows (h : Follows t k s) (ts : Itimerspec) :
    Follows (settime ts t) k { s with setting := ts.repaired } := by
  rw [settime_eq]
  refine ⟨h.state, rfl, ts.repaired_normal, h.single, ?_⟩
  cases h.reading with
  | going hst hk hpast => exact .going hst hk hpast
  | due hst hk hint hex hpast => exact .due hst hk hint hex hpast
  | paused hst hk hrem hpast => exact .paused hst hk hrem hpast
  | stopped hst hk hpast => exact .stopped hst hk hpast

theorem start_follows (h : Follows t k s) (hv : t.spec.Valid) :
    Follows { t with state := .started } (.arm t.spec)
      { s with running := s.setting, state := .started, time := 0, past := [] } := by
  have hsingle : s.setting.itValue.ns = 0 → s.setting.itInterval.ns = 0 := h.normal.ns (h.setting ▸ hv)
  refine ⟨rfl, h.setting, h.normal, hsingle, .going rfl ?_ ?_⟩
  · show Ready _ (dueIn s.setting.itValue.ns s.setting.itInterval.ns 0) s.setting.itInterval.ns
    rw [dueIn_start hsingle, h.setting]
    exact arm_ready s.setting
  · show _ = if s.setting.itValue.ns = 0 then [] else expiries s.setting.itValue.ns s.setting.itInterval.ns 0
    split
    · rfl
    · rename_i h0
      exact (expiries_zero (Nat.pos_of_ne_zero h0)).symm

theorem pause_follows (h : Follows t k s) (hst : s.state = .started) :
    Follows { t with remaining := k.report, state := .paused } (.arm zero)
      { s.cut (decide k.Due) with state := .paused } := by
  have hrem := report_repaired h hst
  exact ⟨rfl, h.setting, h.normal, h.single, .paused rfl rfl hrem h.cut_past⟩

theorem stop_follows (h : Follows t k s) :
    Follows { t with state := .stopped } (.arm zero) { s.cut (decide k.Due) with state := .stopped } :=
  ⟨rfl, h.setting, h.normal, h.single, .stopped rfl rfl h.cut_past⟩

theorem stopped_stop (h : Follows t k s) (hst : s.state = .stopped) : s.op (decide k.Due) .stop = s := by
  have hdue : ¬ k.Due := by
    cases h.reading with
    | going hst' => rw [hst] at hst'; cases hst'
    | due hst' => rw [hst] at hst'; cases hst'
    | paused hst' => rw [hst] at hst'; cases hst'
    | stopped _ hk => exact not_due_of_disarmed hk
  unfold Watch.op Watch.cut
  rw [decide_eq_false hdue, if_neg Bool.false_ne_true, List.append_nil, ← hst]

/-- A `resume`, which may throw after it has repaired what is left. -/
theorem resume_follows (h : Follows t k s) (hst : s.state = .paused) :
    Follows { t with remaining := t.remaining.repaired, state := .started } (.arm t.remaining.repaired)
        { s with state := .started } ∧
      Follows { t with remaining := t.remaining.repaired } k s := by
  cases h.reading with
  | going hst' => rw [hst] at hst'; cases hst'
  | due hst' => rw [hst] at hst'; cases hst'
  | stopped hst' => rw [hst] at hst'; cases hst'
  | paused _ hk hrem hpast =>
    refine ⟨⟨rfl, h.setting, h.normal, h.single, .going rfl ?_ hpast⟩,
      ⟨h.state, h.setting, h.normal, h.single, .paused hst hk ?_ hpast⟩⟩
    · have hready := arm_ready t.remaining.repaired
      rw [hrem, Timespec.ns_ofNs, Timespec.ns_ofNs] at hready
      rw [hrem]
      exact hready
    · show t.remaining.repaired.repaired = _
      rw [hrem, repaired_left]

/-- The kernel's answer to a function that programs the kernel timer. -/
theorem Programs.answered {new : Itimerspec} {failed : Timer} {done : Itimerspec → Timer} {evs : List Event}
    {r : Except SystemError Unit} {kern kern' : Kernel} (h : Programs t new failed done evs r t')
    (hk : kern t.fd = some k) (hans : kern.answers evs = some kern') :
    (new.Valid ∧ r = .ok () ∧ t' = done k.report ∧ kern' = Function.update kern t.fd (some (.arm new))) ∨
    (∃ e, r = .error e) ∧ t' = failed ∧ kern' = Function.update kern t.fd (some k) := by
  rcases h with ⟨old, rfl, rfl, rfl⟩ | ⟨e, rfl, rfl, rfl⟩
  · obtain ⟨k₁, k', hk₁, hs, rfl⟩ := answer_settime hans
    cases hk.symm.trans hk₁
    obtain ⟨hv, rfl, rfl⟩ := settime_ok hs
    exact .inl ⟨hv, rfl, rfl, rfl⟩
  · cases answers_one hans
    exact .inr ⟨⟨_, rfl⟩, rfl, by rw [← hk, Function.update_eq_self]⟩

/-- An operation does to a timer what it does to the stopwatch. -/
theorem op_follows {o : Op} {evs : List Event} {r : Except SystemError Unit} {kern kern' : Kernel}
    (h : Follows t k s) (hr : (o.exec.prog t).Runs evs (r, t')) (hk : kern t.fd = some k)
    (hans : kern.answers evs = some kern') :
    t'.fd = t.fd ∧ ∃ k', kern' = Function.update kern t.fd (some k') ∧
      Follows t' k' (s.after (decide k.Due) o r) := by
  have hskips : Skips t evs r t' → s.op (decide k.Due) o = s → t'.fd = t.fd ∧
      ∃ k', kern' = Function.update kern t.fd (some k') ∧ Follows t' k' (s.after (decide k.Due) o r) := by
    rintro ⟨rfl, rfl, rfl⟩ hsame
    cases hans
    refine ⟨rfl, k, by rw [← hk, Function.update_eq_self], ?_⟩
    show Follows t' k (s.op _ o)
    rwa [hsame]
  cases o with
  | settime ts =>
    have hs : Eff.Sat (fun _ _ => True) (Op.settime ts).exec t fun evs r t' =>
        evs = [] ∧ r = .ok () ∧ t' = settime ts t := ⟨rfl, rfl, rfl⟩
    obtain ⟨rfl, rfl, rfl⟩ := Eff.sat_iff_runs.1 hs _ _ _ hr fun _ _ => trivial
    cases hans
    refine ⟨by rw [settime_eq], k, by rw [← hk, Function.update_eq_self], settime_follows h ts⟩
  | start =>
    have hs := Eff.sat_iff_runs.1 (start_spec (L := fun _ _ => True)) _ _ _ hr fun _ _ => trivial
    by_cases hst : t.state = .started
    · rw [if_neg (not_not.2 hst)] at hs
      exact hskips hs (if_pos (h.state ▸ hst))
    · rw [if_pos hst] at hs
      rcases Programs.answered hs hk hans with ⟨hv, rfl, rfl, rfl⟩ | ⟨⟨e, rfl⟩, rfl, rfl⟩
      · have hop : s.op (decide k.Due) .start = _ := if_neg (h.state ▸ hst)
        refine ⟨rfl, _, rfl, ?_⟩
        rw [Watch.after, hop]
        exact start_follows h hv
      · exact ⟨rfl, k, rfl, h⟩
  | pause =>
    have hs := Eff.sat_iff_runs.1 (pause_spec (L := fun _ _ => True)) _ _ _ hr fun _ _ => trivial
    by_cases hst : t.state = .started
    · rw [if_pos hst] at hs
      rcases Programs.answered hs hk hans with ⟨-, rfl, rfl, rfl⟩ | ⟨⟨e, rfl⟩, rfl, rfl⟩
      · have hop : s.op (decide k.Due) .pause = _ := if_pos (h.state ▸ hst)
        refine ⟨rfl, _, rfl, ?_⟩
        rw [Watch.after, hop]
        exact pause_follows h (h.state ▸ hst)
      · exact ⟨rfl, k, rfl, h⟩
    · rw [if_neg hst] at hs
      exact hskips hs (if_neg (h.state ▸ hst))
  | resume =>
    have hs := Eff.sat_iff_runs.1 (resume_spec (L := fun _ _ => True)) _ _ _ hr fun _ _ => trivial
    by_cases hst : t.state = .paused
    · rw [if_pos hst] at hs
      obtain ⟨hok, herr⟩ := resume_follows h (h.state ▸ hst)
      rcases Programs.answered hs hk hans with ⟨-, rfl, rfl, rfl⟩ | ⟨⟨e, rfl⟩, rfl, rfl⟩
      · have hop : s.op (decide k.Due) .resume = _ := if_pos (h.state ▸ hst)
        refine ⟨rfl, _, rfl, ?_⟩
        rw [Watch.after, hop]
        exact hok
      · exact ⟨rfl, k, rfl, herr⟩
    · rw [if_neg hst] at hs
      exact hskips hs (if_neg (h.state ▸ hst))
  | stop =>
    have hs := Eff.sat_iff_runs.1 (stop_spec (L := fun _ _ => True)) _ _ _ hr fun _ _ => trivial
    by_cases hst : t.state = .stopped
    · rw [if_neg (not_not.2 hst)] at hs
      exact hskips hs (stopped_stop h (h.state ▸ hst))
    · rw [if_pos hst] at hs
      rcases Programs.answered hs hk hans with ⟨-, rfl, rfl, rfl⟩ | ⟨⟨e, rfl⟩, rfl, rfl⟩
      · exact ⟨rfl, _, rfl, stop_follows h⟩
      · exact ⟨rfl, k, rfl, h⟩

end Follows

/-! ## Runs -/

/-- The timers, with a stopwatch for each. -/
structure Watched where
  world : World
  watches : Nat → Watch

def Watched.init : Watched := ⟨.init, fun _ => .new none⟩

/-- An expiration of the timer at `a` is due. -/
def World.due (w : World) (a : Nat) : Bool :=
  ((w.timers a).bind fun t => w.kernel t.fd).any fun k => decide k.Due

/-- The stopwatches after a step. -/
def Act.turn (w : World) (ws : Nat → Watch) : Act → Nat → Watch
  | .make a ts _ => Function.update ws a (.new ts)
  | .op a o _ r => Function.update ws a ((ws a).after (w.due a) o r)
  | .moveMake a other | .moveAssign a other => Function.update ws a (ws other)
  | .destroy _ => ws
  | .elapse d => fun a => (ws a).elapse d
  | .expire fd => fun a => if (w.timers a).map Timer.fd = some fd then (ws a).expire else ws a

def Watched.Step (s : Watched) (act : Act) (s' : Watched) : Prop :=
  Timers.Step s.world act s'.world ∧ s'.watches = act.turn s.world s.watches

/-- The kernel gets to an expiration before time goes on, and the next one is an interval later. -/
def Exact (w : World) (act : Act) (w' : World) : Prop :=
  match act with
  | .elapse d => ∀ fd k, w.kernel fd = some k → k.armed = true → d ≤ k.left
  | .expire fd => ∀ k, w'.kernel fd = some k → k.armed = true → k.left = k.interval
  | _ => True

/-- Every timer that was not moved from shows what its stopwatch does. -/
def Watched.Agree (s : Watched) : Prop :=
  ∀ a t, s.world.timers a = some t → s.world.moved a = false →
    ∃ k, s.world.kernel t.fd = some k ∧ Shows t k (s.watches a)

/-- The timers that were not moved from follow their stopwatches. -/
def Matched (w : World) (ws : Nat → Watch) : Prop :=
  ∀ a t, w.timers a = some t → w.moved a = false → ∃ k, w.kernel t.fd = some k ∧ Follows t k (ws a)

structure Watched.Inv (s : Watched) : Prop where
  world : Timers.Inv s.world
  matched : Matched s.world s.watches

theorem Watched.Inv.agree {s : Watched} (h : s.Inv) : s.Agree := by
  intro a t ha hm
  obtain ⟨k, hk, hf⟩ := h.matched a t ha hm
  exact ⟨k, hk, hf.shows⟩

theorem Watched.init_inv : Watched.init.Inv where
  world := Timers.init_inv
  matched a t ha := by cases ha

section Runs

variable {w : World} {ws : Nat → Watch} {a : Nat} {t : Timer} {k : KTimer}

theorem due_eq (ha : w.timers a = some t) (hk : w.kernel t.fd = some k) : w.due a = decide k.Due := by
  unfold World.due
  rw [ha, Option.bind_some, hk, Option.any_some]

theorem make_spec {L : (q : Call) → Answer q → Prop} (ts : Option Itimerspec) : Eff.Sat L (make ts) () fun evs r _ =>
    (∃ n : Nat, evs = [⟨.timerfdCreate clockMonotonic 0, Except.ok n⟩] ∧
      r = .ok ⟨n, ts.elim zero Itimerspec.repaired, zero, .stopped⟩) ∨
    (∃ e : Errno, evs = [⟨.timerfdCreate clockMonotonic 0, Except.error e⟩] ∧
      r = .error (throwSystemError "timerfd" "timerfd()" e)) := by
  unfold make timerfdMake
  rw [Eff.sat_bind, Eff.sat_bind, Eff.sat_call]
  intro r _
  cases r with
  | error e => exact .inr ⟨e, rfl, rfl⟩
  | ok n =>
    cases ts with
    | none => exact Or.inl ⟨n, rfl, rfl⟩
    | some ts =>
      refine Or.inl ⟨n, rfl, ?_⟩
      show Except.ok (settime ts _) = _
      rw [settime_eq]
      rfl

/-- An operation on a timer programs no other kernel timer. -/
theorem op_elsewhere {o : Op} {evs : List Event} {r : Except SystemError Unit} {t' : Timer} {kern : Kernel}
    (ht : t.spec.Normal) (hr : (o.exec.prog t).Runs evs (r, t')) (hans : w.kernel.answers evs = some kern)
    {fd : Int} (hfd : fd ≠ t.fd) : kern fd = w.kernel fd := by
  have he := Eff.sat_iff_runs.1 (op_effect (L := fun _ _ => True) ht o) _ _ _ hr fun _ _ => trivial
  rcases he with ⟨-, -, ⟨rfl, -⟩ | ⟨new, old, rfl, -⟩ | ⟨new, e, rfl, -⟩⟩
  · cases hans
    rfl
  · obtain ⟨k, k', -, -, rfl⟩ := answer_settime hans
    exact Function.update_of_ne hfd ..
  · cases answers_one hans
    rfl

theorem make_matched (h : Matched w ws) {ts : Option Itimerspec} {evs : List Event}
    {r : Except SystemError Timer} {kern : Kernel} (ha : w.timers a = none)
    (hr : ((make ts).prog ()).Runs evs (r, ())) (hans : w.kernel.answers evs = some kern) :
    Matched ⟨Function.update w.timers a r.toOption, Function.update w.moved a false, kern⟩
      (Function.update ws a (.new ts)) := by
  have hs := Eff.sat_iff_runs.1 (make_spec (L := fun _ _ => True) ts) _ _ _ hr fun _ _ => trivial
  intro b u hb hm
  dsimp only at hm ⊢
  rcases hs with ⟨n, rfl, rfl⟩ | ⟨e, rfl, rfl⟩
  · obtain ⟨hn, rfl⟩ := answer_create hans
    rcases update_eq_some hb with ⟨rfl, rfl⟩ | ⟨hba, hb⟩
    · rw [Function.update_self, Function.update_self]
      exact ⟨.new, rfl, new_follows ts n⟩
    · rw [Function.update_of_ne hba] at hm ⊢
      obtain ⟨k, hk, hf⟩ := h b u hb hm
      have hne : u.fd ≠ n := by rintro he; rw [he, hn] at hk; cases hk
      rw [Function.update_of_ne hne]
      exact ⟨k, hk, hf⟩
  · cases answers_one hans
    obtain ⟨hba, hb⟩ := update_none_eq_some hb
    rw [Function.update_of_ne hba] at hm ⊢
    exact h b u hb hm

theorem op_matched (hi : Inv w) (h : Matched w ws) {o : Op} {evs : List Event} {r : Except SystemError Unit}
    {t' : Timer} {kern : Kernel} (ha : w.timers a = some t) (hr : (o.exec.prog t).Runs evs (r, t'))
    (hans : w.kernel.answers evs = some kern) :
    Matched ⟨Function.update w.timers a (some t'), w.moved, kern⟩
      (Function.update ws a ((ws a).after (w.due a) o r)) := by
  intro b u hb hm
  dsimp only at hm ⊢
  rcases update_eq_some hb with ⟨rfl, rfl⟩ | ⟨hba, hb⟩
  · obtain ⟨k, hk, hf⟩ := h b t ha hm
    obtain ⟨hfd, k', rfl, hf'⟩ := op_follows hf hr hk hans
    rw [hfd, Function.update_self, Function.update_self, due_eq ha hk]
    exact ⟨k', rfl, hf'⟩
  · obtain ⟨k, hk, hf⟩ := h b u hb hm
    rw [Function.update_of_ne hba, op_elsewhere (hi.spec a t ha) hr hans (hi.ne_fd hb ha hba hk)]
    exact ⟨k, hk, hf⟩

/-- The stopwatch goes with the timer. -/
theorem move_matched (h : Matched w ws) {other : Nat} {u' : Option Timer} (ho : w.timers other = some t)
    (hm : w.moved other = false) :
    Matched ⟨Function.update (Function.update w.timers other u') a (some t),
      Function.update (Function.update w.moved other true) a false, w.kernel⟩
      (Function.update ws a (ws other)) := by
  intro b u hb hmb
  dsimp only at hmb ⊢
  rcases update_eq_some hb with ⟨rfl, rfl⟩ | ⟨hba, hb⟩
  · rw [Function.update_self]
    exact h other t ho hm
  · rw [Function.update_of_ne hba] at hmb ⊢
    by_cases hbo : b = other
    · rw [hbo, Function.update_self] at hmb
      cases hmb
    · rw [Function.update_of_ne hbo] at hb hmb
      exact h b u hb hmb

theorem destroy_matched (hi : Inv w) (h : Matched w ws) (ha : w.timers a = some t) :
    Matched ⟨Function.update w.timers a none, w.moved,
      if 0 ≤ t.fd then Function.update w.kernel t.fd none else w.kernel⟩ ws := by
  intro b u hb hm
  obtain ⟨hba, hb⟩ := update_none_eq_some hb
  obtain ⟨k, hk, hf⟩ := h b u hb hm
  dsimp only
  split
  · rw [Function.update_of_ne (hi.ne_fd hb ha hba hk)]
    exact ⟨k, hk, hf⟩
  · exact ⟨k, hk, hf⟩

theorem elapse_matched (h : Matched w ws) {d : Nat}
    (hx : ∀ fd k, w.kernel fd = some k → k.armed = true → d ≤ k.left) :
    Matched ⟨w.timers, w.moved, fun fd => (w.kernel fd).map fun k => k.elapse d⟩ fun a => (ws a).elapse d := by
  intro b u hb hm
  obtain ⟨k, hk, hf⟩ := h b u hb hm
  refine ⟨k.elapse d, ?_, elapse_follows hf (hx _ k hk)⟩
  dsimp only
  rw [hk, Option.map_some]

theorem expire_matched (h : Matched w ws) {fd : Int} {next : Nat} (hk : w.kernel fd = some k) (hdue : k.Due)
    (hx : (k.expire next).armed = true → (k.expire next).left = (k.expire next).interval) :
    Matched ⟨w.timers, w.moved, Function.update w.kernel fd (some (k.expire next))⟩
      ((Act.expire fd).turn w ws) := by
  intro b u hb hm
  obtain ⟨k', hk', hf⟩ := h b u hb hm
  have hturn : (Act.expire fd).turn w ws b = if u.fd = fd then (ws b).expire else ws b := by
    show (if (w.timers b).map Timer.fd = some fd then _ else _) = _
    rw [show w.timers b = some u from hb, Option.map_some]
    simp only [Option.some.injEq]
  dsimp only
  rw [hturn]
  split
  · rename_i hfd
    rw [hfd, hk] at hk'
    cases hk'
    rw [hfd, Function.update_self]
    exact ⟨_, rfl, expire_follows hf hdue hx⟩
  · rename_i hfd
    rw [Function.update_of_ne hfd]
    exact ⟨k', hk', hf⟩

theorem watched_step {s s' : Watched} {act : Act} (h : s.Step act s') (hx : Exact s.world act s'.world)
    (hi : s.Inv) : s'.Inv := by
  obtain ⟨w', ws'⟩ := s'
  obtain ⟨h, hws⟩ := h
  dsimp only at h hws hx
  subst hws
  refine ⟨step_inv h hi.world, ?_⟩
  cases h with
  | make ha hr hk => exact make_matched hi.matched ha hr hk
  | op ha hr hk => exact op_matched hi.world hi.matched ha hr hk
  | moveMake ha ho hm => exact move_matched hi.matched ho hm
  | moveAssign ht ho hm => exact move_matched hi.matched ho hm
  | destroy ha => exact destroy_matched hi.world hi.matched ha
  | elapse d => exact elapse_matched hi.matched hx
  | expire hk hdue hnext => exact expire_matched hi.matched hk hdue (hx _ (Function.update_self ..))

end Runs

/-- In every run of any number of timers over exact kernel timers, each timer that was not moved from
shows in every state what its stopwatch does. -/
theorem timers_are_watches (r : List (Act × Watched)) (h : Run.Chain Watched.Step .init r)
    (hx : Run.Chain (fun s act s' => Exact s.world act s'.world) .init r) :
    Run.Always Watched.Agree .init r :=
  (h.always (P := Watched.Inv) (fun _ _ _ hs hx hi => watched_step hs hx hi) hx Watched.init_inv).imp
    fun _ => Watched.Inv.agree

/-! ## Playing a run -/

section Plays

variable {fds : List Int} {kern kern' : Kernel} {w w' : World} {act : Act}

/-- The numbers of all kernel timers are in `fds`. -/
def Kernel.Within (fds : List Int) (kern : Kernel) : Prop := ∀ fd k, kern fd = some k → fd ∈ fds

/-- The number of the kernel timer that a call has made. -/
def created : Event → Option Int
  | ⟨.timerfdCreate _ _, .ok n⟩ => some n
  | _ => none

def Act.evs : Act → List Event
  | .make _ _ evs | .op _ _ evs _ => evs
  | _ => []

theorem within_update (h : kern.Within fds) {fd : Int} (hfd : fd ∈ fds) (k : KTimer) :
    Kernel.Within fds (Function.update kern fd (some k)) := by
  intro fd' k' hk
  rcases update_eq_some hk with ⟨rfl, -⟩ | ⟨-, hk⟩
  · exact hfd
  · exact h fd' k' hk

theorem answer_within {e : Event} (h : kern.Within fds) (he : ∀ n ∈ created e, n ∈ fds)
    (hans : kern.answer e.1 e.2 = some kern') : kern'.Within fds := by
  have hans : kern.answers [e] = some kern' := by
    unfold Kernel.answers
    rw [hans]
    rfl
  obtain ⟨q, r⟩ := e
  cases q with
  | timerfdCreate clockid flags =>
    rcases r with e | n
    · cases answers_one hans
      exact h
    · obtain ⟨-, rfl⟩ := answer_create hans
      exact within_update h (he n rfl) _
  | timerfdSettime fd flags new =>
    rcases r with e | old
    · cases answers_one hans
      exact h
    · obtain ⟨k, k', hk, -, rfl⟩ := answer_settime hans
      exact within_update h (h fd k hk) k'

theorem answers_within : ∀ {evs : List Event} {kern : Kernel}, kern.Within fds →
    (∀ e ∈ evs, ∀ n ∈ created e, n ∈ fds) → kern.answers evs = some kern' → kern'.Within fds
  | [], _, h, _, hans => by cases hans; exact h
  | e :: evs, _, h, he, hans => by
    obtain ⟨k₁, hk, hans⟩ := Option.bind_eq_some_iff.1 hans
    have h₁ := answer_within h (he e List.mem_cons_self) hk
    exact answers_within h₁ (fun e' he' => he e' (List.mem_cons_of_mem _ he')) hans

theorem step_within (h : Step w act w') (he : ∀ e ∈ act.evs, ∀ n ∈ created e, n ∈ fds)
    (hw : w.kernel.Within fds) : w'.kernel.Within fds := by
  cases h with
  | make ha hr hk | op ha hr hk => exact answers_within hw he hk
  | moveMake ha ho hm | moveAssign ht ho hm => exact hw
  | destroy ha =>
    intro fd k hk
    dsimp only at hk
    split at hk
    · exact hw fd k (update_none_eq_some hk).2
    · exact hw fd k hk
  | elapse d =>
    intro fd k hk
    obtain ⟨k₁, hk₁, -⟩ := Option.map_eq_some_iff.1 hk
    exact hw fd k₁ hk₁
  | expire hk hdue hnext => exact within_update hw (hw _ _ hk) _

/-- `Exact` of the kernel timers with the numbers `fds`. -/
def exactOn (fds : List Int) (w : World) (act : Act) (w' : World) : Bool :=
  match act with
  | .elapse d => fds.all fun fd => (w.kernel fd).all fun k => decide (k.armed = true → d ≤ k.left)
  | .expire fd => (w'.kernel fd).all fun k => decide (k.armed = true → k.left = k.interval)
  | _ => true

theorem exact_of_exactOn (hw : w.kernel.Within fds) (h : exactOn fds w act w' = true) : Exact w act w' := by
  cases act with
  | elapse d =>
    intro fd k hk
    have hfd := List.all_eq_true.1 h fd (hw fd k hk)
    rw [hk] at hfd
    exact of_decide_eq_true hfd
  | expire fd =>
    intro k hk
    have h : (w'.kernel fd).all _ = true := h
    rw [hk] at h
    exact of_decide_eq_true h
  | make | op | moveMake | moveAssign | destroy => trivial

/-- A step of exact kernel timers with the numbers `fds`. -/
def Watched.play (fds : List Int) (s : Watched) (c : Cue) : Option (Act × Watched) :=
  (s.world.play c).bind fun p =>
    if (∀ e ∈ p.1.evs, ∀ n ∈ created e, n ∈ fds) ∧ exactOn fds s.world p.1 p.2 = true then
      some (p.1, ⟨p.2, p.1.turn s.world s.watches⟩)
    else none

theorem watched_play_step (s : Watched) (c : Cue) (p : Act × Watched) (h : s.play fds c = some p) :
    s.Step p.1 p.2 ∧ (s.world.kernel.Within fds → p.2.world.kernel.Within fds ∧ Exact s.world p.1 p.2.world) := by
  obtain ⟨p, hp, h⟩ := Option.bind_eq_some_iff.1 h
  obtain ⟨⟨he, hx⟩, h⟩ := Option.ite_none_right_eq_some.1 h
  cases h
  have hstep := play_step _ _ _ hp
  exact ⟨⟨hstep, rfl⟩, fun hw => ⟨step_within hstep he hw, exact_of_exactOn hw hx⟩⟩

theorem watched_plays {cs : List Cue} {r : List (Act × Watched)} (h : Run.plays (Watched.play fds) .init cs = some r) :
    Run.Chain Watched.Step .init r ∧ Run.Chain (fun s act s' => Exact s.world act s'.world) .init r := by
  have hr : Run.Chain (fun s act s' => s.Step act s' ∧ (s.world.kernel.Within fds →
      s'.world.kernel.Within fds ∧ Exact s.world act s'.world)) .init r := Run.plays_chain _ watched_play_step h
  refine ⟨hr.mono fun _ _ _ hs => hs.1, ?_⟩
  exact (hr.always_chain (P := fun s => s.world.kernel.Within fds) (fun _ _ _ hs _ hw => hs.2 hw) hr nofun).2

end Plays

/-- The timer at 0 is paused before its expiration at 5, moved, and paused again when the one at 8 is due; then
it is started anew. The one at 2 is paused when its only expiration is due. Two calls fail. -/
theorem timers_are_watches_two : ∃ r : List (Act × Watched), Run.Always Watched.Agree .init r ∧
    ((Run.last .init r).watches 1).past = [(5, true), (8, true)] ∧ ((Run.last .init r).watches 1).time = 9 ∧
    ((Run.last .init r).watches 2).past = [(6, false)] := by
  let cues : List Cue := [.make 0 (some ⟨⟨0, 3⟩, ⟨0, 5⟩⟩) (.ok 3), .make 2 none (.ok 4),
    .op 2 (.settime ⟨⟨0, 0⟩, ⟨0, 6⟩⟩) none, .op 0 .start none, .op 2 .start none, .elapse 4, .op 0 .pause none,
    .elapse 1, .op 0 .resume (some 4), .op 0 .resume none, .elapse 1, .expire 3 3, .op 2 .pause none, .elapse 3,
    .moveMake 1 0, .op 1 .pause (some 4), .op 1 .pause none, .elapse 10, .op 1 .start none, .elapse 5,
    .expire 3 3, .elapse 3, .expire 3 3, .elapse 1]
  have hplays : (Run.plays (Watched.play [3, 4]) .init cues).map (fun r =>
      (((Run.last .init r).watches 1).past, ((Run.last .init r).watches 1).time,
        ((Run.last .init r).watches 2).past)) = some ([(5, true), (8, true)], 9, [(6, false)]) := by decide +kernel
  obtain ⟨r, hr, hlast⟩ := Option.map_eq_some_iff.1 hplays
  obtain ⟨h, hx⟩ := watched_plays hr
  exact ⟨r, timers_are_watches r h hx, congrArg Prod.fst hlast, congrArg (fun x => x.2.1) hlast,
    congrArg (fun x => x.2.2) hlast⟩

end Fdcpp.Timers
