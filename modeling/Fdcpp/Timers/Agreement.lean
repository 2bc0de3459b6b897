/-
The state of a `timer` agrees with its kernel timer: in every state of every run, a timer that is
paused or stopped has its kernel timer disarmed, and one that is started has it armed as it was last
programmed unless that was for nothing or for one shot that has been fired; and an operation that
throws changes neither. What a kernel timer does by itself depends on the setting alone, which is
never a zero value with an interval; the state adds only that no timer but a started one is armed.
-/
import Fdcpp.Timers.Kernel

namespace Fdcpp.Timers

/-- What the state of a timer says of its kernel timer. -/
structure Agrees (t : Timer) (k : KTimer) : Prop where
  quiet : t.state = .paused ∨ t.state = .stopped → k.armed = false
  periodic : t.state = .started → k.programmed.itInterval.ns ≠ 0 →
    k.armed = true ∧ k.interval = k.programmed.itInterval.ns
  spent : t.state = .started → k.armed = false →
    k.programmed.itValue.ns = 0 ∨ k.programmed.itInterval.ns = 0 ∧ 0 < k.fired

/-- Every timer that was not moved from agrees with its kernel timer. -/
def TimersAgree (w : World) : Prop :=
  ∀ a t, w.timers a = some t → w.moved a = false → ∃ k, w.kernel t.fd = some k ∧ Agrees t k

/-- An operation that throws changes neither the state of a timer nor the kernel timers. -/
def ThrowKeeps (w : World) (act : Act) (w' : World) : Prop :=
  ∀ a o evs e, act = .op a o evs (.error e) →
    w'.kernel = w.kernel ∧ ∀ b, (w'.timers b).map Timer.state = (w.timers b).map Timer.state

/-! ## Operations -/

/-- All that an operation on `t` can do: nothing to the kernel timer; program it; or throw. -/
def Effect (t : Timer) (evs : List Event) (r : Except SystemError Unit) (t' : Timer) : Prop :=
  t'.fd = t.fd ∧ t'.spec.Normal ∧
  ((evs = [] ∧ r = .ok () ∧ t'.state = t.state) ∨
   (∃ (new old : Itimerspec), evs = [⟨.timerfdSettime t.fd 0 new, Except.ok old⟩] ∧ r = .ok () ∧ new.Normal ∧
      (t'.state = .started ∨ new = zero)) ∨
   (∃ (new : Itimerspec) (e : Errno), evs = [⟨.timerfdSettime t.fd 0 new, Except.error e⟩] ∧
      t'.state = t.state))

section Ops

variable {L : (q : Call) → Answer q → Prop} {t : Timer}

theorem Skips.effect {evs : List Event} {r : Except SystemError Unit} {t' : Timer} (h : Skips t evs r t')
    (ht : t.spec.Normal) : Effect t evs r t' := by
  obtain ⟨rfl, rfl, rfl⟩ := h
  exact ⟨rfl, ht, .inl ⟨rfl, rfl, rfl⟩⟩

theorem Programs.effect {new : Itimerspec} {failed : Timer} {done : Itimerspec → Timer} {evs : List Event}
    {r : Except SystemError Unit} {t' : Timer} (h : Programs t new failed done evs r t') (ht : t.spec.Normal)
    (hn : new.Normal) (hf : failed.fd = t.fd ∧ failed.spec = t.spec ∧ failed.state = t.state)
    (hd : ∀ old, (done old).fd = t.fd ∧ (done old).spec = t.spec ∧ ((done old).state = .started ∨ new = zero)) :
    Effect t evs r t' := by
  rcases h with ⟨old, rfl, rfl, rfl⟩ | ⟨e, rfl, rfl, rfl⟩
  · obtain ⟨hfd, hspec, hst⟩ := hd old
    exact ⟨hfd, hspec ▸ ht, .inr (.inl ⟨new, old, rfl, rfl, hn, hst⟩)⟩
  · obtain ⟨hfd, hspec, hst⟩ := hf
    exact ⟨hfd, hspec ▸ ht, .inr (.inr ⟨new, e, rfl, hst⟩)⟩

theorem op_effect (ht : t.spec.Normal) (o : Op) : Eff.Sat L o.exec t (Effect t) := by
  cases o with
  | settime ts =>
    show Eff.Sat L (modify (settime ts)) t _
    rw [Eff.sat_modify, settime_eq]
    exact ⟨rfl, ts.repaired_normal, .inl ⟨rfl, rfl, rfl⟩⟩
  | start =>
    refine start_spec.mono fun evs r t' _ h => ?_
    split at h
    · exact Programs.effect h ht ht ⟨rfl, rfl, rfl⟩ fun _ => ⟨rfl, rfl, .inl rfl⟩
    · exact Skips.effect h ht
  | pause =>
    refine pause_spec.mono fun evs r t' _ h => ?_
    split at h
    · exact Programs.effect h ht Itimerspec.zero_normal ⟨rfl, rfl, rfl⟩ fun _ => ⟨rfl, rfl, .inr rfl⟩
    · exact Skips.effect h ht
  | resume =>
    refine resume_spec.mono fun evs r t' _ h => ?_
    split at h
    · exact Programs.effect h ht t.remaining.repaired_normal ⟨rfl, rfl, rfl⟩ fun _ => ⟨rfl, rfl, .inl rfl⟩
    · exact Skips.effect h ht
  | stop =>
    refine stop_spec.mono fun evs r t' _ h => ?_
    split at h
    · exact Programs.effect h ht Itimerspec.zero_normal ⟨rfl, rfl, rfl⟩ fun _ => ⟨rfl, rfl, .inr rfl⟩
    · exact Skips.effect h ht

theorem make_effect (ts : Option Itimerspec) : Eff.Sat L (make ts) () fun evs r _ =>
    (∃ (n : Nat) (t : Timer), evs = [⟨.timerfdCreate clockMonotonic 0, Except.ok n⟩] ∧ r = .ok t ∧ t.fd = n ∧
      t.spec.Normal ∧ t.state = .stopped) ∨
    (∃ e : Errno, evs = [⟨.timerfdCreate clockMonotonic 0, Except.error e⟩] ∧
      r = .error (throwSystemError "timerfd" "timerfd()" e)) := by
  unfold make timerfdMake
  rw [Eff.sat_bind, Eff.sat_bind, Eff.sat_call]
  intro r _
  cases r with
  | error e => exact .inr ⟨e, rfl, rfl⟩
  | ok n =>
    cases ts with
    | none => exact Or.inl ⟨n, _, rfl, rfl, rfl, Itimerspec.zero_normal, rfl⟩
    | some ts =>
      refine Or.inl ⟨n, _, rfl, rfl, rfl, ?_, rfl⟩
      show (settime ts _).spec.Normal
      rw [settime_eq]
      exact ts.repaired_normal

end Ops

/-! ## Kernel timers -/

/-- What holds of a kernel timer whatever the state of its `timer`. -/
structure KInv (k : KTimer) : Prop where
  interval : k.interval = k.programmed.itInterval.ns
  normal : k.programmed.itValue.ns = 0 → k.programmed.itInterval.ns = 0
  spent : k.armed = false → k.programmed.itValue.ns = 0 ∨ k.programmed.itInterval.ns = 0 ∧ 0 < k.fired

section Kernel

variable {k k' : KTimer} {s old : Itimerspec}

theorem new_kinv : KInv .new := ⟨rfl, fun _ => rfl, fun _ => .inl rfl⟩

theorem settime_kinv (hs : s.Normal) (h : k.settime s = .ok (old, k')) : KInv k' := by
  unfold KTimer.settime at h
  split at h
  · rename_i hv
    cases h
    refine ⟨rfl, hs.ns hv, fun harm => .inl ?_⟩
    exact not_not.1 (of_decide_eq_false harm)
  · cases h

theorem settime_zero (h : k.settime zero = .ok (old, k')) : k'.armed = false := by
  cases h
  rfl

theorem elapse_kinv (h : KInv k) (d : Nat) : KInv (k.elapse d) := ⟨h.interval, h.normal, h.spent⟩

theorem expire_kinv (h : KInv k) (next : Nat) : KInv (k.expire next) := by
  unfold KTimer.expire
  split
  · rename_i h0
    refine ⟨h.interval, h.normal, fun _ => .inr ⟨?_, Nat.succ_pos _⟩⟩
    rw [← h0, h.interval]
  · refine ⟨h.interval, h.normal, fun harm => ?_⟩
    exact (h.spent harm).imp_right fun ⟨hi, _⟩ => ⟨hi, Nat.succ_pos _⟩

theorem KInv.agrees {t : Timer} (h : KInv k) (hq : t.state ≠ .started → k.armed = false) : Agrees t k where
  quiet hst := hq (by rcases hst with hst | hst <;> rw [hst] <;> decide)
  periodic _ hi := by
    refine ⟨?_, h.interval⟩
    by_contra harm
    rcases h.spent (Bool.eq_false_iff.2 harm) with h0 | ⟨h0, _⟩
    · exact hi (h.normal h0)
    · exact hi h0
  spent _ harm := h.spent harm

end Kernel

/-! ## The kernel's answers -/

section Answers

variable {kern kern' : Kernel} {fd : Int} {k : KTimer}

theorem Kernel.mem_out : fd ∈ kern.out ↔ kern fd ≠ none := Iff.rfl

theorem out_update (kern : Kernel) (fd : Int) (k : KTimer) :
    Kernel.out (Function.update kern fd (some k)) = insert fd kern.out := setOf_update_some kern fd k

theorem out_update_some (hk : kern fd = some k) (k' : KTimer) :
    Kernel.out (Function.update kern fd (some k')) = kern.out := by
  rw [out_update, Set.insert_eq_of_mem]
  rw [Kernel.mem_out, hk]
  nofun

theorem out_update_none (kern : Kernel) (fd : Int) :
    Kernel.out (Function.update kern fd none) = kern.out \ {fd} := setOf_update_none kern fd

theorem answers_one {q : Call} {r : Answer q} (h : kern.answers [⟨q, r⟩] = some kern') :
    kern.answer q r = some kern' := by
  unfold Kernel.answers at h
  obtain ⟨k₁, h₁, h₂⟩ := Option.bind_eq_some_iff.1 h
  cases h₂
  exact h₁

theorem answer_create {clockid flags : Int} {n : Nat}
    (h : kern.answers [⟨.timerfdCreate clockid flags, Except.ok n⟩] = some kern') :
    kern n = none ∧ kern' = Function.update kern n (some .new) := by
  have h := answers_one h
  unfold Kernel.answer at h
  dsimp only at h
  split at h
  · cases h
  · rename_i hn
    cases h
    exact ⟨hn, rfl⟩

theorem answer_settime {flags : Int} {new old : Itimerspec}
    (h : kern.answers [⟨.timerfdSettime fd flags new, Except.ok old⟩] = some kern') :
    ∃ k k', kern fd = some k ∧ k.settime new = .ok (old, k') ∧ kern' = Function.update kern fd (some k') := by
  have h := answers_one h
  unfold Kernel.answer at h
  dsimp only at h
  split at h
  · rename_i k hk
    split at h
    · rename_i o k' hs
      split at h
      · rename_i ho
        cases h
        exact ⟨k, k', hk, ho ▸ hs, rfl⟩
      · cases h
    · cases h
  · cases h

end Answers

/-! ## Worlds -/

/-- The number that a timer holds. -/
def Timer.hold (t : Timer) : Option Int := if 0 ≤ t.fd then some t.fd else none

/-- The numbers that the timers hold. -/
def holdOf (timers : Nat → Option Timer) (a : Nat) : Option Int := (timers a).bind Timer.hold

/-- Every kernel timer is in one object; their settings are normal, and those of timers that were
not moved from are armed only when the timer is started. -/
structure Inv (w : World) : Prop where
  linear : Holders.Linear (holdOf w.timers) w.kernel.out
  kernel : ∀ fd k, w.kernel fd = some k → KInv k
  spec : ∀ a t, w.timers a = some t → t.spec.Normal
  quiet : ∀ a t, w.timers a = some t → w.moved a = false →
    ∃ k, w.kernel t.fd = some k ∧ (t.state ≠ .started → k.armed = false)

section World

variable {w w' : World} {timers : Nat → Option Timer} {a b : Nat} {t u : Timer} {n : Int} {k : KTimer}

theorem Inv.agree (h : Inv w) : TimersAgree w := by
  intro a t ha hm
  obtain ⟨k, hk, hq⟩ := h.quiet a t ha hm
  exact ⟨k, hk, (h.kernel _ _ hk).agrees hq⟩

theorem init_inv : Inv .init where
  linear := by
    rw [show Kernel.out World.init.kernel = ∅ from Set.eq_empty_of_forall_notMem fun fd h => h rfl]
    exact .empty fun _ => rfl
  kernel fd k hk := by cases hk
  spec a t ha := by cases ha
  quiet a t ha := by cases ha

theorem hold_eq_some : t.hold = some n ↔ 0 ≤ n ∧ t.fd = n := by
  unfold Timer.hold
  constructor
  · intro h
    split at h
    · rename_i h0; cases h; exact ⟨h0, rfl⟩
    · cases h
  · rintro ⟨h0, rfl⟩
    exact if_pos h0

theorem holdOf_update (timers : Nat → Option Timer) (a : Nat) (t : Option Timer) :
    holdOf (Function.update timers a t) = Function.update (holdOf timers) a (t.bind Timer.hold) := by
  funext b
  unfold holdOf
  rw [Function.update_apply, Function.update_apply]
  split
  · rfl
  · rfl

theorem holdOf_some (h : timers a = some t) : holdOf timers a = t.hold := by
  unfold holdOf
  rw [h]
  rfl

/-- A timer that keeps its number leaves the holders as they are. -/
theorem holdOf_update_same (h : timers a = some t) {t' : Timer} (hfd : t'.fd = t.fd) :
    holdOf (Function.update timers a (some t')) = holdOf timers := by
  rw [holdOf_update, ← Function.update_eq_self a (holdOf timers), Function.update_idem, holdOf_some h]
  unfold Timer.hold
  rw [← hfd]
  rfl

/-- Two timers never refer to the same kernel timer. -/
theorem Inv.ne_fd (h : Inv w) (ha : w.timers a = some t) (hb : w.timers b = some u) (hab : a ≠ b)
    (hk : w.kernel t.fd = some k) : t.fd ≠ u.fd := by
  intro he
  obtain ⟨i, hi⟩ := h.linear.held (Kernel.mem_out.2 (by rw [hk]; nofun))
  obtain ⟨v, -, hv⟩ := Option.bind_eq_some_iff.1 hi
  have h0 := (hold_eq_some.1 hv).1
  refine hab (h.linear.one (r := t.fd) ?_ ?_)
  · rw [holdOf_some ha]; exact hold_eq_some.2 ⟨h0, rfl⟩
  · rw [holdOf_some hb]; exact hold_eq_some.2 ⟨h0, he.symm⟩

/-! ### Steps -/

/-- A timer changes, but not its kernel timer. -/
theorem keep_inv (h : Inv w) (ha : w.timers a = some t) {t' : Timer} (hfd : t'.fd = t.fd)
    (hspec : t'.spec.Normal) (hst : t'.state = t.state) :
    Inv ⟨Function.update w.timers a (some t'), w.moved, w.kernel⟩ where
  linear := by
    dsimp only
    rw [holdOf_update_same ha hfd]
    exact h.linear
  kernel := h.kernel
  spec := forall_update h.spec fun _ hx => by cases hx; exact hspec
  quiet b u hb hm := by
    rcases update_eq_some hb with ⟨rfl, rfl⟩ | ⟨-, hb⟩
    · rw [hfd, hst]
      exact h.quiet b t ha hm
    · exact h.quiet b u hb hm

/-- The kernel timer of a timer is programmed. -/
theorem program_inv (h : Inv w) (ha : w.timers a = some t) {t' : Timer} (hfd : t'.fd = t.fd)
    (hspec : t'.spec.Normal) (hk : w.kernel t.fd = some k) {k' : KTimer} (hk' : KInv k')
    (hq : t'.state = .started ∨ k'.armed = false) :
    Inv ⟨Function.update w.timers a (some t'), w.moved, Function.update w.kernel t.fd (some k')⟩ where
  linear := by
    dsimp only
    rw [holdOf_update_same ha hfd, out_update_some hk]
    exact h.linear
  kernel := forall_update h.kernel fun _ hx => by cases hx; exact hk'
  spec := forall_update h.spec fun _ hx => by cases hx; exact hspec
  quiet b u hb hm := by
    dsimp only
    rcases update_eq_some hb with ⟨rfl, rfl⟩ | ⟨hba, hb⟩
    · rw [hfd, Function.update_self]
      exact ⟨k', rfl, fun hst => hq.resolve_left hst⟩
    · obtain ⟨k₁, hk₁, hq₁⟩ := h.quiet b u hb hm
      -- the kernel timers of the other timers are other ones
      rw [Function.update_of_ne (h.ne_fd hb ha hba hk₁)]
      exact ⟨k₁, hk₁, hq₁⟩

theorem op_inv (h : Inv w) (ha : w.timers a = some t) {evs : List Event} {r : Except SystemError Unit}
    {t' : Timer} {kern : Kernel} (hk : w.kernel.answers evs = some kern) (he : Effect t evs r t') :
    Inv ⟨Function.update w.timers a (some t'), w.moved, kern⟩ := by
  rcases he with ⟨hfd, hspec, ⟨rfl, -, hst⟩ | ⟨new, old, rfl, -, hn, hst⟩ | ⟨new, e, rfl, hst⟩⟩
  · cases hk
    exact keep_inv h ha hfd hspec hst
  · obtain ⟨k, k', hk', hs, rfl⟩ := answer_settime hk
    refine program_inv h ha hfd hspec hk' (settime_kinv hn hs) (hst.imp_right fun hz => ?_)
    rw [hz] at hs
    exact settime_zero hs
  · cases answers_one hk
    exact keep_inv h ha hfd hspec hst

theorem make_inv (h : Inv w) (ha : w.timers a = none) (hn : w.kernel n = none) (h0 : 0 ≤ n) (hfd : t.fd = n)
    (hspec : t.spec.Normal) :
    Inv ⟨Function.update w.timers a (some t), Function.update w.moved a false,
      Function.update w.kernel n (some .new)⟩ where
  linear := by
    have hhold : t.hold = some n := hold_eq_some.2 ⟨h0, hfd⟩
    dsimp only
    rw [holdOf_update, out_update]
    show Holders.Linear (Function.update (holdOf w.timers) a t.hold) _
    rw [hhold]
    refine h.linear.take ?_ fun hout => hout hn
    unfold holdOf
    rw [ha]
    rfl
  kernel := forall_update h.kernel fun _ hx => by cases hx; exact new_kinv
  spec := forall_update h.spec fun _ hx => by cases hx; exact hspec
  quiet b u hb hm := by
    dsimp only at hm ⊢
    rcases update_eq_some hb with ⟨rfl, rfl⟩ | ⟨hba, hb⟩
    · rw [hfd, Function.update_self]
      exact ⟨_, rfl, fun _ => rfl⟩
    · rw [Function.update_of_ne hba] at hm
      obtain ⟨k, hk, hq⟩ := h.quiet b u hb hm
      -- the new number was not open
      have hne : u.fd ≠ n := by rintro he; rw [he, hn] at hk; cases hk
      rw [Function.update_of_ne hne]
      exact ⟨k, hk, hq⟩

/-- A move from `other` to `a`, which may be the same. -/
theorem move_inv (h : Inv w) {other : Nat} (ho : w.timers other = some u) (hm : w.moved other = false)
    {t' u' : Timer} (ht : t'.fd = u.fd ∧ t'.spec = u.spec ∧ t'.state = u.state) (hu : u'.spec = u.spec)
    (hhold : u'.hold = holdOf w.timers a) :
    Inv ⟨Function.update (Function.update w.timers other (some u')) a (some t'),
      Function.update (Function.update w.moved other true) a false, w.kernel⟩ := by
  obtain ⟨hfd, hspec, hst⟩ := ht
  have ht : t'.hold = holdOf w.timers other := by
    rw [holdOf_some ho]
    unfold Timer.hold
    rw [hfd]
  -- the two objects exchange what they hold; a new one holds nothing before
  have hswap : holdOf (Function.update (Function.update w.timers other (some u')) a (some t')) =
      holdOf w.timers ∘ Equiv.swap a other := by
    rw [holdOf_update, holdOf_update]
    refine Holders.comp_swap ?_ ?_ fun b hb hb' => ?_
    · rw [Function.update_self]; exact ht
    · by_cases hao : other = a
      · rw [hao, Function.update_self, ← hao]; exact ht
      · rw [Function.update_of_ne hao, Function.update_self]; exact hhold
    · rw [Function.update_of_ne hb, Function.update_of_ne hb']
  have hx : ∀ (v : Timer), v.spec = u.spec → ∀ x, some v = some x → x.spec.Normal := by
    intro v hv x hx
    cases hx
    rw [hv]
    exact h.spec other u ho
  constructor
  · dsimp only
    rw [hswap]
    exact h.linear.perm _
  · exact h.kernel
  · exact forall_update (forall_update h.spec (hx u' hu)) (hx t' hspec)
  · intro b v hb hmv
    dsimp only at hmv
    rcases update_eq_some hb with ⟨rfl, rfl⟩ | ⟨hba, hb⟩
    · rw [hfd, hst]
      exact h.quiet other u ho hm
    · rw [Function.update_of_ne hba] at hmv
      rcases update_eq_some hb with ⟨rfl, rfl⟩ | ⟨hbo, hb⟩
      · -- what is left of `other` has been moved from
        rw [Function.update_self] at hmv
        cases hmv
      · rw [Function.update_of_ne hbo] at hmv
        exact h.quiet b v hb hmv

theorem destroy_inv (h : Inv w) (ha : w.timers a = some t) :
    Inv ⟨Function.update w.timers a none, w.moved,
      if 0 ≤ t.fd then Function.update w.kernel t.fd none else w.kernel⟩ := by
  have hhold : holdOf (Function.update w.timers a none) = Function.update (holdOf w.timers) a none :=
    holdOf_update ..
  have hspec : ∀ b v, Function.update w.timers a none b = some v → v.spec.Normal :=
    fun b v hb => h.spec b v (update_none_eq_some hb).2
  by_cases h0 : 0 ≤ t.fd
  · rw [if_pos h0]
    constructor
    · dsimp only
      rw [hhold, out_update_none]
      refine h.linear.give ?_
      rw [holdOf_some ha]
      exact if_pos h0
    · exact forall_update h.kernel fun _ hx => by cases hx
    · exact hspec
    · intro b v hb hm
      obtain ⟨hba, hb⟩ := update_none_eq_some hb
      obtain ⟨k, hk, hq⟩ := h.quiet b v hb hm
      dsimp only
      rw [Function.update_of_ne (h.ne_fd hb ha hba hk)]
      exact ⟨k, hk, hq⟩
  · rw [if_neg h0]
    constructor
    · dsimp only
      have hnone : holdOf w.timers a = none := by
        rw [holdOf_some ha]; exact if_neg h0
      rw [hhold, ← hnone, Function.update_eq_self]
      exact h.linear
    · exact h.kernel
    · exact hspec
    · intro b v hb hm
      exact h.quiet b v (update_none_eq_some hb).2 hm

/-- What kernel timers do by themselves. -/
theorem kernel_inv (h : Inv w) {kern : Kernel}
    (hk : ∀ fd, (w.kernel fd = none ∧ kern fd = none) ∨ ∃ k k', w.kernel fd = some k ∧ kern fd = some k' ∧
      (KInv k → KInv k') ∧ (k.armed = false → k'.armed = false)) :
    Inv ⟨w.timers, w.moved, kern⟩ := by
  have hout : Kernel.out kern = w.kernel.out := by
    ext fd
    rw [Kernel.mem_out, Kernel.mem_out]
    rcases hk fd with ⟨h₁, h₂⟩ | ⟨k, k', h₁, h₂, -⟩
    · rw [h₁, h₂]
    · rw [h₁, h₂]; exact iff_of_true nofun nofun
  constructor
  · dsimp only
    rw [hout]
    exact h.linear
  · intro fd k' hk'
    rcases hk fd with ⟨-, h₂⟩ | ⟨k, k'', h₁, h₂, hi, -⟩
    · rw [show kern fd = some k' from hk'] at h₂; cases h₂
    · rw [show kern fd = some k' from hk'] at h₂
      cases h₂
      exact hi (h.kernel fd k h₁)
  · exact h.spec
  · intro b v hb hm
    obtain ⟨k₁, hk₁, hq⟩ := h.quiet b v hb hm
    rcases hk v.fd with ⟨h₁, -⟩ | ⟨k, k', h₁, h₂, -, harm⟩
    · rw [h₁] at hk₁; cases hk₁
    · rw [h₁] at hk₁
      cases hk₁
      exact ⟨k', h₂, fun hst => harm (hq hst)⟩

theorem elapse_inv (h : Inv w) (d : Nat) : Inv ⟨w.timers, w.moved, fun fd => (w.kernel fd).map fun k => k.elapse d⟩ := by
  refine kernel_inv h fun fd => ?_
  cases hk : w.kernel fd with
  | none => exact .inl ⟨rfl, rfl⟩
  | some k => exact .inr ⟨k, _, rfl, rfl, fun hi => elapse_kinv hi d, id⟩

theorem expire_inv (h : Inv w) {fd : Int} (hk : w.kernel fd = some k) (next : Nat) :
    Inv ⟨w.timers, w.moved, Function.update w.kernel fd (some (k.expire next))⟩ := by
  refine kernel_inv h fun n => ?_
  by_cases hn : n = fd
  · subst hn
    refine .inr ⟨k, _, hk, Function.update_self .., fun hi => expire_kinv hi next, fun harm => ?_⟩
    unfold KTimer.expire
    split
    · rfl
    · exact harm
  · rw [Function.update_of_ne hn]
    cases hk : w.kernel n with
    | none => exact .inl ⟨rfl, rfl⟩
    | some k => exact .inr ⟨k, _, rfl, rfl, id, id⟩

/-- A constructor that throws leaves no timer. -/
theorem failed_inv (h : Inv w) (ha : w.timers a = none) :
    Inv ⟨Function.update w.timers a none, Function.update w.moved a false, w.kernel⟩ := by
  have hsame : Function.update w.timers a none = w.timers := by
    rw [← ha, Function.update_eq_self]
  rw [hsame]
  refine ⟨h.linear, h.kernel, h.spec, fun b u hb hm => h.quiet b u hb ?_⟩
  have hba : b ≠ a := by rintro rfl; rw [show w.timers b = none from ha] at hb; cases hb
  exact (Function.update_of_ne hba ..).symm.trans hm

theorem step_inv {act : Act} (h : Step w act w') (hi : Inv w) : Inv w' := by
  cases h with
  | @make a ts evs r kern ha hr hk =>
    have hm := Eff.sat_iff_runs.1 (make_effect (L := fun _ _ => True) ts) _ _ _ hr fun _ _ => trivial
    rcases hm with ⟨n, t, rfl, rfl, hfd, hspec, -⟩ | ⟨e, rfl, rfl⟩
    · obtain ⟨hn, rfl⟩ := answer_create hk
      exact make_inv hi ha hn (Int.natCast_nonneg n) hfd hspec
    · cases answers_one hk
      exact failed_inv hi ha
  | op ha hr hk =>
    have he := Eff.sat_iff_runs.1 (op_effect (L := fun _ _ => True) (hi.spec _ _ ha) _) _ _ _ hr fun _ _ => trivial
    exact op_inv hi ha hk he
  | @moveMake a other t ha ho hm =>
    refine move_inv hi ho hm ⟨rfl, rfl, rfl⟩ rfl ?_
    unfold holdOf
    rw [ha]
    rfl
  | @moveAssign this other t u ht ho hm =>
    refine move_inv hi ho hm ⟨rfl, rfl, rfl⟩ rfl ?_
    rw [holdOf_some ht]
    rfl
  | destroy ha => exact destroy_inv hi ha
  | elapse d => exact elapse_inv hi d
  | expire hk _ _ => exact expire_inv hi hk _

theorem step_throwKeeps {act : Act} (h : Step w act w') (hi : Inv w) : ThrowKeeps w act w' := by
  intro a o evs e hact
  cases h with
  | @op a o evs r t t' kern ha hr hk =>
    cases hact
    have he := Eff.sat_iff_runs.1 (op_effect (L := fun _ _ => True) (hi.spec _ _ ha) o) _ _ _ hr fun _ _ => trivial
    rcases he with ⟨-, -, ⟨-, hok, -⟩ | ⟨new, old, -, hok, -⟩ | ⟨new, e', rfl, hst⟩⟩
    · cases hok
    · cases hok
    · cases answers_one hk
      refine ⟨rfl, fun b => ?_⟩
      dsimp only
      rw [Function.update_apply]
      split
      · rename_i hb
        rw [hb, ha, Option.map_some, Option.map_some, hst]
      · rfl
  | _ => cases hact

end World

/-- In every run of any number of timers, each timer that was not moved from agrees with its kernel
timer in every state, and an operation that throws changes neither. -/
theorem timers_agree (r : List (Act × World)) (h : Run.Chain Step .init r) :
    Run.Always TimersAgree .init r ∧ Run.Chain ThrowKeeps .init r := by
  have hstep : ∀ w act w', Step w act w' → Step w act w' → Inv w → Inv w' ∧ ThrowKeeps w act w' :=
    fun w act w' hs _ hi => ⟨step_inv hs hi, step_throwKeeps hs hi⟩
  obtain ⟨hinv, hkeeps⟩ := h.always_chain hstep h init_inv
  exact ⟨hinv.imp fun _ => Inv.agree, hkeeps⟩

/-- A periodic timer with a zero value is paused when it is due and started again; a second timer
rejects its setting and is then replaced by the first. -/
theorem timers_agree_periodic : ∃ r, Run.Chain Step .init r ∧
    ((Run.last .init r).timers 1).map Timer.state = some .started ∧
    ((Run.last .init r).kernel 3).map KTimer.armed = some true ∧
    Run.Always TimersAgree .init r ∧ Run.Chain ThrowKeeps .init r := by
  have hplays : (Run.plays World.play .init [.make 0 (some ⟨⟨0, 30⟩, ⟨0, 0⟩⟩) (.ok 3), .op 0 .start none,
      .elapse 40, .op 0 .pause none, .op 0 .resume none, .elapse 30, .expire 3 20, .make 1 none (.error 24),
      .make 1 (some ⟨⟨0, 0⟩, ⟨0, -1⟩⟩) (.ok 4), .op 1 .start none, .op 1 .start (some EINVAL), .moveAssign 1 0,
      .op 0 .stop none]).map (fun r => (((Run.last .init r).timers 1).map Timer.state,
        ((Run.last .init r).kernel 3).map KTimer.armed)) = some (some .started, some true) := by decide +kernel
  obtain ⟨r, hr, hlast⟩ := Option.map_eq_some_iff.1 hplays
  have h := Run.plays_chain _ play_step hr
  exact ⟨r, h, congrArg Prod.fst hlast, congrArg Prod.snd hlast, timers_agree r h⟩

end Fdcpp.Timers
