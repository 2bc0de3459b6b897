/-
Progress of two joined `buffered_socket`s. On behaviours in which a side that can go on does so, every
`send` is answered in the end and what is under way arrives, every write and every `flush` comes to an
end, and so does every read of a value that the other side has flushed, whatever the other side does
meanwhile. When both sides flush before they read, they can wait for each other only if everything
that was written has been read.
-/
import Fdcpp.Buffered.Link
import Fdcpp.Lib.Fair
import Mathlib.Data.List.Induction

namespace Fdcpp.Buffered

open Bytes

/-! ## Who moves -/

/-- The side `d` goes on with the operation that it is in. -/
inductive Moves (d : Side) : Link → Link → Prop
  | answer {l : Link} {op : Op} {q : Call}
      {k : Answer q → Prog Call Answer (Except Exc (Option Value) × BufferedSocket)} (r : Answer q)
      (hc : (l.ends d).control = .busy op (.ask q k)) (hr : Reliable q r)
      (ha : Event.taken ⟨q, r⟩ <+: (l.streams d.other).arrived) :
      Moves d l ((l.setEnd d { l.ends d with control := .busy op (k r) }).called d ⟨q, r⟩)
  | finish {l : Link} {op : Op} {r : Except Exc (Option Value)} {s' : BufferedSocket}
      (hc : (l.ends d).control = .busy op (.ret (r, s'))) :
      Moves d l (l.setEnd d ((l.ends d).finish op r s'))

/-- Some of what the side `d` has sent arrives. -/
inductive Arrives (d : Side) : Link → Link → Prop
  | mk {l : Link} (n : Nat) (hn : 0 < n ∧ n ≤ (l.streams d).inflight.length) : Arrives d l (l.delivered d n)

/-- The operation that a side is in. -/
def Control.op : Control → Option Op
  | idle _ => none
  | busy op _ => some op

/-- How many bytes the operation waits for. -/
def Control.awaits : Control → Option Nat
  | busy _ (.ask (.recv size .waitall) _) => some size
  | _ => none

section Steps

variable {plan : Side → Nat → Nat} {d : Side} {l l' : Link} {op : Op}
  {p : Prog Call Answer (Except Exc (Option Value) × BufferedSocket)}

theorem Control.exists_busy {c : Control} (h : c.op = some op) : ∃ rest, c = .busy op rest := by
  cases c with
  | idle s => cases h
  | busy op' rest => cases h; exact ⟨rest, rfl⟩

/-- An idle side does not move. -/
theorem not_moves (h : (l.ends d).control.op = none) : ¬ Moves d l l' := by
  intro hm
  cases hm with
  | answer r hc hr ha => rw [hc] at h; cases h
  | finish hc => rw [hc] at h; cases h

/-- A side that waits for more than has arrived does not move. -/
theorem not_moves_of_awaits {size : Nat} (h : (l.ends d).control.awaits = some size)
    (hlt : (l.streams d.other).arrived.length < size) : ¬ Moves d l l' := by
  intro hm
  cases hm with
  | @answer op q k r hc hr ha =>
    rw [hc] at h
    match q, r with
    | .send _, _ | .recv _ .dontwait, _ => cases h
    | .recv _ .waitall, .error _ => exact hr.elim
    | .recv _ .waitall, .ok bs =>
      cases h
      have hfull : bs.1.length = size := hr
      have hlen := ha.length_le
      rw [Event.taken_ok, hfull] at hlen
      omega
  | finish hc => rw [hc] at h; cases h

/-- While a side is in an operation, a step is one of its own, or leaves it there while the stream that
it reads may grow. -/
theorem LinkStep.cases_busy (h : LinkStep plan l l') (hc : (l.ends d).control = .busy op p) :
    Moves d l l' ∨ (l'.ends d = l.ends d ∧ (l.streams d.other).Grows (l'.streams d.other)) := by
  cases h with
  | start c op' hc' _ =>
    have hcd : d ≠ c := by rintro rfl; rw [hc] at hc'; cases hc'
    exact .inr ⟨by simp [Link.setEnd, hcd], .refl _⟩
  | answer c r hc' hr ha =>
    by_cases hcd : d = c
    · subst hcd
      exact .inl (.answer r hc' hr ha)
    · obtain rfl := Side.eq_other_of_ne hcd
      refine .inr ⟨by simp [Link.called, Link.setEnd], ?_⟩
      simpa [Link.called, Link.setEnd] using Fifo.grows_push _ _
  | finish c hc' =>
    by_cases hcd : d = c
    · subst hcd
      exact .inl (.finish hc')
    · exact .inr ⟨by simp [Link.setEnd, hcd], .refl _⟩
  | deliver c n hn =>
    refine .inr ⟨rfl, ?_⟩
    by_cases hcd : d.other = c
    · subst hcd
      simpa [Link.delivered] using Fifo.grows_deliver _ n
    · simpa [Link.delivered, hcd] using Fifo.Grows.refl _

end Steps

/-! ## What a read waits for -/

section Waits

variable {L : (q : Call) → Answer q → Prop} {s : BufferedSocket}

theorem RecvCalls.not_waitall {s' : BufferedSocket} {evs : List Event} (h : RecvCalls s evs s') {size : Nat}
    {r : Answer (.recv size .waitall)} : (⟨.recv size .waitall, r⟩ : Event) ∉ evs := by
  intro hm
  rcases Nat.lt_or_ge s.inSize s.inCapacity with hlt | hge
  · obtain ⟨n, r', rfl⟩ := h.room hlt
    simp at hm
  · rw [h.full hge] at hm
    cases hm

/-- The blocking `recv` of a read asks for the bytes that are missing then. -/
theorem readInputBuffer_waits (hi : Inv s) (buffer : List UInt8) :
    Eff.Sat L (readInputBuffer buffer) s fun evs _ _ =>
      ∀ (pre : List Event) (size : Nat) (r : Answer (.recv size .waitall)) (post : List Event),
        evs = pre ++ ⟨.recv size .waitall, r⟩ :: post → (s.unread ++ taken pre).length + size = buffer.length := by
  refine (readInputBuffer_cases hi buffer).mono ?_
  rintro evs res s' - (⟨evs₁, evs₂, s₁, rfl, hfirst, hrest⟩ | ⟨e, hfirst, -⟩) pre size r post he
  · -- the call is not one of the first part, so that it is the one of the rest
    have hpre : pre = evs₁ ∧ evs₂ = ⟨.recv size .waitall, r⟩ :: post := by
      have hno := hfirst.calls.not_waitall (r := r)
      rcases List.append_eq_append_iff.1 he with ⟨as, rfl, h₂⟩ | ⟨bs, rfl, h₂⟩
      · cases as with
        | nil => exact ⟨List.append_nil _, h₂⟩
        | cons a as =>
          have hlen : evs₂.length ≤ 1 := by cases hrest <;> simp
          rw [h₂] at hlen
          simp only [List.cons_append, List.length_cons, List.length_append] at hlen
          omega
      · cases bs with
        | nil => exact ⟨(List.append_nil _).symm, h₂.symm⟩
        | cons b bs =>
          rw [List.cons_append, List.cons.injEq] at h₂
          exact absurd (by simp [h₂.1]) hno
    obtain ⟨rfl, rfl⟩ := hpre
    rw [← hfirst.unread]
    cases hrest with
    | waited _ hn _ => exact hn
    | failed _ hn _ => exact hn
  · exact absurd (by simp [he]) (hfirst.calls.not_waitall (r := r))

theorem get_waits (hi : Inv s) (x : Scalar) : Eff.Sat L (Op.get x).exec s fun evs _ _ =>
    ∀ (pre : List Event) (size : Nat) (r : Answer (.recv size .waitall)) (post : List Event),
      evs = pre ++ ⟨.recv size .waitall, r⟩ :: post → (s.unread ++ taken pre).length + size = x.width := by
  have hread : Eff.Sat L x.shr s fun evs _ _ =>
      ∀ (pre : List Event) (size : Nat) (r : Answer (.recv size .waitall)) (post : List Event),
        evs = pre ++ ⟨.recv size .waitall, r⟩ :: post → (s.unread ++ taken pre).length + size = x.width := by
    rw [x.shr_eq]
    refine (readInputBuffer_waits hi x.image).bind ?_ ?_
    · intro evs bs s' _ h
      rw [Eff.sat_pure, List.append_nil]
      simpa using h
    · intro evs e s' _ h
      simpa using h
  exact sat_map hread (fun _ _ _ h => h) fun _ _ _ h => h

/-- A write and a `flush` take nothing from the stream. -/
theorem follows_taken {plan : Side → Nat → Nat} {d : Side} {e : Endpoint} (hi : Inv s) {op : Op}
    (hop : op.Follows plan d e) (hget : ∀ x, op ≠ .get x) : Eff.Sat L op.exec s fun evs _ _ => taken evs = [] := by
  match op, hop with
  | .put (.scalar x), _ => exact (put_spec hi (.scalar x)).mono fun evs r s' _ h => h.kept.taken
  | .flush, _ => exact (flushOp_spec hi).mono fun evs r s' _ h => h.kept.taken
  | .get x, _ => exact absurd rfl (hget x)

end Waits

/-! ## What has been flushed is in the stream -/

theorem SideInv.flushed_le {plan : Side → Nat → Nat} {d : Side} {out inn : List UInt8} {e : Endpoint}
    (h : SideInv plan d out inn e) : e.flushed ≤ e.wrote.length := by
  cases h with
  | idle hc h => exact h.flushedLe
  | busy hc h => exact h.flushedLe

/-- How many bytes the first values of a stream take whose widths are `w`. -/
def extent (w : Nat → Nat) : Nat → Nat
  | 0 => 0
  | n + 1 => extent w n + w n

theorem extent_le (w : Nat → Nat) {m n : Nat} (h : m ≤ n) : extent w m ≤ extent w n := by
  induction n, h using Nat.le_induction with
  | base => exact Nat.le_refl _
  | succ n _ ih => exact ih.trans (Nat.le_add_right _ _)

theorem length_encodes {w : Nat → Nat} {xs : List Scalar}
    (h : ∀ (k : Nat) (x : Scalar), xs[k]? = some x → x.width = w k) :
    (xs.flatMap Scalar.encode).length = extent w xs.length := by
  induction xs using List.reverseRec with
  | nil => rfl
  | append_singleton xs x ih =>
    have hx : x.width = w xs.length := h _ _ (by simp)
    have hxs : (xs.flatMap Scalar.encode).length = extent w xs.length := ih fun k y hk => h k y (by
      rw [List.getElem?_append_left (List.getElem?_eq_some_iff.1 hk).1, hk])
    rw [flatMap_snoc, List.length_append, hxs, x.length_encode, hx, List.length_append]
    rfl

/-- What each side had written before its last `flush` has been sent. -/
def FlushedSent (l : Link) : Prop :=
  ∀ d, ((l.ends d).wrote.take (l.ends d).flushed).flatMap Scalar.encode <+: (l.streams d).sent

section Flushed

variable {plan : Side → Nat → Nat} {d : Side} {l l' : Link}

theorem init_flushedSent (i o : Side → Nat) (junk : (d : Side) → {bytes : List UInt8 // bytes.length = i d + o d}) :
    FlushedSent (.init i o junk) := fun _ => List.nil_prefix

/-- A step adds at the end of what each side has sent. -/
theorem linkStep_sent (h : LinkStep plan l l') (d : Side) : (l.streams d).sent <+: (l'.streams d).sent := by
  cases h with
  | start c op hc hop => exact List.prefix_rfl
  | finish c hc => exact List.prefix_rfl
  | deliver c n hn => by_cases hdc : d = c <;> simp [Link.delivered, hdc]
  | answer c r hc hr ha =>
    by_cases hdc : d = c
    · simp [Link.called, Link.setEnd, hdc]
    · obtain rfl := Side.eq_other_of_ne hdc
      simp [Link.called, Link.setEnd, Fifo.sent_pull ha]

theorem linkStep_flushedSent (h : LinkStep plan l l') (hi : LinkInv plan l) (hf : FlushedSent l) : FlushedSent l' := by
  intro d
  have hi' := linkStep_inv h hi d
  have hsent := linkStep_sent h d
  -- only a finished operation changes the histories
  suffices hs : ((l'.ends d).wrote.take (l'.ends d).flushed = (l.ends d).wrote.take (l.ends d).flushed) ∨
      (l'.ends d).flushed = (l'.ends d).wrote.length by
    rcases hs with hs | hs
    · rw [hs]; exact (hf d).trans hsent
    · simp only [hi'.sent_flushed hs, hs, List.take_length, List.prefix_rfl]
  have hle := (hi d).flushed_le
  cases h with
  | start c op hc hop => by_cases hdc : d = c <;> simp [Link.setEnd, hdc]
  | answer c r hc hr ha => by_cases hdc : d = c <;> simp [Link.called, Link.setEnd, hdc]
  | deliver c n hn => exact .inl rfl
  | @finish c op r s' hc =>
    by_cases hdc : d = c
    · subst hdc
      simp only [Link.setEnd, Function.update_self]
      cases op with
      | flush =>
        cases r with
        | error e => exact .inl rfl
        | ok v => exact .inr rfl
      | put i =>
        cases i with
        | scalar x =>
          cases r with
          | error e => exact .inl rfl
          | ok v => exact .inl (List.take_append_of_le_length hle)
        | cstr s | string s => exact .inl rfl
      | get x | getString c => exact .inl rfl
    · left
      simp [Link.setEnd, hdc]

/-- The values that a side had written before its last `flush` have been sent. -/
theorem FlushedSent.extent_le (hf : FlushedSent l) (hi : LinkInv plan l) {n : Nat} (hn : n ≤ (l.ends d).flushed) :
    extent (plan d) n ≤ (l.streams d).sent.length := by
  have hle := (hi d).flushed_le
  have hw : ∀ (k : Nat) (x : Scalar), ((l.ends d).wrote.take (l.ends d).flushed)[k]? = some x → x.width = plan d k := by
    intro k x hk
    rw [List.getElem?_take] at hk
    split at hk
    · exact (hi d).widths.1 k x hk
    · cases hk
  have hlen := (hf d).length_le
  rw [length_encodes hw, List.length_take, Nat.min_eq_left hle] at hlen
  exact (Buffered.extent_le _ hn).trans hlen

end Flushed

/-! ## What an operation needs -/

/-- The value that the operation is to read, if it reads one, has been sent. -/
def Supplied (plan : Side → Nat → Nat) (d : Side) (op : Op) (l : Link) : Prop :=
  (∃ x, op = .get x) → extent (plan d.other) ((l.ends d).read.length + 1) ≤ (l.streams d.other).sent.length

section Needs

variable {plan : Side → Nat → Nat} {d : Side} {l l' : Link} {op : Op}

/-- A blocking `recv` of a supplied operation asks for no more than has been sent. -/
theorem Supplied.waits (h : Supplied plan d op l) (hi : LinkInv plan l) {size : Nat}
    {k : Answer (.recv size .waitall) → Prog Call Answer (Except Exc (Option Value) × BufferedSocket)}
    (hc : (l.ends d).control = .busy op (.ask (.recv size .waitall) k)) :
    size ≤ (l.streams d.other).arrived.length + (l.streams d.other).inflight.length := by
  cases hi d with
  | idle hc' => rw [hc] at hc'; cases hc'
  | @busy op' rest hc' s out₀ inn₀ evs hend hop hs hl _ hinn =>
    obtain ⟨rfl, rfl⟩ := Control.busy.inj (hc.symm.trans hc')
    -- the operation goes on from here with an answer of as many bytes as it asks for
    let r : Answer (.recv size .waitall) := .ok ⟨List.replicate size 0, (List.length_replicate ..).le⟩
    have hr : Reliable (.recv size .waitall) r := List.length_replicate ..
    obtain ⟨evs', ⟨res, s'⟩, hrun, hl'⟩ := Prog.exists_runs exists_reliable (k r)
    have hruns := hs.runs (.ask r hrun)
    have hlegal : Prog.Legal Reliable (evs ++ ⟨.recv size .waitall, r⟩ :: evs') :=
      Prog.legal_append.2 ⟨hl, Prog.legal_cons.2 ⟨hr, hl'⟩⟩
    by_cases hget : ∃ x, op = .get x
    · obtain ⟨x, rfl⟩ := hget
      have hwaits := Eff.sat_iff_runs.1 (get_waits hend.inv x) _ res s' hruns hlegal evs size r evs' rfl
      have hwidth : x.width = plan d.other (l.ends d).read.length := hop
      have hread := length_encodes hend.readWidths
      have hsupplied := h ⟨x, rfl⟩
      have htaken := congrArg List.length hinn
      rw [hend.unread] at htaken
      simp only [List.length_append, Fifo.length_sent, extent] at hwaits htaken hsupplied
      omega
    · have htaken := Eff.sat_iff_runs.1 (follows_taken hend.inv hop fun x hx => hget ⟨x, hx⟩) _ res s' hruns hlegal
      have hzero : size = 0 := by
        simp only [taken_append, taken_cons, List.append_eq_nil_iff] at htaken
        simpa [r] using htaken.2.1
      omega

/-- An operation that has ended has succeeded, and a read has its value. -/
theorem SideInv.returns {out inn : List UInt8} {e : Endpoint} (h : SideInv plan d out inn e)
    {r : Except Exc (Option Value)} {s' : BufferedSocket} (hc : e.control = .busy op (.ret (r, s'))) :
    ∃ v, r = .ok v ∧ ∀ x, op = .get x → ∃ y, v = some (.scalar y) := by
  cases h with
  | idle hc' => rw [hc] at hc'; cases hc'
  | @busy op' rest hc' s out₀ inn₀ evs hend hop hs hl _ hinn =>
    obtain ⟨rfl, rfl⟩ := Control.busy.inj (hc.symm.trans hc')
    have hr := hs.runs (.ret (r, s'))
    rw [List.append_nil] at hr
    have hnot : ∀ e, ¬ Thrown evs e := fun e => Reliable.not_thrown hl
    match op, hop with
    | .put (.scalar x), _ =>
      have hp := Eff.sat_iff_runs.1 (put_spec hend.inv (.scalar x)) _ r s' hr hl
      cases r with
      | ok v => exact ⟨v, rfl, nofun⟩
      | error e => exact absurd (hp.error e rfl).2.2 (hnot e)
    | .flush, _ =>
      have hp := Eff.sat_iff_runs.1 (flushOp_spec hend.inv) _ r s' hr hl
      cases r with
      | ok v => exact ⟨v, rfl, nofun⟩
      | error e => exact absurd (hp.error e rfl).2.2 (hnot e)
    | .get x, _ =>
      have hp := Eff.sat_iff_runs.1 (get_spec hend.inv x) _ r s' hr hl
      cases r with
      | ok v =>
        obtain ⟨y, rfl, -, -⟩ := hp.ok v rfl
        exact ⟨_, rfl, fun _ _ => ⟨y, rfl⟩⟩
      | error e => exact absurd (hp.error e rfl).2 (hnot e)

end Needs

/-! ## Operations come to an end -/

/-- The side `d` is in its operation `op`, of which `p` is left, and has the histories of `e`. -/
structure Under (plan : Side → Nat → Nat) (d : Side) (e : Endpoint) (op : Op)
    (p : Prog Call Answer (Except Exc (Option Value) × BufferedSocket)) (l : Link) : Prop where
  ends : l.ends d = { e with control := .busy op p }
  supplied : Supplied plan d op l

section Under

variable {plan : Side → Nat → Nat} {d : Side} {e : Endpoint} {op : Op} {l l' : Link}
  {p : Prog Call Answer (Except Exc (Option Value) × BufferedSocket)}

theorem Under.control (h : Under plan d e op p l) : (l.ends d).control = .busy op p := by
  rw [h.ends]

theorem Under.kept (h : Under plan d e op p l) (he : l'.ends d = l.ends d)
    (hg : (l.streams d.other).Grows (l'.streams d.other)) : Under plan d e op p l' := by
  refine ⟨he.trans h.ends, fun hx => ?_⟩
  rw [he]
  exact (h.supplied hx).trans hg.sent.length_le

/-- A side moves by an answer to its call. -/
theorem Under.answered {q : Call} {k : Answer q → Prog Call Answer (Except Exc (Option Value) × BufferedSocket)}
    (h : Under plan d e op (.ask q k) l) (hm : Moves d l l') :
    ∃ r, Reliable q r ∧ Event.taken ⟨q, r⟩ <+: (l.streams d.other).arrived ∧ Under plan d e op (k r) l' := by
  cases hm with
  | answer r hc hr ha =>
    obtain ⟨rfl, hask⟩ := Control.busy.inj (h.control.symm.trans hc)
    cases hask
    refine ⟨r, hr, ha, by simp [Link.called, Link.setEnd, h.ends], fun hx => ?_⟩
    simpa [Link.called, Link.setEnd, Fifo.sent_pull ha] using h.supplied hx
  | finish hc =>
    have hask := (Control.busy.inj (h.control.symm.trans hc)).2
    cases hask

/-- A side whose operation is over moves by ending it. -/
theorem Under.finished {r : Except Exc (Option Value)} {s' : BufferedSocket} (h : Under plan d e op (.ret (r, s')) l)
    (hm : Moves d l l') : l'.ends d = e.finish op r s' := by
  cases hm with
  | answer r hc hr ha =>
    have hret := (Control.busy.inj (h.control.symm.trans hc)).2
    cases hret
  | finish hc =>
    obtain ⟨rfl, hret⟩ := Control.busy.inj (h.control.symm.trans hc)
    cases hret
    rw [h.ends]
    simp [Link.setEnd, Endpoint.finish]

end Under

section Leads

variable {plan : Side → Nat → Nat} {d : Side} {e : Endpoint} {op : Op} {b : Nat → Link}
  (hb : Fair.Behaves (LinkStep plan) b) (hi : ∀ n, LinkInv plan (b n))

include hb hi

/-- A blocking `recv` gets the bytes that it waits for. -/
theorem waits_arrive (hnet : Fair.Weak (Arrives d.other) b) (size : Nat)
    (k : Answer (.recv size .waitall) → Prog Call Answer (Except Exc (Option Value) × BufferedSocket)) :
    Fair.LeadsTo b (Under plan d e op (.ask (.recv size .waitall) k)) fun l =>
      Under plan d e op (.ask (.recv size .waitall) k) l ∧ size ≤ (l.streams d.other).arrived.length := by
  refine .of_rank (fun l => size - (l.streams d.other).arrived.length) fun n => ?_
  rcases Nat.eq_zero_or_pos n with rfl | hpos
  · exact .of_imp fun l ⟨hu, hr⟩ => .inl ⟨hu, by omega⟩
  · refine .ensures hb hi hnet ?_ ?_ ?_
    · rintro l l' - - hs ⟨hu, hr⟩
      rcases hs.cases_busy hu.control with hm | ⟨he, hg⟩
      · -- there is no answer yet
        obtain ⟨r, hr', ha, -⟩ := hu.answered hm
        have hlen := ha.length_le
        cases r with
        | ok bs =>
          have hfull : bs.1.length = size := hr'
          rw [Event.taken_ok, hfull] at hlen
          omega
        | error e => exact hr'.elim
      · have hle := hg.arrived.length_le
        have hu' := hu.kept he hg
        by_cases heq : (l.streams d.other).arrived.length = (l'.streams d.other).arrived.length
        · exact .inl ⟨hu', by omega⟩
        · exact .inr (.inr ⟨hu', by omega⟩)
    · rintro l l' - - ⟨m, hm⟩ ⟨hu, hr⟩
      have hg : (l.streams d.other).Grows ((l.delivered d.other m).streams d.other) := by
        simpa [Link.delivered] using Fifo.grows_deliver _ m
      have hlen : ((l.delivered d.other m).streams d.other).arrived.length =
          (l.streams d.other).arrived.length + m := by
        simp [Link.delivered, Fifo.deliver, hm.2]
      exact .inr ⟨hu.kept rfl hg, by omega⟩
    · rintro l hl ⟨hu, hr⟩
      have hw := hu.supplied.waits hl hu.control
      exact ⟨_, .mk (l.streams d.other).inflight.length ⟨by omega, Nat.le_refl _⟩⟩

/-- A call that the kernel can answer is answered. -/
theorem answer_comes (hown : Fair.Weak (Moves d) b) (q : Call)
    (k : Answer q → Prog Call Answer (Except Exc (Option Value) × BufferedSocket)) :
    Fair.LeadsTo b (fun l => Under plan d e op (.ask q k) l ∧
        ∃ r, Reliable q r ∧ Event.taken ⟨q, r⟩ <+: (l.streams d.other).arrived) fun l =>
      ∃ r, Under plan d e op (k r) l := by
  refine .ensures hb hi hown ?_ ?_ ?_
  · rintro l l' - - hs ⟨hu, r, hr, ha⟩
    rcases hs.cases_busy hu.control with hm | ⟨he, hg⟩
    · obtain ⟨r', -, -, hu'⟩ := hu.answered hm
      exact .inr ⟨r', hu'⟩
    · exact .inl ⟨hu.kept he hg, r, hr, ha.trans hg.arrived⟩
  · rintro l l' - - hm ⟨hu, -⟩
    obtain ⟨r', -, -, hu'⟩ := hu.answered hm
    exact ⟨r', hu'⟩
  · rintro l - ⟨hu, r, hr, ha⟩
    exact ⟨_, .answer r hu.control hr ha⟩

theorem call_returns (hown : Fair.Weak (Moves d) b) (hnet : Fair.Weak (Arrives d.other) b) (q : Call)
    (k : Answer q → Prog Call Answer (Except Exc (Option Value) × BufferedSocket)) :
    Fair.LeadsTo b (Under plan d e op (.ask q k)) fun l => ∃ r, Under plan d e op (k r) l := by
  match q, k with
  | .send buffer, k =>
    obtain ⟨r, hr⟩ := exists_reliable (.send buffer)
    exact (Fair.LeadsTo.of_imp fun l hu => ⟨hu, r, hr, List.nil_prefix⟩).trans (answer_comes hb hi hown _ _)
  | .recv size .dontwait, k =>
    exact (Fair.LeadsTo.of_imp fun l hu => ⟨hu, .error EAGAIN, .inl rfl, List.nil_prefix⟩).trans (answer_comes hb hi hown _ _)
  | .recv size .waitall, k =>
    refine ((waits_arrive hb hi hnet size k).trans (.of_imp ?_)).trans (answer_comes hb hi hown _ _)
    rintro l ⟨hu, hle⟩
    refine ⟨hu, .ok ⟨(l.streams d.other).arrived.take size, List.length_take_le _ _⟩, ?_, List.take_prefix _ _⟩
    show ((l.streams d.other).arrived.take size).length = size
    rw [List.length_take, Nat.min_eq_left hle]

theorem return_ends (hown : Fair.Weak (Moves d) b) (r : Except Exc (Option Value)) (s' : BufferedSocket) :
    Fair.LeadsTo b (Under plan d e op (.ret (r, s'))) fun l =>
      ∃ v s', l.ends d = e.finish op (.ok v) s' ∧ ∀ x, op = .get x → ∃ y, v = some (.scalar y) := by
  have hends : ∀ l l', LinkInv plan l → Moves d l l' → Under plan d e op (.ret (r, s')) l →
      ∃ v s', l'.ends d = e.finish op (.ok v) s' ∧ ∀ x, op = .get x → ∃ y, v = some (.scalar y) := by
    intro l l' hl hm hu
    obtain ⟨v, rfl, hv⟩ := (hl d).returns hu.control
    exact ⟨v, s', hu.finished hm, hv⟩
  refine .ensures hb hi hown ?_ (fun l l' hl _ hm hu => hends l l' hl hm hu) fun l _ hu => ⟨_, .finish hu.control⟩
  intro l l' hl _ hs hu
  rcases hs.cases_busy hu.control with hm | ⟨he, hg⟩
  · exact .inr (hends l l' hl hm hu)
  · exact .inl (hu.kept he hg)

/-- By induction on what is left of the operation. -/
theorem operation_ends (hown : Fair.Weak (Moves d) b) (hnet : Fair.Weak (Arrives d.other) b)
    (p : Prog Call Answer (Except Exc (Option Value) × BufferedSocket)) :
    Fair.LeadsTo b (Under plan d e op p) fun l =>
      ∃ v s', l.ends d = e.finish op (.ok v) s' ∧ ∀ x, op = .get x → ∃ y, v = some (.scalar y) := by
  induction p with
  | ret a => exact return_ends hb hi hown a.1 a.2
  | ask q k ih => exact (call_returns hb hi hown hnet q k).trans (.exists ih)

end Leads

/-! ## Playing a behaviour -/

namespace Link

/-- The behaviour that follows the cues and then stays where it is. -/
def script (plan : Side → Nat → Nat) (l : Link) : List LinkCue → Nat → Link
  | _, 0 => l
  | [], _ + 1 => l
  | c :: cs, n + 1 => script plan (l.next plan c) cs n

section Script

variable {plan : Side → Nat → Nat} {d : Side}

@[simp] theorem script_zero (l : Link) (cs : List LinkCue) : l.script plan cs 0 = l := by
  cases cs <;> rfl

theorem script_behaves : ∀ (cs : List LinkCue) (l : Link), Fair.Behaves (LinkStep plan) (l.script plan cs)
  | [], _, n => .inr (by cases n <;> rfl)
  | c :: cs, l, 0 => by
    have h := @next_step plan l c
    simpa [script] using h
  | c :: cs, l, n + 1 => script_behaves cs (l.next plan c) n

theorem script_stays : ∀ (cs : List LinkCue) (l : Link) {n : Nat}, cs.length ≤ n →
    l.script plan cs n = l.script plan cs cs.length
  | [], _, 0, _ => rfl
  | [], _, _ + 1, _ => rfl
  | _ :: cs, l, _ + 1, h => script_stays cs (l.next plan _) (Nat.le_of_succ_le_succ h)

/-- An action that is not enabled in the last state is taken often enough. -/
theorem script_weak {cs : List LinkCue} {l : Link} {act : Link → Link → Prop}
    (h : ∀ l', ¬ act (l.script plan cs cs.length) l') : Fair.Weak act (l.script plan cs) := by
  intro n hn
  obtain ⟨l', hl⟩ := hn (n + cs.length) (Nat.le_add_right _ _)
  rw [script_stays cs l (Nat.le_add_left _ _)] at hl
  exact absurd hl (h l')

end Script

end Link

/-! ## Completion -/

/-- A behaviour of two new objects, with room in their output buffers for a value of any fixed width. -/
structure Behaviour (plan : Side → Nat → Nat) (b : Nat → Link) : Prop where
  init : ∃ (i o : Side → Nat) (junk : (d : Side) → {bytes : List UInt8 // bytes.length = i d + o d}),
    (∀ d, 8 < o d) ∧ b 0 = .init i o junk
  steps : Fair.Behaves (LinkStep plan) b

/-- The side `d` goes on when it can, and what is on its way to it arrives. A `send` can always be answered,
so that the kernel answers each in the end, however much of it the other side has not read. -/
structure FairTo (d : Side) (b : Nat → Link) : Prop where
  own : Fair.Weak (Moves d) b
  net : Fair.Weak (Arrives d.other) b

section Completion

variable {plan : Side → Nat → Nat} {b : Nat → Link} {d : Side}

theorem Behaviour.inv (h : Behaviour plan b) : ∀ n, LinkInv plan (b n) ∧ FlushedSent (b n) := by
  obtain ⟨i, o, junk, ho, h0⟩ := h.init
  refine h.steps.always (P := fun l => LinkInv plan l ∧ FlushedSent l) ?_ fun l l' hs hl =>
    ⟨linkStep_inv hs hl.1, linkStep_flushedSent hs hl.1 hl.2⟩
  rw [h0]
  exact ⟨init_inv i o junk ho, init_flushedSent i o junk⟩

/-- A side has not read more values than the other has written. -/
theorem LinkInv.read_le {l : Link} (hi : LinkInv plan l) (d : Side) :
    (l.ends d.other).read.length ≤ (l.ends d).wrote.length := by
  have hr := hi d.other
  rw [Side.other_other] at hr
  have hwidths := hr.widths.2
  rw [Side.other_other] at hwidths
  have hbytes := ((hr.read_le.trans (l.streams d).taken_le).trans (hi d).sent_le).length_le
  rw [length_encodes hwidths, length_encodes (hi d).widths.1] at hbytes
  by_contra hlt
  push Not at hlt
  -- the value read after as many as were written takes a byte at least
  have hpos := (l.ends d.other).read[(l.ends d).wrote.length].width_pos
  rw [hwidths _ _ (List.getElem?_eq_getElem hlt)] at hpos
  have hle := extent_le (plan d) (Nat.succ_le_of_lt hlt)
  simp only [extent] at hle
  omega

/-- Every operation under way comes to an end and succeeds, whatever the other side does: a write and a
`flush` always, a read if the other side has flushed the value. -/
theorem link_completes (h : Behaviour plan b) (hf : FairTo d b) (n : Nat) {op : Op}
    (hc : ((b n).ends d).control.op = some op)
    (hread : (∃ x, op = .get x) → ((b n).ends d).read.length < ((b n).ends d.other).flushed) :
    ∃ m, n ≤ m ∧ ∃ v s', (b m).ends d = ((b n).ends d).finish op (.ok v) s' ∧
      ∀ x, op = .get x → ∃ y, v = some (.scalar y) := by
  obtain ⟨rest, hc⟩ := Control.exists_busy hc
  have hsupplied : Supplied plan d op (b n) := fun hx => (h.inv n).2.extent_le (h.inv n).1 (hread hx)
  exact operation_ends h.steps (fun n => (h.inv n).1) hf.own hf.net rest n ⟨by rw [← hc], hsupplied⟩

/-- The right side begins to read a number, which the left side then writes and flushes. -/
def exchange : Nat → Link :=
  (Link.init (fun _ => 4) (fun _ => 9) fun _ => ⟨List.replicate 13 7, rfl⟩).script (fun _ _ => 2)
    [.start .right (.get (.i16 0)), .start .left (.put (.scalar (.u16 258))), .go .right, .go .left,
      .start .left .flush, .go .left, .go .left, .deliver .left, .go .right, .go .right]

theorem exchange_behaviour : Behaviour (fun _ _ => 2) exchange :=
  ⟨⟨fun _ => 4, fun _ => 9, fun _ => ⟨List.replicate 13 7, rfl⟩, fun _ => Nat.lt_succ_self 8, rfl⟩,
    Link.script_behaves _ _⟩

/-- After the `flush`, the read that waits for the number ends. -/
theorem link_completes_one : ∃ m, 7 ≤ m ∧ ∃ v s',
    (exchange m).ends .right = ((exchange 7).ends .right).finish (.get (.i16 0)) (.ok v) s' ∧
    ∀ x, Op.get (.i16 0) = .get x → ∃ y, v = some (.scalar y) := by
  have hidle : ((exchange 10).ends .right).control.op = none := by decide +kernel
  have hempty : ((exchange 10).streams .left).inflight = [] := by decide +kernel
  refine link_completes exchange_behaviour ⟨Link.script_weak fun l' hm => not_moves hidle hm, Link.script_weak ?_⟩ 7
    (by decide +kernel) fun _ => by decide +kernel
  rintro l' ⟨n, hn⟩
  have hle : 0 < n ∧ n ≤ ((exchange 10).streams .left).inflight.length := hn
  rw [hempty, List.length_nil] at hle
  omega

/-- When both sides flush what they wrote before they read, and both are reading for ever, each has read
all that the other wrote. -/
theorem link_stuck (h : Behaviour plan b) (hf : ∀ d, FairTo d b)
    (hflush : ∀ m d x, ((b m).ends d).control.op = some (.get x) → ((b m).ends d).flushed = ((b m).ends d).wrote.length)
    {n : Nat} (hstuck : ∀ m, n ≤ m → ∀ d, ∃ x, ((b m).ends d).control.op = some (.get x)) (d : Side) :
    ((b n).ends d.other).read.length = ((b n).ends d).wrote.length := by
  refine Nat.le_antisymm ((h.inv n).1.read_le d) ?_
  by_contra hlt
  push Not at hlt
  obtain ⟨x, hx⟩ := hstuck n (Nat.le_refl n) d.other
  obtain ⟨y, hy⟩ := hstuck n (Nat.le_refl n) d
  -- the other side has flushed a value that is still to be read, so that this read would end
  have hread : ((b n).ends d.other).read.length < ((b n).ends d.other.other).flushed := by
    rw [Side.other_other, hflush n d y hy]
    exact hlt
  have hsupplied : Supplied plan d.other (.get x) (b n) := fun _ => (h.inv n).2.extent_le (h.inv n).1 hread
  obtain ⟨rest, hc⟩ := Control.exists_busy hx
  obtain ⟨m, hm, v, s', hends, -⟩ :=
    operation_ends h.steps (fun n => (h.inv n).1) (hf d.other).own (hf d.other).net rest n ⟨by rw [← hc], hsupplied⟩
  obtain ⟨z, hz⟩ := hstuck m hm d.other
  rw [hends] at hz
  cases hz

/-- After the right side has read a number of the left side, both begin to read what the other never writes. -/
def standoff : Nat → Link :=
  (Link.init (fun _ => 0) (fun _ => 9) fun _ => ⟨List.replicate 9 7, rfl⟩).script (fun _ _ => 2)
    [.start .right (.get (.i16 0)), .start .left (.put (.scalar (.u16 258))), .go .left, .start .left .flush, .go .left,
      .go .left, .deliver .left, .go .right, .go .right, .start .left (.get (.i16 0)), .start .right (.get (.i16 0))]

theorem standoff_stays {m : Nat} (hm : 11 ≤ m) : standoff m = standoff 11 := Link.script_stays _ _ hm

theorem standoff_flushed : ∀ m d, ((standoff m).ends d).flushed = ((standoff m).ends d).wrote.length ∨
    ((standoff m).ends d).control.op = none ∨ ((standoff m).ends d).control.op = some .flush
  | 0, d | 1, d | 2, d | 3, d | 4, d | 5, d | 6, d | 7, d | 8, d | 9, d | 10, d => by cases d <;> decide +kernel
  | m + 11, d => by
    rw [standoff_stays (Nat.le_add_left 11 m)]
    cases d <;> decide +kernel

theorem link_stuck_both : ((standoff 11).ends .right).read.length = ((standoff 11).ends .left).wrote.length ∧
    ((standoff 11).ends .left).read.length = ((standoff 11).ends .right).wrote.length := by
  have hwaits : ∀ d, ((standoff 11).ends d).control.awaits = some 2 := fun d => by cases d <;> decide +kernel
  have harrived : ∀ d, ((standoff 11).streams d).arrived = [] := fun d => by cases d <;> decide +kernel
  have hinflight : ∀ d, ((standoff 11).streams d).inflight = [] := fun d => by cases d <;> decide +kernel
  have hbehaves : Behaviour (fun _ _ => 2) standoff :=
    ⟨⟨fun _ => 0, fun _ => 9, fun _ => ⟨List.replicate 9 7, rfl⟩, fun _ => Nat.lt_succ_self 8, rfl⟩,
      Link.script_behaves _ _⟩
  have hfair : ∀ d, FairTo d standoff := by
    refine fun d => ⟨Link.script_weak fun l' => ?_, Link.script_weak ?_⟩
    · have hlt : ((standoff 11).streams d.other).arrived.length < 2 := by rw [harrived]; exact Nat.two_pos
      exact not_moves_of_awaits (hwaits d) hlt
    · rintro l' ⟨n, hn⟩
      have hle : 0 < n ∧ n ≤ ((standoff 11).streams d.other).inflight.length := hn
      rw [hinflight, List.length_nil] at hle
      omega
  have hflush : ∀ m d x, ((standoff m).ends d).control.op = some (.get x) →
      ((standoff m).ends d).flushed = ((standoff m).ends d).wrote.length := by
    intro m d x hx
    rcases standoff_flushed m d with h | h | h
    · exact h
    · cases h.symm.trans hx
    · cases h.symm.trans hx
  have hstuck : ∀ m, 11 ≤ m → ∀ d, ∃ x, ((standoff m).ends d).control.op = some (.get x) := by
    intro m hm d
    rw [standoff_stays hm]
    exact ⟨.i16 0, by cases d <;> decide +kernel⟩
  exact ⟨link_stuck hbehaves hfair hflush hstuck .left, link_stuck hbehaves hfair hflush hstuck .right⟩

end Completion

end Fdcpp.Buffered
