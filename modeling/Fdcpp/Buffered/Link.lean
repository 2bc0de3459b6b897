/-
Two `buffered_socket`s joined by a reliable byte stream in each direction. Each side runs one
operation at a time, one system call after the other, while the network delivers chunks and the
other side goes on; a blocking `recv` has no step until its bytes have arrived. The invariant says
of each side what its object held when the operation began, and follows the operation through the
calls it has made; what an operation does is then what it is specified to do.
-/
import Fdcpp.Buffered.Session
import Fdcpp.Lib.Fifo
import Mathlib.Logic.Relation

namespace Fdcpp.Buffered

open Bytes

/-! ## The system -/

inductive Side
  | left | right
  deriving DecidableEq, Repr

def Side.other : Side → Side
  | left => right
  | right => left

@[simp] theorem Side.other_other : ∀ d : Side, d.other.other = d
  | left => rfl
  | right => rfl

@[simp] theorem Side.other_ne : ∀ d : Side, d.other ≠ d
  | left => nofun
  | right => nofun

theorem Side.eq_other_of_ne : ∀ {c d : Side}, c ≠ d → c = d.other
  | left, right, _ => rfl
  | right, left, _ => rfl
  | left, left, h => absurd rfl h
  | right, right, h => absurd rfl h

/-- What a side is doing: nothing, or an operation of which `rest` is left. -/
inductive Control
  | idle (obj : BufferedSocket)
  | busy (op : Op) (rest : Prog Call Answer (Except Exc (Option Value) × BufferedSocket))

/-- A side and its history: the values written and read, and how many of those written its last
completed `flush` came after. -/
structure Endpoint where
  control : Control
  wrote : List Scalar
  read : List Scalar
  flushed : Nat

/-- The sides, and the stream that each of them writes to. -/
structure Link where
  ends : Side → Endpoint
  streams : Side → Fifo UInt8

/-- The histories after an operation with the result `r`, which left the object `s'`. -/
def Endpoint.finish (e : Endpoint) (op : Op) (r : Except Exc (Option Value)) (s' : BufferedSocket) : Endpoint where
  control := .idle s'
  wrote := match op, r with
    | .put (.scalar x), .ok _ => e.wrote ++ [x]
    | _, _ => e.wrote
  read := match r with
    | .ok (some (.scalar y)) => e.read ++ [y]
    | _ => e.read
  flushed := match op, r with
    | .flush, .ok _ => e.wrote.length
    | _, _ => e.flushed

/-- The widths of the values that each side writes: the next value written has the next width of
its stream, and so has the next value that the other side reads. -/
def Op.Follows (plan : Side → Nat → Nat) (d : Side) (e : Endpoint) : Op → Prop
  | .put (.scalar x) => x.width = plan d e.wrote.length
  | .flush => True
  | .get x => x.width = plan d.other e.read.length
  | _ => False

namespace Link

/-- Two new objects. -/
def init (i o : Side → Nat) (junk : (d : Side) → {bytes : List UInt8 // bytes.length = i d + o d}) : Link where
  ends d := ⟨.idle (.make (i d) (o d) (junk d).1), [], [], 0⟩
  streams _ := .empty

def setEnd (l : Link) (d : Side) (e : Endpoint) : Link := { l with ends := Function.update l.ends d e }

/-- The streams after a call of the side `d`. -/
def called (l : Link) (d : Side) (ev : Event) : Link :=
  { l with streams := fun c => if c = d then (l.streams c).push ev.sent else (l.streams c).pull ev.taken }

def delivered (l : Link) (d : Side) (n : Nat) : Link :=
  { l with streams := Function.update l.streams d ((l.streams d).deliver n) }

end Link

/-- One step of the system: a side begins an operation, the kernel answers a call, an operation
ends, or a chunk arrives. The streams have no bound: a `send` that waits for room is one that has not
been answered yet. -/
inductive LinkStep (plan : Side → Nat → Nat) : Link → Link → Prop
  | start {l : Link} (d : Side) {s : BufferedSocket} (op : Op) (hc : (l.ends d).control = .idle s)
      (hop : op.Follows plan d (l.ends d)) :
      LinkStep plan l (l.setEnd d { l.ends d with control := .busy op (op.exec.prog s) })
  | answer {l : Link} (d : Side) {op : Op} {q : Call}
      {k : Answer q → Prog Call Answer (Except Exc (Option Value) × BufferedSocket)} (r : Answer q)
      (hc : (l.ends d).control = .busy op (.ask q k)) (hr : Reliable q r)
      (ha : Event.taken ⟨q, r⟩ <+: (l.streams d.other).arrived) :
      LinkStep plan l ((l.setEnd d { l.ends d with control := .busy op (k r) }).called d ⟨q, r⟩)
  | finish {l : Link} (d : Side) {op : Op} {r : Except Exc (Option Value)} {s' : BufferedSocket}
      (hc : (l.ends d).control = .busy op (.ret (r, s'))) :
      LinkStep plan l (l.setEnd d ((l.ends d).finish op r s'))
  | deliver {l : Link} (d : Side) (n : Nat) (hn : 0 < n ∧ n ≤ (l.streams d).inflight.length) :
      LinkStep plan l (l.delivered d n)

/-! ## Operations between two fixed-width streams -/

section Op

variable {plan : Side → Nat → Nat} {d : Side} {e : Endpoint} {s : BufferedSocket}

/-- A side between two operations, when `out` is all that it has sent and `inn` all that it has
taken: the first is short of what was written by the pending output, the second exceeds what was
read by the unread input. -/
structure EndInv (plan : Side → Nat → Nat) (d : Side) (e : Endpoint) (s : BufferedSocket) (out inn : List UInt8) :
    Prop where
  inv : Inv s
  room : 8 < s.outCapacity
  written : out ++ s.pending = e.wrote.flatMap Scalar.encode
  unread : inn = e.read.flatMap Scalar.encode ++ s.unread
  wroteWidths : ∀ (k : Nat) (x : Scalar), e.wrote[k]? = some x → x.width = plan d k
  readWidths : ∀ (k : Nat) (y : Scalar), e.read[k]? = some y → y.width = plan d.other k
  flushed : e.flushed = e.wrote.length → s.pending = []
  flushedLe : e.flushed ≤ e.wrote.length

/-- A value of a fixed width finds room in the output buffer. -/
theorem PutOk.scalar {s' : BufferedSocket} {x : Scalar} {out : List UInt8} (h : PutOk s x.encode s' out)
    (hroom : 8 < s.outCapacity) :
    (out = [] ∧ s'.pending = s.pending ++ x.encode) ∨ (out = s.pending ∧ s'.pending = x.encode) := by
  have hw := x.width_le
  rwa [PutOk, if_neg (by rw [x.length_encode]; omega)] at h

/-- An operation sends a part of the pending output and nothing else. -/
theorem follows_sent (hi : Inv s) (hroom : 8 < s.outCapacity) {op : Op} (hop : op.Follows plan d e) :
    Eff.Sat Reliable op.exec s fun evs _ _ => sent evs <+: s.pending := by
  match op, hop with
  | .put (.scalar x), _ =>
    refine (put_spec hi (.scalar x)).mono fun evs r s' _ h => ?_
    have hw := x.width_le
    have hshort : ¬ s.outCapacity ≤ (Item.scalar x).encode.length := by
      show ¬ s.outCapacity ≤ x.encode.length
      rw [x.length_encode]; omega
    cases r with
    | ok v =>
      rcases PutOk.scalar (h.ok v rfl).2 hroom with ⟨hout, -⟩ | ⟨hout, -⟩
      · exact hout ▸ List.nil_prefix
      · exact hout ▸ List.prefix_rfl
    | error e =>
      have hpre := (h.error e rfl).2.1
      rwa [if_neg hshort] at hpre
  | .flush, _ =>
    refine (flushOp_spec hi).mono fun evs r s' _ h => ?_
    cases r with
    | ok v => exact (h.ok v rfl).2.1 ▸ List.prefix_rfl
    | error e => exact (h.error e rfl).2.1
  | .get x, _ => exact (get_spec hi x).mono fun evs r s' _ h => h.kept.sent ▸ List.nil_prefix

/-- The next value of a history has the next width. -/
theorem widths_snoc {w : Nat → Nat} {xs : List Scalar} {x : Scalar}
    (h : ∀ (k : Nat) (y : Scalar), xs[k]? = some y → y.width = w k) (hx : x.width = w xs.length) :
    ∀ (k : Nat) (y : Scalar), (xs ++ [x])[k]? = some y → y.width = w k := by
  intro k y hy
  rcases lt_or_ge k xs.length with hk | hk
  · rw [List.getElem?_append_left hk] at hy
    exact h k y hy
  · rw [List.getElem?_append_right hk] at hy
    obtain ⟨hlt, hy⟩ := List.getElem?_eq_some_iff.1 hy
    rw [List.length_singleton] at hlt
    simp only [List.getElem_singleton] at hy
    rw [← hy, hx, show k = xs.length by omega]

theorem flatMap_snoc (xs : List Scalar) (x : Scalar) :
    (xs ++ [x]).flatMap Scalar.encode = xs.flatMap Scalar.encode ++ x.encode := by simp

/-- A finished `operator<<` of a value, which is pending or has been sent. -/
theorem EndInv.put {out inn : List UInt8} (h : EndInv plan d e s out inn) {x : Scalar}
    (hx : x.width = plan d e.wrote.length) :
    Eff.Sat Reliable (Op.put (.scalar x)).exec s fun evs r s' =>
      EndInv plan d (e.finish (.put (.scalar x)) r s') s' (out ++ sent evs) (inn ++ taken evs) := by
  refine (put_spec h.inv (.scalar x)).mono fun evs r s' hl hp => ?_
  cases r with
  | error err => exact absurd (hp.error err rfl).2.2 (Reliable.not_thrown hl)
  | ok v =>
    obtain ⟨rfl, hput⟩ := hp.ok v rfl
    have hle := h.flushedLe
    have hwritten : out ++ sent evs ++ s'.pending = (e.wrote ++ [x]).flatMap Scalar.encode := by
      rw [flatMap_snoc, ← h.written]
      rcases PutOk.scalar hput h.room with ⟨hout, hpend⟩ | ⟨hout, hpend⟩
      · rw [hout, hpend, List.append_nil, List.append_assoc]
      · rw [hout, hpend]
    exact {
      inv := hp.inv
      room := hp.kept.outCapacity ▸ h.room
      written := hwritten
      unread := by rw [hp.kept.taken, List.append_nil, hp.kept.unread]; exact h.unread
      wroteWidths := widths_snoc h.wroteWidths hx
      readWidths := h.readWidths
      -- the last `flush` came before this value
      flushed := fun hf => by
        have hlen : e.flushed = e.wrote.length + 1 := by simpa [Endpoint.finish] using hf
        omega
      flushedLe := by
        simp only [Endpoint.finish, List.length_append]
        omega }

/-- A finished `flush`, after which nothing is pending. -/
theorem EndInv.flush {out inn : List UInt8} (h : EndInv plan d e s out inn) :
    Eff.Sat Reliable Op.flush.exec s fun evs r s' =>
      EndInv plan d (e.finish .flush r s') s' (out ++ sent evs) (inn ++ taken evs) := by
  refine (flushOp_spec h.inv).mono fun evs r s' hl hp => ?_
  cases r with
  | error err => exact absurd (hp.error err rfl).2.2 (Reliable.not_thrown hl)
  | ok v =>
    obtain ⟨rfl, hout, hpend⟩ := hp.ok v rfl
    exact {
      inv := hp.inv
      room := hp.kept.outCapacity ▸ h.room
      written := by rw [hout, hpend, List.append_nil]; exact h.written
      unread := by rw [hp.kept.taken, List.append_nil, hp.kept.unread]; exact h.unread
      wroteWidths := h.wroteWidths
      readWidths := h.readWidths
      flushed := fun _ => hpend
      flushedLe := Nat.le_refl _ }

/-- A finished `operator>>` of a value, which was the first of the unread input. -/
theorem EndInv.get {out inn : List UInt8} (h : EndInv plan d e s out inn) {x : Scalar}
    (hx : x.width = plan d.other e.read.length) :
    Eff.Sat Reliable (Op.get x).exec s fun evs r s' =>
      EndInv plan d (e.finish (.get x) r s') s' (out ++ sent evs) (inn ++ taken evs) := by
  refine (get_spec h.inv x).mono fun evs r s' hl hp => ?_
  cases r with
  | error err => exact absurd (hp.error err rfl).2 (Reliable.not_thrown hl)
  | ok v =>
    obtain ⟨y, rfl, hty, hy⟩ := hp.ok v rfl
    have hbytes := hy.resolve_right fun h => Reliable.not_shortWait hl h.1
    have hwidth : y.width = plan d.other e.read.length := by rw [← hx, Scalar.width, Scalar.width, hty]
    exact {
      inv := hp.inv
      room := hp.kept.outCapacity ▸ h.room
      written := by rw [hp.kept.sent, List.append_nil, hp.kept.pending]; exact h.written
      unread := by
        show _ = (e.read ++ [y]).flatMap Scalar.encode ++ s'.unread
        rw [flatMap_snoc, h.unread, List.append_assoc, hbytes, List.append_assoc]
      wroteWidths := h.wroteWidths
      readWidths := widths_snoc h.readWidths hwidth
      flushed := fun hf => hp.kept.pending.trans (h.flushed hf)
      flushedLe := h.flushedLe }

/-- A finished operation leaves the side between two operations. -/
theorem EndInv.finish {out inn : List UInt8} (h : EndInv plan d e s out inn) {op : Op} (hop : op.Follows plan d e) :
    Eff.Sat Reliable op.exec s fun evs r s' =>
      EndInv plan d (e.finish op r s') s' (out ++ sent evs) (inn ++ taken evs) := by
  match op, hop with
  | .put (.scalar x), hop => exact h.put hop
  | .flush, _ => exact h.flush
  | .get x, hop => exact h.get hop

end Op

/-! ## The invariant of the system -/

/-- The invariant of a side, which has sent `out` and taken `inn` in all. In an operation, `s`, `out₀` and `inn₀`
are what there was at its beginning, and `evs` its calls so far. -/
inductive SideInv (plan : Side → Nat → Nat) (d : Side) (out inn : List UInt8) : Endpoint → Prop
  | idle {e : Endpoint} {s : BufferedSocket} (hc : e.control = .idle s) (h : EndInv plan d e s out inn) :
      SideInv plan d out inn e
  | busy {e : Endpoint} {op : Op} {rest : Prog Call Answer (Except Exc (Option Value) × BufferedSocket)}
      (hc : e.control = .busy op rest) {s : BufferedSocket} {out₀ inn₀ : List UInt8} {evs : List Event}
      (h : EndInv plan d e s out₀ inn₀) (hop : op.Follows plan d e) (hs : (op.exec.prog s).Steps evs rest)
      (hl : Prog.Legal Reliable evs) (hout : out = out₀ ++ sent evs) (hinn : inn = inn₀ ++ taken evs) :
      SideInv plan d out inn e

section System

variable {plan : Side → Nat → Nat} {d : Side} {e : Endpoint} {out inn : List UInt8}

/-- An operation under way has sent a part of what was pending when it began. -/
theorem sent_pending {s : BufferedSocket} {op : Op} {evs : List Event}
    {rest : Prog Call Answer (Except Exc (Option Value) × BufferedSocket)} (hi : Inv s) (hroom : 8 < s.outCapacity)
    (hop : op.Follows plan d e) (hs : (op.exec.prog s).Steps evs rest) (hl : Prog.Legal Reliable evs) :
    sent evs <+: s.pending := by
  -- the operation could end from here, and then it would have sent no more than that
  obtain ⟨evs', ⟨r, s'⟩, hr, hl'⟩ := Prog.exists_runs exists_reliable rest
  have hpre := Eff.sat_iff_runs.1 (follows_sent hi hroom hop) _ r s' (hs.runs hr) (Prog.legal_append.2 ⟨hl, hl'⟩)
  rw [sent_append] at hpre
  exact (List.prefix_append _ _).trans hpre

/-- A side has sent a prefix of the encodings of what it wrote. -/
theorem SideInv.sent_le (h : SideInv plan d out inn e) : out <+: e.wrote.flatMap Scalar.encode := by
  cases h with
  | idle hc h => exact ⟨_, h.written⟩
  | busy hc h hop hs hl hout _ =>
    rw [hout, ← h.written]
    exact (List.prefix_append_right_inj _).2 (sent_pending h.inv h.room hop hs hl)

/-- What a side has read is a prefix of what it has taken. -/
theorem SideInv.read_le (h : SideInv plan d out inn e) : e.read.flatMap Scalar.encode <+: inn := by
  cases h with
  | idle hc h => rw [h.unread]; exact List.prefix_append _ _
  | busy hc h hop hs hl _ hinn => rw [hinn, h.unread, List.append_assoc]; exact List.prefix_append _ _

/-- When everything a side wrote was written before its last `flush`, it has all been sent. -/
theorem SideInv.sent_flushed (h : SideInv plan d out inn e) (hf : e.flushed = e.wrote.length) :
    out = e.wrote.flatMap Scalar.encode := by
  cases h with
  | idle hc h =>
    have hw := h.written
    rwa [h.flushed hf, List.append_nil] at hw
  | busy hc h hop hs hl hout _ =>
    have hw := h.written
    have hsent := sent_pending h.inv h.room hop hs hl
    rw [h.flushed hf, List.prefix_nil] at hsent
    rw [h.flushed hf, List.append_nil] at hw
    rw [hout, hsent, List.append_nil, hw]

theorem SideInv.widths (h : SideInv plan d out inn e) :
    (∀ (k : Nat) (x : Scalar), e.wrote[k]? = some x → x.width = plan d k) ∧
      ∀ (k : Nat) (y : Scalar), e.read[k]? = some y → y.width = plan d.other k := by
  cases h with
  | idle hc h => exact ⟨h.wroteWidths, h.readWidths⟩
  | busy hc h => exact ⟨h.wroteWidths, h.readWidths⟩

/-- Only the histories matter for the invariant between two operations. -/
theorem EndInv.control {s : BufferedSocket} (h : EndInv plan d e s out inn) (c : Control) :
    EndInv plan d { e with control := c } s out inn :=
  ⟨h.inv, h.room, h.written, h.unread, h.wroteWidths, h.readWidths, h.flushed, h.flushedLe⟩

theorem SideInv.start (h : SideInv plan d out inn e) {s : BufferedSocket} {op : Op} (hc : e.control = .idle s)
    (hop : op.Follows plan d e) : SideInv plan d out inn { e with control := .busy op (op.exec.prog s) } := by
  cases h with
  | idle hc' h =>
    obtain rfl : _ = s := Control.idle.inj (hc'.symm.trans hc)
    exact .busy rfl (h.control _) hop (.refl _) Prog.legal_nil (List.append_nil _).symm (List.append_nil _).symm
  | busy hc' => rw [hc] at hc'; cases hc'

theorem SideInv.answer (h : SideInv plan d out inn e) {op : Op} {q : Call}
    {k : Answer q → Prog Call Answer (Except Exc (Option Value) × BufferedSocket)} {r : Answer q}
    (hc : e.control = .busy op (.ask q k)) (hr : Reliable q r) :
    SideInv plan d (out ++ Event.sent ⟨q, r⟩) (inn ++ Event.taken ⟨q, r⟩) { e with control := .busy op (k r) } := by
  cases h with
  | idle hc' => rw [hc] at hc'; cases hc'
  | busy hc' h hop hs hl hout hinn =>
    obtain ⟨rfl, rfl⟩ := Control.busy.inj (hc'.symm.trans hc)
    refine .busy rfl (h.control _) hop (hs.trans (.ask r (.refl _))) (Prog.legal_append.2 ⟨hl, ?_⟩) ?_ ?_
    · exact Prog.legal_cons.2 ⟨hr, Prog.legal_nil⟩
    · rw [hout, sent_append, List.append_assoc]; simp
    · rw [hinn, taken_append, List.append_assoc]; simp

theorem SideInv.finish (h : SideInv plan d out inn e) {op : Op} {r : Except Exc (Option Value)} {s' : BufferedSocket}
    (hc : e.control = .busy op (.ret (r, s'))) : SideInv plan d out inn (e.finish op r s') := by
  cases h with
  | idle hc' => rw [hc] at hc'; cases hc'
  | busy hc' h hop hs hl hout hinn =>
    obtain ⟨rfl, rfl⟩ := Control.busy.inj (hc'.symm.trans hc)
    have hr := hs.runs (.ret (r, s'))
    rw [List.append_nil] at hr
    rw [hout, hinn]
    exact .idle rfl (Eff.sat_iff_runs.1 (h.finish hop) _ r s' hr hl)

/-- What is preserved by every step of the system. -/
def LinkInv (plan : Side → Nat → Nat) (l : Link) : Prop :=
  ∀ d, SideInv plan d (l.streams d).sent (l.streams d.other).taken (l.ends d)

theorem init_inv (i o : Side → Nat) (junk : (d : Side) → {bytes : List UInt8 // bytes.length = i d + o d})
    (ho : ∀ d, 8 < o d) : LinkInv plan (.init i o junk) := fun d =>
  .idle rfl {
    inv := make_inv _ _ _
    room := ho d
    written := make_pending (i d) (o d) (junk d)
    unread := (make_unread (i d) (o d) (junk d)).symm
    wroteWidths := nofun
    readWidths := nofun
    flushed := fun _ => make_pending (i d) (o d) (junk d)
    flushedLe := Nat.le_refl 0 }

/-- A step that changes one side only. -/
theorem LinkInv.setEnd {l : Link} (h : LinkInv plan l) (d : Side) {e : Endpoint}
    (he : SideInv plan d (l.streams d).sent (l.streams d.other).taken e) : LinkInv plan (l.setEnd d e) := by
  intro c
  by_cases hcd : c = d
  · subst hcd
    simpa [Link.setEnd] using he
  · simpa [Link.setEnd, hcd] using h c

theorem linkStep_inv {l l' : Link} (h : LinkStep plan l l') (hi : LinkInv plan l) : LinkInv plan l' := by
  cases h with
  | start d op hc hop => exact hi.setEnd d ((hi d).start hc hop)
  | finish d hc => exact hi.setEnd d ((hi d).finish hc)
  | deliver d n hn =>
    intro c
    have hs : ((l.delivered d n).streams c).sent = (l.streams c).sent := by
      by_cases hcd : c = d <;> simp [Link.delivered, hcd]
    have ht : ((l.delivered d n).streams c.other).taken = (l.streams c.other).taken := by
      by_cases hcd : c.other = d <;> simp [Link.delivered, hcd]
    rw [hs, ht]
    exact hi c
  | @answer d op q k r hc hr ha =>
    intro c
    by_cases hcd : c = d
    · subst hcd
      simpa [Link.called, Link.setEnd] using (hi c).answer hc hr
    · -- the other side: its stream was read from, and the stream it reads was written to
      obtain rfl := Side.eq_other_of_ne hcd
      have hi' := hi d.other
      rw [Side.other_other] at hi'
      simpa [Link.called, Link.setEnd, Fifo.sent_pull ha] using hi'

end System

/-! ## Playing the system -/

/-- What is to happen next: a side begins an operation or goes on with it, or all that is under way from a
side arrives, or `n` bytes of it. -/
inductive LinkCue
  | start (d : Side) (op : Op)
  | go (d : Side)
  | deliver (d : Side)
  | chunk (d : Side) (n : Nat)

instance (plan : Side → Nat → Nat) (d : Side) (e : Endpoint) : ∀ op : Op, Decidable (op.Follows plan d e)
  | .put (.scalar x) => inferInstanceAs (Decidable (x.width = plan d e.wrote.length))
  | .flush => .isTrue trivial
  | .get x => inferInstanceAs (Decidable (x.width = plan d.other e.read.length))
  | .put (.cstr _) | .put (.string _) | .getString _ => .isFalse id

namespace Link

/-- How the kernel answers the side `d`, if it can: with all that has arrived and is asked for. -/
def reply (l : Link) (d : Side) : (q : Call) → Option (Answer q)
  | .recv size .dontwait =>
    let bs := (l.streams d.other).arrived.take size
    some (if bs = [] then .error EAGAIN else .ok ⟨bs, List.length_take_le _ _⟩)
  | .recv size .waitall =>
    if size ≤ (l.streams d.other).arrived.length
    then some (.ok ⟨(l.streams d.other).arrived.take size, List.length_take_le _ _⟩) else none
  | .send buffer => some (answering [] [] (.send buffer))

/-- The next state; what cannot happen does not. -/
def next (plan : Side → Nat → Nat) (l : Link) : LinkCue → Link
  | .start d op =>
    match (l.ends d).control with
    | .idle s =>
      if op.Follows plan d (l.ends d) then l.setEnd d { l.ends d with control := .busy op (op.exec.prog s) } else l
    | .busy _ _ => l
  | .go d =>
    match (l.ends d).control with
    | .idle _ => l
    | .busy op (.ret (r, s')) => l.setEnd d ((l.ends d).finish op r s')
    | .busy op (.ask q k) =>
      match l.reply d q with
      | some r => (l.setEnd d { l.ends d with control := .busy op (k r) }).called d ⟨q, r⟩
      | none => l
  | .deliver d => if (l.streams d).inflight = [] then l else l.delivered d (l.streams d).inflight.length
  | .chunk d n => if 0 < n ∧ n ≤ (l.streams d).inflight.length then l.delivered d n else l

section Play

variable {plan : Side → Nat → Nat} {d : Side}

theorem reply_reliable {l : Link} {q : Call} {r : Answer q} (h : l.reply d q = some r) :
    Reliable q r ∧ Event.taken ⟨q, r⟩ <+: (l.streams d.other).arrived := by
  match q with
  | .send buffer =>
    cases h
    exact ⟨trivial, List.nil_prefix⟩
  | .recv size .dontwait =>
    simp only [reply, Option.some.injEq] at h
    split at h
    · subst h
      exact ⟨.inl rfl, List.nil_prefix⟩
    · rename_i hne
      subst h
      exact ⟨hne, List.take_prefix _ _⟩
  | .recv size .waitall =>
    simp only [reply] at h
    split at h
    · rename_i hle
      cases h
      exact ⟨by show (List.take _ _).length = size; rw [List.length_take, Nat.min_eq_left hle], List.take_prefix _ _⟩
    · cases h

theorem next_step (l : Link) (c : LinkCue) : LinkStep plan l (l.next plan c) ∨ l.next plan c = l := by
  cases c with
  | start d op =>
    simp only [next]
    split
    · rename_i s hc
      split
      · rename_i hop
        exact .inl (.start d op hc hop)
      · exact .inr rfl
    · exact .inr rfl
  | go d =>
    simp only [next]
    split
    · exact .inr rfl
    · rename_i hc
      exact .inl (.finish d hc)
    · rename_i hc
      split
      · rename_i hr
        obtain ⟨hr, ha⟩ := reply_reliable hr
        exact .inl (.answer d _ hc hr ha)
      · exact .inr rfl
  | deliver d =>
    simp only [next]
    split
    · exact .inr rfl
    · rename_i hne
      exact .inl (.deliver d _ ⟨List.length_pos_iff.2 hne, Nat.le_refl _⟩)
  | chunk d n =>
    simp only [next]
    split
    · rename_i hn
      exact .inl (.deliver d n hn)
    · exact .inr rfl

/-- What the cues lead to is reachable. -/
theorem next_reachable (cues : List LinkCue) (l : Link) :
    Relation.ReflTransGen (LinkStep plan) l (cues.foldl (next plan) l) := by
  induction cues generalizing l with
  | nil => exact .refl
  | cons c cues ih =>
    rcases @next_step plan l c with h | h
    · exact .head h (ih _)
    · rw [List.foldl_cons, h]
      exact ih l

end Play

end Link

/-! ## Agreement -/

/-- A value as its bits: values of one width that agree modulo `2 ^ (8 * width)` are the same word. -/
def Scalar.word (x : Scalar) : Nat × Nat := (x.width, x.bits)

theorem Scalar.word_eq (x : Scalar) : x.word = (x.encode.length, ofBE x.encode) := by
  rw [word, x.length_encode, encode, ofBE_toBE, Nat.mod_eq_of_lt x.bits_lt]

/-- The widths of a conversation: two bytes and then four from the left, one and then eight from the right. -/
def mixed : Side → Nat → Nat
  | .left, k => if k = 0 then 2 else 4
  | .right, k => if k = 0 then 1 else 8

/-- Both sides write two values and flush. The first chunk from the left ends inside its second value, for
which the right side waits, and the input buffer of the left side ends inside its second value. -/
def conversation : List LinkCue :=
  [.start .left (.put (.scalar (.u16 258))), .go .left, .start .left (.put (.scalar (.i32 (-2)))), .go .left,
    .start .right (.put (.scalar (.char 7))), .go .right, .start .left .flush, .go .left, .chunk .left 3,
    .start .right (.put (.scalar (.double 0x3ff0000000000000))), .go .right, .go .right, .go .left,
    .start .right .flush, .go .right, .go .right, .start .right (.get (.i16 0)), .go .right, .go .right,
    .start .right (.get (.float 0)), .go .right, .go .right, .deliver .right, .chunk .left 3, .go .right, .go .right,
    .start .left (.get (.u8 0)), .go .left, .go .left, .start .left (.get (.u64 0)), .go .left, .go .left]

end Fdcpp.Buffered
