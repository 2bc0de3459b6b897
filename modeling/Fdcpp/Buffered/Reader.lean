/-
Fixed-width reads when calls fail. Where a blocking `recv` gets all it asks for or fails, the object
reads like a reader without a buffer: a read takes the next bytes of the stream, or none when it
throws. A blocking `recv` that comes back short is what makes a read end with a value that was not
received, and nothing else does.
-/
import Fdcpp.Buffered.Invariant

namespace Fdcpp.Buffered

open Bytes

/-! ## Reading without a buffer -/

/-- Any call may fail, but a blocking `recv` that does not gets all it asks for. -/
def Waits : (q : Call) → Answer q → Prop
  | .recv size .waitall, r => match (r : Except Errno (Received size)) with
    | .ok bs => bs.1.length = size
    | .error _ => True
  | _, _ => True

instance : ∀ q r, Decidable (Waits q r)
  | .send _, _ => .isTrue trivial
  | .recv _ .dontwait, _ => .isTrue trivial
  | .recv size .waitall, .ok bs => inferInstanceAs (Decidable (bs.1.length = size))
  | .recv _ .waitall, .error _ => .isTrue trivial

/-- A read of a value of the type of `x` from the stream itself: the value is made of the next bytes,
or the read throws and takes none. -/
inductive Unbuffered (x : Scalar) : List UInt8 → Option Scalar → List UInt8 → Prop
  | returns {y : Scalar} (hy : y.ty = x.ty) (left : List UInt8) : Unbuffered x (y.encode ++ left) (some y) left
  | throws (left : List UInt8) : Unbuffered x left none left

/-- A fixed-width read, on a connection over which `stream` comes in. -/
structure StreamStep (stream : List UInt8) (w : World) (a : Act) (w' : World) : Prop where
  step : Step Waits w a w'
  get : ∃ x, a.op = .get x
  arrived : w'.taken <+: stream

/-- The logical unread input: the unread bytes, and behind them those the object has not received. -/
def World.left (w : World) (stream : List UInt8) : List UInt8 := w.obj.unread ++ stream.drop w.taken.length

/-- The step is one of the reader without a buffer, which returns a value exactly if the step does. -/
def Simulates (stream : List UInt8) (w : World) (a : Act) (w' : World) : Prop :=
  ∃ x v, a.op = .get x ∧ w'.got = w.got ++ v.toList.map .scalar ∧ Unbuffered x (w.left stream) v (w'.left stream)

/-- The bytes of the values read so far are the beginning of the stream, and the rest is left. -/
def Exact (stream : List UInt8) (w : World) : Prop :=
  ∃ ys : List Scalar, w.got = ys.map .scalar ∧ ys.flatMap Scalar.encode ++ w.left stream = stream

section Step

variable {stream : List UInt8} {w w' : World} {a : Act}

theorem Waits.not_shortWait {evs : List Event} (hl : Prog.Legal Waits evs) : ¬ ShortWait evs := by
  rintro ⟨size, bs, hm, hlt⟩
  have hfull : bs.1.length = size := hl _ hm
  omega

/-- What a step takes from the socket comes from the front of what it holds. -/
theorem left_before {evs : List Event} (ht : w'.taken = w.taken ++ taken evs) (ha : w'.taken <+: stream) :
    w.left stream = w.obj.unread ++ taken evs ++ stream.drop w'.taken.length := by
  obtain ⟨rest, rfl⟩ := ha
  unfold World.left
  rw [List.drop_left, ht, List.append_assoc, List.drop_left, List.append_assoc]

theorem stream_step (h : StreamStep stream w a w') (hw : Good w) : Simulates stream w a w' := by
  obtain ⟨x, hx⟩ := h.get
  obtain ⟨r, hw', hl, hp⟩ := h.step.spec (by rw [hx]; exact get_spec hw.inv x)
  have ht : w'.taken = w.taken ++ taken a.evs := by rw [hw']; rfl
  have hleft := left_before ht h.arrived
  cases r with
  | ok v =>
    obtain ⟨y, rfl, hty, hy⟩ := hp.ok v rfl
    have hbytes := hy.resolve_right fun hs => Waits.not_shortWait hl hs.1
    refine ⟨x, some y, hx, by rw [hw']; rfl, ?_⟩
    rw [hleft, hbytes, List.append_assoc]
    exact .returns hty _
  | error e =>
    obtain ⟨hbytes, -⟩ := hp.error e rfl
    refine ⟨x, none, hx, by rw [hw']; simp [World.after], ?_⟩
    rw [hleft, hbytes]
    exact .throws _

theorem Simulates.exact (h : Simulates stream w a w') (hw : Exact stream w) : Exact stream w' := by
  obtain ⟨x, v, -, hgot, hread⟩ := h
  obtain ⟨ys, hys, hstream⟩ := hw
  unfold Exact
  generalize w.left stream = left at hread hstream
  generalize w'.left stream = left' at hread
  cases hread with
  | returns hy =>
    rename_i y
    refine ⟨ys ++ [y], ?_, ?_⟩
    · simp [hgot, hys]
    · simp [← hstream]
  | throws =>
    refine ⟨ys, ?_, hstream⟩
    simp [hgot, hys]

end Step

/-! ## Whole sessions -/

/-- In every session of fixed-width reads, whatever fails, each step is one of the reader without a
buffer, and the values read are the beginning of the stream. -/
theorem reads_refine (stream : List UInt8) (i o : Nat) (junk : {bytes : List UInt8 // bytes.length = i + o})
    (r : List (Act × World)) (h : Run.Chain (StreamStep stream) (.fresh i o junk) r) :
    Run.Chain (Simulates stream) (.fresh i o junk) r ∧ Run.Always (Exact stream) (.fresh i o junk) r := by
  have hstep : ∀ w a w', StreamStep stream w a w' → StreamStep stream w a w' → Good w ∧ Exact stream w →
      (Good w' ∧ Exact stream w') ∧ Simulates stream w a w' := by
    rintro w a w' hs - ⟨hw, he⟩
    have hsim := stream_step hs hw
    have ht : a.Terminated w.obj := by
      intro c hc
      obtain ⟨x, hx⟩ := hs.get
      rw [hx] at hc
      cases hc
    exact ⟨⟨step_good hs.step ht hw, hsim.exact he⟩, hsim⟩
  have hexact : Exact stream (.fresh i o junk) := ⟨[], rfl, congrArg (· ++ stream) (make_unread i o junk)⟩
  obtain ⟨ha, hc⟩ := h.always_chain hstep h ⟨fresh_good i o junk, hexact⟩
  exact ⟨hc, ha.imp fun _ hw => hw.2⟩

/-- The blocking `recv` of a read fails when half of the value has come in; repeated, the read gets
the whole value. -/
theorem reads_refine_retry : ∃ r, Run.Chain (StreamStep [1, 2]) (.fresh 1 0 ⟨[9], rfl⟩) r ∧
    (r.map fun p => (p.1.op, p.2.got)) = [(.get (.u16 0), []), (.get (.u16 0), [.scalar (.u16 258)])] ∧
    Run.Chain (Simulates [1, 2]) (.fresh 1 0 ⟨[9], rfl⟩) r ∧ Run.Always (Exact [1, 2]) (.fresh 1 0 ⟨[9], rfl⟩) r := by
  let w₀ : World := .fresh 1 0 ⟨[9], rfl⟩
  let p₁ := w₀.perform [.gives [1], .fails 104] (.get (.u16 0))
  let p₂ := p₁.2.perform [.gives [2]] (.get (.u16 0))
  have hf : p₁.2.fault = false := by decide +kernel
  have h₁ : StreamStep [1, 2] w₀ p₁.1 p₁.2 :=
    ⟨perform_step rfl (by unfold Prog.Legal; decide +kernel), ⟨_, rfl⟩, by decide +kernel⟩
  have h₂ : StreamStep [1, 2] p₁.2 p₂.1 p₂.2 :=
    ⟨perform_step hf (by unfold Prog.Legal; decide +kernel), ⟨_, rfl⟩, by decide +kernel⟩
  have h : Run.Chain (StreamStep [1, 2]) w₀ [(p₁.1, p₁.2), (p₂.1, p₂.2)] := ⟨h₁, h₂, trivial⟩
  exact ⟨_, h, by decide +kernel, reads_refine _ _ _ _ _ h⟩

/-! ## Truncated values -/

/-- A read that returns does so with the next bytes received and keeps the others, and a read that
throws keeps them all. -/
def Honest (s : BufferedSocket) (evs : List Event) (r : Except Exc (Option Value)) (s' : BufferedSocket) : Prop :=
  match r with
  | .ok v => ∃ y : Scalar, v = some (.scalar y) ∧ s.unread ++ taken evs = y.encode ++ s'.unread
  | .error _ => s.unread ++ taken evs = s'.unread

section Short

variable {L : (q : Call) → Answer q → Prop} {s : BufferedSocket}

/-- The calls of `recv_if_possible` do not block. -/
theorem RecvCalls.not_shortWait {s' : BufferedSocket} {evs : List Event} (h : RecvCalls s evs s') :
    ¬ ShortWait evs := by
  rintro ⟨size, bs, hm, -⟩
  rcases Nat.lt_or_ge s.inSize s.inCapacity with hlt | hge
  · obtain ⟨size', r, rfl⟩ := h.room hlt
    simp at hm
  · rw [h.full hge] at hm
    cases hm

theorem shortWait_append {evs evs' : List Event} : ShortWait (evs ++ evs') ↔ ShortWait evs ∨ ShortWait evs' := by
  constructor
  · rintro ⟨size, bs, hm, hlt⟩
    rcases List.mem_append.1 hm with hm | hm
    · exact .inl ⟨size, bs, hm, hlt⟩
    · exact .inr ⟨size, bs, hm, hlt⟩
  · rintro (⟨size, bs, hm, hlt⟩ | ⟨size, bs, hm, hlt⟩)
    · exact ⟨size, bs, List.mem_append_left _ hm, hlt⟩
    · exact ⟨size, bs, List.mem_append_right _ hm, hlt⟩

/-- A short `recv` is no error: the read returns, with fewer bytes received than it asked for. -/
theorem readInputBuffer_short (hi : Inv s) (buffer : List UInt8) : Eff.Sat L (readInputBuffer buffer) s
    fun evs r _ => ShortWait evs → (∃ bs, r = .ok bs) ∧ (s.unread ++ taken evs).length < buffer.length := by
  refine (readInputBuffer_cases hi buffer).mono ?_
  rintro evs r s' - (⟨evs₁, evs₂, s₁, rfl, hfirst, hrest⟩ | ⟨e, hfirst, rfl⟩)
  · rw [shortWait_append, or_iff_right hfirst.calls.not_shortWait, taken_append, ← List.append_assoc, ← hfirst.unread]
    rintro ⟨size, bs, hm, hlt⟩
    cases hrest with
    | buffered => cases hm
    | drained => cases hm
    | waited ha hn bs' =>
      rw [List.mem_singleton] at hm
      cases hm
      refine ⟨⟨_, rfl⟩, ?_⟩
      simp only [List.length_append, taken_cons, Event.taken_ok, taken_nil, List.append_nil]
      omega
    | failed ha hn e =>
      rw [List.mem_singleton] at hm
      cases hm
  · exact fun hs => absurd hs hfirst.calls.not_shortWait

theorem get_short (hi : Inv s) (x : Scalar) : Eff.Sat L (Op.get x).exec s
    fun evs r _ => ShortWait evs → (∃ v, r = .ok v) ∧ (s.unread ++ taken evs).length < x.width := by
  have h := readInputBuffer_short (L := L) hi x.image
  rw [x.length_image] at h
  have hshr : Eff.Sat L x.shr s fun evs r _ =>
      ShortWait evs → (∃ y, r = .ok y) ∧ (s.unread ++ taken evs).length < x.width := by
    rw [x.shr_eq]
    refine h.bind (fun evs b s' _ hb => ?_) fun evs e s' _ he hs => ?_
    · rw [Eff.sat_pure, List.append_nil]
      exact fun hs => ⟨⟨_, rfl⟩, (hb hs).2⟩
    · obtain ⟨⟨_, ⟨⟩⟩, -⟩ := he hs
  refine sat_map hshr ?_ ?_
  · intro evs y s' hy hs
    exact ⟨⟨_, rfl⟩, (hy hs).2⟩
  · intro evs e s' he hs
    obtain ⟨⟨_, ⟨⟩⟩, -⟩ := he hs

/-- A fixed-width read is honest exactly if its blocking `recv` is not short. -/
theorem honest_iff (hi : Inv s) (x : Scalar) {evs : List Event} {r : Except Exc (Option Value)} {s' : BufferedSocket}
    (hr : ((Op.get x).exec.prog s).Runs evs (r, s')) : Honest s evs r s' ↔ ¬ ShortWait evs := by
  have hp := Any.post (get_spec hi x) hr
  have hshort := Any.post (get_short hi x) hr
  constructor
  · intro hh hs
    obtain ⟨⟨v, rfl⟩, hlt⟩ := hshort hs
    obtain ⟨z, hz, hty, -⟩ := hp.ok v rfl
    obtain ⟨y, hy, hbytes⟩ := hh
    -- the value has more bytes than there were
    have hlen : (s.unread ++ taken evs).length = y.width + s'.unread.length := by
      rw [hbytes, List.length_append, y.length_encode]
    obtain rfl : y = z := by simpa using hy.symm.trans hz
    have hwidth : y.width = x.width := congrArg Ty.width hty
    omega
  · intro hs
    cases r with
    | ok v =>
      obtain ⟨y, hv, -, hy⟩ := hp.ok v rfl
      exact ⟨y, hv, hy.resolve_right fun h => hs h.1⟩
    | error e => exact (hp.error e rfl).1

end Short

/-- One byte of a value is buffered, and the other comes when it is waited for. -/
theorem read_split : ∃ evs s', (BufferedSocket.filled [1]).unread = [1] ∧ taken evs = [2] ∧
    ((Op.get (.u16 0)).exec.prog (.filled [1])).Runs evs (.ok (some (.scalar (.u16 258))), s') ∧
    Honest (.filled [1]) evs (.ok (some (.scalar (.u16 258)))) s' := by
  have hv : ((BufferedSocket.filled [1]).perform [.gives [2]] (.get (.u16 0))).2.1 = .ok (some (.scalar (.u16 258))) := by
    decide +kernel
  have hr := perform_runs (.filled [1]) [.gives [2]] (.get (.u16 0)) hv
  have hw : Prog.Legal Waits ((BufferedSocket.filled [1]).perform [.gives [2]] (.get (.u16 0))).1 := by
    unfold Prog.Legal; decide +kernel
  refine ⟨_, _, by decide, ?_, hr, (honest_iff (filled_inv [1]) (.u16 0) hr).2 (Waits.not_shortWait hw)⟩
  decide +kernel

/-- The stream ends before the other byte of the value: the read ends normally, with the old byte of
the variable behind the one received. -/
theorem read_truncated : ∃ evs s', (BufferedSocket.filled [1]).unread = [1] ∧ taken evs = [] ∧
    ((Op.get (.u16 0)).exec.prog (.filled [1])).Runs evs (.ok (some (.scalar (.u16 256))), s') ∧ s'.unread = [] ∧
    ¬ Honest (.filled [1]) evs (.ok (some (.scalar (.u16 256)))) s' := by
  have hv : ((BufferedSocket.filled [1]).perform [.gives []] (.get (.u16 0))).2.1 = .ok (some (.scalar (.u16 256))) := by
    decide +kernel
  have hr := perform_runs (.filled [1]) [.gives []] (.get (.u16 0)) hv
  refine ⟨_, _, by decide, ?_, hr, ?_, ?_⟩
  · decide +kernel
  · decide +kernel
  · rintro ⟨y, ⟨⟩, h⟩
    revert h
    decide +kernel

end Fdcpp.Buffered
