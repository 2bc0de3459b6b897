/-
The order of the output. A value shorter than the output capacity takes its place behind the
pending bytes; one that is as long or longer is sent past them, so that the order is kept exactly
when it does not matter which of the two comes first.
-/
import Fdcpp.Buffered.Session

namespace Fdcpp.Buffered

open Bytes

/-! ## Output sessions -/

/-- A step of a session that only writes and flushes. -/
def OutputStep (w : World) (a : Act) (w' : World) : Prop := a.op.IsOutput ∧ Step Flawless w a w'

/-- What the peer got and what is pending are the values written, in order. -/
def InOrder (w : World) : Prop := w.sent ++ w.obj.pending = w.owed

/-- The order is kept in every state of a run, and after a `flush` the peer has everything. -/
def Ordered (w : World) (r : List (Act × World)) : Prop :=
  Run.Always InOrder w r ∧ Run.Chain (fun _ a w' => a.op = .flush → w'.sent = w'.owed) w r

/-- The operation does not send a value past pending bytes, or what the peer gets is the same for it. -/
def Op.KeepsOrder (s : BufferedSocket) : Op → Prop
  | .put i => i.encode.length < s.outCapacity ∨ s.pending ++ i.encode = i.encode ++ s.pending
  | _ => True

/-! ## One operation -/

section Step

variable {w w' : World} {a : Act}

theorem owed_after (w : World) (a : Act) (v : Option Value) (s' : BufferedSocket) :
    (w.after a (.ok v) s').owed = w.owed ++ a.op.written.flatMap Item.encode := List.flatMap_append

/-- What an output operation does that writes `new` and brings the object and the bytes it sent
into `Ok`. -/
structure Wrote (Ok : BufferedSocket → List UInt8 → Prop) (new : List UInt8) (w : World) (a : Act) (w' : World) :
    Prop where
  inv : Inv w'.obj
  fault : w'.fault = false
  ok : Ok w'.obj (sent a.evs)
  sent : w'.sent = w.sent ++ sent a.evs
  owed : w'.owed = w.owed ++ new
  caps : SameCaps w.obj w'.obj

/-- An output operation ends normally. -/
theorem Step.wrote {Ok : BufferedSocket → List UInt8 → Prop} {owed : List UInt8} (h : Step Flawless w a w')
    (hs : Eff.Sat Flawless a.op.exec w.obj (OutPost Ok owed w.obj)) :
    Wrote Ok (a.op.written.flatMap Item.encode) w a w' := by
  obtain ⟨r, hw, hl, hp⟩ := h.spec hs
  cases r with
  | error e => exact absurd (hp.error e rfl).2.2 (Flawless.not_thrown hl)
  | ok v =>
    have howed := owed_after w a v w'.obj
    rw [← hw] at howed
    exact ⟨hp.inv, by rw [hw]; rfl, (hp.ok v rfl).2, by rw [hw]; rfl, howed, hp.kept.toSameCaps⟩

theorem put_step {i : Item} (h : Step Flawless w a w') (ha : a.op = .put i) (hi : Inv w.obj) :
    Wrote (PutOk w.obj i.encode) i.encode w a w' := by
  have hw := h.wrote (by rw [ha]; exact put_spec hi i)
  simpa [ha, Op.written] using hw

/-- With nothing pending, a short value is only buffered. -/
theorem PutOk.buffered {s s' : BufferedSocket} {buffer out : List UInt8} (h : PutOk s buffer s' out)
    (hlt : buffer.length < s.outCapacity) (hs : s.pending = []) : out = [] ∧ s'.pending = buffer := by
  rw [PutOk, if_neg (by omega), hs] at h
  exact h.elim id id

theorem PutOk.passed {s s' : BufferedSocket} {buffer out : List UInt8} (h : PutOk s buffer s' out)
    (hle : s.outCapacity ≤ buffer.length) : out = buffer ∧ s'.pending = s.pending := by
  rwa [PutOk, if_pos hle] at h

theorem flush_step (h : Step Flawless w a w') (ha : a.op = .flush) (hi : Inv w.obj) :
    Wrote (fun s' out => out = w.obj.pending ∧ s'.pending = []) [] w a w' := by
  have hw := h.wrote (by rw [ha]; exact flushOp_spec hi)
  simpa [ha, Op.written] using hw

theorem outputStep_inv (h : OutputStep w a w') (hi : Inv w.obj) : Inv w'.obj := by
  obtain ⟨hop, h⟩ := h
  cases ha : a.op with
  | put i => exact (put_step h ha hi).inv
  | flush => exact (flush_step h ha hi).inv
  | get x => rw [ha] at hop; exact hop.elim
  | getString c => rw [ha] at hop; exact hop.elim

theorem outputStep_fault (h : OutputStep w a w') (hi : Inv w.obj) : w'.fault = false := by
  obtain ⟨hop, h⟩ := h
  cases ha : a.op with
  | put i => exact (put_step h ha hi).fault
  | flush => exact (flush_step h ha hi).fault
  | get x => rw [ha] at hop; exact hop.elim
  | getString c => rw [ha] at hop; exact hop.elim

/-- Where the order is kept so far, an operation keeps it exactly if it meets `KeepsOrder`. -/
theorem inOrder_step_iff (h : OutputStep w a w') (hi : Inv w.obj) (ho : InOrder w) :
    InOrder w' ↔ a.op.KeepsOrder w.obj := by
  obtain ⟨hop, h⟩ := h
  unfold InOrder at ho ⊢
  cases ha : a.op with
  | put i =>
    obtain ⟨-, -, hput, hsent, howed, -⟩ := put_step h ha hi
    rw [hsent, howed, ← ho]
    unfold PutOk at hput
    simp only [Op.KeepsOrder]
    split at hput
    · -- past the pending bytes
      rename_i hlong
      obtain ⟨hout, hpend⟩ := hput
      rw [hout, hpend, List.append_assoc, List.append_assoc, List.append_cancel_left_eq]
      constructor
      · intro h
        exact .inr h.symm
      · rintro (h | h)
        · exact absurd h (by omega)
        · exact h.symm
    · rename_i hshort
      refine iff_of_true ?_ (.inl (by omega))
      rcases hput with ⟨hout, hpend⟩ | ⟨hout, hpend⟩
      · rw [hout, hpend, List.append_nil, List.append_assoc]
      · rw [hout, hpend]
  | flush =>
    obtain ⟨-, -, ⟨hout, hpend⟩, hsent, howed, -⟩ := flush_step h ha hi
    refine iff_of_true ?_ trivial
    rw [hpend, hsent, howed, hout, List.append_nil, List.append_nil, ho]
  | get x => rw [ha] at hop; exact hop.elim
  | getString c => rw [ha] at hop; exact hop.elim

/-- Where the order is kept, a `flush` leaves nothing behind. -/
theorem flush_sends_owed (h : OutputStep w a w') (hi : Inv w.obj) (ho : InOrder w') (ha : a.op = .flush) :
    w'.sent = w'.owed := by
  have hpend := (flush_step h.2 ha hi).ok.2
  unfold InOrder at ho
  rwa [hpend, List.append_nil] at ho

end Step

/-! ## Whole sessions -/

/-- In a session with a new object the output is in order exactly if every `put` finds its value
shorter than the output capacity, or nothing pending that its bytes would overtake. -/
theorem output_ordered_iff (i o : Nat) (junk : {bytes : List UInt8 // bytes.length = i + o})
    (r : List (Act × World)) (h : Run.Chain OutputStep (.fresh i o junk) r) :
    Ordered (.fresh i o junk) r ↔ Run.Chain (fun w a _ => a.op.KeepsOrder w.obj) (.fresh i o junk) r := by
  have hi : Inv (World.fresh i o junk).obj := make_inv i o junk
  have ho : InOrder (.fresh i o junk) := make_pending i o junk
  have h' := h.and_invariant (P := fun w => Inv w.obj) (fun _ _ _ => outputStep_inv) hi
  have hiff := h.always_iff (P := fun w => Inv w.obj ∧ InOrder w) (Q := InOrder)
    (C := fun w a _ => a.op.KeepsOrder w.obj) (fun w hw => hw.2)
    (fun w a w' hs ⟨hi, ho⟩ hc => ⟨outputStep_inv hs hi, (inOrder_step_iff hs hi ho).2 hc⟩)
    (fun w a w' hs ⟨hi, ho⟩ ho' => (inOrder_step_iff hs hi ho).1 ho') ⟨hi, ho⟩
  constructor
  · intro hr; exact hiff.1 hr.1
  · intro hc
    have ha := hiff.2 hc
    -- in order after a `flush`, and nothing pending: everything is sent
    exact ⟨ha, h'.imp_of_always (fun w a w' ⟨hs, hi⟩ ho hf => flush_sends_owed hs hi ho hf) ha⟩

/-- Every sequence of output operations has a run. -/
theorem exists_output_run : ∀ (ops : List Op), (∀ op ∈ ops, op.IsOutput) → ∀ w : World, Inv w.obj → w.fault = false →
    ∃ r, Run.Chain OutputStep w r ∧ r.map (fun p => p.1.op) = ops
  | [], _, _, _, _ => ⟨[], trivial, rfl⟩
  | op :: ops, hops, w, hi, hf => by
    obtain ⟨hop, hops⟩ := List.forall_mem_cons.1 hops
    obtain ⟨evs, w', h⟩ := exists_step exists_flawless hf op
    have hs : OutputStep w ⟨op, evs⟩ w' := ⟨hop, h⟩
    obtain ⟨r, hr, hmap⟩ := exists_output_run ops hops w' (outputStep_inv hs hi) (outputStep_fault hs hi)
    exact ⟨(_, w') :: r, ⟨hs, hr⟩, by rw [List.map_cons, hmap]⟩

/-- The bytes of "hello". -/
def hello : List UInt8 := [104, 101, 108, 108, 111]

/-- A `char` that waits in a buffer of four bytes is overtaken by a longer string. -/
theorem output_overtaken : ∃ r, Run.Chain OutputStep (.fresh 0 4 ⟨[0, 0, 0, 0], rfl⟩) r ∧
    r.map (fun p => p.1.op) = [.put (.scalar (.char 97)), .put (.cstr (hello ++ [0])), .flush] ∧
    (Run.last (.fresh 0 4 ⟨[0, 0, 0, 0], rfl⟩) r).sent = hello ++ [0, 97] ∧
    (Run.last (.fresh 0 4 ⟨[0, 0, 0, 0], rfl⟩) r).owed = 97 :: hello ++ [0] ∧
    ¬ Ordered (.fresh 0 4 ⟨[0, 0, 0, 0], rfl⟩) r := by
  have hi : Inv (World.fresh 0 4 ⟨[0, 0, 0, 0], rfl⟩).obj := make_inv _ _ _
  obtain ⟨r, hr, hops⟩ := exists_output_run [.put (.scalar (.char 97)), .put (.cstr (hello ++ [0])), .flush]
    (by simp [Op.IsOutput]) _ hi rfl
  obtain ⟨⟨a₁, w₁⟩, r, rfl, ho₁, hops⟩ := List.map_eq_cons_iff.1 hops
  obtain ⟨⟨a₂, w₂⟩, r, rfl, ho₂, hops⟩ := List.map_eq_cons_iff.1 hops
  obtain ⟨⟨a₃, w₃⟩, r, rfl, ho₃, hops⟩ := List.map_eq_cons_iff.1 hops
  obtain rfl := List.map_eq_nil_iff.1 hops
  obtain ⟨h₁, h₂, h₃, -⟩ := hr
  have p₁ := put_step h₁.2 ho₁ hi
  have p₂ := put_step h₂.2 ho₂ p₁.inv
  have p₃ := flush_step h₃.2 ho₃ p₂.inv
  obtain ⟨out₁, pend₁⟩ := p₁.ok.buffered (by decide) (make_pending _ _ _)
  have hcap : w₁.obj.outCapacity = 4 := p₁.caps.outCapacity
  obtain ⟨out₂, pend₂⟩ := p₂.ok.passed (by rw [hcap]; decide)
  have hsent : w₃.sent = hello ++ [0, 97] := by
    rw [p₃.sent, p₃.ok.1, p₂.sent, out₂, pend₂, p₁.sent, out₁, pend₁]
    decide
  have howed : w₃.owed = 97 :: hello ++ [0] := by
    rw [p₃.owed, p₂.owed, p₁.owed]
    decide
  refine ⟨[(a₁, w₁), (a₂, w₂), (a₃, w₃)], ⟨h₁, h₂, h₃, trivial⟩, ?_, hsent, howed, fun h => ?_⟩
  · rw [List.map_cons, List.map_cons, List.map_cons, ho₁, ho₂, ho₃, List.map_nil]
  · have hflush : w₃.sent = w₃.owed := h.2.2.2.1 ho₃
    rw [hsent, howed] at hflush
    revert hflush
    decide

/-- The same operations in another order: the buffer is flushed before the longer string. -/
theorem output_ordered_flushed : ∃ r, Run.Chain OutputStep (.fresh 0 4 ⟨[0, 0, 0, 0], rfl⟩) r ∧
    r.map (fun p => p.1.op) = [.put (.scalar (.char 97)), .flush, .put (.cstr (hello ++ [0]))] ∧
    Ordered (.fresh 0 4 ⟨[0, 0, 0, 0], rfl⟩) r := by
  have hi : Inv (World.fresh 0 4 ⟨[0, 0, 0, 0], rfl⟩).obj := make_inv _ _ _
  obtain ⟨r, hr, hops⟩ := exists_output_run [.put (.scalar (.char 97)), .flush, .put (.cstr (hello ++ [0]))]
    (by simp [Op.IsOutput]) _ hi rfl
  refine ⟨r, hr, hops, (output_ordered_iff _ _ _ r hr).2 ?_⟩
  obtain ⟨⟨a₁, w₁⟩, r, rfl, ho₁, hops⟩ := List.map_eq_cons_iff.1 hops
  obtain ⟨⟨a₂, w₂⟩, r, rfl, ho₂, hops⟩ := List.map_eq_cons_iff.1 hops
  obtain ⟨⟨a₃, w₃⟩, r, rfl, ho₃, hops⟩ := List.map_eq_cons_iff.1 hops
  obtain rfl := List.map_eq_nil_iff.1 hops
  obtain ⟨h₁, h₂, -, -⟩ := hr
  have p₁ := put_step h₁.2 ho₁ hi
  have hpend := (flush_step h₂.2 ho₂ p₁.inv).ok.2
  refine ⟨?_, ?_, ?_, trivial⟩
  · show a₁.op.KeepsOrder _
    rw [ho₁]; exact .inl (by decide)
  · show a₂.op.KeepsOrder _
    rw [ho₂]; trivial
  · show a₃.op.KeepsOrder _
    rw [ho₃]; exact .inr (by rw [hpend, List.append_nil, List.nil_append])

end Fdcpp.Buffered
