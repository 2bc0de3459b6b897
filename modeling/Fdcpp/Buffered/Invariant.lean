/-
The representation invariant along whole sessions, with every operation and every answer of the
kernel, failures and short reads included. One operation can break it: a string read skips the
terminator by itself, whether the terminator has been received or not.
-/
import Fdcpp.Buffered.Session

namespace Fdcpp.Buffered

open Bytes

/-- The offsets are in order, every range handed to `memmove`, `strlen`, `recv` and `send` was
inside its half of the array, and nothing left the array. -/
structure Sound (w : World) : Prop where
  rd : w.obj.inRd ≤ w.obj.inSize
  size : w.obj.inSize ≤ w.obj.inCapacity
  out : w.obj.outSize ≤ w.obj.outCapacity
  log : ∀ a ∈ w.obj.bufferIn.log, a.Inside w.obj
  fault : w.fault = false

/-- If the operation reads a string, a terminator is unread before it or in what the first,
non-blocking `recv` of the operation gets, or that `recv` throws. -/
def Act.Terminated (a : Act) (s : BufferedSocket) : Prop := ∀ c, a.op = .getString c → InTime s a.evs

/-- What every operation preserves: the invariant, and that no access left the array. -/
structure Good (w : World) : Prop where
  inv : Inv w.obj
  fault : w.fault = false

theorem Good.sound {w : World} (h : Good w) : Sound w :=
  ⟨h.inv.rd, h.inv.size, h.inv.out, h.inv.log, h.fault⟩

theorem fresh_good (i o : Nat) (junk : {bytes : List UInt8 // bytes.length = i + o}) : Good (.fresh i o junk) :=
  ⟨make_inv i o junk, rfl⟩

section Step

variable {L : (q : Call) → Answer q → Prop} {w w' : World} {a : Act}

/-- Every operation keeps the invariant and throws only what a failed call makes it throw, a string
read if a terminator is there in time. -/
theorem op_spec {s : BufferedSocket} (hi : Inv s) (op : Op) : Eff.Sat L op.exec s fun evs r s' =>
    (∀ c, op = .getString c → InTime s evs) →
      Inv s' ∧ ∀ e, r = .error e → Thrown evs e := by
  cases op with
  | put i => exact (put_spec hi i).mono fun evs r s' _ h _ => ⟨h.inv, fun e he => (h.error e he).2.2⟩
  | flush => exact (flushOp_spec hi).mono fun evs r s' _ h _ => ⟨h.inv, fun e he => (h.error e he).2.2⟩
  | get x => exact (get_spec hi x).mono fun evs r s' _ h _ => ⟨h.inv, fun e he => (h.error e he).2⟩
  | getString c =>
    refine (getString_spec hi c).mono fun evs r s' _ h ht => ?_
    have hp := h (ht c rfl)
    exact ⟨hp.inv, hp.error⟩

theorem step_good (h : Step L w a w') (ht : a.Terminated w.obj) (hw : Good w) : Good w' := by
  obtain ⟨r, hw', -, hp⟩ := h.spec (op_spec hw.inv a.op)
  obtain ⟨hi, herr⟩ := hp ht
  refine ⟨hi, ?_⟩
  rw [hw']
  match r with
  | .ok _ => rfl
  | .error (.system _) => rfl
  | .error .fault => exact absurd rfl (herr .fault rfl).ne_fault

end Step

/-- In every session with capacities whose sum does not wrap, in which each string read finds a
terminator in time, every state is sound. -/
theorem session_sound (i o : Nat) (hio : i + o < 2 ^ 64) (junk : {bytes : List UInt8 // bytes.length = szAdd i o})
    (r : List (Act × World)) (h : Run.Chain (Step Any) (.created i o junk) r)
    (ht : Run.Chain (fun w a _ => a.Terminated w.obj) (.created i o junk) r) :
    Run.Always Sound (.created i o junk) r := by
  have hroom : junk.1.length = i + o := junk.2.trans (szAdd_of_lt hio)
  have hgood : Run.Always Good (.created i o junk) r :=
    h.always (fun _ _ _ hs ht hw => step_good hs ht hw) ht (fresh_good i o ⟨junk.1, hroom⟩)
  exact hgood.imp fun _ hw => hw.sound

/-- The string "hi" has arrived with its terminator. -/
theorem string_read_sound : ∃ r, Run.Chain (Step Any) (.created 4 0 ⟨[0, 0, 0, 0], rfl⟩) r ∧
    r.map (fun p => p.1.op) = [.getString 0] ∧
    (r.map fun p => p.2.got) = [[.string [104, 105]]] ∧
    Run.Always Sound (.created 4 0 ⟨[0, 0, 0, 0], rfl⟩) r := by
  let p := (World.created 4 0 ⟨[0, 0, 0, 0], rfl⟩).play [104, 105, 0] (.getString 0)
  have h : Run.Chain (Step Any) (.created 4 0 ⟨[0, 0, 0, 0], rfl⟩) [(p.1, p.2)] :=
    ⟨play_step rfl fun _ _ => trivial, trivial⟩
  refine ⟨_, h, by decide +kernel, by decide +kernel,
    session_sound _ _ (by decide) _ _ h ⟨fun c _ => ?_, trivial⟩⟩
  decide +kernel

/-- A string read in a new object when nothing has arrived: a stale zero byte ends the string, the
read skips it, and the next read moves the wrapped `_in_size - _in_rd` bytes. -/
theorem string_read_unsound : ∃ r, Run.Chain (Step Any) (.created 4 0 ⟨[0, 0, 0, 0], rfl⟩) r ∧
    r.map (fun p => p.1.op) = [.getString 0, .get (.char 0)] ∧
    (r.map fun p => (p.2.obj.inRd, p.2.obj.inSize, p.2.fault)) = [(1, 0, false), (1, 0, true)] ∧
    ¬ Run.Always Sound (.created 4 0 ⟨[0, 0, 0, 0], rfl⟩) r := by
  let w₀ : World := .created 4 0 ⟨[0, 0, 0, 0], rfl⟩
  let p₁ := w₀.play [] (.getString 0)
  let p₂ := p₁.2.play [] (.get (.char 0))
  have hf : p₁.2.fault = false := by decide +kernel
  refine ⟨[(p₁.1, p₁.2), (p₂.1, p₂.2)], ⟨play_step rfl fun _ _ => trivial, play_step hf fun _ _ => trivial, trivial⟩,
    by decide +kernel, by decide +kernel, fun h => ?_⟩
  have hrd := (h.2 _ (List.mem_cons_self ..)).rd
  revert hrd
  decide +kernel

/-! ## Capacities whose sum wraps -/

section Wrapped

variable {L : (q : Call) → Answer q → Prop} {i o : Nat} {junk : {bytes : List UInt8 // bytes.length = szAdd i o}}

theorem store_fault {s : BufferedSocket} {h : Half} {off : Nat} {bs : List UInt8}
    (hout : s.bufferIn.bytes.length < s.base h + off + bs.length) :
    Eff.Sat L (store h off bs) s fun _ r _ => r = .error .fault := by
  have htouch : Eff.Sat L (touch h off bs.length) s fun _ r _ => r = .error .fault := by
    unfold touch
    simp only [Eff.sat_bind, Eff.sat_get, Eff.sat_set]
    rw [if_neg (by omega)]
    rfl
  exact htouch.bind (by rintro _ _ _ - ⟨⟩) fun _ _ _ _ he => he

/-- A value goes behind the pending output, and there the array has ended. -/
theorem writeOutputBuffer_fault {s : BufferedSocket} {buffer : List UInt8}
    (hroom : s.outSize + buffer.length < s.outCapacity)
    (hout : s.bufferIn.bytes.length < s.bufferOut + s.outSize + buffer.length) :
    Eff.Sat L (writeOutputBuffer buffer) s fun _ r _ => r = .error .fault := by
  unfold writeOutputBuffer
  rw [Eff.sat_bind, Eff.sat_get]
  dsimp only
  rw [if_neg (by omega), if_neg (by omega), Eff.sat_bind, Eff.sat_get]
  dsimp only
  exact (store_fault hout).bind (by rintro _ _ _ - ⟨⟩) fun _ _ _ _ he => he

/-- The output buffer of such an object lies outside its array, and the first write into it faults. -/
theorem wrapped_put (hi : i < 2 ^ 64) (ho : o < 2 ^ 64) (hio : 2 ^ 64 ≤ i + o) (x : Item) (hx : x.encode.length < o) :
    Eff.Sat L (Op.put x).exec (World.created i o junk).obj fun _ r _ => r = .error .fault := by
  have hshort : junk.1.length < i := by rw [junk.2]; exact szAdd_lt hi ho hio
  have hroom : 0 + x.encode.length < o := by omega
  have hout : junk.1.length < i + 0 + x.encode.length := by omega
  have h : Eff.Sat L (writeOutputBuffer x.encode) (World.created i o junk).obj fun _ r _ => r = .error .fault :=
    writeOutputBuffer_fault hroom hout
  rw [← x.shl_eq] at h
  refine sat_map h ?_ ?_
  · rintro evs ⟨⟩ s' ⟨⟩
  · rintro evs e s' ⟨⟩
    rfl

theorem wrapped_unsound (hi : i < 2 ^ 64) (ho : o < 2 ^ 64) (hio : 2 ^ 64 ≤ i + o) {x : Item} (hx : x.encode.length < o)
    {evs : List Event} {w' : World} (h : Step L (.created i o junk) ⟨.put x, evs⟩ w') : ¬ Sound w' := by
  obtain ⟨r, hw', -, rfl⟩ := h.spec (wrapped_put hi ho hio x hx)
  intro hs
  have hfault := hs.fault
  rw [hw'] at hfault
  cases hfault

end Wrapped

end Fdcpp.Buffered
