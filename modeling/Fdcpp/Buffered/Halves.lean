/-
The two halves of the array: no output operation touches the unread input or its offsets, no read of
a fixed-width value touches the pending output, and every access stays in its half, for all
capacities and whatever the kernel answers.
-/
import Fdcpp.Buffered.Invariant

namespace Fdcpp.Buffered

/-! ## Sessions without string reads -/

/-- The operations other than the read of a string. -/
def Op.IsFixed : Op → Prop
  | .getString _ => False
  | _ => True

/-- A step of a session that writes anything, flushes, and reads fixed-width values. -/
def FixedStep (w : World) (a : Act) (w' : World) : Prop := a.op.IsFixed ∧ Step Any w a w'

/-- An output operation leaves the input half as it is, and an input operation the output half. -/
structure Apart (w : World) (a : Act) (w' : World) : Prop where
  input : a.op.IsOutput → InputKept w.obj w'.obj a.evs
  output : ¬ a.op.IsOutput → OutputKept w.obj w'.obj a.evs

/-! ## One operation -/

section Step

variable {L : (q : Call) → Answer q → Prop} {w w' : World} {a : Act}

theorem Op.IsFixed.terminated (h : a.op.IsFixed) (s : BufferedSocket) : a.Terminated s := by
  intro c hc
  rw [hc] at h
  exact h.elim

theorem op_apart {s : BufferedSocket} (hi : Inv s) {op : Op} (hop : op.IsFixed) :
    Eff.Sat L op.exec s fun evs _ s' =>
      (op.IsOutput → InputKept s s' evs) ∧ (¬ op.IsOutput → OutputKept s s' evs) := by
  cases op with
  | put i => exact (put_spec hi i).mono fun _ _ _ _ h => ⟨fun _ => h.kept, fun hn => absurd trivial hn⟩
  | flush => exact (flushOp_spec hi).mono fun _ _ _ _ h => ⟨fun _ => h.kept, fun hn => absurd trivial hn⟩
  | get x => exact (get_spec hi x).mono fun _ _ _ _ h => ⟨False.elim, fun _ => h.kept⟩
  | getString c => exact hop.elim

theorem step_apart (h : FixedStep w a w') (hi : Inv w.obj) : Apart w a w' := by
  obtain ⟨hop, h⟩ := h
  obtain ⟨r, -, -, hin, hout⟩ := h.spec (op_apart hi hop)
  exact ⟨hin, hout⟩

end Step

/-! ## Whole sessions -/

/-- In every session of writes, flushes and fixed-width reads, each operation leaves the other half as
it is, and every access lies in its half of the array. -/
theorem halves_apart (i o : Nat) (junk : {bytes : List UInt8 // bytes.length = i + o})
    (r : List (Act × World)) (h : Run.Chain FixedStep (.fresh i o junk) r) :
    Run.Always Sound (.fresh i o junk) r ∧ Run.Chain Apart (.fresh i o junk) r := by
  have hstep : ∀ w a w', FixedStep w a w' → FixedStep w a w' → Good w → Good w' ∧ Apart w a w' :=
    fun w a w' hs _ hw => ⟨step_good hs.2 (hs.1.terminated _) hw, step_apart hs hw.inv⟩
  obtain ⟨hgood, hapart⟩ := h.always_chain hstep h (fresh_good i o junk)
  exact ⟨hgood.imp fun _ hw => hw.sound, hapart⟩

/-- Two bytes are written and one of two that have arrived is read, with one byte of room for each. -/
theorem halves_apart_bytes : ∃ r, Run.Chain FixedStep (.fresh 2 2 ⟨[9, 9, 9, 9], rfl⟩) r ∧
    (r.map fun p => (p.2.obj.unread, p.2.obj.pending)) = [([], [65]), ([2], [65]), ([2], [66])] ∧
    Run.Always Sound (.fresh 2 2 ⟨[9, 9, 9, 9], rfl⟩) r ∧ Run.Chain Apart (.fresh 2 2 ⟨[9, 9, 9, 9], rfl⟩) r := by
  let w₀ : World := .fresh 2 2 ⟨[9, 9, 9, 9], rfl⟩
  let p₁ := w₀.play [] (.put (.scalar (.char 65)))
  let p₂ := p₁.2.play [1, 2] (.get (.char 0))
  let p₃ := p₂.2.play [] (.put (.scalar (.char 66)))
  have h₁ : p₁.2.fault = false := by decide +kernel
  have h₂ : p₂.2.fault = false := by decide +kernel
  have h : Run.Chain FixedStep w₀ [(p₁.1, p₁.2), (p₂.1, p₂.2), (p₃.1, p₃.2)] :=
    ⟨⟨trivial, play_step rfl fun _ _ => trivial⟩, ⟨trivial, play_step h₁ fun _ _ => trivial⟩,
      ⟨trivial, play_step h₂ fun _ _ => trivial⟩, trivial⟩
  exact ⟨_, h, by decide +kernel, halves_apart _ _ _ _ h⟩

end Fdcpp.Buffered
