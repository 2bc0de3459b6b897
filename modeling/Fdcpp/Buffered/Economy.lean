/-
What the output buffer saves: over a whole session, the writes that make a system call are paid for
by the bytes written, at least as many for each as the buffer has room for, less one value.
-/
import Fdcpp.Buffered.Halves

namespace Fdcpp.Buffered

/-! ## One write -/

section Write

variable {L : (q : Call) → Answer q → Prop} {s : BufferedSocket}

/-- A write that fits makes no call while there is room, and sends all that is pending when there is none. -/
theorem writeOutputBuffer_calls (hi : Inv s) {buffer : List UInt8} (hlt : buffer.length < s.outCapacity) :
    Eff.Sat L (writeOutputBuffer buffer) s fun evs r _ => evs = [] ∨
      (s.outCapacity ≤ s.pending.length + buffer.length ∧ (r = .ok () → sent evs = s.pending)) := by
  have hout := hi.out
  have hbase := hi.base
  have hlength := hi.length
  have hpending : s.pending.length = s.outSize := Bytes.length_slice (by omega)
  unfold writeOutputBuffer
  rw [Eff.sat_bind, Eff.sat_get]
  dsimp only
  rw [if_neg (by omega)]
  split
  · rename_i hfull
    rw [Eff.sat_bind]
    refine load_spec hi (by simp only [Access.Inside]; omega) fun hi₁ => ?_
    change Eff.Sat L (sendAll s.pending >>= fun _ => _) _ _
    refine (sendAll_spec _).bind ?_ ?_
    · rintro evs ⟨⟩ s' - ⟨rfl, -, hs⟩
      rw [Eff.sat_bind, Eff.sat_modify]
      refine append_spec hi₁.flushed (by show 0 + _ ≤ s.outCapacity; omega) fun s'' _ _ _ =>
        .inr ⟨by omega, fun _ => ?_⟩
      simpa using hs
    · rintro evs e s' - -
      exact .inr ⟨by omega, fun h => by cases h⟩
  · rename_i hroom
    exact append_spec hi (by omega) fun s' _ _ _ => .inl rfl

/-- What a `put` of a value that fits does to the output, with the calls that it makes. -/
theorem put_calls (hi : Inv s) (i : Item) (hlt : i.encode.length < s.outCapacity) :
    Eff.Sat L (Op.put i).exec s fun evs r _ => evs = [] ∨
      (s.outCapacity ≤ s.pending.length + i.encode.length ∧ ∀ v, r = .ok v → sent evs = s.pending) := by
  refine sat_map (m := i.shl) (f := fun _ => none) (i.shl_eq ▸ writeOutputBuffer_calls hi hlt) ?_ ?_
  · rintro evs ⟨⟩ s' h
    exact h.imp_right fun h => ⟨h.1, fun _ _ => h.2 rfl⟩
  · rintro evs e s' h
    exact h.imp_right fun h => ⟨h.1, nofun⟩

end Write

/-! ## Whole sessions -/

/-- A step of a session in which no call fails, each string read finds a terminator in time, and no
value takes more than `m` bytes. -/
structure BriefStep (m : Nat) (w : World) (a : Act) (w' : World) : Prop where
  step : Step Flawless w a w'
  terminated : a.Terminated w.obj
  short : ∀ i, a.op = .put i → i.encode.length ≤ m

/-- 1 for a write that makes a system call. -/
def callingWrite (_ : World) (a : Act) (_ : World) : Nat :=
  match a.op with
  | .put _ => if a.evs.isEmpty then 0 else 1
  | _ => 0

def bytesWritten (_ : World) (a : Act) (_ : World) : Nat :=
  match a.op with
  | .put i => i.encode.length
  | _ => 0

section Sessions

variable {m : Nat} {w w' : World} {a : Act}

/-- Each write that makes a call takes the bytes that pay for it out of the pending output. -/
theorem put_pays (h : BriefStep m w a w') (hi : Inv w.obj) (hm : m < w.obj.outCapacity) {i : Item}
    (ha : a.op = .put i) :
    (w.obj.outCapacity - m) * callingWrite w a w' + w'.obj.pending.length ≤
      w.obj.pending.length + bytesWritten w a w' := by
  have hshort := h.short i ha
  have hspec : Eff.Sat Flawless a.op.exec w.obj _ := ha ▸ (put_spec hi i).and (put_calls hi i (by omega))
  obtain ⟨r, -, hl, hput, hcalls⟩ := h.step.spec hspec
  obtain ⟨v, rfl⟩ : ∃ v, r = .ok v := by
    cases r with
    | ok v => exact ⟨v, rfl⟩
    | error e => exact absurd (hput.error e rfl).2.2 (Flawless.not_thrown hl)
  have hok := (hput.ok v rfl).2
  rw [PutOk, if_neg (by omega)] at hok
  simp only [callingWrite, bytesWritten, ha]
  rcases hcalls with hnone | ⟨hfull, hsent⟩
  · -- without a call the value is appended
    have hpending : w'.obj.pending = w.obj.pending ++ i.encode := by
      rw [hnone, sent_nil] at hok
      rcases hok with ⟨-, hp⟩ | ⟨he, hp⟩
      · exact hp
      · rw [hp, ← he, List.nil_append]
    simp [hnone, hpending]
  · have hpending : w'.obj.pending = i.encode := by
      rw [hsent v rfl] at hok
      rcases hok with ⟨he, hp⟩ | ⟨-, hp⟩
      · rw [hp, he, List.nil_append]
      · exact hp
    rw [hpending]
    split <;> omega

/-- What the other operations leave pending was pending before. -/
theorem other_pays (h : BriefStep m w a w') (hi : Inv w.obj) (ha : ∀ i, a.op ≠ .put i) :
    w'.obj.pending.length ≤ w.obj.pending.length := by
  obtain ⟨op, evs⟩ := a
  cases op with
  | put i => exact absurd rfl (ha i)
  | flush =>
    obtain ⟨r, -, -, hp⟩ := h.step.spec (flushOp_spec hi)
    cases r with
    | ok v => rw [(hp.ok v rfl).2.2]; exact Nat.zero_le _
    | error e => rw [(hp.error e rfl).1]
  | get x =>
    obtain ⟨r, -, -, hp⟩ := h.step.spec (get_spec hi x)
    rw [hp.kept.pending]
  | getString c =>
    obtain ⟨r, -, -, hp⟩ := h.step.spec (getString_spec hi c)
    rw [(hp (h.terminated c rfl)).kept.pending]

theorem brief_outCapacity (h : BriefStep m w a w') (hi : Inv w.obj) : w'.obj.outCapacity = w.obj.outCapacity := by
  obtain ⟨op, evs⟩ := a
  cases op with
  | put i =>
    obtain ⟨r, -, -, hp⟩ := h.step.spec (put_spec hi i)
    exact hp.kept.outCapacity
  | flush =>
    obtain ⟨r, -, -, hp⟩ := h.step.spec (flushOp_spec hi)
    exact hp.kept.outCapacity
  | get x =>
    obtain ⟨r, -, -, hp⟩ := h.step.spec (get_spec hi x)
    exact hp.kept.outCapacity
  | getString c =>
    obtain ⟨r, -, -, hp⟩ := h.step.spec (getString_spec hi c)
    exact (hp (h.terminated c rfl)).kept.outCapacity

/-- The step lemma: the pending output is the potential that pays for the calls. -/
theorem brief_pays (h : BriefStep m w a w') (hi : Inv w.obj) (hm : m < w.obj.outCapacity) :
    (w.obj.outCapacity - m) * callingWrite w a w' + w'.obj.pending.length ≤
      w.obj.pending.length + bytesWritten w a w' := by
  by_cases ha : ∃ i, a.op = .put i
  · obtain ⟨i, ha⟩ := ha
    exact put_pays h hi hm ha
  · have hle := other_pays h hi fun i hi => ha ⟨i, hi⟩
    have hcalls : callingWrite w a w' = 0 := by
      unfold callingWrite
      split
      · rename_i i hop
        exact absurd ⟨i, hop⟩ ha
      · rfl
    rw [hcalls]
    omega

end Sessions

/-- In every session, the writes that make a system call are paid for by the bytes written: each of
them by the size of the output buffer less the longest value. -/
theorem writes_economical (i o : Nat) (junk : {bytes : List UInt8 // bytes.length = i + o}) {m : Nat} (hm : m < o)
    (r : List (Act × World)) (h : Run.Chain (BriefStep m) (.fresh i o junk) r) :
    (o - m) * Run.total callingWrite (.fresh i o junk) r + (Run.last (.fresh i o junk) r).obj.pending.length ≤
      Run.total bytesWritten (.fresh i o junk) r := by
  have hstep : ∀ w a w', BriefStep m w a w' → (Good w ∧ w.obj.outCapacity = o) →
      (Good w' ∧ w'.obj.outCapacity = o) ∧
        (o - m) * callingWrite w a w' + w'.obj.pending.length ≤ w.obj.pending.length + bytesWritten w a w' := by
    rintro w a w' hs ⟨hw, rfl⟩
    exact ⟨⟨step_good hs.step hs.terminated hw, brief_outCapacity hs hw.inv⟩,
      brief_pays hs hw.inv hm⟩
  have hpays := h.total_le _ _ _ hstep ⟨fresh_good i o junk, rfl⟩
  rw [Run.total_mul, show (World.fresh i o junk).obj.pending = [] from make_pending i o junk] at hpays
  simpa using hpays

/-- Two numbers in an output buffer of four bytes: the second makes the first one go. -/
theorem writes_economical_two : ∃ r, Run.Chain (BriefStep 2) (.fresh 0 4 ⟨[0, 0, 0, 0], rfl⟩) r ∧
    (4 - 2) * Run.total callingWrite (.fresh 0 4 ⟨[0, 0, 0, 0], rfl⟩) r +
        (Run.last (.fresh 0 4 ⟨[0, 0, 0, 0], rfl⟩) r).obj.pending.length ≤
      Run.total bytesWritten (.fresh 0 4 ⟨[0, 0, 0, 0], rfl⟩) r ∧
    Run.total callingWrite (.fresh 0 4 ⟨[0, 0, 0, 0], rfl⟩) r = 1 := by
  let w₀ : World := .fresh 0 4 ⟨[0, 0, 0, 0], rfl⟩
  let p₁ := w₀.play [] (.put (.scalar (.u16 1)))
  let p₂ := p₁.2.play [] (.put (.scalar (.u16 2)))
  have h₁ : BriefStep 2 w₀ p₁.1 p₁.2 :=
    ⟨play_step rfl (by unfold Prog.Legal; decide +kernel), nofun, by rintro _ ⟨⟩; decide⟩
  have h₂ : BriefStep 2 p₁.2 p₂.1 p₂.2 :=
    ⟨play_step (by decide +kernel) (by unfold Prog.Legal; decide +kernel), nofun, by rintro _ ⟨⟩; decide⟩
  have h : Run.Chain (BriefStep 2) w₀ [(p₁.1, p₁.2), (p₂.1, p₂.2)] := ⟨h₁, h₂, trivial⟩
  exact ⟨_, h, writes_economical 0 4 _ (by decide) _ h, by decide +kernel⟩

end Fdcpp.Buffered
