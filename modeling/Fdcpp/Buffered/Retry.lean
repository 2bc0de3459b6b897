/-
Output after a failed `send`. The pending bytes are forgotten only when all of them have been sent,
so that none is lost; those that a failed attempt has sent are sent again by the next one.
-/
import Fdcpp.Buffered.Invariant

namespace Fdcpp.Buffered

open Bytes

/-- The operation sends the pending output: a `flush`, or a `put` that must make room. -/
def Op.Drains (s : BufferedSocket) : Op → Prop
  | .put i => i.encode.length < s.outCapacity ∧ s.outCapacity ≤ s.outSize + i.encode.length
  | .flush => True
  | _ => False

/-- Calls of `flush` that throw, with what each did in `failed`, and then one that does not. -/
inductive Retries : BufferedSocket → List (List Event) → List Event → BufferedSocket → Prop
  | done {s s' : BufferedSocket} {evs : List Event} {v : Option Value} :
      (Op.flush.exec.prog s).Runs evs (.ok v, s') → Retries s [] evs s'
  | again {s s₁ s' : BufferedSocket} {evs last : List Event} {failed : List (List Event)} {e : Exc} :
      (Op.flush.exec.prog s).Runs evs (.error e, s₁) → Retries s₁ failed last s' → Retries s (evs :: failed) last s'

section Attempts

variable {s s' : BufferedSocket} {evs last : List Event} {failed : List (List Event)}

/-- An attempt that throws leaves the pending output as it was. -/
theorem Op.Drains.throws {op : Op} (hd : op.Drains s) (hi : Inv s) {e : Exc}
    (hr : (op.exec.prog s).Runs evs (.error e, s')) : Inv s' ∧ s'.pending = s.pending := by
  cases op with
  | put i =>
    have hp := Any.post (put_spec hi i) hr
    exact ⟨hp.inv, (hp.error e rfl).1⟩
  | flush =>
    have hp := Any.post (flushOp_spec hi) hr
    exact ⟨hp.inv, (hp.error e rfl).1⟩
  | get x => exact hd.elim
  | getString c => exact hd.elim

/-- The attempt that succeeds sends all the pending output. -/
theorem Retries.sent_last (h : Retries s failed last s') (hi : Inv s) : sent last = s.pending := by
  induction h with
  | done hr => exact ((Any.post (flushOp_spec hi) hr).ok _ rfl).2.1
  | @again s _ _ _ _ _ _ hr _ ih =>
    have hd : Op.flush.Drains s := trivial
    obtain ⟨hi', hpend⟩ := hd.throws hi hr
    rw [← hpend]
    exact ih hi'

theorem sent_flatten : sent failed.flatten = [] ↔ ∀ es ∈ failed, sent es = [] := by
  induction failed with
  | nil => simp
  | cons es failed ih => simp [ih]

end Attempts

/-- When an operation that drains the output throws and `flush` is called until it succeeds, the
bytes sent are the pending ones exactly if no attempt that failed had sent any. -/
theorem retry_exact_iff {s s₁ s' : BufferedSocket} (hi : Inv s) {op : Op} (hd : op.Drains s) {evs last : List Event}
    {e : Exc} (hr : (op.exec.prog s).Runs evs (.error e, s₁)) {failed : List (List Event)}
    (h : Retries s₁ failed last s') :
    sent evs ++ sent failed.flatten ++ sent last = s.pending ↔ ∀ es ∈ evs :: failed, sent es = [] := by
  obtain ⟨hi₁, hpend⟩ := hd.throws hi hr
  rw [h.sent_last hi₁, hpend, List.forall_mem_cons, ← sent_flatten]
  constructor
  · intro heq
    have hlen := congrArg List.length heq
    simp only [List.length_append] at hlen
    constructor
    · exact List.length_eq_zero_iff.1 (by omega)
    · exact List.length_eq_zero_iff.1 (by omega)
  · rintro ⟨h₁, h₂⟩
    rw [h₁, h₂]
    rfl

/-- An object with three bytes pending in a buffer of four. -/
def owingAbc : BufferedSocket := { BufferedSocket.make 0 4 [97, 98, 99, 0] with outSize := 3 }

theorem owingAbc_inv : Inv owingAbc :=
  ⟨by decide, by decide, by decide, rfl, rfl, by intro a ha; cases ha⟩

/-- The first `send` of a `flush` fails, and the next `flush` sends everything. -/
theorem retry_exact_clean : ∃ evs e s₁ last s', (Op.flush.exec.prog owingAbc).Runs evs (.error e, s₁) ∧
    Retries s₁ [] last s' ∧ sent evs ++ sent last = owingAbc.pending := by
  have hv : (owingAbc.perform [.fails 104] .flush).2.1 = .error (.system (throwSystemError "socket" "send()" 104)) := by
    decide +kernel
  have hr := perform_runs owingAbc [.fails 104] .flush hv
  have hv' : ((owingAbc.perform [.fails 104] .flush).2.2.perform [.accepts 3] .flush).2.1 = .ok none := by
    decide +kernel
  have hr' := perform_runs (owingAbc.perform [.fails 104] .flush).2.2 [.accepts 3] .flush hv'
  have hnone : sent (owingAbc.perform [.fails 104] .flush).1 = [] := by decide +kernel
  have hd : Op.flush.Drains owingAbc := trivial
  have h := (retry_exact_iff owingAbc_inv hd hr (.done hr')).2 (by simpa using hnone)
  exact ⟨_, _, _, _, _, hr, .done hr', by simpa using h⟩

/-- One byte is sent before the failure, and sent again by the next `flush`. -/
theorem retry_duplicates : ∃ evs e s₁ last s', (Op.flush.exec.prog owingAbc).Runs evs (.error e, s₁) ∧
    Retries s₁ [] last s' ∧ owingAbc.pending = [97, 98, 99] ∧ sent evs ++ sent last = [97, 97, 98, 99] := by
  have hv : (owingAbc.perform [.accepts 1, .fails 104] .flush).2.1 =
      .error (.system (throwSystemError "socket" "send()" 104)) := by decide +kernel
  have hr := perform_runs owingAbc [.accepts 1, .fails 104] .flush hv
  have hv' : ((owingAbc.perform [.accepts 1, .fails 104] .flush).2.2.perform [.accepts 3] .flush).2.1 = .ok none := by
    decide +kernel
  have hr' := perform_runs (owingAbc.perform [.accepts 1, .fails 104] .flush).2.2 [.accepts 3] .flush hv'
  exact ⟨_, _, _, _, _, hr, .done hr', by decide, by decide +kernel⟩

end Fdcpp.Buffered
