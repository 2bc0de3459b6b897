/-
Infinite behaviours of a transition relation, in which a state may repeat, and weak fairness: an
action that stays enabled is taken. A condition leads to another when a helpful action stays enabled
while it lasts, and step by step when a rank goes down.
-/
import Mathlib.Data.Nat.Init
import Mathlib.Order.Nat
import Mathlib.Tactic.Push

namespace Fair

variable {σ : Type}

/-- Each state of `b` is followed by a step or by itself. -/
def Behaves (step : σ → σ → Prop) (b : Nat → σ) : Prop := ∀ n, step (b n) (b (n + 1)) ∨ b (n + 1) = b n

/-- If `act` is enabled from some time on, it is taken at that time or later. -/
def Weak (act : σ → σ → Prop) (b : Nat → σ) : Prop :=
  ∀ n, (∀ m, n ≤ m → ∃ s, act (b m) s) → ∃ m, n ≤ m ∧ act (b m) (b (m + 1))

/-- Whenever `P` holds, `Q` holds then or later. -/
def LeadsTo (b : Nat → σ) (P Q : σ → Prop) : Prop := ∀ n, P (b n) → ∃ m, n ≤ m ∧ Q (b m)

section Rules

variable {step act : σ → σ → Prop} {b : Nat → σ} {I P Q R : σ → Prop}

theorem Behaves.always (h : Behaves step b) (h0 : P (b 0)) (hstep : ∀ s s', step s s' → P s → P s') : ∀ n, P (b n) := by
  intro n
  induction n with
  | zero => exact h0
  | succ n ih =>
    rcases h n with hs | hs
    · exact hstep _ _ hs ih
    · rw [hs]; exact ih

/-- A condition that every step keeps or replaces by `Q` lasts until `Q` comes. -/
theorem Behaves.until (h : Behaves step b) (hI : ∀ n, I (b n))
    (hstep : ∀ s s', I s → I s' → step s s' → P s → P s' ∨ Q s')
    {n : Nat} (hP : P (b n)) (hQ : ∀ m, n ≤ m → ¬ Q (b m)) : ∀ m, n ≤ m → P (b m) := by
  intro m hm
  induction m, hm using Nat.le_induction with
  | base => exact hP
  | succ m hm ih =>
    rcases h m with hs | hs
    · exact (hstep _ _ (hI m) (hI (m + 1)) hs ih).resolve_right (hQ (m + 1) (Nat.le_succ_of_le hm))
    · rw [hs]; exact ih

theorem LeadsTo.of_imp (h : ∀ s, P s → Q s) : LeadsTo b P Q := fun n hn => ⟨n, le_rfl, h _ hn⟩

theorem LeadsTo.trans (h : LeadsTo b P Q) (h' : LeadsTo b Q R) : LeadsTo b P R := by
  intro n hn
  obtain ⟨m, hm, hQ⟩ := h n hn
  obtain ⟨k, hk, hR⟩ := h' m hQ
  exact ⟨k, hm.trans hk, hR⟩

theorem LeadsTo.exists {ι : Sort*} {P : ι → σ → Prop} (h : ∀ i, LeadsTo b (P i) Q) :
    LeadsTo b (fun s => ∃ i, P i s) Q := by
  rintro n ⟨i, hi⟩
  exact h i n hi

/-- The rule of a helpful action: while `P` lasts it stays enabled, and it brings about `Q`. -/
theorem LeadsTo.ensures (h : Behaves step b) (hI : ∀ n, I (b n)) (hf : Weak act b)
    (hstep : ∀ s s', I s → I s' → step s s' → P s → P s' ∨ Q s')
    (hact : ∀ s s', I s → I s' → act s s' → P s → Q s') (hen : ∀ s, I s → P s → ∃ s', act s s') : LeadsTo b P Q := by
  intro n hn
  by_contra hnone
  push Not at hnone
  have hP := h.until hI hstep hn hnone
  obtain ⟨m, hm, ha⟩ := hf n fun m hm => hen _ (hI m) (hP m hm)
  exact hnone (m + 1) (Nat.le_succ_of_le hm) (hact _ _ (hI m) (hI (m + 1)) ha (hP m hm))

/-- The rule of a rank that goes down until `Q` comes. -/
theorem LeadsTo.of_rank (rank : σ → Nat)
    (h : ∀ k, LeadsTo b (fun s => P s ∧ rank s = k) fun s => Q s ∨ (P s ∧ rank s < k)) : LeadsTo b P Q := by
  have hk : ∀ k n, P (b n) → rank (b n) = k → ∃ m, n ≤ m ∧ Q (b m) := by
    intro k
    induction k using Nat.strong_induction_on with
    | _ k ih =>
      intro n hn hr
      obtain ⟨m, hm, hQ | ⟨hP, hlt⟩⟩ := h k n ⟨hn, hr⟩
      · exact ⟨m, hm, hQ⟩
      · obtain ⟨m', hm', hQ⟩ := ih _ hlt m hP rfl
        exact ⟨m', hm.trans hm', hQ⟩
  intro n hn
  exact hk _ n hn rfl

end Rules

end Fair
