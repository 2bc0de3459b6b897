/-
Loops that an environment feeds: a pass takes an answer, and the loop goes on in a new state or ends
with a result. Over a stream of answers, an invariant of the passes holds as long as the loop goes
on, and a measure that falls whenever an answer is of use makes it end, unless the answers are
useless from some point on.
-/
import Mathlib.Data.Stream.Init
import Mathlib.Order.WellFounded

namespace Feed

variable {σ A ρ : Type}

/-- The passes that the answers are good for, each with the state it starts in, and where they lead. -/
def run (pass : σ → A → σ ⊕ ρ) : σ → List A → List (σ × A) × (σ ⊕ ρ)
  | s, [] => ([], .inl s)
  | s, a :: as =>
    match pass s a with
    | .inl s' => ((s, a) :: (run pass s' as).1, (run pass s' as).2)
    | .inr r => ([(s, a)], .inr r)

/-- The passes over the first `n` answers of a stream. -/
def after (pass : σ → A → σ ⊕ ρ) (s : σ) (k : Stream' A) (n : Nat) : List (σ × A) × (σ ⊕ ρ) := run pass s (k.take n)

/-- The loop ends after finitely many passes. -/
def Ends (pass : σ → A → σ ⊕ ρ) (s : σ) (k : Stream' A) : Prop := ∃ n r, (after pass s k n).2 = .inr r

/-- Every answer that the loop takes is one that `L` allows in the state it is in. -/
def Legal (L : σ → A → Prop) (pass : σ → A → σ ⊕ ρ) (s : σ) (k : Stream' A) : Prop :=
  ∀ n s', (after pass s k n).2 = .inl s' → L s' (k.get n)

section Rules

variable {pass : σ → A → σ ⊕ ρ} {s s' : σ} {k : Stream' A} {r : ρ} {n m : Nat}

theorem run_singleton (s : σ) (a : A) : run pass s [a] = ([(s, a)], pass s a) := by
  rw [run]
  cases pass s a with
  | inl s' => rfl
  | inr r => rfl

theorem run_append (s : σ) (as bs : List A) :
    run pass s (as ++ bs) = match (run pass s as).2 with
      | .inl s' => ((run pass s as).1 ++ (run pass s' bs).1, (run pass s' bs).2)
      | .inr r => ((run pass s as).1, .inr r) := by
  induction as generalizing s with
  | nil => rfl
  | cons a as ih =>
    rw [List.cons_append, run, run]
    cases pass s a with
    | inl s₁ =>
      simp only [ih]
      cases (run pass s₁ as).2 with
      | inl s' => rfl
      | inr r => rfl
    | inr r => rfl

theorem after_succ (pass : σ → A → σ ⊕ ρ) (s : σ) (k : Stream' A) (n : Nat) :
    after pass s k (n + 1) = match (after pass s k n).2 with
      | .inl s' => ((after pass s k n).1 ++ [(s', k.get n)], pass s' (k.get n))
      | .inr r => ((after pass s k n).1, .inr r) := by
  rw [after, Stream'.take_succ', run_append]
  simp only [run_singleton]
  rfl

theorem after_succ_going (h : (after pass s k n).2 = .inl s') :
    after pass s k (n + 1) = ((after pass s k n).1 ++ [(s', k.get n)], pass s' (k.get n)) := by
  rw [after_succ, h]

/-- A loop that has ended takes no more answers. -/
theorem after_ended (h : (after pass s k n).2 = .inr r) (hm : n ≤ m) : after pass s k m = after pass s k n := by
  induction m, hm using Nat.le_induction with
  | base => rfl
  | succ m _ ih =>
    rw [after_succ, ih, h]
    exact Prod.ext rfl h.symm

/-- A loop that goes on after `m` answers went on before. -/
theorem going_of_le (h : (after pass s k m).2 = .inl s') (hn : n ≤ m) : ∃ s₁, (after pass s k n).2 = .inl s₁ := by
  cases hr : (after pass s k n).2 with
  | inl s₁ => exact ⟨s₁, rfl⟩
  | inr r =>
    rw [after_ended hr hn, hr] at h
    cases h

theorem not_ends : ¬ Ends pass s k ↔ ∀ n, ∃ s', (after pass s k n).2 = .inl s' := by
  constructor
  · intro h n
    cases hr : (after pass s k n).2 with
    | inl s' => exact ⟨s', rfl⟩
    | inr r => exact absurd ⟨n, r, hr⟩ h
  · rintro h ⟨n, r, hr⟩
    obtain ⟨s', hs⟩ := h n
    rw [hr] at hs
    cases hs

/-- The rule for an invariant of the passes made and the state they lead to. -/
theorem Legal.invariant {L : σ → A → Prop} {I : List (σ × A) → σ → Prop} {Q : List (σ × A) → ρ → Prop}
    (hl : Legal L pass s k) (h0 : I [] s)
    (hgo : ∀ past s a s', I past s → L s a → pass s a = .inl s' → I (past ++ [(s, a)]) s')
    (hend : ∀ past s a r, I past s → L s a → pass s a = .inr r → Q (past ++ [(s, a)]) r) (n : Nat) :
    (∀ s', (after pass s k n).2 = .inl s' → I (after pass s k n).1 s') ∧
    (∀ r, (after pass s k n).2 = .inr r → Q (after pass s k n).1 r) := by
  induction n with
  | zero =>
    constructor
    · rintro s' ⟨⟩
      exact h0
    · exact nofun
  | succ n ih =>
    cases hr : (after pass s k n).2 with
    | inl s₁ =>
      have hI := ih.1 s₁ hr
      have hL := hl n s₁ hr
      rw [after_succ_going hr]
      exact ⟨fun s' hp => hgo _ _ _ _ hI hL hp, fun r hp => hend _ _ _ _ hI hL hp⟩
    | inr r =>
      rwa [after_ended hr (Nat.le_succ n)]

/-- The rule for a measure: each pass that goes on lowers it, or keeps it and had a useless answer. -/
theorem ends_or_idle {V : σ → Nat} {U : A → Prop}
    (hV : ∀ n s' s'', (after pass s k n).2 = .inl s' → pass s' (k.get n) = .inl s'' →
      V s'' < V s' ∨ V s'' = V s' ∧ U (k.get n)) :
    Ends pass s k ∨ ∃ n, ∀ m, n ≤ m → U (k.get m) := by
  by_cases hends : Ends pass s k
  · exact .inl hends
  · right
    choose f hf using not_ends.1 hends
    have hnext : ∀ n, V (f (n + 1)) < V (f n) ∨ V (f (n + 1)) = V (f n) ∧ U (k.get n) := by
      intro n
      refine hV n (f n) (f (n + 1)) (hf n) ?_
      have h := hf (n + 1)
      rwa [after_succ_going (hf n)] at h
    have hmono : ∀ n m, n ≤ m → V (f m) ≤ V (f n) := by
      intro n m hm
      induction m, hm using Nat.le_induction with
      | base => exact Nat.le_refl _
      | succ m _ ih =>
        have h := hnext m
        omega
    -- from where the measure is lowest it stays so
    obtain ⟨n, hn⟩ : ∃ n, ∀ m, V (f n) ≤ V (f m) :=
      ⟨Function.argmin (V ∘ f), fun m => Function.argmin_le (V ∘ f) m⟩
    refine ⟨n, fun m hm => ?_⟩
    have h₁ := hmono n m hm
    have h₂ := hn (m + 1)
    rcases hnext m with h | ⟨-, h⟩
    · omega
    · exact h

end Rules

end Feed
