/-
Runs of a labelled transition relation, as the list of their labels and the states they reach:
a property kept by every step holds in every state of a run, and a property that a step keeps
exactly when a condition holds is kept along a run exactly when every step meets the condition.
-/
import Mathlib.Data.List.Basic

namespace Run

variable {σ ε : Type}

/-- `r` is a run from `s`: its labels, each with the state reached, in order. -/
def Chain (step : σ → ε → σ → Prop) : σ → List (ε × σ) → Prop
  | _, [] => True
  | s, (e, s') :: r => step s e s' ∧ Chain step s' r

/-- `P` holds in `s` and in every state that `r` reaches. -/
def Always (P : σ → Prop) (s : σ) (r : List (ε × σ)) : Prop := P s ∧ ∀ p ∈ r, P p.2

/-- The last state of a run from `s`. -/
def last (s : σ) : List (ε × σ) → σ
  | [] => s
  | (_, s') :: r => last s' r

/-- The sum of `f` over the steps of a run from `s`. -/
def total (f : σ → ε → σ → Nat) (s : σ) : List (ε × σ) → Nat
  | [] => 0
  | (e, s') :: r => f s e s' + total f s' r

section Rules

variable {step C R : σ → ε → σ → Prop} {P : σ → Prop} {s s' : σ} {e : ε} {r : List (ε × σ)}

@[simp] theorem chain_nil : Chain step s [] := trivial

@[simp] theorem chain_cons : Chain step s ((e, s') :: r) ↔ step s e s' ∧ Chain step s' r := Iff.rfl

instance Chain.decidable [∀ s e s', Decidable (step s e s')] : ∀ (s : σ) (r : List (ε × σ)), Decidable (Chain step s r)
  | _, [] => .isTrue trivial
  | s, (e, s') :: r =>
    have := Chain.decidable s' r
    inferInstanceAs (Decidable (step s e s' ∧ Chain step s' r))

theorem chain_and {step' : σ → ε → σ → Prop} : ∀ {s : σ} {r : List (ε × σ)},
    Chain (fun s e s' => step s e s' ∧ step' s e s') s r ↔ Chain step s r ∧ Chain step' s r
  | _, [] => by simp
  | s, (e, s') :: r => by
    rw [chain_cons, chain_cons, chain_cons, chain_and, and_and_and_comm]

@[simp] theorem always_nil : Always P s ([] : List (ε × σ)) ↔ P s := by simp [Always]

@[simp] theorem always_cons : Always P s ((e, s') :: r) ↔ P s ∧ Always P s' r := by
  simp [Always]

theorem Always.imp {P' : σ → Prop} (h : Always P s r) (hP : ∀ s, P s → P' s) : Always P' s r :=
  ⟨hP _ h.1, fun p hp => hP _ (h.2 p hp)⟩

theorem last_of_always : ∀ {s : σ} {r : List (ε × σ)}, Always P s r → P (last s r)
  | _, [], h => h.1
  | _, (_, _) :: _, h => by
    have ih := last_of_always (always_cons.1 h).2
    exact ih

/-- What a step that meets `C` keeps, and what it does from a state where this holds, hold all
along a run whose steps all meet `C`. -/
theorem Chain.always_chain (hstep : ∀ s e s', step s e s' → C s e s' → P s → P s' ∧ R s e s') :
    ∀ {s : σ} {r : List (ε × σ)}, Chain step s r → Chain C s r → P s → Always P s r ∧ Chain R s r
  | _, [], _, _, hs => ⟨always_nil.2 hs, trivial⟩
  | s, (e, s') :: _, ⟨h, hr⟩, ⟨hc, hcr⟩, hs => by
    obtain ⟨hs', hR⟩ := hstep s e s' h hc hs
    obtain ⟨ha, hch⟩ := Chain.always_chain hstep hr hcr hs'
    exact ⟨always_cons.2 ⟨hs, ha⟩, hR, hch⟩

/-- A property kept by every step that meets `C` holds all along a run whose steps all meet `C`. -/
theorem Chain.always (hstep : ∀ s e s', step s e s' → C s e s' → P s → P s') (h : Chain step s r)
    (hc : Chain C s r) (hs : P s) : Always P s r :=
  (Chain.always_chain (R := fun _ _ _ => True) (fun s e s' h hc hs => ⟨hstep s e s' h hc hs, trivial⟩) h hc hs).1

theorem Chain.mono (himp : ∀ s e s', step s e s' → C s e s') :
    ∀ {s : σ} {r : List (ε × σ)}, Chain step s r → Chain C s r
  | _, [], _ => trivial
  | s, (e, s') :: _, ⟨h, hr⟩ => ⟨himp s e s' h, Chain.mono himp hr⟩

/-- What each step implies, in states where a property holds, is so all along a run. -/
theorem Chain.imp_of_always (himp : ∀ s e s', step s e s' → P s' → C s e s') :
    ∀ {s : σ} {r : List (ε × σ)}, Chain step s r → Always P s r → Chain C s r
  | _, [], _, _ => trivial
  | s, (e, s') :: r, ⟨h, hr⟩, ha => by
    have ha' := (always_cons.1 ha).2
    exact ⟨himp s e s' h ha'.1, Chain.imp_of_always himp hr ha'⟩

/-- The steps of a run start in states where an invariant holds. -/
theorem Chain.and_invariant (hstep : ∀ s e s', step s e s' → P s → P s') :
    ∀ {s : σ} {r : List (ε × σ)}, Chain step s r → P s → Chain (fun s e s' => step s e s' ∧ P s) s r
  | _, [], _, _ => trivial
  | s, (e, s') :: _, ⟨h, hr⟩, hs => ⟨⟨h, hs⟩, Chain.and_invariant hstep hr (hstep s e s' h hs)⟩

theorem total_add (f g : σ → ε → σ → Nat) :
    ∀ (s : σ) (r : List (ε × σ)), total (fun s e s' => f s e s' + g s e s') s r = total f s r + total g s r
  | _, [] => rfl
  | s, (e, s') :: r => by
    simp only [total, total_add f g s' r]
    omega

theorem total_mul (c : Nat) (f : σ → ε → σ → Nat) :
    ∀ (s : σ) (r : List (ε × σ)), total (fun s e s' => c * f s e s') s r = c * total f s r
  | _, [] => rfl
  | s, (e, s') :: r => by
    simp only [total, total_mul c f s' r, Nat.mul_add]

/-- When every step takes out of `stock` and puts in what it adds up, a run does so in total. -/
theorem Chain.total_balance (out inn : σ → ε → σ → Nat) (stock : σ → Nat)
    (hstep : ∀ s e s', step s e s' → P s → P s' ∧ out s e s' + stock s' = stock s + inn s e s') :
    ∀ {s : σ} {r : List (ε × σ)}, Chain step s r → P s →
      total out s r + stock (last s r) = stock s + total inn s r
  | _, [], _, _ => by simp [total, last]
  | s, (e, s') :: r, ⟨h, hr⟩, hs => by
    obtain ⟨hs', hbal⟩ := hstep s e s' h hs
    have ih := Chain.total_balance out inn stock hstep hr hs'
    simp only [total, last]
    omega

/-- The accounting of a potential: when every step pays for what it costs out of its credit and the
potential, a run does so in total. -/
theorem Chain.total_le (cost credit : σ → ε → σ → Nat) (potential : σ → Nat)
    (hstep : ∀ s e s', step s e s' → P s → P s' ∧ cost s e s' + potential s' ≤ potential s + credit s e s') :
    ∀ {s : σ} {r : List (ε × σ)}, Chain step s r → P s →
      total cost s r + potential (last s r) ≤ potential s + total credit s r
  | _, [], _, _ => by simp [total, last]
  | s, (e, s') :: r, ⟨h, hr⟩, hs => by
    obtain ⟨hs', hpay⟩ := hstep s e s' h hs
    have ih := Chain.total_le cost credit potential hstep hr hs'
    simp only [total, last]
    omega

/-- When the steps that meet `C` keep an invariant that implies `Q`, and the others lose `Q`, a run
keeps `Q` exactly if all its steps meet `C`. -/
theorem Chain.always_iff {Q : σ → Prop} (hQ : ∀ s, P s → Q s)
    (hgood : ∀ s e s', step s e s' → P s → C s e s' → P s')
    (hbad : ∀ s e s', step s e s' → P s → Q s' → C s e s') :
    ∀ {s : σ} {r : List (ε × σ)}, Chain step s r → P s → (Always Q s r ↔ Chain C s r)
  | s, [], _, hs => iff_of_true (always_nil.2 (hQ s hs)) trivial
  | s, (e, s') :: r, ⟨h, hr⟩, hs => by
    rw [always_cons, chain_cons, and_iff_right (hQ s hs)]
    constructor
    · intro ha
      have hc := hbad s e s' h hs ha.1
      exact ⟨hc, (Chain.always_iff hQ hgood hbad hr (hgood s e s' h hs hc)).1 ha⟩
    · rintro ⟨hc, hcr⟩
      exact (Chain.always_iff hQ hgood hbad hr (hgood s e s' h hs hc)).2 hcr

/-- The rule for a simulation: another system does what each step does, with the same label. -/
theorem Chain.simulates {τ : Type} {step' : τ → ε → τ → Prop} {Sim : σ → τ → Prop}
    (hstep : ∀ s e s' t, step s e s' → Sim s t → ∃ t', step' t e t' ∧ Sim s' t') :
    ∀ {s : σ} {r : List (ε × σ)} {t : τ}, Chain step s r → Sim s t →
      ∃ r', r'.map Prod.fst = r.map Prod.fst ∧ Chain step' t r' ∧ Sim (last s r) (last t r')
  | _, [], _, _, hs => ⟨[], rfl, trivial, hs⟩
  | s, (e, s') :: r, t, ⟨h, hr⟩, hs => by
    obtain ⟨t', ht, hs'⟩ := hstep s e s' t h hs
    obtain ⟨r', hlabels, hr', hlast⟩ := Chain.simulates hstep hr hs'
    exact ⟨(e, t') :: r', congrArg (e :: ·) hlabels, ⟨ht, hr'⟩, hlast⟩

end Rules

/-! ## Playing a run -/

section Plays

variable {γ : Type} (play : σ → γ → Option (ε × σ))

/-- The run whose steps `play` finds for the cues, one after the other. -/
def plays : σ → List γ → Option (List (ε × σ))
  | _, [] => some []
  | s, c :: cs => (play s c).bind fun p => (plays p.2 cs).map (p :: ·)

theorem plays_chain {step : σ → ε → σ → Prop} (hplay : ∀ s c p, play s c = some p → step s p.1 p.2) :
    ∀ {cs : List γ} {s : σ} {r : List (ε × σ)}, plays play s cs = some r → Chain step s r
  | [], _, _, h => by cases h; trivial
  | c :: cs, s, r, h => by
    unfold plays at h
    obtain ⟨p, hp, h⟩ := Option.bind_eq_some_iff.1 h
    obtain ⟨r', hr, rfl⟩ := Option.map_eq_some_iff.1 h
    exact ⟨hplay s c p hp, plays_chain hplay hr⟩

/-- What a played run is seen to meet, a run meets. -/
theorem exists_plays {step : σ → ε → σ → Prop} (hplay : ∀ s c p, play s c = some p → step s p.1 p.2) {s : σ}
    (cs : List γ) {P : List (ε × σ) → Prop} [DecidablePred P] (h : (plays play s cs).any (decide <| P ·) = true) :
    ∃ r, Chain step s r ∧ P r := by
  obtain ⟨r, hr, hP⟩ := (Option.any_eq_true _ _).1 h
  exact ⟨r, plays_chain play hplay hr, of_decide_eq_true hP⟩

end Plays

end Run
