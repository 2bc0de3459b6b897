/-
Two runs in one environment. Runs are alike when the same call, made after the same calls and
answers, has the same answer in both; programs are twins when alike runs of them make the same calls
and end in related results. What a program does not show in its calls and its results then cannot
be told from its runs.
-/
import Fdcpp.Lib.Prog

namespace Prog

variable {Q : Type} {A : Q → Type} {α β γ δ : Type}

/-- The environment gives the same answers as long as the calls are the same. -/
def Alike : List (Ev Q A) → List (Ev Q A) → Prop
  | e :: evs, e' :: evs' => e.1 = e'.1 → e = e' ∧ Alike evs evs'
  | _, _ => True

/-- Alike runs of the two programs make the same calls and end in results related by `R`. -/
def Twin (R : α → β → Prop) (p : Prog Q A α) (p' : Prog Q A β) : Prop :=
  ∀ evs a evs' b, Runs p evs a → Runs p' evs' b → Alike evs evs' → evs = evs' ∧ R a b

@[simp] theorem alike_cons {e : Ev Q A} {evs evs' : List (Ev Q A)} : Alike (e :: evs) (e :: evs') ↔ Alike evs evs' := by
  simp [Alike]

theorem Alike.of_eq {evs evs' : List (Ev Q A)} (h : evs = evs') : Alike evs evs' := by
  subst h
  induction evs with
  | nil => trivial
  | cons e evs ih => exact fun _ => ⟨rfl, ih⟩

theorem Alike.left : ∀ {evs evs' tail tail' : List (Ev Q A)}, Alike (evs ++ tail) (evs' ++ tail') → Alike evs evs'
  | [], _, _, _, _ => by simp [Alike]
  | _ :: _, [], _, _, _ => by simp [Alike]
  | e :: evs, e' :: evs', _, _, h => fun he => ⟨(h he).1, Alike.left (h he).2⟩

theorem Alike.right {tail tail' : List (Ev Q A)} :
    ∀ {evs : List (Ev Q A)}, Alike (evs ++ tail) (evs ++ tail') → Alike tail tail'
  | [], h => h
  | _ :: _, h => Alike.right (alike_cons.1 h)

/-- A run of a sequence is a run of its first part and then one of the rest. -/
theorem runs_bind {p : Prog Q A α} {f : α → Prog Q A β} {evs : List (Ev Q A)} {b : β} :
    Runs (p >>= f) evs b ↔ ∃ evs₁ evs₂ a, evs = evs₁ ++ evs₂ ∧ Runs p evs₁ a ∧ Runs (f a) evs₂ b := by
  induction p generalizing evs with
  | ret a =>
    constructor
    · intro h
      exact ⟨[], evs, a, rfl, .ret a, h⟩
    · rintro ⟨_, _, _, rfl, ⟨⟩, h⟩
      exact h
  | ask q k ih =>
    rw [ask_bind]
    constructor
    · intro h
      cases h with
      | ask r h =>
        obtain ⟨evs₁, evs₂, a, rfl, h₁, h₂⟩ := (ih r).1 h
        exact ⟨_ :: evs₁, evs₂, a, rfl, .ask r h₁, h₂⟩
    · rintro ⟨_, evs₂, a, rfl, h₁, h₂⟩
      cases h₁ with
      | ask r h₁ => exact .ask r ((ih r).2 ⟨_, evs₂, a, rfl, h₁, h₂⟩)

section Rules

variable {R : α → β → Prop} {S : γ → δ → Prop}

theorem Twin.ret {a : α} {b : β} (h : R a b) : Twin R (.ret a : Prog Q A α) (.ret b) := by
  rintro _ _ _ _ ⟨⟩ ⟨⟩ -
  exact ⟨rfl, h⟩

theorem Twin.ask {q : Q} {k : A q → Prog Q A α} {k' : A q → Prog Q A β} (h : ∀ r, Twin R (k r) (k' r)) :
    Twin R (.ask q k) (.ask q k') := by
  intro evs a evs' b hr hr' hal
  cases hr with
  | ask r hr =>
    cases hr' with
    | ask r' hr' =>
      cases (hal rfl).1
      obtain ⟨rfl, hR⟩ := h r _ _ _ _ hr hr' (alike_cons.1 hal)
      exact ⟨rfl, hR⟩

theorem Twin.bind {p : Prog Q A α} {p' : Prog Q A β} {f : α → Prog Q A γ} {f' : β → Prog Q A δ} (h : Twin R p p')
    (hf : ∀ a b, R a b → Twin S (f a) (f' b)) : Twin S (p >>= f) (p' >>= f') := by
  intro evs c evs' d hr hr' hal
  obtain ⟨evs₁, evs₂, a, rfl, h₁, h₂⟩ := runs_bind.1 hr
  obtain ⟨evs₁', evs₂', b, rfl, h₁', h₂'⟩ := runs_bind.1 hr'
  obtain ⟨rfl, hR⟩ := h _ _ _ _ h₁ h₁' hal.left
  obtain ⟨rfl, hS⟩ := hf a b hR _ _ _ _ h₂ h₂' hal.right
  exact ⟨rfl, hS⟩

end Rules

end Prog

/-! ## State and exceptions -/

namespace Eff

variable {Q : Type} {A : Q → Type} {σ ε α β : Type}

/-- Alike runs of `m` from `s` and of `m'` from `s'` make the same calls and end with results and
states related by `R`. -/
def Related (R : Except ε α → Except ε β → σ → σ → Prop) (m : Eff Q A σ ε α) (s : σ) (m' : Eff Q A σ ε β)
    (s' : σ) : Prop :=
  Prog.Twin (fun x y => R x.1 y.1 x.2 y.2) (m.prog s) (m'.prog s')

/-- The results are the same, and the states are related by `R` for it. -/
abbrev Twin (R : Except ε α → σ → σ → Prop) (m : Eff Q A σ ε α) (s : σ) (m' : Eff Q A σ ε α) (s' : σ) : Prop :=
  Related (fun r r' t t' => r = r' ∧ R r t t') m s m' s'

section Rules

variable {γ δ : Type} {R : Except ε α → σ → σ → Prop} {S : Except ε α → Except ε β → σ → σ → Prop} {s s' : σ}

theorem Related.runs {m : Eff Q A σ ε α} {m' : Eff Q A σ ε β} (h : Related S m s m' s') {evs evs' : List (Ev Q A)}
    {r : Except ε α} {r' : Except ε β} {t t' : σ} (hr : (m.prog s).Runs evs (r, t))
    (hr' : (m'.prog s').Runs evs' (r', t')) (hal : Prog.Alike evs evs') : evs = evs' ∧ S r r' t t' := h _ _ _ _ hr hr' hal

theorem Related.mono {S' : Except ε α → Except ε β → σ → σ → Prop} {m : Eff Q A σ ε α} {m' : Eff Q A σ ε β}
    (h : Related S m s m' s') (hS : ∀ r r' t t', S r r' t t' → S' r r' t t') : Related S' m s m' s' := by
  intro evs x evs' y hr hr' hal
  obtain ⟨he, hxy⟩ := h _ _ _ _ hr hr' hal
  exact ⟨he, hS _ _ _ _ hxy⟩

theorem related_pure (a : α) (b : β) (h : S (.ok a) (.ok b) s s') :
    Related S (pure a : Eff Q A σ ε α) s (pure b : Eff Q A σ ε β) s' := Prog.Twin.ret h

theorem related_throw (e e' : ε) (h : S (.error e) (.error e') s s') :
    Related S (throw e : Eff Q A σ ε α) s (throw e' : Eff Q A σ ε β) s' := Prog.Twin.ret h

theorem related_modify_bind {g g' : σ → σ} {f : PUnit → Eff Q A σ ε α} {f' : PUnit → Eff Q A σ ε β}
    (h : Related S (f ⟨⟩) (g s) (f' ⟨⟩) (g' s')) : Related S (modify g >>= f) s (modify g' >>= f') s' := h

theorem related_get_bind {f : σ → Eff Q A σ ε α} {f' : σ → Eff Q A σ ε β} (h : Related S (f s) s (f' s') s') :
    Related S (get >>= f) s (get >>= f') s' := h

/-- What comes behind twins may use their result in different ways. -/
theorem Twin.bind_related {m m' : Eff Q A σ ε α} {f : α → Eff Q A σ ε γ} {f' : α → Eff Q A σ ε δ}
    {S : Except ε γ → Except ε δ → σ → σ → Prop} (h : Twin R m s m' s')
    (hok : ∀ a t t', R (.ok a) t t' → Related S (f a) t (f' a) t')
    (herr : ∀ e t t', R (.error e) t t' → S (.error e) (.error e) t t') : Related S (m >>= f) s (m' >>= f') s' := by
  refine Prog.Twin.bind h ?_
  rintro ⟨r, t⟩ ⟨r', t'⟩ ⟨hr, hR⟩
  obtain rfl : r = r' := hr
  cases r with
  | ok a => exact hok a t t' hR
  | error e => exact Prog.Twin.ret (herr e t t' hR)

theorem Twin.runs {m m' : Eff Q A σ ε α} (h : Twin R m s m' s') {evs evs' : List (Ev Q A)} {r r' : Except ε α}
    {t t' : σ} (hr : (m.prog s).Runs evs (r, t)) (hr' : (m'.prog s').Runs evs' (r', t')) (hal : Prog.Alike evs evs') :
    evs = evs' ∧ r = r' ∧ R r t t' := h _ _ _ _ hr hr' hal

/-- What is specified of the first program holds at the end of twin runs too. -/
theorem Twin.and_spec {m m' : Eff Q A σ ε α} {P : Except ε α → σ → Prop} (h : Twin R m s m' s')
    (hP : Sat (fun _ _ => True) m s fun _ r t => P r t) : Twin (fun r t t' => R r t t' ∧ P r t) m s m' s' := by
  intro evs x evs' y hr hr' hal
  obtain ⟨he, hx, hxy⟩ := h _ _ _ _ hr hr' hal
  exact ⟨he, hx, hxy, sat_iff_runs.1 hP _ _ _ hr fun _ _ => trivial⟩

theorem twin_pure (a : α) (h : R (.ok a) s s') : Twin R (pure a : Eff Q A σ ε α) s (pure a) s' :=
  Prog.Twin.ret ⟨rfl, h⟩

theorem twin_throw (e : ε) (h : R (.error e) s s') : Twin R (throw e : Eff Q A σ ε α) s (throw e) s' :=
  Prog.Twin.ret ⟨rfl, h⟩

theorem twin_call (q : Q) {R : Except ε (A q) → σ → σ → Prop} (h : ∀ r, R (.ok r) s s') :
    Twin R (call q : Eff Q A σ ε (A q)) s (call q) s' :=
  Prog.Twin.ask fun r => Prog.Twin.ret ⟨rfl, h r⟩

theorem twin_modify {g g' : σ → σ} {R : Except ε PUnit → σ → σ → Prop} (h : R (.ok ⟨⟩) (g s) (g' s')) :
    Twin R (modify g : Eff Q A σ ε PUnit) s (modify g') s' := Prog.Twin.ret ⟨rfl, h⟩

theorem Twin.bind {m m' : Eff Q A σ ε α} {f f' : α → Eff Q A σ ε β} {R' : Except ε β → σ → σ → Prop}
    (h : Twin R m s m' s') (hok : ∀ a t t', R (.ok a) t t' → Twin R' (f a) t (f' a) t')
    (herr : ∀ e t t', R (.error e) t t' → R' (.error e) t t') : Twin R' (m >>= f) s (m' >>= f') s' :=
  h.bind_related hok fun e t t' he => ⟨rfl, herr e t t' he⟩

theorem Twin.tryCatch {m m' : Eff Q A σ ε α} {f f' : ε → Eff Q A σ ε α} {R' : Except ε α → σ → σ → Prop}
    (h : Twin R m s m' s') (hok : ∀ a t t', R (.ok a) t t' → R' (.ok a) t t')
    (herr : ∀ e t t', R (.error e) t t' → Twin R' (f e) t (f' e) t') :
    Twin R' (MonadExcept.tryCatch m f) s (MonadExcept.tryCatch m' f') s' := by
  refine Prog.Twin.bind h ?_
  rintro ⟨r, t⟩ ⟨r', t'⟩ ⟨hr, hR⟩
  obtain rfl : r = r' := hr
  cases r with
  | ok a => exact Prog.Twin.ret ⟨rfl, hok a t t' hR⟩
  | error e => exact herr e t t' hR

/-- A run that changes its result at the end. -/
theorem runs_map {m : Eff Q A σ ε α} {f : α → β} {evs : List (Ev Q A)} {r : Except ε β} {t : σ}
    (h : ((m >>= fun a => pure (f a)).prog s).Runs evs (r, t)) :
    ∃ r₀, (m.prog s).Runs evs (r₀, t) ∧ r = r₀.map f := by
  obtain ⟨evs₁, evs₂, ⟨r₀, s₀⟩, rfl, h₁, h₂⟩ := Prog.runs_bind.1 h
  cases r₀ with
  | ok a =>
    cases h₂
    exact ⟨_, by rwa [List.append_nil], rfl⟩
  | error e =>
    cases h₂
    exact ⟨_, by rwa [List.append_nil], rfl⟩

/-- Programs that make no call are twins if they end alike. -/
theorem Twin.of_silent {m m' : Eff Q A σ ε α} {r : Except ε α} {t t' : σ}
    (h : Sat (fun _ _ => True) m s fun evs r₁ s₁ => evs = [] ∧ r₁ = r ∧ s₁ = t)
    (h' : Sat (fun _ _ => True) m' s' fun evs r₁ s₁ => evs = [] ∧ r₁ = r ∧ s₁ = t') (hR : R r t t') :
    Twin R m s m' s' := by
  rintro evs ⟨r₁, t₁⟩ evs' ⟨r₂, t₂⟩ hr hr' -
  obtain ⟨rfl, rfl, rfl⟩ := sat_iff_runs.1 h _ _ _ hr fun _ _ => trivial
  obtain ⟨rfl, rfl, rfl⟩ := sat_iff_runs.1 h' _ _ _ hr' fun _ _ => trivial
  exact ⟨rfl, rfl, hR⟩

/-- The rule for a sequence whose second part is a twin only after some runs of the first. -/
theorem Twin.bind_runs {m m' : Eff Q A σ ε α} {f f' : α → Eff Q A σ ε β} (R' : Except ε β → σ → σ → Prop)
    {evs evs' : List (Ev Q A)} {r r' : Except ε β} {t t' : σ} (h : Twin R m s m' s')
    (hr : ((m >>= f).prog s).Runs evs (r, t)) (hr' : ((m' >>= f').prog s').Runs evs' (r', t'))
    (hal : Prog.Alike evs evs')
    (hok : ∀ evs₁ evs₂ a s₁ s₁', evs = evs₁ ++ evs₂ → (m.prog s).Runs evs₁ (.ok a, s₁) → R (.ok a) s₁ s₁' →
      Twin R' (f a) s₁ (f' a) s₁')
    (herr : ∀ e s₁ s₁', R (.error e) s₁ s₁' → R' (.error e) s₁ s₁') : evs = evs' ∧ r = r' ∧ R' r t t' := by
  obtain ⟨evs₁, evs₂, ⟨r₁, s₁⟩, rfl, h₁, h₂⟩ := Prog.runs_bind.1 hr
  obtain ⟨evs₁', evs₂', ⟨r₁', s₁'⟩, rfl, h₁', h₂'⟩ := Prog.runs_bind.1 hr'
  obtain ⟨rfl, rfl, hR⟩ := h.runs h₁ h₁' hal.left
  cases r₁ with
  | ok a =>
    obtain ⟨rfl, rfl, hR'⟩ := (hok _ _ a s₁ s₁' rfl h₁ hR).runs h₂ h₂' hal.right
    exact ⟨rfl, rfl, hR'⟩
  | error e =>
    cases h₂
    cases h₂'
    exact ⟨rfl, rfl, herr e _ _ hR⟩

end Rules

end Eff
