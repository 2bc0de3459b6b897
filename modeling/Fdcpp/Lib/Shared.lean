/-
An object that several callers use at once, through functions which call it in a loop until they have a
result. The object answers one call at a time, in any order of the callers. When each answer to the first
call of a function ends it, the functions are atomic: whatever the order, the object has gone through one
function after the other.
-/
import Fdcpp.Lib.Run
import Mathlib.Logic.Function.Basic

namespace Shared

/-- Functions `φ` over an object `κ`. A function makes a call in its local state; the answer makes it go
on, or end with a result. Events `η` from outside also change the object. -/
structure System (φ κ η : Type) where
  Local : φ → Type
  Answer : φ → Type
  Result : φ → Type
  enters : (f : φ) → Local f → Prop
  pass : (f : φ) → Local f → Answer f → Local f ⊕ Result f
  gives : (f : φ) → Local f → κ → Answer f → κ → Prop
  outside : κ → η → κ → Prop

variable {φ κ η : Type} (S : System φ κ η)

/-- What has happened to the object: a function has ended, or an event from outside. -/
inductive Event
  | ended (f : φ) (r : S.Result f)
  | outside (e : η)

structure State (ι : Type) where
  obj : κ
  /-- The functions under way. -/
  busy : ι → Option ((f : φ) × S.Local f)
  /-- What has happened so far. -/
  log : List (Event S)

inductive Act (ι φ η : Type)
  | enter (i : ι) (f : φ)
  | call (i : ι)
  | outside (e : η)
  deriving DecidableEq, Repr

section Shared

variable {ι : Type} [DecidableEq ι]

inductive Step : State S ι → Act ι φ η → State S ι → Prop
  | enter {s : State S ι} {i : ι} {f : φ} {t : S.Local f} (idle : s.busy i = none) (enters : S.enters f t) :
    Step s (.enter i f) { s with busy := Function.update s.busy i (some ⟨f, t⟩) }
  | goesOn {s : State S ι} {i : ι} {f : φ} {t t' : S.Local f} {a : S.Answer f} {k : κ} (busy : s.busy i = some ⟨f, t⟩)
    (gives : S.gives f t s.obj a k) (pass : S.pass f t a = .inl t') :
    Step s (.call i) { s with obj := k, busy := Function.update s.busy i (some ⟨f, t'⟩) }
  | ends {s : State S ι} {i : ι} {f : φ} {t : S.Local f} {a : S.Answer f} {k : κ} {r : S.Result f}
    (busy : s.busy i = some ⟨f, t⟩) (gives : S.gives f t s.obj a k) (pass : S.pass f t a = .inr r) :
    Step s (.call i) ⟨k, Function.update s.busy i none, s.log ++ [.ended f r]⟩
  | outside {s : State S ι} {e : η} {k : κ} (outside : S.outside s.obj e k) :
    Step s (.outside e) { s with obj := k, log := s.log ++ [.outside e] }

/-- No function is under way. -/
def State.init (k : κ) : State S ι := ⟨k, fun _ => none, []⟩

/-- The object on its own: a function does all it does in one call. -/
inductive Does : κ → Event S → κ → Prop
  | ended {f : φ} {t : S.Local f} {k k' : κ} {a : S.Answer f} {r : S.Result f} (enters : S.enters f t)
    (gives : S.gives f t k a k') (pass : S.pass f t a = .inr r) : Does k (.ended f r) k'
  | outside {k k' : κ} {e : η} (outside : S.outside k e k') : Does k (.outside e) k'

/-- The object goes through some events, one after the other. -/
def History : κ → List (Event S) → κ → Prop
  | k, [], k' => k = k'
  | k, e :: l, k' => ∃ k₁, Does S k e k₁ ∧ History k₁ l k'

/-- Each answer to the first call of a function ends it. -/
def Whole : Prop := ∀ f t k a k', S.enters f t → S.gives f t k a k' → ∃ r, S.pass f t a = .inr r

/-- What has happened to the object since it was `k` is a history of it, and the functions under way
are still to make their first call. -/
structure Linear (k : κ) (s : State S ι) : Prop where
  history : History S k s.log s.obj
  fresh : ∀ i f t, s.busy i = some ⟨f, t⟩ → S.enters f t

variable {S} {k k₁ k₂ : κ} {l : List (Event S)} {e : Event S} {s s' : State S ι} {act : Act ι φ η}

theorem History.concat (h : History S k l k₁) (he : Does S k₁ e k₂) : History S k (l ++ [e]) k₂ := by
  induction l generalizing k with
  | nil =>
    cases h
    exact ⟨k₂, he, rfl⟩
  | cons e₀ l ih =>
    obtain ⟨k₀, h₀, h⟩ := h
    exact ⟨k₀, h₀, ih h⟩

theorem fresh_update {b : ι → Option ((f : φ) × S.Local f)} (h : ∀ i f t, b i = some ⟨f, t⟩ → S.enters f t) (i : ι)
    {c : Option ((f : φ) × S.Local f)} (hc : ∀ f t, c = some ⟨f, t⟩ → S.enters f t) (j : ι) (f : φ) (t : S.Local f)
    (hj : Function.update b i c j = some ⟨f, t⟩) : S.enters f t := by
  by_cases hij : j = i
  · subst hij
    rw [Function.update_self] at hj
    exact hc f t hj
  · rw [Function.update_of_ne hij] at hj
    exact h j f t hj

theorem step_linear (hw : Whole S) (h : Step S s act s') (hs : Linear S k s) : Linear S k s' := by
  cases h with
  | enter idle enters =>
    refine ⟨hs.history, fresh_update hs.fresh _ ?_⟩
    rintro f t ⟨⟩
    exact enters
  | goesOn busy gives pass =>
    -- the first call has not ended the function
    obtain ⟨r, hr⟩ := hw _ _ _ _ _ (hs.fresh _ _ _ busy) gives
    rw [pass] at hr
    cases hr
  | ends busy gives pass =>
    have hdoes := Does.ended (hs.fresh _ _ _ busy) gives pass
    exact ⟨hs.history.concat hdoes, fresh_update hs.fresh _ nofun⟩
  | outside outside => exact ⟨hs.history.concat (.outside outside), hs.fresh⟩

/-- Functions whose first call ends them are atomic. -/
theorem linear (hw : Whole S) {r : List (Act ι φ η × State S ι)} (h : Run.Chain (Step S) (.init S k) r) :
    Run.Always (Linear S k) (.init S k) r := by
  have hinit : Linear S k (State.init S k : State S ι) := ⟨rfl, nofun⟩
  exact h.always (fun s e s' hstep _ hs => step_linear hw hstep hs) h hinit

/-- The rule for what a history adds up to, over a description of the object that each event changes in a
way of its own. -/
theorem History.replay {α : Type} (view : κ → α) (does : α → Event S → Option α)
    (hdoes : ∀ k e k', Does S k e k' → does (view k) e = some (view k')) (h : History S k l k₁) :
    l.foldlM does (view k) = some (view k₁) := by
  induction l generalizing k with
  | nil =>
    cases h
    rfl
  | cons e l ih =>
    obtain ⟨k₀, h₀, h⟩ := h
    rw [List.foldlM_cons, hdoes k e k₀ h₀]
    exact ih h

end Shared

end Shared
