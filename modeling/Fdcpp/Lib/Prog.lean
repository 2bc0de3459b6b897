/-
Programs that call an environment: a program is a tree of calls, each with a continuation for
every answer the environment may give, and a run of it is the list of its calls with their
answers. `wp` is the weakest precondition over the runs whose answers are all legal, `Steps` the
unfinished runs, and `Eff` adds a state that survives an exception, with one rule for each
construct of the source language.
-/
import Mathlib.Data.List.Basic
import Mathlib.Tactic.Choose

/-! ## Programs and their runs -/

/-- A program over calls `Q`, where a call `q` is answered by an `A q`. -/
inductive Prog (Q : Type) (A : Q → Type) (α : Type) : Type where
  | ret (a : α) : Prog Q A α
  | ask (q : Q) (k : A q → Prog Q A α) : Prog Q A α

/-- A call with its answer. -/
abbrev Ev (Q : Type) (A : Q → Type) : Type := (q : Q) × A q

namespace Prog

variable {Q : Type} {A : Q → Type} {α β : Type}

def bind (p : Prog Q A α) (f : α → Prog Q A β) : Prog Q A β :=
  match p with
  | .ret a => f a
  | .ask q k => .ask q fun r => (k r).bind f

instance : Monad (Prog Q A) where
  pure := .ret
  bind := bind

theorem ask_bind (q : Q) (k : A q → Prog Q A α) (f : α → Prog Q A β) :
    (Prog.ask q k) >>= f = .ask q fun r => k r >>= f := rfl

theorem bind_ret : ∀ p : Prog Q A α, p.bind .ret = p
  | .ret _ => rfl
  | .ask q k => congrArg (Prog.ask q) (funext fun r => bind_ret (k r))

theorem bind_assoc {γ : Type} (f : α → Prog Q A β) (g : β → Prog Q A γ) :
    ∀ p : Prog Q A α, (p.bind f).bind g = p.bind fun a => (f a).bind g
  | .ret _ => rfl
  | .ask q k => congrArg (Prog.ask q) (funext fun r => bind_assoc f g (k r))

instance : LawfulMonad (Prog Q A) :=
  .mk' _ bind_ret (fun _ _ => rfl) fun p f g => bind_assoc f g p

/-- `p` runs to the result `a` through the calls and answers `evs`. -/
inductive Runs : Prog Q A α → List (Ev Q A) → α → Prop
  | ret (a : α) : Runs (.ret a) [] a
  | ask {q : Q} {k : A q → Prog Q A α} (r : A q) {evs : List (Ev Q A)} {a : α} :
      Runs (k r) evs a → Runs (.ask q k) (⟨q, r⟩ :: evs) a

/-- After the calls and answers `evs`, `p` has become `p'`. -/
inductive Steps : Prog Q A α → List (Ev Q A) → Prog Q A α → Prop
  | refl (p : Prog Q A α) : Steps p [] p
  | ask {q : Q} {k : A q → Prog Q A α} (r : A q) {evs : List (Ev Q A)} {p' : Prog Q A α} :
      Steps (k r) evs p' → Steps (.ask q k) (⟨q, r⟩ :: evs) p'

/-- Every answer in `evs` is one the environment may give. -/
def Legal (L : (q : Q) → A q → Prop) (evs : List (Ev Q A)) : Prop := ∀ e ∈ evs, L e.1 e.2

section Legal

variable {L : (q : Q) → A q → Prop}

@[simp] theorem legal_nil : Legal L [] := by intro e he; cases he

@[simp] theorem legal_cons {e : Ev Q A} {evs : List (Ev Q A)} :
    Legal L (e :: evs) ↔ L e.1 e.2 ∧ Legal L evs := by simp [Legal]

@[simp] theorem legal_append {evs evs' : List (Ev Q A)} :
    Legal L (evs ++ evs') ↔ Legal L evs ∧ Legal L evs' := by
  simp only [Legal, List.mem_append]
  constructor
  · intro h
    exact ⟨fun e he => h e (.inl he), fun e he => h e (.inr he)⟩
  · rintro ⟨h₁, h₂⟩ e (he | he)
    · exact h₁ e he
    · exact h₂ e he

theorem Legal.mono {L' : (q : Q) → A q → Prop} {evs : List (Ev Q A)} (h : Legal L evs)
    (hL : ∀ q r, L q r → L' q r) : Legal L' evs := fun e he => hL _ _ (h e he)

end Legal

/-- A finished run passes through every point of an unfinished one it continues. -/
theorem Steps.runs {p p' : Prog Q A α} {evs evs' : List (Ev Q A)} {a : α} (h : Steps p evs p')
    (h' : Runs p' evs' a) : Runs p (evs ++ evs') a := by
  induction h with
  | refl p => exact h'
  | ask r _ ih => exact .ask r (ih h')

theorem Steps.trans {p p' p'' : Prog Q A α} {evs evs' : List (Ev Q A)} (h : Steps p evs p')
    (h' : Steps p' evs' p'') : Steps p (evs ++ evs') p'' := by
  induction h with
  | refl p => exact h'
  | ask r _ ih => exact .ask r (ih h')

/-- The run of `p` after the calls and answers `past`, with every answer given by `answer`, which
sees what came before. -/
def play (answer : List (Ev Q A) → (q : Q) → A q) (past : List (Ev Q A)) : Prog Q A α → List (Ev Q A) × α
  | .ret a => ([], a)
  | .ask q k =>
    let r := answer past q
    let rest := play answer (past ++ [⟨q, r⟩]) (k r)
    (⟨q, r⟩ :: rest.1, rest.2)

theorem play_runs (answer : List (Ev Q A) → (q : Q) → A q) :
    ∀ (p : Prog Q A α) (past : List (Ev Q A)), Runs p (p.play answer past).1 (p.play answer past).2
  | .ret a, _ => .ret a
  | .ask q k, past => .ask _ (play_runs answer (k (answer past q)) _)

theorem play_legal {L : (q : Q) → A q → Prop} {answer : List (Ev Q A) → (q : Q) → A q}
    (h : ∀ past q, L q (answer past q)) :
    ∀ (p : Prog Q A α) (past : List (Ev Q A)), Legal L (p.play answer past).1
  | .ret _, _ => legal_nil
  | .ask q k, past => legal_cons.2 ⟨h past q, play_legal h (k (answer past q)) _⟩

/-- When the environment can always answer, every program has a finished legal run. -/
theorem exists_runs {L : (q : Q) → A q → Prop} (hL : ∀ q, ∃ r, L q r) (p : Prog Q A α) :
    ∃ evs a, Runs p evs a ∧ Legal L evs := by
  choose r hr using hL
  exact ⟨_, _, play_runs (fun _ q => r q) p [], play_legal (fun _ => hr) p []⟩

/-! ## Weakest preconditions -/

/-- Every run of the program with legal answers ends in `Post`. -/
def wp (L : (q : Q) → A q → Prop) : Prog Q A α → (List (Ev Q A) → α → Prop) → Prop
  | .ret a, Post => Post [] a
  | .ask q k, Post => ∀ r, L q r → wp L (k r) fun evs a => Post (⟨q, r⟩ :: evs) a

variable {L : (q : Q) → A q → Prop}

theorem wp_iff_runs {p : Prog Q A α} {Post : List (Ev Q A) → α → Prop} :
    wp L p Post ↔ ∀ evs a, Runs p evs a → Legal L evs → Post evs a := by
  induction p generalizing Post with
  | ret a =>
    constructor
    · intro h evs a' hr _; cases hr; exact h
    · intro h; exact h [] a (.ret a) legal_nil
  | ask q k ih =>
    constructor
    · intro h evs a hr hl
      cases hr with
      | ask r hr =>
        obtain ⟨h₁, h₂⟩ := legal_cons.1 hl
        exact (ih r).1 (h r h₁) _ a hr h₂
    · intro h r hr
      exact (ih r).2 fun evs a hrun hl => h _ a (.ask r hrun) (legal_cons.2 ⟨hr, hl⟩)

theorem wp_mono {p : Prog Q A α} {Post Post' : List (Ev Q A) → α → Prop} (h : wp L p Post)
    (hP : ∀ evs a, Legal L evs → Post evs a → Post' evs a) : wp L p Post' :=
  wp_iff_runs.2 fun evs a hr hl => hP evs a hl (wp_iff_runs.1 h evs a hr hl)

theorem wp_bind {p : Prog Q A α} {f : α → Prog Q A β} {Post : List (Ev Q A) → β → Prop} :
    wp L (p >>= f) Post ↔ wp L p fun evs a => wp L (f a) fun evs' => Post (evs ++ evs') := by
  induction p generalizing Post with
  | ret a => exact Iff.rfl
  | ask q k ih =>
    rw [ask_bind]
    exact forall_congr' fun r => imp_congr_right fun _ => ih r

/-! ## Protocols -/

section Protocol

variable {G : Type} {allowed : G → Q → Prop} {next : G → (q : Q) → A q → G}

/-- The program follows a protocol from the phase `g`: each call is one that its phase allows, the answer
leads to the next phase, and the program ends in `Post`. -/
def Follows (allowed : G → Q → Prop) (next : G → (q : Q) → A q → G) : G → Prog Q A α → (G → α → Prop) → Prop
  | g, .ret a, Post => Post g a
  | g, .ask q k, Post => allowed g q ∧ ∀ r, Follows allowed next (next g q r) (k r) Post

theorem follows_ask {g : G} {q : Q} {k : A q → Prog Q A α} {Post : G → α → Prop} (hq : allowed g q)
    (hk : ∀ r, Follows allowed next (next g q r) (k r) Post) : Follows allowed next g (.ask q k) Post := ⟨hq, hk⟩

end Protocol

end Prog

/-! ## State and exceptions -/

/-- Programs with a state `σ` that survives an exception `ε`. -/
abbrev Eff (Q : Type) (A : Q → Type) (σ ε : Type) : Type → Type := ExceptT ε (StateT σ (Prog Q A))

namespace Eff

variable {Q : Type} {A : Q → Type} {σ ε α β : Type}

/-- The calls `m` makes from the state `s`. -/
def prog (m : Eff Q A σ ε α) (s : σ) : Prog Q A (Except ε α × σ) := m s

/-- A call to the environment. -/
def call (q : Q) : Eff Q A σ ε (A q) := fun s => .ask q fun r => .ret (.ok r, s)

/-- Every run of `m` from `s` with legal answers ends in `Post`, normally or by an exception. -/
def Sat (L : (q : Q) → A q → Prop) (m : Eff Q A σ ε α) (s : σ)
    (Post : List (Ev Q A) → Except ε α → σ → Prop) : Prop :=
  (m.prog s).wp L fun evs r => Post evs r.1 r.2

variable {L : (q : Q) → A q → Prop} {s : σ}

theorem sat_iff_runs {m : Eff Q A σ ε α} {Post : List (Ev Q A) → Except ε α → σ → Prop} :
    Sat L m s Post ↔ ∀ evs r s', (m.prog s).Runs evs (r, s') → Prog.Legal L evs → Post evs r s' := by
  unfold Sat
  rw [Prog.wp_iff_runs]
  constructor
  · intro h evs r s'
    exact h evs (r, s')
  · rintro h evs ⟨r, s'⟩
    exact h evs r s'

theorem Sat.mono {m : Eff Q A σ ε α} {Post Post' : List (Ev Q A) → Except ε α → σ → Prop}
    (h : Sat L m s Post) (hP : ∀ evs r s', Prog.Legal L evs → Post evs r s' → Post' evs r s') :
    Sat L m s Post' := Prog.wp_mono h fun evs a => hP evs a.1 a.2

theorem Sat.and {m : Eff Q A σ ε α} {Post Post' : List (Ev Q A) → Except ε α → σ → Prop}
    (h : Sat L m s Post) (h' : Sat L m s Post') : Sat L m s fun evs r s' => Post evs r s' ∧ Post' evs r s' := by
  rw [sat_iff_runs] at h h' ⊢
  intro evs r s' hr hl
  exact ⟨h evs r s' hr hl, h' evs r s' hr hl⟩

theorem Sat.of_forall {m : Eff Q A σ ε α} {Post : List (Ev Q A) → Except ε α → σ → Prop}
    (h : ∀ evs r s', Post evs r s') : Sat L m s Post := sat_iff_runs.2 fun evs r s' _ _ => h evs r s'

section Rules

variable {Post : List (Ev Q A) → Except ε α → σ → Prop}

@[simp] theorem sat_pure (a : α) : Sat L (pure a : Eff Q A σ ε α) s Post ↔ Post [] (.ok a) s := Iff.rfl

@[simp] theorem sat_throw (e : ε) : Sat L (throw e : Eff Q A σ ε α) s Post ↔ Post [] (.error e) s := Iff.rfl

theorem sat_bind {m : Eff Q A σ ε α} {f : α → Eff Q A σ ε β}
    {Post : List (Ev Q A) → Except ε β → σ → Prop} :
    Sat L (m >>= f) s Post ↔ Sat L m s fun evs r s' => match r with
      | .ok a => Sat L (f a) s' fun evs' => Post (evs ++ evs')
      | .error e => Post evs (.error e) s' := by
  unfold Sat
  show Prog.wp L (m.prog s >>= fun x => _) _ ↔ _
  rw [Prog.wp_bind]
  refine iff_of_eq (congrArg _ (funext₂ fun evs x => ?_))
  obtain ⟨r, s'⟩ := x
  cases r with
  | ok a => rfl
  | error e => exact propext (by show Post (evs ++ []) _ _ ↔ _; rw [List.append_nil])

theorem sat_tryCatch {m : Eff Q A σ ε α} {h : ε → Eff Q A σ ε α} :
    Sat L (tryCatch m h) s Post ↔ Sat L m s fun evs r s' => match r with
      | .ok a => Post evs (.ok a) s'
      | .error e => Sat L (h e) s' fun evs' => Post (evs ++ evs') := by
  unfold Sat
  show Prog.wp L (m.prog s >>= fun x => _) _ ↔ _
  rw [Prog.wp_bind]
  refine iff_of_eq (congrArg _ (funext₂ fun evs x => ?_))
  obtain ⟨r, s'⟩ := x
  cases r with
  | ok a => exact propext (by show Post (evs ++ []) _ _ ↔ _; rw [List.append_nil])
  | error e => rfl

theorem sat_call (q : Q) {Post : List (Ev Q A) → Except ε (A q) → σ → Prop} :
    Sat L (call q : Eff Q A σ ε (A q)) s Post ↔ ∀ r, L q r → Post [⟨q, r⟩] (.ok r) s := Iff.rfl

@[simp] theorem sat_get {Post : List (Ev Q A) → Except ε σ → σ → Prop} :
    Sat L (get : Eff Q A σ ε σ) s Post ↔ Post [] (.ok s) s := Iff.rfl

@[simp] theorem sat_set (s' : σ) {Post : List (Ev Q A) → Except ε PUnit → σ → Prop} :
    Sat L (set s' : Eff Q A σ ε PUnit) s Post ↔ Post [] (.ok ⟨⟩) s' := Iff.rfl

@[simp] theorem sat_modify (f : σ → σ) {Post : List (Ev Q A) → Except ε PUnit → σ → Prop} :
    Sat L (modify f : Eff Q A σ ε PUnit) s Post ↔ Post [] (.ok ⟨⟩) (f s) := Iff.rfl

theorem sat_get_bind {f : σ → Eff Q A σ ε α} : Sat L (get >>= f) s Post ↔ Sat L (f s) s Post := Iff.rfl

theorem sat_modify_bind {g : σ → σ} {f : PUnit → Eff Q A σ ε α} :
    Sat L (modify g >>= f) s Post ↔ Sat L (f ⟨⟩) (g s) Post := Iff.rfl

/-- The rule for a sequence, from a specification of its first part. -/
theorem Sat.bind {m : Eff Q A σ ε α} {f : α → Eff Q A σ ε β}
    {Post : List (Ev Q A) → Except ε β → σ → Prop} {Mid : List (Ev Q A) → Except ε α → σ → Prop}
    (h : Sat L m s Mid)
    (hok : ∀ evs a s', Prog.Legal L evs → Mid evs (.ok a) s' → Sat L (f a) s' fun evs' => Post (evs ++ evs'))
    (herr : ∀ evs e s', Prog.Legal L evs → Mid evs (.error e) s' → Post evs (.error e) s') :
    Sat L (m >>= f) s Post := by
  rw [sat_bind]
  refine h.mono fun evs r s' hl hm => ?_
  cases r with
  | ok a => exact hok evs a s' hl hm
  | error e => exact herr evs e s' hl hm

end Rules

/-! ## What a program keeps -/

/-- From every state with `P`, all runs of `m` with legal answers end in states with `P`, and their
calls and answers meet `E`. -/
def Keeps (L : (q : Q) → A q → Prop) (P : σ → Prop) (E : Ev Q A → Prop) (m : Eff Q A σ ε α) : Prop :=
  ∀ s, P s → Sat L m s fun evs _ s' => P s' ∧ ∀ e ∈ evs, E e

namespace Keeps

variable {P : σ → Prop} {E : Ev Q A → Prop}

theorem pure (a : α) : Keeps L P E (Pure.pure a : Eff Q A σ ε α) := by
  intro s h
  exact ⟨h, by simp⟩

theorem throw (e : ε) : Keeps L P E (MonadExcept.throw e : Eff Q A σ ε α) := by
  intro s h
  exact ⟨h, by simp⟩

theorem call {q : Q} (hq : ∀ r, L q r → E ⟨q, r⟩) : Keeps L P E (Eff.call q : Eff Q A σ ε (A q)) := by
  intro s h r hr
  exact ⟨h, by simpa using hq r hr⟩

theorem modify {f : σ → σ} (hf : ∀ s, P s → P (f s)) : Keeps L P E (modify f : Eff Q A σ ε PUnit) := by
  intro s h
  exact ⟨hf s h, by simp⟩

theorem bind {m : Eff Q A σ ε α} {f : α → Eff Q A σ ε β} (hm : Keeps L P E m) (hf : ∀ a, Keeps L P E (f a)) :
    Keeps L P E (m >>= f) := by
  intro s h
  refine (hm s h).bind ?_ ?_
  · rintro evs a s' - ⟨h', he⟩
    refine (hf a s' h').mono ?_
    rintro evs' r s'' - ⟨h'', he'⟩
    exact ⟨h'', List.forall_mem_append.2 ⟨he, he'⟩⟩
  · rintro evs e s' - h'
    exact h'

theorem get_bind {f : σ → Eff Q A σ ε β} (hf : ∀ s, P s → Keeps L P E (f s)) : Keeps L P E (get >>= f) := by
  intro s h
  rw [sat_get_bind]
  exact hf s h s h

theorem tryCatch {m : Eff Q A σ ε α} {f : ε → Eff Q A σ ε α} (hm : Keeps L P E m) (hf : ∀ e, Keeps L P E (f e)) :
    Keeps L P E (tryCatch m f) := by
  intro s h
  rw [sat_tryCatch]
  refine (hm s h).mono ?_
  rintro evs (e | a) s' - ⟨h', he⟩
  · refine (hf e s' h').mono ?_
    rintro evs' r s'' - ⟨h'', he'⟩
    exact ⟨h'', List.forall_mem_append.2 ⟨he, he'⟩⟩
  · exact ⟨h', he⟩

end Keeps

end Eff
