/-
Who owns which descriptor: along every run of the classes in which no `file` that holds a number is
copied by `dup`, each open number of the library is in exactly one object and each opening is closed
exactly once; a run with such a copy breaks this at once. The objects that hold a number and the
openings by the library are read as the holders and the leases of a ledger.
-/
import Fdcpp.Descriptor.World

namespace Fdcpp.Descriptor

/-- Each number that the library has open is in one live object, no two live objects have the same
number, every opening that is over was closed once, and nothing else was closed. -/
structure Owned (w : World) : Prop where
  owner : ∀ n k, w.kernel.opening n = some k → ∃! a, ∃ o, w.mem.objs a = some o ∧ o.fd = n
  distinct : ∀ a b o o', w.mem.objs a = some o → w.mem.objs b = some o' → 0 ≤ o.fd → o.fd = o'.fd → a = b
  open_ : ∀ n k, w.kernel.opening n = some k → some k ∉ w.kernel.closes.map Prod.snd
  closed : ∀ k, k < w.kernel.openings → (∀ n, w.kernel.opening n ≠ some k) →
    (w.kernel.closes.map Prod.snd).count (some k) = 1
  own : none ∉ w.kernel.closes.map Prod.snd

/-- The step copies a `file` that holds a number. -/
def CopiesFile (w : World) : Act → Prop
  | .op (.dup _ .file this) _ => 0 ≤ w.mem.fd this
  | _ => False

/-! ## Objects as holders -/

/-- The number that the object at `a` holds. -/
def Memory.hold (m : Memory) (a : Nat) : Option Int := if 0 ≤ m.fd a then some (m.fd a) else none

/-- Every number of the library has one owner, and the record of the closes is in order. -/
structure Inv (w : World) : Prop where
  linear : Holders.Linear w.mem.hold w.kernel.ledger.out
  settled : w.kernel.ledger.Settled

section Holders

variable {w : World} {m m' : Memory} {a : Nat} {n : Int}

theorem hold_eq_some : m.hold a = some n ↔ 0 ≤ n ∧ ∃ o, m.objs a = some o ∧ o.fd = n := by
  unfold Memory.hold
  constructor
  · intro h
    split at h
    · rename_i h0
      cases h
      cases ho : m.objs a with
      | none => rw [Memory.fd_of_none ho] at h0; omega
      | some o => exact ⟨h0, o, rfl, (Memory.fd_of_some ho).symm⟩
    · cases h
  · rintro ⟨h0, o, ho, rfl⟩
    rw [Memory.fd_of_some ho, if_pos h0]

theorem hold_of_none (h : m.objs a = none) : m.hold a = none := by
  unfold Memory.hold
  rw [Memory.fd_of_none h]
  rfl

theorem hold_congr (h : m'.objs = m.objs) : m'.hold = m.hold := by
  unfold Memory.hold
  rw [Memory.fd_congr h]

theorem hold_place (m : Memory) (a : Nat) (o : Object) :
    (m.place a o).hold = Function.update m.hold a (if 0 ≤ o.fd then some o.fd else none) := by
  funext b
  unfold Memory.hold
  rw [Memory.fd_place, Function.update_apply]
  split
  · rfl
  · rfl

theorem hold_setFd {o : Object} (h : m.objs a = some o) (n : Int) :
    (m.setFd a n).hold = Function.update m.hold a (if 0 ≤ n then some n else none) := by
  funext b
  unfold Memory.hold
  rw [Memory.fd_setFd h, Function.update_apply]
  split
  · rfl
  · rfl

theorem hold_remove (m : Memory) (a : Nat) : (m.remove a).hold = Function.update m.hold a none := by
  funext b
  unfold Memory.hold
  rw [Memory.fd_remove, Function.update_apply]
  split
  · rfl
  · rfl

theorem Inv.owned (h : Inv w) : Owned w where
  owner n k hk := by
    obtain ⟨a, ha⟩ := h.linear.held (Option.ne_none_iff_exists'.2 ⟨k, hk⟩)
    obtain ⟨h0, hobj⟩ := hold_eq_some.1 ha
    refine ⟨a, hobj, fun b hb => ?_⟩
    exact h.linear.one (hold_eq_some.2 ⟨h0, hb⟩) ha
  distinct a b o o' ha hb h0 he :=
    h.linear.one (hold_eq_some.2 ⟨h0, o, ha, rfl⟩) (hold_eq_some.2 ⟨h0, o', hb, he.symm⟩)
  open_ n k hk := h.settled.out hk
  closed k hk hnone := h.settled.back hk hnone
  own := h.settled.own

theorem start_opening (others : List Int) (n : Int) : (World.start others).kernel.opening n = none := by
  have hall : ∀ l : List (Int × Nat),
      (Table.file (l.map fun p => (p.1, (⟨p.2, none⟩ : OpenFile))) n).bind OpenFile.opening = none := by
    intro l
    induction l with
    | nil => rfl
    | cons p l ih =>
      rw [List.map_cons]
      by_cases hn : n = p.1
      · rw [hn, Table.file_self]; rfl
      · rw [Table.file_cons_of_ne hn, ih]
  exact hall others.zipIdx

theorem start_inv (others : List Int) : Inv (World.start others) where
  linear := by
    rw [Ledger.out_unused (start_opening others)]
    exact .empty fun _ => rfl
  settled := Ledger.settled_unused (start_opening others) rfl rfl

end Holders

/-! ## The kernel as a ledger -/

section Kernel

variable {k k' : Kernel} {n : Int}

theorem opening_none (h : n ∉ k.table.nums) : k.opening n = none := by
  unfold Kernel.opening
  rw [Table.file_eq_none.2 h]
  rfl

theorem ledger_lend (k : Kernel) (n : Int) (file : Nat) : (k.lend n file).ledger = k.ledger.take n := by
  unfold Kernel.ledger Ledger.take
  congr 1
  funext m
  rw [Function.update_apply]
  unfold Kernel.opening Kernel.lend
  split
  · rename_i h; rw [h, Table.file_self]; rfl
  · rename_i h; rw [Table.file_cons_of_ne h]

theorem ledger_openNew (k : Kernel) (n : Int) : (k.openNew n).ledger = k.ledger.take n := ledger_lend k n k.files

theorem ledger_release (k : Kernel) (n : Int) : (k.release n).ledger = k.ledger.give n := by
  unfold Kernel.ledger Ledger.give Kernel.release
  congr 1
  · funext m
    rw [Function.update_apply]
    unfold Kernel.opening
    dsimp only
    rw [Table.file_close]
    split
    · rfl
    · rfl
  · rw [List.map_append]; rfl

/-- Redirecting a number that is open does not change who owns it. -/
theorem ledger_redirect {f : OpenFile} (h : k.table.file n = some f) (file : Nat) :
    (k.redirect n file).ledger = k.ledger := by
  unfold Kernel.redirect
  rw [h]
  unfold Kernel.ledger
  congr 1
  funext m
  unfold Kernel.opening
  dsimp only
  by_cases hm : m = n
  · rw [hm, Table.file_self, h]; rfl
  · rw [Table.file_cons_of_ne hm, Table.file_close, if_neg hm]

/-- What the rest of the process does with its own numbers is not in the ledger. -/
theorem ledger_othersOpen (h : n ∉ k.table.nums) : (k.othersOpen n).ledger = k.ledger := by
  unfold Kernel.ledger
  congr 1
  funext m
  by_cases hm : m = n
  · rw [hm, opening_none h]
    unfold Kernel.opening Kernel.othersOpen
    rw [Table.file_self]
    rfl
  · unfold Kernel.opening Kernel.othersOpen
    rw [Table.file_cons_of_ne hm]

theorem ledger_othersClose {f : Nat} (h : k.table.file n = some ⟨f, none⟩) :
    (k.othersClose n).ledger = k.ledger := by
  unfold Kernel.ledger
  congr 1
  funext m
  unfold Kernel.opening Kernel.othersClose
  dsimp only
  rw [Table.file_close]
  split
  · rename_i hm; rw [hm, h]; rfl
  · rfl

/-- What the kernel may do with a number that it has to choose among those not open. -/
theorem ledger_of_free {k₁ : Kernel} (h₁ : k₁.ledger = k.ledger.take n)
    (h : (if n ∈ k.table.nums then none else some k₁) = some k') :
    k.opening n = none ∧ k'.ledger = k.ledger.take n := by
  split at h
  · cases h
  · rename_i hfree
    cases h
    exact ⟨opening_none hfree, h₁⟩

/-- The calls that return a new number. -/
def Sys.IsNew : Sys → Prop
  | .opens _ | .accept _ | .dup _ => True
  | _ => False

theorem answer_isNew {q : Sys} (hq : q.IsNew) {r : Answer q} (h : k.answer q r = some k') :
    (∃ m : Nat, r = .ok m ∧ k.opening m = none ∧ k'.ledger = k.ledger.take m) ∨
    (∃ e, r = .error e) ∧ k' = k := by
  cases r with
  | error e =>
    refine .inr ⟨⟨e, rfl⟩, ?_⟩
    cases q with
    | dup2 | close => cases hq
    | _ => cases h; rfl
  | ok m =>
    refine .inl ⟨m, rfl, ?_⟩
    cases q with
    | dup2 | close => cases hq
    | opens o => exact ledger_of_free (ledger_openNew k m) h
    | accept fd =>
      unfold Kernel.answer at h
      dsimp only at h
      split at h
      · exact ledger_of_free (ledger_openNew k m) h
      · cases h
    | dup oldfd =>
      unfold Kernel.answer at h
      dsimp only at h
      split at h
      · exact ledger_of_free (ledger_lend k m _) h
      · cases h

/-- `dup2` onto a number that is open leaves the ledger as it is. -/
theorem answer_dup2 {oldfd newfd : Int} {f : OpenFile} (hf : k.table.file newfd = some f)
    {r : Except Errno Nat} (h : k.answer (.dup2 oldfd newfd) r = some k') : k'.ledger = k.ledger := by
  cases r with
  | error e => cases h; rfl
  | ok m =>
    unfold Kernel.answer at h
    dsimp only at h
    split at h
    · split at h
      · cases h; exact ledger_redirect hf _
      · cases h
    · cases h

/-- `close` returns the number. -/
theorem answer_close {fd : Int} {r : Except Errno Nat} (h : k.answer (.close fd) r = some k') :
    k'.ledger = k.ledger.give fd := by
  unfold Kernel.answer at h
  dsimp only at h
  split at h
  · cases h; exact ledger_release k fd
  · cases h

end Kernel

/-! ## What an operation does to the owners -/

/-- Whatever the kernel, the calls `evs` and the change from `m` to `m'` are a step of the ledger. -/
def Refines (m : Memory) (evs : List Event) (m' : Memory) : Prop :=
  ∀ k k' : Kernel, k.answers evs = some k' → Holders.Linear m.hold k.ledger.out →
    Ledger.Step (m.hold, k.ledger) (m'.hold, k'.ledger)

section Refines

variable {L : (q : Sys) → Answer q → Prop} {m m' : Memory} {a : Nat} {c : Class}

theorem answers_one {k k' : Kernel} {q : Sys} {r : Answer q} (h : k.answers [⟨q, r⟩] = some k') :
    k.answer q r = some k' := by
  unfold Kernel.answers at h
  obtain ⟨k₁, h₁, h₂⟩ := Option.bind_eq_some_iff.1 h
  cases h₂
  exact h₁

theorem refines_idle (h : m'.hold = m.hold) : Refines m [] m' := by
  intro k k' hk _
  cases hk
  rw [h]
  exact .idle

/-- A new object gets a new number, or none. -/
theorem placeNew_opened {ctor : SysM Int} {q : Sys} {tag func : String} (hq : q.IsNew)
    (ha : m.objs a = none) (h : Eff.Sat L ctor m (Opened m q tag func)) :
    Eff.Sat L (placeNew a c ctor) m fun evs _ m' => Refines m evs m' := by
  unfold placeNew
  refine h.bind (fun evs fd m' _ hm => ?_) fun evs e m' _ hm => ?_
  · rw [Eff.sat_modify, List.append_nil]
    rcases hm with ⟨n, rfl, hn, rfl⟩ | ⟨_, _, hr, _⟩
    · cases hn
      intro k k' hk _
      rcases answer_isNew hq (answers_one hk) with ⟨n', hn', hfree, hled⟩ | ⟨⟨_, he⟩, _⟩
      · cases hn'
        rw [hold_place, if_pos (Int.natCast_nonneg n), hled]
        exact .take (hold_of_none ha) hfree
      · cases he
    · cases hr
  · rcases hm with ⟨_, _, hr, _⟩ | ⟨e', rfl, _, rfl⟩
    · cases hr
    · intro k k' hk _
      rcases answer_isNew hq (answers_one hk) with ⟨_, hn, _⟩ | ⟨_, rfl⟩
      · cases hn
      · exact .idle

/-- The hold of `other` goes over to a new object. -/
theorem place_moved {other : Nat} {o : Object} (ha : m.objs a = none) (ho : m.objs other = some o) :
    Refines m [] ((m.setFd other (-1)).place a ⟨c, m.fd other⟩) := by
  intro k k' hk _
  cases hk
  have hne : other ≠ a := by rintro rfl; rw [ha] at ho; cases ho
  refine Ledger.Step.exchange (i := a) (j := other) ?_ ?_ fun b hb hb' => ?_
  · rw [hold_place, Function.update_self]
    rfl
  · rw [hold_place, Function.update_of_ne hne, hold_setFd ho, Function.update_self, hold_of_none ha]
    rfl
  · rw [hold_place, Function.update_of_ne hb, hold_setFd ho, Function.update_of_ne hb']

theorem adopt_refines {other : Nat} {o : Object} (ha : m.objs a = none) (ho : m.objs other = some o) :
    Eff.Sat L (placeNew a c (c.adopt other)) m fun evs _ m' => Refines m evs m' := by
  obtain ⟨func, hf⟩ := c.adopt_eq other
  rw [hf]
  unfold placeNew
  refine (adoptWith_spec (L := L) other c.tag func).bind ?_ ?_
  · rintro evs fd m' - ⟨rfl, rfl, hr⟩
    rw [Eff.sat_modify]
    split at hr
    · cases hr; exact place_moved ha ho
    · cases hr
  · rintro evs e m' - ⟨rfl, rfl, hr⟩
    split at hr
    · cases hr
    · -- the constructor throws, but there was no number to lose
      rename_i hneg
      have hnone : m.hold other = none := if_neg hneg
      refine refines_idle ?_
      rw [hold_setFd ho, if_neg (by decide), ← hnone, Function.update_eq_self]

theorem moveMake_refines {other : Nat} {o : Object} (ha : m.objs a = none) (ho : m.objs other = some o) :
    Eff.Sat L (placeNew a c (moveFrom other)) m fun evs _ m' => Refines m evs m' := by
  unfold placeNew moveFrom
  rw [Eff.sat_bind, Eff.sat_get_bind, Eff.sat_modify_bind, Eff.sat_pure]
  exact place_moved ha ho

theorem moveAssign_refines {this other : Nat} {o o' : Object} (ho : m.objs this = some o)
    (ho' : m.objs other = some o') :
    Eff.Sat L (moveAssign this other) m fun evs _ m' => Refines m evs m' := by
  unfold moveAssign
  rw [Eff.sat_modify]
  intro k k' hk _
  cases hk
  obtain ⟨o₁, ho₁⟩ := Memory.exists_objs_setFd ho' this (m.fd other)
  refine Ledger.Step.exchange (i := this) (j := other) ?_ ?_ fun b hb hb' => ?_
  · rw [hold_setFd ho₁, hold_setFd ho, Function.update_apply, Function.update_self]
    split
    · rename_i h; rw [h]; rfl
    · rfl
  · rw [hold_setFd ho₁, Function.update_self]
    rfl
  · rw [hold_setFd ho₁, Function.update_of_ne hb', hold_setFd ho, Function.update_of_ne hb]

/-- A descriptor that is in an object is open, so that `dup2` onto it only redirects it. -/
theorem dup2_refines {this other : Nat} {o : Object} (ho : m.objs this = some o) :
    Eff.Sat L (c.dup2 this other) m fun evs _ m' => Refines m evs m' := by
  rw [c.dup2_eq]
  refine (dup2With_spec (L := L) this other c.tag).mono fun evs r m' _ hm => ?_
  obtain ⟨ans, hobjs, rfl⟩ : ∃ ans, m'.objs = m.objs ∧ evs = [⟨.dup2 (m.fd other) (m.fd this), ans⟩] := by
    rcases hm with ⟨n, rfl, -, rfl⟩ | ⟨e, rfl, -, rfl⟩
    · exact ⟨_, rfl, rfl⟩
    · exact ⟨_, rfl, rfl⟩
  intro k k' hk hl
  have hk := answers_one hk
  rw [hold_congr hobjs]
  by_cases h0 : 0 ≤ m.fd this
  · have hhold : m.hold this = some (m.fd this) := if_pos h0
    obtain ⟨j, hj⟩ := Option.ne_none_iff_exists'.1 (hl.leased hhold)
    obtain ⟨f, hf, -⟩ := Option.bind_eq_some_iff.1 hj
    rw [answer_dup2 hf hk]
    exact .idle
  · -- the kernel refuses a negative number
    cases ans with
    | error e => cases hk; exact .idle
    | ok n =>
      unfold Kernel.answer at hk
      dsimp only at hk
      split at hk
      · rw [if_neg (by omega)] at hk; cases hk
      · cases hk

theorem destroy_refines : Eff.Sat L (Op.destroy a).exec m fun evs _ m' => Refines m evs m' := by
  unfold Op.exec
  rw [Eff.sat_get_bind]
  refine (destroy_spec (L := L) (m.fd a)).bind ?_ ?_
  · rintro evs - m' - ⟨-, hobjs, hevs⟩
    rw [Eff.sat_modify, List.append_nil]
    have hhold : (m'.remove a).hold = Function.update m.hold a none := by
      rw [hold_remove, hold_congr hobjs]
    rcases hevs with ⟨hneg, rfl⟩ | ⟨h0, ans, rfl⟩
    · refine refines_idle ?_
      have hnone : m.hold a = none := if_neg (by omega)
      rw [hhold, ← hnone, Function.update_eq_self]
    · intro k k' hk _
      rw [hhold, answer_close (answers_one hk)]
      exact .give (if_pos h0)
  · rintro evs e m' - ⟨hr, -⟩
    cases hr

/-- Every operation but the copy of a `file` that holds a number is a step of the ledger. -/
theorem op_refines {o : Op} (ha : o.Allowed m)
    (hc : ∀ a this, o = .dup a .file this → m.fd this < 0) :
    Eff.Sat L o.exec m fun evs _ m' => Refines m evs m' := by
  cases o with
  | make a c =>
    obtain ⟨o, func, hrun⟩ := c.run_eq
    show Eff.Sat L (placeNew a c.cls c.run) m _
    rw [hrun]
    exact placeNew_opened (q := .opens o) trivial ha (openWith_spec o _ func)
  | adopt a c other =>
    obtain ⟨o, ho⟩ := Option.ne_none_iff_exists'.1 ha.2
    exact adopt_refines ha.1 ho
  | moveMake a c other =>
    obtain ⟨o, ho⟩ := ha.2.some
    exact moveMake_refines ha.1 ho
  | moveAssign c this other =>
    obtain ⟨o, ho⟩ := ha.1.some
    obtain ⟨o', ho'⟩ := ha.2.some
    exact moveAssign_refines ho ho'
  | dup a c this =>
    by_cases hfile : c = .file
    · -- a `file` without a number: the copy throws
      subst hfile
      have hneg := hc a this rfl
      refine (file_dup_spec (L := L) this).bind ?_ ?_
      · rintro evs fd m' - ⟨-, -, hr⟩
        rw [if_neg (by omega)] at hr
        cases hr
      · rintro evs e m' - ⟨rfl, rfl, -⟩
        exact refines_idle rfl
    · show Eff.Sat L (placeNew a c (c.dup this)) m _
      rw [c.dup_eq hfile]
      exact placeNew_opened (q := .dup (m.fd this)) trivial ha.1 (copyWith_spec this _)
  | dup2 c this other =>
    obtain ⟨o, ho⟩ := ha.1.some
    exact dup2_refines ho
  | accept a this => exact placeNew_opened (q := .accept (m.fd this)) trivial ha.1 (accept_spec this)
  | destroy a => exact destroy_refines

end Refines

/-! ## Runs -/

section Runs

variable {w w' : World} {a : Act}

theorem step_refines (h : Step w a w') (hc : ¬ CopiesFile w a)
    (hl : Holders.Linear w.mem.hold w.kernel.ledger.out) :
    Ledger.Step (w.mem.hold, w.kernel.ledger) (w'.mem.hold, w'.kernel.ledger) := by
  cases h with
  | op ha hr hk =>
    have hs := op_refines (L := fun _ _ => True) ha fun a this ho => by
      subst ho
      exact not_le.1 hc
    exact Eff.sat_iff_runs.1 hs _ _ _ hr (fun _ _ => trivial) _ _ hk hl
  | opened hn =>
    show Ledger.Step _ (w.mem.hold, _)
    rw [ledger_othersOpen hn]
    exact .idle
  | closed hn =>
    show Ledger.Step _ (w.mem.hold, _)
    rw [ledger_othersClose hn]
    exact .idle

theorem step_inv (h : Step w a w') (hi : Inv w) (hc : ¬ CopiesFile w a) : Inv w' := by
  obtain ⟨hl, hs⟩ := (step_refines h hc hi.linear).inv hi.linear hi.settled
  exact ⟨hl, hs⟩

/-- After the copy of a `file` that holds a number, two objects hold it. -/
theorem copy_not_owned (h : Step w a w') (hc : CopiesFile w a) : ¬ Owned w' := by
  intro ho
  cases h with
  | opened hn => exact hc
  | closed hn => exact hc
  | @op o evs r m' k' ha hr hk =>
    cases o with
    | dup a c this =>
      cases c with
      | file =>
        obtain ⟨ha, hlive⟩ := ha
        obtain ⟨o, hthis⟩ := hlive.some
        have hne : a ≠ this := by rintro rfl; rw [ha] at hthis; cases hthis
        have hs : Eff.Sat (fun _ _ => True) (Op.dup a .file this).exec w.mem fun _ _ m' =>
            m' = w.mem.place a ⟨.file, w.mem.fd this⟩ := by
          refine (file_dup_spec this).bind ?_ ?_
          · rintro evs fd m' - ⟨-, rfl, hr⟩
            rw [if_pos (show 0 ≤ w.mem.fd this from hc)] at hr
            cases hr
            rfl
          · rintro evs e m' - ⟨-, -, hr⟩
            rw [if_pos (show 0 ≤ w.mem.fd this from hc)] at hr
            cases hr
        obtain rfl := Eff.sat_iff_runs.1 hs _ _ _ hr fun _ _ => trivial
        have hfd := Memory.fd_of_some hthis
        refine hne (ho.distinct a this ⟨.file, w.mem.fd this⟩ o ?_ ?_ hc hfd)
        · exact Function.update_self ..
        · exact (Function.update_of_ne (Ne.symm hne) ..).trans hthis
      | _ => exact hc
    | _ => exact hc

end Runs

/-- In every run of the classes the descriptors are owned throughout exactly if no step copies a
`file` that holds a number. -/
theorem descriptors_owned_iff (others : List Int) (r : List (Act × World))
    (h : Run.Chain Step (.start others) r) :
    Run.Always Owned (.start others) r ↔ Run.Chain (fun w a _ => ¬ CopiesFile w a) (.start others) r :=
  h.always_iff (P := Inv) (fun _ => Inv.owned) (fun _ _ _ hs hi hc => step_inv hs hi hc)
    (fun _ _ _ hs _ ho hc => copy_not_owned hs hc ho) (start_inv others)

/-- Sockets are made, copied, accepted, moved, adopted and destroyed. -/
theorem descriptors_owned_sockets : ∃ r, Run.Chain Step (.start [0, 1, 2]) r ∧
    (Run.last (.start [0, 1, 2]) r).kernel.closes = [(4, some 1), (5, some 2), (3, some 0)] ∧
    Run.Always Owned (.start [0, 1, 2]) r := by
  have hplays : ∃ r, Run.plays World.play (.start [0, 1, 2]) [.op (.make 0 (.socket 1 1 0)) [.ok 3],
      .op (.dup 1 .socket 0) [.ok 4], .op (.dup2 .socket 1 0) [.ok 4], .op (.accept 2 0) [.error 24],
      .op (.accept 2 0) [.ok 5], .op (.moveAssign .socket 1 2) [], .op (.adopt 3 .socket 2) [],
      .op (.adopt 4 .socket 2) [], .op (.destroy 3) [.ok 0], .op (.destroy 1) [.ok 0],
      .op (.destroy 0) [.ok 0]] = some r := ⟨_, rfl⟩
  obtain ⟨r, hr⟩ := hplays
  have h := Run.plays_chain _ play_step hr
  refine ⟨r, h, ?_, (descriptors_owned_iff _ r h).2 ?_⟩
  · cases hr; rfl
  · cases hr
    exact ⟨id, id, id, id, id, id, id, id, id, id, id, trivial⟩

/-- A `file` and its copy by `dup` are destroyed: the second `close` ends an opening of the rest of the
process, which got the number in between. -/
theorem file_dup_closed_twice : ∃ r, Run.Chain Step (.start []) r ∧
    (Run.last (.start []) r).kernel.closes = [(3, some 0), (3, none)] ∧ ¬ Run.Always Owned (.start []) r := by
  have hplays : (Run.plays World.play (.start []) [.op (.make 0 (.file [] 0)) [.ok 3], .op (.dup 1 .file 0) [],
      .op (.destroy 0) [.ok 0], .opened 3, .op (.destroy 1) [.ok 0]]).map
      (fun r => (Run.last (.start []) r).kernel.closes) = some [(3, some 0), (3, none)] := by decide +kernel
  obtain ⟨r, hr, hcloses⟩ := Option.map_eq_some_iff.1 hplays
  refine ⟨r, Run.plays_chain _ play_step hr, hcloses, fun h => ?_⟩
  have hown := (Run.last_of_always h).own
  rw [hcloses] at hown
  revert hown
  decide

end Fdcpp.Descriptor
