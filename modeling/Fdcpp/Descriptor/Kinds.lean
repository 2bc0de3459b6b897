/-
What the numbers of the descriptor classes refer to: each open file is of the class whose
constructor, or `accept`, made it, or of none if the rest of the process did. Along every run in which
no `file` that holds a number is copied by `dup`, every object refers to a file of its own class exactly
if no class adopts the number of an object of another, and then every system call gets a file that it
is meant for.
-/
import Fdcpp.Descriptor.Ownership
import Mathlib.Data.List.GetD

namespace Fdcpp.Descriptor

/-! ## Kinds of files -/

namespace Opener

/-- The class whose constructor makes the call. -/
def cls : Opener → Class
  | epollCreate1 _ => .epoll
  | eventfd _ _ => .eventfd
  | openFile _ _ _ => .file
  | inotifyInit1 _ => .inotify
  | memfdCreate _ _ => .memfd
  | signalfd _ _ _ => .signalfd
  | socket _ _ _ => .socket
  | timerfdCreate _ _ => .timerfd

end Opener

/-- The kinds of the files that a call makes. -/
def born : (q : Sys) → Answer q → List (Option Class)
  | .opens o, .ok _ => [some o.cls]
  | .accept _, .ok _ => [some .socket]
  | .opens _, .error _ | .accept _, .error _ | .dup _, _ | .dup2 _ _, _ | .close _, _ => []

/-- The kinds of the files that the calls make. -/
def bornOf (evs : List Event) : List (Option Class) := evs.flatMap fun e => born e.1 e.2

/-- The kinds of the files that are made; those of the rest of the process have none. -/
def Act.born : Act → List (Option Class)
  | .op _ evs => bornOf evs
  | .opened _ => [none]
  | .closed _ => []

/-- The kind of the file that the number `n` refers to; `ks` are the kinds of the files so far. -/
def Kernel.kind (k : Kernel) (ks : List (Option Class)) (n : Int) : Option Class :=
  (k.table.file n).bind fun f => ks.getD f.file none

/-- The kinds of the numbers after a call. -/
def retype (kind : Int → Option Class) : (q : Sys) → Answer q → Int → Option Class
  | .opens o, .ok n => Function.update kind n (some o.cls)
  | .accept _, .ok n => Function.update kind n (some .socket)
  | .dup oldfd, .ok n => Function.update kind n (kind oldfd)
  | .dup2 oldfd newfd, .ok _ => Function.update kind newfd (kind oldfd)
  | .close fd, _ => Function.update kind fd none
  | .opens _, .error _ | .accept _, .error _ | .dup _, .error _ | .dup2 _ _, .error _ => kind

/-- The call is meant for the files that it gets: `accept` for a socket, `dup2` for two of one kind,
and none of them for a file of the rest of the process. A number below 0 is no file. -/
def Sys.Meant (kind : Int → Option Class) : Sys → Prop
  | .opens _ => True
  | .accept fd => 0 ≤ fd → kind fd = some .socket
  | .dup fd => 0 ≤ fd → kind fd ≠ none
  | .dup2 oldfd newfd => 0 ≤ oldfd → 0 ≤ newfd → kind oldfd = kind newfd ∧ kind newfd ≠ none
  | .close fd => kind fd ≠ none

/-- There are the kinds of as many files as there were, and no open number is below 0. -/
structure Kernel.Filed (k : Kernel) (ks : List (Option Class)) : Prop where
  count : ks.length = k.files
  known : ∀ n f, k.table.file n = some f → 0 ≤ n ∧ f.file < k.files

section Kernel

variable {k k' : Kernel} {ks : List (Option Class)} {n : Int}

namespace Kernel.Filed

/-- New files do not change what the open numbers refer to. -/
theorem kind_append (h : k.Filed ks) (ks' : List (Option Class)) : k.kind (ks ++ ks') = k.kind ks := by
  funext n
  unfold Kernel.kind
  cases hf : k.table.file n with
  | none => rfl
  | some f =>
    have hlt : f.file < ks.length := by rw [h.count]; exact (h.known n f hf).2
    exact List.getD_append _ _ _ _ hlt

/-- `n` refers to `f` from now on, and the other numbers to what they did. -/
theorem set (h : k.Filed ks) {f : OpenFile} {ks' : List (Option Class)} (hn : 0 ≤ n)
    (hcount : (ks ++ ks').length = k'.files) (hlt : f.file < k'.files)
    (htable : ∀ m, k'.table.file m = if m = n then some f else k.table.file m) :
    k'.Filed (ks ++ ks') ∧
      k'.kind (ks ++ ks') = Function.update (k.kind ks) n ((ks ++ ks').getD f.file none) := by
  refine ⟨⟨hcount, fun m g hg => ?_⟩, ?_⟩
  · rw [htable] at hg
    split at hg
    · rename_i hm
      cases hg
      exact ⟨hm ▸ hn, hlt⟩
    · obtain ⟨h0, hg⟩ := h.known m g hg
      rw [← h.count] at hg
      rw [← hcount, List.length_append]
      exact ⟨h0, by omega⟩
  · rw [← h.kind_append ks']
    funext m
    rw [Function.update_apply]
    unfold Kernel.kind
    rw [htable]
    split
    · rfl
    · rfl

/-- `n` refers to a new file of the kind `c`. -/
theorem openNew (h : k.Filed ks) {f : OpenFile} (hn : 0 ≤ n) (c : Option Class) (hf : f.file = k.files)
    (hfiles : k'.files = k.files + 1) (htable : k'.table = (n, f) :: k.table) :
    k'.Filed (ks ++ [c]) ∧ k'.kind (ks ++ [c]) = Function.update (k.kind ks) n c := by
  have hset : k'.Filed (ks ++ [c]) ∧
      k'.kind (ks ++ [c]) = Function.update (k.kind ks) n ((ks ++ [c]).getD f.file none) := by
    refine h.set hn ?_ ?_ fun m => ?_
    · rw [List.length_append, h.count, hfiles]
      rfl
    · rw [hf, hfiles]
      exact Nat.lt_succ_self _
    · rw [htable, Table.file_cons]
  rwa [hf, ← h.count, List.getD_append_right _ _ _ _ (le_refl _), Nat.sub_self] at hset

/-- `n` refers to what `old` does. -/
theorem copy (h : k.Filed ks) {f g : OpenFile} {old : Int} (hn : 0 ≤ n) (hg : k.table.file old = some g)
    (hf : f.file = g.file) (hfiles : k'.files = k.files)
    (htable : ∀ m, k'.table.file m = if m = n then some f else k.table.file m) :
    k'.Filed ks ∧ k'.kind ks = Function.update (k.kind ks) n (k.kind ks old) := by
  have hset : k'.Filed (ks ++ []) ∧
      k'.kind (ks ++ []) = Function.update (k.kind ks) n ((ks ++ []).getD f.file none) := by
    refine h.set hn ?_ ?_ htable
    · rw [List.append_nil, h.count, hfiles]
    · rw [hf, hfiles]
      exact (h.known old g hg).2
  have hold : k.kind ks old = ks.getD f.file none := by
    unfold Kernel.kind
    rw [hg, hf]
    rfl
  rwa [List.append_nil, ← hold] at hset

/-- `n` is closed. -/
theorem close (h : k.Filed ks) (hfiles : k'.files = k.files) (htable : k'.table = k.table.close n) :
    k'.Filed ks ∧ k'.kind ks = Function.update (k.kind ks) n none := by
  refine ⟨⟨h.count.trans hfiles.symm, fun m f hf => ?_⟩, ?_⟩
  · rw [htable, Table.file_close] at hf
    split at hf
    · cases hf
    · rw [hfiles]
      exact h.known m f hf
  · funext m
    rw [Function.update_apply]
    unfold Kernel.kind
    rw [htable, Table.file_close]
    split
    · rfl
    · rfl

end Kernel.Filed

theorem file_redirect (k : Kernel) (n : Int) (file : Nat) :
    ∃ f, f.file = file ∧ ∀ m, (k.redirect n file).table.file m = if m = n then some f else k.table.file m := by
  unfold Kernel.redirect
  cases hf : k.table.file n with
  | none => exact ⟨⟨file, some k.openings⟩, rfl, fun m => Table.file_cons m n _ _⟩
  | some g =>
    refine ⟨{ g with file := file }, rfl, fun m => ?_⟩
    dsimp only
    rw [Table.file_cons, Table.file_close]
    split
    · rfl
    · rfl

theorem files_redirect (k : Kernel) (n : Int) (file : Nat) : (k.redirect n file).files = k.files := by
  unfold Kernel.redirect
  split
  · rfl
  · rfl

/-- What a call does to the kinds of the numbers. -/
theorem answer_kind (h : k.Filed ks) {q : Sys} {r : Answer q} (hk : k.answer q r = some k') :
    k'.Filed (ks ++ born q r) ∧ k'.kind (ks ++ born q r) = retype (k.kind ks) q r := by
  cases q with
  | opens o =>
    cases r with
    | error e => cases hk; rw [born, List.append_nil]; exact ⟨h, rfl⟩
    | ok n =>
      unfold Kernel.answer at hk
      dsimp only at hk
      split at hk
      · cases hk
      · cases hk
        exact h.openNew (Int.natCast_nonneg n) _ rfl rfl rfl
  | accept fd =>
    cases r with
    | error e => cases hk; rw [born, List.append_nil]; exact ⟨h, rfl⟩
    | ok n =>
      unfold Kernel.answer at hk
      dsimp only at hk
      split at hk
      · split at hk
        · cases hk
        · cases hk
          exact h.openNew (Int.natCast_nonneg n) _ rfl rfl rfl
      · cases hk
  | dup oldfd =>
    rw [born, List.append_nil]
    cases r with
    | error e => cases hk; exact ⟨h, rfl⟩
    | ok n =>
      unfold Kernel.answer at hk
      dsimp only at hk
      split at hk
      · rename_i f hf
        split at hk
        · cases hk
        · cases hk
          exact h.copy (f := ⟨f.file, some k.openings⟩) (Int.natCast_nonneg n) hf rfl rfl fun m =>
            Table.file_cons m n _ _
      · cases hk
  | dup2 oldfd newfd =>
    rw [born, List.append_nil]
    cases r with
    | error e => cases hk; exact ⟨h, rfl⟩
    | ok n =>
      unfold Kernel.answer at hk
      dsimp only at hk
      split at hk
      · rename_i f hf
        split at hk
        · rename_i hn
          cases hk
          obtain ⟨g, hg, htable⟩ := file_redirect k newfd f.file
          exact h.copy (hn ▸ Int.natCast_nonneg n) hf hg (files_redirect k newfd f.file) htable
        · cases hk
      · cases hk
  | close fd =>
    rw [born, List.append_nil]
    unfold Kernel.answer at hk
    dsimp only at hk
    split at hk
    · cases hk
      exact h.close rfl rfl
    · cases hk

/-- The files that the calls make are counted. -/
theorem answers_filed : ∀ {evs : List Event} {k : Kernel} {ks : List (Option Class)}, k.Filed ks →
    k.answers evs = some k' → k'.Filed (ks ++ bornOf evs)
  | [], k, ks, h, hk => by
    cases hk
    exact (List.append_nil ks).symm ▸ h
  | e :: evs, k, ks, h, hk => by
    obtain ⟨k₁, hk₁, hk⟩ := Option.bind_eq_some_iff.1 hk
    have ih := answers_filed (answer_kind h hk₁).1 hk
    rwa [List.append_assoc] at ih

end Kernel

/-! ## Objects and their files -/

/-- Every object that holds a number refers to a file of its class. -/
def Typed (kind : Int → Option Class) (m : Memory) : Prop :=
  ∀ a o, m.objs a = some o → 0 ≤ o.fd → kind o.fd = some o.cls

section Typed

variable {kind : Int → Option Class} {m : Memory} {a : Nat} {c : Class} {n : Int}

theorem liveAt_setFd {b : Nat} (h : Op.LiveAt m c b) (a : Nat) (n : Int) : Op.LiveAt (m.setFd a n) c b := by
  unfold Op.LiveAt Memory.setFd at *
  dsimp only
  by_cases hb : b = a
  · rw [← hb, Function.update_self, Option.map_map]
    exact h
  · rwa [Function.update_of_ne hb]

namespace Typed

theorem fits (h : Typed kind m) (ha : Op.LiveAt m c a) (h0 : 0 ≤ m.fd a) : kind (m.fd a) = some c := by
  obtain ⟨o, ho, rfl⟩ := Option.map_eq_some_iff.1 ha
  rw [Memory.fd_of_some ho] at h0 ⊢
  exact h a o ho h0

theorem place (h : Typed kind m) (hn : 0 ≤ n → kind n = some c) : Typed kind (m.place a ⟨c, n⟩) :=
  forall_update h fun o ho => by cases ho; exact hn

theorem remove (h : Typed kind m) (a : Nat) : Typed kind (m.remove a) := forall_update h nofun

theorem setFd (h : Typed kind m) (ha : Op.LiveAt m c a) (hn : 0 ≤ n → kind n = some c) :
    Typed kind (m.setFd a n) := by
  refine forall_update h fun o ho => ?_
  obtain ⟨o₁, ho₁, rfl⟩ := Option.map_eq_some_iff.1 ho
  obtain ⟨o₂, ho₂, rfl⟩ := Option.map_eq_some_iff.1 ha
  cases ho₁.symm.trans ho₂
  exact hn

/-- An object without a number refers to no file. -/
theorem clear (h : Typed kind m) (ha : Op.LiveAt m c a) : Typed kind (m.setFd a (-1)) :=
  h.setFd ha fun h0 => absurd h0 (by decide)

/-- A number may get the kind of the objects that hold it. -/
theorem rekind {x : Option Class} (h : Typed kind m)
    (hx : ∀ a o, m.objs a = some o → 0 ≤ o.fd → o.fd = n → x = some o.cls) :
    Typed (Function.update kind n x) m := by
  intro a o ho h0
  rw [Function.update_apply]
  split
  · rename_i hn
    exact hx a o ho h0 hn
  · exact h a o ho h0

/-- A number that no object holds may get any kind. -/
theorem rekind_free {k : Kernel} (h : Typed kind m) (hl : Holders.Linear m.hold k.ledger.out)
    (hn : k.opening n = none) (x : Option Class) : Typed (Function.update kind n x) m := by
  refine h.rekind fun a o ho h0 he => ?_
  have hhold : m.hold a = some n := hold_eq_some.2 ⟨he ▸ h0, o, ho, he⟩
  exact absurd hn (hl.leased hhold)

end Typed

end Typed

/-! ## What an operation does to the kinds -/

/-- Whatever the kernel, the objects that refer to files of their classes still do after the calls `evs`
and the change from `m` to `m'`. -/
def KeepsKinds (m : Memory) (evs : List Event) (m' : Memory) : Prop :=
  ∀ (k k' : Kernel) (ks : List (Option Class)), k.answers evs = some k' → k.Filed ks →
    Holders.Linear m.hold k.ledger.out → Typed (k.kind ks) m → Typed (k'.kind (ks ++ bornOf evs)) m'

section KeepsKinds

variable {L : (q : Sys) → Answer q → Prop} {m m' : Memory} {a : Nat} {c : Class}

theorem keepsKinds_idle (h : ∀ kind, Typed kind m → Typed kind m') : KeepsKinds m [] m' := by
  intro k k' ks hk _ _ ht
  cases hk
  rw [bornOf, List.flatMap_nil, List.append_nil]
  exact h _ ht

theorem keepsKinds_call {q : Sys} {r : Answer q}
    (h : ∀ (k k' : Kernel) (ks : List (Option Class)), k.answer q r = some k' → k.Filed ks →
      Holders.Linear m.hold k.ledger.out → Typed (k.kind ks) m → Typed (retype (k.kind ks) q r) m') :
    KeepsKinds m [⟨q, r⟩] m' := by
  intro k k' ks hk hf hl ht
  have hk := answers_one hk
  rw [bornOf, List.flatMap_singleton, (answer_kind hf hk).2]
  exact h k k' ks hk hf hl ht

/-- A new object gets a new number, which refers to a file of its class, or none. -/
theorem placeNew_keepsKinds {ctor : SysM Int} {q : Sys} {tag func : String} (hq : q.IsNew)
    (hnew : ∀ (k k' : Kernel) (ks : List (Option Class)) (n : Nat), k.answer q (.ok n) = some k' → k.Filed ks →
      Typed (k.kind ks) m → retype (k.kind ks) q (.ok n) = Function.update (k.kind ks) n (some c))
    (h : Eff.Sat L ctor m (Opened m q tag func)) :
    Eff.Sat L (placeNew a c ctor) m fun evs _ m' => KeepsKinds m evs m' := by
  unfold placeNew
  refine h.bind (fun evs fd m' _ hm => ?_) fun evs e m' _ hm => ?_
  · rw [Eff.sat_modify, List.append_nil]
    rcases hm with ⟨n, rfl, hn, rfl⟩ | ⟨_, _, hr, _⟩
    · cases hn
      refine keepsKinds_call fun k k' ks hk hf hl ht => ?_
      rw [hnew k k' ks n hk hf ht]
      rcases answer_isNew hq hk with ⟨n', hn', hfree, -⟩ | ⟨⟨_, he⟩, _⟩
      · cases hn'
        exact (ht.rekind_free hl hfree (some c)).place fun _ => Function.update_self ..
      · cases he
    · cases hr
  · rcases hm with ⟨_, _, hr, _⟩ | ⟨e', rfl, _, rfl⟩
    · cases hr
    · refine keepsKinds_call fun k k' ks _ _ _ ht => ?_
      cases q with
      | dup2 | close => cases hq
      | _ => exact ht

/-- A constructor makes the call of its class. -/
theorem Ctor.run_opener (c : Ctor) : ∃ o func, o.cls = c.cls ∧ c.run = openWith o c.cls.tag func := by
  cases c <;> exact ⟨_, _, rfl, rfl⟩

theorem dup_keepsKinds {this : Nat} (hthis : Op.LiveAt m c this)
    (hc : c = .file → m.fd this < 0) :
    Eff.Sat L (placeNew a c (c.dup this)) m fun evs _ m' => KeepsKinds m evs m' := by
  by_cases hfile : c = .file
  · subst hfile
    refine (file_dup_spec (L := L) this).bind ?_ ?_
    · rintro evs fd m' - ⟨-, -, hr⟩
      rw [if_neg (not_le.2 (hc rfl))] at hr
      cases hr
    · rintro evs e m' - ⟨rfl, rfl, -⟩
      exact keepsKinds_idle fun _ => id
  · rw [c.dup_eq hfile]
    refine placeNew_keepsKinds (q := .dup (m.fd this)) trivial (fun k k' ks n hk hf ht => ?_) (copyWith_spec this _)
    -- the kernel has copied an open number
    obtain ⟨f, hopen⟩ : ∃ f, k.table.file (m.fd this) = some f := by
      unfold Kernel.answer at hk
      dsimp only at hk
      split at hk
      · rename_i f hopen
        exact ⟨f, hopen⟩
      · cases hk
    rw [← ht.fits hthis (hf.known _ f hopen).1]
    rfl

theorem adopt_keepsKinds {other : Nat} (ho : m.objs other ≠ none)
    (hc : 0 ≤ m.fd other → Op.LiveAt m c other) :
    Eff.Sat L (placeNew a c (c.adopt other)) m fun evs _ m' => KeepsKinds m evs m' := by
  obtain ⟨o, ho⟩ := Option.ne_none_iff_exists'.1 ho
  have hlive : Op.LiveAt m o.cls other := by
    unfold Op.LiveAt
    rw [ho]
    rfl
  obtain ⟨func, hf⟩ := c.adopt_eq other
  rw [hf]
  unfold placeNew
  refine (adoptWith_spec (L := L) other c.tag func).bind ?_ ?_
  · rintro evs fd m' - ⟨rfl, rfl, hr⟩
    rw [Eff.sat_modify]
    split at hr
    · cases hr
      exact keepsKinds_idle fun kind ht => (ht.clear hlive).place fun h0 => ht.fits (hc h0) h0
    · cases hr
  · rintro evs e m' - ⟨rfl, rfl, -⟩
    exact keepsKinds_idle fun kind ht => ht.clear hlive

theorem moveMake_keepsKinds {other : Nat} (ho : Op.LiveAt m c other) :
    Eff.Sat L (placeNew a c (moveFrom other)) m fun evs _ m' => KeepsKinds m evs m' := by
  unfold placeNew moveFrom
  rw [Eff.sat_bind, Eff.sat_get_bind, Eff.sat_modify_bind, Eff.sat_pure]
  exact keepsKinds_idle fun kind ht => (ht.clear ho).place fun h0 => ht.fits ho h0

theorem moveAssign_keepsKinds {this other : Nat} (ho : Op.LiveAt m c this) (ho' : Op.LiveAt m c other) :
    Eff.Sat L (moveAssign this other) m fun evs _ m' => KeepsKinds m evs m' := by
  unfold moveAssign
  rw [Eff.sat_modify]
  refine keepsKinds_idle fun kind ht => ?_
  exact (ht.setFd ho (ht.fits ho')).setFd (liveAt_setFd ho' _ _) (ht.fits ho)

/-- `dup2` gives the number of an object the file of another of its class. -/
theorem dup2_keepsKinds {this other : Nat} (ho : Op.LiveAt m c this) (ho' : Op.LiveAt m c other) :
    Eff.Sat L (c.dup2 this other) m fun evs _ m' => KeepsKinds m evs m' := by
  rw [c.dup2_eq]
  refine (dup2With_spec (L := L) this other c.tag).mono fun evs r m' _ hm => ?_
  rcases hm with ⟨n, rfl, -, rfl⟩ | ⟨e, rfl, -, rfl⟩
  · refine keepsKinds_call fun k k' ks hk hf hl ht => ht.rekind fun b o hb h0 he => ?_
    unfold Kernel.answer at hk
    dsimp only at hk
    split at hk
    · rename_i f hopen
      -- whatever holds the number is of the class of `this`
      have hthis := ht.fits ho (he ▸ h0)
      rw [← he, ht b o hb h0] at hthis
      rw [hthis, ht.fits ho' (hf.known _ f hopen).1]
    · cases hk
  · exact keepsKinds_call fun k k' ks _ _ _ ht => ht

theorem destroy_keepsKinds : Eff.Sat L (Op.destroy a).exec m fun evs _ m' => KeepsKinds m evs m' := by
  unfold Op.exec
  rw [Eff.sat_get_bind]
  refine (destroy_spec (L := L) (m.fd a)).bind ?_ ?_
  · rintro evs - m' - ⟨-, hobjs, hevs⟩
    rw [Eff.sat_modify, List.append_nil]
    have hremove : (m'.remove a).objs = (m.remove a).objs := by
      unfold Memory.remove
      rw [hobjs]
    unfold KeepsKinds Typed
    rw [hremove]
    rcases hevs with ⟨-, rfl⟩ | ⟨h0, ans, rfl⟩
    · exact keepsKinds_idle fun kind ht => ht.remove a
    · refine keepsKinds_call fun k k' ks _ _ hl ht => (ht.remove a).rekind fun b o hb hb0 he => ?_
      -- no other object holds the number
      obtain ⟨hne, hb⟩ := update_none_eq_some hb
      have hold : m.hold b = some (m.fd a) := hold_eq_some.2 ⟨h0, o, hb, he⟩
      exact absurd (hl.one hold (if_pos h0)) hne
  · rintro evs e m' - ⟨hr, -⟩
    cases hr

/-- Every operation keeps the kinds but the copy of a `file` that holds a number and the adoption of
a number of another class. -/
theorem op_keepsKinds {o : Op} (ha : o.Allowed m) (hc : ∀ a this, o = .dup a .file this → m.fd this < 0)
    (hv : ∀ a c other, o = .adopt a c other → 0 ≤ m.fd other → Op.LiveAt m c other) :
    Eff.Sat L o.exec m fun evs _ m' => KeepsKinds m evs m' := by
  cases o with
  | make a c =>
    obtain ⟨o, func, hcls, hrun⟩ := c.run_opener
    show Eff.Sat L (placeNew a c.cls c.run) m _
    rw [hrun, ← hcls]
    exact placeNew_keepsKinds (q := .opens o) trivial (fun _ _ _ _ _ _ _ => rfl) (openWith_spec o _ func)
  | adopt a c other => exact adopt_keepsKinds ha.2 (hv a c other rfl)
  | moveMake a c other => exact moveMake_keepsKinds ha.2
  | moveAssign c this other => exact moveAssign_keepsKinds ha.1 ha.2
  | dup a c this => exact dup_keepsKinds ha.2 fun hfile => hc a this (by rw [hfile])
  | dup2 c this other => exact dup2_keepsKinds ha.1 ha.2
  | accept a this =>
    exact placeNew_keepsKinds (q := .accept (m.fd this)) trivial (fun _ _ _ _ _ _ _ => rfl) (accept_spec this)
  | destroy a => exact destroy_keepsKinds

end KeepsKinds

/-! ## What the calls are for -/

section Meant

variable {L : (q : Sys) → Answer q → Prop} {kind : Int → Option Class} {m : Memory} {a : Nat} {c : Class}

theorem placeNew_meant {ctor : SysM Int} {q : Sys} {tag func : String} (hq : q.Meant kind)
    (h : Eff.Sat L ctor m (Opened m q tag func)) :
    Eff.Sat L (placeNew a c ctor) m fun evs _ _ => ∀ e ∈ evs, e.1.Meant kind := by
  have hevs : ∀ evs r m', Opened m q tag func evs r m' → ∀ e ∈ evs, e.1.Meant kind := by
    rintro evs r m' (⟨n, rfl, -⟩ | ⟨e, rfl, -⟩)
    · exact List.forall_mem_singleton.2 hq
    · exact List.forall_mem_singleton.2 hq
  unfold placeNew
  refine h.bind (fun evs fd m' _ hm => ?_) fun evs e m' _ hm => hevs _ _ _ hm
  rw [Eff.sat_modify, List.append_nil]
  exact hevs _ _ _ hm

/-- When every object refers to a file of its class, an operation makes no call that is not meant for
the files it gets. -/
theorem op_meant {o : Op} (ha : o.Allowed m) (ht : Typed kind m) :
    Eff.Sat L o.exec m fun evs _ _ => ∀ e ∈ evs, e.1.Meant kind := by
  cases o with
  | make a c =>
    obtain ⟨o, func, -, hrun⟩ := c.run_opener
    show Eff.Sat L (placeNew a c.cls c.run) m _
    rw [hrun]
    exact placeNew_meant (q := .opens o) trivial (openWith_spec o _ func)
  | adopt a c other =>
    obtain ⟨func, hf⟩ := c.adopt_eq other
    show Eff.Sat L (placeNew a c (c.adopt other)) m _
    rw [hf]
    refine (adoptWith_spec (L := L) other c.tag func).bind ?_ ?_
    · rintro evs fd m' - ⟨rfl, -⟩
      exact nofun
    · rintro evs e m' - ⟨rfl, -⟩
      exact nofun
  | moveMake a c other => exact nofun
  | moveAssign c this other => exact nofun
  | dup a c this =>
    by_cases hfile : c = .file
    · subst hfile
      refine (file_dup_spec (L := L) this).bind ?_ ?_
      · rintro evs fd m' - ⟨rfl, -⟩
        exact nofun
      · rintro evs e m' - ⟨rfl, -⟩
        exact nofun
    · show Eff.Sat L (placeNew a c (c.dup this)) m _
      rw [c.dup_eq hfile]
      refine placeNew_meant (q := .dup (m.fd this)) (fun h0 => ?_) (copyWith_spec this _)
      rw [ht.fits ha.2 h0]
      exact Option.some_ne_none c
  | dup2 c this other =>
    show Eff.Sat L (c.dup2 this other) m _
    rw [c.dup2_eq]
    have hq : Sys.Meant kind (.dup2 (m.fd other) (m.fd this)) := fun h0 h0' => by
      rw [ht.fits ha.1 h0', ht.fits ha.2 h0]
      exact ⟨rfl, Option.some_ne_none c⟩
    refine (dup2With_spec (L := L) this other c.tag).mono fun evs r m' _ hm => ?_
    rcases hm with ⟨n, rfl, -⟩ | ⟨e, rfl, -⟩
    · exact List.forall_mem_singleton.2 hq
    · exact List.forall_mem_singleton.2 hq
  | accept a this =>
    exact placeNew_meant (q := .accept (m.fd this)) (fun h0 => ht.fits ha.2 h0) (accept_spec this)
  | destroy a =>
    obtain ⟨o, ho⟩ := Option.ne_none_iff_exists'.1 ha
    unfold Op.exec
    rw [Eff.sat_get_bind]
    refine (destroy_spec (L := L) (m.fd a)).bind ?_ ?_
    · rintro evs - m' - ⟨-, -, ⟨-, rfl⟩ | ⟨h0, ans, rfl⟩⟩
      · exact nofun
      · rw [Eff.sat_modify, List.append_nil]
        refine List.forall_mem_singleton.2 ?_
        show kind (m.fd a) ≠ none
        rw [Memory.fd_of_some ho] at h0 ⊢
        rw [ht a o ho h0]
        exact Option.some_ne_none _
    · rintro evs e m' - ⟨hr, -⟩
      cases hr

end Meant

/-! ## Runs -/

/-- The step makes an object over the number of one of another class. -/
def Converts (w : World) : Act → Prop
  | .op (.adopt _ c other) _ => 0 ≤ w.mem.fd other ∧ ¬ Op.LiveAt w.mem c other
  | _ => False

/-- The system calls of the library. -/
def Act.calls : Act → List Event
  | .op _ evs => evs
  | .opened _ | .closed _ => []

/-- The classes at work, and the kinds of the files so far. -/
structure Traced where
  world : World
  kinds : List (Option Class)

namespace Traced

def start (others : List Nat) : Traced := ⟨.start (others.map Int.ofNat), List.replicate others.length none⟩

def Step (s : Traced) (a : Act) (s' : Traced) : Prop :=
  Descriptor.Step s.world a s'.world ∧ s'.kinds = s.kinds ++ a.born

/-- The kind of the file that a number refers to. -/
def kind (s : Traced) : Int → Option Class := s.world.kernel.kind s.kinds

/-- Every object that holds a number refers to a file of its class. -/
def Kept (s : Traced) : Prop := Typed s.kind s.world.mem

/-- Every system call gets files that it is meant for. -/
def Meant (s : Traced) (a : Act) : Prop := ∀ e ∈ a.calls, e.1.Meant s.kind

structure Inv (s : Traced) : Prop where
  owned : Descriptor.Inv s.world
  filed : s.world.kernel.Filed s.kinds
  kept : s.Kept

section Runs

variable {s s' : Traced} {a : Act}

theorem start_inv (others : List Nat) : (start others).Inv where
  owned := Descriptor.start_inv _
  filed := by
    constructor
    · show (List.replicate others.length none).length = (others.map Int.ofNat).length
      rw [List.length_replicate, List.length_map]
    · intro n f hf
      obtain ⟨p, hp, he⟩ := List.mem_map.1 (Table.mem_of_file hf)
      obtain ⟨hlt, hn⟩ := List.mem_zipIdx' hp
      cases he
      refine ⟨?_, hlt⟩
      rw [hn, List.getElem_map]
      exact Int.natCast_nonneg _
  kept := by intro a o ho; cases ho

theorem step_inv (h : Step s a s') (hi : s.Inv) (hc : ¬ CopiesFile s.world a) (hv : ¬ Converts s.world a) :
    s'.Inv := by
  have howned := Descriptor.step_inv h.1 hi.owned hc
  obtain ⟨w', ks'⟩ := s'
  obtain ⟨h, hks⟩ := h
  dsimp only at h hks howned
  subst hks
  cases h with
  | @op o evs r m' k' ha hr hk =>
    have hs := op_keepsKinds (L := fun _ _ => True) ha
      (fun a this ho => by subst ho; exact not_le.1 hc)
      (fun a c other ho h0 => by subst ho; exact not_not.1 fun hl => hv ⟨h0, hl⟩)
    have hkeep := Eff.sat_iff_runs.1 hs _ _ _ hr fun _ _ => trivial
    exact ⟨howned, answers_filed hi.filed hk, hkeep _ _ _ hk hi.filed hi.owned.linear hi.kept⟩
  | @opened n hn =>
    have hset : (s.world.kernel.othersOpen n).Filed (s.kinds ++ [none]) ∧
        (s.world.kernel.othersOpen n).kind (s.kinds ++ [none]) = Function.update s.kind n none :=
      hi.filed.openNew (Int.natCast_nonneg n) none rfl rfl rfl
    refine ⟨howned, hset.1, ?_⟩
    show Typed ((s.world.kernel.othersOpen n).kind (s.kinds ++ [none])) s.world.mem
    rw [hset.2]
    exact hi.kept.rekind_free hi.owned.linear (opening_none hn) none
  | @closed n f hn =>
    have hset : (s.world.kernel.othersClose n).Filed s.kinds ∧
        (s.world.kernel.othersClose n).kind s.kinds = Function.update s.kind n none := hi.filed.close rfl rfl
    have hopening : s.world.kernel.opening n = none := by
      unfold Kernel.opening
      rw [hn]
      rfl
    rw [show s.kinds ++ Act.born (.closed n) = s.kinds from List.append_nil _]
    refine ⟨howned, hset.1, ?_⟩
    show Typed ((s.world.kernel.othersClose n).kind s.kinds) s.world.mem
    rw [hset.2]
    exact hi.kept.rekind_free hi.owned.linear hopening none

/-- The new object has the number of one of another class, and the number refers to a file of that. -/
theorem converts_not_kept (h : Step s a s') (hi : s.Inv) (hv : Converts s.world a) : ¬ s'.Kept := by
  obtain ⟨w', ks'⟩ := s'
  obtain ⟨h, hks⟩ := h
  dsimp only at h hks
  subst hks
  cases h with
  | opened hn => exact hv.elim
  | closed hn => exact hv.elim
  | @op o evs r m' k' ha hr hk =>
    cases o with
    | adopt a c other =>
      obtain ⟨h0, hlive⟩ := hv
      obtain ⟨o, ho⟩ := Option.ne_none_iff_exists'.1 ha.2
      have hs : Eff.Sat (fun _ _ => True) (Op.adopt a c other).exec s.world.mem fun evs _ m' =>
          evs = [] ∧ m' = (s.world.mem.setFd other (-1)).place a ⟨c, s.world.mem.fd other⟩ := by
        obtain ⟨func, hf⟩ := c.adopt_eq other
        show Eff.Sat _ (placeNew a c (c.adopt other)) _ _
        rw [hf]
        unfold placeNew
        refine (adoptWith_spec other c.tag func).bind ?_ ?_
        · rintro evs fd m' - ⟨rfl, rfl, hr⟩
          rw [if_pos h0] at hr
          cases hr
          exact ⟨rfl, rfl⟩
        · rintro evs e m' - ⟨-, -, hr⟩
          rw [if_pos h0] at hr
          cases hr
      obtain ⟨rfl, rfl⟩ := Eff.sat_iff_runs.1 hs _ _ _ hr fun _ _ => trivial
      cases hk
      intro hkept
      have hkind : s.kind (s.world.mem.fd other) = some c := by
        have := hkept a _ (Function.update_self ..) h0
        rwa [kind, show s.kinds ++ Act.born (.op (.adopt a c other) []) = s.kinds from List.append_nil _] at this
      rw [Memory.fd_of_some ho] at hkind h0
      rw [hi.kept other o ho h0] at hkind
      refine hlive ?_
      unfold Op.LiveAt
      rw [ho, Option.map_some, hkind]
    | _ => exact hv.elim

theorem step_meant (h : Step s a s') (hi : s.Inv) : s.Meant a := by
  obtain ⟨w', ks'⟩ := s'
  obtain ⟨h, -⟩ := h
  dsimp only at h
  cases h with
  | op ha hr hk =>
    have hs := op_meant (L := fun _ _ => True) ha hi.kept
    exact Eff.sat_iff_runs.1 hs _ _ _ hr fun _ _ => trivial
  | opened hn => exact nofun
  | closed hn => exact nofun

end Runs

/-- The run that `World.play` finds, with the kinds of the files. -/
def play (s : Traced) (c : Cue) : Option (Act × Traced) :=
  (s.world.play c).map fun p => (p.1, ⟨p.2, s.kinds ++ p.1.born⟩)

theorem play_step (s : Traced) (c : Cue) (p : Act × Traced) (h : s.play c = some p) : s.Step p.1 p.2 := by
  obtain ⟨q, hq, rfl⟩ := Option.map_eq_some_iff.1 h
  exact ⟨Descriptor.play_step _ c q hq, rfl⟩

end Traced

/-- In every run of the classes in which no `file` that holds a number is copied, every object refers to a
file of its class throughout exactly if no step converts a number from one class to another; and then
every system call gets files that it is meant for. -/
theorem classes_kept_iff (others : List Nat) (r : List (Act × Traced))
    (h : Run.Chain Traced.Step (.start others) r)
    (hc : Run.Chain (fun s a _ => ¬ CopiesFile s.world a) (.start others) r) :
    (Run.Always Traced.Kept (.start others) r ↔ Run.Chain (fun s a _ => ¬ Converts s.world a) (.start others) r) ∧
      (Run.Always Traced.Kept (.start others) r → Run.Chain (fun s a _ => s.Meant a) (.start others) r) := by
  have hrun := Run.chain_and.2 ⟨h, hc⟩
  have hiff := hrun.always_iff (P := Traced.Inv) (Q := Traced.Kept) (C := fun s a _ => ¬ Converts s.world a)
    (fun _ => Traced.Inv.kept) (fun _ _ _ hs hi hv => Traced.step_inv hs.1 hi hs.2 hv)
    (fun _ _ _ hs hi hk hv => Traced.converts_not_kept hs.1 hi hv hk) (Traced.start_inv others)
  refine ⟨hiff, fun hk => ?_⟩
  exact (hrun.always_chain (P := Traced.Inv) (R := fun s a _ => s.Meant a)
    (fun _ _ _ hs hv hi => ⟨Traced.step_inv hs.1 hi hs.2 hv, Traced.step_meant hs.1 hi⟩) (hiff.1 hk)
    (Traced.start_inv others)).2

/-- A file and sockets at work, one of which takes the number of another over. -/
theorem classes_kept_sockets : ∃ r, Run.Chain Traced.Step (.start [0, 1, 2]) r ∧
    (Run.last (.start [0, 1, 2]) r).kinds = [none, none, none, some .file, some .socket, none, some .socket] ∧
    Run.Always Traced.Kept (.start [0, 1, 2]) r ∧ Run.Chain (fun s a _ => s.Meant a) (.start [0, 1, 2]) r := by
  have hplays : ∃ r, Run.plays Traced.play (.start [0, 1, 2]) [.op (.make 0 (.file [] 0)) [.ok 3],
      .op (.make 1 (.socket 1 1 0)) [.ok 4], .opened 5, .op (.accept 2 1) [.ok 6], .op (.dup 3 .socket 1) [.ok 7],
      .op (.dup2 .socket 3 2) [.ok 7], .op (.adopt 4 .socket 3) [], .closed 5, .op (.destroy 0) [.ok 0],
      .op (.accept 5 4) [.error 11]] = some r := ⟨_, rfl⟩
  obtain ⟨r, hr⟩ := hplays
  have h := Run.plays_chain _ Traced.play_step hr
  have hcopies : Run.Chain (fun s a _ => ¬ CopiesFile s.world a) (Traced.start [0, 1, 2]) r := by
    cases hr
    exact ⟨id, id, id, id, id, id, id, id, id, id, trivial⟩
  have hkept := classes_kept_iff [0, 1, 2] r h hcopies
  have hc : Run.Chain (fun s a _ => ¬ Converts s.world a) (Traced.start [0, 1, 2]) r := by
    cases hr
    exact ⟨id, id, id, id, id, id, fun hv => hv.2 rfl, id, id, id, trivial⟩
  have hall := hkept.1.2 hc
  refine ⟨r, h, ?_, hall, hkept.2 hall⟩
  cases hr
  rfl

end Fdcpp.Descriptor
