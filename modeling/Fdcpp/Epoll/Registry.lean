/-
An epoll object as its users see it: a registry of descriptors, each with its mask and with the datum that an
overload of `add`, `mod` or `ctl` gave it. The kernel's list of untyped words refines it, so that whatever
is done to the object, each event that is reported has the datum of a descriptor that is registered, in the
member of the union that it was stored in.
-/
import Fdcpp.Epoll.Events
import Fdcpp.Lib.Run
import Mathlib.Data.List.Forall2

namespace Fdcpp.Epoll

/-! ## The registry -/

/-- What a function asks for. -/
inductive Request
  | add (fd : Int) (mask : UInt32) (data : Data)
  | mod (fd : Int) (mask : UInt32) (data : Data)
  | del (fd : Int)
  | wait (size : Int)
  | invalid

/-- The requests of `ctl`. -/
def Request.ofCtl (op fd : Int) : Option (UInt32 × Data) → Request
  | some (mask, data) =>
    if op = EPOLL_CTL_ADD then .add fd mask data
    else if op = EPOLL_CTL_MOD then .mod fd mask data
    else if op = EPOLL_CTL_DEL then .del fd
    else .invalid
  | none => if op = EPOLL_CTL_DEL then .del fd else .invalid

namespace Call

/-- A `struct epoll_event` of the caller has the datum `data.u64`. -/
def request : Call → Request
  | ctl op fd ev => .ofCtl op fd (ev.map fun ev => (ev.events, .u64 ev.u64))
  | ctlData op fd mask data => .ofCtl op fd (some (mask, data))
  | add fd mask data => .add fd mask data
  | mod fd mask data => .mod fd mask data
  | del fd => .del fd
  | wait size _ | pwait size _ _ => .wait size

/-- The name of a function in its exceptions. -/
def func : Call → String
  | wait .. => "wait()"
  | pwait .. => "pwait()"
  | _ => "ctl()"

end Call

/-- The event shows the datum of a descriptor that is registered and armed. -/
def Shows (reg : Watch Data) (t : Int × Nat) (ev : EpollEvent) : Prop :=
  ∃ x, reg.items t = some x ∧ x.armed = true ∧ Reportable x.mask ev.events ∧ x.data.In ev

/-- What a registry does. A function that throws leaves it as it is. -/
inductive Registry : Watch Data → Act → Watch Data → Prop
  | add {reg : Watch Data} {f : Call} {fd : Int} {file : Nat} {mask : UInt32} {data : Data}
    (asks : f.request = .add fd mask data) (hfile : reg.files fd = some file) (new : reg.items (fd, file) = none) :
    Registry reg (.call f (.ok [])) (reg.put (fd, file) ⟨mask, data, true⟩)
  | mod {reg : Watch Data} {f : Call} {fd : Int} {file : Nat} {mask : UInt32} {data : Data}
    (asks : f.request = .mod fd mask data) (hfile : reg.files fd = some file) (old : reg.items (fd, file) ≠ none) :
    Registry reg (.call f (.ok [])) (reg.put (fd, file) ⟨mask, data, true⟩)
  | del {reg : Watch Data} {f : Call} {fd : Int} {file : Nat}
    (asks : f.request = .del fd) (hfile : reg.files fd = some file) (old : reg.items (fd, file) ≠ none) :
    Registry reg (.call f (.ok [])) (reg.drop (fd, file))
  | wait {reg : Watch Data} {f : Call} {size : Int} {ts : List (Int × Nat)} {evs : List EpollEvent}
    (asks : f.request = .wait size) (once : ts.Nodup) (fits : ts.length ≤ size)
    (shows : List.Forall₂ (Shows reg) ts evs) : Registry reg (.call f (.ok evs)) (reg.fired ts)
  | throws {reg : Watch Data} {f : Call} (e : Errno) :
    Registry reg (.call f (.error (throwSystemError "epoll" f.func e))) reg
  | refer {reg : Watch Data} (fd : Int) (file : Option Nat) : Registry reg (.refer fd file) (reg.refer fd file)
  | release {reg : Watch Data} {file : Nat} (closed : ∀ fd, reg.files fd ≠ some file) :
    Registry reg (.release file) (reg.release file)

/-! ## The kernel's list of a registry -/

/-- The item with the word of its datum. -/
def Item.word (x : Item Data) : Item UInt64 := ⟨x.mask, x.data.word, x.armed⟩

/-- What the kernel watches for a registry. -/
def Watch.words (reg : Watch Data) : Watch UInt64 := ⟨reg.files, fun t => (reg.items t).map Item.word⟩

section Words

variable {reg : Watch Data} {t : Int × Nat}

theorem words_items_eq_none : reg.words.items t = none ↔ reg.items t = none := Option.map_eq_none_iff

theorem words_put (x : Item Data) : (reg.put t x).words = reg.words.put t x.word := by
  refine congrArg (Watch.mk reg.files) (funext fun u => ?_)
  by_cases h : u = t
  · subst h
    simp [Watch.put]
  · simp [Watch.put, Watch.words, h]

theorem words_drop : (reg.drop t).words = reg.words.drop t := by
  refine congrArg (Watch.mk reg.files) (funext fun u => ?_)
  by_cases h : u = t
  · subst h
    simp [Watch.drop]
  · simp [Watch.drop, Watch.words, h]

theorem word_fired (x : Item Data) : x.fired.word = x.word.fired := by
  unfold Item.fired
  split
  · rename_i h
    exact (if_pos h).symm
  · rename_i h
    exact (if_neg h).symm

theorem words_fired (ts : List (Int × Nat)) : (reg.fired ts).words = reg.words.fired ts := by
  refine congrArg (Watch.mk reg.files) (funext fun u => ?_)
  show Option.map Item.word (if u ∈ ts then _ else _) = if u ∈ ts then _ else _
  split
  · rw [Option.map_map]
    show _ = Option.map Item.fired (Option.map Item.word (reg.items u))
    rw [Option.map_map]
    exact congrArg (Option.map · (reg.items u)) (funext word_fired)
  · rfl

theorem words_release (file : Nat) : (reg.release file).words = reg.words.release file := by
  refine congrArg (Watch.mk reg.files) (funext fun u => ?_)
  show Option.map Item.word (if u.2 = file then none else _) = if u.2 = file then none else _
  split
  · rfl
  · rfl

end Words

/-! ## What the functions do -/

section Specs

variable {junk : EpollEvent} {evs : List (Ev Sys Sys.Answer)} {r : Except SystemError (List EpollEvent)}

theorem ctl_runs {op fd : Int} {ev : Option EpollEvent} (h : ((ctl op fd ev *> pure []).prog ()).Runs evs (r, ())) :
    (evs = [⟨.ctl op fd ev, (Except.ok () : Except Errno Unit)⟩] ∧ r = .ok []) ∨
    ∃ e, evs = [⟨.ctl op fd ev, (Except.error e : Except Errno Unit)⟩] ∧
      r = .error (throwSystemError "epoll" "ctl()" e) := by
  cases h with
  | ask a h =>
    match a with
    | .ok () =>
      cases h
      exact .inl ⟨rfl, rfl⟩
    | .error e =>
      cases h
      exact .inr ⟨e, rfl, rfl⟩

theorem waitAs_runs {func : String} {size timeout : Int} {sigmask : Option (List Nat)}
    (h : ((waitAs func size timeout sigmask).prog ()).Runs evs (r, ())) :
    (∃ reports, evs = [⟨.pwait size timeout sigmask, (Except.ok reports : Except Errno (List EpollEvent))⟩] ∧
      r = .ok reports) ∨
    ∃ e, evs = [⟨.pwait size timeout sigmask, (Except.error e : Except Errno (List EpollEvent))⟩] ∧
      r = .error (throwSystemError "epoll" func e) := by
  cases h with
  | ask a h =>
    match a with
    | .ok reports =>
      cases h
      exact .inl ⟨reports, rfl, rfl⟩
    | .error e =>
      cases h
      exact .inr ⟨e, rfl, rfl⟩

/-- The event that the kernel gets for a datum. -/
def eventOf (x : UInt32 × Data) : EpollEvent := .of x.1 x.2.word

theorem ctlData_runs {op fd : Int} {mask : UInt32} {data : Data}
    (h : ((ctlData junk op fd mask data *> pure []).prog ()).Runs evs (r, ())) :
    (evs = [⟨.ctl op fd (some (eventOf (mask, data))), (Except.ok () : Except Errno Unit)⟩] ∧ r = .ok []) ∨
    ∃ e, evs = [⟨.ctl op fd (some (eventOf (mask, data))), (Except.error e : Except Errno Unit)⟩] ∧
      r = .error (throwSystemError "epoll" "ctl()" e) := by
  rw [ctlData, makeEvent_eq] at h
  exact ctl_runs h

/-- A function makes a call of `ctl` for its request, or waits. -/
theorem exec_runs (f : Call) (h : ((f.exec junk).prog ()).Runs evs (r, ())) :
    (∃ op fd x, f.request = .ofCtl op fd x ∧
      ((evs = [⟨.ctl op fd (x.map eventOf), (Except.ok () : Except Errno Unit)⟩] ∧ r = .ok []) ∨
      ∃ e, evs = [⟨.ctl op fd (x.map eventOf), (Except.error e : Except Errno Unit)⟩] ∧
        r = .error (throwSystemError "epoll" f.func e))) ∨
    (∃ size timeout sigmask, f.request = .wait size ∧
      ((∃ reports, evs = [⟨.pwait size timeout sigmask, (Except.ok reports : Except Errno (List EpollEvent))⟩] ∧
        r = .ok reports) ∨
      ∃ e, evs = [⟨.pwait size timeout sigmask, (Except.error e : Except Errno (List EpollEvent))⟩] ∧
        r = .error (throwSystemError "epoll" f.func e))) := by
  cases f with
  | ctl op fd ev =>
    refine .inl ⟨op, fd, ev.map fun ev => (ev.events, .u64 ev.u64), rfl, ?_⟩
    have hev : (ev.map fun ev => (ev.events, Data.u64 ev.u64)).map eventOf = ev := by
      rw [Option.map_map]
      exact (congrArg (Option.map · ev) (funext of_events_u64)).trans (Option.map_id' ..)
    rw [hev]
    exact ctl_runs h
  | ctlData op fd mask data => exact .inl ⟨op, fd, some (mask, data), rfl, ctlData_runs h⟩
  | add fd mask data => exact .inl ⟨EPOLL_CTL_ADD, fd, some (mask, data), rfl, ctlData_runs h⟩
  | mod fd mask data => exact .inl ⟨EPOLL_CTL_MOD, fd, some (mask, data), rfl, ctlData_runs h⟩
  | del fd => exact .inl ⟨EPOLL_CTL_DEL, fd, none, rfl, ctl_runs h⟩
  | wait size timeout => exact .inr ⟨size, timeout, none, rfl, waitAs_runs h⟩
  | pwait size timeout sigmask => exact .inr ⟨size, timeout, some sigmask, rfl, waitAs_runs h⟩

end Specs

/-! ## Refinement -/

section Refinement

variable {reg : Watch Data} {k' : Watch UInt64} {act : Act} {f : Call}

/-- What a successful `ctl` does is what the registry does. -/
theorem ctl_simulates {op fd : Int} {x : Option (UInt32 × Data)} (asks : f.request = .ofCtl op fd x)
    (h : Gives reg.words (.ctl op fd (x.map eventOf)) (Except.ok () : Except Errno Unit) k') :
    ∃ reg', Registry reg (.call f (.ok [])) reg' ∧ k' = reg'.words := by
  generalize hev : x.map eventOf = ev at h
  cases h with
  | add hfile new =>
    obtain ⟨⟨mask, data⟩, rfl, rfl⟩ := Option.map_eq_some_iff.1 hev
    refine ⟨_, .add asks hfile (words_items_eq_none.1 new), ?_⟩
    rw [words_put, eventOf, events_of, u64_of]
    rfl
  | mod hfile old =>
    obtain ⟨⟨mask, data⟩, rfl, rfl⟩ := Option.map_eq_some_iff.1 hev
    refine ⟨_, .mod asks hfile (fun h => old (words_items_eq_none.2 h)), ?_⟩
    rw [words_put, eventOf, events_of, u64_of]
    rfl
  | del hfile old =>
    have asks : f.request = .del fd := by
      rw [asks]
      cases x with
      | none => rfl
      | some x => rfl
    exact ⟨_, .del asks hfile (fun h => old (words_items_eq_none.2 h)), words_drop.symm⟩

/-- A report of the kernel shows the datum that is registered. -/
theorem shows_of_reports {t : Int × Nat} {ev : EpollEvent} (h : Reports reg.words t ev) : Shows reg t ev := by
  obtain ⟨y, hy, harmed, revents, hrevents, rfl⟩ := h
  obtain ⟨x, hx, rfl⟩ := Option.map_eq_some_iff.1 hy
  refine ⟨x, hx, harmed, ?_, word_in revents x.data⟩
  rw [events_of]
  exact hrevents

theorem step_simulates (h : Step reg.words act k') : ∃ reg', Registry reg act reg' ∧ k' = reg'.words := by
  cases h with
  | call runs answers =>
    rcases exec_runs _ runs with ⟨op, fd, x, asks, ⟨rfl, rfl⟩ | ⟨e, rfl, rfl⟩⟩ |
      ⟨size, timeout, sigmask, asks, ⟨reports, rfl, rfl⟩ | ⟨e, rfl, rfl⟩⟩
    · obtain ⟨k₁, hgives, rfl⟩ := answers
      exact ctl_simulates asks hgives
    · obtain ⟨k₁, hgives, rfl⟩ := answers
      generalize x.map eventOf = ev at hgives
      cases hgives with
      | ctlFails e => exact ⟨_, .throws e, rfl⟩
    · obtain ⟨k₁, hgives, rfl⟩ := answers
      cases hgives with
      | pwait once fits reports =>
        exact ⟨_, .wait asks once fits (reports.imp fun t ev => shows_of_reports), (words_fired _).symm⟩
    · obtain ⟨k₁, hgives, rfl⟩ := answers
      cases hgives with
      | pwaitFails e => exact ⟨_, .throws e, rfl⟩
  | refer fd file => exact ⟨_, .refer fd file, rfl⟩
  | release closed => exact ⟨_, .release closed, (words_release _).symm⟩

/-- A new epoll object watches nothing. -/
def Watch.new {δ : Type} (files : Int → Option Nat) : Watch δ := ⟨files, fun _ => none⟩

/-- Every run of an epoll object, with its results and exceptions, is a run of the registry. -/
theorem epoll_refines (files : Int → Option Nat) {r : List (Act × Watch UInt64)}
    (h : Run.Chain Step (Watch.new files) r) : ∃ r' : List (Act × Watch Data),
      r'.map Prod.fst = r.map Prod.fst ∧ Run.Chain Registry (Watch.new files) r' := by
  have hstep : ∀ k act k' reg, Step k act k' → k = Watch.words reg → ∃ reg', Registry reg act reg' ∧ k' = reg'.words := by
    rintro k act k' reg hk rfl
    exact step_simulates hk
  obtain ⟨r', hacts, hr', -⟩ := h.simulates hstep (t := Watch.new files) rfl
  exact ⟨r', hacts, hr'⟩

end Refinement

/-! ## Steps that succeed -/

section Steps

variable {k : Watch UInt64} {fd : Int} {file : Nat}

/-- A function whose only system call the kernel answers. -/
theorem Step.of_gives {k' : Watch UInt64} {f : Call} (junk : EpollEvent) {q : Sys} {a : q.Answer}
    {next : q.Answer → Prog Sys Sys.Answer (Except SystemError (List EpollEvent) × Unit)}
    {r : Except SystemError (List EpollEvent)} (hq : (f.exec junk).prog () = .ask q next) (hr : next a = .ret (r, ()))
    (h : Gives k q a k') : Step k (.call f r) k' := by
  have hruns : ((f.exec junk).prog ()).Runs [⟨q, a⟩] (r, ()) := by
    rw [hq]
    refine .ask a ?_
    rw [hr]
    exact .ret _
  exact .call hruns ⟨k', h, rfl⟩

/-- What the kernel keeps of the event of a function. -/
theorem item_makeEvent (junk : EpollEvent) (mask : UInt32) (data : Data) :
    (⟨(makeEvent junk mask data).events, (makeEvent junk mask data).u64, true⟩ : Item UInt64) =
      ⟨mask, data.word, true⟩ := by rw [makeEvent_eq, events_of, u64_of]

theorem Step.of_add (mask : UInt32) (data : Data) (hfile : k.files fd = some file) (new : k.items (fd, file) = none) :
    Step k (.call (.add fd mask data) (.ok [])) (k.put (fd, file) ⟨mask, data.word, true⟩) := by
  rw [← item_makeEvent (.of 0 0) mask data]
  exact .of_gives (.of 0 0) rfl rfl (.add hfile new)

theorem Step.of_mod (mask : UInt32) (data : Data) (hfile : k.files fd = some file) (old : k.items (fd, file) ≠ none) :
    Step k (.call (.mod fd mask data) (.ok [])) (k.put (fd, file) ⟨mask, data.word, true⟩) := by
  rw [← item_makeEvent (.of 0 0) mask data]
  exact .of_gives (.of 0 0) rfl rfl (.mod hfile old)

theorem Step.of_del (hfile : k.files fd = some file) (old : k.items (fd, file) ≠ none) :
    Step k (.call (.del fd) (.ok [])) (k.drop (fd, file)) := .of_gives (.of 0 0) rfl rfl (.del hfile old)

theorem Step.of_wait {size : Int} (timeout : Int) {ts : List (Int × Nat)} {evs : List EpollEvent} (once : ts.Nodup)
    (fits : ts.length ≤ size) (reports : List.Forall₂ (Reports k) ts evs) :
    Step k (.call (.wait size timeout) (.ok evs)) (k.fired ts) :=
  .of_gives (.of 0 0) rfl rfl (.pwait once fits reports)

end Steps

/-- Two descriptors of one file are open. -/
def twoNumbers (fd : Int) : Option Nat := if fd = 5 ∨ fd = 6 then some 0 else none

/-- The descriptor 5 is added for one report, and changed after it. Then it is closed and opened again for
another file, while 6 keeps the first file open: both are watched under the number 5, until one is
deleted and the file of the other released. -/
theorem epoll_refines_watched : ∃ r' : List (Act × Watch Data),
    r'.map Prod.fst = [.call (.add 5 0x40000001 (.fd 5)) (.ok []), .call (.wait 8 (-1)) (.ok [.of 1 5]),
      .call (.mod 5 4 (.u64 77)) (.ok []), .refer 5 none, .refer 5 (some 1), .call (.add 5 1 (.u32 9)) (.ok []),
      .call (.wait 8 0) (.ok [.of 4 77, .of 1 9]), .call (.del 5) (.ok []),
      .call (.del 5) (.error (throwSystemError "epoll" "ctl()" 2)), .refer 6 none, .release 0] ∧
    Run.Chain Registry (Watch.new twoNumbers) r' := by
  let k₀ : Watch UInt64 := Watch.new twoNumbers
  let k₁ := k₀.put (5, 0) ⟨0x40000001, (Data.fd 5).word, true⟩
  let k₂ := k₁.fired [(5, 0)]
  let k₃ := k₂.put (5, 0) ⟨4, (Data.u64 77).word, true⟩
  let k₄ := (k₃.refer 5 none).refer 5 (some 1)
  let k₅ := k₄.put (5, 1) ⟨1, (Data.u32 9).word, true⟩
  let k₆ := k₅.fired [(5, 0), (5, 1)]
  let k₇ := k₆.drop (5, 1)
  let k₈ := k₇.refer 6 none
  have report : ∀ {k : Watch UInt64} {t : Int × Nat} {x : Item UInt64} (revents : UInt32) (w : UInt64),
      k.items t = some x → x.armed = true → Reportable x.mask revents → x.data = w → Reports k t (.of revents w) :=
    fun revents w hx harmed hr hw => ⟨_, hx, harmed, revents, hr, by rw [hw]⟩
  have h₁ : k₁.items (5, 0) = some ⟨0x40000001, (Data.fd 5).word, true⟩ := by decide +kernel
  have h₂ : k₂.items (5, 0) ≠ none := by decide +kernel
  have h₄ : k₄.items (5, 1) = none := by decide +kernel
  have h₅ : k₅.items (5, 0) = some ⟨4, (Data.u64 77).word, true⟩ := by decide +kernel
  have h₅' : k₅.items (5, 1) = some ⟨1, (Data.u32 9).word, true⟩ := by decide +kernel
  have h₆ : k₆.items (5, 1) ≠ none := by decide +kernel
  have f₂ : k₂.files 5 = some 0 := by decide +kernel
  have f₄ : k₄.files 5 = some 1 := by decide +kernel
  have f₆ : k₆.files 5 = some 1 := by decide +kernel
  have hclosed : ∀ fd, k₈.files fd ≠ some 0 := by
    intro fd
    show Function.update (Function.update (Function.update twoNumbers 5 none) 5 (some 1)) 6 none fd ≠ some 0
    by_cases h6 : fd = 6
    · simp [h6]
    · by_cases h5 : fd = 5
      · simp [h5]
      · simp [h5, h6, twoNumbers]
  have s₁ : Step k₀ (.call (.add 5 0x40000001 (.fd 5)) (.ok [])) k₁ :=
    .of_add 0x40000001 (.fd 5) (by decide +kernel) (by decide +kernel)
  have s₂ : Step k₁ (.call (.wait 8 (-1)) (.ok [.of 1 5])) k₂ :=
    .of_wait (-1) (by decide) (by decide) (.cons (report 1 5 h₁ rfl (by decide) (by decide +kernel)) .nil)
  have s₃ : Step k₂ (.call (.mod 5 4 (.u64 77)) (.ok [])) k₃ := .of_mod 4 (.u64 77) f₂ h₂
  have s₆ : Step k₄ (.call (.add 5 1 (.u32 9)) (.ok [])) k₅ := .of_add 1 (.u32 9) f₄ h₄
  have s₇ : Step k₅ (.call (.wait 8 0) (.ok [.of 4 77, .of 1 9])) k₆ :=
    .of_wait 0 (by decide) (by decide)
      (.cons (report 4 77 h₅ rfl (by decide) rfl) (.cons (report 1 9 h₅' rfl (by decide) (by decide +kernel)) .nil))
  have s₈ : Step k₆ (.call (.del 5) (.ok [])) k₇ := .of_del f₆ h₆
  have s₉ : Step k₇ (.call (.del 5) (.error (throwSystemError "epoll" "ctl()" 2))) k₇ :=
    .of_gives (.of 0 0) rfl rfl (.ctlFails 2)
  have h : Run.Chain Step k₀ [(_, k₁), (_, k₂), (_, k₃), (_, k₃.refer 5 none), (_, k₄), (_, k₅), (_, k₆), (_, k₇),
      (_, k₇), (_, k₈), (_, k₈.release 0)] :=
    ⟨s₁, s₂, s₃, .refer 5 none, .refer 5 (some 1), s₆, s₇, s₈, s₉, .refer 6 none, .release hclosed, trivial⟩
  exact epoll_refines twoNumbers h

end Fdcpp.Epoll
