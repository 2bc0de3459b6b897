/-
The signals of a process that any number of its threads read at once with `signalfd::read`, while others
change the mask of the descriptor with `signalfd::setmask`. The kernel gives whole records only, one of
them to a read of this size, so that each signal is read once, by one thread, and is in the mask then.
-/
import Fdcpp.Lib.Shared
import Fdcpp.Records.Complete
import Mathlib.Algebra.Order.Group.Multiset

namespace Fdcpp.Records.Signalfd

open Bytes

/-- A `struct signalfd_siginfo`. -/
abbrev Siginfo : Type := {bytes : List UInt8 // bytes.length = 128}

/-- Its first field, `ssi_signo`. -/
def Siginfo.signo (info : Siginfo) : Nat := ofLE (slice info.val 0 4)

/-- The signals of a `sigset_t`. -/
abbrev SigSet : Type := List Nat

/-- The signals that are pending, and the mask of the descriptor. -/
structure Signals where
  pending : Multiset Siginfo
  mask : SigSet

/-- The functions; the `info` of a read is not initialised. -/
inductive Call
  | read
  | setmask (mask : SigSet)
  deriving DecidableEq, Repr

def Call.Local : Call → Type
  | .read => Transfer
  | .setmask _ => Unit

def Call.Answer : Call → Type
  | .read => signalfdRead.dir.Answer
  | .setmask _ => Except Errno Unit

def Call.Result : Call → Type
  | .read => Except SystemError (List UInt8)
  | .setmask _ => Except SystemError Unit

inductive Enters : (f : Call) → f.Local → Prop
  | read {junk : List UInt8} (length : junk.length = 128) : Enters .read (⟨junk, 0⟩ : Transfer)
  | setmask (mask : SigSet) : Enters (.setmask mask) ()

def pass : (f : Call) → f.Local → f.Answer → f.Local ⊕ f.Result
  | .read, t, a => signalfdRead.pass t a
  | .setmask _, _, .ok () => .inr (.ok ())
  | .setmask _, _, .error e => .inr (.error (throwSystemError "signalfd" "set()" e))

/-- What the kernel answers: a read gets as many pending signals of the mask as there is room for, one at
least, or it waits or fails. -/
inductive Gives : (f : Call) → f.Local → Signals → f.Answer → Signals → Prop
  | read {t : Transfer} {k k' : Signals} {infos : List Siginfo} (some : infos ≠ [])
    (fits : 128 * infos.length ≤ signalfdRead.asks t) (masked : ∀ info ∈ infos, info.signo ∈ k.mask)
    (pending : k.pending = infos + k'.pending) (mask : k'.mask = k.mask) :
    Gives .read t k (Except.ok (infos.flatMap Subtype.val) : Except Errno (List UInt8)) k'
  | readFails {t : Transfer} {k : Signals} (e : Errno) : Gives .read t k (Except.error e : Except Errno (List UInt8)) k
  | setmask {mask : SigSet} {k : Signals} :
    Gives (.setmask mask) () k (Except.ok () : Except Errno Unit) { k with mask := mask }
  | setmaskFails {mask : SigSet} {k : Signals} (e : Errno) :
    Gives (.setmask mask) () k (Except.error e : Except Errno Unit) k

/-- A signal becomes pending, or it is delivered in another way. -/
inductive Signal
  | arrives (info : Siginfo)
  | handled (info : Siginfo)
  deriving DecidableEq, Repr

inductive Outside : Signals → Signal → Signals → Prop
  | arrives {k : Signals} (info : Siginfo) : Outside k (.arrives info) { k with pending := info ::ₘ k.pending }
  | handled {k : Signals} {info : Siginfo} (pending : info ∈ k.pending) :
    Outside k (.handled info) { k with pending := k.pending.erase info }

/-- The threads that use a descriptor. -/
def system : Shared.System Call Signals Signal where
  Local := Call.Local
  Answer := Call.Answer
  Result := Call.Result
  enters := Enters
  pass := pass
  gives := Gives
  outside := Outside

abbrev Event : Type := Shared.Event system

/-! ## The signals on their own -/

/-- Takes a pending signal. -/
def Signals.take (k : Signals) (info : Siginfo) : Option Signals :=
  if info ∈ k.pending then some { k with pending := k.pending.erase info } else none

/-- What a function or an event does: a read takes a signal of the mask. -/
def does (k : Signals) : Event → Option Signals
  | .ended .read (.ok buf) =>
    if h : buf.length = 128 then
      if Siginfo.signo ⟨buf, h⟩ ∈ k.mask then k.take ⟨buf, h⟩ else none
    else none
  | .ended (.setmask mask) (.ok ()) => some { k with mask := mask }
  | .ended .read (.error _) | .ended (.setmask _) (.error _) => some k
  | .outside (.arrives info) => some { k with pending := info ::ₘ k.pending }
  | .outside (.handled info) => k.take info

/-- The records that reads have returned. -/
def returned (log : List Event) : List (List UInt8) :=
  log.filterMap fun
    | .ended .read (.ok buf) => some buf
    | _ => none

/-- The signals that have become pending. -/
def arrived (log : List Event) : List (List UInt8) :=
  log.filterMap fun
    | .outside (.arrives info) => some info.val
    | _ => none

/-- The signals that have been delivered in another way. -/
def handled (log : List Event) : List (List UInt8) :=
  log.filterMap fun
    | .outside (.handled info) => some info.val
    | _ => none

section Atomic

variable {k k' : Signals} {t : Transfer} {infos : List Siginfo} {e : Event}

theorem length_infos (infos : List Siginfo) : (infos.flatMap Subtype.val).length = 128 * infos.length := by
  induction infos with
  | nil => rfl
  | cons info infos ih =>
    rw [List.flatMap_cons, List.length_append, ih, info.property, List.length_cons]
    omega

/-- The first call of a read gets one signal, which ends the loop. -/
theorem read_pass {junk : List UInt8} (hjunk : junk.length = 128) (hsome : infos ≠ [])
    (hfits : 128 * infos.length ≤ signalfdRead.asks ⟨junk, 0⟩) : ∃ info, infos = [info] ∧
      signalfdRead.pass ⟨junk, 0⟩ (Except.ok (infos.flatMap Subtype.val) : Except Errno (List UInt8)) =
        .inr (.ok info.val) := by
  have hasks : signalfdRead.asks ⟨junk, 0⟩ = 128 := rfl
  rw [hasks] at hfits
  have hpos := List.length_pos_iff.2 hsome
  obtain ⟨info, rfl⟩ := List.length_eq_one_iff.1 (show infos.length = 1 by omega)
  have hlen : ([info].flatMap Subtype.val).length = 128 := length_infos [info]
  have hflat : [info].flatMap Subtype.val = info.val := List.flatMap_singleton ..
  have hpass := @pass_natCast signalfdRead junk 0 ([info].flatMap Subtype.val) (by decide)
    (Nat.le_of_eq ((Nat.zero_add _).trans hlen))
  have hend : ¬ 0 + signalfdRead.dir.count ([info].flatMap Subtype.val) ≠ signalfdRead.size :=
    fun h => h ((Nat.zero_add _).trans hlen)
  have hstore : splice junk 0 ([info].flatMap Subtype.val) = info.val := by
    rw [splice_zero, List.drop_eq_nil_of_le (by omega), List.append_nil, hflat]
  rw [if_neg hend] at hpass
  exact ⟨info, rfl, hpass.trans (congrArg (fun buf => Sum.inr (Except.ok buf)) hstore)⟩

theorem system_read {a : signalfdRead.dir.Answer} {r : Except SystemError (List UInt8)}
    (h : signalfdRead.pass t a = .inr r) : system.pass .read t a = .inr r := h

theorem whole : Shared.Whole system := by
  intro f t k a k' ht hg
  cases hg with
  | read hsome fits masked pending mask =>
    cases ht with
    | read length =>
      obtain ⟨info, -, hp⟩ := read_pass length hsome fits
      exact ⟨_, hp⟩
  | readFails e | setmask | setmaskFails e => exact ⟨_, rfl⟩

theorem take_of_eq {info : Siginfo} (h : k.pending = info ::ₘ k'.pending) (hmask : k'.mask = k.mask) :
    k.take info = some k' := by
  have hk : k' = { k with pending := k.pending.erase info } := by
    cases k'
    simp only at h hmask
    rw [h, Multiset.erase_cons_head, hmask]
  rw [Signals.take, if_pos (by rw [h]; exact Multiset.mem_cons_self ..), hk]

theorem does_of_does (h : Shared.Does system k e k') : does k e = some k' := by
  cases h with
  | outside h =>
    cases h with
    | arrives info => rfl
    | handled pending => exact if_pos pending
  | ended ht hg hp =>
    cases hg with
    | read hsome fits masked pending mask =>
      cases ht with
      | read length =>
        obtain ⟨info, rfl, hp'⟩ := read_pass length hsome fits
        cases hp.symm.trans hp'
        have hsigno := masked info (List.mem_singleton_self info)
        rw [does, dif_pos info.property, if_pos hsigno]
        exact take_of_eq pending mask
    | readFails e | setmask | setmaskFails e =>
      cases hp
      rfl

end Atomic

/-! ## What a history adds up to -/

section Sums

variable {k k' : Signals} {e : Event} {log : List Event}

/-- The pending records. -/
def Signals.records (k : Signals) : Multiset (List UInt8) := k.pending.map Subtype.val

theorem take_records {info : Siginfo} (h : k.take info = some k') : k.records = info.val ::ₘ k'.records := by
  unfold Signals.take at h
  split at h
  · rename_i hmem
    cases h
    rw [Signals.records, Signals.records, ← Multiset.map_cons, Multiset.cons_erase hmem]
  · cases h

/-- What becomes pending is returned by a read, or delivered in another way, or is still pending. -/
theorem does_records (h : does k e = some k') :
    k.records + (arrived [e] : Multiset (List UInt8)) = returned [e] + handled [e] + k'.records := by
  match e with
  | .ended .read (.ok buf) =>
    simp only [does] at h
    split at h
    · rename_i hlen
      split at h
      · have htake : k.records = buf ::ₘ k'.records := take_records h
        rw [htake]
        simp [returned, arrived, handled]
      · cases h
    · cases h
  | .outside (.arrives info) =>
    cases h
    simp [returned, arrived, handled, Signals.records, Multiset.add_comm, Multiset.singleton_add]
  | .outside (.handled info) =>
    have htake : k.records = info.val ::ₘ k'.records := take_records h
    rw [htake]
    simp [returned, arrived, handled]
  | .ended (.setmask mask) (.ok ()) | .ended .read (.error _) | .ended (.setmask _) (.error _) =>
    cases h
    simp [returned, arrived, handled, Signals.records]

theorem history_records (h : log.foldlM does k = some k') :
    k.records + (arrived log : Multiset (List UInt8)) = returned log + handled log + k'.records := by
  induction log generalizing k with
  | nil =>
    cases h
    simp [returned, arrived, handled]
  | cons e log ih =>
    rw [List.foldlM_cons] at h
    obtain ⟨k₁, he, hlog⟩ := Option.bind_eq_some_iff.1 h
    have happend : ∀ {α : Type} (f : Event → Option α), ((e :: log).filterMap f : Multiset α) =
        [e].filterMap f + log.filterMap f := by
      intro α f
      rw [← List.singleton_append, List.filterMap_append, Multiset.coe_add]
    calc k.records + (arrived (e :: log) : Multiset (List UInt8))
        = (k.records + arrived [e]) + arrived log := by rw [arrived, happend, Multiset.add_assoc]; rfl
      _ = returned [e] + handled [e] + (k₁.records + arrived log) := by rw [does_records he, Multiset.add_assoc]
      _ = returned [e] + handled [e] + (returned log + handled log + k'.records) := by rw [ih hlog]
      _ = (returned [e] + returned log) + (handled [e] + handled log) + k'.records := by
        rw [← add_assoc, add_add_add_comm]
      _ = returned (e :: log) + handled (e :: log) + k'.records := by
        rw [returned, handled, returned, handled, returned, handled, happend, happend]

end Sums

/-! ## Runs -/

/-- In any order of any number of threads, what has happened to the signals is what the functions do one after
the other: each record that a read has returned was a whole pending signal, in the mask that the last `setmask`
had set. Every signal that was pending at first or has arrived is returned once, or delivered in
another way, or is still pending. -/
theorem signals_linearizable {ι : Type} [DecidableEq ι] (k : Signals)
    {r : List (Shared.Act ι Call Signal × Shared.State system ι)} (h : Run.Chain (Shared.Step system) (.init _ k) r) :
    Run.Always (fun s => s.log.foldlM does k = some s.obj ∧
      k.records + (arrived s.log : Multiset (List UInt8)) = returned s.log + handled s.log + s.obj.records)
      (.init _ k) r := by
  refine (Shared.linear whole h).imp fun s hs => ?_
  have hreplay : s.log.foldlM does k = some s.obj := hs.history.replay id does fun _ _ _ => does_of_does
  exact ⟨hreplay, history_records hreplay⟩

/-- `SIGUSR1`, as it is reported. -/
def usr1 : Siginfo := ⟨10 :: List.replicate 127 0, rfl⟩

/-- A signal that arrives while a thread reads and another takes it out of the mask: it is read when it is
in the mask again. -/
def remasked : List (Shared.Act Bool Call Signal × Shared.State system Bool) :=
  let reads := Function.update (fun _ => none) true (some ⟨.read, (⟨List.replicate 128 7, 0⟩ : Transfer)⟩)
  let sets (mask : SigSet) : Bool → Option ((f : Call) × system.Local f) :=
    Function.update reads false (some ⟨.setmask mask, ()⟩)
  let set (mask : SigSet) : Event := .ended (.setmask mask) (Except.ok () : Except SystemError Unit)
  let rest := Function.update (sets []) false none
  let again := Function.update rest false (some ⟨.setmask [10], ()⟩)
  [(.enter true .read, ⟨⟨0, [10]⟩, reads, []⟩),
    (.enter false (.setmask []), ⟨⟨0, [10]⟩, sets [], []⟩),
    (.call false, ⟨⟨0, []⟩, rest, [set []]⟩),
    (.outside (.arrives usr1), ⟨⟨usr1 ::ₘ 0, []⟩, rest, [set [], .outside (.arrives usr1)]⟩),
    (.enter false (.setmask [10]), ⟨⟨usr1 ::ₘ 0, []⟩, again, [set [], .outside (.arrives usr1)]⟩),
    (.call false, ⟨⟨usr1 ::ₘ 0, [10]⟩, Function.update again false none, [set [], .outside (.arrives usr1), set [10]]⟩),
    (.call true, ⟨⟨0, [10]⟩, Function.update (Function.update again false none) true none,
      [set [], .outside (.arrives usr1), set [10],
        .ended .read (Except.ok usr1.val : Except SystemError (List UInt8))]⟩)]

theorem remasked_chain : Run.Chain (Shared.Step system) (.init _ ⟨0, [10]⟩) remasked := by
  have hgives : system.gives .read (⟨List.replicate 128 7, 0⟩ : Transfer) ⟨usr1 ::ₘ 0, [10]⟩
      (Except.ok ([usr1].flatMap Subtype.val) : Except Errno (List UInt8)) ⟨0, [10]⟩ :=
    .read (List.cons_ne_nil usr1 []) (by decide) (by decide) rfl rfl
  have hpass : system.pass .read (⟨List.replicate 128 7, 0⟩ : Transfer)
      (Except.ok ([usr1].flatMap Subtype.val) : Except Errno (List UInt8)) = .inr (Except.ok usr1.val) := by
    have hread := @read_pass [usr1] _ (List.length_replicate (n := 128) (a := (7 : UInt8)))
      (List.cons_ne_nil usr1 []) (by decide)
    obtain ⟨info, hinfo, hpass⟩ := hread
    obtain rfl := List.singleton_inj.1 hinfo
    exact system_read hpass
  exact ⟨.enter rfl (.read rfl), .enter rfl (.setmask []), .ends rfl .setmask rfl, .outside (.arrives usr1),
    .enter rfl (.setmask [10]), .ends rfl .setmask rfl, .ends rfl hgives hpass, trivial⟩

theorem signals_linearizable_remasked : ((⟨0, [10]⟩ : Signals).records + [usr1.val] : Multiset (List UInt8)) =
    [usr1.val] + ([] : List (List UInt8)) + (⟨0, [10]⟩ : Signals).records :=
  (Run.last_of_always (signals_linearizable ⟨0, [10]⟩ remasked_chain)).2

end Fdcpp.Records.Signalfd
