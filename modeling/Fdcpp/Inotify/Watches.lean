/-
An `inotify` object with its watches and any number of readers, which read through it or its duplicates into
buffers of any sizes and walk over what they get. Objects are watched by paths, which lead to other objects
as time goes on; a number of a watch is not given again. Each event that is queued is found once, by one
reader, in the order of the queue, and its number is the one that `add_watch` returned for the
object that the event is about.
-/
import Fdcpp.Inotify.Events
import Fdcpp.Lib.Ledger
import Fdcpp.Lib.Run

namespace Fdcpp.Inotify

open Bytes

/-! ## Functions -/

/-- `inotify::add_watch`, with what the system call returns. -/
def addWatch (sys : List UInt8 → UInt32 → Except Errno Int32) (path : List UInt8) (mask : UInt32) :
    Except SystemError Int32 :=
  match sys path mask with
  | .ok wd => .ok wd
  | .error e => .error (throwSystemError "inotify" "add_watch()" e)

/-- The overload for a `std::string`. -/
def addWatchString (sys : List UInt8 → UInt32 → Except Errno Int32) (path : List UInt8) (mask : UInt32) :
    Except SystemError Int32 := addWatch sys (cstring path) mask

/-- `inotify::rm_watch`, with what the system call returns. -/
def rmWatch (sys : Int32 → Except Errno Unit) (wd : Int32) : Except SystemError Unit :=
  match sys wd with
  | .ok () => .ok ()
  | .error e => .error (throwSystemError "inotify" "rm_watch()" e)

/-! ## The kernel -/

def IN_Q_OVERFLOW : UInt32 := 0x4000
def IN_IGNORED : UInt32 := 0x8000

/-- The last event of a watch. -/
def InotifyEvent.Ignored (e : InotifyEvent) : Prop := e.mask &&& IN_IGNORED ≠ 0

instance (e : InotifyEvent) : Decidable e.Ignored := inferInstanceAs (Decidable (e.mask &&& IN_IGNORED ≠ 0))

/-- That a watch is gone. -/
def ignored (wd : Int32) : InotifyEvent := ⟨wd, IN_IGNORED, 0, [], Nat.two_pow_pos 32⟩

/-- That events were lost. -/
def overflow : InotifyEvent := ⟨-1, IN_Q_OVERFLOW, 0, [], Nat.two_pow_pos 32⟩

/-- A watch, which may be gone. -/
structure Watch where
  object : Nat
  live : Bool
  deriving DecidableEq

/-- The kernel has the objects of the paths, the watches that it has made, and the queue; the callers have the
objects for which `add_watch` returned a number, and what the loops of each reader found. -/
structure World where
  files : List UInt8 → Option Nat
  watches : Int32 → Option Watch
  queue : List InotifyEvent
  names : Int32 → Option Nat
  found : List (Nat × InotifyEvent)
  /-- All events that were queued, each with the object that it is about. -/
  log : List (InotifyEvent × Option Nat)

namespace World

def init (files : List UInt8 → Option Nat) : World := ⟨files, fun _ => none, [], fun _ => none, [], []⟩

def post (w : World) (e : InotifyEvent) (object : Option Nat) : World :=
  { w with queue := w.queue ++ [e], log := w.log ++ [(e, object)] }

/-- A caller of `add_watch` keeps the number that it returned for an object. -/
def name (w : World) (object : Option Nat) : Except SystemError Int32 → World
  | .ok wd => { w with names := Function.update w.names wd object }
  | .error _ => w

def watch (w : World) (wd : Int32) (x : Watch) : World := { w with watches := Function.update w.watches wd (some x) }

/-- A reader walks over the first `n` bytes of its memory. -/
def walk (w : World) (i : Nat) (mem : Nat → UInt8) (n : Nat) : World :=
  { w with found := w.found ++ (forEachInotifyEvent mem n).visited.map fun event => (i, eventAt mem event) }

end World

/-- An event is queued; or it is lost, which an overflow tells; or it is the same as the last of the queue. -/
inductive Posts (e : InotifyEvent) (object : Nat) : World → World → Prop
  | queued {w : World} : Posts e object w (w.post e (some object))
  | overflows {w : World} : Posts e object w (w.post overflow none)
  | told {w : World} (told : overflow ∈ w.queue ∨ w.queue.getLast? = some e) : Posts e object w w

/-- `inotify_add_watch` returns the number of the watch for the object, or makes a watch. -/
inductive Adds (path : List UInt8) : World → Except Errno Int32 → World → Prop
  | has {w : World} {object : Nat} {wd : Int32} (leads : w.files (cstring path) = some object)
    (live : w.watches wd = some ⟨object, true⟩) : Adds path w (.ok wd) w
  | makes {w : World} {object : Nat} {wd : Int32} (leads : w.files (cstring path) = some object) (number : 0 ≤ wd)
    (unused : w.watches wd = none) (new : ∀ wd', w.watches wd' ≠ some ⟨object, true⟩) :
    Adds path w (.ok wd) (w.watch wd ⟨object, true⟩)
  | fails {w : World} (e : Errno) : Adds path w (.error e) w

/-- `inotify_rm_watch` ends a watch. -/
inductive Removes (wd : Int32) : World → Except Errno Unit → World → Prop
  | ends {w w' : World} {object : Nat} (live : w.watches wd = some ⟨object, true⟩)
    (posts : Posts (ignored wd) object (w.watch wd ⟨object, false⟩) w') : Removes wd w (.ok ()) w'
  | fails {w : World} (e : Errno) : Removes wd w (.error e) w

/-! ## Steps -/

inductive Act
  | addWatch (path : List UInt8) (mask : UInt32) (r : Except SystemError Int32)
  | addWatchString (path : List UInt8) (mask : UInt32) (r : Except SystemError Int32)
  | rmWatch (wd : Int32) (r : Except SystemError Unit)
  | read (i : Nat) (r : Except SystemError (List UInt8 × Nat))
  | event (e : InotifyEvent)
  | gone (wd : Int32)
  | moved

/-- A function is called; or something happens to an object with a watch; or a watch ends with its object; or
paths lead to other objects from now on. -/
inductive Step : World → Act → World → Prop
  | addWatch {w w' : World} {path : List UInt8} {mask : UInt32} {sys : List UInt8 → UInt32 → Except Errno Int32}
    (adds : Adds path w (sys path mask) w') : Step w (.addWatch path mask (addWatch sys path mask))
      (w'.name (w.files (cstring path)) (addWatch sys path mask))
  | addWatchString {w w' : World} {path : List UInt8} {mask : UInt32} {sys : List UInt8 → UInt32 → Except Errno Int32}
    (adds : Adds (cstring path) w (sys (cstring path) mask) w') :
    Step w (.addWatchString path mask (addWatchString sys path mask))
      (w'.name (w.files (cstring path)) (addWatchString sys path mask))
  | rmWatch {w w' : World} {wd : Int32} {sys : Int32 → Except Errno Unit} (removes : Removes wd w (sys wd) w') :
    Step w (.rmWatch wd (rmWatch sys wd)) w'
  | read {w : World} {i k n : Nat} {old buffer : List UInt8} {mem : Nat → UInt8}
    (fits : (serialise (w.queue.take k)).length ≤ old.length)
    (returns : read old (.ok (serialise (w.queue.take k))) = .ok (buffer, n))
    (stored : peek mem 0 buffer.length = buffer) :
    Step w (.read i (.ok (buffer, n))) (({ w with queue := w.queue.drop k } : World).walk i mem n)
  | readFails {w : World} {i : Nat} {old : List UInt8} (e : Errno) : Step w (.read i (read old (.error e))) w
  | event {w w' : World} {e : InotifyEvent} {object : Nat} (live : w.watches e.wd = some ⟨object, true⟩)
    (stays : ¬ e.Ignored) (posts : Posts e object w w') : Step w (.event e) w'
  | gone {w w' : World} {wd : Int32} (removes : Removes wd w (.ok ()) w') : Step w (.gone wd) w'
  | moved {w : World} (files : List UInt8 → Option Nat) : Step w .moved { w with files := files }

/-! ## The invariant -/

/-- What was found and what is queued is all that was queued ever; the callers have the objects of the watches;
an event that was queued is about the object of its watch, or tells that others were lost; and
with the last event of a watch it is gone. -/
structure Inv (w : World) : Prop where
  delivered : w.found.map Prod.snd ++ w.queue = w.log.map Prod.fst
  named : ∀ wd x, w.watches wd = some x → 0 ≤ wd ∧ w.names wd = some x.object
  about : ∀ e object, (e, some object) ∈ w.log → ∃ live, w.watches e.wd = some ⟨object, live⟩
  lost : ∀ e, (e, none) ∈ w.log → e = overflow
  gone : ∀ x ∈ w.log, x.1.Ignored → ∃ object, w.watches x.1.wd = some ⟨object, false⟩
  last : w.log.Pairwise fun x y => x.1.Ignored → y.1.wd ≠ x.1.wd

section Inv

variable {w w' : World} {e : InotifyEvent} {wd : Int32} {object : Nat}

theorem not_ignored_overflow : ¬ overflow.Ignored := by decide

/-- No watch has the number of an event that tells of lost ones. -/
theorem Inv.wd_overflow (h : Inv w) : w.watches overflow.wd = none := by
  cases hx : w.watches overflow.wd with
  | none => rfl
  | some x => exact absurd (h.named _ x hx).1 (by decide)

/-- The rule for an event that is queued: it does not follow the last one of its watch. -/
theorem post_inv (h : Inv w) {o : Option Nat}
    (habout : ∀ object, o = some object → ∃ live, w.watches e.wd = some ⟨object, live⟩)
    (hlost : o = none → e = overflow) (hgone : e.Ignored → ∃ object, w.watches e.wd = some ⟨object, false⟩)
    (hlast : ∀ x ∈ w.log, x.1.Ignored → e.wd ≠ x.1.wd) : Inv (w.post e o) where
  delivered := by
    show w.found.map Prod.snd ++ (w.queue ++ [e]) = (w.log ++ [(e, o)]).map Prod.fst
    rw [List.map_append, ← h.delivered, List.append_assoc]
    rfl
  named := h.named
  about := by
    intro e' object hmem
    rcases List.mem_append.1 hmem with hmem | hmem
    · exact h.about e' object hmem
    · cases List.mem_singleton.1 hmem
      exact habout object rfl
  lost := by
    intro e' hmem
    rcases List.mem_append.1 hmem with hmem | hmem
    · exact h.lost e' hmem
    · cases List.mem_singleton.1 hmem
      exact hlost rfl
  gone := by
    intro x hmem
    rcases List.mem_append.1 hmem with hmem | hmem
    · exact h.gone x hmem
    · cases List.mem_singleton.1 hmem
      exact hgone
  last := by
    refine List.pairwise_append.2 ⟨h.last, List.pairwise_singleton .., fun x hx y hy => ?_⟩
    cases List.mem_singleton.1 hy
    exact hlast x hx

/-- After the last event of a watch nothing of its object is queued for it. -/
theorem posts_inv (h : Inv w) (hp : Posts e object w w') (habout : ∃ live, w.watches e.wd = some ⟨object, live⟩)
    (hgone : e.Ignored → ∃ object, w.watches e.wd = some ⟨object, false⟩)
    (hlast : ∀ x ∈ w.log, x.1.Ignored → e.wd ≠ x.1.wd) : Inv w' := by
  cases hp with
  | queued => exact post_inv h (fun o ho => by cases ho; exact habout) nofun hgone hlast
  | overflows =>
    refine post_inv h nofun (fun _ => rfl) (fun hi => absurd hi not_ignored_overflow) fun x hx hi heq => ?_
    obtain ⟨object, hdead⟩ := h.gone x hx hi
    rw [← heq, h.wd_overflow] at hdead
    cases hdead
  | told htold => exact h

/-- A watch that is there has not had its last event. -/
theorem Inv.not_last (h : Inv w) (hlive : w.watches wd = some ⟨object, true⟩) :
    ∀ x ∈ w.log, x.1.Ignored → wd ≠ x.1.wd := by
  rintro x hx hi rfl
  obtain ⟨object', hdead⟩ := h.gone x hx hi
  cases hlive.symm.trans hdead

end Inv

/-! ## Runs -/

section Runs

variable {w w' : World} {act : Act} {wd : Int32} {object : Nat} {path : List UInt8} {mask : UInt32}

theorem addWatch_inv {sys : List UInt8 → UInt32 → Except Errno Int32} (h : Inv w)
    (hadds : Adds path w (sys path mask) w') :
    Inv (w'.name (w.files (cstring path)) (addWatch sys path mask)) := by
  unfold addWatch
  generalize sys path mask = a at hadds ⊢
  cases hadds with
  | @has _ wd leads live =>
    rw [leads]
    refine { h with named := fun wd' x hx => ?_ }
    obtain ⟨hnumber, hname⟩ := h.named wd' x hx
    refine ⟨hnumber, ?_⟩
    by_cases hwd : wd' = wd
    · subst hwd
      cases live.symm.trans hx
      exact Function.update_self ..
    · exact (Function.update_of_ne hwd ..).trans hname
  | @makes object wd leads number unused new =>
    rw [leads]
    have hother : ∀ wd' x, w.watches wd' = some x → (w.watch wd ⟨object, true⟩).watches wd' = some x := by
      intro wd' x hx
      have hne : wd' ≠ wd := by
        rintro rfl
        cases unused.symm.trans hx
      exact (Function.update_of_ne hne ..).trans hx
    refine ⟨h.delivered, fun wd' x hx => ?_, fun e o hmem => ?_, h.lost, fun x hmem hi => ?_, h.last⟩
    · rcases update_eq_some hx with ⟨rfl, rfl⟩ | ⟨hne, hx⟩
      · exact ⟨number, Function.update_self ..⟩
      · obtain ⟨hnumber, hname⟩ := h.named wd' x hx
        exact ⟨hnumber, (Function.update_of_ne hne ..).trans hname⟩
    · obtain ⟨live, hx⟩ := h.about e o hmem
      exact ⟨live, hother _ _ hx⟩
    · obtain ⟨o, hx⟩ := h.gone x hmem hi
      exact ⟨o, hother _ _ hx⟩
  | fails e => exact h

theorem ended_inv (h : Inv w) (live : w.watches wd = some ⟨object, true⟩) : Inv (w.watch wd ⟨object, false⟩) := by
  refine ⟨h.delivered, fun wd' x hx => ?_, fun e o hmem => ?_, h.lost, fun x hmem hi => ?_, h.last⟩
  · rcases update_eq_some hx with ⟨rfl, rfl⟩ | ⟨-, hx⟩
    · obtain ⟨hnumber, hname⟩ := h.named _ _ live
      exact ⟨hnumber, hname⟩
    · exact h.named wd' x hx
  · obtain ⟨alive, hx⟩ := h.about e o hmem
    by_cases hwd : e.wd = wd
    · rw [hwd] at hx ⊢
      cases live.symm.trans hx
      exact ⟨false, Function.update_self ..⟩
    · exact ⟨alive, (Function.update_of_ne hwd ..).trans hx⟩
  · obtain ⟨o, hx⟩ := h.gone x hmem hi
    exact ⟨o, (Function.update_of_ne (h.not_last live x hmem hi).symm ..).trans hx⟩

theorem removes_inv {a : Except Errno Unit} (h : Inv w) (hremoves : Removes wd w a w') : Inv w' := by
  cases hremoves with
  | @ends _ object live posts =>
    have hself : (w.watch wd ⟨object, false⟩).watches wd = some ⟨object, false⟩ := Function.update_self ..
    exact posts_inv (ended_inv h live) posts ⟨false, hself⟩ (fun _ => ⟨object, hself⟩) (h.not_last live)
  | fails e => exact h

theorem walk_inv {i k n : Nat} {old buffer : List UInt8} {mem : Nat → UInt8} (h : Inv w)
    (hr : read old (.ok (serialise (w.queue.take k))) = .ok (buffer, n)) (hmem : peek mem 0 buffer.length = buffer) :
    Inv (({ w with queue := w.queue.drop k } : World).walk i mem n) := by
  have hfinds := read_finds hr hmem
  refine ⟨?_, h.named, h.about, h.lost, h.gone, h.last⟩
  show (w.found ++ _).map Prod.snd ++ w.queue.drop k = w.log.map Prod.fst
  rw [List.map_append, List.map_map]
  show w.found.map Prod.snd ++ (forEachInotifyEvent mem n).visited.map (eventAt mem) ++ w.queue.drop k = _
  rw [hfinds.events, List.append_assoc, List.take_append_drop, h.delivered]

theorem step_inv (h : Step w act w') (hw : Inv w) : Inv w' := by
  cases h with
  | addWatch adds => exact addWatch_inv hw adds
  | @addWatchString _ path mask sys adds =>
    have hinv := addWatch_inv hw adds
    rw [cstring_of_no_nul (cstring_no_nul path)] at hinv
    exact hinv
  | rmWatch removes | gone removes => exact removes_inv hw removes
  | read fits returns stored => exact walk_inv hw returns stored
  | readFails e => exact hw
  | event live stays posts => exact posts_inv hw posts ⟨true, live⟩ (fun hi => absurd hi stays) (hw.not_last live)
  | moved files => exact ⟨hw.delivered, hw.named, hw.about, hw.lost, hw.gone, hw.last⟩

theorem init_inv (files : List UInt8 → Option Nat) : Inv (.init files) := by
  refine ⟨rfl, nofun, nofun, nofun, nofun, List.Pairwise.nil⟩

/-- In any order of the functions and of what happens to the files, with buffers of any sizes and contents,
the loops of all readers together have found the events that were queued, each once and in this order, but
for those that are queued still. The number of an event is the one that `add_watch` returned for the object
that the event is about, if it does not tell of lost events, and after `IN_IGNORED` there is no other
with its number. -/
theorem events_delivered (files : List UInt8 → Option Nat) {r : List (Act × World)}
    (h : Run.Chain Step (.init files) r) :
    Run.Always (fun w =>
      w.found.map Prod.snd ++ w.queue = w.log.map Prod.fst ∧
      (∀ e object, (e, some object) ∈ w.log → w.names e.wd = some object) ∧
      (∀ e, (e, none) ∈ w.log → e = overflow) ∧
      w.log.Pairwise fun x y => x.1.Ignored → y.1.wd ≠ x.1.wd) (.init files) r := by
  refine (h.always (fun w act w' hstep _ hw => step_inv hstep hw) h (init_inv files)).imp fun w hw => ?_
  refine ⟨hw.delivered, fun e object hmem => ?_, hw.lost, hw.last⟩
  obtain ⟨live, hx⟩ := hw.about e object hmem
  exact (hw.named _ _ hx).2

end Runs

/-- The paths lead to the object 7. -/
def oneObject (_ : List UInt8) : Option Nat := some 7

/-- A file is made in a directory that is watched, and the watch is removed. -/
def made : List InotifyEvent := [⟨1, 0x100, 0, [97, 0, 0, 0], by decide⟩, ignored 1]

/-- Two readers with different buffers find the two events. -/
theorem watched_chain : ∃ r : List (Act × World), Run.Chain Step (.init oneObject) r ∧
    (Run.last (.init oneObject) r).log = made.map (·, some 7) ∧ (Run.last (.init oneObject) r).queue = [] := by
  let mem (k : Nat) : Nat → UInt8 := fun o => (serialise ((made.drop k).take 1)).getD o 0
  refine ⟨[(_, _), (_, _), (_, _), (_, _), (_, _)],
    ⟨@Step.addWatch _ _ [46] 0x100 (fun _ _ => .ok 1) (.makes rfl (by decide) rfl nofun),
    @Step.event _ _ made[0] 7 rfl (by decide) .queued, @Step.rmWatch _ _ 1 (fun _ => .ok ()) (.ends rfl .queued),
    @Step.read _ 0 1 _ (List.replicate 20 0) _ (mem 0) (by decide) rfl (by decide),
    @Step.read _ 1 1 _ (List.replicate 16 0) _ (mem 1) (by decide) rfl (by decide), trivial⟩, rfl, rfl⟩

theorem events_delivered_two : ∃ r : List (Act × World), (Run.last (.init oneObject) r).found.map Prod.snd = made ∧
    (Run.last (.init oneObject) r).names 1 = some 7 := by
  obtain ⟨r, hchain, hlog, hqueue⟩ := watched_chain
  obtain ⟨hdelivered, hnames, -⟩ := Run.last_of_always (events_delivered oneObject hchain)
  refine ⟨r, ?_, hnames made[0] 7 ?_⟩
  · rw [hqueue, hlog, List.append_nil, List.map_map] at hdelivered
    exact hdelivered.trans (List.map_id ..)
  · rw [hlog]
    exact List.mem_cons_self ..

end Fdcpp.Inotify
