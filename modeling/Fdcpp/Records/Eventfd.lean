/-
An event counter that any number of callers use at once, with `eventfd::read` and `eventfd::write` on the
same descriptor or on duplicates of it. The functions are loops of calls, but the kernel takes and gives
whole records only, so that they are atomic: the counter goes through the values that a sequence of reads
and writes gives it, and nothing that is written is lost or read twice.
-/
import Fdcpp.Lib.Shared
import Fdcpp.Records.Complete

namespace Fdcpp.Records.Eventfd

open Bytes

/-- The functions, with the `val` of `eventfd::write`. -/
inductive Call
  | read
  | write (val : UInt64)
  deriving DecidableEq, Repr

abbrev Call.loop : Call → RecordLoop
  | .read => eventfdRead
  | .write _ => eventfdWrite

/-- A function at its first call: `val` is not initialised in `eventfd::read`. -/
inductive Enters : Call → Transfer → Prop
  | read {junk : List UInt8} (length : junk.length = 8) : Enters .read ⟨junk, 0⟩
  | write (val : UInt64) : Enters (.write val) ⟨toLE 8 val.toNat, 0⟩

/-- The largest value of a counter. -/
def maxCount : Nat := 2 ^ 64 - 2

/-- A counter of the kernel. -/
structure Counter where
  count : Nat
  le : count ≤ maxCount

/-- `::eventfd(initval, flags)`. -/
def Counter.new (initval : UInt32) : Counter :=
  ⟨initval.toNat, Nat.le_trans (Nat.le_of_lt initval.toNat_lt) (by decide)⟩

/-- What a read takes out of a counter; `semaphore` is whether it was opened with `EFD_SEMAPHORE`. -/
def taken (semaphore : Bool) (count : Nat) : Nat := if semaphore then 1 else count

theorem taken_pos {semaphore : Bool} {count : Nat} (h : 0 < count) :
    0 < taken semaphore count ∧ taken semaphore count ≤ count := by
  unfold taken
  split
  · exact ⟨Nat.one_pos, h⟩
  · exact ⟨h, Nat.le_refl _⟩

/-- What the kernel answers to a call, and leaves in the counter. A call that cannot go on waits, or it fails. -/
inductive Gives (semaphore : Bool) : (f : Call) → Transfer → Counter → f.loop.dir.Answer → Counter → Prop
  | read {t : Transfer} {k k' : Counter} (asks : 8 ≤ eventfdRead.asks t) (pos : 0 < k.count)
    (left : k'.count = k.count - taken semaphore k.count) :
    Gives semaphore .read t k (Except.ok (toLE 8 (taken semaphore k.count)) : Except Errno (List UInt8)) k'
  | write {val : UInt64} {t : Transfer} {k k' : Counter} (asks : 8 ≤ eventfdWrite.asks t)
    (left : k'.count = k.count + ofLE (slice t.buf t.n.toNat 8)) :
    Gives semaphore (.write val) t k (Except.ok 8 : Except Errno Nat) k'
  | fails {f : Call} {t : Transfer} {k : Counter} (e : Errno) : Gives semaphore f t k (.error e) k

/-- The callers of a counter. -/
def system (semaphore : Bool) : Shared.System Call Counter Empty where
  Local _ := Transfer
  Answer f := f.loop.dir.Answer
  Result _ := Except SystemError (List UInt8)
  enters := Enters
  pass f := f.loop.pass
  gives := Gives semaphore
  outside _ _ _ := False

abbrev Event (semaphore : Bool) : Type := Shared.Event (system semaphore)

/-! ## The counter on its own -/

/-- What a function does to the value of a counter: a read returns the value, or 1, and takes it out; a
write adds its argument; one that throws does nothing. -/
def does (semaphore : Bool) (count : Nat) : Event semaphore → Option Nat
  | .ended .read (.ok buf) =>
    if 0 < count ∧ ofLE buf = taken semaphore count then some (count - ofLE buf) else none
  | .ended (.write val) (.ok _) => if count + val.toNat ≤ maxCount then some (count + val.toNat) else none
  | .ended _ (.error _) => some count

/-- The values that reads have returned. -/
def readings {semaphore : Bool} (log : List (Event semaphore)) : List Nat :=
  log.filterMap fun
    | .ended .read (.ok buf) => some (ofLE buf)
    | _ => none

/-- The values that writes have added. -/
def writings {semaphore : Bool} (log : List (Event semaphore)) : List Nat :=
  log.filterMap fun
    | .ended (.write val) (.ok _) => some val.toNat
    | _ => none

section Atomic

variable {semaphore : Bool} {f : Call} {t : Transfer} {k k' : Counter}

/-- A read of a whole record ends the loop. -/
theorem read_pass {junk bs : List UInt8} (hjunk : junk.length = 8) (hbs : bs.length = 8) :
    eventfdRead.pass ⟨junk, 0⟩ (Except.ok bs : Except Errno (List UInt8)) = .inr (.ok bs) := by
  have hpass := @pass_natCast eventfdRead junk 0 bs (by decide)
    (Nat.le_of_eq ((Nat.zero_add _).trans hbs))
  have hstore : splice junk 0 bs = bs := by
    rw [splice_zero, List.drop_eq_nil_of_le (by omega), List.append_nil]
  have hend : ¬ 0 + eventfdRead.dir.count bs ≠ eventfdRead.size := fun h => h ((Nat.zero_add _).trans hbs)
  rw [if_neg hend] at hpass
  exact hpass.trans (congrArg (fun buf => Sum.inr (Except.ok buf)) hstore)

/-- A write of a whole record ends the loop. -/
theorem write_pass (buf : List UInt8) :
    eventfdWrite.pass ⟨buf, 0⟩ (Except.ok 8 : Except Errno Nat) = .inr (.ok buf) := rfl

theorem whole (semaphore : Bool) : Shared.Whole (system semaphore) := by
  intro f t k a k' ht hg
  cases hg with
  | read asks pos left =>
    cases ht with
    | read length => exact ⟨_, read_pass length (length_toLE ..)⟩
  | write asks left =>
    cases ht with
    | write val => exact ⟨_, write_pass _⟩
  | fails e => exact ⟨_, rfl⟩

theorem does_of_does {e : Event semaphore} (h : Shared.Does (system semaphore) k e k') :
    does semaphore k.count e = some k'.count := by
  cases h with
  | outside h => exact h.elim
  | @ended f _ _ _ _ _ ht hg hp =>
    cases hg with
    | fails e =>
      cases hp
      cases f with
      | read => rfl
      | write val => rfl
    | read asks pos left =>
      cases ht with
      | read length =>
        obtain ⟨hpos, hle⟩ := @taken_pos semaphore _ pos
        have hvalue : ofLE (toLE 8 (taken semaphore k.count)) = taken semaphore k.count := by
          rw [ofLE_toLE, Nat.mod_eq_of_lt]
          exact Nat.lt_of_le_of_lt (Nat.le_trans hle k.le) (by decide)
        have hp' := hp.symm.trans (read_pass length (length_toLE ..))
        cases hp'
        rw [does, hvalue, if_pos ⟨pos, rfl⟩, left]
    | @write val _ _ _ asks left =>
      cases ht with
      | write _ =>
        have hvalue : ofLE (slice (toLE 8 val.toNat) 0 8) = val.toNat := by
          rw [slice, List.drop_zero, List.take_of_length_le (by rw [length_toLE]), ofLE_toLE]
          exact Nat.mod_eq_of_lt val.toNat_lt
        have hp' := hp.symm.trans (write_pass _)
        cases hp'
        have hle := k'.le
        have hleft : k'.count = k.count + val.toNat := left.trans (congrArg (k.count + ·) hvalue)
        rw [hleft] at hle ⊢
        rw [does, if_pos hle]

theorem history_replays {log : List (Event semaphore)} (h : Shared.History (system semaphore) k log k') :
    log.foldlM (does semaphore) k.count = some k'.count :=
  h.replay Counter.count (does semaphore) fun _ _ _ => does_of_does

end Atomic

/-! ## What a history adds up to -/

section Sums

variable {semaphore : Bool} {count count' : Nat} {e : Event semaphore} {log : List (Event semaphore)}

theorem readings_cons (e : Event semaphore) (log : List (Event semaphore)) :
    readings (e :: log) = readings [e] ++ readings log := by
  rw [readings, ← List.singleton_append, List.filterMap_append]
  rfl

theorem writings_cons (e : Event semaphore) (log : List (Event semaphore)) :
    writings (e :: log) = writings [e] ++ writings log := by
  rw [writings, ← List.singleton_append, List.filterMap_append]
  rfl

/-- A function takes out what it reads, and puts in what it writes. -/
theorem does_sum (h : does semaphore count e = some count') :
    count + (writings [e]).sum = (readings [e]).sum + count' ∧
    ∀ v ∈ readings [e], 0 < v ∧ (semaphore = true → v = 1) := by
  match e with
  | .ended .read (.ok buf) =>
    obtain ⟨⟨hpos, hv⟩, rfl⟩ : (0 < count ∧ ofLE buf = taken semaphore count) ∧ count - ofLE buf = count' := by
      simpa [does] using h
    obtain ⟨hpos, hle⟩ := @taken_pos semaphore _ hpos
    rw [← hv] at hpos hle
    have hread : readings [(.ended .read (.ok buf) : Event semaphore)] = [ofLE buf] := rfl
    have hwrote : writings [(.ended .read (.ok buf) : Event semaphore)] = [] := rfl
    rw [hread, hwrote, List.sum_nil, List.sum_singleton]
    refine ⟨by omega, ?_⟩
    intro v hmem
    obtain rfl := List.mem_singleton.1 hmem
    refine ⟨hpos, ?_⟩
    rintro rfl
    exact hv
  | .ended (.write val) (.ok buf) =>
    obtain ⟨-, rfl⟩ : count + val.toNat ≤ maxCount ∧ count + val.toNat = count' := by simpa [does] using h
    have hread : readings [(.ended (.write val) (.ok buf) : Event semaphore)] = [] := rfl
    have hwrote : writings [(.ended (.write val) (.ok buf) : Event semaphore)] = [val.toNat] := rfl
    rw [hread, hwrote, List.sum_nil, List.sum_singleton]
    exact ⟨(Nat.zero_add _).symm, nofun⟩
  | .ended .read (.error _) | .ended (.write _) (.error _) =>
    cases h
    exact ⟨Nat.add_comm .., nofun⟩

theorem history_sum (h : log.foldlM (does semaphore) count = some count') :
    count + (writings log).sum = (readings log).sum + count' ∧
    ∀ v ∈ readings log, 0 < v ∧ (semaphore = true → v = 1) := by
  induction log generalizing count with
  | nil =>
    cases h
    exact ⟨Nat.add_comm .., nofun⟩
  | cons e log ih =>
    rw [List.foldlM_cons] at h
    obtain ⟨count₁, he, hlog⟩ := Option.bind_eq_some_iff.1 h
    obtain ⟨hsum, hread⟩ := does_sum he
    obtain ⟨ihsum, ihread⟩ := ih hlog
    rw [readings_cons, writings_cons, List.sum_append, List.sum_append]
    refine ⟨by omega, fun v hv => ?_⟩
    rcases List.mem_append.1 hv with hv | hv
    · exact hread v hv
    · exact ihread v hv

end Sums

/-! ## Runs -/

section Run

variable {ι : Type} [DecidableEq ι]

/-- In any order of any number of callers, the counter has the value that the reads and writes which have
returned give it one after the other. Every unit of it, and of what is written, is read once or is still
there; no read returns 0, and each read of a semaphore returns 1. -/
theorem counter_linearizable (semaphore : Bool) (initval : UInt32)
    {r : List (Shared.Act ι Call Empty × Shared.State (system semaphore) ι)}
    (h : Run.Chain (Shared.Step (system semaphore)) (.init _ (.new initval)) r) :
    Run.Always (fun s => s.log.foldlM (does semaphore) initval.toNat = some s.obj.count ∧
      initval.toNat + (writings s.log).sum = (readings s.log).sum + s.obj.count ∧
      ∀ v ∈ readings s.log, 0 < v ∧ (semaphore = true → v = 1)) (.init _ (.new initval)) r := by
  refine (Shared.linear (whole semaphore) h).imp fun s hs => ?_
  have hreplay : s.log.foldlM (does semaphore) initval.toNat = some s.obj.count := history_replays hs.history
  exact ⟨hreplay, history_sum hreplay⟩

end Run

/-- A caller waits in a read for what another writes. -/
def handover : List (Shared.Act Bool Call Empty × Shared.State (system false) Bool) :=
  let waits := Function.update (fun _ => none) true (some ⟨.read, List.replicate 8 7, 0⟩)
  let both := Function.update waits false (some ⟨.write 3, toLE 8 3, 0⟩)
  let wrote : Event false := .ended (.write 3) (.ok (toLE 8 3))
  [(.enter true .read, ⟨.new 0, waits, []⟩),
    (.enter false (.write 3), ⟨.new 0, both, []⟩),
    (.call false, ⟨.new 3, Function.update both false none, [wrote]⟩),
    (.call true, ⟨.new 0, Function.update (Function.update both false none) true none,
      [wrote, .ended .read (.ok (toLE 8 3))]⟩)]

theorem handover_chain : Run.Chain (Shared.Step (system false)) (.init _ (.new 0)) handover :=
  ⟨.enter rfl (.read rfl), .enter rfl (.write 3), .ends rfl (.write (by decide) rfl) rfl,
    .ends rfl (.read (by decide) (by decide) rfl) rfl, trivial⟩

theorem counter_linearizable_handover :
    ([.ended (.write 3) (.ok (toLE 8 3)), .ended .read (.ok (toLE 8 3))] : List (Event false)).foldlM (does false) 0 =
      some 0 :=
  (Run.last_of_always (counter_linearizable false 0 handover_chain)).1

end Fdcpp.Records.Eventfd
