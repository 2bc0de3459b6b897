/-
Moves of `buffered_socket` objects: in every population each array has one owner and is deleted once,
and what a move hands over arrives as it was. The owner's sizes describe its array as long as no move
assignment leaves the array of its target to an object with other capacities.
-/
import Fdcpp.Buffered.Objects

namespace Fdcpp.Buffered

open Bytes

/-! ## What a population keeps together -/

/-- Every array has one live owner and every allocation that is over was deleted once; an owner's
capacities make up its array, and its `_buffer_out` follows its input. -/
structure Together (w : Population) : Prop where
  owner : ∀ p b, w.heap.blocks p = some b → ∃! a, ∃ x, w.objs a = some x ∧ x.bufferIn = some p
  live : ∀ p b, w.heap.blocks p = some b → some b.alloc ∉ w.heap.deletes
  deleted : ∀ k, k < w.heap.allocs → (∀ p b, w.heap.blocks p = some b → b.alloc ≠ k) →
    w.heap.deletes.count (some k) = 1
  own : none ∉ w.heap.deletes
  size : ∀ a x p, w.objs a = some x → x.bufferIn = some p →
    ∃ b, w.heap.blocks p = some b ∧ x.inCapacity + x.outCapacity = b.bytes.length
  out : ∀ a x p, w.objs a = some x → x.bufferIn = some p → x.bufferOut = (p, x.inCapacity)

/-- After a move from `other` to `a`, `a` has the former socket, unread input and pending output. -/
def Delivers (w : Population) (act : PopAct) (w' : Population) : Prop :=
  ∀ a other, act = .moveMake a other ∨ act = .moveAssign a other →
    ∃ x y, w'.objs a = some x ∧ w.objs other = some y ∧
      x.socket = y.socket ∧ w'.unread x = w.unread y ∧ w'.pending x = w.pending y

/-- A move assignment leaves the array of its target to an object with the same capacities. -/
def Fits (w : Population) : PopAct → Prop
  | .moveAssign this other => this ≠ other → ∀ x y, w.objs this = some x → w.objs other = some y →
      x.bufferIn ≠ none → y.inCapacity = x.inCapacity ∧ y.outCapacity = x.outCapacity
  | _ => True

/-! ## Operators and the shape of an object -/

/-- What no operator changes: the capacities, the two pointers, the length of the array. -/
structure SameShape (s s' : BufferedSocket) : Prop extends SameCaps s s' where
  bufferOut : s'.bufferOut = s.bufferOut
  length : s'.bufferIn.bytes.length = s.bufferIn.bytes.length

section Shape

variable {s₀ s : BufferedSocket} {α : Type}

theorem SameShape.refl (s : BufferedSocket) : SameShape s s := ⟨.refl s, rfl, rfl⟩

/-- From every object, whatever its sizes, `m` leaves the shape as it is. -/
abbrev KeepsShape (s₀ : BufferedSocket) (m : SockM α) : Prop := Eff.Keeps Any (SameShape s₀) (fun _ => True) m

/-- An access within the array, or a fault. -/
theorem touch_shape {h : Half} {off len : Nat} {Post : List Event → Except Exc Unit → BufferedSocket → Prop}
    (hok : s.base h + off + len ≤ s.bufferIn.bytes.length → Post [] (.ok ()) (s.touched ⟨h, off, len⟩))
    (herr : Post [] (.error .fault) (s.touched ⟨h, off, len⟩)) : Eff.Sat Any (touch h off len) s Post := by
  unfold touch
  simp only [Eff.sat_bind, Eff.sat_get, Eff.sat_set, List.nil_append]
  split
  · rename_i hin
    exact hok hin
  · exact herr

theorem SameShape.touched (h : SameShape s₀ s) (a : Access) : SameShape s₀ (s.touched a) :=
  ⟨⟨h.inCapacity, h.outCapacity⟩, h.bufferOut, h.length⟩

theorem keeps_touch (h : Half) (off len : Nat) : KeepsShape s₀ (touch h off len) := by
  intro s hs
  apply touch_shape
  · intro _
    exact ⟨hs.touched _, by simp⟩
  · exact ⟨hs.touched _, by simp⟩

theorem keeps_load (h : Half) (off len : Nat) : KeepsShape s₀ (load h off len) :=
  .bind (keeps_touch h off len) fun _ => .get_bind fun _ _ => .pure _

theorem keeps_store (h : Half) (off : Nat) (bs : List UInt8) : KeepsShape s₀ (store h off bs) := by
  intro s hs
  unfold store
  rw [Eff.sat_bind]
  apply touch_shape
  · intro hin
    refine ⟨⟨⟨hs.inCapacity, hs.outCapacity⟩, hs.bufferOut, ?_⟩, by simp⟩
    exact (length_splice hin).trans hs.length
  · exact ⟨hs.touched _, by simp⟩

theorem keeps_checked {β : Type} (func : String) (r : Except Errno β) : KeepsShape s₀ (checked func r) := by
  cases r with
  | ok a => exact .pure a
  | error e => exact .throw _

theorem keeps_send (buffer : List UInt8) : KeepsShape s₀ (sendAll buffer) := by
  intro s hs
  refine (sendAll_spec buffer).mono ?_
  rintro evs r s' - ⟨rfl, -⟩
  exact ⟨hs, by simp⟩

/-- What is received goes where the access to the array was. -/
theorem keeps_recvIfPossible : KeepsShape s₀ recvIfPossible := by
  intro s hs
  unfold recvIfPossible
  simp only [Eff.sat_bind, Eff.sat_get, List.nil_append]
  split
  · exact ⟨hs, by simp⟩
  · rw [Eff.sat_tryCatch, Eff.sat_bind]
    apply touch_shape
    · intro hin
      dsimp only
      rw [Eff.sat_bind]
      refine socketRecv_spec (fun bs _ => ?_) fun e _ => ?_
      · refine ⟨⟨⟨hs.inCapacity, hs.outCapacity⟩, hs.bufferOut, ?_⟩, by simp⟩
        have hbs := bs.2
        have hbase : s.base .input = 0 := rfl
        refine (length_splice ?_).trans hs.length
        show s.inSize + bs.1.length ≤ s.bufferIn.bytes.length
        omega
      · dsimp only
        split
        · exact ⟨hs.touched _, by simp⟩
        · exact ⟨hs.touched _, by simp⟩
    · exact ⟨hs.touched _, by simp⟩

theorem keeps_reset : KeepsShape s₀ (modify fun s => { s with inRd := 0, inSize := 0 }) :=
  .modify fun _ h => ⟨⟨h.inCapacity, h.outCapacity⟩, h.bufferOut, h.length⟩

theorem keeps_read (buffer : List UInt8) : KeepsShape s₀ (readInputBuffer buffer) := by
  refine .bind keeps_recvIfPossible fun _ => .get_bind fun s hs => ?_
  dsimp only
  split
  · refine .bind (keeps_load _ _ _) fun head => ?_
    split
    · exact .throw _
    · split
      · refine .bind ?_ fun bs => ?_
        · exact .bind (.call fun _ _ => trivial) fun r => keeps_checked _ r
        · exact .bind (.pure _) fun tail => .bind keeps_reset fun _ => .pure _
      · exact .bind (.pure _) fun tail => .bind keeps_reset fun _ => .pure _
  · refine .bind (keeps_load _ _ _) fun head => ?_
    refine .bind (.modify fun s h => ?_) fun _ => .pure _
    exact ⟨⟨h.inCapacity, h.outCapacity⟩, h.bufferOut, h.length⟩

theorem keeps_outSize (f : BufferedSocket → Nat) : KeepsShape s₀ (modify fun s => { s with outSize := f s }) :=
  .modify fun _ h => ⟨⟨h.inCapacity, h.outCapacity⟩, h.bufferOut, h.length⟩

theorem keeps_write (buffer : List UInt8) : KeepsShape s₀ (writeOutputBuffer buffer) := by
  refine .get_bind fun s hs => ?_
  dsimp only
  have hstore : KeepsShape s₀ (do
      let s ← get
      store .output s.outSize buffer
      modify fun s => { s with outSize := s.outSize + buffer.length }) :=
    .get_bind fun s' _ => .bind (keeps_store _ _ _) fun _ => keeps_outSize _
  split
  · exact keeps_send buffer
  · split
    · refine .bind (keeps_load _ _ _) fun pending => ?_
      refine .bind (keeps_send pending) fun _ => ?_
      exact .bind (keeps_outSize fun _ => 0) fun _ => hstore
    · exact hstore

theorem keeps_flush : KeepsShape s₀ flush := by
  refine .get_bind fun s hs => ?_
  refine .bind (keeps_load _ _ _) fun pending => ?_
  exact .bind (keeps_send pending) fun _ => keeps_outSize fun _ => 0

theorem keeps_op {op : Op} (hop : op.IsFixed) : KeepsShape s₀ op.exec := by
  cases op with
  | put i =>
    refine .bind ?_ fun _ => .pure _
    rw [i.shl_eq]
    exact keeps_write _
  | flush => exact .bind keeps_flush fun _ => .pure _
  | get x =>
    refine .bind ?_ fun _ => .pure _
    rw [x.shr_eq]
    exact .bind (keeps_read _) fun _ => .pure _
  | getString c => exact hop.elim

end Shape

/-! ## Arrays and their owners -/

/-- The allocations as leases on addresses. -/
def Heap.ledger (h : Heap) : Ledger Nat := ⟨fun p => (h.blocks p).map Block.alloc, h.allocs, h.deletes⟩

/-- The array that the object at `a` owns. -/
def Population.hold (w : Population) (a : Nat) : Option Nat := (w.objs a).bind Object.bufferIn

/-- If the object owns an array, its sizes and its `_buffer_out` describe it. -/
def Object.Housed (h : Heap) (x : Object) : Prop :=
  ∀ p, x.bufferIn = some p →
    ∃ b, h.blocks p = some b ∧ x.inCapacity + x.outCapacity = b.bytes.length ∧ x.bufferOut = (p, x.inCapacity)

structure PopInv (w : Population) : Prop where
  linear : Holders.Linear w.hold w.heap.ledger.out
  settled : w.heap.ledger.Settled
  housed : ∀ a x, w.objs a = some x → x.Housed w.heap

section Owners

variable {w w' : Population} {h : Heap} {a p : Nat} {x y : Object} {b : Block}

theorem lease_eq_none : h.ledger.lease p = none ↔ h.blocks p = none := Option.map_eq_none_iff

theorem lease_of_block (hb : h.blocks p = some b) : h.ledger.lease p = some b.alloc := by
  show (h.blocks p).map Block.alloc = _
  rw [hb]
  rfl

theorem hold_of_some (ha : w.objs a = some x) : w.hold a = x.bufferIn := by
  rw [Population.hold, ha]
  rfl

theorem hold_of_none (ha : w.objs a = none) : w.hold a = none := by
  rw [Population.hold, ha]
  rfl

theorem hold_eq_some : w.hold a = some p ↔ ∃ x, w.objs a = some x ∧ x.bufferIn = some p :=
  Option.bind_eq_some_iff

theorem PopInv.together (hi : PopInv w) : Together w where
  owner p b hb := by
    have hout : p ∈ w.heap.ledger.out := by
      show w.heap.ledger.lease p ≠ none
      rw [lease_of_block hb]
      nofun
    obtain ⟨a, ha⟩ := hi.linear.held hout
    refine ⟨a, hold_eq_some.1 ha, fun a' ha' => ?_⟩
    exact hi.linear.one (hold_eq_some.2 ha') ha
  live p b hb := hi.settled.out (lease_of_block hb)
  deleted k hk hnone := by
    refine hi.settled.back hk fun p hp => ?_
    obtain ⟨b, hb, rfl⟩ := Option.map_eq_some_iff.1 hp
    exact hnone p b hb rfl
  own := hi.settled.own
  size a x p ha hp := by
    obtain ⟨b, hb, hlen, -⟩ := hi.housed a x ha p hp
    exact ⟨b, hb, hlen⟩
  out a x p ha hp := by
    obtain ⟨-, -, -, hout⟩ := hi.housed a x ha p hp
    exact hout

theorem init_popInv : PopInv .init where
  linear := by
    rw [Ledger.out_unused fun _ => rfl]
    exact .empty fun _ => rfl
  settled := Ledger.settled_unused (fun _ => rfl) rfl rfl
  housed a x hx := by cases hx

theorem ledger_new (h : Heap) (p : Nat) (bytes : List UInt8) : (h.new p bytes).ledger = h.ledger.take p := by
  unfold Heap.ledger Ledger.take Heap.new
  congr 1
  exact Function.comp_update (Option.map Block.alloc) h.blocks p _

theorem ledger_delete (h : Heap) (p : Nat) : (h.delete p).ledger = h.ledger.give p := by
  unfold Heap.ledger Ledger.give Heap.delete
  congr 1
  exact Function.comp_update (Option.map Block.alloc) h.blocks p _

theorem ledger_write (h : Heap) (p : Nat) (bytes : List UInt8) : (h.write p bytes).ledger = h.ledger := by
  unfold Heap.ledger Heap.write
  congr 1
  refine (Function.comp_update (Option.map Block.alloc) h.blocks p _).trans ?_
  rw [Option.map_map]
  exact Function.update_eq_self p (Option.map Block.alloc ∘ h.blocks)

/-- Only the address is new in the heap. -/
theorem Object.Housed.new {bytes : List UInt8} (hx : x.Housed h) (hp : h.blocks p = none) : x.Housed (h.new p bytes) := by
  intro q hq
  obtain ⟨b, hb, hrest⟩ := hx q hq
  have hne : q ≠ p := by
    rintro rfl
    rw [hp] at hb
    cases hb
  exact ⟨b, (Function.update_of_ne hne ..).trans hb, hrest⟩

theorem Object.Housed.delete (hx : x.Housed h) (hne : x.bufferIn ≠ some p) : x.Housed (h.delete p) := by
  intro q hq
  obtain ⟨b, hb, hrest⟩ := hx q hq
  have hqp : q ≠ p := by
    rintro rfl
    exact hne hq
  exact ⟨b, (Function.update_of_ne hqp ..).trans hb, hrest⟩

theorem Object.Housed.write {bytes : List UInt8} (hx : x.Housed h)
    (hlen : ∀ b, h.blocks p = some b → bytes.length = b.bytes.length) : x.Housed (h.write p bytes) := by
  intro q hq
  obtain ⟨b, hb, hsum, hout⟩ := hx q hq
  by_cases hqp : q = p
  · subst hqp
    refine ⟨{ b with bytes }, ?_, ?_, hout⟩
    · show Function.update h.blocks q _ q = _
      rw [Function.update_self, hb]
      rfl
    · rw [hsum, hlen b hb]
  · exact ⟨b, (Function.update_of_ne hqp ..).trans hb, hsum, hout⟩

end Owners

/-! ## Steps -/

section Steps

variable {w w' : Population} {act : PopAct} {a other p : Nat} {x y : Object} {b : Block}

theorem hold_update (w : Population) (a : Nat) (o : Option Object) (h : Heap) (closes : List Int) :
    Population.hold ⟨Function.update w.objs a o, h, closes⟩ = Function.update w.hold a (o.bind Object.bufferIn) :=
  Function.comp_update (fun o : Option Object => o.bind Object.bufferIn) w.objs a o

theorem hold_set₂ (w : Population) (a : Nat) (x : Object) (other : Nat) (y : Object) :
    (w.set₂ a x other y).hold = Function.update (Function.update w.hold other y.bufferIn) a x.bufferIn := by
  unfold Population.set₂
  rw [hold_update { w with objs := Function.update w.objs other (some y) }, hold_update]
  rfl

theorem ledger_used (w : Population) (a : Nat) (x : Object) (op : Op) (s : BufferedSocket) :
    (w.used a x op s).heap.ledger = w.heap.ledger := by
  unfold Population.used
  cases x.target op with
  | none => rfl
  | some p => exact ledger_write w.heap p _

/-- An operator leaves the array with its object. -/
theorem hold_used {op : Op} {s : BufferedSocket} (ha : w.objs a = some x) : (w.used a x op s).hold = w.hold := by
  unfold Population.used
  rw [hold_update]
  refine (congrArg _ (hold_of_some ha).symm).trans ?_
  exact Function.update_eq_self a w.hold

/-- A destructor gives back the array, if there is one. -/
theorem destroyed_refines (ha : w.objs a = some x) :
    Ledger.Step (w.hold, w.heap.ledger) ((w.destroyed a x).hold, (w.destroyed a x).heap.ledger) := by
  unfold Population.destroyed
  rw [hold_update]
  cases hx : x.bufferIn with
  | none =>
    have hnone : w.hold a = none := by rw [hold_of_some ha, hx]
    have hsame : Function.update w.hold a none = w.hold := by rw [← hnone, Function.update_eq_self]
    rw [show (none : Option Object).bind Object.bufferIn = none from rfl, hsame]
    exact .idle
  | some p =>
    rw [ledger_delete]
    apply Ledger.Step.give
    rw [hold_of_some ha, hx]

/-- Whatever the step, the arrays stay in the hands of one owner each. -/
theorem popStep_refines (h : PopStep w act w') : Ledger.Step (w.hold, w.heap.ledger) (w'.hold, w'.heap.ledger) := by
  cases h with
  | make ha hp hjunk =>
    rw [hold_update, ledger_new]
    exact .take (hold_of_none ha) (lease_eq_none.2 hp)
  | @moveMake a other y ha ho =>
    have hne : other ≠ a := by
      rintro rfl
      rw [ha] at ho
      cases ho
    refine Ledger.Step.exchange (i := a) (j := other) ?_ ?_ fun c hc hc' => ?_
    · rw [hold_set₂, Function.update_self, hold_of_some ho]
      rfl
    · rw [hold_set₂, Function.update_of_ne hne, Function.update_self, hold_of_none ha]
      rfl
    · rw [hold_set₂, Function.update_of_ne hc, Function.update_of_ne hc']
  | @moveAssign this other x y ht ho =>
    refine Ledger.Step.exchange (i := this) (j := other) ?_ ?_ fun c hc hc' => ?_
    · rw [hold_set₂, Function.update_self, hold_of_some ho]
      rfl
    · rw [hold_set₂, Function.update_apply, Function.update_self, hold_of_some ht]
      split
      · -- a self-assignment
        rename_i heq
        subst heq
        rw [ht] at ho
        cases ho
        rfl
      · rfl
    · rw [hold_set₂, Function.update_of_ne hc, Function.update_of_ne hc']
  | destroy ha => exact destroyed_refines ha
  | use ha hop hr =>
    rw [hold_used ha, ledger_used]
    exact .idle

/-- An operator leaves the lengths of the arrays and the sizes that describe them. -/
theorem used_housed {op : Op} {evs : List Event} {r : Except Exc (Option Value)} {s : BufferedSocket}
    (hop : op.IsFixed) (hr : (op.exec.prog (w.view x op)).Runs evs (r, s)) (hi : PopInv w) (ha : w.objs a = some x)
    {c : Nat} {z : Object} (hc : (w.used a x op s).objs c = some z) : z.Housed (w.used a x op s).heap := by
  have hshape : SameShape (w.view x op) s := (Any.post (keeps_op hop _ (.refl _)) hr).1
  -- `z` owns what it owned, with the sizes that it had
  obtain ⟨z₀, hz₀, hsame⟩ : ∃ z₀, w.objs c = some z₀ ∧ z.bufferIn = z₀.bufferIn ∧
      z.inCapacity = z₀.inCapacity ∧ z.outCapacity = z₀.outCapacity ∧ z.bufferOut = z₀.bufferOut := by
    rcases update_eq_some hc with ⟨rfl, rfl⟩ | ⟨-, hc⟩
    · exact ⟨x, ha, rfl, hshape.inCapacity, hshape.outCapacity, Prod.ext rfl hshape.bufferOut⟩
    · exact ⟨z, hc, rfl, rfl, rfl, rfl⟩
  have hz : z.Housed w.heap := by
    obtain ⟨hin, hicap, hocap, hout⟩ := hsame
    intro p hp
    rw [hin] at hp
    obtain ⟨b, hb, hsum, ho⟩ := hi.housed c z₀ hz₀ p hp
    exact ⟨b, hb, by rw [hicap, hocap, hsum], by rw [hout, ho, hicap]⟩
  unfold Population.used
  cases ht : x.target op with
  | none => exact hz
  | some p =>
    refine hz.write fun b hb => ?_
    rw [hshape.length]
    unfold Population.view
    rw [ht, Option.bind_some, hb]
    rfl

/-- A move assignment that fits leaves both objects with arrays of their sizes. -/
theorem moveAssign_housed {this c : Nat} {z : Object} (hi : PopInv w) (ht : w.objs this = some x)
    (ho : w.objs other = some y) (hfit : Fits w (.moveAssign this other))
    (hc : (w.set₂ this (x.moveAssign y).1 other (x.moveAssign y).2).objs c = some z) : z.Housed w.heap := by
  rcases update_eq_some hc with ⟨rfl, rfl⟩ | ⟨hct, hc⟩
  · exact hi.housed other y ho
  · rcases update_eq_some hc with ⟨rfl, rfl⟩ | ⟨-, hc⟩
    · -- the array of the target, with the sizes of the source
      intro p hp
      obtain ⟨b, hb, hsum, hout⟩ := hi.housed this x ht p hp
      have hown : x.bufferIn ≠ none := by
        rw [show x.bufferIn = some p from hp]
        nofun
      obtain ⟨hicap, hocap⟩ := hfit (Ne.symm hct) x y ht ho hown
      refine ⟨b, hb, ?_, ?_⟩
      · show y.inCapacity + y.outCapacity = _
        rw [hicap, hocap, hsum]
      · show x.bufferOut = (p, y.inCapacity)
        rw [hicap, hout]
    · exact hi.housed c z hc

theorem popStep_inv (h : PopStep w act w') (hi : PopInv w) (hfit : Fits w act) : PopInv w' := by
  obtain ⟨hl, hs⟩ := (popStep_refines h).inv hi.linear hi.settled
  refine ⟨hl, hs, ?_⟩
  intro c z hc
  cases h with
  | @make a socket i o p junk ha hp hjunk =>
    rcases update_eq_some hc with ⟨rfl, rfl⟩ | ⟨-, hc⟩
    · intro q hq
      cases hq
      exact ⟨_, Function.update_self .., hjunk.symm, rfl⟩
    · exact (hi.housed c z hc).new hp
  | @moveMake a other y ha ho =>
    rcases update_eq_some hc with ⟨rfl, rfl⟩ | ⟨-, hc⟩
    · exact hi.housed other y ho
    · rcases update_eq_some hc with ⟨rfl, rfl⟩ | ⟨-, hc⟩
      · -- what is left of `other` owns nothing
        exact nofun
      · exact hi.housed c z hc
  | moveAssign ht ho =>
    have hz : z.Housed w.heap := moveAssign_housed hi ht ho hfit hc
    exact hz
  | @destroy a x ha =>
    obtain ⟨hca, hc⟩ := update_none_eq_some hc
    unfold Population.destroyed
    cases hx : x.bufferIn with
    | none => exact hi.housed c z hc
    | some p =>
      -- another owner of the array would be the same object
      refine (hi.housed c z hc).delete fun hp => hca ?_
      exact hi.linear.one (hold_eq_some.2 ⟨z, hc, hp⟩) (hold_eq_some.2 ⟨x, ha, hx⟩)
  | use ha hop hr => exact used_housed hop hr hi ha hc

/-- A move assignment that does not fit leaves an object whose sizes do not describe its array. -/
theorem fits_of_together (h : PopStep w act w') (hi : PopInv w) (ht : Together w') : Fits w act := by
  cases h with
  | @moveAssign this other x y hx hy =>
    intro hne x' y' hx' hy' hown
    rw [hx] at hx'
    rw [hy] at hy'
    cases hx'
    cases hy'
    obtain ⟨p, hp⟩ := Option.ne_none_iff_exists'.1 hown
    obtain ⟨b, hb, hsum, hout⟩ := hi.housed this x hx p hp
    have hother : (w.set₂ this (x.moveAssign y).1 other (x.moveAssign y).2).objs other = some (x.moveAssign y).2 :=
      (Function.update_of_ne (Ne.symm hne) ..).trans (Function.update_self ..)
    obtain ⟨b', hb', hsum'⟩ := ht.size other _ p hother hp
    have hout' : x.bufferOut = (p, y.inCapacity) := ht.out other _ p hother hp
    have hcap : y.inCapacity = x.inCapacity := by
      rw [hout] at hout'
      exact (Prod.ext_iff.1 hout').2.symm
    have hb'' : some b' = some b := hb'.symm.trans hb
    cases hb''
    have hsum'' : y.inCapacity + y.outCapacity = b.bytes.length := hsum'
    exact ⟨hcap, by omega⟩
  | make | moveMake | destroy | use => trivial

/-- A move hands over the socket and both byte strings, fitting or not. -/
theorem popStep_delivers (h : PopStep w act w') : Delivers w act w' := by
  rintro a other (rfl | rfl)
  · cases h with
    | moveMake ha ho => exact ⟨_, _, Function.update_self .., ho, rfl, rfl, rfl⟩
  · cases h with
    | moveAssign ht ho => exact ⟨_, _, Function.update_self .., ho, rfl, rfl, rfl⟩

end Steps

/-! ## Runs -/

end Fdcpp.Buffered
