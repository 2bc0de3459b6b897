/-
The loops that transfer a whole record: `eventfd::read`, `eventfd::write`, `timerfd::read` and
`signalfd::read`. Each asks for what its record still lacks, `do n += call(buf + n, size - n); while
(n != size)`, with a counter that is a `size_t` or a `ssize_t`. A read that reports 0 bytes, at the
end of the file, is repeated like any other short one.
-/
import Fdcpp.Lib.Feed
import Fdcpp.Lib.SizeT
import Fdcpp.Records.Loop

namespace Fdcpp.Records

open Bytes

/-! ## The counters -/

/-- The C type of a counter. -/
inductive CounterType
  | sizeT | ssizeT
  deriving DecidableEq, Repr

/-- A `size_t` stored in a counter. -/
def CounterType.ofSize : CounterType → Nat → Int
  | .sizeT, n => n
  | .ssizeT, n => asLong n

/-- A counter converted to `size_t`. -/
def toSize (n : Int) : Nat := (n % 2 ^ 64).toNat

/-! ## The calls -/

inductive Dir
  | read | write
  deriving DecidableEq, Repr

/-- What a call that succeeds reports: a `read` the bytes that it stored, a `write` how many it took. -/
abbrev Dir.Report : Dir → Type
  | .read => List UInt8
  | .write => Nat

/-- What the kernel answers to a call. -/
abbrev Dir.Answer (d : Dir) : Type := Except Errno d.Report

/-- The count that the call returns. -/
def Dir.count : (d : Dir) → d.Report → Nat
  | .read, bs => bs.length
  | .write, c => c

/-- The record after a call on its bytes from `n` on. -/
def Dir.store : (d : Dir) → List UInt8 → Nat → d.Report → List UInt8
  | .read, buf, n, bs => splice buf n bs
  | .write, buf, _, _ => buf

/-- The bytes that a call on those from `n` on has transferred. -/
def Dir.moved : (d : Dir) → List UInt8 → Nat → d.Report → List UInt8
  | .read, _, _, bs => bs
  | .write, buf, n, c => slice buf n c

def Dir.func : Dir → String
  | .read => "read()"
  | .write => "write()"

/-- A successful call that has transferred nothing. -/
def Dir.Idle (d : Dir) (a : d.Answer) : Prop := ∃ b, a = .ok b ∧ d.count b = 0

/-! ## The loops -/

/-- A loop: the class whose `read` or `write` it calls, its counter, and the size of its record. -/
structure RecordLoop where
  tag : String
  dir : Dir
  counter : CounterType
  size : Nat

/-- The record and the `n` of a loop. -/
structure Transfer where
  buf : List UInt8
  n : Int
  deriving DecidableEq, Repr

/-- The size that the next call asks for. -/
def RecordLoop.asks (l : RecordLoop) (t : Transfer) : Nat := szSub l.size (toSize t.n)

/-- A pass of the loop. -/
def RecordLoop.pass (l : RecordLoop) (t : Transfer) : l.dir.Answer → Transfer ⊕ Except SystemError (List UInt8)
  | .error e => .inr (.error (throwSystemError l.tag l.dir.func e))
  | .ok b =>
    let buf := l.dir.store t.buf t.n.toNat b
    let n := l.counter.ofSize ((toSize t.n + l.dir.count b) % 2 ^ 64)
    if toSize n ≠ l.size then .inl ⟨buf, n⟩ else .inr (.ok buf)

/-- The passes over the first `i` answers of the kernel, and where they lead. -/
abbrev RecordLoop.after (l : RecordLoop) (buf : List UInt8) (k : Stream' l.dir.Answer) (i : Nat) :
    List (Transfer × l.dir.Answer) × (Transfer ⊕ Except SystemError (List UInt8)) := Feed.after l.pass ⟨buf, 0⟩ k i

/-- The bytes that some passes have transferred. -/
def RecordLoop.moved (l : RecordLoop) (past : List (Transfer × l.dir.Answer)) : List UInt8 :=
  past.flatMap fun p => match p.2 with
    | .ok b => l.dir.moved p.1.buf p.1.n.toNat b
    | .error _ => []

/-- `eventfd::read`, over `iodescriptor::read`. -/
def eventfdRead : RecordLoop where
  tag := "iodescriptor"
  dir := .read
  counter := .sizeT
  size := 8

/-- `eventfd::write`, over `iodescriptor::write`. -/
def eventfdWrite : RecordLoop where
  tag := "iodescriptor"
  dir := .write
  counter := .sizeT
  size := 8

/-- `timerfd::read`, over `idescriptor::read`. -/
def timerfdRead : RecordLoop where
  tag := "idescriptor"
  dir := .read
  counter := .ssizeT
  size := 8

/-- `signalfd::read`, over `idescriptor::read`; 128 is `sizeof(struct signalfd_siginfo)`. -/
def signalfdRead : RecordLoop where
  tag := "idescriptor"
  dir := .read
  counter := .sizeT
  size := 128

/-- The four functions. -/
inductive Site
  | eventfdRead | eventfdWrite | timerfdRead | signalfdRead
  deriving DecidableEq, Repr

def Site.loop : Site → RecordLoop
  | .eventfdRead => Records.eventfdRead
  | .eventfdWrite => Records.eventfdWrite
  | .timerfdRead => Records.timerfdRead
  | .signalfdRead => Records.signalfdRead

/-! ## What the kernel may answer, and what is asked of the loops -/

/-- A call transfers what it is asked for at most, and a read at the end of the file, which reports 0,
is followed by others that do. -/
structure Kernel (l : RecordLoop) (buf : List UInt8) (k : Stream' l.dir.Answer) : Prop where
  atMost : Feed.Legal (fun t a => ∀ b, a = .ok b → l.dir.count b ≤ l.asks t) l.pass ⟨buf, 0⟩ k
  endOfFile : l.dir = .read → ∀ i j, i ≤ j → l.dir.Idle (k.get i) → l.dir.Idle (k.get j)

/-- The loop ends; no call asks for more than the record lacks; the record that it returns is what
was transferred; and the end of the file inside the record is reported. -/
structure Complete (l : RecordLoop) (buf : List UInt8) (k : Stream' l.dir.Answer) : Prop where
  ends : Feed.Ends l.pass ⟨buf, 0⟩ k
  asks : ∀ i t, (l.after buf k i).2 = .inl t → l.asks t + (l.moved (l.after buf k i).1).length ≤ l.size
  exact : ∀ i buf', (l.after buf k i).2 = .inr (.ok buf') → buf' = l.moved (l.after buf k i).1
  endOfFile : l.dir = .read → ∀ i t, (l.after buf k i).2 = .inl t → l.dir.Idle (k.get i) →
    ∃ j e, (l.after buf k j).2 = .inr (.error e)

/-- How many bytes the answers transfer in all. -/
def Dir.transferred (d : Dir) (answers : List d.Answer) : Nat :=
  (answers.map fun a => match a with
    | .ok b => d.count b
    | .error _ => 0).sum

/-- From some point on the kernel answers 0 for ever, before an error and before a whole record. -/
def Stalls (l : RecordLoop) (k : Stream' l.dir.Answer) : Prop :=
  ∃ i, (∀ j, j < i → ∃ b, k.get j = .ok b) ∧ l.dir.transferred (k.take i) < l.size ∧ ∀ j, i ≤ j → l.dir.Idle (k.get j)

/-! ## Counters and calls -/

theorem toSize_natCast {n : Nat} (h : n < 2 ^ 64) : toSize n = n := by
  unfold toSize
  omega

theorem ofSize_of_lt {n : Nat} (c : CounterType) (h : n < 2 ^ 63) : c.ofSize n = n := by
  cases c with
  | sizeT => rfl
  | ssizeT => exact asLong_of_lt h

section Calls

variable {d : Dir} {buf : List UInt8} {n : Nat} {b : d.Report}

theorem length_moved (h : n + d.count b ≤ buf.length) : (d.moved buf n b).length = d.count b := by
  cases d with
  | read => rfl
  | write => exact length_slice h

theorem length_store (h : n + d.count b ≤ buf.length) : (d.store buf n b).length = buf.length := by
  cases d with
  | read => exact length_splice h
  | write => rfl

/-- A call extends what was transferred before it. -/
theorem slice_store (h : n + d.count b ≤ buf.length) :
    slice (d.store buf n b) 0 (n + d.count b) = slice buf 0 n ++ d.moved buf n b := by
  rw [slice_add, Nat.zero_add]
  cases d with
  | read =>
    have hself : slice (splice buf n b) n b.length = b := slice_splice_self h
    have hbefore : slice (splice buf n b) 0 n = slice buf 0 n := slice_splice_before h (by omega)
    show slice (splice buf n b) 0 n ++ slice (splice buf n b) n b.length = _
    rw [hself, hbefore]
    rfl
  | write => rfl

end Calls

/-! ## A pass -/

section Natural

variable {l : RecordLoop} {buf : List UInt8} {n : Nat} {b : l.dir.Report}

theorem asks_natCast (hl : l.size < 2 ^ 63) (hn : n ≤ l.size) : l.asks ⟨buf, n⟩ = l.size - n := by
  rw [RecordLoop.asks, toSize_natCast (by omega), szSub_of_le hn]

/-- No counter wraps while the calls transfer what they are asked for at most. -/
theorem pass_natCast (hl : l.size < 2 ^ 63) (hn : n + l.dir.count b ≤ l.size) :
    l.pass ⟨buf, n⟩ (.ok b) = if n + l.dir.count b ≠ l.size then .inl ⟨l.dir.store buf n b, (n + l.dir.count b : Nat)⟩
      else .inr (.ok (l.dir.store buf n b)) := by
  simp only [RecordLoop.pass, Int.toNat_natCast]
  rw [toSize_natCast (by omega), Nat.mod_eq_of_lt (by omega), ofSize_of_lt _ (by omega), toSize_natCast (by omega)]

end Natural

/-- Before a call: the transferred bytes are the first ones of the record, which is not complete, and the
counter has their number. -/
structure Inv (l : RecordLoop) (past : List (Transfer × l.dir.Answer)) (t : Transfer) : Prop where
  length : t.buf.length = l.size
  n : t.n = (l.moved past).length
  lt : (l.moved past).length < l.size
  filled : slice t.buf 0 (l.moved past).length = l.moved past

section Pass

variable {l : RecordLoop} {past : List (Transfer × l.dir.Answer)} {t t' : Transfer} {b : l.dir.Report}

/-- The call asks for what the record lacks. -/
theorem Inv.asks (h : Inv l past t) (hl : l.size < 2 ^ 63) : l.asks t = l.size - (l.moved past).length := by
  have ht : t = ⟨t.buf, ((l.moved past).length : Nat)⟩ := by rw [← h.n]
  rw [ht]
  exact asks_natCast hl (Nat.le_of_lt h.lt)

theorem moved_concat (h : Inv l past t) :
    l.moved (past ++ [(t, .ok b)]) = l.moved past ++ l.dir.moved t.buf (l.moved past).length b := by
  have hn : t.n.toNat = (l.moved past).length := by rw [h.n, Int.toNat_natCast]
  rw [← hn, RecordLoop.moved, List.flatMap_append, List.flatMap_singleton]
  rfl

theorem Inv.length_moved (h : Inv l past t) (hl : l.size < 2 ^ 63) (hb : l.dir.count b ≤ l.asks t) :
    (l.moved (past ++ [(t, .ok b)])).length = (l.moved past).length + l.dir.count b := by
  have hlt := h.lt
  rw [h.asks hl] at hb
  rw [moved_concat h, List.length_append, Records.length_moved (by rw [h.length]; omega)]

/-- A successful call leaves the record incomplete, and the loop goes on, or complete, and the loop returns it. -/
theorem Inv.pass_ok (h : Inv l past t) (hl : l.size < 2 ^ 63) (hb : l.dir.count b ≤ l.asks t) :
    (∃ t', l.pass t (.ok b) = .inl t' ∧ Inv l (past ++ [(t, .ok b)]) t') ∨
    (l.pass t (.ok b) = .inr (.ok (l.moved (past ++ [(t, .ok b)]))) ∧
      (l.moved (past ++ [(t, .ok b)])).length = l.size) := by
  have hlt := h.lt
  have hmoved := h.length_moved hl hb
  rw [h.asks hl] at hb
  have hin : (l.moved past).length + l.dir.count b ≤ t.buf.length := by rw [h.length]; omega
  have hstore : (l.dir.store t.buf (l.moved past).length b).length = l.size := (length_store hin).trans h.length
  have hfilled : slice (l.dir.store t.buf (l.moved past).length b) 0 (l.moved (past ++ [(t, .ok b)])).length =
      l.moved (past ++ [(t, .ok b)]) := by
    rw [hmoved, slice_store hin, h.filled, moved_concat h]
  have hpass : l.pass t (.ok b) = l.pass ⟨t.buf, ((l.moved past).length : Nat)⟩ (.ok b) := by rw [← h.n]
  rw [hpass, pass_natCast hl (by omega), ← hmoved]
  by_cases hsum : (l.moved (past ++ [(t, .ok b)])).length = l.size
  · right
    rw [if_neg fun hne => hne hsum]
    rw [hsum, slice, List.drop_zero, List.take_of_length_le (Nat.le_of_eq hstore)] at hfilled
    exact ⟨by rw [hfilled], hsum⟩
  · left
    rw [if_pos hsum]
    exact ⟨_, rfl, hstore, rfl, by omega, hfilled⟩

/-- A pass that goes on had a successful call. -/
theorem Inv.going (h : Inv l past t) (hl : l.size < 2 ^ 63) {a : l.dir.Answer}
    (ha : ∀ b, a = .ok b → l.dir.count b ≤ l.asks t) (hp : l.pass t a = .inl t') :
    ∃ b, a = .ok b ∧ (l.moved (past ++ [(t, a)])).length = (l.moved past).length + l.dir.count b ∧
      Inv l (past ++ [(t, a)]) t' := by
  cases a with
  | error e => cases hp
  | ok b =>
    refine ⟨b, rfl, h.length_moved hl (ha b rfl), ?_⟩
    rcases h.pass_ok hl (ha b rfl) with ⟨t₁, hp₁, h₁⟩ | ⟨hp₁, -⟩
    · rw [hp₁] at hp
      cases hp
      exact h₁
    · rw [hp₁] at hp
      cases hp

/-- The record that a pass returns is what was transferred. -/
theorem Inv.returned (h : Inv l past t) (hl : l.size < 2 ^ 63) {a : l.dir.Answer}
    (ha : ∀ b, a = .ok b → l.dir.count b ≤ l.asks t) {buf : List UInt8} (hp : l.pass t a = .inr (.ok buf)) :
    buf = l.moved (past ++ [(t, a)]) := by
  cases a with
  | error e => cases hp
  | ok b =>
    rcases h.pass_ok hl (ha b rfl) with ⟨t₁, hp₁, -⟩ | ⟨hp₁, -⟩
    · rw [hp₁] at hp
      cases hp
    · rw [hp₁] at hp
      cases hp
      rfl

end Pass

/-! ## Runs -/

theorem transferred_concat (d : Dir) (as : List d.Answer) (b : d.Report) :
    d.transferred (as ++ [.ok b]) = d.transferred as + d.count b := by
  simp [Dir.transferred]

theorem transferred_mono (d : Dir) (k : Stream' d.Answer) {n m : Nat} (h : n ≤ m) :
    d.transferred (k.take n) ≤ d.transferred (k.take m) := by
  induction m, h using Nat.le_induction with
  | base => exact Nat.le_refl _
  | succ m _ ih =>
    rw [Stream'.take_succ']
    simp only [Dir.transferred, List.map_append, List.sum_append] at ih ⊢
    omega

/-- A kernel that stalls answers without an error, and transfers less than the record. -/
theorem Stalls.always {l : RecordLoop} {k : Stream' l.dir.Answer} (h : Stalls l k) (n : Nat) :
    (∃ b, k.get n = .ok b) ∧ l.dir.transferred (k.take n) < l.size := by
  obtain ⟨i, hok, hlt, hidle⟩ := h
  -- the answers from `i` on add nothing
  have hafter : ∀ m, i ≤ m → l.dir.transferred (k.take m) = l.dir.transferred (k.take i) := by
    intro m hm
    induction m, hm using Nat.le_induction with
    | base => rfl
    | succ m hm ih =>
      obtain ⟨b, hb, hzero⟩ := hidle m hm
      rw [Stream'.take_succ', hb, transferred_concat, hzero, ih, Nat.add_zero]
  constructor
  · rcases Nat.lt_or_ge n i with hn | hn
    · exact hok n hn
    · obtain ⟨b, hb, -⟩ := hidle n hn
      exact ⟨b, hb⟩
  · calc l.dir.transferred (k.take n)
        ≤ l.dir.transferred (k.take (max n i)) := transferred_mono _ k (Nat.le_max_left n i)
      _ = l.dir.transferred (k.take i) := hafter _ (Nat.le_max_right n i)
      _ < l.size := hlt

section Run

variable {l : RecordLoop} {buf : List UInt8} {k : Stream' l.dir.Answer} {i : Nat} {t : Transfer}
variable (hk : Kernel l buf k) (hbuf : buf.length = l.size) (hpos : 0 < l.size) (hl : l.size < 2 ^ 63)

include hk hbuf hpos hl

/-- The invariant holds before each call, and a record that is returned is the one that was transferred. -/
theorem after_inv (i : Nat) : (∀ t, (l.after buf k i).2 = .inl t → Inv l (l.after buf k i).1 t) ∧
    ∀ r, (l.after buf k i).2 = .inr r → ∀ buf', r = .ok buf' → buf' = l.moved (l.after buf k i).1 := by
  have hstart : Inv l [] ⟨buf, 0⟩ := ⟨hbuf, rfl, hpos, rfl⟩
  apply hk.atMost.invariant (Q := fun past r => ∀ buf', r = .ok buf' → buf' = l.moved past) hstart
  · intro past t a t' h ha hp
    obtain ⟨b, -, -, h'⟩ := h.going hl ha hp
    exact h'
  · rintro past t a r h ha hp buf' rfl
    exact h.returned hl ha hp

theorem going_inv (ht : (l.after buf k i).2 = .inl t) : Inv l (l.after buf k i).1 t :=
  (after_inv hk hbuf hpos hl i).1 t ht

/-- While the loop goes on no call has failed, and the calls have transferred what the answers say. -/
theorem going_transferred (ht : (l.after buf k i).2 = .inl t) :
    (∀ j, j < i → ∃ b, k.get j = .ok b) ∧ l.dir.transferred (k.take i) = (l.moved (l.after buf k i).1).length := by
  induction i generalizing t with
  | zero => exact ⟨nofun, rfl⟩
  | succ i ih =>
    obtain ⟨t₀, ht₀⟩ := Feed.going_of_le ht (Nat.le_succ i)
    obtain ⟨hok, hsum⟩ := ih ht₀
    have hafter : l.after buf k (i + 1) = _ := Feed.after_succ_going ht₀
    rw [hafter] at ht ⊢
    obtain ⟨b, hb, hlen, -⟩ := (going_inv hk hbuf hpos hl ht₀).going hl (hk.atMost i t₀ ht₀) ht
    rw [Stream'.take_succ', hlen, hb, transferred_concat, hsum]
    constructor
    · intro j hj
      rcases Nat.lt_succ_iff_lt_or_eq.1 hj with hj | rfl
      · exact hok j hj
      · exact ⟨b, hb⟩
    · rfl

/-- A loop whose kernel stalls asks again for ever. -/
theorem not_ends_of_stalls (h : Stalls l k) : ¬ Feed.Ends l.pass ⟨buf, 0⟩ k := by
  rw [Feed.not_ends]
  intro n
  induction n with
  | zero => exact ⟨_, rfl⟩
  | succ n ih =>
    obtain ⟨t, ht⟩ := ih
    obtain ⟨⟨b, hb⟩, -⟩ := h.always n
    have hlt := (h.always (n + 1)).2
    have hi := going_inv hk hbuf hpos hl ht
    have hsum := (going_transferred hk hbuf hpos hl ht).2
    have hcount := hk.atMost n t ht b hb
    rw [Stream'.take_succ', hb, transferred_concat, hsum, ← hi.length_moved hl hcount] at hlt
    rw [Feed.after_succ_going ht, hb]
    rcases hi.pass_ok hl hcount with ⟨t', hp, -⟩ | ⟨-, hsize⟩
    · exact ⟨t', hp⟩
    · omega

/-- A call that transfers nothing while the loop goes on, and is only followed by others, stalls it. -/
theorem stalls_of_idle (ht : (l.after buf k i).2 = .inl t) (hidle : ∀ j, i ≤ j → l.dir.Idle (k.get j)) :
    Stalls l k := by
  obtain ⟨hok, hsum⟩ := going_transferred hk hbuf hpos hl ht
  have hlt := (going_inv hk hbuf hpos hl ht).lt
  exact ⟨i, hok, by omega, hidle⟩

theorem ends_of_not_stalls (h : ¬ Stalls l k) : Feed.Ends l.pass ⟨buf, 0⟩ k := by
  by_contra hends
  -- what the record lacks falls with each call that transfers something
  have hidle : Feed.Ends l.pass ⟨buf, 0⟩ k ∨ ∃ i, ∀ j, i ≤ j → l.dir.Idle (k.get j) := by
    apply Feed.ends_or_idle (V := fun t => l.size - t.n.toNat)
    intro n t t' ht hp
    have hi := going_inv hk hbuf hpos hl ht
    obtain ⟨b, hb, hlen, hi'⟩ := hi.going hl (hk.atMost n t ht) hp
    have hlt := hi'.lt
    simp only [hi.n, hi'.n, Int.toNat_natCast, hlen] at hlt ⊢
    rcases Nat.eq_zero_or_pos (l.dir.count b) with hzero | hcount
    · right
      exact ⟨by omega, b, hb, hzero⟩
    · left
      omega
  obtain ⟨i, hidle⟩ := hidle.resolve_left hends
  obtain ⟨t, ht⟩ := Feed.not_ends.1 hends i
  exact h (stalls_of_idle hk hbuf hpos hl ht hidle)

theorem complete_of_not_stalls (h : ¬ Stalls l k) : Complete l buf k := by
  constructor
  · exact ends_of_not_stalls hk hbuf hpos hl h
  · intro i t ht
    have hi := going_inv hk hbuf hpos hl ht
    have hlt := hi.lt
    rw [hi.asks hl]
    omega
  · intro i buf' hr
    exact (after_inv hk hbuf hpos hl i).2 _ hr buf' rfl
  · intro hd i t ht hidle
    exact absurd (stalls_of_idle hk hbuf hpos hl ht fun j hj => hk.endOfFile hd i j hj hidle) h

end Run

/-! ## The four functions -/

theorem Site.size_pos (f : Site) : 0 < f.loop.size := by cases f <;> decide

theorem Site.size_lt (f : Site) : f.loop.size < 2 ^ 63 := by cases f <;> decide

/-- A read stalls exactly if the file ends inside the record. -/
theorem stalls_iff_endOfFile {l : RecordLoop} {buf : List UInt8} {k : Stream' l.dir.Answer} (hk : Kernel l buf k)
    (hd : l.dir = .read) : Stalls l k ↔
      ∃ i, (∀ j, j < i → ∃ b, k.get j = .ok b) ∧ l.dir.transferred (k.take i) < l.size ∧ l.dir.Idle (k.get i) := by
  constructor
  · rintro ⟨i, hok, hlt, hidle⟩
    exact ⟨i, hok, hlt, hidle i (Nat.le_refl i)⟩
  · rintro ⟨i, hok, hlt, hidle⟩
    exact ⟨i, hok, hlt, fun j hj => hk.endOfFile hd i j hj hidle⟩

/-- Whatever the kernel answers, each of the four functions ends and is exact if and only if the answers do
not stall inside the record. -/
theorem complete_iff (f : Site) {buf : List UInt8} (hbuf : buf.length = f.loop.size) {k : Stream' f.loop.dir.Answer}
    (hk : Kernel f.loop buf k) : Complete f.loop buf k ↔ ¬ Stalls f.loop k := by
  constructor
  · intro h hstalls
    exact not_ends_of_stalls hk hbuf f.size_pos f.size_lt hstalls h.ends
  · exact complete_of_not_stalls hk hbuf f.size_pos f.size_lt

/-- Answers that are of use up to some point, and of none from there on. -/
theorem idle_of_le {d : Dir} {k : Stream' d.Answer} {n : Nat} (hhead : ∀ i, i < n → ¬ d.Idle (k.get i))
    (htail : ∀ i, n ≤ i → d.Idle (k.get i)) : ∀ i j, i ≤ j → d.Idle (k.get i) → d.Idle (k.get j) := by
  intro i j hj hi
  have hn : n ≤ i := Nat.le_of_not_lt fun hlt => hhead i hlt hi
  exact htail j (Nat.le_trans hn hj)

/-- An event counter that is read in two parts, after which there is the end of the file. -/
theorem complete_eventfd_parts : ∃ k : Stream' eventfdRead.dir.Answer,
    (eventfdRead.after (List.replicate 8 0) k 2).2 = .inr (.ok [1, 2, 3, 4, 5, 6, 7, 8]) ∧
    Complete eventfdRead (List.replicate 8 0) k := by
  let k : Stream' eventfdRead.dir.Answer := fun
    | 0 => .ok [1, 2, 3]
    | 1 => .ok [4, 5, 6, 7, 8]
    | _ => .ok []
  have hk : Kernel eventfdRead (List.replicate 8 0) k := by
    constructor
    · rintro (_ | _ | n) t ht b hb
      · cases ht
        cases hb
        decide
      · cases ht
        cases hb
        decide
      · cases hb
        exact Nat.zero_le _
    · intro _
      apply idle_of_le (n := 2)
      · rintro (_ | _ | i) hi ⟨b, hb, hzero⟩
        · cases hb
          cases hzero
        · cases hb
          cases hzero
        · omega
      · rintro (_ | _ | i) hi
        · omega
        · omega
        · exact ⟨[], rfl, rfl⟩
  have hstalls : ¬ Stalls eventfdRead k := fun h => absurd (h.always 2).2 (by decide)
  exact ⟨k, rfl, (complete_iff .eventfdRead (by rfl) hk).2 hstalls⟩

/-- A timer that has adopted the end of a pipe, whose other end wrote three bytes and was closed: `timerfd::read`
never returns. -/
theorem endOfFile_loops : ∃ k : Stream' timerfdRead.dir.Answer, Kernel timerfdRead (List.replicate 8 0) k ∧
    (∀ i, ∃ t, (timerfdRead.after (List.replicate 8 0) k i).2 = .inl t) ∧
    ¬ Complete timerfdRead (List.replicate 8 0) k := by
  let k : Stream' timerfdRead.dir.Answer := fun
    | 0 => .ok [1, 2, 3]
    | _ => .ok []
  have htail : ∀ i, 1 ≤ i → timerfdRead.dir.Idle (k.get i) := by
    rintro (_ | i) hi
    · omega
    · exact ⟨[], rfl, rfl⟩
  have hk : Kernel timerfdRead (List.replicate 8 0) k := by
    constructor
    · rintro (_ | n) t ht b hb
      · cases ht
        cases hb
        decide
      · cases hb
        exact Nat.zero_le _
    · intro _
      apply idle_of_le (n := 1) _ htail
      rintro (_ | i) hi ⟨b, hb, hzero⟩
      · cases hb
        cases hzero
      · omega
  have hstalls : Stalls timerfdRead k := by
    refine ⟨1, ?_, by decide, htail⟩
    intro j hj
    obtain rfl : j = 0 := by omega
    exact ⟨_, rfl⟩
  have hends := not_ends_of_stalls hk (by rfl) (by decide) (by decide) hstalls
  exact ⟨k, hk, Feed.not_ends.1 hends, fun h => hends h.ends⟩

/-! ## Natural numbers as counters -/

/-- Where a loop is, in terms of the loop over natural numbers. -/
def outcome : Transfer ⊕ Except SystemError (List UInt8) → Outcome
  | .inl t => .going ⟨t.buf, t.n.toNat⟩
  | .inr (.ok buf) => .returned buf
  | .inr (.error e) => .thrown e

/-- A loop over the `read` of a class. -/
abbrev readLoop (tag : String) (counter : CounterType) (size : Nat) : RecordLoop := ⟨tag, .read, counter, size⟩

section ReadLoop

variable {tag : String} {c : CounterType} {size : Nat} {r : Record} {bs : List UInt8}

theorem readLoop_asks (hsize : size < 2 ^ 63) (hbuf : r.buf.length = size) (hn : r.n < size) :
    (readLoop tag c size).asks ⟨r.buf, r.n⟩ = r.asks := by
  rw [Record.asks, hbuf]
  exact asks_natCast hsize (Nat.le_of_lt hn)

/-- A pass goes on, or it returns, with either kind of counter. -/
theorem readLoop_pass (tag : String) (c : CounterType) (hsize : size < 2 ^ 63) (hbuf : r.buf.length = size)
    (hn : r.n < size) (hbs : bs.length ≤ r.asks) :
    (∃ r' : Record, (readLoop tag c size).pass ⟨r.buf, r.n⟩ (.ok bs) = .inl ⟨r'.buf, r'.n⟩ ∧
      r.pass tag (.ok bs) = .going r' ∧ r'.buf.length = size ∧ r'.n < size) ∨
    ∃ buf, (readLoop tag c size).pass ⟨r.buf, r.n⟩ (.ok bs) = .inr (.ok buf) ∧ r.pass tag (.ok bs) = .returned buf := by
  rw [Record.asks, hbuf] at hbs
  have hlen : (splice r.buf r.n bs).length = size := (length_splice (by omega)).trans hbuf
  have hle : r.n + bs.length ≤ size := by omega
  have hpass : (readLoop tag c size).pass ⟨r.buf, r.n⟩ (.ok bs) = if r.n + bs.length ≠ size then
      .inl ⟨splice r.buf r.n bs, (r.n + bs.length : Nat)⟩ else .inr (.ok (splice r.buf r.n bs)) :=
    pass_natCast hsize hle
  rw [hpass, Record.pass]
  dsimp only
  rw [hlen]
  by_cases hsum : r.n + bs.length ≠ size
  · left
    rw [if_pos hsum, if_pos hsum]
    exact ⟨⟨splice r.buf r.n bs, r.n + bs.length⟩, rfl, rfl, hlen, by dsimp only; omega⟩
  · right
    rw [if_neg hsum, if_neg hsum]
    exact ⟨_, rfl, rfl⟩

/-- When no read stores more than it was asked for, a loop does what it would do with natural numbers. -/
theorem readLoop_record (hsize : size < 2 ^ 63) (as : List Answer) (hbuf : r.buf.length = size) (hn : r.n < size)
    (has : ∀ p ∈ (Feed.run (readLoop tag c size).pass ⟨r.buf, r.n⟩ as).1, ∀ bs, p.2 = .ok bs →
      bs.length ≤ (readLoop tag c size).asks p.1) :
    (Feed.run (readLoop tag c size).pass ⟨r.buf, r.n⟩ as).1.map (fun p => ((readLoop tag c size).asks p.1, p.2)) =
      (r.loop tag as).1 ∧
    outcome (Feed.run (readLoop tag c size).pass ⟨r.buf, r.n⟩ as).2 = (r.loop tag as).2 := by
  induction as generalizing r with
  | nil => exact ⟨rfl, rfl⟩
  | cons a as ih =>
    have hasks : (readLoop tag c size).asks ⟨r.buf, r.n⟩ = r.asks := readLoop_asks hsize hbuf hn
    rw [Feed.run] at has ⊢
    cases a with
    | error e => exact ⟨congrArg (fun n => [(n, _)]) hasks, rfl⟩
    | ok bs =>
      have hbs : bs.length ≤ r.asks := by
        rw [← hasks]
        refine has ⟨⟨r.buf, r.n⟩, .ok bs⟩ ?_ bs rfl
        split <;> simp
      rw [Record.loop]
      rcases readLoop_pass tag c hsize hbuf hn hbs with ⟨r', hp, hr, hbuf', hn'⟩ | ⟨buf, hp, hr⟩
      · rw [hp] at has ⊢
        rw [hr]
        obtain ⟨hcalls, hout⟩ := ih hbuf' hn' fun p hp => has p (List.mem_cons_of_mem _ hp)
        exact ⟨List.cons_eq_cons.2 ⟨Prod.ext hasks rfl, hcalls⟩, hout⟩
      · rw [hp]
        rw [hr]
        exact ⟨congrArg (fun n => [(n, _)]) hasks, rfl⟩

end ReadLoop

end Fdcpp.Records
