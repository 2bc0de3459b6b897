/-
What each function of `buffered_socket` does, for every answer of the kernel: the representation
invariant, the unread input and the pending output as byte strings, and one specification for
each function in these terms. Callers use the specifications and never unfold a function.
-/
import Fdcpp.Buffered.Socket

namespace Fdcpp.Buffered

open Bytes

/-! ## What the system calls transferred -/

abbrev Event : Type := Ev Call Answer

/-- The bytes that a call handed to the kernel. -/
def Event.sent : Event → List UInt8
  | ⟨.send buffer, r⟩ => match (r : Except Errno (SendCount buffer)) with
    | .ok n => buffer.take n.1
    | .error _ => []
  | ⟨.recv _ _, _⟩ => []

/-- The bytes that a call took from the kernel. -/
def Event.taken : Event → List UInt8
  | ⟨.send _, _⟩ => []
  | ⟨.recv size _, r⟩ => match (r : Except Errno (Received size)) with
    | .ok bs => bs.1
    | .error _ => []

def sent (evs : List Event) : List UInt8 := evs.flatMap Event.sent

def taken (evs : List Event) : List UInt8 := evs.flatMap Event.taken

@[simp] theorem Event.sent_ok (buffer : List UInt8) (n : SendCount buffer) :
    Event.sent ⟨.send buffer, (.ok n : Except Errno _)⟩ = buffer.take n.1 := rfl
@[simp] theorem Event.sent_error (buffer : List UInt8) (e : Errno) :
    Event.sent ⟨.send buffer, (.error e : Except Errno (SendCount buffer))⟩ = [] := rfl
@[simp] theorem Event.sent_recv (size : Nat) (flags : Flags) (r : Answer (.recv size flags)) :
    Event.sent ⟨.recv size flags, r⟩ = [] := rfl
@[simp] theorem Event.taken_send (buffer : List UInt8) (r : Answer (.send buffer)) :
    Event.taken ⟨.send buffer, r⟩ = [] := rfl
@[simp] theorem Event.taken_ok (size : Nat) (flags : Flags) (bs : Received size) :
    Event.taken ⟨.recv size flags, (.ok bs : Except Errno _)⟩ = bs.1 := rfl
@[simp] theorem Event.taken_error (size : Nat) (flags : Flags) (e : Errno) :
    Event.taken ⟨.recv size flags, (.error e : Except Errno (Received size))⟩ = [] := rfl

@[simp] theorem sent_nil : sent [] = [] := rfl
@[simp] theorem taken_nil : taken [] = [] := rfl
@[simp] theorem sent_cons (e : Event) (evs : List Event) : sent (e :: evs) = e.sent ++ sent evs := rfl
@[simp] theorem taken_cons (e : Event) (evs : List Event) : taken (e :: evs) = e.taken ++ taken evs := rfl
@[simp] theorem sent_append (a b : List Event) : sent (a ++ b) = sent a ++ sent b := List.flatMap_append
@[simp] theorem taken_append (a b : List Event) : taken (a ++ b) = taken a ++ taken b := List.flatMap_append

/-- The exception that the call makes the library throw: a `recv` that finds nothing is none. -/
def Event.thrown : Event → Option SystemError
  | ⟨.send buffer, r⟩ => match (r : Except Errno (SendCount buffer)) with
    | .ok _ => none
    | .error e => some (throwSystemError "socket" "send()" e)
  | ⟨.recv size flags, r⟩ => match (r : Except Errno (Received size)) with
    | .ok _ => none
    | .error e => if flags = .dontwait ∧ (e = EAGAIN ∨ e = EWOULDBLOCK) then none
        else some (throwSystemError "socket" "recv()" e)

/-- The exception is the one that a failed call among `evs` makes the library throw. -/
def Thrown (evs : List Event) (e : Exc) : Prop := ∃ ev ∈ evs, ∃ e', ev.thrown = some e' ∧ e = .system e'

theorem thrown_send (buffer : List UInt8) (e : Errno) :
    Thrown [⟨.send buffer, (.error e : Except Errno (SendCount buffer))⟩]
      (.system (throwSystemError "socket" "send()" e)) :=
  ⟨_, List.mem_singleton_self _, _, rfl, rfl⟩

theorem thrown_recv (size : Nat) {flags : Flags} {e : Errno}
    (h : ¬ (flags = .dontwait ∧ (e = EAGAIN ∨ e = EWOULDBLOCK))) :
    Thrown [⟨.recv size flags, (.error e : Except Errno (Received size))⟩]
      (.system (throwSystemError "socket" "recv()" e)) :=
  ⟨_, List.mem_singleton_self _, _, if_neg h, rfl⟩

theorem Thrown.append_left {evs : List Event} {e : Exc} (h : Thrown evs e) (evs' : List Event) :
    Thrown (evs' ++ evs) e := by
  obtain ⟨ev, hm, h⟩ := h
  exact ⟨ev, List.mem_append_right _ hm, h⟩

theorem Thrown.ne_fault {evs : List Event} {e : Exc} (h : Thrown evs e) : e ≠ .fault := by
  obtain ⟨_, _, _, _, rfl⟩ := h
  rintro ⟨⟩

/-- Where no call fails nothing is thrown. -/
theorem not_thrown {L : (q : Call) → Answer q → Prop} {evs : List Event} {e : Exc}
    (hl : Prog.Legal L evs) (hL : ∀ q r, L q r → Event.thrown ⟨q, r⟩ = none) : ¬ Thrown evs e := by
  rintro ⟨ev, hm, e', he, -⟩
  rw [hL _ _ (hl ev hm)] at he
  cases he

/-! ## The invariant and the two byte strings -/

/-- The input received and not yet read: `_buffer_in[_in_rd .. _in_size)`. -/
def BufferedSocket.unread (s : BufferedSocket) : List UInt8 :=
  slice s.bufferIn.bytes s.inRd (s.inSize - s.inRd)

/-- The output written and not yet sent: `_buffer_out[0 .. _out_size)`. -/
def BufferedSocket.pending (s : BufferedSocket) : List UInt8 :=
  slice s.bufferIn.bytes s.bufferOut s.outSize

/-- The range lies in the half that its pointer points into. -/
def Access.Inside (a : Access) (s : BufferedSocket) : Prop :=
  a.off + a.len ≤ match a.half with
    | .input => s.inCapacity
    | .output => s.outCapacity

/-- The representation invariant. -/
structure Inv (s : BufferedSocket) : Prop where
  rd : s.inRd ≤ s.inSize
  size : s.inSize ≤ s.inCapacity
  out : s.outSize ≤ s.outCapacity
  base : s.bufferOut = s.inCapacity
  length : s.bufferIn.bytes.length = s.inCapacity + s.outCapacity
  log : ∀ a ∈ s.bufferIn.log, a.Inside s

/-- The capacities, which no operation changes. -/
structure SameCaps (s s' : BufferedSocket) : Prop where
  inCapacity : s'.inCapacity = s.inCapacity
  outCapacity : s'.outCapacity = s.outCapacity

theorem SameCaps.refl (s : BufferedSocket) : SameCaps s s := ⟨rfl, rfl⟩

theorem SameCaps.trans {a b c : BufferedSocket} (h : SameCaps a b) (h' : SameCaps b c) : SameCaps a c :=
  ⟨h'.inCapacity.trans h.inCapacity, h'.outCapacity.trans h.outCapacity⟩

/-- What an input operation leaves as it is: the output half. -/
structure OutputKept (s s' : BufferedSocket) (evs : List Event) : Prop extends SameCaps s s' where
  outSize : s'.outSize = s.outSize
  pending : s'.pending = s.pending
  sent : sent evs = []

/-- What an output operation leaves as it is: the input half. -/
structure InputKept (s s' : BufferedSocket) (evs : List Event) : Prop extends SameCaps s s' where
  inRd : s'.inRd = s.inRd
  inSize : s'.inSize = s.inSize
  unread : s'.unread = s.unread
  taken : taken evs = []

theorem OutputKept.refl (s : BufferedSocket) : OutputKept s s [] := ⟨.refl s, rfl, rfl, rfl⟩

theorem OutputKept.trans {a b c : BufferedSocket} {evs evs' : List Event} (h : OutputKept a b evs)
    (h' : OutputKept b c evs') : OutputKept a c (evs ++ evs') :=
  ⟨h.toSameCaps.trans h'.toSameCaps, h'.outSize.trans h.outSize, h'.pending.trans h.pending,
    by rw [sent_append, h.sent, h'.sent]; rfl⟩

section Views

variable {s : BufferedSocket}

theorem Inv.length_unread (h : Inv s) : s.unread.length = s.inSize - s.inRd := by
  have := h.rd; have := h.size; have := h.length
  exact length_slice (by omega)

/-- The first `n` unread bytes, and what is unread after them. -/
theorem unread_split {n : Nat} (hn : s.inRd + n ≤ s.inSize) :
    s.unread = slice s.bufferIn.bytes s.inRd n ++ slice s.bufferIn.bytes (s.inRd + n) (s.inSize - (s.inRd + n)) := by
  unfold BufferedSocket.unread
  rw [← slice_add]
  congr 1; omega

/-- A fresh object whose array has room for both buffers satisfies the invariant, whatever the array
holds. -/
theorem make_inv (i o : Nat) (junk : {bytes : List UInt8 // bytes.length = i + o}) :
    Inv (BufferedSocket.make i o junk.1) :=
  ⟨Nat.le_refl 0, Nat.zero_le i, Nat.zero_le o, rfl, junk.2, by intro a ha; cases ha⟩

@[simp] theorem make_unread (i o : Nat) (array : List UInt8) : (BufferedSocket.make i o array).unread = [] := slice_zero

@[simp] theorem make_pending (i o : Nat) (array : List UInt8) : (BufferedSocket.make i o array).pending = [] := slice_zero

end Views

/-! ## Memory and system calls -/

section Spec

variable {L : (q : Call) → Answer q → Prop} {s : BufferedSocket}

/-- The object after an access has been recorded. -/
def BufferedSocket.touched (s : BufferedSocket) (a : Access) : BufferedSocket :=
  { s with bufferIn.log := a :: s.bufferIn.log }

@[simp] theorem touched_unread (a : Access) : (s.touched a).unread = s.unread := rfl

theorem OutputKept.of_touched {a : Access} {s' : BufferedSocket} {evs : List Event}
    (h : OutputKept (s.touched a) s' evs) : OutputKept s s' evs :=
  ⟨⟨h.inCapacity, h.outCapacity⟩, h.outSize, h.pending, h.sent⟩

theorem Inv.touched (h : Inv s) {a : Access} (ha : a.Inside s) : Inv (s.touched a) :=
  ⟨h.rd, h.size, h.out, h.base, h.length, fun b hb => (List.mem_cons.1 hb).elim (fun e => e ▸ ha) (h.log b)⟩

/-- An access inside its half is no fault. -/
theorem touch_spec {h : Half} {off len : Nat} (hi : Inv s) (ha : (⟨h, off, len⟩ : Access).Inside s)
    {Post : List Event → Except Exc Unit → BufferedSocket → Prop}
    (hP : Inv (s.touched ⟨h, off, len⟩) → Post [] (.ok ()) (s.touched ⟨h, off, len⟩)) :
    Eff.Sat L (touch h off len) s Post := by
  have hlen := hi.length
  have hbase := hi.base
  have hin : s.base h + off + len ≤ s.bufferIn.bytes.length := by
    cases h <;> simp only [Access.Inside] at ha <;> simp only [BufferedSocket.base] <;> omega
  unfold touch
  simp only [Eff.sat_bind, Eff.sat_get, Eff.sat_set, List.nil_append]
  rw [if_pos hin]
  exact hP (hi.touched ha)

theorem load_spec {h : Half} {off len : Nat} (hi : Inv s) (ha : (⟨h, off, len⟩ : Access).Inside s)
    {Post : List Event → Except Exc (List UInt8) → BufferedSocket → Prop}
    (hP : Inv (s.touched ⟨h, off, len⟩) →
      Post [] (.ok (slice s.bufferIn.bytes (s.base h + off) len)) (s.touched ⟨h, off, len⟩)) :
    Eff.Sat L (load h off len) s Post := by
  unfold load
  rw [Eff.sat_bind]
  refine touch_spec hi ha fun hi' => ?_
  simp only [Eff.sat_bind, Eff.sat_get, Eff.sat_pure, List.nil_append]
  exact hP hi'

theorem store_spec {h : Half} {off : Nat} {bs : List UInt8} (hi : Inv s)
    (ha : (⟨h, off, bs.length⟩ : Access).Inside s)
    {Post : List Event → Except Exc Unit → BufferedSocket → Prop}
    (hP : Inv (s.touched ⟨h, off, bs.length⟩) →
      Post [] (.ok ()) { s.touched ⟨h, off, bs.length⟩ with
        bufferIn.bytes := splice s.bufferIn.bytes (s.base h + off) bs }) :
    Eff.Sat L (store h off bs) s Post := by
  unfold store
  rw [Eff.sat_bind]
  exact touch_spec hi ha fun hi' => hP hi'

theorem socketSend_spec {buffer : List UInt8}
    {Post : List Event → Except Exc (SendCount buffer) → BufferedSocket → Prop}
    (hok : ∀ n : SendCount buffer, Post [⟨.send buffer, (.ok n : Except Errno _)⟩] (.ok n) s)
    (herr : ∀ e, Post [⟨.send buffer, (.error e : Except Errno (SendCount buffer))⟩]
      (.error (.system (throwSystemError "socket" "send()" e))) s) :
    Eff.Sat L (socketSend buffer) s Post := by
  unfold socketSend
  rw [Eff.sat_bind, Eff.sat_call]
  rintro (e | n) -
  · exact herr e
  · exact hok n

theorem socketRecv_spec {size : Nat} {flags : Flags}
    {Post : List Event → Except Exc (Received size) → BufferedSocket → Prop}
    (hok : ∀ bs : Received size, L (.recv size flags) (.ok bs : Except Errno _) →
      Post [⟨.recv size flags, (.ok bs : Except Errno _)⟩] (.ok bs) s)
    (herr : ∀ e, L (.recv size flags) (.error e : Except Errno (Received size)) →
      Post [⟨.recv size flags, (.error e : Except Errno (Received size))⟩]
      (.error (.system (throwSystemError "socket" "recv()" e))) s) :
    Eff.Sat L (socketRecv size flags) s Post := by
  unfold socketRecv
  rw [Eff.sat_bind, Eff.sat_call]
  rintro (e | bs) hr
  · exact herr e hr
  · exact hok bs hr

/-! ## The output functions -/

/-- `send_all` touches nothing: it sends all its bytes, or a prefix of them and throws. -/
theorem sendAll_spec (buffer : List UInt8) : Eff.Sat L (sendAll buffer) s fun evs r s' =>
    s' = s ∧ taken evs = [] ∧ match r with
      | .ok _ => sent evs = buffer
      | .error e => sent evs <+: buffer ∧ Thrown evs e := by
  induction hlen : buffer.length using Nat.strong_induction_on generalizing buffer with
  | _ len ih =>
    subst hlen
    rw [sendAll, Eff.sat_bind]
    refine socketSend_spec (fun n => ?_) fun e => ⟨rfl, rfl, List.nil_prefix, thrown_send _ e⟩
    dsimp only
    by_cases hn : n.1 = buffer.length
    · rw [if_pos hn]
      refine ⟨rfl, rfl, ?_⟩
      simp [hn]
    · -- a part was sent, and the rest is shorter
      rw [if_neg hn]
      have hle := n.2.1
      have hne : buffer ≠ [] := by rintro rfl; simp at hle; simp_all
      have hpos := n.2.2 hne
      refine (ih _ (by simp only [List.length_drop]; omega) (buffer.drop n.1) rfl).mono ?_
      rintro evs (e | u) s' - ⟨rfl, ht, hs⟩
      · refine ⟨rfl, by simpa using ht, ?_, hs.2.append_left [_]⟩
        have h := (List.prefix_append_right_inj (buffer.take n.1)).2 hs.1
        rw [List.take_append_drop] at h
        simpa using h
      · refine ⟨rfl, by simpa using ht, ?_⟩
        simp [hs]

/-! ## The input functions -/

/-- The object after `bs` has been received behind the unread input. -/
def BufferedSocket.received (s : BufferedSocket) (bs : List UInt8) : BufferedSocket :=
  { s with bufferIn.bytes := splice s.bufferIn.bytes s.inSize bs, inSize := s.inSize + bs.length }

theorem Inv.received {bs : List UInt8} (h : Inv s) (hb : s.inSize + bs.length ≤ s.inCapacity) :
    Inv (s.received bs) := by
  have hlen := h.length
  refine ⟨?_, hb, h.out, h.base, ?_, h.log⟩
  · exact h.rd.trans (Nat.le_add_right _ _)
  · show (splice _ _ _).length = _
    rw [length_splice (by omega), hlen]; rfl

theorem unread_received {bs : List UInt8} (h : Inv s) (hb : s.inSize + bs.length ≤ s.inCapacity) :
    (s.received bs).unread = s.unread ++ bs := by
  have hlen := h.length
  have hrd := h.rd
  show slice (splice s.bufferIn.bytes s.inSize bs) s.inRd (s.inSize + bs.length - s.inRd) = _
  rw [show s.inSize + bs.length - s.inRd = (s.inSize - s.inRd) + bs.length by omega, slice_add,
    slice_splice_before (by omega) (by omega), show s.inRd + (s.inSize - s.inRd) = s.inSize by omega,
    slice_splice_self (by omega)]
  rfl

theorem pending_received {bs : List UInt8} (h : Inv s) (hb : s.inSize + bs.length ≤ s.inCapacity) :
    (s.received bs).pending = s.pending := by
  have hlen := h.length
  have hbase := h.base
  exact slice_splice_after (by omega) (by show _ ≤ s.bufferOut; omega)

/-- What the `recv_if_possible` at the start of a call received, out of all the calls it made. -/
def firstRecv (s : BufferedSocket) (evs : List Event) : List UInt8 :=
  if s.inSize < s.inCapacity then taken (evs.take 1) else []

/-- The `recv_if_possible` at the start of a call throws: the first of the calls made is its `recv`, and
that fails. -/
def FirstThrows (s : BufferedSocket) (evs : List Event) : Prop :=
  s.inSize < s.inCapacity ∧ ∃ ev ∈ evs.take 1, ev.thrown ≠ none

instance (s : BufferedSocket) (evs : List Event) : Decidable (FirstThrows s evs) :=
  inferInstanceAs (Decidable (s.inSize < s.inCapacity ∧ ∃ ev ∈ evs.take 1, ev.thrown ≠ none))

/-- `recv_if_possible` appends what it receives to the unread input; it throws only the errors
that do not mean "nothing there". -/
theorem recvIfPossible_spec (hi : Inv s) : Eff.Sat L recvIfPossible s fun evs r s' =>
    Inv s' ∧ OutputKept s s' evs ∧ s'.unread = s.unread ++ taken evs ∧
      (∀ evs', firstRecv s (evs ++ evs') = taken evs) ∧
      match r with
      | .ok _ => ∀ evs', ¬ FirstThrows s (evs ++ evs')
      | .error e => Thrown evs e := by
  unfold recvIfPossible
  simp only [Eff.sat_bind, Eff.sat_get, List.nil_append]
  split
  · -- no room, and no call
    rename_i hge
    exact ⟨hi, .refl s, (List.append_nil _).symm, fun _ => if_neg (by omega), fun _ ht => absurd ht.1 (by omega)⟩
  · rename_i hlt
    have hlt' : s.inSize < s.inCapacity := by omega
    have hle : s.inSize ≤ s.inCapacity := hi.size
    rw [szSub_of_le hle, Eff.sat_tryCatch, Eff.sat_bind]
    have ha : (⟨.input, s.inSize, s.inCapacity - s.inSize⟩ : Access).Inside s := by
      simp only [Access.Inside]; omega
    refine touch_spec hi ha fun hi' => ?_
    simp only [List.nil_append]
    rw [Eff.sat_bind]
    refine socketRecv_spec (fun bs _ => ?_) fun e _ => ?_
    · have hb : s.inSize + bs.1.length ≤ s.inCapacity := by have := bs.2; omega
      refine ⟨hi'.received hb, ⟨⟨rfl, rfl⟩, rfl, pending_received hi' hb, rfl⟩, ?_,
        fun _ => by simp [firstRecv, hlt'], fun _ => by simp [FirstThrows, Event.thrown]⟩
      refine (unread_received hi' hb).trans ?_
      simp
    · have hout : OutputKept s (s.touched ⟨.input, s.inSize, s.inCapacity - s.inSize⟩)
          [⟨.recv (s.inCapacity - s.inSize) .dontwait, (.error e : Except Errno (Received _))⟩] :=
        ⟨⟨rfl, rfl⟩, rfl, rfl, rfl⟩
      dsimp only
      split
      · rename_i hne
        refine ⟨hi', hout, (List.append_nil _).symm, fun _ => by simp [firstRecv, hlt'], thrown_recv _ ?_⟩
        rintro ⟨-, h | h⟩
        · exact hne.1 h
        · exact hne.2 h
      · rename_i hno
        have hnone : e = EAGAIN ∨ e = EWOULDBLOCK := by
          by_contra hne
          exact hno (not_or.1 hne)
        exact ⟨hi', hout, (List.append_nil _).symm, fun _ => by simp [firstRecv, hlt'],
          fun _ => by simp [FirstThrows, Event.thrown, hnone]⟩

/-- The calls of `recv_if_possible`: one, and none when the buffer is full. -/
structure RecvCalls (s : BufferedSocket) (evs : List Event) (s' : BufferedSocket) : Prop where
  inSize : s.inSize ≤ s'.inSize
  full : s.inCapacity ≤ s.inSize → evs = []
  room : s.inSize < s.inCapacity →
    ∃ size, ∃ r : Answer (.recv size .dontwait), evs = [⟨.recv size .dontwait, r⟩]

theorem recvIfPossible_calls (hi : Inv s) : Eff.Sat L recvIfPossible s fun evs _ s' => RecvCalls s evs s' := by
  unfold recvIfPossible
  simp only [Eff.sat_bind, Eff.sat_get, List.nil_append]
  split
  · rename_i hge
    exact ⟨Nat.le_refl _, fun _ => rfl, fun hlt => absurd hlt (by omega)⟩
  · rename_i hlt
    rw [szSub_of_le hi.size, Eff.sat_tryCatch, Eff.sat_bind]
    refine touch_spec hi (by simp only [Access.Inside]; omega) fun _ => ?_
    rw [Eff.sat_bind]
    refine socketRecv_spec (fun bs _ => ?_) fun e _ => ?_
    · exact ⟨Nat.le_add_right _ _, fun h => absurd h (by omega), fun _ => ⟨_, _, rfl⟩⟩
    · dsimp only
      split
      · exact ⟨Nat.le_refl _, fun h => absurd h (by omega), fun _ => ⟨_, _, rfl⟩⟩
      · exact ⟨Nat.le_refl _, fun h => absurd h (by omega), fun _ => ⟨_, _, rfl⟩⟩

/-- A blocking `recv` returned fewer bytes than it was asked for. -/
def ShortWait (evs : List Event) : Prop :=
  ∃ size, ∃ bs : Received size, (⟨.recv size .waitall, (.ok bs : Except Errno _)⟩ : Event) ∈ evs ∧ bs.1.length < size

/-- What `read_input_buffer` does with the caller's bytes `buffer`: it takes the next bytes of the
input, or the blocking `recv` was short and the caller's bytes end with their old contents, or it
throws and the input is as it was. -/
structure ReadPost (buffer : List UInt8) (s : BufferedSocket) (evs : List Event)
    (r : Except Exc (List UInt8)) (s' : BufferedSocket) : Prop where
  inv : Inv s'
  kept : OutputKept s s' evs
  ok : ∀ bs, r = .ok bs → bs.length = buffer.length ∧
    (s.unread ++ taken evs = bs ++ s'.unread ∨
      ShortWait evs ∧ s'.unread = [] ∧ bs = splice buffer 0 (s.unread ++ taken evs))
  error : ∀ e, r = .error e → s.unread ++ taken evs = s'.unread ∧ Thrown evs e

theorem ReadPost.of_ok {buffer bs : List UInt8} {s s' : BufferedSocket} {evs : List Event} (hi : Inv s')
    (hk : OutputKept s s' evs) (hlen : bs.length = buffer.length)
    (h : s.unread ++ taken evs = bs ++ s'.unread ∨
      ShortWait evs ∧ s'.unread = [] ∧ bs = splice buffer 0 (s.unread ++ taken evs)) :
    ReadPost buffer s evs (.ok bs) s' :=
  ⟨hi, hk, by rintro _ ⟨⟩; exact ⟨hlen, h⟩, by rintro _ ⟨⟩⟩

theorem ReadPost.of_error {buffer : List UInt8} {s s' : BufferedSocket} {evs : List Event} {e : Exc}
    (hi : Inv s') (hk : OutputKept s s' evs) (h : s.unread ++ taken evs = s'.unread) (he : Thrown evs e) :
    ReadPost buffer s evs (.error e) s' :=
  ⟨hi, hk, by rintro _ ⟨⟩, by rintro _ ⟨⟩; exact ⟨h, he⟩⟩

/-- Input received before a read belongs to what it reads. -/
theorem ReadPost.received {buffer : List UInt8} {s s₁ s' : BufferedSocket} {evs evs' : List Event}
    {r : Except Exc (List UInt8)} (hk : OutputKept s s₁ evs) (hu : s₁.unread = s.unread ++ taken evs)
    (h : ReadPost buffer s₁ evs' r s') : ReadPost buffer s (evs ++ evs') r s' := by
  have ha : s.unread ++ taken (evs ++ evs') = s₁.unread ++ taken evs' := by
    rw [hu, taken_append, List.append_assoc]
  refine ⟨h.inv, hk.trans h.kept, fun bs hr => ?_, fun e hr => ?_⟩
  · rcases h.ok bs hr with ⟨hlen, h₁ | ⟨⟨size, bs', hm, hlt⟩, h₂, h₃⟩⟩
    · exact ⟨hlen, .inl (ha.trans h₁)⟩
    · exact ⟨hlen, .inr ⟨⟨size, bs', List.mem_append_right _ hm, hlt⟩, h₂, by rw [ha, h₃]⟩⟩
  · obtain ⟨h₁, h₂⟩ := h.error e hr
    exact ⟨ha.trans h₁, h₂.append_left evs⟩

/-- The object after everything unread has been taken. -/
def BufferedSocket.drained (s : BufferedSocket) : BufferedSocket := { s with inRd := 0, inSize := 0 }

theorem Inv.drained (h : Inv s) : Inv s.drained :=
  ⟨Nat.le_refl 0, Nat.zero_le _, h.out, h.base, h.length, h.log⟩

@[simp] theorem drained_unread : s.drained.unread = [] := slice_zero

/-- The object after `n` unread bytes have been taken. -/
def BufferedSocket.advanced (s : BufferedSocket) (n : Nat) : BufferedSocket := { s with inRd := s.inRd + n }

theorem Inv.advanced {n : Nat} (h : Inv s) (hn : s.inRd + n ≤ s.inSize) : Inv (s.advanced n) :=
  ⟨hn, h.size, h.out, h.base, h.length, h.log⟩

theorem unread_advanced {n : Nat} (hn : s.inRd + n ≤ s.inSize) :
    s.unread = slice s.bufferIn.bytes s.inRd n ++ (s.advanced n).unread := unread_split hn

/-- What `recv_if_possible` has done at the start of a read. -/
structure FirstPart (s : BufferedSocket) (evs : List Event) (r : Except Exc Unit) (s₁ : BufferedSocket) : Prop where
  inv : Inv s₁
  kept : OutputKept s s₁ evs
  unread : s₁.unread = s.unread ++ taken evs
  calls : RecvCalls s evs s₁
  error : ∀ e, r = .error e → Thrown evs e

/-- What a read does after its `recv_if_possible`: it takes its bytes from the buffer, or all that is
buffered, and then it waits for the bytes that are missing, if any are. -/
inductive ReadRest (buffer : List UInt8) (s : BufferedSocket) :
    List Event → Except Exc (List UInt8) → BufferedSocket → Prop
  | buffered {a : Access} (ha : a.Inside s) (hn : s.inRd + buffer.length < s.inSize) :
      ReadRest buffer s [] (.ok (slice s.bufferIn.bytes s.inRd buffer.length)) ((s.touched a).advanced buffer.length)
  | drained {a : Access} (ha : a.Inside s) (hn : s.unread.length = buffer.length) :
      ReadRest buffer s [] (.ok s.unread) (s.touched a).drained
  | waited {a : Access} (ha : a.Inside s) {size : Nat} (hn : s.unread.length + size = buffer.length) (bs : Received size) :
      ReadRest buffer s [⟨.recv size .waitall, (.ok bs : Except Errno _)⟩]
        (.ok (s.unread ++ splice (buffer.drop s.unread.length) 0 bs.1)) (s.touched a).drained
  | failed {a : Access} (ha : a.Inside s) {size : Nat} (hn : s.unread.length + size = buffer.length) (e : Errno) :
      ReadRest buffer s [⟨.recv size .waitall, (.error e : Except Errno (Received size))⟩]
        (.error (.system (throwSystemError "socket" "recv()" e))) (s.touched a)

/-- Every run of `read_input_buffer` is one of these. -/
theorem readInputBuffer_cases (hi : Inv s) (buffer : List UInt8) : Eff.Sat L (readInputBuffer buffer) s fun evs r s' =>
    (∃ evs₁ evs₂ s₁, evs = evs₁ ++ evs₂ ∧ FirstPart s evs₁ (.ok ()) s₁ ∧ ReadRest buffer s₁ evs₂ r s') ∨
    (∃ e, FirstPart s evs (.error e) s' ∧ r = .error e) := by
  unfold readInputBuffer
  refine ((recvIfPossible_spec hi).and (recvIfPossible_calls hi)).bind ?_ ?_
  · rintro evs₁ ⟨⟩ s₁ - ⟨⟨hi₁, hk₁, hu₁, -, -⟩, hcalls⟩
    have hfirst : FirstPart s evs₁ (.ok ()) s₁ := ⟨hi₁, hk₁, hu₁, hcalls, nofun⟩
    have hrd := hi₁.rd
    have hsize := hi₁.size
    have hlen : s₁.unread.length = s₁.inSize - s₁.inRd := hi₁.length_unread
    refine (show Eff.Sat L _ s₁ (ReadRest buffer s₁) from ?_).mono fun evs₂ r s' _ h =>
      .inl ⟨_, _, _, rfl, hfirst, h⟩
    rw [Eff.sat_bind, Eff.sat_get]
    dsimp only [List.nil_append]
    rw [szSub_of_le hrd, ← hlen]
    split
    · -- everything buffered is taken, and the rest is waited for
      rename_i hge
      have hc : s₁.unread.length ≤ buffer.length := by omega
      have ha : (⟨.input, s₁.inRd, s₁.unread.length⟩ : Access).Inside s₁ := by simp only [Access.Inside]; omega
      rw [szSub_of_le hc, Eff.sat_bind]
      refine load_spec hi₁ ha fun _ => ?_
      have hhead : slice s₁.bufferIn.bytes (s₁.base .input + s₁.inRd) s₁.unread.length = s₁.unread := by
        rw [hlen]
        simp [BufferedSocket.base, BufferedSocket.unread]
      rw [hhead]
      dsimp only [List.nil_append]
      rw [if_neg (by omega)]
      split
      · rw [Eff.sat_bind]
        refine socketRecv_spec (fun bs _ => ?_) fun e _ => .failed ha (by omega) e
        exact .waited ha (by omega) bs
      · rename_i hnone
        have hnil : buffer.drop s₁.unread.length = [] := List.drop_eq_nil_of_le (by omega)
        simp only [Eff.sat_pure, Eff.sat_bind, Eff.sat_modify, List.append_nil, hnil, splice_zero, List.drop_nil]
        exact .drained ha (by omega)
    · -- more is buffered than the caller asks for
      rename_i hlt
      have ha : (⟨.input, s₁.inRd, buffer.length⟩ : Access).Inside s₁ := by simp only [Access.Inside]; omega
      rw [Eff.sat_bind]
      refine load_spec hi₁ ha fun _ => ?_
      simp only [Eff.sat_pure, Eff.sat_bind, Eff.sat_modify, List.append_nil, BufferedSocket.base, Nat.zero_add]
      exact .buffered ha (by omega)
  · rintro evs e s' - ⟨⟨hi', hk, hu, -, he⟩, hcalls⟩
    exact .inr ⟨e, ⟨hi', hk, hu, hcalls, by rintro _ ⟨⟩; exact he⟩, rfl⟩

theorem ReadRest.post {buffer : List UInt8} {evs : List Event} {r : Except Exc (List UInt8)} {s' : BufferedSocket}
    (h : ReadRest buffer s evs r s') (hi : Inv s) : ReadPost buffer s evs r s' := by
  have hlen := hi.length
  have hsize := hi.size
  cases h with
  | buffered ha hn =>
    refine ReadPost.of_ok ((hi.touched ha).advanced hn.le) ⟨⟨rfl, rfl⟩, rfl, rfl, rfl⟩ (length_slice (by omega)) (.inl ?_)
    rw [taken_nil, List.append_nil]
    exact unread_advanced hn.le
  | drained ha hn =>
    refine ReadPost.of_ok (hi.touched ha).drained ⟨⟨rfl, rfl⟩, rfl, rfl, rfl⟩ hn (.inl ?_)
    rw [drained_unread, taken_nil]
  | @waited a ha size hn bs =>
    have hbs := bs.2
    refine ReadPost.of_ok (hi.touched ha).drained ⟨⟨rfl, rfl⟩, rfl, rfl, rfl⟩ ?_ ?_
    · simp [splice_zero]; omega
    · by_cases hfull : bs.1.length = size
      · left
        have hd : (buffer.drop s.unread.length).drop bs.1.length = [] :=
          List.drop_eq_nil_of_le (by simp only [List.length_drop]; omega)
        simp [splice_zero, hd]
      · right
        refine ⟨⟨_, bs, by simp, by omega⟩, drained_unread, ?_⟩
        simp [splice_zero]
  | failed ha _ e =>
    exact .of_error (hi.touched ha) ⟨⟨rfl, rfl⟩, rfl, rfl, rfl⟩ (by simp) (thrown_recv _ (by rintro ⟨⟨⟩, -⟩))

/-- `read_input_buffer`, for every answer of the kernel. -/
theorem readInputBuffer_spec (hi : Inv s) (buffer : List UInt8) :
    Eff.Sat L (readInputBuffer buffer) s (ReadPost buffer s) := by
  refine (readInputBuffer_cases hi buffer).mono ?_
  rintro evs r s' - (⟨evs₁, evs₂, s₁, rfl, hfirst, hrest⟩ | ⟨e, hfirst, rfl⟩)
  · exact ReadPost.received hfirst.kept hfirst.unread (hrest.post hfirst.inv)
  · exact .of_error hfirst.inv hfirst.kept hfirst.unread.symm (hfirst.error e rfl)

/-- The object after `bs` has been appended to the pending output. -/
def BufferedSocket.appended (s : BufferedSocket) (bs : List UInt8) : BufferedSocket :=
  { s with bufferIn.bytes := splice s.bufferIn.bytes (s.bufferOut + s.outSize) bs,
           outSize := s.outSize + bs.length }

theorem Inv.appended {bs : List UInt8} (h : Inv s) (hb : s.outSize + bs.length ≤ s.outCapacity) :
    Inv (s.appended bs) := by
  have hlen := h.length
  have hbase := h.base
  refine ⟨h.rd, h.size, hb, h.base, ?_, h.log⟩
  show (splice _ _ _).length = _
  rw [length_splice (by omega), hlen]; rfl

theorem pending_appended {bs : List UInt8} (h : Inv s) (hb : s.outSize + bs.length ≤ s.outCapacity) :
    (s.appended bs).pending = s.pending ++ bs := by
  have hlen := h.length
  have hbase := h.base
  show slice (splice s.bufferIn.bytes (s.bufferOut + s.outSize) bs) s.bufferOut (s.outSize + bs.length) = _
  rw [slice_add, slice_splice_before (by omega) (by omega), slice_splice_self (by omega)]
  rfl

theorem unread_appended {bs : List UInt8} (h : Inv s) (hb : s.outSize + bs.length ≤ s.outCapacity) :
    (s.appended bs).unread = s.unread := by
  have hlen := h.length
  have hbase := h.base
  have hsize := h.size
  have hrd := h.rd
  have hend : s.inRd + (s.inSize - s.inRd) ≤ s.bufferOut + s.outSize := by omega
  exact slice_splice_before (by omega) hend

/-- The object after the pending output has been sent. -/
def BufferedSocket.flushed (s : BufferedSocket) : BufferedSocket := { s with outSize := 0 }

theorem Inv.flushed (h : Inv s) : Inv s.flushed :=
  ⟨h.rd, h.size, Nat.zero_le _, h.base, h.length, h.log⟩

@[simp] theorem flushed_pending : s.flushed.pending = [] := slice_zero

/-- What an output function does: it keeps the input; when it throws, the pending output is as it
was, and a prefix of what it had to send is sent. -/
structure WritePost (Ok : BufferedSocket → List UInt8 → Prop) (owed : List UInt8) (s : BufferedSocket)
    (evs : List Event) (r : Except Exc Unit) (s' : BufferedSocket) : Prop where
  inv : Inv s'
  kept : InputKept s s' evs
  ok : r = .ok () → Ok s' (sent evs)
  error : ∀ e, r = .error e → s'.pending = s.pending ∧ sent evs <+: owed ∧ Thrown evs e

theorem flush_spec (hi : Inv s) : Eff.Sat L flush s
    (WritePost (fun s' out => out = s.pending ∧ s'.pending = []) s.pending s) := by
  unfold flush
  rw [Eff.sat_bind, Eff.sat_get]
  dsimp only
  rw [Eff.sat_bind]
  refine load_spec hi (by simp only [Access.Inside]; have := hi.out; omega) fun hi₁ => ?_
  change Eff.Sat L (sendAll s.pending >>= fun _ => _) _ _
  refine (sendAll_spec _).bind ?_ ?_
  · rintro evs ⟨⟩ s' - ⟨rfl, ht, hs⟩
    simp only [Eff.sat_modify, List.append_nil, List.nil_append]
    exact ⟨hi₁.flushed, ⟨⟨rfl, rfl⟩, rfl, rfl, rfl, ht⟩, fun _ => ⟨hs, flushed_pending⟩, by rintro _ ⟨⟩⟩
  · rintro evs e s' - ⟨rfl, ht, hs, he⟩
    exact ⟨hi₁, ⟨⟨rfl, rfl⟩, rfl, rfl, rfl, ht⟩, by rintro ⟨⟩, by rintro _ ⟨⟩; exact ⟨rfl, hs, he⟩⟩

/-- The last lines of `write_output_buffer`: the value goes behind the pending output. -/
theorem append_spec {bs : List UInt8} (hi : Inv s) (hroom : s.outSize + bs.length ≤ s.outCapacity)
    {Post : List Event → Except Exc Unit → BufferedSocket → Prop}
    (hP : ∀ s', Inv s' → InputKept s s' [] → s'.pending = s.pending ++ bs → Post [] (.ok ()) s') :
    Eff.Sat L (do
      let s ← get
      store .output s.outSize bs
      modify fun s => { s with outSize := s.outSize + bs.length } : SockM Unit) s Post := by
  rw [Eff.sat_bind, Eff.sat_get]
  dsimp only
  rw [Eff.sat_bind]
  refine store_spec hi (by simp only [Access.Inside]; omega) fun hi₁ => ?_
  have hu := unread_appended hi₁ hroom
  have hp := pending_appended hi₁ hroom
  exact hP _ (hi₁.appended hroom) ⟨⟨rfl, rfl⟩, rfl, rfl, hu, rfl⟩ hp

/-- `write_output_buffer`: a value as long as the output capacity goes past the pending output; a
shorter one is appended to it, after sending it if there is no room for both. -/
theorem writeOutputBuffer_spec (hi : Inv s) (buffer : List UInt8) :
    Eff.Sat L (writeOutputBuffer buffer) s
      (WritePost (fun s' out =>
          if s.outCapacity ≤ buffer.length then out = buffer ∧ s'.pending = s.pending
          else (out = [] ∧ s'.pending = s.pending ++ buffer) ∨ (out = s.pending ∧ s'.pending = buffer))
        (if s.outCapacity ≤ buffer.length then buffer else s.pending) s) := by
  unfold writeOutputBuffer
  rw [Eff.sat_bind, Eff.sat_get]
  dsimp only
  split
  · refine (sendAll_spec _).mono ?_
    rintro evs (e | u) s' - ⟨rfl, ht, hs⟩
    · exact ⟨hi, ⟨⟨rfl, rfl⟩, rfl, rfl, rfl, ht⟩, by rintro ⟨⟩, by rintro _ ⟨⟩; exact ⟨rfl, hs⟩⟩
    · exact ⟨hi, ⟨⟨rfl, rfl⟩, rfl, rfl, rfl, ht⟩, fun _ => ⟨hs, rfl⟩, by rintro _ ⟨⟩⟩
  · rename_i hlt
    split
    · -- the pending output is sent to make room
      rw [Eff.sat_bind]
      refine load_spec hi (by simp only [Access.Inside]; have := hi.out; omega) fun hi₁ => ?_
      change Eff.Sat L (sendAll s.pending >>= fun _ => _) _ _
      refine (sendAll_spec _).bind ?_ ?_
      · rintro evs ⟨⟩ s' - ⟨rfl, ht, hs⟩
        rw [Eff.sat_bind, Eff.sat_modify]
        have hroom : 0 + buffer.length ≤ s.outCapacity := by omega
        refine append_spec hi₁.flushed hroom fun s' hi' hk hp => ?_
        have hsent : sent ([] ++ (evs ++ ([] ++ []))) = s.pending := by simpa using hs
        rw [flushed_pending, List.nil_append] at hp
        refine ⟨hi', ⟨⟨hk.inCapacity, hk.outCapacity⟩, hk.inRd, hk.inSize, hk.unread, by simpa using ht⟩,
          fun _ => .inr ⟨hsent, hp⟩, by rintro _ ⟨⟩⟩
      · rintro evs e s' - ⟨rfl, ht, hs, he⟩
        exact ⟨hi₁, ⟨⟨rfl, rfl⟩, rfl, rfl, rfl, ht⟩, by rintro ⟨⟩, by rintro _ ⟨⟩; exact ⟨rfl, hs, he⟩⟩
    · rename_i hroom
      refine append_spec hi (by omega) fun s' hi' hk hp => ?_
      exact ⟨hi', hk, fun _ => .inl ⟨rfl, hp⟩, by rintro _ ⟨⟩⟩

end Spec

end Fdcpp.Buffered
