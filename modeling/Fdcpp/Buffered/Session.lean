/-
Sessions with one `buffered_socket`: the operators a program applies to it, what they write and
read, and the runs of them under every answer of the kernel that a relation `L` allows. A run
records what the socket has sent and taken and which values went through, so that a claim about
all runs is a claim about these records.
-/
import Fdcpp.Buffered.Codec
import Fdcpp.Lib.Run

namespace Fdcpp.Buffered

open Bytes

/-! ## Kernels -/

/-- Every answer is possible. -/
def Any (q : Call) (_ : Answer q) : Prop := True

/-- What is specified under every answer holds of every run. -/
theorem Any.post {α : Type} {m : SockM α} {s s' : BufferedSocket} {evs : List Event} {r : Except Exc α}
    {Post : List Event → Except Exc α → BufferedSocket → Prop} (h : Eff.Sat Any m s Post)
    (hr : (m.prog s).Runs evs (r, s')) : Post evs r s' :=
  Eff.sat_iff_runs.1 h evs r s' hr fun _ _ => trivial

/-- No call fails, but a `recv` may find nothing; a `send` takes any part of its bytes. -/
def Flawless (q : Call) (r : Answer q) : Prop := Event.thrown ⟨q, r⟩ = none

instance (q : Call) (r : Answer q) : Decidable (Flawless q r) :=
  inferInstanceAs (Decidable (Event.thrown ⟨q, r⟩ = none))

/-- A connection that stays up: `MSG_DONTWAIT` gets some bytes or finds nothing, `MSG_WAITALL` gets
all it asks for. -/
def Reliable : (q : Call) → Answer q → Prop
  | .send buffer, r => match (r : Except Errno (SendCount buffer)) with
    | .ok _ => True
    | .error _ => False
  | .recv size .dontwait, r => match (r : Except Errno (Received size)) with
    | .ok bs => bs.1 ≠ []
    | .error e => e = EAGAIN ∨ e = EWOULDBLOCK
  | .recv size .waitall, r => match (r : Except Errno (Received size)) with
    | .ok bs => bs.1.length = size
    | .error _ => False

instance : ∀ q r, Decidable (Reliable q r)
  | .send _, .ok _ => .isTrue trivial
  | .send _, .error _ => .isFalse id
  | .recv _ .dontwait, .ok bs => inferInstanceAs (Decidable (bs.1 ≠ []))
  | .recv _ .dontwait, .error e => inferInstanceAs (Decidable (e = EAGAIN ∨ e = EWOULDBLOCK))
  | .recv size .waitall, .ok bs => inferInstanceAs (Decidable (bs.1.length = size))
  | .recv _ .waitall, .error _ => .isFalse id

theorem exists_flawless : ∀ q, ∃ r, Flawless q r
  | .send buffer => ⟨.ok ⟨buffer.length, Nat.le_refl _, fun h => List.length_pos_iff.2 h⟩, rfl⟩
  | .recv _ _ => ⟨.ok ⟨[], Nat.zero_le _⟩, rfl⟩

theorem exists_reliable : ∀ q, ∃ r, Reliable q r
  | .send buffer => ⟨.ok ⟨buffer.length, Nat.le_refl _, fun h => List.length_pos_iff.2 h⟩, trivial⟩
  | .recv _ .dontwait => ⟨.error EAGAIN, .inl rfl⟩
  | .recv size .waitall => ⟨.ok ⟨List.replicate size 0, (List.length_replicate ..).le⟩, List.length_replicate ..⟩

theorem Reliable.flawless : ∀ q r, Reliable q r → Flawless q r
  | .send _, .ok _, _ => rfl
  | .recv _ .dontwait, .ok _, _ => rfl
  | .recv _ .dontwait, .error _, h => if_pos ⟨rfl, h⟩
  | .recv _ .waitall, .ok _, _ => rfl

theorem Flawless.not_thrown {evs : List Event} {e : Exc} (hl : Prog.Legal Flawless evs) : ¬ Thrown evs e :=
  Buffered.not_thrown hl fun _ _ h => h

theorem Reliable.not_thrown {evs : List Event} {e : Exc} (hl : Prog.Legal Reliable evs) : ¬ Thrown evs e :=
  Flawless.not_thrown (hl.mono Reliable.flawless)

theorem Reliable.not_shortWait {evs : List Event} (hl : Prog.Legal Reliable evs) : ¬ ShortWait evs := by
  rintro ⟨size, bs, hm, hlt⟩
  have hfull : bs.1.length = size := hl _ hm
  omega

/-! ## Values and operators -/

/-- An argument of `operator<<`. -/
inductive Item
  | scalar (x : Scalar)
  | cstr (val : List UInt8)
  | string (val : List UInt8)
  deriving DecidableEq, Repr

/-- What an `operator>>` stores in its argument. -/
inductive Value
  | scalar (x : Scalar)
  | string (val : List UInt8)
  deriving DecidableEq, Repr

namespace Item

/-- The bytes of the value on the wire; a string is followed by a terminator. -/
def encode : Item → List UInt8
  | scalar x => x.encode
  | cstr val => cstring val ++ [0]
  | string val => val ++ [0]

/-- The value as a program sees it. -/
def value : Item → Value
  | scalar x => .scalar x
  | cstr val => .string (cstring val)
  | string val => .string val

def shl : Item → SockM Unit
  | scalar x => x.shl
  | cstr val => shlCstr val
  | string val => shlString val

theorem shl_eq : ∀ i : Item, i.shl = writeOutputBuffer i.encode
  | scalar x => x.shl_eq
  | cstr _ => rfl
  | string _ => rfl

/-- `operator<<` hands `bytes` to `write_output_buffer`. -/
def Writes (i : Item) (bytes : List UInt8) : Prop := i.shl = writeOutputBuffer bytes

theorem encode_ne_nil : ∀ i : Item, i.encode ≠ []
  | scalar x => fun h => by
    have hw := x.width_pos
    have hl := x.length_encode
    rw [encode] at h
    rw [h] at hl
    simp only [List.length_nil] at hl
    omega
  | cstr _ => by simp [encode]
  | string _ => by simp [encode]

end Item

/-- Without an output buffer the bytes go to `send`. -/
theorem exists_send (buffer : List UInt8) :
    ∃ k, (writeOutputBuffer buffer).prog (.make 0 0 []) = .ask (.send buffer) k := by
  unfold writeOutputBuffer
  rw [sendAll]
  exact ⟨_, rfl⟩

theorem writeOutputBuffer_inj {a b : List UInt8} (h : writeOutputBuffer a = writeOutputBuffer b) : a = b := by
  obtain ⟨k, hk⟩ := exists_send a
  obtain ⟨k', hk'⟩ := exists_send b
  rw [h, hk'] at hk
  injection hk with hq
  injection hq with hab
  exact hab.symm

/-- What the values write, one behind the other, is their encodings. -/
theorem flatten_of_writes {vs : List Item} {chunks : List (List UInt8)} (h : List.Forall₂ Item.Writes vs chunks) :
    chunks.flatten = vs.flatMap Item.encode := by
  induction h with
  | nil => rfl
  | @cons i bytes vs chunks hw _ ih =>
    have hbytes : i.encode = bytes := writeOutputBuffer_inj (i.shl_eq.symm.trans hw)
    rw [List.flatten_cons, List.flatMap_cons, hbytes, ih]

/-- An operation of the public interface. A `get` reads into a variable that holds `x`; `c` is what
the `char c` of a string read holds before its loop. -/
inductive Op
  | put (i : Item)
  | flush
  | get (x : Scalar)
  | getString (c : UInt8)
  deriving DecidableEq, Repr

namespace Op

def exec : Op → SockM (Option Value)
  | put i => do i.shl; pure none
  | flush => do Buffered.flush; pure none
  | get x => do let y ← x.shr; pure (some (.scalar y))
  | getString c => do let val ← shrString c; pure (some (.string val))

/-- What the operation writes. -/
def written : Op → List Item
  | put i => [i]
  | _ => []

/-- The operations on the output buffer. -/
def IsOutput : Op → Prop
  | put _ | flush => True
  | _ => False

end Op

/-! ## Runs -/

/-- An operation with the system calls it made and their answers. -/
structure Act where
  op : Op
  evs : List Event

/-- An object and its history. After a `fault` nothing happens any more. -/
structure World where
  obj : BufferedSocket
  sent : List UInt8
  taken : List UInt8
  wrote : List Item
  got : List Value
  fault : Bool

namespace World

/-- A new object, with the contents `junk` of an array that has room for both buffers. -/
def fresh (i o : Nat) (junk : {bytes : List UInt8 // bytes.length = i + o}) : World :=
  ⟨.make i o junk.1, [], [], [], [], false⟩

/-- A new object, with the contents `junk` of the array that `new char[]` makes: the sum of the two
capacities is one of `size_t`. -/
def created (i o : Nat) (junk : {bytes : List UInt8 // bytes.length = szAdd i o}) : World :=
  ⟨.make i o junk.1, [], [], [], [], false⟩

/-- The history after the operation `a` with the result `r`, which left the object `s'`. -/
def after (w : World) (a : Act) (r : Except Exc (Option Value)) (s' : BufferedSocket) : World where
  obj := s'
  sent := w.sent ++ Buffered.sent a.evs
  taken := w.taken ++ Buffered.taken a.evs
  wrote := match r with
    | .ok _ => w.wrote ++ a.op.written
    | .error _ => w.wrote
  got := match r with
    | .ok v => w.got ++ v.toList
    | .error _ => w.got
  fault := match r with
    | .error .fault => true
    | _ => false

/-- The bytes that the values written so far stand for. -/
def owed (w : World) : List UInt8 := w.wrote.flatMap Item.encode

end World

/-- One operation on the object, under a kernel that answers as `L` allows. -/
inductive Step (L : (q : Call) → Answer q → Prop) : World → Act → World → Prop
  | mk {w : World} {a : Act} {r : Except Exc (Option Value)} {s' : BufferedSocket} (hf : w.fault = false)
      (hr : (a.op.exec.prog w.obj).Runs a.evs (r, s')) (hl : Prog.Legal L a.evs) : Step L w a (w.after a r s')

section Rules

variable {L : (q : Call) → Answer q → Prop} {w w' : World} {a : Act}

theorem Step.legal (h : Step L w a w') : Prog.Legal L a.evs := by
  obtain ⟨-, -, hl⟩ := h
  exact hl

/-- A step is a run of its operation. -/
theorem Step.run (h : Step L w a w') :
    ∃ r, w' = w.after a r w'.obj ∧ (a.op.exec.prog w.obj).Runs a.evs (r, w'.obj) := by
  obtain ⟨-, hr, -⟩ := h
  exact ⟨_, rfl, hr⟩

/-- What is specified of an operation holds of a step. -/
theorem Step.spec {Post : List Event → Except Exc (Option Value) → BufferedSocket → Prop} (h : Step L w a w')
    (hs : Eff.Sat L a.op.exec w.obj Post) :
    ∃ r, w' = w.after a r w'.obj ∧ Prog.Legal L a.evs ∧ Post a.evs r w'.obj := by
  obtain ⟨-, hr, hl⟩ := h
  exact ⟨_, rfl, hl, Eff.sat_iff_runs.1 hs _ _ _ hr hl⟩

/-- An operation always comes to an end, if the kernel can always answer. -/
theorem exists_step (hL : ∀ q, ∃ r, L q r) (hf : w.fault = false) (op : Op) :
    ∃ evs w', Step L w ⟨op, evs⟩ w' := by
  obtain ⟨evs, ⟨r, s'⟩, hr, hl⟩ := Prog.exists_runs hL (op.exec.prog w.obj)
  exact ⟨evs, _, .mk hf hr hl⟩

end Rules

/-! ## Playing a session -/

/-- A kernel whose socket holds `input` and whose peer sends nothing more: a blocking `recv` of more
than is left comes back short. -/
def answering (input : List UInt8) (past : List Event) : (q : Call) → Answer q
  | .send buffer => .ok ⟨buffer.length, Nat.le_refl _, fun h => List.length_pos_iff.2 h⟩
  | .recv size .dontwait =>
    let left := input.drop (taken past).length
    if left = [] then .error EAGAIN else .ok ⟨left.take size, List.length_take_le _ _⟩
  | .recv size .waitall => .ok ⟨(input.drop (taken past).length).take size, List.length_take_le _ _⟩

/-- The step of `op` under that kernel. -/
def World.play (w : World) (input : List UInt8) (op : Op) : Act × World :=
  let run := (op.exec.prog w.obj).play (answering input) []
  (⟨op, run.1⟩, w.after ⟨op, run.1⟩ run.2.1 run.2.2)

theorem play_step {L : (q : Call) → Answer q → Prop} {w : World} {input : List UInt8} {op : Op}
    (hf : w.fault = false) (hl : Prog.Legal L (w.play input op).1.evs) :
    Step L w (w.play input op).1 (w.play input op).2 :=
  .mk hf (Prog.play_runs _ _ _) hl

/-- An object whose input buffer is full with the bytes `bs`. -/
def BufferedSocket.filled (bs : List UInt8) : BufferedSocket :=
  { BufferedSocket.make bs.length 0 bs with inSize := bs.length }

theorem filled_inv (bs : List UInt8) : Inv (.filled bs) :=
  ⟨Nat.zero_le _, Nat.le_refl _, Nat.le_refl _, rfl, rfl, by intro a ha; cases ha⟩

/-- What a scripted kernel answers to one call. -/
inductive Reply
  | fails (e : Errno)
  | accepts (n : Nat)
  | gives (bs : List UInt8)
  deriving DecidableEq, Repr

/-- A kernel that goes by a script; after its end there is nothing to read, and no call succeeds. -/
def scripted (script : List Reply) (past : List Event) : (q : Call) → Answer q
  | .send buffer => match script[past.length]? with
    | some (.fails e) => .error e
    | some (.accepts n) => .ok ⟨min (max n 1) buffer.length, Nat.min_le_right _ _, fun h => by
        have := List.length_pos_iff.2 h
        omega⟩
    | _ => .error EAGAIN
  | .recv size _ => match script[past.length]? with
    | some (.fails e) => .error e
    | some (.gives bs) => .ok ⟨bs.take size, List.length_take_le _ _⟩
    | _ => .error EAGAIN

/-- The run of `op` under a scripted kernel. -/
def BufferedSocket.perform (s : BufferedSocket) (script : List Reply) (op : Op) :
    List Event × Except Exc (Option Value) × BufferedSocket :=
  (op.exec.prog s).play (scripted script) []

theorem perform_runs (s : BufferedSocket) (script : List Reply) (op : Op) {r : Except Exc (Option Value)}
    (h : (s.perform script op).2.1 = r) :
    (op.exec.prog s).Runs (s.perform script op).1 (r, (s.perform script op).2.2) := by
  subst h
  exact Prog.play_runs _ _ _

/-- The step of `op` under a scripted kernel. -/
def World.perform (w : World) (script : List Reply) (op : Op) : Act × World :=
  let run := w.obj.perform script op
  (⟨op, run.1⟩, w.after ⟨op, run.1⟩ run.2.1 run.2.2)

theorem perform_step {L : (q : Call) → Answer q → Prop} {w : World} {script : List Reply} {op : Op}
    (hf : w.fault = false) (hl : Prog.Legal L (w.perform script op).1.evs) :
    Step L w (w.perform script op).1 (w.perform script op).2 :=
  .mk hf (Prog.play_runs _ _ _) hl

/-! ## What each operation does -/

section Ops

variable {L : (q : Call) → Answer q → Prop} {s : BufferedSocket}

/-- An operation that only adds its result to what `m` did. -/
theorem sat_map {α : Type} {m : SockM α} {f : α → Option Value}
    {Mid : List Event → Except Exc α → BufferedSocket → Prop}
    {Post : List Event → Except Exc (Option Value) → BufferedSocket → Prop} (h : Eff.Sat L m s Mid)
    (hok : ∀ evs a s', Mid evs (.ok a) s' → Post evs (.ok (f a)) s')
    (herr : ∀ evs e s', Mid evs (.error e) s' → Post evs (.error e) s') :
    Eff.Sat L (m >>= fun a => pure (f a)) s Post := by
  refine h.bind (fun evs a s' _ hm => ?_) fun evs e s' _ hm => herr evs e s' hm
  rw [Eff.sat_pure, List.append_nil]
  exact hok evs a s' hm

/-- What a `put` of the bytes `buffer` does to the output. -/
def PutOk (s : BufferedSocket) (buffer : List UInt8) (s' : BufferedSocket) (out : List UInt8) : Prop :=
  if s.outCapacity ≤ buffer.length then out = buffer ∧ s'.pending = s.pending
  else (out = [] ∧ s'.pending = s.pending ++ buffer) ∨ (out = s.pending ∧ s'.pending = buffer)

/-- `WritePost` for an operation of a session. -/
structure OutPost (Ok : BufferedSocket → List UInt8 → Prop) (owed : List UInt8) (s : BufferedSocket)
    (evs : List Event) (r : Except Exc (Option Value)) (s' : BufferedSocket) : Prop where
  inv : Inv s'
  kept : InputKept s s' evs
  ok : ∀ v, r = .ok v → v = none ∧ Ok s' (sent evs)
  error : ∀ e, r = .error e → s'.pending = s.pending ∧ sent evs <+: owed ∧ Thrown evs e

theorem WritePost.out {Ok : BufferedSocket → List UInt8 → Prop} {owed : List UInt8} {m : SockM Unit}
    (h : Eff.Sat L m s (WritePost Ok owed s)) :
    Eff.Sat L (m >>= fun _ => pure none) s (OutPost Ok owed s) := by
  refine sat_map h ?_ ?_
  · rintro evs ⟨⟩ s' h
    exact ⟨h.inv, h.kept, by rintro _ ⟨⟩; exact ⟨rfl, h.ok rfl⟩, by rintro _ ⟨⟩⟩
  · intro evs e s' h
    exact ⟨h.inv, h.kept, by rintro _ ⟨⟩, by rintro _ ⟨⟩; exact h.error e rfl⟩

theorem put_spec (hi : Inv s) (i : Item) : Eff.Sat L (Op.put i).exec s
    (OutPost (PutOk s i.encode) (if s.outCapacity ≤ i.encode.length then i.encode else s.pending) s) := by
  have h := WritePost.out (writeOutputBuffer_spec (L := L) hi i.encode)
  rwa [← i.shl_eq] at h

theorem flushOp_spec (hi : Inv s) : Eff.Sat L Op.flush.exec s
    (OutPost (fun s' out => out = s.pending ∧ s'.pending = []) s.pending s) :=
  WritePost.out (flush_spec hi)

/-- `ShrPost` for an operation of a session. -/
structure GetPost (x : Scalar) (s : BufferedSocket) (evs : List Event) (r : Except Exc (Option Value))
    (s' : BufferedSocket) : Prop where
  inv : Inv s'
  kept : OutputKept s s' evs
  ok : ∀ v, r = .ok v → ∃ y : Scalar, v = some (.scalar y) ∧ y.ty = x.ty ∧
    (s.unread ++ taken evs = y.encode ++ s'.unread ∨ ShortWait evs ∧ s'.unread = [])
  error : ∀ e, r = .error e → s.unread ++ taken evs = s'.unread ∧ Thrown evs e

theorem get_spec (hi : Inv s) (x : Scalar) : Eff.Sat L (Op.get x).exec s (GetPost x s) := by
  refine sat_map (shr_spec hi x) ?_ ?_
  · intro evs y s' h
    refine ⟨h.inv, h.kept, ?_, by rintro _ ⟨⟩⟩
    rintro _ ⟨⟩
    obtain ⟨hty, hy⟩ := h.ok y rfl
    exact ⟨y, rfl, hty, hy.imp_right fun ⟨h₁, h₂, _⟩ => ⟨h₁, h₂⟩⟩
  · intro evs e s' h
    exact ⟨h.inv, h.kept, by rintro _ ⟨⟩, by rintro _ ⟨⟩; exact h.error e rfl⟩

/-- `StringPost` for an operation of a session. -/
structure GetStringPost (s : BufferedSocket) (evs : List Event) (r : Except Exc (Option Value))
    (s' : BufferedSocket) : Prop where
  inv : Inv s'
  kept : OutputKept s s' evs
  ok : ∀ v, r = .ok v → ∃ str, v = some (.string str) ∧ 0 ∉ str ∧ s.unread ++ taken evs = str ++ 0 :: s'.unread
  error : ∀ e, r = .error e → Thrown evs e

theorem getString_spec (hi : Inv s) (c : UInt8) : Eff.Sat L (Op.getString c).exec s fun evs r s' =>
    InTime s evs → GetStringPost s evs r s' := by
  refine sat_map (shrString_spec hi c) ?_ ?_
  · intro evs str s' h h0
    obtain ⟨hi', hk, hok, -⟩ := h h0
    exact ⟨hi', hk, by rintro _ ⟨⟩; exact ⟨str, rfl, hok str rfl⟩, by rintro _ ⟨⟩⟩
  · intro evs e s' h h0
    obtain ⟨hi', hk, -, herr⟩ := h h0
    exact ⟨hi', hk, by rintro _ ⟨⟩, by rintro _ ⟨⟩; exact herr e rfl⟩

end Ops

end Fdcpp.Buffered
