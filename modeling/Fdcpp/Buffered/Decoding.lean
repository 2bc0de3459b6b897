/-
Reading typed values that are buffered as a whole. The writer ends a value by its size and the
reader ends a string by its content, so that the two agree on where every value ends exactly when
no string holds a NUL.
-/
import Fdcpp.Buffered.Text

namespace Fdcpp.Buffered

open Bytes

/-! ## Sessions that read what is buffered -/

/-- An object at the start of a session. -/
def World.holding (s : BufferedSocket) : World := ⟨s, [], [], [], [], false⟩

/-- A read of the next of the values `vs`, by an operator of its type, under a kernel that does not fail. -/
structure DecodeStep (vs : List Item) (w : World) (a : Act) (w' : World) : Prop where
  step : Step Flawless w a w'
  reads : ∃ i, vs[w.got.length]? = some i ∧ a.op.Reads i

/-- The values read are the first of `vs`, and of the bytes that were buffered at the start and came
in since exactly theirs have been consumed. -/
structure Decoded (vs : List Item) (buffered : List UInt8) (w : World) : Prop where
  got : w.got = (vs.take w.got.length).map Item.value
  bytes : buffered ++ w.taken = (vs.take w.got.length).flatMap Item.encode ++ w.obj.unread

section Step

variable {vs : List Item} {buffered : List UInt8} {w w' : World} {a : Act}

/-- The operator that reads the value. -/
def Item.reader : Item → Op
  | .scalar x => .get x
  | .cstr _ | .string _ => .getString 0

theorem Item.reads_reader : ∀ i : Item, i.reader.Reads i
  | .scalar _ => rfl
  | .cstr _ => trivial
  | .string _ => trivial

/-- The next value is buffered as a whole. -/
theorem Decoded.next (hd : Decoded vs buffered w) (hb : vs.flatMap Item.encode <+: buffered) {i : Item}
    (hi : vs[w.got.length]? = some i) : ∃ rest, w.obj.unread = i.encode ++ rest := by
  obtain ⟨tail, rfl⟩ := hb
  have hvs : vs.flatMap Item.encode = (vs.take w.got.length).flatMap Item.encode ++
      (i.encode ++ (vs.drop (w.got.length + 1)).flatMap Item.encode) := by
    conv_lhs => rw [← List.take_append_drop (w.got.length + 1) vs, List.take_add_one, hi]
    simp
  have hbytes := hd.bytes
  rw [hvs, List.append_assoc, List.append_assoc, List.append_cancel_left_eq, List.append_assoc] at hbytes
  exact ⟨_, hbytes.symm⟩

/-- `ShrPost` for a value that is buffered as a whole, as an operation of a session. -/
theorem get_buffered {L : (q : Call) → Answer q → Prop} {s : BufferedSocket} (hi : Inv s) {x : Scalar}
    (hle : x.width ≤ s.unread.length) : Eff.Sat L (Op.get x).exec s fun evs r s' =>
      match r with
      | .ok v => ∃ y : Scalar, v = some (.scalar y) ∧ y.ty = x.ty ∧ s.unread ++ taken evs = y.encode ++ s'.unread
      | .error e => Thrown evs e := by
  refine sat_map ((shr_spec hi x).and (shr_buffered hi x hle)) ?_ ?_
  · rintro evs y s' ⟨-, h⟩
    exact ⟨y, rfl, h y rfl⟩
  · rintro evs e s' ⟨h, -⟩
    exact (h.error e rfl).2

/-- A string that is buffered has its terminator behind it. -/
theorem Op.Reads.terminated {i : Item} {rest : List UInt8} (hr : a.op.Reads i) {s : BufferedSocket}
    (hu : s.unread = i.encode ++ rest) : a.Terminated s := by
  intro c hc
  rw [hc] at hr
  cases i with
  | scalar x => exact hr.elim
  | cstr val => exact .inr (by simp [hu, Item.encode])
  | string val => exact .inr (by simp [hu, Item.encode])

/-- A read of a buffered value gives a value that its operator can give, and takes the bytes of it. -/
theorem buffered_step (h : Step Flawless w a w') (hw : Good w) {i : Item} (hr : a.op.Reads i) {rest : List UInt8}
    (hu : w.obj.unread = i.encode ++ rest) :
    ∃ val, a.op.Yields val ∧ w'.got = w.got ++ [val] ∧ w'.taken = w.taken ++ taken a.evs ∧
      w.obj.unread ++ taken a.evs = val.encode ++ w'.obj.unread := by
  cases ha : a.op with
  | put j => rw [ha] at hr; cases i <;> exact hr.elim
  | flush => rw [ha] at hr; cases i <;> exact hr.elim
  | get x =>
    rw [ha] at hr
    cases i with
    | cstr val => exact hr.elim
    | string val => exact hr.elim
    | scalar z =>
      have hwidth : x.width = z.width := congrArg Ty.width hr
      have hle : x.width ≤ w.obj.unread.length := by
        rw [hu, List.length_append, Item.encode, z.length_encode]
        omega
      obtain ⟨r, hw', hl, hp⟩ := h.spec (by rw [ha]; exact get_buffered hw.inv hle)
      cases r with
      | error e => exact absurd hp (Flawless.not_thrown hl)
      | ok v =>
        obtain ⟨y, rfl, hty, hbytes⟩ := hp
        exact ⟨.scalar y, hty, by rw [hw']; rfl, by rw [hw']; rfl, hbytes⟩
  | getString c =>
    obtain ⟨str, hs, hrest⟩ := string_step h ha (hr.terminated hu) hw fun e => Flawless.not_thrown h.legal
    exact ⟨.string str, hs, hrest⟩

/-- A string with a NUL is not what a read can give. -/
theorem Op.Yields.ne_value {op : Op} {val : Value} {i : Item} (hv : op.Yields val) (hr : op.Reads i)
    (hi : ¬ i.NulFree) : val ≠ i.value := by
  rintro rfl
  cases i with
  | scalar x => exact hi trivial
  | cstr val => exact hi trivial
  | string val =>
    cases op with
    | put | flush | get => exact hr.elim
    | getString c => exact hi hv

/-- A read of the next value decodes it exactly if it holds no NUL. -/
theorem decoded_step_iff (h : DecodeStep vs w a w') (hb : vs.flatMap Item.encode <+: buffered)
    (hw : Good w) (hd : Decoded vs buffered w) {i : Item} (hi : vs[w.got.length]? = some i) :
    Good w' ∧ w'.got.length = w.got.length + 1 ∧ (Decoded vs buffered w' ↔ i.NulFree) := by
  obtain ⟨rest, hu⟩ := hd.next hb hi
  obtain ⟨j, hj, hr⟩ := h.reads
  obtain rfl : j = i := by simpa using hj.symm.trans hi
  obtain ⟨val, hv, hgot, htaken, hbytes⟩ := buffered_step h.step hw hr hu
  have hlen : w'.got.length = w.got.length + 1 := by rw [hgot, List.length_append, List.length_singleton]
  have htake : vs.take w'.got.length = vs.take w.got.length ++ [j] := by
    rw [hlen, List.take_add_one, hi, Option.toList_some]
  refine ⟨step_good h.step (hr.terminated hu) hw, hlen, ?_⟩
  constructor
  · intro hd'
    by_contra hnul
    have hlast := hd'.got
    rw [htake, List.map_append, ← hd.got, hgot, List.map_singleton, List.append_cancel_left_eq] at hlast
    exact hv.ne_value hr hnul (List.singleton_inj.1 hlast)
  · intro hnul
    have hval : val = j.value := by
      rw [hu, List.append_assoc] at hbytes
      exact hv.unique hr hnul hbytes.symm
    constructor
    · rw [htake, List.map_append, ← hd.got, List.map_singleton, ← hval]; exact hgot
    · rw [htaken, ← List.append_assoc, hd.bytes, List.append_assoc, hbytes, htake, hval, j.encode_value]
      simp

end Step

/-! ## Whole sequences -/

/-- A session that starts with the values buffered decodes them all if no string holds a NUL. -/
theorem decoded_of_nulFree {vs : List Item} {buffered : List UInt8} {w : World} {r : List (Act × World)}
    (h : Run.Chain (DecodeStep vs) w r) (hb : vs.flatMap Item.encode <+: buffered) (hnul : ∀ i ∈ vs, i.NulFree)
    (hw : Good w) (hd : Decoded vs buffered w) :
    Run.Always (Decoded vs buffered) w r ∧ Run.Chain (fun w _ w' => w'.got.length = w.got.length + 1) w r := by
  have hstep : ∀ w a w', DecodeStep vs w a w' → DecodeStep vs w a w' → Good w ∧ Decoded vs buffered w →
      (Good w' ∧ Decoded vs buffered w') ∧ w'.got.length = w.got.length + 1 := by
    rintro w a w' hs - ⟨hw, hd⟩
    obtain ⟨i, hi, -⟩ := hs.reads
    obtain ⟨hw', hlen, hiff⟩ := decoded_step_iff hs hb hw hd hi
    exact ⟨⟨hw', hiff.2 (hnul i (List.mem_of_getElem? hi))⟩, hlen⟩
  obtain ⟨ha, hc⟩ := h.always_chain hstep h ⟨hw, hd⟩
  exact ⟨ha.imp fun _ hw => hw.2, hc⟩

/-- If a string to come holds a NUL, some session goes wrong by the time it has been read. -/
theorem exists_misread {vs : List Item} {buffered : List UInt8} (hb : vs.flatMap Item.encode <+: buffered) {i : Item}
    (hnul : ¬ i.NulFree) : ∀ (k : Nat) (w : World), vs[w.got.length + k]? = some i → Good w → Decoded vs buffered w →
      ∃ r, Run.Chain (DecodeStep vs) w r ∧ ¬ Run.Always (Decoded vs buffered) w r := by
  intro k
  induction k with
  | zero =>
    intro w hi hw hd
    obtain ⟨evs, w', h⟩ := exists_step exists_flawless hw.fault i.reader
    have hs : DecodeStep vs w ⟨i.reader, evs⟩ w' := ⟨h, i, hi, i.reads_reader⟩
    obtain ⟨-, -, hiff⟩ := decoded_step_iff hs hb hw hd hi
    refine ⟨[(_, w')], ⟨hs, trivial⟩, fun ha => hnul (hiff.1 ?_)⟩
    exact ha.2 _ (List.mem_singleton_self _)
  | succ k ih =>
    intro w hi hw hd
    have hlt : w.got.length < vs.length := by
      have := (List.getElem?_eq_some_iff.1 hi).1
      omega
    have hj : vs[w.got.length]? = some vs[w.got.length] := List.getElem?_eq_getElem hlt
    obtain ⟨evs, w', h⟩ := exists_step exists_flawless hw.fault vs[w.got.length].reader
    have hs : DecodeStep vs w ⟨_, evs⟩ w' := ⟨h, _, hj, Item.reads_reader _⟩
    obtain ⟨hw', hlen, -⟩ := decoded_step_iff hs hb hw hd hj
    by_cases hd' : Decoded vs buffered w'
    · obtain ⟨r, hr, ha⟩ := ih w' (by rw [hlen, Nat.add_right_comm]; exact hi) hw' hd'
      exact ⟨(_, w') :: r, ⟨hs, hr⟩, fun ha' => ha (Run.always_cons.1 ha').2⟩
    · -- an earlier string has gone wrong already
      exact ⟨[(_, w')], ⟨hs, trivial⟩, fun ha => hd' (ha.2 _ (List.mem_singleton_self _))⟩

theorem decodes_buffered_iff {s : BufferedSocket} (hi : Inv s) {vs : List Item}
    (hb : vs.flatMap Item.encode <+: s.unread) :
    (∀ r, Run.Chain (DecodeStep vs) (.holding s) r → Run.Always (Decoded vs s.unread) (.holding s) r ∧
      Run.Chain (fun w _ w' => w'.got.length = w.got.length + 1) (.holding s) r) ↔ ∀ i ∈ vs, i.NulFree := by
  have hw : Good (.holding s) := ⟨hi, rfl⟩
  have hd : Decoded vs s.unread (.holding s) := ⟨rfl, List.append_nil _⟩
  constructor
  · intro h i hmem
    by_contra hnul
    obtain ⟨k, hk⟩ := List.getElem?_of_mem hmem
    have hk' : vs[(World.holding s).got.length + k]? = some i := by
      show vs[0 + k]? = some i
      rwa [Nat.zero_add]
    obtain ⟨r, hr, ha⟩ := exists_misread hb hnul k _ hk' hw hd
    exact ha (h r hr).1
  · intro hnul r hr
    exact decoded_of_nulFree hr hb hnul hw hd

/-- Values whose encodings are buffered are read back in every session, value by value and byte by
byte, exactly if no string of them holds a NUL. -/
theorem decodes_iff {s : BufferedSocket} (hi : Inv s) {vs : List Item} {tail : List UInt8}
    (hu : s.unread = vs.flatMap Item.encode ++ tail) :
    (∀ r, Run.Chain (DecodeStep vs) (.holding s) r → Run.Always (Decoded vs s.unread) (.holding s) r ∧
      Run.Chain (fun w _ w' => w'.got.length = w.got.length + 1) (.holding s) r) ↔ ∀ i ∈ vs, i.NulFree :=
  decodes_buffered_iff hi ⟨tail, hu.symm⟩

/-- The same, where what is buffered is the bytes that `operator<<` writes for the values. -/
theorem decodes_written_iff {s : BufferedSocket} (hi : Inv s) {vs : List Item} {chunks : List (List UInt8)}
    (hw : List.Forall₂ Item.Writes vs chunks) {tail : List UInt8} (hu : s.unread = chunks.flatten ++ tail) :
    (∀ r, Run.Chain (DecodeStep vs) (.holding s) r → Run.Always (Decoded vs s.unread) (.holding s) r ∧
      Run.Chain (fun w _ w' => w'.got.length = w.got.length + 1) (.holding s) r) ↔ ∀ i ∈ vs, i.NulFree :=
  decodes_buffered_iff hi ⟨tail, by rw [← flatten_of_writes hw]; exact hu.symm⟩

/-- A number and a string, one behind the other. -/
theorem decodes_number_string : ∃ r,
    Run.Chain (DecodeStep [.scalar (.u16 258), .string [97, 98]]) (.holding (.filled [1, 2, 97, 98, 0])) r ∧
    (Run.last (.holding (.filled [1, 2, 97, 98, 0])) r).got = [.scalar (.u16 258), .string [97, 98]] ∧
    Run.Always (Decoded [.scalar (.u16 258), .string [97, 98]] [1, 2, 97, 98, 0])
      (.holding (.filled [1, 2, 97, 98, 0])) r := by
  let w₀ : World := .holding (.filled [1, 2, 97, 98, 0])
  let p₁ := w₀.perform [] (.get (.u16 0))
  let p₂ := p₁.2.perform [] (.getString 0)
  have hf : p₁.2.fault = false := by decide +kernel
  have h₁ : DecodeStep [.scalar (.u16 258), .string [97, 98]] w₀ p₁.1 p₁.2 :=
    ⟨perform_step rfl (by unfold Prog.Legal; decide +kernel), .scalar (.u16 258), rfl, rfl⟩
  have h₂ : DecodeStep [.scalar (.u16 258), .string [97, 98]] p₁.2 p₂.1 p₂.2 :=
    ⟨perform_step hf (by unfold Prog.Legal; decide +kernel), .string [97, 98], by decide +kernel, trivial⟩
  have hnul : ∀ i ∈ [Item.scalar (.u16 258), .string [97, 98]], i.NulFree := by simp [Item.NulFree]
  have hu : (BufferedSocket.filled [1, 2, 97, 98, 0]).unread =
      [Item.scalar (.u16 258), .string [97, 98]].flatMap Item.encode ++ [] := by decide
  have h : Run.Chain (DecodeStep [.scalar (.u16 258), .string [97, 98]]) w₀ [(p₁.1, p₁.2), (p₂.1, p₂.2)] :=
    ⟨h₁, h₂, trivial⟩
  exact ⟨_, h, by decide +kernel, ((decodes_iff (filled_inv _) hu).2 hnul _ h).1⟩

/-- A string with a NUL inside is cut there, and the rest of it is taken for the next value. -/
theorem nul_misread : ∃ r, Run.Chain (DecodeStep [.string [97, 0, 98]]) (.holding (.filled [97, 0, 98, 0])) r ∧
    (BufferedSocket.filled [97, 0, 98, 0]).unread = Item.encode (.string [97, 0, 98]) ∧
    (r.map fun p => (p.2.got, p.2.obj.unread)) = [([.string [97]], [98, 0])] ∧
    ¬ Run.Always (Decoded [.string [97, 0, 98]] [97, 0, 98, 0]) (.holding (.filled [97, 0, 98, 0])) r := by
  let p := (World.holding (.filled [97, 0, 98, 0])).perform [] (.getString 0)
  have h : DecodeStep [.string [97, 0, 98]] (.holding (.filled [97, 0, 98, 0])) p.1 p.2 :=
    ⟨perform_step rfl (by unfold Prog.Legal; decide +kernel), .string [97, 0, 98], rfl, trivial⟩
  refine ⟨[(p.1, p.2)], ⟨h, trivial⟩, by decide, by decide +kernel, fun ha => ?_⟩
  have hgot := (ha.2 _ (List.mem_cons_self ..)).got
  revert hgot
  decide +kernel

end Fdcpp.Buffered
