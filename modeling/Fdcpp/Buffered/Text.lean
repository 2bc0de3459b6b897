/-
Reading what was written: values of the fixed-width types and strings without NUL, whose encodings
reach the reader's socket in order, in chunks of any size and at any time. Each read gets the next
value and takes its bytes and no others, as long as a string read finds its terminator in time.
-/
import Fdcpp.Buffered.Invariant

namespace Fdcpp.Buffered

open Bytes

/-! ## Values and the operators that read them -/

/-- The operator has the type of the value. -/
def Op.Reads : Op → Item → Prop
  | .get x, .scalar y => x.ty = y.ty
  | .getString _, .cstr _ => True
  | .getString _, .string _ => True
  | _, _ => False

/-- A string of the value holds no NUL. -/
def Item.NulFree : Item → Prop
  | .string val => 0 ∉ val
  | _ => True

def Value.encode : Value → List UInt8
  | .scalar x => x.encode
  | .string val => val ++ [0]

theorem Item.encode_value : ∀ i : Item, i.value.encode = i.encode
  | .scalar _ => rfl
  | .cstr _ => rfl
  | .string _ => rfl

/-- A value that the operator can give. -/
def Op.Yields : Op → Value → Prop
  | .get x, .scalar y => y.ty = x.ty
  | .getString _, .string val => 0 ∉ val
  | _, _ => False

theorem string_unique {s t a b : List UInt8} (hs : 0 ∉ s) (ht : 0 ∉ t) (h : s ++ 0 :: a = t ++ 0 :: b) : s = t := by
  calc
    s = cstring (s ++ 0 :: a) := (cstring_append hs).symm
    _ = cstring (t ++ 0 :: b) := by rw [h]
    _ = t := cstring_append ht

/-- The encodings of what one operator can give are prefix-free. -/
theorem Op.Yields.unique {op : Op} {val : Value} {i : Item} {a b : List UInt8} (hv : op.Yields val) (hr : op.Reads i)
    (hi : i.NulFree) (h : val.encode ++ a = i.encode ++ b) : val = i.value := by
  cases op with
  | put | flush => cases val <;> exact hv.elim
  | get x =>
    cases val with
    | string s => exact hv.elim
    | scalar y =>
      cases i with
      | cstr | string => exact hr.elim
      | scalar z =>
        have hty : y.ty = z.ty := hv.trans hr
        have hlen : y.encode.length = z.encode.length := by rw [y.length_encode, z.length_encode, Scalar.width, hty]
        exact congrArg Value.scalar (Scalar.encode_inj hty (List.append_inj_left h hlen))
  | getString c =>
    cases val with
    | scalar y => exact hv.elim
    | string s =>
      cases i with
      | scalar z => exact hr.elim
      | cstr t | string t =>
        simp only [Value.encode, Item.encode, List.append_assoc, List.singleton_append] at h
        first
        | exact congrArg Value.string (string_unique hv (cstring_no_nul t) h)
        | exact congrArg Value.string (string_unique hv hi h)

/-! ## Reading sessions -/

/-- A read of the next of the values `vs`, by an operator of its type, when the input so far is a
beginning of their encodings. -/
structure ReadStep (vs : List Item) (w : World) (a : Act) (w' : World) : Prop where
  step : Step Reliable w a w'
  reads : ∃ i, vs[w.got.length]? = some i ∧ a.op.Reads i
  arrived : w'.taken <+: vs.flatMap Item.encode

/-- The values read are the first ones written; their encodings are what the object has taken from
its input, but for the unread bytes. -/
structure Delivered (vs : List Item) (w : World) : Prop where
  got : w.got = (vs.take w.got.length).map Item.value
  taken : w.taken = (vs.take w.got.length).flatMap Item.encode ++ w.obj.unread

section Step

variable {vs : List Item} {w w' : World} {a : Act}

/-- Where nothing is thrown, a string read that finds its terminator gets a string and takes its bytes. -/
theorem string_step {L : (q : Call) → Answer q → Prop} {c : UInt8} (h : Step L w a w') (ha : a.op = .getString c)
    (ht : a.Terminated w.obj) (hw : Good w) (hn : ∀ e, ¬ Thrown a.evs e) :
    ∃ str, 0 ∉ str ∧ w'.got = w.got ++ [.string str] ∧ w'.taken = w.taken ++ taken a.evs ∧
      w.obj.unread ++ taken a.evs = (Value.string str).encode ++ w'.obj.unread := by
  obtain ⟨r, hw', -, hp⟩ := h.spec (by rw [ha]; exact getString_spec hw.inv c)
  have hp' := hp (ht c ha)
  cases r with
  | error e => exact absurd (hp'.error e rfl) (hn e)
  | ok v =>
    obtain ⟨str, rfl, hs, hstr⟩ := hp'.ok v rfl
    exact ⟨str, hs, by rw [hw']; rfl, by rw [hw']; rfl, by simpa [Value.encode] using hstr⟩

/-- A read gets a value that its operator can give, and takes the bytes of it. -/
theorem read_step (h : ReadStep vs w a w') (ht : a.Terminated w.obj) (hw : Good w) :
    ∃ val, a.op.Yields val ∧ w'.got = w.got ++ [val] ∧ w'.taken = w.taken ++ taken a.evs ∧
      w.obj.unread ++ taken a.evs = val.encode ++ w'.obj.unread := by
  obtain ⟨i, -, hr⟩ := h.reads
  cases ha : a.op with
  | put j => rw [ha] at hr; cases i <;> exact hr.elim
  | flush => rw [ha] at hr; cases i <;> exact hr.elim
  | get x =>
    obtain ⟨r, hw', hl, hp⟩ := h.step.spec (by rw [ha]; exact get_spec hw.inv x)
    cases r with
    | error e => exact absurd (hp.error e rfl).2 (Reliable.not_thrown hl)
    | ok v =>
      obtain ⟨y, rfl, hty, hy⟩ := hp.ok v rfl
      -- the kernel blocks until all the bytes are there
      have hy' := hy.resolve_right fun h => Reliable.not_shortWait hl h.1
      exact ⟨.scalar y, hty, by rw [hw']; rfl, by rw [hw']; rfl, hy'⟩
  | getString c =>
    obtain ⟨str, hs, hrest⟩ := string_step h.step ha ht hw fun e => Reliable.not_thrown h.step.legal
    exact ⟨.string str, hs, hrest⟩

/-- Each read delivers the next value. -/
theorem delivered_step (hnul : ∀ i ∈ vs, i.NulFree) (h : ReadStep vs w a w') (ht : a.Terminated w.obj) (hw : Good w)
    (hd : Delivered vs w) : Delivered vs w' ∧ w'.got.length = w.got.length + 1 := by
  obtain ⟨val, hv, hgot, htaken, hbytes⟩ := read_step h ht hw
  obtain ⟨i, hi, hr⟩ := h.reads
  have hlen : w'.got.length = w.got.length + 1 := by rw [hgot, List.length_append, List.length_singleton]
  have htake : vs.take w'.got.length = vs.take w.got.length ++ [i] := by
    rw [hlen, List.take_add_one, hi, Option.toList_some]
  have htaken' : w'.taken = (vs.take w.got.length).flatMap Item.encode ++ (val.encode ++ w'.obj.unread) := by
    rw [htaken, hd.taken, List.append_assoc, hbytes]
  -- the bytes of `val` stand where the bytes of the next value stand
  have hval : val = i.value := by
    obtain ⟨rest, hrest⟩ := h.arrived
    have hvs : vs.flatMap Item.encode = (vs.take w.got.length).flatMap Item.encode ++
        (i.encode ++ (vs.drop w'.got.length).flatMap Item.encode) := by
      conv_lhs => rw [← List.take_append_drop w'.got.length vs, htake]
      simp
    rw [htaken', hvs, List.append_assoc, List.append_cancel_left_eq, List.append_assoc] at hrest
    exact hv.unique hr (hnul i (List.mem_of_getElem? hi)) hrest
  refine ⟨⟨?_, ?_⟩, hlen⟩
  · rw [htake, List.map_append, ← hd.got, List.map_singleton, ← hval]; exact hgot
  · rw [htaken', htake, hval, i.encode_value]
    simp

end Step

/-! ## Whole sessions -/

theorem delivered_run {vs : List Item} (hnul : ∀ i ∈ vs, i.NulFree) {w : World} {r : List (Act × World)}
    (h : Run.Chain (ReadStep vs) w r) (ht : Run.Chain (fun w a _ => a.Terminated w.obj) w r) (hw : Good w)
    (hd : Delivered vs w) :
    Run.Always (Delivered vs) w r ∧ Run.Chain (fun w _ w' => w'.got.length = w.got.length + 1) w r := by
  have hstep : ∀ w a w', ReadStep vs w a w' → a.Terminated w.obj → Good w ∧ Delivered vs w →
      (Good w' ∧ Delivered vs w') ∧ w'.got.length = w.got.length + 1 := by
    rintro w a w' h ht ⟨hw, hd⟩
    obtain ⟨hd', hlen⟩ := delivered_step hnul h ht hw hd
    exact ⟨⟨step_good h.step ht hw, hd'⟩, hlen⟩
  obtain ⟨ha, hc⟩ := h.always_chain hstep ht ⟨hw, hd⟩
  exact ⟨ha.imp fun _ hw => hw.2, hc⟩

theorem fresh_delivered (vs : List Item) (i o : Nat) (junk : {bytes : List UInt8 // bytes.length = i + o}) :
    Delivered vs (.fresh i o junk) := ⟨rfl, (make_unread i o junk.1).symm⟩

/-- In every session in which each string read finds its terminator in time, the reads return the
values written, in order, and every read returns one. -/
theorem text_delivered (vs : List Item) (hnul : ∀ i ∈ vs, i.NulFree) (i o : Nat)
    (junk : {bytes : List UInt8 // bytes.length = i + o}) (r : List (Act × World))
    (h : Run.Chain (ReadStep vs) (.fresh i o junk) r)
    (ht : Run.Chain (fun w a _ => a.Terminated w.obj) (.fresh i o junk) r) :
    Run.Always (Delivered vs) (.fresh i o junk) r ∧
      Run.Chain (fun w _ w' => w'.got.length = w.got.length + 1) (.fresh i o junk) r :=
  delivered_run hnul h ht (fresh_good i o junk) (fresh_delivered vs i o junk)

/-- The same, where what arrives is a beginning of the bytes that `operator<<` writes for the values. -/
theorem written_text_delivered {vs : List Item} {chunks : List (List UInt8)}
    (hw : List.Forall₂ Item.Writes vs chunks) (hnul : ∀ i ∈ vs, i.NulFree) (i o : Nat)
    (junk : {bytes : List UInt8 // bytes.length = i + o}) (r : List (Act × World))
    (h : Run.Chain (fun w a w' => Step Reliable w a w' ∧ (∃ i, vs[w.got.length]? = some i ∧ a.op.Reads i) ∧
      w'.taken <+: chunks.flatten) (.fresh i o junk) r)
    (ht : Run.Chain (fun w a _ => a.Terminated w.obj) (.fresh i o junk) r) :
    Run.Always (Delivered vs) (.fresh i o junk) r ∧
      Run.Chain (fun w _ w' => w'.got.length = w.got.length + 1) (.fresh i o junk) r := by
  rw [flatten_of_writes hw] at h
  have hread : Run.Chain (ReadStep vs) (.fresh i o junk) r :=
    h.mono fun _ _ _ ⟨hstep, hreads, harrived⟩ => ⟨hstep, hreads, harrived⟩
  exact delivered_run hnul hread ht (fresh_good i o junk) (fresh_delivered vs i o junk)

/-- A number and a string that have arrived together. -/
theorem text_delivered_hi : ∃ r,
    Run.Chain (ReadStep [.scalar (.u16 258), .cstr [104, 105, 0]]) (.fresh 8 0 ⟨[9, 9, 9, 9, 9, 9, 9, 9], rfl⟩) r ∧
    r.map (fun p => p.1.op) = [.get (.u16 0), .getString 0] ∧
    Run.Always (Delivered [.scalar (.u16 258), .cstr [104, 105, 0]]) (.fresh 8 0 ⟨[9, 9, 9, 9, 9, 9, 9, 9], rfl⟩) r := by
  let w₀ : World := .fresh 8 0 ⟨[9, 9, 9, 9, 9, 9, 9, 9], rfl⟩
  let p₁ := w₀.play [1, 2, 104, 105, 0] (.get (.u16 0))
  let p₂ := p₁.2.play [] (.getString 0)
  have hf : p₁.2.fault = false := by decide +kernel
  have h₁ : ReadStep [.scalar (.u16 258), .cstr [104, 105, 0]] w₀ p₁.1 p₁.2 :=
    ⟨play_step rfl (by unfold Prog.Legal; decide +kernel), ⟨.scalar (.u16 258), rfl, rfl⟩, by decide +kernel⟩
  have h₂ : ReadStep [.scalar (.u16 258), .cstr [104, 105, 0]] p₁.2 p₂.1 p₂.2 :=
    ⟨play_step hf (by unfold Prog.Legal; decide +kernel), ⟨.cstr [104, 105, 0], by decide +kernel, trivial⟩,
      by decide +kernel⟩
  have h : Run.Chain (ReadStep [.scalar (.u16 258), .cstr [104, 105, 0]]) w₀ [(p₁.1, p₁.2), (p₂.1, p₂.2)] :=
    ⟨h₁, h₂, trivial⟩
  have hnul : ∀ i ∈ [Item.scalar (.u16 258), .cstr [104, 105, 0]], i.NulFree := by simp [Item.NulFree]
  have ht : Run.Chain (fun w a _ => a.Terminated w.obj) w₀ [(p₁.1, p₁.2), (p₂.1, p₂.2)] :=
    ⟨fun c hc => (by cases hc), fun c _ => (by decide +kernel), trivial⟩
  exact ⟨_, h, by decide +kernel, (text_delivered _ hnul _ _ _ _ h ht).1⟩

/-- A string read before the string has arrived: the stale zero byte ends it. -/
theorem string_read_early : ∃ r, Run.Chain (ReadStep [.cstr [104, 105, 0]]) (.fresh 4 0 ⟨[0, 0, 0, 0], rfl⟩) r ∧
    r.map (fun p => p.1.op) = [.getString 0] ∧ (r.map fun p => p.2.got) = [[.string []]] ∧
    ¬ Run.Always (Delivered [.cstr [104, 105, 0]]) (.fresh 4 0 ⟨[0, 0, 0, 0], rfl⟩) r := by
  let p := (World.fresh 4 0 ⟨[0, 0, 0, 0], rfl⟩).play [] (.getString 0)
  have h : ReadStep [.cstr [104, 105, 0]] (.fresh 4 0 ⟨[0, 0, 0, 0], rfl⟩) p.1 p.2 :=
    ⟨play_step rfl (by unfold Prog.Legal; decide +kernel), ⟨.cstr [104, 105, 0], rfl, trivial⟩, by decide +kernel⟩
  refine ⟨[(p.1, p.2)], ⟨h, trivial⟩, by decide +kernel, by decide +kernel, fun ha => ?_⟩
  have hgot := (ha.2 _ (List.mem_cons_self ..)).got
  revert hgot
  decide +kernel

end Fdcpp.Buffered
