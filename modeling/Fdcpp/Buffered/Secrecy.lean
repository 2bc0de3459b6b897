/-
What a reader can learn. Two objects with the same input, whatever is in the rest of their arrays
and in the variables they read into, read the same values from sockets that answer alike, as long as
a string read finds its terminator in what has been received and no read into variables that differ
waits in vain.
-/
import Fdcpp.Lib.Twin
import Fdcpp.Buffered.Invariant

namespace Fdcpp.Buffered

open Bytes Eff

/-! ## Objects with the same input -/

/-- The input halves agree in what has been received; nothing is said of the rest of the arrays. -/
structure SameInput (s t : BufferedSocket) : Prop where
  inv : Inv s
  inv' : Inv t
  inRd : s.inRd = t.inRd
  inSize : s.inSize = t.inSize
  inCapacity : s.inCapacity = t.inCapacity
  unread : s.unread = t.unread

section Twins

variable {s t : BufferedSocket}

theorem SameInput.touched (h : SameInput s t) {off len : Nat} (ha : off + len ≤ s.inCapacity) :
    SameInput (s.touched ⟨.input, off, len⟩) (t.touched ⟨.input, off, len⟩) :=
  have ha' : off + len ≤ t.inCapacity := h.inCapacity ▸ ha
  ⟨h.inv.touched ha, h.inv'.touched ha', h.inRd, h.inSize, h.inCapacity, h.unread⟩

theorem SameInput.received (h : SameInput s t) {bs : List UInt8} (hb : s.inSize + bs.length ≤ s.inCapacity) :
    SameInput (s.received bs) (t.received bs) := by
  have hb' : t.inSize + bs.length ≤ t.inCapacity := by rw [← h.inSize, ← h.inCapacity]; exact hb
  refine ⟨h.inv.received hb, h.inv'.received hb', h.inRd, ?_, h.inCapacity, ?_⟩
  · exact congrArg (· + bs.length) h.inSize
  · rw [unread_received h.inv hb, unread_received h.inv' hb', h.unread]

theorem SameInput.drained (h : SameInput s t) : SameInput s.drained t.drained :=
  ⟨h.inv.drained, h.inv'.drained, rfl, rfl, h.inCapacity, drained_unread.trans drained_unread.symm⟩

/-- The next `n` unread bytes are the same, and so are those behind them. -/
theorem SameInput.split (h : SameInput s t) {n : Nat} (hn : s.inRd + n ≤ s.inSize) :
    slice s.bufferIn.bytes s.inRd n = slice t.bufferIn.bytes t.inRd n ∧ (s.advanced n).unread = (t.advanced n).unread := by
  have hn' : t.inRd + n ≤ t.inSize := by rw [← h.inRd, ← h.inSize]; exact hn
  have hs := h.inv.length
  have ht := h.inv'.length
  have hlen : (slice s.bufferIn.bytes s.inRd n).length = (slice t.bufferIn.bytes t.inRd n).length := by
    rw [length_slice (by have := h.inv.size; omega), length_slice (by have := h.inv'.size; omega)]
  have hu := h.unread
  rw [unread_advanced hn, unread_advanced hn'] at hu
  exact List.append_inj hu hlen

theorem SameInput.advanced (h : SameInput s t) {n : Nat} (hn : s.inRd + n ≤ s.inSize) :
    SameInput (s.advanced n) (t.advanced n) := by
  have hn' : t.inRd + n ≤ t.inSize := by rw [← h.inRd, ← h.inSize]; exact hn
  exact ⟨h.inv.advanced hn, h.inv'.advanced hn', congrArg (· + n) h.inRd, h.inSize, h.inCapacity, (h.split hn).2⟩

/-! ## Twin functions -/

theorem touch_twin (h : SameInput s t) {off len : Nat} (ha : off + len ≤ s.inCapacity) :
    Twin (fun r s' t' => r = .ok () ∧ s' = s.touched ⟨.input, off, len⟩ ∧ t' = t.touched ⟨.input, off, len⟩)
      (touch .input off len) s (touch .input off len) t := by
  have has : (⟨.input, off, len⟩ : Access).Inside s := ha
  have hat : (⟨.input, off, len⟩ : Access).Inside t := by rw [Access.Inside, ← h.inCapacity]; exact ha
  exact Twin.of_silent (touch_spec h.inv has fun _ => ⟨rfl, rfl, rfl⟩)
    (touch_spec h.inv' hat fun _ => ⟨rfl, rfl, rfl⟩) ⟨rfl, rfl, rfl⟩

/-- Both load the first `n` unread bytes. -/
theorem load_twin (h : SameInput s t) {n : Nat} (hn : s.inRd + n ≤ s.inSize) :
    Twin (fun r s' t' => r = .ok (slice s.bufferIn.bytes s.inRd n) ∧ s' = s.touched ⟨.input, s.inRd, n⟩ ∧
        t' = t.touched ⟨.input, s.inRd, n⟩)
      (load .input s.inRd n) s (load .input s.inRd n) t := by
  have hsize := h.inv.size
  have hcap := h.inCapacity
  refine Twin.of_silent (load_spec h.inv (by simp only [Access.Inside]; omega) fun _ => ⟨rfl, ?_, rfl⟩)
    (load_spec h.inv' (by simp only [Access.Inside]; omega) fun _ => ⟨rfl, ?_, rfl⟩) ⟨rfl, rfl, rfl⟩
  · simp [BufferedSocket.base]
  · rw [(h.split hn).1, h.inRd]
    simp [BufferedSocket.base]

theorem socketRecv_twin (size : Nat) (flags : Flags) :
    Twin (fun _ s' t' => s' = s ∧ t' = t) (socketRecv size flags) s (socketRecv size flags) t := by
  have hcall : Twin (fun _ s' t' => s' = s ∧ t' = t) (call (Call.recv size flags) : SockM _) s
      (call (Call.recv size flags)) t := twin_call _ fun _ => ⟨rfl, rfl⟩
  refine hcall.bind ?_ fun _ _ _ h => h
  rintro (e | bs) _ _ ⟨rfl, rfl⟩
  · exact twin_throw _ ⟨rfl, rfl⟩
  · exact twin_pure _ ⟨rfl, rfl⟩

theorem recvIfPossible_twin (h : SameInput s t) : Twin (fun _ => SameInput) recvIfPossible s recvIfPossible t := by
  unfold recvIfPossible
  apply related_get_bind
  rw [← h.inSize, ← h.inCapacity]
  split
  · exact twin_pure _ h
  · have hsize := h.inv.size
    rw [szSub_of_le hsize]
    have hbody : Twin (fun _ => SameInput) (do
        touch .input s.inSize (s.inCapacity - s.inSize)
        let bs ← socketRecv (s.inCapacity - s.inSize) .dontwait
        modify fun s => { s with
          bufferIn.bytes := splice s.bufferIn.bytes s.inSize bs.1, inSize := s.inSize + bs.1.length } : SockM Unit) s
        (do
        touch .input s.inSize (s.inCapacity - s.inSize)
        let bs ← socketRecv (s.inCapacity - s.inSize) .dontwait
        modify fun s => { s with
          bufferIn.bytes := splice s.bufferIn.bytes s.inSize bs.1, inSize := s.inSize + bs.1.length } : SockM Unit) t := by
      refine (touch_twin h (by omega)).bind ?_ (by rintro e _ _ ⟨⟨⟩, -⟩)
      rintro _ _ _ ⟨-, rfl, rfl⟩
      have h' := h.touched (by omega : s.inSize + (s.inCapacity - s.inSize) ≤ s.inCapacity)
      refine (socketRecv_twin _ _).bind ?_ ?_
      · rintro bs _ _ ⟨rfl, rfl⟩
        have hbs := bs.2
        exact twin_modify (h'.received (by show s.inSize + _ ≤ s.inCapacity; omega))
      · rintro e _ _ ⟨rfl, rfl⟩
        exact h'
    refine hbody.tryCatch (fun _ _ _ h => h) ?_
    rintro (e | _) s' t' h
    · dsimp only
      split
      · exact twin_throw _ h
      · exact twin_pure _ h
    · exact twin_throw _ h

/-- How a read over the bytes `buffer` and one over `buffer'` end: both return or both throw, and leave
the same input; over the same bytes they read the same. -/
structure SameRead (buffer buffer' : List UInt8) (r r' : Except Exc (List UInt8)) (s t : BufferedSocket) : Prop where
  input : SameInput s t
  ends : r.map (fun _ => ()) = r'.map fun _ => ()
  same : buffer = buffer' → r = r'

theorem SameRead.of_error (h : SameInput s t) (buffer buffer' : List UInt8) (e : Exc) :
    SameRead buffer buffer' (.error e) (.error e) s t := ⟨h, rfl, fun _ => rfl⟩

theorem readInputBuffer_related (h : SameInput s t) {buffer buffer' : List UInt8}
    (hlen : buffer.length = buffer'.length) :
    Related (SameRead buffer buffer') (readInputBuffer buffer) s (readInputBuffer buffer') t := by
  unfold readInputBuffer
  refine (recvIfPossible_twin h).bind_related ?_ fun e _ _ h => .of_error h _ _ e
  rintro ⟨⟩ s t h
  apply related_get_bind
  have hrd := h.inv.rd
  have hsize := h.inv.size
  rw [← h.inSize, ← h.inRd, ← hlen, szSub_of_le hrd]
  split
  · refine (load_twin h (by omega)).bind_related ?_ (by rintro e _ _ ⟨⟨⟩, -⟩)
    rintro _ _ _ ⟨⟨⟩, rfl, rfl⟩
    have h' := h.touched (by omega : s.inRd + (s.inSize - s.inRd) ≤ s.inCapacity)
    split
    · exact related_throw _ _ (.of_error h' _ _ _)
    · -- only what stands behind the bytes received is the callers' own
      split
      · refine (socketRecv_twin _ _).bind_related ?_ ?_
        · rintro bs _ _ ⟨rfl, rfl⟩
          rw [pure_bind, pure_bind]
          exact related_modify_bind (related_pure _ _ ⟨h'.drained, rfl, by rintro rfl; rfl⟩)
        · rintro e _ _ ⟨rfl, rfl⟩
          exact .of_error h' _ _ e
      · rw [pure_bind, pure_bind]
        exact related_modify_bind (related_pure _ _ ⟨h'.drained, rfl, by rintro rfl; rfl⟩)
  · rename_i hlt
    refine (load_twin h (by omega)).bind_related ?_ (by rintro e _ _ ⟨⟨⟩, -⟩)
    rintro _ _ _ ⟨⟨⟩, rfl, rfl⟩
    have h' := h.touched (by omega : s.inRd + buffer.length ≤ s.inCapacity)
    have hn : s.inRd + buffer.length ≤ s.inSize := by omega
    exact related_modify_bind (related_pure _ _ ⟨h'.advanced hn, rfl, fun _ => rfl⟩)

/-- Reads over bytes that differ read the same if all bytes come, be it that they are buffered. -/
theorem readInputBuffer_same (h : SameInput s t) {buffer buffer' : List UInt8} (hlen : buffer.length = buffer'.length)
    {evs evs' : List Event} {r r' : Except Exc (List UInt8)} {s' t' : BufferedSocket}
    (hr : ((readInputBuffer buffer).prog s).Runs evs (r, s')) (hr' : ((readInputBuffer buffer').prog t).Runs evs' (r', t'))
    (hal : Prog.Alike evs evs') (hc : buffer = buffer' ∨ ¬ ShortWait evs ∨ buffer.length ≤ s.unread.length) :
    evs = evs' ∧ r = r' ∧ SameInput s' t' := by
  obtain ⟨rfl, hread⟩ := (readInputBuffer_related h hlen).runs hr hr' hal
  refine ⟨rfl, ?_, hread.input⟩
  have hp := Any.post (readInputBuffer_spec h.inv buffer) hr
  have hp' := Any.post (readInputBuffer_spec h.inv' buffer') hr'
  have hends := hread.ends
  match r, r' with
  | .error e, .error e' => simpa [Except.map] using hends
  | .error e, .ok b' => cases hends
  | .ok b, .error e' => cases hends
  | .ok b, .ok b' =>
    rcases hc with hsame | hwait | hle
    · exact hread.same hsame
    · have hb := ((hp.ok b rfl).2).resolve_right fun hs => hwait hs.1
      have hb' := ((hp'.ok b' rfl).2).resolve_right fun hs => hwait hs.1
      rw [h.unread, hread.input.unread] at hb
      exact congrArg Except.ok (List.append_cancel_right (hb.symm.trans hb'))
    · have hb := (hp.buffered hle).2
      have hb' := (hp'.buffered (by rw [← hlen, ← h.unread]; exact hle)).2
      rw [h.unread, hread.input.unread] at hb
      exact congrArg Except.ok (List.append_cancel_right (hb.symm.trans hb'))

/-- The characters of a string that is unread with its terminator, whatever the two `char c` held. -/
theorem readChars_twin {str tl : List UInt8} (h : SameInput s t) (hu : s.unread = str ++ 0 :: tl) (c c' : UInt8)
    (val : List UInt8) : Twin (fun _ => SameInput) (readChars c str.length val) s (readChars c' str.length val) t := by
  induction str generalizing s t tl c c' val with
  | nil => exact twin_pure _ h
  | cons b str ih =>
    have hle : [c].length ≤ s.unread.length := by rw [hu]; simp
    have hread : Twin (fun _ => SameInput) (readInputBuffer [c]) s (readInputBuffer [c']) t := by
      rintro evs ⟨r, s'⟩ evs' ⟨r', t'⟩ hr hr' hal
      exact readInputBuffer_same h (by rfl : [c].length = [c'].length) hr hr' hal (.inr (.inr hle))
    have hspec : Sat (fun _ _ => True) (readInputBuffer [c]) s fun _ r s' =>
        ∀ bs, r = .ok bs → ∃ b' tl', bs = [b'] ∧ s'.unread = str ++ 0 :: tl' := by
      refine (readInputBuffer_spec h.inv [c]).mono ?_
      rintro evs _ s' - hp bs rfl
      obtain ⟨hlen, hbs⟩ := hp.buffered hle
      obtain ⟨b', rfl⟩ := List.length_eq_one_iff.1 hlen
      rw [hu] at hbs
      simp only [List.cons_append, List.nil_append, List.cons.injEq, List.append_assoc] at hbs
      exact ⟨b', _, rfl, hbs.2.symm⟩
    rw [List.length_cons, readChars, readChars]
    refine (hread.and_spec hspec).bind ?_ fun _ _ _ h => h.1
    rintro image s' t' ⟨h', hp⟩
    obtain ⟨b', tl', rfl, hu'⟩ := hp _ rfl
    exact ih h' hu' _ _ _

/-- A string read that does not look for a terminator in vain is the same in both. -/
theorem shrString_twin (h : SameInput s t) (c c' : UInt8) {evs evs' : List Event} {r r' : Except Exc (List UInt8)}
    {s' t' : BufferedSocket} (hr : ((shrString c).prog s).Runs evs (r, s'))
    (hr' : ((shrString c').prog t).Runs evs' (r', t')) (hal : Prog.Alike evs evs')
    (hnul : InTime s evs) : evs = evs' ∧ r = r' ∧ SameInput s' t' := by
  unfold shrString at hr hr'
  refine (recvIfPossible_twin h).bind_runs (fun _ => SameInput) hr hr' hal ?_ fun _ _ _ h => h
  rintro evs₁ evs₂ ⟨⟩ s₁ t₁ rfl hr₁ h₁
  obtain ⟨-, -, hu₁, hf, hno⟩ := Any.post (recvIfPossible_spec h.inv) hr₁
  replace hnul := hnul.resolve_left (hno evs₂)
  rw [hf, ← hu₁] at hnul
  obtain ⟨str, tl, hstr, hs⟩ := exists_cstring hnul
  apply related_get_bind
  have hstrlen : Twin (fun r s' t' => r = .ok str.length ∧ SameInput s' t' ∧ s'.unread = str ++ 0 :: tl)
      (strlenAt s₁.inRd) s₁ (strlenAt t₁.inRd) t₁ := by
    have hlen := h₁.inv.length_unread
    have hsize := h₁.inv.size
    have hstr' : t₁.unread = str ++ 0 :: tl := by rw [← h₁.unread, hstr]
    rw [hstr, List.length_append, List.length_cons] at hlen
    refine Twin.of_silent (strlenAt_spec h₁.inv hstr hs fun _ => ⟨rfl, rfl, rfl⟩)
      (strlenAt_spec h₁.inv' hstr' hs fun _ => ⟨rfl, rfl, rfl⟩) ⟨rfl, ?_, hstr⟩
    rw [← h₁.inRd]
    exact h₁.touched (by omega)
  refine hstrlen.bind ?_ (by rintro e _ _ ⟨⟨⟩, -⟩)
  rintro _ s₂ t₂ ⟨⟨⟩, h₂, hu₂⟩
  -- the terminator is still there when the characters have been read
  have hchars : Twin (fun r s' t' => SameInput s' t' ∧ ∀ v, r = .ok v → s'.inRd + 1 ≤ s'.inSize)
      (readChars c str.length []) s₂ (readChars c' str.length []) t₂ := by
    refine (readChars_twin h₂ hu₂ c c' []).and_spec ?_
    refine (readChars_spec tl str s₂ c [] h₂.inv hu₂).mono ?_
    intro evs r s₃ _ hp v hv
    have hlen := hp.inv.length_unread
    rw [(hp.ok v hv).2] at hlen
    simp only [List.cons_append, List.length_cons] at hlen
    omega
  refine hchars.bind ?_ fun _ _ _ h => h.1
  rintro v s₃ t₃ ⟨h₃, hn⟩
  exact related_modify_bind (twin_pure _ (h₃.advanced (hn v rfl)))

end Twins

/-! ## Pairs of sessions -/

/-- The same operation, but for the value that a `put` writes and for what the variable of a read, or the
`char c` of a string read, holds before. -/
def Op.Like : Op → Op → Prop
  | .put _, .put _ => True
  | .flush, .flush => True
  | .get x, .get y => x.ty = y.ty
  | .getString _, .getString _ => True
  | _, _ => False

/-- A step of each of two sessions. Their reads, whose calls are all of `recv`, are answered alike;
what their peers take from them may differ. -/
structure PairStep (w : World × World) (a : Act × Act) (w' : World × World) : Prop where
  left : Step Any w.1 a.1 w'.1
  right : Step Any w.2 a.2 w'.2
  like : a.1.op.Like a.2.op
  alike : ¬ a.1.op.IsOutput → Prog.Alike a.1.evs a.2.evs

/-- The two sessions have read the same values and have the same input unread. -/
structure Indistinct (w : World × World) : Prop where
  got : w.1.got = w.2.got
  unread : w.1.obj.unread = w.2.obj.unread

section Step

variable {w w' : World × World} {a : Act × Act}

theorem after_got {w w' : World} (h : w.got = w'.got) (a a' : Act) (r : Except Exc (Option Value)) (s s' : BufferedSocket) :
    (w.after a r s).got = (w'.after a' r s').got := by
  cases r with
  | ok v => exact congrArg (· ++ v.toList) h
  | error e => exact h

/-- An output operation leaves the input, and no value is read. -/
theorem output_step {w w' : World} {a : Act} (h : Step Any w a w') (ho : a.op.IsOutput) (hi : Inv w.obj) :
    Inv w'.obj ∧ InputKept w.obj w'.obj a.evs ∧ w'.got = w.got := by
  have hgot : ∀ r, w' = w.after a r w'.obj → (∀ v, r = .ok v → v = none) → w'.got = w.got := by
    intro r hw' hnone
    rw [hw']
    cases r with
    | ok v => simp [World.after, hnone v rfl]
    | error e => rfl
  cases ha : a.op with
  | put i =>
    obtain ⟨r, hw', -, hp⟩ := h.spec (by rw [ha]; exact put_spec hi i)
    exact ⟨hp.inv, hp.kept, hgot r hw' fun v hv => (hp.ok v hv).1⟩
  | flush =>
    obtain ⟨r, hw', -, hp⟩ := h.spec (by rw [ha]; exact flushOp_spec hi)
    exact ⟨hp.inv, hp.kept, hgot r hw' fun v hv => (hp.ok v hv).1⟩
  | get x => rw [ha] at ho; exact ho.elim
  | getString c => rw [ha] at ho; exact ho.elim

theorem SameInput.of_kept {s t s' t' : BufferedSocket} {evs evs' : List Event} (h : SameInput s t)
    (hk : InputKept s s' evs) (hk' : InputKept t t' evs') (hi : Inv s') (hi' : Inv t') : SameInput s' t' where
  inv := hi
  inv' := hi'
  inRd := by rw [hk.inRd, hk'.inRd, h.inRd]
  inSize := by rw [hk.inSize, hk'.inSize, h.inSize]
  inCapacity := by rw [hk.inCapacity, hk'.inCapacity, h.inCapacity]
  unread := by rw [hk.unread, hk'.unread, h.unread]

theorem Op.Like.isOutput {op op' : Op} (h : op.Like op') (ho : op.IsOutput) : op'.IsOutput := by
  cases op with
  | put i => cases op' <;> trivial
  | flush => cases op' <;> trivial
  | get x => exact ho.elim
  | getString c => exact ho.elim

/-- The bytes spell the same value in any variable of the type. -/
theorem Scalar.decode_congr {x y : Scalar} (h : x.ty = y.ty) : x.decode = y.decode := by
  cases x <;> cases y <;> first | rfl | cases h

/-- The two variables of a fixed-width read hold the same, or all the bytes that the read waits for
come. -/
def Settled (a : Act × Act) : Prop := ∀ x y, a.1.op = .get x → a.2.op = .get y → x = y ∨ ¬ ShortWait a.1.evs

/-- A read gives the same in both. -/
theorem read_twin {s t s' t' : BufferedSocket} (h : SameInput s t) {op op' : Op} (hlike : op.Like op')
    (ho : ¬ op.IsOutput) {evs evs' : List Event} {r r' : Except Exc (Option Value)}
    (hr : (op.exec.prog s).Runs evs (r, s')) (hr' : (op'.exec.prog t).Runs evs' (r', t')) (hal : Prog.Alike evs evs')
    (ht : (⟨op, evs⟩ : Act).Terminated s) (hs : Settled (⟨op, evs⟩, ⟨op', evs'⟩)) : r = r' ∧ SameInput s' t' := by
  cases op with
  | put i => exact absurd trivial ho
  | flush => exact absurd trivial ho
  | get x =>
    cases op' with
    | put _ | flush | getString _ => exact hlike.elim
    | get y =>
      have hty : x.ty = y.ty := hlike
      have himage : x.image.length = y.image.length := by rw [x.length_image, y.length_image, Scalar.width, hty]
      obtain ⟨r₁, hr₁, rfl⟩ := runs_map hr
      obtain ⟨r₁', hr₁', rfl⟩ := runs_map hr'
      rw [x.shr_eq] at hr₁
      rw [y.shr_eq, ← Scalar.decode_congr hty] at hr₁'
      obtain ⟨r₀, hr₀, rfl⟩ := runs_map hr₁
      obtain ⟨r₀', hr₀', rfl⟩ := runs_map hr₁'
      have hc : x.image = y.image ∨ ¬ ShortWait evs ∨ x.image.length ≤ s.unread.length := by
        rcases hs x y rfl rfl with rfl | hwait
        · exact .inl rfl
        · exact .inr (.inl hwait)
      obtain ⟨-, rfl, hst⟩ := readInputBuffer_same h himage hr₀ hr₀' hal hc
      exact ⟨rfl, hst⟩
  | getString c =>
    cases op' with
    | put _ | flush | get _ => exact hlike.elim
    | getString c' =>
      obtain ⟨r₀, hr₀, rfl⟩ := runs_map hr
      obtain ⟨r₀', hr₀', rfl⟩ := runs_map hr'
      obtain ⟨-, rfl, hst⟩ := shrString_twin h c c' hr₀ hr₀' hal (ht c rfl)
      exact ⟨rfl, hst⟩

/-- A step of each keeps the inputs the same, and they read the same value. -/
theorem pair_step (h : PairStep w a w') (ht : a.1.Terminated w.1.obj ∧ Settled a) (hs : SameInput w.1.obj w.2.obj)
    (hg : w.1.got = w.2.got) : SameInput w'.1.obj w'.2.obj ∧ w'.1.got = w'.2.got := by
  by_cases ho : a.1.op.IsOutput
  · obtain ⟨hi, hk, hgot⟩ := output_step h.left ho hs.inv
    obtain ⟨hi', hk', hgot'⟩ := output_step h.right (h.like.isOutput ho) hs.inv'
    exact ⟨hs.of_kept hk hk' hi hi', by rw [hgot, hgot', hg]⟩
  · obtain ⟨r, hw, hr⟩ := h.left.run
    obtain ⟨r', hw', hr'⟩ := h.right.run
    obtain ⟨rfl, hst⟩ := read_twin hs h.like ho hr hr' (h.alike ho) ht.1 ht.2
    refine ⟨hst, ?_⟩
    rw [hw, hw']
    exact after_got hg _ _ _ _ _

end Step

/-- Two sessions with new objects of the same capacities that do the same but for the values they write
and what their variables held before read the same values and always have the same input unread, if
each string read finds a terminator in what has been received and each fixed-width read over
variables that differ gets all the bytes that it waits for. -/
theorem reads_independent (i o : Nat) (junk junk' : {bytes : List UInt8 // bytes.length = i + o})
    (r : List ((Act × Act) × (World × World))) (h : Run.Chain PairStep (.fresh i o junk, .fresh i o junk') r)
    (ht : Run.Chain (fun w a _ => a.1.Terminated w.1.obj ∧ Settled a) (.fresh i o junk, .fresh i o junk') r) :
    Run.Always Indistinct (.fresh i o junk, .fresh i o junk') r := by
  have hs : SameInput (World.fresh i o junk).obj (World.fresh i o junk').obj :=
    ⟨make_inv i o junk, make_inv i o junk', rfl, rfl, rfl, (make_unread i o _).trans (make_unread i o _).symm⟩
  have ha : Run.Always (fun w : World × World => SameInput w.1.obj w.2.obj ∧ w.1.got = w.2.got)
      (.fresh i o junk, .fresh i o junk') r :=
    h.always (fun _ _ _ hstep ht hw => pair_step hstep ht hw.1 hw.2) ht ⟨hs, rfl⟩
  exact ha.imp fun _ hw => ⟨hw.2, hw.1.unread⟩

/-- The bytes of an array that held nothing, and of one that held an 'x'. -/
def blank : {bytes : List UInt8 // bytes.length = 4 + 0} := ⟨[0, 0, 0, 0], rfl⟩
def stale : {bytes : List UInt8 // bytes.length = 4 + 0} := ⟨[120, 0, 0, 0], rfl⟩

/-- The two steps of `op` and `op'` under one scripted kernel. -/
def performBoth (w : World × World) (script : List Reply) (op op' : Op) : (Act × Act) × (World × World) :=
  let p := w.1.perform script op
  let q := w.2.perform script op'
  ((p.1, q.1), (p.2, q.2))

theorem performBoth_step {w : World × World} {script : List Reply} {op op' : Op}
    (hf : w.1.fault = false ∧ w.2.fault = false) (hlike : op.Like op')
    (hal : Prog.Alike (performBoth w script op op').1.1.evs (performBoth w script op op').1.2.evs) :
    PairStep w (performBoth w script op op').1 (performBoth w script op op').2 :=
  ⟨perform_step hf.1 fun _ _ => trivial, perform_step hf.2 fun _ _ => trivial, hlike, fun _ => hal⟩

theorem performBoth_same {w : World × World} {script : List Reply} {op op' : Op}
    (hf : w.1.fault = false ∧ w.2.fault = false) (hlike : op.Like op')
    (he : (performBoth w script op op').1.1.evs = (performBoth w script op op').1.2.evs) :
    PairStep w (performBoth w script op op').1 (performBoth w script op op').2 :=
  performBoth_step hf hlike (.of_eq he)

/-- The string "h" has arrived with its terminator, and the four bytes of a `float` come when they are
waited for: both read them, over an `ival` that holds 1 in one session and 2 in the other. -/
theorem reads_independent_string : ∃ r, Run.Chain PairStep (.fresh 4 0 blank, .fresh 4 0 stale) r ∧
    (r.map fun p => (p.1.1.op, p.1.2.op)) = [(.getString 0, .getString 9), (.get (.float 1), .get (.float 2))] ∧
    (r.map fun p => (p.2.1.got, p.2.2.got)) = [([.string [104]], [.string [104]]),
      ([.string [104], .scalar (.float 0x3f800000)], [.string [104], .scalar (.float 0x3f800000)])] ∧
    Run.Always Indistinct (.fresh 4 0 blank, .fresh 4 0 stale) r := by
  let p₁ := performBoth (.fresh 4 0 blank, .fresh 4 0 stale) [.gives [104, 0]] (.getString 0) (.getString 9)
  let p₂ := performBoth p₁.2 [.gives [0x3f], .gives [0x80, 0, 0]] (.get (.float 1)) (.get (.float 2))
  have h₁ : PairStep _ p₁.1 p₁.2 := performBoth_same ⟨rfl, rfl⟩ trivial (by decide +kernel)
  have h₂ : PairStep p₁.2 p₂.1 p₂.2 := performBoth_same (by decide +kernel) rfl (by decide +kernel)
  have h : Run.Chain PairStep (.fresh 4 0 blank, .fresh 4 0 stale) [(p₁.1, p₁.2), (p₂.1, p₂.2)] := ⟨h₁, h₂, trivial⟩
  have hl : Prog.Legal Reliable p₂.1.1.evs := by unfold Prog.Legal; decide +kernel
  have ht : Run.Chain (fun w a _ => a.1.Terminated w.1.obj ∧ Settled a) (.fresh 4 0 blank, .fresh 4 0 stale)
      [(p₁.1, p₁.2), (p₂.1, p₂.2)] :=
    ⟨⟨fun c _ => (by decide +kernel), fun _ _ hx => (by cases hx)⟩,
      ⟨fun c hc => (by cases hc), fun _ _ _ _ => .inr (Reliable.not_shortWait hl)⟩, trivial⟩
  exact ⟨_, h, by decide +kernel, by decide +kernel, reads_independent 4 0 blank stale _ h ht⟩

/-- A string read when nothing has arrived goes by what is in the array: it ends at once, or it waits
for a character. -/
theorem stale_byte_shows : ∃ r, Run.Chain PairStep (.fresh 4 0 blank, .fresh 4 0 stale) r ∧
    (r.map fun p => (p.1.1.op, p.1.2.op)) = [(.getString 0, .getString 0)] ∧
    (r.map fun p => (p.2.1.got, p.2.2.got)) = [([.string []], [.string [104]])] ∧
    ¬ Run.Always Indistinct (.fresh 4 0 blank, .fresh 4 0 stale) r := by
  let p := performBoth (.fresh 4 0 blank, .fresh 4 0 stale) [.fails EAGAIN, .fails EAGAIN, .gives [104]]
    (.getString 0) (.getString 0)
  have h : PairStep _ p.1 p.2 := performBoth_step ⟨rfl, rfl⟩ trivial fun _ => ⟨rfl, trivial⟩
  refine ⟨[(p.1, p.2)], ⟨h, trivial⟩, rfl, by decide +kernel, fun ha => ?_⟩
  have hgot := (ha.2 _ (List.mem_cons_self ..)).got
  revert hgot
  decide +kernel

/-- The stream ends inside a `float`: what `ival` held before is in the value. -/
theorem stale_ival_shows : ∃ r, Run.Chain PairStep (.fresh 4 0 blank, .fresh 4 0 blank) r ∧
    (r.map fun p => (p.1.1.op, p.1.2.op)) = [(.get (.float 0), .get (.float 0xff000000))] ∧
    (r.map fun p => (p.2.1.got, p.2.2.got)) =
      [([.scalar (.float 0x3f800000)], [.scalar (.float 0x3f8000ff)])] ∧
    ¬ Run.Always Indistinct (.fresh 4 0 blank, .fresh 4 0 blank) r := by
  let p := performBoth (.fresh 4 0 blank, .fresh 4 0 blank) [.gives [0x3f, 0x80], .gives [0]]
    (.get (.float 0)) (.get (.float 0xff000000))
  have h : PairStep _ p.1 p.2 := performBoth_same ⟨rfl, rfl⟩ rfl (by decide +kernel)
  refine ⟨[(p.1, p.2)], ⟨h, trivial⟩, by decide +kernel, by decide +kernel, fun ha => ?_⟩
  have hgot := (ha.2 _ (List.mem_cons_self ..)).got
  revert hgot
  decide +kernel

end Fdcpp.Buffered
