/-
Who owns which mapping: along every run in which no construction with `MAP_FIXED` goes to address 0 or
over a mapping that an object has, each mapping of the library is in exactly one object, which has
all its pages to itself, and is unmapped exactly once, by its address and size; a construction that
does breaks this at once.
-/
import Fdcpp.Mapping.Mmap

namespace Fdcpp.Mapping

/-- Each mapping that the library has is in one live object, the pages of each object's mapping are
mapped for it, no byte is reached through two objects, every mapping that is over was unmapped once,
and nothing else was unmapped. -/
structure Owned (w : World) : Prop where
  owner : ∀ r k, w.kernel.regions r = some k → ∃! a, ∃ o, w.mem.objs a = some o ∧ o.addr ≠ 0 ∧ (o.addr, o.size) = r
  mapped : ∀ a o, w.mem.objs a = some o → o.addr ≠ 0 → ∃ k, w.kernel.regions (o.addr, o.size) = some k ∧
    ∀ p ∈ pagesOf o.addr o.size, w.kernel.pages p = some (some k)
  apart : ∀ a b o o' i j, w.mem.objs a = some o → w.mem.objs b = some o' → o.addr ≠ 0 → o'.addr ≠ 0 →
    i < o.size → j < o'.size → o.at i = o'.at j → a = b
  closed : ∀ k, k < w.kernel.mappings → (∀ r, w.kernel.regions r ≠ some k) →
    (w.kernel.unmaps.map Prod.snd).count (some k) = 1
  own : none ∉ w.kernel.unmaps.map Prod.snd

/-- The step makes a mapping with `MAP_FIXED` at address 0 or over pages that an object has. -/
def Clobbers (w : World) : Act → Prop
  | .op _ evs => ∃ addr len prot flags fd off a, (⟨.mmap addr len prot flags fd off, .ok a⟩ : Event) ∈ evs ∧
    Fixed flags ∧
    (addr = 0 ∨ ∃ b o p, w.mem.objs b = some o ∧ o.addr ≠ 0 ∧ p ∈ pagesOf o.addr o.size ∧ p ∈ pagesOf addr len)
  | _ => False

/-! ## Objects as holders -/

/-- What an object holds. -/
def Mmap.held (o : Mmap) : Option (Nat × Nat) := if o.addr = 0 then none else some (o.addr, o.size)

def Memory.hold (m : Memory) (a : Nat) : Option (Nat × Nat) := (m.objs a).bind Mmap.held

/-- Every mapping of the library has one owner and its pages, and the record of the `munmap`s is in order. -/
structure Inv (w : World) : Prop where
  linear : Holders.Linear w.mem.hold w.kernel.ledger.out
  settled : w.kernel.ledger.Settled
  aligned : ∀ r k, w.kernel.regions r = some k → r.1 ≠ 0 ∧ r.1 % pageSize = 0 ∧ 0 < r.2
  mapped : ∀ r k, w.kernel.regions r = some k → ∀ p ∈ pagesOf r.1 r.2, w.kernel.pages p = some (some k)

theorem mem_pagesOf {addr len i : Nat} (ha : addr % pageSize = 0) (hi : i < len) :
    (addr + i) / pageSize ∈ pagesOf addr len := by
  unfold pagesOf
  unfold pageSize at *
  rw [List.mem_range'_1]
  omega

section Holders

variable {w : World} {m m' : Memory} {a : Nat} {r : Nat × Nat}

theorem held_eq_some {o : Mmap} : o.held = some r ↔ o.addr ≠ 0 ∧ (o.addr, o.size) = r := by
  unfold Mmap.held
  split
  · rename_i h
    simp [h]
  · rename_i h
    simp [h]

theorem hold_eq_some : m.hold a = some r ↔ ∃ o, m.objs a = some o ∧ o.addr ≠ 0 ∧ (o.addr, o.size) = r := by
  unfold Memory.hold
  rw [Option.bind_eq_some_iff]
  exact exists_congr fun o => and_congr_right fun _ => held_eq_some

theorem hold_of_none (h : m.objs a = none) : m.hold a = none := by
  unfold Memory.hold
  rw [h]
  rfl

theorem hold_congr (h : m'.objs = m.objs) : m'.hold = m.hold := by
  unfold Memory.hold
  rw [h]

theorem held_obj (m : Memory) (a : Nat) : (m.obj a).held = m.hold a := by
  unfold Memory.obj Memory.hold
  cases m.objs a with
  | none => rfl
  | some o => rfl

theorem hold_place (m : Memory) (a : Nat) (o : Mmap) : (m.place a o).hold = Function.update m.hold a o.held := by
  funext b
  unfold Memory.hold Memory.place
  dsimp only
  by_cases h : b = a
  · rw [h, Function.update_self, Function.update_self]; rfl
  · rw [Function.update_of_ne h, Function.update_of_ne h]

theorem hold_remove (m : Memory) (a : Nat) : (m.remove a).hold = Function.update m.hold a none := by
  funext b
  unfold Memory.hold Memory.remove
  dsimp only
  by_cases h : b = a
  · rw [h, Function.update_self, Function.update_self]; rfl
  · rw [Function.update_of_ne h, Function.update_of_ne h]

/-- The page of each byte of an object is mapped for it. -/
theorem Inv.page_at (h : Inv w) {o : Mmap} {i k : Nat} (hk : w.kernel.regions (o.addr, o.size) = some k)
    (hi : i < o.size) :
    w.kernel.pages (o.at i / pageSize) = some (some k) :=
  h.mapped _ k hk _ (mem_pagesOf (h.aligned _ k hk).2.1 hi)

theorem Inv.leased (h : Inv w) {o : Mmap} (ho : w.mem.objs a = some o) (h0 : o.addr ≠ 0) :
    ∃ k, w.kernel.regions (o.addr, o.size) = some k :=
  Option.ne_none_iff_exists'.1 (h.linear.leased (hold_eq_some.2 ⟨o, ho, h0, rfl⟩))

theorem Inv.owned (h : Inv w) : Owned w where
  owner r k hk := by
    obtain ⟨a, ha⟩ := h.linear.held (Option.ne_none_iff_exists'.2 ⟨k, hk⟩)
    refine ⟨a, hold_eq_some.1 ha, fun b hb => ?_⟩
    exact h.linear.one (hold_eq_some.2 hb) ha
  mapped a o ho h0 := by
    obtain ⟨k, hk⟩ := h.leased ho h0
    exact ⟨k, hk, h.mapped _ k hk⟩
  apart a b o o' i j ho ho' h0 h0' hi hj heq := by
    obtain ⟨k, hk⟩ := h.leased ho h0
    obtain ⟨k', hk'⟩ := h.leased ho' h0'
    -- the byte is on one page, which is mapped for one of the mappings
    have hpage := h.page_at hk hi
    rw [heq, h.page_at hk' hj, Option.some.injEq, Option.some.injEq] at hpage
    have hr := h.settled.inj hk (hpage ▸ hk')
    exact h.linear.one (hold_eq_some.2 ⟨o, ho, h0, hr⟩) (hold_eq_some.2 ⟨o', ho', h0', rfl⟩)
  closed k hk hnone := h.settled.back hk hnone
  own := h.settled.own

theorem start_inv (others : List Nat) : Inv (World.start others) where
  linear := by
    rw [Ledger.out_unused fun _ => rfl]
    exact .empty fun _ => rfl
  settled := Ledger.settled_unused (fun _ => rfl) rfl rfl
  aligned := nofun
  mapped := nofun

end Holders

/-! ## What an operation does to the owners -/

/-- The calls `evs` of an operation and the change from `m` to `m'`. -/
inductive Did (m : Memory) : List Event → Memory → Prop
  | nothing {m' : Memory} (h : m'.hold = m.hold) : Did m [] m'
  | failed {m' : Memory} {addr len : Nat} {prot flags fd off : Int} {e : Errno} (h : m'.hold = m.hold) :
      Did m [⟨.mmap addr len prot flags fd off, .error e⟩] m'
  | made {m' : Memory} {a b addr len : Nat} {prot flags fd off : Int} (ha : m.objs a = none)
      (h : b ≠ MAP_FAILED → m' = m.place a ⟨b, len⟩) : Did m [⟨.mmap addr len prot flags fd off, .ok b⟩] m'
  | exchanged {m' : Memory} {i j : Nat} (hi : m'.hold i = m.hold j) (hj : m'.hold j = m.hold i)
      (ho : ∀ x, x ≠ i → x ≠ j → m'.hold x = m.hold x) : Did m [] m'
  | gave {m' : Memory} {a : Nat} {r : Nat × Nat} {ans : Except Errno Nat} (ha : m.hold a = some r)
      (h : m'.hold = Function.update m.hold a none) : Did m [⟨.munmap r.1 r.2, ans⟩] m'

section Did

variable {L : (q : Sys) → Answer q → Prop} {m m' : Memory} {a : Nat}

theorem makeAt_did {addr len : Nat} {prot flags fd off : Int} (ha : m.objs a = none) :
    Eff.Sat L (placeNew a (makeAt addr len prot flags fd off)) m fun evs _ m' => Did m evs m' := by
  unfold placeNew
  refine (makeAt_spec (L := L) addr len prot flags fd off).bind ?_ ?_
  · rintro evs o m' - (⟨b, rfl, rfl, hr⟩ | ⟨e, -, -, hr⟩)
    · rw [Eff.sat_modify]
      refine .made ha fun hb => ?_
      cases hr hb
      rfl
    · cases hr
  · rintro evs e m' - (⟨b, rfl, rfl, hr⟩ | ⟨e', rfl, hobjs, -⟩)
    · refine .made ha fun hb => ?_
      cases hr hb
    · exact .failed (hold_congr hobjs)

theorem moveMake_did {other : Nat} {o : Mmap} (ha : m.objs a = none) (ho : m.objs other = some o) :
    Eff.Sat L (placeNew a (moveFrom other)) m fun evs _ m' => Did m evs m' := by
  have hne : other ≠ a := by rintro rfl; rw [ha] at ho; cases ho
  unfold placeNew moveFrom
  rw [Eff.sat_bind, Eff.sat_get_bind, Eff.sat_modify_bind, Eff.sat_pure]
  show Did m [] ((m.place other ⟨0, 0⟩).place a (m.obj other))
  refine .exchanged (i := a) (j := other) ?_ ?_ fun b hb hb' => ?_
  · rw [hold_place, Function.update_self, held_obj]
  · rw [hold_place, Function.update_of_ne hne, hold_place, Function.update_self, hold_of_none ha]
    rfl
  · rw [hold_place, Function.update_of_ne hb, hold_place, Function.update_of_ne hb']

theorem moveAssign_did (this other : Nat) : Eff.Sat L (moveAssign this other) m fun evs _ m' => Did m evs m' := by
  unfold moveAssign
  rw [Eff.sat_modify]
  refine .exchanged (i := this) (j := other) ?_ ?_ fun b hb hb' => ?_
  · rw [hold_place, hold_place, Function.update_apply, Function.update_self, held_obj, held_obj]
    split
    · rename_i h; rw [h]
    · rfl
  · rw [hold_place, Function.update_self, held_obj]
  · rw [hold_place, Function.update_of_ne hb', hold_place, Function.update_of_ne hb]

theorem destroy_did (a : Nat) :
    Eff.Sat L (Op.destroy a).exec m fun evs _ m' => Did m evs m' := by
  unfold Op.exec
  rw [Eff.sat_get_bind]
  refine (destroy_spec (L := L) (m.obj a)).bind ?_ ?_
  · rintro evs - m' - ⟨-, hobjs, hevs⟩
    rw [Eff.sat_modify, List.append_nil]
    have hhold : (m'.remove a).hold = Function.update m.hold a none := by
      rw [hold_remove, hold_congr hobjs]
    rcases hevs with ⟨h0, rfl⟩ | ⟨h0, ans, rfl⟩
    · refine .nothing ?_
      have hnone : m.hold a = none := by rw [← held_obj]; exact if_pos h0
      rw [hhold, ← hnone, Function.update_eq_self]
    · have hsome : m.hold a = some ((m.obj a).addr, (m.obj a).size) := by rw [← held_obj]; exact if_neg h0
      exact .gave hsome hhold
  · rintro evs e m' - ⟨hr, -⟩
    cases hr

theorem op_did {o : Op} (ha : o.Allowed m) : Eff.Sat L o.exec m fun evs _ m' => Did m evs m' := by
  cases o with
  | make a len prot flags fd off => exact makeAt_did ha
  | makeAt a addr len prot flags fd off => exact makeAt_did ha
  | moveMake a other =>
    obtain ⟨o, ho⟩ := Option.ne_none_iff_exists'.1 ha.2
    exact moveMake_did ha.1 ho
  | moveAssign this other => exact moveAssign_did this other
  | destroy a => exact destroy_did a

end Did

/-! ## Steps -/

section Steps

variable {w w' : World} {act : Act}

/-- Changes of the kernel that leave alone what the library has. -/
theorem Inv.frame {m' : Memory} {k' : Kernel} (h : Inv w) (hl : k'.ledger = w.kernel.ledger)
    (hs : Ledger.Step (w.mem.hold, w.kernel.ledger) (m'.hold, k'.ledger))
    (hp : ∀ p k, w.kernel.pages p = some (some k) → k'.pages p = some (some k)) : Inv ⟨m', k'⟩ := by
  obtain ⟨hlin, hset⟩ := hs.inv h.linear h.settled
  have hregions : k'.regions = w.kernel.regions := congrArg Ledger.lease hl
  refine ⟨hlin, hset, ?_, ?_⟩
  · intro r k hk
    exact h.aligned r k (by rw [← hregions]; exact hk)
  · intro r k hk p hr
    exact hp p k (h.mapped r k (by rw [← hregions]; exact hk) p hr)

theorem answers_one {k k' : Kernel} {q : Sys} {r : Answer q} (h : k.answers [⟨q, r⟩] = some k') :
    k.answer q r = some k' := by
  unfold Kernel.answers at h
  obtain ⟨k₁, h₁, h₂⟩ := Option.bind_eq_some_iff.1 h
  cases h₂
  exact h₁

/-- A new mapping that takes no page of another one. -/
theorem Inv.made {a b len : Nat} (h : Inv w) (ha : w.mem.objs a = none) (hb : b ≠ 0) (hal : b % pageSize = 0)
    (hlen : 0 < len) (hfree : ∀ r k, w.kernel.regions r = some k → ∀ p ∈ pagesOf b len, p ∉ pagesOf r.1 r.2) :
    Inv ⟨w.mem.place a ⟨b, len⟩, w.kernel.map b len⟩ := by
  have hnone : w.kernel.ledger.lease (b, len) = none := by
    refine Option.eq_none_iff_forall_ne_some.2 fun k hk => ?_
    have hmem : (b + 0) / pageSize ∈ pagesOf b len := mem_pagesOf hal hlen
    exact hfree _ k hk _ hmem hmem
  have hheld : (⟨b, len⟩ : Mmap).held = some (b, len) := if_neg hb
  have hs : Ledger.Step (w.mem.hold, w.kernel.ledger)
      ((w.mem.place a ⟨b, len⟩).hold, w.kernel.ledger.take (b, len)) := by
    rw [hold_place, hheld]
    exact .take (hold_of_none ha) hnone
  obtain ⟨hlin, hset⟩ := hs.inv h.linear h.settled
  refine ⟨hlin, hset, ?_, ?_⟩
  · intro r k hk
    rcases update_eq_some hk with ⟨rfl, -⟩ | ⟨-, hk⟩
    · exact ⟨hb, hal, hlen⟩
    · exact h.aligned r k hk
  · intro r k hk p hp
    show (if p ∈ pagesOf b len then some (some w.kernel.mappings) else w.kernel.pages p) = _
    rcases update_eq_some hk with ⟨rfl, rfl⟩ | ⟨-, hk⟩
    · exact if_pos hp
    · rw [if_neg fun hin => hfree r k hk p hin hp]
      exact h.mapped r k hk p hp

/-- A mapping that is given back; its pages are unmapped or, when `munmap` fails, left. -/
theorem Inv.gave {m' : Memory} {a : Nat} {r : Nat × Nat} (h : Inv w) (ha : w.mem.hold a = some r)
    (hm : m'.hold = Function.update w.mem.hold a none) {pages : Nat → Option (Option Nat)}
    (hp : ∀ p, p ∉ pagesOf r.1 r.2 → pages p = w.kernel.pages p) :
    Inv ⟨m', { w.kernel.unmap r.1 r.2 with pages := pages }⟩ := by
  have hs : Ledger.Step (w.mem.hold, w.kernel.ledger) (m'.hold, w.kernel.ledger.give r) := by
    rw [hm]
    exact .give ha
  have hlog : (({ w.kernel.unmap r.1 r.2 with pages := pages } : Kernel)).ledger = w.kernel.ledger.give r := by
    simp [Kernel.ledger, Kernel.unmap, Ledger.give]
  obtain ⟨hlin, hset⟩ := hs.inv h.linear h.settled
  refine ⟨hlog ▸ hlin, hlog ▸ hset, ?_, ?_⟩
  · intro r' k hk
    exact h.aligned r' k (update_none_eq_some hk).2
  · intro r' k hk p hp'
    obtain ⟨hne, hk⟩ := update_none_eq_some hk
    obtain ⟨k₀, hk₀⟩ := Option.ne_none_iff_exists'.1 (h.linear.leased ha)
    have hpage := h.mapped r' k hk p hp'
    show pages p = _
    rw [hp p fun hin => ?_, hpage]
    -- a page of both would be mapped for both
    have hpage₀ := h.mapped r k₀ hk₀ p hin
    rw [hpage, Option.some.injEq, Option.some.injEq] at hpage₀
    exact hne (h.settled.inj hk (hpage₀ ▸ hk₀))

theorem step_inv (hs : Step w act w') (h : Inv w) (hc : ¬ Clobbers w act) : Inv w' := by
  cases hs with
  | mapped hp =>
    refine h.frame rfl .idle fun p k hk => ?_
    show (if p ∈ _ then _ else w.kernel.pages p) = _
    rw [if_neg fun hin => ?_, hk]
    rw [hp p hin] at hk
    cases hk
  | unmapped hp =>
    refine h.frame rfl .idle fun p k hk => ?_
    show (if p ∈ _ then _ else w.kernel.pages p) = _
    rw [if_neg fun hin => ?_, hk]
    have hothers := hp p hin (by rw [hk]; nofun)
    rw [hk] at hothers
    cases hothers
  | op ha hr hk =>
    cases Eff.sat_iff_runs.1 (op_did (L := fun _ _ => True) ha) _ _ _ hr fun _ _ => trivial with
    | nothing hm =>
      cases hk
      exact h.frame rfl (by rw [hm]; exact .idle) fun _ _ hp => hp
    | failed hm =>
      cases answers_one hk
      exact h.frame rfl (by rw [hm]; exact .idle) fun _ _ hp => hp
    | exchanged hi hj ho =>
      cases hk
      exact h.frame rfl (.exchange hi hj ho) fun _ _ hp => hp
    | @gave _ a r ans hm hm' =>
      have hk := answers_one hk
      cases ans with
      | error e =>
        cases hk
        exact h.gave hm hm' fun _ _ => rfl
      | ok n =>
        simp only [Kernel.answer, Option.ite_none_right_eq_some, Option.some.injEq] at hk
        obtain ⟨-, rfl⟩ := hk
        exact h.gave hm hm' fun p hp => if_neg hp
    | @made _ a b addr len prot flags fd off ha hm =>
      have hk := answers_one hk
      simp only [Kernel.answer, Option.ite_none_right_eq_some, Option.some.injEq] at hk
      obtain ⟨⟨hal, hlen, hhi, hflags⟩, rfl⟩ := hk
      have hb : b ≠ MAP_FAILED := by unfold MAP_FAILED; omega
      rw [hm hb]
      by_cases hf : Fixed flags
      · rw [if_pos hf] at hflags
        subst hflags
        have hmem : (⟨.mmap b len prot flags fd off, .ok b⟩ : Event) ∈
            ([⟨.mmap b len prot flags fd off, .ok b⟩] : List Event) := List.mem_singleton_self _
        refine h.made ha (fun h0 => hc ⟨_, _, _, _, _, _, _, hmem, hf, .inl h0⟩) hal hlen fun r k hr p hp hp' => ?_
        obtain ⟨c, hc'⟩ := h.linear.held (Option.ne_none_iff_exists'.2 ⟨k, hr⟩)
        obtain ⟨o, ho, h0, rfl⟩ := hold_eq_some.1 hc'
        exact hc ⟨_, _, _, _, _, _, _, hmem, hf, .inr ⟨c, o, p, ho, h0, hp', hp⟩⟩
      · rw [if_neg hf] at hflags
        refine h.made ha hflags.1 hal hlen fun r k hr p hp hp' => ?_
        have hpage := h.mapped r k hr p hp'
        rw [hflags.2 p hp] at hpage
        cases hpage

/-- A construction that takes the address 0 or a page of an object leaves a mapping without its owner. -/
theorem clobber_not_owned (hs : Step w act w') (h : Inv w) (hc : Clobbers w act) : ¬ Owned w' := by
  intro ho
  cases hs with
  | mapped => exact hc
  | unmapped => exact hc
  | op ha hr hk =>
    obtain ⟨addr, len, prot, flags, fd, off, b, hm, hf, hover⟩ := hc
    cases Eff.sat_iff_runs.1 (op_did (L := fun _ _ => True) ha) _ _ _ hr fun _ _ => trivial with
    | nothing => cases hm
    | failed => simp at hm
    | exchanged => cases hm
    | gave => simp at hm
    | @made _ a b' addr' len' prot' flags' fd' off' ha' hmade =>
      simp only [List.mem_singleton, Sigma.mk.injEq, Sys.mmap.injEq] at hm
      obtain ⟨⟨rfl, rfl, rfl, rfl, rfl, rfl⟩, hb⟩ := hm
      cases hb
      have hk := answers_one hk
      simp only [Kernel.answer, Option.ite_none_right_eq_some, Option.some.injEq] at hk
      obtain ⟨⟨hal, hlen, hhi, hflags⟩, rfl⟩ := hk
      rw [if_pos hf] at hflags
      subst hflags
      have hb : b ≠ MAP_FAILED := by unfold MAP_FAILED; omega
      rw [hmade hb] at ho
      have hnew : (w.kernel.map b len).regions (b, len) = some w.kernel.mappings := Function.update_self ..
      rcases hover with rfl | ⟨c, o, p, hobj, h0, hp, hp'⟩
      · -- no object holds a mapping at 0
        obtain ⟨d, ⟨o, -, h0, hreq⟩, -⟩ := ho.owner _ _ hnew
        exact h0 (congrArg Prod.fst hreq)
      · have hca : c ≠ a := by rintro rfl; rw [ha'] at hobj; cases hobj
        have hobj' : (w.mem.place a ⟨b, len⟩).objs c = some o := (Function.update_of_ne hca ..).trans hobj
        obtain ⟨k, hk, hpages⟩ := ho.mapped c o hobj' h0
        -- the page is mapped for the new mapping, so that both objects have that one
        have hpage := hpages p hp
        have hpage' : (w.kernel.map b len).pages p = some (some w.kernel.mappings) := if_pos hp'
        rw [hpage', Option.some.injEq, Option.some.injEq] at hpage
        subst hpage
        have hreq : (o.addr, o.size) = (b, len) := by
          rcases update_eq_some hk with ⟨hreq, -⟩ | ⟨-, hk⟩
          · exact hreq
          · exact absurd (h.settled.lt hk) (Nat.lt_irrefl _)
        have hb0 : b ≠ 0 := fun hb => h0 ((congrArg Prod.fst hreq).trans hb)
        obtain ⟨d, -, hone⟩ := ho.owner _ _ hnew
        have hcd := hone c ⟨o, hobj', h0, hreq⟩
        have had := hone a ⟨⟨b, len⟩, Function.update_self .., hb0, rfl⟩
        exact hca (hcd.trans had.symm)

end Steps

/-- In every run of the class the mappings are owned throughout exactly if no construction with
`MAP_FIXED` goes to address 0 or over pages that an object has. -/
theorem mappings_owned_iff (others : List Nat) (r : List (Act × World)) (h : Run.Chain Step (.start others) r) :
    Run.Always Owned (.start others) r ↔ Run.Chain (fun w a _ => ¬ Clobbers w a) (.start others) r :=
  h.always_iff (P := Inv) (fun _ => Inv.owned) (fun _ _ _ hs hi hc => step_inv hs hi hc)
    (fun _ _ _ hs hi ho hc => clobber_not_owned hs hi hc ho) (start_inv others)

/-- An `mmap` with `MAP_FIXED` that succeeds. -/
def fixes (e : Event) : Bool :=
  match e.1 with
  | .mmap _ _ _ flags _ _ => decide (Fixed flags) && e.2.isOk
  | .munmap .. => false

theorem not_clobbers {w : World} {o : Op} {evs : List Event} (h : evs.any fixes = false) : ¬ Clobbers w (.op o evs) := by
  rintro ⟨_, _, _, _, _, _, _, hm, hf, -⟩
  have he := List.any_eq_false.1 h _ hm
  simp [fixes, hf, Except.isOk, Except.toBool] at he

/-- Two mappings are made, moved and swapped, and their objects destroyed; the last `munmap` fails. -/
theorem mappings_owned_two : ∃ r, Run.Chain Step (.start [5]) r ∧
    (Run.last (.start [5]) r).kernel.unmaps = [((49152, 100), some 1), ((40960, 8192), some 0)] ∧
    Run.Always Owned (.start [5]) r := by
  have hplays : ∃ r, Run.plays World.play (.start [5]) [.op (.make 0 8192 3 2 (-1) 0) (.ok 40960), .mapped 81920 4096,
      .op (.moveMake 1 0) (.ok 0), .op (.makeAt 2 4096 100 3 18 (-1) 0) (.error 22),
      .op (.makeAt 2 4096 100 3 2 (-1) 0) (.ok 49152), .op (.moveAssign 1 2) (.ok 0), .op (.destroy 0) (.ok 0),
      .op (.destroy 1) (.ok 0), .op (.destroy 2) (.error 12)] = some r := ⟨_, rfl⟩
  obtain ⟨r, hr⟩ := hplays
  have h := Run.plays_chain _ play_step hr
  refine ⟨r, h, ?_, (mappings_owned_iff _ r h).2 ?_⟩
  · cases hr; rfl
  · cases hr
    exact ⟨not_clobbers rfl, id, not_clobbers rfl, not_clobbers rfl, not_clobbers rfl, not_clobbers rfl,
      not_clobbers rfl, not_clobbers rfl, not_clobbers rfl, trivial⟩

end Fdcpp.Mapping
