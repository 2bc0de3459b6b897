/-
Resources and their holders. Holders take a resource that is not out, exchange what they hold, and
give back what they hold; then every resource that is out has exactly one holder. A ledger numbers
the leases it grants on resources and records which lease each return ended; under such holders
every lease ends exactly once.
-/
import Mathlib.Data.List.Count
import Mathlib.Data.Set.Insert
import Mathlib.Logic.Equiv.Basic

/-! ## Partial functions and what they are defined on -/

section Support

variable {ρ β : Type} [DecidableEq ρ]

theorem setOf_update_some (f : ρ → Option β) (r : ρ) (x : β) :
    {r' | Function.update f r (some x) r' ≠ none} = insert r {r' | f r' ≠ none} := by
  ext r'
  rw [Set.mem_ofPred_eq, Function.update_apply, Set.mem_insert_iff, Set.mem_ofPred_eq]
  by_cases h : r' = r
  · rw [if_pos h]; exact iff_of_true nofun (.inl h)
  · rw [if_neg h]; exact (or_iff_right h).symm

theorem setOf_update_none (f : ρ → Option β) (r : ρ) :
    {r' | Function.update f r none r' ≠ none} = {r' | f r' ≠ none} \ {r} := by
  ext r'
  rw [Set.mem_ofPred_eq, Function.update_apply, Set.mem_sdiff, Set.mem_ofPred_eq, Set.mem_singleton_iff]
  by_cases h : r' = r
  · rw [if_pos h]; exact iff_of_false (fun hn => hn rfl) fun hn => hn.2 h
  · rw [if_neg h]; exact (and_iff_left h).symm

theorem update_eq_some {f : ρ → Option β} {r c : ρ} {x z : β} (h : Function.update f r (some x) c = some z) :
    (c = r ∧ x = z) ∨ (c ≠ r ∧ f c = some z) := by
  rw [Function.update_apply] at h
  split at h
  · rename_i hc
    left
    exact ⟨hc, Option.some.inj h⟩
  · rename_i hc
    right
    exact ⟨hc, h⟩

theorem update_none_eq_some {f : ρ → Option β} {r c : ρ} {z : β} (h : Function.update f r none c = some z) :
    c ≠ r ∧ f c = some z := by
  rw [Function.update_apply] at h
  split at h
  · cases h
  · rename_i hc
    exact ⟨hc, h⟩

/-- What holds of every value still does when a value of which it holds comes in, or one goes. -/
theorem forall_update {P : β → Prop} {f : ρ → Option β} {r : ρ} {x : Option β} (h : ∀ c z, f c = some z → P z)
    (hx : ∀ z, x = some z → P z) : ∀ c z, Function.update f r x c = some z → P z := by
  intro c z hc
  cases x with
  | none => exact h c z (update_none_eq_some hc).2
  | some y =>
    rcases update_eq_some hc with ⟨-, rfl⟩ | ⟨-, hc⟩
    · exact hx y rfl
    · exact h c z hc

end Support

/-! ## Holders -/

namespace Holders

variable {ι ρ : Type}

/-- Every resource that is out has a holder, what is held is out, and no two hold the same. -/
structure Linear (hold : ι → Option ρ) (out : Set ρ) : Prop where
  leased : ∀ {i r}, hold i = some r → r ∈ out
  held : ∀ {r}, r ∈ out → ∃ i, hold i = some r
  one : ∀ {i j r}, hold i = some r → hold j = some r → i = j

variable {hold hold' : ι → Option ρ} {out : Set ρ} {i j : ι} {r : ρ}

theorem Linear.empty (h : ∀ i, hold i = none) : Linear hold (∅ : Set ρ) := by
  constructor
  · intro j r hj; rw [h j] at hj; cases hj
  · intro r hr; cases hr
  · intro j j' r hj; rw [h j] at hj; cases hj

/-- Holders may exchange what they hold. -/
theorem Linear.perm (h : Linear hold out) (e : Equiv.Perm ι) : Linear (hold ∘ e) out := by
  constructor
  · intro j r' hj; exact h.leased hj
  · intro r' hr'
    obtain ⟨j, hj⟩ := h.held hr'
    exact ⟨e.symm j, by rw [Function.comp_apply, Equiv.apply_symm_apply, hj]⟩
  · intro j j' r' hj hj'
    exact e.injective (h.one hj hj')

variable [DecidableEq ι]

theorem Linear.take (h : Linear hold out) (hi : hold i = none) (hr : r ∉ out) :
    Linear (Function.update hold i (some r)) (insert r out) := by
  have hfree : ∀ j, hold j ≠ some r := fun j hj => hr (h.leased hj)
  constructor
  · intro j r' hj
    rcases update_eq_some hj with ⟨-, rfl⟩ | ⟨-, hj⟩
    · exact Set.mem_insert ..
    · exact Set.mem_insert_of_mem _ (h.leased hj)
  · intro r' hr'
    rcases Set.mem_insert_iff.1 hr' with rfl | hr'
    · exact ⟨i, Function.update_self ..⟩
    · obtain ⟨j, hj⟩ := h.held hr'
      have hji : j ≠ i := by rintro rfl; rw [hi] at hj; cases hj
      exact ⟨j, by rw [Function.update_of_ne hji, hj]⟩
  · intro j j' r' hj hj'
    rcases update_eq_some hj with ⟨rfl, rfl⟩ | ⟨-, hj₁⟩
    · rcases update_eq_some hj' with ⟨rfl, -⟩ | ⟨-, hj₂⟩
      · rfl
      · exact absurd hj₂ (hfree j')
    · rcases update_eq_some hj' with ⟨rfl, rfl⟩ | ⟨-, hj₂⟩
      · exact absurd hj₁ (hfree j)
      · exact h.one hj₁ hj₂

theorem Linear.give (h : Linear hold out) (hi : hold i = some r) :
    Linear (Function.update hold i none) (out \ {r}) := by
  constructor
  · intro j r' hj
    obtain ⟨hji, hj⟩ := update_none_eq_some hj
    exact ⟨h.leased hj, by rintro rfl; exact hji (h.one hj hi)⟩
  · intro r' hr'
    obtain ⟨j, hj⟩ := h.held hr'.1
    have hji : j ≠ i := by rintro rfl; rw [hi] at hj; cases hj; exact hr'.2 rfl
    exact ⟨j, by rw [Function.update_of_ne hji, hj]⟩
  · intro j j' r' hj hj'
    exact h.one (update_none_eq_some hj).2 (update_none_eq_some hj').2

/-- An exchange between two holders as a permutation. -/
theorem comp_swap (hi : hold' i = hold j) (hj : hold' j = hold i)
    (ho : ∀ x, x ≠ i → x ≠ j → hold' x = hold x) : hold' = hold ∘ Equiv.swap i j := by
  funext x
  rw [Function.comp_apply]
  by_cases hxi : x = i
  · rw [hxi, Equiv.swap_apply_left, hi]
  · by_cases hxj : x = j
    · rw [hxj, Equiv.swap_apply_right, hj]
    · rw [Equiv.swap_apply_of_ne_of_ne hxi hxj, ho x hxi hxj]

/-! ### Holders of lists -/

section Lists

variable {f : ι → List ρ} {xs : List ρ}

/-- No resource is in two lists, or in one list twice. -/
structure Apart (f : ι → List ρ) : Prop where
  once : ∀ i, (f i).Nodup
  one : ∀ {i j r}, r ∈ f i → r ∈ f j → i = j

theorem mem_update_append {i j : ι} {r : ρ} :
    r ∈ Function.update f i (f i ++ xs) j ↔ r ∈ f j ∨ (j = i ∧ r ∈ xs) := by
  by_cases hj : j = i
  · subst hj; simp
  · simp [hj]

theorem mem_update_nil {i j : ι} {r : ρ} : r ∈ Function.update f i [] j ↔ j ≠ i ∧ r ∈ f j := by
  by_cases hj : j = i
  · subst hj; simp
  · simp [hj]

/-- New resources go to one of the lists. -/
theorem Apart.extend (h : Apart f) (i : ι) (hx : xs.Nodup) (hnew : ∀ r ∈ xs, ∀ j, r ∉ f j) :
    Apart (Function.update f i (f i ++ xs)) := by
  constructor
  · intro j
    by_cases hj : j = i
    · subst hj
      rw [Function.update_self]
      refine List.nodup_append.2 ⟨h.once j, hx, ?_⟩
      rintro r hr r' hr' rfl
      exact hnew r hr' j hr
    · rw [Function.update_of_ne hj]
      exact h.once j
  · intro j j' r hr hr'
    rcases mem_update_append.1 hr with hj | ⟨hj, hx⟩
    · rcases mem_update_append.1 hr' with hj' | ⟨-, hx'⟩
      · exact h.one hj hj'
      · exact absurd hj (hnew r hx' j)
    · rcases mem_update_append.1 hr' with hj' | ⟨hj', -⟩
      · exact absurd hj' (hnew r hx j')
      · rw [hj, hj']

theorem Apart.clear (h : Apart f) (i : ι) : Apart (Function.update f i []) := by
  constructor
  · intro j
    by_cases hj : j = i
    · subst hj
      rw [Function.update_self]
      exact List.nodup_nil
    · rw [Function.update_of_ne hj]
      exact h.once j
  · intro j j' r hr hr'
    exact h.one (mem_update_nil.1 hr).2 (mem_update_nil.1 hr').2

end Lists

end Holders

/-! ## Ledgers -/

/-- The lease each resource is out under, how many leases there were, and the lease that each return
so far ended, if any. -/
structure Ledger (ρ : Type) where
  lease : ρ → Option Nat
  leases : Nat
  returns : List (Option Nat)

namespace Ledger

variable {ι ρ : Type}

/-- The resources that are out. -/
def out (L : Ledger ρ) : Set ρ := {r | L.lease r ≠ none}

section Defs

variable [DecidableEq ρ]

/-- A new lease on `r`. -/
def take (L : Ledger ρ) (r : ρ) : Ledger ρ :=
  ⟨Function.update L.lease r (some L.leases), L.leases + 1, L.returns⟩

/-- `r` is returned. -/
def give (L : Ledger ρ) (r : ρ) : Ledger ρ :=
  ⟨Function.update L.lease r none, L.leases, L.returns ++ [L.lease r]⟩

end Defs

/-- Every return ended a lease, and every lease that is over was returned once. -/
structure Settled (L : Ledger ρ) : Prop where
  lt : ∀ {r k}, L.lease r = some k → k < L.leases
  inj : ∀ {r r' k}, L.lease r = some k → L.lease r' = some k → r = r'
  past : ∀ {k}, some k ∈ L.returns → k < L.leases
  out : ∀ {r k}, L.lease r = some k → some k ∉ L.returns
  back : ∀ {k}, k < L.leases → (∀ r, L.lease r ≠ some k) → L.returns.count (some k) = 1
  own : none ∉ L.returns

/-- The ways in which holders deal with the resources. -/
inductive Step [DecidableEq ι] [DecidableEq ρ] : (ι → Option ρ) × Ledger ρ → (ι → Option ρ) × Ledger ρ → Prop
  | idle {hold L} : Step (hold, L) (hold, L)
  | take {hold L i r} : hold i = none → L.lease r = none → Step (hold, L) (Function.update hold i (some r), L.take r)
  | swap {hold L} (i j : ι) : Step (hold, L) (hold ∘ Equiv.swap i j, L)
  | give {hold L i r} : hold i = some r → Step (hold, L) (Function.update hold i none, L.give r)

section Rules

variable {L : Ledger ρ} {r : ρ}

theorem settled_unused (h : ∀ r, L.lease r = none) (hn : L.leases = 0) (hr : L.returns = []) : L.Settled := by
  constructor
  · intro r k hk; rw [h r] at hk; cases hk
  · intro r r' k hk; rw [h r] at hk; cases hk
  · intro k hk; rw [hr] at hk; cases hk
  · intro r k _ hk; rw [hr] at hk; cases hk
  · intro k hk; omega
  · intro hm; rw [hr] at hm; cases hm

theorem out_unused (h : ∀ r, L.lease r = none) : L.out = ∅ := by
  ext r
  exact iff_of_false (fun hr => hr (h r)) (Set.notMem_empty r)

variable [DecidableEq ρ]

theorem lease_take (r' : ρ) : (L.take r).lease r' = if r' = r then some L.leases else L.lease r' := by
  unfold take
  exact Function.update_apply ..

theorem lease_give (r' : ρ) : (L.give r).lease r' = if r' = r then none else L.lease r' := by
  unfold give
  exact Function.update_apply ..

theorem out_take : (L.take r).out = insert r L.out := setOf_update_some L.lease r L.leases

theorem out_give : (L.give r).out = L.out \ {r} := setOf_update_none L.lease r

theorem Settled.take (h : L.Settled) (hr : L.lease r = none) : (L.take r).Settled where
  lt {r' k} hk := by
    rw [lease_take] at hk
    split at hk
    · cases hk; exact Nat.lt_succ_self _
    · exact Nat.lt_succ_of_lt (h.lt hk)
  inj {r₁ r₂ k} h₁ h₂ := by
    rw [lease_take] at h₁ h₂
    split at h₁ <;> split at h₂
    · simp_all
    -- the new number has not been given to another resource
    · cases h₁; exact absurd (h.lt h₂) (Nat.lt_irrefl _)
    · cases h₂; exact absurd (h.lt h₁) (Nat.lt_irrefl _)
    · exact h.inj h₁ h₂
  past hk := Nat.lt_succ_of_lt (h.past hk)
  out {r' k} hk hm := by
    rw [lease_take] at hk
    split at hk
    · cases hk; exact absurd (h.past hm) (Nat.lt_irrefl _)
    · exact h.out hk hm
  back {k} hk hnone := by
    have hne : k ≠ L.leases := fun he => hnone r (by rw [lease_take, if_pos rfl, he])
    refine h.back (Nat.lt_of_le_of_ne (Nat.le_of_lt_succ hk) hne) fun r' hr' => hnone r' ?_
    have hrr : r' ≠ r := by rintro rfl; rw [hr] at hr'; cases hr'
    rw [lease_take, if_neg hrr, hr']
  own := h.own

theorem Settled.give {k : Nat} (h : L.Settled) (hr : L.lease r = some k) : (L.give r).Settled where
  lt {r' k'} hk := by
    rw [lease_give] at hk
    split at hk
    · cases hk
    · exact h.lt hk
  inj {r₁ r₂ k'} h₁ h₂ := by
    rw [lease_give] at h₁ h₂
    split at h₁
    · cases h₁
    · split at h₂
      · cases h₂
      · exact h.inj h₁ h₂
  past {k'} hk := by
    rcases List.mem_append.1 hk with hk | hk
    · exact h.past hk
    · rw [List.mem_singleton, hr] at hk; cases hk; exact h.lt hr
  out {r' k'} hk hm := by
    rw [lease_give] at hk
    split at hk
    · cases hk
    · rename_i hne
      rcases List.mem_append.1 hm with hm | hm
      · exact h.out hk hm
      · rw [List.mem_singleton, hr] at hm
        cases hm
        exact hne (h.inj hk hr)
  back {k'} hk hnone := by
    show (L.returns ++ [L.lease r]).count (some k') = 1
    rw [List.count_append, hr]
    by_cases he : k' = k
    · subst he
      rw [List.count_eq_zero.2 (h.out hr), List.count_singleton_self]
    · have hback : L.returns.count (some k') = 1 := by
        refine h.back hk fun r' hr' => hnone r' ?_
        have hrr : r' ≠ r := by rintro rfl; rw [hr] at hr'; cases hr'; exact he rfl
        rw [lease_give, if_neg hrr, hr']
      rw [hback, List.count_eq_zero.2 (by simpa using he)]
  own hm := by
    rcases List.mem_append.1 hm with hm | hm
    · exact h.own hm
    · rw [List.mem_singleton, hr] at hm; cases hm

variable [DecidableEq ι]

theorem Step.exchange {hold hold' : ι → Option ρ} {i j : ι} (hi : hold' i = hold j) (hj : hold' j = hold i)
    (ho : ∀ x, x ≠ i → x ≠ j → hold' x = hold x) : Step (hold, L) (hold', L) := by
  rw [Holders.comp_swap hi hj ho]
  exact .swap i j

/-- Every step keeps the resources in the hands of one holder each and the ledger in order. -/
theorem Step.inv {x y : (ι → Option ρ) × Ledger ρ} (hs : Step x y) (hl : Holders.Linear x.1 x.2.out)
    (h : x.2.Settled) : Holders.Linear y.1 y.2.out ∧ y.2.Settled := by
  cases hs with
  | idle => exact ⟨hl, h⟩
  | take hi hr =>
    refine ⟨?_, h.take hr⟩
    rw [out_take]
    exact hl.take hi fun hn => hn hr
  | swap i j => exact ⟨hl.perm (Equiv.swap i j), h⟩
  | give hi =>
    obtain ⟨k, hk⟩ := Option.ne_none_iff_exists'.1 (hl.leased hi)
    refine ⟨?_, h.give hk⟩
    rw [out_give]
    exact hl.give hi

end Rules

end Ledger
