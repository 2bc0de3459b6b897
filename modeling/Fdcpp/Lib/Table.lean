/-
Tables of open files: which open file each descriptor number refers to. An allocator picks numbers
that are not in use, and installing a list of files gives each of them a new number of its own and
leaves the other numbers as they are.
-/
import Mathlib.Data.List.Basic
import Mathlib.Data.List.Nodup
import Mathlib.Data.Nat.Find

/-- A process's descriptors: numbers, each with the open file `α` it refers to. -/
abbrev Table (α : Type) : Type := List (Int × α)

namespace Table

variable {α : Type}

/-- The numbers that are open. -/
def nums (t : Table α) : List Int := t.map Prod.fst

/-- The open file that a number refers to. -/
def file (t : Table α) (n : Int) : Option α := List.lookup n t

@[simp] theorem nums_cons (n : Int) (x : α) (t : Table α) : nums ((n, x) :: t) = n :: nums t := rfl

@[simp] theorem file_self (n : Int) (x : α) (t : Table α) : file ((n, x) :: t) n = some x := by
  simp [file]

theorem file_cons_of_ne {n k : Int} (h : n ≠ k) (x : α) (t : Table α) : file ((k, x) :: t) n = file t n := by
  simp [file, List.lookup_cons, beq_false_of_ne h]

theorem file_cons (n k : Int) (x : α) (t : Table α) :
    file ((k, x) :: t) n = if n = k then some x else file t n := by
  split
  · rename_i h
    rw [h, file_self]
  · rename_i h
    exact file_cons_of_ne h x t

theorem file_eq_none {n : Int} : ∀ {t : Table α}, t.file n = none ↔ n ∉ t.nums
  | [] => by simp [file, nums]
  | (k, x) :: t => by
    have ih := file_eq_none (n := n) (t := t)
    by_cases h : n = k
    · subst h; simp
    · rw [file_cons_of_ne h, ih, nums_cons, List.mem_cons, not_or, and_iff_right h]

theorem mem_of_file {n : Int} {x : α} {t : Table α} (h : t.file n = some x) : (n, x) ∈ t := by
  obtain ⟨t₁, t₂, rfl, -⟩ := List.lookup_eq_some_iff.1 h
  exact List.mem_append_right t₁ (List.mem_cons_self ..)

/-- The table without the number `n`. -/
def close (t : Table α) (n : Int) : Table α := t.filter fun p => p.1 ≠ n

theorem file_close (n m : Int) : ∀ t : Table α, (t.close n).file m = if m = n then none else t.file m
  | [] => by simp [file, close]
  | (k, x) :: t => by
    have ih := file_close n m t
    unfold close at ih ⊢
    by_cases hk : k = n
    · rw [List.filter_cons_of_neg (by simp [hk]), ih]
      by_cases hm : m = n
      · rw [if_pos hm, if_pos hm]
      · rw [if_neg hm, if_neg hm, file_cons_of_ne (by rw [hk]; exact hm)]
    · rw [List.filter_cons_of_pos (by simp [hk])]
      by_cases hm : m = k
      · rw [hm, file_self, if_neg hk, file_self]
      · rw [file_cons_of_ne hm, file_cons_of_ne hm, ih]

theorem mem_nums_close {n m : Int} (t : Table α) : m ∈ (t.close n).nums ↔ m ∈ t.nums ∧ m ≠ n := by
  have hopen : ∀ t : Table α, m ∈ t.nums ↔ t.file m ≠ none := fun t => by rw [Ne, file_eq_none, not_not]
  rw [hopen, hopen, file_close]
  split <;> simp_all

/-- The table without any of the numbers, closed one after the other. -/
def closeAll (t : Table α) (ns : List Int) : Table α := ns.foldl close t

theorem mem_nums_closeAll {m : Int} :
    ∀ (ns : List Int) (t : Table α), m ∈ (t.closeAll ns).nums ↔ m ∈ t.nums ∧ m ∉ ns
  | [], t => by simp [closeAll]
  | n :: ns, t => by
    have ih := mem_nums_closeAll (m := m) ns (t.close n)
    rw [closeAll, List.foldl_cons, ← closeAll, ih, mem_nums_close, List.mem_cons, not_or, and_assoc]

/-- Closing leaves the other numbers as they are. -/
theorem file_closeAll_of_notMem {m : Int} :
    ∀ (ns : List Int) (t : Table α), m ∉ ns → (t.closeAll ns).file m = t.file m
  | [], _, _ => rfl
  | n :: ns, t, h => by
    obtain ⟨hn, hns⟩ := List.ne_and_not_mem_of_not_mem_cons h
    rw [closeAll, List.foldl_cons, ← closeAll, file_closeAll_of_notMem ns _ hns, file_close, if_neg hn]

/-- An allocator of descriptor numbers. -/
structure Alloc (α : Type) where
  pick : Table α → Int
  nonneg : ∀ t, 0 ≤ pick t
  fresh : ∀ t, pick t ∉ t.nums

theorem exists_free (t : Table α) : ∃ n : Nat, (n : Int) ∉ t.nums := by
  have hle : ∀ l : List Int, ∃ N : Nat, ∀ n ∈ l, n < N := by
    intro l
    induction l with
    | nil => exact ⟨0, nofun⟩
    | cons m l ih =>
      obtain ⟨N, hN⟩ := ih
      refine ⟨max N (m.toNat + 1), fun n hn => ?_⟩
      rcases List.mem_cons.1 hn with rfl | hn
      · omega
      · have := hN n hn; omega
  obtain ⟨N, hN⟩ := hle t.nums
  exact ⟨N, fun h => absurd (hN N h) (Int.lt_irrefl _)⟩

/-- The allocator that picks the lowest free number. -/
def Alloc.lowest (α : Type) : Alloc α where
  pick t := (Nat.find t.exists_free : Nat)
  nonneg _ := Int.natCast_nonneg _
  fresh t := Nat.find_spec t.exists_free

/-- New numbers for the files, and the table with them. -/
def installAll (A : Alloc α) (t : Table α) : List α → List Int × Table α
  | [] => ([], t)
  | x :: xs =>
    let r := installAll A ((A.pick t, x) :: t) xs
    (A.pick t :: r.1, r.2)

section Install

variable (A : Alloc α)

@[simp] theorem length_installAll : ∀ (t : Table α) (xs : List α), (t.installAll A xs).1.length = xs.length
  | _, [] => rfl
  | t, x :: xs => by rw [installAll, List.length_cons, length_installAll, List.length_cons]

/-- The numbers that were open and the new ones. -/
theorem mem_nums_installAll {n : Int} :
    ∀ (t : Table α) (xs : List α), n ∈ (t.installAll A xs).2.nums ↔ n ∈ t.nums ∨ n ∈ (t.installAll A xs).1
  | t, [] => by simp [installAll]
  | t, x :: xs => by
    rw [installAll, mem_nums_installAll]
    simp only [nums_cons, List.mem_cons]
    tauto

/-- A new number was not open. -/
theorem installAll_fresh {n : Int} :
    ∀ (t : Table α) (xs : List α), n ∈ (t.installAll A xs).1 → 0 ≤ n ∧ n ∉ t.nums
  | t, [], h => by cases h
  | t, x :: xs, h => by
    rcases List.mem_cons.1 h with rfl | h
    · exact ⟨A.nonneg t, A.fresh t⟩
    · obtain ⟨h0, hn⟩ := installAll_fresh _ xs h
      exact ⟨h0, fun hm => hn (List.mem_cons_of_mem _ hm)⟩

theorem nodup_installAll : ∀ (t : Table α) (xs : List α), (t.installAll A xs).1.Nodup
  | _, [] => List.nodup_nil
  | t, x :: xs => by
    refine List.nodup_cons.2 ⟨fun h => ?_, nodup_installAll _ xs⟩
    exact (installAll_fresh A _ xs h).2 (List.mem_cons_self ..)

/-- Installing leaves the numbers that were open as they are. -/
theorem file_installAll_of_mem {n : Int} :
    ∀ (t : Table α) (xs : List α), n ∈ t.nums → (t.installAll A xs).2.file n = t.file n
  | _, [], _ => rfl
  | t, x :: xs, h => by
    have hne : n ≠ A.pick t := fun he => A.fresh t (he ▸ h)
    rw [installAll, file_installAll_of_mem _ xs (List.mem_cons_of_mem _ h), file_cons_of_ne hne]

/-- Each new number refers to its file. -/
theorem map_file_installAll :
    ∀ (t : Table α) (xs : List α), (t.installAll A xs).1.map (t.installAll A xs).2.file = xs.map some
  | _, [] => rfl
  | t, x :: xs => by
    rw [installAll, List.map_cons, List.map_cons, map_file_installAll _ xs,
      file_installAll_of_mem A _ xs (List.mem_cons_self ..), file_self]

end Install

end Table
