/-
Walks over a buffer that holds records back to back: from each offset below the end of the buffer
the walk goes on to a later one, which the bytes at the offset determine. If that is always the
offset behind a record, the walk visits the records.
-/
import Mathlib.Algebra.GroupWithZero.Nat
import Mathlib.Data.List.Basic

/-- The offset that follows an offset. -/
structure Stride where
  next : Nat → Nat
  lt_next : ∀ o, o < next o

namespace Stride

/-- The offsets that the walk from `o` to the end `size` visits. -/
def visited (s : Stride) (size o : Nat) : List Nat :=
  if o < size then o :: s.visited size (s.next o) else []
termination_by size - o
decreasing_by
  have h := s.lt_next o
  omega

/-- The offset at which the walk ends. -/
def stop (s : Stride) (size o : Nat) : Nat :=
  if o < size then s.stop size (s.next o) else o
termination_by size - o
decreasing_by
  have h := s.lt_next o
  omega

/-- Records of the sizes `ns` lie back to back from `o` on. -/
def Follows (s : Stride) : Nat → List Nat → Prop
  | _, [] => True
  | o, n :: ns => s.next o = o + n ∧ Follows s (o + n) ns

variable {s : Stride} {size o k : Nat} {ns : List Nat}

theorem visited_of_lt (h : o < size) : s.visited size o = o :: s.visited size (s.next o) := by
  rw [visited, if_pos h]

theorem visited_of_le (h : size ≤ o) : s.visited size o = [] := by
  rw [visited, if_neg (by omega)]

theorem stop_of_lt (h : o < size) : s.stop size o = s.stop size (s.next o) := by
  rw [stop, if_pos h]

theorem stop_of_le (h : size ≤ o) : s.stop size o = o := by
  rw [stop, if_neg (by omega)]

theorem le_stop (s : Stride) (size o : Nat) : size ≤ s.stop size o := by
  fun_induction stop s size o with
  | case1 o _ ih => exact ih
  | case2 o h => omega

theorem mem_visited {a : Nat} (h : a ∈ s.visited size o) : o ≤ a ∧ a < size := by
  fun_induction visited s size o with
  | case1 o hlt ih =>
    rcases List.mem_cons.1 h with rfl | h
    · exact ⟨Nat.le_refl a, hlt⟩
    · have hnext := s.lt_next o
      have := ih h
      omega
  | case2 => cases h

/-- Offsets that are `k` apart at each step are so throughout. -/
theorem pairwise_visited (hk : ∀ o, o + k ≤ s.next o) (size o : Nat) :
    (s.visited size o).Pairwise fun a b => a + k ≤ b := by
  fun_induction visited s size o with
  | case1 o _ ih =>
    refine List.pairwise_cons.2 ⟨fun a ha => ?_, ih⟩
    have hle := hk o
    have := mem_visited ha
    omega
  | case2 => exact .nil

/-- A walk in steps of at least `k` takes not many of them. -/
theorem length_visited_le (hpos : 0 < k) (hk : ∀ o, o + k ≤ s.next o) (size o : Nat) :
    (s.visited size o).length ≤ (size - o) / k + 1 := by
  have hmul : (s.visited size o).length * k ≤ size - o + (k - 1) := by
    fun_induction visited s size o with
    | case1 o hlt ih =>
      have hle := hk o
      rw [List.length_cons, Nat.succ_mul]
      by_cases hend : s.next o < size
      · omega
      · rw [visited_of_le (by omega), List.length_nil]
        omega
    | case2 => simp
  have hdiv : (s.visited size o).length ≤ (size - o + (k - 1)) / k := (Nat.le_div_iff_mul_le hpos).2 hmul
  calc (s.visited size o).length
      ≤ (size - o + (k - 1)) / k := hdiv
    _ ≤ (size - o + k) / k := Nat.div_le_div_right (by omega)
    _ = (size - o) / k + 1 := Nat.add_div_right _ hpos

section Follows

variable {n : Nat}

theorem add_sum_cons (o n : Nat) (ns : List Nat) : o + (n :: ns).sum = o + n + ns.sum := by
  rw [List.sum_cons, Nat.add_assoc]

theorem Follows.lt (h : s.Follows o (n :: ns)) : o < o + n + ns.sum := by
  have hlt := s.lt_next o
  rw [h.1] at hlt
  omega

theorem Follows.visited_cons (h : s.Follows o (n :: ns)) :
    s.visited (o + (n :: ns).sum) o = o :: s.visited (o + n + ns.sum) (o + n) := by
  rw [add_sum_cons, visited_of_lt h.lt, h.1]

/-- A walk over records that fill the buffer ends at its end. -/
theorem Follows.stop (h : s.Follows o ns) : s.stop (o + ns.sum) o = o + ns.sum := by
  induction ns generalizing o with
  | nil => exact stop_of_le (Nat.le_refl _)
  | cons n ns ih =>
    rw [add_sum_cons, stop_of_lt h.lt, h.1]
    exact ih h.2

/-- A walk over records that fill the buffer steps over nothing behind its end. -/
theorem Follows.inside (h : s.Follows o ns) {a : Nat} (ha : a ∈ s.visited (o + ns.sum) o) : s.next a ≤ o + ns.sum := by
  induction ns generalizing o with
  | nil =>
    rw [visited_of_le (by simp)] at ha
    cases ha
  | cons n ns ih =>
    rw [h.visited_cons] at ha
    rw [add_sum_cons]
    rcases List.mem_cons.1 ha with rfl | ha
    · rw [h.1]
      omega
    · exact ih h.2 ha

/-- A walk over records that fill the buffer visits where each of them starts. -/
theorem Follows.visited (h : s.Follows o ns) :
    s.visited (o + ns.sum) o = (List.range ns.length).map fun i => o + (ns.take i).sum := by
  induction ns generalizing o with
  | nil => exact visited_of_le (Nat.le_refl _)
  | cons n ns ih =>
    rw [h.visited_cons, ih h.2, List.length_cons, List.range_succ_eq_map, List.map_cons, List.map_map]
    simp [Function.comp_def, Nat.add_assoc]

end Follows

end Stride
