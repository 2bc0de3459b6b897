/-
The times `v`, `v + i`, `v + 2 * i`, …: which of them have come by a time `t`, and how long it is
from `t` to the next one, with what one unit of time changes in either.
-/
import Mathlib.Data.List.Range
import Mathlib.Data.Nat.Basic

namespace Periodic

variable {v i t x : Nat}

def IsExpiry (v i x : Nat) : Prop := ∃ n, x = v + n * i

theorem isExpiry_iff : IsExpiry v i x ↔ v ≤ x ∧ i ∣ x - v := by
  constructor
  · rintro ⟨n, rfl⟩
    exact ⟨Nat.le_add_right .., n, by rw [Nat.add_sub_cancel_left, Nat.mul_comm]⟩
  · rintro ⟨hle, n, hn⟩
    exact ⟨n, by rw [Nat.mul_comm, ← hn]; omega⟩

instance (v i x : Nat) : Decidable (IsExpiry v i x) := decidable_of_iff _ isExpiry_iff.symm

/-- The times that have come by `t`, in order. -/
def expiries (v i t : Nat) : List Nat := (List.range (t + 1)).filter fun x => IsExpiry v i x

/-- The time left at `t` to the next one; zero when there is none. -/
def dueIn (v i t : Nat) : Nat := if t < v then v - t else if i = 0 then 0 else i - (t - v) % i

theorem expiries_zero (hv : 0 < v) : expiries v i 0 = [] := by
  refine List.filter_eq_nil_iff.2 fun x hx => ?_
  rw [List.mem_range] at hx
  rw [decide_eq_true_iff, isExpiry_iff]
  omega

theorem expiries_succ (v i t : Nat) :
    expiries v i (t + 1) = expiries v i t ++ if IsExpiry v i (t + 1) then [t + 1] else [] := by
  unfold expiries
  rw [List.range_succ, List.filter_append, List.filter_cons, List.filter_nil]
  by_cases h : IsExpiry v i (t + 1)
  · rw [if_pos h, if_pos (decide_eq_true h)]
  · rw [if_neg h, if_neg (by rwa [decide_eq_true_iff])]

/-- The time since the last one, one unit later. -/
theorem succ_mod (n : Nat) (hi : 0 < i) : (n + 1) % i = if n % i + 1 = i then 0 else n % i + 1 := by
  have hlt := Nat.mod_lt n hi
  rw [← Nat.mod_add_mod]
  split
  · rename_i h
    rw [h, Nat.mod_self]
  · exact Nat.mod_eq_of_lt (by omega)

theorem dueIn_past (hvt : v ≤ t) (hi : 0 < i) : dueIn v i t = i - (t - v) % i := by
  unfold dueIn
  rw [if_neg (by omega), if_neg (by omega)]

/-- In the unit before one of the times. -/
theorem dueIn_one (h : dueIn v i t = 1) : IsExpiry v i (t + 1) ∧ dueIn v i (t + 1) = i := by
  by_cases hvt : t < v
  · have ht : t + 1 = v := by
      unfold dueIn at h
      rw [if_pos hvt] at h
      omega
    rw [ht]
    refine ⟨⟨0, by rw [Nat.zero_mul, Nat.add_zero]⟩, ?_⟩
    unfold dueIn
    rw [if_neg (Nat.lt_irrefl v), Nat.sub_self, Nat.zero_mod]
    split
    · rename_i h0; exact h0.symm
    · rfl
  · have hi : 0 < i := by
      by_contra h0
      unfold dueIn at h
      rw [if_neg hvt, if_pos (by omega)] at h
      cases h
    have hlt := Nat.mod_lt (t - v) hi
    rw [dueIn_past (by omega) hi] at h
    have hmod : (t + 1 - v) % i = 0 := by
      rw [show t + 1 - v = t - v + 1 by omega, succ_mod _ hi, if_pos (by omega)]
    refine ⟨isExpiry_iff.2 ⟨by omega, Nat.dvd_of_mod_eq_zero hmod⟩, ?_⟩
    rw [dueIn_past (by omega) hi, hmod, Nat.sub_zero]

theorem dueIn_more (h : 1 < dueIn v i t) : ¬ IsExpiry v i (t + 1) ∧ dueIn v i (t + 1) = dueIn v i t - 1 := by
  by_cases hvt : t < v
  · have hlt : t + 1 < v := by
      unfold dueIn at h
      rw [if_pos hvt] at h
      omega
    refine ⟨fun he => absurd (isExpiry_iff.1 he).1 (by omega), ?_⟩
    unfold dueIn
    rw [if_pos hlt, if_pos hvt]
    omega
  · have hi : 0 < i := by
      by_contra h0
      unfold dueIn at h
      rw [if_neg hvt, if_pos (by omega)] at h
      omega
    have hlt := Nat.mod_lt (t - v) hi
    rw [dueIn_past (by omega) hi] at h
    have hmod : (t + 1 - v) % i = (t - v) % i + 1 := by
      rw [show t + 1 - v = t - v + 1 by omega, succ_mod _ hi, if_neg (by omega)]
    refine ⟨fun he => ?_, ?_⟩
    · rw [Nat.mod_eq_zero_of_dvd (isExpiry_iff.1 he).2] at hmod
      omega
    · rw [dueIn_past (by omega) hi, dueIn_past (by omega) hi, hmod]
      omega

/-- After the last of them. -/
theorem dueIn_zero (h : dueIn v i t = 0) :
    i = 0 ∧ ¬ IsExpiry v i (t + 1) ∧ dueIn v i (t + 1) = 0 := by
  have hvt : v ≤ t := by
    by_contra hlt
    unfold dueIn at h
    rw [if_pos (by omega)] at h
    omega
  have hi : i = 0 := by
    by_contra h0
    have hlt := Nat.mod_lt (t - v) (Nat.pos_of_ne_zero h0)
    rw [dueIn_past hvt (by omega)] at h
    omega
  refine ⟨hi, fun he => ?_, ?_⟩
  · have h0 := Nat.eq_zero_of_zero_dvd (hi ▸ (isExpiry_iff.1 he).2)
    omega
  · unfold dueIn
    rw [if_neg (by omega), if_pos hi]

/-- The time left at one of the times is the interval. -/
theorem dueIn_isExpiry (h : IsExpiry v i t) : dueIn v i t = i := by
  obtain ⟨hvt, hdvd⟩ := isExpiry_iff.1 h
  rcases Nat.eq_zero_or_pos i with rfl | hi
  · unfold dueIn
    rw [if_neg (by omega), if_pos rfl]
  · rw [dueIn_past hvt hi, Nat.mod_eq_zero_of_dvd hdvd, Nat.sub_zero]

/-- The time left at the beginning. -/
theorem dueIn_start (h : v = 0 → i = 0) : dueIn v i 0 = v := by
  unfold dueIn
  split
  · exact Nat.sub_zero v
  · have hv : v = 0 := by omega
    rw [if_pos (h hv), hv]

/-- None of them comes before the time left has passed, or ever if there is none. -/
theorem wait : ∀ {d : Nat}, d < dueIn v i t ∨ dueIn v i t = 0 →
    dueIn v i (t + d) = dueIn v i t - d ∧ expiries v i (t + d) = expiries v i t
  | 0, _ => ⟨rfl, rfl⟩
  | d + 1, h => by
    obtain ⟨hdue, hsame⟩ := wait (d := d) (h.imp_left fun hlt => by omega)
    rw [← Nat.add_assoc, expiries_succ, hsame]
    by_cases h0 : dueIn v i (t + d) = 0
    · obtain ⟨-, hex, hnext⟩ := dueIn_zero h0
      rw [hnext, if_neg hex, List.append_nil]
      exact ⟨by omega, rfl⟩
    · obtain ⟨hex, hnext⟩ := dueIn_more (show 1 < dueIn v i (t + d) by omega)
      rw [hnext, if_neg hex, List.append_nil]
      exact ⟨by omega, rfl⟩

/-- When the time left has passed, the next of them has come. -/
theorem arrive (h : dueIn v i t ≠ 0) :
    IsExpiry v i (t + dueIn v i t) ∧ expiries v i (t + dueIn v i t) = expiries v i t ++ [t + dueIn v i t] := by
  obtain ⟨d, hd⟩ := Nat.exists_eq_succ_of_ne_zero h
  obtain ⟨hdue, hsame⟩ := wait (d := d) (v := v) (i := i) (t := t) (.inl (by omega))
  have hex := (dueIn_one (show dueIn v i (t + d) = 1 by omega)).1
  rw [hd, Nat.succ_eq_add_one, ← Nat.add_assoc, expiries_succ, hsame, if_pos hex]
  exact ⟨hex, rfl⟩

end Periodic
