/-
Arithmetic of a 64-bit target: `size_t` is the numbers modulo `2 ^ 64`, and `long` reads such a
number as a signed one.
-/
import Mathlib.Algebra.Group.Int.Defs
import Mathlib.Algebra.Group.Nat.Defs

/-- `a + b` on `size_t`. -/
def szAdd (a b : Nat) : Nat := (a + b) % 2 ^ 64

/-- `a - b` on `size_t`. -/
def szSub (a b : Nat) : Nat := if b ≤ a then a - b else a + 2 ^ 64 - b

/-- A `size_t` converted to `long`. -/
def asLong (n : Nat) : Int := if n < 2 ^ 63 then n else (n : Int) - 2 ^ 64

theorem szAdd_of_lt {a b : Nat} (h : a + b < 2 ^ 64) : szAdd a b = a + b := Nat.mod_eq_of_lt h

/-- A sum that wraps is less than either of its parts. -/
theorem szAdd_lt {a b : Nat} (ha : a < 2 ^ 64) (hb : b < 2 ^ 64) (h : 2 ^ 64 ≤ a + b) : szAdd a b < a := by
  unfold szAdd; omega

theorem szSub_of_le {a b : Nat} (h : b ≤ a) : szSub a b = a - b := if_pos h

theorem szSub_lt {a b : Nat} (ha : a < 2 ^ 64) (hb : b < 2 ^ 64) : szSub a b < 2 ^ 64 := by
  unfold szSub; split <;> omega

/-- The difference, added to what was subtracted, gives the number back. -/
theorem add_szSub {a b : Nat} (ha : a < 2 ^ 64) (hb : b < 2 ^ 64) : (b + szSub a b) % 2 ^ 64 = a := by
  unfold szSub; split <;> omega

theorem asLong_of_lt {n : Nat} (h : n < 2 ^ 63) : asLong n = n := if_pos h

theorem asLong_eq_natCast {n k : Nat} (h : asLong n = k) (hn : n < 2 ^ 64) : n = k := by
  unfold asLong at h; split at h <;> omega
