/-
Byte strings as C programs use them: ranges of an array and stores into one, the little- and
big-endian images of a number of a fixed width, and the terminator of a C string.
-/
import Mathlib.Data.List.TakeWhile
import Mathlib.Tactic.Ring

namespace Bytes

/-! ## Ranges of an array -/

/-- The `len` elements from `off` on. -/
def slice {α : Type} (l : List α) (off len : Nat) : List α := (l.drop off).take len

/-- `l` with `bs` stored from `off` on. -/
def splice {α : Type} (l : List α) (off : Nat) (bs : List α) : List α :=
  l.take off ++ bs ++ l.drop (off + bs.length)

section Ranges

variable {α : Type} {l bs : List α} {off o n : Nat}

theorem length_slice (h : off + n ≤ l.length) : (slice l off n).length = n := by
  simp [slice]; omega

@[simp] theorem slice_zero : slice l off 0 = [] := by simp [slice]

theorem slice_add (m : Nat) : slice l off (m + n) = slice l off m ++ slice l (off + m) n := by
  unfold slice
  rw [List.take_add, List.drop_drop]

theorem length_splice (h : off + bs.length ≤ l.length) : (splice l off bs).length = l.length := by
  simp [splice]; omega

/-- A store leaves the elements before it. -/
theorem slice_splice_before (h : off + bs.length ≤ l.length) (ho : o + n ≤ off) :
    slice (splice l off bs) o n = slice l o n := by
  unfold slice splice
  rw [List.append_assoc, List.drop_append_of_le_length (by simp; omega),
    List.take_append_of_le_length (by simp; omega), List.drop_take, List.take_take]
  congr 1; omega

/-- A store leaves the elements after it. -/
theorem slice_splice_after (h : off + bs.length ≤ l.length) (ho : off + bs.length ≤ o) :
    slice (splice l off bs) o n = slice l o n := by
  unfold slice splice
  have hlen : (l.take off ++ bs).length = off + bs.length := by simp; omega
  rw [List.drop_append, List.drop_eq_nil_of_le (by omega), hlen, List.nil_append, List.drop_drop]
  congr 2; omega

theorem splice_zero : splice l 0 bs = bs ++ l.drop bs.length := by simp [splice]

theorem slice_splice_self (h : off + bs.length ≤ l.length) : slice (splice l off bs) off bs.length = bs := by
  unfold slice splice
  have hlen : (l.take off).length = off := by simp; omega
  rw [List.append_assoc, List.drop_append, hlen, List.drop_eq_nil_of_le (by omega)]
  simp

end Ranges

/-! ## Ranges of a memory -/

/-- The `len` elements of a memory from `off` on. -/
def peek {α : Type} (mem : Nat → α) (off len : Nat) : List α := (List.range' off len).map mem

section Memory

variable {α : Type} {mem : Nat → α} {off m n : Nat}

@[simp] theorem length_peek : (peek mem off n).length = n := by simp [peek]

theorem peek_add : peek mem off (m + n) = peek mem off m ++ peek mem (off + m) n := by
  simp [peek, List.range'_append_1, ← List.map_append]

/-- Two strings lie back to back in a memory. -/
theorem peek_append {as bs : List α} : peek mem off (as ++ bs).length = as ++ bs ↔
    peek mem off as.length = as ∧ peek mem (off + as.length) bs.length = bs := by
  rw [List.length_append, peek_add]
  constructor
  · intro h
    exact List.append_inj h length_peek
  · rintro ⟨ha, hb⟩
    rw [ha, hb]

end Memory

/-! ## Numbers of a fixed width -/

/-- The little-endian image of `n` in `w` bytes. -/
def toLE : Nat → Nat → List UInt8
  | 0, _ => []
  | w + 1, n => UInt8.ofNat n :: toLE w (n / 256)

def ofLE : List UInt8 → Nat
  | [] => 0
  | b :: bs => b.toNat + 256 * ofLE bs

/-- The big-endian image of `n` in `w` bytes. -/
def toBE (w n : Nat) : List UInt8 := (toLE w n).reverse

def ofBE (bs : List UInt8) : Nat := ofLE bs.reverse

@[simp] theorem length_toLE : ∀ w n, (toLE w n).length = w
  | 0, _ => rfl
  | w + 1, n => by rw [toLE, List.length_cons, length_toLE w]

theorem toLE_add : ∀ v w n, toLE (v + w) n = toLE v n ++ toLE w (n / 256 ^ v)
  | 0, w, n => by rw [Nat.zero_add, toLE, List.nil_append, Nat.pow_zero, Nat.div_one]
  | v + 1, w, n => by
    rw [Nat.add_right_comm, toLE, toLE, toLE_add v, List.cons_append, Nat.div_div_eq_div_mul, Nat.pow_succ']

@[simp] theorem length_toBE (w n : Nat) : (toBE w n).length = w := by simp [toBE]

theorem ofLE_toLE : ∀ w n, ofLE (toLE w n) = n % 256 ^ w
  | 0, n => by simp [toLE, ofLE, Nat.mod_one]
  | w + 1, n => by
    rw [toLE, ofLE, ofLE_toLE w, Nat.pow_succ', Nat.mod_mul]
    simp

theorem ofLE_lt : ∀ bs : List UInt8, ofLE bs < 256 ^ bs.length
  | [] => by simp [ofLE]
  | b :: bs => by
    have hb : b.toNat < 256 := b.toNat_lt
    have ih := ofLE_lt bs
    rw [ofLE, List.length_cons, Nat.pow_succ']
    omega

theorem toLE_ofLE : ∀ bs : List UInt8, toLE bs.length (ofLE bs) = bs
  | [] => rfl
  | b :: bs => by
    have hb : b.toNat < 256 := b.toNat_lt
    have hdiv : (b.toNat + 256 * ofLE bs) / 256 = ofLE bs := by omega
    rw [List.length_cons, ofLE, toLE, hdiv, toLE_ofLE bs]
    congr 1
    apply UInt8.toNat_inj.1
    rw [UInt8.toNat_ofNat']
    omega

@[simp] theorem ofBE_toBE (w n : Nat) : ofBE (toBE w n) = n % 256 ^ w := by
  rw [ofBE, toBE, List.reverse_reverse, ofLE_toLE]

theorem toBE_ofBE (bs : List UInt8) : toBE bs.length (ofBE bs) = bs := by
  have h := toLE_ofLE bs.reverse
  rw [List.length_reverse] at h
  rw [ofBE, toBE, h, List.reverse_reverse]

/-! ## Structs -/

/-- A struct of `n` bytes. -/
abbrev Block (n : Nat) : Type := {bytes : List UInt8 // bytes.length = n}

namespace Block

variable {n : Nat}

/-- A store into a struct. -/
def store (b : Block n) (off : Nat) (bs : List UInt8) (h : off + bs.length ≤ n) : Block n :=
  ⟨splice b.val off bs, (length_splice (by rw [b.property]; exact h)).trans b.property⟩

theorem slice_store_self (b : Block n) {off m : Nat} {bs : List UInt8} (h : off + bs.length ≤ n) (hm : bs.length = m) :
    slice (b.store off bs h).val off m = bs := by
  subst hm
  exact slice_splice_self (by rw [b.property]; exact h)

/-- A store leaves the fields before it and after it. -/
theorem slice_store_of_disjoint (b : Block n) {off o m : Nat} {bs : List UInt8} (h : off + bs.length ≤ n)
    (ho : o + m ≤ off ∨ off + bs.length ≤ o) : slice (b.store off bs h).val o m = slice b.val o m := by
  have hb : off + bs.length ≤ b.val.length := by rw [b.property]; exact h
  rcases ho with ho | ho
  · exact slice_splice_before hb ho
  · exact slice_splice_after hb ho

end Block

/-! ## C strings -/

/-- The C string that starts `bs`, without its terminator. -/
def cstring (bs : List UInt8) : List UInt8 := bs.takeWhile (· ≠ 0)

/-- `strlen` on `bs`: `none` when the scan leaves `bs` without a terminator. -/
def strlen (bs : List UInt8) : Option Nat :=
  if 0 ∈ bs then some (cstring bs).length else none

theorem cstring_no_nul (bs : List UInt8) : 0 ∉ cstring bs := by
  intro h
  simpa using List.mem_takeWhile_imp h

theorem cstring_of_no_nul {s : List UInt8} (h : 0 ∉ s) : cstring s = s := by
  rw [cstring, List.takeWhile_eq_self_iff]
  intro b hb
  have hne : b ≠ 0 := by rintro rfl; exact h hb
  simpa using hne

theorem cstring_append {s rest : List UInt8} (h : 0 ∉ s) : cstring (s ++ 0 :: rest) = s := by
  have hs := cstring_of_no_nul h
  unfold cstring at hs ⊢
  rw [List.takeWhile_append_of_pos (List.takeWhile_eq_self_iff.1 hs)]
  simp

/-- A byte string with a terminator is its C string, the terminator and a rest. -/
theorem exists_cstring {bs : List UInt8} (h : 0 ∈ bs) :
    ∃ s rest, bs = s ++ 0 :: rest ∧ 0 ∉ s := by
  induction bs with
  | nil => cases h
  | cons b bs ih =>
    by_cases hb : b = 0
    · exact ⟨[], bs, by rw [hb]; rfl, by simp⟩
    · obtain ⟨s, rest, rfl, hs⟩ := ih ((List.mem_cons.1 h).resolve_left (Ne.symm hb))
      exact ⟨b :: s, rest, rfl, by simp [Ne.symm hb, hs]⟩

theorem strlen_append {s rest : List UInt8} (h : 0 ∉ s) : strlen (s ++ 0 :: rest) = some s.length := by
  rw [strlen, if_pos (by simp), cstring_append h]

end Bytes
