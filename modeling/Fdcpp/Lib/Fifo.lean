/-
A first-in first-out channel and what comes out of it: the items a reader has taken are a prefix of
those a writer has pushed, and when the items are the blocks of two block sequences that agree in
length, block by block, the blocks taken are a prefix of the blocks pushed.
-/
import Mathlib.Data.List.Basic

/-- A channel: what the reader has taken, what has arrived for it, and what is on its way. -/
structure Fifo (α : Type) where
  taken : List α
  arrived : List α
  inflight : List α

namespace Fifo

variable {α : Type}

def empty : Fifo α := ⟨[], [], []⟩

/-- All that has been pushed. -/
def sent (c : Fifo α) : List α := c.taken ++ c.arrived ++ c.inflight

def push (c : Fifo α) (xs : List α) : Fifo α := { c with inflight := c.inflight ++ xs }

/-- The next `n` items arrive. -/
def deliver (c : Fifo α) (n : Nat) : Fifo α :=
  { c with arrived := c.arrived ++ c.inflight.take n, inflight := c.inflight.drop n }

/-- The reader takes `xs`, which has arrived. -/
def pull (c : Fifo α) (xs : List α) : Fifo α :=
  { c with taken := c.taken ++ xs, arrived := c.arrived.drop xs.length }

@[simp] theorem sent_push (c : Fifo α) (xs : List α) : (c.push xs).sent = c.sent ++ xs := by
  simp [push, sent]

@[simp] theorem taken_push (c : Fifo α) (xs : List α) : (c.push xs).taken = c.taken := rfl

@[simp] theorem sent_deliver (c : Fifo α) (n : Nat) : (c.deliver n).sent = c.sent := by
  simp [deliver, sent]

@[simp] theorem taken_deliver (c : Fifo α) (n : Nat) : (c.deliver n).taken = c.taken := rfl

theorem sent_pull {c : Fifo α} {xs : List α} (h : xs <+: c.arrived) : (c.pull xs).sent = c.sent := by
  obtain ⟨rest, hr⟩ := h
  simp [pull, sent, ← hr]

@[simp] theorem taken_pull (c : Fifo α) (xs : List α) : (c.pull xs).taken = c.taken ++ xs := rfl

/-- What has been taken is the first of what was pushed. -/
theorem taken_le (c : Fifo α) : c.taken <+: c.sent :=
  ⟨c.arrived ++ c.inflight, by rw [sent, List.append_assoc]⟩

/-! ## Growth -/

/-- `c'` is `c` after some pushes and deliveries. -/
structure Grows (c c' : Fifo α) : Prop where
  taken : c'.taken = c.taken
  arrived : c.arrived <+: c'.arrived
  sent : c.sent <+: c'.sent

theorem Grows.refl (c : Fifo α) : c.Grows c := ⟨rfl, List.prefix_rfl, List.prefix_rfl⟩

theorem grows_push (c : Fifo α) (xs : List α) : c.Grows (c.push xs) :=
  ⟨rfl, List.prefix_rfl, by rw [sent_push]; exact List.prefix_append _ _⟩

theorem grows_deliver (c : Fifo α) (n : Nat) : c.Grows (c.deliver n) :=
  ⟨rfl, List.prefix_append _ _, by simp⟩

theorem length_sent (c : Fifo α) : c.sent.length = c.taken.length + c.arrived.length + c.inflight.length := by
  simp [sent, Nat.add_assoc]

/-! ## Blocks -/

/-- Block sequences that agree in length, block by block, agree wherever their contents do. -/
theorem map_prefix_of_flatMap_prefix {β γ : Type} {f : β → List α} {g : γ → List α} (hf : ∀ x, f x ≠ []) :
    ∀ (xs : List β) (ys : List γ),
      (∀ (k : Nat) (x : β) (y : γ), xs[k]? = some x → ys[k]? = some y → (f x).length = (g y).length) →
      xs.flatMap f <+: ys.flatMap g → xs.map f <+: ys.map g
  | [], _, _, _ => List.nil_prefix
  | x :: xs, [], _, h => by
    simp only [List.flatMap_cons, List.flatMap_nil, List.prefix_nil, List.append_eq_nil_iff] at h
    exact absurd h.1 (hf x)
  | x :: xs, y :: ys, hlen, h => by
    obtain ⟨t, ht⟩ := h
    simp only [List.flatMap_cons, List.append_assoc] at ht
    obtain ⟨hxy, hrest⟩ := List.append_inj ht (hlen 0 x y rfl rfl)
    have ih := map_prefix_of_flatMap_prefix hf xs ys (fun k x y hx hy => hlen (k + 1) x y hx hy) ⟨t, hrest⟩
    rw [List.map_cons, List.map_cons, hxy]
    exact List.cons_prefix_cons.2 ⟨rfl, ih⟩

end Fifo
