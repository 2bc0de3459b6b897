/-
Which descriptors `recv` adopts, whatever a peer sends. `recv` reads as many ints as it computes
from the announced size and what it has already, and takes no notice of how many the kernel
attached: it adopts what was installed exactly when the two numbers agree for every message.
-/
import Fdcpp.Fdpass.RoundTrip
import Mathlib.Data.List.Perm.Subperm

namespace Fdcpp.Fdpass

open Bytes

variable {α : Type} {A : Table.Alloc α} {s : Receiver α}

/-! ## What is asked of a call -/

/-- What the destructor of the vector closes when the call ends by an exception. -/
def Outcome.closed : Outcome α → List Int
  | .thrown _ s _ => s.v
  | _ => []

/-- The vector has only numbers installed in this call, each once; each installed number is in it,
and so is closed with it by an exception; no copy loop outruns the descriptors of its message, and
none leaves the buffer. -/
structure Adopts (o : Outcome α) : Prop where
  only : ∀ n ∈ o.state.v, n ∈ o.state.installed
  once : o.state.v.Nodup
  kept : ∀ n ∈ o.state.installed, n ∈ o.state.v
  closed : ∀ e s rest, o = .thrown e s rest → ∀ n ∈ s.installed, n ∈ o.closed
  copies : o.state.overran = false
  inside : ∀ s, o ≠ .fault s

/-- Each message that is received, `got` descriptors having been received before it, has as many
attached as `recv` reads, where the kernel drops what is beyond ten. -/
def Framed : Nat → List (Except Errno (Message α)) → Prop
  | got, .ok m :: queue =>
    batchSize m.size got = (min m.attached.length maxBatchSize : Nat) ∧
      ((got + min m.attached.length maxBatchSize) % 2 ^ 64 ≠ m.size.toNat →
        Framed (got + min m.attached.length maxBatchSize) queue)
  | _, _ => True

/-! ## Messages that are not framed -/

theorem overran_cons {m : Message α} {queue : List (Except Errno (Message α))}
    (hrest : ∀ s : Receiver α, s.overran = true → (recvLoop A s queue).state.overran = true)
    (h : (adopt (recvmsg A s m) m).1.overran = true) : (recvLoop A s (.ok m :: queue)).state.overran = true := by
  rw [recvLoop]
  rcases hr : adopt (recvmsg A s m) m with ⟨s', out⟩
  rw [hr] at h
  cases out with
  | true => exact h
  | false =>
    dsimp only
    split
    · exact h
    · exact hrest s' h

/-- A copy loop that has run too far is not forgotten. -/
theorem overran_recvLoop : ∀ (queue : List (Except Errno (Message α))) (s : Receiver α), s.overran = true →
    (recvLoop A s queue).state.overran = true
  | [], _, h => h
  | .error _ :: _, _, h => h
  | .ok m :: queue, s, h => by
    refine overran_cons (overran_recvLoop queue) ?_
    show (s.overran || _) = true
    rw [h, Bool.true_or]

theorem not_adopts_of_overran {m : Message α} {queue : List (Except Errno (Message α))}
    (h : batchSize m.size s.v.length < 0 ∨ (m.attached.length : Int) < batchSize m.size s.v.length) :
    ¬ Adopts (recvLoop A s (.ok m :: queue)) := by
  intro ha
  have hadopt : (adopt (recvmsg A s m) m).1.overran = true := by
    show (s.overran || decide _) = true
    rw [Bool.or_eq_true, decide_eq_true_iff]
    exact .inr h
  have hover := overran_cons (overran_recvLoop queue) hadopt
  exact absurd (ha.copies.symm.trans hover) (by decide)

/-- After a batch that is not full the vector has the announced size. -/
theorem size_of_batchSize {size : UInt64} {n k : Nat} (h : batchSize size n = k) (hk : k < maxBatchSize) :
    (n + k) % 2 ^ 64 = size.toNat := by
  have hn : n % 2 ^ 64 < 2 ^ 64 := Nat.mod_lt _ (by decide)
  have hdiff : asLong (szSub size.toNat (n % 2 ^ 64)) = k := by
    unfold batchSize at h; omega
  have hsub := asLong_eq_natCast hdiff (szSub_lt size.toNat_lt hn)
  have hadd := add_szSub size.toNat_lt hn
  rw [hsub] at hadd
  omega

/-- When fewer are read than were installed, `recv` returns without the others. -/
theorem not_adopts_of_short (h : Ready s) {m : Message α} {queue : List (Except Errno (Message α))} {k : Nat}
    (hk : batchSize m.size s.v.length = k) (hlt : k < min m.attached.length maxBatchSize) :
    ¬ Adopts (recvLoop A s (.ok m :: queue)) := by
  have hnums : (s.table.installAll A (m.attached.take maxBatchSize)).1.length =
      min m.attached.length maxBatchSize := by rw [Table.length_installAll, List.length_take, Nat.min_comm]
  -- the vector gets the first `k` of the new numbers, and has the announced size then
  obtain ⟨s', ha, hv, hinst, hsize⟩ : ∃ s', adopt (recvmsg A s m) m = (s', false) ∧
      s'.v = s.v ++ (s.table.installAll A (m.attached.take maxBatchSize)).1.take k ∧
      s'.installed = s.v ++ (s.table.installAll A (m.attached.take maxBatchSize)).1 ∧ s'.size = m.size := by
    refine ⟨_, adopt_ready h hk hlt.le, rfl, ?_, rfl⟩
    rw [recvmsg_ready h m, h.installed]
  have hvlen : s'.v.length = s.v.length + k := by
    rw [hv, List.length_append, List.length_take]; omega
  have hret : s'.v.length % 2 ^ 64 = s'.size.toNat := by
    rw [hvlen, hsize]; exact size_of_batchSize hk (by omega)
  rw [recvLoop, ha]
  dsimp only
  rw [if_pos hret]
  intro hadopts
  have hsub : s'.installed ⊆ s'.v := hadopts.kept
  have hnodup : s'.installed.Nodup := by
    rw [hinst]; exact (took_of_ready (A := A) h m).nodup
  have hle := (List.Nodup.subperm hnodup hsub).length_le
  rw [hinst, List.length_append, hnums, hvlen] at hle
  omega

/-! ## The condition -/

theorem adopts_of_owned {o : Outcome α} (h : Owned o.state) (hf : ∀ s, o ≠ .fault s) : Adopts o where
  only n hn := h.installed ▸ hn
  once := h.nodup
  kept n hn := h.installed ▸ hn
  closed e s rest ho n hn := by
    subst ho
    show n ∈ s.v
    rw [← show s.installed = s.v from h.installed]
    exact hn
  copies := h.overran
  inside := hf

theorem adopts_loop_iff : ∀ (queue : List (Except Errno (Message α))) (s : Receiver α), Ready s →
    (Adopts (recvLoop A s queue) ↔ Framed s.v.length queue)
  | [], s, h => iff_of_true (adopts_of_owned h.toOwned nofun) trivial
  | .error e :: queue, s, h => iff_of_true (adopts_of_owned h.toOwned nofun) trivial
  | .ok m :: queue, s, h => by
    by_cases hb : batchSize m.size s.v.length = (min m.attached.length maxBatchSize : Nat)
    · obtain ⟨s', ht, hloop⟩ := recvLoop_took (A := A) h hb queue
      have hlen : s'.v.length = s.v.length + min m.attached.length maxBatchSize := by
        rw [ht.v, List.length_append, Table.length_installAll, List.length_take, Nat.min_comm]
      rw [hloop, Framed, and_iff_right hb, ← hlen]
      split
      · rename_i hret
        exact iff_of_true (adopts_of_owned ht.toOwned nofun) fun hne => absurd hret hne
      · rename_i hret
        -- `recv` goes on after full batches only
        have hfull : maxBatchSize ≤ m.attached.length := by
          by_contra hshort
          refine hret ?_
          rw [hlen]
          exact size_of_batchSize hb (by omega)
        rw [adopts_loop_iff queue s' (ht.ready hfull)]
        constructor
        · intro hq _
          exact hq
        · intro hq
          exact hq hret
    · refine iff_of_false ?_ fun hf => hb hf.1
      by_cases hover : batchSize m.size s.v.length < 0 ∨ (m.attached.length : Int) < batchSize m.size s.v.length
      · exact not_adopts_of_overran hover
      · have hle : batchSize m.size s.v.length ≤ maxBatchSize := min_le_right _ _
        obtain ⟨k, hk⟩ := Int.eq_ofNat_of_zero_le (a := batchSize m.size s.v.length) (by omega)
        exact not_adopts_of_short h hk (by omega)

/-- For every sequence of messages and failures that `recvmsg` delivers: `recv` adopts exactly what
was attached if and only if every message it receives has as many descriptors attached as `recv` computes. -/
theorem recv_adopts_iff (A : Table.Alloc α) (env : Env α) (queue : List (Except Errno (Message α))) :
    Adopts (recv A env queue) ↔ Framed 0 queue := adopts_loop_iff queue _ (env_ready env)

/-- A peer announces two descriptors and attaches one: `recv` adopts an int that was in its
uninitialised buffer. -/
theorem recv_adopts_stale :
    let o := recv (Table.Alloc.lowest Unit) ⟨[], 0, ⟨List.replicate 10 7, rfl⟩⟩ [.ok ⟨2, [()]⟩]
    o.state.v = [0, 7] ∧ o.state.installed = [0] ∧ ¬ Adopts o := by
  intro o
  have hv : o.state.v = [0, 7] := by decide +kernel
  have hinst : o.state.installed = [0] := by decide +kernel
  refine ⟨hv, hinst, fun h => ?_⟩
  have hmem := h.only 7 (by rw [hv]; decide)
  rw [hinst] at hmem
  revert hmem
  decide

end Fdcpp.Fdpass
