/-
Any number of processes whose threads pass descriptors over datagram sockets, one system call at a
time: they open files, are in calls of `fdpass::send` and `fdpass::recv`, and destroy the vectors they
have received; other programs send what they like. Every descriptor that comes to a process is in
exactly one vector there, and is closed with it, as long as each message that is received has as
many descriptors attached as `recv` computes.
-/
import Fdcpp.Fdpass.Adoption
import Fdcpp.Fdpass.Senders
import Fdcpp.Lib.Ledger

namespace Fdcpp.Fdpass

open Bytes

variable {ι θ κ α : Type}

/-! ## Vectors of descriptors -/

/-- What is in the place for a vector of descriptors: nothing; the variables of a `recv` from the socket
`c` that is under way; or the vector. `got` are the files that were installed for it. -/
inductive Place (κ α : Type)
  | empty
  | receiving (c : κ) (s : Receiver α) (got : List α)
  | vector (v : List Int) (got : List α)
  | undefined

namespace Place

/-- The numbers in the vector. -/
def nums : Place κ α → List Int
  | .receiving _ s _ => s.v
  | .vector v _ => v
  | _ => []

/-- The files that were installed for it. -/
def files : Place κ α → List α
  | .receiving _ _ got => got
  | .vector _ got => got
  | _ => []

/-- The files of a vector that has been returned. -/
def returned : Place κ α → List (List α)
  | .vector _ got => [got]
  | _ => []

end Place

/-- The destructor of a vector: that of each `descriptor`. -/
def closeVector (t : Table α) (v : List Int) : Table α := t.closeAll (v.filter (0 ≤ ·))

/-- The variables of `recv` at its beginning. -/
def Env.start (env : Env α) : Receiver α :=
  { v := [], size := env.size, controllen := cmsgSpace (maxBatchSize * intSize), data := env.data.1,
    table := env.table, installed := [], overran := false }

section Turn

variable (A : Table.Alloc α)

/-- One turn of the loop of `recv`, for the message `m`: the descriptors of the process after it, and
what becomes of the call. -/
def turn (c : κ) (s : Receiver α) (got : List α) (m : Message α) : Table α × Place κ α :=
  let r := adopt (recvmsg A s m) m
  let got := got ++ m.attached.take (maxFds s.controllen)
  (r.1.table,
    if r.2 then .undefined
    else if r.1.v.length % 2 ^ 64 = r.1.size.toNat then .vector r.1.v got else .receiving c r.1 got)

/-- How `recv` goes on from a place over the messages that follow. -/
def Place.Ends (t : Table α) (queue : List (Except Errno (Message α))) : Place κ α → Outcome α → Prop
  | .empty, _ => False
  | .receiving _ s _, o => s.table = t ∧ o = recvLoop A s queue
  | .vector v _, o => ∃ s, s.v = v ∧ s.table = t ∧ o = .returned s queue
  | .undefined, o => ∃ s, o = .fault s

/-- The loop of `recv` is its first turn and the loop from there on. -/
theorem turn_recvLoop (c : κ) (s : Receiver α) (got : List α) (m : Message α)
    (queue : List (Except Errno (Message α))) :
    (turn A c s got m).2.Ends A (turn A c s got m).1 queue (recvLoop A s (.ok m :: queue)) := by
  unfold turn recvLoop
  rcases adopt (recvmsg A s m) m with ⟨s', _ | _⟩
  · dsimp only
    rw [if_neg (by decide)]
    split
    · exact ⟨s', rfl, rfl, rfl⟩
    · exact ⟨rfl, rfl⟩
  · exact ⟨s', rfl⟩

/-- A call stays at its socket. -/
theorem turn_socket {c c' : κ} {s s' : Receiver α} {got got' : List α} {m : Message α} {t : Table α}
    (h : turn A c s got m = (t, .receiving c' s' got')) : c' = c := by
  unfold turn at h
  obtain ⟨-, h⟩ := Prod.mk.inj h
  split at h
  · cases h
  · split at h
    · cases h
    · cases h; rfl

end Turn

/-! ## The processes -/

/-- The descriptors of a process, and its places for vectors. -/
structure Process (θ κ α : Type) where
  table : Table α
  place : θ → Place κ α

/-- The processes; for each socket the calls of `send` to it and all messages that have arrived, the
messages that are in its queue, and the files of the vectors that calls of `recv` have returned. -/
structure World (ι θ κ α : Type) where
  procs : ι → Process θ κ α
  chan : κ → System (ι × θ) α
  pending : κ → List (Message α)
  returned : κ → List (List α)

/-- What happens next. -/
inductive Act (ι θ κ : Type)
  | opens (i : ι) (k : θ)
  | starts (i : ι) (k : θ) (c : κ)
  | puts (i : ι) (k : θ) (c : κ)
  | breaks (i : ι) (k : θ) (c : κ)
  | posts (c : κ)
  | begins (i : ι) (k : θ) (c : κ)
  | takes (i : ι) (k : θ)
  | fails (i : ι) (k : θ)
  | destroys (i : ι) (k : θ)

namespace World

/-- The processes with the descriptors `base`, before they do anything. -/
def start (base : ι → Table α) : World ι θ κ α :=
  ⟨fun i => ⟨base i, fun _ => .empty⟩, fun _ => .init, fun _ => [], fun _ => []⟩

/-- The process `i` has the descriptors `t` now, and `p` in its place `k`. -/
def set [DecidableEq ι] [DecidableEq θ] (w : World ι θ κ α) (i : ι) (k : θ) (t : Table α) (p : Place κ α) :
    World ι θ κ α :=
  { w with procs := Function.update w.procs i ⟨t, Function.update (w.procs i).place k p⟩ }

@[simp] theorem procs_set [DecidableEq ι] [DecidableEq θ] (w : World ι θ κ α) (i : ι) (k : θ) (t : Table α)
    (p : Place κ α) : (w.set i k t p).procs i = ⟨t, Function.update (w.procs i).place k p⟩ := Function.update_self ..

variable [DecidableEq κ]

/-- The calls of `send` to the socket `c` are `s` now. -/
def setChan (w : World ι θ κ α) (c : κ) (s : System (ι × θ) α) : World ι θ κ α :=
  { w with chan := Function.update w.chan c s }

/-- The message `m` arrives at the socket `c`. -/
def arrive (w : World ι θ κ α) (c : κ) (m : Message α) : World ι θ κ α :=
  { w with pending := Function.update w.pending c (w.pending c ++ [m]) }

@[simp] theorem chan_setChan (w : World ι θ κ α) (c : κ) (s : System (ι × θ) α) : (w.setChan c s).chan c = s :=
  Function.update_self ..

@[simp] theorem pending_arrive (w : World ι θ κ α) (c : κ) (m : Message α) :
    (w.arrive c m).pending c = w.pending c ++ [m] := Function.update_self ..

end World

section Step

variable [DecidableEq ι] [DecidableEq θ] [DecidableEq κ] (A : Table.Alloc α)

/-- One system call of a thread, with what it does up to its next one, or the message of another program. -/
inductive Step : World ι θ κ α → Act ι θ κ → World ι θ κ α → Prop
  /-- A descriptor that is opened in another way is in a place of its own. -/
  | opens {w : World ι θ κ α} (i : ι) (k : θ) (x : α) (hk : (w.procs i).place k = .empty) :
      Step w (.opens i k) (w.set i k ((w.procs i).table.installAll A [x]).2
        (.vector ((w.procs i).table.installAll A [x]).1 [x]))
  | starts {w : World ι θ κ α} (i : ι) (k : θ) (c : κ) (call : SendCall α) (ht : call.table = (w.procs i).table)
      (hk : (w.chan c).sender (i, k) = none) :
      Step w (.starts i k c) (w.setChan c { w.chan c with
        sender := Function.update (w.chan c).sender (i, k) (some (call, (send call.junk call.range).prog ())) })
  | puts {w : World ι θ κ α} (i : ι) (k : θ) (c : κ) {call : SendCall α} {o : Outgoing}
      {next : Except Errno Nat → SendProg} {m : Message α} (n : Nat)
      (hs : (w.chan c).sender (i, k) = some (call, .ask o next)) (hm : o.message (w.procs i).table = some m) :
      Step w (.puts i k c) ((w.arrive c m).setChan c
        ({ w.chan c with queue := (w.chan c).queue ++ [m] }.proceed (i, k) call (next (.ok n))))
  | breaks {w : World ι θ κ α} (i : ι) (k : θ) (c : κ) {call : SendCall α} {o : Outgoing}
      {next : Except Errno Nat → SendProg} {r : Except SystemError Unit × Unit} (e : Errno)
      (hs : (w.chan c).sender (i, k) = some (call, .ask o next)) (hr : next (.error e) = .ret r) :
      Step w (.breaks i k c) (w.setChan c ((w.chan c).abort (i, k)))
  | posts {w : World ι θ κ α} (c : κ) (m : Message α) :
      Step w (.posts c) ((w.arrive c m).setChan c { w.chan c with queue := (w.chan c).queue ++ [m] })
  | begins {w : World ι θ κ α} (i : ι) (k : θ) (c : κ) (env : Env α) (ht : env.table = (w.procs i).table)
      (hk : (w.procs i).place k = .empty) :
      Step w (.begins i k c) (w.set i k (w.procs i).table (.receiving c env.start []))
  /-- Other threads of the process may have changed its descriptors since the last turn. -/
  | takes {w : World ι θ κ α} (i : ι) (k : θ) {c : κ} {s : Receiver α} {got : List α} {m : Message α}
      {rest : List (Message α)} (hk : (w.procs i).place k = .receiving c s got) (hc : w.pending c = m :: rest)
      {t : Table α} {p : Place κ α} (hp : turn A c { s with table := (w.procs i).table } got m = (t, p)) :
      Step w (.takes i k) { w.set i k t p with
        pending := Function.update w.pending c rest
        returned := Function.update w.returned c (w.returned c ++ p.returned) }
  | fails {w : World ι θ κ α} (i : ι) (k : θ) {c : κ} {s : Receiver α} {got : List α} (e : Errno)
      (hk : (w.procs i).place k = .receiving c s got) :
      Step w (.fails i k) (w.set i k (closeVector (w.procs i).table s.v) .empty)
  | destroys {w : World ι θ κ α} (i : ι) (k : θ) {v : List Int} {got : List α}
      (hk : (w.procs i).place k = .vector v got) :
      Step w (.destroys i k) (w.set i k (closeVector (w.procs i).table v) .empty)

/-- When the other threads do nothing, a `recv` under way takes messages as the loop of `recv` does. -/
theorem recvLoop_alone {i : ι} {k : θ} {c : κ} {s' : Receiver α} {rest : List (Except Errno (Message α))} :
    ∀ (ms : List (Message α)) {w : World ι θ κ α} {s : Receiver α} {got : List α},
      (w.procs i).place k = .receiving c s got → s.table = (w.procs i).table → w.pending c = ms →
      recvLoop A s (ms.map .ok) = .returned s' rest →
      ∃ r got', Run.Chain (Step A) w r ∧ ((Run.last w r).procs i).place k = .vector s'.v got' ∧
        ((Run.last w r).procs i).table = s'.table ∧ ((Run.last w r).pending c).map .ok = rest
  | [], w, s, got, _, _, _, h => by cases h
  | m :: ms, w, s, got, hk, ht, hc, h => by
    rcases hq : turn A c s got m with ⟨t, q⟩
    have hends := turn_recvLoop A c s got m (ms.map .ok)
    rw [hq, ← List.map_cons, h] at hends
    have hs : { s with table := (w.procs i).table } = s := by rw [← ht]
    obtain ⟨w', step, hplace, htable, hpending⟩ : ∃ w', Step A w (.takes i k) w' ∧ (w'.procs i).place k = q ∧
        (w'.procs i).table = t ∧ w'.pending c = ms :=
      ⟨_, .takes i k hk hc (hs.symm ▸ hq), by simp, by simp, Function.update_self ..⟩
    cases q with
    | empty => exact hends.elim
    | undefined =>
      obtain ⟨s₁, hs₁⟩ := hends
      cases hs₁
    | vector v got₁ =>
      obtain ⟨s₁, rfl, rfl, hs₁⟩ := hends
      cases hs₁
      exact ⟨[(_, w')], got₁, ⟨step, trivial⟩, hplace, htable, congrArg _ hpending⟩
    | receiving c' s₁ got₁ =>
      obtain rfl := turn_socket A hq
      obtain ⟨ht₁, hloop⟩ := hends
      obtain ⟨r, got', hr, hlast⟩ := recvLoop_alone ms hplace (ht₁.trans htable.symm) hpending hloop.symm
      exact ⟨(_, w') :: r, got', ⟨step, hr⟩, hlast⟩

/-- When the other threads do nothing, a thread that calls `recv` gets what `recv` returns. -/
theorem recv_alone {w : World ι θ κ α} {i : ι} {k : θ} {c : κ} {env : Env α} {s : Receiver α}
    {rest : List (Except Errno (Message α))} (ht : env.table = (w.procs i).table)
    (hk : (w.procs i).place k = .empty) (h : recv A env ((w.pending c).map .ok) = .returned s rest) :
    ∃ r got, Run.Chain (Step A) w r ∧ ((Run.last w r).procs i).place k = .vector s.v got ∧
      ((Run.last w r).procs i).table = s.table ∧ ((Run.last w r).pending c).map .ok = rest := by
  obtain ⟨w', step, hplace, htable, hpending⟩ : ∃ w', Step A w (.begins i k c) w' ∧
      (w'.procs i).place k = .receiving c env.start [] ∧ (w'.procs i).table = (w.procs i).table ∧
      w'.pending c = w.pending c := ⟨_, .begins i k c env ht hk, by simp, by simp, rfl⟩
  obtain ⟨r, got, hr, hlast⟩ := recvLoop_alone A (w.pending c) hplace (ht.trans htable.symm) hpending h
  exact ⟨(_, w') :: r, got, ⟨step, hr⟩, hlast⟩

end Step

/-! ## What is asked of them -/

/-- The numbers in the places of a process. -/
def Process.nums (p : Process θ κ α) (k : θ) : List Int := (p.place k).nums

/-- Each descriptor that the process got is in exactly one place, once; each number in a place is open
and refers to the file that was installed for it; the descriptors `b` that the process had from the
beginning are as they were and in no place; and no `recv` has left its buffer. -/
structure Process.Kept (b : Table α) (p : Process θ κ α) : Prop where
  owner : ∀ n ∈ p.table.nums, n ∉ b.nums → ∃ k, n ∈ p.nums k
  apart : Holders.Apart p.nums
  held : ∀ k, (p.nums k).map p.table.file = (p.place k).files.map some
  base : ∀ n ∈ b.nums, p.table.file n = b.file n ∧ ∀ k, n ∉ p.nums k
  nonneg : ∀ k, ∀ n ∈ p.nums k, 0 ≤ n
  inside : ∀ k, p.place k ≠ .undefined

def Custody (base : ι → Table α) (w : World ι θ κ α) : Prop := ∀ i, (w.procs i).Kept (base i)

/-- A message that is received has as many descriptors attached as `recv` computes. -/
def Act.Framed (w : World ι θ κ α) : Act ι θ κ → Prop
  | .takes i k => ∀ c s got m rest, (w.procs i).place k = .receiving c s got → w.pending c = m :: rest →
      batchSize m.size s.v.length = (min m.attached.length maxBatchSize : Nat)
  | _ => True

/-! ## Descriptors that come and go -/

section Kept

variable {b : Table α} {p : Process θ κ α}

theorem Process.Kept.opened (h : p.Kept b) {k : θ} {n : Int} (hn : n ∈ p.nums k) : n ∈ p.table.nums := by
  obtain ⟨x, -, hx⟩ : ∃ x ∈ (p.place k).files, some x = p.table.file n := by
    rw [← List.mem_map, ← h.held k]
    exact List.mem_map_of_mem hn
  by_contra hnot
  rw [Table.file_eq_none.2 hnot] at hx
  cases hx

theorem Process.Kept.length_nums (h : p.Kept b) (k : θ) : (p.nums k).length = (p.place k).files.length := by
  have hlen := congrArg List.length (h.held k)
  rwa [List.length_map, List.length_map] at hlen

theorem Process.Kept.base_open (h : p.Kept b) {n : Int} (hn : n ∈ b.nums) : n ∈ p.table.nums := by
  by_contra hnot
  have hfile := (h.base n hn).1
  rw [Table.file_eq_none.2 hnot] at hfile
  exact Table.file_eq_none.1 hfile.symm hn

/-- A process whose vectors are all gone has the descriptors that it had at the beginning. -/
theorem Process.Kept.none_left (h : p.Kept b) (hall : ∀ k, p.nums k = []) (n : Int) : p.table.file n = b.file n := by
  by_cases hb : n ∈ b.nums
  · exact (h.base n hb).1
  · rw [Table.file_eq_none.2 hb, Table.file_eq_none]
    intro hn
    obtain ⟨k, hk⟩ := h.owner n hn hb
    rw [hall k] at hk
    cases hk

variable [DecidableEq θ]

theorem nums_update (p : Process θ κ α) (t : Table α) (k : θ) (q : Place κ α) :
    Process.nums ⟨t, Function.update p.place k q⟩ = Function.update p.nums k q.nums := by
  funext k'
  unfold Process.nums
  dsimp only
  rw [Function.update_apply, Function.update_apply]
  split <;> rfl

/-- What holds of every place still does when it holds of the new one. -/
theorem forall_place {P : Place κ α → Prop} {k : θ} {q : Place κ α} (hq : P q) (h : ∀ k', k' ≠ k → P (p.place k')) :
    ∀ k', P (Function.update p.place k q k') := by
  intro k'
  by_cases hk : k' = k
  · rw [hk, Function.update_self]; exact hq
  · rw [Function.update_of_ne hk]; exact h k' hk

variable (A : Table.Alloc α)

/-- The place `k` gets new descriptors for the files `xs`. -/
theorem Process.Kept.grow (h : p.Kept b) (k : θ) (xs : List α) {q : Place κ α}
    (hn : q.nums = p.nums k ++ (p.table.installAll A xs).1) (hf : q.files = (p.place k).files ++ xs)
    (hq : q ≠ .undefined) : Process.Kept b ⟨(p.table.installAll A xs).2, Function.update p.place k q⟩ := by
  have hnew : ∀ n ∈ (p.table.installAll A xs).1, n ∉ p.table.nums := fun n hn => (Table.installAll_fresh A _ _ hn).2
  have hkeep : ∀ k', (p.nums k').map (p.table.installAll A xs).2.file = (p.nums k').map p.table.file :=
    fun k' => List.map_congr_left fun n hn => Table.file_installAll_of_mem A _ _ (h.opened hn)
  have hnums := nums_update p (p.table.installAll A xs).2 k q
  rw [hn] at hnums
  constructor
  · intro n hopen hb
    rw [hnums]
    rcases (Table.mem_nums_installAll A _ _).1 hopen with hopen | hopen
    · obtain ⟨k', hk'⟩ := h.owner n hopen hb
      exact ⟨k', Holders.mem_update_append.2 (.inl hk')⟩
    · exact ⟨k, Holders.mem_update_append.2 (.inr ⟨rfl, hopen⟩)⟩
  · rw [hnums]
    exact h.apart.extend k (Table.nodup_installAll A _ _) fun n hn k' hk' => hnew n hn (h.opened hk')
  · refine forall_place (P := fun q => q.nums.map (p.table.installAll A xs).2.file = q.files.map some) ?_
      fun k' _ => (hkeep k').trans (h.held k')
    rw [hn, hf, List.map_append, List.map_append, Table.map_file_installAll, hkeep, h.held]
  · intro n hb
    refine ⟨(Table.file_installAll_of_mem A _ _ (h.base_open hb)).trans (h.base n hb).1, fun k' hk' => ?_⟩
    rw [hnums] at hk'
    rcases Holders.mem_update_append.1 hk' with hk' | ⟨-, hk'⟩
    · exact (h.base n hb).2 k' hk'
    · exact hnew n hk' (h.base_open hb)
  · intro k' n hk'
    rw [hnums] at hk'
    rcases Holders.mem_update_append.1 hk' with hk' | ⟨-, hk'⟩
    · exact h.nonneg k' n hk'
    · exact (Table.installAll_fresh A _ _ hk').1
  · exact forall_place (P := (· ≠ .undefined)) hq fun k' _ => h.inside k'

/-- What is in the place `k` is closed. -/
theorem Process.Kept.drop (h : p.Kept b) (k : θ) :
    Process.Kept b ⟨closeVector p.table (p.nums k), Function.update p.place k .empty⟩ := by
  have hall : closeVector p.table (p.nums k) = p.table.closeAll (p.nums k) := by
    unfold closeVector
    rw [List.filter_eq_self.2 fun n hn => decide_eq_true (h.nonneg k n hn)]
  have hkeep : ∀ k', k' ≠ k → (p.nums k').map (p.table.closeAll (p.nums k)).file = (p.nums k').map p.table.file :=
    fun k' hk => List.map_congr_left fun n hn => Table.file_closeAll_of_notMem _ _ fun hc => hk (h.apart.one hn hc)
  have hnums := nums_update p (p.table.closeAll (p.nums k)) k .empty
  rw [hall]
  constructor
  · intro n hopen hb
    rw [hnums]
    obtain ⟨hopen, hnot⟩ := (Table.mem_nums_closeAll _ _).1 hopen
    obtain ⟨k', hk'⟩ := h.owner n hopen hb
    exact ⟨k', Holders.mem_update_nil.2 ⟨by rintro rfl; exact hnot hk', hk'⟩⟩
  · rw [hnums]
    exact h.apart.clear k
  · exact forall_place (P := fun q => q.nums.map (p.table.closeAll (p.nums k)).file = q.files.map some) rfl
      fun k' hk => (hkeep k' hk).trans (h.held k')
  · intro n hb
    refine ⟨(Table.file_closeAll_of_notMem _ _ ((h.base n hb).2 k)).trans (h.base n hb).1, fun k' hk' => ?_⟩
    rw [hnums] at hk'
    exact (h.base n hb).2 k' (Holders.mem_update_nil.1 hk').2
  · intro k' n hk'
    rw [hnums] at hk'
    exact h.nonneg k' n (Holders.mem_update_nil.1 hk').2
  · exact forall_place (P := (· ≠ .undefined)) nofun fun k' _ => h.inside k'

end Kept

/-! ## One turn of a `recv` -/

section Turn

variable {A : Table.Alloc α} {s : Receiver α} {c : κ} {got : List α} {m : Message α}

/-- The variables of a `recv` that has received nothing, or full batches only, apart from the
descriptors of its process. -/
structure Standing (s : Receiver α) : Prop where
  installed : s.installed = s.v
  overran : s.overran = false
  controllen : s.controllen = cmsgSpace (maxBatchSize * intSize)
  data : s.data.length = maxBatchSize

theorem Ready.standing (h : Ready s) : Standing s := ⟨h.installed, h.overran, h.controllen, h.data⟩

theorem Standing.maxFds (h : Standing s) : maxFds s.controllen = maxBatchSize := by
  rw [h.controllen]
  decide

theorem Standing.ready (h : Standing s) {b : Table α} {p : Process θ κ α} (hp : p.Kept b) {k : θ}
    (hk : p.place k = .receiving c s got) : Ready { s with table := p.table } := by
  have hnums : p.nums k = s.v := by unfold Process.nums; rw [hk]; rfl
  refine ⟨⟨h.installed, ?_, fun n hn => ?_, h.overran⟩, h.controllen, h.data⟩
  · rw [← hnums]; exact hp.apart.once k
  · have hn : n ∈ p.nums k := hnums ▸ hn
    exact ⟨hp.nonneg k n hn, hp.opened hn⟩

/-- A turn that reads as many numbers as were installed takes them, and goes on after a full batch only. -/
theorem turn_framed (got : List α) (h : Ready s)
    (hb : batchSize m.size s.v.length = (min m.attached.length maxBatchSize : Nat)) :
    ∃ s', Took A s m s' ∧
      (s'.v.length % 2 ^ 64 = m.size.toNat →
        turn A c s got m = (s'.table, .vector s'.v (got ++ m.attached.take maxBatchSize))) ∧
      (s'.v.length % 2 ^ 64 ≠ m.size.toNat → Standing s' ∧
        turn A c s got m = (s'.table, .receiving c s' (got ++ m.attached.take maxBatchSize))) := by
  obtain ⟨s', ha, ht⟩ := adopt_took (A := A) h hb
  have hlen : s'.v.length = s.v.length + min m.attached.length maxBatchSize := by
    rw [ht.v, List.length_append, Table.length_installAll, List.length_take, Nat.min_comm]
  refine ⟨s', ht, fun hret => ?_, fun hret => ⟨?_, ?_⟩⟩
  · unfold turn
    rw [ha, h.standing.maxFds]
    dsimp only
    rw [if_neg (by decide), ht.size, if_pos hret]
  · refine (ht.ready ?_).standing
    by_contra hshort
    exact hret (hlen ▸ size_of_batchSize hb (by omega))
  · unfold turn
    rw [ha, h.standing.maxFds]
    dsimp only
    rw [if_neg (by decide), ht.size, if_neg hret]

/-- A copy loop that stays inside its buffer takes as many numbers as it is asked for. -/
theorem length_copyLoop : ∀ (batch : Int) (v data : List Int), (copyLoop batch v data).2 = false →
    ((copyLoop batch v data).1.length : Int) = v.length + batch
  | batch, v, [], h => by
    have hzero : batch = 0 := by simpa [copyLoop] using h
    simp [copyLoop, hzero]
  | batch, v, n :: data, h => by
    rw [copyLoop] at h ⊢
    split at h
    · rename_i hzero
      rw [if_pos hzero, hzero, Int.add_zero]
    · rename_i hpos
      rw [if_neg hpos, length_copyLoop _ _ _ h, List.length_append, List.length_singleton]
      omega

theorem length_adopt (h : (adopt s m).2 = false) :
    ((adopt s m).1.v.length : Int) = s.v.length + batchSize s.size s.v.length := by
  unfold adopt at h ⊢
  dsimp only at h ⊢
  split at h
  · rename_i hnull
    rw [if_pos hnull]
    have hzero : batchSize s.size s.v.length = 0 := by simpa using h
    rw [hzero, Int.add_zero]
  · rename_i hheader
    rw [if_neg hheader]
    exact length_copyLoop _ _ _ h

/-- A turn that stays inside the buffer leaves what its copy loop has taken, and the files installed so far. -/
theorem turn_place (h : (turn A c s got m).2 ≠ .undefined) : (adopt (recvmsg A s m) m).2 = false ∧
    (turn A c s got m).2.nums = (adopt (recvmsg A s m) m).1.v ∧
    (turn A c s got m).2.files = got ++ m.attached.take (maxFds s.controllen) := by
  unfold turn at h ⊢
  dsimp only at h ⊢
  split at h
  · exact absurd rfl h
  · rename_i hin
    rw [if_neg hin]
    refine ⟨Bool.not_eq_true _ ▸ hin, ?_⟩
    split
    · exact ⟨rfl, rfl⟩
    · exact ⟨rfl, rfl⟩

/-- A turn after which there are as many numbers as installed files has read as many as were installed. -/
theorem framed_of_turn {t : Table α} {q : Place κ α} (h : maxFds s.controllen = maxBatchSize)
    (hgot : s.v.length = got.length) (ht : turn A c s got m = (t, q)) (hq : q ≠ .undefined)
    (hlen : q.nums.length = q.files.length) :
    batchSize m.size s.v.length = (min m.attached.length maxBatchSize : Nat) := by
  obtain rfl : (turn A c s got m).2 = q := congrArg Prod.snd ht
  obtain ⟨hin, hnums, hfiles⟩ := turn_place hq
  have hadopt : ((adopt (recvmsg A s m) m).1.v.length : Int) = s.v.length + batchSize m.size s.v.length :=
    length_adopt hin
  rw [hnums, hfiles, h, List.length_append, List.length_take] at hlen
  omega

end Turn

/-! ## Runs -/

/-- Custody, and what every `recv` under way relies on. -/
structure Inv (base : ι → Table α) (w : World ι θ κ α) : Prop where
  custody : Custody base w
  standing : ∀ i k c s got, (w.procs i).place k = .receiving c s got → Standing s

section Run

variable {base : ι → Table α} {w w' : World ι θ κ α} {a : Act ι θ κ} {i : ι} {k : θ}

theorem nums_place {p : Process θ κ α} {q : Place κ α} (h : p.place k = q) : p.nums k = q.nums := congrArg Place.nums h

theorem world_inv_start (base : ι → Table α) : Inv base (World.start base : World ι θ κ α) where
  custody _ := ⟨fun _ hn hb => absurd hn hb, ⟨fun _ => List.nodup_nil, nofun⟩, fun _ => rfl, fun _ _ => ⟨rfl, nofun⟩,
    nofun, nofun⟩
  standing := nofun

theorem Inv.congr (h : Inv base w) (hw : w'.procs = w.procs) : Inv base w' where
  custody i := hw ▸ h.custody i
  standing i k c s got hk := h.standing i k c s got (hw ▸ hk)

theorem Inv.ready (h : Inv base w) {c : κ} {s : Receiver α} {got : List α}
    (hk : (w.procs i).place k = .receiving c s got) : Ready { s with table := (w.procs i).table } :=
  (h.standing i k c s got hk).ready (h.custody i) hk

/-- The numbers of a `recv` under way are as many as its files. -/
theorem Inv.length_got (h : Inv base w) {c : κ} {s : Receiver α} {got : List α}
    (hk : (w.procs i).place k = .receiving c s got) : s.v.length = got.length := by
  have hlen := (h.custody i).length_nums k
  rwa [nums_place hk, hk] at hlen

theorem framed_takes {c : κ} {s : Receiver α} {got : List α} {m : Message α} {rest : List (Message α)}
    (hk : (w.procs i).place k = .receiving c s got) (hc : w.pending c = m :: rest)
    (hb : batchSize m.size s.v.length = (min m.attached.length maxBatchSize : Nat)) : (Act.takes i k).Framed w := by
  intro c' s' got' m' rest' hk' hc'
  obtain ⟨rfl, rfl, rfl⟩ := Place.receiving.inj (hk.symm.trans hk')
  obtain ⟨rfl, rfl⟩ := List.cons.inj (hc.symm.trans hc')
  exact hb

section Set

variable [DecidableEq ι] [DecidableEq θ]

theorem Inv.set (h : Inv base w) {t : Table α} {q : Place κ α}
    (hp : Process.Kept (base i) ⟨t, Function.update (w.procs i).place k q⟩)
    (hq : ∀ c s got, q = .receiving c s got → Standing s) : Inv base (w.set i k t q) := by
  constructor
  · intro j
    by_cases hj : j = i
    · subst hj
      show Process.Kept _ (Function.update w.procs j _ j)
      rw [Function.update_self]
      exact hp
    · show Process.Kept _ (Function.update w.procs i _ j)
      rw [Function.update_of_ne hj]
      exact h.custody j
  · intro j k' c s got hk'
    by_cases hj : j = i
    · subst hj
      have hk' : Function.update (w.procs j).place k q k' = .receiving c s got := by
        simpa [World.set] using hk'
      revert hk'
      exact forall_place (P := fun q' => q' = .receiving c s got → Standing s) (hq c s got)
        (fun k' _ => h.standing j k' c s got) k'
    · exact h.standing j k' c s got (by simpa [World.set, hj] using hk')

/-- The vector in the place `k` is destroyed. -/
theorem Inv.dropped (h : Inv base w) {q : Place κ α} (hk : (w.procs i).place k = q) :
    Inv base (w.set i k (closeVector (w.procs i).table q.nums) .empty) := by
  rw [← nums_place hk]
  exact h.set ((h.custody i).drop k) nofun

variable {A : Table.Alloc α}

theorem takes_inv (h : Inv base w) {c : κ} {s : Receiver α} {got : List α} {m : Message α} {t : Table α}
    {q : Place κ α} (hk : (w.procs i).place k = .receiving c s got)
    (hb : batchSize m.size s.v.length = (min m.attached.length maxBatchSize : Nat))
    (hq : turn A c { s with table := (w.procs i).table } got m = (t, q)) : Inv base (w.set i k t q) := by
  obtain ⟨s', ht, hret, hmore⟩ := turn_framed (A := A) (c := c) got (h.ready hk) hb
  have hnums : (w.procs i).nums k = s.v := nums_place hk
  have hgot : ((w.procs i).place k).files = got := congrArg Place.files hk
  have hkept : ∀ {q : Place κ α}, q.nums = s'.v → q.files = got ++ m.attached.take maxBatchSize → q ≠ .undefined →
      Process.Kept (base i) ⟨s'.table, Function.update (w.procs i).place k q⟩ := by
    intro q hn hf hu
    rw [ht.table]
    exact (h.custody i).grow A k _ (by rw [hn, ht.v, hnums]) (by rw [hf, hgot]) hu
  by_cases hsize : s'.v.length % 2 ^ 64 = m.size.toNat
  · obtain ⟨rfl, rfl⟩ := Prod.mk.inj ((hret hsize).symm.trans hq)
    exact h.set (hkept rfl rfl nofun) nofun
  · obtain ⟨hs', hturn⟩ := hmore hsize
    obtain ⟨rfl, rfl⟩ := Prod.mk.inj (hturn.symm.trans hq)
    refine h.set (hkept rfl rfl nofun) ?_
    rintro _ _ _ ⟨⟩
    exact hs'

/-- A message after which there is custody was framed. -/
theorem framed_of_takes (h : Inv base w) {c : κ} {s : Receiver α} {got : List α} {m : Message α} {t : Table α}
    {q : Place κ α} (hk : (w.procs i).place k = .receiving c s got)
    (hq : turn A c { s with table := (w.procs i).table } got m = (t, q)) (hw : Custody base (w.set i k t q)) :
    batchSize m.size s.v.length = (min m.attached.length maxBatchSize : Nat) := by
  have hset : (w.set i k t q).procs i = ⟨t, Function.update (w.procs i).place k q⟩ := Function.update_self ..
  have hplace : ((w.set i k t q).procs i).place k = q := by rw [hset]; exact Function.update_self ..
  have hlen := (hw i).length_nums k
  have hin := (hw i).inside k
  rw [nums_place hplace, hplace] at hlen
  rw [hplace] at hin
  have hfds : maxFds { s with table := (w.procs i).table }.controllen = maxBatchSize :=
    (h.standing i k c s got hk).maxFds
  have hgot := h.length_got hk
  exact framed_of_turn (s := { s with table := (w.procs i).table }) hfds hgot hq hin hlen

end Set

variable [DecidableEq ι] [DecidableEq θ] [DecidableEq κ] {A : Table.Alloc α}

theorem step_framed_inv (hs : Step A w a w') (h : Inv base w) (hf : a.Framed w) : Inv base w' := by
  cases hs with
  | opens i k x hk =>
    refine h.set ((h.custody i).grow A k [x] ?_ ?_ nofun) nofun
    · rw [nums_place hk]; rfl
    · rw [hk]; rfl
  | starts | puts | breaks | posts => exact h.congr rfl
  | begins i k c env ht hk =>
    refine h.set ((h.custody i).grow A k [] ?_ ?_ nofun) ?_
    · rw [nums_place hk]; rfl
    · rw [hk]; rfl
    · rintro _ _ _ ⟨⟩
      exact (env_ready env).standing
  | takes i k hk hc hp => exact (takes_inv h hk (hf _ _ _ _ _ hk hc) hp).congr rfl
  | fails i k e hk => exact h.dropped hk
  | destroys i k hk => exact h.dropped hk

theorem framed_of_step (hs : Step A w a w') (h : Inv base w) (hw : Custody base w') : a.Framed w := by
  cases hs with
  | takes i k hk hc hp => exact framed_takes hk hc (framed_of_takes h hk hp hw)
  | _ => trivial

/-- In every run of any number of processes, with threads that open files, send, receive and destroy
vectors in any order: every descriptor that a process got is in exactly one place, where it refers to
the file it was installed for, if and only if every message that is received has as many descriptors
attached as `recv` computes. -/
theorem custody_iff (A : Table.Alloc α) (base : ι → Table α) (r : List (Act ι θ κ × World ι θ κ α))
    (h : Run.Chain (Step A) (World.start base) r) :
    Run.Always (Custody base) (World.start base) r ↔ Run.Chain (fun w a _ => a.Framed w) (World.start base) r :=
  h.always_iff (P := Inv base) (fun _ => Inv.custody) (fun _ _ _ hs hi hf => step_framed_inv hs hi hf)
    (fun _ _ _ hs hi hw => framed_of_step hs hi hw) (world_inv_start base)

end Run

/-- Another program sends the message `m` to a process without descriptors, which receives it. -/
theorem posted_chain (m : Message Nat) : ∃ r : List (Act Bool Unit Unit × World Bool Unit Unit Nat),
    Run.Chain (Step (.lowest Nat)) (World.start fun _ => []) r ∧
      (Run.Chain (fun w a _ => a.Framed w) (World.start fun _ => []) r ↔
        batchSize m.size 0 = (min m.attached.length maxBatchSize : Nat)) := by
  let env : Env Nat := ⟨[], 0, ⟨List.replicate 10 0, rfl⟩⟩
  let w₀ : World Bool Unit Unit Nat := World.start fun _ => []
  let w₁ := (w₀.arrive () m).setChan () { w₀.chan () with queue := (w₀.chan ()).queue ++ [m] }
  let w₂ := w₁.set true () [] (.receiving () env.start [])
  have s₁ : Step (.lowest Nat) w₀ (.posts ()) w₁ := .posts () m
  have s₂ : Step (.lowest Nat) w₁ (.begins true () ()) w₂ := .begins true () () env rfl rfl
  have hk : (w₂.procs true).place () = .receiving () env.start [] := rfl
  have hc : w₂.pending () = [m] := rfl
  have s₃ := Step.takes (A := .lowest Nat) true () hk hc rfl
  refine ⟨[(_, w₁), (_, w₂), (_, _)], ⟨s₁, s₂, s₃, trivial⟩, ?_⟩
  constructor
  · rintro ⟨-, -, hf, -⟩
    exact hf () env.start [] m [] hk hc
  · intro hb
    exact ⟨trivial, trivial, framed_takes hk hc hb, trivial⟩

/-- A message of one descriptor that announces one, and one that announces two. -/
theorem custody_iff_posted :
    (∃ r : List (Act Bool Unit Unit × World Bool Unit Unit Nat),
      Run.Chain (Step (.lowest Nat)) (World.start fun _ => []) r ∧
        Run.Always (Custody fun _ => []) (World.start fun _ => []) r) ∧
    ∃ r : List (Act Bool Unit Unit × World Bool Unit Unit Nat),
      Run.Chain (Step (.lowest Nat)) (World.start fun _ => []) r ∧
        ¬ Run.Always (Custody fun _ => []) (World.start fun _ => []) r := by
  obtain ⟨r, hr, hf⟩ := posted_chain ⟨1, [7]⟩
  obtain ⟨r', hr', hf'⟩ := posted_chain ⟨2, [7]⟩
  refine ⟨⟨r, hr, (custody_iff _ _ r hr).2 (hf.2 (by decide))⟩, r', hr', fun ha => ?_⟩
  exact absurd (hf'.1 ((custody_iff _ _ r' hr').1 ha)) (by decide)

end Fdcpp.Fdpass
