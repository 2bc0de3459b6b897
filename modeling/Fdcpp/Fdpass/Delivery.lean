/-
What comes out of sockets that `fdpass` has to itself: the threads of all processes call `send` and
`recv` in any order, no call of `send` puts a message behind a part of another, one thread at a time
reads from a socket, no `recvmsg` fails in the middle of a list, and a receiver has numbers free for
what is attached. Then there is custody in every state, and the vectors that are returned from a socket
are the lists of the calls that have completed, in order.
-/
import Fdcpp.Fdpass.Custody
import Mathlib.Data.Fintype.Basic

namespace Fdcpp.Fdpass

open Bytes

variable {ι θ κ σ α : Type}

/-! ## The condition, and what is delivered -/

/-- What a call sends is still open, and no other call is cut; no other program sends; there is no
other `recv` from the socket; and no `recvmsg` fails once the `recv` has received something. -/
def Act.Orderly (w : World ι θ κ α) : Act ι θ κ → Prop
  | .puts i k c => (SystemAct.put (i, k)).Uncut (w.chan c) ∧
      ∀ call rest, (w.chan c).sender (i, k) = some (call, rest) →
        ∀ n ∈ call.range, (w.procs i).table.file n = call.table.file n
  | .posts _ => False
  | .begins _ _ c => ∀ i k s got, (w.procs i).place k ≠ .receiving c s got
  | .fails i k => ∀ c s got, (w.procs i).place k = .receiving c s got → s.v = []
  | _ => True

/-- The vectors that have been returned from each socket are the lists of the calls that have completed,
in order, and all of them when no message is pending. -/
def Delivered (w : World ι θ κ α) : Prop :=
  ∀ c, w.returned c <+: (w.chan c).completed.map SendCall.files ∧
    (w.pending c = [] → w.returned c = (w.chan c).completed.map SendCall.files)

/-! ## The line of messages at a socket -/

theorem files_ne_nil_of_batches {size : UInt64} {files : List α} {m : Message α} {rest : List (Message α)}
    (h : batches size files = m :: rest) : files ≠ [] := by
  rintro rfl
  rw [batches_nil] at h
  cases h

/-- The first message that is left of a list, behind some of its messages. -/
theorem batches_split (size : UInt64) {m : Message α} {todo : List (Message α)} :
    ∀ {front : List (Message α)} {files : List α}, batches size files = front ++ m :: todo →
      ∃ left, left ≠ [] ∧ files = front.flatMap Message.attached ++ left ∧ m = ⟨size, left.take maxBatchSize⟩ ∧
        (todo = [] ↔ left.length ≤ maxBatchSize)
  | [], files, h => by
    have hne := files_ne_nil_of_batches h
    rw [batches_of_ne_nil size hne, List.nil_append, List.cons.injEq] at h
    obtain ⟨rfl, rfl⟩ := h
    refine ⟨files, hne, rfl, rfl, fun hnil => ?_, fun hle => ?_⟩
    · by_contra hlt
      have hdrop : files.drop maxBatchSize ≠ [] := by
        rw [← List.length_pos_iff, List.length_drop]; omega
      rw [batches_of_ne_nil size hdrop] at hnil
      cases hnil
    · rw [List.drop_eq_nil_of_le hle, batches_nil]
  | m' :: front, files, h => by
    have hne := files_ne_nil_of_batches h
    rw [batches_of_ne_nil size hne, List.cons_append, List.cons.injEq] at h
    obtain ⟨rfl, h⟩ := h
    obtain ⟨left, hleft, hfiles, hm, htodo⟩ := batches_split size h
    refine ⟨left, hleft, ?_, hm, htodo⟩
    rw [List.flatMap_cons, List.append_assoc, ← hfiles, List.take_append_drop]

theorem SendCall.batches_ne_nil (c : SendCall α) : c.batches ≠ [] := by
  unfold SendCall.batches
  rw [batches_of_ne_nil _ c.files_ne_nil]
  nofun

/-- The messages of the calls `done`, whose vectors have been returned, those that the `recv` under way has
taken, and those that are pending make up all that have arrived; the calls `more` have completed too. -/
structure Line (s : System σ α) (pending : List (Message α)) (returned : List (List α))
    (done more : List (SendCall α)) (front : List (Message α)) : Prop where
  completed : s.completed = done ++ more
  queue : s.queue = done.flatMap SendCall.batches ++ front ++ pending
  returned : returned = done.map SendCall.files
  next : ∀ call rest, more = call :: rest → ∃ todo, todo ≠ [] ∧ call.batches = front ++ todo
  full : ∀ m ∈ front, m.attached ≠ []

section Line

variable {s s' : System σ α} {pending : List (Message α)} {returned : List (List α)} {done more : List (SendCall α)}
  {front : List (Message α)} {m : Message α}

theorem init_line : Line (System.init : System σ α) [] [] [] [] [] := ⟨rfl, rfl, rfl, nofun, nofun⟩

theorem Line.congr (h : Line s pending returned done more front) (hc : s'.completed = s.completed)
    (hq : s'.queue = s.queue) : Line s' pending returned done more front :=
  ⟨hc.trans h.completed, hq.trans h.queue, h.returned, h.next, h.full⟩

/-- The next message belongs to the call whose first messages have been taken. -/
theorem Line.call (h : Line s (m :: pending) returned done more front) (hs : SystemInv s) :
    ∃ call todo, call.batches = front ++ m :: todo ∧ (∀ call' rest, more = call' :: rest → call' = call) ∧
      (todo = [] → ∃ rest, more = call :: rest) := by
  obtain ⟨part, hpart, hqueue⟩ := hs.queue_eq
  rw [h.queue, h.completed, List.flatMap_append, List.append_assoc, List.append_assoc,
    List.append_cancel_left_eq] at hqueue
  rcases more with _ | ⟨call, rest⟩
  · -- it is in the part that the call at the end of the queue has put there
    rw [List.flatMap_nil, List.nil_append] at hqueue
    rcases hpart with rfl | ⟨call, todo, htodo, hall⟩
    · exact absurd hqueue (by simp)
    · refine ⟨call, pending ++ todo, ?_, nofun, fun hnil => absurd (List.append_eq_nil_iff.1 hnil).2 htodo⟩
      rw [hall, ← hqueue, List.append_assoc, List.cons_append]
  · obtain ⟨todo, htodo, hall⟩ := h.next call rest rfl
    rw [List.flatMap_cons, hall, List.append_assoc, List.append_assoc, List.append_cancel_left_eq] at hqueue
    rcases todo with _ | ⟨m', todo⟩
    · exact absurd rfl htodo
    · rw [List.cons_append, List.cons.injEq] at hqueue
      obtain ⟨rfl, -⟩ := hqueue
      exact ⟨call, todo, hall, fun _ _ hmore => (List.cons.inj hmore).1.symm, fun _ => ⟨rest, rfl⟩⟩

/-- When no message is pending, all messages of the completed calls have been taken. -/
theorem Line.all_done (h : Line s [] returned done more front) (hs : SystemInv s) : more = [] := by
  obtain ⟨part, -, hqueue⟩ := hs.queue_eq
  rw [h.queue, h.completed, List.flatMap_append, List.append_nil, List.append_assoc,
    List.append_cancel_left_eq] at hqueue
  rcases more with _ | ⟨call, rest⟩
  · rfl
  · obtain ⟨todo, htodo, hall⟩ := h.next call rest rfl
    rw [List.flatMap_cons, hall] at hqueue
    have hlen := congrArg List.length hqueue
    have hpos := List.length_pos_iff.2 htodo
    simp only [List.length_append] at hlen
    omega

/-- A message is taken, and is not the last one of its call. -/
theorem Line.taken (h : Line s (m :: pending) returned done more front) {call : SendCall α}
    {todo : List (Message α)} (hne : m.attached ≠ []) (hcall : call.batches = front ++ m :: todo)
    (htodo : todo ≠ []) (hmore : ∀ call' rest, more = call' :: rest → call' = call) :
    Line s pending returned done more (front ++ [m]) where
  completed := h.completed
  queue := by rw [h.queue]; simp
  returned := h.returned
  next call' rest hm := ⟨todo, htodo, by rw [hmore call' rest hm, hcall]; simp⟩
  full m' hm' := by
    rcases List.mem_append.1 hm' with hm' | hm'
    · exact h.full m' hm'
    · rw [List.mem_singleton.1 hm']; exact hne

/-- The last message of a call is taken. -/
theorem Line.finished {call : SendCall α} (h : Line s (m :: pending) returned done (call :: more) front)
    (hcall : call.batches = front ++ [m]) :
    Line s pending (returned ++ [call.files]) (done ++ [call]) more [] where
  completed := by rw [h.completed]; simp
  queue := by rw [h.queue]; simp [hcall]
  returned := by rw [h.returned]; simp
  next call' _ _ := ⟨call'.batches, call'.batches_ne_nil, rfl⟩
  full := nofun

/-- A call puts its next message behind the others. -/
theorem Line.put [DecidableEq σ] (h : Line s pending returned done more front) (hs : SystemInv s) {x : σ}
    (hu : s.tail = .whole ∨ s.tail = .open x) {call : SendCall α} {o : Outgoing} {next : Except Errno Nat → SendProg}
    (n : Nat) (hx : s.sender x = some (call, .ask o next)) (hm : o.message call.table = some m) :
    ∃ more', Line ({ s with queue := s.queue ++ [m] }.proceed x call (next (.ok n))) (pending ++ [m]) returned done
      more' front := by
  obtain ⟨part, todo, hhead, hopen, hpart⟩ := hs.sender x call _ hx
  have hqueue : s.queue = s.completed.flatMap SendCall.batches ++ part := put_queue hs hu hopen hpart
  have hqueue' : s.queue ++ [m] = done.flatMap SendCall.batches ++ front ++ (pending ++ [m]) := by
    rw [h.queue, List.append_assoc]
  rcases hhead.put hm n with ⟨hk, hall⟩ | ⟨o', k', -, hk, -⟩
  · -- the call is complete
    refine ⟨more ++ [call], ?_, ?_, h.returned, fun call' rest hmore => ?_, h.full⟩
    · rw [hk]; simp [System.proceed, h.completed]
    · rw [hk]; exact hqueue'
    · rcases more with _ | ⟨first, more⟩
      · obtain ⟨rfl, rfl⟩ := List.cons.inj hmore
        rw [h.completed, List.append_nil, h.queue, List.append_assoc, List.append_cancel_left_eq] at hqueue
        exact ⟨pending ++ [m], by simp, by rw [hall, ← hqueue, List.append_assoc]⟩
      · obtain ⟨rfl, -⟩ := List.cons.inj hmore
        exact h.next first more rfl
  · refine ⟨more, ?_, ?_, h.returned, h.next, h.full⟩
    · rw [hk]; exact h.completed
    · rw [hk]; exact hqueue'

end Line

/-! ## The calls of `send` -/

/-- What is left of a call. -/
def Left (call : SendCall α) (rest : SendProg) : Prop :=
  ∃ data range, rest = (sendLoop (.ofNat call.range.length) data range).prog () ∧ range ≠ [] ∧ range ⊆ call.range

section Left

variable {call : SendCall α} {o : Outgoing} {next : Except Errno Nat → SendProg}

theorem left_send (call : SendCall α) : Left call ((send call.junk call.range).prog ()) :=
  ⟨call.junk, call.range, rfl, call.ne_nil, List.Subset.refl _⟩

/-- The kernel makes the same message of it as long as the descriptors of the call refer to the same files. -/
theorem Left.message (h : Left call (.ask o next)) {t : Table α}
    (ht : ∀ n ∈ call.range, t.file n = call.table.file n) : o.message t = o.message call.table := by
  obtain ⟨data, range, hrest, hne, hsub⟩ := h
  obtain ⟨o', data', hprog, hmsg⟩ := sendLoop_cons α (.ofNat call.range.length) data hne
  obtain ⟨rfl, -⟩ := Prog.ask.inj (hrest.trans hprog)
  have hfiles := map_file_filterMap fun n hn => call.opened n (hsub hn)
  have hsame : range.map t.file = range.map call.table.file := List.map_congr_left fun n hn => ht n (hsub hn)
  rw [hmsg _ _ hfiles, hmsg t _ (hsame.trans hfiles)]

theorem Left.put (h : Left call (.ask o next)) (n : Nat) {o' : Outgoing} {next' : Except Errno Nat → SendProg}
    (hk : next (.ok n) = .ask o' next') : Left call (.ask o' next') := by
  obtain ⟨data, range, hrest, hne, hsub⟩ := h
  obtain ⟨o₁, data', hprog, -⟩ := sendLoop_cons α (.ofNat call.range.length) data hne
  obtain ⟨rfl, hnext⟩ := Prog.ask.inj (hrest.trans hprog)
  obtain rfl := eq_of_heq hnext
  refine ⟨data', range.drop maxBatchSize, hk.symm, ?_, fun n hn => hsub (List.mem_of_mem_drop hn)⟩
  intro hnil
  dsimp only at hk
  rw [hnil, sendLoop_nil] at hk
  cases hk

end Left

/-! ## The calls of `recv` -/

/-- The thread `x` is in a `recv` from the socket `c`. -/
def World.Reads (w : World ι θ κ α) (c : κ) (x : ι × θ) (s : Receiver α) (got : List α) : Prop :=
  (w.procs x.1).place x.2 = .receiving c s got

/-- At most one thread is in a `recv` from the socket, and that one has received the messages `front`. -/
structure Readers (w : World ι θ κ α) (c : κ) (front : List (Message α)) : Prop where
  one : ∀ x y s s' got got', w.Reads c x s got → w.Reads c y s' got' → x = y
  got : ∀ x s got, w.Reads c x s got → got = front.flatMap Message.attached
  some : front ≠ [] → ∃ x s got, w.Reads c x s got

/-- The calls at every socket, and the messages there. -/
structure Flow (w : World ι θ κ α) : Prop where
  senders : ∀ c, SystemInv (w.chan c)
  left : ∀ c x call rest, (w.chan c).sender x = some (call, rest) → Left call rest
  line : ∀ c, ∃ done more front, Line (w.chan c) (w.pending c) (w.returned c) done more front ∧ Readers w c front

section Readers

variable {w w' : World ι θ κ α} {c : κ} {front : List (Message α)} {i : ι} {k : θ} {t : Table α} {q : Place κ α}

theorem start_flow (base : ι → Table α) : Flow (World.start base : World ι θ κ α) where
  senders _ := system_inv_init
  left := nofun
  line _ := ⟨[], [], [], init_line, nofun, nofun, fun hne => absurd rfl hne⟩

theorem Flow.delivered (h : Flow w) : Delivered w := by
  intro c
  obtain ⟨done, more, front, hl, -⟩ := h.line c
  rw [hl.returned, hl.completed, List.map_append]
  refine ⟨List.prefix_append _ _, fun hnil => ?_⟩
  rw [hnil] at hl
  rw [hl.all_done (h.senders c), List.map_nil, List.append_nil]

theorem Readers.congr (h : Readers w c front) (hr : ∀ x s got, w'.Reads c x s got ↔ w.Reads c x s got) :
    Readers w' c front where
  one x y s s' got got' hx hy := h.one x y s s' got got' ((hr x s got).1 hx) ((hr y s' got').1 hy)
  got x s got hx := h.got x s got ((hr x s got).1 hx)
  some hne := by
    obtain ⟨x, s, got, hx⟩ := h.some hne
    exact ⟨x, s, got, (hr x s got).2 hx⟩

variable [DecidableEq ι] [DecidableEq θ]

theorem reads_set (x : ι × θ) (s : Receiver α) (got : List α) : (w.set i k t q).Reads c x s got ↔
    (x = (i, k) ∧ q = .receiving c s got) ∨ (x ≠ (i, k) ∧ w.Reads c x s got) := by
  obtain ⟨j, k'⟩ := x
  unfold World.Reads World.set
  by_cases hj : j = i
  · subst hj
    by_cases hk : k' = k
    · subst hk; simp
    · simp [hk]
  · simp [hj]

/-- A place that is no `recv` from the socket, before and after. -/
theorem Readers.other (h : Readers w c front) (hold : ∀ s got, (w.procs i).place k ≠ .receiving c s got)
    (hnew : ∀ s got, q ≠ .receiving c s got) : Readers (w.set i k t q) c front := by
  refine h.congr fun x s got => ?_
  rw [reads_set]
  constructor
  · rintro (⟨-, hq⟩ | ⟨-, hr⟩)
    · exact absurd hq (hnew s got)
    · exact hr
  · intro hr
    refine .inr ⟨?_, hr⟩
    rintro rfl
    exact hold s got hr

/-- The only `recv` from the socket goes on. -/
theorem Readers.more (h : Readers w c front) {s s' : Receiver α} {got : List α} {m : Message α}
    (hk : (w.procs i).place k = .receiving c s got) :
    Readers (w.set i k t (.receiving c s' (got ++ m.attached))) c (front ++ [m]) := by
  have hgot : got = front.flatMap Message.attached := h.got (i, k) s got hk
  have hall : ∀ x s₁ got₁, (w.set i k t (.receiving c s' (got ++ m.attached))).Reads c x s₁ got₁ →
      x = (i, k) ∧ got₁ = got ++ m.attached := by
    intro x s₁ got₁ hx
    rcases (reads_set x s₁ got₁).1 hx with ⟨rfl, hq⟩ | ⟨hne, hr⟩
    · obtain ⟨-, -, rfl⟩ := Place.receiving.inj hq
      exact ⟨rfl, rfl⟩
    · exact absurd (h.one x (i, k) s₁ s got₁ got hr hk) hne
  refine ⟨?_, ?_, fun _ => ⟨(i, k), s', _, (reads_set _ _ _).2 (.inl ⟨rfl, rfl⟩)⟩⟩
  · intro x y s₁ s₂ got₁ got₂ hx hy
    rw [(hall x s₁ got₁ hx).1, (hall y s₂ got₂ hy).1]
  · intro x s₁ got₁ hx
    rw [(hall x s₁ got₁ hx).2, hgot]
    simp

/-- The only `recv` from the socket ends. -/
theorem Readers.ends (h : Readers w c front) {s : Receiver α} {got : List α}
    (hk : (w.procs i).place k = .receiving c s got) (hnew : ∀ s got, q ≠ .receiving c s got) :
    Readers (w.set i k t q) c [] := by
  have hnone : ∀ x s₁ got₁, ¬ (w.set i k t q).Reads c x s₁ got₁ := by
    intro x s₁ got₁ hx
    rcases (reads_set x s₁ got₁).1 hx with ⟨-, hq⟩ | ⟨hne, hr⟩
    · exact hnew _ _ hq
    · exact hne (h.one x (i, k) s₁ s got₁ got hr hk)
  exact ⟨fun x _ s₁ _ got₁ _ hx => absurd hx (hnone x s₁ got₁), fun x s₁ got₁ hx => absurd hx (hnone x s₁ got₁),
    fun hne => absurd rfl hne⟩

/-- A `recv` begins where there is none. -/
theorem Readers.begins (h : Readers w c front) (s : Receiver α)
    (hnone : ∀ i k s got, (w.procs i).place k ≠ .receiving c s got) :
    front = [] ∧ Readers (w.set i k t (.receiving c s [])) c [] := by
  have hfront : front = [] := by
    by_contra hne
    obtain ⟨x, s', got, hx⟩ := h.some hne
    exact hnone x.1 x.2 s' got hx
  have hall : ∀ x s₁ got₁, (w.set i k t (.receiving c s [])).Reads c x s₁ got₁ → x = (i, k) ∧ got₁ = [] := by
    intro x s₁ got₁ hx
    rcases (reads_set x s₁ got₁).1 hx with ⟨rfl, hq⟩ | ⟨-, hr⟩
    · obtain ⟨-, -, rfl⟩ := Place.receiving.inj hq
      exact ⟨rfl, rfl⟩
    · exact absurd hr (hnone x.1 x.2 s₁ got₁)
  refine ⟨hfront, ?_, fun x s₁ got₁ hx => (hall x s₁ got₁ hx).2, fun hne => absurd rfl hne⟩
  intro x y s₁ s₂ got₁ got₂ hx hy
  rw [(hall x s₁ got₁ hx).1, (hall y s₂ got₂ hy).1]

end Readers

/-! ## A message taken -/

section Takes

variable {A : Table.Alloc α} {base : ι → Table α} {w : World ι θ κ α} {c : κ} {i : ι} {k : θ} {s : Receiver α}
  {got : List α} {m : Message α} {rest : List (Message α)} {t : Table α} {q : Place κ α}

theorem batchSize_left {size : UInt64} {n : Nat} {left : List α} (hsize : size.toNat = n + left.length)
    (hlt : n + left.length < 2 ^ 63) :
    batchSize size n = (min (left.take maxBatchSize).length maxBatchSize : Nat) := by
  have hmod : n % 2 ^ 64 = n := Nat.mod_eq_of_lt (by omega)
  rw [batchSize, hmod, szSub_of_le (by omega), asLong_of_lt (by omega), List.length_take]
  omega

/-- The message `m` behind the messages `front` of a call, which have the files `got` attached: it has
the next files of the call, and is the last one if these are all that are left. -/
structure Next (got : List α) (front : List (Message α)) (m : Message α) (call : SendCall α) (todo : List (Message α))
    (left : List α) : Prop where
  batches : call.batches = front ++ m :: todo
  files : call.files = got ++ left
  size : m.size.toNat = got.length + left.length
  attached : m.attached = left.take maxBatchSize
  lt : got.length + left.length < 2 ^ 63
  ne_nil : left ≠ []
  todo : todo = [] ↔ left.length ≤ maxBatchSize

theorem next_of_batches {front : List (Message α)} {call : SendCall α} {todo : List (Message α)}
    (h : call.batches = front ++ m :: todo) : ∃ left, Next (front.flatMap Message.attached) front m call todo left := by
  obtain ⟨left, hleft, hfiles, rfl, htodo⟩ := batches_split _ h
  have hlen : call.files.length = (front.flatMap Message.attached).length + left.length := by
    rw [hfiles, List.length_append]
  have hlt := call.length_files_lt
  refine ⟨left, h, hfiles, ?_, rfl, by omega, hleft, htodo⟩
  rw [← hlen, call.length_files, UInt64.toNat_ofNat']
  exact Nat.mod_eq_of_lt (by have := call.length_lt; omega)

theorem Next.attached_ne_nil {front : List (Message α)} {call : SendCall α} {todo : List (Message α)} {left : List α}
    (h : Next got front m call todo left) : m.attached ≠ [] := by
  have hpos := List.length_pos_iff.2 h.ne_nil
  have hmax : 0 < maxBatchSize := by decide
  rw [h.attached, ← List.length_pos_iff, List.length_take]
  omega

theorem next_framed {front : List (Message α)} {call : SendCall α} {todo : List (Message α)} {left : List α}
    (h : Next got front m call todo left) (hv : s.v.length = got.length) :
    batchSize m.size s.v.length = (min m.attached.length maxBatchSize : Nat) := by
  rw [h.attached]
  exact batchSize_left (hv ▸ h.size) (hv ▸ h.lt)

/-- The turn for the next message: the `recv` returns the vector of the call after the last one. -/
theorem turn_next (h : Ready s) {front : List (Message α)} {call : SendCall α} {todo : List (Message α)} {left : List α}
    (hn : Next got front m call todo left) (hv : s.v.length = got.length) (hq : turn A c s got m = (t, q)) :
    (todo = [] → ∃ v, q = .vector v call.files) ∧
      (todo ≠ [] → ∃ s', q = .receiving c s' (got ++ m.attached)) := by
  obtain ⟨s', ht, hret, hmore⟩ := turn_framed (A := A) (c := c) got h (next_framed hn hv)
  have htake : m.attached.take maxBatchSize = m.attached := by
    rw [hn.attached, List.take_take, Nat.min_self]
  have hlen : s'.v.length = s.v.length + min left.length maxBatchSize := by
    rw [ht.v, List.length_append, Table.length_installAll, htake, hn.attached, List.length_take, Nat.min_comm]
  have hsize := hn.size
  have hlt := hn.lt
  have hmod : s'.v.length % 2 ^ 64 = s'.v.length := Nat.mod_eq_of_lt (by omega)
  constructor
  · intro hlast
    have hle := hn.todo.1 hlast
    obtain ⟨-, rfl⟩ := Prod.mk.inj ((hret (by omega)).symm.trans hq)
    refine ⟨s'.v, ?_⟩
    rw [htake, hn.attached, List.take_of_length_le hle, ← hn.files]
  · intro hmore'
    have hle : ¬ left.length ≤ maxBatchSize := fun hle => hmore' (hn.todo.2 hle)
    obtain ⟨-, hturn⟩ := hmore (by omega)
    obtain ⟨-, rfl⟩ := Prod.mk.inj (hturn.symm.trans hq)
    exact ⟨s', by rw [htake]⟩

/-- What is at the socket before and after a message is taken. -/
theorem takes_line [DecidableEq ι] [DecidableEq θ] (hi : Inv base w) (hs : SystemInv (w.chan c))
    {returned : List (List α)} {done more : List (SendCall α)} {front : List (Message α)}
    (hl : Line (w.chan c) (m :: rest) returned done more front) (hr : Readers w c front)
    (hk : (w.procs i).place k = .receiving c s got)
    (hq : turn A c { s with table := (w.procs i).table } got m = (t, q)) :
    batchSize m.size s.v.length = (min m.attached.length maxBatchSize : Nat) ∧
      ∃ done' more' front', Line (w.chan c) rest (returned ++ q.returned) done' more' front' ∧
        Readers (w.set i k t q) c front' := by
  obtain ⟨call, todo, hcall, honly, hlast⟩ := hl.call hs
  obtain ⟨left, hn⟩ := next_of_batches hcall
  have hgot : got = front.flatMap Message.attached := hr.got (i, k) s got hk
  rw [← hgot] at hn
  have hv := hi.length_got hk
  obtain ⟨hend, hmore⟩ := turn_next (hi.ready hk) hn hv hq
  refine ⟨next_framed hn hv, ?_⟩
  by_cases htodo : todo = []
  · obtain ⟨v, rfl⟩ := hend htodo
    obtain ⟨more', rfl⟩ := hlast htodo
    rw [htodo] at hcall
    exact ⟨_, more', [], hl.finished hcall, hr.ends hk nofun⟩
  · obtain ⟨s', rfl⟩ := hmore htodo
    refine ⟨done, more, front ++ [m], ?_, hr.more hk⟩
    show Line _ _ (returned ++ []) _ _ _
    rw [List.append_nil]
    exact hl.taken hn.attached_ne_nil hcall htodo honly

end Takes

/-! ## Runs -/

section Run

variable {A : Table.Alloc α} {base : ι → Table α} {w w' : World ι θ κ α} {a : Act ι θ κ} {i : ι} {k : θ} {c : κ}

/-- Something happens at one socket, on the side of the senders. -/
theorem Flow.socket (h : Flow w) (c : κ) {sys : System (ι × θ) α} {pending : List (Message α)}
    (hprocs : w'.procs = w.procs) (hret : w'.returned = w.returned)
    (hother : ∀ c', c' ≠ c → w'.chan c' = w.chan c' ∧ w'.pending c' = w.pending c')
    (hself : w'.chan c = sys ∧ w'.pending c = pending) (hs : SystemInv sys)
    (hleft : ∀ x call rest, sys.sender x = some (call, rest) → Left call rest)
    (hline : ∀ done more front, Line (w.chan c) (w.pending c) (w.returned c) done more front →
      ∃ more', Line sys pending (w.returned c) done more' front) : Flow w' := by
  have hreads : ∀ c' x s got, w'.Reads c' x s got ↔ w.Reads c' x s got := by
    intro c' x s got
    unfold World.Reads
    rw [hprocs]
  obtain ⟨rfl, rfl⟩ := hself
  constructor
  · intro c'
    by_cases hc : c' = c
    · rw [hc]; exact hs
    · rw [(hother c' hc).1]; exact h.senders c'
  · intro c' x call rest hx
    by_cases hc : c' = c
    · subst hc; exact hleft x call rest hx
    · rw [(hother c' hc).1] at hx; exact h.left c' x call rest hx
  · intro c'
    obtain ⟨done, more, front, hl, hr⟩ := h.line c'
    have hr' := hr.congr (hreads c')
    rw [hret]
    by_cases hc : c' = c
    · subst hc
      obtain ⟨more', hl'⟩ := hline done more front hl
      exact ⟨done, more', front, hl', hr'⟩
    · rw [(hother c' hc).1, (hother c' hc).2]
      exact ⟨done, more, front, hl, hr'⟩

variable [DecidableEq ι] [DecidableEq θ]

/-- A place changes that is of no `recv`. -/
theorem Flow.quiet (h : Flow w) {t : Table α} {q : Place κ α}
    (hold : ∀ c s got, (w.procs i).place k ≠ .receiving c s got)
    (hnew : ∀ c s got, q ≠ .receiving c s got) : Flow (w.set i k t q) where
  senders := h.senders
  left := h.left
  line c := by
    obtain ⟨done, more, front, hl, hr⟩ := h.line c
    exact ⟨done, more, front, hl, hr.other (hold c) (hnew c)⟩

variable [DecidableEq κ]

theorem starts_flow (h : Flow w) {call : SendCall α} (hk : (w.chan c).sender (i, k) = none) :
    Flow (w.setChan c { w.chan c with
      sender := Function.update (w.chan c).sender (i, k) (some (call, (send call.junk call.range).prog ())) }) := by
  refine h.socket c rfl rfl (fun c' hc => ⟨Function.update_of_ne hc _ _, rfl⟩) ⟨w.chan_setChan c _, rfl⟩
    (start_inv (h.senders c) hk call) ?_ fun done more front hl => ⟨more, hl.congr rfl rfl⟩
  intro x call' rest hx
  rcases update_eq_some hx with ⟨-, heq⟩ | ⟨-, hx⟩
  · obtain ⟨rfl, rfl⟩ := Prod.mk.inj heq
    exact left_send call
  · exact h.left c x call' rest hx

theorem breaks_flow (h : Flow w) {call : SendCall α} {rest : SendProg}
    (hk : (w.chan c).sender (i, k) = some (call, rest)) :
    Flow (w.setChan c ((w.chan c).abort (i, k))) := by
  refine h.socket c rfl rfl (fun c' hc => ⟨Function.update_of_ne hc _ _, rfl⟩) ⟨w.chan_setChan c _, rfl⟩
    (abort_inv (h.senders c) hk) ?_ fun done more front hl => ⟨more, hl.congr rfl rfl⟩
  intro x call' rest' hx
  exact h.left c x call' rest' (update_none_eq_some hx).2

theorem puts_flow (h : Flow w) {call : SendCall α} {o : Outgoing} {next : Except Errno Nat → SendProg}
    {m : Message α} (n : Nat) (hk : (w.chan c).sender (i, k) = some (call, .ask o next))
    (hm : o.message (w.procs i).table = some m) (ho : (Act.puts i k c : Act ι θ κ).Orderly w) :
    Flow ((w.arrive c m).setChan c
      ({ w.chan c with queue := (w.chan c).queue ++ [m] }.proceed (i, k) call (next (.ok n)))) := by
  obtain ⟨hu, hopen⟩ := ho
  have hleft := h.left c (i, k) call _ hk
  rw [hleft.message (hopen call _ hk)] at hm
  refine h.socket c rfl rfl (fun c' hc => ⟨Function.update_of_ne hc _ _, Function.update_of_ne hc _ _⟩)
    ⟨World.chan_setChan _ c _, w.pending_arrive c m⟩ (put_inv (h.senders c) hu n hk hm) ?_
    fun done more front hl => hl.put (h.senders c) hu n hk hm
  intro x call' rest hx
  rcases hnext : next (.ok n) with ⟨⟨_ | _, _⟩⟩ | ⟨o', next'⟩ <;> rw [hnext] at hx
  · exact h.left c x call' rest (update_none_eq_some hx).2
  · exact h.left c x call' rest (update_none_eq_some hx).2
  · rcases update_eq_some hx with ⟨-, heq⟩ | ⟨-, hx⟩
    · obtain ⟨rfl, rfl⟩ := Prod.mk.inj heq
      exact hleft.put n hnext
    · exact h.left c x call' rest hx

theorem begins_flow (h : Flow w) (s : Receiver α) (hk : (w.procs i).place k = .empty)
    (hnone : ∀ i k s got, (w.procs i).place k ≠ .receiving c s got) (t : Table α) :
    Flow (w.set i k t (.receiving c s [])) where
  senders := h.senders
  left := h.left
  line c' := by
    obtain ⟨done, more, front, hl, hr⟩ := h.line c'
    by_cases hc : c' = c
    · subst hc
      obtain ⟨rfl, hr'⟩ := hr.begins s hnone
      exact ⟨done, more, [], hl, hr'⟩
    · refine ⟨done, more, front, hl, hr.other ?_ ?_⟩
      · rw [hk]; nofun
      · rintro _ _ ⟨⟩; exact hc rfl

theorem takes_flow (hi : Inv base w) (h : Flow w) {s : Receiver α} {got : List α} {m : Message α}
    {rest : List (Message α)} {t : Table α} {q : Place κ α} (hk : (w.procs i).place k = .receiving c s got)
    (hc : w.pending c = m :: rest) (hq : turn A c { s with table := (w.procs i).table } got m = (t, q)) :
    batchSize m.size s.v.length = (min m.attached.length maxBatchSize : Nat) ∧
      Flow { w.set i k t q with
        pending := Function.update w.pending c rest
        returned := Function.update w.returned c (w.returned c ++ q.returned) } := by
  obtain ⟨done, more, front, hl, hr⟩ := h.line c
  rw [hc] at hl
  obtain ⟨hframed, done', more', front', hl', hr'⟩ := takes_line hi (h.senders c) hl hr hk hq
  refine ⟨hframed, h.senders, h.left, fun c' => ?_⟩
  by_cases hcc : c' = c
  · subst hcc
    refine ⟨done', more', front', ?_, hr'.congr fun _ _ _ => Iff.rfl⟩
    dsimp only
    rw [Function.update_self, Function.update_self]
    exact hl'
  · obtain ⟨done₂, more₂, front₂, hl₂, hr₂⟩ := h.line c'
    have hother : Readers (w.set i k t q) c' front₂ := by
      refine hr₂.other ?_ ?_
      · rw [hk]
        rintro _ _ ⟨⟩
        exact hcc rfl
      · rintro s' got' rfl
        exact hcc (turn_socket A hq)
    refine ⟨done₂, more₂, front₂, ?_, hother.congr fun _ _ _ => Iff.rfl⟩
    dsimp only
    rw [Function.update_of_ne hcc, Function.update_of_ne hcc]
    exact hl₂

theorem fails_flow (hi : Inv base w) (h : Flow w) {s : Receiver α} {got : List α} (t : Table α)
    (hk : (w.procs i).place k = .receiving c s got) (hv : s.v = []) : Flow (w.set i k t .empty) where
  senders := h.senders
  left := h.left
  line c' := by
    obtain ⟨done, more, front, hl, hr⟩ := h.line c'
    by_cases hc : c' = c
    · subst hc
      -- it has taken no message, since each has files attached
      have hgot : got = [] := by
        rw [← List.length_eq_zero_iff, ← hi.length_got hk, hv]
        rfl
      have hfront : front = [] := by
        rw [List.eq_nil_iff_forall_not_mem]
        intro m hm
        have hnil := (hr.got (i, k) s got hk).symm.trans hgot
        exact hl.full m hm (List.flatMap_eq_nil_iff.1 hnil m hm)
      subst hfront
      exact ⟨done, more, [], hl, hr.ends hk nofun⟩
    · refine ⟨done, more, front, hl, hr.other ?_ nofun⟩
      rw [hk]
      rintro _ _ ⟨⟩
      exact hc rfl

theorem step_flow (hs : Step A w a w') (hi : Inv base w) (h : Flow w) (ho : a.Orderly w) : a.Framed w ∧ Flow w' := by
  cases hs with
  | opens i k x hk => exact ⟨trivial, h.quiet (by rw [hk]; nofun) nofun⟩
  | starts i k c call ht hk => exact ⟨trivial, starts_flow h hk⟩
  | puts i k c n hs hm => exact ⟨trivial, puts_flow h n hs hm ho⟩
  | breaks i k c e hs hr => exact ⟨trivial, breaks_flow h hs⟩
  | posts => exact ho.elim
  | begins i k c env ht hk => exact ⟨trivial, begins_flow h _ hk ho _⟩
  | takes i k hk hc hp =>
    obtain ⟨hframed, hflow⟩ := takes_flow hi h hk hc hp
    exact ⟨framed_takes hk hc hframed, hflow⟩
  | fails i k e hk => exact ⟨trivial, fails_flow hi h _ hk (ho _ _ _ hk)⟩
  | destroys i k hk => exact ⟨trivial, h.quiet (by rw [hk]; nofun) nofun⟩

end Run

/-! ## Playing a run -/

/-- What is to happen next. -/
inductive Cue (ι θ κ α : Type)
  | starts (i : ι) (k : θ) (c : κ) (call : SendCall α)
  | puts (i : ι) (k : θ) (c : κ)
  | begins (i : ι) (k : θ) (c : κ)
  | takes (i : ι) (k : θ)

/-- The socket that a `recv` under way reads from. -/
def Place.reads : Place κ α → Option κ
  | .receiving c _ _ => some c
  | _ => none

theorem Place.ne_receiving_iff {c : κ} {p : Place κ α} : p.reads ≠ some c ↔ ∀ s got, p ≠ .receiving c s got := by
  cases p <;> simp [Place.reads]

theorem Place.receiving_nil_iff {p : Place κ α} :
    p.reads = none ∨ p.nums = [] ↔ ∀ c s got, p = .receiving c s got → s.v = [] := by
  cases p <;> simp [Place.reads, Place.nums]

section Play

variable [DecidableEq ι] [DecidableEq θ] [DecidableEq κ] [DecidableEq α] (A : Table.Alloc α)

/-- The next step, if it can happen; a `recv` begins with zeros in its variables. -/
def World.play (w : World ι θ κ α) : Cue ι θ κ α → Option (Act ι θ κ × World ι θ κ α)
  | .starts i k c call =>
    match (w.chan c).sender (i, k) with
    | none =>
      if call.table = (w.procs i).table then
        some (.starts i k c, w.setChan c { w.chan c with
          sender := Function.update (w.chan c).sender (i, k) (some (call, (send call.junk call.range).prog ())) })
      else none
    | some _ => none
  | .puts i k c =>
    match (w.chan c).sender (i, k) with
    | some (call, .ask o next) =>
      (o.message (w.procs i).table).map fun m => (.puts i k c, (w.arrive c m).setChan c
        ({ w.chan c with queue := (w.chan c).queue ++ [m] }.proceed (i, k) call (next (.ok 8))))
    | _ => none
  | .begins i k c =>
    let env : Env α := ⟨(w.procs i).table, 0, ⟨List.replicate maxBatchSize 0, List.length_replicate ..⟩⟩
    match (w.procs i).place k with
    | .empty => some (.begins i k c, w.set i k (w.procs i).table (.receiving c env.start []))
    | _ => none
  | .takes i k =>
    match (w.procs i).place k with
    | .receiving c s got =>
      match w.pending c with
      | m :: rest =>
        let r := turn A c { s with table := (w.procs i).table } got m
        some (.takes i k, { w.set i k r.1 r.2 with
          pending := Function.update w.pending c rest
          returned := Function.update w.returned c (w.returned c ++ r.2.returned) })
      | [] => none
    | _ => none

theorem play_step (w : World ι θ κ α) (c : Cue ι θ κ α) (p : Act ι θ κ × World ι θ κ α) (h : w.play A c = some p) :
    Step A w p.1 p.2 := by
  cases c with
  | starts i k c call =>
    simp only [World.play] at h
    split at h
    · rename_i hk
      split at h
      · rename_i ht
        cases h
        exact .starts i k c call ht hk
      · cases h
    · cases h
  | puts i k c =>
    simp only [World.play] at h
    split at h
    · rename_i hs
      obtain ⟨m, hm, rfl⟩ := Option.map_eq_some_iff.1 h
      exact .puts i k c 8 hs hm
    · cases h
  | begins i k c =>
    simp only [World.play] at h
    split at h
    · rename_i hk
      cases h
      exact .begins i k c _ rfl hk
    · cases h
  | takes i k =>
    simp only [World.play] at h
    split at h
    · rename_i hk
      split at h
      · rename_i hc
        cases h
        exact .takes i k hk hc rfl
      · cases h
    · cases h

instance [Fintype ι] [Fintype θ] (w : World ι θ κ α) : ∀ a : Act ι θ κ, Decidable (a.Orderly w)
  | .puts i k c =>
    decidable_of_iff ((SystemAct.put (i, k)).Uncut (w.chan c) ∧
        ∀ p ∈ (w.chan c).sender (i, k), ∀ n ∈ p.1.range, (w.procs i).table.file n = p.1.table.file n)
      (and_congr_right' ⟨fun h call rest he => h (call, rest) he, fun h p hp => h p.1 p.2 hp⟩)
  | .begins _ _ c =>
    decidable_of_iff (∀ i k, ((w.procs i).place k).reads ≠ some c)
      (forall_congr' fun _ => forall_congr' fun _ => Place.ne_receiving_iff)
  | .fails i k =>
    decidable_of_iff (((w.procs i).place k).reads = none ∨ ((w.procs i).place k).nums = []) Place.receiving_nil_iff
  | .posts _ => .isFalse id
  | .opens _ _ | .starts _ _ _ | .breaks _ _ _ | .takes _ _ | .destroys _ _ => .isTrue trivial

end Play

/-- A process that has the descriptors 0 to 11, for the files 7 to 18. -/
def giver : SendCall Nat := numbered 7 12 (by decide)

/-- Another call of the process, for the first two of them. -/
def giverTwo : SendCall Nat where
  range := [1, 0]
  table := giver.table
  junk := []
  ne_nil := nofun
  length_lt := by decide
  opened := by decide

end Fdcpp.Fdpass
