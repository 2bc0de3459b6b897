/-
What `send` hands to the kernel and what `recv` makes of it. The messages of a `send` are the
batches of its list, and a `recv` that finds them first in its queue returns new descriptors for
the same open files, in order, and leaves the rest of the queue: the two loops cut the list at the
same places, and the control length that `recvmsg` leaves behind is full after a full batch.
-/
import Fdcpp.Fdpass.Transfer

namespace Fdcpp.Fdpass

open Bytes

variable {α : Type}

/-! ## The messages of a `send` -/

/-- The batches of a list of open files, each with the announced size. -/
def batches (size : UInt64) (files : List α) : List (Message α) :=
  if files = [] then []
  else ⟨size, files.take maxBatchSize⟩ :: batches size (files.drop maxBatchSize)
termination_by files.length
decreasing_by
  rename_i hne
  have := List.length_pos_iff.2 hne
  simp only [List.length_drop, maxBatchSize] at *; omega

@[simp] theorem batches_nil (size : UInt64) : batches size ([] : List α) = [] := by
  rw [batches, if_pos rfl]

theorem batches_of_ne_nil (size : UInt64) {files : List α} (h : files ≠ []) :
    batches size files = ⟨size, files.take maxBatchSize⟩ :: batches size (files.drop maxBatchSize) := by
  rw [batches, if_neg h]

/-- A list of `n` files has `⌈n / 10⌉` batches. -/
theorem length_batches (size : UInt64) (files : List α) :
    (batches size files).length = (files.length + 9) / 10 := by
  induction hn : files.length using Nat.strong_induction_on generalizing files with
  | _ n ih =>
    subst hn
    by_cases hne : files = []
    · subst hne; simp
    · have hpos := List.length_pos_iff.2 hne
      have hlen : (files.drop maxBatchSize).length = files.length - 10 := List.length_drop
      rw [batches_of_ne_nil size hne, List.length_cons, ih _ (by omega) _ rfl, hlen]
      omega

/-- The messages that the calls of a `send` put on their way. -/
def messages (t : Table α) (evs : List (Ev Outgoing fun _ => Except Errno Nat)) : List (Message α) :=
  evs.flatMap fun e => match e.2 with
    | .ok _ => (e.1.message t).toList
    | .error _ => []

theorem mapM_file {t : Table α} : ∀ {nums : List Int} {files : List α}, nums.map t.file = files.map some →
    nums.mapM t.file = some files
  | [], [], _ => rfl
  | n :: nums, x :: files, h => by
    simp only [List.map_cons, List.cons.injEq] at h
    simp [List.mapM_cons, h.1, mapM_file h.2]

theorem ne_nil_of_map_file {t : Table α} {range : List Int} {files : List α}
    (h : range.map t.file = files.map some) (hne : range ≠ []) : files ≠ [] := by
  rintro rfl
  exact hne (List.map_eq_nil_iff.1 h)

/-- The kernel finds the batch in the message, and nothing stale behind it. -/
theorem message_batch (t : Table α) (size : UInt64) (data : List Int) {batch : List Int} {files : List α} {len : Nat}
    (h : batch.map t.file = files.map some) (hlen : batch.length = len) :
    Outgoing.message t ⟨size, cmsgSpace (len * intSize), cmsgLen (len * intSize), splice data 0 batch⟩ =
      some ⟨size, files⟩ := by
  subst hlen
  have hcount : (cmsgLen (batch.length * intSize) - cmsgAlign cmsghdrSize) / intSize = batch.length := by
    simp [cmsgLen, intSize]
  rw [Outgoing.message, Outgoing.attached, hcount, splice_zero, List.take_left, mapM_file h]
  rfl

theorem sendLoop_nil (size : UInt64) (data : List Int) : (sendLoop size data []).prog () = .ret (.ok (), ()) := by
  rw [sendLoop, if_pos rfl]
  rfl

/-- The loop hands its next batch to `sendmsg`, and goes on or ends with the exception. -/
theorem sendLoop_cons (α : Type) (size : UInt64) (data : List Int) {range : List Int} (h : range ≠ []) :
    ∃ o data', (sendLoop size data range).prog () = .ask o (fun r => match r with
        | .ok _ => (sendLoop size data' (range.drop maxBatchSize)).prog ()
        | .error e => .ret (.error (throwSystemError "socket" "sendmsg()" e), ())) ∧
      ∀ (t : Table α) (files : List α), range.map t.file = files.map some →
        o.message t = some ⟨size, files.take maxBatchSize⟩ := by
  have hcut : range.take (min range.length maxBatchSize) = range.take maxBatchSize := by
    rw [Nat.min_comm, ← List.take_eq_take_min]
  have hrest : range.drop (min range.length maxBatchSize) = range.drop maxBatchSize := by
    rw [List.drop_eq_drop_iff]; omega
  have hsize : (range.take maxBatchSize).length = min range.length maxBatchSize := by
    rw [List.length_take, Nat.min_comm]
  refine ⟨⟨size, cmsgSpace (min range.length maxBatchSize * intSize),
    cmsgLen (min range.length maxBatchSize * intSize), splice data 0 (range.take maxBatchSize)⟩,
    splice data 0 (range.take maxBatchSize), ?_, fun t files hfiles => ?_⟩
  · rw [sendLoop, if_neg h]
    dsimp only
    rw [hcut, hrest]
    refine congrArg (Prog.ask _) (funext fun r => ?_)
    cases r <;> rfl
  · exact message_batch t size data (by rw [List.map_take, hfiles, List.map_take]) hsize

section Send

variable {L : (o : Outgoing) → Except Errno Nat → Prop}

/-- A `send` that returns has sent all the batches of its list; one that throws has sent the first
ones, but not all. -/
theorem sendLoop_spec (t : Table α) (size : UInt64) (data range : List Int) (files : List α)
    (h : range.map t.file = files.map some) :
    Eff.Sat L (sendLoop size data range) () fun evs r _ => match r with
      | .ok _ => messages t evs = batches size files
      | .error _ => messages t evs <+: batches size files ∧
          (messages t evs).length < (batches size files).length ∧ ∃ o k, ⟨o, .error k⟩ ∈ evs := by
  induction hn : range.length using Nat.strong_induction_on generalizing range data files with
  | _ n ih =>
    subst hn
    unfold Eff.Sat
    by_cases hne : range = []
    · subst hne
      obtain rfl : files = [] := List.map_eq_nil_iff.1 h.symm
      rw [sendLoop_nil]
      exact (batches_nil size).symm
    · have hpos := List.length_pos_iff.2 hne
      have hfiles : files ≠ [] := ne_nil_of_map_file h hne
      obtain ⟨o, data', hprog, hmsg⟩ := sendLoop_cons α size data hne
      rw [hprog, batches_of_ne_nil size hfiles]
      rintro (e | k) -
      · -- the first batch that fails ends the call, with this one and all after it not sent
        exact ⟨⟨_, rfl⟩, Nat.succ_pos _, o, e, List.mem_singleton_self _⟩
      · have hrest : (range.drop maxBatchSize).map t.file = (files.drop maxBatchSize).map some := by
          rw [List.map_drop, h, List.map_drop]
        have hdrop : (range.drop maxBatchSize).length < range.length := by
          simp only [List.length_drop, maxBatchSize]; omega
        refine Prog.wp_mono (ih _ hdrop data' _ _ hrest rfl) ?_
        rintro evs ⟨e | u, u'⟩ - hm
        · obtain ⟨hpre, hlen', o', j, hmem⟩ := hm
          exact ⟨by simpa [messages, hmsg t files h] using hpre, by simpa [messages, hmsg t files h] using hlen',
            o', j, List.mem_cons_of_mem _ hmem⟩
        · simpa [messages, hmsg t files h] using hm

end Send

/-- Open descriptors refer to a list of files. -/
theorem map_file_filterMap {t : Table α} : ∀ {range : List Int}, (∀ n ∈ range, (t.file n).isSome) →
    range.map t.file = (range.filterMap t.file).map some
  | [], _ => rfl
  | n :: range, h => by
    obtain ⟨hn, hrange⟩ := List.forall_mem_cons.1 h
    obtain ⟨x, hx⟩ := Option.isSome_iff_exists.1 hn
    rw [List.map_cons, List.filterMap_cons_some hx, List.map_cons, hx, map_file_filterMap hrange]

/-- A call of `send`: its list of open descriptors, the descriptors of its process, and the contents
of its buffer. -/
structure SendCall (α : Type) where
  range : List Int
  table : Table α
  junk : List Int
  ne_nil : range ≠ []
  length_lt : range.length < 2 ^ 63
  opened : ∀ n ∈ range, (table.file n).isSome
  deriving DecidableEq

/-- A call of `send` that returned, with its run. -/
structure Sent (α : Type) extends SendCall α where
  evs : List (Ev Outgoing fun _ => Except Errno Nat)
  run : ((send junk range).prog ()).Runs evs (.ok (), ())

namespace SendCall

/-- The open files that the descriptors refer to. -/
def files (c : SendCall α) : List α := c.range.filterMap c.table.file

/-- The messages of the whole list. -/
def batches (c : SendCall α) : List (Message α) := Fdpass.batches (.ofNat c.range.length) c.files

theorem map_file (c : SendCall α) : c.range.map c.table.file = c.files.map some := map_file_filterMap c.opened

theorem length_files (c : SendCall α) : c.files.length = c.range.length := by
  simpa using (congrArg List.length c.map_file).symm

theorem length_files_lt (c : SendCall α) : c.files.length < 2 ^ 63 := by
  rw [c.length_files]; exact c.length_lt

theorem files_ne_nil (c : SendCall α) : c.files ≠ [] := ne_nil_of_map_file c.map_file c.ne_nil

/-- Every list of open descriptors can be sent. -/
theorem exists_sent (c : SendCall α) : ∃ s : Sent α, s.toSendCall = c := by
  obtain ⟨evs, ⟨r, u⟩, hr, hl⟩ := Prog.exists_runs (L := fun _ r => ∃ n, r = .ok n) (fun _ => ⟨.ok 8, 8, rfl⟩)
    ((send c.junk c.range).prog ())
  have hspec := Eff.sat_iff_runs.1 (sendLoop_spec c.table _ c.junk c.range _ c.map_file) evs r u hr hl
  match r, hspec with
  | .ok (), _ => exact ⟨⟨c, evs, hr⟩, rfl⟩
  | .error _, hspec =>
    obtain ⟨-, -, o, k, hmem⟩ := hspec
    obtain ⟨n, hn⟩ := hl _ hmem
    cases hn

end SendCall

namespace Sent

/-- The messages that the call put on their way. -/
def messages (c : Sent α) : List (Message α) := Fdpass.messages c.table c.evs

theorem messages_eq (c : Sent α) : c.messages = c.batches :=
  Eff.sat_iff_runs.1 (sendLoop_spec (L := fun _ _ => True) c.table _ c.junk c.range c.files c.map_file) _ _ _ c.run
    fun _ _ => trivial

end Sent

/-! ## One message received -/

/-- What `recv` owns: its vector holds the numbers installed in this call, each once, and they are
open; and no copy loop has run too far. -/
structure Owned (s : Receiver α) : Prop where
  installed : s.installed = s.v
  nodup : s.v.Nodup
  opened : ∀ n ∈ s.v, 0 ≤ n ∧ n ∈ s.table.nums
  overran : s.overran = false

/-- `recv` before a message that may be the first or follows a full batch. -/
structure Ready (s : Receiver α) : Prop extends Owned s where
  controllen : s.controllen = cmsgSpace (maxBatchSize * intSize)
  data : s.data.length = maxBatchSize

section Recv

variable {A : Table.Alloc α} {s : Receiver α}

theorem copyLoop_eq : ∀ (n : Nat) (v data : List Int), n ≤ data.length →
    copyLoop n v data = (v ++ data.take n, false)
  | 0, v, [], _ => by simp [copyLoop]
  | 0, v, x :: data, _ => by simp [copyLoop]
  | n + 1, v, x :: data, h => by
    have hne : ((n + 1 : Nat) : Int) ≠ 0 := by omega
    have hpred : ((n + 1 : Nat) : Int) - 1 = (n : Nat) := by omega
    rw [copyLoop, if_neg hne, hpred, copyLoop_eq n _ data (by simpa using h)]
    simp

/-- What a message does when it has as many descriptors attached as `recv` reads. -/
structure Took (A : Table.Alloc α) (s : Receiver α) (m : Message α) (s' : Receiver α) : Prop extends Owned s' where
  v : s'.v = s.v ++ (s.table.installAll A (m.attached.take maxBatchSize)).1
  size : s'.size = m.size
  table : s'.table = (s.table.installAll A (m.attached.take maxBatchSize)).2
  ready : maxBatchSize ≤ m.attached.length → Ready s'

/-- The message is received into a ready `recv`: the kernel installs what fits in ten places. -/
theorem recvmsg_ready (h : Ready s) (m : Message α) : recvmsg A s m = { s with
    size := m.size
    controllen := if m.attached.take maxBatchSize = [] then 0
      else min (cmsgSpace ((m.attached.take maxBatchSize).length * intSize)) (cmsgSpace (maxBatchSize * intSize))
    data := splice s.data 0 (s.table.installAll A (m.attached.take maxBatchSize)).1
    table := (s.table.installAll A (m.attached.take maxBatchSize)).2
    installed := s.installed ++ (s.table.installAll A (m.attached.take maxBatchSize)).1 } := by
  have hfds : maxFds s.controllen = maxBatchSize := by rw [h.controllen]; decide
  rw [recvmsg, hfds, h.controllen]

theorem took_of_ready (h : Ready s) (m : Message α) : Took A s m { recvmsg A s m with
    v := s.v ++ (s.table.installAll A (m.attached.take maxBatchSize)).1, overran := false } := by
  rw [recvmsg_ready h m]
  have howned : Owned { s with
      v := s.v ++ (s.table.installAll A (m.attached.take maxBatchSize)).1
      overran := false
      table := (s.table.installAll A (m.attached.take maxBatchSize)).2
      installed := s.installed ++ (s.table.installAll A (m.attached.take maxBatchSize)).1 } := by
    refine ⟨by rw [h.installed], ?_, ?_, rfl⟩
    · refine List.nodup_append.2 ⟨h.nodup, Table.nodup_installAll A _ _, ?_⟩
      rintro n hn k hk rfl
      exact (Table.installAll_fresh A _ _ hk).2 (h.opened n hn).2
    · intro n hn
      rw [Table.mem_nums_installAll]
      rcases List.mem_append.1 hn with hn | hn
      · exact ⟨(h.opened n hn).1, .inl (h.opened n hn).2⟩
      · exact ⟨(Table.installAll_fresh A _ _ hn).1, .inr hn⟩
  refine ⟨⟨howned.installed, howned.nodup, howned.opened, rfl⟩, rfl, rfl, rfl, fun hfull => ?_⟩
  have hlen : (m.attached.take maxBatchSize).length = maxBatchSize := by rw [List.length_take]; omega
  have hne : m.attached.take maxBatchSize ≠ [] := by
    intro hnil
    rw [hnil] at hlen
    simp only [List.length_nil, maxBatchSize] at hlen
    omega
  refine ⟨⟨howned.installed, howned.nodup, howned.opened, rfl⟩, ?_, ?_⟩
  · show (if _ then _ else _) = _
    rw [if_neg hne, hlen, Nat.min_self]
  · show (splice _ _ _).length = _
    rw [length_splice (by rw [Table.length_installAll, hlen, h.data]; decide), h.data]

/-- A count of no more than was installed: the copy loop takes that many of the new numbers. -/
theorem adopt_ready (h : Ready s) {m : Message α} {k : Nat} (hk : batchSize m.size s.v.length = k)
    (hle : k ≤ min m.attached.length maxBatchSize) :
    adopt (recvmsg A s m) m = ({ recvmsg A s m with
      v := s.v ++ (s.table.installAll A (m.attached.take maxBatchSize)).1.take k, overran := false }, false) := by
  have hlen : (m.attached.take maxBatchSize).length = min m.attached.length maxBatchSize := by
    rw [List.length_take, Nat.min_comm]
  have hover : decide ((k : Int) < 0 ∨ (m.attached.length : Int) < k) = false := by
    rw [decide_eq_false_iff_not]; omega
  rw [recvmsg_ready h m]
  unfold adopt
  dsimp only
  rw [hk, hover, h.overran]
  by_cases hnil : m.attached.take maxBatchSize = []
  · -- no header: nothing was attached, and nothing is read
    have hzero : min m.attached.length maxBatchSize = 0 := by rw [← hlen, hnil]; rfl
    obtain rfl : k = 0 := by omega
    have hnull : 0 < cmsghdrSize := by decide
    simp [hnil, hnull]
  · have hheader : ¬ min (cmsgSpace ((m.attached.take maxBatchSize).length * intSize))
        (cmsgSpace (maxBatchSize * intSize)) < cmsghdrSize := by
      simp only [cmsgSpace, cmsgAlign, cmsghdrSize]
      omega
    have hnums : (s.table.installAll A (m.attached.take maxBatchSize)).1.length =
        min m.attached.length maxBatchSize := by rw [Table.length_installAll, hlen]
    rw [if_neg hnil, if_neg hheader, copyLoop_eq _ _ _ ?_]
    · rw [splice_zero, List.take_append_of_le_length (by omega)]
      rfl
    · rw [length_splice, h.data]
      · omega
      · rw [hnums, h.data]; omega

theorem adopt_took (h : Ready s) {m : Message α}
    (hb : batchSize m.size s.v.length = (min m.attached.length maxBatchSize : Nat)) :
    ∃ s', adopt (recvmsg A s m) m = (s', false) ∧ Took A s m s' := by
  have hnums : (s.table.installAll A (m.attached.take maxBatchSize)).1.length =
      min m.attached.length maxBatchSize := by rw [Table.length_installAll, List.length_take, Nat.min_comm]
  refine ⟨_, ?_, took_of_ready h m⟩
  rw [adopt_ready h hb le_rfl, ← hnums, List.take_length]

theorem recvLoop_took (h : Ready s) {m : Message α}
    (hb : batchSize m.size s.v.length = (min m.attached.length maxBatchSize : Nat))
    (queue : List (Except Errno (Message α))) :
    ∃ s', Took A s m s' ∧ recvLoop A s (.ok m :: queue) =
      if s'.v.length % 2 ^ 64 = m.size.toNat then .returned s' queue else recvLoop A s' queue := by
  obtain ⟨s', ha, ht⟩ := adopt_took (A := A) h hb
  refine ⟨s', ht, ?_⟩
  rw [recvLoop, ha]
  dsimp only
  rw [ht.size]

/-! ## A whole list received -/

/-- The vector of `s'` has new descriptors for the files `files` behind those of `s`, and the other
descriptors of the process are as they were. -/
structure Delivers (s s' : Receiver α) (files : List α) : Prop where
  v : ∃ nums, s'.v = s.v ++ nums ∧ nums.map s'.table.file = files.map some ∧ ∀ n ∈ nums, n ∉ s.table.nums
  keeps : ∀ n ∈ s.table.nums, n ∈ s'.table.nums ∧ s'.table.file n = s.table.file n

theorem Took.delivers {m : Message α} {s' : Receiver α} (h : Took A s m s') :
    Delivers s s' (m.attached.take maxBatchSize) := by
  refine ⟨⟨_, h.v, ?_, fun n hn => (Table.installAll_fresh A _ _ hn).2⟩, fun n hn => ?_⟩
  · rw [h.table]; exact Table.map_file_installAll A _ _
  · rw [h.table]
    exact ⟨(Table.mem_nums_installAll A _ _).2 (.inl hn), Table.file_installAll_of_mem A _ _ hn⟩

theorem Delivers.trans {s₁ s₂ : Receiver α} {files files' : List α} (h : Delivers s s₁ files)
    (h' : Delivers s₁ s₂ files') (ho : Owned s₁) : Delivers s s₂ (files ++ files') := by
  obtain ⟨nums, hv, hfiles, hnew⟩ := h.v
  obtain ⟨nums', hv', hfiles', hnew'⟩ := h'.v
  refine ⟨⟨nums ++ nums', by rw [hv', hv, List.append_assoc], ?_, fun n hn => ?_⟩, fun n hn => ?_⟩
  · rw [List.map_append, List.map_append, hfiles', ← hfiles]
    congr 1
    refine List.map_congr_left fun n hn => (h'.keeps n (ho.opened n ?_).2).2
    rw [hv]; exact List.mem_append_right _ hn
  · rcases List.mem_append.1 hn with hn | hn
    · exact hnew n hn
    · exact fun hm => hnew' n hn (h.keeps n hm).1
  · obtain ⟨hm, hf⟩ := h.keeps n hn
    obtain ⟨hm', hf'⟩ := h'.keeps n hm
    exact ⟨hm', hf'.trans hf⟩

/-- A ready `recv` that still owes `files` takes their first batch; it returns if that is the last. -/
theorem recvLoop_batch (size : UInt64) (queue : List (Except Errno (Message α))) {files : List α} (h : Ready s)
    (hsize : size.toNat = s.v.length + files.length) (hlt : s.v.length + files.length < 2 ^ 63) :
    ∃ s', Owned s' ∧ Delivers s s' (files.take maxBatchSize) ∧
      s'.v.length = s.v.length + min files.length maxBatchSize ∧ (maxBatchSize < files.length → Ready s') ∧
      recvLoop A s (.ok ⟨size, files.take maxBatchSize⟩ :: queue) =
        if files.length ≤ maxBatchSize then .returned s' queue else recvLoop A s' queue := by
  have htake : (files.take maxBatchSize).length = min files.length maxBatchSize := by
    rw [List.length_take, Nat.min_comm]
  have hb : batchSize size s.v.length = (min (files.take maxBatchSize).length maxBatchSize : Nat) := by
    have hmod : s.v.length % 2 ^ 64 = s.v.length := Nat.mod_eq_of_lt (by omega)
    rw [batchSize, hmod, szSub_of_le (by omega), asLong_of_lt (by omega), htake]
    omega
  obtain ⟨s', ht, hloop⟩ := recvLoop_took (A := A) h (m := ⟨size, files.take maxBatchSize⟩) hb queue
  have hd := ht.delivers
  simp only [List.take_take, Nat.min_self] at hd
  have hlen : s'.v.length = s.v.length + min files.length maxBatchSize := by
    rw [ht.v, List.length_append, Table.length_installAll, List.take_take, Nat.min_self, htake]
  have hmod : s'.v.length % 2 ^ 64 = s'.v.length := Nat.mod_eq_of_lt (by omega)
  refine ⟨s', ht.toOwned, hd, hlen, fun hmore => ht.ready (by dsimp only; omega), ?_⟩
  have hlast : s'.v.length = size.toNat ↔ files.length ≤ maxBatchSize := by omega
  rw [hloop, hmod]
  exact if_congr hlast rfl rfl

/-- A ready `recv` that still owes `files` takes their batches, and returns. -/
theorem recvLoop_batches (size : UInt64) (queue : List (Except Errno (Message α))) (files : List α) (s : Receiver α)
    (h : Ready s) (hne : files ≠ []) (hsize : size.toNat = s.v.length + files.length)
    (hlt : s.v.length + files.length < 2 ^ 63) :
    ∃ s', recvLoop A s ((batches size files).map .ok ++ queue) = .returned s' queue ∧ Owned s' ∧
      Delivers s s' files := by
  induction hn : files.length using Nat.strong_induction_on generalizing files s with
  | _ n ih =>
    subst hn
    obtain ⟨s₁, ho, hd, hlen, hready, hloop⟩ := recvLoop_batch (A := A) size
      ((batches size (files.drop maxBatchSize)).map .ok ++ queue) h hsize hlt
    rw [batches_of_ne_nil size hne, List.map_cons, List.cons_append, hloop]
    by_cases hlast : files.length ≤ maxBatchSize
    · rw [if_pos hlast, List.drop_eq_nil_of_le hlast, batches_nil]
      rw [List.take_of_length_le hlast] at hd
      exact ⟨s₁, rfl, ho, hd⟩
    · -- a full batch leaves the control length as it was, and the next one is received like the first
      have hdrop : (files.drop maxBatchSize).length = files.length - maxBatchSize := List.length_drop
      have hne' : files.drop maxBatchSize ≠ [] := List.length_pos_iff.1 (by omega)
      have hmax : 0 < maxBatchSize := by decide
      rw [if_neg hlast]
      obtain ⟨s', hs', ho', hd'⟩ := ih _ (by omega) _ s₁ (hready (by omega)) hne' (by omega) (by omega) rfl
      refine ⟨s', hs', ho', ?_⟩
      have hall := hd.trans hd' ho
      rwa [List.take_append_drop] at hall

/-- A ready `recv` that finds only a part of the batches takes them, and waits. -/
theorem recvLoop_part (size : UInt64) {todo : List (Message α)} (htodo : todo ≠ []) :
    ∀ (part : List (Message α)) (files : List α) (s : Receiver α), Ready s →
      size.toNat = s.v.length + files.length → s.v.length + files.length < 2 ^ 63 →
      batches size files = part ++ todo → ∃ s', recvLoop A s (part.map .ok) = .blocked s' ∧ Owned s'
  | [], _, s, h, _, _, _ => ⟨s, rfl, h.toOwned⟩
  | m :: part, files, s, h, hsize, hlt, hpart => by
    have hne : files ≠ [] := by
      rintro rfl
      rw [batches_nil] at hpart
      cases hpart
    rw [batches_of_ne_nil size hne, List.cons_append, List.cons.injEq] at hpart
    obtain ⟨rfl, hrest⟩ := hpart
    -- there is more to come, so that this batch is full
    have hmore : maxBatchSize < files.length := by
      by_contra hlast
      rw [List.drop_eq_nil_of_le (by omega), batches_nil] at hrest
      exact htodo (List.append_eq_nil_iff.1 hrest.symm).2
    obtain ⟨s₁, -, -, hlen, hready, hloop⟩ := recvLoop_batch (A := A) size (part.map .ok) h hsize hlt
    have hdrop : (files.drop maxBatchSize).length = files.length - maxBatchSize := List.length_drop
    rw [List.map_cons, hloop, if_neg (by omega)]
    exact recvLoop_part size htodo part _ s₁ (hready hmore) (by omega) (by omega) hrest

theorem env_ready (env : Env α) : Ready
    { v := [], size := env.size, controllen := cmsgSpace (maxBatchSize * intSize), data := env.data.1,
      table := env.table, installed := [], overran := false } :=
  ⟨⟨rfl, List.nodup_nil, nofun, rfl⟩, rfl, env.data.2⟩

/-- The announced size of a list is what a `recv` without descriptors owes. -/
theorem announced_eq {files : List α} (hlt : files.length < 2 ^ 63) :
    (UInt64.ofNat files.length).toNat = ([] : List Int).length + files.length := by
  rw [UInt64.toNat_ofNat', List.length_nil, Nat.zero_add]
  exact Nat.mod_eq_of_lt (by omega)

/-- A `recv` that finds the batches of a list first in its queue takes them and no others, and
returns new descriptors for the files of the list. -/
theorem recv_batches (env : Env α) (queue : List (Except Errno (Message α))) (files : List α) (hne : files ≠ [])
    (hlt : files.length < 2 ^ 63) :
    ∃ s', recv A env ((batches (.ofNat files.length) files).map .ok ++ queue) = .returned s' queue ∧
      s'.v.map s'.table.file = files.map some ∧ Owned s' ∧ ∀ n ∈ s'.v, n ∉ env.table.nums := by
  obtain ⟨s', hs', ho, hd⟩ := recvLoop_batches (A := A) (.ofNat files.length) queue files _ (env_ready env) hne
    (announced_eq hlt) (by simpa using hlt)
  obtain ⟨nums, hv, hfiles, hnew⟩ := hd.v
  rw [List.nil_append] at hv
  exact ⟨s', hs', hv ▸ hfiles, ho, fun n hn => hnew n (hv ▸ hn)⟩

end Recv

/-! ## Sessions -/

/-- Successive calls of `recv`, each with what it returned and the number of messages it took. -/
def recvCalls (A : Table.Alloc α) : List (Env α) → List (Except Errno (Message α)) →
    Option (List (Receiver α × Nat) × List (Except Errno (Message α)))
  | [], queue => some ([], queue)
  | env :: envs, queue =>
    match recv A env queue with
    | .returned s rest =>
      (recvCalls A envs rest).map fun (rs, left) => ((s, queue.length - rest.length) :: rs, left)
    | _ => none

/-- What the receiver of a `send` gets: as many descriptors, new and all different, for the same open
files in the same order, out of the messages of the call. -/
structure Received (c : Sent α) (env : Env α) (r : Receiver α × Nat) : Prop where
  length : r.1.v.length = c.range.length
  files : r.1.v.map r.1.table.file = c.range.map c.table.file
  nodup : r.1.v.Nodup
  fresh : ∀ n ∈ r.1.v, 0 ≤ n ∧ n ∉ env.table.nums
  consumed : r.2 = c.messages.length ∧ r.2 = (c.range.length + 9) / 10

/-- Every list sent is received, one `recv` for each `send`, whatever follows in the queue and
whatever descriptors the receiving process has at each call. -/
theorem fdpass_round_trip (A : Table.Alloc α) (calls : List (Sent α × Env α))
    (queue : List (Except Errno (Message α))) :
    ∃ rs, recvCalls A (calls.map Prod.snd) ((calls.flatMap fun c => c.1.messages).map .ok ++ queue) = some (rs, queue) ∧
      List.Forall₂ (fun c r => Received c.1 c.2 r) calls rs := by
  induction calls with
  | nil => exact ⟨[], rfl, .nil⟩
  | cons c calls ih =>
    obtain ⟨rs, hrs, hall⟩ := ih
    obtain ⟨c, env⟩ := c
    have hlen := c.length_files
    obtain ⟨s, hs, hfiles, ho, hfresh⟩ := recv_batches (A := A) env
      ((calls.flatMap fun c => c.1.messages).map .ok ++ queue) c.files c.files_ne_nil c.length_files_lt
    have hcount : c.messages.length = (c.range.length + 9) / 10 := by
      rw [c.messages_eq, SendCall.batches, length_batches, hlen]
    -- each `recv` starts anew, with whatever descriptors its process has by then
    refine ⟨(s, c.messages.length) :: rs, ?_,
      .cons ⟨?_, ?_, ho.nodup, fun n hn => ⟨(ho.opened n hn).1, hfresh n hn⟩, rfl, hcount⟩ hall⟩
    · rw [hlen, ← SendCall.batches, ← c.messages_eq] at hs
      simp only [List.map_cons, List.flatMap_cons, List.map_append, List.append_assoc, recvCalls]
      rw [hs]
      dsimp only
      rw [hrs]
      simp
    · rw [← hlen]; simpa using congrArg List.length hfiles
    · rw [hfiles, c.map_file]

/-- The descriptors 0, 1, … of a process, which refer to the `n` files from `base` on. -/
def numbered (base n : Nat) (h : 0 < n ∧ n < 2 ^ 63) : SendCall Nat where
  range := (List.range n).map fun k : Nat => (k : Int)
  table := ((List.range n).map fun k : Nat => (k : Int)).map fun k => (k, base + k.toNat)
  junk := []
  ne_nil := by simp; omega
  length_lt := by simp; omega
  opened k hk := by rw [Table.file, List.lookup_graph _ hk]; rfl

/-- A list in two messages and one in one, to a receiver with other descriptors at each call. -/
theorem fdpass_round_trip_two : ∃ (c c' : Sent Nat) (rs : List (Receiver Nat × Nat)),
    c.toSendCall = numbered 100 12 (by decide) ∧ c'.toSendCall = numbered 200 2 (by decide) ∧
    recvCalls (.lowest Nat) [⟨[], 0, ⟨List.replicate 10 0, rfl⟩⟩, ⟨[(0, 7), (3, 9)], 5, ⟨List.replicate 10 (-1), rfl⟩⟩]
      ((c.messages ++ c'.messages).map .ok) = some (rs, []) ∧
    rs.map (fun r => (r.1.v.map r.1.table.file, r.2)) =
      [((List.range 12).map fun k => some (100 + k), 2), ([some 200, some 201], 1)] := by
  obtain ⟨c, hc⟩ := (numbered 100 12 (by decide)).exists_sent
  obtain ⟨c', hc'⟩ := (numbered 200 2 (by decide)).exists_sent
  obtain ⟨rs, hrs, hall⟩ := fdpass_round_trip (.lowest Nat) [(c, ⟨[], 0, ⟨List.replicate 10 0, rfl⟩⟩),
    (c', ⟨[(0, 7), (3, 9)], 5, ⟨List.replicate 10 (-1), rfl⟩⟩)] []
  refine ⟨c, c', rs, hc, hc', by simpa using hrs, ?_⟩
  obtain ⟨r, _, h, hrest, rfl⟩ := List.forall₂_cons_left_iff.1 hall
  obtain ⟨r', _, h', hnil, rfl⟩ := List.forall₂_cons_left_iff.1 hrest
  cases hnil
  rw [List.map_cons, List.map_cons, List.map_nil, h.files, h'.files, h.consumed.2, h'.consumed.2, hc, hc']
  decide +kernel

end Fdcpp.Fdpass
