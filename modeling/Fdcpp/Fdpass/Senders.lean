/-
Any number of processes that run `fdpass::send` to one datagram path. Each of them goes through its
calls message by message, any `sendmsg` may fail and end its call, and the messages of all of them
arrive in one queue, which `recv` reads without knowing whose they are. The vectors that `recv`
returns are the lists of completed calls as long as no message arrives behind a call that has some
of its messages in the queue and not all.
-/
import Fdcpp.Fdpass.RoundTrip
import Fdcpp.Lib.Run
import Mathlib.Logic.Function.Basic

namespace Fdcpp.Fdpass

open Bytes

variable {ι α : Type}

/-! ## The system -/

/-- The calls of `sendmsg` that are left of a `send`. -/
abbrev SendProg : Type := Prog Outgoing (fun _ => Except Errno Nat) (Except SystemError Unit × Unit)

/-- What the end of the queue belongs to: calls with all their messages in it; a call of the process
`i` that has more to come; or a call with a part of its messages in it that has failed. -/
inductive Tail (ι : Type)
  | whole
  | open (i : ι)
  | broken
  deriving DecidableEq

/-- The processes, each with its call and what is left of it; all messages that have arrived; and the
calls that have returned, in order. -/
structure System (ι α : Type) where
  sender : ι → Option (SendCall α × SendProg)
  queue : List (Message α)
  completed : List (SendCall α)
  tail : Tail ι

namespace System

def init : System ι α := ⟨fun _ => none, [], [], .whole⟩

variable [DecidableEq ι]

/-- The call of the process `i` ends with an exception. -/
def abort (w : System ι α) (i : ι) : System ι α where
  sender := Function.update w.sender i none
  queue := w.queue
  completed := w.completed
  tail := if w.tail = .open i then .broken else w.tail

/-- The call of the process `i` goes on after a message, or returns. -/
def proceed (w : System ι α) (i : ι) (c : SendCall α) : SendProg → System ι α
  | .ask o k => { w with sender := Function.update w.sender i (some (c, .ask o k)), tail := .open i }
  | .ret (.ok _, _) =>
    { w with sender := Function.update w.sender i none, completed := w.completed ++ [c], tail := .whole }
  | .ret (.error _, _) => w.abort i

end System

/-- What happens next. -/
inductive SystemAct (ι : Type)
  | start (i : ι)
  | put (i : ι)
  | fail (i : ι)

/-- A process begins a call, puts its next message into the queue, or fails to. -/
inductive SystemStep [DecidableEq ι] : System ι α → SystemAct ι → System ι α → Prop
  | start {w : System ι α} (i : ι) (c : SendCall α) (hi : w.sender i = none) :
      SystemStep w (.start i)
        { w with sender := Function.update w.sender i (some (c, (send c.junk c.range).prog ())) }
  | put {w : System ι α} (i : ι) {c : SendCall α} {o : Outgoing} {k : Except Errno Nat → SendProg} {m : Message α}
      (n : Nat) (hi : w.sender i = some (c, .ask o k)) (hm : o.message c.table = some m) :
      SystemStep w (.put i) ({ w with queue := w.queue ++ [m] }.proceed i c (k (.ok n)))
  | fail {w : System ι α} (i : ι) {c : SendCall α} {o : Outgoing} {k : Except Errno Nat → SendProg}
      {r : Except SystemError Unit × Unit} (e : Errno) (hi : w.sender i = some (c, .ask o k))
      (hr : k (.error e) = .ret r) : SystemStep w (.fail i) (w.abort i)

/-- No message is put behind a part of another call. -/
def SystemAct.Uncut (w : System ι α) : SystemAct ι → Prop
  | .put i => w.tail = .whole ∨ w.tail = .open i
  | _ => True

/-! ## What `recv` makes of a queue -/

/-- The calls of `recv` on a queue, up to the first that does not return. -/
def recvs (A : Table.Alloc α) : List (Env α) → List (Except Errno (Message α)) → List (Outcome α)
  | [], _ => []
  | env :: envs, queue =>
    match recv A env queue with
    | .returned s rest => .returned s rest :: recvs A envs rest
    | o => [o]

/-- The `recv` returned descriptors for all the files of the call, in order, or it waits; and no copy
loop had a negative count or one that was too large. -/
def Whole (c : Option (SendCall α)) (o : Outcome α) : Prop :=
  o.state.overran = false ∧ match o with
    | .returned s _ => ∃ c', c = some c' ∧ s.v.map s.table.file = c'.files.map some
    | .blocked _ => True
    | _ => False

/-- The first messages of a call, but not all of them, or nothing. -/
def Part (part : List (Message α)) : Prop :=
  part = [] ∨ ∃ (c : SendCall α) (todo : List (Message α)), todo ≠ [] ∧ c.batches = part ++ todo

variable {A : Table.Alloc α}

theorem recv_part (env : Env α) {part : List (Message α)} (h : Part part) :
    ∃ s, recv A env (part.map .ok) = .blocked s ∧ Owned s := by
  rcases h with rfl | ⟨c, todo, htodo, hpart⟩
  · exact ⟨_, rfl, (env_ready env).toOwned⟩
  · have hlt : c.files.length < 2 ^ 63 := by rw [c.length_files]; exact c.length_lt
    rw [SendCall.batches, ← c.length_files] at hpart
    exact recvLoop_part _ htodo part c.files _ (env_ready env) (announced_eq c.length_files_lt)
      (by simpa using c.length_files_lt) hpart

theorem recvs_whole {part : List (Message α)} (hpart : Part part) :
    ∀ (envs : List (Env α)) (cs : List (SendCall α)) (k : Nat) (o : Outcome α),
      (recvs A envs ((cs.flatMap SendCall.batches ++ part).map .ok))[k]? = some o → Whole cs[k]? o
  | [], _, _, _, h => by cases h
  | env :: envs, [], k, o, h => by
    obtain ⟨s, hs, ho⟩ := recv_part (A := A) env hpart
    rw [List.flatMap_nil, List.nil_append, recvs, hs] at h
    obtain ⟨hk, rfl⟩ := List.getElem?_eq_some_iff.1 h
    simp only [List.getElem_singleton]
    exact ⟨ho.overran, trivial⟩
  | env :: envs, c :: cs, k, o, h => by
    obtain ⟨s, hs, hfiles, ho, -⟩ := recv_batches (A := A) env
      ((cs.flatMap SendCall.batches ++ part).map .ok) c.files c.files_ne_nil c.length_files_lt
    rw [c.length_files, ← SendCall.batches, ← List.map_append, ← List.append_assoc, ← List.flatMap_cons] at hs
    rw [recvs, hs] at h
    cases k with
    | zero =>
      obtain rfl := Option.some.inj h
      exact ⟨ho.overran, c, rfl, hfiles⟩
    | succ k => exact recvs_whole hpart envs cs k o h

/-! ## The queue -/

/-- The loop of a `send` that has put `part` into the queue and has `todo` to go. -/
def AtHead (c : SendCall α) (part todo : List (Message α)) (rest : SendProg) : Prop :=
  ∃ data range files, rest = (sendLoop (.ofNat c.range.length) data range).prog () ∧ range ≠ [] ∧
    range.map c.table.file = files.map some ∧ todo = batches (.ofNat c.range.length) files ∧ c.batches = part ++ todo

/-- The queue holds the messages of the completed calls, and behind them those that the call at its
end has put there; no other call has put any. -/
structure SystemInv (w : System ι α) : Prop where
  sender : ∀ i c rest, w.sender i = some (c, rest) → ∃ part todo, AtHead c part todo rest ∧
    (w.tail = .open i → w.queue = w.completed.flatMap SendCall.batches ++ part) ∧ (w.tail ≠ .open i → part = [])
  whole : w.tail = .whole → w.queue = w.completed.flatMap SendCall.batches
  broken : w.tail = .broken → ∃ part, Part part ∧ w.queue = w.completed.flatMap SendCall.batches ++ part
  owner : ∀ i, w.tail = .open i → w.sender i ≠ none

theorem AtHead.todo_ne_nil {c : SendCall α} {part todo : List (Message α)} {rest : SendProg}
    (h : AtHead c part todo rest) : todo ≠ [] := by
  obtain ⟨data, range, files, -, hne, hmap, rfl, -⟩ := h
  rw [batches_of_ne_nil _ (ne_nil_of_map_file hmap hne)]
  nofun

/-- What the next message of a call is, and what the call has left after it. -/
theorem AtHead.put {c : SendCall α} {part todo : List (Message α)} {o : Outgoing} {k : Except Errno Nat → SendProg}
    {m : Message α} (h : AtHead c part todo (.ask o k)) (hm : o.message c.table = some m) (n : Nat) :
    (k (.ok n) = .ret (.ok (), ()) ∧ c.batches = part ++ [m]) ∨
      ∃ o' k' todo', k (.ok n) = .ask o' k' ∧ AtHead c (part ++ [m]) todo' (.ask o' k') := by
  obtain ⟨data, range, files, hrest, hne, hmap, rfl, hpart⟩ := h
  obtain ⟨o₁, data', hprog, hmsg⟩ := sendLoop_cons α (.ofNat c.range.length) data hne
  obtain ⟨rfl, hk⟩ := Prog.ask.inj (hrest.trans hprog)
  obtain rfl := eq_of_heq hk
  obtain rfl := Option.some.inj ((hmsg c.table files hmap).symm.trans hm)
  have hmap' : (range.drop maxBatchSize).map c.table.file = (files.drop maxBatchSize).map some := by
    rw [List.map_drop, hmap, List.map_drop]
  rw [batches_of_ne_nil _ (ne_nil_of_map_file hmap hne), List.append_cons] at hpart
  dsimp only
  by_cases hlast : range.drop maxBatchSize = []
  · left
    rw [hlast, List.map_nil, eq_comm, List.map_eq_nil_iff] at hmap'
    rw [hmap', batches_nil, List.append_nil] at hpart
    rw [hlast, sendLoop_nil]
    exact ⟨rfl, hpart⟩
  · right
    obtain ⟨o', data'', hprog', -⟩ := sendLoop_cons α (.ofNat c.range.length) data' hlast
    refine ⟨o', _, batches (.ofNat c.range.length) (files.drop maxBatchSize), hprog', ?_⟩
    rw [← hprog']
    exact ⟨data', range.drop maxBatchSize, files.drop maxBatchSize, rfl, hlast, hmap', rfl, hpart⟩

/-- A call that has just begun. -/
theorem atHead_send (c : SendCall α) : AtHead c [] c.batches ((send c.junk c.range).prog ()) :=
  ⟨c.junk, c.range, c.files, rfl, c.ne_nil, c.map_file, rfl, rfl⟩

section Step

variable {w w' : System ι α} {a : SystemAct ι}

theorem system_inv_init : SystemInv (System.init : System ι α) := ⟨nofun, fun _ => rfl, nofun, nofun⟩

/-- The message of a process that may put one continues what is at the end of the queue. -/
theorem put_queue (h : SystemInv w) {i : ι} (hu : w.tail = .whole ∨ w.tail = .open i) {part : List (Message α)}
    (hopen : w.tail = .open i → w.queue = w.completed.flatMap SendCall.batches ++ part)
    (hpart : w.tail ≠ .open i → part = []) : w.queue = w.completed.flatMap SendCall.batches ++ part := by
  rcases hu with hu | hu
  · rw [hpart (by rw [hu]; nofun), List.append_nil]; exact h.whole hu
  · exact hopen hu

/-- What is at the end of the queue belongs to one call. -/
theorem SystemInv.queue_eq (h : SystemInv w) :
    ∃ part, Part part ∧ w.queue = w.completed.flatMap SendCall.batches ++ part := by
  rcases ht : w.tail with _ | i | _
  · exact ⟨[], .inl rfl, by rw [List.append_nil]; exact h.whole ht⟩
  · obtain ⟨⟨c, rest⟩, hs⟩ := Option.ne_none_iff_exists'.1 (h.owner i ht)
    obtain ⟨part, todo, hhead, hopen, -⟩ := h.sender i c rest hs
    have htodo := hhead.todo_ne_nil
    obtain ⟨_, _, _, _, _, _, _, hall⟩ := hhead
    exact ⟨part, .inr ⟨c, todo, htodo, hall⟩, hopen ht⟩
  · exact h.broken ht

variable [DecidableEq ι]

theorem start_inv (h : SystemInv w) {i : ι} (hi : w.sender i = none) (c : SendCall α) :
    SystemInv { w with sender := Function.update w.sender i (some (c, (send c.junk c.range).prog ())) } := by
  have hopen : w.tail ≠ .open i := fun ht => h.owner i ht hi
  refine ⟨fun j c' rest hj => ?_, h.whole, h.broken, fun j hj => ?_⟩
  · by_cases hji : j = i
    · subst hji
      obtain ⟨rfl, rfl⟩ : c = c' ∧ _ = rest := by simpa using hj
      exact ⟨[], _, atHead_send c, fun ht => absurd ht hopen, fun _ => rfl⟩
    · exact h.sender j c' rest (by simpa [hji] using hj)
  · have hji : j ≠ i := by rintro rfl; exact hopen hj
    simpa [hji] using h.owner j hj

theorem put_inv (h : SystemInv w) {i : ι} (hu : w.tail = .whole ∨ w.tail = .open i) {c : SendCall α} {o : Outgoing}
    {k : Except Errno Nat → SendProg} {m : Message α} (n : Nat) (hi : w.sender i = some (c, .ask o k))
    (hm : o.message c.table = some m) : SystemInv ({ w with queue := w.queue ++ [m] }.proceed i c (k (.ok n))) := by
  obtain ⟨part, todo, hhead, hopen, hpart⟩ := h.sender i c _ hi
  have hqueue : w.queue = w.completed.flatMap SendCall.batches ++ part := put_queue h hu hopen hpart
  -- the other calls have put nothing into the queue
  have hothers : ∀ j c' rest, j ≠ i → w.sender j = some (c', rest) → ∃ todo', AtHead c' [] todo' rest := by
    intro j c' rest hji hj
    obtain ⟨part', todo', hhead', -, hpart'⟩ := h.sender j c' rest hj
    have hnot : w.tail ≠ .open j := by
      rcases hu with hu | hu <;> rw [hu]
      · nofun
      · rintro ⟨⟩; exact hji rfl
    obtain rfl := hpart' hnot
    exact ⟨todo', hhead'⟩
  rcases hhead.put hm n with ⟨hk, hall⟩ | ⟨o', k', todo', hk, hhead'⟩
  · -- the last message of the call
    rw [hk]
    refine ⟨fun j c' rest hj => ?_, fun _ => ?_, nofun, nofun⟩
    · by_cases hji : j = i
      · subst hji; simp [System.proceed] at hj
      · obtain ⟨todo', hhead'⟩ := hothers j c' rest hji (by simpa [System.proceed, hji] using hj)
        exact ⟨[], todo', hhead', nofun, fun _ => rfl⟩
    · simp [System.proceed, hqueue, hall]
  · rw [hk]
    refine ⟨fun j c' rest hj => ?_, nofun, nofun, fun j hj => ?_⟩
    · by_cases hji : j = i
      · subst hji
        obtain ⟨rfl, rfl⟩ : c = c' ∧ _ = rest := by simpa [System.proceed] using hj
        exact ⟨part ++ [m], todo', hhead', fun _ => by simp [System.proceed, hqueue], fun hne => absurd rfl hne⟩
      · obtain ⟨todo', hhead'⟩ := hothers j c' rest hji (by simpa [System.proceed, hji] using hj)
        refine ⟨[], todo', hhead', ?_, fun _ => rfl⟩
        rintro ⟨⟩
        exact absurd rfl hji
    · obtain rfl : i = j := Tail.open.inj hj
      simp [System.proceed]

theorem abort_inv (h : SystemInv w) {i : ι} {c : SendCall α} {rest : SendProg} (hi : w.sender i = some (c, rest)) :
    SystemInv (w.abort i) := by
  obtain ⟨part, todo, hhead, hopen, hpart⟩ := h.sender i c _ hi
  by_cases ht : w.tail = .open i
  · -- a part of the call is in the queue and stays there
    have htail : (w.abort i).tail = .broken := if_pos ht
    refine ⟨fun j c' rest' hj => ?_, fun hw => ?_, fun _ => ?_, fun j hj => ?_⟩
    · have hji : j ≠ i := by rintro rfl; simp [System.abort] at hj
      obtain ⟨part', todo', hhead', -, hpart'⟩ := h.sender j c' rest' (by simpa [System.abort, hji] using hj)
      obtain rfl := hpart' (by rw [ht]; rintro ⟨⟩; exact hji rfl)
      exact ⟨[], todo', hhead', by rw [htail]; nofun, fun _ => rfl⟩
    · rw [htail] at hw; cases hw
    · have htodo := hhead.todo_ne_nil
      obtain ⟨_, _, _, _, _, _, _, hall⟩ := hhead
      exact ⟨part, .inr ⟨c, todo, htodo, hall⟩, hopen ht⟩
    · rw [htail] at hj; cases hj
  · have htail : (w.abort i).tail = w.tail := if_neg ht
    refine ⟨fun j c' rest' hj => ?_, fun hw => h.whole (htail ▸ hw), fun hb => h.broken (htail ▸ hb), fun j hj => ?_⟩
    · have hji : j ≠ i := by rintro rfl; simp [System.abort] at hj
      rw [htail]
      exact h.sender j c' rest' (by simpa [System.abort, hji] using hj)
    · rw [htail] at hj
      have hji : j ≠ i := by rintro rfl; exact ht hj
      simpa [System.abort, hji] using h.owner j hj

theorem systemStep_inv (h : SystemStep w a w') (hu : a.Uncut w) (hi : SystemInv w) : SystemInv w' := by
  cases h with
  | start i c hn => exact start_inv hi hn c
  | put i n hs hm => exact put_inv hi hu n hs hm
  | fail i e hs hr => exact abort_inv hi hs

end Step

/-! ## Playing the system -/

/-- What is to happen next: a process begins a call, or puts its next message into the queue. -/
inductive SystemCue (ι α : Type)
  | start (i : ι) (c : SendCall α)
  | put (i : ι)

namespace System

variable [DecidableEq ι]

/-- The next step, if it can happen. -/
def play (w : System ι α) : SystemCue ι α → Option (SystemAct ι × System ι α)
  | .start i c =>
    match w.sender i with
    | none => some (.start i, { w with sender := Function.update w.sender i (some (c, (send c.junk c.range).prog ())) })
    | some _ => none
  | .put i =>
    match w.sender i with
    | some (c, .ask o k) =>
      (o.message c.table).map fun m => (.put i, { w with queue := w.queue ++ [m] }.proceed i c (k (.ok 8)))
    | _ => none

theorem play_step (w : System ι α) (c : SystemCue ι α) (p : SystemAct ι × System ι α) (h : w.play c = some p) :
    SystemStep w p.1 p.2 := by
  cases c with
  | start i c =>
    simp only [play] at h
    split at h
    · rename_i hi
      cases h
      exact .start i c hi
    · cases h
  | put i =>
    simp only [play] at h
    split at h
    · rename_i hi
      obtain ⟨m, hm, rfl⟩ := Option.map_eq_some_iff.1 h
      exact .put i 8 hi hm
    · cases h

end System

instance [DecidableEq ι] (w : System ι α) : ∀ a : SystemAct ι, Decidable (a.Uncut w)
  | .put i => inferInstanceAs (Decidable (w.tail = .whole ∨ w.tail = .open i))
  | .start _ | .fail _ => .isTrue trivial

/-! ## Whole runs -/

/-- In every run in which no message is put behind a part of another call, and whenever the receiver
looks: the vectors it has got are the lists of the completed calls, one for each in order, and the
last `recv` waits. -/
theorem recv_whole_calls [DecidableEq ι] (A : Table.Alloc α) (r : List (SystemAct ι × System ι α))
    (h : Run.Chain SystemStep System.init r) (hu : Run.Chain (fun w a _ => a.Uncut w) System.init r) :
    Run.Always (fun w => ∀ (envs : List (Env α)) (k : Nat) (o : Outcome α),
      (recvs A envs (w.queue.map .ok))[k]? = some o → Whole w.completed[k]? o) System.init r := by
  have hinv : Run.Always SystemInv System.init r := h.always (fun _ _ _ => systemStep_inv) hu system_inv_init
  refine hinv.imp fun w hw envs k o ho => ?_
  obtain ⟨part, hpart, hqueue⟩ := hw.queue_eq
  rw [hqueue] at ho
  exact recvs_whole hpart envs w.completed k o ho

/-- A list in two messages and one in one, in two processes at once. -/
theorem recv_whole_two : ∃ r : List (SystemAct Bool × System Bool Nat), Run.Chain SystemStep System.init r ∧
    ((Run.last System.init r).queue.map fun m => m.attached.length) = [5, 10, 2, 5] ∧
    (Run.last System.init r).completed = [numbered 200 5 (by decide), numbered 100 12 (by decide),
      numbered 200 5 (by decide)] ∧
    Run.Always (fun w => ∀ (envs : List (Env Nat)) (k : Nat) (o : Outcome Nat),
      (recvs (.lowest Nat) envs (w.queue.map .ok))[k]? = some o → Whole w.completed[k]? o) System.init r := by
  obtain ⟨r, hr, hu, hqueue, hcompleted⟩ : ∃ r : List (SystemAct Bool × System Bool Nat),
      Run.Chain SystemStep System.init r ∧ Run.Chain (fun w a _ => a.Uncut w) System.init r ∧
      ((Run.last System.init r).queue.map fun m => m.attached.length) = [5, 10, 2, 5] ∧
      (Run.last System.init r).completed = [numbered 200 5 (by decide), numbered 100 12 (by decide),
        numbered 200 5 (by decide)] :=
    Run.exists_plays _ System.play_step [.start false (numbered 100 12 (by decide)),
      .start true (numbered 200 5 (by decide)), .put true, .start true (numbered 200 5 (by decide)), .put false,
      .put false, .put true] (by decide +kernel)
  exact ⟨r, hr, hqueue, hcompleted, recv_whole_calls _ r hr hu⟩

/-- The files that the returned vector refers to. -/
def Outcome.files : Outcome α → Option (List (Option α))
  | .returned s _ => some (s.v.map s.table.file)
  | _ => none

def Outcome.isFault : Outcome α → Bool
  | .fault _ => true
  | _ => false

/-- The first messages of two lists of twenty make a vector that is neither of them, before either
call has completed; and a list of five behind the first message of a list of twenty makes the count
of the copy loop negative. -/
theorem recv_mixes_calls :
    (∃ r : List (SystemAct Bool × System Bool Nat), Run.Chain SystemStep System.init r ∧
      (Run.last System.init r).completed = [] ∧
      (recv (.lowest Nat) ⟨[], 0, ⟨List.replicate 10 0, rfl⟩⟩ ((Run.last System.init r).queue.map .ok)).files =
        some (((List.range 10).map (100 + ·) ++ (List.range 10).map (200 + ·)).map some)) ∧
    ∃ r : List (SystemAct Bool × System Bool Nat), Run.Chain SystemStep System.init r ∧
      (Run.last System.init r).completed = [numbered 200 5 (by decide)] ∧
      (recv (.lowest Nat) ⟨[], 0, ⟨List.replicate 10 0, rfl⟩⟩ ((Run.last System.init r).queue.map .ok)).isFault ∧
      batchSize 5 10 = -5 := by
  constructor
  · exact Run.exists_plays _ System.play_step [.start false (numbered 100 20 (by decide)),
      .start true (numbered 200 20 (by decide)), .put false, .put true] (by decide +kernel)
  · exact Run.exists_plays _ System.play_step [.start false (numbered 100 20 (by decide)),
      .start true (numbered 200 5 (by decide)), .put false, .put true] (by decide +kernel)

end Fdcpp.Fdpass
