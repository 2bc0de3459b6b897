/-
Unix socket addresses. `unix_socket::client` and `server` and the members `send` and `recv` of
`fdpass` fill a `sockaddr_un` on their stack with a path and hand it to `connect` or `bind`. The
state is the stack from `sun_path` on, with the offsets that have been written.
-/
import Fdcpp.Lib.Bytes
import Fdcpp.Lib.Prog
import Fdcpp.Util.Throw

namespace Fdcpp.Unix

open Bytes

/-- `sizeof(addr.sun_path)`. -/
def sunPathSize : Nat := 108

def AF_UNIX : Int := 1
def SOCK_STREAM : Int := 1

/-! ## Calls and state -/

/-- The system calls, and the static `send` and `recv` of `fdpass`, which carry no address. -/
inductive Call
  | socket (domain type : Int)
  | connect (fd : Nat) (sunPath : List UInt8)
  | bind (fd : Nat) (sunPath : List UInt8)
  | listen (fd : Nat) (backlog : Int)
  | unlink (path : List UInt8)
  | close (fd : Nat)
  | send (fd : Nat)
  | recv (fd : Nat)
  deriving DecidableEq, Repr

abbrev Answer (_ : Call) : Type := Except Errno Nat

/-- The bytes of the stack from `addr.sun_path` on, the offsets written, and the `_ready` of the
`fdpass` object; the functions of `unix_socket` have no object. -/
structure Frame where
  bytes : List UInt8
  writes : List Nat
  ready : Bool
  deriving DecidableEq, Repr

/-- The frame of a function that has not written yet. -/
def Frame.start (bytes : List UInt8) (ready : Bool) : Frame := ⟨bytes, [], ready⟩

def Frame.sunPath (s : Frame) : List UInt8 := s.bytes.take sunPathSize

abbrev UnixM : Type → Type := Eff Call Answer Frame SystemError

def store (off : Nat) (bs : List UInt8) : UnixM Unit :=
  modify fun s => { s with bytes := splice s.bytes off bs, writes := s.writes ++ List.range' off bs.length }

/-- `stpncpy(addr.sun_path, src, n)`: the offset of the first NUL it writes, or `n`. -/
def stpncpy (src : List UInt8) (n : Nat) : UnixM Nat := do
  let copy := (cstring src).take n
  store 0 (copy ++ List.replicate (n - copy.length) 0)
  pure copy.length

/-- `*stpncpy(addr.sun_path, path, sizeof(addr.sun_path)) = '\0'`. -/
def fillAddr (path : List UInt8) : UnixM Unit := do
  let p ← stpncpy path sunPathSize
  store p [0]

def checked (func : String) (q : Call) : UnixM Nat := do
  match ← (Eff.call q : UnixM (Answer q)) with
  | .ok n => pure n
  | .error e => throw (throwSystemError "socket" func e)

/-- `socket::connect(const struct sockaddr_un &)`. -/
def connect (fd : Nat) : UnixM Unit := do
  let s ← get
  let _ ← checked "connect()" (.connect fd s.sunPath)

/-- `socket::bind(const struct sockaddr_un &)`. -/
def bind (fd : Nat) : UnixM Unit := do
  let s ← get
  let _ ← checked "bind()" (.bind fd s.sunPath)

/-- `m`, in the scope of a local `socket`: an exception destroys it. -/
def inScope {α : Type} (fd : Nat) (m : UnixM α) : UnixM α :=
  tryCatch m fun e => do
    let _ ← (Eff.call (.close fd) : UnixM (Answer (.close fd)))
    throw e

/-! ## The four functions -/

/-- `unix_socket::client`. -/
def client (path : List UInt8) : UnixM Nat := do
  fillAddr path
  let fd ← checked "socket()" (.socket AF_UNIX SOCK_STREAM)
  inScope fd do
    connect fd
    pure fd

/-- `unix_socket::server`. -/
def server (path : List UInt8) (backlog : Int) : UnixM Nat := do
  fillAddr path
  let fd ← checked "socket()" (.socket AF_UNIX SOCK_STREAM)
  inScope fd do
    bind fd
    let _ ← checked "listen()" (.listen fd backlog)
    pure fd

/-- `fdpass::send(begin, end)`, of an object with the `_socket` `fd`. -/
def send (fd : Nat) (path : List UInt8) : UnixM Unit := do
  let s ← get
  if s.ready then pure ()
  else
    fillAddr path
    connect fd
    modify fun s => { s with ready := true }
  let _ ← checked "sendmsg()" (.send fd)

/-- `fdpass::recv()`. -/
def recv (fd : Nat) (path : List UInt8) : UnixM Unit := do
  let s ← get
  if s.ready then pure ()
  else
    fillAddr path
    let s ← get
    -- the name is the string from `sun_path` on, and nobody looks at the result
    let _ ← (Eff.call (.unlink (cstring s.bytes)) : UnixM (Answer (.unlink (cstring s.bytes))))
    bind fd
    modify fun s => { s with ready := true }
  let _ ← checked "recvmsg()" (.recv fd)

/-- A use of one of the functions. -/
inductive Site
  | client
  | server (backlog : Int)
  | send (fd : Nat)
  | recv (fd : Nat)
  deriving DecidableEq, Repr

def Site.exec (path : List UInt8) : Site → UnixM Unit
  | client => do let _ ← Unix.client path
  | server backlog => do let _ ← Unix.server path backlog
  | send fd => Unix.send fd path
  | recv fd => Unix.recv fd path

/-! ## The address -/

/-- What `stpncpy` copies of a path. -/
def copied (path : List UInt8) : List UInt8 := (cstring path).take sunPathSize

/-- The array after `stpncpy`. -/
def padded (path : List UInt8) : List UInt8 :=
  copied path ++ List.replicate (sunPathSize - (copied path).length) 0

/-- The frame after the address has been filled. -/
def Frame.filled (s : Frame) (path : List UInt8) : Frame :=
  { s with
    bytes := splice (splice s.bytes 0 (padded path)) (copied path).length [0]
    writes := s.writes ++ List.range' 0 (padded path).length ++ List.range' (copied path).length 1 }

section Address

variable {path : List UInt8} {s : Frame}

theorem length_copied_le (path : List UInt8) : (copied path).length ≤ sunPathSize := by
  simp [copied]

@[simp] theorem length_padded (path : List UInt8) : (padded path).length = sunPathSize := by
  have := length_copied_le path
  simp [padded]
  omega

theorem copied_no_nul (path : List UInt8) : 0 ∉ copied path :=
  fun h => cstring_no_nul path (List.mem_of_mem_take h)

/-- The copy is followed by a zero byte, in the array or behind it. -/
theorem filled_bytes (s : Frame) (path : List UInt8) :
    (s.filled path).bytes = copied path ++ 0 :: (padded path ++ s.bytes.drop sunPathSize).drop ((copied path).length + 1) := by
  have hstart : splice s.bytes 0 (padded path) = padded path ++ s.bytes.drop sunPathSize := by
    rw [splice_zero, length_padded]
  have htake : (padded path ++ s.bytes.drop sunPathSize).take (copied path).length = copied path := by
    rw [padded, List.append_assoc, List.take_left]
  simp only [Frame.filled, hstart]
  generalize padded path ++ s.bytes.drop sunPathSize = bytes at htake
  simp [splice, htake]

theorem filled_sunPath (s : Frame) (path : List UInt8) : (s.filled path).sunPath = padded path := by
  have hle := length_copied_le path
  rw [Frame.sunPath, filled_bytes]
  rcases Nat.lt_or_ge (copied path).length sunPathSize with hlt | hge
  · -- the zero byte behind the copy is one of the padding
    obtain ⟨n, hn⟩ : ∃ n, sunPathSize - (copied path).length = n + 1 := ⟨_, (Nat.succ_pred (by omega)).symm⟩
    have hpad : padded path = copied path ++ 0 :: List.replicate n 0 := by rw [padded, hn, List.replicate_succ]
    have hlen : (padded path).length = sunPathSize := length_padded path
    rw [hpad] at hlen ⊢
    rw [List.append_assoc, List.drop_append, List.drop_eq_nil_of_le (by omega)]
    simp only [List.nil_append, List.cons_append, Nat.add_sub_cancel_left, List.drop_succ_cons, List.drop_zero]
    rw [← List.cons_append, ← List.append_assoc, ← hlen, List.take_left]
  · have hlen : (copied path).length = sunPathSize := by omega
    rw [padded, hlen, Nat.sub_self, List.replicate_zero, List.append_nil, ← hlen, List.take_left]

theorem filled_writes (s : Frame) (path : List UInt8) :
    (s.filled path).writes = s.writes ++ List.range' 0 sunPathSize ++ [(copied path).length] := by
  simp [Frame.filled]

theorem filled_cstring (s : Frame) (path : List UInt8) : cstring (s.filled path).bytes = copied path := by
  rw [filled_bytes, cstring_append (copied_no_nul path)]

/-- A path without NUL that is shorter than the array is copied as a whole. -/
theorem copied_of_lt (hp : 0 ∉ path) (hlt : path.length < sunPathSize) : copied path = path := by
  rw [copied, cstring_of_no_nul hp, List.take_of_length_le hlt.le]

theorem length_copied_of_ge (hp : 0 ∉ path) (hge : sunPathSize ≤ path.length) : (copied path).length = sunPathSize := by
  rw [copied, cstring_of_no_nul hp, List.length_take]
  omega

end Address

/-! ## What the functions do with it -/

/-- The address or the name that the call passes, if it passes one, is that of the path. -/
def Call.Uses (path : List UInt8) : Call → Prop
  | .connect _ a => a = padded path
  | .bind _ a => a = padded path
  | .unlink n => n = copied path
  | _ => True

@[simp] theorem uses_connect (path : List UInt8) (fd : Nat) (a : List UInt8) :
    (Call.connect fd a).Uses path ↔ a = padded path := Iff.rfl
@[simp] theorem uses_bind (path : List UInt8) (fd : Nat) (a : List UInt8) :
    (Call.bind fd a).Uses path ↔ a = padded path := Iff.rfl
@[simp] theorem uses_unlink (path n : List UInt8) : (Call.unlink n).Uses path ↔ n = copied path := Iff.rfl

/-- The address of the path stands in the frame, which has been written at `writes`. -/
structure Holds (path : List UInt8) (writes : List Nat) (s : Frame) : Prop where
  writes : s.writes = writes
  sunPath : s.sunPath = padded path
  name : cstring s.bytes = copied path

/-- From frames that hold the address, `m` leaves it there and uses no other. -/
abbrev Keeps (path : List UInt8) (writes : List Nat) {α : Type} (m : UnixM α) : Prop :=
  Eff.Keeps (fun _ _ => True) (Holds path writes) (fun e => e.1.Uses path) m

section Keeps

variable {path : List UInt8} {writes : List Nat} {α β : Type}

theorem keeps_checked {func : String} {q : Call} (hq : q.Uses path) : Keeps path writes (checked func q) := by
  refine .bind (.call fun _ _ => hq) ?_
  rintro (e | n)
  · exact .throw _
  · exact .pure _

theorem keeps_inScope {fd : Nat} {m : UnixM α} (hm : Keeps path writes m) : Keeps path writes (inScope fd m) := by
  refine .tryCatch hm fun e => ?_
  exact .bind (.call fun _ _ => trivial) fun _ => .throw e

theorem keeps_connect (fd : Nat) : Keeps path writes (connect fd) :=
  .get_bind fun _ h => .bind (keeps_checked ((uses_connect ..).2 h.sunPath)) fun _ => .pure _

theorem keeps_bind (fd : Nat) : Keeps path writes (Unix.bind fd) :=
  .get_bind fun _ h => .bind (keeps_checked ((uses_bind ..).2 h.sunPath)) fun _ => .pure _

theorem keeps_setReady : Keeps path writes (modify fun s => { s with ready := true }) :=
  .modify fun _ h => ⟨h.writes, h.sunPath, h.name⟩

theorem filled_holds (s : Frame) (path : List UInt8) : Holds path (s.filled path).writes (s.filled path) :=
  ⟨rfl, filled_sunPath s path, filled_cstring s path⟩

/-- The rule for a function that fills the address and goes on with `m`. -/
theorem fillAddr_bind {f : Unit → UnixM β} (hf : ∀ writes, Keeps path writes (f ())) (s : Frame) :
    Eff.Sat (fun _ _ => True) (fillAddr path >>= f) s fun evs _ s' =>
      Holds path (s.filled path).writes s' ∧ ∀ e ∈ evs, e.1.Uses path :=
  hf _ _ (filled_holds s path)

end Keeps

/-- The object has its socket ready, so that no address is made. -/
def Site.Skips (ready : Bool) : Site → Prop
  | .send _ | .recv _ => ready = true
  | _ => False

/-- A function that makes an address writes the array and one byte more, and uses that address. -/
theorem exec_filled (path : List UInt8) (site : Site) (s : Frame) (hs : ¬ site.Skips s.ready) :
    Eff.Sat (fun _ _ => True) (site.exec path) s fun evs _ s' =>
      Holds path (s.filled path).writes s' ∧ ∀ e ∈ evs, e.1.Uses path := by
  cases site with
  | client =>
    change Eff.Sat _ (client path >>= fun _ => pure ()) s _
    rw [client, bind_assoc]
    refine fillAddr_bind (fun writes => ?_) s
    refine .bind ?_ fun _ => .pure _
    refine .bind (keeps_checked trivial) fun fd => keeps_inScope ?_
    exact .bind (keeps_connect fd) fun _ => .pure _
  | server backlog =>
    change Eff.Sat _ (server path backlog >>= fun _ => pure ()) s _
    rw [server, bind_assoc]
    refine fillAddr_bind (fun writes => ?_) s
    refine .bind ?_ fun _ => .pure _
    refine .bind (keeps_checked trivial) fun fd => keeps_inScope ?_
    refine .bind (keeps_bind fd) fun _ => ?_
    exact .bind (keeps_checked trivial) fun _ => .pure _
  | send fd =>
    have hready : s.ready = false := by simpa [Site.Skips] using hs
    unfold Site.exec Unix.send
    rw [Eff.sat_get_bind, hready]
    refine fillAddr_bind (fun writes => ?_) s
    refine .bind (keeps_connect fd) fun _ => ?_
    refine .bind keeps_setReady fun _ => ?_
    exact .bind (keeps_checked trivial) fun _ => .pure _
  | recv fd =>
    have hready : s.ready = false := by simpa [Site.Skips] using hs
    unfold Site.exec Unix.recv
    rw [Eff.sat_get_bind, hready]
    refine fillAddr_bind (fun writes => ?_) s
    refine .get_bind fun s' h => ?_
    refine .bind (.call fun _ _ => h.name) fun _ => ?_
    refine .bind (keeps_bind fd) fun _ => ?_
    refine .bind keeps_setReady fun _ => ?_
    exact .bind (keeps_checked trivial) fun _ => .pure _

/-- The addresses that the calls pass. -/
def Call.address : Call → Option (List UInt8)
  | .connect _ a | .bind _ a => some a
  | _ => none

/-- The names that the calls remove. -/
def Call.name : Call → Option (List UInt8)
  | .unlink n => some n
  | _ => none

abbrev Event : Type := Ev Call Answer

def addresses (evs : List Event) : List (List UInt8) := evs.filterMap fun e => e.1.address

def unlinked (evs : List Event) : List (List UInt8) := evs.filterMap fun e => e.1.name

/-- A function with its socket ready writes nothing and passes no address. -/
theorem exec_skipped (path : List UInt8) (site : Site) (s : Frame) (hs : site.Skips s.ready) :
    Eff.Sat (fun _ _ => True) (site.exec path) s fun evs _ s' =>
      s'.writes = s.writes ∧ addresses evs = [] ∧ unlinked evs = [] := by
  cases site with
  | client => exact hs.elim
  | server backlog => exact hs.elim
  | send fd =>
    unfold Site.exec Unix.send
    rw [Eff.sat_get_bind, hs]
    rintro (e | n) -
    · exact ⟨rfl, rfl, rfl⟩
    · exact ⟨rfl, rfl, rfl⟩
  | recv fd =>
    unfold Site.exec Unix.recv
    rw [Eff.sat_get_bind, hs]
    rintro (e | n) -
    · exact ⟨rfl, rfl, rfl⟩
    · exact ⟨rfl, rfl, rfl⟩

/-! ## Faithful addresses -/

/-- The writes stay in the array; unless an error is reported, each address is the path with a
terminator in the array, and so is each name removed; and no other path is at one of the addresses. -/
structure Faithful (path : List UInt8) (evs : List Event) (r : Except SystemError Unit) (s' : Frame) : Prop where
  inside : ∀ o ∈ s'.writes, o < sunPathSize
  address : ∀ a ∈ addresses evs, (0 ∈ a ∧ cstring a = path) ∨ ∃ e, r = .error e
  name : ∀ n ∈ unlinked evs, (n.length < sunPathSize ∧ n = path) ∨ ∃ e, r = .error e
  distinct : ∀ (site : Site) (path' : List UInt8) (s : Frame) evs' r' s'', 0 ∉ path' →
    ((site.exec path').prog s).Runs evs' (r', s'') → ∀ a ∈ addresses evs, a ∈ addresses evs' → path' = path

section Uses

variable {path : List UInt8} {evs : List Event}

theorem mem_addresses (hu : ∀ e ∈ evs, e.1.Uses path) {a : List UInt8} (ha : a ∈ addresses evs) : a = padded path := by
  obtain ⟨⟨q, r⟩, hm, hq⟩ := List.mem_filterMap.1 ha
  have hq' := hu _ hm
  cases q <;> simp only [Call.address, reduceCtorEq, Option.some.injEq] at hq
  all_goals
    rw [← hq]
    exact hq'

theorem mem_unlinked (hu : ∀ e ∈ evs, e.1.Uses path) {n : List UInt8} (hn : n ∈ unlinked evs) : n = copied path := by
  obtain ⟨⟨q, r⟩, hm, hq⟩ := List.mem_filterMap.1 hn
  have hq' := hu _ hm
  cases q <;> simp only [Call.name, reduceCtorEq, Option.some.injEq] at hq
  rw [← hq]
  exact hq'

theorem cstring_padded (path : List UInt8) : cstring (padded path) = copied path := by
  rw [padded]
  rcases sunPathSize - (copied path).length with _ | n
  · rw [List.replicate_zero, List.append_nil, cstring_of_no_nul (copied_no_nul path)]
  · rw [List.replicate_succ, cstring_append (copied_no_nul path)]

/-- The address of a path shorter than the array is that of no other path. -/
theorem padded_inj {path' : List UInt8} (hp : 0 ∉ path) (hp' : 0 ∉ path') (hlt : path.length < sunPathSize)
    (h : padded path' = padded path) : path' = path := by
  have hc : copied path' = path := by
    rw [← cstring_padded, h, cstring_padded, copied_of_lt hp hlt]
  rcases Nat.lt_or_ge path'.length sunPathSize with hlt' | hge
  · rw [← hc, copied_of_lt hp' hlt']
  · have hlen := length_copied_of_ge hp' hge
    rw [hc] at hlen
    omega

end Uses

section Runs

variable {path : List UInt8} {site : Site} {s s' : Frame} {evs evs' : List Event} {r : Except SystemError Unit}

/-- A run of a function that has its socket ready. -/
theorem runs_skipped (hs : site.Skips s.ready) (hr : ((site.exec path).prog s).Runs evs (r, s')) :
    s'.writes = s.writes ∧ addresses evs = [] ∧ unlinked evs = [] :=
  Eff.sat_iff_runs.1 (exec_skipped path site s hs) evs r s' hr fun _ _ => trivial

/-- A run of a function that makes an address. -/
theorem runs_filled (hs : ¬ site.Skips s.ready) (hr : ((site.exec path).prog s).Runs evs (r, s')) :
    Holds path (s.filled path).writes s' ∧ ∀ e ∈ evs, e.1.Uses path :=
  Eff.sat_iff_runs.1 (exec_filled path site s hs) evs r s' hr fun _ _ => trivial

/-- A path shorter than the array shares its address with no other path. -/
theorem addresses_distinct (hp : 0 ∉ path) (hlt : path.length < sunPathSize) (hu : ∀ e ∈ evs, e.1.Uses path)
    {path' : List UInt8} (hp' : 0 ∉ path') (hr : ((site.exec path').prog s).Runs evs' (r, s'))
    {a : List UInt8} (ha : a ∈ addresses evs) (ha' : a ∈ addresses evs') : path' = path := by
  have hs : ¬ site.Skips s.ready := by
    intro hs
    rw [(runs_skipped hs hr).2.1] at ha'
    cases ha'
  have hu' := (runs_filled hs hr).2
  apply padded_inj hp hp' hlt
  rw [← mem_addresses hu' ha', ← mem_addresses hu ha]

/-- The terminator of a path that does not fit is written behind the array. -/
theorem lt_of_inside (hp : 0 ∉ path) (hw : s'.writes = List.range' 0 sunPathSize ++ [(copied path).length])
    (h : ∀ o ∈ s'.writes, o < sunPathSize) : path.length < sunPathSize := by
  by_contra hge
  have hin : (copied path).length < sunPathSize := h _ (by simp [hw])
  rw [length_copied_of_ge hp (by omega)] at hin
  omega

theorem faithful_of_lt (hp : 0 ∉ path) (hlt : path.length < sunPathSize)
    (hw : s'.writes = List.range' 0 sunPathSize ++ [(copied path).length]) (hu : ∀ e ∈ evs, e.1.Uses path) :
    Faithful path evs r s' := by
  have hcopy := copied_of_lt hp hlt
  constructor
  · intro o ho
    simp only [hw, List.mem_append, List.mem_range'_1, List.mem_singleton, hcopy] at ho
    omega
  · intro a ha
    left
    rw [mem_addresses hu ha]
    constructor
    · have hpos : sunPathSize - path.length ≠ 0 := by omega
      simp [padded, hcopy, hpos]
    · rw [cstring_padded, hcopy]
  · intro n hn
    left
    rw [mem_unlinked hu hn, hcopy]
    exact ⟨hlt, rfl⟩
  · intro site' path' s₁ evs' r' s₂ hp' hr' a ha ha'
    exact addresses_distinct hp hlt hu hp' hr' ha ha'

end Runs

/-- Each of the four functions makes a faithful address of a path, in every run, exactly if the path
is shorter than the array or the object has its socket ready. -/
theorem address_faithful_iff {path : List UInt8} (hp : 0 ∉ path) (site : Site) (bytes : List UInt8) (ready : Bool)
    {evs : List Event} {r : Except SystemError Unit} {s' : Frame}
    (hr : ((site.exec path).prog (.start bytes ready)).Runs evs (r, s')) :
    Faithful path evs r s' ↔ path.length < sunPathSize ∨ site.Skips ready := by
  by_cases hs : site.Skips ready
  · obtain ⟨hw, ha, hn⟩ := runs_skipped (s := .start bytes ready) hs hr
    refine iff_of_true ⟨?_, ?_, ?_, ?_⟩ (.inr hs)
    · simp [hw, Frame.start]
    · simp [ha]
    · simp [hn]
    · simp [ha]
  · obtain ⟨hh, hu⟩ := runs_filled (s := .start bytes ready) hs hr
    have hw : s'.writes = List.range' 0 sunPathSize ++ [(copied path).length] := by
      rw [hh.writes, filled_writes]
      rfl
    simp only [hs, or_false]
    constructor
    · intro h
      exact lt_of_inside hp hw h.inside
    · intro hlt
      exact faithful_of_lt hp hlt hw hu

/-! ## Runs -/

/-- A kernel under which every call succeeds, on the descriptor 3. -/
def accepting (_ : List Event) (q : Call) : Answer q := .ok 3

/-- The run of a function that starts on a stack of zero bytes. -/
def Site.play (site : Site) (path : List UInt8) : List Event × Except SystemError Unit × Frame :=
  ((site.exec path).prog (.start (List.replicate 128 0) false)).play accepting []

theorem play_runs (site : Site) (path : List UInt8) {r : Except SystemError Unit} (h : (site.play path).2.1 = r) :
    ((site.exec path).prog (.start (List.replicate 128 0) false)).Runs (site.play path).1 (r, (site.play path).2.2) := by
  subst h
  exact Prog.play_runs _ _ _

/-- A server at the path "s", and the address it is bound to. -/
theorem server_faithful : ∃ evs s',
    (((Site.server 5).exec [115]).prog (.start (List.replicate 128 0) false)).Runs evs (.ok (), s') ∧
    addresses evs = [115 :: List.replicate 107 0] ∧ Faithful [115] evs (.ok ()) s' := by
  have hv : ((Site.server 5).play [115]).2.1 = .ok () := by decide +kernel
  have hr := play_runs (.server 5) [115] hv
  refine ⟨_, _, hr, ?_, (address_faithful_iff (by simp) _ _ _ hr).2 (.inl (by simp [sunPathSize]))⟩
  decide +kernel

/-- A path as long as the array: the last zero byte is written behind it, and the address that is
connected has no terminator. -/
theorem client_overruns : ∃ evs s',
    ((Site.client.exec (List.replicate 108 97)).prog (.start (List.replicate 128 0) false)).Runs evs (.ok (), s') ∧
    addresses evs = [List.replicate 108 97] ∧ 108 ∈ s'.writes ∧
    ¬ Faithful (List.replicate 108 97) evs (.ok ()) s' := by
  have hv : (Site.client.play (List.replicate 108 97)).2.1 = .ok () := by decide +kernel
  have hr := play_runs .client (List.replicate 108 97) hv
  have hmem : 108 ∈ (Site.client.play (List.replicate 108 97)).2.2.writes := by decide +kernel
  refine ⟨_, _, hr, ?_, hmem, fun h => ?_⟩
  · decide +kernel
  · have hin := h.inside _ hmem
    simp [sunPathSize] at hin

end Fdcpp.Unix
