/-
`fdpass` objects that meet at paths: any number of them call `send` and `recv`, whose first call connects the
socket of the object to the one that is bound to its path, or removes the name and binds the socket to it.
The calls of different objects come in any order, each may fail, and names are also removed by others.
A path leads to an entry of a directory, and several paths may lead to one; what a path leads to stays
as it is, and an entry is made by `bind` only.
The state of the kernel has what the sockets are bound and connected to, and for each message the object
that sent it.
-/
import Fdcpp.Lib.Ledger
import Fdcpp.Lib.Run
import Fdcpp.Unix.Address

namespace Fdcpp.Unix.Rendezvous

open Bytes

/-! ## The kernel -/

/-- The sockets are numbered as the objects. A message is the number of its sender. -/
structure Kernel (ν : Type) where
  /-- The socket of each entry of a directory. -/
  names : ν → Option Nat
  bound : Nat → Bool
  peer : Nat → Option Nat
  closed : Nat → Bool
  queue : Nat → List Nat
  /-- The messages that a socket has given out. -/
  taken : Nat → List Nat

namespace Kernel

variable {ν : Type}

def init : Kernel ν := ⟨fun _ => none, fun _ => false, fun _ => none, fun _ => false, fun _ => [], fun _ => []⟩

def connect (k : Kernel ν) (i s : Nat) : Kernel ν := { k with peer := Function.update k.peer i (some s) }

def bind [DecidableEq ν] (k : Kernel ν) (i : Nat) (name : ν) : Kernel ν :=
  { k with names := Function.update k.names name (some i), bound := Function.update k.bound i true }

def unlink [DecidableEq ν] (k : Kernel ν) (name : ν) : Kernel ν := { k with names := Function.update k.names name none }

def send (k : Kernel ν) (i s n : Nat) : Kernel ν :=
  { k with queue := Function.update k.queue s (k.queue s ++ List.replicate n i) }

def recv (k : Kernel ν) (i n : Nat) : Kernel ν :=
  { k with
    queue := Function.update k.queue i ((k.queue i).drop n)
    taken := Function.update k.taken i (k.taken i ++ (k.queue i).take n) }

def close (k : Kernel ν) (i : Nat) : Kernel ν :=
  { k with closed := Function.update k.closed i true, queue := Function.update k.queue i [] }

end Kernel

/-- What the kernel may answer to a process whose paths lead where `resolve` says: a socket is connected to
the open one that has the name, and bound to a name that is free, once; the static `send` puts some messages
into the queue of the peer, and the static `recv` takes some out of its own, one at least if it returns. -/
inductive Gives {ν : Type} [DecidableEq ν] (resolve : List UInt8 → ν) :
    Kernel ν → (q : Call) → Answer q → Kernel ν → Prop
  | connect {k : Kernel ν} {i s : Nat} {a : List UInt8} (n : Nat) (name : k.names (resolve (cstring a)) = some s)
    (isOpen : k.closed s = false) : Gives resolve k (.connect i a) (.ok n) (k.connect i s)
  | bind {k : Kernel ν} {i : Nat} {a : List UInt8} (n : Nat) (free : k.names (resolve (cstring a)) = none)
    (once : k.bound i = false) : Gives resolve k (.bind i a) (.ok n) (k.bind i (resolve (cstring a)))
  | unlink {k : Kernel ν} {path : List UInt8} (n : Nat) :
    Gives resolve k (.unlink path) (.ok n) (k.unlink (resolve path))
  | send {k : Kernel ν} {i s : Nat} (n : Nat) (r : Except Errno Nat) (peer : k.peer i = some s)
    (isOpen : k.closed s = false) : Gives resolve k (.send i) r (k.send i s n)
  | sendNone {k : Kernel ν} {i : Nat} (r : Except Errno Nat) : Gives resolve k (.send i) r k
  | recv {k : Kernel ν} {i n : Nat} (r : Except Errno Nat) (queued : n ≤ (k.queue i).length)
    (least : ∀ m, r = .ok m → 0 < n) : Gives resolve k (.recv i) r (k.recv i n)
  | fails {k : Kernel ν} {q : Call} (e : Errno) : Gives resolve k q (.error e) k

/-! ## Objects -/

/-- `send` or `recv`. -/
inductive Op
  | send
  | recv
  deriving DecidableEq, Repr

def Op.site (i : Nat) : Op → Site
  | send => .send i
  | recv => .recv i

/-- What is left of a member function. -/
abbrev Rest : Type := Prog Call Answer (Except SystemError Unit × Frame)

/-- The objects: the `_ready` of those that are not in a member function, and what is left of the
function for the others. -/
structure World (ν : Type) where
  ready : Nat → Bool
  busy : Nat → Option Rest
  kernel : Kernel ν

namespace World

variable {ν : Type}

def init : World ν := ⟨fun _ => false, fun _ => none, .init⟩

/-- The function of the object `i` goes on, or it ends. -/
def proceed (w : World ν) (i : Nat) : Rest → World ν
  | .ask q f => { w with busy := Function.update w.busy i (some (.ask q f)) }
  | .ret (_, s) => { w with ready := Function.update w.ready i s.ready, busy := Function.update w.busy i none }

end World

inductive Act (ν : Type)
  | enter (i : Nat) (op : Op)
  | call (i : Nat)
  | unlinked (name : ν)
  | destroy (i : Nat)
  deriving DecidableEq, Repr

/-- An object with the path `path i`, in a process whose paths lead where `resolve i` says, begins a function
on the stack `bytes`, or makes its next call; a name is removed by somebody else; or an object is destroyed. -/
inductive Step {ν : Type} [DecidableEq ν] (resolve : Nat → List UInt8 → ν) (path : Nat → List UInt8) :
    World ν → Act ν → World ν → Prop
  | enter {w : World ν} {i : Nat} (op : Op) (bytes : List UInt8) (idle : w.busy i = none)
    (isOpen : w.kernel.closed i = false) :
    Step resolve path w (.enter i op) (w.proceed i (((op.site i).exec (path i)).prog (.start bytes (w.ready i))))
  | call {w : World ν} {i : Nat} {q : Call} {f : Answer q → Rest} {r : Answer q} {k : Kernel ν}
    (busy : w.busy i = some (.ask q f)) (gives : Gives (resolve i) w.kernel q r k) :
    Step resolve path w (.call i) ({ w with kernel := k }.proceed i (f r))
  | unlinked {w : World ν} (name : ν) :
    Step resolve path w (.unlinked name) { w with kernel := w.kernel.unlink name }
  | destroy {w : World ν} {i : Nat} (idle : w.busy i = none) :
    Step resolve path w (.destroy i) { w with kernel := w.kernel.close i }

/-! ## Roles -/

/-- What the socket of an object is used for. -/
inductive Role
  | fresh
  | sender
  | receiver
  deriving DecidableEq, Repr

/-- The calls that an object of this role with this path makes. -/
def Role.Allows (path : List UInt8) (i : Nat) : Role → Call → Prop
  | fresh, .connect j a => j = i ∧ cstring a = path
  | fresh, .bind j a => j = i ∧ cstring a = path
  | fresh, .unlink _ => True
  | sender, .send j | receiver, .send j | sender, .recv j | receiver, .recv j => j = i
  | _, _ => False

/-- The role after a call. -/
def Role.next (g : Role) : (q : Call) → Answer q → Role
  | .connect .., .ok _ => sender
  | .bind .., .ok _ => receiver
  | _, _ => g

/-- A member function follows the role of its object: it gets a role before it uses the socket, and keeps it. -/
abbrev Follows (path : List UInt8) (i : Nat) (g : Role) (p : Rest) : Prop :=
  Prog.Follows (Role.Allows path i) Role.next g p fun g' x => x.2.ready = decide (g' ≠ .fresh)

section Roles

variable {path : List UInt8} {i : Nat} {g : Role}

/-! The rules for the parts of the functions. -/

theorem follows_get {f : Frame → UnixM Unit} {s : Frame} (h : Follows path i g ((f s).prog s)) :
    Follows path i g ((get >>= f).prog s) := h

theorem follows_fillAddr {f : Unit → UnixM Unit} {s : Frame} (h : Follows path i g ((f ()).prog (s.filled path))) :
    Follows path i g ((fillAddr path >>= f).prog s) := h

theorem cstring_filled (hp : 0 ∉ path) (hlt : path.length < sunPathSize) (s : Frame) :
    cstring (s.filled path).sunPath = path := by
  rw [filled_sunPath, cstring_padded, copied_of_lt hp hlt]

theorem follows_connect {f : Unit → UnixM Unit} {s : Frame} (hs : s.ready = false) (hpath : cstring s.sunPath = path)
    (h : Follows path i .sender ((f ()).prog s)) : Follows path i .fresh ((connect i >>= f).prog s) := by
  refine Prog.follows_ask ⟨rfl, hpath⟩ ?_
  rintro (e | n)
  · exact hs
  · exact h

theorem follows_unlink {name : List UInt8} {f : Except Errno Nat → UnixM Unit} {s : Frame}
    (h : ∀ r, Follows path i .fresh ((f r).prog s)) :
    Follows path i .fresh (((Eff.call (.unlink name) : UnixM (Answer (.unlink name))) >>= f).prog s) :=
  Prog.follows_ask trivial h

theorem follows_bind {f : Unit → UnixM Unit} {s : Frame} (hs : s.ready = false) (hpath : cstring s.sunPath = path)
    (h : Follows path i .receiver ((f ()).prog s)) : Follows path i .fresh ((Unix.bind i >>= f).prog s) := by
  refine Prog.follows_ask ⟨rfl, hpath⟩ ?_
  rintro (e | n)
  · exact hs
  · exact h

/-- The static `send` and `recv`, which an object with a role goes on to. -/
theorem static_follows {func : String} {q : Call} {s : Frame} (hq : g.Allows path i q) (hnext : ∀ r, g.next q r = g)
    (hs : s.ready = decide (g ≠ .fresh)) :
    Follows path i g ((checked func q >>= fun _ => pure ()).prog s) := by
  refine Prog.follows_ask hq ?_
  rintro (e | n)
  · rw [hnext]
    exact hs
  · rw [hnext]
    exact hs

theorem send_follows (hp : 0 ∉ path) (hlt : path.length < sunPathSize) (bytes : List UInt8) :
    Follows path i g ((Unix.send i path).prog (.start bytes (decide (g ≠ .fresh)))) := by
  unfold Unix.send
  cases g with
  | fresh =>
    refine follows_get (follows_fillAddr (follows_connect rfl (cstring_filled hp hlt _) ?_))
    exact static_follows (g := .sender) rfl (fun _ => rfl) rfl
  | sender => exact static_follows (g := .sender) rfl (fun _ => rfl) rfl
  | receiver => exact static_follows (g := .receiver) rfl (fun _ => rfl) rfl

theorem recv_follows (hp : 0 ∉ path) (hlt : path.length < sunPathSize) (bytes : List UInt8) :
    Follows path i g ((Unix.recv i path).prog (.start bytes (decide (g ≠ .fresh)))) := by
  unfold Unix.recv
  cases g with
  | fresh =>
    refine follows_get (follows_fillAddr (follows_get (follows_unlink fun r => ?_)))
    refine follows_bind rfl (cstring_filled hp hlt _) ?_
    exact static_follows (g := .receiver) rfl (fun _ => rfl) rfl
  | sender => exact static_follows (g := .sender) rfl (fun _ => rfl) rfl
  | receiver => exact static_follows (g := .receiver) rfl (fun _ => rfl) rfl

theorem exec_follows (hp : 0 ∉ path) (hlt : path.length < sunPathSize) (op : Op) (bytes : List UInt8) :
    Follows path i g (((op.site i).exec path).prog (.start bytes (decide (g ≠ .fresh)))) := by
  cases op with
  | send => exact send_follows hp hlt bytes
  | recv => exact recv_follows hp hlt bytes

end Roles

/-! ## The invariant -/

section Invariant

variable {ν : Type}

/-- The role that the kernel sees. -/
def Kernel.role (k : Kernel ν) (i : Nat) : Role :=
  if k.bound i then .receiver else if k.peer i = none then .fresh else .sender

/-- No socket is both bound and connected; a name belongs to a socket whose path leads to it, a socket is
connected to one that has the same `place`, and messages come from the sockets that are connected. -/
structure Kernel.Inv (place : Nat → ν) (k : Kernel ν) : Prop where
  exclusive : ∀ i s, k.peer i = some s → k.bound i = false
  named : ∀ name s, k.names name = some s → k.bound s = true ∧ place s = name
  peers : ∀ i s, k.peer i = some s → k.bound s = true ∧ place s = place i
  sent : ∀ s x, x ∈ k.queue s ++ k.taken s → k.peer x = some s

/-- Each object is in its role, and stays in it. -/
structure Inv (resolve : Nat → List UInt8 → ν) (path : Nat → List UInt8) (w : World ν) : Prop where
  kernel : w.kernel.Inv fun i => resolve i (path i)
  idle : ∀ i, w.busy i = none → w.ready i = decide (w.kernel.role i ≠ .fresh)
  busy : ∀ i p, w.busy i = some p → Follows (path i) i (w.kernel.role i) p

end Invariant

section Kernel

variable {ν : Type} {place : Nat → ν} {k k' : Kernel ν} {i j : Nat} {q : Call} {r : Answer q} {g : Role}
  {path : List UInt8}

theorem allows_connect {a : List UInt8} (h : g.Allows path i (.connect j a)) :
    g = .fresh ∧ j = i ∧ cstring a = path := by
  cases g with
  | fresh => exact ⟨rfl, h⟩
  | sender | receiver => exact h.elim

theorem allows_bind {a : List UInt8} (h : g.Allows path i (.bind j a)) : g = .fresh ∧ j = i ∧ cstring a = path := by
  cases g with
  | fresh => exact ⟨rfl, h⟩
  | sender | receiver => exact h.elim

@[simp] theorem next_error (g : Role) (q : Call) (e : Errno) : g.next q (.error e) = g := by cases q <;> rfl

theorem role_eq_fresh : k.role i = .fresh ↔ k.bound i = false ∧ k.peer i = none := by
  unfold Kernel.role
  split
  · simp_all
  · split
    · simp_all
    · simp_all

/-- Only what a socket is bound and connected to makes its role. -/
theorem role_congr (hbound : k'.bound i = k.bound i) (hpeer : k'.peer i = k.peer i) : k'.role i = k.role i := by
  rw [Kernel.role, Kernel.role, hbound, hpeer]

theorem role_connect (h : k.role i = .fresh) (s : Nat) :
    (k.connect i s).role i = .sender ∧ ∀ j, j ≠ i → (k.connect i s).role j = k.role j := by
  obtain ⟨hbound, -⟩ := role_eq_fresh.1 h
  constructor
  · simp [Kernel.role, Kernel.connect, hbound]
  · intro j hj
    exact role_congr rfl (Function.update_of_ne hj ..)

theorem role_bind [DecidableEq ν] (name : ν) :
    (k.bind i name).role i = .receiver ∧ ∀ j, j ≠ i → (k.bind i name).role j = k.role j := by
  constructor
  · simp [Kernel.role, Kernel.bind]
  · intro j hj
    exact role_congr (Function.update_of_ne hj ..) rfl

/-- A call that the role of an object allows leads to its next role, and leaves the others. -/
theorem gives_role [DecidableEq ν] {resolve : List UInt8 → ν} (h : Gives resolve k q r k')
    (hq : (k.role i).Allows path i q) :
    k'.role i = (k.role i).next q r ∧ ∀ j, j ≠ i → k'.role j = k.role j := by
  cases h with
  | connect n hname hopen =>
    obtain ⟨hfresh, rfl, -⟩ := allows_connect hq
    exact role_connect hfresh _
  | bind n hfree honce =>
    obtain ⟨-, rfl, -⟩ := allows_bind hq
    exact role_bind _
  | fails e =>
    rw [next_error]
    exact ⟨rfl, fun j hj => rfl⟩
  | unlink n | send n r hpeer hopen | sendNone r | recv r hle hsome => exact ⟨rfl, fun j hj => rfl⟩

theorem connect_inv (hk : k.Inv place) (hfresh : k.role i = .fresh) {s : Nat} (hname : k.names (place i) = some s) :
    (k.connect i s).Inv place := by
  obtain ⟨hbound, hpeer⟩ := role_eq_fresh.1 hfresh
  obtain ⟨hs, hpath⟩ := hk.named _ _ hname
  constructor
  · intro j t hj
    rcases update_eq_some hj with ⟨rfl, -⟩ | ⟨-, hj⟩
    · exact hbound
    · exact hk.exclusive j t hj
  · exact hk.named
  · intro j t hj
    rcases update_eq_some hj with ⟨rfl, rfl⟩ | ⟨-, hj⟩
    · exact ⟨hs, hpath⟩
    · exact hk.peers j t hj
  · intro t x hx
    -- a socket that is not connected has sent nothing
    have hx' := hk.sent t x hx
    have hne : x ≠ i := by
      rintro rfl
      rw [hpeer] at hx'
      cases hx'
    exact (Function.update_of_ne hne ..).trans hx'

theorem bind_inv [DecidableEq ν] (hk : k.Inv place) (hfresh : k.role i = .fresh) : (k.bind i (place i)).Inv place := by
  obtain ⟨-, hpeer⟩ := role_eq_fresh.1 hfresh
  have hbound : ∀ s, k.bound s = true → (k.bind i (place i)).bound s = true := by
    intro s hs
    by_cases hsi : s = i
    · rw [hsi]
      exact Function.update_self ..
    · exact (Function.update_of_ne hsi ..).trans hs
  constructor
  · intro j t hj
    have hne : j ≠ i := by
      rintro rfl
      cases hpeer.symm.trans hj
    exact (Function.update_of_ne hne ..).trans (hk.exclusive j t hj)
  · intro name s hname
    rcases update_eq_some hname with ⟨rfl, rfl⟩ | ⟨-, hname⟩
    · exact ⟨Function.update_self .., rfl⟩
    · obtain ⟨hs, hpath⟩ := hk.named name s hname
      exact ⟨hbound s hs, hpath⟩
  · intro j t hj
    obtain ⟨ht, hpath⟩ := hk.peers j t hj
    exact ⟨hbound t ht, hpath⟩
  · exact hk.sent

theorem unlink_inv [DecidableEq ν] (hk : k.Inv place) (name : ν) : (k.unlink name).Inv place := by
  refine ⟨hk.exclusive, ?_, hk.peers, hk.sent⟩
  intro name' s h
  exact hk.named name' s (update_none_eq_some h).2

theorem send_inv (hk : k.Inv place) {s : Nat} (hpeer : k.peer i = some s) (n : Nat) : (k.send i s n).Inv place := by
  refine ⟨hk.exclusive, hk.named, hk.peers, ?_⟩
  intro t x hx
  by_cases hts : t = s
  · subst hts
    have hqueue : (k.send i t n).queue t = k.queue t ++ List.replicate n i := Function.update_self ..
    rw [hqueue, List.append_assoc, List.mem_append, List.mem_append] at hx
    rcases hx with hx | hx | hx
    · exact hk.sent t x (List.mem_append_left _ hx)
    · rw [List.eq_of_mem_replicate hx]
      exact hpeer
    · exact hk.sent t x (List.mem_append_right _ hx)
  · have hqueue : (k.send i s n).queue t = k.queue t := Function.update_of_ne hts ..
    rw [hqueue] at hx
    exact hk.sent t x hx

theorem recv_inv (hk : k.Inv place) (i n : Nat) : (k.recv i n).Inv place := by
  refine ⟨hk.exclusive, hk.named, hk.peers, ?_⟩
  intro t x hx
  by_cases hti : t = i
  · subst hti
    have hqueue : (k.recv t n).queue t = (k.queue t).drop n := Function.update_self ..
    have htaken : (k.recv t n).taken t = k.taken t ++ (k.queue t).take n := Function.update_self ..
    rw [hqueue, htaken, List.mem_append, List.mem_append] at hx
    rcases hx with hx | hx | hx
    · exact hk.sent t x (List.mem_append_left _ (List.mem_of_mem_drop hx))
    · exact hk.sent t x (List.mem_append_right _ hx)
    · exact hk.sent t x (List.mem_append_left _ (List.mem_of_mem_take hx))
  · have hqueue : (k.recv i n).queue t = k.queue t := Function.update_of_ne hti ..
    have htaken : (k.recv i n).taken t = k.taken t := Function.update_of_ne hti ..
    rw [hqueue, htaken] at hx
    exact hk.sent t x hx

theorem close_inv (hk : k.Inv place) (i : Nat) : (k.close i).Inv place := by
  refine ⟨hk.exclusive, hk.named, hk.peers, ?_⟩
  intro t x hx
  by_cases hti : t = i
  · subst hti
    have hqueue : (k.close t).queue t = [] := Function.update_self ..
    rw [hqueue, List.nil_append] at hx
    exact hk.sent t x (List.mem_append_right _ hx)
  · have hqueue : (k.close i).queue t = k.queue t := Function.update_of_ne hti ..
    rw [hqueue] at hx
    exact hk.sent t x hx

theorem gives_inv [DecidableEq ν] {resolve : List UInt8 → ν} (h : Gives resolve k q r k') (hk : k.Inv place)
    (hplace : place i = resolve path) (hq : (k.role i).Allows path i q) : k'.Inv place := by
  cases h with
  | connect n hname hopen =>
    obtain ⟨hfresh, rfl, hpath⟩ := allows_connect hq
    rw [hpath, ← hplace] at hname
    exact connect_inv hk hfresh hname
  | bind n hfree honce =>
    obtain ⟨hfresh, rfl, hpath⟩ := allows_bind hq
    rw [hpath, ← hplace]
    exact bind_inv hk hfresh
  | unlink n => exact unlink_inv hk _
  | send n r hpeer hopen => exact send_inv hk hpeer n
  | recv r hle hsome => exact recv_inv hk _ _
  | sendNone r | fails e => exact hk

end Kernel

/-! ## Runs -/

section Runs

variable {ν : Type} {resolve : Nat → List UInt8 → ν} {path : Nat → List UInt8} {w w' : World ν}
  {act : Act ν} {i : Nat} {p : Rest}

/-- The rule for an object that goes on or ends, when the others have kept their roles. -/
theorem proceed_inv (hk : w.kernel.Inv fun i => resolve i (path i))
    (hidle : ∀ j, j ≠ i → w.busy j = none → w.ready j = decide (w.kernel.role j ≠ .fresh))
    (hbusy : ∀ j p, j ≠ i → w.busy j = some p → Follows (path j) j (w.kernel.role j) p)
    (hp : Follows (path i) i (w.kernel.role i) p) : Inv resolve path (w.proceed i p) := by
  cases p with
  | ask q f =>
    refine ⟨hk, ?_, ?_⟩
    · intro j hj
      have hne : j ≠ i := by
        rintro rfl
        cases (Function.update_self ..).symm.trans hj
      exact hidle j hne ((Function.update_of_ne hne ..).symm.trans hj)
    · intro j p hj
      rcases update_eq_some hj with ⟨rfl, rfl⟩ | ⟨hne, hj⟩
      · exact hp
      · exact hbusy j p hne hj
  | ret x =>
    refine ⟨hk, ?_, ?_⟩
    · intro j hj
      by_cases hji : j = i
      · subst hji
        exact (Function.update_self ..).trans hp
      · have hready : (w.proceed i (.ret x)).ready j = w.ready j := Function.update_of_ne hji ..
        rw [hready]
        exact hidle j hji ((Function.update_of_ne hji ..).symm.trans hj)
    · intro j p hj
      obtain ⟨hne, hj⟩ := update_none_eq_some hj
      exact hbusy j p hne hj

theorem step_inv [DecidableEq ν] (hp : ∀ i, 0 ∉ path i ∧ (path i).length < sunPathSize) (h : Step resolve path w act w')
    (hw : Inv resolve path w) : Inv resolve path w' := by
  cases h with
  | enter op bytes idle isOpen =>
    refine proceed_inv hw.kernel (fun j _ => hw.idle j) (fun j p _ => hw.busy j p) ?_
    rw [hw.idle _ idle]
    exact exec_follows (hp _).1 (hp _).2 op bytes
  | call busy gives =>
    obtain ⟨hq, hrest⟩ := hw.busy _ _ busy
    obtain ⟨hrole, hothers⟩ := gives_role gives hq
    refine proceed_inv (gives_inv gives hw.kernel rfl hq) ?_ ?_ ?_
    · intro j hj hidle
      rw [hothers j hj]
      exact hw.idle j hidle
    · intro j p hj hbusy
      rw [hothers j hj]
      exact hw.busy j p hbusy
    · rw [hrole]
      exact hrest _
  | unlinked name => exact ⟨unlink_inv hw.kernel name, hw.idle, hw.busy⟩
  | destroy idle => exact ⟨close_inv hw.kernel _, hw.idle, hw.busy⟩

theorem init_inv (resolve : Nat → List UInt8 → ν) (path : Nat → List UInt8) : Inv resolve path .init := by
  refine ⟨⟨nofun, nofun, nofun, nofun⟩, fun _ _ => rfl, nofun⟩

/-- In any order of the calls of any number of objects, with whatever failures, every message that is
queued at an object, or that it has received, was sent by an object whose path leads to the same name. All
messages of a sender go to the same object, also when the name is taken over by another. And an object that
has received a message never sends one, nor the other way round. -/
theorem fdpass_rendezvous [DecidableEq ν] (hp : ∀ i, 0 ∉ path i ∧ (path i).length < sunPathSize)
    {r : List (Act ν × World ν)} (h : Run.Chain (Step resolve path) .init r) : Run.Always (fun w =>
      (∀ s x, x ∈ w.kernel.queue s ++ w.kernel.taken s → resolve x (path x) = resolve s (path s)) ∧
      (∀ x s s', x ∈ w.kernel.queue s ++ w.kernel.taken s → x ∈ w.kernel.queue s' ++ w.kernel.taken s' → s = s') ∧
      ∀ i s, w.kernel.taken i ≠ [] → i ∉ w.kernel.queue s ++ w.kernel.taken s) .init r := by
  refine (h.always (fun w act w' hstep _ hw => step_inv hp hstep hw) h (init_inv resolve path)).imp fun w hw => ?_
  have hk := hw.kernel
  refine ⟨fun s x hx => ?_, fun x s s' hx hx' => ?_, fun i s htaken hi => ?_⟩
  · exact (hk.peers x s (hk.sent s x hx)).2.symm
  · exact Option.some.inj ((hk.sent s x hx).symm.trans (hk.sent s' x hx'))
  · obtain ⟨x, hx⟩ := List.exists_mem_of_ne_nil _ htaken
    -- its message came to a bound socket, and its own would come from a connected one
    have hbound := (hk.peers x i (hk.sent i x (List.mem_append_right _ hx))).1
    rw [hk.exclusive i s (hk.sent s i hi)] at hbound
    cases hbound

end Runs

/-- The process of the object 0 works in `/a`, and the others in `/`: the name 1 is `s` in `/a`. -/
def places (i : Nat) (path : List UInt8) : Nat :=
  if i = 0 ∧ path = [46, 47, 115] ∨ i ≠ 0 ∧ path = [97, 47, 115] then 1 else 0

/-- The object 0 has the path `./s`, and the object 1 the path `a/s`. -/
def spellings (i : Nat) : List UInt8 := if i = 0 then [46, 47, 115] else [97, 47, 115]

/-- The object 1 sends two messages to the object 0, which receives one of them. -/
theorem exchange_chain : ∃ r : List (Act Nat × World Nat), Run.Chain (Step places spellings) .init r ∧
    (Run.last .init r).kernel.taken 0 = [1] ∧ (Run.last .init r).kernel.queue 0 = [1] := by
  refine ⟨[(_, _), (_, _), (_, _), (_, _), (_, _), (_, _), (_, _)], ⟨.enter (i := 0) .recv [] rfl rfl,
    .call (i := 0) rfl (.fails 2), .call (i := 0) rfl (.bind 0 rfl rfl), .enter (i := 1) .send [] rfl rfl,
    .call (i := 1) rfl (.connect 0 (s := 0) rfl rfl), .call (i := 1) rfl (.send 2 (.ok 2) rfl rfl),
    .call (i := 0) rfl (.recv (n := 1) (.ok 1) (by decide) fun _ _ => Nat.one_pos), trivial⟩, rfl, rfl⟩

theorem fdpass_rendezvous_two : ∃ r : List (Act Nat × World Nat), (Run.last .init r).kernel.taken 0 = [1] ∧
    places 1 (spellings 1) = places 0 (spellings 0) ∧
    ∀ s, 0 ∉ (Run.last .init r).kernel.queue s ++ (Run.last .init r).kernel.taken s := by
  obtain ⟨r, hchain, htaken, -⟩ := exchange_chain
  have hpath : ∀ i, 0 ∉ spellings i ∧ (spellings i).length < sunPathSize := by
    intro i
    unfold spellings
    split <;> decide
  have h := Run.last_of_always (fdpass_rendezvous hpath hchain)
  refine ⟨r, htaken, h.1 0 1 ?_, fun s => h.2.2 0 s ?_⟩
  · rw [htaken]
    exact List.mem_append_right _ (List.mem_singleton_self 1)
  · rw [htaken]
    exact List.cons_ne_nil 1 []

end Fdcpp.Unix.Rendezvous
