/-
Any number of threads that make sockets with the functions of `tcp_socket` and `udp_socket` on one network:
the system calls of different functions come in any order, and each may fail. No socket stays open that
nobody has, a server that is returned is bound to the endpoint that was asked for, and a client is
connected to a socket that a `server` made for its endpoint. Which addresses a bound one covers is a
matter of the network.
-/
import Fdcpp.Inet.Factories
import Fdcpp.Lib.Ledger
import Fdcpp.Lib.Run

namespace Fdcpp.Inet

/-! ## The network -/

inductive SockState
  | unbound
  | bound (e : Endpoint) (listening : Bool)
  | connected (peer : Nat)
  deriving DecidableEq

structure Sock where
  domain : Nat
  type : Nat
  state : SockState
  deriving DecidableEq

/-- The open sockets. -/
abbrev Socks : Type := Nat → Option Sock

def Socks.set (k : Socks) (n : Nat) (s : Sock) : Socks := Function.update k n (some s)

def Socks.drop (k : Socks) (n : Nat) : Socks := Function.update k n none

/-- `e` is what a socket may be bound to that is asked for `asked`: with the port 0 the kernel picks one. -/
def Endpoint.Bindable (asked e : Endpoint) : Prop := e.host = asked.host ∧ (asked.port ≠ 0 → e.port = asked.port)

/-- What the kernel may answer: `socket` gives a number that was `fresh`; a socket is bound once, to an endpoint
of its address; and it is connected to a listening one that is bound to the port, on an address that covers
the one asked for. The simultaneous open of TCP, of a socket with itself or with another client, is left out. -/
inductive Gives (covers : Host → Host → Prop) (fresh : Nat → Prop) : Socks → (q : Call) → Answer q → Socks → Prop
  | socket {k : Socks} {domain type n : Nat} (new : fresh n) :
    Gives covers fresh k (.socket domain type) (.ok n) (k.set n ⟨domain, type, .unbound⟩)
  | connect {k : Socks} {fd n : Nat} {saddr : List UInt8} {s p : Sock} {asked e : Endpoint} (m : Nat)
    (sock : k fd = some s) (unbound : s.state = .unbound) (address : endpoint? saddr = some asked)
    (server : k n = some p) (kind : p.type = s.type) (listening : p.state = .bound e true)
    (port : e.port = asked.port) (host : covers e.host asked.host) :
    Gives covers fresh k (.connect fd saddr) (.ok m) (k.set fd { s with state := .connected n })
  | bind {k : Socks} {fd : Nat} {saddr : List UInt8} {s : Sock} {asked e : Endpoint} (m : Nat) (sock : k fd = some s)
    (unbound : s.state = .unbound) (address : endpoint? saddr = some asked) (bindable : asked.Bindable e) :
    Gives covers fresh k (.bind fd saddr) (.ok m) (k.set fd { s with state := .bound e false })
  | listen {k : Socks} {fd : Nat} {backlog : Int} {s : Sock} {e : Endpoint} (m : Nat) (sock : k fd = some s)
    (bound : s.state = .bound e false) :
    Gives covers fresh k (.listen fd backlog) (.ok m) (k.set fd { s with state := .bound e true })
  | close {k : Socks} {fd : Nat} (r : Except Errno Nat) : Gives covers fresh k (.close fd) r (k.drop fd)
  | fails {k : Socks} {q : Call} (e : Errno) (stays : ∀ fd, q ≠ .close fd) : Gives covers fresh k q (.error e) k

/-! ## Threads -/

/-- Who has a socket. -/
inductive Owner
  | thread (i : Nat)
  | caller
  | nobody
  deriving DecidableEq

abbrev Rest : Type := Prog Call Answer (Except SystemError Nat × Unit)

/-- The functions under way, with what is left of them; the sockets; and for each one that was ever made the
function that made it and who has it. -/
structure World where
  busy : Nat → Option (Factory × Rest)
  socks : Socks
  made : Nat → Option (Factory × Owner)

namespace World

def init : World := ⟨fun _ => none, fun _ => none, fun _ => none⟩

/-- What a call changes in who has which socket. -/
def note (w : World) (i : Nat) (f : Factory) : (q : Call) → Answer q → World
  | .socket .., .ok n => { w with made := Function.update w.made n (some (f, .thread i)) }
  | .close n, _ => { w with made := Function.update w.made n (some (f, .nobody)) }
  | _, _ => w

/-- The function of the thread `i` goes on, or it ends. -/
def proceed (w : World) (i : Nat) (f : Factory) : Rest → World
  | .ask q k => { w with busy := Function.update w.busy i (some (f, .ask q k)) }
  | .ret (.ok n, _) => { w with
      busy := Function.update w.busy i none
      made := Function.update w.made n (some (f, .caller)) }
  | .ret (.error _, _) => { w with busy := Function.update w.busy i none }

end World

inductive Act
  | enter (i : Nat) (f : Factory)
  | call (i : Nat)
  | dispose (n : Nat)

/-- A thread begins a function or makes its next call, or a caller closes a socket that it has. -/
inductive Step (covers : Host → Host → Prop) : World → Act → World → Prop
  | enter {w : World} {i : Nat} (f : Factory) (junk : SockaddrIn) (junk6 : SockaddrIn6) (idle : w.busy i = none) :
    Step covers w (.enter i f) (w.proceed i f ((f.exec junk junk6).prog ()))
  | call {w : World} {i : Nat} {f : Factory} {q : Call} {next : Answer q → Rest} {r : Answer q} {k : Socks}
    (busy : w.busy i = some (f, .ask q next)) (gives : Gives covers (fun n => w.made n = none) w.socks q r k) :
    Step covers w (.call i) ((({ w with socks := k } : World).note i f q r).proceed i f (next r))
  | dispose {w : World} {n : Nat} {f : Factory} (has : w.made n = some (f, .caller)) :
    Step covers w (.dispose n) { w with socks := w.socks.drop n, made := Function.update w.made n (some (f, .nobody)) }

/-! ## What a function does with its socket -/

/-- Where a function is: it has no socket yet; it has made so many calls on its socket; it closes it; or it
is at its end without one. -/
inductive Phase
  | start
  | opened (n k : Nat)
  | closing (n : Nat)
  | finished

namespace Phase

def next : Phase → (q : Call) → Answer q → Phase
  | start, .socket .., .ok n => opened n 0
  | opened n k, _, .ok _ => opened n (k + 1)
  | opened n _, _, .error _ => closing n
  | _, _, _ => finished

/-- The socket of the function. -/
def fd : Phase → Option Nat
  | opened n _ | closing n => some n
  | _ => none

end Phase

/-- The `k`-th call on the socket `n`. -/
inductive Kind.Wants (asked : Endpoint) (n : Nat) : Kind → Nat → Call → Prop
  | connect {saddr : List UInt8} (address : endpoint? saddr = some asked) :
    Wants asked n .tcpClient 0 (.connect n saddr)
  | bind {saddr : List UInt8} {backlog : Int} (address : endpoint? saddr = some asked) :
    Wants asked n (.tcpServer backlog) 0 (.bind n saddr)
  | listen (backlog : Int) : Wants asked n (.tcpServer backlog) 1 (.listen n backlog)
  | bindUdp {saddr : List UInt8} (address : endpoint? saddr = some asked) : Wants asked n .udpServer 0 (.bind n saddr)

inductive Factory.Allows (f : Factory) : Phase → Call → Prop
  | socket : Allows f .start (.socket f.ask.domain f.kind.type)
  | use {n k : Nat} {q : Call} (wants : f.kind.Wants f.ask.endpoint n k q) : Allows f (.opened n k) q
  | close (n : Nat) : Allows f (.closing n) (.close n)

/-- A function returns its socket after all its calls, and throws without one. -/
def Factory.Ends (f : Factory) (g : Phase) : Except SystemError Nat → Prop
  | .ok n => g = .opened n f.kind.steps
  | .error _ => g = .finished

abbrev Factory.Follows (f : Factory) (g : Phase) (p : Rest) : Prop :=
  Prog.Follows f.Allows Phase.next g p fun g' x => f.Ends g' x.1

theorem exec_follows (f : Factory) (junk : SockaddrIn) (junk6 : SockaddrIn6) :
    f.Follows .start ((f.exec junk junk6).prog ()) := by
  have hsaddr := f.ask.endpoint_bytes junk junk6
  rw [exec_eq]
  obtain ⟨kind, ask⟩ := f
  refine Prog.follows_ask .socket ?_
  rintro (e | n)
  · rfl
  · cases kind with
    | tcpClient =>
      refine Prog.follows_ask (.use (.connect hsaddr)) ?_
      rintro (e | m)
      · exact Prog.follows_ask (.close n) fun _ => rfl
      · rfl
    | udpServer =>
      refine Prog.follows_ask (.use (.bindUdp hsaddr)) ?_
      rintro (e | m)
      · exact Prog.follows_ask (.close n) fun _ => rfl
      · rfl
    | tcpServer backlog =>
      refine Prog.follows_ask (.use (.bind hsaddr)) ?_
      rintro (e | m)
      · exact Prog.follows_ask (.close n) fun _ => rfl
      · refine Prog.follows_ask (.use (.listen backlog)) ?_
        rintro (e | m)
        · exact Prog.follows_ask (.close n) fun _ => rfl
        · rfl

/-! ## The invariant -/

/-- What a socket is after `k` calls of its function; `maker` is who made the others. -/
def Kind.Reached (covers : Host → Host → Prop) (maker : Nat → Option Factory) (asked : Endpoint) :
    Kind → Nat → SockState → Prop
  | _, 0, st => st = .unbound
  | .tcpClient, _ + 1, st => ∃ peer f b, st = .connected peer ∧ maker peer = some f ∧ f.kind = .tcpServer b ∧
      covers f.ask.endpoint.host asked.host ∧ (f.ask.endpoint.port ≠ 0 → f.ask.endpoint.port = asked.port)
  | .tcpServer _, 1, st | .udpServer, _ + 1, st => ∃ e, st = .bound e false ∧ asked.Bindable e
  | .tcpServer _, _ + 2, st => ∃ e, st = .bound e true ∧ asked.Bindable e

namespace World

/-- The function that made a socket. -/
def maker (w : World) (n : Nat) : Option Factory := (w.made n).map Prod.fst

/-- A socket as it is after `k` calls of the function that made it. -/
def Has (covers : Host → Host → Prop) (w : World) (f : Factory) (n k : Nat) : Prop :=
  ∃ s, w.socks n = some s ∧ s.domain = f.ask.domain ∧ s.type = f.kind.type ∧
    f.kind.Reached covers w.maker f.ask.endpoint k s.state

end World

/-- A function in the phase `g` has the socket of the phase and no other, in the state of the phase. -/
structure World.At (covers : Host → Host → Prop) (w : World) (i : Nat) (f : Factory) (g : Phase) : Prop where
  owns : ∀ n f', w.made n = some (f', .thread i) ↔ g.fd = some n ∧ f' = f
  has : ∀ n k, g = .opened n k → k ≤ f.kind.steps ∧ w.Has covers f n k

/-- Each thread but `x` is where its function is; the sockets that callers have are complete; the open ones are
those that somebody has, and each of them was made by its function as far as it is. -/
structure Inv (covers : Host → Host → Prop) (w : World) (x : Option Nat) : Prop where
  idle : ∀ j, x ≠ some j → w.busy j = none → ∀ n f, w.made n ≠ some (f, .thread j)
  busy : ∀ j f p, x ≠ some j → w.busy j = some (f, p) → ∃ g, f.Follows g p ∧ w.At covers j f g
  caller : ∀ n f, w.made n = some (f, .caller) → w.Has covers f n f.kind.steps
  socks : ∀ n, w.socks n ≠ none ↔ ∃ f o, w.made n = some (f, o) ∧ o ≠ .nobody
  reached : ∀ n s, w.socks n = some s → ∃ f o k, w.made n = some (f, o) ∧ w.Has covers f n k

section Frame

variable {covers : Host → Host → Prop} {w w' : World} {x : Option Nat} {n k : Nat} {f : Factory}

theorem reached_mono {maker maker' : Nat → Option Factory} (hm : ∀ n f, maker n = some f → maker' n = some f)
    {asked : Endpoint} {kind : Kind} {st : SockState} (h : kind.Reached covers maker asked k st) :
    kind.Reached covers maker' asked k st := by
  match kind, k with
  | _, 0 => exact h
  | .tcpClient, _ + 1 =>
    obtain ⟨peer, f, b, hst, hmaker, hrest⟩ := h
    exact ⟨peer, f, b, hst, hm _ _ hmaker, hrest⟩
  | .tcpServer _, 1 | .udpServer, _ + 1 => exact h
  | .tcpServer _, _ + 2 => exact h

/-- A socket that listens was made by a `server`, for the endpoint that it is bound to. -/
theorem reached_listening {maker : Nat → Option Factory} {asked e : Endpoint} {kind : Kind}
    (h : kind.Reached covers maker asked k (.bound e true)) : (∃ b, kind = .tcpServer b) ∧ asked.Bindable e := by
  match kind, k with
  | _, 0 => cases h
  | .tcpClient, _ + 1 =>
    obtain ⟨peer, f, b, hst, -⟩ := h
    cases hst
  | .tcpServer _, 1 | .udpServer, _ + 1 =>
    obtain ⟨e', he, -⟩ := h
    cases he
  | .tcpServer b, _ + 2 =>
    obtain ⟨e', he, hbind⟩ := h
    cases he
    exact ⟨⟨b, rfl⟩, hbind⟩

theorem reached_listen {maker : Nat → Option Factory} {asked e : Endpoint} {b : Int}
    (h : Kind.Reached covers maker asked (.tcpServer b) 1 (.bound e false)) :
    Kind.Reached covers maker asked (.tcpServer b) 2 (.bound e true) := by
  obtain ⟨e', he, hbind⟩ := h
  cases he
  exact ⟨e, rfl, hbind⟩

/-- A socket keeps the function that made it, whoever has it. -/
theorem maker_mono {o : Owner} (hn : w.made n = none ∨ ∃ o', w.made n = some (f, o'))
    (hmade : w'.made = Function.update w.made n (some (f, o))) :
    ∀ m f', w.maker m = some f' → w'.maker m = some f' := by
  intro m f' hm
  rw [World.maker] at hm
  rw [World.maker, hmade]
  by_cases hmn : m = n
  · subst hmn
    rw [Function.update_self]
    rcases hn with hn | ⟨o', hn⟩
    · rw [hn] at hm
      cases hm
    · rw [hn] at hm
      exact hm
  · rw [Function.update_of_ne hmn]
    exact hm

/-- A socket that is left alone stays as it is. -/
theorem has_mono (hm : ∀ n f, w.maker n = some f → w'.maker n = some f) (hsocks : w'.socks n = w.socks n)
    (h : w.Has covers f n k) : w'.Has covers f n k := by
  obtain ⟨s, hs, hdomain, htype, hreached⟩ := h
  exact ⟨s, hsocks.trans hs, hdomain, htype, reached_mono hm hreached⟩

/-- A socket changes that is new, or that no thread but `x` has, and the others are left alone. -/
theorem Inv.frame (h : Inv covers w x) {o : Owner}
    (hn : w.made n = none ∨ ∃ o', w.made n = some (f, o') ∧ ∀ j, o' = .thread j → x = some j)
    (hmade : w'.made = Function.update w.made n (some (f, o))) (ho : ∀ j, o = .thread j → x = some j)
    (hsocks : ∀ m, m ≠ n → w'.socks m = w.socks m) (hbusy : w'.busy = w.busy)
    (hopen : w'.socks n ≠ none ↔ o ≠ .nobody) (hreached : ∀ s, w'.socks n = some s → ∃ k, w'.Has covers f n k)
    (hcaller : o = .caller → w'.Has covers f n f.kind.steps) : Inv covers w' x := by
  have hself : w'.made n = some (f, o) := by rw [hmade, Function.update_self]
  have hother : ∀ m, m ≠ n → w'.made m = w.made m := fun m hm => by rw [hmade, Function.update_of_ne hm]
  have hmaker : ∀ m f', w.maker m = some f' → w'.maker m = some f' := by
    refine maker_mono (hn.imp_right ?_) hmade
    rintro ⟨o', hn, -⟩
    exact ⟨o', hn⟩
  -- what another thread has is not the socket that changes
  have hforeign : ∀ j f', x ≠ some j → w.made n ≠ some (f', .thread j) := by
    intro j f' hj h'
    rcases hn with hn | ⟨o', hn, ho'⟩
    · cases hn.symm.trans h'
    · cases hn.symm.trans h'
      exact hj (ho' j rfl)
  have hthread : ∀ j m f', x ≠ some j → (w'.made m = some (f', .thread j) ↔ w.made m = some (f', .thread j)) := by
    intro j m f' hj
    by_cases hmn : m = n
    · subst hmn
      refine iff_of_false (fun h' => ?_) (hforeign j f' hj)
      cases hself.symm.trans h'
      exact hj (ho j rfl)
    · rw [hother m hmn]
  have hkeeps : ∀ m f' k, m ≠ n → w.Has covers f' m k → w'.Has covers f' m k :=
    fun m f' k hmn hhas => has_mono hmaker (hsocks m hmn) hhas
  refine ⟨?_, ?_, ?_, ?_, ?_⟩
  · intro j hj hidle m f' hm
    rw [hbusy] at hidle
    exact h.idle j hj hidle m f' ((hthread j m f' hj).1 hm)
  · intro j f' p hj hp
    rw [hbusy] at hp
    obtain ⟨g, hfollows, hat⟩ := h.busy j f' p hj hp
    refine ⟨g, hfollows, fun m f'' => (hthread j m f'' hj).trans (hat.owns m f''), fun m k hm => ?_⟩
    obtain ⟨hk, hhas⟩ := hat.has m k hm
    have hown := (hat.owns m f').2 ⟨by rw [hm, Phase.fd], rfl⟩
    refine ⟨hk, hkeeps m f' k ?_ hhas⟩
    rintro rfl
    exact hforeign j f' hj hown
  · intro m f' hm
    by_cases hmn : m = n
    · subst hmn
      cases hself.symm.trans hm
      exact hcaller rfl
    · rw [hother m hmn] at hm
      exact hkeeps m f' _ hmn (h.caller m f' hm)
  · intro m
    by_cases hmn : m = n
    · subst hmn
      rw [hopen, hself]
      constructor
      · intro hne
        exact ⟨f, o, rfl, hne⟩
      · rintro ⟨f', o', heq, hne⟩
        cases heq
        exact hne
    · rw [hsocks m hmn, hother m hmn]
      exact h.socks m
  · intro m s hs
    by_cases hmn : m = n
    · subst hmn
      obtain ⟨k, hhas⟩ := hreached s hs
      exact ⟨f, o, k, hself, hhas⟩
    · rw [hsocks m hmn] at hs
      obtain ⟨f', o', k, hm, hhas⟩ := h.reached m s hs
      exact ⟨f', o', k, (hother m hmn).trans hm, hkeeps m f' k hmn hhas⟩

/-- A socket that a function or a caller has, or had, is closed. -/
theorem Inv.drop (h : Inv covers w x) {o : Owner} (hn : w.made n = some (f, o)) (ho : ∀ j, o = .thread j → x = some j) :
    Inv covers { w with socks := w.socks.drop n, made := Function.update w.made n (some (f, .nobody)) } x := by
  have hclosed : w.socks.drop n n = none := Function.update_self ..
  refine h.frame (o := .nobody) (.inr ⟨o, hn, ho⟩) rfl nofun (fun m hm => Function.update_of_ne hm ..) rfl ?_ ?_ nofun
  · exact iff_of_false (fun hne => hne hclosed) fun hne => hne rfl
  · intro s hs
    cases hclosed.symm.trans hs

end Frame

/-! ## Calls -/

section Calls

variable {covers : Host → Host → Prop} {w : World} {i n k : Nat} {f : Factory} {g : Phase} {q : Call} {r : Answer q}
variable {socks : Socks} {s : Sock} {st : SockState}

/-- The function of the thread `i` is in the phase `g`, and the others are where they are. -/
structure Mid (covers : Host → Host → Prop) (w : World) (i : Nat) (f : Factory) (g : Phase) : Prop where
  others : Inv covers w (some i)
  phase : w.At covers i f g

/-- A call that makes nothing leaves a function with the socket that it has. -/
theorem Mid.rephase (h : Mid covers w i f g) {g' : Phase} (hfd : g'.fd = g.fd) (hg : ∀ n k, g' ≠ .opened n k) :
    Mid covers w i f g' := by
  refine ⟨h.others, fun n f' => ?_, fun n k hn => absurd hn (hg n k)⟩
  rw [hfd]
  exact h.phase.owns n f'

theorem Mid.opened (h : Mid covers w i f .start) (hn : w.made n = none) :
    Mid covers { w with
      socks := w.socks.set n ⟨f.ask.domain, f.kind.type, .unbound⟩
      made := Function.update w.made n (some (f, .thread i)) } i f (.opened n 0) := by
  let s : Sock := ⟨f.ask.domain, f.kind.type, .unbound⟩
  have hself : w.socks.set n s n = some s := Function.update_self ..
  have hhas : World.Has covers { w with
      socks := w.socks.set n s, made := Function.update w.made n (some (f, .thread i)) } f n 0 :=
    ⟨s, hself, rfl, rfl, by rw [Kind.Reached]⟩
  refine ⟨?_, fun m f' => ?_, ?_⟩
  · refine h.others.frame (o := .thread i) (.inl hn) rfl (fun j hj => by cases hj; rfl)
      (fun m hm => Function.update_of_ne hm ..) rfl (iff_of_true (fun hnone => ?_) nofun) (fun _ _ => ⟨0, hhas⟩) nofun
    cases hself.symm.trans hnone
  · constructor
    · intro hm
      rcases update_eq_some hm with ⟨rfl, heq⟩ | ⟨-, hm⟩
      · cases heq
        exact ⟨rfl, rfl⟩
      · obtain ⟨hfd, -⟩ := (h.phase.owns m f').1 hm
        cases hfd
    · rintro ⟨hfd, rfl⟩
      cases hfd
      exact Function.update_self ..
  · rintro m l hm
    cases hm
    exact ⟨Nat.zero_le _, hhas⟩

/-- A call on the socket of a function makes it what the function has after one call more. -/
theorem Mid.advance (h : Mid covers w i f (.opened n k)) (hs : w.socks n = some s) (hk : k + 1 ≤ f.kind.steps)
    (hst : f.kind.Reached covers w.maker f.ask.endpoint (k + 1) st) :
    Mid covers { w with socks := w.socks.set n { s with state := st } } i f (.opened n (k + 1)) := by
  have hmade : w.made n = some (f, .thread i) := (h.phase.owns n f).2 ⟨rfl, rfl⟩
  have hself : w.socks.set n { s with state := st } n = some { s with state := st } := Function.update_self ..
  obtain ⟨-, s', hs', hdomain, htype, -⟩ := h.phase.has n k rfl
  cases hs.symm.trans hs'
  have hhas : World.Has covers { w with socks := w.socks.set n { s with state := st } } f n (k + 1) :=
    ⟨{ s with state := st }, hself, hdomain, htype, hst⟩
  refine ⟨?_, h.phase.owns, ?_⟩
  · refine h.others.frame (o := .thread i) (.inr ⟨_, hmade, fun j hj => by cases hj; rfl⟩) ?_
      (fun j hj => by cases hj; rfl) (fun m hm => Function.update_of_ne hm ..) rfl
      (iff_of_true (fun hnone => ?_) nofun) (fun _ _ => ⟨k + 1, hhas⟩) nofun
    · exact (Function.update_eq_self_iff.2 hmade.symm).symm
    · cases hself.symm.trans hnone
  · rintro m l hm
    cases hm
    exact ⟨hk, hhas⟩

theorem Mid.closed (h : Mid covers w i f (.closing n)) :
    Mid covers { w with socks := w.socks.drop n, made := Function.update w.made n (some (f, .nobody)) } i f
      .finished := by
  have hmade : w.made n = some (f, .thread i) := (h.phase.owns n f).2 ⟨rfl, rfl⟩
  refine ⟨h.others.drop hmade fun j hj => by cases hj; rfl, fun m f' => ?_, nofun⟩
  refine iff_of_false (fun hm => ?_) nofun
  rcases update_eq_some hm with ⟨-, heq⟩ | ⟨hmn, hm⟩
  · cases heq
  · obtain ⟨hfd, -⟩ := (h.phase.owns m f').1 hm
    cases hfd
    exact hmn rfl

/-- The socket is connected to one that a `server` made. -/
theorem Mid.connected (h : Mid covers w i f (.opened n 0)) (hf : f.kind = .tcpClient) (hs : w.socks n = some s)
    {peer : Nat} {p : Sock} {e : Endpoint} (hpeer : w.socks peer = some p) (hlistening : p.state = .bound e true)
    (hport : e.port = f.ask.endpoint.port) (hhost : covers e.host f.ask.endpoint.host) :
    Mid covers { w with socks := w.socks.set n { s with state := .connected peer } } i f (.opened n 1) := by
  obtain ⟨f', o, k, hmade, p', hp', -, -, hreached⟩ := h.others.reached peer p hpeer
  cases hpeer.symm.trans hp'
  rw [hlistening] at hreached
  obtain ⟨⟨b, hb⟩, hhost', hport'⟩ := reached_listening hreached
  refine h.advance hs (by rw [hf]; exact Nat.le_refl 1) ?_
  rw [hf]
  refine ⟨peer, f', b, rfl, by rw [World.maker, hmade]; rfl, hb, hhost' ▸ hhost, fun hne => ?_⟩
  rw [← hport, hport' hne]

theorem call_mid (h : Mid covers w i f g) (hq : f.Allows g q)
    (hg : Gives covers (fun n => w.made n = none) w.socks q r socks) :
    Mid covers (({ w with socks := socks } : World).note i f q r) i f (g.next q r) := by
  cases hq with
  | socket =>
    cases hg with
    | socket new => exact h.opened new
    | fails e stays => exact h.rephase rfl nofun
  | close n =>
    cases hg with
    | close r => exact h.closed
    | fails e stays => exact absurd rfl (stays n)
  | use wants =>
    obtain ⟨kind, ask⟩ := f
    cases wants with
    | connect address =>
      cases hg with
      | connect m sock unbound address' server type listening port host =>
        cases address.symm.trans address'
        exact h.connected rfl sock server listening port host
      | fails e stays => exact h.rephase rfl nofun
    | bind address =>
      cases hg with
      | bind m sock unbound address' bindable =>
        cases address.symm.trans address'
        exact h.advance sock (Nat.le_succ 1) ⟨_, rfl, bindable⟩
      | fails e stays => exact h.rephase rfl nofun
    | listen backlog =>
      cases hg with
      | listen m sock bound =>
        obtain ⟨-, s', hs', -, -, hreached⟩ := h.phase.has _ _ rfl
        cases sock.symm.trans hs'
        rw [bound] at hreached
        exact h.advance sock (Nat.le_refl 2) (reached_listen hreached)
      | fails e stays => exact h.rephase rfl nofun
    | bindUdp address =>
      cases hg with
      | bind m sock unbound address' bindable =>
        cases address.symm.trans address'
        exact h.advance sock (Nat.le_refl 1) ⟨_, rfl, bindable⟩
      | fails e stays => exact h.rephase rfl nofun

end Calls

/-! ## Runs -/

section Runs

variable {covers : Host → Host → Prop} {w w' : World} {act : Act} {i : Nat} {f : Factory} {g : Phase} {p : Rest}

theorem Inv.mid (h : Inv covers w none) (hat : w.At covers i f g) : Mid covers w i f g where
  others := ⟨fun j _ => h.idle j nofun, fun j f p _ => h.busy j f p nofun, h.caller, h.socks, h.reached⟩
  phase := hat

theorem Inv.start (h : Inv covers w none) (hi : w.busy i = none) : w.At covers i f .start := by
  refine ⟨fun n f' => iff_of_false (h.idle i nofun hi n f') ?_, nofun⟩
  rintro ⟨hfd, -⟩
  cases hfd

theorem Mid.suspended (h : Mid covers w i f g) (hp : f.Follows g p) :
    Inv covers { w with busy := Function.update w.busy i (some (f, p)) } none := by
  refine ⟨fun j _ hj => ?_, fun j f' p' _ hj => ?_, h.others.caller, h.others.socks, h.others.reached⟩
  · have hne : j ≠ i := by
      rintro rfl
      cases (Function.update_self ..).symm.trans hj
    exact h.others.idle j (fun heq => hne (Option.some.inj heq).symm) ((Function.update_of_ne hne ..).symm.trans hj)
  · rcases update_eq_some hj with ⟨rfl, heq⟩ | ⟨hne, hj⟩
    · cases heq
      exact ⟨g, hp, h.phase.owns, h.phase.has⟩
    · obtain ⟨g', hfollows, hat⟩ := h.others.busy j f' p' (fun heq => hne (Option.some.inj heq).symm) hj
      exact ⟨g', hfollows, hat.owns, hat.has⟩

/-- A function that ends has no socket any more. -/
theorem Mid.ended (h : Mid covers w i f .finished) : Inv covers { w with busy := Function.update w.busy i none } none := by
  refine ⟨fun j _ hj => ?_, fun j f' p' _ hj => ?_, h.others.caller, h.others.socks, h.others.reached⟩
  · by_cases hji : j = i
    · subst hji
      intro n f' hn
      cases ((h.phase.owns n f').1 hn).1
    · exact h.others.idle j (fun heq => hji (Option.some.inj heq).symm) ((Function.update_of_ne hji ..).symm.trans hj)
  · obtain ⟨hne, hj⟩ := update_none_eq_some hj
    obtain ⟨g', hfollows, hat⟩ := h.others.busy j f' p' (fun heq => hne (Option.some.inj heq).symm) hj
    exact ⟨g', hfollows, hat.owns, hat.has⟩

/-- The socket of a function at its end goes to the caller. -/
theorem Mid.returned {n : Nat} (h : Mid covers w i f (.opened n f.kind.steps)) :
    Mid covers { w with made := Function.update w.made n (some (f, .caller)) } i f .finished := by
  have hmade : w.made n = some (f, .thread i) := (h.phase.owns n f).2 ⟨rfl, rfl⟩
  obtain ⟨-, hhas⟩ := h.phase.has n _ rfl
  have hhas' : World.Has covers { w with made := Function.update w.made n (some (f, .caller)) } f n f.kind.steps :=
    has_mono (w := w) (maker_mono (.inr ⟨_, hmade⟩) rfl) rfl hhas
  refine ⟨?_, fun m f' => ?_, nofun⟩
  · refine h.others.frame (o := .caller) (.inr ⟨_, hmade, fun j hj => by cases hj; rfl⟩) rfl nofun
      (fun _ _ => rfl) rfl ?_ (fun _ _ => ⟨_, hhas'⟩) fun _ => hhas'
    exact iff_of_true ((h.others.socks n).2 ⟨f, _, hmade, nofun⟩) nofun
  · refine iff_of_false (fun hm => ?_) nofun
    rcases update_eq_some hm with ⟨-, heq⟩ | ⟨hmn, hm⟩
    · cases heq
    · obtain ⟨hfd, -⟩ := (h.phase.owns m f').1 hm
      cases hfd
      exact hmn rfl

theorem proceed_inv (h : Mid covers w i f g) (hp : f.Follows g p) : Inv covers (w.proceed i f p) none := by
  match p, hp with
  | .ask q k, hp => exact h.suspended hp
  | .ret (.ok n, _), hp =>
    obtain rfl : g = .opened n f.kind.steps := hp
    exact h.returned.ended
  | .ret (.error e, _), hp =>
    obtain rfl : g = .finished := hp
    exact h.ended

theorem step_inv (h : Step covers w act w') (hw : Inv covers w none) : Inv covers w' none := by
  cases h with
  | enter f junk junk6 idle =>
    exact proceed_inv (hw.mid (hw.start idle)) (exec_follows f junk junk6)
  | call busy gives =>
    obtain ⟨g, ⟨hq, hrest⟩, hat⟩ := hw.busy _ _ _ nofun busy
    exact proceed_inv (call_mid (hw.mid hat) hq gives) (hrest _)
  | dispose has => exact hw.drop has nofun

theorem init_inv (covers : Host → Host → Prop) : Inv covers .init none := by
  refine ⟨nofun, nofun, nofun, fun n => iff_of_false (fun h => h rfl) ?_, nofun⟩
  rintro ⟨f, o, h, -⟩
  cases h

/-- In any order of the calls of any number of functions, whichever of them fail, a socket is open exactly if
a caller has it or a function that is under way, which has no other. A socket that a caller has is of
the family and the type that were asked for. One of a `server` is bound to the address and the port that were
asked for, and listens if it is one of `tcp_socket`. One of `client` is connected to a socket that a `server`
of `tcp_socket` made, for an address that covers the one asked for and for its port, or for any. -/
theorem sockets_delivered {r : List (Act × World)} (h : Run.Chain (Step covers) .init r) : Run.Always (fun w =>
      (∀ n, w.socks n ≠ none ↔ ∃ f, w.made n = some (f, .caller) ∨ ∃ i, w.made n = some (f, .thread i)) ∧
      (∀ n f i, w.made n = some (f, .thread i) →
        (∃ p, w.busy i = some (f, p)) ∧ ∀ n' f', w.made n' = some (f', .thread i) → n' = n) ∧
      ∀ n f, w.made n = some (f, .caller) → w.Has covers f n f.kind.steps) .init r := by
  refine (h.always (fun w act w' hstep _ hw => step_inv hstep hw) h (init_inv covers)).imp fun w hw => ?_
  refine ⟨fun n => (hw.socks n).trans ⟨?_, ?_⟩, fun n f i hn => ?_, hw.caller⟩
  · rintro ⟨f, o, hn, hne⟩
    cases o with
    | thread i => exact ⟨f, .inr ⟨i, hn⟩⟩
    | caller => exact ⟨f, .inl hn⟩
    | nobody => exact absurd rfl hne
  · rintro ⟨f, hn | ⟨i, hn⟩⟩
    · exact ⟨f, _, hn, nofun⟩
    · exact ⟨f, _, hn, nofun⟩
  · cases hbusy : w.busy i with
    | none => exact absurd hn (hw.idle i nofun hbusy n f)
    | some x =>
      obtain ⟨f₀, p⟩ := x
      obtain ⟨g, -, hat⟩ := hw.busy i f₀ p nofun hbusy
      obtain ⟨hfd, rfl⟩ := (hat.owns n f).1 hn
      refine ⟨⟨p, rfl⟩, fun n' f' hn' => ?_⟩
      exact Option.some.inj (((hat.owns n' f').1 hn').1.symm.trans hfd)

end Runs

/-- A server at the port 80 of 127.0.0.1, and a client of it whose calls are made while the server is. -/
theorem client_chain : ∃ r : List (Act × World), Run.Chain (Step Eq) .init r ∧
    (Run.last .init r).made 1 = some (⟨.tcpClient, .inet 0x7F000001 80⟩, .caller) := by
  let junk : SockaddrIn := ⟨List.replicate 16 0xAA, rfl⟩
  let junk6 : SockaddrIn6 := ⟨List.replicate 28 0xAA, rfl⟩
  have haddr := endpoint_sockaddrIn junk 0x7F000001 80
  refine ⟨[(_, _), (_, _), (_, _), (_, _), (_, _), (_, _), (_, _)],
    ⟨.enter (i := 0) ⟨.tcpServer 5, .inet 0x7F000001 80⟩ junk junk6 rfl, .call (i := 0) rfl (.socket (n := 0) rfl),
    .call (i := 0) rfl (.bind 0 rfl rfl haddr ⟨rfl, fun _ => rfl⟩),
    .enter (i := 1) ⟨.tcpClient, .inet 0x7F000001 80⟩ junk junk6 rfl, .call (i := 1) rfl (.socket (n := 1) rfl),
    .call (i := 0) rfl (.listen 0 rfl rfl),
    .call (i := 1) rfl (.connect (n := 0) 0 rfl rfl haddr rfl rfl rfl rfl rfl), trivial⟩, rfl⟩

theorem sockets_delivered_client : ∃ r : List (Act × World),
    (Run.last .init r).made 1 = some (⟨.tcpClient, .inet 0x7F000001 80⟩, .caller) ∧
    (Run.last .init r).Has Eq ⟨.tcpClient, .inet 0x7F000001 80⟩ 1 1 := by
  obtain ⟨r, hchain, hmade⟩ := client_chain
  exact ⟨r, hmade, (Run.last_of_always (sockets_delivered hchain)).2.2 1 _ hmade⟩

end Fdcpp.Inet
