/-
The functions of `tcp_socket` and `udp_socket` that make a connected or bound socket: the `sockaddr_in` and
`sockaddr_in6` that they fill, in memory that is not initialised, and their system calls. The socket is a
local variable, so that an exception of a later call closes it.
-/
import Fdcpp.Buffered.Codec
import Fdcpp.Lib.Prog
import Fdcpp.Util.Throw

namespace Fdcpp.Inet

open Bytes

/-! ## Addresses -/

def AF_INET : Nat := 2
def AF_INET6 : Nat := 10

abbrev htons (v : UInt16) : UInt16 := Buffered.htobe16 v

abbrev htonl (v : UInt32) : UInt32 := Buffered.htobe32 v

/-- A `struct sockaddr_in`: the family, the port, the address, and `sin_zero`. -/
abbrev SockaddrIn : Type := Block 16

/-- A `struct sockaddr_in6`: the family, the port, `sin6_flowinfo`, the address, and `sin6_scope_id`. -/
abbrev SockaddrIn6 : Type := Block 28

/-- The `saddr` of the functions with an IPv4 address. -/
def sockaddrIn (junk : SockaddrIn) (addr : UInt32) (port : UInt16) : SockaddrIn :=
  ((junk.store 0 (toLE 2 AF_INET) (by simp)).store 4 (toLE 4 (htonl addr).toNat) (by simp)).store 2
    (toLE 2 (htons port).toNat) (by simp)

/-- The `saddr` of the functions with an IPv6 address. -/
def sockaddrIn6 (junk : SockaddrIn6) (addr : Block 16) (port : UInt16) : SockaddrIn6 :=
  ((((junk.store 0 (toLE 2 AF_INET6) (by simp)).store 8 addr.val (by rw [addr.property]; omega)).store 2
    (toLE 2 (htons port).toNat) (by simp)).store 4 (toLE 4 0) (by simp)).store 24 (toLE 4 0) (by simp)

/-- An address, without the port. -/
inductive Host
  | v4 (addr : UInt32)
  | v6 (addr : List UInt8) (flowinfo scope : Nat)
  deriving DecidableEq

structure Endpoint where
  host : Host
  port : UInt16
  deriving DecidableEq

/-- The endpoint that the kernel finds in an address. -/
def endpoint? (a : List UInt8) : Option Endpoint :=
  if a.length = 16 ∧ ofLE (slice a 0 2) = AF_INET then
    some ⟨.v4 (.ofNat (ofBE (slice a 4 4))), .ofNat (ofBE (slice a 2 2))⟩
  else if a.length = 28 ∧ ofLE (slice a 0 2) = AF_INET6 then
    some ⟨.v6 (slice a 8 16) (ofBE (slice a 4 4)) (ofLE (slice a 24 4)), .ofNat (ofBE (slice a 2 2))⟩
  else none

section Addresses

theorem ofBE_htons (port : UInt16) : UInt16.ofNat (ofBE (toLE 2 (htons port).toNat)) = port := by
  have hlt : port.toNat < 256 ^ 2 := port.toNat_lt
  rw [Buffered.toLE_htobe16, ofBE_toBE, Nat.mod_eq_of_lt hlt, UInt16.ofNat_toNat]

theorem ofBE_htonl (addr : UInt32) : UInt32.ofNat (ofBE (toLE 4 (htonl addr).toNat)) = addr := by
  have hlt : addr.toNat < 256 ^ 4 := addr.toNat_lt
  rw [Buffered.toLE_htobe32, ofBE_toBE, Nat.mod_eq_of_lt hlt, UInt32.ofNat_toNat]

/-- Whatever is in the memory before, the address is that of the arguments. -/
theorem endpoint_sockaddrIn (junk : SockaddrIn) (addr : UInt32) (port : UInt16) :
    endpoint? (sockaddrIn junk addr port).val = some ⟨.v4 addr, port⟩ := by
  have hfamily : slice (sockaddrIn junk addr port).val 0 2 = toLE 2 AF_INET := by
    rw [sockaddrIn, Block.slice_store_of_disjoint _ _ (by simp), Block.slice_store_of_disjoint _ _ (by simp)]
    exact Block.slice_store_self _ _ (length_toLE ..)
  have haddr : slice (sockaddrIn junk addr port).val 4 4 = toLE 4 (htonl addr).toNat := by
    rw [sockaddrIn, Block.slice_store_of_disjoint _ _ (by simp)]
    exact Block.slice_store_self _ _ (length_toLE ..)
  have hport : slice (sockaddrIn junk addr port).val 2 2 = toLE 2 (htons port).toNat :=
    Block.slice_store_self _ _ (length_toLE ..)
  rw [endpoint?, hfamily, haddr, hport, if_pos ⟨(sockaddrIn junk addr port).property, rfl⟩, ofBE_htons, ofBE_htonl]

theorem endpoint_sockaddrIn6 (junk : SockaddrIn6) (addr : Block 16) (port : UInt16) :
    endpoint? (sockaddrIn6 junk addr port).val = some ⟨.v6 addr.val 0 0, port⟩ := by
  have hfamily : slice (sockaddrIn6 junk addr port).val 0 2 = toLE 2 AF_INET6 := by
    rw [sockaddrIn6, Block.slice_store_of_disjoint _ _ (by simp), Block.slice_store_of_disjoint _ _ (by simp),
      Block.slice_store_of_disjoint _ _ (by simp), Block.slice_store_of_disjoint _ _ (by simp)]
    exact Block.slice_store_self _ _ (length_toLE ..)
  have haddr : slice (sockaddrIn6 junk addr port).val 8 16 = addr.val := by
    rw [sockaddrIn6, Block.slice_store_of_disjoint _ _ (by simp), Block.slice_store_of_disjoint _ _ (by simp),
      Block.slice_store_of_disjoint _ _ (by simp)]
    exact Block.slice_store_self _ _ addr.property
  have hport : slice (sockaddrIn6 junk addr port).val 2 2 = toLE 2 (htons port).toNat := by
    rw [sockaddrIn6, Block.slice_store_of_disjoint _ _ (by simp), Block.slice_store_of_disjoint _ _ (by simp)]
    exact Block.slice_store_self _ _ (length_toLE ..)
  have hflow : slice (sockaddrIn6 junk addr port).val 4 4 = toLE 4 0 := by
    rw [sockaddrIn6, Block.slice_store_of_disjoint _ _ (by simp)]
    exact Block.slice_store_self _ _ (length_toLE ..)
  have hscope : slice (sockaddrIn6 junk addr port).val 24 4 = toLE 4 0 := Block.slice_store_self _ _ (length_toLE ..)
  have hsize : (sockaddrIn6 junk addr port).val.length = 28 := (sockaddrIn6 junk addr port).property
  rw [endpoint?, hfamily, haddr, hport, hflow, hscope, if_neg (by rw [hsize]; decide), if_pos ⟨hsize, rfl⟩, ofBE_htons]
  rfl

end Addresses

/-! ## Functions -/

def SOCK_STREAM : Nat := 1
def SOCK_DGRAM : Nat := 2

inductive Call
  | socket (domain type : Nat)
  | connect (fd : Nat) (saddr : List UInt8)
  | bind (fd : Nat) (saddr : List UInt8)
  | listen (fd : Nat) (backlog : Int)
  | close (fd : Nat)
  deriving DecidableEq

abbrev Answer (_ : Call) : Type := Except Errno Nat

abbrev InetM : Type → Type := Eff Call Answer Unit SystemError

/-- A member function of `socket`, with the name that it has in its exception. -/
def checked (func : String) (q : Call) : InetM Nat := do
  match ← (Eff.call q : InetM (Answer q)) with
  | .ok n => pure n
  | .error e => throw (throwSystemError "socket" func e)

/-- A local `socket` that is returned after `use`; an exception destroys it. -/
def withSocket (domain type : Nat) (use : Nat → InetM Unit) : InetM Nat := do
  let fd ← checked "socket()" (.socket domain type)
  tryCatch (use fd) fun e => do
    let _ ← (Eff.call (.close fd) : InetM (Answer (.close fd)))
    throw e
  pure fd

def connect (fd : Nat) (saddr : List UInt8) : InetM Unit := do
  let _ ← checked "connect()" (.connect fd saddr)

def bind (fd : Nat) (saddr : List UInt8) : InetM Unit := do
  let _ ← checked "bind()" (.bind fd saddr)

def listen (fd : Nat) (backlog : Int) : InetM Unit := do
  let _ ← checked "listen()" (.listen fd backlog)

/-- `tcp_socket::client(uint32_t, uint16_t)`. -/
def tcpClient (junk : SockaddrIn) (addr : UInt32) (port : UInt16) : InetM Nat :=
  withSocket AF_INET SOCK_STREAM fun fd => connect fd (sockaddrIn junk addr port).val

/-- `tcp_socket::client(const struct sockaddr_in6 &)`. -/
def tcpClientAt (saddr : SockaddrIn6) : InetM Nat := withSocket AF_INET6 SOCK_STREAM fun fd => connect fd saddr.val

/-- `tcp_socket::client(const struct in6_addr &, uint16_t)`. -/
def tcpClient6 (junk : SockaddrIn6) (addr : Block 16) (port : UInt16) : InetM Nat :=
  tcpClientAt (sockaddrIn6 junk addr port)

/-- `tcp_socket::server(uint32_t, uint16_t, int)`. -/
def tcpServer (junk : SockaddrIn) (addr : UInt32) (port : UInt16) (backlog : Int) : InetM Nat :=
  withSocket AF_INET SOCK_STREAM fun fd => do
    bind fd (sockaddrIn junk addr port).val
    listen fd backlog

/-- `tcp_socket::server(const struct sockaddr_in6 &, int)`. -/
def tcpServerAt (saddr : SockaddrIn6) (backlog : Int) : InetM Nat :=
  withSocket AF_INET6 SOCK_STREAM fun fd => do
    bind fd saddr.val
    listen fd backlog

/-- `tcp_socket::server(const struct in6_addr &, uint16_t, int)`. -/
def tcpServer6 (junk : SockaddrIn6) (addr : Block 16) (port : UInt16) (backlog : Int) : InetM Nat :=
  tcpServerAt (sockaddrIn6 junk addr port) backlog

/-- `udp_socket::server(uint32_t, uint16_t)`. -/
def udpServer (junk : SockaddrIn) (addr : UInt32) (port : UInt16) : InetM Nat :=
  withSocket AF_INET SOCK_DGRAM fun fd => bind fd (sockaddrIn junk addr port).val

/-- `udp_socket::server(const struct sockaddr_in6 &)`. -/
def udpServerAt (saddr : SockaddrIn6) : InetM Nat := withSocket AF_INET6 SOCK_DGRAM fun fd => bind fd saddr.val

/-- `udp_socket::server(const struct in6_addr &, uint16_t)`. -/
def udpServer6 (junk : SockaddrIn6) (addr : Block 16) (port : UInt16) : InetM Nat :=
  udpServerAt (sockaddrIn6 junk addr port)

/-- What a function is for. -/
inductive Kind
  | tcpClient
  | tcpServer (backlog : Int)
  | udpServer

/-- The endpoint that is asked for, in the arguments of the three overloads; the family of a
`struct sockaddr_in6` is `AF_INET6`. -/
inductive Ask
  | inet (addr : UInt32) (port : UInt16)
  | inet6 (addr : Block 16) (port : UInt16)
  | saddr (saddr : SockaddrIn6) (family : ofLE (slice saddr.val 0 2) = AF_INET6)

/-- A call of one of the functions. -/
structure Factory where
  kind : Kind
  ask : Ask

/-- The function, on a stack with these contents. -/
def Factory.exec (junk : SockaddrIn) (junk6 : SockaddrIn6) : Factory → InetM Nat
  | ⟨.tcpClient, .inet addr port⟩ => Inet.tcpClient junk addr port
  | ⟨.tcpClient, .inet6 addr port⟩ => tcpClient6 junk6 addr port
  | ⟨.tcpClient, .saddr saddr _⟩ => tcpClientAt saddr
  | ⟨.tcpServer backlog, .inet addr port⟩ => Inet.tcpServer junk addr port backlog
  | ⟨.tcpServer backlog, .inet6 addr port⟩ => tcpServer6 junk6 addr port backlog
  | ⟨.tcpServer backlog, .saddr saddr _⟩ => tcpServerAt saddr backlog
  | ⟨.udpServer, .inet addr port⟩ => Inet.udpServer junk addr port
  | ⟨.udpServer, .inet6 addr port⟩ => udpServer6 junk6 addr port
  | ⟨.udpServer, .saddr saddr _⟩ => udpServerAt saddr

/-! ## What they have in common -/

namespace Ask

def domain : Ask → Nat
  | .inet .. => AF_INET
  | .inet6 .. | .saddr .. => AF_INET6

def endpoint : Ask → Endpoint
  | .inet addr port => ⟨.v4 addr, port⟩
  | .inet6 addr port => ⟨.v6 addr.val 0 0, port⟩
  | .saddr s _ =>
    ⟨.v6 (slice s.val 8 16) (ofBE (slice s.val 4 4)) (ofLE (slice s.val 24 4)), .ofNat (ofBE (slice s.val 2 2))⟩

/-- The bytes of the address. -/
def bytes (junk : SockaddrIn) (junk6 : SockaddrIn6) : Ask → List UInt8
  | .inet addr port => (sockaddrIn junk addr port).val
  | .inet6 addr port => (sockaddrIn6 junk6 addr port).val
  | .saddr s _ => s.val

theorem endpoint_bytes (junk : SockaddrIn) (junk6 : SockaddrIn6) :
    ∀ a : Ask, endpoint? (a.bytes junk junk6) = some a.endpoint
  | .inet addr port => endpoint_sockaddrIn junk addr port
  | .inet6 addr port => endpoint_sockaddrIn6 junk6 addr port
  | .saddr s family => by
    have hsize := s.property
    rw [bytes, endpoint?, if_neg (by rw [hsize]; rintro ⟨h, -⟩; cases h), if_pos ⟨hsize, family⟩]
    rfl

end Ask

namespace Kind

def type : Kind → Nat
  | tcpClient | tcpServer _ => SOCK_STREAM
  | udpServer => SOCK_DGRAM

/-- What is done with the socket. -/
def use (k : Kind) (saddr : List UInt8) (fd : Nat) : InetM Unit :=
  match k with
  | tcpClient => Inet.connect fd saddr
  | tcpServer backlog => do
    Inet.bind fd saddr
    Inet.listen fd backlog
  | udpServer => Inet.bind fd saddr

/-- How many calls that are. -/
def steps : Kind → Nat
  | tcpClient | udpServer => 1
  | tcpServer _ => 2

end Kind

theorem exec_eq (junk : SockaddrIn) (junk6 : SockaddrIn6) (f : Factory) :
    f.exec junk junk6 = withSocket f.ask.domain f.kind.type (f.kind.use (f.ask.bytes junk junk6)) := by
  obtain ⟨kind, ask⟩ := f
  cases kind <;> cases ask <;> rfl

end Fdcpp.Inet
