/-
The exceptions of the library: `throw_system_error`, the text it builds from the tag of the class
and the name of the function, and the error numbers the library names (Linux).
-/
import Mathlib.Data.List.Basic

namespace Fdcpp

/-- The values of `errno`. -/
abbrev Errno := Nat

def EBADF : Errno := 9
def EAGAIN : Errno := 11
def EWOULDBLOCK : Errno := 11
def EINVAL : Errno := 22

/-- `make_message`. -/
def makeMessage (tag func : String) : String :=
  (if tag = "" then tag else tag ++ "::") ++ func

/-- A `std::system_error`: its error number, and the `what_arg` it is made with, to which `what()` appends
the text of the error number. -/
structure SystemError where
  code : Errno
  what : String
  deriving DecidableEq, Repr

/-- The exception that `throw_system_error(tag, func, e)` throws. -/
def throwSystemError (tag func : String) (e : Errno) : SystemError := ⟨e, makeMessage tag func⟩

end Fdcpp
