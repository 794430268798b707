import AnimateServer.Lib.CLib

/-!
# Enumerations and limits

The enumerations of `misc/include/errors.h`, `misc/include/fifo.h` and
`server/include/task.h`, and the numeric limits the server compiles in.
-/

namespace AnimateServer

open CLib

/-- `ErrType`. -/
inductive ErrType where
  | SUCCESS
  | FAIL
  | TOO_FEW
  | TOO_MANY
  | USERTXT_FAIL
  | TIMEDOUT
  | POOL_FAIL
  | INV_ARG
  | SIG_FAIL
  | TQ_FAIL
  | CR_FAIL
  | PIPE_FAIL
  | PIPE_READ_FAIL
  | PIPE_WRITE_FAIL
  | PIPE_EMPTY
  | PIPE_FULL
  | PIPE_CLOSED
  | PIPE_PARTIAL
  | POLLFD_FAIL
  | GROW_FAIL
deriving DecidableEq, Repr

/-- `TaskType`. -/
inductive TaskType where
  | HANDSHAKE
  | AUTHORISE
  | CREATE_CANVAS
  | DESTROY_CANVAS
  | CREATE_SPRITE
  | CREATE_RECTANGLE
  | CREATE_CIRCLE
  | DESTROY_SPRITE
  | PLACE_SPRITE
  | PLACEMENT_UP
  | PLACEMENT_DOWN
  | PLACEMENT_TOP
  | PLACEMENT_BOTTOM
  | DESTROY_PLACEMENT
  | SET_ANIM_PARAM
  | GENERATE
  | SHARE
  | BARRIER
deriving DecidableEq, Repr

/-! ## Limits -/

def FIFO_MAX_NAME : Nat := 64
def MAX_USERNAME_LEN : Nat := 32
def MAX_RPC_BUF_LEN : Nat := 128
def MAX_UTXT_LINEBUF_LEN : Nat := 64
def MAX_FILENAME_LEN : Nat := 128
def MAX_PATH_LEN : Nat := 256
def COMMAND_LEN : Nat := 1024
def MAX_CLIENTS : Nat := 64
def INITIAL_CAPACITY : Int := 64
def POLLFD_INIT_N : Nat := 32
def HSK_MAX_PER_WAKE : Nat := 5
def RPC_MAX_PER_WAKE : Nat := 5
def FIFO_MAX_PER_WAKE : Nat := 5

/-! ## Pointers -/

/-- A pointer to an `ActiveClient`: the ordinal of the `malloc` that made it.
Ordinals are never reused, so an access through a stale pointer is not mistaken
for an access to a newer client at the same address. -/
abbrev ClientRef := Nat

/-- A non-null pointer returned by libanimate. -/
abbrev Handle := Nat

def SIZE_MAX : Nat := 18446744073709551615

/-- `--n` on a `size_t`, which wraps around below zero. -/
def decr (n : Nat) : Nat := if n = 0 then SIZE_MAX else n - 1

@[simp] theorem decr_succ (n : Nat) : decr (n + 1) = n := by
  simp [decr]

end AnimateServer
