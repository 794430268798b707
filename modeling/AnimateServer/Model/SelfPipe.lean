import AnimateServer.Lib.Transition
import AnimateServer.Model.Fifo

/-!
# The self pipes (`server/src/s_helper.c`, `misc/src/fifo.c`)

`sigusr1_handler` and the workers put records of one size into a pipe, each with one `write`,
and the main loop takes them out with `read_nonblock_pipe`. Both ends are in `O_NONBLOCK` and
open as long as the server runs. Each system call is a step: records can arrive between two
reads of one call of `read_nonblock_pipe`, and a read can be interrupted or come short.
-/

namespace AnimateServer

/-- How a turn of the loop of `read_nonblock_pipe` ends: with a `return`, or with what is in the
buffer and left in the pipe for the next turn. -/
inductive ReadTurn (β : Type) where
  | returns (ret : ErrType)
  | goesOn (buf pipe : List β)
deriving DecidableEq, Repr

/-- The body of the loop, behind `read`; `none` for a count that `read` cannot return. -/
def readTurn {β : Type} (nTarget : Nat) (buf pipe : List β) : ReadCount → Option (ReadTurn β)
  | .got 0 => some (.returns .PIPE_CLOSED)
  | .got (n + 1) =>
    if n + 1 ≤ nTarget - buf.length ∧ n + 1 ≤ pipe.length then
      some (.goesOn (buf ++ pipe.take (n + 1)) (pipe.drop (n + 1)))
    else none
  | .errno .EINTR => some (.goesOn buf pipe)
  | .errno .EAGAIN => some (.returns (if buf.length = 0 then .PIPE_EMPTY else .PIPE_PARTIAL))
  | .errno _ => some (.returns .PIPE_READ_FAIL)

/-- A self pipe: the bytes in it, and the buffer of the call of `read_nonblock_pipe` under way.
The rest is history, oldest entry first: the records written, those that the pipe had no room
for, those that the main loop has got, and what its calls have returned. -/
structure SelfPipe (β : Type) where
  bytes : List β
  call : Option (List β)
  sent : List (List β)
  refused : List (List β)
  received : List (List β)
  returned : List ErrType

inductive SelfPipeLbl (β : Type) where
  /-- `write(HSK_W, &client_pid, sizeof(pid_t))`, or that of a result to `RPC_W`. -/
  | write (record : List β)
  /-- The main loop calls `read_nonblock_pipe`. -/
  | call
  /-- The next `read` of the call. -/
  | read (res : ReadCount)
  /-- The loop ends, with all bytes there. -/
  | ret

namespace SelfPipe

variable {β : Type}

def init : SelfPipe β where
  bytes := []
  call := none
  sent := []
  refused := []
  received := []
  returned := []

/-- What the kernel can answer to a `read`. The other end is open, and a pipe with bytes in it
does not block. -/
def permits (s : SelfPipe β) : ReadCount → Bool
  | .got 0 => false
  | .got (_ + 1) | .errno .EINTR => true
  | .errno .EAGAIN => s.bytes.isEmpty
  | .errno _ => false

/-- A write of at most `PIPE_BUF` bytes is all or nothing. -/
def write (cap : Nat) (record : List β) (s : SelfPipe β) : SelfPipe β :=
  if s.bytes.length + record.length ≤ cap then
    { s with bytes := s.bytes ++ record, sent := s.sent ++ [record] }
  else { s with refused := s.refused ++ [record] }

/-- The next turn of the call under way. -/
def turn (size : Nat) (res : ReadCount) (buf : List β) (s : SelfPipe β) : Option (SelfPipe β) :=
  match readTurn size buf s.bytes res with
  | some (.returns ret) => some { s with call := none, returned := s.returned ++ [ret] }
  | some (.goesOn buf bytes) => some { s with bytes, call := some buf }
  | none => none

/-- Records of `size` bytes, in a pipe with room for `cap` bytes. -/
def step (size cap : Nat) : SelfPipeLbl β → SelfPipe β → Option (SelfPipe β)
  | .write record, s => if record.length = size then some (s.write cap record) else none
  | .call, s =>
    match s.call with
    | none => some { s with call := some [] }
    | some _ => none
  | .read res, s =>
    match s.call with
    | some buf => if buf.length < size ∧ s.permits res then s.turn size res buf else none
    | none => none
  | .ret, s =>
    match s.call with
    | some buf =>
      if size ≤ buf.length then
        some { s with
          call := none
          received := s.received ++ [buf]
          returned := s.returned ++ [.SUCCESS] }
      else none
    | none => none

/-- The two ends in any order. -/
abbrev system (size cap : Nat) : Transition.LTS (SelfPipe β) (SelfPipeLbl β) :=
  Transition.ofStep init (step size cap)

end SelfPipe

end AnimateServer
