import AnimateServer.Model.MainLoop

/-!
# The client request handler of `main` (`server/src/animate_server.c`)

`MainLoop.step` takes the loop over the client slots apart, into turns between steps of the
workers. Here is the loop itself, a function of what it meets: what its calls of
`read_until_delim` return and what the workers do meanwhile.
-/

namespace AnimateServer

open CLib

inductive WorkerLbl where
  | dequeue (worker : Nat)
  | finish (worker : Nat) (env : Env)

/-- One call of `read_until_delim`: what the workers have done until it returns, what it
returns, the request in its buffer, and the outcome of the `malloc` in `task_enqueue` should
the request come to that. -/
structure ReadCall where
  workers : List WorkerLbl
  ret : ErrType
  request : CStr
  alloc : Bool

/-- One turn of the loop: `RUNNING` when it is tested, what the workers have done until then,
and the calls of `read_until_delim` that the turn can make. -/
structure HandlerTurn where
  running : Bool
  workers : List WorkerLbl
  call : Nat → ReadCall

/-- A client slot: the two arrays at one index. -/
structure ClientSlot where
  pfd : PollFd
  client : ClientRef
deriving DecidableEq, Repr

namespace Server

/-- The workers take these steps. A step that is not possible is not taken. -/
def meanwhile (cfg : Config) : List WorkerLbl → Server → Server
  | [], s => s
  | .dequeue w :: rest, s => meanwhile cfg rest ((s.dequeue w).getD s)
  | .finish w env :: rest, s => meanwhile cfg rest ((s.finish cfg w env).getD s)

/-- `for (int req = 0; req < FIFO_MAX_PER_WAKE; req++)`, with `n` turns to go: whether the
client is to be removed. -/
def requestLoop (cfg : Config) (call : Nat → ReadCall) (client : ClientRef) :
    Nat → Server → Bool × Server
  | 0, s => (false, s)
  | n + 1, s =>
    let c := call (FIFO_MAX_PER_WAKE - (n + 1))
    let s := s.meanwhile cfg c.workers
    match c.ret with
    | .SUCCESS =>
      let (removeClient, s) := s.handleCommand c.alloc client c.request
      if removeClient then (true, s) else requestLoop cfg call client n s
    | .PIPE_EMPTY => (false, s)
    | .PIPE_CLOSED | .PIPE_READ_FAIL => (true, s)
    | _ => requestLoop cfg call client n s

/-- The body of the loop up to the test of `to_remove`. -/
def serveSlot (cfg : Config) (call : Nat → ReadCall) (slot : ClientSlot) (s : Server) :
    Bool × Server :=
  if slot.pfd.revents.failed then (true, s)
  else if slot.pfd.revents.readable then s.requestLoop cfg call slot.client FIFO_MAX_PER_WAKE
  else (false, s)

/-- `for (size_t i = 2; RUNNING && i < S_POLL_FD_COUNT;)` from index `i` and turn `t` on, for at
most `fuel` tests of its condition: the slots it was at, each with `to_remove`. There is no
result when the fuel runs out or the slot has no client. -/
def clientHandler (cfg : Config) (turn : Nat → HandlerTurn) :
    Nat → Nat → Nat → Server → Option (List (ClientSlot × Bool) × Server)
  | 0, _, _, _ => none
  | fuel + 1, t, i, s =>
    let s := s.meanwhile cfg (turn t).workers
    if (turn t).running ∧ i < s.slots.count then
      match s.slots.clients i with
      | none => none
      | some client =>
        let slot : ClientSlot := ⟨s.slots.pfds i, client⟩
        let (toRemove, s) := s.serveSlot cfg (turn t).call slot
        let next :=
          if !toRemove then clientHandler cfg turn fuel (t + 1) (i + 1) s
          else clientHandler cfg turn fuel (t + 1) i
            ((s.removeSlot slot.pfd.fd).cregRemove client)
        next.map fun (met, s) => ((slot, toRemove) :: met, s)
    else some ([], s)

end Server

end AnimateServer
