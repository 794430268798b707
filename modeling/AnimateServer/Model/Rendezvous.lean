import AnimateServer.Lib.NamedFifo
import AnimateServer.Lib.Transition
import AnimateServer.Model.Fifo
import AnimateServer.Model.Handshake

/-!
# The rendezvous of a client and the server

One client process, from `perform_handshake` on, and what the server does about its pid: the
`HANDSHAKE` case of `worker_routine` (`server/src/threadpool.c`), `HSK_OK` in the main loop,
and `destroy_client_pipes`. Each system call on the two FIFOs is a step. FIFOs with the same
names may be left over from an earlier process with this pid.
-/

namespace AnimateServer

open NamedFifo Transition
open Client (ClientLbl ClientPc Connection)

def MAX_OPEN_RETRIES : Nat := 10

/-- The descriptors at the two FIFOs: `result_c2s_fd` and `result_s2c_fd` of the server,
`S_READ` and `C_WRITE` of the client. -/
inductive FifoFd where
  | c2sFd
  | s2cFd
  | S_READ
  | C_WRITE
deriving DecidableEq, Repr

instance : Fintype FifoFd where
  elems := {.c2sFd, .s2cFd, .S_READ, .C_WRITE}
  complete := fun d => by cases d <;> decide

namespace FifoFd

def fifo : FifoFd → FifoType
  | .c2sFd | .C_WRITE => .C2S
  | .s2cFd | .S_READ => .S2C

def mode : FifoFd → Mode
  | .c2sFd | .S_READ => .read
  | .s2cFd | .C_WRITE => .write

end FifoFd

/-- Where the server is with the pid. -/
inductive HskPc where
  /-- No `SIGUSR1` so far. -/
  | idle
  | queued
  /-- In the `HANDSHAKE` case, at one of its system calls. -/
  | unlinkC2s
  | unlinkS2c
  | mkfifoC2s
  | mkfifoS2c
  | kill
  | openC2s
  /-- At the `open` of the s2c FIFO, behind so many retries. -/
  | openS2c (attempts : Nat)
  | closeC2s
  /-- At `hsk_fail`, at its two calls of `unlink`. -/
  | failC2s
  | failS2c
  | dropped
  /-- At the write of the result. -/
  | post
  /-- The result was not written. -/
  | lost
  /-- `HSK_OK` is in the RPC pipe. -/
  | posted
  /-- The client is in the registry and has a poll slot. -/
  | registered
  /-- In `destroy_client_pipes`, at its four calls. -/
  | closeC2sFd
  | closeS2cFd
  | removeC2s
  | removeS2c
  | gone
deriving DecidableEq, Repr

/-- How many calls the `HANDSHAKE` case and `destroy_client_pipes` make at most between two
places: `unlink`, `umask`, `mkfifo`, `kill`, `open`, `nanosleep`, `close`, the write of the
result, and `fprintf` and `fflush` for the message of `hsk_fail`. -/
def HskPc.calls : HskPc → HskPc → Nat
  -- the dequeue, and what main does
  | .idle, _ | .queued, _ | .posted, _ | .registered, _ => 0
  | .dropped, _ | .lost, _ | .gone, _ => 0
  -- `umask` comes before the first `mkfifo`, and behind the last
  | .mkfifoC2s, .failC2s => 3
  | .mkfifoC2s, _ | .mkfifoS2c, _ => 2
  -- a retry that has found no reader sleeps
  | .openS2c (_ + 1), .post => 1
  | .openS2c (_ + 1), _ => 2
  -- the second `unlink`, then `fprintf` and `fflush`
  | .failS2c, _ => 3
  | _, _ => 1

/-- The client, the two FIFOs and the server. `interrupted` says whether a signal has arrived
since the client's last `open` has begun, `syn` whether the client has sent `SIGUSR1` and the
server has not read it yet. The last two fields are history: the inodes that the worker has
made, and those on which the descriptors have been opened. -/
structure Rendezvous where
  client : Connection
  interrupted : Bool
  fifos : Fifos FifoType FifoFd
  server : HskPc
  syn : Bool
  made : FifoType → Option Nat
  opened : FifoFd → Option Nat

inductive RendezvousLbl where
  /-- A step of the client other than an `open`. -/
  | client (l : ClientLbl)
  /-- The client's next `open` begins, or fails at once. -/
  | openBegins
  | openFails
  /-- An `open` that has waited returns a descriptor, or -1 after a signal. -/
  | openReturns (fd : Nat)
  | openInterrupted
  /-- The pid is read from the handshake pipe and the task enqueued. -/
  | arrives
  /-- The next step of the server, with the outcome of its call. -/
  | server (succeeds : Bool)
deriving DecidableEq, Repr

namespace Rendezvous

/-! ## The client -/

def isOpenFifo : ClientLbl → Bool
  | .openFifo _ => true
  | _ => false

def isDeliver : ClientLbl → Bool
  | .deliver _ => true
  | _ => false

/-- The descriptor that `perform_handshake` is about to open. -/
def opening : ClientPc → Option FifoFd
  | .openRead => some .S_READ
  | .openWrite => some .C_WRITE
  | _ => none

/-- What the client closes by moving on from `pc` to `pc'`. -/
def closes (pc pc' : ClientPc) (f : Fifos FifoType FifoFd) : Fifos FifoType FifoFd :=
  match pc, pc' with
  | _, .joining | _, .exited | _, .killed => (f.close .S_READ).close .C_WRITE
  | .closing, .hskFail => f.close .S_READ
  | _, _ => f

/-- The client moves on without the FIFOs. -/
def clientStep (l : ClientLbl) (s : Rendezvous) : Option Rendezvous :=
  (Connection.step l s.client).map fun c =>
    { s with
      client := c
      interrupted := s.interrupted || isDeliver l
      fifos := closes s.client.pc c.pc s.fifos
      syn := s.syn || l == .kill true }

/-- An `open` of the client returns -1. -/
def openFailed (s : Rendezvous) : Option Rendezvous :=
  (Connection.step (.openFifo none) s.client).map fun c => { s with client := c }

/-- The client begins to open `d`. -/
def beginOpen (d : FifoFd) (s : Rendezvous) : Option Rendezvous :=
  match s.fifos.openBlocking d d.mode d.fifo with
  | some fifos => some { s with fifos, interrupted := false }
  | none => s.openFailed

/-- The client's `open` of `d` returns `fd`. -/
def returnOpen (d : FifoFd) (fd : Nat) (s : Rendezvous) : Option Rendezvous :=
  match s.fifos.finishOpen d, Connection.step (.openFifo (some fd)) s.client with
  | some fifos, some client =>
    some { s with
      client
      fifos
      opened := Function.update s.opened d ((s.fifos.desc d).place?.map Prod.snd) }
  | _, _ => none

/-- The `open` of `d` waits, has met nobody, and a signal has arrived. -/
def Interruptible (d : FifoFd) (s : Rendezvous) : Bool :=
  s.interrupted &&
    match s.fifos.desc d with
    | .waiting _ _ met => !met
    | _ => false

/-! ## The server -/

def goto (pc : HskPc) (s : Rendezvous) : Rendezvous :=
  { s with server := pc }

/-- `mkfifo`, and on to `pc`. -/
def make (succeeds : Bool) (t : FifoType) (pc : HskPc) (s : Rendezvous) : Rendezvous :=
  match if succeeds then s.fifos.mkfifo t else none with
  | some fifos => { s with fifos, made := Function.update s.made t (fifos.dir t) }.goto pc
  | none => s.goto .failC2s

/-- The server has opened `d`. -/
def openedAt (d : FifoFd) (fifos : Fifos FifoType FifoFd) (s : Rendezvous) : Rendezvous :=
  { s with fifos, opened := Function.update s.opened d (s.fifos.dir d.fifo) }

/-- `open(task->task_c2s_name, O_NONBLOCK | O_RDONLY)`. -/
def openC2s (succeeds : Bool) (s : Rendezvous) : Rendezvous :=
  match s.fifos.openNonblock .c2sFd .read .C2S with
  | .ok fifos => if succeeds then (s.openedAt .c2sFd fifos).goto (.openS2c 0) else s.goto .failC2s
  | .error _ => s.goto .failC2s

/-- `open(task->task_s2c_name, O_NONBLOCK | O_WRONLY)`; only `ENXIO` is given another
chance. -/
def openS2c (succeeds : Bool) (attempts : Nat) (s : Rendezvous) : Rendezvous :=
  match s.fifos.openNonblock .s2cFd .write .S2C with
  | .ok fifos => if succeeds then (s.openedAt .s2cFd fifos).goto .post else s.goto .closeC2s
  | .error .noReader =>
    if succeeds ∧ attempts < MAX_OPEN_RETRIES then s.goto (.openS2c (attempts + 1))
    else s.goto .closeC2s
  | .error .noName => s.goto .closeC2s

def serverStep (succeeds : Bool) (s : Rendezvous) : Option Rendezvous :=
  match s.server with
  | .idle | .dropped | .lost | .gone => none
  | .queued => some (s.goto .unlinkC2s)
  | .unlinkC2s => some ({ s with fifos := s.fifos.unlink .C2S }.goto .unlinkS2c)
  | .unlinkS2c => some ({ s with fifos := s.fifos.unlink .S2C }.goto .mkfifoC2s)
  | .mkfifoC2s => some (s.make succeeds .C2S .mkfifoS2c)
  | .mkfifoS2c => some (s.make succeeds .S2C .kill)
  | .kill => some (s.goto (if succeeds then .openC2s else .failC2s))
  | .openC2s => some (s.openC2s succeeds)
  | .openS2c attempts => some (s.openS2c succeeds attempts)
  | .closeC2s => some ({ s with fifos := s.fifos.close .c2sFd }.goto .failC2s)
  | .failC2s => some ({ s with fifos := s.fifos.unlink .C2S }.goto .failS2c)
  | .failS2c => some ({ s with fifos := s.fifos.unlink .S2C }.goto .dropped)
  | .post => some (s.goto (if succeeds then .posted else .lost))
  -- `creg_insert` or `server_insert_pollslots` may fail
  | .posted => some (s.goto (if succeeds then .registered else .closeC2sFd))
  -- the last reference to the client is given back
  | .registered => some (s.goto .closeC2sFd)
  | .closeC2sFd => some ({ s with fifos := s.fifos.close .c2sFd }.goto .closeS2cFd)
  | .closeS2cFd => some ({ s with fifos := s.fifos.close .s2cFd }.goto .removeC2s)
  | .removeC2s => some ({ s with fifos := s.fifos.unlink .C2S }.goto .removeS2c)
  | .removeS2c => some ({ s with fifos := s.fifos.unlink .S2C }.goto .gone)

/-! ## Both -/

def step : RendezvousLbl → Rendezvous → Option Rendezvous
  | .client l, s => if isOpenFifo l then none else s.clientStep l
  | .openBegins, s =>
    match opening s.client.pc with
    | some d => if s.fifos.desc d = .closed then s.beginOpen d else none
    | none => none
  | .openFails, s =>
    match opening s.client.pc with
    | some d => if s.fifos.desc d = .closed then s.openFailed else none
    | none => none
  | .openReturns fd, s =>
    match opening s.client.pc with
    | some d => s.returnOpen d fd
    | none => none
  | .openInterrupted, s =>
    match opening s.client.pc with
    | some d =>
      if s.Interruptible d then { s with fifos := s.fifos.close d }.openFailed else none
    | none => none
  | .arrives, s =>
    if s.syn ∧ s.server = .idle then some { s with syn := false, server := .queued } else none
  | .server succeeds, s => s.serverStep succeeds

/-- Nothing has happened, and nobody has a FIFO open. -/
structure Start (s : Rendezvous) : Prop where
  client : s.client = .init
  server : s.server = .idle
  syn : s.syn = false
  made : s.made = fun _ => none
  opened : s.opened = fun _ => none
  named : ∀ t i, s.fifos.dir t = some i → i < s.fifos.made
  single : ∀ t t' i, s.fifos.dir t = some i → s.fifos.dir t' = some i → t = t'
  closed : ∀ d, s.fifos.desc d = .closed

/-- The client and the server in any order. -/
abbrev system : LTS Rendezvous RendezvousLbl where
  Init := Start
  Next := fun l s s' => step l s = some s'

end Rendezvous

end AnimateServer
