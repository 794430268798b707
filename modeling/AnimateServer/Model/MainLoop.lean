import AnimateServer.Lib.Transition
import AnimateServer.Model.Commands

/-!
# The main loop (`server/src/animate_server.c`)

The handlers of the loop body as steps of the server, next to the steps of the
workers. `Server.step` lets them run in any order; the loop itself, with its
wakes and budgets, comes below.
-/

namespace AnimateServer

open CLib

namespace Server

/-! ## Results -/

/-- The line sent for an `RPC_DONE`. -/
def replyLine (rv : RetVal) : CStr :=
  if rv.c ≠ INT_MIN then
    decimal rv.a ++ " ".toList ++ decimal rv.b ++ " ".toList ++ decimal rv.c ++ "\n".toList
  else if rv.b ≠ INT_MIN then decimal rv.a ++ " ".toList ++ decimal rv.b ++ "\n".toList
  else decimal rv.a ++ "\n".toList

/-- The outcomes of the allocations a handshake makes: `malloc` in `creg_insert`, and the
two calls of `reallocarray` in `server_grow_pollslots`. -/
structure Inserts where
  client : Bool
  pfds : Bool
  clients : Bool
deriving DecidableEq, Repr

/-- `server_remove_pollslots`. -/
def removeSlot (fd : Int) (s : Server) : Server :=
  { s with slots := s.slots.serverRemovePollslots fd }

/-- `AUTH_NO` and `AUTH_UN`. -/
def reject (client : ClientRef) (stamp : Nat) (msg : CStr) (s : Server) : Server :=
  let s := (s.release client).touch client
  let s := s.removeSlot (s.reg.mem client).c2sFd
  let s := s.send client stamp msg
  s.cregRemove client

/-- `HSK_OK`. -/
def handshakeDone (ins : Inserts) (clientPid c2sFd s2cFd : Int) (s : Server) : Server :=
  match s.reg.cregInsert ins.client clientPid c2sFd s2cFd with
  | (none, reg) => { s with reg }
  | (some client, reg) =>
    let (ok, slots) := s.slots.serverInsertPollslots ins.pfds ins.clients c2sFd client
    let s := { s with reg, slots }
    if ok then s else s.cregRemove client

/-- `AUTH_OK`. -/
def authDone (client : ClientRef) (stamp : Nat) (username : CStr) (balance : Int)
    (s : Server) : Server :=
  let s := s.touch client
  let s := s.release client
  let s := s.modify client fun c => { c with username := strncpyBuf MAX_USERNAME_LEN username }
  let s := s.send client stamp (decimal balance ++ "\n".toList)
  s.modify client fun c => { c with loggedIn := true }

/-- The switch on `taskresult.type`. -/
def handleResult (ins : Inserts) (res : TaskResult) (s : Server) : Server :=
  match res.body with
  | .HSK_OK clientPid c2sFd s2cFd => s.handshakeDone ins clientPid c2sFd s2cFd
  | .AUTH_OK client username balance => s.authDone client res.stamp username balance
  | .AUTH_NO client => s.reject client res.stamp MSG_REJECT_BALANCE
  | .AUTH_UN client => s.reject client res.stamp MSG_REJECT_UNAUTHORISED
  | .RPC_DONE client rv => (s.release client).send client res.stamp (replyLine rv)

/-- The main loop reads a result and handles it. -/
def deliver (ins : Inserts) (s : Server) : Option Server :=
  match s.pipe with
  | [] => none
  | res :: pipe =>
    some ({ s with
      pipe
      history := { s.history with handled := s.history.handled ++ [res] } }.handleResult ins res)

/-! ## Client requests -/

/-- `poll` returns. It reports the RPC pipe, slot 1, exactly if there is a result in it. -/
def poll (revents : Nat → Revents) (s : Server) : Option Server :=
  if (revents 1).pollin = !s.pipe.isEmpty then some { s with slots := s.slots.poll revents }
  else none

/-- The client in poll slot `i`, if there is a client in it. -/
def clientAt (i : Nat) (s : Server) : Option ClientRef :=
  if 2 ≤ i ∧ i < s.slots.count then s.slots.clients i else none

/-- The client in slot `i` is removed. -/
def removeAt (i : Nat) (client : ClientRef) (s : Server) : Server :=
  (s.removeSlot (s.slots.pfds i).fd).cregRemove client

/-- The main loop services one request of the client in slot `i`. -/
def request (i : Nat) (cmd : CStr) (alloc : Bool) (s : Server) : Option Server :=
  (s.clientAt i).map fun client =>
    let (removeClient, s') := s.handleCommand alloc client cmd
    if removeClient then s'.removeAt i client else s'

/-- End of file, a read error or a poll error on slot `i`. -/
def hangup (i : Nat) (s : Server) : Option Server :=
  (s.clientAt i).map fun client => s.removeAt i client

end Server

/-! ## Steps in any order -/

inductive ServerLbl where
  | poll (revents : Nat → Revents)
  /-- A pid is read from the handshake pipe. -/
  | handshake (clientPid : Int) (alloc : Bool)
  | request (slot : Nat) (cmd : CStr) (alloc : Bool)
  | hangup (slot : Nat)
  | dequeue (worker : Nat)
  | finish (worker : Nat) (env : Env)
  | deliver (ins : Server.Inserts)

namespace Server

def step (cfg : Config) : ServerLbl → Server → Option Server
  | .poll revents, s => s.poll revents
  | .handshake clientPid alloc, s => some (s.taskEnqueue alloc .HANDSHAKE clientPid [] 0)
  | .request i cmd alloc, s => s.request i cmd alloc
  | .hangup i, s => s.hangup i
  | .dequeue w, s => s.dequeue w
  | .finish w env, s => s.finish cfg w env
  | .deliver ins, s => s.deliver ins

/-- The server: its steps in any order. -/
abbrev system (cfg : Config) : Transition.LTS Server ServerLbl :=
  Transition.ofStep (init cfg) (step cfg)

end Server

/-! ## The loop and its budgets -/

/-- Where the main thread is: at `poll`, or in one of the three parts of the loop body,
with the number of reads it has made there in this wake. In the last part it also has
the slot it is at. -/
inductive LoopPc where
  | poll
  | hsk (i : Nat)
  | rpc (i : Nat)
  | client (i req : Nat)
deriving DecidableEq, Repr

/-- The server with its main thread. -/
structure MainLoop where
  server : Server
  pc : LoopPc

/-- The turns of the loops, their exits, and the steps of the workers. -/
inductive LoopLbl where
  | poll (revents : Nat → Revents)
  | readHsk (clientPid : Int) (alloc : Bool)
  | hskDone
  | readRpc (ins : Server.Inserts)
  | rpcDone
  | request (cmd : CStr) (alloc : Bool)
  | hangup
  | nextSlot
  | wakeDone
  | dequeue (worker : Nat)
  | finish (worker : Nat) (env : Env)

namespace MainLoop

/-- Whether `handle_command` asks for the removal of the client in slot `i`. -/
def removes (i : Nat) (cmd : CStr) (alloc : Bool) (s : Server) : Bool :=
  match s.clientAt i with
  | some client => (s.handleCommand alloc client cmd).1
  | none => false

def step (cfg : Config) : LoopLbl → MainLoop → Option MainLoop
  | .poll revents, ⟨s, .poll⟩ => (s.poll revents).map fun s => ⟨s, .hsk 0⟩
  | .readHsk clientPid alloc, ⟨s, .hsk i⟩ =>
    if (s.slots.pfds 0).revents.pollin ∧ i < HSK_MAX_PER_WAKE then
      (Server.step cfg (.handshake clientPid alloc) s).map fun s => ⟨s, .hsk (i + 1)⟩
    else none
  -- the handshake pipe is empty, the budget is spent, or there was nothing to read
  | .hskDone, ⟨s, .hsk _⟩ => some ⟨s, .rpc 0⟩
  | .readRpc ins, ⟨s, .rpc i⟩ =>
    if (s.slots.pfds 1).revents.pollin ∧ i < RPC_MAX_PER_WAKE then
      (s.deliver ins).map fun s => ⟨s, .rpc (i + 1)⟩
    else none
  | .rpcDone, ⟨s, .rpc i⟩ =>
    if (s.slots.pfds 1).revents.pollin = false ∨ i = RPC_MAX_PER_WAKE ∨ s.pipe = [] then
      some ⟨s, .client 2 0⟩
    else none
  | .request cmd alloc, ⟨s, .client i req⟩ =>
    if (s.slots.pfds i).revents.readable ∧ req < FIFO_MAX_PER_WAKE then
      (s.request i cmd alloc).map fun s' =>
        ⟨s', if removes i cmd alloc s then .client i 0 else .client i (req + 1)⟩
    else none
  -- a slot that is removed is filled with the last one, so `i` stays
  | .hangup, ⟨s, .client i req⟩ =>
    if (s.slots.pfds i).revents.failed ∨
        (s.slots.pfds i).revents.readable ∧ req < FIFO_MAX_PER_WAKE then
      (s.hangup i).map fun s => ⟨s, .client i 0⟩
    else none
  | .nextSlot, ⟨s, .client i _⟩ =>
    if i < s.slots.count ∧ (s.slots.pfds i).revents.failed = false then
      some ⟨s, .client (i + 1) 0⟩
    else none
  | .wakeDone, ⟨s, .client i _⟩ => if s.slots.count ≤ i then some ⟨s, .poll⟩ else none
  | .dequeue w, ⟨s, pc⟩ => (s.dequeue w).map fun s => ⟨s, pc⟩
  | .finish w env, ⟨s, pc⟩ => (s.finish cfg w env).map fun s => ⟨s, pc⟩
  | _, _ => none

/-- The server with the loop as the source has it. -/
abbrev system (cfg : Config) : Transition.LTS MainLoop LoopLbl :=
  Transition.ofStep ⟨Server.init cfg, .poll⟩ (step cfg)

end MainLoop

end AnimateServer
