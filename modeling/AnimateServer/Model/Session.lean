import AnimateServer.Model.Client
import AnimateServer.Model.MainLoop

/-!
# The server with the processes of its clients

Every client is a process that runs `client/src/animate_client.c`, and its two FIFOs are
strings of bytes. All messages of either side are shorter than `PIPE_BUF`, so a `write` puts
all of one into the FIFO or nothing. The server opens its end of the s2c FIFO with
`O_NONBLOCK`, and `write_block_pipe` gives up on `EAGAIN`, so a line may be lost; and it is
lost where nobody reads the FIFO any more (`EPIPE`) or the server has closed its end (`EBADF`).

A client belongs to a record of the registry, also before the server has made the record: what
it writes by then waits in the FIFO.
-/

namespace AnimateServer

open CLib Transition

/-- Where the main thread of a client is, behind its handshake: in the loop of `authorise`, at
the read of the reply there, in the request loop of `main`, or in the teardown. -/
inductive ClientPhase where
  | authorise
  | reply
  | requests
  | teardown
deriving DecidableEq, Repr

/-- A client and the bytes that are in its FIFOs. `closed` says that the main thread has closed
`S_READ` and `C_WRITE`. The last three fields are history: the texts it has decided to send, the
requests that the server has read, and the lines that the client has read. -/
structure ClientSide where
  phase : ClientPhase
  receiver : Bool
  closed : Bool
  c2s : CStr
  s2c : CStr
  sent : List CStr
  served : List CStr
  heard : List CStr
deriving DecidableEq, Repr

namespace ClientSide

def init : ClientSide := ⟨.authorise, false, false, [], [], [], [], []⟩

/-- A call of `read_until_delim` on a FIFO with these bytes, which is not interrupted and does
not have to wait: the text, and the bytes that are left. -/
def readText (fifo : CStr) : Option (CStr × CStr) :=
  match readUntilDelim MAX_RPC_BUF_LEN '\n' [] (fifo.map .byte) with
  | some (.SUCCESS, text, es) => some (text, fifo.drop (fifo.length - es.length))
  | _ => none

/-- The s2c FIFO may have a reader: the receiver can be in a read when `S_READ` is closed. -/
def reads (cl : ClientSide) : Bool := !cl.closed || cl.receiver

/-- `write_block_pipe(C_WRITE, ...)`. -/
def write (m : Client.Message) (cl : ClientSide) : ClientSide :=
  { cl with c2s := cl.c2s ++ m.bytes, sent := cl.sent ++ [m.text] }

/-- The write of `send_user_input`, if there is one. -/
def writeSome : Option Client.Message → ClientSide → ClientSide
  | some m, cl => cl.write m
  | none, cl => cl

end ClientSide

structure Session where
  server : Server
  clients : ClientRef → ClientSide

/-- A step of the server, where `room` says whether the FIFO takes a line that it writes, or a
step of a client. -/
inductive SessionLbl where
  | server (lbl : ServerLbl) (room : Bool)
  /-- One turn of the loop of `authorise`, up to the write. -/
  | authorise (client : ClientRef) (input : CStr)
  /-- `authorise` has read the reply. -/
  | reply (client : ClientRef)
  /-- One turn of the request loop of `main`; `none` is the end of the standard input. -/
  | input (client : ClientRef) (input : Option CStr)
  /-- The receiver thread reads a line. -/
  | receive (client : ClientRef)
  /-- The receiver thread finds the FIFO closed. -/
  | receiverEnds (client : ClientRef)
  /-- The end of the input in `authorise`, a failed read of the reply, or a loop condition
  that does not hold any more. -/
  | leave (client : ClientRef)
  /-- `close(S_READ); close(C_WRITE);` -/
  | close (client : ClientRef)

namespace Session

def init (cfg : Config) : Session := ⟨Server.init cfg, fun _ => .init⟩

/-- The lines that the server has written to `c`. -/
def linesTo (c : ClientRef) (s : Server) : List CStr :=
  s.history.sent.filterMap fun e => if e.1 = c then some e.2.2 else none

/-- A line for `c` goes into the FIFO. Every case of the switch over the results releases the
client before it writes, and the release may close the descriptors. -/
def takes (room : Bool) (s : Server) (c : ClientRef) (cl : ClientSide) : Bool :=
  room && cl.reads && decide (c ∉ (s.release c).reg.freed)

/-- What a step of the server from `s` to `s'` has written goes into the FIFOs. -/
def answer (room : Bool) (s s' : Server) (clients : ClientRef → ClientSide) (c : ClientRef) :
    ClientSide :=
  if takes room s c (clients c) then
    { clients c with
      s2c := (clients c).s2c ++ ((linesTo c s').drop (linesTo c s).length).flatten }
  else clients c

def modify (c : ClientRef) (cl : ClientSide) (σ : Session) : Session :=
  { σ with clients := Function.update σ.clients c cl }

/-- What a step of the server deals with has the types that it has in C:
`animate_destroy_sprite` returns an `int`, and the entries of a table are counted by one. -/
def Typed : ServerLbl → Server → Bool
  | .finish _ env, s =>
    decide (INT_MIN ≤ env.destroySprite ∧ env.destroySprite ≤ INT_MAX) &&
      [s.world.canvases.count, s.world.sprites.count, s.world.placements.count].all
        fun count => decide ((count : Int) ≤ INT_MAX)
  | _, _ => true

/-- A step of the server. A request is read from the FIFO of the client in the slot. -/
def serverStep (cfg : Config) (lbl : ServerLbl) (room : Bool) (σ : Session) : Option Session :=
  match lbl with
  | .request i cmd alloc =>
    match σ.server.clientAt i with
    | none => none
    | some c =>
      match ClientSide.readText (σ.clients c).c2s with
      | none => none
      | some (request, rest) =>
        if request = cmd then
          (σ.server.request i cmd alloc).map fun s =>
            ⟨s, Function.update σ.clients c { σ.clients c with
              c2s := rest
              served := (σ.clients c).served ++ [request] }⟩
        else none
  | lbl =>
    if Typed lbl σ.server then
      (Server.step cfg lbl σ.server).map fun s => ⟨s, answer room σ.server s σ.clients⟩
    else none

/-- A step of the client `c`. -/
def clientStep (cl : ClientSide) : SessionLbl → Option ClientSide
  | .authorise _ input =>
    -- `fgets` returns at most so many bytes
    if cl.phase = .authorise ∧ input.length ≤ MAX_RPC_BUF_LEN - 1 then
      match Client.authoriseLine input with
      | some m => some { cl.write m with phase := .reply }
      | none => some cl
    else none
  | .reply _ =>
    match cl.phase, ClientSide.readText cl.s2c with
    | .reply, some (reply, rest) =>
      let loggedIn := Client.loggedIn (some reply)
      some { cl with
        phase := if loggedIn then .requests else .teardown
        receiver := loggedIn
        s2c := rest
        heard := cl.heard ++ [reply] }
    | _, _ => none
  | .input _ input =>
    if cl.phase = .requests ∧ ∀ line ∈ input, line.length ≤ MAX_RPC_BUF_LEN - 1 then
      let send := Client.sendUserInput input
      let cl := cl.writeSome send.2
      some (if send.1 = 1 then cl else { cl with phase := .teardown })
    else none
  | .receive _ =>
    match cl.receiver, ClientSide.readText cl.s2c with
    | true, some (reply, rest) =>
      -- the read that was under way at the close is the last one
      some { cl with receiver := !cl.closed, s2c := rest, heard := cl.heard ++ [reply] }
    | _, _ => none
  | .receiverEnds _ => if cl.receiver then some { cl with receiver := false } else none
  | .leave _ => some { cl with phase := .teardown }
  | .close _ => if cl.phase = .teardown then some { cl with closed := true } else none
  | .server _ _ => none

/-- The client that takes the step, if it is not the server. -/
def actor : SessionLbl → Option ClientRef
  | .server _ _ => none
  | .authorise c _ | .reply c | .input c _ | .receive c | .receiverEnds c | .leave c
  | .close c => some c

def step (cfg : Config) (lbl : SessionLbl) (σ : Session) : Option Session :=
  match lbl with
  | .server lbl room => σ.serverStep cfg lbl room
  | lbl => (actor lbl).bind fun c => (clientStep (σ.clients c) lbl).map fun cl => σ.modify c cl

/-- The server and all its clients: their steps in any order. -/
abbrev system (cfg : Config) : LTS Session SessionLbl := ofStep (init cfg) (step cfg)

end Session

end AnimateServer
