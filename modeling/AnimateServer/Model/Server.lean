import AnimateServer.Model.PollSlots
import AnimateServer.Model.Worker

/-!
# The state of the server

Everything the main loop and the workers share, between two steps: the registry,
the poll slots, the task queue (as the list that its pointer form refines), the
workers with the tasks they hold, the RPC pipe and the tables. `History` is not
in the C code; it logs what the properties speak about.
-/

namespace AnimateServer

open CLib

/-- What is fixed while the server runs: the number of workers, the capacity of the
RPC pipe in bytes, and the descriptors of the two self pipes. -/
structure Config where
  pool : Nat
  pipeCap : Nat
  hskR : Int
  hskW : Int
  rpcR : Int
  rpcW : Int
deriving DecidableEq, Repr

/-- Logs, oldest entry first unless said otherwise: `stamp` counts the calls of
`task_enqueue` and `accepted` are the tasks it linked; `posted` are the results
that workers tried to write, `dropped` those the pipe had no room for, `handled`
those the main loop has read; `sent` are the lines written to clients, with the
stamp of the request; `removed` (newest first) are the calls of `creg_remove`;
`lost` are references that nobody is left to give back. -/
structure History where
  stamp : Nat
  accepted : List Task
  posted : List TaskResult
  dropped : List TaskResult
  handled : List TaskResult
  sent : List (ClientRef × Nat × CStr)
  removed : List ClientRef
  lost : List ClientRef

structure Server where
  reg : ClientRegistry
  slots : PollSlots
  queue : List Task
  workers : List (Option Task)
  pipe : List TaskResult
  world : World
  history : History

namespace Server

/-- The server when the main loop starts. -/
def init (cfg : Config) : Server where
  reg := .init
  slots := .init cfg.hskR cfg.rpcR
  queue := []
  workers := List.replicate cfg.pool none
  pipe := []
  world := .init
  history := ⟨0, [], [], [], [], [], [], []⟩

/-- The tasks that workers hold. -/
def running (s : Server) : List Task := s.workers.filterMap id

/-! ## Operations of the main loop -/

/-- Read a field of the record `client`. -/
def touch (client : ClientRef) (s : Server) : Server :=
  { s with reg := s.reg.touch client }

/-- Write fields of the record `client`. -/
def modify (client : ClientRef) (f : ActiveClient → ActiveClient) (s : Server) : Server :=
  { s with reg := s.reg.modify client f }

/-- `task_enqueue`; `alloc` says whether `malloc` succeeds. -/
def taskEnqueue (alloc : Bool) (type : TaskType) (clientPid : Int) (request : CStr)
    (client : ClientRef) (s : Server) : Server :=
  let task := newTask s.history.stamp type clientPid request client
  if alloc then
    { s with
      queue := s.queue ++ [task]
      history := { s.history with
        stamp := s.history.stamp + 1
        accepted := s.history.accepted ++ [task] } }
  else
    -- the caller ignores the failure, so nobody gives the client's reference back
    { s with
      history := { s.history with
        stamp := s.history.stamp + 1
        lost := task.client?.toList ++ s.history.lost } }

/-- `creg_release_client`. -/
def release (client : ClientRef) (s : Server) : Server :=
  { s with reg := s.reg.cregReleaseClient client }

/-- `creg_remove`: `client_markdead`, `creg_unlink`, `creg_release_client`. -/
def cregRemove (client : ClientRef) (s : Server) : Server :=
  { s with
    reg := ((s.reg.markdeadSection client).cregUnlink client).cregReleaseClient client
    world := (destroyOwned client s.world).1
    history := { s.history with removed := client :: s.history.removed } }

/-- `write_block_pipe(client->s2c_fd, line, n)`, the answer to request `stamp`. -/
def send (client : ClientRef) (stamp : Nat) (line : CStr) (s : Server) : Server :=
  { s.touch client with
    history := { s.history with sent := s.history.sent ++ [(client, stamp, line)] } }

/-! ## Workers -/

/-- What the kernel answers to the write of one result: all or nothing. The capacity counts
bytes; Linux counts the pages that hold them, and may find the pipe full a little earlier. -/
def pipeWrite (cfg : Config) (s : Server) : List WriteRes :=
  if sizeofTaskResult * (s.pipe.length + 1) ≤ cfg.pipeCap then [.wrote sizeofTaskResult]
  else [.errno .EAGAIN]

/-- `write_block_pipe(RPC_W, &taskresult, sizeof(taskresult))`, whose return value every
caller ignores. -/
def postResult (cfg : Config) (res : TaskResult) (s : Server) : Server :=
  match writeBlockPipe (s.pipeWrite cfg) (List.replicate sizeofTaskResult res) with
  | some (.SUCCESS, _) =>
    { s with
      pipe := s.pipe ++ [res]
      history := { s.history with posted := s.history.posted ++ [res] } }
  | _ =>
    { s with
      history := { s.history with
        posted := s.history.posted ++ [res]
        dropped := s.history.dropped ++ [res]
        lost := res.client?.toList ++ s.history.lost } }

/-- The descriptors that `open` does not return: those of the self pipes, of clients
that are not freed, and of handshakes whose result is in the pipe or was dropped. -/
def fdsInUse (cfg : Config) (s : Server) : List Int :=
  [cfg.hskR, cfg.hskW, cfg.rpcR, cfg.rpcW] ++
    ((List.range s.reg.brk).filter (· ∉ s.reg.freed)).flatMap
      (fun c => [(s.reg.mem c).c2sFd, (s.reg.mem c).s2cFd]) ++
    (s.pipe ++ s.history.dropped).flatMap TaskResult.fds

/-- Worker `w` has run its task and left the switch: the reply, if any, is written and
the task freed. A task that ran into undefined behaviour takes no step. -/
def finish (cfg : Config) (w : Nat) (env : Env) (s : Server) : Option Server :=
  match s.workers[w]? with
  | some (some task) =>
    let (ran, outcome) := workerRoutine env s.reg s.world task
    let s' := { s with
      workers := s.workers.set w none
      world := ran.world
      reg := s.reg.touchAll ran.visited }
    match outcome with
    | .posts body =>
      let res : TaskResult := ⟨task.stamp, body⟩
      if res.fds.Nodup ∧ ∀ fd ∈ res.fds, fd ∉ s.fdsInUse cfg then some (s'.postResult cfg res)
      else none
    | .silent =>
      some { s' with
        history := { s.history with lost := task.client?.toList ++ s.history.lost } }
    | .undefined => none
  | _ => none

/-- Worker `w` takes the first task of the queue. -/
def dequeue (w : Nat) (s : Server) : Option Server :=
  match s.workers[w]?, s.queue with
  | some none, task :: queue => some { s with queue, workers := s.workers.set w (some task) }
  | _, _ => none

end Server

end AnimateServer
