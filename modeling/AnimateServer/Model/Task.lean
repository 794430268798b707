import AnimateServer.Model.Fifo

/-!
# Tasks and task results (`server/include/task.h`)

The tagged unions `Task` and `TaskResult` are sums. A task carries a stamp that
the C code does not have: the ordinal of its `task_enqueue`. The result of a task
carries the stamp of the task, so that histories can speak of "the result of
this request".
-/

namespace AnimateServer

open CLib

/-- The unions `info` and `data` of a `Task`. -/
inductive TaskInfo where
  | handshake (clientPid : Int) (c2sName s2cName : CStr)
  | rpc (client : ClientRef) (request : CStr)
deriving DecidableEq, Repr

/-- `Task`. -/
structure Task where
  stamp : Nat
  type : TaskType
  info : TaskInfo
deriving DecidableEq, Repr

/-- The client a task names. -/
def Task.client? (t : Task) : Option ClientRef :=
  match t.info with
  | .rpc client _ => some client
  | .handshake _ _ _ => none

/-- `result_retval`: the three values of a reply, `INT_MIN` for an absent one. -/
structure RetVal where
  a : Int
  b : Int
  c : Int
deriving DecidableEq, Repr

/-- The cases of a `TaskResult`. -/
inductive ResultBody where
  | HSK_OK (clientPid c2sFd s2cFd : Int)
  | AUTH_OK (client : ClientRef) (username : CStr) (balance : Int)
  | AUTH_NO (client : ClientRef)
  | AUTH_UN (client : ClientRef)
  | RPC_DONE (client : ClientRef) (retval : RetVal)
deriving DecidableEq, Repr

/-- `TaskResult`. -/
structure TaskResult where
  stamp : Nat
  body : ResultBody
deriving DecidableEq, Repr

/-- The client a result names. -/
def TaskResult.client? (r : TaskResult) : Option ClientRef :=
  match r.body with
  | .HSK_OK _ _ _ => none
  | .AUTH_OK client _ _ => some client
  | .AUTH_NO client => some client
  | .AUTH_UN client => some client
  | .RPC_DONE client _ => some client

/-- The descriptors a result carries. -/
def TaskResult.fds (r : TaskResult) : List Int :=
  match r.body with
  | .HSK_OK _ c2sFd s2cFd => [c2sFd, s2cFd]
  | _ => []

/-- `sizeof(TaskResult)` on LP64: tag and padding 8, pointer 8, `auth` 33 + 7 + 8. -/
def sizeofTaskResult : Nat := 64

/-- The fields `task_enqueue` fills in for a task of a client. -/
def rpcTask (stamp : Nat) (type : TaskType) (request : CStr) (client : ClientRef) : Task where
  stamp := stamp
  type := type
  info := .rpc client (strncpyBuf MAX_RPC_BUF_LEN request)

/-- The fields `task_enqueue` fills in for a handshake. -/
def handshakeTask (stamp : Nat) (clientPid : Int) : Task where
  stamp := stamp
  type := .HANDSHAKE
  info := .handshake clientPid (setName .C2S clientPid) (setName .S2C clientPid)

/-- The switch of `task_enqueue`. -/
def newTask (stamp : Nat) (type : TaskType) (clientPid : Int) (request : CStr)
    (client : ClientRef) : Task :=
  match type with
  | .HANDSHAKE => handshakeTask stamp clientPid
  | type => rpcTask stamp type request client

end AnimateServer
