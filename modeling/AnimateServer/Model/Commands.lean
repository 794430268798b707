import AnimateServer.Model.Server

/-!
# `server/src/commands.c`

`handle_command` compares the request with one prefix after the other. The tests
behind `Disconnect` are `if` statements that fall through to the next one; they
are the entries of `rpcCommands`, in the order of the source.
-/

namespace AnimateServer

open CLib

/-- One of the tests behind `Disconnect`: `strncmp(cmd, name, len) == 0`, and the task that
gets `cmd + skip`. -/
structure RpcCommand where
  name : CStr
  len : Nat
  skip : Nat
  type : TaskType
deriving DecidableEq, Repr

def rpcCommands : List RpcCommand :=
  [⟨"create_canvas ".toList, 14, 14, .CREATE_CANVAS⟩,
    ⟨"destroy_canvas ".toList, 15, 15, .DESTROY_CANVAS⟩,
    ⟨"create_sprite ".toList, 14, 14, .CREATE_SPRITE⟩,
    ⟨"create_rectangle ".toList, 17, 17, .CREATE_RECTANGLE⟩,
    ⟨"create_circle ".toList, 14, 14, .CREATE_CIRCLE⟩,
    ⟨"destroy_sprite ".toList, 15, 15, .DESTROY_SPRITE⟩,
    ⟨"place_sprite ".toList, 13, 13, .PLACE_SPRITE⟩,
    ⟨"placement_up ".toList, 13, 13, .PLACEMENT_UP⟩,
    ⟨"placement_down ".toList, 15, 15, .PLACEMENT_DOWN⟩,
    ⟨"placement_top ".toList, 14, 14, .PLACEMENT_TOP⟩,
    ⟨"placement_bottom ".toList, 17, 17, .PLACEMENT_BOTTOM⟩,
    ⟨"destroy_placement ".toList, 18, 18, .DESTROY_PLACEMENT⟩,
    ⟨"set_animation_params ".toList, 21, 21, .SET_ANIM_PARAM⟩,
    ⟨"generate ".toList, 9, 9, .GENERATE⟩,
    ⟨"share_canvas ".toList, 13, 13, .SHARE⟩,
    ⟨"barrier ".toList, 8, 8, .BARRIER⟩]

namespace Server

/-- `if (creg_acquire_client(client) == FAIL) return 1;` and then the enqueue of a task of
this type; the first component is the return value 1. -/
def acquireAndEnqueue (alloc : Bool) (type : TaskType) (request : CStr) (client : ClientRef)
    (s : Server) : Bool × Server :=
  match s.reg.cregAcquireClient client with
  | (.FAIL, reg) => (true, { s with reg })
  | (_, reg) => (false, { s with reg }.taskEnqueue alloc type 0 request client)

/-- The `if` statements behind `Disconnect`. -/
def runCommands (alloc : Bool) (client : ClientRef) (cmd : CStr) :
    List RpcCommand → Server → Bool × Server
  | [], s => (false, s)
  | c :: rest, s =>
    if strncmpEq cmd c.name c.len then
      match s.acquireAndEnqueue alloc c.type (cmd.drop c.skip) client with
      | (true, s) => (true, s)
      | (false, s) => runCommands alloc client cmd rest s
    else runCommands alloc client cmd rest s

/-- `handle_command`: whether the client is to be removed. `alloc` is the outcome of the
`malloc` in `task_enqueue`. -/
def handleCommand (alloc : Bool) (client : ClientRef) (cmd : CStr) (s : Server) :
    Bool × Server :=
  if strncmpEq cmd "Login ".toList 6 then
    let s := s.touch client
    if (s.reg.mem client).loggedIn then (false, s)
    else s.acquireAndEnqueue alloc .AUTHORISE (cmd.drop 6) client
  else if strncmpEq cmd "Disconnect".toList 10 then (true, s)
  else runCommands alloc client cmd rpcCommands s

end Server

end AnimateServer
