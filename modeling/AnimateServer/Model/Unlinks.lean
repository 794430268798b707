import AnimateServer.Model.MainLoop

/-!
# Which FIFO names are unlinked

`unlink` is called in two places, on names made from a pid: by a worker that runs
a `HANDSHAKE`, and by `destroy_client_pipes`. The latter runs when a client is
freed, and for a handshake result for which `creg_insert` fails.
-/

namespace AnimateServer

open CLib

/-- The names `destroy_client_pipes` unlinks. -/
def destroyClientPipes (clientPid : Int) : List CStr :=
  [setName .C2S clientPid, setName .S2C clientPid]

/-- The names a worker unlinks while it runs the task: before it makes the FIFOs of a
handshake, and again if the handshake fails. -/
def Task.unlinks (t : Task) : List CStr :=
  match t.info with
  | .handshake _ c2sName s2cName => [c2sName, s2cName]
  | .rpc _ _ => []

namespace Server

/-- The clients a step destroys, and frees. -/
def newlyDestroyed (s s' : Server) : List ClientRef :=
  s'.reg.destroyed.take (s'.reg.destroyed.length - s.reg.destroyed.length)

/-- The pid of a handshake result that is dropped, as `creg_insert` fails. -/
def droppedPid (lbl : ServerLbl) (s : Server) : Option Int :=
  match lbl, s.pipe with
  | .deliver ⟨false, _, _⟩, ⟨_, .HSK_OK clientPid _ _⟩ :: _ => some clientPid
  | _, _ => none

/-- The names the main loop unlinks in a step. -/
def unlinks (lbl : ServerLbl) (s s' : Server) : List CStr :=
  (droppedPid lbl s).toList.flatMap destroyClientPipes ++
    (newlyDestroyed s s').flatMap fun c => destroyClientPipes (s'.reg.mem c).clientPid

end Server

end AnimateServer
