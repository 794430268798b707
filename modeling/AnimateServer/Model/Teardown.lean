import AnimateServer.Model.Server

/-!
# The teardown of `main`

Behind `threadpool_destroy` the main thread is alone. It closes the self pipes and gives the
registry back; `task_destroy` is in `Model.TaskQueue`. Each of the functions returns at once
while `RUNNING` is nonzero.
-/

namespace AnimateServer

/-- `server_destroy_selfpipes`: the descriptors that it closes. The standard streams are never
closed. -/
def serverDestroySelfpipes (running : Bool) (cfg : Config) : List Int :=
  if running then [] else [cfg.hskR, cfg.hskW, cfg.rpcR, cfg.rpcW].filter fun fd => 2 < fd

namespace ClientRegistry

/-- `while (curr)` in `creg_destroy`; `next` is read before the record is freed. `none` says
that more than `fuel` rounds are needed. -/
def destroyLoop : Nat → Option ClientRef → ClientRegistry → Option ClientRegistry
  | _, none, r => some r
  | 0, some _, _ => none
  | fuel + 1, some curr, r => destroyLoop fuel (r.mem curr).next (r.destroyClient curr)

/-- `creg_destroy`. -/
def cregDestroy (running : Bool) (fuel : Nat) (r : ClientRegistry) : Option ClientRegistry :=
  if running then some r
  else destroyLoop fuel r.clients { r with clients := none, count := 0 }

end ClientRegistry

end AnimateServer
