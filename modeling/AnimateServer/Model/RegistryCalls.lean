import AnimateServer.Model.ClientRegistry

/-!
# Threads calling the client registry

Each section under `cr_lock` is one step of the calling thread, and so is the
`destroy_client_pipes` and `free` that follow a release section. A thread gives
back only references it holds, acquires only clients that are not freed, and
`creg_remove` is called at most once for a client.
-/

namespace AnimateServer

open CLib

abbrev Thread := Nat

/-- Where a thread is between two sections. -/
inductive RegistryPc where
  | idle
  /-- In `creg_remove`, behind the marking in `client_markdead`. -/
  | marked (client : ClientRef)
  /-- In `creg_remove`, behind `creg_unlink`. -/
  | unlinked (client : ClientRef)
  /-- In `creg_release_client`, with `destroy` set; `removing` if `creg_remove` made the
  call. -/
  | destroying (client : ClientRef) (removing : Bool)
deriving DecidableEq, Repr

/-- The registry and its callers: the references the threads hold, and the clients
whose `creg_remove` has marked them, has released its own reference, has returned. -/
structure RegistryCalls where
  reg : ClientRegistry
  pc : Thread → RegistryPc
  held : List (Thread × ClientRef)
  marked : List ClientRef
  dropped : List ClientRef
  removed : List ClientRef

inductive RegistryLbl where
  | insert (t : Thread) (alloc : Bool) (clientPid c2sFd s2cFd : Int)
  | acquire (t : Thread) (client : ClientRef)
  | release (t : Thread) (client : ClientRef)
  | markdead (t : Thread) (client : ClientRef)
  | unlink (t : Thread)
  | drop (t : Thread)
  | destroy (t : Thread)
deriving DecidableEq, Repr

namespace RegistryCalls

def init : RegistryCalls where
  reg := .init
  pc := fun _ => .idle
  held := []
  marked := []
  dropped := []
  removed := []

/-- Thread `t` moves on to `pc`. -/
def goto (t : Thread) (pc : RegistryPc) (s : RegistryCalls) : RegistryCalls :=
  { s with pc := Function.update s.pc t pc }

section Goto

variable (t : Thread) (pc : RegistryPc) (s : RegistryCalls)

@[simp] theorem reg_goto : (s.goto t pc).reg = s.reg := rfl
@[simp] theorem pc_goto : (s.goto t pc).pc = Function.update s.pc t pc := rfl
@[simp] theorem held_goto : (s.goto t pc).held = s.held := rfl
@[simp] theorem marked_goto : (s.goto t pc).marked = s.marked := rfl
@[simp] theorem dropped_goto : (s.goto t pc).dropped = s.dropped := rfl
@[simp] theorem removed_goto : (s.goto t pc).removed = s.removed := rfl

end Goto

/-- The end of a release section of thread `t`. -/
def afterRelease (t : Thread) (client : ClientRef) (removing destroy : Bool)
    (s : RegistryCalls) : RegistryCalls :=
  if destroy then s.goto t (.destroying client removing)
  else if removing then { s.goto t .idle with removed := client :: s.removed }
  else s.goto t .idle

def step : RegistryLbl → RegistryCalls → Option RegistryCalls
  | .insert t alloc pid c2s s2c, s =>
    if s.pc t = .idle then some { s with reg := (s.reg.cregInsert alloc pid c2s s2c).2 }
    else none
  | .acquire t c, s =>
    if s.pc t = .idle ∧ c < s.reg.brk ∧ c ∉ s.reg.freed then
      match s.reg.cregAcquireClient c with
      | (.SUCCESS, reg) => some { s with reg, held := (t, c) :: s.held }
      | (_, reg) => some { s with reg }
    else none
  | .release t c, s =>
    if s.pc t = .idle ∧ (t, c) ∈ s.held then
      let (destroy, reg) := s.reg.releaseSection c
      some ({ s with reg, held := s.held.erase (t, c) }.afterRelease t c false destroy)
    else none
  | .markdead t c, s =>
    if s.pc t = .idle ∧ c < s.reg.brk ∧ c ∉ s.marked then
      some ({ s with reg := s.reg.markdeadSection c, marked := c :: s.marked }.goto t (.marked c))
    else none
  | .unlink t, s =>
    match s.pc t with
    | .marked c => some ({ s with reg := s.reg.cregUnlink c }.goto t (.unlinked c))
    | _ => none
  | .drop t, s =>
    match s.pc t with
    | .unlinked c =>
      let (destroy, reg) := s.reg.releaseSection c
      some ({ s with reg, dropped := c :: s.dropped }.afterRelease t c true destroy)
    | _ => none
  | .destroy t, s =>
    match s.pc t with
    | .destroying c removing =>
      some ({ s with reg := s.reg.destroyClient c }.afterRelease t c removing false)
    | _ => none

end RegistryCalls

end AnimateServer
