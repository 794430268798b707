import AnimateServer.Model.Types

/-!
# The poll slots of `server/src/s_helper.c`

`POLLSLOTS` is a pair of parallel arrays, one of `struct pollfd` and one of
clients, that grow together and shrink by moving the last slot into the hole.
`pfdsLen` and `clientsLen` are the lengths the two arrays were last allocated
with.
-/

namespace AnimateServer

/-- The bits of `revents` the main loop tests. -/
structure Revents where
  pollin : Bool
  pollhup : Bool
  pollerr : Bool
  pollnval : Bool
deriving DecidableEq, Repr

/-- `rev & (POLLERR | POLLNVAL)`. -/
def Revents.failed (r : Revents) : Bool := r.pollerr || r.pollnval

/-- `rev & (POLLIN | POLLHUP)`, tested after `failed`. -/
def Revents.readable (r : Revents) : Bool := !r.failed && (r.pollin || r.pollhup)

/-- `struct pollfd`; `events` says whether it is `POLLIN` or 0. -/
structure PollFd where
  fd : Int
  events : Bool
  revents : Revents
deriving DecidableEq, Repr

def Revents.none : Revents := ⟨false, false, false, false⟩

/-- `PollSlots`. -/
structure PollSlots where
  pfds : Nat → PollFd
  clients : Nat → Option ClientRef
  pfdsLen : Nat
  clientsLen : Nat
  capacity : Nat
  count : Nat

namespace PollSlots

/-- The slots as `server_setup_pipes` leaves them: the two self pipes. -/
def init (hskR rpcR : Int) : PollSlots where
  pfds := fun i =>
    if i = 0 then ⟨hskR, true, .none⟩ else if i = 1 then ⟨rpcR, true, .none⟩
    else ⟨-1, false, .none⟩
  clients := fun _ => none
  pfdsLen := POLLFD_INIT_N
  clientsLen := POLLFD_INIT_N
  capacity := POLLFD_INIT_N
  count := 2

/-- `server_grow_pollslots`; `pf` and `cl` say whether the two calls of
`reallocarray` succeed. -/
def serverGrowPollslots (pf cl : Bool) (p : PollSlots) : Bool × PollSlots :=
  let newCapacity := p.capacity * 2
  if !pf then (false, p)
  else if !cl then (false, { p with pfdsLen := newCapacity })
  else (true, { p with pfdsLen := newCapacity, clientsLen := newCapacity, capacity := newCapacity })

/-- The slot that `server_insert_pollslots` fills. -/
def push (fd : Int) (client : ClientRef) (p : PollSlots) : PollSlots :=
  { p with
    pfds := Function.update p.pfds p.count ⟨fd, true, .none⟩
    clients := Function.update p.clients p.count (some client)
    count := p.count + 1 }

/-- `server_insert_pollslots`. -/
def serverInsertPollslots (pf cl : Bool) (fd : Int) (client : ClientRef) (p : PollSlots) :
    Bool × PollSlots :=
  if p.capacity = p.count then
    let (ok, p) := p.serverGrowPollslots pf cl
    if ok then (true, p.push fd client) else (false, p)
  else (true, p.push fd client)

/-- Move the last slot into slot `i` and drop the last slot. -/
def moveLast (i : Nat) (p : PollSlots) : PollSlots :=
  let last := p.count - 1
  { p with
    pfds := Function.update (Function.update p.pfds i (p.pfds last)) last ⟨-1, false, .none⟩
    clients := Function.update (Function.update p.clients i (p.clients last)) last none
    count := last }

/-- `poll`: the kernel fills in `revents`. -/
def poll (revents : Nat → Revents) (p : PollSlots) : PollSlots :=
  { p with
    pfds := fun i =>
      if i < p.count then { p.pfds i with revents := revents i } else p.pfds i }

/-- The search of `server_remove_pollslots`: the first slot with descriptor `fd`. -/
def findSlot (fd : Int) (p : PollSlots) : Option Nat :=
  (List.range p.count).find? fun i => (p.pfds i).fd == fd

/-- `server_remove_pollslots`. -/
def serverRemovePollslots (fd : Int) (p : PollSlots) : PollSlots :=
  match p.findSlot fd with
  | none => p
  | some i => p.moveLast i

end PollSlots

end AnimateServer
