import AnimateServer.Lib.Links
import AnimateServer.Model.Task

/-!
# `server/src/task.c`

The task queue is a singly linked list with a head, a tail and a count. The
sections under `tq_lock` are functions on it. `QueueState` puts them together
with the calls that are under way: a `task_enqueue` has allocated and filled its
task before it takes the lock, and the worker frees a task some time after
`task_dequeue` has returned it. Two logs record the tasks in the order in which
they were linked and the order in which they were returned.
-/

namespace AnimateServer

open CLib

/-- The address of a `Task`. -/
abbrev TaskRef := Nat

/-- A `Task` in memory, with its link. -/
structure TaskNode where
  task : Task
  next : Option TaskRef
deriving DecidableEq, Repr

/-- `TaskQueue`, with the memory its tasks are in. -/
structure TaskQueue where
  mem : TaskRef → TaskNode
  head : Option TaskRef
  tail : Option TaskRef
  count : Nat

namespace TaskQueue

/-- `task_init`. Memory has no contents that matter. -/
def taskInit : TaskQueue where
  mem := fun _ => ⟨handshakeTask 0 0, none⟩
  head := none
  tail := none
  count := 0

/-- The task at an address. -/
def taskAt (q : TaskQueue) (a : TaskRef) : Task := (q.mem a).task

/-- The tasks reached from the head, as many as the count says. -/
def linked (q : TaskQueue) : List TaskRef :=
  Links.walk (fun a => (q.mem a).next) q.count q.head

/-- The allocated task is filled in, before the lock is taken. -/
def fill (newtask : TaskRef) (task : Task) (q : TaskQueue) : TaskQueue :=
  { q with mem := Function.update q.mem newtask ⟨task, none⟩ }

/-- The locked section of `task_enqueue`. -/
def linkSection (newtask : TaskRef) (q : TaskQueue) : TaskQueue :=
  match q.tail with
  | none => { q with head := some newtask, tail := some newtask, count := q.count + 1 }
  | some tail =>
    { q with
      mem := Function.update q.mem tail { q.mem tail with next := some newtask }
      tail := some newtask
      count := q.count + 1 }

/-- The ways out of the locked section of `task_dequeue`: `wait` releases the lock in
`pthread_cond_wait`, and the section is run again from its start afterwards. -/
inductive Dequeued where
  | wait
  | returned (task : Option TaskRef)
deriving DecidableEq, Repr

/-- The locked section of `task_dequeue`. -/
def dequeueSection (running : Bool) (q : TaskQueue) : Dequeued × TaskQueue :=
  if !running then (.returned none, q)
  else
    match q.head with
    | none => (.wait, q)
    | some currtask =>
      let q := { q with head := (q.mem currtask).next, count := decr q.count }
      if q.count = 0 then (.returned (some currtask), { q with head := none, tail := none })
      else (.returned (some currtask), q)

end TaskQueue

/-! ## Calls under way -/

/-- The queue, the allocated tasks (`live`), those of them that a `task_enqueue` has
filled but not linked yet (`filled`) and those that a worker holds (`taken`), the
number of calls of `task_enqueue`, and the two logs. -/
structure QueueState where
  q : TaskQueue
  live : List TaskRef
  filled : List TaskRef
  taken : List TaskRef
  calls : Nat
  enqueued : List Task
  dequeued : List Task

inductive QueueLbl where
  /-- `task_enqueue` up to the lock; `block` is what `malloc` returns. -/
  | enqueue (type : TaskType) (clientPid : Int) (request : CStr) (client : ClientRef)
      (block : Option TaskRef)
  /-- The locked section of a `task_enqueue` that has filled `newtask`. -/
  | link (newtask : TaskRef)
  /-- The locked section of a `task_dequeue`. -/
  | dequeue
  /-- A worker frees the task it has been given. -/
  | free (task : TaskRef)
deriving DecidableEq, Repr

namespace QueueState

def init : QueueState where
  q := .taskInit
  live := []
  filled := []
  taken := []
  calls := 0
  enqueued := []
  dequeued := []

/-- One atomic step, with `RUNNING` nonzero. `malloc` returns no block that is still
allocated. -/
def step : QueueLbl → QueueState → Option QueueState
  | .enqueue _ _ _ _ none, s => some { s with calls := s.calls + 1 }
  | .enqueue type clientPid request client (some a), s =>
    if a ∈ s.live then none
    else
      some { s with
        q := s.q.fill a (newTask s.calls type clientPid request client)
        live := a :: s.live
        filled := a :: s.filled
        calls := s.calls + 1 }
  | .link a, s =>
    if a ∈ s.filled then
      some { s with
        q := s.q.linkSection a
        filled := s.filled.erase a
        enqueued := s.enqueued ++ [s.q.taskAt a] }
    else none
  | .dequeue, s =>
    match s.q.dequeueSection true with
    | (.returned (some a), q) =>
      some { s with q, taken := a :: s.taken, dequeued := s.dequeued ++ [s.q.taskAt a] }
    | (_, q) => some { s with q }
  | .free a, s =>
    if a ∈ s.taken then some { s with live := s.live.erase a, taken := s.taken.erase a }
    else none

end QueueState

/-! ## The end -/

/-- The loop of `task_destroy` from a head on: the blocks that it frees, each after its link
has been read. `none` says that more than `fuel` rounds are needed. -/
def TaskQueue.destroyLoop (q : TaskQueue) : Nat → Option TaskRef → Option (List TaskRef)
  | _, none => some []
  | 0, some _ => none
  | fuel + 1, some a => (q.destroyLoop fuel (q.mem a).next).map (a :: ·)

/-- `task_destroy`, with the blocks that it frees. The tail and the count are left as they
are. -/
def QueueState.taskDestroy (running : Bool) (fuel : Nat) (s : QueueState) :
    Option (List TaskRef × QueueState) :=
  if running then some ([], s)
  else
    (s.q.destroyLoop fuel s.q.head).map fun freed =>
      (freed, { s with q := { s.q with head := none }, live := s.live.diff freed })

end AnimateServer
