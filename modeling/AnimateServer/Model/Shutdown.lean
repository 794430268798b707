import AnimateServer.Lib.Monitor
import AnimateServer.Model.TaskQueue

/-!
# Workers, `main` and the end of `RUNNING`

The workers of the pool in their loop over `task_dequeue`, and the main thread from
`threadpool_init` over its enqueues to `threadpool_destroy`. Every access to `tq_lock`,
`tq_not_empty` and `RUNNING` is a step of its own, so that a test of `RUNNING` and the
wait that follows it can be apart. The workers run with all signals blocked.
-/

namespace AnimateServer

open CLib Monitors

/-- The threads that use `tq_lock`. Worker `i` is the thread `tpool_threads[i]`. -/
inductive Party where
  | main
  | worker (i : Nat)
deriving DecidableEq, Repr

/-- Where a worker is, in `worker_routine` and in the `task_dequeue` it calls. -/
inductive WorkerPc where
  /-- Not created. -/
  | absent
  /-- At `while (RUNNING)`. -/
  | loop
  /-- At `pthread_mutex_lock`. -/
  | locking
  /-- At `tq_head == NULL`. -/
  | headTest
  /-- At `&& RUNNING`, with no task in the queue. -/
  | runningTest
  /-- At `pthread_cond_wait`: both tests have held. -/
  | waiting
  /-- In `pthread_cond_wait`. -/
  | inWait
  /-- At `if (!RUNNING)`. -/
  | leaving
  /-- Taking the first task. -/
  | taking
  /-- At `pthread_mutex_unlock`, with the value to be returned. -/
  | unlocking (task : Option TaskRef)
  /-- In the switch over the type of its task. -/
  | serving (task : TaskRef)
  | exited
deriving DecidableEq, Repr

/-- The worker is between the lock and its release. -/
def WorkerPc.inside : WorkerPc → Bool
  | .headTest | .runningTest | .waiting | .leaving | .taking | .unlocking _ => true
  | _ => false

/-- Where `main` is. -/
inductive MainPc where
  /-- At the `malloc` of `threadpool_init`. -/
  | allocating
  /-- At a `pthread_create`, with `created` threads created. -/
  | creating (created : Nat)
  /-- In the failure path, behind `RUNNING = 0`. -/
  | initBroadcast (created : Nat)
  | reaping (created j : Nat)
  /-- Behind `threadpool_init`. -/
  | settingUp
  | loop
  /-- In `task_enqueue`: at the lock, at the linking, at the signal and at the unlock. -/
  | enqueueing (newtask : TaskRef)
  | linking (newtask : TaskRef)
  | signalling
  | unlocking
  /-- At `RUNNING = 0`. -/
  | teardown
  /-- In `threadpool_destroy`: at the test of `RUNNING`, at the lock, at the broadcast, at
  the unlock and at the joins. -/
  | destroy
  | destroyLock
  | destroyBroadcast
  | destroyUnlock
  | joining (j : Nat)
  | done
deriving DecidableEq, Repr

/-- `main` is between the lock and its release. -/
def MainPc.inside : MainPc → Bool
  | .linking _ | .signalling | .unlocking | .destroyBroadcast | .destroyUnlock => true
  | _ => false

/-- `main` has set `RUNNING` to 0. -/
def MainPc.stopped : MainPc → Bool
  | .initBroadcast _ | .reaping _ _ | .destroy | .destroyLock | .destroyBroadcast
  | .destroyUnlock | .joining _ | .done => true
  | _ => false

/-- `main` is about to broadcast in the failure path of `threadpool_init`. -/
def MainPc.failing : MainPc → Bool
  | .initBroadcast _ => true
  | _ => false

theorem MainPc.stopped_of_failing {pc : MainPc} (h : pc.failing = true) : pc.stopped = true := by
  cases pc <;> simp_all [failing, stopped]

/-- `RUNNING`, the queue, `tq_lock` with `tq_not_empty`, and the threads. `masked` is the
signal mask of `main`; `announced` says whether one of the two broadcasts has happened. -/
structure PoolRun where
  RUNNING : Bool
  masked : Bool
  queue : QueueState
  tq : Monitor Party
  main : MainPc
  worker : Nat → WorkerPc
  announced : Bool

inductive PoolLbl where
  /-- The next step of a worker. -/
  | worker (i : Nat)
  /-- `malloc` or a `pthread_create` of `threadpool_init`. -/
  | malloc (succeeds : Bool)
  | create (succeeds : Bool)
  /-- `server_setup_signals`, and the signal mask. -/
  | setUp (succeeds : Bool)
  /-- A shutdown signal is handled. -/
  | signal
  /-- The main loop gives up after an error of a pipe. -/
  | giveUp
  /-- `main` goes to the teardown. -/
  | leave
  /-- `task_enqueue` up to the lock. -/
  | enqueue (type : TaskType) (clientPid : Int) (request : CStr) (client : ClientRef)
      (block : Option TaskRef)
  /-- `pthread_cond_signal`, with the worker it wakes. -/
  | condSignal (woken : Option Party)
  /-- The next step of `main` where it has no choice. -/
  | main
deriving DecidableEq, Repr

namespace PoolRun

/-- `main` enters `threadpool_init`. -/
def init : PoolRun where
  RUNNING := true
  masked := true
  queue := .init
  tq := .init
  main := .allocating
  worker := fun _ => .absent
  announced := false

/-- The worker moves on. -/
def goto (i : Nat) (pc : WorkerPc) (s : PoolRun) : PoolRun :=
  { s with worker := Function.update s.worker i pc }

/-- `main` moves on. -/
def mainGoto (pc : MainPc) (s : PoolRun) : PoolRun :=
  { s with main := pc }

/-- An operation on `tq_lock` and `tq_not_empty`, which may have to wait. -/
def onTq (op : Monitor Party → Option (Monitor Party)) (s : PoolRun) : Option PoolRun :=
  (op s.tq).map fun tq => { s with tq }

/-- A call or a section of the queue. -/
def onQueue (lbl : QueueLbl) (s : PoolRun) : Option PoolRun :=
  (QueueState.step lbl s.queue).map fun queue => { s with queue }

/-- `while (RUNNING) { Task *task = task_dequeue(); ... }`. -/
def workerStep (i : Nat) (s : PoolRun) : Option PoolRun :=
  match s.worker i with
  | .absent | .exited => none
  | .loop => some (s.goto i (if s.RUNNING then .locking else .exited))
  | .locking => (s.onTq (Monitor.acquire (.worker i))).map (goto i .headTest)
  | .headTest => some (s.goto i (if s.queue.q.head = none then .runningTest else .leaving))
  | .runningTest => some (s.goto i (if s.RUNNING then .waiting else .leaving))
  | .waiting => (s.onTq (Monitor.wait (.worker i))).map (goto i .inWait)
  | .inWait => (s.onTq (Monitor.wake (.worker i))).map (goto i .headTest)
  -- `RUNNING` is read once more
  | .leaving => some (s.goto i (if s.RUNNING then .taking else .unlocking none))
  | .taking => (s.onQueue .dequeue).map (goto i (.unlocking s.queue.q.head))
  | .unlocking none => (s.onTq (Monitor.release (.worker i))).map (goto i .loop)
  | .unlocking (some task) => (s.onTq (Monitor.release (.worker i))).map (goto i (.serving task))
  | .serving task => (s.onQueue (.free task)).map (goto i .loop)

/-- The steps of `main` that depend on no outcome; `size` is `TPOOL_SIZE`. -/
def mainStep (size : Nat) (s : PoolRun) : Option PoolRun :=
  match s.main with
  -- the failure path of `threadpool_init` broadcasts without the lock
  | .initBroadcast created =>
    some ({ s with tq := s.tq.broadcast, announced := true }.mainGoto (.reaping created 0))
  | .reaping created j =>
    if j < created then
      if s.worker j = .exited then some (s.mainGoto (.reaping created (j + 1))) else none
    else some (s.mainGoto .teardown)
  | .enqueueing newtask => (s.onTq (Monitor.acquire .main)).map (mainGoto (.linking newtask))
  | .linking newtask => (s.onQueue (.link newtask)).map (mainGoto .signalling)
  | .unlocking => (s.onTq (Monitor.release .main)).map (mainGoto .loop)
  | .teardown => some ({ s with RUNNING := false }.mainGoto .destroy)
  | .destroy => some (s.mainGoto (if s.RUNNING then .done else .destroyLock))
  | .destroyLock => (s.onTq (Monitor.acquire .main)).map (mainGoto .destroyBroadcast)
  | .destroyBroadcast =>
    some ({ s with tq := s.tq.broadcast, announced := true }.mainGoto .destroyUnlock)
  | .destroyUnlock => (s.onTq (Monitor.release .main)).map (mainGoto (.joining 0))
  | .joining j =>
    if j < size then
      -- joining a thread that was never created is undefined
      if s.worker j = .exited then some (s.mainGoto (.joining (j + 1))) else none
    else some (s.mainGoto .done)
  | _ => none

/-- One step of a server with `TPOOL_SIZE` equal to `size`. -/
def step (size : Nat) : PoolLbl → PoolRun → Option PoolRun
  | .worker i, s => s.workerStep i
  | .malloc succeeds, s =>
    if s.main = .allocating then some (s.mainGoto (if succeeds then .creating 0 else .teardown))
    else none
  | .create succeeds, s =>
    match s.main with
    | .creating created =>
      if created < size then
        if succeeds then some ((s.goto created .loop).mainGoto (.creating (created + 1)))
        else some ({ s with RUNNING := false }.mainGoto (.initBroadcast created))
      else some (s.mainGoto .settingUp)
    | _ => none
  | .setUp succeeds, s =>
    if s.main = .settingUp then
      if succeeds then some ({ s with masked := false }.mainGoto .loop)
      else some (s.mainGoto .teardown)
    else none
  | .signal, s => if s.masked then none else some { s with RUNNING := false }
  | .giveUp, s => if s.main = .loop then some { s with RUNNING := false } else none
  | .leave, s => if s.main = .loop then some (s.mainGoto .teardown) else none
  | .enqueue type clientPid request client block, s =>
    if s.main = .loop then
      (s.onQueue (.enqueue type clientPid request client block)).map
        (mainGoto (match block with | some newtask => .enqueueing newtask | none => .loop))
    else none
  | .condSignal woken, s =>
    if s.main = .signalling then (s.onTq (Monitor.signal woken)).map (mainGoto .unlocking) else none
  | .main, s => s.mainStep size

/-- The thread is between taking `tq_lock` and releasing it. -/
def inside (s : PoolRun) : Party → Bool
  | .main => s.main.inside
  | .worker i => (s.worker i).inside

/-- Some worker has found `RUNNING` nonzero and is about to wait. -/
def Committed (i : Nat) (s : PoolRun) : Prop := s.worker i = .waiting

/-- The worker is blocked on `tq_not_empty`. -/
def Blocked (i : Nat) (s : PoolRun) : Prop := .worker i ∈ s.tq.asleep

end PoolRun

end AnimateServer
