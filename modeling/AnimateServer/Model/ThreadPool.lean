import AnimateServer.Model.Types

/-!
# The thread pool (`server/src/threadpool.c`, `server/src/animate_server.c`)

The start and the teardown of the pool, as `main` runs them. Only the main thread
creates and joins workers and touches `THREADPOOL`, so its calls are a sequence.

`tpool_threads` is the only pointer to the thread array that outlives `threadpool_init`,
so the state holds the array behind the pointer. A join through a bad pointer or of a
bad slot is undefined in C. Here it is a call with a marked argument.
-/

namespace AnimateServer

open CLib

/-- A thread: the ordinal of the `pthread_create` that made it. -/
abbrev PoolThread := Nat

/-- The value of `tpool_threads[i]`. -/
inductive ThreadId where
  | thread (t : PoolThread)
  | unset
  | outside
  | freed
  | null
deriving DecidableEq, Repr

/-- The calls that create or end something. `free(NULL)` is none. -/
inductive PoolCall where
  | create (t : PoolThread)
  | join (id : ThreadId)
  | free
deriving DecidableEq, Repr

def sizeofPthread : Int := 8

/-- Conversion of a `long` to `size_t`. -/
def toSizeT (v : Int) : Nat := (v % (SIZE_MAX + 1)).toNat

/-- What `tpool_threads` points to: the slots of a block, which may be freed already. -/
structure ThreadArray where
  room : Nat
  slot : Nat → Option PoolThread
  freed : Bool

namespace ThreadArray

/-- `malloc(bytes)`. -/
def malloc (bytes : Nat) : ThreadArray where
  room := bytes / sizeofPthread.toNat
  slot := fun _ => none
  freed := false

/-- Writing a slot. Outside the block nothing of the array changes. -/
def write (i : Nat) (t : PoolThread) (a : ThreadArray) : ThreadArray :=
  -- `pthread_create` writes behind the block all the same
  if i < a.room then { a with slot := Function.update a.slot i (some t) } else a

@[simp] theorem room_write (i : Nat) (t : PoolThread) (a : ThreadArray) :
    (a.write i t).room = a.room := by
  unfold write
  split <;> rfl

@[simp] theorem freed_write (i : Nat) (t : PoolThread) (a : ThreadArray) :
    (a.write i t).freed = a.freed := by
  unfold write
  split <;> rfl

theorem slot_write_self {i : Nat} {a : ThreadArray} (h : i < a.room) (t : PoolThread) :
    (a.write i t).slot i = some t := by
  unfold write
  rw [if_pos h]
  exact Function.update_self i (some t) a.slot

theorem slot_write_ne {i j : Nat} (h : j ≠ i) (t : PoolThread) (a : ThreadArray) :
    (a.write i t).slot j = a.slot j := by
  unfold write
  split
  · exact Function.update_of_ne h (some t) a.slot
  · rfl

def read (i : Nat) (a : ThreadArray) : ThreadId :=
  if a.freed then .freed
  else if i < a.room then
    match a.slot i with
    | some t => .thread t
    | none => .unset
  else .outside

end ThreadArray

/-- `RUNNING`, `retval` and `THREADPOOL`, with the calls made so far. -/
structure PoolState where
  RUNNING : Bool
  retval : ErrType
  size : Int
  threads : Option ThreadArray
  created : Nat
  calls : List PoolCall

/-- How the calls of a start-up turn out. -/
structure StartUp where
  serverSetupPipes : ErrType
  malloc : Bool
  pthreadCreate : Nat → Bool
  serverSetupSignals : ErrType

namespace PoolState

def init : PoolState where
  RUNNING := true
  retval := .SUCCESS
  size := 0
  threads := none
  created := 0
  calls := []

/-! ## Calls -/

/-- `pthread_create(&tpool_threads[i], ...)`, if it succeeds. -/
def pthreadCreate (i : Nat) (s : PoolState) : PoolState :=
  { s with
    threads := s.threads.map (ThreadArray.write i s.created)
    created := s.created + 1
    calls := s.calls ++ [.create s.created] }

/-- `tpool_threads[i]`. -/
def threadAt (i : Nat) (s : PoolState) : ThreadId :=
  match s.threads with
  | some a => a.read i
  | none => .null

/-- `pthread_join(tpool_threads[i], NULL)`. -/
def pthreadJoin (i : Nat) (s : PoolState) : PoolState :=
  { s with calls := s.calls ++ [.join (s.threadAt i)] }

/-- `free(tpool_threads)`. -/
def freeThreads (s : PoolState) : PoolState :=
  match s.threads with
  | some a => { s with threads := some { a with freed := true }, calls := s.calls ++ [.free] }
  | none => s

/-- Joining `left` threads from index `j` on. -/
def joinLoop : Nat → Nat → PoolState → PoolState
  | 0, _, s => s
  | left + 1, j, s => joinLoop left (j + 1) (s.pthreadJoin j)

/-! ## `threadpool.c` -/

/-- `get_threadpool_size`. `args` is `argv` without the name of the program. -/
def getThreadpoolSize (args : List CStr) (s : PoolState) : ErrType × PoolState :=
  match args with
  | [] => (.TOO_FEW, { s with retval := .TOO_FEW })
  | [arg] =>
    let s := { s with size := (strtol arg).1 }
    if s.size ≤ 0 then (.POOL_FAIL, { s with retval := .POOL_FAIL })
    else if 0 < s.size then (.SUCCESS, s)
    else (.INV_ARG, { s with retval := .INV_ARG })
  | _ => (.TOO_MANY, { s with retval := .TOO_MANY })

/-- The error path of `threadpool_init`: the threads created so far are reaped. -/
def reap (created : Nat) (s : PoolState) : PoolState :=
  -- neither `tpool_threads` nor `TPOOL_SIZE` is reset
  (joinLoop created 0 { s with RUNNING := false }).freeThreads

/-- The loop of `threadpool_init`, with `left` more threads to create from index `i` on. -/
def createLoop (succeeds : Nat → Bool) : Nat → Nat → Nat → PoolState → ErrType × PoolState
  | 0, _, _, s => (.SUCCESS, s)
  | left + 1, i, created, s =>
    if succeeds i then createLoop succeeds left (i + 1) (created + 1) (s.pthreadCreate i)
    else (.POOL_FAIL, s.reap created)

/-- `threadpool_init`. -/
def threadpoolInit (e : StartUp) (s : PoolState) : ErrType × PoolState :=
  if e.malloc then
    -- `sizeof(*tpool_threads) * TPOOL_SIZE` is computed in `size_t`
    let s := { s with threads := some (.malloc (toSizeT (sizeofPthread * s.size))) }
    createLoop e.pthreadCreate (toSizeT s.size) 0 0 s
  else (.POOL_FAIL, s)

/-- `threadpool_destroy`. -/
def threadpoolDestroy (s : PoolState) : PoolState :=
  if s.RUNNING then s
  else { (joinLoop s.size.toNat 0 s).freeThreads with threads := none }

/-! ## `main` -/

/-- `server_setup_pipes` and `server_setup_signals`: an error is noted in `retval`. -/
def setUp (err : ErrType) (s : PoolState) : ErrType × PoolState :=
  if err = .SUCCESS then (.SUCCESS, s) else (err, { s with retval := err })

/-- `if (f() != SUCCESS) goto teardown;` -/
def orTeardown (r : ErrType × PoolState) (rest : PoolState → ErrType × PoolState) :
    ErrType × PoolState :=
  if r.1 ≠ .SUCCESS then r else rest r.2

/-- The start procedure of `main`. -/
def startProcedure (args : List CStr) (e : StartUp) (s : PoolState) : ErrType × PoolState :=
  orTeardown (s.getThreadpoolSize args) fun s =>
    orTeardown (s.setUp e.serverSetupPipes) fun s =>
      orTeardown (s.threadpoolInit e) fun s =>
        s.setUp e.serverSetupSignals

/-- `main`. The loop between the start procedure and the teardown touches neither the
pool nor its threads, and the teardown is the same wherever `main` comes from. -/
def main (args : List CStr) (e : StartUp) : PoolState :=
  threadpoolDestroy { (init.startProcedure args e).2 with RUNNING := false }

end PoolState

end AnimateServer
