import AnimateServer.Lib.Links
import AnimateServer.Model.Types

/-!
# `server/src/client_registry.c`

The registry is a doubly linked list threaded through the `ActiveClient`
records. `mem` is the heap of these records. Two logs keep what the C code does
to the outside, `destroyed` (calls of `destroy_client_pipes`) and `freed` (calls
of `free`); `faults` records every access to a field of a record that has been
freed before.

Each section between `pthread_mutex_lock(&cr_lock)` and the unlock is one
function; `creg_release_client` and `creg_remove` are sequences of them.
-/

namespace AnimateServer

open CLib

/-- `ActiveClient`. `username` is not set by `creg_insert`; it is read only once
`logged_in` is set, which happens after it has been written. -/
structure ActiveClient where
  clientPid : Int
  c2sFd : Int
  s2cFd : Int
  refcount : Nat
  loggedIn : Bool
  dead : Bool
  username : CStr
  next : Option ClientRef
  prev : Option ClientRef
deriving DecidableEq, Repr

/-- `ClientRegistry`, with the heap of its records and the logs. The next record
to be allocated is number `brk`. -/
structure ClientRegistry where
  mem : ClientRef → ActiveClient
  brk : Nat
  clients : Option ClientRef
  count : Nat
  destroyed : List ClientRef
  freed : List ClientRef
  faults : List ClientRef

/-- A record that was never allocated. -/
def ActiveClient.blank : ActiveClient where
  clientPid := 0
  c2sFd := 0
  s2cFd := 0
  refcount := 0
  loggedIn := false
  dead := false
  username := []
  next := none
  prev := none

namespace ClientRegistry

/-- `creg_init`. -/
def init : ClientRegistry where
  mem := fun _ => ActiveClient.blank
  brk := 0
  clients := none
  count := 0
  destroyed := []
  freed := []
  faults := []

/-- Access to the record `c`, a fault if it has been freed. -/
def touch (r : ClientRegistry) (c : ClientRef) : ClientRegistry :=
  if c ∈ r.freed then { r with faults := c :: r.faults } else r

/-- Access to several records in turn. -/
def touchAll (r : ClientRegistry) (cs : List ClientRef) : ClientRegistry :=
  cs.foldl touch r

/-- Write to the record `c`. -/
def modify (r : ClientRegistry) (c : ClientRef) (f : ActiveClient → ActiveClient) :
    ClientRegistry :=
  { r.touch c with mem := Function.update r.mem c (f (r.mem c)) }

/-! What an access does to the rest of the registry. -/

section Access

variable (r : ClientRegistry) (c : ClientRef)

/-- Reading a record changes nothing but the list of faults. -/
@[simp] theorem mem_touch : (r.touch c).mem = r.mem := by unfold touch; split <;> rfl
@[simp] theorem brk_touch : (r.touch c).brk = r.brk := by unfold touch; split <;> rfl
@[simp] theorem clients_touch : (r.touch c).clients = r.clients := by unfold touch; split <;> rfl
@[simp] theorem count_touch : (r.touch c).count = r.count := by unfold touch; split <;> rfl
@[simp] theorem destroyed_touch : (r.touch c).destroyed = r.destroyed := by
  unfold touch; split <;> rfl
@[simp] theorem freed_touch : (r.touch c).freed = r.freed := by unfold touch; split <;> rfl

/-- Reading a record that is not freed is no fault. -/
theorem touch_of_notMem (h : c ∉ r.freed) : r.touch c = r := by
  simp [touch, h]

/-- Reading a record that is freed is a fault. -/
theorem faults_touch_of_mem (h : c ∈ r.freed) : (r.touch c).faults = c :: r.faults := by
  simp [touch, h]

/-- The same for several records. -/
theorem touchAll_of_notMem {cs : List ClientRef} (h : ∀ c ∈ cs, c ∉ r.freed) :
    r.touchAll cs = r := by
  induction cs with
  | nil => rfl
  | cons c cs ih =>
    simp only [touchAll, List.foldl_cons]
    rw [touch_of_notMem r c (h c List.mem_cons_self)]
    exact ih fun d hd => h d (List.mem_cons_of_mem _ hd)

/-- Accesses only add to `faults`. -/
theorem touchAll_eq (cs : List ClientRef) : ∃ fs, r.touchAll cs = { r with faults := fs } := by
  induction cs generalizing r with
  | nil => exact ⟨r.faults, rfl⟩
  | cons c cs ih =>
    rcases ih (r.touch c) with ⟨fs, hfs⟩
    refine ⟨fs, ?_⟩
    rw [show r.touchAll (c :: cs) = (r.touch c).touchAll cs from rfl, hfs]
    unfold touch
    split <;> rfl

variable (f : ActiveClient → ActiveClient)

/-- Writing a record changes it, and reads it first. -/
@[simp] theorem mem_modify : (r.modify c f).mem = Function.update r.mem c (f (r.mem c)) := rfl
@[simp] theorem brk_modify : (r.modify c f).brk = r.brk := by simp [modify]
@[simp] theorem clients_modify : (r.modify c f).clients = r.clients := by simp [modify]
@[simp] theorem count_modify : (r.modify c f).count = r.count := by simp [modify]
@[simp] theorem destroyed_modify : (r.modify c f).destroyed = r.destroyed := by simp [modify]
@[simp] theorem freed_modify : (r.modify c f).freed = r.freed := by simp [modify]
@[simp] theorem faults_modify : (r.modify c f).faults = (r.touch c).faults := rfl

end Access

/-! ## Insertion and references -/

/-- `creg_insert`; `alloc` says whether `malloc` succeeds. -/
def cregInsert (alloc : Bool) (clientPid c2sFd s2cFd : Int) (r : ClientRegistry) :
    Option ClientRef × ClientRegistry :=
  if alloc then
    let newclient : ActiveClient :=
      { clientPid, c2sFd, s2cFd, refcount := 1, loggedIn := false, dead := false,
        username := [], next := r.clients, prev := none }
    let c := r.brk
    let r := { r with mem := Function.update r.mem c newclient, brk := c + 1 }
    let r := match r.clients with
      | some head => r.modify head fun h => { h with prev := some c }
      | none => r
    (some c, { r with clients := some c, count := r.count + 1 })
  else (none, r)

/-- `creg_acquire_client`. -/
def cregAcquireClient (client : ClientRef) (r : ClientRegistry) : ErrType × ClientRegistry :=
  if (r.mem client).dead then (.FAIL, r.touch client)
  else (.SUCCESS, r.modify client fun c => { c with refcount := c.refcount + 1 })

/-- The locked section of `creg_release_client`: the local `destroy`, and the
registry afterwards. -/
def releaseSection (client : ClientRef) (r : ClientRegistry) : Bool × ClientRegistry :=
  let r := r.modify client fun c => { c with refcount := decr c.refcount }
  ((r.mem client).dead && (r.mem client).refcount == 0, r)

/-- `destroy_client_pipes(client->client_pid, client->c2s_fd, client->s2c_fd);
free(client);` -/
def destroyClient (client : ClientRef) (r : ClientRegistry) : ClientRegistry :=
  let r := r.touch client
  { r with destroyed := client :: r.destroyed, freed := client :: r.freed }

/-- `creg_release_client`. -/
def cregReleaseClient (client : ClientRef) (r : ClientRegistry) : ClientRegistry :=
  let (destroy, r) := r.releaseSection client
  if destroy then r.destroyClient client else r

/-- The locked section of `client_markdead`. -/
def markdeadSection (client : ClientRef) (r : ClientRegistry) : ClientRegistry :=
  r.modify client fun c => { c with dead := true }

/-! ## Unlinking -/

/-- `while (curr && curr != client) curr = curr->next;` for at most `n` turns: the
records whose `next` is read, and `curr` at the end. -/
def findClient (mem : ClientRef → ActiveClient) (client : ClientRef) :
    Nat → Option ClientRef → List ClientRef × Option ClientRef
  | _, none => ([], none)
  | 0, some _ => ([], none)
  | n + 1, some curr =>
    if curr = client then ([], some curr)
    else
      let (visited, found) := findClient mem client n (mem curr).next
      (curr :: visited, found)

/-- `creg_unlink`. The registry never has more records than were allocated, so
`brk` turns are enough for the search. -/
def cregUnlink (client : ClientRef) (r : ClientRegistry) : ClientRegistry :=
  let (visited, found) := findClient r.mem client r.brk r.clients
  let r := r.touchAll visited
  match found with
  | none => r
  | some curr =>
    let r := r.touch curr
    let next := (r.mem curr).next
    let prev := (r.mem curr).prev
    let r := match prev with
      | some p => r.modify p fun c => { c with next := next }
      | none => { r with clients := next }
    let r := match next with
      | some n => r.modify n fun c => { c with prev := prev }
      | none => r
    let r := { r with count := decr r.count }
    r.modify client fun c => { c with next := none, prev := none }

end ClientRegistry

end AnimateServer
