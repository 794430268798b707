import AnimateServer.Verify.ServerSteps

/-!
# What holds in every state of the server

Whatever the order of the steps, the registry lists exactly the clients that have
not been removed, `dead` says which have been, and only removed clients are
freed. Tasks, results and poll slots name clients that exist.
-/

namespace AnimateServer.ServerInv

open CLib Server ServerSteps Registry

/-! ## The registry -/

/-- The registry when `creg_remove` has been called for the clients `removed`. -/
structure RegInv (r : ClientRegistry) (removed : List ClientRef) : Prop where
  list : ∃ l, RegList r l ∧ ∀ c, c ∈ l ↔ c < r.brk ∧ c ∉ removed
  dead : ∀ c < r.brk, (r.mem c).dead = true ↔ c ∈ removed
  freed_removed : ∀ c ∈ r.freed, c ∈ removed
  removed_old : ∀ c ∈ removed, c < r.brk

section RegInv

variable {r : ClientRegistry} {removed : List ClientRef}

/-- The empty registry, from which nobody has been removed. -/
theorem regInv_init : RegInv .init [] where
  list := ⟨[], regList_init, fun c => by simp [ClientRegistry.init]⟩
  dead := fun c hc => by simp [ClientRegistry.init] at hc
  freed_removed := fun c hc => by simp [ClientRegistry.init] at hc
  removed_old := fun c hc => by simp at hc

/-- Reading a record that exists breaks nothing. -/
theorem RegInv.touch (h : RegInv r removed) (c : ClientRef) : RegInv (r.touch c) removed := by
  rcases h.list with ⟨l, hl, hmem⟩
  exact ⟨⟨l, hl.touch c, by simpa using hmem⟩, by simpa using h.dead,
    by simpa using h.freed_removed, by simpa using h.removed_old⟩

theorem RegInv.touchAll (h : RegInv r removed) (cs : List ClientRef) :
    RegInv (r.touchAll cs) removed := by
  induction cs generalizing r with
  | nil => exact h
  | cons c cs ih => exact ih (h.touch c)

/-- Writing to other fields than the links and `dead`. -/
theorem RegInv.modify (h : RegInv r removed) (c : ClientRef) {f : ActiveClient → ActiveClient}
    (hnext : ∀ a, (f a).next = a.next) (hprev : ∀ a, (f a).prev = a.prev)
    (hdead : ∀ a, (f a).dead = a.dead) : RegInv (r.modify c f) removed := by
  rcases h.list with ⟨l, hl, hmem⟩
  refine ⟨⟨l, hl.modify c hnext hprev, by simpa using hmem⟩, fun d hd => ?_,
    by simpa using h.freed_removed, by simpa using h.removed_old⟩
  by_cases hdc : d = c
  · subst hdc
    simpa [hdead] using h.dead d (by simpa using hd)
  · simpa [hdc] using h.dead d (by simpa using hd)

/-- `creg_release_client` frees the client if it is dead and the count reaches 0. -/
theorem cregReleaseClient_eq (c : ClientRef) (r : ClientRegistry) :
    r.cregReleaseClient c =
      if (r.mem c).dead = true ∧ decr (r.mem c).refcount = 0 then
        (r.modify c fun a => { a with refcount := decr a.refcount }).destroyClient c
      else r.modify c fun a => { a with refcount := decr a.refcount } := by
  simp [ClientRegistry.cregReleaseClient, ClientRegistry.releaseSection]

/-- A release destroys a record at most, and moves no link. -/
theorem RegInv.release (h : RegInv r removed) {c : ClientRef} (hc : c < r.brk) :
    RegInv (r.cregReleaseClient c) removed := by
  have hmod := h.modify c (f := fun a => { a with refcount := decr a.refcount })
    (fun _ => rfl) (fun _ => rfl) (fun _ => rfl)
  rw [cregReleaseClient_eq]
  split
  · rename_i hd
    rcases hmod.list with ⟨l, hl, hmem⟩
    refine ⟨⟨l, ?_, by simpa using hmem⟩, by simpa using hmod.dead, ?_,
      by simpa using hmod.removed_old⟩
    · exact hl.congr (by simp) (by simp) (by simp [ClientRegistry.destroyClient])
        (by simp) (by simp [ClientRegistry.destroyClient])
    · intro d hd'
      rw [freed_destroyClient] at hd'
      -- what is freed now was dead already
      rcases List.mem_cons.mp hd' with rfl | hd'
      · exact (h.dead d hc).mp hd.1
      · exact hmod.freed_removed d hd'
  · exact hmod

/-- `creg_remove` up to its release. -/
theorem RegInv.unlink (h : RegInv r removed) {c : ClientRef} (hc : c < r.brk) :
    RegInv ((r.markdeadSection c).cregUnlink c) (c :: removed) := by
  rcases h.list with ⟨l, hl, hmem⟩
  -- marking dead changes no link
  have hmark : RegList (r.markdeadSection c) l := hl.modify c (fun _ => rfl) (fun _ => rfl)
  have hlinks := sameButLinks_cregUnlink c (r.markdeadSection c)
  have hbrk : ((r.markdeadSection c).cregUnlink c).brk = r.brk := by
    rw [hlinks.brk, brk_markdeadSection]
  refine ⟨⟨l.erase c, hmark.cregUnlink c, fun d => ?_⟩, fun d hd => ?_, fun d hd => ?_,
    fun d hd => ?_⟩
  · rw [hl.nodup.mem_erase_iff, hmem, hbrk]
    simp only [List.mem_cons, not_or]
    exact ⟨fun ⟨hne, hlt, hnot⟩ => ⟨hlt, hne, hnot⟩, fun ⟨hlt, hne, hnot⟩ => ⟨hne, hlt, hnot⟩⟩
  · rw [hbrk] at hd
    rw [hlinks.dead, mem_markdeadSection]
    by_cases hdc : d = c
    · subst hdc
      simp
    · simpa [hdc] using h.dead d hd
  · rw [hlinks.freed, freed_markdeadSection] at hd
    exact List.mem_cons_of_mem _ (h.freed_removed d hd)
  · rw [hbrk]
    rcases List.mem_cons.mp hd with rfl | hd
    · exact hc
    · exact h.removed_old d hd

/-- The registry part of `creg_remove`. -/
theorem RegInv.remove (h : RegInv r removed) {c : ClientRef} (hc : c < r.brk) :
    RegInv (((r.markdeadSection c).cregUnlink c).cregReleaseClient c) (c :: removed) := by
  refine (h.unlink hc).release ?_
  rwa [(sameButLinks_cregUnlink c _).brk, brk_markdeadSection]

/-- A new record. -/
theorem RegInv.insert (h : RegInv r removed) (pid c2s s2c : Int) :
    RegInv (r.cregInsert true pid c2s s2c).2 removed := by
  rcases h.list with ⟨l, hl, hmem⟩
  have hlinks := sameButLinks_cregInsert pid c2s s2c r
  have hbrk : (r.cregInsert true pid c2s s2c).2.brk = r.brk + 1 := hlinks.brk
  -- record numbers are not given out twice
  have hnew : r.brk ∉ removed := fun hm => Nat.lt_irrefl _ (h.removed_old _ hm)
  refine ⟨⟨r.brk :: l, hl.cregInsert pid c2s s2c, fun c => ?_⟩, fun c hc => ?_, fun c hc => ?_,
    fun c hc => ?_⟩
  · rw [List.mem_cons, hmem, hbrk]
    constructor
    · rintro (rfl | ⟨hlt, hnot⟩)
      · exact ⟨Nat.lt_succ_self _, hnew⟩
      · exact ⟨Nat.lt_succ_of_lt hlt, hnot⟩
    · rintro ⟨hlt, hnot⟩
      rcases Nat.lt_succ_iff_lt_or_eq.mp hlt with hlt | rfl
      · exact Or.inr ⟨hlt, hnot⟩
      · exact Or.inl rfl
  · rw [hbrk] at hc
    rw [hlinks.dead]
    rcases Nat.lt_succ_iff_lt_or_eq.mp hc with hc | rfl
    · simpa [pushed, Nat.ne_of_lt hc] using h.dead c hc
    · simpa [pushed, inserted] using hnew
  · exact h.freed_removed c (by simpa [pushed] using hlinks.freed ▸ hc)
  · rw [hbrk]
    exact Nat.lt_succ_of_lt (h.removed_old c hc)

end RegInv

/-! ## The server -/

/-- Tasks, results and poll slots name clients below `brk`. -/
structure Old (brk : Nat) (s : Server) : Prop where
  queue : ∀ t ∈ s.queue, ∀ c, t.client? = some c → c < brk
  running : ∀ t ∈ s.running, ∀ c, t.client? = some c → c < brk
  pipe : ∀ res ∈ s.pipe, ∀ c, res.client? = some c → c < brk
  slots : ∀ i, 2 ≤ i → i < s.slots.count → ∀ c, s.slots.clients i = some c → c < brk

/-- Clients are only added. -/
theorem Old.mono {brk brk' : Nat} {s s' : Server} (h : Old brk s) (hle : brk ≤ brk')
    (hqueue : s'.queue = s.queue) (hworkers : s'.workers = s.workers)
    (hpipe : s'.pipe = s.pipe) (hslots : s'.slots = s.slots) : Old brk' s' where
  queue := fun t ht c hc => Nat.lt_of_lt_of_le (h.queue t (hqueue ▸ ht) c hc) hle
  running := fun t ht c hc => by
    rw [Server.running, hworkers] at ht
    exact Nat.lt_of_lt_of_le (h.running t ht c hc) hle
  pipe := fun res hres c hc => Nat.lt_of_lt_of_le (h.pipe res (hpipe ▸ hres) c hc) hle
  slots := fun i h₂ hi c hc => by
    rw [hslots] at hi hc
    exact Nat.lt_of_lt_of_le (h.slots i h₂ hi c hc) hle

/-- What holds in every state, whatever the order of the steps. -/
structure Base (s : Server) : Prop where
  reg : RegInv s.reg s.history.removed
  old : Old s.reg.brk s

/-- The server starts with the two self-pipes in its slots and no client. -/
theorem base_init (cfg : Config) : Base (init cfg) where
  reg := regInv_init
  old := by
    refine ⟨?_, ?_, ?_, ?_⟩
    · simp [init]
    · simp [init, Server.running]
    · simp [init]
    · intro i h₂ hi
      exact absurd hi (by simp [init, PollSlots.init]; omega)

section Ops

variable {s : Server}

/-- Reading a client's record keeps the invariant. -/
theorem Base.touch (h : Base s) (c : ClientRef) : Base (s.touch c) :=
  ⟨h.reg.touch c, h.old.mono (ClientRegistry.brk_touch s.reg c).ge rfl rfl rfl rfl⟩

/-- Writing a field that is neither a link nor the flag keeps the invariant. -/
theorem Base.modify (h : Base s) (c : ClientRef) {f : ActiveClient → ActiveClient}
    (hnext : ∀ a, (f a).next = a.next) (hprev : ∀ a, (f a).prev = a.prev)
    (hdead : ∀ a, (f a).dead = a.dead) : Base (s.modify c f) :=
  ⟨h.reg.modify c hnext hprev hdead,
    h.old.mono (ClientRegistry.brk_modify s.reg c f).ge rfl rfl rfl rfl⟩

/-- Releasing makes no record; nor does anything below but an insertion. -/
@[simp] theorem brk_cregReleaseClient (c : ClientRef) (r : ClientRegistry) :
    (r.cregReleaseClient c).brk = r.brk := by
  rw [cregReleaseClient_eq]
  split <;> simp

@[simp] theorem brk_touch (c : ClientRef) (s : Server) : (s.touch c).reg.brk = s.reg.brk :=
  ClientRegistry.brk_touch s.reg c

@[simp] theorem brk_modify (c : ClientRef) (f : ActiveClient → ActiveClient) (s : Server) :
    (s.modify c f).reg.brk = s.reg.brk :=
  ClientRegistry.brk_modify s.reg c f

@[simp] theorem brk_release (c : ClientRef) (s : Server) : (s.release c).reg.brk = s.reg.brk :=
  brk_cregReleaseClient c s.reg

@[simp] theorem brk_send (c : ClientRef) (stamp : Nat) (line : CStr) (s : Server) :
    (s.send c stamp line).reg.brk = s.reg.brk :=
  brk_touch c s

/-- The slots are not in the registry. -/
@[simp] theorem brk_removeSlot (fd : Int) (s : Server) :
    (s.removeSlot fd).reg.brk = s.reg.brk := rfl

@[simp] theorem brk_cregRemove (c : ClientRef) (s : Server) :
    (s.cregRemove c).reg.brk = s.reg.brk := by
  simp only [Server.cregRemove, brk_cregReleaseClient, (sameButLinks_cregUnlink c _).brk,
    brk_markdeadSection]

/-- Giving back a reference keeps the invariant. -/
theorem Base.release (h : Base s) {c : ClientRef} (hc : c < s.reg.brk) : Base (s.release c) :=
  ⟨h.reg.release hc, h.old.mono (brk_cregReleaseClient c s.reg).ge rfl rfl rfl rfl⟩

theorem Base.cregRemove (h : Base s) {c : ClientRef} (hc : c < s.reg.brk) :
    Base (s.cregRemove c) :=
  ⟨h.reg.remove hc, h.old.mono (brk_cregRemove c s).ge rfl rfl rfl rfl⟩

/-- Sending a line reads the record of the client. -/
theorem Base.send (h : Base s) (c : ClientRef) (stamp : Nat) (line : CStr) :
    Base (s.send c stamp line) :=
  ⟨(h.touch c).reg, ⟨(h.touch c).old.queue, (h.touch c).old.running, (h.touch c).old.pipe,
    (h.touch c).old.slots⟩⟩

/-- Removing a slot lets the others move up, each with its client. -/
theorem Base.removeSlot (h : Base s) (fd : Int) : Base (s.removeSlot fd) := by
  refine ⟨h.reg, h.old.queue, h.old.running, h.old.pipe, ?_⟩
  intro k h₂ hk c hc
  simp only [Server.removeSlot] at hk hc
  rcases serverRemovePollslots_cases fd s.slots with ⟨-, heq⟩ | ⟨i, -, -, heq⟩
  · rw [heq] at hk hc
    exact h.old.slots k h₂ hk c hc
  · rw [heq] at hk hc
    rw [count_moveLast] at hk
    rw [(pfds_moveLast hk).2] at hc
    refine h.old.slots (movedFrom s.slots i k) ?_ ?_ c hc
    · unfold movedFrom
      split <;> omega
    · unfold movedFrom
      split <;> omega

/-- Every task but a handshake belongs to a client. -/
theorem client_newTask {stamp : Nat} {type : TaskType} {pid : Int} {request : CStr}
    {client : ClientRef} :
    (newTask stamp type pid request client).client? =
      if type = .HANDSHAKE then none else some client := by
  cases type <;> rfl

/-- A task that is queued belongs to a client that exists. -/
theorem Base.taskEnqueue (h : Base s) (alloc : Bool) {type : TaskType} (pid : Int)
    (request : CStr) {client : ClientRef} (hc : type ≠ .HANDSHAKE → client < s.reg.brk) :
    Base (s.taskEnqueue alloc type pid request client) := by
  cases alloc with
  | false => exact ⟨h.reg, h.old.queue, h.old.running, h.old.pipe, h.old.slots⟩
  | true =>
    refine ⟨h.reg, fun t ht c htc => ?_, h.old.running, h.old.pipe, h.old.slots⟩
    rcases List.mem_append.mp ht with ht | ht
    · exact h.old.queue t ht c htc
    · obtain rfl := List.mem_singleton.mp ht
      -- a handshake's task names no client
      rw [client_newTask] at htc
      split at htc
      · cases htc
      · rename_i hne
        cases htc
        exact hc hne

/-- A command takes a reference before its task is queued. -/
theorem Base.acquireAndEnqueue (h : Base s) (alloc : Bool) {type : TaskType} (args : CStr)
    {client : ClientRef} (hc : client < s.reg.brk) :
    Base (s.acquireAndEnqueue alloc type args client).2 := by
  unfold Server.acquireAndEnqueue
  cases hd : (s.reg.mem client).dead with
  | true =>
    rw [cregAcquireClient_dead hd]
    exact h.touch client
  | false =>
    rw [cregAcquireClient_live hd]
    have hacq : Base (s.modify client fun a => { a with refcount := a.refcount + 1 }) :=
      h.modify client (fun _ => rfl) (fun _ => rfl) (fun _ => rfl)
    exact hacq.taskEnqueue alloc 0 args fun _ => by simpa using hc

/-- A result that is posted, or lost, belongs to a client that exists. -/
theorem Base.postResult (h : Base s) (cfg : Config) {res : TaskResult}
    (hc : ∀ c, res.client? = some c → c < s.reg.brk) : Base (s.postResult cfg res) := by
  rw [postResult_eq]
  split
  · refine ⟨h.reg, h.old.queue, h.old.running, fun r hr c hrc => ?_, h.old.slots⟩
    rcases List.mem_append.mp hr with hr | hr
    · exact h.old.pipe r hr c hrc
    · obtain rfl := List.mem_singleton.mp hr
      exact hc c hrc
  · exact ⟨h.reg, h.old.queue, h.old.running, h.old.pipe, h.old.slots⟩

/-- A task that a worker holds is running. -/
theorem mem_running {t : Task} {w : Nat} (h : s.workers[w]? = some (some t)) :
    t ∈ s.running :=
  (running_set_none h).mem_iff.mpr List.mem_cons_self

/-- Running a handler reads records and leaves the task's place empty. -/
theorem Base.afterTask (h : Base s) {w : Nat} {task : Task}
    (hw : s.workers[w]? = some (some task)) (env : Env) : Base (afterTask w env task s) := by
  have hbrk : (ServerSteps.afterTask w env task s).reg.brk = s.reg.brk := by
    rcases s.reg.touchAll_eq (workerRoutine env s.reg s.world task).1.visited with ⟨fs, hfs⟩
    simp [ServerSteps.afterTask, hfs]
  refine ⟨h.reg.touchAll _, ?_⟩
  rw [hbrk]
  refine ⟨h.old.queue, fun t ht c hc => ?_, h.old.pipe, h.old.slots⟩
  exact h.old.running t ((running_set_none hw).mem_iff.mpr (List.mem_cons_of_mem _ ht)) c hc

/-- Removing a client unlinks it and gives back its slot. -/
theorem Base.removeAt (h : Base s) (i : Nat) {c : ClientRef} (hc : c < s.reg.brk) :
    Base (s.removeAt i c) :=
  (h.removeSlot _).cregRemove hc

/-- What `AUTH_NO` and `AUTH_UN` do to the registry. -/
theorem reg_reject (c : ClientRef) (stamp : Nat) (msg : CStr) (s : Server) :
    (s.reject c stamp msg).reg =
      ((((((s.reg.cregReleaseClient c).touch c).touch c).markdeadSection c).cregUnlink
        c).cregReleaseClient c) := by
  simp only [Server.reject, Server.cregRemove, Server.send, Server.removeSlot, Server.touch,
    Server.release]

/-- A rejection sends a line and releases; it removes nobody. -/
theorem Base.reject (h : Base s) {c : ClientRef} (stamp : Nat) (msg : CStr)
    (hc : c < s.reg.brk) : Base (s.reject c stamp msg) := by
  have hrel : c < ((s.release c).touch c).reg.brk := by
    simpa using hc
  have hsent := (((h.release hc).touch c).removeSlot
    (((s.release c).touch c).reg.mem c).c2sFd).send c stamp msg
  exact hsent.cregRemove (by simpa using hrel)

/-- An accepted login writes the name and the flag. -/
theorem Base.authDone (h : Base s) {c : ClientRef} (stamp : Nat) (username : CStr)
    (balance : Int) (hc : c < s.reg.brk) : Base (s.authDone c stamp username balance) := by
  have hrel := (h.touch c).release (c := c) (by simpa using hc)
  have hname : Base (((s.touch c).release c).modify c fun a =>
      { a with username := strncpyBuf MAX_USERNAME_LEN username }) :=
    hrel.modify c (fun _ => rfl) (fun _ => rfl) (fun _ => rfl)
  exact (hname.send c stamp _).modify c (f := fun a => { a with loggedIn := true })
    (fun _ => rfl) (fun _ => rfl) (fun _ => rfl)

/-- The server once a handshake has got its record. -/
def withClient (pid c2s s2c : Int) (s : Server) : Server :=
  { s with reg := (s.reg.cregInsert true pid c2s s2c).2 }

/-- Exactly one record is made for a new client. -/
theorem brk_withClient (pid c2s s2c : Int) (s : Server) :
    (withClient pid c2s s2c s).reg.brk = s.reg.brk + 1 :=
  (sameButLinks_cregInsert pid c2s s2c s.reg).brk

/-- What `HSK_OK` does: nothing, a new client in a new slot, or a new client that is
removed at once. -/
theorem handshakeDone_cases (ins : Inserts) (pid c2s s2c : Int) (s : Server) :
    s.handshakeDone ins pid c2s s2c = s ∨
      ∃ slots, ((slots.count = s.slots.count + 1 ∧
          slots.pfds = Function.update s.slots.pfds s.slots.count ⟨c2s, true, .none⟩ ∧
          slots.clients = Function.update s.slots.clients s.slots.count (some s.reg.brk)) ∧
          s.handshakeDone ins pid c2s s2c = { withClient pid c2s s2c s with slots }) ∨
        ((slots.count = s.slots.count ∧ slots.pfds = s.slots.pfds ∧
          slots.clients = s.slots.clients) ∧
          s.handshakeDone ins pid c2s s2c =
            { withClient pid c2s s2c s with slots }.cregRemove s.reg.brk) := by
  cases halloc : ins.client with
  | false => exact Or.inl (by simp [Server.handshakeDone, halloc])
  | true =>
    -- with a record, what is left open is whether the two arrays could grow
    have heq : s.handshakeDone ins pid c2s s2c =
        if (s.slots.serverInsertPollslots ins.pfds ins.clients c2s s.reg.brk).1 then
          { withClient pid c2s s2c s with
            slots := (s.slots.serverInsertPollslots ins.pfds ins.clients c2s s.reg.brk).2 }
        else
          { withClient pid c2s s2c s with
            slots := (s.slots.serverInsertPollslots ins.pfds ins.clients c2s
              s.reg.brk).2 }.cregRemove s.reg.brk := by
      unfold Server.handshakeDone
      rw [halloc, cregInsert_true]
      rfl
    -- a client without a slot is removed from the registry again
    rcases serverInsertPollslots_cases ins.pfds ins.clients c2s s.reg.brk s.slots with
      ⟨hok, hslots⟩ | ⟨hok, hslots⟩
    · rw [hok, if_pos rfl] at heq
      exact Or.inr ⟨_, Or.inl ⟨hslots, heq⟩⟩
    · rw [hok, if_neg (by simp)] at heq
      exact Or.inr ⟨_, Or.inr ⟨hslots, heq⟩⟩

theorem Base.withClient (h : Base s) (pid c2s s2c : Int) : Base (withClient pid c2s s2c s) :=
  ⟨h.reg.insert pid c2s s2c, h.old.mono
    ((brk_withClient pid c2s s2c s).symm ▸ Nat.le_succ s.reg.brk) rfl rfl rfl rfl⟩

/-- A new client has a record and a slot, or it has been removed again. -/
theorem Base.handshakeDone (h : Base s) (ins : Inserts) (pid c2s s2c : Int) :
    Base (s.handshakeDone ins pid c2s s2c) := by
  have hnew := h.withClient pid c2s s2c
  have hbrk := brk_withClient pid c2s s2c s
  rcases handshakeDone_cases ins pid c2s s2c s with
    heq | ⟨slots, ⟨⟨hcount, -, hclients⟩, heq⟩ | ⟨⟨hcount, -, hclients⟩, heq⟩⟩
  · rwa [heq]
  · rw [heq]
    refine ⟨hnew.reg, hnew.old.queue, hnew.old.running, hnew.old.pipe, fun i h₂ hi c hc => ?_⟩
    change i < slots.count at hi
    change slots.clients i = some c at hc
    rw [hcount] at hi
    rw [hclients] at hc
    by_cases hic : i = s.slots.count
    · subst hic
      obtain rfl : s.reg.brk = c := by simpa using hc
      exact hbrk ▸ Nat.lt_succ_self _
    · rw [Function.update_of_ne hic] at hc
      exact hnew.old.slots i h₂ (by change i < s.slots.count; omega) c hc
  · rw [heq]
    -- the client is there and has no slot: it is removed again
    have hslots : Base { ServerInv.withClient pid c2s s2c s with slots } := by
      refine ⟨hnew.reg, hnew.old.queue, hnew.old.running, hnew.old.pipe, fun i h₂ hi c hc => ?_⟩
      exact hnew.old.slots i h₂ (hcount ▸ hi) c (hclients ▸ hc)
    exact hslots.cregRemove (hbrk ▸ Nat.lt_succ_self _)

end Ops

/-! ## Steps -/

/-- Every branch of the result loop keeps the invariant. -/
theorem Base.handleResult {s : Server} (h : Base s) (ins : Inserts) {res : TaskResult}
    (hc : ∀ c, res.client? = some c → c < s.reg.brk) : Base (s.handleResult ins res) := by
  rcases res with ⟨stamp, body⟩
  cases body with
  | HSK_OK pid c2s s2c => exact h.handshakeDone ins pid c2s s2c
  | AUTH_OK c username balance => exact h.authDone stamp username balance (hc c rfl)
  | AUTH_NO c => exact h.reject stamp _ (hc c rfl)
  | AUTH_UN c => exact h.reject stamp _ (hc c rfl)
  | RPC_DONE c rv => exact (h.release (hc c rfl)).send c stamp _

/-- A request makes at most one task, and it belongs to the client that sends it. -/
theorem Base.handleCommand {s : Server} (h : Base s) (alloc : Bool) (cmd : CStr) {c : ClientRef}
    (hc : c < s.reg.brk) : Base (s.handleCommand alloc c cmd).2 := by
  rcases handleCommand_cases alloc c cmd s with
    ⟨-, s', hs', heq⟩ | ⟨-, -, heq⟩ | ⟨-, s', type, args, hs', -, heq⟩
  · rw [heq]
    rcases hs' with rfl | rfl
    · exact h
    · exact h.touch c
  · rw [heq]
    exact h
  · rw [heq]
    rcases hs' with rfl | rfl
    · exact h.acquireAndEnqueue alloc args hc
    · exact (h.touch c).acquireAndEnqueue alloc args (by simpa using hc)

/-- No request makes a record. -/
theorem brk_handleCommand (alloc : Bool) (cmd : CStr) (c : ClientRef) (s : Server) :
    (s.handleCommand alloc c cmd).2.reg.brk = s.reg.brk := by
  -- acquiring and enqueueing make no client
  have hacq : ∀ (s : Server) (type : TaskType) (args : CStr),
      (s.acquireAndEnqueue alloc type args c).2.reg.brk = s.reg.brk := by
    intro s type args
    unfold Server.acquireAndEnqueue Server.taskEnqueue
    cases hd : (s.reg.mem c).dead with
    | true => simp [cregAcquireClient_dead hd]
    | false =>
      rw [cregAcquireClient_live hd]
      cases alloc <;> simp
  rcases handleCommand_cases alloc c cmd s with
    ⟨-, s', hs', heq⟩ | ⟨-, -, heq⟩ | ⟨-, s', type, args, hs', -, heq⟩
  · rw [heq]
    rcases hs' with rfl | rfl
    · rfl
    · simp
  · rw [heq]
  · rw [heq, hacq]
    rcases hs' with rfl | rfl
    · rfl
    · simp

theorem base_step {cfg : Config} {lbl : ServerLbl} {s s' : Server}
    (hs : step cfg lbl s = some s') (h : Base s) : Base s' := by
  cases lbl with
  | poll revents =>
    obtain rfl := poll_cases hs
    exact ⟨h.reg, h.old.queue, h.old.running, h.old.pipe, h.old.slots⟩
  | handshake pid alloc =>
    obtain rfl := Option.some.inj hs
    exact h.taskEnqueue alloc pid [] fun hne => absurd rfl hne
  -- the client of a slot exists; a request that ends the session removes it
  | request i cmd alloc =>
    rcases request_cases hs with ⟨c, hc, rfl⟩
    rcases clientAt_eq_some hc with ⟨h₂, hi, hslot⟩
    have hold := h.old.slots i h₂ hi c hslot
    have hcmd := h.handleCommand alloc cmd hold
    split
    · exact hcmd.removeAt i (by rwa [brk_handleCommand])
    · exact hcmd
  | hangup i =>
    rcases hangup_cases hs with ⟨c, hc, rfl⟩
    rcases clientAt_eq_some hc with ⟨h₂, hi, hslot⟩
    exact h.removeAt i (h.old.slots i h₂ hi c hslot)
  -- the first task of the queue becomes a running one
  | dequeue w =>
    rcases dequeue_cases hs with ⟨task, queue, hw, hq, rfl⟩
    refine ⟨h.reg, fun t ht c hc => ?_, fun t ht c hc => ?_, h.old.pipe, h.old.slots⟩
    · exact h.old.queue t (hq ▸ List.mem_cons_of_mem _ ht) c hc
    · rcases List.mem_cons.mp ((running_set_some hw).mem_iff.mp ht) with rfl | ht
      · exact h.old.queue t (hq ▸ List.mem_cons_self) c hc
      · exact h.old.running t ht c hc
  | finish w env =>
    rcases finish_cases hs with ⟨task, hw, ⟨body, hout, -, -, rfl⟩ | ⟨-, rfl⟩⟩
    · -- the worker posts a result
      have hafter := h.afterTask hw env
      refine hafter.postResult cfg fun c hc => ?_
      rw [workerRoutine_client hout] at hc
      have hbrk : (afterTask w env task s).reg.brk = s.reg.brk := by
        rcases s.reg.touchAll_eq (workerRoutine env s.reg s.world task).1.visited with ⟨fs, hfs⟩
        simp [afterTask, hfs]
      exact hbrk ▸ h.old.running task (mem_running hw) c hc
    · -- it posts none
      have hafter := h.afterTask hw env
      exact ⟨hafter.reg, hafter.old.queue, hafter.old.running, hafter.old.pipe, hafter.old.slots⟩
  -- the first result leaves the pipe before it is handled
  | deliver ins =>
    rcases deliver_cases hs with ⟨res, pipe, hp, rfl⟩
    have hpop : Base { s with
        pipe
        history := { s.history with handled := s.history.handled ++ [res] } } :=
      ⟨h.reg, h.old.queue, h.old.running,
        fun r hr c hc => h.old.pipe r (hp ▸ List.mem_cons_of_mem _ hr) c hc, h.old.slots⟩
    exact hpop.handleResult ins fun c hc => h.old.pipe res (hp ▸ List.mem_cons_self) c hc

/-- The invariant holds in every reachable state. -/
theorem reachable_base {cfg : Config} {s : Server} (h : (system cfg).Reachable s) : Base s := by
  refine h.invariant (fun s hs => ?_) (fun lbl s s' hn hb => base_step hn hb)
  subst hs
  exact base_init cfg

end AnimateServer.ServerInv
