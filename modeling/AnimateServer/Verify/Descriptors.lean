import AnimateServer.Verify.ServerInv
import Mathlib.Data.List.Flatten
import Mathlib.Data.List.Nodup

/-!
# Descriptors and poll slots

`open` returns a descriptor that is not in use, so two clients whose pipes are
open never share one. Hence `server_remove_pollslots`, which searches by
descriptor, takes out the slot of the client it is called for, and no slot names
a client after `creg_remove`.
-/

namespace AnimateServer.Descriptors

open CLib Server ServerSteps ServerInv Registry

/-! ## Descriptors -/

def selfFds (cfg : Config) : List Int := [cfg.hskR, cfg.hskW, cfg.rpcR, cfg.rpcW]

def clientFds (r : ClientRegistry) (c : ClientRef) : List Int :=
  [(r.mem c).c2sFd, (r.mem c).s2cFd]

/-- The clients whose pipes are open. -/
def openClients (r : ClientRegistry) : List ClientRef :=
  (List.range r.brk).filter (· ∉ r.freed)

/-- Results that carry descriptors nobody else has yet. -/
def unreadFds (s : Server) : List Int := (s.pipe ++ s.history.dropped).flatMap TaskResult.fds

/-- The open descriptors other than those of the self pipes. -/
def openFds (s : Server) : List Int :=
  (openClients s.reg).flatMap (clientFds s.reg) ++ unreadFds s

/-- The descriptors in use are those of the self-pipes and those of clients and unread results. -/
theorem fdsInUse_eq (cfg : Config) (s : Server) : s.fdsInUse cfg = selfFds cfg ++ openFds s :=
  List.append_assoc _ _ _

/-- The records keep their descriptors, and nothing is allocated. -/
structure KeepsFds (r r' : ClientRegistry) : Prop where
  brk : r'.brk = r.brk
  fds : ∀ c, clientFds r' c = clientFds r c
  freed : r.freed ⊆ r'.freed

section KeepsFds

variable {r r' r'' : ClientRegistry}

/-- The relation of steps that open nothing is a preorder. -/
theorem KeepsFds.refl (r : ClientRegistry) : KeepsFds r r :=
  ⟨rfl, fun _ => rfl, List.Subset.refl _⟩

theorem KeepsFds.trans (h : KeepsFds r r') (h' : KeepsFds r' r'') : KeepsFds r r'' :=
  ⟨h'.brk.trans h.brk, fun c => (h'.fds c).trans (h.fds c), fun _ hc => h'.freed (h.freed hc)⟩

/-- A record keeps its descriptors. -/
theorem KeepsFds.c2sFd (h : KeepsFds r r') (c : ClientRef) :
    (r'.mem c).c2sFd = (r.mem c).c2sFd := by
  simpa [clientFds] using congrArg List.head? (h.fds c)

/-- The links are no descriptors. -/
theorem keepsFds_of_sameButLinks (h : SameButLinks r r') : KeepsFds r r' where
  brk := h.brk
  fds := fun c => by
    simp only [clientFds, h.c2sFd c, h.field ActiveClient.s2cFd (fun _ => rfl) c]
  freed := by rw [h.freed]; exact List.Subset.refl _

theorem keepsFds_modify (r : ClientRegistry) (c : ClientRef) {f : ActiveClient → ActiveClient}
    (hf : ∀ a, (f a).c2sFd = a.c2sFd ∧ (f a).s2cFd = a.s2cFd) : KeepsFds r (r.modify c f) := by
  refine ⟨by simp, fun d => ?_, by simp⟩
  by_cases hd : d = c
  · subst hd
    simp [clientFds, hf]
  · simp [clientFds, hd]

/-- A release closes at most. -/
theorem keepsFds_release (r : ClientRegistry) (c : ClientRef) :
    KeepsFds r (r.cregReleaseClient c) := by
  have hmod : KeepsFds r (r.modify c fun a => { a with refcount := decr a.refcount }) :=
    keepsFds_modify r c fun _ => ⟨rfl, rfl⟩
  rw [cregReleaseClient_eq]
  split
  · exact hmod.trans ⟨by simp, fun d => by simp [clientFds], by simp⟩
  · exact hmod

/-- A removal closes what its client had, if the record is destroyed with it. -/
theorem keepsFds_remove (r : ClientRegistry) (c : ClientRef) :
    KeepsFds r (((r.markdeadSection c).cregUnlink c).cregReleaseClient c) := by
  have hmark : KeepsFds r (r.markdeadSection c) := keepsFds_modify r c fun _ => ⟨rfl, rfl⟩
  exact (hmark.trans (keepsFds_of_sameButLinks (sameButLinks_cregUnlink c _))).trans
    (keepsFds_release _ c)

/-- No client comes back. -/
theorem openClients_sublist (h : KeepsFds r r') : (openClients r').Sublist (openClients r) := by
  unfold openClients
  rw [h.brk]
  refine List.monotone_filter_right _ fun c hc => ?_
  simp only [decide_eq_true_eq] at hc ⊢
  exact fun hm => hc (h.freed hm)

/-- A client has its descriptors open as long as its record has not been freed. -/
theorem mem_openClients {c : ClientRef} : c ∈ openClients r ↔ c < r.brk ∧ c ∉ r.freed := by
  simp [openClients]

end KeepsFds

/-! ## The invariant -/

/-- Open descriptors are distinct, and none is that of a self pipe. -/
structure FdInv (cfg : Config) (s : Server) : Prop where
  nodup : (openFds s).Nodup
  results : ∀ fd ∈ unreadFds s, fd ∉ selfFds cfg
  clients : ∀ c < s.reg.brk, ∀ fd ∈ clientFds s.reg c, fd ∉ selfFds cfg

/-- Every slot behind the first two holds a client that has not been removed, with its
descriptor, and no client has two slots. -/
structure SlotInv (cfg : Config) (s : Server) : Prop where
  two : 2 ≤ s.slots.count
  self : ∀ i < 2, (s.slots.pfds i).fd ∈ selfFds cfg
  client : ∀ i, 2 ≤ i → i < s.slots.count → ∃ c, s.slots.clients i = some c ∧
    c < s.reg.brk ∧ c ∉ s.history.removed ∧ (s.slots.pfds i).fd = (s.reg.mem c).c2sFd
  inj : ∀ i j, 2 ≤ i → i < s.slots.count → 2 ≤ j → j < s.slots.count →
    s.slots.clients i = s.slots.clients j → i = j

/-- No slot holds `c`. -/
def Absent (c : ClientRef) (s : Server) : Prop :=
  ∀ i, 2 ≤ i → i < s.slots.count → s.slots.clients i ≠ some c

/-- Both invariants, next to those of `ServerInv`. -/
structure Wired (cfg : Config) (s : Server) : Prop where
  base : Base s
  fd : FdInv cfg s
  slot : SlotInv cfg s

section Wired

variable {cfg : Config} {s s' : Server}

/-- A step that opens nothing keeps the descriptors apart. -/
theorem FdInv.keeps (h : FdInv cfg s) (hreg : KeepsFds s.reg s'.reg)
    (hunread : (unreadFds s').Sublist (unreadFds s)) : FdInv cfg s' where
  nodup := by
    have hclients : ((openClients s'.reg).flatMap (clientFds s'.reg)).Sublist
        ((openClients s.reg).flatMap (clientFds s.reg)) := by
      rw [funext hreg.fds]
      exact (openClients_sublist hreg).flatMap _
    exact h.nodup.sublist (hclients.append hunread)
  results := fun fd hfd => h.results fd (hunread.subset hfd)
  clients := fun c hc fd hfd => by
    rw [hreg.brk] at hc
    rw [hreg.fds] at hfd
    exact h.clients c hc fd hfd

/-- A step that touches neither slots nor removals keeps the slots in order. -/
theorem SlotInv.keeps (h : SlotInv cfg s) (hreg : KeepsFds s.reg s'.reg)
    (hslots : s'.slots = s.slots) (hremoved : s'.history.removed = s.history.removed) :
    SlotInv cfg s' where
  two := by rw [hslots]; exact h.two
  self := by rw [hslots]; exact h.self
  client := by
    rw [hslots, hremoved, hreg.brk]
    intro i h₂ hi
    rcases h.client i h₂ hi with ⟨c, hc, hlt, hnot, hfd⟩
    exact ⟨c, hc, hlt, hnot, hfd.trans (hreg.c2sFd c).symm⟩
  inj := by rw [hslots]; exact h.inj

/-- A step that leaves slots and pipe alone and removes nobody. -/
theorem Wired.keeps (h : Wired cfg s) (hbase : Base s') (hreg : KeepsFds s.reg s'.reg)
    (hslots : s'.slots = s.slots) (hremoved : s'.history.removed = s.history.removed)
    (hunread : (unreadFds s').Sublist (unreadFds s)) : Wired cfg s' :=
  ⟨hbase, h.fd.keeps hreg hunread, h.slot.keeps hreg hslots hremoved⟩

/-- Two clients with open pipes do not share a descriptor. -/
theorem FdInv.c2sFd_inj (h : FdInv cfg s) {c d : ClientRef} (hc : c ∈ openClients s.reg)
    (hd : d ∈ openClients s.reg) (heq : (s.reg.mem c).c2sFd = (s.reg.mem d).c2sFd) : c = d := by
  have hsub : ((openClients s.reg).map fun c => (s.reg.mem c).c2sFd).Sublist
      ((openClients s.reg).flatMap (clientFds s.reg)) := by
    rw [List.map_eq_flatMap]
    exact List.Sublist.flatMap_right _ fun c _ => by simp [clientFds]
  have hnodup := (List.nodup_append.mp h.nodup).1.sublist hsub
  exact List.inj_on_of_nodup_map hnodup hc hd heq

/-! ## Removal -/

/-- When a slot is given up the others move up, each with its own client. -/
theorem SlotInv.removeSlot (h : SlotInv cfg s) {fd : Int} (hfd : fd ∉ selfFds cfg) :
    SlotInv cfg (s.removeSlot fd) := by
  rcases serverRemovePollslots_cases fd s.slots with ⟨-, heq⟩ | ⟨i, hi, hmatch, heq⟩
  · exact ⟨by simpa [Server.removeSlot, heq] using h.two,
      by simpa [Server.removeSlot, heq] using h.self,
      by simpa [Server.removeSlot, heq] using h.client,
      by simpa [Server.removeSlot, heq] using h.inj⟩
  · have h₂ : 2 ≤ i := by
      by_contra hlt
      exact hfd (hmatch ▸ h.self i (by omega))
    -- what stands in a slot afterwards stood in one of a client before
    have hmoved : ∀ k, 2 ≤ k → k < s.slots.count - 1 →
        2 ≤ movedFrom s.slots i k ∧ movedFrom s.slots i k < s.slots.count := by
      intro k hk₂ hk
      unfold movedFrom
      split <;> omega
    refine ⟨?_, fun k hk => ?_, fun k hk₂ hk => ?_, fun k l hk₂ hk hl₂ hl hkl => ?_⟩ <;>
      simp only [Server.removeSlot, heq, count_moveLast] at *
    · omega
    · rw [(pfds_moveLast (by omega)).1, movedFrom, if_neg (by omega)]
      exact h.self k hk
    · rw [(pfds_moveLast hk).1, (pfds_moveLast hk).2]
      exact h.client _ (hmoved k hk₂ hk).1 (hmoved k hk₂ hk).2
    · rw [(pfds_moveLast hk).2, (pfds_moveLast hl).2] at hkl
      have hsame := h.inj _ _ (hmoved k hk₂ hk).1 (hmoved k hk₂ hk).2 (hmoved l hl₂ hl).1
        (hmoved l hl₂ hl).2 hkl
      unfold movedFrom at hsame
      split at hsame <;> split at hsame <;> omega

/-- No client polls on a self-pipe. -/
theorem Wired.c2sFd_notMem_self (h : Wired cfg s) {c : ClientRef} (hc : c < s.reg.brk) :
    (s.reg.mem c).c2sFd ∉ selfFds cfg :=
  h.fd.clients c hc _ (by simp [clientFds])

/-- Giving up the slot of a client takes it out of the array. -/
theorem Wired.removeSlot (h : Wired cfg s) {c : ClientRef} (hc : c < s.reg.brk) :
    Wired cfg (s.removeSlot (s.reg.mem c).c2sFd) :=
  ⟨h.base.removeSlot _, h.fd.keeps (.refl _) (List.Sublist.refl _),
    h.slot.removeSlot (h.c2sFd_notMem_self hc)⟩

/-- Removing the slot of a client removes its only slot. -/
theorem Wired.absent_removeSlot (h : Wired cfg s) {c : ClientRef} (hc : c < s.reg.brk) :
    Absent c (s.removeSlot (s.reg.mem c).c2sFd) := by
  intro k hk₂ hk hkc
  by_cases hrem : c ∈ s.history.removed
  · rcases (h.removeSlot hc).slot.client k hk₂ hk with ⟨d, hd, -, hnot, -⟩
    obtain rfl : d = c := Option.some.inj (hd.symm.trans hkc)
    exact hnot hrem
  · have hopen : c ∈ openClients s.reg :=
      mem_openClients.mpr ⟨hc, fun hf => hrem (h.base.reg.freed_removed c hf)⟩
    -- a slot with the descriptor of `c` is the slot of `c`
    have hslot : ∀ i, 2 ≤ i → i < s.slots.count →
        ((s.slots.pfds i).fd = (s.reg.mem c).c2sFd ↔ s.slots.clients i = some c) := by
      intro i h₂ hi
      rcases h.slot.client i h₂ hi with ⟨d, hd, hlt, hnot, hfd⟩
      rw [hd, hfd]
      refine ⟨fun heq => ?_, fun heq => by rw [Option.some.inj heq]⟩
      have hdopen : d ∈ openClients s.reg :=
        mem_openClients.mpr ⟨hlt, fun hf => hnot (h.base.reg.freed_removed d hf)⟩
      rw [h.fd.c2sFd_inj hdopen hopen heq]
    simp only [Server.removeSlot] at hk hkc
    rcases serverRemovePollslots_cases (s.reg.mem c).c2sFd s.slots with
      ⟨hnone, heq⟩ | ⟨i, hi, hmatch, heq⟩
    · rw [heq] at hk hkc
      exact hnone k hk ((hslot k hk₂ hk).mpr hkc)
    · have h₂ : 2 ≤ i := by
        by_contra hlt
        exact h.c2sFd_notMem_self hc (hmatch ▸ h.slot.self i (by omega))
      rw [heq, count_moveLast] at hk
      rw [heq, (pfds_moveLast hk).2, ← (hslot i h₂ hi).mp hmatch] at hkc
      have hsame := h.slot.inj (movedFrom s.slots i k) i
        (by unfold movedFrom; split <;> omega) (by unfold movedFrom; split <;> omega) h₂ hi hkc
      unfold movedFrom at hsame
      split at hsame <;> omega

/-- A client that has no slot can be removed. -/
theorem Wired.cregRemove (h : Wired cfg s) {c : ClientRef} (hc : c < s.reg.brk)
    (habs : Absent c s) : Wired cfg (s.cregRemove c) := by
  have hkeep := keepsFds_remove s.reg c
  refine ⟨h.base.cregRemove hc, h.fd.keeps hkeep (List.Sublist.refl _), h.slot.two, h.slot.self,
    fun i h₂ hi => ?_, h.slot.inj⟩
  rcases h.slot.client i h₂ hi with ⟨d, hd, hlt, hnot, hfd⟩
  refine ⟨d, hd, hkeep.brk.symm ▸ hlt, fun hm => ?_, hfd.trans (hkeep.c2sFd d).symm⟩
  rcases List.mem_cons.mp hm with rfl | hm
  · exact habs i h₂ hi hd
  · exact hnot hm

/-- The client in slot `i` is removed. -/
theorem Wired.removeAt (h : Wired cfg s) {i : Nat} {c : ClientRef} (hc : s.clientAt i = some c) :
    Wired cfg (s.removeAt i c) := by
  rcases clientAt_eq_some hc with ⟨h₂, hi, hslot⟩
  rcases h.slot.client i h₂ hi with ⟨d, hd, hlt, -, hfd⟩
  obtain rfl : d = c := Option.some.inj (hd.symm.trans hslot)
  unfold Server.removeAt
  rw [hfd]
  exact (h.removeSlot hlt).cregRemove hlt (h.absent_removeSlot hlt)

/-! ## The other operations -/

/-- Reading a record changes no wire. -/
theorem Wired.touch (h : Wired cfg s) (c : ClientRef) : Wired cfg (s.touch c) :=
  h.keeps (h.base.touch c) (keepsFds_of_sameButLinks (sameButLinks_touch s.reg c)) rfl rfl
    (List.Sublist.refl _)

theorem Wired.release (h : Wired cfg s) {c : ClientRef} (hc : c < s.reg.brk) :
    Wired cfg (s.release c) :=
  h.keeps (h.base.release hc) (keepsFds_release s.reg c) rfl rfl (List.Sublist.refl _)

theorem Wired.send (h : Wired cfg s) (c : ClientRef) (stamp : Nat) (line : CStr) :
    Wired cfg (s.send c stamp line) :=
  h.keeps (h.base.send c stamp line) (keepsFds_of_sameButLinks (sameButLinks_touch s.reg c)) rfl
    rfl (List.Sublist.refl _)

theorem Wired.taskEnqueue (h : Wired cfg s) (alloc : Bool) {type : TaskType} (pid : Int)
    (request : CStr) {client : ClientRef} (hc : type ≠ .HANDSHAKE → client < s.reg.brk) :
    Wired cfg (s.taskEnqueue alloc type pid request client) := by
  have hbase := h.base.taskEnqueue alloc pid request hc
  cases alloc with
  | true => exact h.keeps hbase (.refl _) rfl rfl (List.Sublist.refl _)
  | false => exact h.keeps hbase (.refl _) rfl rfl (List.Sublist.refl _)

/-- A reference that is taken changes no wire. -/
theorem Wired.acquired (h : Wired cfg s) (c : ClientRef) : Wired cfg (acquired c s) := by
  have hbase : Base (ServerSteps.acquired c s) :=
    h.base.modify c (f := fun a => { a with refcount := a.refcount + 1 })
      (fun _ => rfl) (fun _ => rfl) (fun _ => rfl)
  exact h.keeps hbase
    (keepsFds_modify s.reg c (f := fun a => { a with refcount := a.refcount + 1 })
      fun _ => ⟨rfl, rfl⟩) rfl rfl (List.Sublist.refl _)

/-- The client in a slot has not been removed. -/
theorem Wired.clientAt (h : Wired cfg s) {i : Nat} {c : ClientRef} (hc : s.clientAt i = some c) :
    c < s.reg.brk ∧ c ∉ s.history.removed := by
  rcases clientAt_eq_some hc with ⟨h₂, hi, hslot⟩
  rcases h.slot.client i h₂ hi with ⟨d, hd, hlt, hnot, -⟩
  obtain rfl : d = c := Option.some.inj (hd.symm.trans hslot)
  exact ⟨hlt, hnot⟩

/-- Only a client that has not been removed makes requests. -/
theorem Wired.request_leadsTo (h : Wired cfg s) {i : Nat} {cmd : CStr} {alloc : Bool}
    (hs : step cfg (.request i cmd alloc) s = some s') :
    ∃ c, s.clientAt i = some c ∧ c < s.reg.brk ∧ c ∉ s.history.removed ∧
      ((¬Enqueues c cmd s ∧ (s' = s ∨ IsDisconnect cmd ∧ s' = s.removeAt i c)) ∨
        (Enqueues c cmd s ∧ ∃ type args, LeadsTo cmd type ∧
          s' = (ServerSteps.acquired c s).taskEnqueue alloc type 0 args c)) := by
  rcases ServerSteps.request_cases hs with ⟨c, hc, rfl⟩
  rcases h.clientAt hc with ⟨hlt, hnot⟩
  have hfreed : c ∉ s.reg.freed := fun hf => hnot (h.base.reg.freed_removed c hf)
  -- the slot's client is not removed, so it is not dead
  have hlive : (s.reg.mem c).dead = false := by
    rw [Bool.eq_false_iff, Ne, h.base.reg.dead c hlt]
    exact hnot
  refine ⟨c, hc, hlt, hnot, ?_⟩
  rcases handleCommand_live alloc cmd hfreed hlive with
    ⟨hno, heq | ⟨hdisc, heq⟩⟩ | ⟨hyes, type, args, hleads, heq⟩
  · rw [heq]
    exact Or.inl ⟨hno, Or.inl (if_neg (by simp))⟩
  · rw [heq]
    exact Or.inl ⟨hno, Or.inr ⟨hdisc, if_pos rfl⟩⟩
  · refine Or.inr ⟨hyes, type, args, hleads, ?_⟩
    rw [heq]
    exact if_neg (by simp)

/-- What a step can do to a wired server: a request has three outcomes, and a worker leaves its
task with a result or without one. -/
inductive Moves (cfg : Config) (s : Server) : ServerLbl → Server → Prop where
  | poll (revents : Nat → Revents) :
      Moves cfg s (.poll revents) { s with slots := s.slots.poll revents }
  | handshake (pid : Int) (alloc : Bool) :
      Moves cfg s (.handshake pid alloc) (s.taskEnqueue alloc .HANDSHAKE pid [] 0)
  | ignored (i : Nat) (cmd : CStr) (alloc : Bool) (c : ClientRef)
      (slot : s.clientAt i = some c) (no : ¬Enqueues c cmd s) : Moves cfg s (.request i cmd alloc) s
  | disconnect (i : Nat) (cmd : CStr) (alloc : Bool) (c : ClientRef)
      (slot : s.clientAt i = some c) (known : c < s.reg.brk) (standing : c ∉ s.history.removed)
      (no : ¬Enqueues c cmd s) (disc : IsDisconnect cmd) :
      Moves cfg s (.request i cmd alloc) (s.removeAt i c)
  | request (i : Nat) (cmd : CStr) (alloc : Bool) (c : ClientRef) (type : TaskType) (args : CStr)
      (slot : s.clientAt i = some c) (known : c < s.reg.brk) (standing : c ∉ s.history.removed)
      (yes : Enqueues c cmd s) (leads : LeadsTo cmd type) :
      Moves cfg s (.request i cmd alloc)
        ((ServerSteps.acquired c s).taskEnqueue alloc type 0 args c)
  | hangup (i : Nat) (c : ClientRef) (slot : s.clientAt i = some c) (known : c < s.reg.brk)
      (standing : c ∉ s.history.removed) : Moves cfg s (.hangup i) (s.removeAt i c)
  | dequeue (w : Nat) (task : Task) (queue : List Task) (idle : s.workers[w]? = some none)
      (first : s.queue = task :: queue) :
      Moves cfg s (.dequeue w) { s with queue, workers := s.workers.set w (some task) }
  | posts (w : Nat) (env : Env) (task : Task) (body : ResultBody)
      (busy : s.workers[w]? = some (some task))
      (out : (workerRoutine env s.reg s.world task).2 = .posts body)
      (nodup : (⟨task.stamp, body⟩ : TaskResult).fds.Nodup)
      (fresh : ∀ fd ∈ (⟨task.stamp, body⟩ : TaskResult).fds, fd ∉ s.fdsInUse cfg) :
      Moves cfg s (.finish w env) ((afterTask w env task s).postResult cfg ⟨task.stamp, body⟩)
  | silent (w : Nat) (env : Env) (task : Task) (busy : s.workers[w]? = some (some task))
      (out : (workerRoutine env s.reg s.world task).2 = .silent) :
      Moves cfg s (.finish w env)
        { afterTask w env task s with
          history := { s.history with lost := task.client?.toList ++ s.history.lost } }
  | deliver (ins : Inserts) (res : TaskResult) (pipe : List TaskResult)
      (first : s.pipe = res :: pipe) :
      Moves cfg s (.deliver ins)
        (({ s with
          pipe
          history := { s.history with
            handled := s.history.handled ++ [res] } } : Server).handleResult ins res)

/-- Every step of a wired server is one of the moves. -/
theorem Wired.step_moves {lbl : ServerLbl} (h : Wired cfg s) (hs : step cfg lbl s = some s') :
    Moves cfg s lbl s' := by
  cases lbl with
  | poll revents =>
    obtain rfl := poll_cases hs
    exact .poll revents
  | handshake pid alloc =>
    obtain rfl := Option.some.inj hs
    exact .handshake pid alloc
  | request i cmd alloc =>
    rcases h.request_leadsTo hs with
      ⟨c, hc, hlt, hrem, ⟨hno, rfl | ⟨hdisc, rfl⟩⟩ | ⟨hyes, type, args, hleads, rfl⟩⟩
    · exact .ignored i cmd alloc c hc hno
    · exact .disconnect i cmd alloc c hc hlt hrem hno hdisc
    · exact .request i cmd alloc c type args hc hlt hrem hyes hleads
  | hangup i =>
    rcases hangup_cases hs with ⟨c, hc, rfl⟩
    exact .hangup i c hc (h.clientAt hc).1 (h.clientAt hc).2
  | dequeue w =>
    rcases dequeue_cases hs with ⟨task, queue, hw, hq, rfl⟩
    exact .dequeue w task queue hw hq
  | finish w env =>
    rcases finish_cases hs with ⟨task, hw, ⟨body, hout, hnodup, hfresh, rfl⟩ | ⟨hout, rfl⟩⟩
    · exact .posts w env task body hw hout hnodup hfresh
    · exact .silent w env task hw hout
  | deliver ins =>
    rcases deliver_cases hs with ⟨res, pipe, hp, rfl⟩
    exact .deliver ins res pipe hp

/-! ## Results -/

/-- A rejected client keeps its slot until it hangs up. -/
theorem Wired.reject (h : Wired cfg s) {c : ClientRef} (stamp : Nat) (msg : CStr)
    (hc : c < s.reg.brk) : Wired cfg (s.reject c stamp msg) := by
  have htouch := (h.release hc).touch c
  have hlt : c < ((s.release c).touch c).reg.brk := by
    simpa using hc
  have hsent := (htouch.removeSlot hlt).send c stamp msg
  exact hsent.cregRemove (by simpa using hlt)
    (htouch.absent_removeSlot hlt)

/-- An accepted one keeps it, too. -/
theorem Wired.authDone (h : Wired cfg s) {c : ClientRef} (stamp : Nat) (username : CStr)
    (balance : Int) (hc : c < s.reg.brk) : Wired cfg (s.authDone c stamp username balance) := by
  have hrel := (h.touch c).release (c := c) (by simpa using hc)
  have hname : Wired cfg (((s.touch c).release c).modify c fun a =>
      { a with username := strncpyBuf MAX_USERNAME_LEN username }) :=
    hrel.keeps (hrel.base.modify c (fun _ => rfl) (fun _ => rfl) (fun _ => rfl))
      (keepsFds_modify _ c
        (f := fun a => { a with username := strncpyBuf MAX_USERNAME_LEN username })
        fun _ => ⟨rfl, rfl⟩) rfl rfl (List.Sublist.refl _)
  have hsent := hname.send c stamp (decimal balance ++ "\n".toList)
  exact hsent.keeps (h.base.authDone stamp username balance hc)
    (keepsFds_modify _ c (f := fun a => { a with loggedIn := true }) fun _ => ⟨rfl, rfl⟩) rfl rfl
    (List.Sublist.refl _)

/-- The descriptors of a handshake whose result has been read. -/
structure Fresh (cfg : Config) (c2s s2c : Int) (s : Server) : Prop where
  nodup : (c2s :: s2c :: openFds s).Nodup
  self : c2s ∉ selfFds cfg ∧ s2c ∉ selfFds cfg

/-- Exactly the two descriptors of the handshake come in. -/
theorem openFds_withClient (hbase : Base s) (pid c2s s2c : Int) :
    (openFds (withClient pid c2s s2c s)).Perm (c2s :: s2c :: openFds s) := by
  have hlinks := sameButLinks_cregInsert pid c2s s2c s.reg
  have hreg : (withClient pid c2s s2c s).reg = (s.reg.cregInsert true pid c2s s2c).2 := rfl
  have hnew : s.reg.brk ∉ s.reg.freed := fun hf =>
    Nat.lt_irrefl _ (hbase.reg.removed_old _ (hbase.reg.freed_removed _ hf))
  have hopen : openClients (withClient pid c2s s2c s).reg = openClients s.reg ++ [s.reg.brk] := by
    have hfreed : (withClient pid c2s s2c s).reg.freed = s.reg.freed := hlinks.freed
    unfold openClients
    rw [brk_withClient, hfreed, List.range_succ, List.filter_append]
    simp [hnew]
  have hfds : ∀ c, clientFds (withClient pid c2s s2c s).reg c =
      if c = s.reg.brk then [c2s, s2c] else clientFds s.reg c := by
    intro c
    have hkeep := (keepsFds_of_sameButLinks hlinks).fds c
    rw [hreg, hkeep]
    by_cases hc : c = s.reg.brk
    · subst hc
      simp [clientFds, pushed, inserted]
    · simp [clientFds, pushed, hc]
  -- the clients of before keep their descriptors
  have hold : (openClients s.reg).flatMap (clientFds (withClient pid c2s s2c s).reg) =
      (openClients s.reg).flatMap (clientFds s.reg) := by
    refine List.flatMap_congr fun c hc => ?_
    rw [hfds, if_neg (Nat.ne_of_lt (mem_openClients.mp hc).1)]
  have hunread : unreadFds (withClient pid c2s s2c s) = unreadFds s := rfl
  unfold openFds
  rw [hopen, List.flatMap_append, hold, hunread, List.flatMap_singleton, hfds, if_pos rfl,
    List.append_assoc]
  exact List.perm_append_comm_assoc _ [c2s, s2c] _

/-- A client with new descriptors has a record of its own. -/
theorem Wired.withClient (h : Wired cfg s) (pid : Int) {c2s s2c : Int}
    (hfresh : Fresh cfg c2s s2c s) :
    Wired cfg (withClient pid c2s s2c s) := by
  have hlinks := sameButLinks_cregInsert pid c2s s2c s.reg
  have hkeep := keepsFds_of_sameButLinks hlinks
  have hbrk := brk_withClient pid c2s s2c s
  refine ⟨h.base.withClient pid c2s s2c, ⟨?_, h.fd.results, fun c hc fd hfd => ?_⟩, h.slot.two,
    h.slot.self, fun i h₂ hi => ?_, h.slot.inj⟩
  · exact (openFds_withClient h.base pid c2s s2c).nodup_iff.mpr hfresh.nodup
  · rw [hbrk] at hc
    rw [show clientFds (ServerInv.withClient pid c2s s2c s).reg c = _ from hkeep.fds c] at hfd
    by_cases hnew : c = s.reg.brk
    · subst hnew
      simp only [clientFds, pushed, Function.update_self, inserted, List.mem_cons,
        List.not_mem_nil, or_false] at hfd
      rcases hfd with rfl | rfl
      · exact hfresh.self.1
      · exact hfresh.self.2
    · simp only [clientFds, pushed, Function.update_of_ne hnew] at hfd
      exact h.fd.clients c (by omega) fd hfd
  · -- the slots still name clients of before
    rcases h.slot.client i h₂ hi with ⟨c, hc, hlt, hnot, hfd⟩
    refine ⟨c, hc, hbrk ▸ Nat.lt_succ_of_lt hlt, hnot, hfd.trans ?_⟩
    rw [show ((ServerInv.withClient pid c2s s2c s).reg.mem c).c2sFd = _ from hkeep.c2sFd c]
    simp [pushed, Nat.ne_of_lt hlt]

/-- A new client has one slot, the last one, or none and is removed again. -/
theorem Wired.handshakeDone (h : Wired cfg s) (ins : Inserts) {pid c2s s2c : Int}
    (hfresh : Fresh cfg c2s s2c s) : Wired cfg (s.handshakeDone ins pid c2s s2c) := by
  have hnew := h.withClient pid hfresh
  have hbrk := brk_withClient pid c2s s2c s
  have hbase := h.base.handshakeDone ins pid c2s s2c
  -- `c2s` is what the new slot and the new record agree on
  have hfdnew : ((ServerInv.withClient pid c2s s2c s).reg.mem s.reg.brk).c2sFd = c2s := by
    have hkeep := keepsFds_of_sameButLinks (sameButLinks_cregInsert pid c2s s2c s.reg)
    rw [show ((ServerInv.withClient pid c2s s2c s).reg.mem s.reg.brk).c2sFd = _ from
      hkeep.c2sFd s.reg.brk]
    simp [pushed, inserted]
  rcases handshakeDone_cases ins pid c2s s2c s with
    heq | ⟨slots, ⟨⟨hcount, hpfds, hclients⟩, heq⟩ | ⟨⟨hcount, hpfds, hclients⟩, heq⟩⟩
  · rwa [heq]
  · -- the new slot is the one at `count`
    rw [heq] at hbase ⊢
    have hold := h.slot.two
    refine ⟨hbase, ⟨hnew.fd.nodup, hnew.fd.results, hnew.fd.clients⟩, ?_, fun i hi => ?_,
      fun i h₂ hi => ?_, fun i j hi₂ hi hj₂ hj hij => ?_⟩ <;> dsimp only at *
    · omega
    · rw [hpfds, Function.update_of_ne (by omega)]
      exact h.slot.self i hi
    · rw [hpfds, hclients]
      by_cases hic : i = s.slots.count
      · subst hic
        refine ⟨s.reg.brk, by simp, hbrk ▸ Nat.lt_succ_self _, fun hm => ?_, ?_⟩
        · exact Nat.lt_irrefl _ (h.base.reg.removed_old _ hm)
        · simpa using hfdnew.symm
      · rw [Function.update_of_ne hic, Function.update_of_ne hic]
        exact hnew.slot.client i h₂ (by change i < s.slots.count; omega)
    · -- no slot had the new client before
      have hne : ∀ k, 2 ≤ k → k < s.slots.count → s.slots.clients k ≠ some s.reg.brk := by
        intro k hk₂ hk hkc
        exact Nat.lt_irrefl _ (h.base.old.slots k hk₂ hk _ hkc)
      rw [hclients] at hij
      by_cases hic : i = s.slots.count <;> by_cases hjc : j = s.slots.count
      · rw [hic, hjc]
      · subst hic
        rw [Function.update_self, Function.update_of_ne hjc] at hij
        exact absurd hij.symm (hne j hj₂ (by omega))
      · subst hjc
        rw [Function.update_self, Function.update_of_ne hic] at hij
        exact absurd hij (hne i hi₂ (by omega))
      · rw [Function.update_of_ne hic, Function.update_of_ne hjc] at hij
        exact h.slot.inj i j hi₂ (by omega) hj₂ (by omega) hij
  · -- no slot: the new client is removed again, and the slots are as before
    rw [heq]
    have hslots : Wired cfg { ServerInv.withClient pid c2s s2c s with slots } := by
      refine ⟨⟨hnew.base.reg, hnew.base.old.queue, hnew.base.old.running, hnew.base.old.pipe, ?_⟩,
        ⟨hnew.fd.nodup, hnew.fd.results, hnew.fd.clients⟩, ?_, ?_, ?_, ?_⟩ <;>
        dsimp only
      · rw [hcount, hclients]
        exact hnew.base.old.slots
      · rw [hcount]
        exact hnew.slot.two
      · rw [hpfds]
        exact hnew.slot.self
      · rw [hcount, hclients, hpfds]
        exact hnew.slot.client
      · rw [hcount, hclients]
        exact hnew.slot.inj
    refine hslots.cregRemove (hbrk ▸ Nat.lt_succ_self _) fun i h₂ hi hic => ?_
    dsimp only at hi hic
    rw [hcount] at hi
    rw [hclients] at hic
    exact Nat.lt_irrefl _ (h.base.old.slots i h₂ hi _ hic)

/-- Taking the first result out of the pipe. -/
theorem Wired.pop (h : Wired cfg s) {res : TaskResult} {pipe : List TaskResult}
    (hp : s.pipe = res :: pipe) (handled : List TaskResult) :
    Wired cfg { s with pipe, history := { s.history with handled } } ∧
      ∀ pid c2s s2c, res.body = .HSK_OK pid c2s s2c →
        Fresh cfg c2s s2c { s with pipe, history := { s.history with handled } } := by
  have hunread : unreadFds s = res.fds ++ (pipe ++ s.history.dropped).flatMap TaskResult.fds := by
    rw [unreadFds, hp, List.cons_append, List.flatMap_cons]
  have hsub : ((pipe ++ s.history.dropped).flatMap TaskResult.fds).Sublist (unreadFds s) := by
    rw [hunread]
    exact List.sublist_append_right _ _
  refine ⟨h.keeps ⟨h.base.reg, h.base.old.queue, h.base.old.running,
    fun r hr c hc => h.base.old.pipe r (hp ▸ List.mem_cons_of_mem _ hr) c hc, h.base.old.slots⟩
    (.refl _) rfl rfl hsub, fun pid c2s s2c hbody => ?_⟩
  have hfds : res.fds = [c2s, s2c] := by simp [TaskResult.fds, hbody]
  -- the descriptors of the result are on their way from the pipe to a record
  have hperm : (openFds s).Perm (res.fds ++ openFds { s with
      pipe, history := { s.history with handled } }) := by
    unfold openFds
    rw [hunread]
    exact List.perm_append_comm_assoc _ _ _
  refine ⟨?_, h.fd.results _ ?_, h.fd.results _ ?_⟩
  · have hnodup := hperm.nodup_iff.mp h.fd.nodup
    rwa [hfds] at hnodup
  · simp [hunread, hfds]
  · simp [hunread, hfds]

/-- A result is handled for a client that exists; a handshake brings fresh descriptors. -/
theorem Wired.handleResult (h : Wired cfg s) (ins : Inserts) {res : TaskResult}
    (hc : ∀ c, res.client? = some c → c < s.reg.brk)
    (hfresh : ∀ pid c2s s2c, res.body = .HSK_OK pid c2s s2c → Fresh cfg c2s s2c s) :
    Wired cfg (s.handleResult ins res) := by
  rcases res with ⟨stamp, body⟩
  cases body with
  | HSK_OK pid c2s s2c => exact h.handshakeDone ins (hfresh pid c2s s2c rfl)
  | AUTH_OK c username balance => exact h.authDone stamp username balance (hc c rfl)
  | AUTH_NO c => exact h.reject stamp _ (hc c rfl)
  | AUTH_UN c => exact h.reject stamp _ (hc c rfl)
  | RPC_DONE c rv => exact (h.release (hc c rfl)).send c stamp _

/-- A result that is posted owns the descriptors that it brings. -/
theorem Wired.postResult (h : Wired cfg s) {res : TaskResult} (hbase : Base (s.postResult cfg res))
    (hnodup : res.fds.Nodup) (hfresh : ∀ fd ∈ res.fds, fd ∉ s.fdsInUse cfg) :
    Wired cfg (s.postResult cfg res) := by
  rw [fdsInUse_eq] at hfresh
  -- the descriptors of the result are unread, in the pipe or lost
  have hunread : (unreadFds (s.postResult cfg res)).Perm (res.fds ++ unreadFds s) := by
    rw [postResult_eq]
    split
    · simp only [unreadFds, List.flatMap_append, List.append_assoc, List.flatMap_singleton]
      exact List.perm_append_comm_assoc _ _ _
    · simp only [unreadFds, List.flatMap_append, List.flatMap_singleton, ← List.append_assoc]
      exact List.perm_append_comm.trans (by simp)
  have hreg : (s.postResult cfg res).reg = s.reg := by
    rw [postResult_eq]
    split <;> rfl
  have hslots : (s.postResult cfg res).slots = s.slots := by
    rw [postResult_eq]
    split <;> rfl
  have hremoved : (s.postResult cfg res).history.removed = s.history.removed := by
    rw [postResult_eq]
    split <;> rfl
  refine ⟨hbase, ⟨?_, fun fd hfd => ?_, by rw [hreg]; exact h.fd.clients⟩,
    h.slot.keeps (by rw [hreg]; exact .refl _) hslots hremoved⟩
  · have hperm : (openFds (s.postResult cfg res)).Perm (res.fds ++ openFds s) := by
      unfold openFds
      rw [hreg]
      exact (hunread.append_left _).trans (List.perm_append_comm_assoc _ _ _)
    refine hperm.nodup_iff.mpr (List.nodup_append.mpr ⟨hnodup, h.fd.nodup, ?_⟩)
    rintro fd hfd _ hopen rfl
    exact hfresh fd hfd (List.mem_append_right _ hopen)
  · rcases List.mem_append.mp (hunread.mem_iff.mp hfd) with hfd | hfd
    · exact fun hself => hfresh fd hfd (List.mem_append_left _ hself)
    · exact h.fd.results fd hfd

theorem Wired.afterTask (h : Wired cfg s) {w : Nat} {task : Task}
    (hw : s.workers[w]? = some (some task)) (env : Env) : Wired cfg (afterTask w env task s) :=
  h.keeps (h.base.afterTask hw env)
    (keepsFds_of_sameButLinks (sameButLinks_afterTask w env task s)) rfl rfl
    (List.Sublist.refl _)

/-- A handler opens no descriptor that stays open. -/
theorem fdsInUse_afterTask (cfg : Config) (w : Nat) (env : Env) (task : Task) (s : Server) :
    (afterTask w env task s).fdsInUse cfg = s.fdsInUse cfg := by
  rcases s.reg.touchAll_eq (workerRoutine env s.reg s.world task).1.visited with ⟨fs, hfs⟩
  simp only [ServerSteps.afterTask, hfs]
  rfl

end Wired

/-! ## Steps -/

/-- At the start only the self-pipes are open. -/
theorem wired_init (cfg : Config) : Wired cfg (init cfg) where
  base := base_init cfg
  fd := by
    refine ⟨?_, ?_, ?_⟩ <;>
      simp [openFds, openClients, unreadFds, init, ClientRegistry.init]
  slot := by
    refine ⟨?_, ?_, ?_, ?_⟩ <;> simp only [init, PollSlots.init] <;> intros <;> try omega
    rename_i i hi
    have : i = 0 ∨ i = 1 := by omega
    rcases this with rfl | rfl <;> simp [selfFds]

theorem wired_step {cfg : Config} {lbl : ServerLbl} {s s' : Server}
    (hs : step cfg lbl s = some s') (h : Wired cfg s) : Wired cfg s' := by
  have hbase := base_step hs h.base
  cases h.step_moves hs with
  | poll revents =>
    refine ⟨hbase, ⟨h.fd.nodup, h.fd.results, h.fd.clients⟩, h.slot.two, fun i hi => ?_,
      fun i h₂ hi => ?_, h.slot.inj⟩
    · rw [fd_poll]
      exact h.slot.self i hi
    · rw [fd_poll]
      exact h.slot.client i h₂ hi
  | handshake pid alloc => exact h.taskEnqueue alloc pid [] fun hne => absurd rfl hne
  | ignored => exact h
  | disconnect i cmd alloc c hc => exact h.removeAt hc
  | request i cmd alloc c type args hc hlt =>
    exact (h.acquired c).taskEnqueue alloc 0 args fun _ => by simpa [ServerSteps.acquired] using hlt
  | hangup i c hc => exact h.removeAt hc
  | dequeue => exact h.keeps hbase (.refl _) rfl rfl (List.Sublist.refl _)
  | posts w env task body hw hout hnodup hfresh =>
    refine (h.afterTask hw env).postResult hbase hnodup ?_
    rwa [fdsInUse_afterTask]
  | silent w env task hw =>
    exact (h.afterTask hw env).keeps hbase (.refl _) rfl rfl (List.Sublist.refl _)
  -- the descriptors of a result are fresh for what is left when it is gone from the pipe
  | deliver ins res pipe hp =>
    rcases h.pop hp (s.history.handled ++ [res]) with ⟨hpop, hfresh⟩
    exact hpop.handleResult ins (fun c hc => h.base.old.pipe res (hp ▸ List.mem_cons_self) c hc)
      hfresh

/-- The server is wired in every reachable state. -/
theorem reachable_wired {cfg : Config} {s : Server} (h : (system cfg).Reachable s) :
    Wired cfg s := by
  refine h.invariant (fun s hs => ?_) (fun lbl s s' hn hw => wired_step hn hw)
  subst hs
  exact wired_init cfg

end AnimateServer.Descriptors
