import AnimateServer.Verify.RpcPipe

/-!
# The main loop comes to rest

When no new pid and no new request comes in, the main loop and the workers work off what has
been accepted, while clients may still hang up. Every turn lowers a measure: a task is worth
four units in the queue, three with a worker and two as a result in the pipe, a client that has
a slot is worth one, and a unit is worth more than all turns of one wake of the main loop, which
has a bounded number of slots to look at. `poll` itself only returns for a result or for a
client that has gone, and the wake then reads the one and removes the other.
-/

namespace AnimateServer.Quiescence

open CLib Server ServerSteps ServerInv Descriptors Transition

/-- The client in a slot is about to be removed, with `req` requests read in this wake: `poll`
has reported an error, or the end of the FIFO is what the next read finds. -/
def Gone (revents : Revents) (req : Nat) : Prop :=
  revents.failed = true ∨ revents.pollhup = true ∧ req < FIFO_MAX_PER_WAKE

instance (revents : Revents) (req : Nat) : Decidable (Gone revents req) :=
  inferInstanceAs (Decidable (_ ∨ _))

/-- One of the clients has hung up. -/
def Departs (revents : Nat → Revents) (s : Server) : Prop :=
  ∃ j, j < s.slots.count ∧ 2 ≤ j ∧ Gone (revents j) 0

instance (revents : Nat → Revents) (s : Server) : Decidable (Departs revents s) :=
  inferInstanceAs (Decidable (∃ j, j < s.slots.count ∧ 2 ≤ j ∧ Gone (revents j) 0))

/-- A turn that takes in no pid and no request. `poll` returns for a result or a client that
has hung up, and who has hung up is removed. -/
def Quiet : LoopLbl → MainLoop → Prop
  | .poll revents, m => (revents 0).pollin = false ∧ (m.server.pipe ≠ [] ∨ Departs revents m.server)
  | .nextSlot, ⟨s, .client i req⟩ => ¬ Gone (s.slots.pfds i).revents req
  | .readHsk _ _, _ | .request _ _, _ => False
  | _, _ => True

instance : ∀ lbl m, Decidable (Quiet lbl m)
  | .poll _, _ => inferInstanceAs (Decidable (_ ∧ _))
  | .nextSlot, ⟨_, .client _ _⟩ => inferInstanceAs (Decidable (¬ _))
  | .readHsk _ _, _ | .request _ _, _ => .isFalse id
  | .nextSlot, ⟨_, .poll⟩ | .nextSlot, ⟨_, .hsk _⟩ | .nextSlot, ⟨_, .rpc _⟩ => .isTrue trivial
  | .hskDone, _ | .readRpc _, _ | .rpcDone, _ | .hangup, _ | .wakeDone, _ | .dequeue _, _
  | .finish _ _, _ => .isTrue trivial

/-! ### The measure -/

/-- The units of work that are left. -/
def work (s : Server) : Nat :=
  4 * s.queue.length + 3 * s.running.length + 2 * s.pipe.length + (s.slots.count - 2)

/-- No wake will find more slots than this: every task may be a handshake. -/
def width (s : Server) : Nat :=
  s.slots.count + s.queue.length + s.running.length + s.pipe.length

/-- The wake has found a result and has not read it. -/
def owesResult (m : MainLoop) : Bool :=
  (m.server.slots.pfds 1).revents.pollin &&
    match m.pc with
    | .hsk _ | .rpc 0 => true
    | _ => false

/-- A slot from `i` on holds a client to be removed, with `req` requests read in slot `i`. -/
def GoneFrom (i req : Nat) (p : PollSlots) : Prop :=
  ∃ j, j < p.count ∧
    (j = i ∧ Gone (p.pfds j).revents req ∨ i < j ∧ Gone (p.pfds j).revents 0)

instance (i req : Nat) (p : PollSlots) : Decidable (GoneFrom i req p) :=
  inferInstanceAs (Decidable (∃ j, j < p.count ∧ (_ ∨ _)))

/-- The wake has found that a client has gone, and has not come to its slot. -/
def owesRemoval (m : MainLoop) : Bool :=
  match m.pc with
  | .poll => false
  | .hsk _ | .rpc _ => decide (GoneFrom 2 0 m.server.slots)
  | .client i req => decide (GoneFrom i req m.server.slots)

/-- The wake has found something to do and has not done it. -/
def owes (m : MainLoop) : Bool := owesResult m || owesRemoval m

/-- A bound for the turns up to the next `poll`. -/
def turns (m : MainLoop) : Nat :=
  match m.pc with
  | .poll => 0
  | .hsk _ => width m.server + 8
  | .rpc i => width m.server + 7 - i
  | .client i _ => m.server.slots.count - i + 1

def rank (m : MainLoop) : Nat :=
  (width m.server + 10) * (work m.server - (owes m).toNat) + turns m

/-- A wake that owes the reading of a result finds one in the pipe. -/
def Owing (m : MainLoop) : Prop := owesResult m = true → m.server.pipe ≠ []

/-- The slots of the clients are those from 2 on. -/
def AtClient (m : MainLoop) : Prop :=
  match m.pc with
  | .client i _ => 2 ≤ i
  | _ => True

/-- What the measure rests on. -/
structure Settled (cfg : Config) (m : MainLoop) : Prop where
  wired : Wired cfg m.server
  budget : RpcPipe.WithinBudget m
  owing : Owing m
  client : AtClient m

section Server

variable {cfg : Config} {s s' : Server}

end Server

/-! ### The loop -/

section Loop

variable {cfg : Config} {m m' : MainLoop} {lbl : LoopLbl}

/-- The client of slot `i` stays, so who is to be removed comes behind it. -/
theorem GoneFrom.succ {i req : Nat} {p : PollSlots} (h : GoneFrom i req p)
    (hstays : ¬ Gone (p.pfds i).revents req) : GoneFrom (i + 1) 0 p := by
  rcases h with ⟨j, hj, ⟨rfl, hgone⟩ | ⟨hlt, hgone⟩⟩
  · exact absurd hgone hstays
  · rcases Nat.eq_or_lt_of_le (Nat.succ_le_of_lt hlt) with heq | hlt
    · exact ⟨j, hj, Or.inl ⟨heq.symm, hgone⟩⟩
    · exact ⟨j, hj, Or.inr ⟨hlt, hgone⟩⟩

/-- A wake has at most as many turns as there are slots, and eight for the two loops. -/
theorem turns_le (m : MainLoop) : turns m ≤ width m.server + 8 := by
  rcases m with ⟨s, pc⟩
  cases pc <;> simp only [turns, width] <;> omega

section Turns

variable {s s' : Server} {pc : LoopPc}

end Turns

/-- No turn can be made without new input, but for another client that hangs up. -/
def AtRest (cfg : Config) (m : MainLoop) : Prop :=
  ∀ lbl m', Quiet lbl m → MainLoop.step cfg lbl m = some m' →
    ∃ revents, lbl = .poll revents ∧ Departs revents m.server

/-- A turn other than `poll` is not left. -/
theorem AtRest.stuck (hrest : AtRest cfg m) (lbl : LoopLbl) (hq : Quiet lbl m)
    (hpoll : ∀ revents, lbl ≠ .poll revents) : MainLoop.step cfg lbl m = none := by
  by_contra hne
  rcases Option.ne_none_iff_exists'.mp hne with ⟨m', hs⟩
  rcases hrest lbl m' hq hs with ⟨revents, heq, -⟩
  exact hpoll revents heq

/-- `poll` has found nothing but results. -/
def onlyResults (i : Nat) : Revents := if i = 1 then ⟨true, false, false, false⟩ else .none

/-- Nobody hangs up here. -/
theorem not_departs_onlyResults (s : Server) : ¬ Departs onlyResults s := by
  rintro ⟨j, -, htwo, hgone⟩
  have hj : onlyResults j = .none := if_neg (Nat.ne_of_gt htwo)
  rw [hj] at hgone
  exact absurd hgone (by decide)

/-- The main loop does not stop anywhere but in `poll`, and there only with an empty pipe. -/
theorem AtRest.poll (hrest : AtRest cfg m) (h : Settled cfg m) :
    m.pc = .poll ∧ m.server.pipe = [] := by
  rcases m with ⟨s, pc⟩
  cases pc with
  | poll =>
    refine ⟨rfl, ?_⟩
    by_contra hne
    have hne : s.pipe ≠ [] := hne
    -- with a result in the pipe `poll` would return for it
    have hstep : ∃ m', MainLoop.step cfg (.poll onlyResults) ⟨s, .poll⟩ = some m' := by
      simp [MainLoop.step, Server.poll, onlyResults, hne]
    rcases hstep with ⟨m', hs⟩
    rcases hrest (.poll onlyResults) m' ⟨rfl, Or.inl hne⟩ hs with ⟨revents, heq, hdeparts⟩
    cases heq
    exact not_departs_onlyResults s hdeparts
  | hsk i =>
    have hstep := hrest.stuck .hskDone trivial (by simp)
    cases hstep
  | rpc i =>
    exfalso
    have hexit := hrest.stuck .rpcDone trivial (by simp)
    have hread := hrest.stuck (.readRpc ⟨true, true, true⟩) trivial (by simp)
    have hbudget : i ≤ RPC_MAX_PER_WAKE := h.budget
    simp only [MainLoop.step, ite_eq_right_iff, reduceCtorEq, imp_false, not_or] at hexit hread
    rcases hexit with ⟨hready, hi, hne⟩
    rcases List.exists_cons_of_ne_nil hne with ⟨res, pipe, hp⟩
    simp only [Server.deliver, hp, Option.map_some, reduceCtorEq, imp_false, not_and] at hread
    exact hread (by simpa using hready) (Nat.lt_of_le_of_ne hbudget hi)
  | client i req =>
    exfalso
    have hi : i < s.slots.count := by
      by_contra hge
      have hdone := hrest.stuck .wakeDone trivial (by simp)
      simp [MainLoop.step, Nat.le_of_not_lt hge] at hdone
    rcases h.wired.slot.client i h.client hi with ⟨c, hc, -⟩
    have hat : s.clientAt i = some c := (if_pos ⟨h.client, hi⟩).trans hc
    by_cases hgone : Gone (s.slots.pfds i).revents req
    · -- who has hung up is removed
      have hhangup := hrest.stuck .hangup trivial (by simp)
      have hready : (s.slots.pfds i).revents.failed ∨
          (s.slots.pfds i).revents.readable ∧ req < FIFO_MAX_PER_WAKE := by
        rcases hgone with hfailed | ⟨hhup, hreq⟩
        · exact Or.inl hfailed
        · cases hfailed : (s.slots.pfds i).revents.failed with
          | true => exact Or.inl rfl
          | false => exact Or.inr ⟨by simp [Revents.readable, hfailed, hhup], hreq⟩
      simp only [MainLoop.step, if_pos hready, Server.hangup, hat, Option.map_some,
        reduceCtorEq] at hhangup
    · have hnext := hrest.stuck .nextSlot hgone (by simp)
      have hfailed : (s.slots.pfds i).revents.failed = false :=
        Bool.eq_false_iff.mpr fun hf => hgone (Or.inl hf)
      simp [MainLoop.step, hi, hfailed] at hnext

/-- A worker that cannot finish has run into undefined behaviour, or has descriptors that are
not free. -/
theorem finish_eq_none {s : Server} {w : Nat} {env : Env} {t : Task}
    (hw : s.workers[w]? = some (some t)) (h : s.finish cfg w env = none) :
    (workerRoutine env s.reg s.world t).2 = .undefined ∨
      ∃ body, (workerRoutine env s.reg s.world t).2 = .posts body ∧
        (⟨t.stamp, body⟩ : TaskResult).fds ≠ [] := by
  simp only [Server.finish, hw] at h
  cases hout : (workerRoutine env s.reg s.world t).2 with
  | undefined => exact Or.inl rfl
  | silent =>
    simp only [hout, reduceCtorEq] at h
  | posts body =>
    refine Or.inr ⟨body, rfl, fun hnil => ?_⟩
    simp only [hout, hnil, List.nodup_nil, List.not_mem_nil, false_implies, implies_true, and_self,
      if_true, reduceCtorEq] at h

/-- A login opens no descriptor. -/
theorem fds_authorise (env : Env) (c : ClientRef) (request : CStr) (stamp : Nat) :
    (⟨stamp, authorise env c request⟩ : TaskResult).fds = [] := by
  unfold authorise
  split <;> rfl

/-- A worker that still has a task has run into undefined behaviour. -/
theorem AtRest.running (hrest : AtRest cfg m) {t : Task} (ht : t ∈ m.server.running) (env : Env) :
    (workerRoutine env m.server.reg m.server.world t).2 = .undefined := by
  rcases m with ⟨s, pc⟩
  rcases List.mem_filterMap.mp ht with ⟨slot, hslot, hid⟩
  rcases List.mem_iff_getElem?.mp hslot with ⟨w, hw⟩
  have hw : s.workers[w]? = some (some t) := by
    rw [hw]
    exact congrArg some hid
  have hfinish : ∀ env, s.finish cfg w env = none := fun env => by
    have hstep := hrest.stuck (.finish w env) trivial (by simp)
    simpa only [MainLoop.step, Option.map_eq_none_iff] using hstep
  cases hinfo : t.info with
  | handshake pid c2sName s2cName =>
    -- a handshake may fail, and then the worker is through with it
    have hsilent : (workerRoutine { env with hsk := none } s.reg s.world t).2 = .silent := by
      simp [workerRoutine, hinfo]
    rcases finish_eq_none hw (hfinish { env with hsk := none }) with hout | ⟨body, hout, -⟩ <;>
    · rw [hsilent] at hout
      cases hout
  | rpc c request =>
    rcases finish_eq_none hw (hfinish env) with hout | ⟨body, hout, hfds⟩
    · exact hout
    · exfalso
      rcases workerRoutine_cases env s.reg s.world t with ⟨hnone, -⟩ |
        ⟨c', request', -, ⟨-, heq⟩ | ⟨-, heq⟩ | ⟨-, -, hu | ⟨rv, hp⟩⟩⟩
      · simp [Task.client?, hinfo] at hnone
      · rw [heq] at hout
        cases hout
        exact hfds (fds_authorise env c' request' t.stamp)
      · rw [heq] at hout
        cases hout
      · rw [hu] at hout
        cases hout
      · rw [hp] at hout
        cases hout
        exact hfds rfl

/-- Tasks wait only for workers that have run into undefined behaviour. -/
theorem AtRest.queue (hrest : AtRest cfg m) (hne : m.server.queue ≠ []) :
    ∀ slot ∈ m.server.workers, slot ≠ none := by
  rcases m with ⟨s, pc⟩
  rintro slot hslot rfl
  rcases List.mem_iff_getElem?.mp hslot with ⟨w, hw⟩
  rcases List.exists_cons_of_ne_nil hne with ⟨t, queue, hq⟩
  have hstep := hrest.stuck (.dequeue w) trivial (by simp)
  have hq : s.queue = t :: queue := hq
  have hw : s.workers[w]? = some none := hw
  simp [MainLoop.step, Server.dequeue, hw, hq] at hstep

end Loop

/-! ### Where the accepted tasks are -/

/-- The results that have been written to the pipe or were lost there. -/
def results (s : Server) : List TaskResult := s.history.handled ++ s.pipe ++ s.history.dropped

/-- A task without a client is a handshake. -/
def Typed (t : Task) : Prop := t.client? = none → t.type = .HANDSHAKE

/-- Every accepted command or login waits, runs, or has a result. -/
structure Placed (s : Server) : Prop where
  queue : ∀ t ∈ s.queue, Typed t
  running : ∀ t ∈ s.running, Typed t
  accepted : ∀ t ∈ s.history.accepted, t.type ≠ .HANDSHAKE → t.type ≠ .BARRIER →
    t ∈ s.queue ∨ t ∈ s.running ∨ ∃ r ∈ results s, r.stamp = t.stamp

section Placed

variable {cfg : Config} {s s' : Server}

/-- A step that does no work leaves every task where it is. -/
theorem Placed.congr (h : Placed s) (hw : SameWork s s') : Placed s' where
  queue := by rw [hw.queue]; exact h.queue
  running := by rw [hw.running]; exact h.running
  accepted := by
    rw [hw.accepted, hw.queue, hw.running, results, hw.handled, hw.pipe, hw.dropped]
    exact h.accepted

/-- Only a handshake has no client. -/
theorem typed_newTask (stamp : Nat) (type : TaskType) (pid : Int) (request : CStr)
    (c : ClientRef) : Typed (newTask stamp type pid request c) := by
  intro hnone
  cases type with
  | HANDSHAKE => rfl
  | _ => cases hnone

/-- A new task is in the queue. -/
theorem Placed.taskEnqueue (h : Placed s) (alloc : Bool) (type : TaskType) (pid : Int)
    (request : CStr) (c : ClientRef) : Placed (s.taskEnqueue alloc type pid request c) := by
  cases alloc with
  | true =>
    refine ⟨fun t ht => ?_, h.running, fun t ht hhsk hbar => ?_⟩
    · rcases List.mem_append.mp ht with ht | ht
      · exact h.queue t ht
      · obtain rfl := List.mem_singleton.mp ht
        exact typed_newTask _ _ _ _ _
    · rcases List.mem_append.mp ht with ht | ht
      · exact (h.accepted t ht hhsk hbar).imp_left (List.mem_append_left _)
      · exact Or.inl (List.mem_append_right _ ht)
  | false => exact ⟨h.queue, h.running, h.accepted⟩

/-- A task goes from the queue to a worker. -/
theorem Placed.dequeue (h : Placed s) {w : Nat} (hs : s.dequeue w = some s') : Placed s' := by
  rcases dequeue_cases hs with ⟨task, queue, hw, hq, rfl⟩
  have hrunning := running_set_some (t := task) hw
  refine ⟨fun t ht => h.queue t (hq ▸ List.mem_cons_of_mem _ ht), fun t ht => ?_,
    fun t ht hhsk hbar => ?_⟩
  · rcases List.mem_cons.mp (hrunning.mem_iff.mp ht) with rfl | ht
    · exact h.queue t (hq ▸ List.mem_cons_self)
    · exact h.running t ht
  · rcases h.accepted t ht hhsk hbar with hm | hm | hr
    · rw [hq] at hm
      rcases List.mem_cons.mp hm with rfl | hm
      · exact Or.inr (Or.inl (hrunning.mem_iff.mpr List.mem_cons_self))
      · exact Or.inl hm
    · exact Or.inr (Or.inl (hrunning.mem_iff.mpr (List.mem_cons_of_mem _ hm)))
    · exact Or.inr (Or.inr hr)

/-- Worker `w` lets go of its task. -/
theorem Placed.finished (h : Placed s) {w : Nat} {task : Task}
    (hw : s.workers[w]? = some (some task)) (hqueue : s'.queue = s.queue)
    (hworkers : s'.workers = s.workers.set w none)
    (haccepted : s'.history.accepted = s.history.accepted)
    (hkept : ∀ r ∈ results s, r ∈ results s')
    (hdone : task.type = .HANDSHAKE ∨ task.type = .BARRIER ∨
      ∃ r ∈ results s', r.stamp = task.stamp) : Placed s' := by
  -- one task leaves the workers, and its result is in the pipe or was dropped
  have hrunning : s.running.Perm (task :: s'.running) := by
    rw [Server.running, Server.running, hworkers]
    exact running_set_none hw
  refine ⟨by rw [hqueue]; exact h.queue,
    fun t ht => h.running t (hrunning.mem_iff.mpr (List.mem_cons_of_mem _ ht)),
    fun t ht hhsk hbar => ?_⟩
  rw [haccepted] at ht
  rw [hqueue]
  rcases h.accepted t ht hhsk hbar with hm | hm | ⟨r, hr, heq⟩
  · exact Or.inl hm
  · rcases List.mem_cons.mp (hrunning.mem_iff.mp hm) with rfl | hm
    · exact Or.inr (Or.inr ((hdone.resolve_left hhsk).resolve_left hbar))
    · exact Or.inr (Or.inl hm)
  · exact Or.inr (Or.inr ⟨r, hkept r hr, heq⟩)

/-- A task goes from its worker to the pipe, or to the results that were dropped. -/
theorem Placed.finish (h : Placed s) {w : Nat} {env : Env}
    (hs : s.finish cfg w env = some s') : Placed s' := by
  rcases finish_cases hs with ⟨task, hw, ⟨body, -, -, -, rfl⟩ | ⟨hsilent, rfl⟩⟩
  · rw [postResult_eq]
    split
    · refine h.finished hw rfl rfl rfl (fun r hr => ?_)
        (Or.inr (Or.inr ⟨⟨task.stamp, body⟩, ?_, rfl⟩))
      · simp only [results, afterTask, List.mem_append] at hr ⊢
        tauto
      · simp [results]
    · refine h.finished hw rfl rfl rfl (fun r hr => ?_)
        (Or.inr (Or.inr ⟨⟨task.stamp, body⟩, ?_, rfl⟩))
      · simp only [results, afterTask, List.mem_append] at hr ⊢
        tauto
      · simp [results]
  · refine h.finished hw rfl rfl rfl (fun r hr => hr) ?_
    -- without a result: a task without a client is a handshake, the others are barriers
    rcases type_of_silent hsilent with hnone | hbar | hhsk
    · exact Or.inl (h.running task (mem_running hw) hnone)
    · exact Or.inr (Or.inl hbar)
    · exact Or.inl hhsk

/-- A result goes from the pipe to those that have been handled. -/
theorem Placed.deliver (h : Placed s) {ins : Inserts} (hs : s.deliver ins = some s') :
    Placed s' := by
  rcases deliver_cases hs with ⟨res, pipe, hp, rfl⟩
  have hpop : Placed { s with
      pipe
      history := { s.history with handled := s.history.handled ++ [res] } } := by
    refine ⟨h.queue, h.running, fun t ht hhsk hbar => ?_⟩
    refine (h.accepted t ht hhsk hbar).imp_right (Or.imp_right ?_)
    rintro ⟨r, hr, heq⟩
    refine ⟨r, ?_, heq⟩
    simp only [results, hp, List.mem_append, List.mem_cons, List.not_mem_nil, or_false] at hr ⊢
    tauto
  exact hpop.congr (sameWork_handleResult ins res _)

/-- No step loses sight of a task. -/
theorem placed_step {lbl : ServerLbl} (hs : Server.step cfg lbl s = some s')
    (hwired : Wired cfg s) (h : Placed s) : Placed s' := by
  -- a task enters the queue, goes to a worker, and ends as a result
  cases hwired.step_moves hs with
  | poll => exact ⟨h.queue, h.running, h.accepted⟩
  | ignored => exact h
  | handshake pid alloc => exact h.taskEnqueue alloc .HANDSHAKE pid [] 0
  | disconnect i cmd alloc c => exact h.congr (sameWork_removeAt i c s)
  | request i cmd alloc c type args =>
    exact (h.congr (sameWork_acquired c s)).taskEnqueue alloc type 0 args c
  | hangup i c => exact h.congr (sameWork_removeAt i c s)
  | dequeue => exact h.dequeue hs
  | posts => exact h.finish hs
  | silent => exact h.finish hs
  | deliver => exact h.deliver hs

/-- Every task that was accepted is in one of these places. -/
theorem reachable_placed (h : (Server.system cfg).Reachable s) : Placed s := by
  refine h.invariant_with (fun s hr => reachable_wired hr) (fun s hs => ?_)
    (fun lbl s s' hn hw hi => placed_step hn hw hi)
  subst hs
  refine ⟨fun t ht => ?_, fun t ht => ?_, fun t ht => ?_⟩
  · simp [Server.init] at ht
  · simp [Server.init, Server.running] at ht
  · simp [Server.init] at ht

end Placed

/-! ### Coming to rest -/

/-- The bound in terms of the work that is left. -/
theorem rank_le (m : MainLoop) :
    rank m ≤ (width m.server + 10) * (work m.server + 1) := by
  have hturns := turns_le m
  have hwork : work m.server - (owes m).toNat ≤ work m.server := Nat.sub_le _ _
  calc rank m ≤ (width m.server + 10) * work m.server + (width m.server + 8) :=
        Nat.add_le_add (Nat.mul_le_mul_left _ hwork) hturns
    _ ≤ (width m.server + 10) * work m.server + (width m.server + 10) := by omega
    _ = (width m.server + 10) * (work m.server + 1) := by rw [Nat.mul_succ]

end AnimateServer.Quiescence
