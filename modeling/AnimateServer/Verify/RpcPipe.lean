import AnimateServer.Verify.Replies

/-!
# The RPC pipe under the budgets of the main loop

The main loop reads at most five results in a wake and accepts up to five
requests of every client, so the results of a backlog can fill the pipe. A write
to the full pipe fails, nobody looks at the return value, and the result is
gone. As long as there is room for every result, all of them arrive, once.
-/

namespace AnimateServer.RpcPipe

open CLib Server ServerSteps Transition

/-! ## The loop is a server -/

/-- A guarded turn of a loop. -/
theorem guarded_turn {p : Prop} [Decidable p] {o : Option Server} {f : Server → MainLoop}
    {m : MainLoop} (h : (if p then o.map f else none) = some m) :
    p ∧ ∃ s, o = some s ∧ f s = m :=
  (Option.ite_none_right_eq_some.mp h).imp_right Option.map_eq_some_iff.mp

/-- What a turn of the main thread or a step of a worker does, with the condition it runs
under. -/
inductive Moves (cfg : Config) : LoopLbl → MainLoop → MainLoop → Prop where
  | poll {s s' : Server} {revents : Nat → Revents} (step : s.poll revents = some s') :
      Moves cfg (.poll revents) ⟨s, .poll⟩ ⟨s', .hsk 0⟩
  | readHsk {s s' : Server} {pid : Int} {alloc : Bool} {i : Nat} (budget : i < HSK_MAX_PER_WAKE)
      (step : Server.step cfg (.handshake pid alloc) s = some s') :
      Moves cfg (.readHsk pid alloc) ⟨s, .hsk i⟩ ⟨s', .hsk (i + 1)⟩
  | hskDone {s : Server} {i : Nat} : Moves cfg .hskDone ⟨s, .hsk i⟩ ⟨s, .rpc 0⟩
  | readRpc {s s' : Server} {ins : Server.Inserts} {i : Nat} (budget : i < RPC_MAX_PER_WAKE)
      (step : s.deliver ins = some s') :
      Moves cfg (.readRpc ins) ⟨s, .rpc i⟩ ⟨s', .rpc (i + 1)⟩
  | rpcDone {s : Server} {i : Nat} (exit : (s.slots.pfds 1).revents.pollin = false ∨
      i = RPC_MAX_PER_WAKE ∨ s.pipe = []) : Moves cfg .rpcDone ⟨s, .rpc i⟩ ⟨s, .client 2 0⟩
  | request {s s' : Server} {cmd : CStr} {alloc : Bool} {i req : Nat}
      (budget : req < FIFO_MAX_PER_WAKE) (step : s.request i cmd alloc = some s') :
      Moves cfg (.request cmd alloc) ⟨s, .client i req⟩
        ⟨s', if MainLoop.removes i cmd alloc s then .client i 0 else .client i (req + 1)⟩
  | hangup {s s' : Server} {i req : Nat} (step : s.hangup i = some s') :
      Moves cfg .hangup ⟨s, .client i req⟩ ⟨s', .client i 0⟩
  | nextSlot {s : Server} {i req : Nat} (more : i < s.slots.count) :
      Moves cfg .nextSlot ⟨s, .client i req⟩ ⟨s, .client (i + 1) 0⟩
  | wakeDone {s : Server} {i req : Nat} (last : s.slots.count ≤ i) :
      Moves cfg .wakeDone ⟨s, .client i req⟩ ⟨s, .poll⟩
  | dequeue {s s' : Server} {pc : LoopPc} {w : Nat} (step : s.dequeue w = some s') :
      Moves cfg (.dequeue w) ⟨s, pc⟩ ⟨s', pc⟩
  | finish {s s' : Server} {pc : LoopPc} {w : Nat} {env : Env}
      (step : s.finish cfg w env = some s') : Moves cfg (.finish w env) ⟨s, pc⟩ ⟨s', pc⟩

/-- Every step of the main loop is one of the moves. -/
theorem step_moves {cfg : Config} {lbl : LoopLbl} {m m' : MainLoop}
    (hs : MainLoop.step cfg lbl m = some m') : Moves cfg lbl m m' := by
  rcases m with ⟨s, pc⟩
  -- each label of the main thread fits one program point
  cases lbl with
  | poll revents =>
    cases pc with
    | poll =>
      rcases Option.map_eq_some_iff.mp hs with ⟨s', hs', rfl⟩
      exact .poll hs'
    | _ => cases hs
  | readHsk pid alloc =>
    cases pc with
    | hsk i =>
      rcases guarded_turn hs with ⟨⟨-, hi⟩, s', hs', rfl⟩
      exact .readHsk hi hs'
    | _ => cases hs
  | hskDone =>
    cases pc with
    | hsk i =>
      cases hs
      exact .hskDone
    | _ => cases hs
  | readRpc ins =>
    cases pc with
    | rpc i =>
      rcases guarded_turn hs with ⟨⟨-, hi⟩, s', hs', rfl⟩
      exact .readRpc hi hs'
    | _ => cases hs
  | rpcDone =>
    cases pc with
    | rpc i =>
      rcases Option.ite_none_right_eq_some.mp hs with ⟨hexit, hs⟩
      obtain rfl := Option.some.inj hs
      exact .rpcDone hexit
    | _ => cases hs
  | request cmd alloc =>
    cases pc with
    | client i req =>
      rcases guarded_turn hs with ⟨⟨-, hreq⟩, s', hs', rfl⟩
      exact .request hreq hs'
    | _ => cases hs
  | hangup =>
    cases pc with
    | client i req =>
      rcases guarded_turn hs with ⟨-, s', hs', rfl⟩
      exact .hangup hs'
    | _ => cases hs
  | nextSlot =>
    cases pc with
    | client i req =>
      rcases Option.ite_none_right_eq_some.mp hs with ⟨⟨hi, -⟩, hs⟩
      obtain rfl := Option.some.inj hs
      exact .nextSlot hi
    | _ => cases hs
  | wakeDone =>
    cases pc with
    | client i req =>
      rcases Option.ite_none_right_eq_some.mp hs with ⟨hi, hs⟩
      obtain rfl := Option.some.inj hs
      exact .wakeDone hi
    | _ => cases hs
  | dequeue w =>
    rcases Option.map_eq_some_iff.mp hs with ⟨s', hs', rfl⟩
    exact .dequeue hs'
  | finish w env =>
    rcases Option.map_eq_some_iff.mp hs with ⟨s', hs', rfl⟩
    exact .finish hs'

/-- The step of the server that a label of the loop stands for, at slot `i`. -/
def serverLbl (i : Nat) : LoopLbl → Option ServerLbl
  | .poll revents => some (.poll revents)
  | .readHsk pid alloc => some (.handshake pid alloc)
  | .readRpc ins => some (.deliver ins)
  | .request cmd alloc => some (.request i cmd alloc)
  | .hangup => some (.hangup i)
  | .dequeue w => some (.dequeue w)
  | .finish w env => some (.finish w env)
  | .hskDone | .rpcDone | .nextSlot | .wakeDone => none

/-- A turn of the main loop, or a worker's step, is a step of the server; the exits of the
loops leave the server alone. -/
theorem mainLoop_cases {cfg : Config} {lbl : LoopLbl} {m m' : MainLoop}
    (hs : MainLoop.step cfg lbl m = some m') :
    (∃ i, ∃ l ∈ serverLbl i lbl, Server.step cfg l m.server = some m'.server) ∨
      m'.server = m.server := by
  -- a turn of a loop is a step of the server, leaving a loop is none
  cases step_moves hs with
  | @poll _ _ revents hs' => exact Or.inl ⟨0, .poll revents, rfl, hs'⟩
  | @readHsk _ _ pid alloc _ _ hs' => exact Or.inl ⟨0, .handshake pid alloc, rfl, hs'⟩
  | hskDone => exact Or.inr rfl
  | @readRpc _ _ ins _ _ hs' => exact Or.inl ⟨0, .deliver ins, rfl, hs'⟩
  | rpcDone => exact Or.inr rfl
  | @request _ _ cmd alloc i _ _ hs' => exact Or.inl ⟨i, .request i cmd alloc, rfl, hs'⟩
  | @hangup _ _ i _ hs' => exact Or.inl ⟨i, .hangup i, rfl, hs'⟩
  | nextSlot => exact Or.inr rfl
  | wakeDone => exact Or.inr rfl
  | @dequeue _ _ _ w hs' => exact Or.inl ⟨0, .dequeue w, rfl, hs'⟩
  | @finish _ _ _ w env hs' => exact Or.inl ⟨0, .finish w env, rfl, hs'⟩

/-- The turns of the main loop are steps of the server. -/
theorem mainLoop_refines (cfg : Config) :
    Refines (MainLoop.system cfg) (Server.system cfg) MainLoop.server where
  init := fun m hm => by
    subst hm
    rfl
  step := fun lbl m m' _ hs => (mainLoop_cases hs).imp_left fun ⟨_, l, _, hl⟩ => ⟨l, hl⟩

/-! ## Budgets -/

/-- The reads made so far in the current part of the wake are within its budget. -/
def WithinBudget (m : MainLoop) : Prop :=
  match m.pc with
  | .poll => True
  | .hsk i => i ≤ HSK_MAX_PER_WAKE
  | .rpc i => i ≤ RPC_MAX_PER_WAKE
  | .client _ req => req ≤ FIFO_MAX_PER_WAKE

/-- No wake reads more results than its budget. -/
theorem withinBudget_step {cfg : Config} {lbl : LoopLbl} {m m' : MainLoop}
    (hs : MainLoop.step cfg lbl m = some m') (h : WithinBudget m) : WithinBudget m' := by
  -- only the turns that read count, and each part of a wake begins at zero
  cases step_moves hs with
  | poll => exact Nat.zero_le _
  | readHsk budget => exact budget
  | hskDone => exact Nat.zero_le _
  | readRpc budget => exact budget
  | rpcDone => exact Nat.zero_le _
  | @request s _ cmd alloc i req budget =>
    -- a removal puts the next client into the slot, with a budget of its own
    cases hrem : MainLoop.removes i cmd alloc s with
    | true => exact Nat.zero_le _
    | false => exact budget
  | hangup => exact Nat.zero_le _
  | nextSlot => exact Nat.zero_le _
  | wakeDone => trivial
  | dequeue => exact h
  | finish => exact h

/-- In every reachable state the wake is within its budget. -/
theorem reachable_withinBudget {cfg : Config} {m : MainLoop}
    (h : (MainLoop.system cfg).Reachable m) : WithinBudget m := by
  refine h.invariant (fun m hm => ?_) (fun lbl m m' hs hm => withinBudget_step hs hm)
  subst hm
  trivial

/-! ## Results -/

/-- The task leads to a result: it is no `barrier`, and no handshake that fails. -/
def LeavesResult (env : Env) : Task → Prop
  | ⟨_, _, .handshake _ _ _⟩ => env.hsk ≠ none
  | ⟨_, type, .rpc _ _⟩ => type ≠ .BARRIER ∧ type ≠ .HANDSHAKE

/-- A task that posts leaves a result. -/
theorem leavesResult_of_posts {env : Env} {r : ClientRegistry} {w : World} {task : Task}
    {body : ResultBody} (h : (workerRoutine env r w task).2 = .posts body) :
    LeavesResult env task := by
  rcases task with ⟨stamp, type, info⟩
  cases info with
  | handshake pid c2sName s2cName =>
    intro hnone
    simp [workerRoutine, hnone] at h
  | rpc client request =>
    constructor <;> (rintro rfl; cases h)

/-- A worker that is about to post finds room for its result in the pipe. -/
def FindsRoom (cfg : Config) : LoopLbl → MainLoop → Prop
  | .finish w env, m => ∀ task ∈ m.server.workers[w]?.join, LeavesResult env task →
      sizeofTaskResult * (m.server.pipe.length + 1) ≤ cfg.pipeCap
  | _, _ => True

/-- Nothing is dropped where there is room for the result. -/
theorem dropped_step {cfg : Config} {lbl : ServerLbl} {s s' : Server}
    (hs : Server.step cfg lbl s = some s') (hwired : Descriptors.Wired cfg s)
    (hroom : ∀ w env, lbl = .finish w env → ∀ task ∈ s.workers[w]?.join, LeavesResult env task →
      sizeofTaskResult * (s.pipe.length + 1) ≤ cfg.pipeCap) :
    s'.history.dropped = s.history.dropped := by
  cases hwired.step_moves hs with
  | poll | ignored | disconnect | hangup | dequeue | silent => rfl
  | handshake pid alloc => cases alloc <;> rfl
  | request i cmd alloc => cases alloc <;> rfl
  -- the result fits the pipe, so the write is whole
  | posts w env task body hw hout =>
    have hfit : sizeofTaskResult * ((afterTask w env task s).pipe.length + 1) ≤ cfg.pipeCap :=
      hroom w env rfl task (by rw [hw]; rfl) (leavesResult_of_posts hout)
    rw [postResult_eq, if_pos hfit]
    rfl
  | deliver ins res pipe => exact (sameWork_handleResult ins res _).dropped

theorem reachable_server {cfg : Config} {ok : LoopLbl → MainLoop → Prop} {m : MainLoop}
    (h : ((MainLoop.system cfg).under ok).Reachable m) :
    (Server.system cfg).Reachable m.server :=
  (mainLoop_refines cfg).reachable h.of_under

/-- So no result is lost in a run in which each finds room. -/
theorem reachable_dropped {cfg : Config} {m : MainLoop}
    (h : ((MainLoop.system cfg).under (FindsRoom cfg)).Reachable m) :
    m.server.history.dropped = [] := by
  refine h.invariant_with (fun m hr => Descriptors.reachable_wired (reachable_server hr))
    (fun m hm => ?_) (fun lbl m m' hs hwired hi => ?_)
  · subst hm
    rfl
  · rcases mainLoop_cases hs.2 with ⟨i, l, hl, hstep⟩ | heq
    · refine (dropped_step hstep hwired fun w env hfin => ?_).trans hi
      -- the step of a worker is the step of the label
      subst hfin
      cases lbl with
      | finish w' env' =>
        cases hl
        exact hs.1
      | _ => cases hl
    · rw [heq]
      exact hi

/-- While every worker finds room for its result, the results posted are those read and
those in the pipe, and none is read twice. -/
theorem no_result_lost {cfg : Config} {m : MainLoop}
    (h : ((MainLoop.system cfg).under (FindsRoom cfg)).Reachable m) :
    m.server.history.posted = m.server.history.handled ++ m.server.pipe ∧
      (m.server.history.handled.map TaskResult.stamp).Nodup := by
  have hserver := reachable_server h
  have hdelivered := (Replies.reachable_delivered hserver).1
  have hposted := (Stamps.reachable_stamped hserver).posted_nodup
  refine ⟨(hdelivered.complete (reachable_dropped h)).symm, hposted.sublist ?_⟩
  exact ((List.sublist_append_left _ _).trans hdelivered.written).map _

instance (env : Env) : (task : Task) → Decidable (LeavesResult env task)
  | ⟨_, _, .handshake _ _ _⟩ => inferInstanceAs (Decidable (env.hsk ≠ none))
  | ⟨_, type, .rpc _ _⟩ => inferInstanceAs (Decidable (type ≠ .BARRIER ∧ type ≠ .HANDSHAKE))

instance (cfg : Config) (lbl : LoopLbl) (m : MainLoop) : Decidable (FindsRoom cfg lbl m) :=
  match lbl with
  | .finish w env => inferInstanceAs (Decidable (∀ task ∈ m.server.workers[w]?.join,
      LeavesResult env task → sizeofTaskResult * (m.server.pipe.length + 1) ≤ cfg.pipeCap))
  | .poll _ | .readHsk _ _ | .hskDone | .readRpc _ | .rpcDone | .request _ _ | .hangup
  | .nextSlot | .wakeDone | .dequeue _ => inferInstanceAs (Decidable True)

/-- Only slot `i` is readable. -/
def onlyReady (i j : Nat) : Revents :=
  if j = i then { Revents.none with pollin := true } else .none

def ready (i : Nat) : LoopLbl := .poll (onlyReady i)

/-- A client connects: a wake for its handshake, the worker, and a wake for the result. -/
def connectionWakes : List LoopLbl :=
  [ready 0, .readHsk 42 true, .hskDone, .rpcDone, .wakeDone,
    .dequeue 0, .finish 0 Accounting.connects,
    ready 1, .hskDone, .readRpc ⟨true, true, true⟩, .rpcDone, .nextSlot, .wakeDone]

/-- A request that every worker can answer without looking at the tables. -/
def noArgs : CStr := "create_canvas ".toList

/-- A wake in which the client makes one request. -/
def requestWake : List LoopLbl :=
  [ready 2, .hskDone, .rpcDone, .request noArgs true, .nextSlot, .wakeDone]

theorem no_result_lost_connection :
    ∃ m : MainLoop, m.server.history.handled ≠ [] ∧ m.server.pipe ≠ [] ∧
      m.server.history.posted = m.server.history.handled ++ m.server.pipe := by
  obtain ⟨m, hm, hp⟩ := exists_reachable_of_run ⟨Server.init Accounting.oneWorker, .poll⟩
    (guarded (FindsRoom Accounting.oneWorker) (MainLoop.step Accounting.oneWorker))
    (connectionWakes ++ requestWake ++ [.dequeue 0, .finish 0 (Env.allSucceed 7)])
    (fun m => decide (m.server.history.handled ≠ [] ∧ m.server.pipe ≠ [])) (by decide)
  rcases of_decide_eq_true hp with ⟨hhandled, hpipe⟩
  rw [← under_ofStep] at hm
  exact ⟨m, hhandled, hpipe, (no_result_lost hm).1⟩

/-! ## A backlog -/

/-- The client in slot 2 has `queued` requests in the queue and `unread` answers in the
pipe. The only worker is idle, and no result is lost. -/
structure Backlog (queued unread : Nat) (s : Server) : Prop where
  client : s.slots.clients 2 = some 0
  slots : s.slots.count = 3
  live : (s.reg.mem 0).dead = false
  idle : s.workers = [none]
  queue : s.queue.length = queued
  tasks : ∀ t ∈ s.queue, t.type = .CREATE_CANVAS ∧ t.info = .rpc 0 []
  pipe : s.pipe.length = unread
  posted : s.history.posted.length = s.history.handled.length + unread

/-- A request without arguments is accepted. -/
theorem handleCommand_noArgs {s : Server} (hlive : (s.reg.mem 0).dead = false) :
    s.handleCommand true 0 noArgs =
      (false, (acquired 0 s).taskEnqueue true .CREATE_CANVAS 0 [] 0) := by
  have honly : ∀ e ∈ rpcCommands, strncmpEq noArgs e.name e.len = true →
      e.type = .CREATE_CANVAS ∧ noArgs.drop e.skip = [] := by decide
  have hsome : ∃ e ∈ rpcCommands, strncmpEq noArgs e.name e.len = true := by decide
  unfold handleCommand
  rw [if_neg (by decide), if_neg (by decide)]
  rcases runRpcCommands_cases true 0 noArgs s with ⟨hnone, -⟩ | ⟨e, he, hm, heq⟩
  · rcases hsome with ⟨e, he, hm⟩
    rw [hnone e he] at hm
    cases hm
  · rcases honly e he hm with ⟨htype, hargs⟩
    rw [heq, htype, hargs, acquireAndEnqueue, Registry.cregAcquireClient_live hlive]
    rfl

section Backlog

variable {cfg : Config} {queued unread : Nat} {s : Server}

/-- One more task waits in the queue. -/
theorem Backlog.enqueue (h : Backlog queued unread s) :
    Backlog (queued + 1) unread ((acquired 0 s).taskEnqueue true .CREATE_CANVAS 0 [] 0) where
  client := h.client
  slots := h.slots
  live := by
    change ((s.reg.modify 0 fun a => { a with refcount := a.refcount + 1 }).mem 0).dead = false
    simpa using h.live
  idle := h.idle
  queue := by
    change (s.queue ++ [_]).length = queued + 1
    simp [h.queue]
  -- the new task is a canvas of client 0, as all the others are
  tasks := fun t ht => by
    rcases List.mem_append.mp ht with ht | ht
    · exact h.tasks t ht
    · obtain rfl := List.mem_singleton.mp ht
      exact ⟨rfl, rfl⟩
  pipe := h.pipe
  posted := h.posted

/-- It comes from a request, which ends no session. -/
theorem Backlog.request (h : Backlog queued unread s) :
    s.request 2 noArgs true =
        some ((acquired 0 s).taskEnqueue true .CREATE_CANVAS 0 [] 0) ∧
      MainLoop.removes 2 noArgs true s = false := by
  have hclient : s.clientAt 2 = some 0 := by
    simp [clientAt, h.slots, h.client]
  have hcmd := handleCommand_noArgs h.live
  constructor
  · simp [Server.request, hclient, hcmd]
  · simp [MainLoop.removes, hclient, hcmd]

/-- One more request, in a wake of its own. -/
theorem Backlog.wake (h : Backlog queued 0 s)
    (hr : (MainLoop.system cfg).Reachable ⟨s, .poll⟩) :
    ∃ s', (MainLoop.system cfg).Reachable ⟨s', .poll⟩ ∧ Backlog (queued + 1) 0 s' := by
  let polled : Server := { s with slots := s.slots.poll (onlyReady 2) }
  let asked := (acquired 0 polled).taskEnqueue true .CREATE_CANVAS 0 [] 0
  have hpolled : Backlog queued 0 polled :=
    ⟨h.client, h.slots, h.live, h.idle, h.queue, h.tasks, h.pipe, h.posted⟩
  -- one wake: the client's slot is the only one ready, and it has one request
  have hrevents : ∀ j < 3, (polled.slots.pfds j).revents = onlyReady 2 j := by
    intro j hj
    simp [polled, PollSlots.poll, h.slots, hj]
  have hpoll : MainLoop.step cfg (ready 2) ⟨s, .poll⟩ = some ⟨polled, .hsk 0⟩ := by
    have hnone : s.poll (onlyReady 2) = some polled := by
      refine if_pos ?_
      rw [List.length_eq_zero_iff.mp h.pipe]
      rfl
    exact congrArg (Option.map fun s => MainLoop.mk s (.hsk 0)) hnone
  have hhsk : MainLoop.step cfg .hskDone ⟨polled, .hsk 0⟩ = some ⟨polled, .rpc 0⟩ := rfl
  have hrpc : MainLoop.step cfg .rpcDone ⟨polled, .rpc 0⟩ = some ⟨polled, .client 2 0⟩ :=
    if_pos (Or.inl (by rw [hrevents 1 (by decide)]; rfl))
  have hrequest : MainLoop.step cfg (.request noArgs true) ⟨polled, .client 2 0⟩ =
      some ⟨asked, .client 2 1⟩ := by
    rcases hpolled.request with ⟨hyes, hno⟩
    refine (if_pos ⟨?_, by decide⟩).trans ?_
    · rw [hyes, hno]
      rfl
    · rw [hrevents 2 (by decide)]
      rfl
  have hnext : MainLoop.step cfg .nextSlot ⟨asked, .client 2 1⟩ = some ⟨asked, .client 3 0⟩ := by
    refine if_pos ⟨?_, ?_⟩
    · exact hpolled.slots.symm ▸ (by decide : 2 < 3)
    · exact congrArg Revents.failed (hrevents 2 (by decide))
  have hdone : MainLoop.step cfg .wakeDone ⟨asked, .client 3 0⟩ = some ⟨asked, .poll⟩ :=
    if_pos (le_of_eq hpolled.slots)
  exact ⟨asked, (((((hr.step hpoll).step hhsk).step hrpc).step hrequest).step hnext).step hdone,
    hpolled.enqueue⟩

/-- The worker answers the first request in the queue, which does not parse. -/
theorem Backlog.answer (h : Backlog (queued + 1) unread s)
    (hr : (MainLoop.system cfg).Reachable ⟨s, .poll⟩) :
    ∃ s' res, (MainLoop.system cfg).Reachable ⟨s'.postResult cfg res, .poll⟩ ∧
      Backlog queued unread s' := by
  rcases List.exists_cons_of_length_eq_add_one h.queue with ⟨task, queue, hq⟩
  rcases h.tasks task (hq ▸ List.mem_cons_self) with ⟨htype, hinfo⟩
  let taken : Server := { s with queue, workers := [some task] }
  let freed : Server := { s with queue, workers := [none] }
  let res : TaskResult := ⟨task.stamp, .RPC_DONE 0 (ret1 (-1))⟩
  -- an empty request does not parse
  have hran : workerRoutine (Env.allSucceed 7) taken.reg taken.world task =
      (taken.world.reply (ret1 (-1)), .posts (.RPC_DONE 0 (ret1 (-1)))) := by
    simp only [workerRoutine, htype, hinfo]
    rfl
  have hdequeue : MainLoop.step cfg (.dequeue 0) ⟨s, .poll⟩ = some ⟨taken, .poll⟩ := by
    simp only [MainLoop.step, Server.dequeue, h.idle, hq]
    rfl
  have hfinish : MainLoop.step cfg (.finish 0 (Env.allSucceed 7)) ⟨taken, .poll⟩ =
      some ⟨freed.postResult cfg res, .poll⟩ := by
    have hw : taken.workers[0]? = some (some task) := rfl
    simp only [MainLoop.step, Server.finish, hw, hran]
    rfl
  refine ⟨freed, res, (hr.step hdequeue).step hfinish, h.client, h.slots, h.live, rfl, ?_, ?_,
    h.pipe, h.posted⟩
  · simpa [hq] using h.queue
  · exact fun t ht => h.tasks t (hq ▸ List.mem_cons_of_mem _ ht)

/-- One more result waits in the pipe. -/
theorem Backlog.postResult (h : Backlog queued unread s) (res : TaskResult)
    (hroom : sizeofTaskResult * (unread + 1) ≤ cfg.pipeCap) :
    Backlog queued (unread + 1) (s.postResult cfg res) := by
  rw [postResult_eq, h.pipe, if_pos hroom]
  refine ⟨h.client, h.slots, h.live, h.idle, h.queue, h.tasks, ?_, ?_⟩
  · simp [h.pipe]
  · simp [h.posted, Nat.add_assoc]

end Backlog

/-- A client has connected, and nothing is left to do. -/
theorem backlog_connected : ∃ s, (MainLoop.system Accounting.oneWorker).Reachable ⟨s, .poll⟩ ∧
    Backlog 0 0 s := by
  obtain ⟨m, hm, hp⟩ := exists_reachable_of_run ⟨Server.init Accounting.oneWorker, .poll⟩
    (MainLoop.step Accounting.oneWorker) connectionWakes
    (fun m => decide (m.pc = .poll ∧ m.server.slots.clients 2 = some 0 ∧
      m.server.slots.count = 3 ∧ (m.server.reg.mem 0).dead = false ∧
      m.server.workers = [none] ∧ m.server.queue = [] ∧ m.server.pipe = [] ∧
      m.server.history.posted.length = m.server.history.handled.length)) (by decide)
  rcases of_decide_eq_true hp with ⟨hpc, hclient, hslots, hlive, hidle, hqueue, hpipe, hposted⟩
  rcases m with ⟨s, pc⟩
  subst hpc
  exact ⟨s, hm, hclient, hslots, hlive, hidle, congrArg List.length hqueue,
    fun t ht => absurd (hqueue ▸ ht) List.not_mem_nil, congrArg List.length hpipe, hposted⟩

/-- As many tasks as one likes can wait at once. -/
theorem backlog_queued (queued : Nat) :
    ∃ s, (MainLoop.system Accounting.oneWorker).Reachable ⟨s, .poll⟩ ∧ Backlog queued 0 s := by
  induction queued with
  | zero => exact backlog_connected
  | succ queued ih =>
    rcases ih with ⟨s, hr, h⟩
    exact h.wake hr

/-- The worker answers any number of requests while the main loop waits in `poll`, as long
as the pipe has room. -/
theorem backlog_answered (queued unread : Nat)
    (hroom : sizeofTaskResult * unread ≤ Accounting.oneWorker.pipeCap) :
    ∃ s, (MainLoop.system Accounting.oneWorker).Reachable ⟨s, .poll⟩ ∧ Backlog queued unread s := by
  induction unread generalizing queued with
  | zero => exact backlog_queued queued
  | succ unread ih =>
    rcases ih (queued + 1) ((Nat.mul_le_mul_left _ (Nat.le_succ _)).trans hroom) with ⟨s, hr, h⟩
    rcases h.answer hr with ⟨s', res, hr', h'⟩
    exact ⟨_, hr', h'.postResult res hroom⟩

/-- 1024 results fill the pipe, and the next one is gone. -/
theorem result_lost_in_full_pipe :
    ¬ ∀ cfg m, (MainLoop.system cfg).Reachable m →
      m.server.history.posted = m.server.history.handled ++ m.server.pipe ∧
        (m.server.history.handled.map TaskResult.stamp).Nodup := by
  intro hall
  rcases backlog_answered 1 1024 (by decide) with ⟨s, hr, h⟩
  rcases h.answer hr with ⟨s', res, hr', h'⟩
  have hlost := congrArg List.length (hall _ _ hr').1
  rw [postResult_eq, h'.pipe, if_neg (by decide)] at hlost
  simp only [List.length_append, List.length_singleton, h'.posted, h'.pipe] at hlost
  omega

end AnimateServer.RpcPipe
