import AnimateServer.Model.MainLoop
import AnimateServer.Verify.Registry

/-!
# What a step of the server can do

Inversion lemmas, one for each kind of step. The later modules derive their
invariants from these and do not unfold the steps again.
-/

namespace AnimateServer.ServerSteps

open CLib Server Registry

/-! ## Requests -/

/-- Two names of which neither continues the other. -/
def Apart (a b : CStr) : Bool :=
  a.take (min a.length b.length) != b.take (min a.length b.length)

/-- Of two names that differ somewhere in their common length a line begins with one at most. -/
theorem not_both_match {cmd a b : CStr} (h : Apart a b = true)
    (ha : strncmpEq cmd a a.length = true) : strncmpEq cmd b b.length = false := by
  by_contra hb
  rw [Bool.not_eq_false] at hb
  simp only [strncmpEq, beq_iff_eq, List.take_length] at ha hb
  have hta := congrArg (List.take (min a.length b.length)) ha
  have htb := congrArg (List.take (min a.length b.length)) hb
  rw [List.take_take, min_eq_left (min_le_left _ _)] at hta
  rw [List.take_take, min_eq_left (min_le_right _ _)] at htb
  simp [Apart, ← hta, ← htb] at h

/-- The test is for the whole name, and the task gets all that follows it. -/
structure Counted (c : RpcCommand) : Prop where
  len : c.len = c.name.length
  skip : c.skip = c.name.length

instance (c : RpcCommand) : Decidable (Counted c) :=
  decidable_of_iff (c.len = c.name.length ∧ c.skip = c.name.length)
    ⟨fun h => ⟨h.1, h.2⟩, fun h => ⟨h.len, h.skip⟩⟩

/-- None of the lengths in the source is off by one. -/
theorem rpcCommands_counted : ∀ c ∈ rpcCommands, Counted c := by decide

/-- Any two names in the table do. -/
theorem rpcCommands_apart :
    rpcCommands.Pairwise fun a b => Apart a.name b.name = true := by decide

/-- The test of a command is for its name. -/
theorem match_iff {cmd : CStr} {c : RpcCommand} (hc : c ∈ rpcCommands) :
    strncmpEq cmd c.name c.len = true ↔ c.name <+: cmd := by
  rw [(rpcCommands_counted c hc).len]
  exact strncmpEq_length_iff

/-- At most one of the `if` statements behind `Disconnect` is taken. -/
theorem runCommands_cases (alloc : Bool) (client : ClientRef) (cmd : CStr) :
    ∀ (table : List RpcCommand) (s : Server), (∀ c ∈ table, Counted c) →
      table.Pairwise (fun a b => Apart a.name b.name = true) →
      ((∀ c ∈ table, strncmpEq cmd c.name c.len = false) ∧
        runCommands alloc client cmd table s = (false, s)) ∨
      ∃ c ∈ table, strncmpEq cmd c.name c.len = true ∧
        runCommands alloc client cmd table s =
          s.acquireAndEnqueue alloc c.type (cmd.drop c.skip) client
  | [], s, _, _ => Or.inl ⟨by simp, rfl⟩
  | c :: table, s, hcounted, hpw => by
    rcases List.pairwise_cons.mp hpw with ⟨hhead, hpw⟩
    rcases List.forall_mem_cons.mp hcounted with ⟨hcount, hcounted⟩
    cases hm : strncmpEq cmd c.name c.len with
    | false =>
      rcases runCommands_cases alloc client cmd table s hcounted hpw with
        ⟨hnone, heq⟩ | ⟨c', hc', hm', heq⟩
      · exact Or.inl ⟨by simpa [hm] using hnone, by simpa [runCommands, hm] using heq⟩
      · exact Or.inr ⟨c', List.mem_cons_of_mem _ hc', hm', by simpa [runCommands, hm] using heq⟩
    | true =>
      refine Or.inr ⟨c, List.mem_cons_self, hm, ?_⟩
      -- the tests behind the one that matches fall through
      have hrest : ∀ s, runCommands alloc client cmd table s = (false, s) := by
        intro s
        rcases runCommands_cases alloc client cmd table s hcounted hpw with
          ⟨-, heq⟩ | ⟨c', hc', hm', -⟩
        · exact heq
        · rw [hcount.len] at hm
          rw [(hcounted c' hc').len, not_both_match (hhead c' hc') hm] at hm'
          cases hm'
      simp only [runCommands, hm, if_true]
      cases hacq : s.acquireAndEnqueue alloc c.type (cmd.drop c.skip) client with
      | mk remove s' => cases remove <;> simp [hrest]

/-- The requests behind `Disconnect`. -/
theorem runRpcCommands_cases (alloc : Bool) (client : ClientRef) (cmd : CStr) (s : Server) :
    ((∀ c ∈ rpcCommands, strncmpEq cmd c.name c.len = false) ∧
      runCommands alloc client cmd rpcCommands s = (false, s)) ∨
    ∃ c ∈ rpcCommands, strncmpEq cmd c.name c.len = true ∧
      runCommands alloc client cmd rpcCommands s =
        s.acquireAndEnqueue alloc c.type (cmd.drop c.skip) client :=
  runCommands_cases alloc client cmd rpcCommands s rpcCommands_counted rpcCommands_apart

/-- The request starts with the prefix of `barrier`. -/
def IsBarrier (cmd : CStr) : Prop := strncmpEq cmd "barrier ".toList 8 = true

/-- `handle_command` comes to a call of `task_enqueue` for this request, unless the client
is dead. -/
def Enqueues (client : ClientRef) (cmd : CStr) (s : Server) : Prop :=
  if strncmpEq cmd "Login ".toList 6 then (s.reg.mem client).loggedIn = false
  else strncmpEq cmd "Disconnect".toList 10 = false ∧
    ∃ e ∈ rpcCommands, strncmpEq cmd e.name e.len = true

/-- The request starts with `Disconnect`. -/
def IsDisconnect (cmd : CStr) : Prop := strncmpEq cmd "Disconnect".toList 10 = true

/-- The request starts with the prefix of `Login`. -/
def IsLogin (cmd : CStr) : Prop := strncmpEq cmd "Login ".toList 6 = true

/-- The tasks that `handle_command` enqueues for this request are of this type. -/
def LeadsTo (cmd : CStr) (type : TaskType) : Prop :=
  IsLogin cmd ∧ type = .AUTHORISE ∨
    ¬IsLogin cmd ∧ ∃ e ∈ rpcCommands, strncmpEq cmd e.name e.len = true ∧ e.type = type

section LeadsTo

variable {cmd : CStr} {type : TaskType}

/-- No command is a handshake or a login, and only one is the barrier. -/
theorem rpcCommands_types : ∀ e ∈ rpcCommands, e.type ≠ TaskType.HANDSHAKE ∧
    e.type ≠ TaskType.AUTHORISE ∧
    (e.type = TaskType.BARRIER → e.name = "barrier ".toList ∧ e.len = 8) := by decide

/-- No line leads to a handshake. -/
theorem LeadsTo.ne_handshake (h : LeadsTo cmd type) : type ≠ .HANDSHAKE := by
  rcases h with ⟨-, rfl⟩ | ⟨-, e, he, -, rfl⟩
  · decide
  · exact (rpcCommands_types e he).1

theorem LeadsTo.barrier (h : LeadsTo cmd type) (ht : type = .BARRIER) : IsBarrier cmd := by
  rcases h with ⟨-, rfl⟩ | ⟨-, e, he, hm, rfl⟩
  · cases ht
  · rcases (rpcCommands_types e he).2.2 ht with ⟨hname, hlen⟩
    rw [hname, hlen] at hm
    exact hm

/-- Logins are authorised, and nothing else is. -/
theorem LeadsTo.authorise_iff (h : LeadsTo cmd type) : type = .AUTHORISE ↔ IsLogin cmd := by
  rcases h with ⟨hlogin, rfl⟩ | ⟨hlogin, e, he, -, rfl⟩
  · exact ⟨fun _ => hlogin, fun _ => rfl⟩
  · exact ⟨fun ht => absurd ht (rpcCommands_types e he).2.1, fun h => absurd h hlogin⟩

end LeadsTo

/-- `handle_command` ignores the request, or asks for the removal of the client, or
acquires the client and enqueues one task. -/
theorem handleCommand_cases (alloc : Bool) (client : ClientRef) (cmd : CStr) (s : Server) :
    (¬Enqueues client cmd s ∧ ∃ s', (s' = s ∨ s' = s.touch client) ∧
      s.handleCommand alloc client cmd = (false, s')) ∨
    (¬Enqueues client cmd s ∧ IsDisconnect cmd ∧
      s.handleCommand alloc client cmd = (true, s)) ∨
    (Enqueues client cmd s ∧ ∃ s' type args, (s' = s ∨ s' = s.touch client) ∧
      LeadsTo cmd type ∧
      s.handleCommand alloc client cmd = s'.acquireAndEnqueue alloc type args client) := by
  unfold handleCommand Enqueues
  split
  · rename_i hlogin
    cases hin : (s.reg.mem client).loggedIn with
    | true =>
      exact Or.inl ⟨by simp, _, Or.inr rfl, if_pos (by simpa [Server.touch] using hin)⟩
    | false =>
      exact Or.inr (Or.inr ⟨rfl, _, .AUTHORISE, cmd.drop 6, Or.inr rfl, Or.inl ⟨hlogin, rfl⟩,
        if_neg (by simpa [Server.touch] using hin)⟩)
  · rename_i hlogin
    -- then Disconnect, then the table of RPC commands, in the source's order
    cases hdisc : strncmpEq cmd "Disconnect".toList 10 with
    | true => exact Or.inr (Or.inl ⟨by simp, hdisc, rfl⟩)
    | false =>
      rcases runRpcCommands_cases alloc client cmd s with ⟨hnone, heq⟩ | ⟨e, he, hm, heq⟩
      · refine Or.inl ⟨?_, s, Or.inl rfl, heq⟩
        rintro ⟨-, e, he, hm⟩
        rw [hnone e he] at hm
        cases hm
      · exact Or.inr (Or.inr ⟨⟨rfl, e, he, hm⟩, s, e.type, _, Or.inl rfl,
          Or.inr ⟨hlogin, e, he, hm, rfl⟩, heq⟩)

/-- A reference to `client` is taken. -/
def acquired (client : ClientRef) (s : Server) : Server :=
  s.modify client fun a => { a with refcount := a.refcount + 1 }

/-- `handle_command` for a client that is neither freed nor dead. -/
theorem handleCommand_live (alloc : Bool) {client : ClientRef} (cmd : CStr) {s : Server}
    (hfreed : client ∉ s.reg.freed) (hlive : (s.reg.mem client).dead = false) :
    (¬Enqueues client cmd s ∧ (s.handleCommand alloc client cmd = (false, s) ∨
      IsDisconnect cmd ∧ s.handleCommand alloc client cmd = (true, s))) ∨
    (Enqueues client cmd s ∧ ∃ type args, LeadsTo cmd type ∧ s.handleCommand alloc client cmd =
      (false, (acquired client s).taskEnqueue alloc type 0 args client)) := by
  -- the record is not freed, so reading it is no fault
  have htouch : s.touch client = s := by
    rw [Server.touch, ClientRegistry.touch_of_notMem _ _ hfreed]
  rcases handleCommand_cases alloc client cmd s with
    ⟨hno, s', hs', heq⟩ | ⟨hno, hdisc, heq⟩ | ⟨hyes, s', type, args, hs', hleads, heq⟩
  · rw [htouch, or_self] at hs'
    exact Or.inl ⟨hno, Or.inl (hs' ▸ heq)⟩
  · exact Or.inl ⟨hno, Or.inr ⟨hdisc, heq⟩⟩
  · rw [htouch, or_self] at hs'
    subst hs'
    refine Or.inr ⟨hyes, type, args, hleads, heq.trans ?_⟩
    rw [acquireAndEnqueue, cregAcquireClient_live hlive]
    rfl

/-! ## Workers -/

/-- Worker `w` takes a task on. -/
theorem running_set_some {workers : List (Option Task)} {w : Nat} {t : Task}
    (h : workers[w]? = some none) :
    ((workers.set w (some t)).filterMap id).Perm (t :: workers.filterMap id) := by
  induction workers generalizing w with
  | nil => simp at h
  | cons x xs ih =>
    cases w with
    | zero =>
      obtain rfl : x = none := by simpa using h
      simp
    | succ w =>
      have hperm := ih (w := w) (by simpa using h)
      cases x with
      | none => simpa using hperm
      | some u => simpa using (hperm.cons u).trans (List.Perm.swap t u _)

/-- Worker `w` lets go of its task. -/
theorem running_set_none {workers : List (Option Task)} {w : Nat} {t : Task}
    (h : workers[w]? = some (some t)) :
    (workers.filterMap id).Perm (t :: (workers.set w none).filterMap id) := by
  induction workers generalizing w with
  | nil => simp at h
  | cons x xs ih =>
    cases w with
    | zero =>
      obtain rfl : x = some t := by simpa using h
      simp
    | succ w =>
      have hperm := ih (w := w) (by simpa using h)
      cases x with
      | none => simpa using hperm
      | some u => simpa using (hperm.cons u).trans (List.Perm.swap t u _)

/-- A worker that is idle takes the first task of the queue. -/
theorem dequeue_cases {w : Nat} {s s' : Server} (h : s.dequeue w = some s') :
    ∃ task queue, s.workers[w]? = some none ∧ s.queue = task :: queue ∧
      s' = { s with queue, workers := s.workers.set w (some task) } := by
  unfold dequeue at h
  split at h
  · rename_i task queue hw hq
    exact ⟨task, queue, hw, hq, (Option.some.inj h).symm⟩
  · cases h

/-- A result is written if there is room for it, and lost otherwise. -/
theorem postResult_eq (cfg : Config) (res : TaskResult) (s : Server) :
    s.postResult cfg res =
      if sizeofTaskResult * (s.pipe.length + 1) ≤ cfg.pipeCap then
        { s with
          pipe := s.pipe ++ [res]
          history := { s.history with posted := s.history.posted ++ [res] } }
      else
        { s with
          history := { s.history with
            posted := s.history.posted ++ [res]
            dropped := s.history.dropped ++ [res]
            lost := res.client?.toList ++ s.history.lost } } := by
  -- the record fits whole or not at all
  by_cases hroom : sizeofTaskResult * (s.pipe.length + 1) ≤ cfg.pipeCap
  · simp only [postResult, pipeWrite, if_pos hroom]
    rfl
  · simp only [postResult, pipeWrite, if_neg hroom]
    rfl

/-- A task type whose case runs a command on the tables. -/
def IsRpc (type : TaskType) : Prop := type ≠ .AUTHORISE ∧ type ≠ .BARRIER ∧ type ≠ .HANDSHAKE

/-- The worker's switch. -/
theorem workerRoutine_cases (env : Env) (r : ClientRegistry) (w : World) (task : Task) :
    (task.client? = none ∧ (workerRoutine env r w task).1 = w.untouched ∧
      ((workerRoutine env r w task).2 = .silent ∨ ∃ pid c2s s2c,
        (workerRoutine env r w task).2 = .posts (.HSK_OK pid c2s s2c))) ∨
    ∃ client request, task.info = .rpc client request ∧
      ((task.type = .AUTHORISE ∧
          workerRoutine env r w task = (w.untouched, .posts (authorise env client request))) ∨
        ((task.type = .BARRIER ∨ task.type = .HANDSHAKE) ∧
          workerRoutine env r w task = (w.untouched, .silent)) ∨
        (IsRpc task.type ∧
          (workerRoutine env r w task).1 = runRpc task.type env client request r w ∧
          ((workerRoutine env r w task).2 = .undefined ∨ ∃ retval,
            (workerRoutine env r w task).2 = .posts (.RPC_DONE client retval)))) := by
  cases hinfo : task.info with
  | handshake pid c2sName s2cName =>
    refine Or.inl ⟨by simp [Task.client?, hinfo], ?_⟩
    cases hh : env.hsk with
    | none => simp [workerRoutine, hinfo, hh]
    | some fds => simp [workerRoutine, hinfo, hh]
  | rpc client request =>
    refine Or.inr ⟨client, request, rfl, ?_⟩
    -- a login, a barrier, a handshake without pid, or an RPC
    cases ht : task.type with
    | AUTHORISE => exact Or.inl ⟨rfl, by simp [workerRoutine, hinfo, ht]⟩
    | BARRIER => exact Or.inr (Or.inl ⟨Or.inl rfl, by simp [workerRoutine, hinfo, ht]⟩)
    | HANDSHAKE => exact Or.inr (Or.inl ⟨Or.inr rfl, by simp [workerRoutine, hinfo, ht]⟩)
    | _ =>
      refine Or.inr (Or.inr ⟨by simp [IsRpc], ?_⟩)
      simp only [workerRoutine, hinfo, ht]
      split
      · exact ⟨rfl, Or.inr ⟨_, rfl⟩⟩
      · exact ⟨rfl, Or.inl rfl⟩

/-- A login is answered to the client that has sent it. -/
theorem client_authorise (env : Env) (client : ClientRef) (request : CStr) (stamp : Nat) :
    (⟨stamp, authorise env client request⟩ : TaskResult).client? = some client := by
  unfold authorise
  split <;> rfl

/-- What a task leaves in the pipe names the client the task names. -/
theorem workerRoutine_client {env : Env} {r : ClientRegistry} {w : World} {task : Task}
    {body : ResultBody} (h : (workerRoutine env r w task).2 = .posts body) :
    (⟨task.stamp, body⟩ : TaskResult).client? = task.client? := by
  rcases workerRoutine_cases env r w task with ⟨hnone, -, hs | ⟨pid, c2s, s2c, hp⟩⟩ |
    ⟨client, request, hinfo, ⟨-, heq⟩ | ⟨-, heq⟩ | ⟨-, -, hu | ⟨rv, hp⟩⟩⟩
  · rw [hs] at h
    cases h
  · rw [hp] at h
    cases h
    exact hnone.symm
  · rw [heq] at h
    cases h
    -- all three answers of a login are to the task's client
    rw [client_authorise]
    simp [Task.client?, hinfo]
  · rw [heq] at h
    cases h
  · rw [hu] at h
    cases h
  · rw [hp] at h
    cases h
    simp [TaskResult.client?, Task.client?, hinfo]

/-- The worker state once the task of worker `w` is done, before its result is posted. -/
def afterTask (w : Nat) (env : Env) (task : Task) (s : Server) : Server :=
  let ran := (workerRoutine env s.reg s.world task).1
  { s with
    workers := s.workers.set w none
    world := ran.world
    reg := s.reg.touchAll ran.visited }

/-- A worker writes to no record of the registry, though what it reads can be a fault. -/
theorem sameButLinks_afterTask (w : Nat) (env : Env) (task : Task) (s : Server) :
    SameButLinks s.reg (afterTask w env task s).reg :=
  sameButLinks_touchAll s.reg _

/-- A worker is done with its task: it has run the handler and posts one result or none. -/
theorem finish_cases {cfg : Config} {w : Nat} {env : Env} {s s' : Server}
    (h : s.finish cfg w env = some s') :
    ∃ task, s.workers[w]? = some (some task) ∧
      ((∃ body, (workerRoutine env s.reg s.world task).2 = .posts body ∧
          (⟨task.stamp, body⟩ : TaskResult).fds.Nodup ∧
          (∀ fd ∈ (⟨task.stamp, body⟩ : TaskResult).fds, fd ∉ s.fdsInUse cfg) ∧
          s' = (afterTask w env task s).postResult cfg ⟨task.stamp, body⟩) ∨
        (workerRoutine env s.reg s.world task).2 = .silent ∧
          s' = { afterTask w env task s with
            history := { s.history with
              lost := task.client?.toList ++ s.history.lost } }) := by
  unfold finish at h
  split at h
  · rename_i task hw
    refine ⟨task, hw, ?_⟩
    -- a worker that reads past a table never comes back with a result
    cases ho : (workerRoutine env s.reg s.world task).2 with
    | posts body =>
      simp only [ho] at h
      split at h
      · rename_i hfds
        exact Or.inl ⟨body, rfl, hfds.1, hfds.2, (Option.some.inj h).symm⟩
      · cases h
    | silent =>
      simp only [ho] at h
      exact Or.inr ⟨rfl, (Option.some.inj h).symm⟩
    | undefined =>
      simp only [ho] at h
      cases h
  · cases h

/-- Only `BARRIER` leaves a client's task without a result. -/
theorem type_of_silent {env : Env} {r : ClientRegistry} {w : World} {task : Task}
    (h : (workerRoutine env r w task).2 = .silent) :
    task.client? = none ∨ task.type = .BARRIER ∨ task.type = .HANDSHAKE := by
  rcases workerRoutine_cases env r w task with ⟨hnone, -⟩ |
    ⟨client, request, -, ⟨-, heq⟩ | ⟨ht, -⟩ | ⟨-, -, hu | ⟨rv, hp⟩⟩⟩
  · exact Or.inl hnone
  · rw [heq] at h
    cases h
  · exact Or.inr ht
  · rw [hu] at h
    cases h
  · rw [hp] at h
    cases h

/-! ## Poll slots -/

/-- Where the content of slot `k` comes from when the last slot is moved into slot `i`. -/
def movedFrom (p : PollSlots) (i k : Nat) : Nat := if k = i then p.count - 1 else k

/-- After the last slot has moved into the gap, each slot holds what one of the others held. -/
theorem pfds_moveLast {p : PollSlots} {i k : Nat} (hk : k < p.count - 1) :
    (p.moveLast i).pfds k = p.pfds (movedFrom p i k) ∧
      (p.moveLast i).clients k = p.clients (movedFrom p i k) := by
  have hne : k ≠ p.count - 1 := Nat.ne_of_lt hk
  by_cases hki : k = i
  · subst hki
    simp [PollSlots.moveLast, movedFrom, hne]
  · simp [PollSlots.moveLast, movedFrom, hne, hki]

/-- There is one slot less. -/
theorem count_moveLast (p : PollSlots) (i : Nat) : (p.moveLast i).count = p.count - 1 := rfl

/-- `server_remove_pollslots` finds no slot with this descriptor, or moves the last slot
into the first such slot. -/
theorem serverRemovePollslots_cases (fd : Int) (p : PollSlots) :
    ((∀ i < p.count, (p.pfds i).fd ≠ fd) ∧ p.serverRemovePollslots fd = p) ∨
      ∃ i < p.count, (p.pfds i).fd = fd ∧ p.serverRemovePollslots fd = p.moveLast i := by
  unfold PollSlots.serverRemovePollslots
  cases hf : p.findSlot fd with
  | none =>
    refine Or.inl ⟨fun i hi heq => ?_, rfl⟩
    have hnone := List.find?_eq_none.mp hf i (List.mem_range.mpr hi)
    simp [heq] at hnone
  | some i =>
    refine Or.inr ⟨i, ?_, ?_, rfl⟩
    · exact List.mem_range.mp (List.mem_of_find?_eq_some hf)
    · simpa using List.find?_some hf

/-- `server_insert_pollslots` fills the slot at `count`, or leaves all slots as they are. -/
theorem serverInsertPollslots_cases (pf cl : Bool) (fd : Int) (client : ClientRef)
    (p : PollSlots) :
    ((p.serverInsertPollslots pf cl fd client).1 = true ∧
        (p.serverInsertPollslots pf cl fd client).2.count = p.count + 1 ∧
        (p.serverInsertPollslots pf cl fd client).2.pfds =
          Function.update p.pfds p.count ⟨fd, true, .none⟩ ∧
        (p.serverInsertPollslots pf cl fd client).2.clients =
          Function.update p.clients p.count (some client)) ∨
      ((p.serverInsertPollslots pf cl fd client).1 = false ∧
        (p.serverInsertPollslots pf cl fd client).2.count = p.count ∧
        (p.serverInsertPollslots pf cl fd client).2.pfds = p.pfds ∧
        (p.serverInsertPollslots pf cl fd client).2.clients = p.clients) := by
  unfold PollSlots.serverInsertPollslots PollSlots.serverGrowPollslots PollSlots.push
  split
  · -- a full array grows first, one realloc for each of the two arrays
    cases pf <;> cases cl <;> simp
  · simp

/-! ## Results -/

/-- The main loop takes the first result of the pipe and handles it. -/
theorem deliver_cases {ins : Inserts} {s s' : Server} (h : s.deliver ins = some s') :
    ∃ res pipe, s.pipe = res :: pipe ∧
      s' = ({ s with
        pipe
        history := { s.history with
          handled := s.history.handled ++ [res] } }).handleResult ins res := by
  unfold deliver at h
  split at h
  · cases h
  · rename_i res pipe hp
    exact ⟨res, pipe, hp, (Option.some.inj h).symm⟩

/-- `poll` writes the `revents` and nothing else. -/
theorem poll_cases {revents : Nat → Revents} {s s' : Server} (h : s.poll revents = some s') :
    s' = { s with slots := s.slots.poll revents } := by
  unfold poll at h
  split at h
  · exact (Option.some.inj h).symm
  · cases h

theorem fd_poll (revents : Nat → Revents) (p : PollSlots) (i : Nat) :
    ((p.poll revents).pfds i).fd = (p.pfds i).fd := by
  simp only [PollSlots.poll]
  split <;> rfl

/-- The clients are in the slots from 2 on. -/
theorem clientAt_eq_some {i : Nat} {s : Server} {c : ClientRef} (h : s.clientAt i = some c) :
    2 ≤ i ∧ i < s.slots.count ∧ s.slots.clients i = some c := by
  unfold clientAt at h
  split at h
  · rename_i hi
    exact ⟨hi.1, hi.2, h⟩
  · cases h

/-- A request of the client in a slot is handled, and may end its session. -/
theorem request_cases {i : Nat} {cmd : CStr} {alloc : Bool} {s s' : Server}
    (h : s.request i cmd alloc = some s') :
    ∃ c, s.clientAt i = some c ∧
      s' = if (s.handleCommand alloc c cmd).1 then (s.handleCommand alloc c cmd).2.removeAt i c
        else (s.handleCommand alloc c cmd).2 := by
  unfold request at h
  rcases Option.map_eq_some_iff.mp h with ⟨c, hc, heq⟩
  exact ⟨c, hc, heq.symm⟩

/-- A client that has hung up is removed. -/
theorem hangup_cases {i : Nat} {s s' : Server} (h : s.hangup i = some s') :
    ∃ c, s.clientAt i = some c ∧ s' = s.removeAt i c := by
  unfold hangup at h
  rcases Option.map_eq_some_iff.mp h with ⟨c, hc, heq⟩
  exact ⟨c, hc, heq.symm⟩

/-! ## What the main loop leaves alone -/

/-- Nothing about tasks and results has changed between `s` and `s'`. -/
structure SameWork (s s' : Server) : Prop where
  queue : s'.queue = s.queue
  workers : s'.workers = s.workers
  pipe : s'.pipe = s.pipe
  stamp : s'.history.stamp = s.history.stamp
  accepted : s'.history.accepted = s.history.accepted
  posted : s'.history.posted = s.history.posted
  dropped : s'.history.dropped = s.history.dropped
  handled : s'.history.handled = s.history.handled
  lost : s'.history.lost = s.history.lost

/-- The relation of steps that move no task and no result. -/
theorem SameWork.refl (s : Server) : SameWork s s := ⟨rfl, rfl, rfl, rfl, rfl, rfl, rfl, rfl, rfl⟩

theorem SameWork.running {s s' : Server} (h : SameWork s s') : s'.running = s.running := by
  rw [Server.running, Server.running, h.workers]

/-- Neither a removal nor a new client nor the handling of a result moves one. -/
theorem sameWork_removeAt (i : Nat) (c : ClientRef) (s : Server) : SameWork s (s.removeAt i c) :=
  ⟨rfl, rfl, rfl, rfl, rfl, rfl, rfl, rfl, rfl⟩

theorem sameWork_handshakeDone (ins : Inserts) (pid c2s s2c : Int) (s : Server) :
    SameWork s (s.handshakeDone ins pid c2s s2c) := by
  unfold handshakeDone
  split
  · exact ⟨rfl, rfl, rfl, rfl, rfl, rfl, rfl, rfl, rfl⟩
  · dsimp only
    split <;> exact ⟨rfl, rfl, rfl, rfl, rfl, rfl, rfl, rfl, rfl⟩

theorem sameWork_handleResult (ins : Inserts) (res : TaskResult) (s : Server) :
    SameWork s (s.handleResult ins res) := by
  rcases res with ⟨stamp, body⟩
  cases body with
  | HSK_OK pid c2s s2c => exact sameWork_handshakeDone ins pid c2s s2c s
  | _ => exact ⟨rfl, rfl, rfl, rfl, rfl, rfl, rfl, rfl, rfl⟩

theorem sameWork_acquired (c : ClientRef) (s : Server) : SameWork s (acquired c s) :=
  ⟨rfl, rfl, rfl, rfl, rfl, rfl, rfl, rfl, rfl⟩

end AnimateServer.ServerSteps
