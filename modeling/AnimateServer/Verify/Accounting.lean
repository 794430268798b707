import AnimateServer.Verify.References

/-!
# Who gives references back

`References` counts the lost references with the others. References get lost
when `task_enqueue` fails behind `creg_acquire_client`, and when a worker runs a
`BARRIER`, which posts no result. Without these the references are those of
queued and running tasks and of unread results, and every task of a client is
answered once.
-/

namespace AnimateServer.Accounting

open CLib Server ServerSteps ServerInv Descriptors Stamps References Transition

/-- No accepted request is a barrier or fails to be enqueued, and no rejection is handled
for a client that is dead already. -/
def GivesBack : ServerLbl → Server → Prop
  | .request i cmd alloc, s =>
    ∀ c ∈ s.clientAt i, Enqueues c cmd s → alloc = true ∧ ¬IsBarrier cmd
  | lbl, s => RejectsLive lbl s

instance (c : ClientRef) (cmd : CStr) (s : Server) : Decidable (Enqueues c cmd s) :=
  inferInstanceAs (Decidable
    (if strncmpEq cmd "Login ".toList 6 then (s.reg.mem c).loggedIn = false
    else strncmpEq cmd "Disconnect".toList 10 = false ∧
      ∃ e ∈ rpcCommands, strncmpEq cmd e.name e.len = true))

instance (cmd : CStr) : Decidable (IsBarrier cmd) :=
  inferInstanceAs (Decidable (strncmpEq cmd "barrier ".toList 8 = true))

instance (lbl : ServerLbl) (s : Server) : Decidable (RejectsLive lbl s) :=
  match lbl with
  | .deliver _ => inferInstanceAs
      (Decidable (∀ res ∈ s.pipe.head?, ∀ c ∈ rejected res, (s.reg.mem c).dead = false))
  | .poll _ | .handshake _ _ | .request _ _ _ | .hangup _ | .dequeue _ | .finish _ _ =>
    inferInstanceAs (Decidable True)

instance (lbl : ServerLbl) (s : Server) : Decidable (GivesBack lbl s) :=
  match lbl with
  | .request i cmd alloc =>
    inferInstanceAs
      (Decidable (∀ c ∈ s.clientAt i, Enqueues c cmd s → alloc = true ∧ ¬IsBarrier cmd))
  | .deliver ins => inferInstanceAs (Decidable (RejectsLive (.deliver ins) s))
  | .poll _ | .handshake _ _ | .hangup _ | .dequeue _ | .finish _ _ =>
    inferInstanceAs (Decidable True)

theorem rejectsLive_of_givesBack {lbl : ServerLbl} {s : Server} (h : GivesBack lbl s) :
    RejectsLive lbl s := by
  cases lbl with
  | request i cmd alloc => trivial
  | _ => exact h

/-! ## Every request is answered -/

/-- A task of a type that posts a result, with its client. -/
def Answerable (t : Task) : Prop :=
  t.type ≠ .BARRIER ∧ (t.type = .HANDSHAKE ↔ t.client? = none)

/-- Only a failed write loses a reference, and an accepted task of a client is queued,
runs, or has its result. -/
structure Answered (s : Server) : Prop where
  lost : s.history.dropped = [] → s.history.lost = []
  queue : ∀ t ∈ s.queue, Answerable t
  running : ∀ t ∈ s.running, Answerable t
  accepted : ∀ t ∈ s.history.accepted, t.type ≠ .HANDSHAKE →
    t ∈ s.queue ∨ t ∈ s.running ∨ ∃ r ∈ s.history.posted, r.stamp = t.stamp

section Answered

variable {s s' : Server}

theorem Answered.congr (h : Answered s) (hw : SameWork s s') : Answered s' where
  lost := by rw [hw.lost, hw.dropped]; exact h.lost
  queue := by rw [hw.queue]; exact h.queue
  running := by rw [hw.running]; exact h.running
  accepted := by rw [hw.accepted, hw.queue, hw.running, hw.posted]; exact h.accepted

theorem type_newTask {stamp : Nat} {type : TaskType} {pid : Int} {request : CStr}
    {client : ClientRef} : (newTask stamp type pid request client).type = type := by
  cases type <;> rfl

theorem Answered.taskEnqueue (h : Answered s) {alloc : Bool} {type : TaskType}
    (halloc : type ≠ .HANDSHAKE → alloc = true) (hbar : type ≠ .BARRIER) (pid : Int)
    (request : CStr) (client : ClientRef) :
    Answered (s.taskEnqueue alloc type pid request client) := by
  -- the new task is one that a worker answers
  have hnew : Answerable (newTask s.history.stamp type pid request client) := by
    refine ⟨by rwa [type_newTask], ?_⟩
    rw [type_newTask, client_newTask]
    split <;> simp_all
  cases alloc with
  | true =>
    refine ⟨h.lost, fun t ht => ?_, h.running, fun t ht hne => ?_⟩
    · rcases List.mem_append.mp ht with ht | ht
      · exact h.queue t ht
      · exact List.mem_singleton.mp ht ▸ hnew
    · rcases List.mem_append.mp ht with ht | ht
      · exact (h.accepted t ht hne).imp_left (List.mem_append_left _)
      · exact Or.inl (List.mem_append_right _ ht)
  | false =>
    have htype : type = .HANDSHAKE := by
      by_contra hne
      exact Bool.noConfusion (halloc hne)
    subst htype
    exact ⟨h.lost, h.queue, h.running, h.accepted⟩

theorem Answered.dequeue (h : Answered s) {w : Nat} {task : Task} {queue : List Task}
    (hw : s.workers[w]? = some none) (hq : s.queue = task :: queue) :
    Answered { s with queue, workers := s.workers.set w (some task) } := by
  -- the first of the queue is one more of those that run
  have hrunning := running_set_some (t := task) hw
  refine ⟨h.lost, fun t ht => h.queue t (hq ▸ List.mem_cons_of_mem _ ht), fun t ht => ?_,
    fun t ht hne => ?_⟩
  · rcases List.mem_cons.mp (hrunning.mem_iff.mp ht) with rfl | ht
    · exact h.queue t (hq ▸ List.mem_cons_self)
    · exact h.running t ht
  · rcases h.accepted t ht hne with hm | hm | hr
    · rw [hq] at hm
      rcases List.mem_cons.mp hm with rfl | hm
      · exact Or.inr (Or.inl (hrunning.mem_iff.mpr List.mem_cons_self))
      · exact Or.inl hm
    · exact Or.inr (Or.inl (hrunning.mem_iff.mpr (List.mem_cons_of_mem _ hm)))
    · exact Or.inr (Or.inr hr)

/-- Worker `w` lets go of its task, with a result if the task has a client. -/
theorem Answered.finished (h : Answered s) {w : Nat} {task : Task}
    (hw : s.workers[w]? = some (some task)) (hqueue : s'.queue = s.queue)
    (hworkers : s'.workers = s.workers.set w none)
    (haccepted : s'.history.accepted = s.history.accepted)
    (hlost : s'.history.dropped = [] → s'.history.lost = [])
    (hkept : ∀ r ∈ s.history.posted, r ∈ s'.history.posted)
    (hposted : task.type ≠ .HANDSHAKE → ∃ r ∈ s'.history.posted, r.stamp = task.stamp) :
    Answered s' := by
  -- the task is no longer among those that run, and its result was posted
  have hrunning : s.running.Perm (task :: s'.running) := by
    rw [Server.running, Server.running, hworkers]
    exact running_set_none hw
  refine ⟨hlost, by rw [hqueue]; exact h.queue,
    fun t ht => h.running t (hrunning.mem_iff.mpr (List.mem_cons_of_mem _ ht)),
    fun t ht hne => ?_⟩
  rw [haccepted] at ht
  rw [hqueue]
  rcases h.accepted t ht hne with hm | hm | ⟨r, hr, heq⟩
  · exact Or.inl hm
  · rcases List.mem_cons.mp (hrunning.mem_iff.mp hm) with rfl | hm
    · exact Or.inr (Or.inr (hposted hne))
    · exact Or.inr (Or.inl hm)
  · exact Or.inr (Or.inr ⟨r, hkept r hr, heq⟩)

end Answered

theorem answered_init (cfg : Config) : Answered (init cfg) where
  lost := fun _ => rfl
  queue := fun t ht => by simp [init] at ht
  running := fun t ht => by simp [init, Server.running] at ht
  accepted := fun t ht => by simp [init] at ht

theorem answered_step {cfg : Config} {lbl : ServerLbl} {s s' : Server}
    (hs : step cfg lbl s = some s') (hok : GivesBack lbl s) (hwired : Wired cfg s)
    (h : Answered s) : Answered s' := by
  cases hwired.step_moves hs with
  | poll => exact ⟨h.lost, h.queue, h.running, h.accepted⟩
  | ignored => exact h
  | handshake pid alloc =>
    exact h.taskEnqueue (fun hne => absurd rfl hne) (by decide) pid [] 0
  | disconnect i cmd alloc c => exact h.congr (sameWork_removeAt i c s)
  | request i cmd alloc c type args hc _ _ hyes hleads =>
    rcases hok c hc hyes with ⟨halloc, hnobar⟩
    exact (h.congr (sameWork_acquired c s)).taskEnqueue (fun _ => halloc)
      (fun hb => hnobar (hleads.barrier hb)) 0 args c
  | hangup i c => exact h.congr (sameWork_removeAt i c s)
  | dequeue w task queue hw hq => exact h.dequeue hw hq
  | posts w env task body hw =>
    rw [postResult_eq]
    split
    · exact h.finished hw rfl rfl rfl h.lost (fun r hr => List.mem_append_left _ hr)
        fun _ => ⟨_, List.mem_append_right _ (List.mem_singleton_self _), rfl⟩
    · exact h.finished hw rfl rfl rfl (fun hd => by simp at hd)
        (fun r hr => List.mem_append_left _ hr)
        fun _ => ⟨_, List.mem_append_right _ (List.mem_singleton_self _), rfl⟩
  | silent w env task hw hsilent =>
    -- the task is a handshake: it names no client, and no result is missed
    rcases h.running task (mem_running hw) with ⟨hnobar, hhsk⟩
    have hnone : task.client? = none := by
      rcases type_of_silent hsilent with hnone | hbar | hh
      · exact hnone
      · exact absurd hbar hnobar
      · exact hhsk.mp hh
    refine h.finished hw rfl rfl rfl (fun hd => ?_) (fun r hr => hr) fun hne =>
      absurd (hhsk.mpr hnone) hne
    simpa [hnone] using h.lost hd
  | deliver ins res pipe =>
    have hpop : Answered { s with
        pipe
        history := { s.history with handled := s.history.handled ++ [res] } } :=
      ⟨h.lost, h.queue, h.running, h.accepted⟩
    exact hpop.congr (sameWork_handleResult ins res _)

theorem reachable_answered {cfg : Config} {s : Server}
    (h : ((system cfg).under GivesBack).Reachable s) : Answered s := by
  refine h.invariant_with (fun s hr => reachable_wired hr.of_under) (fun s hs => ?_)
    (fun lbl s s' hn hw hi => answered_step hn.2 hn.1 hw hi)
  subst hs
  exact answered_init cfg

/-! ## The counts -/

theorem count_filterMap {α : Type} (f : α → Option ClientRef) (l : List α) (c : ClientRef) :
    (l.filterMap f).count c = l.countP fun a => f a = some c := by
  induction l with
  | nil => rfl
  | cons a l ih =>
    rw [count_filterMap_cons, ih, List.countP_cons]
    cases h : f a with
    | none => simp
    | some d => simp [List.count_cons, Nat.add_comm]

/-- The reference count of a client, and what is left when nothing is in flight, while no
write to the RPC pipe has failed. -/
theorem references_accounted {cfg : Config} {s : Server}
    (h : ((system cfg).under GivesBack).Reachable s) (hwrites : s.history.dropped = []) :
    (∀ c < s.reg.brk, c ∉ s.reg.freed → (s.reg.mem c).refcount =
      (if c ∈ s.history.removed then 0 else 1) +
        (s.queue ++ s.running).countP (fun t => t.client? = some c) +
        s.pipe.countP fun r => r.client? = some c) ∧
    (s.queue = [] → s.running = [] → s.pipe = [] →
      (∀ c ∈ s.history.removed, c ∈ s.reg.freed) ∧
        ∀ t ∈ s.history.accepted, t.type ≠ .HANDSHAKE →
          (s.history.posted.map TaskResult.stamp).count t.stamp = 1) := by
  have hanswered := reachable_answered h
  have hlost := hanswered.lost hwrites
  have hcounted : Counted s.reg s.history.removed (references s) :=
    reachable_accounted (fun lbl s hok => rejectsLive_of_givesBack hok) h
  have hstamped := reachable_stamped h.of_under
  refine ⟨fun c hc hf => ?_, fun hq hr hp => ⟨fun c hc => ?_, fun t ht hne => ?_⟩⟩
  · rw [hcounted.refcount c hc hf, references, hlost, List.append_nil, List.count_append,
      count_filterMap, count_filterMap, Nat.add_assoc]
  · -- a removed client that is not freed would have a reference
    by_contra hf
    have hm := hcounted.kept c hc hf
    simp [references, hq, hr, hp, hlost] at hm
  · rcases hanswered.accepted t ht hne with hm | hm | ⟨r, hm, heq⟩
    · simp [hq] at hm
    · simp [hr] at hm
    · exact List.count_eq_one_of_mem hstamped.posted_nodup (heq ▸ List.mem_map_of_mem hm)

/-- One worker, and descriptors for the self pipes. -/
def oneWorker : Config := ⟨1, 65536, 3, 4, 5, 6⟩

/-- A handshake that goes through, with the descriptors 10 and 11. -/
def connects : Env := { Env.allSucceed 7 with hsk := some (10, 11) }

/-- A worker takes the next task, runs it and posts its result. -/
def answers (env : Env) : List ServerLbl := [.dequeue 0, .finish 0 env]

/-- A client connects. -/
def connection : List ServerLbl :=
  .handshake 42 true :: answers connects ++ [.deliver ⟨true, true, true⟩]

/-- A client connects, has a canvas made and hangs up while the command runs. -/
def hangupInCommand : List ServerLbl :=
  connection ++ [.request 2 "create_canvas 1 1 0".toList true, .dequeue 0, .hangup 2,
    .finish 0 (Env.allSucceed 7), .deliver ⟨true, true, true⟩]

theorem references_accounted_hangupInCommand :
    ∃ s : Server, s.history.removed = [0] ∧ (∀ c ∈ s.history.removed, c ∈ s.reg.freed) ∧
      ∀ t ∈ s.history.accepted, t.type ≠ .HANDSHAKE →
        (s.history.posted.map TaskResult.stamp).count t.stamp = 1 := by
  obtain ⟨s, hs, hp⟩ := exists_reachable_of_run (init oneWorker)
    (guarded GivesBack (step oneWorker)) hangupInCommand
    (fun s => decide (s.history.removed = [0] ∧ s.history.dropped = [] ∧ s.queue = [] ∧
      s.running = [] ∧ s.pipe = [])) (by decide)
  rcases of_decide_eq_true hp with ⟨hrem, hwrites, hq, hr, hpipe⟩
  rw [← under_ofStep] at hs
  exact ⟨s, hrem, (references_accounted hs hwrites).2 hq hr hpipe⟩

/-- The worker that runs a `barrier` keeps the reference of the client. -/
theorem barrier_keeps_reference :
    ¬ ∀ cfg s, (system cfg).Reachable s → s.history.dropped = [] →
      (∀ c < s.reg.brk, c ∉ s.reg.freed → (s.reg.mem c).refcount =
        (if c ∈ s.history.removed then 0 else 1) +
          (s.queue ++ s.running).countP (fun t => t.client? = some c) +
          s.pipe.countP fun r => r.client? = some c) ∧
      (s.queue = [] → s.running = [] → s.pipe = [] →
        (∀ c ∈ s.history.removed, c ∈ s.reg.freed) ∧
          ∀ t ∈ s.history.accepted, t.type ≠ .HANDSHAKE →
            (s.history.posted.map TaskResult.stamp).count t.stamp = 1) := by
  intro h
  obtain ⟨s, hs, hp⟩ := exists_reachable_of_run (init oneWorker) (step oneWorker)
    (connection ++ .request 2 "barrier x".toList true :: answers (Env.allSucceed 7))
    (fun s => decide (s.history.dropped = [] ∧ 0 < s.reg.brk ∧ 0 ∉ s.reg.freed ∧
      s.queue = [] ∧ s.running = [] ∧ s.pipe = [] ∧ 0 ∉ s.history.removed ∧
      (s.reg.mem 0).refcount = 2)) (by decide)
  rcases of_decide_eq_true hp with ⟨hwrites, hbrk, hfreed, hq, hr, hpipe, hrem, hcount⟩
  -- after a barrier client 0 has the registry's reference and one that nothing names
  have hone := (h _ s hs hwrites).1 0 hbrk hfreed
  simp [hq, hr, hpipe, hrem, hcount] at hone

end AnimateServer.Accounting
