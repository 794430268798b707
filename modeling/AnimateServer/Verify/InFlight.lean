import AnimateServer.Verify.Accounting
import AnimateServer.Verify.Records

/-!
# What tasks and results carry

A value that a task carries (a client to authorise, a pid) goes with it from the
queue to a worker, and with its result into the RPC pipe. `inFlight` lists these
values. A step adds the value of the task it accepts, loses some, or takes out
that of the result it handles.
-/

namespace AnimateServer.InFlight

open CLib Server ServerSteps ServerInv Descriptors Records Accounting

/-- The task that a step links into the queue. -/
inductive Accepts : ServerLbl → Server → Task → Prop where
  | handshake {s : Server} (pid : Int) :
      Accepts (.handshake pid true) s (handshakeTask s.history.stamp pid)
  | request {s : Server} {i : Nat} {cmd : CStr} {c : ClientRef} {type : TaskType} (args : CStr) :
      s.clientAt i = some c → c < s.reg.brk → Enqueues c cmd s → LeadsTo cmd type →
      Accepts (.request i cmd true) s (newTask s.history.stamp type 0 args c)

section InFlight

variable {α : Type} (f : Task → Option α) (g : ResultBody → Option α) {s s' : Server}

/-- The values in the queue, with the workers, and in the pipe. -/
def inFlight (s : Server) : List α :=
  (s.queue ++ s.running).filterMap f ++ s.pipe.filterMap fun r => g r.body

theorem filterMap_singleton (a : Task) : [a].filterMap f = (f a).toList := by
  cases h : f a <;> simp [h]

theorem filterMap_result (r : TaskResult) :
    [r].filterMap (fun r => g r.body) = (g r.body).toList := by
  cases h : g r.body <;> simp [h]

theorem inFlight_congr (hqueue : s'.queue = s.queue) (hworkers : s'.workers = s.workers)
    (hpipe : s'.pipe = s.pipe) : inFlight f g s' = inFlight f g s := by
  have hrunning : s'.running = s.running := by rw [Server.running, hworkers, Server.running]
  rw [inFlight, hqueue, hrunning, hpipe, inFlight]

/-- One more task in the queue. -/
theorem inFlight_enqueue {t : Task} (hqueue : s'.queue = s.queue ++ [t])
    (hworkers : s'.workers = s.workers) (hpipe : s'.pipe = s.pipe) :
    (inFlight f g s').Perm ((f t).toList ++ inFlight f g s) := by
  have hrunning : s'.running = s.running := by rw [Server.running, hworkers, Server.running]
  unfold inFlight
  rw [hqueue, hrunning, hpipe, ← List.append_assoc, ← filterMap_singleton f,
    ← List.filterMap_append]
  refine List.Perm.append_right _ (List.Perm.filterMap _ ?_)
  rw [List.append_assoc]
  exact List.perm_append_comm_assoc _ _ _

/-- A worker takes a task. -/
theorem inFlight_dequeue {w : Nat} {task : Task} {queue : List Task}
    (hw : s.workers[w]? = some none) (hq : s.queue = task :: queue) :
    (inFlight f g s).Perm
      (inFlight f g { s with queue, workers := s.workers.set w (some task) }) := by
  have hrunning := running_set_some (t := task) hw
  refine List.Perm.append_right _ (List.Perm.filterMap _ ?_)
  rw [hq]
  calc task :: queue ++ s.running
      _ = task :: (queue ++ s.running) := rfl
      _ |>.Perm (queue ++ task :: s.running) := List.perm_middle.symm
      _ |>.Perm _ := hrunning.symm.append_left queue

/-- A worker lets go of its task. -/
theorem inFlight_finish {w : Nat} {task : Task} (hw : s.workers[w]? = some (some task))
    (hqueue : s'.queue = s.queue) (hworkers : s'.workers = s.workers.set w none)
    (hpipe : s'.pipe = s.pipe) :
    (inFlight f g s).Perm ((f task).toList ++ inFlight f g s') := by
  have hrunning : s.running.Perm (task :: s'.running) := by
    rw [Server.running, Server.running, hworkers]
    exact running_set_none hw
  unfold inFlight
  rw [hqueue, hpipe, ← List.append_assoc, ← filterMap_singleton f, ← List.filterMap_append]
  refine List.Perm.append_right _ (List.Perm.filterMap _ ?_)
  exact (hrunning.append_left s.queue).trans List.perm_middle

/-- A worker posts the result of its task. -/
theorem inFlight_posted {w : Nat} {task : Task} {res : TaskResult}
    (hw : s.workers[w]? = some (some task)) (hqueue : s'.queue = s.queue)
    (hworkers : s'.workers = s.workers.set w none) (hpipe : s'.pipe = s.pipe ++ [res])
    (hres : g res.body = f task) : (inFlight f g s).Perm (inFlight f g s') := by
  have hgone : (inFlight f g s).Perm
      ((f task).toList ++ inFlight f g { s with workers := s.workers.set w none }) :=
    inFlight_finish f g hw rfl rfl rfl
  refine hgone.trans ?_
  have hrunning : s'.running = (s.workers.set w none).filterMap id := by
    rw [Server.running, hworkers]
  -- the result stands at the end of the pipe
  have hlast : inFlight f g s' = inFlight f g { s with workers := s.workers.set w none } ++
      (f task).toList := by
    unfold inFlight
    rw [hqueue, hpipe, hrunning, List.filterMap_append (l := s.pipe), filterMap_result, hres,
      ← List.append_assoc]
    rfl
  rw [hlast]
  exact List.perm_append_comm

/-- A worker posts a result without a value. -/
theorem inFlight_dropped {w : Nat} {task : Task} {res : TaskResult}
    (hw : s.workers[w]? = some (some task)) (hqueue : s'.queue = s.queue)
    (hworkers : s'.workers = s.workers.set w none) (hpipe : s'.pipe = s.pipe ++ [res])
    (hres : g res.body = none) : (inFlight f g s).Perm ((f task).toList ++ inFlight f g s') := by
  have hgone : (inFlight f g s).Perm
      ((f task).toList ++ inFlight f g { s with workers := s.workers.set w none }) :=
    inFlight_finish f g hw rfl rfl rfl
  have hrunning : s'.running = (s.workers.set w none).filterMap id := by
    rw [Server.running, hworkers]
  have hsame : inFlight f g s' = inFlight f g { s with workers := s.workers.set w none } := by
    unfold inFlight
    rw [hqueue, hpipe, hrunning, List.filterMap_append (l := s.pipe), filterMap_result, hres,
      Option.toList_none, List.append_nil]
    rfl
  rwa [hsame]

/-- The main loop takes a result out of the pipe. -/
theorem inFlight_deliver {res : TaskResult} {pipe : List TaskResult} (hp : s.pipe = res :: pipe)
    (hqueue : s'.queue = s.queue) (hworkers : s'.workers = s.workers) (hpipe : s'.pipe = pipe) :
    (inFlight f g s).Perm ((g res.body).toList ++ inFlight f g s') := by
  have hrunning : s'.running = s.running := by rw [Server.running, hworkers, Server.running]
  unfold inFlight
  rw [hqueue, hrunning, hpipe, hp, ← List.singleton_append,
    List.filterMap_append (l := [res]), filterMap_result]
  exact List.perm_append_comm_assoc _ _ _

/-- What a step does to the values in flight. -/
inductive Flow (lbl : ServerLbl) (s s' : Server) : Prop where
  | accepted {t : Task} : Accepts lbl s t → pending lbl s = none →
      s'.history.accepted = s.history.accepted ++ [t] →
      s'.history.handled = s.history.handled →
      (inFlight f g s').Perm ((f t).toList ++ inFlight f g s) → Flow lbl s s'
  | other {gone : List α} : pending lbl s = none → s'.history.handled = s.history.handled →
      (inFlight f g s).Perm (gone ++ inFlight f g s') → Flow lbl s s'
  | handled {res : TaskResult} : res ∈ s.pipe.head? → pending lbl s = some res.body →
      s'.history.handled = s.history.handled ++ [res] →
      (inFlight f g s).Perm ((g res.body).toList ++ inFlight f g s') → Flow lbl s s'

variable {f g}

/-- The values stay in flight. -/
theorem flow_moved {lbl : ServerLbl} (hp : pending lbl s = none)
    (hhandled : s'.history.handled = s.history.handled)
    (hperm : (inFlight f g s).Perm (inFlight f g s')) : Flow f g lbl s s' :=
  @Flow.other α f g lbl s s' [] hp hhandled hperm

theorem flow_of_sameWork {lbl : ServerLbl} (hp : pending lbl s = none) (h : SameWork s s') :
    Flow f g lbl s s' := by
  refine flow_moved hp h.handled ?_
  rw [inFlight_congr f g h.queue h.workers h.pipe]

theorem inFlight_step {cfg : Config} {lbl : ServerLbl} (hs : step cfg lbl s = some s')
    (hwired : Wired cfg s)
    (hpost : ∀ (env : Env) r w task body, (workerRoutine env r w task).2 = .posts body →
      g body = f task ∨ g body = none) : Flow f g lbl s s' := by
  cases hwired.step_moves hs with
  | poll | ignored => exact flow_moved rfl rfl (List.Perm.refl _)
  | handshake pid alloc =>
    cases alloc with
    | false => exact flow_moved rfl rfl (List.Perm.refl _)
    | true => exact .accepted (.handshake pid) rfl rfl rfl (inFlight_enqueue f g rfl rfl rfl)
  | disconnect i cmd alloc c => exact flow_of_sameWork rfl (sameWork_removeAt i c s)
  | request i cmd alloc c type args hc hlt _ hyes hleads =>
    cases alloc with
    | false => exact flow_moved rfl rfl (List.Perm.refl _)
    | true =>
      exact .accepted (.request args hc hlt hyes hleads) rfl rfl rfl
        (inFlight_enqueue f g (s := s) rfl rfl rfl)
  | hangup i c => exact flow_of_sameWork rfl (sameWork_removeAt i c s)
  | dequeue w task queue hw hq => exact flow_moved rfl rfl (inFlight_dequeue f g hw hq)
  | posts w env task body hw hout =>
    rw [postResult_eq]
    split
    · rcases hpost _ _ _ _ _ hout with hsame | hnone
      · exact flow_moved rfl rfl (inFlight_posted f g hw rfl rfl rfl hsame)
      · exact .other rfl rfl (inFlight_dropped f g hw rfl rfl rfl hnone)
    · exact .other rfl rfl (inFlight_finish f g hw rfl rfl rfl)
  | silent w env task hw => exact .other rfl rfl (inFlight_finish f g hw rfl rfl rfl)
  | deliver ins res pipe hp =>
    have hwork := sameWork_handleResult ins res { s with
      pipe
      history := { s.history with handled := s.history.handled ++ [res] } }
    have hflow := inFlight_deliver f g hp hwork.queue hwork.workers hwork.pipe
    exact .handled (by rw [hp]; rfl) (by rw [pending, hp]; rfl) hwork.handled hflow

end InFlight

theorem inFlight_tasks (s : Server) :
    inFlight some (fun _ => (none : Option Task)) s = s.queue ++ s.running := by
  simp [inFlight]

/-- A task that is queued or runs has been so before, or has just been accepted. -/
theorem work_step {cfg : Config} {lbl : ServerLbl} {s s' : Server} (hs : step cfg lbl s = some s')
    (hwired : Wired cfg s) {t : Task} (ht : t ∈ s'.queue ++ s'.running) :
    t ∈ s.queue ++ s.running ∨
      Accepts lbl s t ∧ s'.history.accepted = s.history.accepted ++ [t] := by
  rw [← inFlight_tasks] at ht ⊢
  cases inFlight_step (f := some) (g := fun _ => none) hs hwired fun _ _ _ _ _ _ => Or.inr rfl with
  | @accepted u hacc _ haccepted _ hperm =>
    rcases List.mem_append.mp (hperm.mem_iff.mp ht) with hnew | hold
    · obtain rfl : t = u := by simpa using hnew
      exact Or.inr ⟨hacc, haccepted⟩
    · exact Or.inl hold
  | other _ _ hperm => exact Or.inl (hperm.mem_iff.mpr (List.mem_append_right _ ht))
  | handled _ _ _ hperm => exact Or.inl (hperm.mem_iff.mpr (List.mem_append_right _ ht))

end AnimateServer.InFlight
