import AnimateServer.Verify.Descriptors
import Mathlib.Data.List.Perm.Subperm

/-!
# Requests, tasks and results

The stamps follow a request from `task_enqueue` to its result: the accepted tasks
have increasing stamps, the queue is the end of the accepted tasks, and a stamp
is in one place only: in the queue, at one worker, or on one posted result.
-/

namespace AnimateServer.Stamps

open CLib Server ServerSteps

/-- What a task and its result have in common. -/
def taskOrigin (t : Task) : Nat × Option ClientRef := (t.stamp, t.client?)

def resultOrigin (r : TaskResult) : Nat × Option ClientRef := (r.stamp, r.client?)

/-- The tasks that are queued, run, or have been answered. -/
def places (s : Server) : List (Nat × Option ClientRef) :=
  s.queue.map taskOrigin ++ s.running.map taskOrigin ++ s.history.posted.map resultOrigin

structure Stamped (s : Server) : Prop where
  increasing : (s.history.accepted.map Task.stamp).Pairwise (· < ·)
  below : ∀ t ∈ s.history.accepted, t.stamp < s.history.stamp
  suffix : s.queue <:+ s.history.accepted
  older : ∀ t ∈ s.running, ∀ u ∈ s.queue, t.stamp < u.stamp
  places : (places s).Subperm (s.history.accepted.map taskOrigin)

/-- Where the tasks are does not change if no work is done. -/
theorem places_congr {s s' : Server} (h : SameWork s s') : places s' = places s := by
  unfold places
  rw [h.queue, h.running, h.posted]

section Stamped

variable {s s' : Server}

theorem Stamped.congr (h : Stamped s) (hw : SameWork s s') : Stamped s' where
  increasing := by rw [hw.accepted]; exact h.increasing
  below := by rw [hw.accepted, hw.stamp]; exact h.below
  suffix := by rw [hw.accepted, hw.queue]; exact h.suffix
  older := by rw [hw.running, hw.queue]; exact h.older
  places := by rw [places_congr hw, hw.accepted]; exact h.places

/-- A stamp is in one place only. -/
theorem Stamped.nodup (h : Stamped s) : ((Stamps.places s).map Prod.fst).Nodup := by
  have hnodup : ((s.history.accepted.map taskOrigin).map Prod.fst).Nodup := by
    rw [List.map_map]
    exact h.increasing.imp Nat.ne_of_lt
  rcases h.places with ⟨l, hperm, hsub⟩
  exact (hperm.map Prod.fst).nodup_iff.mp (hnodup.sublist (hsub.map Prod.fst))

/-- No two results have the same stamp. -/
theorem Stamped.posted_nodup (h : Stamped s) :
    (s.history.posted.map TaskResult.stamp).Nodup := by
  have hnodup := h.nodup
  rw [Stamps.places, List.map_append] at hnodup
  have hposted := (List.nodup_append.mp hnodup).2.1
  rwa [List.map_map] at hposted

/-- No two running tasks have the same stamp. -/
theorem Stamped.running_nodup (h : Stamped s) : (s.running.map Task.stamp).Nodup := by
  have hnodup := h.nodup
  rw [Stamps.places, List.map_append, List.map_append] at hnodup
  have hrunning := (List.nodup_append.mp (List.nodup_append.mp hnodup).1).2.1
  rwa [List.map_map] at hrunning

/-- What is somewhere has been accepted. -/
theorem Stamped.mem_places (h : Stamped s) {o : Nat × Option ClientRef}
    (ho : o ∈ Stamps.places s) : ∃ t ∈ s.history.accepted, taskOrigin t = o :=
  List.mem_map.mp (h.places.subset ho)

/-- The queue is in the order of the stamps. -/
theorem Stamped.queue_increasing (h : Stamped s) :
    (s.queue.map Task.stamp).Pairwise (· < ·) :=
  h.increasing.sublist (h.suffix.sublist.map _)

/-- The running tasks have stamps of the past. -/
theorem Stamped.running_below (h : Stamped s) {t : Task} (ht : t ∈ s.running) :
    t.stamp < s.history.stamp := by
  obtain ⟨u, hu, heq⟩ := h.mem_places (o := taskOrigin t)
    (List.mem_append_left _ (List.mem_append_right _ (List.mem_map_of_mem ht)))
  have hsame : u.stamp = t.stamp := congrArg Prod.fst heq
  exact hsame ▸ h.below u hu

/-- A new task has a new stamp. -/
theorem Stamped.taskEnqueue (h : Stamped s) (alloc : Bool) (type : TaskType) (pid : Int)
    (request : CStr) (client : ClientRef) :
    Stamped (s.taskEnqueue alloc type pid request client) := by
  cases alloc with
  | false =>
    exact ⟨h.increasing, fun t ht => Nat.lt_succ_of_lt (h.below t ht), h.suffix, h.older, h.places⟩
  | true =>
    -- the new task has the number of this call, beyond all the others
    have hstamp : (newTask s.history.stamp type pid request client).stamp = s.history.stamp := by
      cases type <;> rfl
    refine ⟨?_, ?_, ?_, ?_, ?_⟩ <;> simp only [Server.taskEnqueue, if_true]
    · rw [List.map_append, List.pairwise_append]
      refine ⟨h.increasing, List.pairwise_singleton _ _, ?_⟩
      intro n hn m hm
      rcases List.mem_map.mp hn with ⟨t, ht, rfl⟩
      obtain rfl : m = _ := List.mem_singleton.mp hm
      rw [hstamp]
      exact h.below t ht
    · intro t ht
      rcases List.mem_append.mp ht with ht | ht
      · exact Nat.lt_succ_of_lt (h.below t ht)
      · rw [List.mem_singleton.mp ht, hstamp]
        exact Nat.lt_succ_self _
    · exact (List.suffix_append_inj_of_length_eq rfl).mpr ⟨h.suffix, rfl⟩
    · intro t ht u hu
      rcases List.mem_append.mp hu with hu | hu
      · exact h.older t ht u hu
      · rw [List.mem_singleton.mp hu, hstamp]
        exact h.running_below ht
    · have hplaces : (Stamps.places (s.taskEnqueue true type pid request client)).Perm
          (taskOrigin (newTask s.history.stamp type pid request client) :: Stamps.places s) := by
        simp only [Stamps.places, Server.taskEnqueue, if_true, Server.running, List.map_append,
          List.append_assoc]
        exact List.perm_middle
      have haccepted : ((s.history.accepted ++
          [newTask s.history.stamp type pid request client]).map taskOrigin).Perm
          (taskOrigin (newTask s.history.stamp type pid request client) ::
            s.history.accepted.map taskOrigin) := by
        rw [List.map_append]
        exact List.perm_append_singleton _ _
      exact hplaces.subperm_right.mpr
        (haccepted.subperm_left.mpr ((List.subperm_cons _).mpr h.places))

/-- A task keeps its stamp when a worker takes it. -/
theorem Stamped.dequeue (h : Stamped s) {w : Nat} {task : Task} {queue : List Task}
    (hw : s.workers[w]? = some none) (hq : s.queue = task :: queue) :
    Stamped { s with queue, workers := s.workers.set w (some task) } := by
  have hrunning := running_set_some (t := task) hw
  have hincr := h.queue_increasing
  rw [hq, List.map_cons, List.pairwise_cons] at hincr
  refine ⟨h.increasing, h.below, ?_, fun t ht u hu => ?_, ?_⟩
  · exact (List.suffix_cons task queue).trans (hq ▸ h.suffix)
  · rcases List.mem_cons.mp (hrunning.mem_iff.mp ht) with rfl | ht
    · exact hincr.1 _ (List.mem_map_of_mem hu)
    · exact h.older t ht u (hq ▸ List.mem_cons_of_mem _ hu)
  · refine List.Perm.subperm_right ?_ |>.mpr h.places
    simp only [Stamps.places, hq, List.map_cons, List.cons_append]
    refine (((hrunning.map taskOrigin).append_left _).append_right _).trans ?_
    exact List.perm_middle.append_right _

/-- What a worker leaves when it lets go of its task. -/
theorem Stamped.finished (h : Stamped s) {w : Nat} {task : Task}
    (hw : s.workers[w]? = some (some task)) {s' : Server} (hqueue : s'.queue = s.queue)
    (hworkers : s'.workers = s.workers.set w none)
    (hstamp : s'.history.stamp = s.history.stamp)
    (haccepted : s'.history.accepted = s.history.accepted)
    (hposted : s'.history.posted = s.history.posted ∨
      ∃ res, resultOrigin res = taskOrigin task ∧ s'.history.posted = s.history.posted ++ [res]) :
    Stamped s' := by
  have hrunning : s.running.Perm (task :: s'.running) := by
    rw [Server.running, Server.running, hworkers]
    exact running_set_none hw
  refine ⟨by rw [haccepted]; exact h.increasing, by rw [haccepted, hstamp]; exact h.below,
    by rw [hqueue, haccepted]; exact h.suffix, fun t ht u hu => ?_, ?_⟩
  · exact h.older t (hrunning.mem_iff.mpr (List.mem_cons_of_mem _ ht)) u (hqueue ▸ hu)
  · rw [haccepted]
    -- the task's place moves from the running ones to the posted ones
    have hplaces : (Stamps.places s).Perm (s.queue.map taskOrigin ++ s'.running.map taskOrigin ++
        (s.history.posted.map resultOrigin ++ [taskOrigin task])) := by
      refine (((hrunning.map taskOrigin).append_left _).append_right _).trans ?_
      simp only [List.map_cons, ← List.append_assoc]
      refine List.Perm.trans ?_ (List.perm_append_singleton _ _).symm
      simp only [List.append_assoc]
      exact List.perm_middle
    refine List.Subperm.trans ?_ (hplaces.subperm_right.mp h.places)
    rw [Stamps.places, hqueue]
    rcases hposted with heq | ⟨res, hres, heq⟩
    · rw [heq, ← List.append_assoc]
      exact (List.sublist_append_left _ _).subperm
    · rw [heq, List.map_append, List.map_singleton, hres]

end Stamped

/-- At the start no stamp has been given out. -/
theorem stamped_init (cfg : Config) : Stamped (init cfg) where
  increasing := List.Pairwise.nil
  below := fun t ht => by simp [init] at ht
  suffix := List.suffix_refl _
  older := fun t _ u hu => by simp [init] at hu
  places := by simp [places, init, Server.running]

/-- Every step leaves each stamp in one place. -/
theorem stamped_step {cfg : Config} {lbl : ServerLbl} {s s' : Server}
    (hs : step cfg lbl s = some s') (hwired : Descriptors.Wired cfg s) (h : Stamped s) :
    Stamped s' := by
  -- a task is queued, taken and finished, and its result is handled or dropped
  cases hwired.step_moves hs with
  | poll => exact ⟨h.increasing, h.below, h.suffix, h.older, h.places⟩
  | handshake pid alloc => exact h.taskEnqueue alloc .HANDSHAKE pid [] 0
  | ignored => exact h
  | disconnect i cmd alloc c => exact h.congr (sameWork_removeAt i c s)
  | request i cmd alloc c type args =>
    exact (h.congr (sameWork_acquired c s)).taskEnqueue alloc type 0 args c
  | hangup i c => exact h.congr (sameWork_removeAt i c s)
  | dequeue w task queue hw hq => exact h.dequeue hw hq
  | posts w env task body hw hout =>
    have hres : resultOrigin ⟨task.stamp, body⟩ = taskOrigin task := by
      rw [resultOrigin, taskOrigin, workerRoutine_client hout]
    rw [postResult_eq]
    split <;> exact h.finished hw rfl rfl rfl rfl (Or.inr ⟨_, hres, rfl⟩)
  | silent w env task hw => exact h.finished hw rfl rfl rfl rfl (Or.inl rfl)
  | deliver ins res pipe =>
    have hpop : Stamped { s with
        pipe
        history := { s.history with handled := s.history.handled ++ [res] } } :=
      ⟨h.increasing, h.below, h.suffix, h.older, h.places⟩
    exact hpop.congr (sameWork_handleResult ins res _)

/-- In every reachable state each stamp is in one place. -/
theorem reachable_stamped {cfg : Config} {s : Server} (h : (system cfg).Reachable s) :
    Stamped s := by
  refine h.invariant_with (fun s hr => Descriptors.reachable_wired hr) (fun s hs => ?_)
    (fun lbl s s' hn hw hi => stamped_step hn hw hi)
  subst hs
  exact stamped_init cfg

/-! ### The task of a result -/

section Task

variable {cfg : Config} {lbl : ServerLbl} {s s' : Server}

/-- Two accepted tasks with one stamp are one task. -/
theorem Stamped.eq_task (h : Stamped s) {t t' : Task} (ht : t ∈ s.history.accepted)
    (ht' : t' ∈ s.history.accepted) (heq : t.stamp = t'.stamp) : t = t' :=
  List.inj_on_of_nodup_map (h.increasing.imp Nat.ne_of_lt) ht ht' heq

/-- A posted result has a task with its stamp and its client. -/
theorem Stamped.task (h : Stamped s) {r : TaskResult} (hr : r ∈ s.history.posted) :
    ∃ t ∈ s.history.accepted, t.stamp = r.stamp ∧ t.client? = r.client? := by
  obtain ⟨t, ht, horigin⟩ := h.mem_places (o := resultOrigin r)
    (List.mem_append_right _ (List.mem_map_of_mem hr))
  exact ⟨t, ht, congrArg Prod.fst horigin, congrArg Prod.snd horigin⟩

/-- A result answers the client whose task has its stamp. -/
theorem Stamped.client (h : Stamped s) {t : Task} {r : TaskResult}
    (ht : t ∈ s.history.accepted) (hr : r ∈ s.history.posted) (heq : r.stamp = t.stamp) :
    r.client? = t.client? := by
  rcases h.task hr with ⟨t', ht', hstamp, hclient⟩
  rw [h.eq_task ht ht' (heq.symm.trans hstamp.symm), hclient]

/-- The tasks that have been accepted are never taken back. -/
theorem accepted_step (hs : step cfg lbl s = some s') (hwired : Descriptors.Wired cfg s) :
    s.history.accepted <+: s'.history.accepted := by
  -- only an enqueue adds to the history, and at its end
  cases hwired.step_moves hs with
  | handshake pid alloc =>
    cases alloc with
    | false => exact List.prefix_refl _
    | true => exact List.prefix_append _ _
  | request i cmd alloc =>
    cases alloc with
    | false => exact List.prefix_refl _
    | true => exact List.prefix_append _ _
  | poll | ignored | disconnect | hangup | dequeue | silent => exact List.prefix_refl _
  | posts =>
    rw [postResult_eq]
    split <;> exact List.prefix_refl _
  | deliver ins res pipe =>
    have hsame := sameWork_handleResult ins res { s with
      pipe
      history := { s.history with handled := s.history.handled ++ [res] } }
    exact ⟨[], (List.append_nil _).trans hsame.accepted.symm⟩

/-- A task that runs has run before or comes from the queue. -/
theorem running_step (hs : step cfg lbl s = some s') (hwired : Descriptors.Wired cfg s) {t : Task}
    (ht : t ∈ s'.running) : t ∈ s.running ∨ t ∈ s.queue := by
  -- a task starts to run when it leaves the queue
  cases hwired.step_moves hs with
  | handshake pid alloc => cases alloc <;> exact Or.inl ht
  | request i cmd alloc => cases alloc <;> exact Or.inl ht
  | poll | ignored | disconnect | hangup => exact Or.inl ht
  | dequeue w task queue hw hq =>
    rcases List.mem_cons.mp ((running_set_some (t := task) hw).mem_iff.mp ht) with rfl | ht
    · exact Or.inr (hq ▸ List.mem_cons_self)
    · exact Or.inl ht
  | posts w env task body hw =>
    rw [postResult_eq] at ht
    have hmem : t ∈ (s.workers.set w none).filterMap id := by
      split at ht <;> exact ht
    exact Or.inl ((running_set_none hw).mem_iff.mpr (List.mem_cons_of_mem _ hmem))
  | silent w env task hw =>
    exact Or.inl ((running_set_none hw).mem_iff.mpr (List.mem_cons_of_mem _ ht))
  | deliver ins res pipe =>
    rw [(sameWork_handleResult ins res _).running] at ht
    exact Or.inl ht

/-- The tasks that run have been accepted. -/
theorem reachable_running (h : (system cfg).Reachable s) :
    ∀ t ∈ s.running, t ∈ s.history.accepted := by
  refine h.invariant_with
    (fun s hr => And.intro (Descriptors.reachable_wired hr) (reachable_stamped hr))
    (fun s hs => ?_) (fun lbl s s' hn hk hi t ht => ?_)
  · subst hs
    simp [init, Server.running]
  · refine (accepted_step hn hk.1).subset ?_
    exact (running_step hn hk.1 ht).elim (hi t) fun hq => hk.2.suffix.subset hq

end Task

end AnimateServer.Stamps
