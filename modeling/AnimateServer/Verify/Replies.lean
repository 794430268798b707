import AnimateServer.Verify.Accounting

/-!
# Replies and their order

A reply is written when its result is read, and the RPC pipe keeps the order in
which the workers post. The workers take the tasks in the order of the requests,
but several of them may run at a time, so the order of the results is that of
the requests only if no worker overtakes another one with a task of the same
client. One worker alone overtakes nobody.
-/

namespace AnimateServer.Replies

open CLib Server ServerSteps Descriptors Stamps Transition

/-! ## Results in the pipe -/

/-- What becomes of the posted results. -/
structure Delivered (s : Server) : Prop where
  written : (s.history.handled ++ s.pipe).Sublist s.history.posted
  complete : s.history.dropped = [] → s.history.handled ++ s.pipe = s.history.posted

/-- The stamps of the replies that were sent to `c`. -/
def repliesTo (c : ClientRef) (s : Server) : List Nat :=
  s.history.sent.filterMap fun e => if e.1 = c then some e.2.1 else none

/-- The stamps of the results for `c`. -/
def resultsFor (c : ClientRef) (rs : List TaskResult) : List Nat :=
  rs.filterMap fun r => if r.client? = some c then some r.stamp else none

/-- Every handled result of a client has been answered by one line, in order. -/
def Sent (s : Server) : Prop := ∀ c, repliesTo c s = resultsFor c s.history.handled

/-- The results for a client keep their order. -/
theorem resultsFor_append (c : ClientRef) (rs rs' : List TaskResult) :
    resultsFor c (rs ++ rs') = resultsFor c rs ++ resultsFor c rs' :=
  List.filterMap_append

section Delivered

variable {s s' : Server}

theorem Delivered.congr (h : Delivered s) (hw : SameWork s s') : Delivered s' where
  written := by rw [hw.handled, hw.pipe, hw.posted]; exact h.written
  complete := by rw [hw.handled, hw.pipe, hw.posted, hw.dropped]; exact h.complete

/-- A result that is posted is in the pipe or dropped. -/
theorem Delivered.postResult (h : Delivered s) (cfg : Config) (res : TaskResult) :
    Delivered (s.postResult cfg res) := by
  rw [postResult_eq]
  split
  · refine ⟨?_, fun hd => ?_⟩ <;> dsimp only <;> rw [← List.append_assoc]
    · exact h.written.append (List.Sublist.refl _)
    · rw [h.complete hd]
  · refine ⟨h.written.trans (List.sublist_append_left _ _), fun hd => ?_⟩
    simp at hd

/-- A handshake sends no line. -/
theorem sent_handshakeDone (ins : Inserts) (pid c2s s2c : Int) (s : Server) :
    (s.handshakeDone ins pid c2s s2c).history.sent = s.history.sent := by
  unfold Server.handshakeDone
  split
  · rfl
  · dsimp only
    split <;> rfl

/-- A result of a client is answered by one line, a handshake by none. -/
theorem sent_handleResult (ins : Inserts) (res : TaskResult) (s : Server) :
    ∃ line, (s.handleResult ins res).history.sent =
      s.history.sent ++ res.client?.toList.map fun c => (c, res.stamp, line) := by
  rcases res with ⟨stamp, body⟩
  cases body with
  | HSK_OK pid c2s s2c =>
    refine ⟨[], (sent_handshakeDone ins pid c2s s2c s).trans ?_⟩
    simp [TaskResult.client?]
  | AUTH_OK c username balance => exact ⟨_, rfl⟩
  | AUTH_NO c => exact ⟨_, rfl⟩
  | AUTH_UN c => exact ⟨_, rfl⟩
  | RPC_DONE c rv => exact ⟨_, rfl⟩

/-- The line of a result goes to its client. -/
theorem repliesTo_handleResult (ins : Inserts) (res : TaskResult) (s : Server) (c : ClientRef) :
    repliesTo c (s.handleResult ins res) = repliesTo c s ++ resultsFor c [res] := by
  rcases sent_handleResult ins res s with ⟨line, heq⟩
  unfold repliesTo resultsFor
  rw [heq, List.filterMap_append]
  congr 1
  cases hc : res.client? with
  | none => simp [hc]
  | some d => by_cases hdc : d = c <;> simp [hc, hdc]

end Delivered

/-- Every step leaves the results in the order of the pipe. -/
theorem delivered_step {cfg : Config} {lbl : ServerLbl} {s s' : Server}
    (hs : step cfg lbl s = some s') (hwired : Wired cfg s) (h : Delivered s) (hsent : Sent s) :
    Delivered s' ∧ Sent s' := by
  -- a result is posted or handled, and the other steps move none
  cases hwired.step_moves hs with
  | ignored => exact ⟨h, hsent⟩
  | poll | dequeue | silent => exact ⟨⟨h.written, h.complete⟩, hsent⟩
  | handshake pid alloc => cases alloc <;> exact ⟨⟨h.written, h.complete⟩, hsent⟩
  | request i cmd alloc => cases alloc <;> exact ⟨⟨h.written, h.complete⟩, hsent⟩
  | disconnect i cmd alloc c => exact ⟨h.congr (sameWork_removeAt i c s), hsent⟩
  | hangup i c => exact ⟨h.congr (sameWork_removeAt i c s), hsent⟩
  | posts w env task =>
    have hafter : Delivered (afterTask w env task s) := ⟨h.written, h.complete⟩
    refine ⟨hafter.postResult cfg _, ?_⟩
    rw [postResult_eq]
    split <;> exact hsent
  | deliver ins res pipe hp =>
    have hpop : Delivered { s with
        pipe
        history := { s.history with handled := s.history.handled ++ [res] } } := by
      -- the result goes from the pipe to those handled
      have hmove : s.history.handled ++ [res] ++ pipe = s.history.handled ++ s.pipe := by
        rw [hp, List.append_assoc, List.singleton_append]
      exact ⟨hmove ▸ h.written, fun hd => hmove.trans (h.complete hd)⟩
    refine ⟨hpop.congr (sameWork_handleResult ins res _), fun c => ?_⟩
    rw [repliesTo_handleResult, (sameWork_handleResult ins res _).handled, resultsFor_append]
    exact congrArg (· ++ resultsFor c [res]) (hsent c)

/-- So the lines come in the order in which the results were posted. -/
theorem reachable_delivered {cfg : Config} {s : Server} (h : (system cfg).Reachable s) :
    Delivered s ∧ Sent s := by
  refine h.invariant_with (fun s hr => reachable_wired hr) (fun s hs => ?_)
    (fun lbl s s' hn hw hi => delivered_step hn hw hi.1 hi.2)
  subst hs
  exact ⟨⟨List.Sublist.refl _, fun _ => rfl⟩, fun _ => rfl⟩

/-! ## Order -/

/-- No worker posts while another one still runs an earlier task of the same client. -/
def PostsInOrder : ServerLbl → Server → Prop
  | .finish w _, s => ∀ task ∈ s.workers[w]?.join, ∀ c ∈ task.client?, ∀ t ∈ s.running,
      t.client? = some c → task.stamp ≤ t.stamp
  | _, _ => True

/-- The posted results of a client are in the order of its requests, and before those that
are still to come. -/
structure Ordered (s : Server) : Prop where
  posted : s.history.posted.Pairwise fun r r' =>
    ∀ c, r.client? = some c → r'.client? = some c → r.stamp < r'.stamp
  pending : ∀ r ∈ s.history.posted, ∀ t ∈ s.queue ++ s.running, ∀ c,
    r.client? = some c → t.client? = some c → r.stamp < t.stamp

section Ordered

variable {s s' : Server}

theorem Ordered.congr (h : Ordered s) (hw : SameWork s s') : Ordered s' where
  posted := by rw [hw.posted]; exact h.posted
  pending := by rw [hw.posted, hw.queue, hw.running]; exact h.pending

/-- A new task is behind all others. -/
theorem Ordered.taskEnqueue (h : Ordered s) (hstamped : Stamped s) (alloc : Bool)
    (type : TaskType) (pid : Int) (request : CStr) (client : ClientRef) :
    Ordered (s.taskEnqueue alloc type pid request client) := by
  cases alloc with
  | false => exact ⟨h.posted, h.pending⟩
  | true =>
    refine ⟨h.posted, fun r hr t ht c hrc htc => ?_⟩
    have ht' : t ∈ s.queue ++ [newTask s.history.stamp type pid request client] ++ s.running := ht
    rcases List.mem_append.mp ht' with ht' | ht'
    · rcases List.mem_append.mp ht' with ht' | ht'
      · exact h.pending r hr t (List.mem_append_left _ ht') c hrc htc
      · -- the new task has the largest stamp so far
        have hstamp : t.stamp = s.history.stamp := by
          rw [List.mem_singleton.mp ht']
          cases type <;> rfl
        obtain ⟨u, hu, horigin⟩ := hstamped.mem_places (o := resultOrigin r)
          (List.mem_append_right _ (List.mem_map_of_mem hr))
        have hsame : u.stamp = r.stamp := congrArg Prod.fst horigin
        rw [hstamp, ← hsame]
        exact hstamped.below u hu
    · exact h.pending r hr t (List.mem_append_right _ ht') c hrc htc

/-- Worker `w` posts the result of the oldest task of its client. -/
theorem Ordered.posts (h : Ordered s) (hstamped : Stamped s) {w : Nat} {task : Task}
    (hw : s.workers[w]? = some (some task))
    (horder : ∀ c ∈ task.client?, ∀ t ∈ s.running, t.client? = some c → task.stamp ≤ t.stamp)
    {res : TaskResult} (hres : resultOrigin res = taskOrigin task) (hqueue : s'.queue = s.queue)
    (hworkers : s'.workers = s.workers.set w none)
    (hposted : s'.history.posted = s.history.posted ++ [res]) : Ordered s' := by
  have hstamp : res.stamp = task.stamp := congrArg Prod.fst hres
  have hclient : res.client? = task.client? := congrArg Prod.snd hres
  have hrunning : s.running.Perm (task :: s'.running) := by
    rw [Server.running, Server.running, hworkers]
    exact running_set_none hw
  have hmem : task ∈ s.running := hrunning.mem_iff.mpr List.mem_cons_self
  refine ⟨?_, fun r hr t ht c hrc htc => ?_⟩
  · -- the new result comes after those of older tasks
    rw [hposted, List.pairwise_append]
    refine ⟨h.posted, List.pairwise_singleton _ _, fun r hr r' hr' c hrc hrc' => ?_⟩
    rw [List.mem_singleton.mp hr'] at hrc' ⊢
    rw [hstamp]
    exact h.pending r hr task (List.mem_append_right _ hmem) c hrc (hclient ▸ hrc')
  · -- and before those of the tasks left
    rw [hposted] at hr
    rw [hqueue] at ht
    rcases List.mem_append.mp hr with hr | hr
    · refine h.pending r hr t ?_ c hrc htc
      rcases List.mem_append.mp ht with ht | ht
      · exact List.mem_append_left _ ht
      · exact List.mem_append_right _ (hrunning.mem_iff.mpr (List.mem_cons_of_mem _ ht))
    · rw [List.mem_singleton.mp hr] at hrc ⊢
      rw [hstamp]
      rcases List.mem_append.mp ht with ht | ht
      · -- a queued task is younger than a running one
        exact hstamped.older task hmem t ht
      · -- a running task of the same client has a larger stamp, by the order of posting
        have hle := horder c (hclient ▸ hrc) t
          (hrunning.mem_iff.mpr (List.mem_cons_of_mem _ ht)) htc
        have hne : task.stamp ≠ t.stamp := by
          have hnodup := (hrunning.map Task.stamp).nodup_iff.mp hstamped.running_nodup
          rw [List.map_cons, List.nodup_cons] at hnodup
          exact fun heq => hnodup.1 (heq ▸ List.mem_map_of_mem ht)
        omega

end Ordered

/-- With results posted in the order of the tasks the replies are in that order. -/
theorem ordered_step {cfg : Config} {lbl : ServerLbl} {s s' : Server}
    (hs : step cfg lbl s = some s') (hok : PostsInOrder lbl s) (hwired : Wired cfg s)
    (hstamped : Stamped s) (h : Ordered s) : Ordered s' := by
  -- the stamps of queue, workers and pipe stay sorted
  cases hwired.step_moves hs with
  | poll => exact ⟨h.posted, h.pending⟩
  | ignored => exact h
  | handshake pid alloc => exact h.taskEnqueue hstamped alloc .HANDSHAKE pid [] 0
  | request i cmd alloc c type args =>
    exact (h.congr (sameWork_acquired c s)).taskEnqueue
      (hstamped.congr (sameWork_acquired c s)) alloc type 0 args c
  | disconnect i cmd alloc c => exact h.congr (sameWork_removeAt i c s)
  | hangup i c => exact h.congr (sameWork_removeAt i c s)
  -- the task moves from the queue to a worker, and is still to come
  | dequeue w task queue hw hq =>
    refine ⟨h.posted, fun r hr t ht => h.pending r hr t ?_⟩
    rw [hq]
    rcases List.mem_append.mp ht with ht | ht
    · exact List.mem_append_left _ (List.mem_cons_of_mem _ ht)
    · rcases List.mem_cons.mp ((running_set_some hw).mem_iff.mp ht) with rfl | ht
      · exact List.mem_append_left _ List.mem_cons_self
      · exact List.mem_append_right _ ht
  | posts w env task body hw hout =>
    have hres : resultOrigin ⟨task.stamp, body⟩ = taskOrigin task := by
      rw [resultOrigin, taskOrigin, workerRoutine_client hout]
    have horder := hok task (by rw [hw]; rfl)
    rw [postResult_eq]
    split <;> exact h.posts hstamped hw horder hres rfl rfl rfl
  | silent w env task hw =>
    refine ⟨h.posted, fun r hr t ht => h.pending r hr t ?_⟩
    have hrunning := running_set_none hw
    rcases List.mem_append.mp ht with ht | ht
    · exact List.mem_append_left _ ht
    · exact List.mem_append_right _ (hrunning.mem_iff.mpr (List.mem_cons_of_mem _ ht))
  | deliver ins res pipe =>
    have hpop : Ordered { s with
        pipe
        history := { s.history with handled := s.history.handled ++ [res] } } :=
      ⟨h.posted, h.pending⟩
    exact hpop.congr (sameWork_handleResult ins res _)

/-- In every run with results posted in the order of the tasks the replies are in that order. -/
theorem reachable_ordered {cfg : Config} {s : Server}
    (h : ((system cfg).under PostsInOrder).Reachable s) : Ordered s := by
  have hknown : ∀ s, ((system cfg).under PostsInOrder).Reachable s → Wired cfg s ∧ Stamped s :=
    fun s hr => ⟨reachable_wired hr.of_under, reachable_stamped hr.of_under⟩
  refine h.invariant_with hknown (fun s hs => ?_)
    (fun lbl s s' hn hk hi => ordered_step hn.2 hn.1 hk.1 hk.2 hi)
  subst hs
  exact ⟨List.Pairwise.nil, fun r hr => by simp [init] at hr⟩

/-! ## One worker -/

/-- There are as many workers as at the start. -/
theorem reachable_pool {cfg : Config} {s : Server} (h : (system cfg).Reachable s) :
    s.workers.length = cfg.pool := by
  refine h.invariant_with (fun s hr => reachable_wired hr) (fun s hs => ?_)
    (fun lbl s s' hs hwired hi => ?_)
  · subst hs
    exact List.length_replicate
  · -- tasks move in and out of the slots, whose number stays
    cases hwired.step_moves hs with
    | poll | ignored | disconnect | hangup => exact hi
    | handshake pid alloc => cases alloc <;> exact hi
    | request i cmd alloc => cases alloc <;> exact hi
    | dequeue => exact List.length_set.trans hi
    | posts =>
      rw [postResult_eq]
      split <;> exact List.length_set.trans hi
    | silent => exact List.length_set.trans hi
    | deliver ins res pipe =>
      rw [(sameWork_handleResult ins res _).workers]
      exact hi

/-- A single worker has no other task to overtake. -/
theorem postsInOrder_of_one {cfg : Config} (hone : cfg.pool = 1) (lbl : ServerLbl) {s : Server}
    (h : (system cfg).Reachable s) : PostsInOrder lbl s := by
  cases lbl with
  | finish w env =>
    intro task htask c _ t ht _
    have hlen := (reachable_pool h).trans hone
    rcases List.length_eq_one_iff.mp hlen with ⟨x, hx⟩
    have hw : s.workers[w]? = some (some task) := by
      cases hw : s.workers[w]? with
      | none => simp [hw] at htask
      | some y =>
        rw [hw] at htask
        exact congrArg some htask
    rw [hx] at hw
    -- the one worker has the task, so no other one runs
    obtain ⟨rfl, rfl⟩ : w = 0 ∧ x = some task := by
      cases w with
      | zero => exact ⟨rfl, by simpa using hw⟩
      | succ w => simp at hw
    have ht' : t = task := by simpa [Server.running, hx] using ht
    exact le_of_eq (congrArg Task.stamp ht').symm
  | _ => trivial

/-! ## The order of the replies -/

/-- With its posted results in order, the replies to a client are in order. -/
theorem Ordered.replies {s : Server} (h : Ordered s) (hdel : Delivered s) (hsent : Sent s)
    (c : ClientRef) : (repliesTo c s).Pairwise (· < ·) := by
  rw [hsent c, resultsFor, List.pairwise_filterMap]
  have hhandled := h.posted.sublist ((List.sublist_append_left _ _).trans hdel.written)
  refine hhandled.imp fun {r r'} hlt n hn m hm => ?_
  obtain ⟨hr, rfl⟩ : r.client? = some c ∧ r.stamp = n := by simpa using hn
  obtain ⟨hr', rfl⟩ : r'.client? = some c ∧ r'.stamp = m := by simpa using hm
  exact hlt c hr hr'

/-- Replies come in the order in which the results are posted; this is the order of the
requests if no worker overtakes another one, and always with one worker. -/
theorem replies_in_order (cfg : Config) :
    (∀ s, (system cfg).Reachable s → s.history.dropped = [] → ∀ c,
      repliesTo c s <+: resultsFor c s.history.posted) ∧
    (∀ s, ((system cfg).under PostsInOrder).Reachable s → ∀ c,
      (repliesTo c s).Pairwise (· < ·)) ∧
    (cfg.pool = 1 → ∀ s, (system cfg).Reachable s → ∀ c,
      (repliesTo c s).Pairwise (· < ·)) := by
  -- replies follow the order of the results, and those the order of stamps
  have hordered : ∀ s, ((system cfg).under PostsInOrder).Reachable s → ∀ c,
      (repliesTo c s).Pairwise (· < ·) := by
    intro s h c
    rcases reachable_delivered h.of_under with ⟨hdel, hsent⟩
    exact (reachable_ordered h).replies hdel hsent c
  refine ⟨fun s h hwrites c => ?_, hordered, fun hone s h => hordered s ?_⟩
  · rcases reachable_delivered h with ⟨hdel, hsent⟩
    rw [hsent c, ← hdel.complete hwrites, resultsFor_append]
    exact List.prefix_append _ _
  · exact h.to_under fun lbl s _ hr _ => postsInOrder_of_one hone lbl hr

instance (lbl : ServerLbl) (s : Server) : Decidable (PostsInOrder lbl s) :=
  match lbl with
  | .finish w _ => inferInstanceAs (Decidable (∀ task ∈ s.workers[w]?.join, ∀ c ∈ task.client?,
      ∀ t ∈ s.running, t.client? = some c → task.stamp ≤ t.stamp))
  | .poll _ | .handshake _ _ | .request _ _ _ | .hangup _ | .dequeue _ | .deliver _ =>
    inferInstanceAs (Decidable True)

def twoWorkers : Config := { Accounting.oneWorker with pool := 2 }

/-- Two requests of one client, each taken by a worker of its own. -/
def pipelined : List ServerLbl :=
  Accounting.connection ++
    [.request 2 "create_canvas 1 1 0".toList true, .request 2 "create_canvas 2 2 0".toList true,
      .dequeue 0, .dequeue 1]

theorem replies_in_order_pipelined :
    ∃ s, repliesTo 0 s = [1, 2] ∧ (repliesTo 0 s).Pairwise (· < ·) := by
  obtain ⟨s, hs, hp⟩ := exists_reachable_of_run (init twoWorkers)
    (guarded PostsInOrder (step twoWorkers))
    (pipelined ++ [.finish 0 (Env.allSucceed 7), .finish 1 (Env.allSucceed 8),
      .deliver ⟨true, true, true⟩, .deliver ⟨true, true, true⟩])
    (fun s => decide (repliesTo 0 s = [1, 2])) (by decide)
  rw [← under_ofStep] at hs
  exact ⟨s, of_decide_eq_true hp, (replies_in_order twoWorkers).2.1 s hs 0⟩

/-- With two workers the second request may be answered first. -/
theorem second_request_answered_first :
    ¬ ∀ cfg s, (system cfg).Reachable s → s.history.dropped = [] → ∀ c,
      c ∉ s.history.removed → (repliesTo c s).Pairwise (· < ·) := by
  intro h
  obtain ⟨s, hs, hp⟩ := exists_reachable_of_run (init twoWorkers) (step twoWorkers)
    (pipelined ++ [.finish 1 (Env.allSucceed 8), .finish 0 (Env.allSucceed 7),
      .deliver ⟨true, true, true⟩, .deliver ⟨true, true, true⟩])
    (fun s => decide (repliesTo 0 s = [2, 1] ∧ s.history.dropped = [] ∧
      0 ∉ s.history.removed)) (by decide)
  rcases of_decide_eq_true hp with ⟨hreplies, hwrites, hrem⟩
  have hordered := h _ s hs hwrites 0 hrem
  rw [hreplies] at hordered
  simp at hordered

end AnimateServer.Replies
