import Mathlib.Algebra.Order.BigOperators.Group.Finset
import AnimateServer.Verify.PoolTasks

/-!
# No task waits while a worker sleeps

`task_enqueue` signals once for each task and after it has linked it, and a worker only goes to
sleep on the empty queue. So as long as somebody sleeps, each task in the queue has a worker of
its own that is awake, has its hands free and is on its way to the queue.
-/

namespace AnimateServer.PoolTasks

open CLib Monitors Monitor Transition PoolRun
open Shutdown (system FailsApart)

/-- A worker at this place is going to look at the queue before it sleeps, and holds no task. -/
def WorkerPc.coming : WorkerPc → Bool
  | .loop | .locking | .inWait | .headTest | .leaving | .taking => true
  | _ => false

/-- Worker `i` is awake and on its way to the queue. -/
def coming (s : PoolRun) (i : Nat) : Bool :=
  WorkerPc.coming (s.worker i) && decide (.worker i ∉ s.tq.asleep)

/-- The number of these. -/
def comers (size : Nat) (s : PoolRun) : Nat :=
  (Finset.range size).sum fun i => (coming s i).toNat

/-- The signal that is about to come. -/
def signals (s : PoolRun) : Nat :=
  match s.main with
  | .signalling => 1
  | _ => 0

/-- While somebody sleeps, the tasks in the queue are outnumbered. -/
def Conserved (size : Nat) (s : PoolRun) : Prop :=
  s.tq.asleep ≠ [] → s.queue.q.count ≤ comers size s + signals s

variable {size : Nat} {s s' : PoolRun} {i : Nat}

theorem coming_congr (hw : s'.worker i = s.worker i) (hasleep : s'.tq.asleep = s.tq.asleep) :
    coming s' i = coming s i := by
  unfold coming
  rw [hw, hasleep]

/-- The count when one worker moves and the others sleep or wake as before. -/
theorem comers_update (hi : i < size) (hother : ∀ j, j ≠ i → coming s' j = coming s j) :
    comers size s' + (coming s i).toNat = comers size s + (coming s' i).toNat :=
  sum_range_update hi fun j hj => congrArg Bool.toNat (hother j hj)

/-- With all workers where they were, fewer sleepers are more comers. -/
theorem comers_mono (hw : s'.worker = s.worker) (hsub : ∀ p ∈ s'.tq.asleep, p ∈ s.tq.asleep) :
    comers size s ≤ comers size s' := by
  refine Finset.sum_le_sum fun i _ => ?_
  unfold coming
  rw [hw]
  by_cases hp : .worker i ∈ s.tq.asleep
  · simp [hp]
  · have hp' : .worker i ∉ s'.tq.asleep := fun h => hp (hsub _ h)
    simp [hp, hp']

/-- The empty queue needs nobody. -/
theorem conserved_of_empty (h : s.queue.q.count = 0) : Conserved size s := fun _ => by
  rw [h]
  exact Nat.zero_le _

/-- A step that keeps the queue and the sleepers, and takes no worker off its way. -/
theorem Conserved.keep (h : Conserved size s) (hi : i < size)
    (hother : ∀ j, j ≠ i → s'.worker j = s.worker j) (hmain : s'.main = s.main)
    (hasleep : s'.tq.asleep = s.tq.asleep) (hcount : s'.queue.q.count = s.queue.q.count)
    (hcoming : WorkerPc.coming (s.worker i) = true → WorkerPc.coming (s'.worker i) = true) :
    Conserved size s' := by
  intro hne
  have hold := h (hasleep ▸ hne)
  -- only worker i's summand can have changed, and not downwards
  have hupdate : comers size s' + (coming s i).toNat = comers size s + (coming s' i).toNat :=
    comers_update hi fun j hj => coming_congr (hother j hj) hasleep
  have hle : (coming s i).toNat ≤ (coming s' i).toNat := by
    unfold coming
    rw [hasleep]
    cases hc : WorkerPc.coming (s.worker i) with
    | false => exact Nat.zero_le _
    | true => rw [hcoming hc]
  have hsignals : signals s' = signals s := by
    unfold signals
    rw [hmain]
  omega

/-- A worker that has been there before. -/
theorem Pool.lt_size (h : Pool size s) (hs : s.workerStep i = some s') : i < size := by
  by_contra hge
  have habsent := h.absent i (Nat.le_of_not_lt hge)
  simp [workerStep, habsent] at hs

theorem count_eq_zero {q : QueueState} {l : List TaskRef} (h : QueueFifo.Inv q l)
    (hhead : q.q.head = none) : q.q.count = 0 :=
  h.shape.empty_iff.2.2.mpr (h.shape.empty_iff.1.mp hhead)

/-- Only a worker in `pthread_cond_wait` is asleep. -/
theorem Pool.awake (h : Pool size s) (hpc : s.worker i ≠ .inWait) :
    .worker i ∉ s.tq.asleep := fun hp => by
  rcases h.sleeper _ hp with ⟨j, heq, hj⟩
  cases heq
  exact hpc hj

/-- A worker on its way takes one task with it. -/
theorem Conserved.take (h : Conserved size s) (hp : Pool size s) {l : List TaskRef}
    (hq : QueueFifo.Inv s.queue l) (hpc : s.worker i = .taking)
    (hs : s.workerStep i = some s') : Conserved size s' := by
  have hi := hp.lt_size hs
  unfold workerStep at hs
  simp only [hpc] at hs
  rcases Option.map_eq_some_iff.mp hs with ⟨t, ht, rfl⟩
  rcases Shutdown.onQueue_eq_some.mp ht with ⟨queue, hd, rfl⟩
  rcases step_dequeue hq hd with ⟨-, rfl, hnone⟩ | ⟨a, rest, rfl, -, -, -, -, hq'⟩
  · exact conserved_of_empty (count_eq_zero hq hnone)
  · intro hne
    have hold := h hne
    have hcount : s.queue.q.count = queue.q.count + 1 := by
      rw [hq.shape.count, hq'.shape.count]
      rfl
    -- the worker that takes a task is no longer one that comes
    have hmine : coming s i = true := by
      unfold coming
      rw [hpc, decide_eq_true (hp.awake (by rw [hpc]; simp))]
      rfl
    let t := { s with queue }.goto i (.unlocking s.queue.q.head)
    have hupdate : comers size t + (coming s i).toNat = comers size s + (coming t i).toNat :=
      comers_update hi fun j hj => coming_congr (Function.update_of_ne hj _ _) rfl
    have hgone : coming t i = false := by
      unfold coming
      rw [worker_goto_self]
      rfl
    rw [hmine, hgone] at hupdate
    simp only [Bool.toNat_true, Bool.toNat_false] at hupdate
    show queue.q.count ≤ comers size t + signals s
    omega

theorem Conserved.worker (h : Conserved size s) (hp : Pool size s) {l : List TaskRef}
    (hq : QueueFifo.Inv s.queue l) (hr : s.RUNNING = true) (hs : s.workerStep i = some s') :
    Conserved size s' := by
  have hi := hp.lt_size hs
  rcases Shutdown.workerStep_spec hs with ⟨pc', hm⟩
  have hother : ∀ j, j ≠ i → s'.worker j = s.worker j := fun j hj => by
    rw [hm.worker, Function.update_of_ne hj]
  -- nobody has put a task there for a worker that has found none
  have hfound : s.worker i = .runningTest ∨ s.worker i = .waiting → s'.queue = s.queue →
      Conserved size s' := fun hpc heq =>
    conserved_of_empty (heq ▸ count_eq_zero hq (hp.found i hpc))
  have hstep := hs
  unfold workerStep at hs
  cases hpc : s.worker i with
  | absent | exited => simp [hpc] at hs
  | taking => exact h.take hp hq hpc hstep
  | loop | leaving =>
    simp only [hpc, hr, if_true, Option.some_inj] at hs
    subst hs
    exact h.keep hi hother rfl rfl rfl fun _ => by rw [worker_goto_self]; rfl
  | headTest =>
    simp only [hpc, Option.some_inj] at hs
    subst hs
    by_cases hhead : s.queue.q.head = none
    · exact conserved_of_empty (count_eq_zero hq hhead)
    · exact h.keep hi hother rfl rfl rfl fun _ => by rw [worker_goto_self, if_neg hhead]; rfl
  | runningTest =>
    simp only [hpc, Option.some_inj] at hs
    subst hs
    exact hfound (Or.inl hpc) rfl
  | waiting =>
    simp only [hpc] at hs
    rcases Option.map_eq_some_iff.mp hs with ⟨t, ht, rfl⟩
    rcases Shutdown.onTq_eq_some.mp ht with ⟨tq, -, rfl⟩
    exact hfound (Or.inr hpc) rfl
  | locking =>
    simp only [hpc] at hs
    rcases Option.map_eq_some_iff.mp hs with ⟨t, ht, rfl⟩
    rcases Shutdown.onTq_eq_some.mp ht with ⟨tq, htq, rfl⟩
    rcases acquire_eq_some.mp htq with ⟨-, rfl⟩
    exact h.keep hi hother rfl rfl rfl fun _ => by rw [worker_goto_self]; rfl
  | inWait =>
    simp only [hpc] at hs
    rcases Option.map_eq_some_iff.mp hs with ⟨t, ht, rfl⟩
    rcases Shutdown.onTq_eq_some.mp ht with ⟨tq, htq, rfl⟩
    rcases wake_eq_some.mp htq with ⟨-, -, rfl⟩
    exact h.keep hi hother rfl rfl rfl fun _ => by rw [worker_goto_self]; rfl
  | unlocking task =>
    cases task <;>
    · simp only [hpc] at hs
      rcases Option.map_eq_some_iff.mp hs with ⟨t, ht, rfl⟩
      rcases Shutdown.onTq_eq_some.mp ht with ⟨tq, htq, rfl⟩
      rcases release_eq_some.mp htq with ⟨-, rfl⟩
      exact h.keep hi hother rfl rfl rfl fun hc => by rw [hpc] at hc; cases hc
  | serving a =>
    simp only [hpc] at hs
    rcases Option.map_eq_some_iff.mp hs with ⟨t, ht, rfl⟩
    rcases Shutdown.onQueue_eq_some.mp ht with ⟨queue, hf, rfl⟩
    rcases step_free hf with ⟨-, rfl⟩
    exact h.keep hi hother rfl rfl rfl fun hc => by rw [hpc] at hc; cases hc

/-! ## The main thread -/

/-- A signal is outstanding at `signalling` only, so a step from elsewhere spends none. -/
theorem signals_le (hne : s.main ≠ .signalling) : signals s ≤ signals s' := by
  have hsig : signals s = 0 := by
    unfold signals
    split
    · rename_i hpc
      exact absurd hpc hne
    · rfl
  rw [hsig]
  exact Nat.zero_le _

/-- A step of `main` that links nothing and does not spend its signal. -/
theorem Conserved.main (h : Conserved size s) (hw : s'.worker = s.worker)
    (hsub : ∀ p ∈ s'.tq.asleep, p ∈ s.tq.asleep) (hcount : s'.queue.q.count = s.queue.q.count)
    (hsignals : signals s ≤ signals s') : Conserved size s' := by
  intro hne
  have hold := h fun heq => by
    rw [heq] at hsub
    exact hne (List.eq_nil_iff_forall_not_mem.mpr fun p hp => by simpa using hsub p hp)
  have hcomers : comers size s ≤ comers size s' := comers_mono hw hsub
  omega

/-- The signal brings one more worker. -/
theorem Conserved.signal (h : Conserved size s) (hp : Pool size s) {woken : Option Party}
    {tq : Monitor Party} (hpc : s.main = .signalling)
    (hs : Monitor.signal woken s.tq = some tq) :
    Conserved size ({ s with tq }.mainGoto .unlocking) := by
  intro hne
  have hne : tq.asleep ≠ [] := hne
  unfold Monitor.signal at hs
  cases woken with
  | none =>
    rcases Option.ite_none_right_eq_some.mp hs with ⟨hempty, hs⟩
    obtain rfl := Option.some.inj hs
    exact absurd (List.isEmpty_iff.mp hempty) hne
  | some p =>
    rcases Option.ite_none_right_eq_some.mp hs with ⟨hmem, hs⟩
    obtain rfl := Option.some.inj hs
    rcases hp.sleeper p hmem with ⟨i, rfl, hi⟩
    have hold := h fun heq => by rw [heq] at hmem; cases hmem
    have hsize : i < size := by
      by_contra hge
      have habsent := hp.absent i (Nat.le_of_not_lt hge)
      rw [hi] at habsent
      cases habsent
    let t : PoolRun := { s with
      tq := { s.tq with asleep := s.tq.asleep.erase (.worker i) } }.mainGoto .unlocking
    have hupdate : comers size t + (coming s i).toNat = comers size s + (coming t i).toNat :=
      comers_update hsize fun j hj => by
        have hsame : Party.worker j ∈ s.tq.asleep.erase (.worker i) ↔
            .worker j ∈ s.tq.asleep :=
          List.mem_erase_of_ne fun heq => hj (by cases heq; rfl)
        simp [coming, t, mainGoto, hsame]
    -- the worker that is woken was asleep and is now one that comes
    have hbefore : coming s i = false := by simp [coming, hmem]
    have hafter : coming t i = true := by
      have hout : Party.worker i ∉ s.tq.asleep.erase (.worker i) := fun hin =>
        (hp.nodup.mem_erase_iff.mp hin).1 rfl
      simp [coming, t, mainGoto, hi, hout, WorkerPc.coming]
    rw [hbefore, hafter] at hupdate
    simp only [Bool.toNat_true, Bool.toNat_false] at hupdate
    have hsig : signals s = 1 := by
      unfold signals
      rw [hpc]
    show s.queue.q.count ≤ comers size t + 0
    omega

/-- A new worker is on its way. -/
theorem Conserved.create (h : Conserved size s) (hp : Pool size s) {created : Nat}
    (hpc : s.main = .creating created) (hlt : created < size) :
    Conserved size ((s.goto created .loop).mainGoto (.creating (created + 1))) := by
  intro hne
  have hold := h hne
  let t := (s.goto created .loop).mainGoto (.creating (created + 1))
  have hupdate : comers size t + (coming s created).toNat =
      comers size s + (coming t created).toNat := comers_update hlt fun j hj =>
    coming_congr (Function.update_of_ne hj _ _) rfl
  -- the new worker is one more that comes
  have hbefore : coming s created = false := by
    unfold coming
    rw [hp.unborn created (by rw [hpc]; rfl) created (Nat.le_refl _)]
    rfl
  rw [hbefore] at hupdate
  have hsig : signals s = 0 := by
    unfold signals
    rw [hpc]
  show s.queue.q.count ≤ comers size t + 0
  simp only [Bool.toNat_false] at hupdate
  omega

/-- A task is linked, and its signal is to come. -/
theorem Conserved.link (h : Conserved size s) {a : TaskRef} {queue : QueueState}
    (hpc : s.main = .linking a) (hq : QueueState.step (.link a) s.queue = some queue) :
    Conserved size ({ s with queue }.mainGoto .signalling) := by
  intro hne
  have hold := h hne
  rcases Option.ite_none_right_eq_some.mp hq with ⟨-, hq⟩
  obtain rfl := Option.some.inj hq
  have hcount : (s.queue.q.linkSection a).count = s.queue.q.count + 1 := by
    unfold TaskQueue.linkSection
    split <;> rfl
  have hsig : signals s = 0 := by
    unfold signals
    rw [hpc]
  show (s.queue.q.linkSection a).count ≤ comers size s + 1
  omega

theorem Conserved.mainStep (h : Conserved size s) (hs : s.mainStep size = some s') :
    Conserved size s' := by
  unfold PoolRun.mainStep at hs
  have hquiet : s.main ≠ .signalling → signals s ≤ signals s' := signals_le
  -- a broadcast wakes all, linking a task promises a signal
  cases hpc : s.main with
  | allocating | creating _ | settingUp | loop | signalling | done => simp [hpc] at hs
  | initBroadcast created | destroyBroadcast =>
    simp only [hpc, Option.some_inj] at hs
    subst hs
    exact fun hne => absurd rfl hne
  | reaping created j | joining j =>
    simp only [hpc] at hs
    split at hs
    · rcases Option.ite_none_right_eq_some.mp hs with ⟨-, hs⟩
      obtain rfl := Option.some.inj hs
      exact h.main rfl (fun _ hp => hp) rfl (hquiet (by simp [hpc]))
    · obtain rfl := Option.some.inj hs
      exact h.main rfl (fun _ hp => hp) rfl (hquiet (by simp [hpc]))
  | teardown | destroy =>
    simp only [hpc, Option.some_inj] at hs
    subst hs
    exact h.main rfl (fun _ hp => hp) rfl (hquiet (by simp [hpc]))
  | enqueueing a | destroyLock =>
    simp only [hpc] at hs
    rcases Option.map_eq_some_iff.mp hs with ⟨t, ht, rfl⟩
    rcases Shutdown.onTq_eq_some.mp ht with ⟨tq, htq, rfl⟩
    rcases acquire_eq_some.mp htq with ⟨-, rfl⟩
    exact h.main rfl (fun _ hp => hp) rfl (hquiet (by simp [hpc]))
  | unlocking | destroyUnlock =>
    simp only [hpc] at hs
    rcases Option.map_eq_some_iff.mp hs with ⟨t, ht, rfl⟩
    rcases Shutdown.onTq_eq_some.mp ht with ⟨tq, htq, rfl⟩
    rcases release_eq_some.mp htq with ⟨-, rfl⟩
    exact h.main rfl (fun _ hp => hp) rfl (hquiet (by simp [hpc]))
  | linking a =>
    simp only [hpc] at hs
    rcases Option.map_eq_some_iff.mp hs with ⟨t, ht, rfl⟩
    rcases Shutdown.onQueue_eq_some.mp ht with ⟨queue, hq, rfl⟩
    have hlink := h.link hpc hq
    rw [hpc] at hlink
    exact hlink

theorem Conserved.step (h : Conserved size s) (hp : Pool size s) {l : List TaskRef}
    (hq : QueueFifo.Inv s.queue l) (hr : s.RUNNING = true) {lbl : PoolLbl}
    (hs : PoolRun.step size lbl s = some s') : Conserved size s' := by
  have hquiet : s.main ≠ .signalling → signals s ≤ signals s' := signals_le
  -- the condSignal is the one step that spends the signal
  cases lbl with
  | worker i => exact h.worker hp hq hr hs
  | main => exact h.mainStep hs
  | malloc succeeds | setUp succeeds =>
    rcases Option.ite_none_right_eq_some.mp hs with ⟨hpc, hs⟩
    cases succeeds <;>
    · obtain rfl := Option.some.inj hs
      exact h.main rfl (fun _ hp => hp) rfl (hquiet (by simp [hpc]))
  | create succeeds =>
    simp only [PoolRun.step] at hs
    split at hs
    swap
    · cases hs
    rename_i created hpc
    split at hs
    swap
    · obtain rfl := Option.some.inj hs
      exact h.main rfl (fun _ hp => hp) rfl (hquiet (by simp [hpc]))
    rename_i hlt
    split at hs
    · obtain rfl := Option.some.inj hs
      exact h.create hp hpc hlt
    · obtain rfl := Option.some.inj hs
      exact h.main rfl (fun _ hp => hp) rfl (hquiet (by simp [hpc]))
  | signal =>
    rcases Option.ite_none_left_eq_some.mp hs with ⟨-, hs⟩
    obtain rfl := Option.some.inj hs
    exact h.main rfl (fun _ hp => hp) rfl (Nat.le_refl _)
  | giveUp =>
    rcases Option.ite_none_right_eq_some.mp hs with ⟨-, hs⟩
    obtain rfl := Option.some.inj hs
    exact h.main rfl (fun _ hp => hp) rfl (Nat.le_refl _)
  | leave =>
    rcases Option.ite_none_right_eq_some.mp hs with ⟨hpc, hs⟩
    obtain rfl := Option.some.inj hs
    exact h.main rfl (fun _ hp => hp) rfl (hquiet (by simp [hpc]))
  | enqueue type pid request client block =>
    rcases Option.ite_none_right_eq_some.mp hs with ⟨hpc, hs⟩
    rcases Option.map_eq_some_iff.mp hs with ⟨t, ht, rfl⟩
    rcases Shutdown.onQueue_eq_some.mp ht with ⟨queue, hqs, rfl⟩
    cases block with
    | none =>
      obtain rfl := Option.some.inj hqs
      exact h.main rfl (fun _ hp => hp) rfl (hquiet (by simp [hpc]))
    | some a =>
      rcases Option.ite_none_left_eq_some.mp hqs with ⟨-, hqs⟩
      obtain rfl := Option.some.inj hqs
      exact h.main rfl (fun _ hp => hp) rfl (hquiet (by simp [hpc]))
  | condSignal woken =>
    rcases Option.ite_none_right_eq_some.mp hs with ⟨hpc, hs⟩
    rcases Option.map_eq_some_iff.mp hs with ⟨t, ht, rfl⟩
    rcases Shutdown.onTq_eq_some.mp ht with ⟨tq, htq, rfl⟩
    exact h.signal hp hpc htq

/-! ## Every run -/

theorem running_of_step {lbl : PoolLbl} (hs : PoolRun.step size lbl s = some s')
    (hr : s'.RUNNING = true) : s.RUNNING = true := by
  rcases Shutdown.step_cases hs with ⟨i, pc', hw⟩ | hm | ⟨-, hb⟩
  · exact hw.running ▸ hr
  · rcases hm.running with heq | heq
    · exact heq ▸ hr
    · rw [heq] at hr
      cases hr
  · exact hb.running ▸ hr

/-- In every state of the running server in which a worker sleeps, there are at least as many
workers awake and on their way to the queue with their hands free as there are tasks in it,
counting one for the signal that `task_enqueue` is about to send. -/
theorem work_conserved (h : (system size).Reachable s) (hr : s.RUNNING = true)
    (hsleeps : s.tq.asleep ≠ []) : s.queue.q.linked.length ≤ comers size s + signals s := by
  -- RUNNING never comes back, so it was set in all states before
  have hcons : ∀ {t}, (system size).Reachable t → t.RUNNING = true → Conserved size t := by
    intro t ht hrt
    induction ht with
    | init h0 =>
      obtain rfl : _ = PoolRun.init := h0
      exact conserved_of_empty rfl
    | step hu hn ih =>
      have hru := running_of_step hn hrt
      rcases reachable_pool (reachable_under_of_running hu hru) with ⟨hp, -, l, hq⟩
      exact (ih hru).step hp hq hru hn
  rcases reachable_pool (reachable_under_of_running h hr) with ⟨-, -, l, hq⟩
  have hle := hcons h hr hsleeps
  rw [hq.shape.linked_eq, ← hq.shape.count]
  exact hle

/-- Two workers sleep, and one of them is woken for a task. -/
def wakeUp : List PoolLbl :=
  [.malloc true, .create true, .create true, .create true, .worker 0, .worker 0, .worker 0,
    .worker 0, .worker 0, .worker 1, .worker 1, .worker 1, .worker 1, .worker 1, .setUp true,
    .enqueue .HANDSHAKE 42 [] 0 (some 7), .main, .main, .condSignal (some (.worker 0))]

theorem work_conserved_wakeUp :
    ∃ s, (system 2).Reachable s ∧ s.RUNNING = true ∧ s.tq.asleep = [.worker 1] ∧
      s.queue.q.linked = [7] ∧ s.queue.q.linked.length ≤ comers 2 s + signals s := by
  obtain ⟨s, h, hs⟩ := exists_reachable_of_run .init (PoolRun.step 2) wakeUp
    (fun s => s.RUNNING = true ∧ s.tq.asleep = [.worker 1] ∧ s.queue.q.linked = [7]) (by decide)
  rcases of_decide_eq_true hs with ⟨hr, hasleep, hlinked⟩
  exact ⟨s, h, hr, hasleep, hlinked, work_conserved h hr (by simp [hasleep])⟩

end AnimateServer.PoolTasks
