import AnimateServer.Verify.Shutdown

/-!
# What the threads of the pool hold

Each task that has been allocated is with the main thread, in the queue, or with one worker.
A worker that has found the queue empty holds the lock until it sleeps, so the queue stays
empty as long, and a thread that holds the lock is between the lock and its release.
-/

namespace AnimateServer.PoolTasks

open CLib Monitors Monitor Transition PoolRun
open Shutdown (system FailsApart LockMove WorkerMoves)

/-- The task that a worker has been given and has not freed yet. -/
def WorkerPc.task? : WorkerPc → Option TaskRef
  | .unlocking task => task
  | .serving task => some task
  | _ => none

/-- The task that `main` has filled and not linked yet. -/
def MainPc.newtask? : MainPc → Option TaskRef
  | .enqueueing newtask | .linking newtask => some newtask
  | _ => none

/-- The number of threads that `threadpool_init` has created so far. -/
def MainPc.created? : MainPc → Option Nat
  | .allocating => some 0
  | .creating created => some created
  | _ => none

/-- What holds between two steps of a server with `size` workers. -/
structure Pool (size : Nat) (s : PoolRun) : Prop where
  /-- Workers start in order. -/
  unborn : ∀ created, MainPc.created? s.main = some created →
    ∀ i, created ≤ i → s.worker i = .absent
  absent : ∀ i, size ≤ i → s.worker i = .absent
  /-- Who holds the lock is going to give it back. -/
  owned : ∀ p, s.tq.owner = some p → s.inside p = true
  sleeper : ∀ p ∈ s.tq.asleep, ∃ i, p = .worker i ∧ s.worker i = .inWait
  nodup : s.tq.asleep.Nodup
  /-- A worker that is on its way to the wait has found the queue empty. -/
  found : ∀ i, s.worker i = .runningTest ∨ s.worker i = .waiting → s.queue.q.head = none
  taken : ∀ a, a ∈ s.queue.taken ↔ ∃ i, WorkerPc.task? (s.worker i) = some a
  alone : ∀ i j a, WorkerPc.task? (s.worker i) = some a → WorkerPc.task? (s.worker j) = some a →
    i = j
  filled : s.queue.filled = (MainPc.newtask? s.main).toList

/-- The pool starts without workers and tasks. -/
theorem pool_init (size : Nat) : Pool size .init where
  unborn := fun _ _ _ _ => rfl
  absent := fun _ _ => rfl
  owned := fun p hp => by simp [PoolRun.init, Monitor.init] at hp
  sleeper := fun p hp => by simp [PoolRun.init, Monitor.init] at hp
  nodup := List.nodup_nil
  found := fun i hi => by simp [PoolRun.init] at hi
  taken := fun a => by simp [PoolRun.init, QueueState.init, WorkerPc.task?]
  alone := fun i j a hi => by simp [PoolRun.init, WorkerPc.task?] at hi
  filled := rfl

variable {size : Nat} {s s' : PoolRun} {i : Nat}

/-! ## Workers -/

/-- What a step of a worker from `pc` to `pc'` does to the queue. -/
inductive TaskMove (pc pc' : WorkerPc) (q : QueueState) : QueueState → Prop where
  | keep (htask : WorkerPc.task? pc' = WorkerPc.task? pc)
      (hfound : pc' = .runningTest → q.q.head = none)
      (hwait : pc' = .waiting → pc = .runningTest) : TaskMove pc pc' q q
  | take {q' : QueueState} (hpc : pc = .taking) (hpc' : pc' = .unlocking q.q.head)
      (hq : QueueState.step .dequeue q = some q') : TaskMove pc pc' q q'
  | free {q' : QueueState} (a : TaskRef) (hpc : pc = .serving a) (hpc' : pc' = .loop)
      (hq : QueueState.step (.free a) q = some q') : TaskMove pc pc' q q'

@[simp] theorem worker_goto_self (i : Nat) (pc : WorkerPc) (s : PoolRun) :
    (s.goto i pc).worker i = pc := by
  simp [PoolRun.goto]

/-- A worker takes a task, runs it, frees its block, or does something else. -/
theorem workerStep_task (h : s.workerStep i = some s') :
    TaskMove (s.worker i) (s'.worker i) s.queue s'.queue := by
  -- the steps on the lock move on to a place without a test
  have htq : ∀ {op : Monitor Party → Option (Monitor Party)} {pc : WorkerPc},
      (s.onTq op).map (goto i pc) = some s' → WorkerPc.task? pc = WorkerPc.task? (s.worker i) →
      pc ≠ .runningTest → pc ≠ .waiting →
      TaskMove (s.worker i) (s'.worker i) s.queue s'.queue := by
    intro op pc hs htask hr hw
    rcases Option.map_eq_some_iff.mp hs with ⟨t, ht, rfl⟩
    rcases Shutdown.onTq_eq_some.mp ht with ⟨tq, -, rfl⟩
    rw [worker_goto_self]
    exact .keep htask (fun h => absurd h hr) fun h => absurd h hw
  -- by the place where the worker is
  unfold workerStep at h
  cases hpc : s.worker i with
  | absent | exited => simp [hpc] at h
  | loop =>
    simp only [hpc, Option.some_inj] at h
    subst h
    rw [worker_goto_self]
    split <;> exact .keep rfl (by simp) (by simp)
  | headTest =>
    simp only [hpc, Option.some_inj] at h
    subst h
    rw [worker_goto_self]
    split
    · rename_i hh
      exact .keep rfl (fun _ => hh) (by simp)
    · exact .keep rfl (by simp) (by simp)
  | runningTest | leaving =>
    simp only [hpc, Option.some_inj] at h
    subst h
    rw [worker_goto_self]
    split <;> exact .keep rfl (by simp) (by simp)
  | locking | waiting | inWait =>
    simp only [hpc] at h
    rw [← hpc]
    exact htq h (by rw [hpc]; rfl) (by simp) (by simp)
  | unlocking task =>
    rw [← hpc]
    cases task <;>
    · simp only [hpc] at h
      exact htq h (by rw [hpc]; rfl) (by simp) (by simp)
  | taking =>
    simp only [hpc] at h
    rcases Option.map_eq_some_iff.mp h with ⟨t, ht, rfl⟩
    rcases Shutdown.onQueue_eq_some.mp ht with ⟨queue, hq, rfl⟩
    rw [worker_goto_self]
    exact .take rfl rfl hq
  | serving a =>
    simp only [hpc] at h
    rcases Option.map_eq_some_iff.mp h with ⟨t, ht, rfl⟩
    rcases Shutdown.onQueue_eq_some.mp ht with ⟨queue, hq, rfl⟩
    rw [worker_goto_self]
    exact .free a rfl rfl hq

/-- A worker falls asleep in `pthread_cond_wait` and goes on only when it has been woken. -/
theorem workerStep_asleep (h : s.workerStep i = some s') :
    s'.tq.asleep = s.tq.asleep ∧ (s.worker i = .inWait → .worker i ∉ s.tq.asleep) ∨
      s.worker i = .waiting ∧ s'.worker i = .inWait ∧
        s'.tq.asleep = .worker i :: s.tq.asleep := by
  unfold workerStep at h
  -- going to sleep happens in wait, and inWait ends only after a wake-up
  cases hpc : s.worker i with
  | absent | exited => simp [hpc] at h
  | loop | headTest | runningTest | leaving =>
    simp only [hpc, Option.some_inj] at h
    subst h
    exact Or.inl ⟨rfl, by simp⟩
  | locking =>
    simp only [hpc] at h
    rcases Option.map_eq_some_iff.mp h with ⟨t, ht, rfl⟩
    rcases Shutdown.onTq_eq_some.mp ht with ⟨tq, htq, rfl⟩
    rcases acquire_eq_some.mp htq with ⟨-, rfl⟩
    exact Or.inl ⟨rfl, by simp⟩
  | inWait =>
    simp only [hpc] at h
    rcases Option.map_eq_some_iff.mp h with ⟨t, ht, rfl⟩
    rcases Shutdown.onTq_eq_some.mp ht with ⟨tq, htq, rfl⟩
    rcases wake_eq_some.mp htq with ⟨hwoken, -, rfl⟩
    exact Or.inl ⟨rfl, fun _ => hwoken⟩
  | waiting =>
    simp only [hpc] at h
    rcases Option.map_eq_some_iff.mp h with ⟨t, ht, rfl⟩
    rcases Shutdown.onTq_eq_some.mp ht with ⟨tq, htq, rfl⟩
    rcases wait_eq_some.mp htq with ⟨-, rfl⟩
    exact Or.inr ⟨rfl, worker_goto_self _ _ _, rfl⟩
  | unlocking task =>
    cases task <;>
    · simp only [hpc] at h
      rcases Option.map_eq_some_iff.mp h with ⟨t, ht, rfl⟩
      rcases Shutdown.onTq_eq_some.mp ht with ⟨tq, htq, rfl⟩
      rcases release_eq_some.mp htq with ⟨-, rfl⟩
      exact Or.inl ⟨rfl, by simp⟩
  | taking | serving a =>
    simp only [hpc] at h
    rcases Option.map_eq_some_iff.mp h with ⟨t, ht, rfl⟩
    rcases Shutdown.onQueue_eq_some.mp ht with ⟨queue, hq, rfl⟩
    exact Or.inl ⟨rfl, by simp⟩

/-- What a dequeue does: nothing to the empty queue, and otherwise it takes the head. -/
theorem step_dequeue {q q' : QueueState} {l : List TaskRef} (h : QueueFifo.Inv q l)
    (hq : QueueState.step .dequeue q = some q') :
    l = [] ∧ q' = q ∧ q.q.head = none ∨ ∃ a rest, l = a :: rest ∧ q.q.head = some a ∧
      q'.taken = a :: q.taken ∧ q'.filled = q.filled ∧ q'.live = q.live ∧
      QueueFifo.Inv q' rest := by
  simp only [QueueState.step] at hq
  rcases h.shape.dequeueSection with ⟨rfl, heq⟩ | ⟨a, rest, rfl, hret, hshape⟩
  · rw [heq] at hq
    obtain rfl := Option.some.inj hq
    exact Or.inl ⟨rfl, rfl, h.shape.empty_iff.1.mpr rfl⟩
  · rw [show q.q.dequeueSection true = (.returned (some a), (q.q.dequeueSection true).2) from
      Prod.ext hret rfl] at hq
    obtain rfl := Option.some.inj hq
    exact Or.inr ⟨a, rest, rfl, h.shape.chain.1, rfl, rfl, rfl,
      h.dequeue hshape (QueueFifo.mem_dequeueSection true q.q)⟩

/-- A free gives back a task that has been taken. -/
theorem step_free {q q' : QueueState} {a : TaskRef}
    (hq : QueueState.step (.free a) q = some q') :
    a ∈ q.taken ∧ q' = { q with live := q.live.erase a, taken := q.taken.erase a } := by
  rcases Option.ite_none_right_eq_some.mp hq with ⟨ha, hq⟩
  exact ⟨ha, (Option.some.inj hq).symm⟩

/-- No task is taken twice. -/
theorem taken_nodup {q : QueueState} {l : List TaskRef} (h : QueueFifo.Inv q l) :
    q.taken.Nodup :=
  (List.nodup_append.mp (List.nodup_append.mp h.apart).2.1).2.1

/-- The tasks of the workers after a step of one of them. -/
theorem Pool.taken_worker (h : Pool size s) {l : List TaskRef} (hq : QueueFifo.Inv s.queue l)
    {pc' : WorkerPc} (hw : s'.worker = Function.update s.worker i pc')
    (ht : TaskMove (s.worker i) pc' s.queue s'.queue) :
    (∀ a, a ∈ s'.queue.taken ↔ ∃ j, WorkerPc.task? (s'.worker j) = some a) ∧
      ∀ j k a, WorkerPc.task? (s'.worker j) = some a → WorkerPc.task? (s'.worker k) = some a →
        j = k := by
  have hself : s'.worker i = pc' := by rw [hw, Function.update_self]
  have hother : ∀ j, j ≠ i → s'.worker j = s.worker j := fun j hj => by
    rw [hw, Function.update_of_ne hj]
  have hsame : WorkerPc.task? pc' = WorkerPc.task? (s.worker i) →
      ∀ j, WorkerPc.task? (s'.worker j) = WorkerPc.task? (s.worker j) := fun htask j => by
    by_cases hji : j = i
    · rw [hji, hself, htask]
    · rw [hother j hji]
  generalize s'.queue = q' at ht ⊢
  cases ht with
  | keep htask =>
    refine ⟨fun a => ?_, fun j k a => ?_⟩
    · simp only [hsame htask]
      exact h.taken a
    · rw [hsame htask, hsame htask]
      exact h.alone j k a
  | take hpc hpc' hd =>
    have hold : WorkerPc.task? (s.worker i) = none := by rw [hpc]; rfl
    rcases step_dequeue hq hd with ⟨-, rfl, hnone⟩ | ⟨a, rest, rfl, hhead, htaken, -, -, -⟩
    · have htask : WorkerPc.task? pc' = WorkerPc.task? (s.worker i) := by
        rw [hold, hpc', hnone]
        rfl
      refine ⟨fun a => ?_, fun j k a => ?_⟩
      · simp only [hsame htask]
        exact h.taken a
      · rw [hsame htask, hsame htask]
        exact h.alone j k a
    · -- the head of the queue is a task that no worker has
      have hfresh : a ∉ s.queue.taken := fun ha =>
        (List.nodup_cons.mp (List.nodup_append.mp hq.apart).2.1).1 (List.mem_append_right rest ha)
      have hmine : WorkerPc.task? (s'.worker i) = some a := by rw [hself, hpc', hhead]; rfl
      have htheirs : ∀ j, j ≠ i → WorkerPc.task? (s'.worker j) ≠ some a := fun j hj ht =>
        hfresh ((h.taken a).mpr ⟨j, hother j hj ▸ ht⟩)
      refine ⟨fun b => ?_, fun j k b hj hk => ?_⟩
      · rw [htaken, List.mem_cons]
        constructor
        · rintro (rfl | hb)
          · exact ⟨i, hmine⟩
          · rcases (h.taken b).mp hb with ⟨j, hj⟩
            have hji : j ≠ i := fun heq => by
              rw [heq, hold] at hj
              cases hj
            exact ⟨j, (hother j hji).symm ▸ hj⟩
        · rintro ⟨j, hj⟩
          by_cases hji : j = i
          · rw [hji, hmine] at hj
            exact Or.inl (Option.some.inj hj).symm
          · exact Or.inr ((h.taken b).mpr ⟨j, hother j hji ▸ hj⟩)
      · by_cases hji : j = i <;> by_cases hki : k = i
        · rw [hji, hki]
        · rw [hji, hmine] at hj
          exact absurd (hj ▸ hk) (htheirs k hki)
        · rw [hki, hmine] at hk
          exact absurd (hk ▸ hj) (htheirs j hji)
        · exact h.alone j k b (hother j hji ▸ hj) (hother k hki ▸ hk)
  | free a hpc hpc' hf =>
    rcases step_free hf with ⟨-, rfl⟩
    have hold : WorkerPc.task? (s.worker i) = some a := by rw [hpc]; rfl
    have hmine : WorkerPc.task? (s'.worker i) = none := by rw [hself, hpc']; rfl
    refine ⟨fun b => ?_, fun j k b hj hk => ?_⟩
    · rw [(taken_nodup hq).mem_erase_iff]
      constructor
      · rintro ⟨hne, hb⟩
        rcases (h.taken b).mp hb with ⟨j, hj⟩
        have hji : j ≠ i := fun heq => by
          rw [heq, hold] at hj
          exact hne (Option.some.inj hj).symm
        exact ⟨j, (hother j hji).symm ▸ hj⟩
      · rintro ⟨j, hj⟩
        have hji : j ≠ i := fun heq => by
          rw [heq, hmine] at hj
          cases hj
        have hj := hother j hji ▸ hj
        refine ⟨fun hba => hji (h.alone j i a (hba ▸ hj) hold), (h.taken b).mpr ⟨j, hj⟩⟩
    · have hne : ∀ x, WorkerPc.task? (s'.worker x) = some b → x ≠ i := fun x hx heq => by
        rw [heq, hmine] at hx
        cases hx
      exact h.alone j k b (hother j (hne j hj) ▸ hj) (hother k (hne k hk) ▸ hk)

/-- A step of a worker keeps the books of the tasks. -/
theorem Pool.worker (h : Pool size s) (hi : Shutdown.Inv s) {l : List TaskRef}
    (hq : QueueFifo.Inv s.queue l) (hs : s.workerStep i = some s') : Pool size s' := by
  rcases Shutdown.workerStep_spec hs with ⟨pc', hm⟩
  have hpc' : s'.worker i = pc' := by rw [hm.worker, Function.update_self]
  have ht := workerStep_task hs
  rw [hpc'] at ht
  have hother : ∀ j, j ≠ i → s'.worker j = s.worker j := fun j hj => by
    rw [hm.worker, Function.update_of_ne hj]
  have hlive : s.worker i ≠ .absent := fun hn => by simp [workerStep, hn] at hs
  have htaken := h.taken_worker hq hm.worker ht
  refine ⟨fun c hc j hj => ?_, fun j hj => ?_, fun p hp => ?_, fun p hp => ?_, ?_, fun j hj => ?_,
    htaken.1, htaken.2, ?_⟩
  · rw [hm.main] at hc
    have habsent := h.unborn c hc j hj
    rw [hother j fun heq => hlive (heq ▸ habsent)]
    exact habsent
  · have habsent := h.absent j hj
    rw [hother j fun heq => hlive (heq ▸ habsent)]
    exact habsent
  · have hlock := hm.lock
    by_cases hpi : p = .worker i
    · subst hpi
      rw [hm.inside_self]
      generalize s'.tq = tq' at hlock hp
      cases hlock with
      | keep hin _ => exact hin.trans (h.owned _ hp)
      | acquire _ hin _ => exact hin
      | release | wait => cases hp
    · rw [hm.inside_ne hpi]
      generalize s'.tq = tq' at hlock hp
      cases hlock with
      | keep => exact h.owned p hp
      | acquire => exact absurd (Option.some.inj hp).symm hpi
      | release | wait => cases hp
  · rcases workerStep_asleep hs with ⟨heq, hwoken⟩ | ⟨-, hin, heq⟩
    · rw [heq] at hp
      rcases h.sleeper p hp with ⟨j, rfl, hj⟩
      refine ⟨j, rfl, ?_⟩
      rw [hother j fun hji => hwoken (hji ▸ hj) (hji ▸ hp)]
      exact hj
    · rw [heq] at hp
      rcases List.mem_cons.mp hp with rfl | hp
      · exact ⟨i, rfl, hin⟩
      · rcases h.sleeper p hp with ⟨j, rfl, hj⟩
        by_cases hji : j = i
        · exact ⟨i, by rw [hji], hin⟩
        · exact ⟨j, rfl, (hother j hji).trans hj⟩
  · rcases workerStep_asleep hs with ⟨heq, -⟩ | ⟨hwait, -, heq⟩
    · rw [heq]
      exact h.nodup
    · rw [heq]
      refine List.nodup_cons.mpr ⟨fun hp => ?_, h.nodup⟩
      rcases h.sleeper _ hp with ⟨j, heq, hj⟩
      cases heq
      rw [hwait] at hj
      cases hj
  · have hsections : ∀ k, s.worker k = .runningTest ∨ s.worker k = .waiting →
        s.inside (.worker k) = true := fun k hk => by
      show (s.worker k).inside = true
      rcases hk with hk | hk <;> rw [hk] <;> rfl
    by_cases hji : j = i
    · rw [hji, hpc'] at hj
      generalize s'.queue = q' at ht
      cases ht with
      | keep _ hfound hwait =>
        rcases hj with hj | hj
        · exact hfound hj
        · exact h.found i (Or.inl (hwait hj))
      | take _ hpc => rcases hj with hj | hj <;> rw [hpc] at hj <;> cases hj
      | free _ _ hpc => rcases hj with hj | hj <;> rw [hpc] at hj <;> cases hj
    · rw [hother j hji] at hj
      generalize s'.queue = q' at ht
      cases ht with
      | keep => exact h.found j hj
      | take hpc =>
        -- only one thread is between the lock and its release
        have hin : s.inside (.worker i) = true := by
          show (s.worker i).inside = true
          rw [hpc]
          rfl
        cases hi.exclusive (hsections j hj) hin
        exact absurd rfl hji
      | free _ _ _ hf =>
        rcases step_free hf with ⟨-, rfl⟩
        exact h.found j hj
  · rw [hm.main, ← h.filled]
    generalize s'.queue = q' at ht
    cases ht with
    | keep => rfl
    | take _ _ hd =>
      rcases step_dequeue hq hd with ⟨-, rfl, -⟩ | ⟨a, rest, -, -, -, hfilled, -⟩
      · rfl
      · exact hfilled
    | free _ _ _ hf =>
      rcases step_free hf with ⟨-, rfl⟩
      rfl

/-! ## The main thread -/

/-- A step of `main` that starts no worker. -/
theorem Pool.main (h : Pool size s) (hw : s'.worker = s.worker)
    (hcreated : MainPc.created? s'.main = none ∨
      MainPc.created? s'.main = MainPc.created? s.main)
    (hasleep : s'.tq.asleep.Sublist s.tq.asleep)
    (hown : ∀ p, s'.tq.owner = some p →
      p = .main ∧ s'.main.inside = true ∨ p ≠ .main ∧ s.tq.owner = some p)
    (hfound : ∀ i, s.worker i = .runningTest ∨ s.worker i = .waiting →
      s'.queue.q.head = none)
    (htaken : s'.queue.taken = s.queue.taken)
    (hfilled : s'.queue.filled = (MainPc.newtask? s'.main).toList) : Pool size s' where
  unborn := fun c hc i hi => by
    rw [hw]
    rcases hcreated with hnone | hsame
    · rw [hnone] at hc
      cases hc
    · exact h.unborn c (hsame ▸ hc) i hi
  absent := fun i hi => by
    rw [hw]
    exact h.absent i hi
  -- the mutex is main's now, or still with the worker that had it
  owned := fun p hp => by
    rcases hown p hp with ⟨rfl, hin⟩ | ⟨hne, ho⟩
    · exact hin
    · cases p with
      | main => exact absurd rfl hne
      | worker i =>
        show (s'.worker i).inside = true
        rw [hw]
        exact h.owned _ ho
  sleeper := fun p hp => by
    rw [hw]
    exact h.sleeper p (hasleep.subset hp)
  nodup := hasleep.nodup h.nodup
  found := fun i hi => hfound i (hw ▸ hi)
  taken := fun a => by
    rw [htaken, hw]
    exact h.taken a
  alone := by
    rw [hw]
    exact h.alone
  filled := hfilled

/-- A block that main has filled is the one that it is about to link. -/
theorem Pool.filled_of (h : Pool size s) {pc : MainPc}
    (hnew : MainPc.newtask? pc = MainPc.newtask? s.main) :
    s.queue.filled = (MainPc.newtask? pc).toList := by
  rw [hnew]
  exact h.filled

/-- Moving on without the lock and the queue. -/
theorem Pool.move (h : Pool size s) (hw : s'.worker = s.worker) (htq : s'.tq = s.tq)
    (hq : s'.queue = s.queue)
    (hcreated : MainPc.created? s'.main = none ∨
      MainPc.created? s'.main = MainPc.created? s.main)
    (hin : s'.main.inside = s.main.inside)
    (hnew : MainPc.newtask? s'.main = MainPc.newtask? s.main) : Pool size s' :=
  h.main hw hcreated (htq ▸ List.Sublist.refl _)
    (fun p hp => by
      rw [htq] at hp
      by_cases hmain : p = .main
      · subst hmain
        exact Or.inl ⟨rfl, hin.trans (h.owned .main hp)⟩
      · exact Or.inr ⟨hmain, hp⟩)
    (hq ▸ h.found) (by rw [hq]) (by rw [hq, hnew, h.filled])

theorem Pool.main_acquire (h : Pool size s) {pc : MainPc}
    (hcreated : MainPc.created? pc = none) (hin : pc.inside = true)
    (hnew : MainPc.newtask? pc = MainPc.newtask? s.main)
    (hs : (s.onTq (acquire .main)).map (mainGoto pc) = some s') : Pool size s' := by
  rcases Option.map_eq_some_iff.mp hs with ⟨t, ht, rfl⟩
  rcases Shutdown.onTq_eq_some.mp ht with ⟨tq, htq, rfl⟩
  rcases acquire_eq_some.mp htq with ⟨-, rfl⟩
  exact h.main rfl (Or.inl hcreated) (List.Sublist.refl _)
    (fun p hp => Or.inl ⟨(Option.some.inj hp).symm, hin⟩) h.found rfl (h.filled_of hnew)

theorem Pool.main_release (h : Pool size s) {pc : MainPc}
    (hcreated : MainPc.created? pc = none)
    (hnew : MainPc.newtask? pc = MainPc.newtask? s.main)
    (hs : (s.onTq (release .main)).map (mainGoto pc) = some s') : Pool size s' := by
  rcases Option.map_eq_some_iff.mp hs with ⟨t, ht, rfl⟩
  rcases Shutdown.onTq_eq_some.mp ht with ⟨tq, htq, rfl⟩
  rcases release_eq_some.mp htq with ⟨-, rfl⟩
  exact h.main rfl (Or.inl hcreated) (List.Sublist.refl _) (fun p hp => by cases hp) h.found rfl
    (h.filled_of hnew)

/-- A worker starts. -/
theorem Pool.create (h : Pool size s) {created : Nat} (hpc : s.main = .creating created)
    (hlt : created < size) :
    Pool size ((s.goto created .loop).mainGoto (.creating (created + 1))) := by
  have hborn : ∀ i, created ≤ i → s.worker i = .absent :=
    h.unborn created (by rw [hpc]; rfl)
  have hother : ∀ i, i ≠ created → (s.goto created .loop).worker i = s.worker i := fun i hi => by
    simp [PoolRun.goto, hi]
  -- nothing is known of a thread that has not been there
  have htask : ∀ i, WorkerPc.task? ((s.goto created .loop).worker i) =
      WorkerPc.task? (s.worker i) := fun i => by
    by_cases hi : i = created
    · rw [hi, worker_goto_self, hborn created (Nat.le_refl _)]
      rfl
    · rw [hother i hi]
  refine ⟨fun c hc i hi => ?_, fun i hi => ?_, fun p hp => ?_, fun p hp => ?_, h.nodup,
    fun i hi => ?_, fun a => ?_, fun i j a hi hj => ?_, ?_⟩
  · obtain rfl := Option.some.inj hc
    exact (hother i (Nat.ne_of_gt hi)).trans (hborn i (Nat.le_of_succ_le hi))
  · exact (hother i (Nat.ne_of_gt (Nat.lt_of_lt_of_le hlt hi))).trans (h.absent i hi)
  · have hin := h.owned p hp
    cases p with
    | main => exact absurd hin (by simp [PoolRun.inside, hpc, MainPc.inside])
    | worker i =>
      have hin : (s.worker i).inside = true := hin
      have hi : i ≠ created := fun heq => by
        rw [heq, hborn created (Nat.le_refl _)] at hin
        cases hin
      show ((s.goto created .loop).worker i).inside = true
      rw [hother i hi]
      exact hin
  · rcases h.sleeper p hp with ⟨i, rfl, hi⟩
    have hne : i ≠ created := fun heq => by
      rw [heq, hborn created (Nat.le_refl _)] at hi
      cases hi
    exact ⟨i, rfl, (hother i hne).trans hi⟩
  · have hi : (s.goto created .loop).worker i = .runningTest ∨
        (s.goto created .loop).worker i = .waiting := hi
    have hne : i ≠ created := fun heq => by
      rw [heq, worker_goto_self] at hi
      rcases hi with hi | hi <;> cases hi
    exact h.found i (hother i hne ▸ hi)
  · have hsame : (∃ i, WorkerPc.task? ((s.goto created .loop).worker i) = some a) ↔
        ∃ i, WorkerPc.task? (s.worker i) = some a := by simp only [htask]
    exact (h.taken a).trans hsame.symm
  · exact h.alone i j a ((htask i).symm.trans hi) ((htask j).symm.trans hj)
  · show s.queue.filled = []
    rw [h.filled, hpc]
    rfl

/-- A step of main keeps the books of the tasks. -/
theorem Pool.mainStep (h : Pool size s) (hi : Shutdown.Inv s)
    (hs : s.mainStep size = some s') : Pool size s' := by
  unfold PoolRun.mainStep at hs
  cases hpc : s.main with
  | allocating | creating _ | settingUp | loop | signalling | done => simp [hpc] at hs
  | initBroadcast created =>
    simp only [hpc, Option.some_inj] at hs
    subst hs
    exact h.main rfl (Or.inl rfl) (List.nil_sublist _)
      (fun p hp => Or.inr ⟨fun hmain => by
        have hin := h.owned p hp
        rw [hmain] at hin
        simp [PoolRun.inside, hpc, MainPc.inside] at hin, hp⟩)
      h.found rfl (h.filled_of (by rw [hpc]; rfl))
  | destroyBroadcast =>
    simp only [hpc, Option.some_inj] at hs
    subst hs
    refine h.main rfl (Or.inl rfl) (List.nil_sublist _) (fun p hp => ?_) h.found rfl
      (h.filled_of (by rw [hpc]; rfl))
    by_cases hmain : p = .main
    · exact Or.inl ⟨hmain, rfl⟩
    · exact Or.inr ⟨hmain, hp⟩
  | reaping created j =>
    simp only [hpc] at hs
    split at hs
    · rcases Option.ite_none_right_eq_some.mp hs with ⟨-, hs⟩
      obtain rfl := Option.some.inj hs
      exact h.move rfl rfl rfl (Or.inl rfl) (by rw [hpc]; rfl) (by rw [hpc]; rfl)
    · obtain rfl := Option.some.inj hs
      exact h.move rfl rfl rfl (Or.inl rfl) (by rw [hpc]; rfl) (by rw [hpc]; rfl)
  | joining j =>
    simp only [hpc] at hs
    split at hs
    · rcases Option.ite_none_right_eq_some.mp hs with ⟨-, hs⟩
      obtain rfl := Option.some.inj hs
      exact h.move rfl rfl rfl (Or.inl rfl) (by rw [hpc]; rfl) (by rw [hpc]; rfl)
    · obtain rfl := Option.some.inj hs
      exact h.move rfl rfl rfl (Or.inl rfl) (by rw [hpc]; rfl) (by rw [hpc]; rfl)
  | teardown =>
    simp only [hpc, Option.some_inj] at hs
    subst hs
    exact h.move rfl rfl rfl (Or.inl rfl) (by rw [hpc]; rfl) (by rw [hpc]; rfl)
  | destroy =>
    simp only [hpc, Option.some_inj] at hs
    subst hs
    cases s.RUNNING <;>
      exact h.move rfl rfl rfl (Or.inl rfl) (by rw [hpc]; rfl) (by rw [hpc]; rfl)
  | enqueueing a =>
    simp only [hpc] at hs
    exact h.main_acquire rfl rfl (by rw [hpc]; rfl) hs
  | destroyLock =>
    simp only [hpc] at hs
    exact h.main_acquire rfl rfl (by rw [hpc]; rfl) hs
  | unlocking =>
    simp only [hpc] at hs
    exact h.main_release rfl (by rw [hpc]; rfl) hs
  | destroyUnlock =>
    simp only [hpc] at hs
    exact h.main_release rfl (by rw [hpc]; rfl) hs
  | linking a =>
    simp only [hpc] at hs
    rcases Option.map_eq_some_iff.mp hs with ⟨t, ht, rfl⟩
    rcases Shutdown.onQueue_eq_some.mp ht with ⟨queue, hq, rfl⟩
    rcases Option.ite_none_right_eq_some.mp hq with ⟨-, hq⟩
    obtain rfl := Option.some.inj hq
    have hmain : s.inside .main = true := by
      show s.main.inside = true
      rw [hpc]
      rfl
    refine h.main rfl (Or.inl rfl) (List.Sublist.refl _) (fun p hp => ?_) (fun i hw => ?_) rfl ?_
    · by_cases hm : p = .main
      · exact Or.inl ⟨hm, rfl⟩
      · exact Or.inr ⟨hm, hp⟩
    · -- only one thread is between the lock and its release
      have hin : s.inside (.worker i) = true := by
        show (s.worker i).inside = true
        rcases hw with hw | hw <;> rw [hw] <;> rfl
      cases hi.exclusive hmain hin
    · show s.queue.filled.erase a = []
      rw [h.filled, hpc]
      simp [MainPc.newtask?]

/-- Every step keeps the books of the tasks. -/
theorem Pool.step (h : Pool size s) (hi : Shutdown.Inv s) {l : List TaskRef}
    (hq : QueueFifo.Inv s.queue l) {lbl : PoolLbl} (hs : PoolRun.step size lbl s = some s') :
    Pool size s' := by
  -- the steps of main with operands of their own
  cases lbl with
  | worker i => exact h.worker hi hq hs
  | main => exact h.mainStep hi hs
  | malloc succeeds =>
    rcases Option.ite_none_right_eq_some.mp hs with ⟨hpc, hs⟩
    obtain rfl := Option.some.inj hs
    cases succeeds
    · exact h.move rfl rfl rfl (Or.inl rfl) (by rw [hpc]; rfl) (by rw [hpc]; rfl)
    · exact h.move rfl rfl rfl (Or.inr (by rw [hpc]; rfl)) (by rw [hpc]; rfl) (by rw [hpc]; rfl)
  | create succeeds =>
    simp only [PoolRun.step] at hs
    split at hs
    swap
    · cases hs
    rename_i created hpc
    split at hs
    swap
    · obtain rfl := Option.some.inj hs
      exact h.move rfl rfl rfl (Or.inl rfl) (by rw [hpc]; rfl) (by rw [hpc]; rfl)
    rename_i hlt
    split at hs
    · obtain rfl := Option.some.inj hs
      exact h.create hpc hlt
    · obtain rfl := Option.some.inj hs
      exact h.move rfl rfl rfl (Or.inl rfl) (by rw [hpc]; rfl) (by rw [hpc]; rfl)
  | setUp succeeds =>
    rcases Option.ite_none_right_eq_some.mp hs with ⟨hpc, hs⟩
    split at hs <;>
    · obtain rfl := Option.some.inj hs
      exact h.move rfl rfl rfl (Or.inl rfl) (by rw [hpc]; rfl) (by rw [hpc]; rfl)
  | signal =>
    rcases Option.ite_none_left_eq_some.mp hs with ⟨-, hs⟩
    obtain rfl := Option.some.inj hs
    exact h.move rfl rfl rfl (Or.inr rfl) rfl rfl
  | giveUp =>
    rcases Option.ite_none_right_eq_some.mp hs with ⟨-, hs⟩
    obtain rfl := Option.some.inj hs
    exact h.move rfl rfl rfl (Or.inr rfl) rfl rfl
  | leave =>
    rcases Option.ite_none_right_eq_some.mp hs with ⟨hpc, hs⟩
    obtain rfl := Option.some.inj hs
    exact h.move rfl rfl rfl (Or.inl rfl) (by rw [hpc]; rfl) (by rw [hpc]; rfl)
  | enqueue type pid request client block =>
    rcases Option.ite_none_right_eq_some.mp hs with ⟨hpc, hs⟩
    rcases Option.map_eq_some_iff.mp hs with ⟨t, ht, rfl⟩
    rcases Shutdown.onQueue_eq_some.mp ht with ⟨queue, hqs, rfl⟩
    have hempty : s.queue.filled = [] := by
      rw [h.filled, hpc]
      rfl
    have hown : ∀ p, s.tq.owner = some p → p ≠ .main := fun p hp hmain => by
      have hin := h.owned p hp
      rw [hmain] at hin
      simp [PoolRun.inside, hpc, MainPc.inside] at hin
    cases block with
    | none =>
      obtain rfl := Option.some.inj hqs
      exact h.main rfl (Or.inl rfl) (List.Sublist.refl _) (fun p hp => Or.inr ⟨hown p hp, hp⟩)
        h.found rfl hempty
    | some a =>
      rcases Option.ite_none_left_eq_some.mp hqs with ⟨-, hqs⟩
      obtain rfl := Option.some.inj hqs
      exact h.main rfl (Or.inl rfl) (List.Sublist.refl _) (fun p hp => Or.inr ⟨hown p hp, hp⟩)
        h.found rfl (by show a :: s.queue.filled = [a]; rw [hempty])
  | condSignal woken =>
    rcases Option.ite_none_right_eq_some.mp hs with ⟨hpc, hs⟩
    rcases Option.map_eq_some_iff.mp hs with ⟨t, ht, rfl⟩
    rcases Shutdown.onTq_eq_some.mp ht with ⟨tq, htq, rfl⟩
    refine h.main rfl (Or.inl rfl) (signal_sublist htq) (fun p hp => ?_) h.found rfl
      (h.filled_of (by rw [hpc]; rfl))
    by_cases hm : p = .main
    · exact Or.inl ⟨hm, rfl⟩
    · exact Or.inr ⟨hm, (signal_spec htq).1 ▸ hp⟩

/-- What is known of a state that a run reaches. -/
theorem reachable_pool (h : ((system size).under FailsApart).Reachable s) :
    Pool size s ∧ Shutdown.Inv s ∧ ∃ l, QueueFifo.Inv s.queue l := by
  have hqueue : ∀ {t}, ((system size).under FailsApart).Reachable t →
      ∃ l, QueueFifo.Inv t.queue l := fun ht =>
    QueueFifo.reachable_inv ((Shutdown.refines_queue size).reachable ht.of_under)
  refine ⟨?_, Shutdown.reachable_inv h, hqueue h⟩
  induction h with
  | init h0 =>
    obtain rfl : _ = PoolRun.init := h0
    exact pool_init size
  | step hr hn ih =>
    rcases hqueue hr with ⟨l, hq⟩
    exact ih.step (Shutdown.reachable_inv hr) hq hn.2

/-- As long as `RUNNING` is nonzero the failure path has not been taken. -/
theorem reachable_under_of_running (h : (system size).Reachable s) (hr : s.RUNNING = true) :
    ((system size).under FailsApart).Reachable s := by
  induction h with
  | init h0 => exact .init h0
  | @step t t' lbl _ hn ih =>
    have hbefore : t.RUNNING = true := by
      rcases Shutdown.step_cases hn with ⟨i, pc', hw⟩ | hm | ⟨-, hb⟩
      · exact hw.running ▸ hr
      · rcases hm.running with heq | heq
        · exact heq ▸ hr
        · rw [heq] at hr
          cases hr
      · exact hb.running ▸ hr
    have ht := ih hbefore
    refine .step ht ⟨fun _ hf => ?_, hn⟩
    -- a failing main has taken RUNNING down, and here it is up
    have hstop := (Shutdown.reachable_inv ht).stopped (MainPc.stopped_of_failing hf)
    rw [hbefore] at hstop
    cases hstop

end AnimateServer.PoolTasks
