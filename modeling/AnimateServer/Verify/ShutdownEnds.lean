import AnimateServer.Verify.WorkConservation

/-!
# The shutdown comes to an end

Behind `RUNNING = 0` every step of a worker brings it closer to its exit, and the main thread
only goes forward. Who holds the lock gives it back, and after the broadcast nobody sleeps, so
`threadpool_destroy` waits for nothing but the handlers that are still under way: a handler's
run is one step here, and nothing says that it comes. When all workers have been joined, what
is left in the queue is for `task_destroy`.
-/

namespace AnimateServer.PoolTasks

open CLib Monitors Monitor Transition PoolRun
open Shutdown (system FailsApart)

/-- In `threadpool_destroy`, or behind it. -/
def MainPc.closing : MainPc → Bool
  | .destroy | .destroyLock | .destroyBroadcast | .destroyUnlock | .joining _ | .done => true
  | _ => false

variable {size : Nat} {s s' : PoolRun} {i : Nat}

/-! ## The joins -/

/-- The joins come after the broadcast, and wait for the exits. -/
structure Joins (size : Nat) (s : PoolRun) : Prop where
  told : s.main = .destroyUnlock ∨ (∃ j, s.main = .joining j) → s.announced = true
  joined : ∀ j, s.main = .joining j → ∀ i, i < j → s.worker i = .exited
  done : s.main = .done → ∀ i, i < size → s.worker i = .exited

/-- Behind the broadcast of `threadpool_destroy`. -/
def MainPc.behind : MainPc → Bool
  | .destroyUnlock | .joining _ | .done => true
  | _ => false

/-- As long as main is not joining there is nothing to say. -/
theorem joins_of_not_behind (h : MainPc.behind s.main = false) : Joins size s where
  told := by
    rintro (hpc | ⟨j, hpc⟩) <;> rw [hpc] at h <;> cases h
  joined := fun j hpc => by
    rw [hpc] at h
    cases h
  done := fun hpc => by
    rw [hpc] at h
    cases h

/-- A step that keeps the main thread where it is. -/
theorem Joins.keep (h : Joins size s) (hmain : s'.main = s.main)
    (hannounced : s'.announced = s.announced)
    (hexited : ∀ i, s.worker i = .exited → s'.worker i = .exited) : Joins size s' where
  told := fun hpc => hannounced.trans (h.told (hmain ▸ hpc))
  joined := fun j hpc i hi => hexited i (h.joined j (hmain ▸ hpc) i hi)
  done := fun hpc i hi => hexited i (h.done (hmain ▸ hpc) i hi)

/-- Main joins the workers one after the other. -/
theorem Joins.mainStep (h : Joins size s) (hi : Shutdown.Inv s)
    (hs : s.mainStep size = some s') : Joins size s' := by
  -- one case for each place of main
  unfold PoolRun.mainStep at hs
  cases hpc : s.main with
  | allocating | creating _ | settingUp | loop | signalling | done => simp [hpc] at hs
  | initBroadcast created =>
    simp only [hpc, Option.some_inj] at hs
    subst hs
    exact joins_of_not_behind rfl
  | destroyBroadcast =>
    simp only [hpc, Option.some_inj] at hs
    subst hs
    refine ⟨fun _ => rfl, fun j hj => ?_, fun hd => ?_⟩
    · cases hj
    · cases hd
  | reaping created j =>
    simp only [hpc] at hs
    split at hs
    · rcases Option.ite_none_right_eq_some.mp hs with ⟨-, hs⟩
      obtain rfl := Option.some.inj hs
      exact joins_of_not_behind rfl
    · obtain rfl := Option.some.inj hs
      exact joins_of_not_behind rfl
  | teardown =>
    simp only [hpc, Option.some_inj] at hs
    subst hs
    exact joins_of_not_behind rfl
  | destroy =>
    -- `RUNNING` is 0 by now
    simp only [hpc, hi.stopped (by rw [hpc]; rfl), Option.some_inj] at hs
    subst hs
    exact joins_of_not_behind rfl
  | enqueueing a | unlocking =>
    simp only [hpc] at hs
    rcases Option.map_eq_some_iff.mp hs with ⟨t, -, rfl⟩
    exact joins_of_not_behind rfl
  | linking a =>
    simp only [hpc] at hs
    rcases Option.map_eq_some_iff.mp hs with ⟨t, -, rfl⟩
    exact joins_of_not_behind rfl
  | destroyLock =>
    simp only [hpc] at hs
    rcases Option.map_eq_some_iff.mp hs with ⟨t, -, rfl⟩
    exact joins_of_not_behind rfl
  | destroyUnlock =>
    simp only [hpc] at hs
    rcases Option.map_eq_some_iff.mp hs with ⟨t, ht, rfl⟩
    rcases Shutdown.onTq_eq_some.mp ht with ⟨tq, -, rfl⟩
    refine ⟨fun _ => h.told (Or.inl hpc), fun j hj i hij => ?_, fun hd => ?_⟩
    · cases hj
      exact absurd hij (Nat.not_lt_zero i)
    · cases hd
  | joining j =>
    simp only [hpc] at hs
    split at hs
    · rcases Option.ite_none_right_eq_some.mp hs with ⟨hexit, hs⟩
      obtain rfl := Option.some.inj hs
      refine ⟨fun _ => h.told (Or.inr ⟨j, hpc⟩), fun k hk i hik => ?_, fun hd => ?_⟩
      · cases hk
        rcases Nat.lt_succ_iff_lt_or_eq.mp hik with hlt | rfl
        · exact h.joined j hpc i hlt
        · exact hexit
      · cases hd
    · rename_i hge
      obtain rfl := Option.some.inj hs
      refine ⟨by simp [mainGoto], fun k hk => ?_, fun _ i hlt => ?_⟩
      · cases hk
      · exact h.joined j hpc i (Nat.lt_of_lt_of_le hlt (Nat.le_of_not_lt hge))

/-- What the others do sends no worker back that has exited. -/
theorem Joins.step (h : Joins size s) (hi : Shutdown.Inv s) {lbl : PoolLbl}
    (hs : PoolRun.step size lbl s = some s') : Joins size s' := by
  -- main joins in order, a worker only moves itself, and the other steps come before the joins
  cases lbl with
  | main => exact h.mainStep hi hs
  | worker i =>
    rcases Shutdown.workerStep_spec hs with ⟨pc', hm⟩
    refine h.keep hm.main hm.announced fun j hj => ?_
    have hji : j ≠ i := fun heq => by
      have hs : s.workerStep i = some s' := hs
      simp [workerStep, heq ▸ hj] at hs
    rw [hm.worker, Function.update_of_ne hji]
    exact hj
  | signal =>
    rcases Option.ite_none_left_eq_some.mp hs with ⟨-, hs⟩
    obtain rfl := Option.some.inj hs
    exact h.keep rfl rfl fun _ hw => hw
  | giveUp =>
    rcases Option.ite_none_right_eq_some.mp hs with ⟨-, hs⟩
    obtain rfl := Option.some.inj hs
    exact h.keep rfl rfl fun _ hw => hw
  | malloc succeeds =>
    rcases Option.ite_none_right_eq_some.mp hs with ⟨-, hs⟩
    obtain rfl := Option.some.inj hs
    cases succeeds <;> exact joins_of_not_behind rfl
  | setUp succeeds =>
    rcases Option.ite_none_right_eq_some.mp hs with ⟨-, hs⟩
    cases succeeds <;>
    · obtain rfl := Option.some.inj hs
      exact joins_of_not_behind rfl
  | create succeeds =>
    simp only [PoolRun.step] at hs
    split at hs
    swap
    · cases hs
    split at hs
    · split at hs <;>
      · obtain rfl := Option.some.inj hs
        exact joins_of_not_behind rfl
    · obtain rfl := Option.some.inj hs
      exact joins_of_not_behind rfl
  | leave =>
    rcases Option.ite_none_right_eq_some.mp hs with ⟨-, hs⟩
    obtain rfl := Option.some.inj hs
    exact joins_of_not_behind rfl
  | enqueue type pid request client block =>
    rcases Option.ite_none_right_eq_some.mp hs with ⟨-, hs⟩
    rcases Option.map_eq_some_iff.mp hs with ⟨t, -, rfl⟩
    cases block <;> exact joins_of_not_behind rfl
  | condSignal woken =>
    rcases Option.ite_none_right_eq_some.mp hs with ⟨-, hs⟩
    rcases Option.map_eq_some_iff.mp hs with ⟨t, -, rfl⟩
    exact joins_of_not_behind rfl

/-- So all have exited that main has joined. -/
theorem reachable_joins (h : ((system size).under FailsApart).Reachable s) : Joins size s := by
  induction h with
  | init h0 =>
    obtain rfl : _ = PoolRun.init := h0
    exact joins_of_not_behind rfl
  | step hr hn ih => exact ih.step (Shutdown.reachable_inv hr) hn.2

/-! ## The pool that is not complete -/

/-- The creation of the workers is over, and `threadpool_destroy` has not joined worker `i`. -/
def MainPc.before (i : Nat) : MainPc → Bool
  | .allocating | .creating _ | .done => false
  | .joining j => decide (j ≤ i)
  | _ => true

/-- A worker has not been created and will not be. -/
structure Short (size : Nat) (s : PoolRun) : Prop where
  stopped : s.RUNNING = false
  missing : ∃ i, i < size ∧ s.worker i = .absent ∧ MainPc.before i s.main = true

/-- Main does not pass the creation of a worker that is not there once it is on its way out. -/
theorem before_mainStep (hi : i < size) (habsent : s.worker i = .absent)
    (hb : MainPc.before i s.main = true) (hr : s.RUNNING = false)
    (hs : s.mainStep size = some s') :
    s'.worker = s.worker ∧ MainPc.before i s'.main = true := by
  have htq : ∀ {op : Monitor Party → Option (Monitor Party)} {pc : MainPc},
      (s.onTq op).map (mainGoto pc) = some s' → s'.worker = s.worker ∧ s'.main = pc := by
    intro op pc h
    rcases Option.map_eq_some_iff.mp h with ⟨t, ht, rfl⟩
    rcases Shutdown.onTq_eq_some.mp ht with ⟨tq, -, rfl⟩
    exact ⟨rfl, rfl⟩
  unfold PoolRun.mainStep at hs
  cases hpc : s.main with
  | allocating | creating _ | settingUp | loop | signalling | done => simp [hpc] at hs
  | initBroadcast created | destroyBroadcast | teardown =>
    simp only [hpc, Option.some_inj] at hs
    subst hs
    exact ⟨rfl, rfl⟩
  | destroy =>
    simp only [hpc, hr, Option.some_inj] at hs
    subst hs
    exact ⟨rfl, rfl⟩
  | reaping created j =>
    simp only [hpc] at hs
    split at hs
    · rcases Option.ite_none_right_eq_some.mp hs with ⟨-, hs⟩
      obtain rfl := Option.some.inj hs
      exact ⟨rfl, rfl⟩
    · obtain rfl := Option.some.inj hs
      exact ⟨rfl, rfl⟩
  | enqueueing a | unlocking | destroyLock =>
    simp only [hpc] at hs
    rcases htq hs with ⟨hw, hm⟩
    exact ⟨hw, by rw [hm]; rfl⟩
  | destroyUnlock =>
    simp only [hpc] at hs
    rcases htq hs with ⟨hw, hm⟩
    exact ⟨hw, by rw [hm]; exact decide_eq_true (Nat.zero_le i)⟩
  | linking a =>
    simp only [hpc] at hs
    rcases Option.map_eq_some_iff.mp hs with ⟨t, ht, rfl⟩
    rcases Shutdown.onQueue_eq_some.mp ht with ⟨queue, -, rfl⟩
    exact ⟨rfl, rfl⟩
  | joining j =>
    have hle : j ≤ i := by
      rw [hpc] at hb
      exact of_decide_eq_true hb
    simp only [hpc, if_pos (Nat.lt_of_le_of_lt hle hi)] at hs
    rcases Option.ite_none_right_eq_some.mp hs with ⟨hexit, hs⟩
    obtain rfl := Option.some.inj hs
    -- the worker that is missing never exits
    have hne : j ≠ i := fun heq => by
      rw [heq, habsent] at hexit
      cases hexit
    exact ⟨rfl, decide_eq_true (Nat.lt_of_le_of_ne hle hne)⟩

/-- No step makes a worker that main is not going to make. -/
theorem before_step {lbl : PoolLbl} (hi : i < size) (habsent : s.worker i = .absent)
    (hb : MainPc.before i s.main = true) (hr : s.RUNNING = false)
    (hs : PoolRun.step size lbl s = some s') :
    s'.worker i = .absent ∧ MainPc.before i s'.main = true := by
  -- main has passed the creation of worker i, so the labels of an earlier main do not fit
  have hnot : ∀ pc, s.main = pc → MainPc.before i pc = true := fun pc hpc => hpc ▸ hb
  cases lbl with
  | main =>
    rcases before_mainStep hi habsent hb hr hs with ⟨hw, hb'⟩
    exact ⟨hw ▸ habsent, hb'⟩
  | worker j =>
    have hj : i ≠ j := fun heq => by
      have hs : s.workerStep j = some s' := hs
      simp [workerStep, heq ▸ habsent] at hs
    rcases Shutdown.workerStep_spec hs with ⟨pc', hm⟩
    refine ⟨?_, hm.main ▸ hb⟩
    rw [hm.worker, Function.update_of_ne hj]
    exact habsent
  | malloc succeeds =>
    rcases Option.ite_none_right_eq_some.mp hs with ⟨hpc, -⟩
    cases hnot _ hpc
  | create succeeds =>
    simp only [PoolRun.step] at hs
    split at hs
    · rename_i hpc
      cases hnot _ hpc
    · cases hs
  | setUp succeeds =>
    rcases Option.ite_none_right_eq_some.mp hs with ⟨-, hs⟩
    cases succeeds <;>
    · obtain rfl := Option.some.inj hs
      exact ⟨habsent, rfl⟩
  | signal =>
    rcases Option.ite_none_left_eq_some.mp hs with ⟨-, hs⟩
    obtain rfl := Option.some.inj hs
    exact ⟨habsent, hb⟩
  | giveUp =>
    rcases Option.ite_none_right_eq_some.mp hs with ⟨-, hs⟩
    obtain rfl := Option.some.inj hs
    exact ⟨habsent, hb⟩
  | leave =>
    rcases Option.ite_none_right_eq_some.mp hs with ⟨-, hs⟩
    obtain rfl := Option.some.inj hs
    exact ⟨habsent, rfl⟩
  | enqueue type pid request client block =>
    rcases Option.ite_none_right_eq_some.mp hs with ⟨-, hs⟩
    rcases Option.map_eq_some_iff.mp hs with ⟨t, ht, rfl⟩
    rcases Shutdown.onQueue_eq_some.mp ht with ⟨queue, -, rfl⟩
    cases block <;> exact ⟨habsent, rfl⟩
  | condSignal woken =>
    rcases Option.ite_none_right_eq_some.mp hs with ⟨-, hs⟩
    rcases Option.map_eq_some_iff.mp hs with ⟨t, ht, rfl⟩
    rcases Shutdown.onTq_eq_some.mp ht with ⟨tq, -, rfl⟩
    exact ⟨habsent, rfl⟩

/-- A pool that is short stays so. -/
theorem Short.step (h : Short size s) {lbl : PoolLbl}
    (hs : PoolRun.step size lbl s = some s') : Short size s' := by
  rcases h with ⟨hr, i, hi, habsent, hb⟩
  refine ⟨Bool.eq_false_iff.mpr fun hn => ?_, i, hi, before_step hi habsent hb hr hs⟩
  rw [running_of_step hs hn] at hr
  cases hr

/-- `main` enters the failure path only where a `pthread_create` fails. -/
theorem failing_of_step {lbl : PoolLbl} (hf : s.main.failing = false)
    (hs : PoolRun.step size lbl s = some s') (hf' : s'.main.failing = true) :
    ∃ created, s.main = .creating created ∧ created < size ∧
      s' = { s with RUNNING := false }.mainGoto (.initBroadcast created) := by
  cases lbl with
  | main =>
    have hs : s.mainStep size = some s' := hs
    unfold PoolRun.mainStep at hs
    cases hpc : s.main with
    | allocating | creating _ | settingUp | loop | signalling | done => simp [hpc] at hs
    | initBroadcast created =>
      rw [hpc] at hf
      cases hf
    | destroyBroadcast | teardown =>
      simp only [hpc, Option.some_inj] at hs
      subst hs
      cases hf'
    | destroy =>
      simp only [hpc, Option.some_inj] at hs
      subst hs
      cases hr : s.RUNNING <;> simp [hr, mainGoto, MainPc.failing] at hf'
    | reaping _ j | joining j =>
      simp only [hpc] at hs
      split at hs
      · rcases Option.ite_none_right_eq_some.mp hs with ⟨-, hs⟩
        obtain rfl := Option.some.inj hs
        cases hf'
      · obtain rfl := Option.some.inj hs
        cases hf'
    | enqueueing _ | linking _ | unlocking | destroyLock | destroyUnlock =>
      simp only [hpc] at hs
      rcases Option.map_eq_some_iff.mp hs with ⟨t, -, rfl⟩
      cases hf'
  | worker j =>
    rcases Shutdown.workerStep_spec hs with ⟨pc', hm⟩
    rw [hm.main, hf] at hf'
    cases hf'
  | malloc succeeds | setUp succeeds =>
    rcases Option.ite_none_right_eq_some.mp hs with ⟨-, hs⟩
    cases succeeds <;>
    · obtain rfl := Option.some.inj hs
      cases hf'
  | create succeeds =>
    simp only [PoolRun.step] at hs
    split at hs
    swap
    · cases hs
    rename_i created hpc
    split at hs
    · rename_i hlt
      cases succeeds with
      | true =>
        obtain rfl := Option.some.inj hs
        cases hf'
      -- the only way in: a pthread_create that fails
      | false => exact ⟨created, hpc, hlt, (Option.some.inj hs).symm⟩
    · obtain rfl := Option.some.inj hs
      cases hf'
  | signal =>
    rcases Option.ite_none_left_eq_some.mp hs with ⟨-, hs⟩
    obtain rfl := Option.some.inj hs
    exact absurd (hf.symm.trans hf') (by decide)
  | giveUp =>
    rcases Option.ite_none_right_eq_some.mp hs with ⟨-, hs⟩
    obtain rfl := Option.some.inj hs
    exact absurd (hf.symm.trans hf') (by decide)
  | leave =>
    rcases Option.ite_none_right_eq_some.mp hs with ⟨-, hs⟩
    obtain rfl := Option.some.inj hs
    cases hf'
  | enqueue type pid request client block =>
    rcases Option.ite_none_right_eq_some.mp hs with ⟨-, hs⟩
    rcases Option.map_eq_some_iff.mp hs with ⟨t, -, rfl⟩
    cases block <;> cases hf'
  | condSignal woken =>
    rcases Option.ite_none_right_eq_some.mp hs with ⟨-, hs⟩
    rcases Option.map_eq_some_iff.mp hs with ⟨t, -, rfl⟩
    cases hf'

/-- A run takes the failure path of `threadpool_init` only with a worker missing from then
on. -/
theorem reachable_short_or (h : (system size).Reachable s) :
    Short size s ∨ ((system size).under FailsApart).Reachable s ∧ s.main.failing = false := by
  induction h with
  | init h0 =>
    obtain rfl : _ = PoolRun.init := h0
    exact Or.inr ⟨.init rfl, rfl⟩
  | @step t t' lbl _ hn ih =>
    rcases ih with hshort | ⟨ht, hf⟩
    · exact Or.inl (hshort.step hn)
    cases hf' : t'.main.failing with
    | false =>
      refine Or.inr ⟨.step ht ⟨fun _ hfail => ?_, hn⟩, rfl⟩
      rw [hf] at hfail
      cases hfail
    | true =>
      -- the first failure: the worker that was to be created is never born
      rcases failing_of_step hf hn hf' with ⟨created, hpc, hlt, rfl⟩
      have habsent := (reachable_pool ht).1.unborn created (by rw [hpc]; rfl) created
        (Nat.le_refl created)
      exact Or.inl ⟨rfl, created, hlt, habsent, rfl⟩

/-- With all workers created the failure path has not been taken. -/
theorem reachable_under_of_born (h : (system size).Reachable s)
    (hborn : ∀ i, i < size → s.worker i ≠ .absent) :
    ((system size).under FailsApart).Reachable s := by
  rcases reachable_short_or h with hshort | ⟨ht, -⟩
  · rcases hshort.missing with ⟨i, hi, habsent, -⟩
    exact absurd habsent (hborn i hi)
  · exact ht

/-- With a worker missing `threadpool_destroy` is held at the join of a thread that was never
created. -/
theorem reachable_under_of_done (h : (system size).Reachable s) (hdone : s.main = .done) :
    ((system size).under FailsApart).Reachable s := by
  rcases reachable_short_or h with hshort | ⟨ht, -⟩
  · rcases hshort.missing with ⟨i, -, -, hb⟩
    rw [hdone] at hb
    cases hb
  · exact ht

/-! ## Somebody can go on -/

/-- Who holds the lock can go on. -/
theorem workerStep_inside (hi : Shutdown.Inv s) (hin : s.inside (.worker i) = true) :
    ∃ s', s.workerStep i = some s' := by
  have hown := hi.holds _ hin
  have hin : (s.worker i).inside = true := hin
  -- inside the section the worker owns the mutex, so it can let go of it
  have hrelease : ∀ pc, ∃ s', (s.onTq (release (.worker i))).map (goto i pc) = some s' :=
    fun pc => by simp [onTq, release, hown]
  unfold workerStep
  cases hpc : s.worker i with
  | absent | exited | loop | locking | inWait | serving => rw [hpc] at hin; cases hin
  | headTest | runningTest | leaving => exact ⟨_, rfl⟩
  | waiting => simp [onTq, Monitor.wait, hown]
  | taking =>
    have hsome : ∃ queue, QueueState.step .dequeue s.queue = some queue := by
      simp only [QueueState.step]
      split <;> exact ⟨_, rfl⟩
    rcases hsome with ⟨queue, hq⟩
    simp [onQueue, hq]
  | unlocking task =>
    cases task with
    | none => exact hrelease .loop
    | some a => exact hrelease (.serving a)

/-- Whoever wants the lock gets it, or its holder goes on. -/
theorem exists_workerStep (hp : Pool size s) (hi : Shutdown.Inv s)
    (hmain : s.main.inside = false) (hborn : s.worker i ≠ .absent)
    (hexit : s.worker i ≠ .exited) (hawake : .worker i ∉ s.tq.asleep) :
    ∃ j s', s.workerStep j = some s' := by
  -- whoever owns the mutex can move; with a free mutex worker i can
  cases ho : s.tq.owner with
  | some p =>
    have hin := hp.owned p ho
    cases p with
    | main => exact absurd (hmain.symm.trans hin) (by simp)
    | worker j => exact ⟨j, workerStep_inside hi hin⟩
  | none =>
    refine ⟨i, ?_⟩
    have hout : (s.worker i).inside = false := by
      refine Bool.eq_false_iff.mpr fun hin => ?_
      have hown := hi.holds (.worker i) hin
      rw [ho] at hown
      cases hown
    unfold workerStep
    cases hpc : s.worker i with
    | absent => exact absurd hpc hborn
    | exited => exact absurd hpc hexit
    | loop => exact ⟨_, rfl⟩
    | locking => simp [onTq, acquire, ho]
    | inWait => simp [onTq, wake, acquire, ho, hawake]
    | serving a =>
      have htaken : a ∈ s.queue.taken := (hp.taken a).mpr ⟨i, by rw [hpc]; rfl⟩
      simp [onQueue, QueueState.step, htaken]
    | headTest | runningTest | waiting | leaving | taking | unlocking =>
      rw [hpc] at hout
      cases hout

/-- The run of the handler that worker `i` is in comes to its end. -/
def HandlerReturns (lbl : PoolLbl) (s : PoolRun) : Prop :=
  ∃ i task, lbl = .worker i ∧ s.worker i = .serving task

/-- Until `threadpool_destroy` has returned, a thread can go on that is in no handler, or some
handler is still under way. -/
theorem exists_step (h : ((system size).under FailsApart).Reachable s)
    (hborn : ∀ i, i < size → s.worker i ≠ .absent) (hc : MainPc.closing s.main = true)
    (hdone : s.main ≠ .done) :
    (∃ lbl s', lbl ≠ .signal ∧ ¬ HandlerReturns lbl s ∧ PoolRun.step size lbl s = some s') ∨
      ∃ i, i < size ∧ ∃ task, s.worker i = .serving task := by
  rcases reachable_pool h with ⟨hp, hi, -⟩
  have hj := reachable_joins h
  -- a step of main is neither a signal nor the return of a handler
  have hmain : (∃ s', s.mainStep size = some s') →
      (∃ lbl s', lbl ≠ .signal ∧ ¬ HandlerReturns lbl s ∧ PoolRun.step size lbl s = some s') ∨
        ∃ i, i < size ∧ ∃ task, s.worker i = .serving task := by
    rintro ⟨s', hs⟩
    refine Or.inl ⟨.main, s', by simp, ?_, hs⟩
    rintro ⟨i, task, hlbl, -⟩
    cases hlbl
  -- a worker's step is no return of a handler unless that worker is in one
  have hworker : (∃ j s', s.workerStep j = some s') →
      (∃ lbl s', lbl ≠ .signal ∧ ¬ HandlerReturns lbl s ∧ PoolRun.step size lbl s = some s') ∨
        ∃ i, i < size ∧ ∃ task, s.worker i = .serving task := by
    rintro ⟨j, s', hs⟩
    by_cases hserving : ∃ task, s.worker j = .serving task
    · exact Or.inr ⟨j, hp.lt_size hs, hserving⟩
    · refine Or.inl ⟨.worker j, s', by simp, ?_, hs⟩
      rintro ⟨i, task, hlbl, htask⟩
      cases hlbl
      exact hserving ⟨task, htask⟩
  unfold MainPc.closing at hc
  cases hpc : s.main with
  | allocating | creating | initBroadcast | reaping | settingUp | loop | enqueueing | linking
  | signalling | unlocking | teardown =>
    rw [hpc] at hc
    cases hc
  | done => exact absurd hpc hdone
  | destroy | destroyBroadcast =>
    refine hmain ?_
    unfold PoolRun.mainStep
    rw [hpc]
    exact ⟨_, rfl⟩
  | destroyLock =>
    cases ho : s.tq.owner with
    | none =>
      refine hmain ?_
      simp [PoolRun.mainStep, hpc, onTq, acquire, ho]
    | some p =>
      have hin := hp.owned p ho
      cases p with
      | main =>
        have hin : s.main.inside = true := hin
        rw [hpc] at hin
        cases hin
      | worker j => exact hworker ⟨j, workerStep_inside hi hin⟩
  | destroyUnlock =>
    have hown := hi.holds .main (by show s.main.inside = true; rw [hpc]; rfl)
    refine hmain ?_
    simp [PoolRun.mainStep, hpc, onTq, release, hown]
  | joining j =>
    by_cases hlt : j < size
    · by_cases hexit : s.worker j = .exited
      · refine hmain ?_
        simp [PoolRun.mainStep, hpc, hlt, hexit]
      · -- the worker that main joins is awake, for the broadcast came after RUNNING fell
        exact hworker (exists_workerStep hp hi (by rw [hpc]; rfl) (hborn j hlt) hexit
          (hi.quiet (hj.told (Or.inr ⟨j, hpc⟩)) j).2)
    · refine hmain ?_
      simp [PoolRun.mainStep, hpc, hlt]

/-! ## Each step comes closer -/

/-- How many steps a worker takes at most with `RUNNING` at 0. -/
def WorkerPc.rank : WorkerPc → Nat
  | .absent | .exited => 0
  | .loop => 1
  | .serving _ | .unlocking none => 2
  | .unlocking (some _) => 3
  | .taking => 4
  | .leaving => 5
  | .runningTest => 6
  | .headTest => 7
  | .inWait | .locking => 8
  | .waiting => 9

/-- How many steps `threadpool_destroy` takes at most. -/
def MainPc.rank (size : Nat) : MainPc → Nat
  | .destroy => size + 5
  | .destroyLock => size + 4
  | .destroyBroadcast => size + 3
  | .destroyUnlock => size + 2
  | .joining j => size - j + 1
  | _ => 0

def rank (size : Nat) (s : PoolRun) : Nat :=
  MainPc.rank size s.main + (Finset.range size).sum fun i => WorkerPc.rank (s.worker i)

/-- All but the delivery of another signal. -/
def works : PoolLbl → Bool
  | .signal => false
  | _ => true

/-- Once `RUNNING` is unset a worker comes closer to its end with every step. -/
theorem rank_workerStep (hr : s.RUNNING = false) (hs : s.workerStep i = some s') :
    WorkerPc.rank (s'.worker i) < WorkerPc.rank (s.worker i) := by
  -- each branch names the program point it goes to
  have hmoved : ∀ {op : Option PoolRun} {pc : WorkerPc}, op.map (goto i pc) = some s' →
      s'.worker i = pc := by
    intro op pc h
    rcases Option.map_eq_some_iff.mp h with ⟨t, -, rfl⟩
    exact worker_goto_self i pc t
  unfold workerStep at hs
  cases hpc : s.worker i with
  | absent | exited => simp [hpc] at hs
  | loop | leaving | runningTest =>
    simp only [hpc, hr, Option.some_inj] at hs
    subst hs
    rw [worker_goto_self]
    decide
  | headTest =>
    simp only [hpc, Option.some_inj] at hs
    subst hs
    rw [worker_goto_self]
    split <;> decide
  | locking | waiting | inWait =>
    simp only [hpc] at hs
    rw [hmoved hs]
    decide
  | serving a =>
    simp only [hpc] at hs
    rw [hmoved hs]
    exact Nat.lt_succ_self 1
  | taking =>
    simp only [hpc] at hs
    rw [hmoved hs]
    cases s.queue.q.head <;> simp [WorkerPc.rank]
  | unlocking task =>
    cases task with
    | none =>
      simp only [hpc] at hs
      rw [hmoved hs]
      decide
    | some a =>
      simp only [hpc] at hs
      rw [hmoved hs]
      exact Nat.lt_succ_self 2

/-- `threadpool_destroy` goes forward, and leaves the workers alone. -/
theorem rank_mainStep (hr : s.RUNNING = false) (hc : MainPc.closing s.main = true)
    (hs : s.mainStep size = some s') :
    s'.worker = s.worker ∧ MainPc.closing s'.main = true ∧
      MainPc.rank size s'.main < MainPc.rank size s.main := by
  -- the steps on the mutex name the program point they go to
  have hmoved : ∀ {op : Monitor Party → Option (Monitor Party)} {pc : MainPc},
      (s.onTq op).map (mainGoto pc) = some s' → s'.worker = s.worker ∧ s'.main = pc := by
    intro op pc h
    rcases Option.map_eq_some_iff.mp h with ⟨t, ht, rfl⟩
    rcases Shutdown.onTq_eq_some.mp ht with ⟨tq, -, rfl⟩
    exact ⟨rfl, rfl⟩
  unfold PoolRun.mainStep at hs
  cases hpc : s.main with
  | allocating | creating | initBroadcast | reaping | settingUp | loop | enqueueing | linking
  | signalling | unlocking | teardown =>
    rw [hpc] at hc
    cases hc
  | done => simp [hpc] at hs
  | destroy =>
    simp only [hpc, hr, Option.some_inj] at hs
    subst hs
    exact ⟨rfl, rfl, Nat.lt_succ_self _⟩
  | destroyBroadcast =>
    simp only [hpc, Option.some_inj] at hs
    subst hs
    exact ⟨rfl, rfl, Nat.lt_succ_self _⟩
  | destroyLock =>
    simp only [hpc] at hs
    rcases hmoved hs with ⟨hw, hm⟩
    rw [hm]
    exact ⟨hw, rfl, Nat.lt_succ_self _⟩
  | destroyUnlock =>
    simp only [hpc] at hs
    rcases hmoved hs with ⟨hw, hm⟩
    rw [hm]
    exact ⟨hw, rfl, Nat.lt_succ_self _⟩
  | joining j =>
    simp only [hpc] at hs
    split at hs
    · rename_i hlt
      rcases Option.ite_none_right_eq_some.mp hs with ⟨-, hs⟩
      obtain rfl := Option.some.inj hs
      refine ⟨rfl, rfl, ?_⟩
      show size - (j + 1) + 1 < size - j + 1
      omega
    · obtain rfl := Option.some.inj hs
      exact ⟨rfl, rfl, Nat.succ_pos _⟩

/-- What can still happen. -/
theorem closing_cases {lbl : PoolLbl} (hc : MainPc.closing s.main = true)
    (hs : PoolRun.step size lbl s = some s') :
    lbl = .main ∧ s.mainStep size = some s' ∨ (∃ i, lbl = .worker i ∧ s.workerStep i = some s') ∨
      lbl = .signal ∧ s' = { s with RUNNING := false } := by
  -- main is past the points where the other labels fit
  have hnot : ∀ pc, s.main = pc → MainPc.closing pc = true := fun pc hpc => hpc ▸ hc
  cases lbl with
  | main => exact Or.inl ⟨rfl, hs⟩
  | worker i => exact Or.inr (Or.inl ⟨i, rfl, hs⟩)
  | signal =>
    rcases Option.ite_none_left_eq_some.mp hs with ⟨-, hs⟩
    exact Or.inr (Or.inr ⟨rfl, (Option.some.inj hs).symm⟩)
  | malloc | setUp | giveUp | leave | condSignal | enqueue =>
    rcases Option.ite_none_right_eq_some.mp hs with ⟨hpc, -⟩
    cases hnot _ hpc
  | create succeeds =>
    simp only [PoolRun.step] at hs
    split at hs
    · rename_i hpc
      cases hnot _ hpc
    · cases hs

/-- There is no way back from `threadpool_destroy`. -/
theorem closing_step {lbl : PoolLbl} (hr : s.RUNNING = false)
    (hc : MainPc.closing s.main = true) (hs : PoolRun.step size lbl s = some s') :
    s'.RUNNING = false ∧ MainPc.closing s'.main = true := by
  refine ⟨Bool.eq_false_iff.mpr fun hn => ?_, ?_⟩
  · rw [running_of_step hs hn] at hr
    cases hr
  · rcases closing_cases hc hs with ⟨-, hm⟩ | ⟨i, -, hw⟩ | ⟨-, rfl⟩
    · exact (rank_mainStep hr hc hm).2.1
    · rcases Shutdown.workerStep_spec hw with ⟨pc', hm⟩
      rw [hm.main]
      exact hc
    · exact hc

/-- Every step of a thread is paid for, and a signal is free. -/
theorem rank_step {lbl : PoolLbl} (hp : Pool size s) (hr : s.RUNNING = false)
    (hc : MainPc.closing s.main = true) (hs : PoolRun.step size lbl s = some s') :
    rank size s' + (if works lbl then 1 else 0) ≤ rank size s := by
  unfold rank
  rcases closing_cases hc hs with ⟨rfl, hm⟩ | ⟨i, rfl, hw⟩ | ⟨rfl, rfl⟩
  · rcases rank_mainStep hr hc hm with ⟨hw, -, hlt⟩
    rw [hw]
    simp only [works, if_true]
    omega
  · rcases Shutdown.workerStep_spec hw with ⟨pc', hm⟩
    have hlt := rank_workerStep hr hw
    have hother : ∀ j, j ≠ i → WorkerPc.rank (s'.worker j) = WorkerPc.rank (s.worker j) :=
      fun j hj => by rw [hm.worker, Function.update_of_ne hj]
    -- only worker i's summand changed
    have hsum := @sum_range_update (fun j => WorkerPc.rank (s.worker j))
      (fun j => WorkerPc.rank (s'.worker j)) size i (hp.lt_size hw) hother
    rw [hm.main]
    simp only [works, if_true]
    omega
  · exact Nat.le_refl _

/-- The bound in terms of the pool's size. -/
theorem rank_le (size : Nat) (s : PoolRun) : rank size s ≤ 10 * size + 5 := by
  have hworker : ∀ i ∈ Finset.range size, WorkerPc.rank (s.worker i) ≤ 9 := by
    intro i _
    unfold WorkerPc.rank
    split <;> decide
  have hsum : (Finset.range size).sum (fun i => WorkerPc.rank (s.worker i)) ≤ size * 9 := by
    have hcard := Finset.sum_le_card_nsmul _ _ _ hworker
    rw [Finset.card_range] at hcard
    exact hcard
  have hmain : MainPc.rank size s.main ≤ size + 5 := by
    unfold MainPc.rank
    split <;> omega
  unfold rank
  omega

/-- Once the main thread is in `threadpool_destroy`, with all workers created: however the
threads take turns, there are at most `10 * size + 5` steps left, the run of a handler being
one of them. As long as `threadpool_destroy` has not returned, some thread can take a step
other than that, or a worker is in a handler: it waits for nothing but the handlers under way,
and a handler that never comes back keeps it from returning. When it has returned, all workers
have exited. -/
theorem shutdown_completes (h : (system size).Reachable s)
    (hborn : ∀ i, i < size → s.worker i ≠ .absent) (hc : MainPc.closing s.main = true) :
    (∀ ls s', run (PoolRun.step size) ls s = some s' → ls.countP works ≤ 10 * size + 5) ∧
      (s.main ≠ .done →
        (∃ lbl s', lbl ≠ .signal ∧ ¬ HandlerReturns lbl s ∧
          PoolRun.step size lbl s = some s') ∨
        ∃ i, i < size ∧ ∃ task, s.worker i = .serving task) ∧
      (s.main = .done → ∀ i, i < size → s.worker i = .exited) := by
  have hu := reachable_under_of_born h hborn
  refine ⟨fun ls s' hrun => ?_, exists_step hu hborn hc, (reachable_joins hu).done⟩
  have hr : s.RUNNING = false := by
    refine (Shutdown.reachable_inv hu).stopped ?_
    unfold MainPc.closing at hc
    cases hpc : s.main <;> simp [hpc, MainPc.stopped] at hc ⊢
  -- nothing of this takes the failure path
  have hstep : ∀ l t t', (((system size).under FailsApart).Reachable t ∧ t.RUNNING = false ∧
      MainPc.closing t.main = true) → PoolRun.step size l t = some t' →
      ((system size).under FailsApart).Reachable t' ∧ t'.RUNNING = false ∧
        MainPc.closing t'.main = true := by
    rintro l t t' ⟨ht, hrt, hct⟩ hl
    refine ⟨.step ht ⟨fun _ hf => ?_, hl⟩, closing_step hrt hct hl⟩
    cases hpc : t.main <;> simp [hpc, MainPc.failing, MainPc.closing] at hf hct
  have hle := countP_run_le works (rank size) hstep
    (fun l t t' ht hl => rank_step (reachable_pool ht.1).1 ht.2.1 ht.2.2 hl) ⟨hu, hr, hc⟩ hrun
  have hbound := rank_le size s
  omega

/-- A worker sleeps when a signal ends the main loop. -/
def halt : List PoolLbl :=
  [.malloc true, .create true, .create true, .worker 0, .worker 0, .worker 0, .worker 0, .worker 0,
    .setUp true, .enqueue .HANDSHAKE 42 [] 0 (some 7), .main, .main, .condSignal (some (.worker 0)),
    .main, .signal, .leave, .main]

theorem shutdown_completes_halt :
    ∃ s, (system 1).Reachable s ∧ s.main = .destroy ∧ s.queue.q.linked = [7] ∧
      ∃ lbl s', lbl ≠ .signal ∧ ¬ HandlerReturns lbl s ∧ PoolRun.step 1 lbl s = some s' := by
  obtain ⟨s, h, hp⟩ := exists_reachable_of_run .init (PoolRun.step 1) halt
    (fun s => decide (s.main = .destroy ∧ s.worker 0 = .inWait ∧ s.queue.q.linked = [7]))
    (by decide)
  rcases of_decide_eq_true hp with ⟨hmain, hwait, hlinked⟩
  -- the one worker is born and sleeps on the condition
  have hall : ∀ i, i < 1 → s.worker i ≠ .absent := fun i hi => by
    rw [Nat.lt_one_iff.mp hi, hwait]
    decide
  refine ⟨s, h, hmain, hlinked, ?_⟩
  rcases (shutdown_completes h hall (by rw [hmain]; rfl)).2.1 (by rw [hmain]; decide) with
    hstep | ⟨i, hi, task, hserving⟩
  · exact hstep
  · rw [Nat.lt_one_iff.mp hi, hwait] at hserving
    cases hserving

/-! ## What is left for `task_destroy` -/

/-- The allocated blocks are those that are filled, linked or taken. -/
theorem exists_live_perm {q : QueueState} (h : QueueFifo.system.Reachable q) :
    ∃ l, QueueFifo.Inv q l ∧ q.live.Perm (q.filled ++ (l ++ q.taken)) := by
  induction h with
  | init h0 =>
    obtain rfl : _ = QueueState.init := h0
    exact ⟨[], QueueFifo.inv_init, List.Perm.refl _⟩
  | @step q q' lbl hr hn ih =>
    rcases ih with ⟨l, hl, hlive⟩
    have hn : QueueState.step lbl q = some q' := hn
    cases lbl with
    | enqueue type pid request client block =>
      cases block with
      | none =>
        obtain rfl := Option.some.inj hn
        exact ⟨l, hl.enqueue_fail, hlive⟩
      | some a =>
        rcases Option.ite_none_left_eq_some.mp hn with ⟨ha, hn⟩
        obtain rfl := Option.some.inj hn
        exact ⟨l, hl.enqueue ha (QueueFifo.stamp_newTask _ _ _ _ _), hlive.cons a⟩
    | link a =>
      rcases Option.ite_none_right_eq_some.mp hn with ⟨ha, hn⟩
      obtain rfl := Option.some.inj hn
      refine ⟨l ++ [a], hl.link ha, hlive.trans ?_⟩
      have hfilled := List.perm_cons_erase ha
      -- the linked block goes behind the list, the others stay in their order
      have hmid : (a :: (q.filled.erase a ++ (l ++ q.taken))).Perm
          (q.filled.erase a ++ (l ++ [a] ++ q.taken)) := by
        rw [List.append_assoc l, List.singleton_append, ← List.append_assoc, ← List.append_assoc]
        exact List.perm_middle.symm
      exact (List.Perm.append_right _ hfilled).trans hmid
    | dequeue =>
      rcases step_dequeue hl hn with ⟨-, rfl, -⟩ | ⟨a, rest, rfl, -, htaken, hfilled, hlv, hl'⟩
      · exact ⟨l, hl, hlive⟩
      · refine ⟨rest, hl', ?_⟩
        rw [htaken, hfilled, hlv]
        exact hlive.trans (List.Perm.append_left _ List.perm_middle.symm)
    | free a =>
      rcases step_free hn with ⟨ha, rfl⟩
      refine ⟨l, hl.free ha, ?_⟩
      have htaken := List.Perm.append_left (q.filled ++ l) (List.perm_cons_erase ha)
      have hout : (q.filled ++ (l ++ q.taken)).Perm (a :: (q.filled ++ (l ++ q.taken.erase a))) :=
        by simpa using htaken.trans List.perm_middle
      have herase := (hlive.trans hout).erase a
      rwa [List.erase_cons_head] at herase

/-- With enough fuel the loop frees the chain, in order. -/
theorem destroyLoop_eq {q : TaskQueue} {fuel : Nat} :
    ∀ {l : List TaskRef} {h : Option TaskRef}, Links.Chain (fun a => (q.mem a).next) h l →
      l.length ≤ fuel → q.destroyLoop fuel h = some l := by
  induction fuel with
  | zero =>
    intro l h hl hle
    obtain rfl := List.length_eq_zero_iff.mp (Nat.le_zero.mp hle)
    obtain rfl : h = none := hl
    rfl
  | succ fuel ih =>
    intro l h hl hle
    cases l with
    | nil =>
      obtain rfl : h = none := hl
      rfl
    | cons a l =>
      -- the head is freed, the loop goes on from its next
      rcases hl with ⟨rfl, hl⟩
      simp only [TaskQueue.destroyLoop]
      rw [ih hl (Nat.le_of_succ_le_succ hle)]
      rfl

/-- Nothing is left of a list without itself. -/
theorem diff_self (l : List TaskRef) : l.diff l = [] := by
  induction l with
  | nil => rfl
  | cons a l ih => rw [List.diff_cons, List.erase_cons_head, ih]

/-- When `threadpool_destroy` has returned: the blocks that are still allocated are those in
the queue, and `task_destroy` frees each of them once, in order, and leaves none. -/
theorem taskDestroy_frees_all (h : (system size).Reachable s)
    (hdone : s.main = .done) {fuel : Nat} (hfuel : s.queue.q.count ≤ fuel) :
    ∃ q, s.queue.taskDestroy s.RUNNING fuel = some (s.queue.q.linked, q) ∧ q.live = [] ∧
      s.queue.q.linked.Nodup ∧ s.queue.q.linked.Perm s.queue.live := by
  have hu := reachable_under_of_done h hdone
  rcases reachable_pool hu with ⟨hp, hi, -⟩
  rcases exists_live_perm ((Shutdown.refines_queue size).reachable h) with ⟨l, hl, hlive⟩
  have hr : s.RUNNING = false := hi.stopped (by rw [hdone]; rfl)
  have hfilled : s.queue.filled = [] := by
    rw [hp.filled, hdone]
    rfl
  -- a worker that holds a task has not exited
  have htaken : s.queue.taken = [] := List.eq_nil_iff_forall_not_mem.mpr fun a ha => by
    rcases (hp.taken a).mp ha with ⟨i, hi⟩
    by_cases hlt : i < size
    · rw [(reachable_joins hu).done hdone i hlt] at hi
      cases hi
    · rw [hp.absent i (Nat.le_of_not_lt hlt)] at hi
      cases hi
  rw [hfilled, htaken, List.append_nil, List.nil_append] at hlive
  have hloop : s.queue.q.destroyLoop fuel s.queue.q.head = some l :=
    destroyLoop_eq hl.shape.chain (hl.shape.count ▸ hfuel)
  rw [hl.shape.linked_eq]
  refine ⟨{ s.queue with q := { s.queue.q with head := none }, live := s.queue.live.diff l },
    ?_, ?_,
    hl.shape.nodup, hlive.symm⟩
  · unfold QueueState.taskDestroy
    rw [hr, hloop]
    rfl
  · show s.queue.live.diff l = []
    exact (diff_self l ▸ hlive.diff_right l).eq_nil

theorem taskDestroy_frees_all_halt :
    ∃ s, (system 1).Reachable s ∧ s.main = .done ∧
      ∃ q, s.queue.taskDestroy s.RUNNING 1 = some ([7], q) ∧ q.live = [] := by
  obtain ⟨s, h, hp⟩ := exists_reachable_of_run .init (PoolRun.step 1)
    (halt ++ [.main, .main, .main, .main, .worker 0, .worker 0, .worker 0, .worker 0, .worker 0,
      .main, .main])
    (fun s => decide (s.main = .done ∧ s.queue.q.linked = [7] ∧ s.queue.q.count = 1)) (by decide)
  rcases of_decide_eq_true hp with ⟨hdone, hlinked, hcount⟩
  rcases taskDestroy_frees_all h hdone (Nat.le_of_eq hcount) with ⟨q, hq, hlive, -⟩
  exact ⟨s, h, hdone, q, hlinked ▸ hq, hlive⟩

end AnimateServer.PoolTasks
