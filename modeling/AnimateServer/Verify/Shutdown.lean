import AnimateServer.Lib.Transition
import AnimateServer.Model.Shutdown
import AnimateServer.Verify.QueueFifo

/-!
# No worker sleeps through the shutdown

`RUNNING` is cleared without `tq_lock`, so a worker may have tested it already and be on its
way into the wait. `threadpool_destroy` takes the lock before it broadcasts, and a worker
on its way holds the lock. The failure path of `threadpool_init` broadcasts without it and
can be too early for such a worker.
-/

namespace AnimateServer.Shutdown

open CLib Monitors Monitor Transition PoolRun

/-- A server with `size` workers, from `threadpool_init` on. -/
abbrev system (size : Nat) : LTS PoolRun PoolLbl := ofStep .init (PoolRun.step size)

/-- No worker is blocked on `tq_not_empty`, or committed to blocking on it. -/
def NobodySleeps (s : PoolRun) : Prop := ∀ i, ¬ s.Committed i ∧ ¬ s.Blocked i

/-- The failure path of `threadpool_init` broadcasts at a moment when no worker is between
its tests and its wait. -/
def FailsApart (lbl : PoolLbl) (s : PoolRun) : Prop :=
  lbl = .main → s.main.failing = true → ∀ i, s.worker i ≠ .waiting

/-! ### What a step does -/

/-- What a step of worker `i` from `pc` to `pc'` does to the lock. -/
inductive LockMove (i : Nat) (pc pc' : WorkerPc) (running : Bool) (m : Monitor Party) :
    Monitor Party → Prop where
  | keep (hin : pc'.inside = pc.inside) (hwait : pc' = .waiting → running = true) :
      LockMove i pc pc' running m m
  | acquire (ho : m.owner = none) (hin : pc'.inside = true) (hwait : pc' ≠ .waiting) :
      LockMove i pc pc' running m { m with owner := some (.worker i) }
  | release (ho : m.owner = some (.worker i)) (hin : pc'.inside = false) :
      LockMove i pc pc' running m { m with owner := none }
  | wait (ho : m.owner = some (.worker i)) (hpc : pc = .waiting) (hin : pc'.inside = false) :
      LockMove i pc pc' running m { owner := none, asleep := .worker i :: m.asleep }

/-- The queue is left alone, or one of its calls and sections is run. -/
def QueueMoves (s s' : PoolRun) : Prop :=
  s'.queue = s.queue ∨ ∃ lbl, QueueState.step lbl s.queue = some s'.queue

/-- What a step of worker `i` to `pc'` does. -/
structure WorkerMoves (i : Nat) (pc' : WorkerPc) (s s' : PoolRun) : Prop where
  running : s'.RUNNING = s.RUNNING
  main : s'.main = s.main
  announced : s'.announced = s.announced
  worker : s'.worker = Function.update s.worker i pc'
  lock : LockMove i (s.worker i) pc' s.RUNNING s.tq s'.tq
  queue : QueueMoves s s'

/-- What a step of `main` or of the signal handler does, the broadcasts apart. -/
structure MainMoves (s s' : PoolRun) : Prop where
  running : s'.RUNNING = s.RUNNING ∨ s'.RUNNING = false
  stopped : s'.main.stopped = true → s.main.stopped = true ∨ s'.RUNNING = false
  worker : ∀ i, s'.worker i = s.worker i ∨ s'.worker i = .loop
  announced : s'.announced = s.announced
  asleep : ∀ p ∈ s'.tq.asleep, p ∈ s.tq.asleep
  owner : ∀ i, s.tq.owner = some (.worker i) → s'.tq.owner = some (.worker i)
  inside : s'.main.inside = true →
    s'.tq.owner = some .main ∨ s.main.inside = true ∧ s'.tq.owner = s.tq.owner
  queue : QueueMoves s s'

/-- What the two broadcasts do. -/
structure Broadcasts (s s' : PoolRun) : Prop where
  origin : s.main.failing = true ∨ s.main = .destroyBroadcast
  running : s'.RUNNING = s.RUNNING
  worker : s'.worker = s.worker
  asleep : s'.tq.asleep = []
  owner : s'.tq.owner = s.tq.owner
  inside : s'.main.inside = s.main.inside
  queue : s'.queue = s.queue

section Moves

variable {i : Nat} {pc' : WorkerPc} {s s' : PoolRun}

/-- An operation on the lock and the condition variable touches nothing else. -/
theorem onTq_eq_some {op : Monitor Party → Option (Monitor Party)} :
    s.onTq op = some s' ↔ ∃ tq, op s.tq = some tq ∧ s' = { s with tq } := by
  unfold onTq
  rw [Option.map_eq_some_iff]
  simp only [eq_comm (b := s')]

/-- An operation on the queue touches nothing else. -/
theorem onQueue_eq_some {lbl : QueueLbl} :
    s.onQueue lbl = some s' ↔
      ∃ queue, QueueState.step lbl s.queue = some queue ∧ s' = { s with queue } := by
  unfold onQueue
  rw [Option.map_eq_some_iff]
  simp only [eq_comm (b := s')]

/-- A worker goes on without any operation. -/
theorem moves_goto (hin : pc'.inside = (s.worker i).inside)
    (hwait : pc' = .waiting → s.RUNNING = true) : WorkerMoves i pc' s (s.goto i pc') :=
  ⟨rfl, rfl, rfl, rfl, .keep hin hwait, Or.inl rfl⟩

/-- A worker goes on with the lock taken. -/
theorem moves_acquire (hin : pc'.inside = true) (hwait : pc' ≠ .waiting)
    (h : (s.onTq (acquire (.worker i))).map (goto i pc') = some s') :
    WorkerMoves i pc' s s' := by
  rcases Option.map_eq_some_iff.mp h with ⟨t, ht, rfl⟩
  rcases onTq_eq_some.mp ht with ⟨tq, htq, rfl⟩
  rcases acquire_eq_some.mp htq with ⟨ho, rfl⟩
  exact ⟨rfl, rfl, rfl, rfl, .acquire ho hin hwait, Or.inl rfl⟩

/-- A worker goes on after it has been woken. -/
theorem moves_wake (hin : pc'.inside = true) (hwait : pc' ≠ .waiting)
    (h : (s.onTq (wake (.worker i))).map (goto i pc') = some s') :
    WorkerMoves i pc' s s' := by
  rcases Option.map_eq_some_iff.mp h with ⟨t, ht, rfl⟩
  rcases onTq_eq_some.mp ht with ⟨tq, htq, rfl⟩
  rcases wake_eq_some.mp htq with ⟨-, ho, rfl⟩
  exact ⟨rfl, rfl, rfl, rfl, .acquire ho hin hwait, Or.inl rfl⟩

/-- A worker goes on with the lock given back. -/
theorem moves_release (hin : pc'.inside = false)
    (h : (s.onTq (release (.worker i))).map (goto i pc') = some s') :
    WorkerMoves i pc' s s' := by
  rcases Option.map_eq_some_iff.mp h with ⟨t, ht, rfl⟩
  rcases onTq_eq_some.mp ht with ⟨tq, htq, rfl⟩
  rcases release_eq_some.mp htq with ⟨ho, rfl⟩
  exact ⟨rfl, rfl, rfl, rfl, .release ho hin, Or.inl rfl⟩

/-- A worker falls asleep. -/
theorem moves_wait (hpc : s.worker i = .waiting) (hin : pc'.inside = false)
    (h : (s.onTq (wait (.worker i))).map (goto i pc') = some s') :
    WorkerMoves i pc' s s' := by
  rcases Option.map_eq_some_iff.mp h with ⟨t, ht, rfl⟩
  rcases onTq_eq_some.mp ht with ⟨tq, htq, rfl⟩
  rcases wait_eq_some.mp htq with ⟨ho, rfl⟩
  exact ⟨rfl, rfl, rfl, rfl, .wait ho hpc hin, Or.inl rfl⟩

/-- A worker goes on with a turn of the queue. -/
theorem moves_onQueue {lbl : QueueLbl} (hin : pc'.inside = (s.worker i).inside)
    (hwait : pc' ≠ .waiting) (h : (s.onQueue lbl).map (goto i pc') = some s') :
    WorkerMoves i pc' s s' := by
  rcases Option.map_eq_some_iff.mp h with ⟨t, ht, rfl⟩
  rcases onQueue_eq_some.mp ht with ⟨queue, hq, rfl⟩
  exact ⟨rfl, rfl, rfl, rfl, .keep hin fun hw => absurd hw hwait, Or.inr ⟨lbl, hq⟩⟩

/-- A step of a worker. -/
theorem workerStep_spec (h : s.workerStep i = some s') : ∃ pc', WorkerMoves i pc' s s' := by
  unfold workerStep at h
  cases hpc : s.worker i with
  | absent | exited => simp [hpc] at h
  | loop =>
    simp only [hpc, Option.some_inj] at h
    subst h
    refine ⟨_, moves_goto ?_ ?_⟩
    · rw [hpc]
      split <;> rfl
    · split <;> simp
  | locking =>
    simp only [hpc] at h
    exact ⟨_, moves_acquire rfl (by simp) h⟩
  | headTest =>
    simp only [hpc, Option.some_inj] at h
    subst h
    refine ⟨_, moves_goto ?_ ?_⟩
    · rw [hpc]
      split <;> rfl
    · split <;> simp
  | runningTest =>
    -- the only way to the wait
    simp only [hpc, Option.some_inj] at h
    subst h
    refine ⟨_, moves_goto ?_ ?_⟩
    · rw [hpc]
      split <;> rfl
    · intro hw
      by_contra hr
      rw [if_neg hr] at hw
      simp at hw
  | waiting =>
    simp only [hpc] at h
    exact ⟨_, moves_wait hpc rfl h⟩
  | inWait =>
    simp only [hpc] at h
    exact ⟨_, moves_wake rfl (by simp) h⟩
  | leaving =>
    simp only [hpc, Option.some_inj] at h
    subst h
    refine ⟨_, moves_goto ?_ ?_⟩
    · rw [hpc]
      split <;> rfl
    · split <;> simp
  | taking =>
    simp only [hpc] at h
    exact ⟨_, moves_onQueue (by rw [hpc]; rfl) (by simp) h⟩
  | unlocking task =>
    cases task with
    | none =>
      simp only [hpc] at h
      exact ⟨_, moves_release rfl h⟩
    | some a =>
      simp only [hpc] at h
      exact ⟨_, moves_release rfl h⟩
  | serving a =>
    simp only [hpc] at h
    exact ⟨_, moves_onQueue (by rw [hpc]; rfl) (by simp) h⟩

/-- Moving on without an access to the lock or to `RUNNING`. -/
theorem moves_mainGoto {pc : MainPc} (hin : pc.inside = true → s.main.inside = true)
    (hstop : pc.stopped = true → s.main.stopped = true ∨ s.RUNNING = false) :
    MainMoves s (s.mainGoto pc) where
  running := Or.inl rfl
  stopped := hstop
  worker := fun _ => Or.inl rfl
  announced := rfl
  asleep := fun _ hp => hp
  owner := fun _ ho => ho
  inside := fun h => Or.inr ⟨hin h, rfl⟩
  queue := Or.inl rfl

/-- Setting `RUNNING` to 0. -/
theorem moves_clear {p : MainPc} (hin : p.inside = true → s.main.inside = true) :
    MainMoves s ({ s with RUNNING := false }.mainGoto p) where
  running := Or.inr rfl
  stopped := fun _ => Or.inr rfl
  worker := fun _ => Or.inl rfl
  announced := rfl
  asleep := fun _ hp => hp
  owner := fun _ ho => ho
  inside := fun h => Or.inr ⟨hin h, rfl⟩
  queue := Or.inl rfl

/-- What main does is of the same kinds, and never unsets `RUNNING` without the broadcast to come.
-/
theorem moves_main_acquire {pc : MainPc}
    (hstop : pc.stopped = true → s.main.stopped = true)
    (h : (s.onTq (acquire .main)).map (mainGoto pc) = some s') : MainMoves s s' := by
  rcases Option.map_eq_some_iff.mp h with ⟨t, ht, rfl⟩
  rcases onTq_eq_some.mp ht with ⟨tq, htq, rfl⟩
  rcases acquire_eq_some.mp htq with ⟨ho, rfl⟩
  refine ⟨Or.inl rfl, fun h => Or.inl (hstop h), fun _ => Or.inl rfl, rfl, fun _ hp => hp, ?_,
    fun _ => Or.inl rfl, Or.inl rfl⟩
  intro i hi
  rw [ho] at hi
  exact absurd hi (by simp)

theorem moves_main_release {pc : MainPc} (hin : pc.inside = false)
    (hstop : pc.stopped = true → s.main.stopped = true)
    (h : (s.onTq (release .main)).map (mainGoto pc) = some s') : MainMoves s s' := by
  rcases Option.map_eq_some_iff.mp h with ⟨t, ht, rfl⟩
  rcases onTq_eq_some.mp ht with ⟨tq, htq, rfl⟩
  rcases release_eq_some.mp htq with ⟨ho, rfl⟩
  refine ⟨Or.inl rfl, fun h => Or.inl (hstop h), fun _ => Or.inl rfl, rfl, fun _ hp => hp, ?_, ?_,
    Or.inl rfl⟩
  · intro i hi
    rw [ho] at hi
    exact absurd hi (by simp)
  · intro hc
    exact absurd (hin ▸ hc : false = true) (by simp)

theorem moves_main_onQueue {lbl : QueueLbl} {pc : MainPc}
    (hin : pc.inside = true → s.main.inside = true)
    (hstop : pc.stopped = true → s.main.stopped = true)
    (h : (s.onQueue lbl).map (mainGoto pc) = some s') : MainMoves s s' := by
  rcases Option.map_eq_some_iff.mp h with ⟨t, ht, rfl⟩
  rcases onQueue_eq_some.mp ht with ⟨queue, hq, rfl⟩
  exact ⟨Or.inl rfl, fun h => Or.inl (hstop h), fun _ => Or.inl rfl, rfl, fun _ hp => hp,
    fun _ ho => ho, fun h => Or.inr ⟨hin h, rfl⟩, Or.inr ⟨lbl, hq⟩⟩

/-- A step of `main` without a choice. -/
theorem mainStep_spec {size : Nat} (h : s.mainStep size = some s') :
    MainMoves s s' ∨ Broadcasts s s' := by
  unfold mainStep at h
  cases hpc : s.main with
  -- the two broadcasts; every other step of `main` leaves the sleepers asleep
  | initBroadcast created =>
    simp only [hpc, Option.some_inj] at h
    subst h
    refine Or.inr ⟨Or.inl ?_, rfl, rfl, rfl, rfl, ?_, rfl⟩
    · rw [hpc]
      rfl
    · rw [hpc]
      rfl
  | destroyBroadcast =>
    simp only [hpc, Option.some_inj] at h
    subst h
    refine Or.inr ⟨Or.inr hpc, rfl, rfl, rfl, rfl, ?_, rfl⟩
    rw [hpc]
    rfl
  | reaping created j =>
    simp only [hpc] at h
    left
    split at h
    · rcases Option.ite_none_right_eq_some.mp h with ⟨-, h⟩
      obtain rfl := Option.some.inj h
      exact moves_mainGoto (by simp [MainPc.inside]) fun _ => Or.inl (by rw [hpc]; rfl)
    · obtain rfl := Option.some.inj h
      exact moves_mainGoto (by simp [MainPc.inside]) (by simp [MainPc.stopped])
  -- the queue is locked and unlocked as by any other thread
  | enqueueing a =>
    simp only [hpc] at h
    exact Or.inl (moves_main_acquire (by simp [MainPc.stopped]) h)
  | linking a =>
    simp only [hpc] at h
    exact Or.inl (moves_main_onQueue (fun _ => by rw [hpc]; rfl) (by simp [MainPc.stopped]) h)
  | unlocking =>
    simp only [hpc] at h
    exact Or.inl (moves_main_release rfl (by simp [MainPc.stopped]) h)
  | teardown =>
    simp only [hpc, Option.some_inj] at h
    subst h
    exact Or.inl (moves_clear (by simp [MainPc.inside]))
  | destroy =>
    simp only [hpc, Option.some_inj] at h
    subst h
    refine Or.inl (moves_mainGoto ?_ fun _ => Or.inl (by rw [hpc]; rfl))
    split <;> simp [MainPc.inside]
  | destroyLock =>
    simp only [hpc] at h
    exact Or.inl (moves_main_acquire (fun _ => by rw [hpc]; rfl) h)
  | destroyUnlock =>
    simp only [hpc] at h
    exact Or.inl (moves_main_release rfl (fun _ => by rw [hpc]; rfl) h)
  | joining j =>
    simp only [hpc] at h
    left
    split at h
    · rcases Option.ite_none_right_eq_some.mp h with ⟨-, h⟩
      obtain rfl := Option.some.inj h
      exact moves_mainGoto (by simp [MainPc.inside]) fun _ => Or.inl (by rw [hpc]; rfl)
    · obtain rfl := Option.some.inj h
      exact moves_mainGoto (by simp [MainPc.inside]) fun _ => Or.inl (by rw [hpc]; rfl)
  | allocating | creating _ | settingUp | loop | signalling | done => simp [hpc] at h

/-- A step of the server is a step of a worker, a broadcast or another step of `main`. -/
theorem step_cases {size : Nat} {lbl : PoolLbl} (h : PoolRun.step size lbl s = some s') :
    (∃ i pc', WorkerMoves i pc' s s') ∨ MainMoves s s' ∨ lbl = .main ∧ Broadcasts s s' := by
  -- the steps with operands of their own are those of main, outside `mainStep`
  cases lbl with
  | worker i =>
    rcases workerStep_spec h with ⟨pc', hw⟩
    exact Or.inl ⟨i, pc', hw⟩
  | main =>
    rcases mainStep_spec h with hm | hb
    · exact Or.inr (Or.inl hm)
    · exact Or.inr (Or.inr ⟨rfl, hb⟩)
  | malloc succeeds =>
    rcases Option.ite_none_right_eq_some.mp h with ⟨-, h⟩
    obtain rfl := Option.some.inj h
    refine Or.inr (Or.inl (moves_mainGoto ?_ ?_)) <;> split <;>
      simp [MainPc.inside, MainPc.stopped]
  | create succeeds =>
    right; left
    simp only [PoolRun.step] at h
    split at h
    · split at h
      · split at h
        · -- a new worker starts at the loop of `worker_routine`
          obtain rfl := Option.some.inj h
          refine ⟨Or.inl rfl, by simp [mainGoto, MainPc.stopped], fun i => ?_, rfl,
            fun _ hp => hp, fun _ ho => ho, by simp [mainGoto, MainPc.inside], Or.inl rfl⟩
          rename_i created _ _ _
          by_cases hi : i = created
          · right
            simp [mainGoto, goto, hi]
          · left
            simp [mainGoto, goto, hi]
        · obtain rfl := Option.some.inj h
          exact moves_clear (by simp [MainPc.inside])
      · obtain rfl := Option.some.inj h
        exact moves_mainGoto (by simp [MainPc.inside]) (by simp [MainPc.stopped])
    · simp at h
  | setUp succeeds =>
    rcases Option.ite_none_right_eq_some.mp h with ⟨-, h⟩
    right; left
    split at h
    · obtain rfl := Option.some.inj h
      exact ⟨Or.inl rfl, by simp [mainGoto, MainPc.stopped], fun _ => Or.inl rfl, rfl,
        fun _ hp => hp, fun _ ho => ho, by simp [mainGoto, MainPc.inside], Or.inl rfl⟩
    · obtain rfl := Option.some.inj h
      exact moves_mainGoto (by simp [MainPc.inside]) (by simp [MainPc.stopped])
  | signal =>
    rcases Option.ite_none_left_eq_some.mp h with ⟨-, h⟩
    obtain rfl := Option.some.inj h
    exact Or.inr (Or.inl (moves_clear (p := s.main) fun h => h))
  | giveUp =>
    rcases Option.ite_none_right_eq_some.mp h with ⟨-, h⟩
    obtain rfl := Option.some.inj h
    exact Or.inr (Or.inl (moves_clear (p := s.main) fun h => h))
  | leave =>
    rcases Option.ite_none_right_eq_some.mp h with ⟨-, h⟩
    obtain rfl := Option.some.inj h
    exact Or.inr (Or.inl (moves_mainGoto (by simp [MainPc.inside]) (by simp [MainPc.stopped])))
  | enqueue type pid request client block =>
    rcases Option.ite_none_right_eq_some.mp h with ⟨-, h⟩
    cases block <;>
      exact Or.inr (Or.inl
        (moves_main_onQueue (by simp [MainPc.inside]) (by simp [MainPc.stopped]) h))
  | condSignal woken =>
    rcases Option.ite_none_right_eq_some.mp h with ⟨hpc, h⟩
    rcases Option.map_eq_some_iff.mp h with ⟨t, ht, rfl⟩
    rcases onTq_eq_some.mp ht with ⟨tq, htq, rfl⟩
    rcases signal_spec htq with ⟨ho, hsub⟩
    refine Or.inr (Or.inl ⟨Or.inl rfl, by simp [mainGoto, MainPc.stopped], fun _ => Or.inl rfl,
      rfl, hsub, fun i hi => ho.trans hi, fun _ => Or.inr ⟨?_, ho⟩, Or.inl rfl⟩)
    rw [hpc]
    rfl

end Moves

/-! ### The invariant -/

/-- What holds between two steps. -/
structure Inv (s : PoolRun) : Prop where
  /-- A thread inside a section of `tq_lock` holds the lock. -/
  holds : ∀ p, s.inside p = true → s.tq.owner = some p
  stopped : s.main.stopped = true → s.RUNNING = false
  announced : s.announced = true → s.RUNNING = false
  quiet : s.announced = true → NobodySleeps s

/-- Before anything has begun nobody holds the lock. -/
theorem inv_init : Inv .init where
  holds := fun p h => by
    cases p <;> simp [PoolRun.inside, PoolRun.init, WorkerPc.inside, MainPc.inside] at h
  stopped := by simp [PoolRun.init, MainPc.stopped]
  announced := by simp [PoolRun.init]
  quiet := by simp [PoolRun.init]

variable {s s' : PoolRun}

/-- At most one thread is inside a section. -/
theorem Inv.exclusive (h : Inv s) {p p' : Party} (hp : s.inside p = true)
    (hp' : s.inside p' = true) : p = p' :=
  Option.some.inj ((h.holds p hp).symm.trans (h.holds p' hp'))

/-- The other threads stay where they are. -/
theorem WorkerMoves.inside_ne {i : Nat} {pc' : WorkerPc} (hm : WorkerMoves i pc' s s') {p : Party}
    (hp : p ≠ .worker i) : s'.inside p = s.inside p := by
  cases p with
  | main => exact congrArg MainPc.inside hm.main
  | worker j =>
    have hji : j ≠ i := fun hji => hp (hji ▸ rfl)
    show (s'.worker j).inside = (s.worker j).inside
    rw [hm.worker, Function.update_of_ne hji]

/-- Whether a worker is inside depends on its place alone. -/
theorem WorkerMoves.inside_self {i : Nat} {pc' : WorkerPc} (hm : WorkerMoves i pc' s s') :
    s'.inside (.worker i) = pc'.inside := by
  show (s'.worker i).inside = pc'.inside
  rw [hm.worker, Function.update_self]

/-- Mutual exclusion survives the step of a worker. -/
theorem Inv.worker_holds {i : Nat} {pc' : WorkerPc} (h : Inv s) (hm : WorkerMoves i pc' s s')
    (p : Party) (hp : s'.inside p = true) : s'.tq.owner = some p := by
  have hlock := hm.lock
  by_cases hpi : p = .worker i
  · subst hpi
    rw [hm.inside_self] at hp
    generalize s'.tq = tq' at hlock ⊢
    cases hlock with
    | keep hin _ => exact h.holds _ (hin.symm.trans hp)
    | acquire => rfl
    | release _ hin | wait _ _ hin =>
      rw [hin] at hp
      exact absurd hp (by simp)
  · rw [hm.inside_ne hpi] at hp
    have ho : s.tq.owner = some p := h.holds p hp
    generalize s'.tq = tq' at hlock ⊢
    cases hlock with
    | keep => exact ho
    | acquire hfree =>
      rw [hfree] at ho
      exact absurd ho (by simp)
    | release hself | wait hself =>
      -- the lock has one holder
      rw [hself] at ho
      exact absurd (Option.some.inj ho).symm hpi

/-- With `RUNNING` at 0 no worker moves into the wait. -/
theorem WorkerMoves.nobodySleeps {i : Nat} {pc' : WorkerPc} (hm : WorkerMoves i pc' s s')
    (hrun : s.RUNNING = false) (hq : NobodySleeps s) : NobodySleeps s' := by
  have hlock := hm.lock
  have hpc : s.worker i ≠ .waiting := (hq i).1
  -- a worker enters the wait under the lock, after it has read `RUNNING`
  have hpc' : pc' ≠ .waiting := by
    intro hw
    generalize s'.tq = tq' at hlock
    cases hlock with
    | keep _ hwait =>
      rw [hrun] at hwait
      exact absurd (hwait hw) (by simp)
    | acquire _ _ hwait => exact hwait hw
    | release _ hin | wait _ _ hin =>
      subst hw
      simp [WorkerPc.inside] at hin
  intro j
  constructor
  · show s'.worker j ≠ .waiting
    rw [hm.worker]
    by_cases hji : j = i
    · subst hji
      rwa [Function.update_self]
    · rw [Function.update_of_ne hji]
      exact (hq j).1
  · show .worker j ∉ s'.tq.asleep
    have hj : .worker j ∉ s.tq.asleep := (hq j).2
    generalize s'.tq = tq' at hlock ⊢
    -- only `pthread_cond_wait` adds a sleeper, and no worker is about to call it
    cases hlock with
    | wait _ hw => exact absurd hw hpc
    | _ => exact hj

/-- A step of a worker keeps the lock with one holder and nobody asleep after the broadcast. -/
theorem Inv.worker {i : Nat} {pc' : WorkerPc} (h : Inv s) (hm : WorkerMoves i pc' s s') :
    Inv s' where
  holds := h.worker_holds hm
  stopped := fun hs => by
    rw [hm.main] at hs
    rw [hm.running]
    exact h.stopped hs
  announced := fun ha => by
    rw [hm.announced] at ha
    rw [hm.running]
    exact h.announced ha
  quiet := fun ha => by
    rw [hm.announced] at ha
    exact hm.nobodySleeps (h.announced ha) (h.quiet ha)

/-- A step of main other than the broadcast keeps the lock with one holder and nobody asleep after
the broadcast. -/
theorem Inv.main (h : Inv s) (hm : MainMoves s s') : Inv s' where
  holds := fun p hp => by
    cases p with
    | main =>
      rcases hm.inside hp with ho | ⟨hin, ho⟩
      · exact ho
      · exact ho.trans (h.holds .main hin)
    | worker i =>
      rcases hm.worker i with hw | hw
      · refine hm.owner i (h.holds (.worker i) ?_)
        show (s.worker i).inside = true
        exact hw ▸ hp
      · -- a new worker is not inside
        have hp' : (s'.worker i).inside = true := hp
        rw [hw] at hp'
        simp [WorkerPc.inside] at hp'
  stopped := fun hs => by
    rcases hm.stopped hs with hold | hnew
    · rcases hm.running with hr | hr
      · exact hr.trans (h.stopped hold)
      · exact hr
    · exact hnew
  announced := fun ha => by
    rw [hm.announced] at ha
    rcases hm.running with hr | hr
    · exact hr.trans (h.announced ha)
    · exact hr
  quiet := fun ha i => by
    rw [hm.announced] at ha
    have hq := h.quiet ha i
    constructor
    · show s'.worker i ≠ .waiting
      rcases hm.worker i with hw | hw
      · rw [hw]
        exact hq.1
      · simp [hw]
    · exact fun hb => hq.2 (hm.asleep _ hb)

/-- Both broadcasts come after `RUNNING = 0`. -/
theorem Inv.running_of_broadcasts (h : Inv s) (hb : Broadcasts s s') : s'.RUNNING = false := by
  rw [hb.running]
  apply h.stopped
  rcases hb.origin with hf | hpc
  · exact MainPc.stopped_of_failing hf
  · rw [hpc]
    rfl

/-- A broadcast leaves nobody asleep; what counts is that nobody is on the way. -/
theorem Inv.broadcast (h : Inv s) (hb : Broadcasts s s') (hclear : ∀ i, s.worker i ≠ .waiting) :
    Inv s' where
  holds := fun p hp => by
    rw [hb.owner]
    apply h.holds
    cases p with
    | main => exact hb.inside.symm.trans hp
    | worker i =>
      show (s.worker i).inside = true
      rw [← hb.worker]
      exact hp
  stopped := fun _ => h.running_of_broadcasts hb
  announced := fun _ => h.running_of_broadcasts hb
  -- a broadcast wakes everybody
  quiet := fun _ i => by
    constructor
    · show s'.worker i ≠ .waiting
      rw [hb.worker]
      exact hclear i
    · show .worker i ∉ s'.tq.asleep
      simp [hb.asleep]

/-- `threadpool_destroy` holds the lock, so no worker is on its way into the wait. -/
theorem Inv.clear_of_destroy (h : Inv s) (hpc : s.main = .destroyBroadcast) (i : Nat) :
    s.worker i ≠ .waiting := by
  intro hw
  have hworker : s.inside (.worker i) = true := by
    show (s.worker i).inside = true
    rw [hw]
    rfl
  have hmain : s.inside .main = true := by
    show s.main.inside = true
    rw [hpc]
    rfl
  exact absurd (h.exclusive hworker hmain) (by simp)

/-- Every step keeps the invariant, as long as `pthread_create` fails apart from sleeping workers.
-/
theorem step_inv {size : Nat} {lbl : PoolLbl} (hn : PoolRun.step size lbl s = some s')
    (hok : FailsApart lbl s) (h : Inv s) : Inv s' := by
  rcases step_cases hn with ⟨i, pc', hw⟩ | hm | ⟨hlbl, hb⟩
  · exact h.worker hw
  · exact h.main hm
  · apply h.broadcast hb
    rcases hb.origin with hf | hpc
    · -- without the lock, the moment decides
      exact hok hlbl hf
    · exact h.clear_of_destroy hpc

/-- The invariant holds in every run in which `pthread_create` does not fail behind a sleeping
worker. -/
theorem reachable_inv {size : Nat} (h : ((system size).under FailsApart).Reachable s) : Inv s := by
  refine h.invariant (fun s hs => ?_) (fun lbl s s' hn hinv => ?_)
  · subst hs
    exact inv_init
  · exact step_inv hn.2 hn.1 hinv

/-- The condition is exact: a broadcast that does not meet it leaves a worker committed. -/
theorem committed_of_early_broadcast {size i : Nat} (hf : s.main.failing = true)
    (hw : s.worker i = .waiting) (hn : PoolRun.step size .main s = some s') :
    s'.announced = true ∧ s'.Committed i := by
  cases hpc : s.main with
  | initBroadcast created =>
    simp only [PoolRun.step, mainStep, hpc, Option.some_inj] at hn
    subst hn
    exact ⟨rfl, hw⟩
  | _ => simp [hpc, MainPc.failing] at hf

/-! ### The queue under the monitor -/

/-- Under `tq_lock` the server runs the task queue. -/
theorem refines_queue (size : Nat) :
    Refines (system size) QueueFifo.system PoolRun.queue where
  init := fun s hs => by
    subst hs
    rfl
  step := fun lbl s s' _ hn => by
    have hmoves : QueueMoves s s' := by
      rcases step_cases hn with ⟨i, pc', hw⟩ | hm | ⟨-, hb⟩
      · exact hw.queue
      · exact hm.queue
      · exact Or.inl hb.queue
    rcases hmoves with heq | ⟨l, hl⟩
    · exact Or.inr heq
    · exact Or.inl ⟨l, hl⟩

/-! ### Results -/

/-- In every run in which the failure path of `threadpool_init`, if it is taken, broadcasts
while no worker is between its tests and its wait: once a shutdown has broadcast, no worker
is blocked on `tq_not_empty` or committed to blocking on it. -/
theorem nobody_sleeps_after_broadcast {size : Nat}
    (h : ((system size).under FailsApart).Reachable s) (ha : s.announced = true) :
    NobodySleeps s :=
  (reachable_inv h).quiet ha

/-- A worker falls asleep on the empty queue, and a signal ends the main loop. -/
def signalRun : List PoolLbl :=
  [.malloc true, .create true, .create true, .worker 0, .worker 0, .worker 0, .worker 0, .worker 0,
    .setUp true, .signal, .leave, .main, .main, .main, .main]

theorem nobody_sleeps_after_broadcast_signalRun :
    ∃ s, ((system 1).under FailsApart).Reachable s ∧ s.announced = true ∧ NobodySleeps s := by
  have hok : ∀ lbl s, s.main.failing = false → FailsApart lbl s := by
    intro lbl s hf _ ht
    rw [hf] at ht
    exact absurd ht (by simp)
  obtain ⟨s, hr, hs⟩ := exists_reachable_of_run .init
    (guarded (fun _ s => s.main.failing = false) (PoolRun.step 1)) signalRun
    (fun s => s.announced) (by decide)
  rw [← under_ofStep] at hr
  exact ⟨s, hr.under_mono hok, hs, nobody_sleeps_after_broadcast (hr.under_mono hok) hs⟩

/-- The first worker finds the queue empty and `RUNNING` nonzero, the second one cannot be
created, and the broadcast comes before the wait. -/
def lostWakeup : List PoolLbl :=
  [.malloc true, .create true, .worker 0, .worker 0, .worker 0, .worker 0, .create false, .main,
    .worker 0]

/-- The broadcast of the failure path can be lost. -/
theorem sleeps_after_broadcast :
    ¬ ∀ size s, (system size).Reachable s → s.announced = true → NobodySleeps s := by
  intro h
  obtain ⟨s, hr, hs⟩ := exists_reachable_of_run .init (PoolRun.step 2) lostWakeup
    (fun s => s.announced && s.tq.asleep.contains (.worker 0)) (by decide)
  simp only [Bool.and_eq_true, List.contains_iff_mem] at hs
  exact (h 2 s hr hs.1 0).2 hs.2

end AnimateServer.Shutdown
